import StudyWebServer.Library.CString
import StudyWebServer.Library.Cutting
import StudyWebServer.Library.Loop
import StudyWebServer.WebServer.Buffer
import Mathlib.Logic.Function.Basic

/-!
HttpRequest of WebServer-master/code/http, with process() of HttpConn up to the response. The
regular expressions are read as the cuts that they stand for; what the database says to a name
and a password is a parameter.
-/

namespace StudyWebServer.WebServer

open CString Cutting

inductive ParseState where
  | requestLine
  | headers
  | body
  | finish
  deriving DecidableEq

structure HttpRequest where
  state : ParseState
  method : Bytes
  path : Bytes
  version : Bytes
  body : Bytes
  header : Bytes → Option Bytes
  post : Bytes → Option Bytes

namespace HttpRequest

def defaultHtml : List Bytes :=
  ["/index", "/register", "/login", "/welcome", "/video", "/picture"].map ascii

/-- DEFAULT_HTML_TAG: whether the page is the one for logging in. -/
def defaultHtmlTag (path : Bytes) : Option Bool :=
  if path = ascii "/register.html" then some false
  else if path = ascii "/login.html" then some true
  else none

def init : HttpRequest where
  state := .requestLine
  method := []
  path := []
  version := []
  body := []
  header _ := none
  post _ := none

def isKeepAlive (r : HttpRequest) : Bool :=
  r.header (ascii "Connection") = some (ascii "keep-alive") && r.version = ascii "1.1"

/-- `^([^ ]*) ([^ ]*) HTTP/([^ ]*)$` -/
def matchRequestLine (line : Bytes) : Option (Bytes × Bytes × Bytes) :=
  match cut [32] line with
  | (method, some behind) =>
      match cut [32] behind with
      | (path, some last) =>
          if (ascii "HTTP/").isPrefixOf last ∧ (32 : UInt8) ∉ last then
            some (method, path, last.drop 5)
          else none
      | (_, none) => none
  | (_, none) => none

/-- The space that `: ?` takes if it is there. -/
def withoutSpace (value : Bytes) : Bytes := if value.head? = some 32 then value.tail else value

/-- `^([^:]*): ?(.*)$`, where the point stands for anything but CR and LF -/
def matchHeader (line : Bytes) : Option (Bytes × Bytes) :=
  match cut [58] line with
  | (key, some behind) =>
      if (10 : UInt8) ∉ behind ∧ (13 : UInt8) ∉ behind then some
        (key, withoutSpace behind) else none
  | (_, none) => none

def parseRequestLine (r : HttpRequest) (line : Bytes) : Option HttpRequest :=
  (matchRequestLine line).map fun (method, path, version) =>
    { r with method := method, path := path, version := version, state := .headers }

def htmlPath (path : Bytes) : Bytes :=
  if path = ascii "/" then ascii "/index.html"
  else if path ∈ defaultHtml then path ++ ascii ".html"
  else path

def parsePath (r : HttpRequest) : HttpRequest := { r with path := htmlPath r.path }

def parseHeader (r : HttpRequest) (line : Bytes) : HttpRequest :=
  match matchHeader line with
  | some (key, value) => { r with header := Function.update r.header key (some value) }
  | none => { r with state := .body }

/-- The value of a char, which is signed. -/
def charValue (ch : UInt8) : Int := if ch.toNat < 128 then ch.toNat else ch.toNat - 256

/-- What a char keeps of an int. -/
def toChar (value : Int) : UInt8 := UInt8.ofNat (value % 256).toNat

def converHex (ch : UInt8) : Int :=
  if 65 ≤ ch ∧ ch ≤ 70 then charValue ch - 65 + 10
  else if 97 ≤ ch ∧ ch ≤ 102 then charValue ch - 97 + 10
  else charValue ch

/-- What `%` and two more characters are stored as. -/
def escaped (high low : UInt8) : UInt8 × UInt8 :=
  let num := converHex high * 16 + converHex low
  (toChar (num.tdiv 10 + 48), toChar (num.tmod 10 + 48))

structure Decoding where
  body : Bytes
  i : Nat
  j : Nat
  key : Bytes
  post : Bytes → Option Bytes

/-- `body_.substr(j, i - j)` -/
def Decoding.substr (d : Decoding) : Bytes := (d.body.drop d.j).take (d.i - d.j)

/-- A place of the string that is not there is read or written only behind `%`. The int `n`
holds its length, for a body of less than 2^31 bytes. -/
def decodeRound (d : Decoding) : Decoding ⊕ Except Fault Decoding :=
  match d.body[d.i]? with
  | none => .inr (.ok d)
  | some ch =>
      if ch = 61 then .inl { d with key := d.substr, j := d.i + 1, i := d.i + 1 }
      else if ch = 43 then .inl { d with body := d.body.set d.i 32, i := d.i + 1 }
      else if ch = 37 then
        match d.body[d.i + 1]?, d.body[d.i + 2]? with
        | some high, some low => .inl { d with
            body := (d.body.set (d.i + 2) (escaped high low).2).set (d.i + 1) (escaped high low).1
            i := d.i + 3 }
        | _, _ => .inr (.error .outside)
      else if ch = 38 then .inl { d with
        post := Function.update d.post d.key (some d.substr), j := d.i + 1, i := d.i + 1 }
      else .inl { d with i := d.i + 1 }

theorem decode_decreases : Loop.Decreases decodeRound fun d => d.body.length - d.i := by
  intro d next round
  unfold decodeRound at round
  split at round
  · cases round
  · next ch here =>
      have inside : d.i < d.body.length := (List.getElem?_eq_some_iff.mp here).1
      split_ifs at round with equals plus percent ampersand
      · cases round
        dsimp only
        omega
      · cases round
        dsimp only
        rw [List.length_set]
        omega
      · split at round
        · cases round
          dsimp only
          rw [List.length_set, List.length_set]
          omega
        · cases round
      · cases round
        dsimp only
        omega
      · cases round
        dsimp only
        omega

def decode (d : Decoding) : Except Fault Decoding :=
  Loop.run decodeRound (fun d => d.body.length - d.i) decode_decreases d

def parseFromUrlencoded (r : HttpRequest) : Except Fault HttpRequest :=
  if r.body.length = 0 then .ok r
  else
    match decode ⟨r.body, 0, 0, [], r.post⟩ with
    | .error fault => .error fault
    | .ok d =>
        if d.j ≤ d.i then
          .ok { r with
            body := d.body
            post := if d.post d.key = none ∧ d.j < d.i then
              Function.update d.post d.key (some d.substr) else d.post }
        else .error .assertion

/-- `map[key]` of a map, which puts an empty string in if there is nothing. -/
def lookup (map : Bytes → Option Bytes) (key : Bytes) : Bytes × (Bytes → Option Bytes) :=
  match map key with
  | some value => (value, map)
  | none => ([], Function.update map key (some []))

section Database
variable (verify : Bytes → Bytes → Bool → Bool)

def userVerify (name pwd : Bytes) (isLogin : Bool) : Bool :=
  if name = [] ∨ pwd = [] then false else verify name pwd isLogin

def parsePost (r : HttpRequest) : Except Fault HttpRequest :=
  if r.method = ascii "POST" then
    let (contentType, header) := lookup r.header (ascii "Content-Type")
    let r := { r with header := header }
    if contentType = ascii "application/x-www-form-urlencoded" then
      match r.parseFromUrlencoded with
      | .error fault => .error fault
      | .ok r =>
          match defaultHtmlTag r.path with
          | none => .ok r
          | some isLogin =>
              let (name, post) := lookup r.post (ascii "username")
              let (pwd, post) := lookup post (ascii "password")
              .ok { r with
                post := post
                path := if userVerify verify name pwd isLogin then ascii "/welcome.html"
                  else ascii "/error.html" }
    else .ok r
  else .ok r

def parseBody (r : HttpRequest) (line : Bytes) : Except Fault HttpRequest :=
  match parsePost verify { r with body := line } with
  | .error fault => .error fault
  | .ok r => .ok { r with state := .finish }

def crlf : Bytes := [13, 10]

/-- What one line does to the request; nothing when the request line does not match. -/
def takeLine (r : HttpRequest) (line : Bytes) (readable : Nat) :
    Except Fault (Option HttpRequest) :=
  match r.state with
  | .requestLine => .ok ((r.parseRequestLine line).map parsePath)
  | .headers =>
      let r := r.parseHeader line
      .ok (some (if readable ≤ 2 then { r with state := .finish } else r))
  | .body => (parseBody verify r line).map some
  | .finish => .ok (some r)

def parseRound (s : HttpRequest × Buffer) :
    (HttpRequest × Buffer) ⊕ Except Fault (Bool × HttpRequest × Buffer) :=
  let (r, buff) := s
  if buff.readableBytes = 0 ∨ r.state = .finish then .inr (.ok (true, r, buff))
  else
    match buff.load buff.readPos buff.readableBytes with
    | .error fault => .inr (.error fault)
    | .ok bytes =>
        let (line, behind) := cut crlf bytes
        match r.takeLine verify line buff.readableBytes with
        | .error fault => .inr (.error fault)
        | .ok none => .inr (.ok (false, r, buff))
        | .ok (some r) =>
            match behind with
            | none => .inr (.ok (true, r, buff))
            | some _ =>
                match buff.retrieveUntil (line.length + 2) with
                | .error fault => .inr (.error fault)
                | .ok buff => .inl (r, buff)

theorem retrieve_readable {b next : Buffer} {len : Nat} (went : b.retrieve len = .ok next) :
    next.readableBytes + len = b.readableBytes := by
  unfold Buffer.retrieve at went
  split_ifs at went with enough
  cases went
  unfold Buffer.readableBytes sizeT at *
  dsimp only
  omega

theorem load_length {b : Buffer} {pos len : Nat} {bytes : Bytes}
    (loaded : b.load pos len = .ok bytes) :
    bytes.length ≤ len := by
  unfold Buffer.load at loaded
  split_ifs at loaded
  cases loaded
  exact List.length_take_le _ _

theorem parse_decreases :
    Loop.Decreases (parseRound verify) fun (s : HttpRequest × Buffer) => s.2.readableBytes := by
  rintro ⟨r, buff⟩ next round
  unfold parseRound at round
  dsimp only at round
  split_ifs at round with ended
  split at round
  · cases round
  · next bytes loaded =>
      split at round
      · cases round
      · cases round
      · split at round
        · cases round
        · next rest found =>
            split at round
            · cases round
            · next after went =>
                cases round
                unfold Buffer.retrieveUntil at went
                split_ifs at went
                have fewer := retrieve_readable went
                have whole := congrArg List.length (cut_join found)
                simp only [List.length_append] at whole
                have most := load_length loaded
                have some_line : 0 < sizeT ((cut crlf bytes).1.length + 2) := by
                  unfold Buffer.readableBytes sizeT at *
                  change _ = _ + 2 + _ at whole
                  omega
                dsimp only
                omega

def parseLines (s : HttpRequest × Buffer) : Except Fault (Bool × HttpRequest × Buffer) :=
  Loop.run (parseRound verify) (fun s => s.2.readableBytes) (parse_decreases verify) s

def parse (r : HttpRequest) (buff : Buffer) : Except Fault (Bool × HttpRequest × Buffer) :=
  if buff.readableBytes = 0 then .ok (false, r, buff) else parseLines verify (r, buff)

/-- What process() hands to the response. -/
structure Answer where
  code : Nat
  path : Bytes
  isKeepAlive : Bool
  deriving DecidableEq

/-- process() of HttpConn; without an answer there is nothing in the buffer. -/
def process (buff : Buffer) : Except Fault (Option Answer × HttpRequest × Buffer) :=
  if buff.readableBytes = 0 then .ok (none, init, buff)
  else
    match parse verify init buff with
    | .error fault => .error fault
    | .ok (true, r, buff) => .ok (some ⟨200, r.path, r.isKeepAlive⟩, r, buff)
    | .ok (false, r, buff) => .ok (some ⟨400, r.path, false⟩, r, buff)

end Database

end HttpRequest

end StudyWebServer.WebServer
