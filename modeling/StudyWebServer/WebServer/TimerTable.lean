import StudyWebServer.WebServer.TimerHeap

/-!
What HeapTimer is for: a table of timers by id, from which tick takes those that are due,
in the order in which they expire. Every operation keeps the heap in order, but for an
adjust that moves a timer before the one above it.
-/

namespace StudyWebServer.WebServer

open BinaryHeap

namespace HeapTimer
variable {Callback : Type} {stray : Nat → Bool} {h next last : HeapTimer Callback} {i j n : Nat}

/-- The result of an operation that may have read outside of the vector. -/
def Yields (stray : Nat → Bool) (next : HeapTimer Callback) (result : Option (HeapTimer Callback)) :
    Prop := result = some next ∨ result = next.readOutside stray

/-- The same timer, but for the reads outside. -/
structure Alike (next last : HeapTimer Callback) : Prop where
  heap : last.heap = next.heap
  ref : last.ref = next.ref
  fired : last.fired = next.fired

theorem Yields.alike {result : Option (HeapTimer Callback)} (yields : Yields stray next result)
    (same : result = some last) : Alike next last := by
  rcases yields with settled | outside
  · cases settled.symm.trans same
    exact ⟨rfl, rfl, rfl⟩
  · rw [outside, readOutside] at same
    split_ifs at same
    cases same
    exact ⟨rfl, rfl, rfl⟩

theorem Yields.some {result : Option (HeapTimer Callback)} (yields : Yields stray next result)
    (calm : ∀ k, stray k = true) : ∃ last, result = some last := by
  rcases yields with settled | outside
  · exact ⟨next, settled⟩
  · rw [outside, readOutside, if_pos (calm _)]
    exact ⟨_, rfl⟩

theorem Alike.contents (alike : Alike next last) : last.contents = next.contents := by
  funext id
  rw [HeapTimer.contents, HeapTimer.contents, alike.heap, alike.ref]

theorem Alike.wellFormed (alike : Alike next last) (wellFormed : WellFormed next) :
    WellFormed last := by
  have keys : last.expiresAt = next.expiresAt := by
    funext k
    simp only [expiresAt, alike.heap]
  constructor
  · rw [keys, alike.heap]
    exact wellFormed.ordered
  · intro id k
    rw [alike.ref, alike.heap]
    exact wellFormed.indexed id k

theorem empty_well_formed : WellFormed (empty : HeapTimer Callback) := by
  refine ⟨fun c pos small => ?_, fun id i => ?_⟩
  · exact absurd small (Nat.not_lt_zero c)
  · constructor
    · exact fun found => by cases found
    · rintro ⟨node, found, -⟩
      cases found

/-- The first timer expires first. -/
theorem WellFormed.front (wellFormed : WellFormed h) {front : TimerNode Callback}
    (here : h.heap[0]? = some front) {node : TimerNode Callback} (member : node ∈ h.heap) :
    front.expires ≤ node.expires := by
  obtain ⟨i, there⟩ := List.mem_iff_getElem?.mp member
  obtain ⟨inside, -⟩ := List.getElem?_eq_some_iff.mp there
  have order := wellFormed.ordered.root_le inside
  rwa [expires_at here, expires_at there] at order

section Push

/-- A node at the end of the vector. -/
def push (h : HeapTimer Callback) (node : TimerNode Callback) : HeapTimer Callback :=
  { h with
    ref := Function.update h.ref node.id (some h.heap.length)
    heap := h.heap ++ [node] }

variable (node : TimerNode Callback)

theorem push_get (k : Nat) (small : k < h.heap.length) : (h.push node).heap[k]? = h.heap[k]? :=
  List.getElem?_append_left small

theorem push_last : (h.push node).heap[h.heap.length]? = some node := by
  simp [push]

theorem push_cases {k : Nat} {other : TimerNode Callback}
    (found : (h.push node).heap[k]? = some other) :
    h.heap[k]? = some other ∨ k = h.heap.length ∧ other = node := by
  rcases Nat.lt_or_ge k h.heap.length with before | behind
  · rw [push_get node k before] at found
    exact .inl found
  · have bound := (List.getElem?_eq_some_iff.mp found).1
    have length : (h.push node).heap.length = h.heap.length + 1 := by simp [push]
    have at_end : k = h.heap.length := by omega
    subst at_end
    cases (push_last node).symm.trans found
    exact .inr ⟨rfl, rfl⟩

theorem push_expires (k : Nat) (small : k < h.heap.length) :
    (h.push node).expiresAt k = h.expiresAt k := by
  simp only [expiresAt, push_get node k small]

theorem push_indexed (indexed : Indexed h) (fresh : h.ref node.id = none) :
    Indexed (h.push node) := by
  intro id k
  by_cases same : id = node.id
  · subst same
    show Function.update h.ref node.id (some h.heap.length) node.id = some k ↔ _
    rw [Function.update_self]
    constructor
    · rintro ⟨⟩
      exact ⟨node, push_last node, rfl⟩
    · rintro ⟨other, found, same⟩
      rcases push_cases node found with old | ⟨rfl, -⟩
      · have known := (indexed node.id k).mpr ⟨other, old, same⟩
        cases fresh.symm.trans known
      · rfl
  · show Function.update h.ref node.id (some h.heap.length) id = some k ↔ _
    rw [Function.update_of_ne same, indexed]
    constructor
    · rintro ⟨other, found, matches_id⟩
      obtain ⟨inside, -⟩ := List.getElem?_eq_some_iff.mp found
      exact ⟨other, (push_get node k inside).trans found, matches_id⟩
    · rintro ⟨other, found, matches_id⟩
      rcases push_cases node found with old | ⟨-, rfl⟩
      · exact ⟨other, old, matches_id⟩
      · exact absurd matches_id.symm same

theorem push_contents (indexed : Indexed h) :
    (h.push node).contents = Function.update h.contents node.id (some node) := by
  funext id
  by_cases same : id = node.id
  · subst same
    rw [Function.update_self]
    show (Function.update h.ref node.id (some h.heap.length) node.id).bind _ = some node
    rw [Function.update_self]
    exact push_last node
  · rw [Function.update_of_ne same]
    show (Function.update h.ref node.id (some h.heap.length) id).bind _ = (h.ref id).bind _
    rw [Function.update_of_ne same]
    cases found : h.ref id with
    | none => rfl
    | some k =>
        obtain ⟨other, here, -⟩ := (indexed id k).mp found
        exact push_get node k (List.getElem?_eq_some_iff.mp here).1

theorem push_ordered (ordered : Ordered h.expiresAt h.heap.length) :
    OrderedUp (h.push node).expiresAt (h.heap.length + 1) h.heap.length := by
  have lower {c : Nat} (pos : 0 < c) (small : c < h.heap.length + 1) :
      parent c < h.heap.length := by
    have := parent_lt pos
    omega
  constructor
  · constructor
    · intro c pos small apart _
      have inside : c < h.heap.length := by omega
      rw [push_expires node _ (lower pos small), push_expires node c inside]
      exact ordered c pos inside
    · intro _ c pos small below
      exact absurd below (lower pos small).ne
  · intro c pos small below
    exact absurd below (lower pos small).ne

end Push

section Set
variable (node : TimerNode Callback) {other : TimerNode Callback}

theorem set_at_get (k : Nat) (apart : k ≠ i) : (h.setAt i node).heap[k]? = h.heap[k]? :=
  List.getElem?_set_ne (Ne.symm apart)

theorem set_at_here (here : h.heap[i]? = some other) : (h.setAt i node).heap[i]? = some node :=
  List.getElem?_set_self (List.getElem?_eq_some_iff.mp here).1

theorem set_at_length : (h.setAt i node).heap.length = h.heap.length := List.length_set

theorem set_at_expires (k : Nat)
    (apart : k ≠ i) : (h.setAt i node).expiresAt k = h.expiresAt k := by
  simp only [expiresAt, set_at_get node k apart]

/-- A node is changed, but for its id. -/
theorem set_at_indexed (indexed : Indexed h) (here : h.heap[i]? = some other)
    (same : node.id = other.id) : Indexed (h.setAt i node) := by
  intro id k
  show h.ref id = some k ↔ _
  rw [indexed]
  by_cases at_i : k = i
  · subst at_i
    rw [set_at_here node here]
    constructor
    · rintro ⟨found, there, matches_id⟩
      cases here.symm.trans there
      exact ⟨node, rfl, same.trans matches_id⟩
    · rintro ⟨found, there, matches_id⟩
      cases there
      exact ⟨other, here, same.symm.trans matches_id⟩
  · rw [set_at_get node k at_i]

theorem set_at_contents (indexed : Indexed h) (here : h.heap[i]? = some other)
    (same : node.id = other.id) :
    (h.setAt i node).contents = Function.update h.contents node.id (some node) := by
  funext id
  have place : h.ref node.id = some i := (indexed node.id i).mpr ⟨other, here, same.symm⟩
  by_cases is_id : id = node.id
  · subst is_id
    rw [Function.update_self]
    show (h.ref node.id).bind _ = some node
    rw [place]
    exact set_at_here node here
  · rw [Function.update_of_ne is_id]
    show (h.ref id).bind _ = (h.ref id).bind _
    cases found : h.ref id with
    | none => rfl
    | some k =>
        refine set_at_get node k ?_
        rintro rfl
        obtain ⟨found, there, matches_id⟩ := (indexed id k).mp found
        cases here.symm.trans there
        exact is_id (matches_id.symm.trans same.symm)

theorem set_at_but (ordered : Ordered h.expiresAt h.heap.length) (here : h.heap[i]? = some other) :
    OrderedBut (h.setAt i node).expiresAt h.heap.length i := by
  have inside := (List.getElem?_eq_some_iff.mp here).1
  exact (ordered.but inside).congr (fun c _ apart => set_at_expires node c apart) inside

end Set

/-- What an operation did: the timers it fired and the table it left. -/
structure Effect (h next : HeapTimer Callback) (gone : List (TimerNode Callback))
    (table : Int → Option (TimerNode Callback)) : Prop where
  wellFormed : WellFormed next
  contents : next.contents = table
  fired : next.fired = h.fired ++ gone

theorem Effect.alike {gone : List (TimerNode Callback)} {table : Int → Option (TimerNode Callback)}
    (effect : Effect h next gone table) (alike : Alike next last) : Effect h last gone table :=
  ⟨alike.wellFormed effect.wellFormed, alike.contents.trans effect.contents,
    alike.fired.trans effect.fired⟩

section Remove
variable {node : TimerNode Callback}

theorem drop_back_indexed (indexed : Indexed h) (size : h.heap.length = n + 1)
    (back : h.heap[n]? = some node) :
    Indexed { h with ref := Function.update h.ref node.id none, heap := h.heap.dropLast } := by
  have before {k : Nat} (small : k < n) : h.heap.dropLast[k]? = h.heap[k]? := by
    rw [List.getElem?_dropLast, if_pos (by omega)]
  have behind {k : Nat} (large : n ≤ k) : h.heap.dropLast[k]? = none := by
    rw [List.getElem?_dropLast, if_neg (by omega)]
  intro id k
  show Function.update h.ref node.id none id = some k ↔
    ∃ other, h.heap.dropLast[k]? = some other ∧ other.id = id
  by_cases gone : id = node.id
  · subst gone
    rw [Function.update_self]
    refine ⟨fun found => (Option.some_ne_none k found.symm).elim, ?_⟩
    rintro ⟨other, here, same⟩
    rcases Nat.lt_or_ge k n with small | large
    · rw [before small] at here
      exact absurd (indexed.unique here back same) small.ne
    · rw [behind large] at here
      cases here
  · rw [Function.update_of_ne gone, indexed]
    constructor
    · rintro ⟨other, here, same⟩
      obtain ⟨inside, -⟩ := List.getElem?_eq_some_iff.mp here
      have apart : k ≠ n := by
        rintro rfl
        cases here.symm.trans back
        exact gone same.symm
      exact ⟨other, (before (by omega)).trans here, same⟩
    · rintro ⟨other, here, same⟩
      rcases Nat.lt_or_ge k n with small | large
      · exact ⟨other, (before small).symm.trans here, same⟩
      · rw [behind large] at here
        cases here

theorem drop_back_spec (indexed : Indexed h) (ordered : Ordered h.expiresAt n)
    (size : h.heap.length = n + 1) (back : h.heap[n]? = some node) : ∃ next,
    h.dropBack = some next ∧ Effect h next [] (Function.update h.contents node.id none) ∧
      next.strays = h.strays := by
  have last : h.heap.getLast? = some node := by
    rw [List.getLast?_eq_getElem?, size]
    exact back
  have shorter := drop_back_indexed indexed size back
  refine ⟨_, by simp only [dropBack, last], ⟨⟨?_, shorter⟩, ?_, (List.append_nil _).symm⟩, rfl⟩
  · intro c pos small
    have inside : c < n := by
      rw [List.length_dropLast] at small
      omega
    have up := parent_lt pos
    have before {k : Nat} (small : k < n) : h.heap.dropLast[k]? = h.heap[k]? := by
      rw [List.getElem?_dropLast, if_pos (by omega)]
    have order := ordered c pos inside
    unfold expiresAt at order ⊢
    rwa [before inside, before (up.trans inside)]
  · funext id
    by_cases gone : id = node.id
    · subst gone
      rw [Function.update_self]
      show (Function.update h.ref node.id none node.id).bind _ = none
      rw [Function.update_self]
      rfl
    · rw [Function.update_of_ne gone]
      show (Function.update h.ref node.id none id).bind _ = (h.ref id).bind _
      rw [Function.update_of_ne gone]
      cases found : h.ref id with
      | none => rfl
      | some k =>
          obtain ⟨other, here, same⟩ := (indexed id k).mp found
          obtain ⟨inside, -⟩ := List.getElem?_eq_some_iff.mp here
          have apart : k ≠ n := by
            rintro rfl
            cases here.symm.trans back
            exact gone same.symm
          show h.heap.dropLast[k]? = h.heap[k]?
          rw [List.getElem?_dropLast, if_pos (by omega)]

/-- del_ takes the timer at the position out. -/
theorem del_spec (stray : Nat → Bool) (wellFormed : WellFormed h)
    (here : h.heap[i]? = some node) : ∃ next,
    Effect h next [] (Function.update h.contents node.id none) ∧
      Yields stray next (h.del stray i) := by
  obtain ⟨inside, -⟩ := List.getElem?_eq_some_iff.mp here
  obtain ⟨n, size⟩ : ∃ n, h.heap.length = n + 1 := ⟨h.heap.length - 1, by omega⟩
  have last : h.heap.length - 1 = n := by omega
  unfold del
  rw [if_pos inside, last]
  by_cases at_end : i = n
  · subst at_end
    obtain ⟨next, dropped, effect, -⟩ := drop_back_spec wellFormed.indexed
      (size ▸ wellFormed.ordered).shorten size here
    exact ⟨next, effect, .inl (by simp only [Nat.lt_irrefl, if_false, dropped])⟩
  · have before : i < n := by omega
    obtain ⟨swapped, swap, moved, places, keys⟩ := wellFormed.indexed.swap_node
      (n := n + 1) (i := i) (j := n) inside (by omega) (by omega) (by omega)
    have but : OrderedBut swapped.expiresAt n i := by
      refine ((size ▸ wellFormed.ordered).shorten.but before).congr (fun c small apart => ?_) before
      rw [keys, swap_other apart small.ne]
    obtain ⟨settled, inner, ordered, result⟩ := settle_spec stray moved.indexed but
      before (by rw [moved.length]; omega)
    have back : settled.heap[n]? = some node := by
      rw [inner.behind n (Nat.le_refl n), places n, Equiv.swap_apply_right]
      exact here
    have length : settled.heap.length = n + 1 := by
      rw [inner.length, moved.length, size]
    obtain ⟨next, dropped, effect, strays⟩ :=
      drop_back_spec inner.indexed ordered length back
    rw [inner.contents moved.indexed, moved.contents wellFormed.indexed] at effect
    refine ⟨next, ⟨effect.wellFormed, effect.contents, ?_⟩, ?_⟩
    · rw [effect.fired, inner.fired, moved.fired]
    · simp only [before, if_true, swap]
      rcases result with result | result
      · exact .inl (by simp only [result, dropped])
      · right
        rw [result]
        unfold readOutside
        rw [strays]
        by_cases calm : stray settled.strays
        · simp only [calm, if_true]
          unfold dropBack at dropped ⊢
          split at dropped
          · cases dropped
          · next found =>
              cases dropped
              simp only [found]
        · simp only [calm]
          rfl

/-- doWork fires the timer with the id and takes it out. -/
theorem do_work_spec (wellFormed : WellFormed h) {id : Int} (known : h.contents id = some node) :
    ∃ next, Effect h next [node] (Function.update h.contents id none) ∧
      Yields stray next (h.doWork stray id) := by
  obtain ⟨i, place, here⟩ := Option.bind_eq_some_iff.mp known
  obtain ⟨-, same⟩ := (wellFormed.indexed.contents_iff id node).mp known
  have filled : h.heap ≠ [] := List.ne_nil_of_mem (List.mem_of_getElem? here)
  have fired : WellFormed (h.fire node) := ⟨wellFormed.ordered, wellFormed.indexed⟩
  obtain ⟨next, effect, yields⟩ := del_spec stray fired here
  rw [same] at effect
  refine ⟨next, ⟨effect.wellFormed, effect.contents, ?_⟩, ?_⟩
  · rw [effect.fired, fire, List.append_nil]
  · have there : h.heap[i]? = some node := here
    simp only [doWork, place, there, filled, if_false]
    exact yields

theorem do_work_unknown {id : Int} (wellFormed : WellFormed h) (unknown : h.contents id = none) :
    h.doWork stray id = some h := by
  simp only [doWork, wellFormed.indexed.unknown.mp unknown]

/-- pop takes a timer out that expires first. -/
theorem pop_spec (stray : Nat → Bool) (wellFormed : WellFormed h)
    (here : h.heap[0]? = some node) : ∃ next,
    Effect h next [] (Function.update h.contents node.id none) ∧
    Yields stray next (h.pop stray) := by
  have filled : h.heap ≠ [] := List.ne_nil_of_mem (List.mem_of_getElem? here)
  rw [pop, if_neg filled]
  exact del_spec stray wellFormed here

end Remove

section Enter
variable {id : Int} (now timeout : Int)

/-- add with a new id puts a timer in. The node outside of the vector is read exactly when
no timer in the vector expires before the new one. -/
theorem add_new (stray : Nat → Bool) (cb : Callback) (wellFormed : WellFormed h) (valid : 0 ≤ id)
    (unknown : h.contents id = none) :
    ∃ next, Effect h next [] (Function.update h.contents id (some ⟨id, now + millis timeout, cb⟩)) ∧
      next.strays = h.strays ∧ h.add stray id now timeout cb =
        if ∀ node ∈ h.heap, now + millis timeout ≤ node.expires then next.readOutside stray
        else some next := by
  have fresh : h.ref id = none := wellFormed.indexed.unknown.mp unknown
  let node : TimerNode Callback := ⟨id, now + millis timeout, cb⟩
  have indexed := push_indexed node wellFormed.indexed fresh
  have size : (h.push node).heap.length = h.heap.length + 1 := by simp [push]
  obtain ⟨next, moved, ordered, result⟩ := siftup_spec stray indexed
    (push_ordered node wellFormed.ordered) (Nat.lt_succ_self _) size.ge
  refine ⟨next, ⟨⟨?_, moved.indexed⟩, ?_, ?_⟩, moved.strays, ?_⟩
  · rw [moved.length, size]
    exact ordered
  · rw [moved.contents indexed, push_contents node wellFormed.indexed]
  · rw [moved.fired, List.append_nil]
    rfl
  · have sifted : h.add stray id now timeout cb =
        (h.push node).siftup stray h.heap.length := by
      simp only [add, not_lt.mpr valid, if_false, fresh]
      rfl
    rw [sifted, result, expires_at (push_last node)]
    refine if_congr ?_ rfl rfl
    constructor
    · intro first other member
      obtain ⟨front, there⟩ : ∃ front, h.heap[0]? = some front := by
        cases heap : h.heap with
        | nil =>
            rw [heap] at member
            cases member
        | cons front rest => exact ⟨front, rfl⟩
      have before := (List.getElem?_eq_some_iff.mp there).1
      rw [push_expires node 0 before, expires_at there] at first
      exact first.trans (wellFormed.front there member)
    · intro first
      rcases Nat.eq_zero_or_pos h.heap.length with none | some
      · have here : (h.push node).heap[h.heap.length]? = Option.some node := push_last node
        rw [none] at here
        rw [expires_at here]
      · have here : h.heap[0]? = Option.some h.heap[0] := List.getElem?_eq_getElem some
        rw [push_expires node 0 some, expires_at here]
        exact first _ (List.getElem_mem some)

/-- add with an id that has a timer gives it a new time and callback. -/
theorem add_known (stray : Nat → Bool) (cb : Callback) (wellFormed : WellFormed h) (valid : 0 ≤ id)
    {node : TimerNode Callback}
    (known : h.contents id = some node) :
    ∃ next, Effect h next [] (Function.update h.contents id (some ⟨id, now + millis timeout, cb⟩)) ∧
      Yields stray next (h.add stray id now timeout cb) := by
  obtain ⟨i, place, here⟩ := Option.bind_eq_some_iff.mp known
  have there : h.heap[i]? = some node := here
  obtain ⟨-, same⟩ := (wellFormed.indexed.contents_iff id node).mp known
  let renewed : TimerNode Callback := { node with expires := now + millis timeout, cb := cb }
  have renamed : renewed = ⟨id, now + millis timeout, cb⟩ := by
    show TimerNode.mk node.id _ _ = _
    rw [same]
  have indexed : Indexed (h.setAt i renewed) := set_at_indexed renewed wellFormed.indexed there rfl
  have size : (h.setAt i renewed).heap.length = h.heap.length := set_at_length renewed
  have inside := (List.getElem?_eq_some_iff.mp there).1
  obtain ⟨next, moved, ordered, result⟩ := settle_spec stray indexed
    (set_at_but renewed wellFormed.ordered there) inside size.ge
  refine ⟨next, ⟨⟨?_, moved.indexed⟩, ?_, ?_⟩, ?_⟩
  · rw [moved.length, size]
    exact ordered
  · rw [moved.contents indexed, set_at_contents renewed wellFormed.indexed there rfl, renamed]
  · rw [moved.fired, List.append_nil]
    rfl
  · have settled : h.add stray id now timeout cb =
        (h.setAt i renewed).settle stray i (h.setAt i renewed).heap.length := by
      simp only [add, not_lt.mpr valid, if_false, place, there]
      rfl
    rw [settled, size]
    exact result

/-- adjust gives the timer with the id a new time. The heap stays in order exactly when the
timer does not come before the one above it. -/
theorem adjust_spec (wellFormed : WellFormed h) {node : TimerNode Callback}
    (place : h.ref id = some i) (here : h.heap[i]? = some node) :
    ∃ next, h.adjust id now timeout = some next ∧ next.contents = Function.update h.contents id
        (some { node with expires := now + millis timeout }) ∧ next.fired = h.fired ∧
      (WellFormed next ↔ 0 < i → h.expiresAt (parent i) ≤ now + millis timeout) := by
  obtain ⟨other, there, same⟩ := (wellFormed.indexed id i).mp place
  cases here.symm.trans there
  let renewed : TimerNode Callback := { node with expires := now + millis timeout }
  have indexed : Indexed (h.setAt i renewed) := set_at_indexed renewed wellFormed.indexed here rfl
  have size : (h.setAt i renewed).heap.length = h.heap.length := set_at_length renewed
  have inside := (List.getElem?_eq_some_iff.mp here).1
  have but : OrderedBut (h.setAt i renewed).expiresAt h.heap.length i :=
    set_at_but renewed wellFormed.ordered here
  have new : (h.setAt i renewed).expiresAt i = now + millis timeout :=
    expires_at (set_at_here renewed here)
  have old (pos : 0 < i) : (h.setAt i renewed).expiresAt (parent i) = h.expiresAt (parent i) :=
    set_at_expires renewed _ (parent_lt pos).ne
  have contents : (h.setAt i renewed).contents = Function.update h.contents id (some renewed) := by
    rw [set_at_contents renewed wellFormed.indexed here rfl]
    exact congrArg (fun key => Function.update h.contents key _) same
  have adjusted : h.adjust id now timeout =
      ((h.setAt i renewed).siftdown i (h.setAt i renewed).heap.length).map Prod.fst := by
    simp only [adjust, place, here]
    rfl
  rw [adjusted, size]
  rcases siftdown_spec indexed but inside size.ge with ⟨stays, later⟩ |
    ⟨next, sifted, moved, ordered, c, pos, small, below, smaller⟩
  · refine ⟨h.setAt i renewed, by rw [stays]; rfl, contents, rfl, fun good pos => ?_,
      fun above => ⟨?_, indexed⟩⟩
    · have order := good.ordered i pos (size.symm ▸ inside)
      rwa [new, old pos] at order
    · rw [size]
      refine but.ordered (fun pos => ?_) fun c pos small below => (later c pos small below).le
      rw [new, old pos]
      exact above pos
  · refine ⟨next, by rw [sifted]; rfl, by rw [moved.contents indexed, contents], moved.fired,
      fun _ pos => ?_, fun _ => ⟨?_, moved.indexed⟩⟩
    · -- the timer moved below one that the one above it does not exceed
      have order := (but.grand pos c ‹0 < c› small below).trans smaller
      rwa [new, old pos] at order
    · rw [moved.length, size]
      exact ordered

end Enter

end HeapTimer

end StudyWebServer.WebServer
