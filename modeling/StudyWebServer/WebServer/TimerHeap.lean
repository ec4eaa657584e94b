import StudyWebServer.WebServer.HeapTimer

/-!
What the sifts of HeapTimer do to the heap, the positions and the timers in it. At the
first position siftup_ reads outside of the vector, so it comes to that exactly with a
timer that expires no later than the first one.
-/

namespace StudyWebServer.WebServer

open BinaryHeap

namespace HeapTimer
variable {Callback : Type} {h next later : HeapTimer Callback} {i j n : Nat}

def expiresAt (h : HeapTimer Callback) (i : Nat) : Int :=
  match h.heap[i]? with
  | some node => node.expires
  | none => 0

/-- ref_ has the positions of the nodes, each with an id of its own. -/
def Indexed (h : HeapTimer Callback) : Prop :=
  ∀ id i, h.ref id = some i ↔ ∃ node, h.heap[i]? = some node ∧ node.id = id

/-- The timer with an id. -/
def contents (h : HeapTimer Callback) (id : Int) : Option (TimerNode Callback) :=
  (h.ref id).bind fun i => h.heap[i]?

structure WellFormed (h : HeapTimer Callback) : Prop where
  ordered : Ordered h.expiresAt h.heap.length
  indexed : Indexed h

theorem expires_at {node : TimerNode Callback} (found : h.heap[i]? = some node) :
    h.expiresAt i = node.expires := by
  simp only [expiresAt, found]

theorem node_at (inside : i < h.heap.length) : ∃ node, h.heap[i]? = some node :=
  ⟨_, List.getElem?_eq_getElem inside⟩

theorem Indexed.unique (indexed : Indexed h) {first second : TimerNode Callback}
    (one : h.heap[i]? = some first) (two : h.heap[j]? = some second)
    (same : first.id = second.id) : i = j := by
  have at_i := (indexed first.id i).mpr ⟨first, one, rfl⟩
  have at_j := (indexed first.id j).mpr ⟨second, two, same.symm⟩
  exact Option.some.inj (at_i.symm.trans at_j)

theorem Indexed.contents_iff (indexed : Indexed h) (id : Int) (node : TimerNode Callback) :
    h.contents id = some node ↔ node ∈ h.heap ∧ node.id = id := by
  constructor
  · intro found
    obtain ⟨i, at_i, here⟩ := Option.bind_eq_some_iff.mp found
    obtain ⟨other, there, same⟩ := (indexed id i).mp at_i
    cases here.symm.trans there
    exact ⟨List.mem_of_getElem? here, same⟩
  · rintro ⟨member, same⟩
    obtain ⟨i, here⟩ := List.mem_iff_getElem?.mp member
    exact Option.bind_eq_some_iff.mpr ⟨i, (indexed id i).mpr ⟨node, here, same⟩, here⟩

theorem Indexed.unknown (indexed : Indexed h) {id : Int} :
    h.contents id = none ↔ h.ref id = none := by
  unfold contents
  cases place : h.ref id with
  | none => simp
  | some i =>
      obtain ⟨node, here, -⟩ := (indexed id i).mp place
      simp [here]

/-- Positions before `n` were exchanged, and nothing else. -/
structure Moved (n : Nat) (h next : HeapTimer Callback) : Prop where
  length : next.heap.length = h.heap.length
  mem : ∀ node, node ∈ next.heap ↔ node ∈ h.heap
  indexed : Indexed next
  behind : ∀ k, n ≤ k → next.heap[k]? = h.heap[k]?
  fired : next.fired = h.fired
  strays : next.strays = h.strays

theorem Moved.refl (indexed : Indexed h) : Moved n h h :=
  ⟨rfl, fun _ => Iff.rfl, indexed, fun _ _ => rfl, rfl, rfl⟩

theorem Moved.trans (first : Moved n h next) (second : Moved n next later) : Moved n h later := by
  refine ⟨second.length.trans first.length, fun node => (second.mem node).trans (first.mem node),
    second.indexed, fun k high => ?_, second.fired.trans first.fired,
    second.strays.trans first.strays⟩
  exact (second.behind k high).trans (first.behind k high)

theorem Moved.contents (moved : Moved n h next) (indexed : Indexed h) :
    next.contents = h.contents := by
  funext id
  apply Option.ext
  intro node
  rw [moved.indexed.contents_iff, indexed.contents_iff, moved.mem]

section Swap
variable {first second : TimerNode Callback}

theorem set_set_get (one : h.heap[i]? = some first) (two : h.heap[j]? = some second) (k : Nat) :
    ((h.heap.set i second).set j first)[k]? = h.heap[Equiv.swap i j k]? := by
  obtain ⟨i_in, -⟩ := List.getElem?_eq_some_iff.mp one
  obtain ⟨j_in, -⟩ := List.getElem?_eq_some_iff.mp two
  by_cases at_j : k = j
  · subst at_j
    rw [Equiv.swap_apply_right, one, List.getElem?_set_self (by rwa [List.length_set])]
  · rw [List.getElem?_set_ne (Ne.symm at_j)]
    by_cases at_i : k = i
    · subst at_i
      rw [Equiv.swap_apply_left, two, List.getElem?_set_self i_in]
    · rw [Equiv.swap_apply_of_ne_of_ne at_i at_j, List.getElem?_set_ne (Ne.symm at_i)]

theorem Indexed.swap (indexed : Indexed h) (one : h.heap[i]? = some first)
    (two : h.heap[j]? = some second) : Indexed { h with
      heap := (h.heap.set i second).set j first
      ref := Function.update (Function.update h.ref second.id (some i)) first.id (some j) } := by
  intro id k
  simp only [set_set_get one two]
  by_cases is_first : id = first.id
  · subst is_first
    rw [Function.update_self]
    constructor
    · rintro ⟨⟩
      exact ⟨first, by rw [Equiv.swap_apply_right, one], rfl⟩
    · rintro ⟨node, here, same⟩
      have place := congrArg (Equiv.swap i j) (indexed.unique here one same)
      rw [Equiv.swap_apply_self, Equiv.swap_apply_left] at place
      rw [place]
  · rw [Function.update_of_ne is_first]
    by_cases is_second : id = second.id
    · subst is_second
      rw [Function.update_self]
      constructor
      · rintro ⟨⟩
        exact ⟨second, by rw [Equiv.swap_apply_left, two], rfl⟩
      · rintro ⟨node, here, same⟩
        have place := congrArg (Equiv.swap i j) (indexed.unique here two same)
        rw [Equiv.swap_apply_self, Equiv.swap_apply_right] at place
        rw [place]
    · rw [Function.update_of_ne is_second, indexed]
      have away {node : TimerNode Callback} {c : Nat} (here : h.heap[c]? = some node)
          (same : node.id = id) : c ≠ i ∧ c ≠ j := by
        constructor
        · rintro rfl
          cases here.symm.trans one
          exact is_first same.symm
        · rintro rfl
          cases here.symm.trans two
          exact is_second same.symm
      constructor
      · rintro ⟨node, here, same⟩
        obtain ⟨not_i, not_j⟩ := away here same
        exact ⟨node, by rwa [Equiv.swap_apply_of_ne_of_ne not_i not_j], same⟩
      · rintro ⟨node, here, same⟩
        obtain ⟨not_i, not_j⟩ := away here same
        have stays : Equiv.swap i j k = k := by
          refine Equiv.swap_apply_of_ne_of_ne (fun at_i => not_j ?_) (fun at_j => not_i ?_)
          · rw [at_i, Equiv.swap_apply_left]
          · rw [at_j, Equiv.swap_apply_right]
        exact ⟨node, stays ▸ here, same⟩

/-- SwapNode_ exchanges two nodes. -/
theorem Indexed.swap_node (indexed : Indexed h) (i_in : i < h.heap.length)
    (j_in : j < h.heap.length)
    (i_small : i < n) (j_small : j < n) : ∃ next, h.swapNode i j = some next ∧ Moved n h next ∧
      (∀ k, next.heap[k]? = h.heap[Equiv.swap i j k]?) ∧
      next.expiresAt = h.expiresAt ∘ Equiv.swap i j := by
  have one : h.heap[i]? = some h.heap[i] := List.getElem?_eq_getElem i_in
  have two : h.heap[j]? = some h.heap[j] := List.getElem?_eq_getElem j_in
  refine ⟨_, by simp only [swapNode, one, two], ⟨by simp, fun node => ?_, indexed.swap one two,
    fun k high => ?_, rfl, rfl⟩, set_set_get one two, ?_⟩
  · rw [List.mem_iff_getElem?, List.mem_iff_getElem?]
    simp only [set_set_get one two]
    exact ((Equiv.swap i j).surjective.exists (p := fun k => h.heap[k]? = some node)).symm
  · show ((h.heap.set i _).set j _)[k]? = h.heap[k]?
    rw [set_set_get one two, Equiv.swap_apply_of_ne_of_ne (by omega) (by omega)]
  · funext k
    simp only [expiresAt, Function.comp_apply, set_set_get one two]

end Swap

section Sift
variable (stray : Nat → Bool)

/-- A sift up ends with the heap in order. It comes to the first position exactly with
a timer that expires no later than the one there, and then reads outside. -/
theorem siftup_spec (indexed : Indexed h) (up : OrderedUp h.expiresAt n i) (inside : i < n)
    (room : n ≤ h.heap.length) : ∃ next, Moved n h next ∧ Ordered next.expiresAt n ∧
      h.siftup stray i =
        if h.expiresAt i ≤ h.expiresAt 0 then next.readOutside stray else some next := by
  rw [siftup, if_pos (inside.trans_le room)]
  induction i using Nat.strongRecOn generalizing h with
  | ind i ih =>
      rcases Nat.eq_zero_or_pos i with rfl | pos
      · refine ⟨h, .refl indexed, up.done fun pos => absurd pos (Nat.lt_irrefl 0), ?_⟩
        rw [if_pos (le_refl _)]
        exact Loop.run_return (by simp [siftupRound])
      · have higher := parent_lt pos
        obtain ⟨node, here⟩ := node_at (show i < h.heap.length by omega)
        obtain ⟨upper, above⟩ := node_at (show (i - 1) / 2 < h.heap.length by omega)
        have at_i := expires_at here
        have at_parent : h.expiresAt (parent i) = upper.expires := expires_at above
        by_cases stops : h.expiresAt (parent i) < h.expiresAt i
        · refine ⟨h, .refl indexed, up.done fun _ => stops.le, ?_⟩
          have root := up.root_le higher (by omega)
          rw [if_neg (not_le.mpr (root.trans_lt stops))]
          apply Loop.run_return
          rw [at_i, at_parent] at stops
          simp [siftupRound, pos.ne', here, above, stops]
        · have smaller := not_lt.mp stops
          obtain ⟨next, swapped, moved, -, keys⟩ :=
            indexed.swap_node (n := n) (i := i) (j := parent i) (by omega) (by omega) inside
              (by omega)
          have round : siftupRound stray (h, i) = .inl (next, parent i) := by
            have goes : ¬ upper.expires < node.expires := by
              rwa [at_i, at_parent] at stops
            have swap : h.swapNode i ((i - 1) / 2) = some next := swapped
            simp only [siftupRound, pos.ne', here, above, goes, swap, if_false]
            rfl
          obtain ⟨last, later, ordered, result⟩ := ih (parent i) higher moved.indexed
            (keys ▸ up.swap pos inside smaller) (by omega) (moved.length.symm ▸ room)
          refine ⟨last, moved.trans later, ordered, ?_⟩
          rw [Loop.run_again round, result, keys, swap_right]
          by_cases top : parent i = 0
          · have zero : (h.expiresAt ∘ Equiv.swap i (parent i)) 0 = h.expiresAt i := by
              rw [← top, swap_right]
            rw [zero, if_pos (le_refl _), if_pos (top ▸ smaller)]
          · rw [swap_other (by omega) (Ne.symm top)]

/-- The child that siftdown_ takes is one that expires first. -/
theorem child_least (inside : i * 2 + 1 < n) (room : n ≤ h.heap.length) :
    h.child i n < n ∧ parent (h.child i n) = i ∧
      ∀ c, 0 < c → c < n → parent c = i → h.expiresAt (h.child i n) ≤ h.expiresAt c := by
  obtain ⟨one, left⟩ := node_at (show i * 2 + 1 < h.heap.length by omega)
  have cases {c : Nat} (pos : 0 < c) (below : parent c = i) :
      c = i * 2 + 1 ∨ c = i * 2 + 1 + 1 := by
    unfold parent at below
    omega
  by_cases only : n ≤ i * 2 + 1 + 1
  · have takes : h.child i n = i * 2 + 1 :=
      (child_cases h i n).resolve_right fun right => absurd right.1 (by omega)
    rw [takes]
    refine ⟨inside, by unfold parent; omega, fun c pos small below => ?_⟩
    rcases cases pos below with rfl | rfl
    · exact le_refl _
    · omega
  · obtain ⟨other, right⟩ := node_at (show i * 2 + 1 + 1 < h.heap.length by omega)
    have at_left := expires_at left
    have at_right := expires_at right
    have more : i * 2 + 1 + 1 < n := by omega
    by_cases goes : other.expires < one.expires
    · have takes : h.child i n = i * 2 + 1 + 1 := by
        simp only [child, left, right, more, goes, and_self, if_true]
      rw [takes]
      refine ⟨more, by unfold parent; omega, fun c pos small below => ?_⟩
      rcases cases pos below with rfl | rfl
      · rw [at_left, at_right]
        exact goes.le
      · exact le_refl _
    · have takes : h.child i n = i * 2 + 1 := by
        simp only [child, left, right, more, goes, and_false, if_false]
      rw [takes]
      refine ⟨inside, by unfold parent; omega, fun c pos small below => ?_⟩
      rcases cases pos below with rfl | rfl
      · exact le_refl _
      · rw [at_left, at_right]
        exact not_lt.mp goes

/-- A round of siftdown_ stops above timers that all expire later, or exchanges the timer
with one below that expires first. -/
theorem siftdown_round (indexed : Indexed h) (inside : i < n) (room : n ≤ h.heap.length) :
    (siftdownRound n (h, i) = .inr (some (h, i)) ∧
      ∀ c, 0 < c → c < n → parent c = i → h.expiresAt i < h.expiresAt c) ∨
    ∃ next j, siftdownRound n (h, i) = .inl (next, j) ∧ Moved n h next ∧ 0 < j ∧ j < n ∧
      parent j = i ∧ (∀ c, 0 < c → c < n → parent c = i → h.expiresAt j ≤ h.expiresAt c) ∧
      h.expiresAt j ≤ h.expiresAt i ∧ next.expiresAt = h.expiresAt ∘ Equiv.swap i j := by
  by_cases leaf : i * 2 + 1 < n
  · obtain ⟨small, below, least⟩ := child_least leaf room
    have low : 0 < h.child i n := by
      have := child_cases h i n
      omega
    obtain ⟨node, here⟩ := node_at (show i < h.heap.length by omega)
    obtain ⟨lower, under⟩ := node_at (show h.child i n < h.heap.length by omega)
    by_cases stops : h.expiresAt i < h.expiresAt (h.child i n)
    · refine .inl ⟨?_, fun c pos c_small c_below => stops.trans_le (least c pos c_small c_below)⟩
      rw [expires_at here, expires_at under] at stops
      simp only [siftdownRound, leaf, here, under, stops, if_true]
    · obtain ⟨next, swapped, moved, -, keys⟩ :=
        indexed.swap_node (n := n) (i := i) (j := h.child i n) (by omega) (by omega) inside small
      refine .inr ⟨next, h.child i n, ?_, moved, low, small, below, least, not_lt.mp stops, keys⟩
      rw [expires_at here, expires_at under] at stops
      simp only [siftdownRound, leaf, here, under, stops, swapped, if_true, if_false]
  · refine .inl ⟨by simp only [siftdownRound, leaf, if_false], fun c pos small below => ?_⟩
    unfold parent at below
    omega

theorem siftdown_run (indexed : Indexed h) (down : OrderedDown h.expiresAt n i) (inside : i < n)
    (room : n ≤ h.heap.length) : ∃ next k, Loop.run (siftdownRound n) (fun s => n - s.2)
      (siftdown_decreases n) (h, i) = some (next, k) ∧ i ≤ k ∧ Moved n h next ∧
      Ordered next.expiresAt n := by
  induction size : n - i using Nat.strongRecOn generalizing h i with
  | ind count ih =>
      rcases @siftdown_round _ h i n indexed inside room with ⟨round, later⟩ |
        ⟨next, j, round, moved, pos, small, below, least, smaller, keys⟩
      · refine ⟨h, i, Loop.run_return round, Nat.le_refl _, .refl indexed, down.done ?_⟩
        exact fun c pos small below => (later c pos small below).le
      · have deeper := below ▸ parent_lt pos
        obtain ⟨last, k, ran, high, later, ordered⟩ := ih (n - j) (by omega) moved.indexed
          (keys ▸ down.toOrderedBut.swap pos below small least smaller) small
          (moved.length.symm ▸ room) rfl
        exact ⟨last, k, (Loop.run_again round).trans ran, by omega, moved.trans later, ordered⟩

/-- A sift down leaves a timer where it is above timers that all expire later, and moves
it otherwise. -/
theorem siftdown_spec (indexed : Indexed h) (but : OrderedBut h.expiresAt n i) (inside : i < n)
    (room : n ≤ h.heap.length) :
    (h.siftdown i n = some (h, false) ∧
      ∀ c, 0 < c → c < n → parent c = i → h.expiresAt i < h.expiresAt c) ∨
    ∃ next, h.siftdown i n = some (next, true) ∧ Moved n h next ∧ Ordered next.expiresAt n ∧
      ∃ c, 0 < c ∧ c < n ∧ parent c = i ∧ h.expiresAt c ≤ h.expiresAt i := by
  rw [siftdown, if_pos ⟨by omega, room⟩]
  rcases @siftdown_round _ h i n indexed inside room with ⟨round, later⟩ |
    ⟨next, j, round, moved, pos, small, below, least, smaller, keys⟩
  · refine .inl ⟨?_, later⟩
    rw [Loop.run_return round]
    simp
  · have deeper := below ▸ parent_lt pos
    obtain ⟨last, k, ran, high, later, ordered⟩ := siftdown_run moved.indexed
      (keys ▸ but.swap pos below small least smaller) small (moved.length.symm ▸ room)
    refine .inr ⟨last, ?_, moved.trans later, ordered, j, pos, small, below, smaller⟩
    rw [Loop.run_again round, ran]
    simp only [Option.map_some, decide_eq_true (show i < k by omega)]

/-- From any one position that is out of order the two sifts restore the order. -/
theorem settle_spec (indexed : Indexed h) (but : OrderedBut h.expiresAt n i) (inside : i < n)
    (room : n ≤ h.heap.length) : ∃ next, Moved n h next ∧ Ordered next.expiresAt n ∧
      (h.settle stray i n = some next ∨ h.settle stray i n = next.readOutside stray) := by
  rcases siftdown_spec indexed but inside room with ⟨stays, later⟩ |
    ⟨next, sifted, moved, ordered, -⟩
  · have up : OrderedUp h.expiresAt n i :=
      ⟨but, fun c pos small below => (later c pos small below).le⟩
    obtain ⟨next, moved, ordered, result⟩ := siftup_spec stray indexed up inside room
    refine ⟨next, moved, ordered, ?_⟩
    simp only [settle, stays, result]
    split_ifs
    · exact .inr rfl
    · exact .inl rfl
  · exact ⟨next, moved, ordered, .inl (by simp only [settle, sifted])⟩

end Sift

end HeapTimer

end StudyWebServer.WebServer
