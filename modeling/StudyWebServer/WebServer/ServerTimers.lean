import StudyWebServer.WebServer.ServerLoop

/-!
The timers of the server in every interleaving of its loop with the workers. A connection that
may be reported has a timer, so that the assertions on the way to OnRead_ and OnWrite_ hold, and
its timer says when it was last heard of, whatever the workers do.
-/

namespace StudyWebServer.WebServer

/-- The descriptors of the events that are still to be handled. -/
def MainAt.batch : MainAt → List Int
  | .looping batch => batch.map Prod.fst
  | .listening batch => batch.map Prod.fst
  | .expiring _ => []

/-- The descriptors of the timers whose callbacks are still to be called. -/
def MainAt.due : MainAt → List Int
  | .expiring fds => fds
  | _ => []

namespace Server
variable {W Choice Data : Type} {s next : Server W Data} {fd other : Int}

section Fields

theorem register_epoll (registration : Registration) : (s.register fd registration).epoll other =
    if other = fd then registration else s.epoll other := Function.update_apply ..

theorem shut_users_none : (s.shut fd).users other = none ↔ s.users other = none := by
  show Function.update s.users fd _ other = none ↔ _
  by_cases same : other = fd
  · subst same
    rw [Function.update_self, Option.map_eq_none_iff]
  · rw [Function.update_of_ne same]

theorem shut_open : (s.shut fd).isOpen other = (s.isOpen other && other ≠ fd) := by
  unfold isOpen shut
  dsimp only
  by_cases same : other = fd
  · subst same
    rw [Function.update_self]
    cases s.users other <;> simp
  · rw [Function.update_of_ne same, decide_eq_true same, Bool.and_true]

theorem set_conn_open (conn : HttpConn Data) : (s.setConn fd conn).isOpen other =
    if other = fd then !conn.isClose else s.isOpen other := by
  unfold isOpen setConn
  dsimp only
  by_cases same : other = fd
  · subst same
    rw [Function.update_self, if_pos rfl]
  · rw [Function.update_of_ne same, if_neg same]

theorem open_user (here : s.isOpen fd = true) : ∃ conn, s.users fd = some conn ∧
    conn.isClose = false := by
  unfold isOpen at here
  split at here
  · next conn user => exact ⟨conn, user, by simpa using here⟩
  · cases here

theorem close_conn_cases (s : Server W Data) (fd : Int) :
    s.isOpen fd = true ∧ s.closeConn fd = (s.register fd .absent).shut fd ∨
      s.isOpen fd = false ∧ s.closeConn fd = s.register fd .absent := by
  unfold closeConn
  cases here : s.isOpen fd with
  | true => exact .inl ⟨rfl, rfl⟩
  | false => exact .inr ⟨rfl, rfl⟩

theorem close_conn_open : (s.closeConn fd).isOpen other = (s.isOpen other && other ≠ fd) := by
  rcases close_conn_cases s fd with ⟨-, same⟩ | ⟨here, same⟩
  · rw [same]
    exact shut_open
  · rw [same]
    show s.isOpen other = _
    by_cases is_fd : other = fd
    · rw [is_fd, here]
      rfl
    · rw [decide_eq_true is_fd, Bool.and_true]

theorem close_conn_epoll : (s.closeConn fd).epoll other = if other =
    fd then .absent else s.epoll other := by
  rcases close_conn_cases s fd with ⟨-, same⟩ | ⟨-, same⟩
  · rw [same]
    show Function.update (Function.update s.epoll fd .absent) fd .absent other = _
    rw [Function.update_idem, Function.update_apply]
  · rw [same, register_epoll]

theorem close_conn_users_none : (s.closeConn fd).users other = none ↔ s.users other = none := by
  rcases close_conn_cases s fd with ⟨-, same⟩ | ⟨-, same⟩
  · rw [same]
    exact shut_users_none
  · rw [same]
    rfl

theorem close_conn_timer : (s.closeConn fd).timer = s.timer := by
  rcases close_conn_cases s fd with ⟨-, same⟩ | ⟨-, same⟩ <;> rw [same] <;> rfl

theorem close_conn_touched : (s.closeConn fd).touched = s.touched := by
  rcases close_conn_cases s fd with ⟨-, same⟩ | ⟨-, same⟩ <;> rw [same] <;> rfl

theorem close_conn_now : (s.closeConn fd).now = s.now := by
  rcases close_conn_cases s fd with ⟨-, same⟩ | ⟨-, same⟩ <;> rw [same] <;> rfl

theorem add_fd_absent (absent : s.epoll fd = .absent) :
    s.addFd fd = s.register fd (.armed .epollin) :=
  if_pos absent

end Fields

/-- What holds of the timers whatever the workers do. -/
structure Watched (setup : Setup Choice Data) (s : Server W Data) : Prop where
  wellFormed : s.timer.WellFormed
  timed : ∀ fd node, s.timer.contents fd = some node → 0 < setup.timeoutMS ∧ node.cb = fd ∧
    node.expires = s.touched fd + millis setup.timeoutMS
  past : ∀ fd, s.touched fd ≤ s.now
  registered : ∀ fd, s.epoll fd ≠ .absent → s.isOpen fd = true
  opened : 0 < setup.timeoutMS → ∀ fd, s.isOpen fd = true →
    s.timer.contents fd ≠ none ∨ fd ∈ s.main.due
  reported : ∀ fd ∈ s.main.batch, fd ≠ setup.listenFd → s.users fd ≠ none ∧
    (0 < setup.timeoutMS → s.timer.contents fd ≠ none)

variable {setup : Setup Choice Data}

/-- A step that leaves the timers alone and opens nothing. -/
theorem Watched.frame (watched : Watched setup s) (timer : next.timer = s.timer)
    (touched : next.touched = s.touched) (now : next.now = s.now)
    (users : ∀ fd, next.users fd = none → s.users fd = none)
    (stays : ∀ fd, next.epoll fd ≠ .absent → s.epoll fd ≠ .absent ∧
      (s.isOpen fd = true → next.isOpen fd = true))
    (closes : ∀ fd, next.isOpen fd = true → s.isOpen fd = true)
    (batch : next.main.batch ⊆ s.main.batch)
    (due : ∀ fd ∈ s.main.due, next.isOpen fd = true → fd ∈ next.main.due) : Watched setup next where
  wellFormed := timer ▸ watched.wellFormed
  timed fd node found := by
    rw [timer] at found
    rw [touched]
    exact watched.timed fd node found
  past fd := by
    rw [touched, now]
    exact watched.past fd
  registered fd here := (stays fd here).2 (watched.registered fd (stays fd here).1)
  opened on fd here := by
    rw [timer]
    exact (watched.opened on fd (closes fd here)).imp_right fun member => due fd member here
  reported fd member conn := by
    obtain ⟨user, has⟩ := watched.reported fd (batch member) conn
    rw [timer]
    exact ⟨fun gone => user (users fd gone), has⟩

/-- The timers that a tick takes out are those whose callbacks come next. -/
theorem tick_effect (watched : Watched setup s) {clock : Nat → Int}
    {last wait : Int} {timer : HeapTimer Int}
    (went : s.timer.getNextTick setup.stray clock last = some (timer, wait)) :
    ∃ gone, HeapTimer.Effect s.timer timer gone timer.contents ∧
      Sweep clock s.timer.contents timer.contents gone ∧
      (timer.fired.drop s.timer.fired.length).map TimerNode.cb = gone.map TimerNode.id := by
  obtain ⟨after, ticked, same⟩ := Option.map_eq_some_iff.mp went
  obtain rfl : after = timer := congrArg Prod.fst same
  obtain ⟨gone, table, effect, sweep⟩ := HeapTimer.tick_spec watched.wellFormed ticked
  obtain rfl := effect.contents
  refine ⟨gone, effect, sweep, ?_⟩
  rw [effect.fired, List.drop_left]
  refine List.map_congr_left fun node member => ?_
  exact (watched.timed node.id node (sweep.were node member)).2.1

theorem Watched.ticked (watched : Watched setup s) {clock : Nat → Int} {last wait : Int}
    {timer : HeapTimer Int} (top : s.main = .looping [])
    (went : s.timer.getNextTick setup.stray clock last = some (timer, wait))
    (later : s.now ≤ last) :
    Watched setup { s with
      timer := timer
      main := .expiring ((timer.fired.drop s.timer.fired.length).map TimerNode.cb)
      now := last } := by
  obtain ⟨gone, effect, sweep, due⟩ := tick_effect watched went
  refine ⟨effect.wellFormed, fun fd node found => ?_, fun fd => (watched.past fd).trans later,
    watched.registered, fun on fd here => ?_, fun fd member => ?_⟩
  · have left : timer.contents fd = some node := found
    rw [sweep.kept] at left
    split_ifs at left
    exact watched.timed fd node left
  · show timer.contents fd ≠ none ∨ fd ∈ (timer.fired.drop s.timer.fired.length).map TimerNode.cb
    rw [due, sweep.kept]
    by_cases taken : fd ∈ gone.map TimerNode.id
    · exact .inr taken
    · rw [if_neg taken]
      refine .inl ((watched.opened on fd here).resolve_right ?_)
      rw [top]
      exact List.not_mem_nil
  · cases member

theorem Watched.dealt (watched : Watched setup s) {events : Events} {rest : List (Int × Events)}
    {kind : TaskKind} {timer : HeapTimer Int} {now : Int}
    (first : s.main = .looping ((fd, events) :: rest))
    (conn : fd ≠ setup.listenFd) (later : s.now ≤ now)
    (extended : if 0 < setup.timeoutMS then s.timer.adjust fd now setup.timeoutMS = some timer
      else timer = s.timer) : Watched setup { s with
        main := .looping rest
        tasks := s.tasks ++ [⟨fd, kind⟩]
        now := now
        touched := Function.update s.touched fd now
        timer := timer } := by
  have batch : s.main.batch = fd :: rest.map Prod.fst := by
    rw [first]
    rfl
  obtain ⟨user, has⟩ := watched.reported fd (batch ▸ List.mem_cons_self) conn
  have past (other : Int) : Function.update s.touched fd now other ≤ now := by
    rw [Function.update_apply]
    split_ifs
    · exact Int.le_refl _
    · exact (watched.past other).trans later
  have still : s.main.due = [] := by
    rw [first]
    rfl
  have reported (other : Int) (member : other ∈ rest.map Prod.fst) :=
    watched.reported other (batch ▸ List.mem_cons_of_mem fd member)
  by_cases on : 0 < setup.timeoutMS
  · rw [if_pos on] at extended
    obtain ⟨node, known⟩ := Option.ne_none_iff_exists'.mp (has on)
    obtain ⟨-, callback, expires⟩ := watched.timed fd node known
    have forward : node.expires ≤ now + millis setup.timeoutMS := by
      have before := watched.past fd
      omega
    obtain ⟨after, adjusted, effect⟩ := HeapTimer.adjust_forward watched.wellFormed known forward
    cases adjusted.symm.trans extended
    have kept (other : Int) : timer.contents other ≠ none ↔ s.timer.contents other ≠ none := by
      rw [effect.contents, Function.update_apply]
      split_ifs with same
      · rw [same, known]
        simp
      · rfl
    refine ⟨effect.wellFormed, fun other found there => ?_, past, watched.registered,
      fun _ other here => ?_, fun other member listener => ?_⟩
    · have after : timer.contents other = some found := there
      rw [effect.contents, Function.update_apply] at after
      show _ ∧ _ ∧ found.expires = Function.update s.touched fd now other + _
      rw [Function.update_apply]
      split_ifs at after ⊢ with same
      · cases after
        exact ⟨on, callback.trans same.symm, rfl⟩
      · exact watched.timed other found after
    · refine .inl ((kept other).mpr ((watched.opened on other here).resolve_right ?_))
      rw [still]
      exact List.not_mem_nil
    · obtain ⟨exists_user, timed⟩ := reported other member listener
      exact ⟨exists_user, fun on => (kept other).mpr (timed on)⟩
  · rw [if_neg on] at extended
    subst extended
    exact ⟨watched.wellFormed, fun other node found => absurd
      (watched.timed other node found).1 on, past,
      watched.registered, fun timed => absurd timed on, reported⟩

theorem Watched.waited (watched : Watched setup s) {reports : List (Int × Events)}
    (before : s.main = .expiring []) (reportable : s.reportable setup reports = true) :
    Watched setup { s with
      main := .looping reports
      epoll := fun fd =>
        if fd ≠ setup.listenFd ∧ fd ∈ reports.map Prod.fst then .disarmed else s.epoll fd } := by
  have here (fd : Int) (member : fd ∈ reports.map Prod.fst) (conn : fd ≠ setup.listenFd) :
      s.isOpen fd = true := by
    obtain ⟨report, inside, rfl⟩ := List.mem_map.mp member
    have allowed := List.all_eq_true.mp (Bool.and_eq_true_iff.mp reportable).2 report inside
    rw [Bool.or_eq_true, decide_eq_true_iff] at allowed
    refine watched.registered _ fun absent => ?_
    have reports := allowed.resolve_left conn
    rw [absent] at reports
    cases reports
  have opened (on : 0 < setup.timeoutMS) (fd : Int) (opens : s.isOpen fd = true) :
      s.timer.contents fd ≠ none := by
    refine (watched.opened on fd opens).resolve_right ?_
    rw [before]
    exact List.not_mem_nil
  refine ⟨watched.wellFormed, watched.timed, watched.past, fun fd registered => ?_,
    fun on fd opens => .inl (opened on fd opens), fun fd member conn => ?_⟩
  · by_cases reported : fd ≠ setup.listenFd ∧ fd ∈ reports.map Prod.fst
    · exact here fd reported.2 reported.1
    · exact watched.registered fd fun absent => registered ((if_neg reported).trans absent)
  · obtain ⟨user, known, -⟩ := open_user (here fd member conn)
    exact ⟨fun none => Option.some_ne_none user (known.symm.trans none),
      fun on => opened on fd (here fd member conn)⟩

theorem Watched.accepted (watched : Watched setup s) {rest : List (Int × Events)}
    {timer : HeapTimer Int} {now : Int} {data : Data} (accepting : s.main = .listening rest)
    (valid : 0 < fd) (later : s.now ≤ now)
    (timed : if 0 < setup.timeoutMS then
        s.timer.add setup.stray fd now setup.timeoutMS fd = some timer
      else timer = s.timer) : Watched setup ({ s.setConn fd ⟨false, data⟩ with
        main := if setup.listenET then .listening rest else .looping rest
        userCount := s.userCount + 1
        now := now
        touched := Function.update s.touched fd now
        timer := timer }.addFd fd) := by
  let added : Server W Data := { s.setConn fd ⟨false, data⟩ with
    main := if setup.listenET then .listening rest else .looping rest
    userCount := s.userCount + 1
    now := now
    touched := Function.update s.touched fd now
    timer := timer }
  have batch : added.main.batch = s.main.batch ∧ added.main.due = [] := by
    rw [accepting]
    show (ite _ _ _ : MainAt).batch = _ ∧ (ite _ _ _ : MainAt).due = _
    split_ifs <;> exact ⟨rfl, rfl⟩
  have past (other : Int) : Function.update s.touched fd now other ≤ now := by
    rw [Function.update_apply]
    split_ifs
    · exact Int.le_refl _
    · exact (watched.past other).trans later
  have opens (other : Int) : added.isOpen other = if other = fd then true else s.isOpen other :=
    set_conn_open ⟨false, data⟩
  have still : s.main.due = [] := by
    rw [accepting]
    rfl
  have user (other : Int) (known : s.users other ≠ none) : added.users other ≠ none := by
    show Function.update s.users fd _ other ≠ none
    rw [Function.update_apply]
    split_ifs
    · exact Option.some_ne_none _
    · exact known
  suffices fine : Watched setup added by
    show Watched setup (added.addFd fd)
    unfold addFd
    split_ifs with absent
    · refine ⟨fine.wellFormed, fine.timed, fine.past,
        fun other registered => ?_, fine.opened, fine.reported⟩
      rw [register_epoll] at registered
      show added.isOpen other = true
      rw [opens]
      split_ifs at registered ⊢
      · rfl
      · exact watched.registered other registered
    · exact fine
  have registered (other : Int) (here : s.epoll other ≠ .absent) : added.isOpen other = true := by
    rw [opens]
    split_ifs
    · rfl
    · exact watched.registered other here
  by_cases on : 0 < setup.timeoutMS
  · rw [if_pos on] at timed
    obtain ⟨after, effect, yields⟩ : ∃ after, HeapTimer.Effect s.timer after []
        (Function.update s.timer.contents fd (some ⟨fd, now + millis setup.timeoutMS, fd⟩)) ∧
        HeapTimer.Yields setup.stray after (s.timer.add setup.stray fd now setup.timeoutMS fd) :=
      HeapTimer.add_effect watched.wellFormed valid.le
    have effect := effect.alike (yields.alike timed)
    have kept (other : Int) (known : other = fd ∨ s.timer.contents other ≠ none) :
        timer.contents other ≠ none := by
      rw [effect.contents, Function.update_apply]
      split_ifs with same
      · exact Option.some_ne_none _
      · exact known.resolve_left same
    refine ⟨effect.wellFormed, fun other node found => ?_, past, registered, fun _ other here => ?_,
      fun other member listener => ?_⟩
    · have there : timer.contents other = some node := found
      rw [effect.contents, Function.update_apply] at there
      show _ ∧ _ ∧ node.expires = Function.update s.touched fd now other + _
      rw [Function.update_apply]
      split_ifs at there ⊢ with same
      · cases there
        exact ⟨on, same.symm, rfl⟩
      · exact watched.timed other node there
    · refine .inl (kept other ?_)
      rw [opens] at here
      split_ifs at here with same
      · exact .inl same
      · refine .inr ((watched.opened on other here).resolve_right ?_)
        rw [still]
        exact List.not_mem_nil
    · obtain ⟨known, has⟩ := watched.reported other (batch.1 ▸ member) listener
      exact ⟨user other known, fun on => kept other (.inr (has on))⟩
  · rw [if_neg on] at timed
    subst timed
    refine ⟨watched.wellFormed, fun other node found => absurd
      (watched.timed other node found).1 on, past,
      registered, fun timed => absurd timed on, fun other member listener => ?_⟩
    exact ⟨user other (watched.reported other (batch.1 ▸ member) listener).1,
      fun timed => absurd timed on⟩

/-- The loop closes a connection. -/
theorem Watched.shuts (watched : Watched setup s) (main : MainAt)
    (batch : main.batch ⊆ s.main.batch)
    (due : ∀ other ∈ s.main.due, other ≠ fd → other ∈ main.due) :
    Watched setup ((s.closeConn fd).mainTo main) := by
  have opens (other : Int) (here : ((s.closeConn fd).mainTo main).isOpen other = true) :
      s.isOpen other = true ∧ other ≠ fd := by
    have there : (s.closeConn fd).isOpen other = true := here
    rwa [close_conn_open, Bool.and_eq_true_iff, decide_eq_true_iff] at there
  refine watched.frame close_conn_timer close_conn_touched close_conn_now
    (fun _ => close_conn_users_none.mp) (fun other registered => ?_)
      (fun other here => (opens other here).1)
    batch fun other member here => due other member (opens other here).2
  have there : (s.closeConn fd).epoll other ≠ .absent := registered
  rw [close_conn_epoll] at there
  split_ifs at there with same
  · exact absurd rfl there
  · refine ⟨there, fun opens => ?_⟩
    show (s.closeConn fd).isOpen other = true
    rw [close_conn_open, opens, decide_eq_true same]
    rfl

/-- A step that touches neither the connections nor the set. -/
theorem Watched.quiet (watched : Watched setup s) (timer : next.timer = s.timer)
    (touched : next.touched = s.touched) (now : next.now = s.now) (users : next.users = s.users)
    (epoll : next.epoll = s.epoll) (batch : next.main.batch ⊆ s.main.batch)
    (due : s.main.due ⊆ next.main.due) : Watched setup next := by
  have opens (fd : Int) : next.isOpen fd = s.isOpen fd := by
    unfold isOpen
    rw [users]
  refine watched.frame timer touched now (fun fd none => users ▸ none) (fun fd registered => ?_)
    (fun fd here => opens fd ▸ here) batch fun fd member _ => due member
  exact ⟨epoll ▸ registered, fun here => (opens fd).trans here⟩

/-- What a task did to its connection. -/
theorem Watched.written (watched : Watched setup s) {conn : HttpConn Data}
    (user : s.users fd = some conn)
    (data : Data) : Watched setup (s.setConn fd { conn with data := data }) := by
  have opens (other : Int) : (s.setConn fd { conn with data := data }).isOpen other =
      s.isOpen other := by
    rw [set_conn_open]
    split_ifs with same
    · unfold isOpen
      rw [same, user]
    · rfl
  refine watched.frame rfl rfl rfl (fun other none => ?_)
    (fun other registered => ⟨registered, fun here => (opens other).trans here⟩)
    (fun other here => (opens other).symm.trans here) (List.Subset.refl _)
      fun other member _ => member
  have there : Function.update s.users fd _ other = .none := none
  rw [Function.update_apply] at there
  split_ifs at there
  exact there

/-- A descriptor leaves the set. -/
theorem Watched.removed (watched : Watched setup s) (fd : Int) :
    Watched setup (s.register fd .absent) := by
  refine watched.frame rfl rfl rfl (fun _ none => none) (fun other registered => ?_)
    (fun _ here => here) (List.Subset.refl _) fun other member _ => member
  rw [register_epoll] at registered
  split_ifs at registered
  · exact absurd rfl registered
  · exact ⟨registered, fun here => here⟩

theorem Watched.rearmed (watched : Watched setup s) (fd : Int) (ev : Interest) :
    Watched setup (s.modFd fd ev) := by
  unfold modFd
  split_ifs with absent
  · exact watched
  · refine watched.frame rfl rfl rfl (fun _ none => none) (fun other registered => ?_)
      (fun _ here => here) (List.Subset.refl _) fun other member _ => member
    rw [register_epoll] at registered
    split_ifs at registered with same
    · exact ⟨same ▸ absent, fun here => here⟩
    · exact ⟨registered, fun here => here⟩

theorem Watched.closed (watched : Watched setup s) (fd : Int) : Watched setup (s.shut fd) := by
  refine watched.frame rfl rfl rfl (fun _ => shut_users_none.mp) (fun other registered => ?_)
    (fun other here => ?_) (List.Subset.refl _) fun other member _ => member
  · have there : (s.register fd .absent).epoll other ≠ .absent := registered
    rw [register_epoll] at there
    split_ifs at there with same
    · exact absurd rfl there
    · refine ⟨there, fun here => ?_⟩
      rw [shut_open, here, decide_eq_true same]
      rfl
  · rw [shut_open, Bool.and_eq_true_iff] at here
    exact here.1

theorem watched_start (epoch : Int) : Watched setup (start epoch : Server W Data) := by
  refine ⟨HeapTimer.empty_well_formed, fun fd node found => ?_, fun _ => Int.le_refl _,
    fun fd registered => absurd rfl registered, fun _ fd here => ?_, fun fd member => ?_⟩
  · cases found
  · cases here
  · cases member

section Steps
variable [DecidableEq W]

/-- A worker that goes elsewhere. -/
theorem Watched.moved (watched : Watched setup s) (w : W) (place : WorkerAt Data) :
    Watched setup (s.workerTo w place) :=
  ⟨watched.wellFormed, watched.timed, watched.past, watched.registered,
    watched.opened, watched.reported⟩

theorem watched_step {action : Action W Choice} (change : Change setup s action next)
    (onward : s.Onward action) (watched : Watched setup s) : Watched setup next := by
  cases change with
  | ticked clock last wait timer top timed went =>
      exact watched.ticked top went (onward.1.trans (onward.2.2 0))
  | untimed clock last top off =>
      refine ⟨watched.wellFormed, watched.timed, fun fd => ?_, watched.registered,
        fun on => absurd on off, nofun⟩
      exact (watched.past fd).trans (onward.1.trans (onward.2.2 0))
  | expired fd rest due =>
      refine watched.shuts _ (List.nil_subset _) fun other member apart => ?_
      rw [due] at member
      exact (List.mem_cons.mp member).resolve_left apart
  | waited reports before reportable => exact watched.waited before reportable
  | listens fd now events rest first listener =>
      refine watched.quiet rfl rfl rfl rfl rfl ?_ ?_
      · rw [first]
        exact List.subset_cons_self _ _
      · rw [first]
        exact List.Subset.refl _
  | hungUp fd now events rest first conn hangup =>
      refine watched.shuts _ ?_ ?_
      · rw [first]
        exact List.subset_cons_self _ _
      · rw [first]
        exact nofun
  | dealt fd now events rest kind timer first conn event extended =>
      exact watched.dealt first conn onward extended
  | unexpected fd now events rest first conn none =>
      refine watched.quiet rfl rfl rfl rfl rfl ?_ ?_
      · rw [first]
        exact List.subset_cons_self _ _
      · rw [first]
        exact List.Subset.refl _
  | returned answer now rest accepting =>
      refine watched.quiet rfl rfl rfl rfl rfl ?_ ?_
      · rw [accepting]
        exact List.Subset.refl _
      · rw [accepting]
        exact List.Subset.refl _
  | accepted fd now rest timer accepting valid conn free room timed =>
      exact watched.accepted accepting valid onward timed
  | taken w task rest conn idle first user =>
      exact watched.quiet rfl rfl rfl rfl rfl (List.Subset.refl _) (List.Subset.refl _)
  | ran w choice task data result exit conn running user served =>
      exact (watched.written user result).moved w (.leaving task.fd exit)
  | rearmed w fd ev leaving => exact (watched.rearmed fd ev).moved w .idle
  | quits w fd leaving here => exact (watched.removed fd).moved w (.closing fd)
  | quit w fd leaving gone => exact (watched.removed fd).moved w .idle
  | closed w fd closing => exact (watched.closed fd).moved w .idle

theorem reached_watched {allowed : Server W Data → Action W Choice → Prop}
    (reached : Reached setup allowed s) : Watched setup s := by
  induction reached with
  | start epoch => exact watched_start epoch
  | step action reached onward may stepped ih =>
      exact watched_step (change_of_step stepped) onward ih

/-- A server whose tasks have their results chosen for them. -/
def echoing (timeoutMS : Int) : Setup Exit Unit :=
  ⟨3, false, timeoutMS, (), id, fun _ exit data => some (data, exit), fun _ => true⟩

/-- Descriptor 5 is accepted and then a minute goes by. -/
theorem greeted : ∃ s next : Server Unit Unit,
    Reached (echoing 60000) (fun _ (_ : Action Unit Exit) => True) s ∧
    s.now = 0 ∧ s.isOpen 5 = true ∧
      s.touched 5 = 0 ∧ s.step (echoing 60000) (.tick (fun _ => 60000000000) 60000000000) =
      some (.ok next) := by
  have ticked : Reached (echoing 60000) (fun _ (_ : Action Unit Exit) => True)
      (_ : Server Unit Unit) :=
    .step (.tick (fun _ => 0) 0) (.start 0) ⟨Int.le_refl _, fun _ => Int.le_refl _,
      fun _ => Int.le_refl _⟩ trivial rfl
  have waited : Reached (echoing 60000) (fun _ (_ : Action Unit Exit) => True)
      (_ : Server Unit Unit) :=
    .step (.wait [(3, ⟨false, true, false⟩)]) ticked trivial trivial rfl
  have listens : Reached (echoing 60000) (fun _ (_ : Action Unit Exit) => True)
      (_ : Server Unit Unit) :=
    .step (.handle 0) waited (Int.le_refl _) trivial rfl
  have accepted : Reached (echoing 60000) (fun _ (_ : Action Unit Exit) => True)
      (_ : Server Unit Unit) :=
    .step (.accept (some 5) 0) listens (Int.le_refl _) trivial rfl
  exact ⟨_, _, accepted, rfl, rfl, rfl, rfl⟩

/-- A tick takes exactly the connections that were not heard of for more than the timeout but one
millisecond, the longest silent first. -/
theorem idle_connections_expire {allowed : Server W Data → Action W Choice → Prop}
    (reached : Reached setup allowed s) {clock : Nat → Int} {last : Int}
    (onward : s.Onward (.tick clock last : Action W Choice)) (on : 0 < setup.timeoutMS)
    (stepped : s.step setup (.tick clock last : Action W Choice) = some (.ok next)) :
    ∃ fds, next.main = .expiring fds ∧ fds.Pairwise (fun first second => first ≠ second ∧
        s.touched first ≤ s.touched second) ∧
      ∀ fd, s.isOpen fd = true →
        (fd ∈ fds ↔ millis (setup.timeoutMS - 1) < clock fds.length - s.touched fd) := by
  have watched := reached_watched reached
  cases change_of_step stepped with
  | untimed _ _ top off => exact absurd on off
  | ticked _ _ wait timer top _ went =>
      obtain ⟨gone, effect, sweep, due⟩ := tick_effect watched went
      have touched (node : TimerNode Int) (member : node ∈ gone) :
          node.expires = s.touched node.id + millis setup.timeoutMS :=
        (watched.timed node.id node (sweep.were node member)).2.2
      refine ⟨gone.map TimerNode.id, congrArg MainAt.expiring due, ?_, fun fd here => ?_⟩
      · refine List.pairwise_map.mpr (sweep.sorted.imp_of_mem fun {first second} was is order => ?_)
        have before := touched first was
        have behind := touched second is
        exact ⟨order.2, by omega⟩
      · have known : s.timer.contents fd ≠ none := by
          refine (watched.opened on fd here).resolve_right ?_
          rw [top]
          exact List.not_mem_nil
        obtain ⟨node, known⟩ := Option.ne_none_iff_exists'.mp known
        have expires := (watched.timed fd node known).2.2
        have idle : HeapTimer.due (clock gone.length) node = true ↔
            millis (setup.timeoutMS - 1) < clock gone.length - s.touched fd := by
          rw [due_iff, expires]
          unfold millis
          omega
        rw [List.length_map, ← idle]
        constructor
        · intro taken
          obtain ⟨other, member, same⟩ := List.mem_map.mp taken
          have were := sweep.were other member
          rw [same] at were
          cases known.symm.trans were
          obtain ⟨k, place⟩ := List.mem_iff_getElem?.mp member
          have early := sweep.due k node place
          have sooner := monotone_nat_of_le_succ onward.2.1
            (List.getElem?_eq_some_iff.mp place).1.le
          rw [due_iff] at early ⊢
          omega
        · intro due
          by_contra stays
          have left : timer.contents fd = some node := by
            rw [sweep.kept, if_neg stays]
            exact known
          exact absurd due (Bool.eq_false_iff.mp (sweep.early fd node left))

theorem idle_connections_expire_minute : ∃ s next : Server Unit Unit, ∃ fds,
    next.main = .expiring fds ∧
    fds.Pairwise (fun first second => first ≠ second ∧ s.touched first ≤ s.touched second) ∧
    ∀ fd, s.isOpen fd = true → (fd ∈ fds ↔ millis (60000 - 1) < 60000000000 - s.touched fd) := by
  obtain ⟨s, next, reached, now, -, -, stepped⟩ := greeted
  have onward : s.Onward (.tick (fun _ => 60000000000) 60000000000 : Action Unit Exit) := by
    refine ⟨?_, fun _ => Int.le_refl _, fun _ => Int.le_refl _⟩
    rw [now]
    decide
  exact ⟨s, next, idle_connections_expire reached onward (by decide) stepped⟩

end Steps

end Server

end StudyWebServer.WebServer
