import ConcurrentCpp.HashSetRCUHint

namespace ConcurrentCpp.HashSetRCU

/-!
# What the hint promises

In every reachable state in which no bag is half pushed, the hint says that
there is no free node only if there is none.  An allocation that runs alone
from such a state appends to the arena only if every free list is empty.
-/

open HashSet (Slot FreeHead)

variable {K H T : Type} {config : Config K T} {thread : T}

section Client

variable [DecidableEq T]

/-- `push_retired()` keeps the protocol. -/
theorem pushRetired_hinted
    (holds : Bool)
    (first last : Slot) :
    Triple (hintProtocol (H := H) config) thread (resting holds)
      (pushRetired config thread first last : Program K H T Unit)
      fun _ => resting holds := by
  refine Triple.bind
    (Triple.steadyResting (Still.steady (still_threadRun _ _)))
    fun nodes => ?_
  refine Triple.bind
    (Triple.steadyResting (Prog.spares_write fun _ => rfl)) fun _ => ?_
  refine Triple.bind
    (Triple.steadyResting (Prog.spares_atomic fun _ _ _ _ ran => ?_))
    fun old => ?_
  · cases ran
    rfl
  refine Triple.bind
    (Triple.steadyResting (Still.steady (still_linkRetired _ _ _ _)))
    fun _ => ?_
  split
  · exact autoReclaim_hinted holds
  · exact Triple.ret fun _ _ known => known

/-- What is tame keeps what a thread knows of its flag. -/
theorem Triple.tameResting
    {α : Type}
    {holds : Bool}
    {program : Program K H T α}
    (tame : Tame config thread program) :
    Triple (hintProtocol (H := H) config) thread (resting holds) program
      fun _ => resting holds := by
  refine Triple.composed tame ?_ ?_ ?_
  · intro state after ghost same inv
    have alike := stealView_eq same
    have hinted : Hinted config after.stealView := alike ▸ inv
    have step : HintStep thread state.stealView after.stealView :=
      alike ▸ HintStep.refl thread state.stealView
    exact ⟨hinted, step⟩
  · intro state after ghost same known
    have alike := stealView_eq same
    exact ⟨alike ▸ known.1, fun held => alike ▸ known.2 held⟩
  · intro β program known
    cases known with
    | alloc value next =>
        exact allocNode_hinted value next
    | retire first last =>
        exact pushRetired_hinted holds first last

variable [DecidableEq H]

theorem steady_pick :
    Steady (pick config thread : Program K H T (Call K H × Handle)) :=
  Prog.spares_atomic fun state choice value after ran => by
    cases choice with
    | call call =>
        obtain ⟨⟨live, next⟩, started, shape⟩ :=
          Option.map_eq_some_iff.mp ran
        cases shape
        rcases startCall_view started with ⟨_, view⟩ | ⟨use, _, view⟩
        · exact stealView_eq view
        · exact congrArg MemoryView.steal view
    | proceed =>
        cases ran
    | spurious =>
        cases ran
    | throws =>
        cases ran

variable [DecidableEq K]

/-- A call from its begin to its end. -/
theorem perform_hinted
    (live : Handle)
    (call : Call K H) :
    Triple (hintProtocol (H := H) config) thread (resting false)
      (perform config thread live call : Program K H T Unit)
      fun _ => resting false := by
  have ends :
      ∀ {α : Type} (result : α),
        Triple (hintProtocol (H := H) config) thread (resting true)
          (do
            releaseFlag
            pure result : Program K H T α)
          fun _ => resting false :=
    fun _ => Triple.bind releaseFlag_hinted
      fun _ => Triple.ret fun _ _ known => known
  cases call with
  | newHandle handle =>
      exact Triple.bind (Triple.tameResting (tame_newHandle handle))
        fun _ => Triple.steadyResting (Prog.spares_write fun _ => rfl)
  | refresh handle =>
      exact Triple.bind (Triple.tameResting (tame_refresh handle live))
        fun _ => Triple.steadyResting (Prog.spares_write fun _ => rfl)
  | operate handle operation =>
      refine Triple.bind (Triple.tameResting (tame_operate operation))
        fun result => ?_
      refine Triple.steadyResting (Prog.spares_write fun _ => ?_)
      cases result <;> rfl
  | advance =>
      refine Triple.bind ?_ fun result =>
        Triple.steadyResting (Prog.spares_write fun _ => rfl)
      refine Triple.bind (takeFlag_hinted false) fun busy => ?_
      cases busy with
      | true =>
          exact Triple.ret fun _ _ known => known
      | false =>
          refine Triple.given fun _ => ?_
          refine Triple.bind (bumpAndFree_hinted _) fun freed => ?_
          split
          · exact ends _
          · exact Triple.bind (Triple.tameResting (tame_walk freed)) ends
  | reclaim =>
      refine Triple.bind ?_ fun result =>
        Triple.steadyResting (Prog.spares_write fun _ => rfl)
      refine Triple.bind (takeFlag_hinted false) fun busy => ?_
      cases busy with
      | true =>
          exact Triple.ret fun _ _ known => known
      | false =>
          refine Triple.given fun _ => ?_
          exact Triple.bind (bumpAndFree_hinted _) ends
  | moveConstruct target source =>
      exact Triple.ret fun _ _ known => known
  | moveAssign target source =>
      exact Triple.ret fun _ _ known => known
  | swap first second =>
      exact Triple.ret fun _ _ known => known
  | destroy handle =>
      exact Triple.ret fun _ _ known => known

/-- A client keeps the protocol. -/
theorem client_hinted :
    Triple (hintProtocol (H := H) config) thread (resting false)
      (client config thread : Program K H T Unit)
      fun _ => Assertion.pure True := by
  have turns :
      ∀ start : Unit,
        Triple (hintProtocol (H := H) config) thread
          ((fun _ : Unit => resting false) start)
          (do
            let begun ← pick config thread
            perform config thread begun.2 begun.1
            Prog.again () : Program K H T (Unit ⊕ Unit))
          (Assertion.turn (fun _ : Unit => resting false)
            fun _ => Assertion.pure True) := by
    intro start
    refine Triple.bind (Triple.steadyResting steady_pick) fun begun => ?_
    exact Triple.bind (perform_hinted begun.2 begun.1) fun _ =>
      Triple.ret fun _ _ known => known
  exact Triple.loop turns

/-- The invariant of the hint holds in every reachable state. -/
theorem reachable_hinted
    {initial : State K H T}
    (constructed : construct config = some initial)
    {pool : Pool (State K H T) (Choice K H) T}
    (reached : (poolOf config initial).Reaches pool) :
    Hinted config pool.shared.stealView := by
  have begun :
      Hinted config initial.stealView ∧
        initial.stealView.advancer = none := by
    unfold construct at constructed
    split at constructed
    · cases constructed
    · cases constructed
      exact ⟨⟨rfl, rfl, fun _ => rfl, fun _ => .inr fun _ _ => rfl⟩, rfl⟩
  have quiet :
      ∀ thread : T,
        (resting false : Assertion (hintProtocol config) thread).holds
          ((poolOf config initial).shared, ()) := by
    intro thread
    refine ⟨⟨fun held => ?_, nofun⟩, nofun⟩
    rw [show (poolOf config initial).shared.stealView.advancer = none
      from begun.2] at held
    cases held
  obtain ⟨needed, keeps⟩ := Covered.reaches reached
  obtain ⟨_, ⟨inv, _⟩, _⟩ :=
    keeps (covered_of_triples begun.1 quiet (fun _ => client_hinted)
      (0 + needed))
  exact inv

end Client

section Alone

variable [DecidableEq T]

variable (config thread) in
/-- One allocation that runs alone from a state. -/
def allocating
    (value : K)
    (next : Option Slot)
    (state : State K H T) :
    Pool (State K H T) (Choice K H) Unit where
  shared := state
  threads _ := do
    let _ ← allocNode config thread value next
    pure ()

omit [DecidableEq T] in
/-- A single thread promises to append nothing to the arena. -/
def aloneProtocol
    (start : State K H T) :
    Protocol (State K H T) Unit Unit where
  Inv world := world.1.arena = start.arena
  Guar _ _ _ := True
  guar_refl _ _ := trivial

variable {start : State K H T}

/-- The free lists and the hint are those of the start. -/
def untouched : Assertion (aloneProtocol start) () where
  holds world :=
    world.1.freeHead = start.freeHead ∧
      world.1.stealHint = start.stealHint
  stable different := absurd rfl different

omit [DecidableEq T] in
/-- A program that does not append. -/
theorem Triple.inPlace
    {α : Type}
    {program : Program K H T α}
    (still : Still program) :
    Triple (aloneProtocol start) () (Assertion.pure True) program
      fun _ => Assertion.pure True := by
  refine Triple.spared still ?_ fun _ known => known
  intro state after ghost same inv
  have arena : after.arena = state.arena := congrArg MemoryView.arena same
  exact ⟨arena.trans inv, trivial⟩

/-- The pop loop, alone: it pops unless the list is empty. -/
theorem popFree_alone
    (shard : Nat) :
    Triple (aloneProtocol start) () untouched
      (popFree thread shard : Program K H T (Option (Slot × FreeHead)))
      fun popped =>
        if popped.isSome then
          Assertion.pure True
        else
          (Assertion.pure ((start.freeHead shard).top = none)).and
            untouched := by
  have looks :
      ∀ world : State K H T × Unit,
        (aloneProtocol start).Inv world →
        (untouched : Assertion (aloneProtocol start) ()).holds world →
        Lands world
          (world.1.seeTop thread (world.1.freeHead shard).top)
          ((Assertion.pure
              (world.1.freeHead shard = start.freeHead shard)).and
            untouched : Assertion (aloneProtocol start) ()) :=
    fun world inv known =>
      ⟨world.2, inv, trivial, congrFun known.1 shard, known⟩
  have reads :
      Triple (aloneProtocol start) () untouched
        (Prog.atomic fun state _ =>
          some (state.freeHead shard,
            state.seeTop thread (state.freeHead shard).top) :
          Program K H T FreeHead)
        fun head =>
          (Assertion.pure (head = start.freeHead shard)).and
            untouched := by
    refine Triple.atomic fun world choice value after inv known ran => ?_
    cases ran
    exact looks world inv known
  refine Triple.bind reads fun head =>
    Triple.loopWith
      (fun head : FreeHead =>
        (Assertion.pure (head = start.freeHead shard)).and untouched)
      fun head => ?_
  refine Triple.given fun same => ?_
  cases top : head.top with
  | none =>
      refine Triple.ret fun _ _ known => ⟨?_, known⟩
      rw [← same]
      exact top
  | some node =>
      have reads :
          Triple (aloneProtocol start) () untouched
            (Prog.read fun state => state.link node :
              Program K H T HashSet.Link)
            fun _ => untouched :=
        Triple.read fun _ _ known => known
      have pops :
          ∀ successor : Option Slot,
            Triple (aloneProtocol start) () untouched
              (casPop thread shard node head successor :
                Program K H T (Bool × FreeHead))
              fun outcome =>
                if outcome.1 then
                  Assertion.pure True
                else
                  (Assertion.pure
                      (outcome.2 = start.freeHead shard)).and
                    untouched :=
        fun successor => casPop_triple
          (fun world inv _ _ => ⟨world.2, inv, trivial, trivial⟩)
          looks
      refine Triple.bind reads fun link => ?_
      refine Triple.bind (pops link.next) fun outcome => ?_
      obtain ⟨won, current⟩ := outcome
      cases won with
      | true =>
          exact Triple.ret fun _ _ _ => trivial
      | false =>
          exact Triple.ret fun _ _ known => known

/-- The scan, alone, finds a node if there is one. -/
theorem stealScan_alone
    (value : K)
    (next : Option Slot)
    (unmarked : start.stealHint.empty = false)
    {filled : Nat}
    (inside : filled < config.shards)
    (top : (start.freeHead filled).top ≠ none) :
    Triple (aloneProtocol start) () untouched
      (stealScan config thread value next : Program K H T Stolen)
      fun stolen => Assertion.pure (stolen ≠ .nothing) := by
  have begins :
      Triple (aloneProtocol start) () untouched
        (Prog.read fun state => state.stealHint :
          Program K H T StealHint)
        fun hint =>
          (Assertion.pure (hint.empty = false)).and untouched :=
    Triple.read fun world _ known => by
      refine ⟨?_, known⟩
      rw [known.2]
      exact unmarked
  refine Triple.bind begins fun hint => Triple.given fun shown => ?_
  rw [if_neg (by rw [shown]; exact Bool.false_ne_true)]
  refine (Triple.loopWith
    (fun index =>
      (Assertion.pure
          (∀ earlier < index,
            (start.freeHead
              ((config.myShard thread + earlier) &&&
                (config.shards - 1))).top = none)).and
        untouched)
    fun index => ?_).weaken fun _ _ known =>
      ⟨fun _ before => absurd before (Nat.not_lt_zero _), known⟩
  refine Triple.given fun dry => ?_
  split
  · refine Triple.bind (popFree_alone _) fun popped => ?_
    cases popped with
    | none =>
        refine Triple.ret fun world _ known => ⟨?_, known.2⟩
        intro earlier before
        rcases Nat.lt_succ_iff_lt_or_eq.mp before with before | rfl
        · exact dry earlier before
        · exact known.1
    | some popped =>
        refine Triple.bind
          (Triple.inPlace (still_reuseNode _ _ _ _)) fun reused => ?_
        refine Triple.ret fun _ _ _ => ?_
        cases reused with
        | none =>
            exact nofun
        | some slot =>
            exact nofun
  · obtain ⟨earlier, before, here⟩ :=
      scan_visits (config.myShard thread) inside
    rw [here] at top
    exact absurd (dry earlier (by omega)) top

/-- An allocation that runs alone appends nothing if there is a free node. -/
theorem allocNode_alone
    (value : K)
    (next : Option Slot)
    (unmarked : start.stealHint.empty = false)
    {filled : Nat}
    (inside : filled < config.shards)
    (top : (start.freeHead filled).top ≠ none) :
    Triple (aloneProtocol start) () untouched
      (allocNode config thread value next : Program K H T (Option Slot))
      fun _ => Assertion.pure True := by
  refine Triple.bind (popFree_alone _) fun popped => ?_
  cases popped with
  | some popped =>
      exact Triple.inPlace (still_reuseNode _ _ _ _)
  | none =>
      refine Triple.given fun _ => ?_
      have begins :
          Triple (aloneProtocol start) () untouched
            (Prog.read fun state => state.stealHint :
              Program K H T StealHint)
            fun hint =>
              (Assertion.pure (hint.empty = false)).and untouched :=
        Triple.read fun world _ known => by
          refine ⟨?_, known⟩
          rw [known.2]
          exact unmarked
      have steals :
          Triple (aloneProtocol start) () untouched
            (stealNode config thread value next : Program K H T Stolen)
            fun stolen => Assertion.pure (stolen ≠ .nothing) := by
        refine Triple.bind begins fun hint => Triple.given fun shown => ?_
        rw [if_neg (by rw [shown]; exact Bool.false_ne_true)]
        exact stealScan_alone value next unmarked inside top
      refine Triple.bind steals fun stolen => ?_
      cases stolen with
      | node slot =>
          exact Triple.ret fun _ _ _ => trivial
      | threw =>
          exact Triple.ret fun _ _ _ => trivial
      | nothing =>
          exact fun _ _ _ known => absurd rfl known

end Alone

section Promise

variable [DecidableEq K] [DecidableEq H] [DecidableEq T]

/--
The hint never hides a free node: while no bag is half pushed, it says that
there is none only if every free list is empty, and an allocation that starts
then and runs alone appends to the arena only if every free list is empty.  A
bag is half pushed only while somebody has the advancer flag.
-/
theorem hint_hides_nothing
    {initial : State K H T}
    (constructed : construct config = some initial)
    {pool : Pool (State K H T) (Choice K H) T}
    (reached : (poolOf config initial).Reaches pool) :
    (pool.shared.reclaiming = false → pool.shared.unstamped = false) ∧
      (pool.shared.unstamped = false →
        (pool.shared.stealHint.empty = true →
          ∀ shard < config.shards,
            (pool.shared.freeHead shard).top = none) ∧
        ∀ (thread : T) (value : K) (next : Option Slot)
          {last : Pool (State K H T) (Choice K H) Unit},
          (allocating config thread value next pool.shared).Reaches last →
          last.shared.arena ≠ pool.shared.arena →
          ∀ shard < config.shards,
            (pool.shared.freeHead shard).top = none) := by
  have inv := reachable_hinted constructed reached
  have dry :
      pool.shared.unstamped = false →
      pool.shared.stealHint.empty = true →
      ∀ shard < config.shards,
        (pool.shared.freeHead shard).top = none := by
    intro stamped empty
    refine (inv.empty empty).resolve_left fun pushing => ?_
    have pushed : pool.shared.unstamped = true := pushing
    rw [stamped] at pushed
    cases pushed
  refine ⟨fun free => ?_, fun stamped => ⟨dry stamped, ?_⟩⟩
  · refine inv.stamped (Option.not_isSome_iff_eq_none.mp ?_)
    have flag : pool.shared.reclaiming = pool.shared.advancer.isSome :=
      inv.flag
    rw [free] at flag
    exact fun held => Bool.false_ne_true (flag.trans held)
  · intro thread value next last alone appended shard inside
    by_contra top
    have unmarked : pool.shared.stealHint.empty = false := by
      cases empty : pool.shared.stealHint.empty with
      | false =>
          rfl
      | true =>
          exact absurd (dry stamped empty shard inside) top
    have allocates :
        Triple (aloneProtocol pool.shared) () untouched
          ((allocating config thread value next pool.shared).threads ())
          fun _ => Assertion.pure True :=
      Triple.bind (allocNode_alone value next unmarked inside top)
        fun _ => Triple.ret fun _ _ _ => trivial
    obtain ⟨needed, keeps⟩ := Covered.reaches alone
    have covered :
        Covered (aloneProtocol pool.shared) (0 + needed)
          (allocating config thread value next pool.shared) () :=
      ⟨rfl, fun _ => allocates _ _ rfl ⟨rfl, rfl⟩⟩
    obtain ⟨_, ⟨same, _⟩, _⟩ := keeps covered
    exact appended same

end Promise

/-- A set of numbers with two shards, for one thread, without a cadence. -/
def paired : Config Nat Unit where
  hash := id
  allowDelete := true
  initialCapacity := 4
  arenaShards := 2
  hardwareConcurrency := 1
  threadNumber _ := 0
  autoReclaimEvery := 0
  kGenerations := 2

/-- The set that is constructed with them. -/
def pairedSet : State Nat Unit Unit :=
  (construct paired).get rfl

/-- A key is inserted and erased under a handle, then `reclaim()` is called. -/
def eraseReclaim : List (Choice Nat Unit) :=
  [Choice.proceed, .call (.newHandle ())] ++ List.replicate 7 Choice.proceed ++
    [Choice.call (.operate () (.insert 13))] ++
    List.replicate 28 Choice.proceed ++
    [Choice.call (.operate () (.erase 13))] ++
    List.replicate 54 Choice.proceed ++
    [Choice.call (.destroy ()), .proceed, .call .reclaim] ++
    List.replicate 52 Choice.proceed

/-- Two nodes were freed: an allocation that runs alone uses one of them. -/
theorem hint_hides_nothing_eraseReclaim :
    ∃ pool : Pool (State Nat Unit Unit) (Choice Nat Unit) Unit,
      construct paired = some pairedSet ∧
        (poolOf paired pairedSet).run
            (eraseReclaim.map fun choice => ((), choice)) =
          some pool ∧
        pool.shared.unstamped = false ∧
        (pool.shared.freeHead 1).top.isSome = true ∧
        ∀ {last : Pool (State Nat Unit Unit) (Choice Nat Unit) Unit},
          (allocating paired () 7 none pool.shared).Reaches last →
          last.shared.arena = pool.shared.arena := by
  obtain ⟨pool, ran, seen⟩ :=
    Pool.run_seen
      (fun state : State Nat Unit Unit =>
        (state.unstamped, (state.freeHead 1).top.isSome))
      (show ((poolOf paired pairedSet).run
          (eraseReclaim.map fun choice => ((), choice))).map _ =
            some (false, true) by decide +kernel)
  simp only [Prod.mk.injEq] at seen
  obtain ⟨stamped, filled⟩ := seen
  refine ⟨pool, rfl, ran, stamped, filled, fun {last} alone => ?_⟩
  by_contra appended
  have inside : 1 < paired.shards := by decide +kernel
  have top :=
    ((hint_hides_nothing rfl ⟨_, ran⟩).2 stamped).2 () 7 none alone
      appended 1 inside
  rw [top] at filled
  cases filled

end ConcurrentCpp.HashSetRCU
