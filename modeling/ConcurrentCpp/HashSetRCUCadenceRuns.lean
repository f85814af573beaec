import ConcurrentCpp.HashSetRCUCadence
import Mathlib.Algebra.BigOperators.Group.Finset.Basic

namespace ConcurrentCpp.HashSetRCU

/-!
# How often the cadence reclaims

Whatever the interleaving, the attempts of the cadence are at most the
multiples that the shards' counts have passed and at most the retired runs,
and with a cadence of one they are the retired runs.
-/

open HashSet (Slot)

variable {K H T : Type} (config : Config K T)

/-- The effective cadence of the set. -/
def Config.cadence : Nat :=
  effectiveEvery (autoReclaimMask config.autoReclaimEvery)

/-- The attempts to reclaim automatically. -/
def State.attempts (state : State K H T) : Nat :=
  state.autoReclaims + state.autoSkipped

/-- The runs that all shards have retired. -/
def State.retiredRuns (state : State K H T) : Nat :=
  ∑ shard ∈ Finset.range config.shards, state.retireRuns shard

/-- The multiples of the cadence that the shards' counts have passed. -/
def State.multiples (state : State K H T) : Nat :=
  ∑ shard ∈ Finset.range config.shards,
    state.retireNodes shard / config.cadence

/--
The threads that have counted a run whose nodes they have not counted yet, and
those that have passed a multiple and not made their attempt yet.
-/
structure Retiring (T : Type) where
  opened : Finset T
  due : Finset T

/-- The invariant of the counters. -/
structure Cadenced
    (state : State K H T)
    (ghost : Retiring T) : Prop where
  busy :
    ∀ {thread},
      thread ∈ ghost.opened ∨ thread ∈ ghost.due →
      ∃ use ∈ state.uses, use.thread = thread
  multiples :
    state.attempts + ghost.due.card ≤ state.multiples config
  runs :
    state.attempts + ghost.due.card + ghost.opened.card ≤
      state.retiredRuns config
  each :
    config.cadence = 1 →
    (∀ shard < config.shards, state.retireNodes shard < 2 ^ 64) →
    state.attempts + ghost.due.card + ghost.opened.card =
      state.retiredRuns config

/-- A step of a thread leaves the marks and the calls of others alone. -/
structure CadenceStep
    (thread : T)
    (before after : State K H T × Retiring T) : Prop where
  opened :
    ∀ {other},
      other ≠ thread →
      (other ∈ after.2.opened ↔ other ∈ before.2.opened)
  due :
    ∀ {other},
      other ≠ thread →
      (other ∈ after.2.due ↔ other ∈ before.2.due)
  uses :
    ∀ {use : Use H T},
      use.thread ≠ thread →
      (use ∈ after.1.uses ↔ use ∈ before.1.uses)

/-- The protocol of the cadence. -/
def cadenceProtocol :
    Protocol (State K H T) (Retiring T) T where
  Inv world := Cadenced config world.1 world.2
  Guar := CadenceStep
  guar_refl _ _ := ⟨fun _ => Iff.rfl, fun _ => Iff.rfl, fun _ => Iff.rfl⟩

variable {config : Config K T} {thread : T}

/-- The thread has no run to account for. -/
def calm :
    Assertion (cadenceProtocol (H := H) config) thread where
  holds world := thread ∉ world.2.opened ∧ thread ∉ world.2.due
  stable different _ _ moved known :=
    ⟨fun member => known.1 ((moved.opened different.symm).mp member),
      fun member => known.2 ((moved.due different.symm).mp member)⟩

/-- The thread is in the middle of a call. -/
def calling :
    Assertion (cadenceProtocol (H := H) config) thread where
  holds world := ∃ use ∈ world.1.uses, use.thread = thread
  stable different _ _ moved := by
    rintro ⟨use, member, same⟩
    refine ⟨use, (moved.uses ?_).mpr member, same⟩
    rw [same]
    exact different.symm

/-- The thread has counted a run and not its nodes. -/
def opening :
    Assertion (cadenceProtocol (H := H) config) thread where
  holds world := thread ∈ world.2.opened ∧ thread ∉ world.2.due
  stable different _ _ moved known :=
    ⟨(moved.opened different.symm).mpr known.1,
      fun member => known.2 ((moved.due different.symm).mp member)⟩

/-- The thread has an attempt to make. -/
def owing :
    Assertion (cadenceProtocol (H := H) config) thread where
  holds world := thread ∉ world.2.opened ∧ thread ∈ world.2.due
  stable different _ _ moved known :=
    ⟨fun member => known.1 ((moved.opened different.symm).mp member),
      (moved.due different.symm).mpr known.2⟩

/-- What the thread knows inside of a call. -/
def engaged :
    Assertion (cadenceProtocol (H := H) config) thread :=
  calm.and calling

section Quiet

/-- The invariant depends on the words of the cadence alone. -/
theorem Cadenced.congr
    {state after : State K H T}
    {ghost : Retiring T}
    (same : after.cadenceView = state.cadenceView)
    (inv : Cadenced config state ghost) :
    Cadenced config after ghost := by
  have runs : after.retireRuns = state.retireRuns :=
    congrArg CadenceView.retireRuns same
  have nodes : after.retireNodes = state.retireNodes :=
    congrArg CadenceView.retireNodes same
  have reclaims : after.autoReclaims = state.autoReclaims :=
    congrArg CadenceView.autoReclaims same
  have skipped : after.autoSkipped = state.autoSkipped :=
    congrArg CadenceView.autoSkipped same
  have uses : after.uses = state.uses :=
    congrArg CadenceView.uses same
  have attempts : after.attempts = state.attempts := by
    rw [State.attempts, State.attempts, reclaims, skipped]
  have multiples : after.multiples config = state.multiples config := by
    rw [State.multiples, State.multiples, nodes]
  have total : after.retiredRuns config = state.retiredRuns config := by
    rw [State.retiredRuns, State.retiredRuns, runs]
  refine ⟨?_, ?_, ?_, ?_⟩
  · rw [uses]
    exact inv.busy
  · rw [attempts, multiples]
    exact inv.multiples
  · rw [attempts, total]
    exact inv.runs
  · rw [attempts, total, nodes]
    exact inv.each

/-- A program that never touches these words. -/
theorem Triple.aloof
    {α : Type}
    {pre : Assertion (cadenceProtocol (H := H) config) thread}
    {program : Program K H T α}
    (aloof : Aloof program)
    (keeps :
      ∀ {state after : State K H T} {ghost},
        after.uses = state.uses →
        pre.holds (state, ghost) →
        pre.holds (after, ghost)) :
    Triple (cadenceProtocol config) thread pre program fun _ => pre := by
  refine Triple.spared aloof ?_ ?_
  · intro state after ghost same inv
    refine ⟨inv.congr same, fun _ => Iff.rfl, fun _ => Iff.rfl, fun _ => ?_⟩
    have uses : after.uses = state.uses := congrArg CadenceView.uses same
    rw [uses]
  · intro state after ghost same known
    exact keeps (congrArg CadenceView.uses same) known

/-- What a call knows survives a program that never touches these words. -/
theorem Triple.aloofEngaged
    {α : Type}
    {program : Program K H T α}
    (aloof : Aloof program) :
    Triple (cadenceProtocol config) thread engaged program
      fun _ => engaged :=
  Triple.aloof aloof fun uses known => by
    refine ⟨known.1, ?_⟩
    obtain ⟨use, member, same⟩ := known.2
    exact ⟨use, uses ▸ member, same⟩

/-- The same for a thread that has an attempt to make. -/
theorem Triple.aloofOwing
    {α : Type}
    {program : Program K H T α}
    (aloof : Aloof program) :
    Triple (cadenceProtocol config) thread (owing.and calling) program
      fun _ => owing.and calling :=
  Triple.aloof aloof fun uses known => by
    refine ⟨known.1, ?_⟩
    obtain ⟨use, member, same⟩ := known.2
    exact ⟨use, uses ▸ member, same⟩

end Quiet

section Sums

/-- One term of a sum of weights is replaced. -/
theorem sum_weights_update
    (weigh : Nat → Nat)
    (terms : Nat → Nat)
    {index bound : Nat}
    (inside : index < bound)
    (value : Nat) :
    ∑ place ∈ Finset.range bound,
          weigh (Function.update terms index value place) +
        weigh (terms index) =
      ∑ place ∈ Finset.range bound, weigh (terms place) + weigh value := by
  have member : index ∈ Finset.range bound := Finset.mem_range.mpr inside
  have others :
      ∑ place ∈ (Finset.range bound).erase index,
          weigh (Function.update terms index value place) =
        ∑ place ∈ (Finset.range bound).erase index,
          weigh (terms place) := by
    refine Finset.sum_congr rfl fun place outside => ?_
    rw [Function.update_of_ne (Finset.ne_of_mem_erase outside)]
  rw [← Finset.add_sum_erase _ _ member, ← Finset.add_sum_erase _ _ member,
    others, Function.update_self]
  omega

end Sums

section Push

variable [DecidableEq T] {state : State K H T} {ghost : Retiring T}

/-- A thread is marked, in the middle of its call. -/
theorem Cadenced.busy_insert
    (inv : Cadenced config state ghost)
    {marked : Finset T}
    (old : ∀ {other}, other ∈ marked →
      other ∈ ghost.opened ∨ other ∈ ghost.due)
    (using' : ∃ use ∈ state.uses, use.thread = thread)
    {other : T}
    (member : other ∈ Insert.insert thread marked) :
    ∃ use ∈ state.uses, use.thread = other := by
  rcases Finset.mem_insert.mp member with rfl | member
  · exact using'
  · exact inv.busy (old member)

/-- A run is counted. -/
theorem Cadenced.openRun
    (inv : Cadenced config state ghost)
    (absent : thread ∉ ghost.opened)
    (using' : ∃ use ∈ state.uses, use.thread = thread) :
    Cadenced config
      { state with
        retireRuns :=
          Function.update state.retireRuns (config.myShard thread)
            (state.retireRuns (config.myShard thread) + 1) }
      { ghost with opened := Insert.insert thread ghost.opened } := by
  have inside : config.myShard thread < config.shards :=
    HashSet.myShard_lt thread
  have total :
      State.retiredRuns config
          { state with
            retireRuns :=
              Function.update state.retireRuns (config.myShard thread)
                (state.retireRuns (config.myShard thread) + 1) } =
        state.retiredRuns config + 1 := by
    have sum :=
      sum_weights_update id state.retireRuns inside
        (state.retireRuns (config.myShard thread) + 1)
    simp only [id_eq] at sum
    simp only [State.retiredRuns]
    omega
  have card := Finset.card_insert_of_notMem absent
  have runs := inv.runs
  refine ⟨?_, inv.multiples, ?_, ?_⟩
  · rintro other (isOpened | isDue)
    · exact inv.busy_insert .inl using' isOpened
    · exact inv.busy (.inr isDue)
  · rw [total, card]
    exact Nat.succ_le_succ runs
  · intro one small
    rw [total, card]
    exact congrArg Nat.succ (inv.each one small)

/-- What the nodes of a run do to the marks of its thread. -/
def Retiring.counted
    (ghost : Retiring T)
    (thread : T)
    (passes : Bool) :
    Retiring T where
  opened := ghost.opened.erase thread
  due := if passes then Insert.insert thread ghost.due else ghost.due

/-- The nodes of a run are counted. -/
theorem Cadenced.countNodes
    (inv : Cadenced config state ghost)
    (isOpen : thread ∈ ghost.opened)
    (absent : thread ∉ ghost.due)
    {count : Nat}
    (positive : 0 < count) :
    Cadenced config
      { state with
        retireNodes :=
          Function.update state.retireNodes (config.myShard thread)
            (state.retireNodes (config.myShard thread) + count) }
      (ghost.counted thread
        (passesMultiple (autoReclaimMask config.autoReclaimEvery)
          (state.retireNodes (config.myShard thread)) count)) := by
  have inside : config.myShard thread < config.shards :=
    HashSet.myShard_lt thread
  have using' := inv.busy (.inl isOpen)
  have opened := Finset.card_erase_add_one isOpen
  have due := Finset.card_insert_of_notMem absent
  have runs := inv.runs
  have multiples := inv.multiples
  generalize old : state.retireNodes (config.myShard thread) = nodes
  have passed :
      State.multiples config
            { state with
              retireNodes :=
                Function.update state.retireNodes (config.myShard thread)
                  (nodes + count) } +
          nodes / config.cadence =
        state.multiples config + (nodes + count) / config.cadence := by
    have sum :=
      sum_weights_update (· / config.cadence) state.retireNodes inside
        (nodes + count)
    rw [old] at sum
    exact sum
  have monotone :
      nodes / config.cadence ≤ (nodes + count) / config.cadence :=
    Nat.div_le_div_right (Nat.le_add_right nodes count)
  cases passes :
      passesMultiple (autoReclaimMask config.autoReclaimEvery) nodes
        count with
  | false =>
      refine ⟨?_, ?_, ?_, ?_⟩
      · rintro other (isOpened | isDue)
        · exact inv.busy (.inl (Finset.mem_of_mem_erase isOpened))
        · exact inv.busy (.inr isDue)
      · have goal : state.attempts + ghost.due.card ≤
            State.multiples config
              { state with
                retireNodes :=
                  Function.update state.retireNodes
                    (config.myShard thread) (nodes + count) } := by
          omega
        exact goal
      · have goal : state.attempts + ghost.due.card +
            (ghost.opened.erase thread).card ≤
              state.retiredRuns config := by
          omega
        exact goal
      · intro one small
        -- With a cadence of one every count passes a multiple.
        have fits : nodes + count < 2 ^ 64 := by
          have bound := small (config.myShard thread) inside
          simpa only [Function.update_self] using bound
        have always :=
          (passesMultiple_iff config.autoReclaimEvery fits).mpr
            ⟨nodes + 1, by
              have unit : effectiveEvery
                  (autoReclaimMask config.autoReclaimEvery) = 1 := one
              rw [unit]
              exact Nat.one_dvd _, by omega, by omega⟩
        rw [passes] at always
        cases always
  | true =>
      have less : nodes / config.cadence < (nodes + count) / config.cadence :=
        passesMultiple_div_lt passes
      refine ⟨?_, ?_, ?_, ?_⟩
      · rintro other (isOpened | isDue)
        · exact inv.busy (.inl (Finset.mem_of_mem_erase isOpened))
        · exact inv.busy_insert .inr using' isDue
      · have goal :
            state.attempts + (Insert.insert thread ghost.due).card ≤
              State.multiples config
                { state with
                  retireNodes :=
                    Function.update state.retireNodes
                      (config.myShard thread) (nodes + count) } := by
          omega
        exact goal
      · have goal :
            state.attempts + (Insert.insert thread ghost.due).card +
              (ghost.opened.erase thread).card ≤
                state.retiredRuns config := by
          omega
        exact goal
      · intro one small
        have before :
            ∀ shard < config.shards, state.retireNodes shard < 2 ^ 64 := by
          intro shard within
          have bound := small shard within
          by_cases same : shard = config.myShard thread
          · subst same
            simp only [Function.update_self] at bound
            omega
          · simpa only [Function.update_of_ne same] using bound
        have each := inv.each one before
        have goal :
            state.attempts + (Insert.insert thread ghost.due).card +
              (ghost.opened.erase thread).card =
                state.retiredRuns config := by
          omega
        exact goal

/-- The attempt is made. -/
theorem Cadenced.attempt
    (inv : Cadenced config state ghost)
    (isDue : thread ∈ ghost.due)
    {after : State K H T}
    (attempts : after.attempts = state.attempts + 1)
    (runs : after.retireRuns = state.retireRuns)
    (nodes : after.retireNodes = state.retireNodes)
    (uses : after.uses = state.uses) :
    Cadenced config after
      { ghost with due := ghost.due.erase thread } := by
  have card := Finset.card_erase_add_one isDue
  have multiples : after.multiples config = state.multiples config := by
    rw [State.multiples, State.multiples, nodes]
  have total : after.retiredRuns config = state.retiredRuns config := by
    rw [State.retiredRuns, State.retiredRuns, runs]
  have knownMultiples := inv.multiples
  have knownRuns := inv.runs
  refine ⟨?_, ?_, ?_, ?_⟩
  · rw [uses]
    rintro other (isOpened | isDue)
    · exact inv.busy (.inl isOpened)
    · exact inv.busy (.inr (Finset.mem_of_mem_erase isDue))
  · rw [attempts, multiples]
    dsimp only
    omega
  · rw [attempts, total]
    dsimp only
    omega
  · intro one small
    rw [nodes] at small
    have each := inv.each one small
    rw [attempts, total]
    dsimp only
    omega

omit [DecidableEq T] in
/-- A step of a thread on its own marks. -/
theorem cadenceStep
    {after : State K H T}
    {marks : Retiring T}
    (opened :
      ∀ {other},
        other ≠ thread →
        (other ∈ marks.opened ↔ other ∈ ghost.opened))
    (due :
      ∀ {other},
        other ≠ thread →
        (other ∈ marks.due ↔ other ∈ ghost.due))
    (uses : after.uses = state.uses) :
    CadenceStep thread (state, ghost) (after, marks) :=
  ⟨opened, due, fun _ => by rw [uses]⟩

/-- The run that is threaded has at least one node. -/
theorem threadRun_triple
    (first last : Slot) :
    Triple (cadenceProtocol config) thread engaged
      (threadRun thread first last : Program K H T (List Slot))
      fun nodes => (Assertion.pure (0 < nodes.length)).and engaged := by
  unfold threadRun
  refine (Triple.loopWith
    (fun walk : Slot × List Slot =>
      (Assertion.pure (0 < walk.2.length)).and (engaged (H := H)))
    fun walk => ?_).weaken fun _ _ known => ⟨Nat.one_pos, known⟩
  split
  · exact Triple.ret fun _ _ known => known
  refine Triple.given fun _ => ?_
  refine Triple.bind (Triple.aloofEngaged (Still.aloof (still_loadLink walk.1)))
    fun link => ?_
  split
  · refine Triple.atomic ?_
    rintro world choice value after _ _ ⟨⟩
  · refine Triple.bind
      (Triple.aloofEngaged (Prog.spares_write fun _ => rfl)) fun _ => ?_
    exact Triple.ret fun _ _ known => ⟨Nat.succ_pos _, known⟩

/-- The attempt of a thread that owes one. -/
theorem autoReclaim_triple :
    Triple (cadenceProtocol config) thread (owing.and calling)
      (autoReclaim config thread : Program K H T Unit)
      fun _ => engaged := by
  refine Triple.bind (Triple.aloofOwing (aloof_takeFlag thread))
    fun busy => ?_
  have counted :
      ∀ count : State K H T → State K H T,
        (∀ state, (count state).attempts = state.attempts + 1) →
        (∀ state, (count state).retireRuns = state.retireRuns) →
        (∀ state, (count state).retireNodes = state.retireNodes) →
        (∀ state, (count state).uses = state.uses) →
        Triple (cadenceProtocol config) thread (owing.and calling)
          (Prog.write count : Program K H T Unit)
          fun _ => engaged := by
    intro count attempts runs nodes uses
    refine Triple.atomic ?_
    rintro ⟨state, ghost⟩ choice value after inv ⟨owes, calls⟩ ran
    cases ran
    refine ⟨{ ghost with due := ghost.due.erase thread },
      Cadenced.attempt inv owes.2 (attempts state) (runs state)
        (nodes state) (uses state), ?_, ?_⟩
    · refine cadenceStep (fun _ => Iff.rfl) (fun different => ?_)
        (uses state)
      simp [different]
    · refine ⟨⟨owes.1, Finset.notMem_erase _ _⟩, ?_⟩
      obtain ⟨use, member, same⟩ := calls
      exact ⟨use, (uses state).symm ▸ member, same⟩
  cases busy with
  | true =>
      exact counted _ (fun _ => rfl) (fun _ => rfl) (fun _ => rfl)
        fun _ => rfl
  | false =>
      refine Triple.bind
        (counted _
          (fun state => Nat.add_right_comm state.autoReclaims 1 _)
          (fun _ => rfl) (fun _ => rfl) fun _ => rfl) fun _ => ?_
      refine Triple.bind (Triple.aloofEngaged (aloof_bumpAndFree _))
        fun _ => ?_
      exact Triple.aloofEngaged aloof_releaseFlag

/-- `push_retired()` accounts for its run. -/
theorem pushRetired_triple
    (first last : Slot) :
    Triple (cadenceProtocol config) thread engaged
      (pushRetired config thread first last : Program K H T Unit)
      fun _ => engaged := by
  refine Triple.bind (threadRun_triple first last) fun nodes => ?_
  refine Triple.given fun positive => ?_
  have opens :
      Triple (cadenceProtocol config) thread engaged
        (Prog.write fun state =>
          { state with
            retireRuns :=
              Function.update state.retireRuns (config.myShard thread)
                (state.retireRuns (config.myShard thread) + 1) } :
          Program K H T Unit)
        fun _ => opening.and calling := by
    refine Triple.atomic ?_
    rintro ⟨state, ghost⟩ choice value after inv ⟨quiet, calls⟩ ran
    cases ran
    refine ⟨{ ghost with opened := Insert.insert thread ghost.opened },
      Cadenced.openRun inv quiet.1 calls, ?_, ?_⟩
    · refine cadenceStep (fun different => ?_) (fun _ => Iff.rfl) rfl
      simp [different]
    · exact ⟨⟨Finset.mem_insert_self _ _, quiet.2⟩, calls⟩
  have counts :
      Triple (cadenceProtocol config) thread (opening.and calling)
        (addRetireNodes (config.myShard thread) nodes.length :
          Program K H T Nat)
        fun old =>
          if passesMultiple (autoReclaimMask config.autoReclaimEvery) old
              nodes.length then
            owing.and calling
          else
            engaged := by
    refine Triple.atomic ?_
    rintro ⟨state, ghost⟩ choice value after inv ⟨isOpen, calls⟩ ran
    cases ran
    refine ⟨_, Cadenced.countNodes inv isOpen.1 isOpen.2 positive, ?_, ?_⟩
    · refine cadenceStep (fun different => ?_) (fun different => ?_) rfl
      · simp [different]
      · dsimp only
        split
        · simp [different]
        · exact Iff.rfl
    · have closed :
          thread ∉ ghost.opened.erase thread :=
        Finset.notMem_erase _ _
      cases passes :
          passesMultiple (autoReclaimMask config.autoReclaimEvery)
            (state.retireNodes (config.myShard thread))
            nodes.length with
      | true =>
          exact ⟨⟨closed, Finset.mem_insert_self _ _⟩, calls⟩
      | false =>
          exact ⟨⟨closed, isOpen.2⟩, calls⟩
  refine Triple.bind opens fun _ => Triple.bind counts fun old => ?_
  cases passes :
      passesMultiple (autoReclaimMask config.autoReclaimEvery) old
        nodes.length with
  | true =>
      exact Triple.bind
        (Triple.aloofOwing (Still.aloof (still_linkRetired _ _ _ _)))
        fun _ => autoReclaim_triple
  | false =>
      exact Triple.bind
        (Triple.aloofEngaged (Still.aloof (still_linkRetired _ _ _ _)))
        fun _ => Triple.ret fun _ _ known => known

end Push

section Client

variable [DecidableEq T]

/-- What is tame keeps what a call knows. -/
theorem Triple.tame
    {α : Type}
    {program : Program K H T α}
    (tame : Tame config thread program) :
    Triple (cadenceProtocol config) thread engaged program
      fun _ => engaged := by
  refine Triple.composed tame ?_ ?_ ?_
  · intro state after ghost same inv
    have uses : after.uses = state.uses :=
      congrArg CadenceView.uses (cadenceView_eq same)
    exact ⟨inv.congr (cadenceView_eq same),
      cadenceStep (fun _ => Iff.rfl) (fun _ => Iff.rfl) uses⟩
  · intro state after ghost same known
    have uses : after.uses = state.uses :=
      congrArg CadenceView.uses (cadenceView_eq same)
    refine ⟨known.1, ?_⟩
    obtain ⟨use, member, own⟩ := known.2
    exact ⟨use, uses ▸ member, own⟩
  · intro β program known
    cases known with
    | alloc value next =>
        exact Triple.aloofEngaged (aloof_allocNode value next)
    | retire first last =>
        exact pushRetired_triple first last

omit [DecidableEq T] in
/-- An update of the calls of a thread that has no marks. -/
theorem Cadenced.callUpdate
    {state after : State K H T}
    {ghost : Retiring T}
    (inv : Cadenced config state ghost)
    (quiet : thread ∉ ghost.opened ∧ thread ∉ ghost.due)
    {calls : List (Use H T)}
    (view : after.memoryView = { state.memoryView with uses := calls })
    (others :
      ∀ {use : Use H T},
        use.thread ≠ thread →
        (use ∈ calls ↔ use ∈ state.uses)) :
    Cadenced config after ghost ∧
      CadenceStep thread (state, ghost) (after, ghost) := by
  have runs : after.retireRuns = state.retireRuns :=
    congrArg MemoryView.retireRuns view
  have nodes : after.retireNodes = state.retireNodes :=
    congrArg MemoryView.retireNodes view
  have attempts : after.attempts = state.attempts :=
    congrArg (fun view : MemoryView H T =>
      view.autoReclaims + view.autoSkipped) view
  have uses : after.uses = calls := congrArg MemoryView.uses view
  have multiples : after.multiples config = state.multiples config := by
    rw [State.multiples, State.multiples, nodes]
  have total : after.retiredRuns config = state.retiredRuns config := by
    rw [State.retiredRuns, State.retiredRuns, runs]
  refine ⟨⟨?_, ?_, ?_, ?_⟩, fun _ => Iff.rfl, fun _ => Iff.rfl, ?_⟩
  · intro other marked
    obtain ⟨use, member, same⟩ := inv.busy marked
    rw [uses]
    refine ⟨use, (others ?_).mpr member, same⟩
    rintro own
    rw [same] at own
    subst own
    exact marked.elim quiet.1 quiet.2
  · rw [attempts, multiples]
    exact inv.multiples
  · rw [attempts, total]
    exact inv.runs
  · rw [attempts, total, nodes]
    exact inv.each
  · intro use different
    dsimp only
    rw [uses]
    exact others different

/-- A call that lasts is listed. -/
def listed
    (call : Call K H) :
    Assertion (cadenceProtocol (H := H) config) thread where
  holds world := call.Lasting → calling.holds world
  stable different inv invAfter moved known lasting :=
    calling.stable different inv invAfter moved (known lasting)

variable [DecidableEq H]

/-- A client begins a call. -/
theorem pick_triple :
    Triple (cadenceProtocol config) thread calm
      (pick config thread : Program K H T (Call K H × Handle))
      fun begun => calm.and (listed begun.1) := by
  refine Triple.atomic ?_
  rintro ⟨state, ghost⟩ choice value after inv quiet ran
  cases choice with
  | call call =>
      obtain ⟨⟨live, next⟩, started, shape⟩ :=
        Option.map_eq_some_iff.mp ran
      cases shape
      rcases startCall_view started with ⟨short, view⟩ | ⟨use, own, view⟩
      · have kept :
            next.memoryView =
              { state.memoryView with uses := state.uses } :=
          view
        obtain ⟨invAfter, step⟩ :=
          Cadenced.callUpdate inv quiet kept fun _ => Iff.rfl
        exact ⟨ghost, invAfter, step, quiet,
          fun lasting => absurd lasting short⟩
      · obtain ⟨invAfter, step⟩ :=
          Cadenced.callUpdate inv quiet view fun {other} different => by
            have apart : other ≠ use := by
              rintro rfl
              exact different own
            simp [apart]
        have uses : next.uses = use :: state.uses :=
          congrArg MemoryView.uses view
        refine ⟨ghost, invAfter, step, quiet, fun _ => ⟨use, ?_, own⟩⟩
        rw [uses]
        exact List.mem_cons_self
  | proceed =>
      cases ran
  | spurious =>
      cases ran
  | throws =>
      cases ran

/-- A call ends. -/
theorem end_triple
    (use : Use H T)
    (own : use.thread = thread)
    {store : State K H T → State K H T}
    (view :
      ∀ state,
        (store state).memoryView =
          { state.memoryView with uses := state.uses.erase use }) :
    Triple (cadenceProtocol config) thread engaged
      (Prog.write store : Program K H T Unit)
      fun _ => calm := by
  refine Triple.atomic ?_
  rintro ⟨state, ghost⟩ choice value after inv known ran
  cases ran
  obtain ⟨invAfter, step⟩ :=
    Cadenced.callUpdate inv known.1 (view state) fun {other} different =>
      List.mem_erase_of_ne fun same => different (same ▸ own)
  exact ⟨ghost, invAfter, step, known.1⟩

theorem endOperation_triple
    (handle : H)
    (operation : SetOp K)
    (result : Except Site Bool) :
    Triple (cadenceProtocol config) thread engaged
      (endOperation thread handle operation result : Program K H T Unit)
      fun _ => calm := by
  unfold endOperation
  refine end_triple ⟨thread, some handle, false⟩ rfl fun state => ?_
  cases result <;> rfl

theorem endAdvance_triple
    (result : Option AdvanceResult) :
    Triple (cadenceProtocol config) thread engaged
      (endAdvance thread result : Program K H T Unit)
      fun _ => calm := by
  unfold endAdvance
  exact end_triple ⟨thread, none, false⟩ rfl fun _ => rfl

theorem endHandleCall_triple
    (handle : H) :
    Triple (cadenceProtocol config) thread engaged
      (endHandleCall ⟨thread, some handle, true⟩ : Program K H T Unit)
      fun _ => calm := by
  unfold endHandleCall
  exact end_triple ⟨thread, some handle, true⟩ rfl fun _ => rfl

variable [DecidableEq K]

/-- A call from its begin to its end. -/
theorem perform_triple
    (live : Handle)
    (call : Call K H) :
    Triple (cadenceProtocol config) thread (calm.and (listed call))
      (perform config thread live call : Program K H T Unit)
      fun _ => calm := by
  have enters :
      call.Lasting →
      ∀ {program : Program K H T Unit},
        Triple (cadenceProtocol config) thread engaged program
          (fun _ => calm) →
        Triple (cadenceProtocol config) thread (calm.and (listed call))
          program fun _ => calm :=
    fun lasting _ triple =>
      triple.weaken fun _ _ known => ⟨known.1, known.2 lasting⟩
  have reclaims :
      Triple (cadenceProtocol config) thread engaged
        (bumpAndFree config ⟨0, 0, 0, 0, 0, .nothingRetired⟩ :
          Program K H T AdvanceResult)
        fun _ => engaged :=
    Triple.aloofEngaged (aloof_bumpAndFree _)
  have ends :
      ∀ {α : Type} (result : α),
        Triple (cadenceProtocol config) thread engaged
          (do
            releaseFlag
            pure result : Program K H T α)
          fun _ => engaged :=
    fun _ =>
      Triple.bind (Triple.aloofEngaged aloof_releaseFlag)
        fun _ => Triple.ret fun _ _ known => known
  cases call with
  | newHandle handle =>
      exact enters trivial (Triple.bind
        (Triple.tame (tame_newHandle handle)) fun _ =>
          endHandleCall_triple handle)
  | refresh handle =>
      exact enters trivial (Triple.bind
        (Triple.tame (tame_refresh handle live)) fun _ =>
          endHandleCall_triple handle)
  | operate handle operation =>
      exact enters trivial (Triple.bind
        (Triple.tame (tame_operate operation)) fun result =>
          endOperation_triple handle operation result)
  | advance =>
      refine enters trivial (Triple.bind ?_ endAdvance_triple)
      refine Triple.bind (Triple.aloofEngaged (aloof_takeFlag thread))
        fun busy => ?_
      split
      · exact Triple.ret fun _ _ known => known
      refine Triple.bind reclaims fun freed => ?_
      split
      · exact ends _
      · exact Triple.bind (Triple.tame (tame_walk freed)) ends
  | reclaim =>
      refine enters trivial (Triple.bind ?_ fun result =>
        endAdvance_triple (some result))
      refine Triple.bind (Triple.aloofEngaged (aloof_takeFlag thread))
        fun busy => ?_
      split
      · exact Triple.ret fun _ _ known => known
      exact Triple.bind reclaims ends
  | moveConstruct target source =>
      exact Triple.ret fun _ _ known => known.1
  | moveAssign target source =>
      exact Triple.ret fun _ _ known => known.1
  | swap first second =>
      exact Triple.ret fun _ _ known => known.1
  | destroy handle =>
      exact Triple.ret fun _ _ known => known.1

/-- A client keeps the protocol. -/
theorem client_triple :
    Triple (cadenceProtocol config) thread calm
      (client config thread : Program K H T Unit)
      fun _ => Assertion.pure True := by
  have turns :
      ∀ start : Unit,
        Triple (cadenceProtocol config) thread
          ((fun _ : Unit => calm (H := H)) start)
          (do
            let begun ← pick config thread
            perform config thread begun.2 begun.1
            Prog.again () : Program K H T (Unit ⊕ Unit))
          (Assertion.turn (fun _ : Unit => calm)
            fun _ => Assertion.pure True) := by
    intro start
    refine Triple.bind pick_triple fun begun => ?_
    exact Triple.bind (perform_triple begun.2 begun.1) fun _ =>
      Triple.ret fun _ _ known => known
  unfold client
  exact Triple.loop turns

omit [DecidableEq T] [DecidableEq H] [DecidableEq K] in
/-- The invariant of a set that was just constructed. -/
theorem construct_cadenced
    {initial : State K H T}
    (constructed : construct config = some initial) :
    Cadenced config initial ⟨∅, ∅⟩ := by
  unfold construct at constructed
  split at constructed
  · cases constructed
  · cases constructed
    refine ⟨?_, Nat.zero_le _, Nat.zero_le _, fun _ _ => ?_⟩
    · rintro other (isOpened | isDue)
      · exact absurd isOpened (Finset.notMem_empty _)
      · exact absurd isDue (Finset.notMem_empty _)
    · simp [State.attempts, State.retiredRuns]

/-- The clients of a set keep the protocol. -/
theorem cadence_covered
    {initial : State K H T}
    (constructed : construct config = some initial)
    (fuel : Nat) :
    Covered (cadenceProtocol config) fuel (poolOf config initial)
      ⟨∅, ∅⟩ := by
  have quiet :
      ∀ thread : T,
        (calm : Assertion (cadenceProtocol (H := H) config) thread).holds
          ((poolOf config initial).shared, ⟨∅, ∅⟩) :=
    fun _ => ⟨Finset.notMem_empty _, Finset.notMem_empty _⟩
  exact covered_of_triples (construct_cadenced constructed) quiet
    (fun _ => client_triple) fuel

/--
The cadence counts exactly.  The effective cadence is the requested one rounded
up to a power of two, and the test of a push holds exactly if the count of its
shard passes a multiple of it.  When no call is in
progress, the attempts are at most the multiples that the shards' counts have
passed, none without a cadence, and at most the retired runs; with a cadence
of one they are the retired runs.
-/
theorem cadence_exact
    {initial : State K H T}
    (constructed : construct config = some initial)
    {pool : Pool (State K H T) (Choice K H) T}
    (reached : (poolOf config initial).Reaches pool)
    (quiescent : pool.shared.uses = []) :
    (∀ every : BitVec 64,
        EffectiveCadence every (effectiveEvery (autoReclaimMask every))) ∧
      (∀ (every : BitVec 64) (old count : Nat),
        1 ≤ count →
        old + count < 2 ^ 64 →
          (passesMultiple (autoReclaimMask every) old count = true ↔
            ∃ multiple,
              effectiveEvery (autoReclaimMask every) ∣ multiple ∧
                old < multiple ∧ multiple ≤ old + count)) ∧
      (∀ old count, passesMultiple 0 old count = false) ∧
      (config.cadence = 0 → pool.shared.attempts = 0) ∧
      pool.shared.attempts ≤
        ∑ shard ∈ Finset.range config.shards,
          pool.shared.retireNodes shard / config.cadence ∧
      pool.shared.attempts ≤
        ∑ shard ∈ Finset.range config.shards,
          pool.shared.retireRuns shard ∧
      (config.cadence = 1 →
        (∀ shard < config.shards,
          pool.shared.retireNodes shard < 2 ^ 64) →
        pool.shared.attempts =
          ∑ shard ∈ Finset.range config.shards,
            pool.shared.retireRuns shard) := by
  obtain ⟨needed, keeps⟩ := Covered.reaches reached
  obtain ⟨ghost, ⟨inv, _⟩, _⟩ :=
    keeps (cadence_covered constructed (0 + needed))
  have idle : ∀ {other : T}, ¬ (other ∈ ghost.opened ∨ other ∈ ghost.due) := by
    intro other marked
    obtain ⟨use, member, _⟩ := inv.busy marked
    rw [quiescent] at member
    exact List.not_mem_nil member
  have opened : ghost.opened.card = 0 :=
    Finset.card_eq_zero.mpr
      (Finset.eq_empty_of_forall_notMem fun _ member => idle (.inl member))
  have due : ghost.due.card = 0 :=
    Finset.card_eq_zero.mpr
      (Finset.eq_empty_of_forall_notMem fun _ member => idle (.inr member))
  have multiples := inv.multiples
  have runs := inv.runs
  rw [due, Nat.add_zero] at multiples
  rw [due, opened] at runs
  refine ⟨effectiveCadence,
    fun every old count _ fits => passesMultiple_iff every fits,
    passesMultiple_off, fun off => ?_, multiples, runs, ?_⟩
  · rw [State.multiples, off] at multiples
    simpa using multiples
  · intro one small
    have each := inv.each one small
    rw [due, opened] at each
    exact each

end Client

/-- A set of numbers with one shard, for one thread, that reclaims always. -/
def eager : Config Nat Unit where
  hash := id
  allowDelete := true
  initialCapacity := 4
  arenaShards := 1
  hardwareConcurrency := 1
  threadNumber _ := 0
  autoReclaimEvery := 1
  kGenerations := 2

/-- The set that is constructed with them. -/
def eagerSet : State Nat Unit Unit :=
  (construct eager).get rfl

/-- The steps of the only thread. -/
def alone
    (choices : List (Choice Nat Unit)) :
    List (Unit × Choice Nat Unit) :=
  choices.map fun choice => ((), choice)

/-- The thread makes a handle, inserts a key and erases it. -/
def insertErase : List (Choice Nat Unit) :=
  [Choice.proceed, .call (.newHandle ())] ++ List.replicate 7 Choice.proceed ++
    [Choice.call (.operate () (.insert 13))] ++
    List.replicate 28 Choice.proceed ++
    [Choice.call (.operate () (.erase 13))] ++
    List.replicate 88 Choice.proceed

/-- The same with a cadence of three, which becomes four. -/
def thrifty : Config Nat Unit where
  hash := id
  allowDelete := true
  initialCapacity := 4
  arenaShards := 1
  hardwareConcurrency := 1
  threadNumber _ := 0
  autoReclaimEvery := 3
  kGenerations := 2

/-- The set that is constructed with them. -/
def thriftySet : State Nat Unit Unit :=
  (construct thrifty).get rfl

/-- The thread makes a handle, and twice inserts the key and erases it. -/
def insertEraseTwice : List (Choice Nat Unit) :=
  [Choice.proceed, .call (.newHandle ())] ++ List.replicate 7 Choice.proceed ++
    [Choice.call (.operate () (.insert 13))] ++
    List.replicate 28 Choice.proceed ++
    [Choice.call (.operate () (.erase 13))] ++
    List.replicate 54 Choice.proceed ++
    [Choice.call (.operate () (.insert 13))] ++
    List.replicate 35 Choice.proceed ++
    [Choice.call (.operate () (.erase 13))] ++
    List.replicate 71 Choice.proceed

/--
The frozen node of the key and its copy are retired as two runs.  Twice that
passes one multiple of four.
-/
theorem cadence_exact_insertErase :
    (∃ pool : Pool (State Nat Unit Unit) (Choice Nat Unit) Unit,
      construct eager = some eagerSet ∧
        (poolOf eager eagerSet).run (alone insertErase) = some pool ∧
        pool.shared.uses = [] ∧
        eager.cadence = 1 ∧
        pool.shared.retireRuns 0 = 2 ∧
        pool.shared.attempts =
          ∑ shard ∈ Finset.range eager.shards,
            pool.shared.retireRuns shard) ∧
      ∃ pool : Pool (State Nat Unit Unit) (Choice Nat Unit) Unit,
        construct thrifty = some thriftySet ∧
          (poolOf thrifty thriftySet).run (alone insertEraseTwice) =
            some pool ∧
          pool.shared.uses = [] ∧
          EffectiveCadence 3 thrifty.cadence ∧
          thrifty.cadence = 4 ∧
          pool.shared.retireRuns 0 = 4 ∧
          pool.shared.retireNodes 0 = 4 ∧
          pool.shared.attempts = 1 ∧
          pool.shared.attempts ≤
            ∑ shard ∈ Finset.range thrifty.shards,
              pool.shared.retireNodes shard / thrifty.cadence := by
  refine ⟨?_, ?_⟩
  · have shards : eager.shards = 1 := by decide +kernel
    obtain ⟨pool, ran, seen⟩ :=
      Pool.run_seen
        (fun state : State Nat Unit Unit =>
          (state.uses, state.retireRuns 0, state.retireNodes 0))
        (show ((poolOf eager eagerSet).run (alone insertErase)).map _ =
            some ([], 2, 2) by decide +kernel)
    simp only [Prod.mk.injEq] at seen
    obtain ⟨quiescent, runs, nodes⟩ := seen
    have one : eager.cadence = 1 := by decide +kernel
    refine ⟨pool, rfl, ran, quiescent, one, runs, ?_⟩
    refine (cadence_exact rfl ⟨_, ran⟩
      quiescent).2.2.2.2.2.2 one ?_
    intro shard bound
    rw [shards, Nat.lt_one_iff] at bound
    rw [bound, nodes]
    decide
  · obtain ⟨pool, ran, seen⟩ :=
      Pool.run_seen
        (fun state : State Nat Unit Unit =>
          (state.uses, state.retireRuns 0, state.retireNodes 0,
            state.attempts))
        (show ((poolOf thrifty thriftySet).run
              (alone insertEraseTwice)).map _ =
            some ([], 4, 4, 1) by decide +kernel)
    simp only [Prod.mk.injEq] at seen
    obtain ⟨quiescent, runs, nodes, attempts⟩ := seen
    have law := cadence_exact rfl ⟨_, ran⟩ quiescent
    exact ⟨pool, rfl, ran, quiescent, law.1 3, by decide +kernel, runs,
      nodes, attempts, law.2.2.2.2.1⟩

end ConcurrentCpp.HashSetRCU
