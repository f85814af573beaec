import ConcurrentCpp.HashSetInsert
import ConcurrentCpp.HashSetSweep

namespace ConcurrentCpp.HashSet

/-!
# Runs of the hash set

A client begins a call, performs it and ends it, or it reclaims while no call
is in progress.  The protocol holds of the constructed set and every client
keeps it, so it holds along every run.
-/

variable {K T : Type} [DecidableEq K] [DecidableEq T]

variable {config : Config K T} {thread : T}

section Client

/-- The thread is in no call. -/
def idle : Assertion (protocol config) thread where
  holds world := thread ∉ world.1.inside
  stable different _ _ guarantee outside := by
    rcases guarantee with steps | ⟨_, empty, _⟩
    · exact fun within =>
        outside ((steps.inside (Ne.symm different)).mp within)
    · simp [empty]

/-- What a thread knows once it has picked its next call. -/
def picked :
    Option (SetOp K) → Assertion (protocol config) thread
  | none => idle
  | some operation =>
      (Assertion.pure (Offered config operation)).and
        (holding (.empty operation false) : Claim config thread).unnarrow

/-- A call begins with empty hands. -/
theorem begin_holding
    {state : State K T}
    {ghost : Ghost T}
    (inv : Invariant config (state, ghost))
    (outside : thread ∉ state.inside)
    (operation : SetOp K) :
    Holding thread (.empty operation false)
      (state.begin thread operation, ghost) where
  inside := by simp [State.begin]
  called := by simp [State.begin, calling, Hands.empty]
  changed := by simp [State.begin, updated, Hands.empty]
  owned slot := by
    simp only [Hands.empty, slotsOf, List.map_nil, List.not_mem_nil,
      iff_false]
    exact fun owned => outside (inv.owner owned)
  distinct := by simp [Hands.empty, slotsOf]
  linked _ member := by simp [Hands.empty] at member
  valued _ member := by simp [Hands.empty] at member
  locks := by
    simp only [Hands.empty, Bool.false_eq_true, iff_false]
    exact fun held => outside (inv.holder held)
  owes := by
    simp only [Hands.empty, Bool.false_eq_true, iff_false]
    exact fun owes => outside (inv.counted.debtors owes)

/-- A client picks a call or reclaims. -/
theorem pick_triple :
    Triple (protocol config) thread idle
      (pick config thread : Program K T (Option (SetOp K)))
      picked := by
  refine Triple.atomic ?_
  rintro ⟨state, ghost⟩ choice value shared inv outside ran
  cases choice with
  | call operation =>
      simp only [Option.ite_none_right_eq_some] at ran
      obtain ⟨offered, ran⟩ := ran
      cases ran
      have keeps := begin_keeps inv outside operation
      exact ⟨ghost, keeps.1, .inl keeps.2, offered,
        begin_holding inv outside operation⟩
  | reclaim hashes =>
      simp only [Option.ite_none_right_eq_some] at ran
      obtain ⟨quiescent, ran⟩ := ran
      obtain ⟨result, after, ghostAfter, kept, reclaims, reclaimed⟩ :=
        reclaim_spec hashes inv.quiet
      rw [reclaims] at ran
      cases ran
      have inside : after.inside = [] :=
        reclaimed.sweeps.inside.trans quiescent
      refine ⟨ghostAfter, reclaimed.invariant inv quiescent,
        .inr ⟨quiescent, inside, reclaimed.sweeps.events,
          reclaimed.sweeps.published⟩, ?_⟩
      change thread ∉ after.inside
      simp [inside]
  | proceed =>
      cases ran
  | spurious =>
      cases ran
  | throws =>
      cases ran

/-- Every call that is offered is verified. -/
theorem perform_triple
    {operation : SetOp K}
    (offered : Offered config operation) :
    Triple (inner config thread) thread
      (holding (.empty operation false))
      (perform config thread operation : Program K T (Option Bool))
      (ended operation) := by
  cases operation with
  | contains key =>
      exact contains_triple key
  | insert key =>
      exact insert_triple key
  | erase key =>
      exact erase_triple offered key

/-- A thread with empty hands may end its call. -/
theorem Holding.finish
    {state : State K T}
    {ghost : Ghost T}
    {operation : SetOp K}
    {changed : Bool}
    (held : Holding thread (.empty operation changed) (state, ghost))
    (inv : Invariant config (state, ghost))
    (event : SetEvent T K)
    (own : event.thread = thread)
    (neutral : ¬ event.Updates)
    (ends : calling (event :: state.events) thread = none)
    (allowed : Allowed state.events event)
    (harmless : Harmless (event :: state.events)) :
    Lands (state, ghost)
      { state with
        inside := state.inside.erase thread
        events := event :: state.events }
      (idle : Assertion (protocol config) thread) := by
  have empty : ∀ node, ghost.stage node ≠ .owned thread := by
    intro node owned
    simpa [Hands.empty, slotsOf] using (held.owned node).mp owned
  have keeps :=
    finish_keeps inv held.inside empty
      (fun locked => by simpa [Hands.empty] using held.locks.mp locked)
      (fun owes => by simpa [Hands.empty] using held.owes.mp owes)
      own neutral ends allowed harmless
  exact ⟨ghost, keeps.1, .inl keeps.2,
    fun within => (inv.threads.mem_erase_iff.mp within).1 rfl⟩

/-- A thread ends its call. -/
theorem finish_triple
    (operation : SetOp K)
    (result : Option Bool) :
    Triple (protocol config) thread
      (ended operation result : Claim config thread).unnarrow
      (finish thread operation result : Program K T Unit)
      fun _ => idle := by
  refine Triple.atomic ?_
  rintro ⟨state, ghost⟩ choice value shared inv known ran
  cases ran
  cases result with
  | none =>
      have held :
          Holding thread (.empty operation false) (state, ghost) :=
        known
      exact held.finish inv (.threw thread operation) rfl id
        (by simp [calling]) held.called ⟨held.changed, inv.harmless⟩
  | some result =>
      obtain ⟨held, _, performs⟩ := known
      exact Holding.finish held inv (.returned thread operation result)
        rfl id (by simp [calling])
        ⟨held.called, held.changed, performs⟩ inv.harmless

/-- A client keeps the protocol whatever it calls. -/
theorem client_triple :
    Triple (protocol config) thread idle
      (client config thread : Program K T Unit)
      fun _ => Assertion.pure True := by
  refine Triple.loop
    (fun _ => ?_ :
      ∀ _ : Unit, Triple (protocol config) thread idle _ _)
  refine Triple.bind pick_triple fun begun => ?_
  cases begun with
  | none =>
      exact Triple.pure fun _ _ outside => outside
  | some operation =>
      refine Triple.given fun offered => ?_
      refine Triple.bind (perform_triple offered).unnarrow fun result => ?_
      refine Triple.bind (finish_triple operation result) fun _ => ?_
      exact Triple.pure fun _ _ outside => outside

end Client

section Start

/-- No slot has been appended. -/
def Ghost.initial : Ghost T where
  stage _ := .absent
  holder := none
  debtors := []

variable {state : State K T}

omit [DecidableEq T] in
/-- All buckets of a new set are published and empty. -/
theorem construct_table
    (constructed : construct config = some state) :
    (tableOf (state, (Ghost.initial : Ghost T))).Sound config.hash
      config.allowDelete config.capacity.log2 := by
  unfold construct at constructed
  split at constructed
  · cases constructed
  · cases constructed
    have power : config.capacity = 2 ^ config.capacity.log2 :=
      bitCeil_power _
    exact
      { forest :=
          { chain := fun bucket =>
              ⟨[], by simp [Path, tableOf, State.chainLinks, Address.first],
                List.nodup_nil,
                by simp [tableOf, Ghost.initial, Stage.place]⟩
            cutStamp := fun cut => absurd cut (by simp [tableOf])
            cutNext := fun cut => absurd cut (by simp [tableOf])
            cutEnds := fun cut => absurd cut (by simp [tableOf]) }
        hidden := fun _ => by
          simp [tableOf, State.chainLinks, Address.first]
        foundation := fun {bucket} bound => by
          rw [← power] at bound
          simp [tableOf, State.published, bound]
        baseBits := Nat.le_refl _
        inTable := fun {bucket} published => by
          simp only [tableOf, State.published, Bool.and_eq_true,
            decide_eq_true_eq] at published ⊢
          rw [← power]
          exact published.1
        ancestors := fun {bucket} positive published => by
          simp only [tableOf, State.published, Bool.and_eq_true,
            decide_eq_true_eq] at published ⊢
          exact ⟨Nat.lt_trans (parentOf_lt positive) published.1,
            by simp⟩
        sealedParent := fun {bucket} large published => by
          simp only [tableOf, State.published, Bool.and_eq_true,
            decide_eq_true_eq] at published
          rw [← power] at large
          omega
        levels := fun {bucket} _ => by simp [tableOf]
        within := fun within =>
          absurd within.ne_off (by simp [tableOf, Ghost.initial, Stage.place])
        exclusive := fun present =>
          absurd rfl present
        unmarked := fun _ _ present => absurd rfl present
        frozenSealed := fun linked => by
          simp [tableOf, Ghost.initial] at linked
        movedFrozen := fun _ _ _ _ linked => by
          simp [tableOf, Ghost.initial] at linked
        cutDead := fun cut => absurd cut (by simp [tableOf])
        single := fun linked => by
          simp [tableOf, Ghost.initial] at linked
        authority := fun key => by
          simp [tableOf, Ghost.initial, member] }

omit [DecidableEq K] [DecidableEq T] in
/-- Nothing is charged before the first append. -/
private theorem charged_of_empty
    (arena : ∀ shard, state.arena shard = 0)
    (pops : ∀ shard, (state.freeHead shard).pops = 0) :
    state.charged config = 0 := by
  have none : state.charge = fun _ => 0 := by
    funext shard
    simp [State.charge, arena, pops]
  simp [State.charged, none]

omit [DecidableEq K] [DecidableEq T] in
private theorem freeSlots_of_empty
    {ghost : Ghost T}
    (arena : ∀ shard, state.arena shard = 0) :
    freeSlots config (state, ghost) = 0 := by
  simp [freeSlots, State.arenaSlots, arena]

/-- A new set satisfies the invariant. -/
theorem construct_inv
    (constructed : construct config = some state) :
    Invariant config (state, Ghost.initial) := by
  have table := construct_table constructed
  unfold construct at constructed
  split at constructed
  · cases constructed
  · cases constructed
    have nobody :
        ∀ {slot : Slot} {thread : T},
          (Ghost.initial : Ghost T).stage slot ≠ .owned thread := by
      simp [Ghost.initial]
    exact
      { size := bitCeil_power _
        unsealed := fun _ hidden => by cases hidden
        table := table
        stacked := fun list =>
          ⟨[], by cases list <;> rfl, List.nodup_nil,
            by simp [stacksOf, Ghost.initial]⟩
        nodes := fun node =>
          { appended := by simp [Ghost.initial, State.Appended]
            shard := fun appended => absurd appended (Nat.not_lt_zero _)
            valued := fun appended => absurd appended (Nat.not_lt_zero _)
            bare := fun _ => ⟨rfl, rfl⟩
            label := fun listed => by simp [Ghost.initial] at listed }
        owner := fun owned => absurd owned nobody
        holder := fun held => by simp [Ghost.initial] at held
        lock := rfl
        lawful := trivial
        harmless := trivial
        threads := List.nodup_nil
        calls := fun thread => by simp [calling]
        counted :=
          { debtors := fun owes => by simp [Ghost.initial] at owes
            distinct := List.nodup_nil
            covers := by
              rw [charged_of_empty (fun _ => rfl) fun _ => rfl]
              exact Nat.zero_le _
            exact := fun _ => by
              rw [charged_of_empty (fun _ => rfl) fun _ => rfl,
                freeSlots_of_empty fun _ => rfl]
              rfl
            popped := fun popped => absurd rfl popped } }

/-- Every run of clients keeps the protocol. -/
theorem covered
    (constructed : construct config = some state)
    (fuel : Nat) :
    Covered (protocol config) fuel (poolOf config state)
      Ghost.initial :=
  covered_of_triples (construct_inv constructed)
    (fun thread => by
      have inv := construct_inv constructed
      have empty : state.inside = [] := by
        unfold construct at constructed
        split at constructed
        · cases constructed
        · cases constructed
          rfl
      show (idle : Assertion (protocol config) thread).holds _
      simp [idle, poolOf, empty])
    (fun _ => client_triple) fuel

/-- The invariant holds in every reachable state. -/
theorem reachable_inv
    (constructed : construct config = some state)
    {pool : Pool (State K T) (Choice K) T}
    (reached : (poolOf config state).Reaches pool) :
    ∃ ghost, Invariant config (pool.shared, ghost) := by
  obtain ⟨needed, runs⟩ := Covered.reaches reached
  obtain ⟨ghost, safe, _⟩ := runs (covered constructed (0 + needed))
  exact ⟨ghost, safe.1⟩

/-- Every step of a run keeps the protocol. -/
theorem reachable_step
    (constructed : construct config = some state)
    {pool next : Pool (State K T) (Choice K) T}
    (reached : (poolOf config state).Reaches pool)
    {choice : Choice K}
    (moved : pool.step thread choice = some next) :
    ∃ ghost after,
      Invariant config (pool.shared, ghost) ∧
        Invariant config (next.shared, after) ∧
        Guarantee config thread (pool.shared, ghost)
          (next.shared, after) := by
  obtain ⟨needed, runs⟩ := Covered.reaches reached
  obtain ⟨ghost, safe, _⟩ := runs (covered constructed (1 + needed))
  obtain ⟨after, safeNext, guarantee⟩ := safe.step moved
  exact ⟨ghost, after, safe.1, safeNext.1, guarantee⟩

end Start

end ConcurrentCpp.HashSet
