import ConcurrentCpp.RingQueueSteps

namespace ConcurrentCpp.RingQueue

/-!
# The threads of the key-value ring queue

A thread knows which lock it holds, which slot it owns and what it has done in
its call.  Every access of a call is a triple over these.
-/

variable {K V T : Type} [DecidableEq T]
  {config : Config K} {thread : T}

section Assertions

/-- A slot in the hands of a thread. -/
structure Grip (K V T : Type) where
  slot : Nat
  stage : Stage K V T
  key : K
  life : Life V

/-- What a thread has in its hands and has done in its call. -/
structure Mine (K V T : Type) where
  tail : Option (Bool × Nat)
  head : Option (Bool × Nat)
  grip : Option (Grip K V T)
  calls : List (Event K V T)

/-- The world agrees with what the thread has in its hands. -/
structure Holds
    (thread : T)
    (mine : Mine K V T)
    (world : State K V T × Ghost K V T) : Prop where
  tail :
    claimOf thread world.2.tailHolder = mine.tail.map Prod.fst ∧
      ∀ claim ∈ mine.tail, world.2.tailIndex = claim.2
  head :
    claimOf thread world.2.headHolder = mine.head.map Prod.fst ∧
      ∀ claim ∈ mine.head, world.2.headIndex = claim.2
  owns :
    ∀ slot,
      (world.2.stage slot).owner = some thread ↔
        ∃ grip ∈ mine.grip, grip.slot = slot
  grip :
    ∀ grip ∈ mine.grip,
      world.2.stage grip.slot = grip.stage ∧
        world.1.key grip.slot = grip.key ∧
        world.1.value grip.slot = grip.life
  calls : inCall thread world.1.events = mine.calls

/-- The thread has this in its hands. -/
def holding
    (mine : Mine K V T) :
    Assertion (protocol (V := V) config) thread where
  holds := Holds thread mine
  stable {other world after} different _ _ guarantee known := by
    have tail := guarantee.tail thread (Ne.symm different)
    have head := guarantee.head thread (Ne.symm different)
    have slots := fun slot => guarantee.slots slot thread (Ne.symm different)
    refine
      { tail := ⟨tail.1.trans known.tail.1, fun claim member => ?_⟩
        head := ⟨head.1.trans known.head.1, fun claim member => ?_⟩
        owns := fun slot => (slots slot).1.trans (known.owns slot)
        grip := fun grip member => ?_
        calls :=
          (guarantee.calls thread (Ne.symm different)).trans known.calls }
    · refine (tail.2 ?_).trans (known.tail.2 claim member)
      rw [known.tail.1, Option.mem_def.mp member]
      simp
    · refine (head.2 ?_).trans (known.head.2 claim member)
      rw [known.head.1, Option.mem_def.mp member]
      simp
    · have owned := (known.owns grip.slot).mpr ⟨grip, member, rfl⟩
      obtain ⟨stage, key, life⟩ := (slots grip.slot).2 owned
      obtain ⟨stageIs, keyIs, lifeIs⟩ := known.grip grip member
      exact ⟨stage.trans stageIs, key.trans keyIs, life.trans lifeIs⟩

variable {mine : Mine K V T} {state : State K V T} {ghost : Ghost K V T}

/-- The holder of the tail lock. -/
theorem Holds.tailHolder
    {claimed : Bool}
    {index : Nat}
    (known : Holds thread mine (state, ghost))
    (held : mine.tail = some (claimed, index)) :
    ghost.tailHolder = some (thread, claimed) ∧
      ghost.tailIndex = index := by
  have claim := known.tail.1
  rw [held] at claim
  exact ⟨holder_of_claim claim, known.tail.2 _ (by rw [held]; rfl)⟩

/-- The holder of the head lock. -/
theorem Holds.headHolder
    {claimed : Bool}
    {index : Nat}
    (known : Holds thread mine (state, ghost))
    (held : mine.head = some (claimed, index)) :
    ghost.headHolder = some (thread, claimed) ∧
      ghost.headIndex = index := by
  have claim := known.head.1
  rw [held] at claim
  exact ⟨holder_of_claim claim, known.head.2 _ (by rw [held]; rfl)⟩

/-- The own event of a thread is added to its call. -/
theorem inCall_own
    {event : Event K V T}
    {events calls : List (Event K V T)}
    (belongs : event.thread = some thread)
    (noCall : event.isCall = false)
    (earlier : inCall thread events = calls) :
    inCall thread (event :: events) = event :: calls := by
  simp [inCall, belongs, noCall, earlier]

end Assertions

section Locks

variable {calls : List (Event K V T)}

theorem lockTail_triple :
    Triple (protocol config) thread
      (holding ⟨none, none, none, calls⟩)
      (tailSpin.lock id : Program K V T Unit)
      fun _ => Assertion.any fun index : Nat =>
        holding ⟨some (false, index), none, none, calls⟩ := by
  apply SpinLock.lock_triple
  apply SpinLock.attempt_triple
  apply SpinLock.exchange_triple
  · intro state held
    exact congrArg (fun tailLock => { state with tailLock }) held.symm
  · rintro ⟨state, ghost⟩ inv known free
    have nobody := holder_none inv.tailLocked free
    have keeps := lockTail_keeps thread inv nobody
    refine ⟨_, keeps.1, keeps.2, ghost.tailIndex, ?_⟩
    exact
      { known with
        tail := ⟨by simp [claimOf], fun claim member => by
          cases member
          rfl⟩ }

theorem unlockTail_triple
    {index : Nat}
    {grip : Option (Grip K V T)} :
    Triple (protocol config) thread
      (holding ⟨some (false, index), none, grip, calls⟩)
      (tailSpin.unlock id : Program K V T Unit)
      fun _ => holding ⟨none, none, grip, calls⟩ := by
  apply Triple.atomic
  rintro ⟨state, ghost⟩ choice value shared inv known ran
  cases ran
  have keeps := unlockTail_keeps inv (known.tailHolder rfl).1
  refine ⟨_, keeps.1, keeps.2, ?_⟩
  exact { known with tail := ⟨rfl, fun _ member => by cases member⟩ }

theorem lockHead_triple
    {grip : Option (Grip K V T)} :
    Triple (protocol config) thread
      (holding ⟨none, none, grip, calls⟩)
      (headSpin.lock id : Program K V T Unit)
      fun _ => Assertion.any fun index : Nat =>
        holding ⟨none, some (false, index), grip, calls⟩ := by
  apply SpinLock.lock_triple
  apply SpinLock.attempt_triple
  apply SpinLock.exchange_triple
  · intro state held
    exact congrArg (fun headLock => { state with headLock }) held.symm
  · rintro ⟨state, ghost⟩ inv known free
    have nobody := holder_none inv.headLocked free
    have keeps := lockHead_keeps thread inv nobody
    refine ⟨_, keeps.1, keeps.2, ghost.headIndex, ?_⟩
    exact
      { known with
        head := ⟨by simp [claimOf], fun claim member => by
          cases member
          rfl⟩ }

theorem unlockHead_triple
    {index : Nat}
    {grip : Option (Grip K V T)} :
    Triple (protocol config) thread
      (holding ⟨none, some (false, index), grip, calls⟩)
      (headSpin.unlock id : Program K V T Unit)
      fun _ => holding ⟨none, none, grip, calls⟩ := by
  apply Triple.atomic
  rintro ⟨state, ghost⟩ choice value shared inv known ran
  cases ran
  have keeps := unlockHead_keeps inv (known.headHolder rfl).1
  refine ⟨_, keeps.1, keeps.2, ?_⟩
  exact { known with head := ⟨rfl, fun _ member => by cases member⟩ }

theorem advanceTail_triple
    {index : Nat}
    {grip : Option (Grip K V T)} :
    Triple (protocol config) thread
      (holding ⟨some (true, index), none, grip, calls⟩)
      (advanceTail : Program K V T Unit)
      fun _ => holding ⟨some (false, index + 1), none, grip, calls⟩ := by
  apply Triple.atomic
  rintro ⟨state, ghost⟩ choice value shared inv known ran
  cases ran
  obtain ⟨holder, at_⟩ := known.tailHolder rfl
  have keeps := advanceTail_keeps inv holder
  refine ⟨_, keeps.1, keeps.2, ?_⟩
  exact
    { known with
      tail := ⟨by simp [claimOf], fun claim member => by
        cases member
        simp [at_]⟩ }

theorem advanceHead_triple
    {index : Nat}
    {grip : Option (Grip K V T)} :
    Triple (protocol config) thread
      (holding ⟨none, some (true, index), grip, calls⟩)
      (advanceHead : Program K V T Unit)
      fun _ => holding ⟨none, some (false, index + 1), grip, calls⟩ := by
  apply Triple.atomic
  rintro ⟨state, ghost⟩ choice value shared inv known ran
  cases ran
  obtain ⟨holder, at_⟩ := known.headHolder rfl
  have keeps := advanceHead_keeps inv holder
  refine ⟨_, keeps.1, keeps.2, ?_⟩
  exact
    { known with
      head := ⟨by simp [claimOf], fun claim member => by
        cases member
        simp [at_]⟩ }

/-- A producer reads its index under the lock. -/
theorem readTail_triple
    {index : Nat} :
    Triple (protocol config) thread
      (holding ⟨some (false, index), none, none, calls⟩)
      (Prog.read State.tail : Program K V T (BitVec 64))
      fun word =>
        (Assertion.pure (word = BitVec.ofNat 64 index)).and
          (holding ⟨some (false, index), none, none, calls⟩) := by
  apply Triple.read
  rintro ⟨state, ghost⟩ inv known
  refine ⟨inv.tailWord.trans ?_, known⟩
  rw [(known.tailHolder rfl).2]

/-- A consumer reads its index under the lock. -/
theorem readHead_triple
    {index : Nat} :
    Triple (protocol config) thread
      (holding ⟨none, some (false, index), none, calls⟩)
      (Prog.read State.head : Program K V T (BitVec 64))
      fun word =>
        (Assertion.pure (word = BitVec.ofNat 64 index)).and
          (holding ⟨none, some (false, index), none, calls⟩) := by
  apply Triple.read
  rintro ⟨state, ghost⟩ inv known
  refine ⟨inv.headWord.trans ?_, known⟩
  rw [(known.headHolder rfl).2]

end Locks

section Slots

variable {calls : List (Event K V T)}

/-- An event is an owner's access that takes the value through its life. -/
structure Access
    (config : Config K)
    (thread : T)
    (slot : Nat)
    (before stored : Life V)
    (event : Event K V T) : Prop where
  quiet : Quiet event
  belongs : event.thread = some thread
  noCall : event.isCall = false
  ongoing : event.isReturn = false
  lives :
    ∀ events place,
      life slot events = before →
      life place (event :: events) =
        if slot = place then stored else life place events
  allowed :
    ∀ events,
      owner slot events = some thread →
      life slot events = before →
      EventOk config events event

/-- An owner's access to its slot. -/
theorem touch_triple
    {β : Type}
    {command : State K V T → Choice K V → Option (β × State K V T)}
    {tail head : Option (Bool × Nat)}
    {grip : Grip K V T}
    {event : Event K V T}
    (result : β)
    (key : K)
    (stored : Life V)
    (inRange : grip.slot < config.size.slots)
    (runs :
      ∀ state choice value shared,
        state.key grip.slot = grip.key →
        state.value grip.slot = grip.life →
        command state choice = some (value, shared) →
        value = result ∧
          shared = state.touch grip.slot key stored event)
    (access : Access config thread grip.slot grip.life stored event)
    (unlocked : stored = grip.life ∨ tail = none ∧ head = none) :
    Triple (protocol config) thread
      (holding ⟨tail, head, some grip, calls⟩)
      (Prog.atomic command)
      fun value =>
        (Assertion.pure (value = result)).and
          (holding ⟨tail, head,
            some { grip with key := key, life := stored },
            event :: calls⟩) := by
  apply Triple.atomic
  rintro ⟨state, ghost⟩ choice value shared inv known ran
  obtain ⟨stageIs, keyIs, lifeIs⟩ := known.grip grip rfl
  obtain ⟨rfl, rfl⟩ := runs state choice value shared keyIs lifeIs ran
  have mine : (ghost.stage grip.slot).owner = some thread :=
    (known.owns grip.slot).mpr ⟨grip, rfl, rfl⟩
  have living : life grip.slot state.events = grip.life :=
    (inv.life grip.slot).trans lifeIs
  have keeps := touch_keeps key stored inv mine access.quiet
    (fun place => access.lives state.events place living)
    access.belongs access.ongoing
    (access.allowed state.events
      ((inv.owner grip.slot inRange).trans mine) living)
    (by
      rcases unlocked with same | ⟨rfl, rfl⟩
      · exact .inl (same.trans lifeIs.symm)
      · exact .inr ⟨known.tail.1, known.head.1⟩)
  refine ⟨ghost, keeps.1, keeps.2, rfl, ?_⟩
  exact
    { tail := known.tail
      head := known.head
      owns := fun slot => by
        rw [known.owns slot]
        simp
      grip := fun grip' member => by
        cases member
        exact ⟨stageIs, by simp [State.touch], by simp [State.touch]⟩
      calls := inCall_own access.belongs access.noCall known.calls }

omit [DecidableEq T] in
/-- An access that leaves the value alone. -/
private theorem life_alone
    {event : Event K V T}
    {slot : Nat}
    {before : Life V}
    (alone :
      ∀ place events, life place (event :: events) = life place events)
    (events : List (Event K V T))
    (place : Nat)
    (living : life slot events = before) :
    life place (event :: events) =
      if slot = place then before else life place events := by
  rw [alone]
  split
  · rename_i same
    rw [← same]
    exact living
  · rfl

section Accesses

variable {grip : Grip K V T} {tail head : Option (Bool × Nat)}

/-- `slot.key = key`. -/
theorem writeKey_triple
    (key : K)
    (inRange : grip.slot < config.size.slots) :
    Triple (protocol config) thread
      (holding ⟨tail, head, some grip, calls⟩)
      (writeKey thread grip.slot key)
      fun _ =>
        holding ⟨tail, head, some { grip with key := key },
          .keyWritten thread grip.slot :: calls⟩ := by
  have access :
      Access config thread grip.slot grip.life grip.life
        (.keyWritten thread grip.slot) :=
    { quiet := ⟨fun _ _ => rfl, fun _ _ => rfl, fun _ => rfl, fun _ => rfl⟩
      belongs := rfl
      noCall := rfl
      ongoing := rfl
      lives := life_alone fun _ _ => rfl
      allowed := fun _ owned _ => owned }
  refine (touch_triple () key grip.life inRange ?_ access
    (.inl rfl)).consequence fun _ _ _ known => known.2
  intro state choice value shared _ lifeIs ran
  cases ran
  exact ⟨rfl, by simp [State.record, State.touch, ← lifeIs]⟩

/-- The constructor of the value starts. -/
theorem beginValue_triple
    (inRange : grip.slot < config.size.slots)
    (raw : grip.life = .raw) :
    Triple (protocol config) thread
      (holding ⟨none, none, some grip, calls⟩)
      (beginValue thread grip.slot)
      fun _ =>
        holding ⟨none, none, some { grip with life := .building },
          .building thread grip.slot :: calls⟩ := by
  have access :
      Access config thread grip.slot grip.life .building
        (.building thread grip.slot) :=
    { quiet := ⟨fun _ _ => rfl, fun _ _ => rfl, fun _ => rfl, fun _ => rfl⟩
      belongs := rfl
      noCall := rfl
      ongoing := rfl
      lives := fun _ _ _ => rfl
      allowed := fun _ owned living => ⟨owned, living.trans raw⟩ }
  refine (touch_triple () grip.key .building inRange ?_ access
    (.inr ⟨rfl, rfl⟩)).consequence fun _ _ _ known => known.2
  intro state choice value shared keyIs _ ran
  cases ran
  exact ⟨rfl, by simp [State.record, State.touch, ← keyIs]⟩

/-- The constructor of the value ends. -/
theorem finishValue_triple
    (value : V)
    (inRange : grip.slot < config.size.slots)
    (building : grip.life = .building) :
    Triple (protocol config) thread
      (holding ⟨none, none, some grip, calls⟩)
      (finishValue thread grip.slot value)
      fun _ =>
        holding ⟨none, none, some { grip with life := .built value },
          .built thread grip.slot value :: calls⟩ := by
  have access :
      Access config thread grip.slot grip.life (.built value)
        (.built thread grip.slot value) :=
    { quiet := ⟨fun _ _ => rfl, fun _ _ => rfl, fun _ => rfl, fun _ => rfl⟩
      belongs := rfl
      noCall := rfl
      ongoing := rfl
      lives := fun _ _ _ => rfl
      allowed := fun _ owned living => ⟨owned, living.trans building⟩ }
  refine (touch_triple () grip.key (.built value) inRange ?_ access
    (.inr ⟨rfl, rfl⟩)).consequence fun _ _ _ known => known.2
  intro state choice result shared keyIs _ ran
  cases ran
  exact ⟨rfl, by simp [State.record, State.touch, ← keyIs]⟩

/-- `ret = slot.key`. -/
theorem readKey_triple
    (inRange : grip.slot < config.size.slots) :
    Triple (protocol config) thread
      (holding ⟨tail, head, some grip, calls⟩)
      (readKey thread grip.slot)
      fun key =>
        (Assertion.pure (key = grip.key)).and
          (holding ⟨tail, head, some grip,
            .keyRead thread grip.slot :: calls⟩) := by
  have access :
      Access config thread grip.slot grip.life grip.life
        (.keyRead thread grip.slot) :=
    { quiet := ⟨fun _ _ => rfl, fun _ _ => rfl, fun _ => rfl, fun _ => rfl⟩
      belongs := rfl
      noCall := rfl
      ongoing := rfl
      lives := life_alone fun _ _ => rfl
      allowed := fun _ owned _ => owned }
  refine touch_triple grip.key grip.key grip.life inRange ?_ access
    (.inl rfl)
  intro state choice value shared keyIs lifeIs ran
  cases ran
  exact ⟨keyIs, by simp [State.record, State.touch, ← lifeIs, ← keyIs]⟩

/-- `slot.key = Key{}`. -/
theorem clearKey_triple
    (inRange : grip.slot < config.size.slots) :
    Triple (protocol config) thread
      (holding ⟨tail, head, some grip, calls⟩)
      (clearKey config thread grip.slot)
      fun _ =>
        holding ⟨tail, head, some { grip with key := config.emptyKey },
          .keyCleared thread grip.slot :: calls⟩ := by
  have access :
      Access config thread grip.slot grip.life grip.life
        (.keyCleared thread grip.slot) :=
    { quiet := ⟨fun _ _ => rfl, fun _ _ => rfl, fun _ => rfl, fun _ => rfl⟩
      belongs := rfl
      noCall := rfl
      ongoing := rfl
      lives := life_alone fun _ _ => rfl
      allowed := fun _ owned _ => owned }
  refine (touch_triple () config.emptyKey grip.life inRange ?_ access
    (.inl rfl)).consequence fun _ _ _ known => known.2
  intro state choice value shared _ lifeIs ran
  cases ran
  exact ⟨rfl, by simp [State.record, State.touch, ← lifeIs]⟩

/-- `value = std::move(slot.value)`. -/
theorem moveValue_triple
    {value : V}
    (inRange : grip.slot < config.size.slots)
    (built : grip.life = .built value) :
    Triple (protocol config) thread
      (holding ⟨none, none, some grip, calls⟩)
      (moveValue thread grip.slot)
      fun taken =>
        (Assertion.pure (taken = grip.life)).and
          (holding ⟨none, none, some { grip with life := .husk },
            .moved thread grip.slot grip.life :: calls⟩) := by
  have access :
      Access config thread grip.slot grip.life .husk
        (.moved thread grip.slot grip.life) :=
    { quiet := ⟨fun _ _ => rfl, fun _ _ => rfl, fun _ => rfl, fun _ => rfl⟩
      belongs := rfl
      noCall := rfl
      ongoing := rfl
      lives := fun _ _ _ => rfl
      allowed := fun _ owned living => ⟨owned, living, value, built⟩ }
  refine touch_triple grip.life grip.key .husk inRange ?_ access
    (.inr ⟨rfl, rfl⟩)
  intro state choice taken shared keyIs lifeIs ran
  cases ran
  exact ⟨lifeIs, by simp [State.record, State.touch, ← keyIs, lifeIs]⟩

/-- `slot.value.~Value()`. -/
theorem destroyValue_triple
    (inRange : grip.slot < config.size.slots)
    (husk : grip.life = .husk) :
    Triple (protocol config) thread
      (holding ⟨none, none, some grip, calls⟩)
      (destroyValue thread grip.slot)
      fun _ =>
        holding ⟨none, none, some { grip with life := .raw },
          .destroyed thread grip.slot :: calls⟩ := by
  have access :
      Access config thread grip.slot grip.life .raw
        (.destroyed thread grip.slot) :=
    { quiet := ⟨fun _ _ => rfl, fun _ _ => rfl, fun _ => rfl, fun _ => rfl⟩
      belongs := rfl
      noCall := rfl
      ongoing := rfl
      lives := fun _ _ _ => rfl
      allowed := fun _ owned living => ⟨owned, living.trans husk⟩ }
  refine (touch_triple () grip.key .raw inRange ?_ access
    (.inr ⟨rfl, rfl⟩)).consequence fun _ _ _ known => known.2
  intro state choice value shared keyIs _ ran
  cases ran
  exact ⟨rfl, by simp [State.record, State.touch, ← keyIs]⟩

end Accesses

/-- The load of a producer under the lock. -/
theorem loadToPush_triple
    {index : Nat}
    {key : K}
    {value : V}
    (nonEmpty : key ≠ config.emptyKey) :
    let slot := index % config.size.slots
    Triple (protocol config) thread
      (holding ⟨some (false, index), none, none, calls⟩)
      (loadToPush config thread (BitVec.ofNat 64 index) key value)
      fun claimed =>
        if claimed then
          Assertion.any fun oldKey : K =>
            holding ⟨some (true, index), none,
              some ⟨slot, .filling index thread key value, oldKey, .raw⟩,
              .pushClaimed thread slot (BitVec.ofNat 64 index) key value ::
                calls⟩
        else
          holding ⟨some (false, index), none, none, calls⟩ := by
  intro slot
  apply Triple.atomic
  rintro ⟨state, ghost⟩ choice claimed shared inv known ran
  obtain ⟨holder, rfl⟩ := known.tailHolder rfl
  have word : state.tail = BitVec.ofNat 64 ghost.tailIndex := inv.tailWord
  have tail : ghost.tail = ghost.tailIndex := by
    simp [Ghost.tail, holder, advancing]
  simp only [RingSize.slotOf_ofNat] at ran
  by_cases found : state.seq slot = BitVec.ofNat 64 ghost.tailIndex
  · simp only [slot] at found
    simp only [found, ↓reduceIte, Option.some.injEq, Prod.mk.injEq] at ran
    obtain ⟨rfl, rfl⟩ := ran
    have place : slot = ghost.tail % config.size.slots := by
      rw [tail]
    have free : ghost.stage slot = .free ghost.tail := by
      rw [place]
      refine free_of_seq inv ?_
      rw [tail]
      exact found
    have restage := pushClaim_restage value inv holder place free nonEmpty
    have keeps := restage.keeps inv
    have guarantee := restage.guarantee
    have recorded :
        state.restage slot (.filling ghost.tailIndex thread key value)
            (.pushClaimed thread slot state.tail key value) =
          state.record (.pushClaimed thread slot state.tail key value) :=
      State.restage_record _ found.symm
    rw [recorded, word] at keeps guarantee
    refine ⟨_, keeps, guarantee, state.key slot, ?_⟩
    exact
      { tail := ⟨by simp [Ghost.restage, claimOf], fun claim member => by
          cases member
          rfl⟩
        head := known.head
        owns := fun other => by
          by_cases same : other = slot
          · subst same
            simp [Ghost.restage, Stage.owner]
          · simp only [Ghost.restage, Function.update_of_ne same]
            rw [known.owns other]
            simp [Ne.symm same]
        grip := fun grip member => by
          cases member
          exact ⟨by simp [Ghost.restage], rfl, inv.free slot
            restage.inRange free⟩
        calls := inCall_own rfl rfl known.calls }
  · simp only [slot] at found
    simp only [found, ↓reduceIte, Option.some.injEq, Prod.mk.injEq] at ran
    obtain ⟨rfl, rfl⟩ := ran
    exact ⟨ghost, inv, (protocol config).guar_refl thread _, known⟩

/-- The `NTRY` loads of a producer. -/
theorem tryClaim_triple
    {index : Nat}
    {key : K}
    {value : V}
    (nonEmpty : key ≠ config.emptyKey)
    (tries : Nat) :
    let slot := index % config.size.slots
    Triple (protocol config) thread
      (holding ⟨some (false, index), none, none, calls⟩)
      (tryClaim config thread (BitVec.ofNat 64 index) key value tries)
      fun claimed =>
        if claimed then
          Assertion.any fun oldKey : K =>
            holding ⟨some (true, index), none,
              some ⟨slot, .filling index thread key value, oldKey, .raw⟩,
              .pushClaimed thread slot (BitVec.ofNat 64 index) key value ::
                calls⟩
        else
          holding ⟨some (false, index), none, none, calls⟩ := by
  intro slot
  induction tries with
  | zero =>
      exact Triple.pure fun _ _ known => known
  | succ tries inductionHypothesis =>
      refine Triple.bind (loadToPush_triple nonEmpty) fun claimed => ?_
      cases claimed with
      | true =>
          exact Triple.pure fun _ _ known => known
      | false =>
          exact inductionHypothesis

/-- The load of a consumer under the lock. -/
theorem loadToPop_triple
    {index : Nat} :
    let slot := index % config.size.slots
    Triple (protocol config) thread
      (holding ⟨none, some (false, index), none, calls⟩)
      (loadToPop config thread (BitVec.ofNat 64 index))
      fun claimed =>
        if claimed then
          Assertion.any fun pair : K × V =>
            (Assertion.pure (pair.1 ≠ config.emptyKey)).and
            (holding ⟨none, some (true, index),
              some ⟨slot, .draining index thread pair.1 pair.2, pair.1,
                .built pair.2⟩,
              .popClaimed thread slot (BitVec.ofNat 64 index) pair.1
                (.built pair.2) :: calls⟩)
        else
          holding ⟨none, some (false, index), none, calls⟩ := by
  intro slot
  apply Triple.atomic
  rintro ⟨state, ghost⟩ choice claimed shared inv known ran
  obtain ⟨holder, rfl⟩ := known.headHolder rfl
  have word : state.head = BitVec.ofNat 64 ghost.headIndex := inv.headWord
  have head : ghost.head = ghost.headIndex := by
    simp [Ghost.head, holder, advancing]
  have next : BitVec.ofNat 64 ghost.headIndex + 1 =
      BitVec.ofNat 64 (ghost.headIndex + 1) :=
    (BitVec.ofNat_add ghost.headIndex 1).symm
  simp only [RingSize.slotOf_ofNat, next] at ran
  by_cases found :
      state.seq slot = BitVec.ofNat 64 (ghost.headIndex + 1)
  · simp only [slot] at found
    simp only [found, ↓reduceIte, Option.some.injEq, Prod.mk.injEq] at ran
    obtain ⟨rfl, rfl⟩ := ran
    have place : slot = ghost.head % config.size.slots := by
      rw [head]
    obtain ⟨key, value, full⟩ : ∃ key value,
        ghost.stage slot = .full ghost.head key value := by
      rw [place]
      refine full_of_seq inv ?_
      rw [head]
      exact found
    have restage := popClaim_restage inv holder place full
    obtain ⟨keyIs, lifeIs⟩ := inv.full slot restage.inRange full
    simp only at keyIs lifeIs
    obtain ⟨_, listed, _⟩ :=
      inv.element slot restage.inRange (by rw [full]; rfl)
    have nonEmpty := inv.keys _ (List.mem_of_getElem? listed)
    have keeps := restage.keeps inv
    have guarantee := restage.guarantee
    have recorded :
        state.restage slot (.draining ghost.headIndex thread key value)
            (.popClaimed thread slot state.head (state.key slot)
              (state.value slot)) =
          state.record
            (.popClaimed thread slot state.head (state.key slot)
              (state.value slot)) :=
      State.restage_record _ found.symm
    rw [recorded, word] at keeps guarantee
    refine ⟨_, keeps, guarantee, (key, value), nonEmpty, ?_⟩
    exact
      { tail := known.tail
        head := ⟨by simp [Ghost.restage, claimOf], fun claim member => by
          cases member
          rfl⟩
        owns := fun other => by
          by_cases same : other = slot
          · subst same
            simp [Ghost.restage, Stage.owner]
          · simp only [Ghost.restage, Function.update_of_ne same]
            rw [known.owns other]
            simp [Ne.symm same]
        grip := fun grip member => by
          cases member
          exact ⟨by simp [Ghost.restage], keyIs, lifeIs⟩
        calls := by
          simp only [slot] at keyIs lifeIs
          simp only [keyIs, lifeIs]
          exact inCall_own rfl rfl known.calls }
  · simp only [slot] at found
    simp only [found, ↓reduceIte, Option.some.injEq, Prod.mk.injEq] at ran
    obtain ⟨rfl, rfl⟩ := ran
    exact ⟨ghost, inv, (protocol config).guar_refl thread _, known⟩

/-- A final store lets go of the slot. -/
theorem letGo_triple
    {event : Event K V T}
    (grip : Grip K V T)
    (stage : Stage K V T)
    (seq : BitVec 64)
    (sameSeq : seq = stage.seq)
    (noCall : event.isCall = false)
    (restage :
      ∀ state ghost,
        Invariant config (state, ghost) →
        ghost.stage grip.slot = grip.stage →
        state.key grip.slot = grip.key →
        state.value grip.slot = grip.life →
        claimOf thread ghost.tailHolder = none →
        claimOf thread ghost.headHolder = none →
        Restage config thread state ghost grip.slot stage event
          ghost.tailHolder ghost.headHolder)
    (freed : stage.owner = none) :
    Triple (protocol config) thread
      (holding ⟨none, none, some grip, calls⟩)
      (Prog.write fun state : State K V T =>
        ({ state with seq := Function.update state.seq grip.slot seq } :
          State K V T).record event : Program K V T Unit)
      fun _ => holding ⟨none, none, none, event :: calls⟩ := by
  apply Triple.atomic
  rintro ⟨state, ghost⟩ choice value shared inv known ran
  cases ran
  obtain ⟨stageIs, keyIs, lifeIs⟩ := known.grip grip rfl
  have restaged := restage state ghost inv stageIs keyIs lifeIs
    known.tail.1 known.head.1
  have keeps := restaged.keeps inv
  have guarantee := restaged.guarantee
  subst sameSeq
  refine ⟨_, keeps, guarantee, ?_⟩
  exact
    { tail := known.tail
      head := known.head
      owns := fun other => by
        by_cases same : other = grip.slot
        · subst same
          simp [Ghost.restage, freed]
        · simp only [Ghost.restage, Function.update_of_ne same]
          rw [known.owns other]
          simp [Ne.symm same]
      grip := fun _ member => by cases member
      calls := inCall_own restaged.belongs noCall known.calls }

end Slots

end ConcurrentCpp.RingQueue
