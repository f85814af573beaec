import ConcurrentCpp.RingQueueThreads

namespace ConcurrentCpp.RingQueue

/-!
# Runs of the key-value ring queue

Every call keeps the protocol, so it holds along every run.  What the slots
hold, what the pops have taken and what the destructor finds follow from it.
-/

variable {K V T : Type} [DecidableEq T]
  {config : Config K} {thread : T}

section Calls

/-- What a push has done when it returns. -/
def PushDone
    (thread : T)
    (key : K)
    (value : V)
    (result : Bool)
    (calls : List (Event K V T)) : Prop :=
  if result then
    ∃ slot index,
      calls =
        [.committed thread slot, .built thread slot value,
          .building thread slot, .keyWritten thread slot,
          .pushClaimed thread slot index key value,
          .pushCalled thread key value]
  else
    calls = [.pushCalled thread key value]

/-- What a pop has done when it returns. -/
def PopDone
    (config : Config K)
    (thread : T)
    (key : K)
    (taken : Option (Life V))
    (calls : List (Event K V T)) : Prop :=
  match taken with
  | some value =>
      key ≠ config.emptyKey ∧
        ∃ slot index,
          calls =
            [.released thread slot, .destroyed thread slot,
              .moved thread slot value, .keyCleared thread slot,
              .keyRead thread slot,
              .popClaimed thread slot index key value, .popCalled thread]
  | none => key = config.emptyKey ∧ calls = [.popCalled thread]

/-- A thread between calls. -/
def idle
    (config : Config K)
    (thread : T) :
    Assertion (protocol (V := V) config) thread :=
  Assertion.any fun calls : List (Event K V T) =>
    holding ⟨none, none, none, calls⟩

/-- The commit of a producer. -/
theorem commit_triple
    {calls : List (Event K V T)}
    {slot index : Nat}
    {key : K}
    {value : V}
    (inRange : slot < config.size.slots) :
    Triple (protocol config) thread
      (holding ⟨none, none,
        some ⟨slot, .filling index thread key value, key,
          .built value⟩, calls⟩)
      (commit thread slot (BitVec.ofNat 64 index))
      fun _ =>
        holding ⟨none, none, none, .committed thread slot :: calls⟩ := by
  refine letGo_triple
    ⟨slot, .filling index thread key value, key, .built value⟩
    (.full index key value) _ ?_ rfl ?_ rfl
  · exact (BitVec.ofNat_add index 1).symm
  · intro state ghost inv stageIs keyIs lifeIs tail _
    exact commit_restage inv inRange stageIs keyIs lifeIs tail

/-- The release of a consumer. -/
theorem release_triple
    {calls : List (Event K V T)}
    {slot index : Nat}
    {key oldKey : K}
    {value : V}
    (inRange : slot < config.size.slots) :
    Triple (protocol config) thread
      (holding ⟨none, none,
        some ⟨slot, .draining index thread key value, oldKey, .raw⟩,
        calls⟩)
      (release config thread slot (BitVec.ofNat 64 index))
      fun _ =>
        holding ⟨none, none, none, .released thread slot :: calls⟩ := by
  refine letGo_triple
    ⟨slot, .draining index thread key value, oldKey, .raw⟩
    (.free (index + config.size.slots)) _ ?_ rfl ?_ rfl
  · exact (BitVec.ofNat_add index config.size.slots).symm
  · intro state ghost inv stageIs _ lifeIs _ head
    exact release_restage inv inRange stageIs lifeIs head

/-- `push(key, value)`. -/
theorem push_triple
    {key : K}
    {value : V}
    (nonEmpty : key ≠ config.emptyKey) :
    Triple (protocol config) thread
      (holding ⟨none, none, none, [.pushCalled thread key value]⟩)
      (push config thread key value)
      fun result =>
        Assertion.any fun calls : { calls : List (Event K V T) //
            PushDone thread key value result calls } =>
          holding ⟨none, none, none, calls.1⟩ := by
  refine Triple.bind lockTail_triple fun _ => Triple.any fun index => ?_
  refine Triple.bind readTail_triple fun word => Triple.given ?_
  rintro rfl
  rw [RingSize.slotOf_ofNat]
  have inRange : index % config.size.slots < config.size.slots :=
    Nat.mod_lt _ config.size.slots_pos
  refine Triple.bind (tryClaim_triple nonEmpty config.nTry)
    fun claimed => ?_
  cases claimed with
  | true =>
      refine Triple.any fun oldKey => ?_
      refine Triple.bind (writeKey_triple key inRange) fun _ => ?_
      refine Triple.bind advanceTail_triple fun _ => ?_
      refine Triple.bind unlockTail_triple fun _ => ?_
      refine Triple.bind (beginValue_triple inRange rfl) fun _ => ?_
      refine Triple.bind (finishValue_triple value inRange rfl)
        fun _ => ?_
      refine Triple.bind (commit_triple inRange) fun _ => ?_
      refine Triple.pure fun _ _ known => ⟨⟨_, ?_⟩, known⟩
      exact ⟨_, _, rfl⟩
  | false =>
      refine Triple.bind unlockTail_triple fun _ => ?_
      exact Triple.pure fun _ _ known => ⟨⟨_, rfl⟩, known⟩

/-- `pop(value)`. -/
theorem pop_triple :
    Triple (protocol config) thread
      (holding ⟨none, none, none, [.popCalled thread]⟩)
      (pop config thread : Program K V T (K × Option (Life V)))
      fun result =>
        Assertion.any fun calls : { calls : List (Event K V T) //
            PopDone config thread result.1 result.2 calls } =>
          holding ⟨none, none, none, calls.1⟩ := by
  refine Triple.bind lockHead_triple fun _ => Triple.any fun index => ?_
  refine Triple.bind readHead_triple fun word => Triple.given ?_
  rintro rfl
  rw [RingSize.slotOf_ofNat]
  have inRange : index % config.size.slots < config.size.slots :=
    Nat.mod_lt _ config.size.slots_pos
  refine Triple.bind loadToPop_triple fun claimed => ?_
  cases claimed with
  | true =>
      refine Triple.any fun pair => Triple.given fun nonEmpty => ?_
      refine Triple.bind (readKey_triple inRange) fun key =>
        Triple.given ?_
      rintro rfl
      refine Triple.bind (clearKey_triple inRange) fun _ => ?_
      refine Triple.bind advanceHead_triple fun _ => ?_
      refine Triple.bind unlockHead_triple fun _ => ?_
      refine Triple.bind (moveValue_triple inRange rfl) fun taken =>
        Triple.given ?_
      rintro rfl
      refine Triple.bind (destroyValue_triple inRange rfl) fun _ => ?_
      refine Triple.bind (release_triple inRange) fun _ => ?_
      refine Triple.pure fun _ _ known => ⟨⟨_, ?_⟩, known⟩
      exact ⟨nonEmpty, _, _, rfl⟩
  | false =>
      refine Triple.bind unlockHead_triple fun _ => ?_
      exact Triple.pure fun _ _ known => ⟨⟨_, rfl, rfl⟩, known⟩

/-- `empty()` only looks. -/
theorem empty_triple
    {calls : List (Event K V T)} :
    Triple (protocol config) thread
      (holding ⟨none, none, none, calls⟩)
      (empty config : Program K V T Bool)
      fun _ => holding ⟨none, none, none, calls⟩ := by
  refine Triple.bind lockHead_triple fun _ => Triple.any fun index => ?_
  refine Triple.bind readHead_triple fun word => Triple.given ?_
  rintro rfl
  have looked :
      Triple (protocol config) thread
        (holding ⟨none, some (false, index), none, calls⟩)
        (Prog.read fun state : State K V T =>
          state.seq (config.size.slotOf (BitVec.ofNat 64 index)) :
            Program K V T (BitVec 64))
        fun _ => holding ⟨none, some (false, index), none, calls⟩ :=
    Triple.read fun _ _ known => known
  refine Triple.bind looked fun _ => ?_
  refine Triple.bind readHead_triple fun head => Triple.given fun _ => ?_
  refine Triple.bind unlockHead_triple fun _ => ?_
  exact Triple.pure fun _ _ known => known

/-- Recording the begin of a call. -/
theorem record_call
    {event : Event K V T}
    {calls : List (Event K V T)}
    (quiet : Quiet event)
    (lives :
      ∀ events slot, life slot (event :: events) = life slot events)
    (belongs : event.thread = some thread)
    (begins : event.isCall = true)
    (ongoing : event.isReturn = false)
    (allowed : ∀ events, EventOk config events event) :
    Triple (protocol config) thread
      (holding ⟨none, none, none, calls⟩)
      (record event)
      fun _ => holding ⟨none, none, none, [event]⟩ := by
  apply Triple.atomic
  rintro ⟨state, ghost⟩ choice value shared inv known ran
  cases ran
  have keeps := note_keeps inv quiet (lives state.events) belongs
    (allowed state.events) (fun _ _ _ => ongoing)
  refine ⟨ghost, keeps.1, keeps.2, ?_⟩
  exact
    { known with
      calls := by simp [State.record, inCall, belongs, begins] }

/-- Recording the end of a call. -/
theorem record_return
    {event : Event K V T}
    {calls : List (Event K V T)}
    (quiet : Quiet event)
    (lives :
      ∀ events slot, life slot (event :: events) = life slot events)
    (belongs : event.thread = some thread)
    (noCall : event.isCall = false)
    (allowed :
      ∀ events,
        inCall thread events = calls →
        EventOk config events event) :
    Triple (protocol config) thread
      (holding ⟨none, none, none, calls⟩)
      (record event)
      fun _ => idle config thread := by
  apply Triple.atomic
  rintro ⟨state, ghost⟩ choice value shared inv known ran
  cases ran
  have keeps := note_keeps inv quiet (lives state.events) belongs
    (allowed state.events known.calls) (fun slot _ mine => by
      obtain ⟨_, none, _⟩ := (known.owns slot).mp mine
      cases none)
  refine ⟨ghost, keeps.1, keeps.2, event :: calls, ?_⟩
  exact
    { known with calls := inCall_own belongs noCall known.calls }

end Calls

section Clients

variable [DecidableEq K]

/-- A push is called with a key that is not `Key{}`. -/
def Sendable
    (config : Config K) :
    Call K V → Prop
  | .push key _ => key ≠ config.emptyKey
  | _ => True

theorem pick_triple :
    Triple (protocol config) thread (idle config thread)
      (pick config : Program K V T (Call K V))
      fun call =>
        (Assertion.pure (Sendable config call)).and
          (idle config thread) := by
  apply Triple.atomic
  intro world choice call shared inv known ran
  have unchanged := (protocol config).guar_refl thread world
  cases choice with
  | proceed =>
      cases ran
  | call picked =>
      cases picked with
      | push key value =>
          simp only at ran
          split at ran
          · cases ran
          · rename_i nonEmpty
            cases ran
            exact ⟨world.2, inv, unchanged, nonEmpty, known⟩
      | pop =>
          cases ran
          exact ⟨world.2, inv, unchanged, trivial, known⟩
      | empty =>
          cases ran
          exact ⟨world.2, inv, unchanged, trivial, known⟩

theorem client_triple :
    Triple (protocol config) thread (idle config thread)
      (client config thread : Program K V T Unit)
      fun _ => .pure True := by
  refine Triple.loop
    (fun _ => ?_ : ∀ _ : Unit, Triple (protocol config) thread
      (idle config thread) _ _)
  refine Triple.bind pick_triple fun call =>
    Triple.given fun sendable => Triple.any fun calls => ?_
  cases call with
  | push key value =>
      refine Triple.bind
        (record_call
          ⟨fun _ _ => rfl, fun _ _ => rfl, fun _ => rfl, fun _ => rfl⟩
          (fun _ _ => rfl) rfl rfl rfl fun _ => trivial) fun _ => ?_
      refine Triple.bind (push_triple sendable) fun result =>
        Triple.any ?_
      rintro ⟨done, shape⟩
      refine Triple.bind
        (record_return
          ⟨fun _ _ => rfl, fun _ _ => rfl, fun _ => rfl, fun _ => rfl⟩
          (fun _ _ => rfl) rfl rfl fun events same => ?_) fun _ => ?_
      · subst same
        cases result with
        | true =>
            obtain ⟨slot, index, same⟩ := shape
            exact ⟨slot, index, key, value, same⟩
        | false =>
            exact ⟨key, value, shape⟩
      · exact Triple.ret fun _ _ known => known
  | pop =>
      refine Triple.bind
        (record_call
          ⟨fun _ _ => rfl, fun _ _ => rfl, fun _ => rfl, fun _ => rfl⟩
          (fun _ _ => rfl) rfl rfl rfl fun _ => trivial) fun _ => ?_
      refine Triple.bind pop_triple fun result => Triple.any ?_
      rintro ⟨done, shape⟩
      refine Triple.bind
        (record_return
          ⟨fun _ _ => rfl, fun _ _ => rfl, fun _ => rfl, fun _ => rfl⟩
          (fun _ _ => rfl) rfl rfl fun events same => ?_) fun _ => ?_
      · subst same
        obtain ⟨key, taken⟩ := result
        cases taken with
        | some value =>
            exact shape
        | none =>
            exact shape
      · exact Triple.ret fun _ _ known => known
  | empty =>
      refine Triple.bind empty_triple fun _ => ?_
      exact Triple.ret fun _ _ known => ⟨calls, known⟩

end Clients

section Runs

/-- The first number at or after the start that lands in a slot. -/
def firstNumber
    (config : Config K)
    (slot : Nat) : Nat :=
  config.start.toNat +
    ((BitVec.ofNat 64 slot - config.start) &&&
      config.size.capacityMask).toNat

/-- Nothing is claimed; every slot is free for its first number. -/
def Ghost.initial
    (config : Config K) :
    Ghost K V T where
  tailIndex := config.start.toNat
  headIndex := config.start.toNat
  tailHolder := none
  headHolder := none
  stage slot := .free (firstNumber config slot)

/-- The first number of a slot is in the first lap. -/
theorem firstNumber_fits
    {slot : Nat}
    (inRange : slot < config.size.slots) :
    firstNumber config slot % config.size.slots = slot ∧
      config.start.toNat ≤ firstNumber config slot ∧
      firstNumber config slot <
        config.start.toNat + config.size.slots := by
  have offset :
      ((BitVec.ofNat 64 slot - config.start) &&&
        config.size.capacityMask).toNat =
      (BitVec.ofNat 64 slot - config.start).toNat % config.size.slots :=
    config.size.slotOf_eq _
  have near := Nat.mod_lt (BitVec.ofNat 64 slot - config.start).toNat
    config.size.slots_pos
  refine ⟨?_, ?_, ?_⟩
  · have sum : config.start + (BitVec.ofNat 64 slot - config.start) =
        BitVec.ofNat 64 slot := by
      rw [add_sub_cancel]
    have remainders := congrArg
      (fun word : BitVec 64 => word.toNat % config.size.slots) sum
    simp only [BitVec.toNat_add, BitVec.toNat_ofNat] at remainders
    rw [Nat.mod_mod_of_dvd _ config.size.slots_dvd,
      Nat.mod_mod_of_dvd _ config.size.slots_dvd,
      Nat.mod_eq_of_lt inRange] at remainders
    rw [firstNumber, offset, Nat.add_mod_mod]
    exact remainders
  · exact Nat.le_add_right _ _
  · rw [firstNumber, offset]
    exact Nat.add_lt_add_left near _

/-- A queue without elements satisfies the invariant. -/
theorem initial_inv :
    Invariant config
      ((State.initial config : State K V T), Ghost.initial config) where
  tailLocked := rfl
  headLocked := rfl
  tailWord := by simp [State.initial, Ghost.initial]
  headWord := by simp [State.initial, Ghost.initial]
  ordered := Nat.le_refl _
  bounded := Nat.le_add_right _ _
  fits _ inRange := firstNumber_fits inRange
  seq slot _ := by
    simp only [State.initial, Ghost.initial, Stage.seq, firstNumber,
      BitVec.ofNat_add, BitVec.ofNat_toNat, BitVec.setWidth_eq]
  owner _ _ := rfl
  life _ := rfl
  free _ _ _ _ := rfl
  full _ _ _ _ _ same := by cases same
  element _ _ _ _ _ same := by cases same
  pushed := rfl
  popped := rfl
  matched := rfl
  keys _ member := by cases member
  tailClaim same := by cases same
  headClaim same := by cases same
  legal := trivial
  working _ _ _ same := by cases same

/-- Every run of clients keeps the protocol. -/
theorem covered
    [DecidableEq K]
    (config : Config K)
    (fuel : Nat) :
    Covered (protocol config) fuel
      (initialPool config : Pool (State K V T) (Choice K V) T)
      (Ghost.initial config) :=
  covered_of_triples initial_inv
    (fun thread =>
      show (idle (V := V) config thread).holds _ from
        ⟨[],
          { tail := ⟨rfl, fun _ member => by cases member⟩
            head := ⟨rfl, fun _ member => by cases member⟩
            owns := fun slot => by simp [Ghost.initial, Stage.owner]
            grip := fun _ member => by cases member
            calls := rfl }⟩)
    (fun _ => client_triple) fuel

end Runs

section Protocol

/-- The key-value slot protocol, as a producer and a consumer see it. -/
structure SlotProtocol
    (config : Config K)
    (state : State K V T) : Prop where
  /-- The indices are at most a lap apart. -/
  span : (state.tail - state.head).toNat ≤ config.size.slots
  /-- Slots are claimed while unowned and touched by their owner only. -/
  legal : Legal config state.events
  /-- The history knows what the storage of every slot holds. -/
  lives : ∀ slot, life slot state.events = state.value slot
  /-- What a producer can find at its index. -/
  tail :
    let seq := state.seq (config.size.slotOf state.tail)
    seq = state.tail ∨ seq = state.tail - config.size.capacity ∨
      seq = state.tail - config.size.capacity + 1
  /-- A producer that finds its index finds no value. -/
  tailFree :
    state.seq (config.size.slotOf state.tail) = state.tail →
      state.value (config.size.slotOf state.tail) = .raw
  /-- What a consumer can find at its index. -/
  head :
    let seq := state.seq (config.size.slotOf state.head)
    seq = state.head ∨ seq = state.head + 1 ∨
      seq = state.head - config.size.capacity + 1
  /-- A consumer that finds the next index finds the value of its own. -/
  headFull :
    state.seq (config.size.slotOf state.head) = state.head + 1 →
      ∃ key value,
        content (config.size.slotOf state.head) state.events =
            some (state.head, key, value) ∧
          state.value (config.size.slotOf state.head) = .built value
  /-- A slot still being emptied at the head means that nothing is in. -/
  headEmpty :
    state.seq (config.size.slotOf state.head) =
        state.head - config.size.capacity + 1 →
      state.tail = state.head

variable {state : State K V T} {ghost : Ghost K V T}

/-- The index of the tail, or the claim that it does not show yet. -/
theorem tail_cases
    (inv : Invariant config (state, ghost)) :
    ghost.tail = ghost.tailIndex ∨
      ∃ thread key value,
        ghost.stage (ghost.tailIndex % config.size.slots) =
            .filling ghost.tailIndex thread key value ∧
          state.value (ghost.tailIndex % config.size.slots) = .raw ∧
          ghost.tail = ghost.tailIndex + 1 := by
  cases held : ghost.tailHolder with
  | none =>
      exact .inl (by simp [Ghost.tail, held, advancing])
  | some pair =>
      obtain ⟨thread, claimed⟩ := pair
      cases claimed with
      | false =>
          exact .inl (by simp [Ghost.tail, held, advancing])
      | true =>
          obtain ⟨key, value, stage, raw⟩ := inv.tailClaim held
          exact .inr ⟨thread, key, value, stage, raw, by
            simp [Ghost.tail, held, advancing]⟩

/-- The index of the head, or the claim that it does not show yet. -/
theorem head_cases
    (inv : Invariant config (state, ghost)) :
    ghost.head = ghost.headIndex ∨
      ∃ thread key value,
        ghost.stage (ghost.headIndex % config.size.slots) =
            .draining ghost.headIndex thread key value ∧
          state.value (ghost.headIndex % config.size.slots) =
            .built value ∧
          ghost.head = ghost.headIndex + 1 := by
  cases held : ghost.headHolder with
  | none =>
      exact .inl (by simp [Ghost.head, held, advancing])
  | some pair =>
      obtain ⟨thread, claimed⟩ := pair
      cases claimed with
      | false =>
          exact .inl (by simp [Ghost.head, held, advancing])
      | true =>
          obtain ⟨key, value, stage, built⟩ := inv.headClaim held
          exact .inr ⟨thread, key, value, stage, built, by
            simp [Ghost.head, held, advancing]⟩

/-- The indices are in order, whatever their locks have claimed. -/
theorem indices_near
    (inv : Invariant config (state, ghost)) :
    ghost.headIndex ≤ ghost.tailIndex ∧
      ghost.tailIndex ≤ ghost.headIndex + config.size.slots := by
  have ordered : ghost.head ≤ ghost.tail := inv.ordered
  have bounded : ghost.tail ≤ ghost.head + config.size.slots := inv.bounded
  have inRange := fun number =>
    Nat.mod_lt number config.size.slots_pos
  constructor
  · rcases tail_cases inv with tail | ⟨_, _, _, stage, _, tail⟩
    · have : ghost.headIndex ≤ ghost.head := Nat.le_add_right _ _
      omega
    · have fits := inv.fits _ (inRange ghost.tailIndex)
      simp only [stage, Stage.Fits] at fits
      have : ghost.headIndex ≤ ghost.head := Nat.le_add_right _ _
      omega
  · rcases head_cases inv with head | ⟨_, _, _, stage, _, head⟩
    · have : ghost.tailIndex ≤ ghost.tail := Nat.le_add_right _ _
      omega
    · have fits := inv.fits _ (inRange ghost.headIndex)
      simp only [stage, Stage.Fits] at fits
      have : ghost.tailIndex ≤ ghost.tail := Nat.le_add_right _ _
      omega

/-- What a producer finds at the index of the tail. -/
theorem seq_at_tail
    (inv : Invariant config (state, ghost)) :
    let slot := config.size.slotOf state.tail
    (state.seq slot = state.tail ∧ state.value slot = .raw) ∨
      state.seq slot = state.tail - config.size.capacity ∨
      state.seq slot = state.tail - config.size.capacity + 1 := by
  intro slot
  have word : state.tail = BitVec.ofNat 64 ghost.tailIndex := inv.tailWord
  have place : slot = ghost.tailIndex % config.size.slots := by
    simp only [slot, word, RingSize.slotOf_ofNat]
  have inRange : slot < config.size.slots := config.size.slotOf_lt _
  have found := inv.seq slot inRange
  simp only at found
  rcases tail_cases inv with tail | ⟨_, _, _, stage, raw, _⟩
  · rcases stage_at_tail inv with stage | ⟨number, lap, stages⟩
    · rw [tail, ← place] at stage
      refine .inl ⟨?_, inv.free slot inRange stage⟩
      rw [found, stage, word]
      rfl
    · rw [tail] at lap
      have earlier := ofNat_lap config.size number
      rw [← lap, ← word] at earlier
      rw [tail, ← place] at stages
      rw [found, earlier]
      rcases stages with ⟨_, _, _, stage⟩ | ⟨_, _, stage⟩ |
        ⟨_, _, _, stage⟩
      · exact .inr (.inl (by rw [stage]; rfl))
      · exact .inr (.inr (by
          rw [stage]
          exact BitVec.ofNat_add number 1))
      · exact .inr (.inr (by
          rw [stage]
          exact BitVec.ofNat_add number 1))
  · rw [← place] at stage raw
    refine .inl ⟨?_, raw⟩
    rw [found, stage, word]
    rfl

/-- What a consumer finds at the index of the head. -/
theorem seq_at_head
    (inv : Invariant config (state, ghost)) :
    let slot := config.size.slotOf state.head
    state.seq slot = state.head ∨
      (state.seq slot = state.head + 1 ∧
        ∃ key value,
          content slot state.events = some (state.head, key, value) ∧
            state.value slot = .built value) ∨
      (state.seq slot = state.head - config.size.capacity + 1 ∧
        state.tail = state.head) := by
  intro slot
  have word : state.head = BitVec.ofNat 64 ghost.headIndex := inv.headWord
  have place : slot = ghost.headIndex % config.size.slots := by
    simp only [slot, word, RingSize.slotOf_ofNat]
  have inRange : slot < config.size.slots := config.size.slotOf_lt _
  have found := inv.seq slot inRange
  simp only at found
  have next := BitVec.ofNat_add (n := 64) ghost.headIndex 1
  rcases head_cases inv with head | ⟨_, key, value, stage, built, _⟩
  · rcases stage_at_head inv with
      ⟨stage, _⟩ | ⟨_, _, _, stage⟩ | ⟨key, value, stage⟩ |
        ⟨number, lap, empty, _, _, _, stage⟩
    · rw [head, ← place] at stage
      exact .inl (by rw [found, stage, word]; rfl)
    · rw [head, ← place] at stage
      exact .inl (by rw [found, stage, word]; rfl)
    · rw [head, ← place] at stage
      obtain ⟨_, built⟩ := inv.full slot inRange stage
      obtain ⟨_, _, contained⟩ :=
        inv.element slot inRange (by rw [stage]; rfl)
      refine .inr (.inl ⟨?_, key, value, ?_, built⟩)
      · rw [found, stage, word]
        exact next
      · rw [word]
        exact contained
    · rw [head, ← place] at stage
      rw [head] at lap empty
      have earlier := ofNat_lap config.size number
      rw [← lap, ← word] at earlier
      refine .inr (.inr ⟨?_, ?_⟩)
      · rw [found, stage, earlier]
        exact BitVec.ofNat_add number 1
      · have same : ghost.tailIndex = ghost.headIndex := by
          have near := indices_near inv
          have : ghost.tailIndex ≤ ghost.tail := Nat.le_add_right _ _
          omega
        have tailWord : state.tail = BitVec.ofNat 64 ghost.tailIndex :=
          inv.tailWord
        rw [tailWord, same, word]
  · rw [← place] at stage built
    obtain ⟨_, _, contained⟩ :=
      inv.element slot inRange (by rw [stage]; rfl)
    refine .inr (.inl ⟨?_, key, value, ?_, built⟩)
    · rw [found, stage, word]
      exact next
    · rw [word]
      exact contained

/-- The invariant is the protocol of the slots. -/
theorem Invariant.slotProtocol
    (inv : Invariant config (state, ghost)) :
    SlotProtocol config state := by
  have apart := ne_of_lap config.size state.tail
  have apartHead := ne_of_lap config.size state.head
  exact
    { span := by
        have near := indices_near inv
        have small := config.size.slots_lt
        have tailWord : state.tail = BitVec.ofNat 64 ghost.tailIndex :=
          inv.tailWord
        have headWord : state.head = BitVec.ofNat 64 ghost.headIndex :=
          inv.headWord
        rw [tailWord, headWord,
          ofNat_sub_toNat near.1 (by omega)]
        omega
      legal := inv.legal
      lives := inv.life
      tail := (seq_at_tail inv).imp_left And.left
      tailFree := fun found => by
        rcases seq_at_tail inv with ⟨_, raw⟩ | lap | lap
        · exact raw
        · exact absurd (found.symm.trans lap) apart.1
        · exact absurd (found.symm.trans lap) apart.2.1
      head :=
        (seq_at_head inv).imp_right
          (Or.imp And.left And.left)
      headFull := fun found => by
        rcases seq_at_head inv with same | ⟨_, full⟩ | ⟨lap, _⟩
        · exact absurd (same.symm.trans found) apartHead.2.2.2
        · exact full
        · exact absurd (found.symm.trans lap) apartHead.2.2.1
      headEmpty := fun found => by
        rcases seq_at_head inv with same | ⟨same, _⟩ | ⟨_, empty⟩
        · exact absurd (same.symm.trans found) apartHead.2.1
        · exact absurd (same.symm.trans found) apartHead.2.2.1
        · exact empty }

/--
The slot protocol holds in every reachable state, from any starting index and
so also across the wrap of the indices.
-/
theorem slotProtocol_upheld
    [DecidableEq K]
    (config : Config K)
    {pool : Pool (State K V T) (Choice K V) T}
    (reached : (initialPool config).Reaches pool) :
    SlotProtocol config pool.shared := by
  obtain ⟨needed, runs⟩ := Covered.reaches reached
  obtain ⟨ghost, coveredPool, _⟩ := runs (covered config (0 + needed))
  exact coveredPool.1.slotProtocol

/-- Eight slots whose first index is the last one before the wrap. -/
def wrapConfig : Config Nat where
  size := .eight
  nTry := 8
  emptyKey := 0
  start := BitVec.ofNat 64 (2 ^ 64 - 1)

/-- One thread pushes across the wrap, then another starts to pop. -/
def pushAndClaim : List (Bool × Choice Nat Nat) :=
  [(false, Choice.proceed), (false, .call (.push 7 70))] ++
    List.replicate 13 (false, Choice.proceed) ++
    [(true, Choice.proceed), (true, .call .pop)] ++
    List.replicate 6 (true, Choice.proceed)

/-- The consumer has claimed the slot of the last index before the wrap. -/
theorem slotProtocol_upheld_wrap :
    ∃ pool : Pool (State Nat Nat Bool) (Choice Nat Nat) Bool,
      (initialPool wrapConfig).run pushAndClaim = some pool ∧
        pool.shared.tail = 0 ∧
        pool.shared.head = BitVec.ofNat 64 (2 ^ 64 - 1) ∧
        owner 7 pool.shared.events = some true ∧
        SlotProtocol wrapConfig pool.shared := by
  obtain ⟨pool, ran⟩ :
      ∃ pool : Pool (State Nat Nat Bool) (Choice Nat Nat) Bool,
        (initialPool wrapConfig).run pushAndClaim = some pool :=
    ⟨_, rfl⟩
  refine ⟨pool, ran, ?_, ?_, ?_,
    slotProtocol_upheld wrapConfig ⟨_, ran⟩⟩
  · cases ran
    rfl
  · cases ran
    rfl
  · cases ran
    rfl

end Protocol

end ConcurrentCpp.RingQueue
