import ConcurrentCpp.RingQueueProtocol

namespace ConcurrentCpp.RingQueue

/-!
# The steps of the key-value ring queue

Each kind of step keeps the invariant: taking and freeing a lock, claiming a
slot, advancing an index, working on an owned slot and giving it on.
-/

variable {K V T : Type} [DecidableEq T]
  {config : Config K} {thread : T}
  {state : State K V T} {ghost : Ghost K V T}

section Locks

/-- The words of the two locks and what the proof knows of them. -/
structure Ends (T : Type) where
  tailLock : Bool
  tail : BitVec 64
  headLock : Bool
  head : BitVec 64
  tailIndex : Nat
  headIndex : Nat
  tailHolder : Option (T × Bool)
  headHolder : Option (T × Bool)

/-- The state with other lock words. -/
def State.withEnds
    (state : State K V T)
    (ends : Ends T) :
    State K V T :=
  { state with
    tailLock := ends.tailLock
    tail := ends.tail
    headLock := ends.headLock
    head := ends.head }

/-- The ghost state with other lock words. -/
def Ghost.withEnds
    (ghost : Ghost K V T)
    (ends : Ends T) :
    Ghost K V T :=
  { ghost with
    tailIndex := ends.tailIndex
    headIndex := ends.headIndex
    tailHolder := ends.tailHolder
    headHolder := ends.headHolder }

/-- A change of the lock words that claims nothing. -/
structure Rehold
    (ghost : Ghost K V T)
    (ends : Ends T) : Prop where
  tail : ends.tailIndex + advancing ends.tailHolder = ghost.tail
  head : ends.headIndex + advancing ends.headHolder = ghost.head
  tailLocked : ends.tailLock = ends.tailHolder.isSome
  headLocked : ends.headLock = ends.headHolder.isSome
  tailWord : ends.tail = BitVec.ofNat 64 ends.tailIndex
  headWord : ends.head = BitVec.ofNat 64 ends.headIndex
  tailClaim :
    ∀ thread,
      ends.tailHolder = some (thread, true) →
      ghost.tailHolder = some (thread, true) ∧
        ends.tailIndex = ghost.tailIndex
  headClaim :
    ∀ thread,
      ends.headHolder = some (thread, true) →
      ghost.headHolder = some (thread, true) ∧
        ends.headIndex = ghost.headIndex

/-- Changing hands keeps the invariant. -/
theorem rehold_keeps
    {ends : Ends T}
    (inv : Invariant config (state, ghost))
    (rehold : Rehold ghost ends) :
    Invariant config (state.withEnds ends, ghost.withEnds ends) := by
  have tail : (ghost.withEnds ends).tail = ghost.tail := rehold.tail
  have head : (ghost.withEnds ends).head = ghost.head := rehold.head
  exact
    { inv with
      tailLocked := rehold.tailLocked
      headLocked := rehold.headLocked
      tailWord := rehold.tailWord
      headWord := rehold.headWord
      ordered := by simp only [tail, head]; exact inv.ordered
      bounded := by simp only [tail, head]; exact inv.bounded
      fits := by simp only [tail, head]; exact inv.fits
      pushed := by simp only [tail]; exact inv.pushed
      popped := by simp only [head]; exact inv.popped
      tailClaim := fun {holder} claimed => by
        have before := rehold.tailClaim holder claimed
        have found := inv.tailClaim before.1
        simpa only [Ghost.withEnds, State.withEnds, before.2] using found
      headClaim := fun {holder} claimed => by
        have before := rehold.headClaim holder claimed
        have found := inv.headClaim before.1
        simpa only [Ghost.withEnds, State.withEnds, before.2] using found }

theorem guarantee_tail
    (ends : Ends T)
    (own : OwnHands thread ghost.tailHolder ends.tailHolder)
    (sameHolder : ends.headHolder = ghost.headHolder)
    (sameIndex : ends.headIndex = ghost.headIndex) :
    Guarantee thread (state, ghost)
      (state.withEnds ends, ghost.withEnds ends) where
  tail other different := by
    obtain ⟨before, after⟩ := own other different
    exact ⟨after.trans before.symm, fun held => absurd before held⟩
  head _ _ :=
    ⟨by simp only [Ghost.withEnds, sameHolder], fun _ => sameIndex⟩
  slots _ _ _ := ⟨Iff.rfl, fun _ => ⟨rfl, rfl, rfl⟩⟩
  calls _ _ := rfl

theorem guarantee_head
    (ends : Ends T)
    (own : OwnHands thread ghost.headHolder ends.headHolder)
    (sameHolder : ends.tailHolder = ghost.tailHolder)
    (sameIndex : ends.tailIndex = ghost.tailIndex) :
    Guarantee thread (state, ghost)
      (state.withEnds ends, ghost.withEnds ends) where
  tail _ _ :=
    ⟨by simp only [Ghost.withEnds, sameHolder], fun _ => sameIndex⟩
  head other different := by
    obtain ⟨before, after⟩ := own other different
    exact ⟨after.trans before.symm, fun held => absurd before held⟩
  slots _ _ _ := ⟨Iff.rfl, fun _ => ⟨rfl, rfl, rfl⟩⟩
  calls _ _ := rfl

/-- The lock words as they are. -/
def endsOf
    (state : State K V T)
    (ghost : Ghost K V T) :
    Ends T where
  tailLock := state.tailLock
  tail := state.tail
  headLock := state.headLock
  head := state.head
  tailIndex := ghost.tailIndex
  headIndex := ghost.headIndex
  tailHolder := ghost.tailHolder
  headHolder := ghost.headHolder

theorem rehold_same
    (inv : Invariant config (state, ghost)) :
    Rehold ghost (endsOf state ghost) where
  tail := rfl
  head := rfl
  tailLocked := inv.tailLocked
  headLocked := inv.headLocked
  tailWord := inv.tailWord
  headWord := inv.headWord
  tailClaim _ claimed := ⟨claimed, rfl⟩
  headClaim _ claimed := ⟨claimed, rfl⟩

/-- A producer takes the free tail lock. -/
theorem lockTail_keeps
    (thread : T)
    (inv : Invariant config (state, ghost))
    (free : ghost.tailHolder = none) :
    let after := { state with tailLock := true }
    let held := { ghost with tailHolder := some (thread, false) }
    Invariant config (after, held) ∧
      Guarantee thread (state, ghost) (after, held) := by
  let ends : Ends T :=
    { endsOf state ghost with
      tailLock := true
      tailHolder := some (thread, false) }
  have rehold : Rehold ghost ends :=
    { rehold_same inv with
      tail := by simp [ends, endsOf, Ghost.tail, free, advancing]
      tailLocked := rfl
      tailClaim := fun _ claimed => by cases claimed }
  exact ⟨rehold_keeps inv rehold,
    guarantee_tail ends
      (ownHands (.inl free) (.inr ⟨false, rfl⟩)) rfl rfl⟩

/-- The producer frees the tail lock. -/
theorem unlockTail_keeps
    (inv : Invariant config (state, ghost))
    (mine : ghost.tailHolder = some (thread, false)) :
    let after := { state with tailLock := false }
    let freed := { ghost with tailHolder := none }
    Invariant config (after, freed) ∧
      Guarantee thread (state, ghost) (after, freed) := by
  let ends : Ends T :=
    { endsOf state ghost with
      tailLock := false
      tailHolder := none }
  have rehold : Rehold ghost ends :=
    { rehold_same inv with
      tail := by simp [ends, endsOf, Ghost.tail, mine, advancing]
      tailLocked := rfl
      tailClaim := fun _ claimed => by cases claimed }
  exact ⟨rehold_keeps inv rehold,
    guarantee_tail ends
      (ownHands (.inr ⟨false, mine⟩) (.inl rfl)) rfl rfl⟩

/-- The producer advances the index over its claim. -/
theorem advanceTail_keeps
    (inv : Invariant config (state, ghost))
    (mine : ghost.tailHolder = some (thread, true)) :
    let after := { state with tail := state.tail + 1 }
    let moved :=
      { ghost with
        tailIndex := ghost.tailIndex + 1
        tailHolder := some (thread, false) }
    Invariant config (after, moved) ∧
      Guarantee thread (state, ghost) (after, moved) := by
  let ends : Ends T :=
    { endsOf state ghost with
      tail := state.tail + 1
      tailIndex := ghost.tailIndex + 1
      tailHolder := some (thread, false) }
  have rehold : Rehold ghost ends :=
    { rehold_same inv with
      tail := by simp [ends, Ghost.tail, mine, advancing]
      tailLocked := by
        have locked := inv.tailLocked
        simp only [mine, Option.isSome_some] at locked
        exact locked
      tailWord := by
        have word : state.tail = BitVec.ofNat 64 ghost.tailIndex :=
          inv.tailWord
        simp [ends, word, BitVec.ofNat_add]
      tailClaim := fun _ claimed => by cases claimed }
  exact ⟨rehold_keeps inv rehold,
    guarantee_tail ends
      (ownHands (.inr ⟨true, mine⟩) (.inr ⟨false, rfl⟩)) rfl rfl⟩

/-- A consumer takes the free head lock. -/
theorem lockHead_keeps
    (thread : T)
    (inv : Invariant config (state, ghost))
    (free : ghost.headHolder = none) :
    let after := { state with headLock := true }
    let held := { ghost with headHolder := some (thread, false) }
    Invariant config (after, held) ∧
      Guarantee thread (state, ghost) (after, held) := by
  let ends : Ends T :=
    { endsOf state ghost with
      headLock := true
      headHolder := some (thread, false) }
  have rehold : Rehold ghost ends :=
    { rehold_same inv with
      head := by simp [ends, endsOf, Ghost.head, free, advancing]
      headLocked := rfl
      headClaim := fun _ claimed => by cases claimed }
  exact ⟨rehold_keeps inv rehold,
    guarantee_head ends
      (ownHands (.inl free) (.inr ⟨false, rfl⟩)) rfl rfl⟩

/-- The consumer frees the head lock. -/
theorem unlockHead_keeps
    (inv : Invariant config (state, ghost))
    (mine : ghost.headHolder = some (thread, false)) :
    let after := { state with headLock := false }
    let freed := { ghost with headHolder := none }
    Invariant config (after, freed) ∧
      Guarantee thread (state, ghost) (after, freed) := by
  let ends : Ends T :=
    { endsOf state ghost with
      headLock := false
      headHolder := none }
  have rehold : Rehold ghost ends :=
    { rehold_same inv with
      head := by simp [ends, endsOf, Ghost.head, mine, advancing]
      headLocked := rfl
      headClaim := fun _ claimed => by cases claimed }
  exact ⟨rehold_keeps inv rehold,
    guarantee_head ends
      (ownHands (.inr ⟨false, mine⟩) (.inl rfl)) rfl rfl⟩

/-- The consumer advances the index over its claim. -/
theorem advanceHead_keeps
    (inv : Invariant config (state, ghost))
    (mine : ghost.headHolder = some (thread, true)) :
    let after := { state with head := state.head + 1 }
    let moved :=
      { ghost with
        headIndex := ghost.headIndex + 1
        headHolder := some (thread, false) }
    Invariant config (after, moved) ∧
      Guarantee thread (state, ghost) (after, moved) := by
  let ends : Ends T :=
    { endsOf state ghost with
      head := state.head + 1
      headIndex := ghost.headIndex + 1
      headHolder := some (thread, false) }
  have rehold : Rehold ghost ends :=
    { rehold_same inv with
      head := by simp [ends, Ghost.head, mine, advancing]
      headLocked := by
        have locked := inv.headLocked
        simp only [mine, Option.isSome_some] at locked
        exact locked
      headWord := by
        have word : state.head = BitVec.ofNat 64 ghost.headIndex :=
          inv.headWord
        simp [ends, word, BitVec.ofNat_add]
      headClaim := fun _ claimed => by cases claimed }
  exact ⟨rehold_keeps inv rehold,
    guarantee_head ends
      (ownHands (.inr ⟨true, mine⟩) (.inr ⟨false, rfl⟩)) rfl rfl⟩

end Locks

section Events

/-- An event of another thread leaves a call alone. -/
theorem inCall_other
    {event : Event K V T}
    {other : T}
    (events : List (Event K V T))
    (belongs : event.thread = some thread)
    (different : other ≠ thread) :
    inCall other (event :: events) = inCall other events := by
  simp [inCall, belongs, Ne.symm different]

/-- An event that returns from nothing leaves its thread inside. -/
theorem inside_own
    {event : Event K V T}
    (events : List (Event K V T))
    (belongs : event.thread = some thread)
    (ongoing : event.isReturn = false) :
    inside thread (event :: events) = true := by
  cases call : event.isCall <;> simp [inside, inCall, belongs, call, ongoing]

theorem inside_keeps
    {event : Event K V T}
    {events : List (Event K V T)}
    {other : T}
    (belongs : event.thread = some thread)
    (ongoing : other = thread → event.isReturn = false)
    (within : inside other events = true) :
    inside other (event :: events) = true := by
  by_cases same : other = thread
  · subst same
    exact inside_own events belongs (ongoing rfl)
  · simpa only [inside, inCall_other events belongs same] using within

/-- An event that neither claims nor gives on a slot. -/
structure Quiet
    (event : Event K V T) : Prop where
  owner :
    ∀ slot events, owner slot (event :: events) = owner slot events
  content :
    ∀ slot events, content slot (event :: events) = content slot events
  pushes : ∀ events, pushes (event :: events) = pushes events
  pops : ∀ events, pops (event :: events) = pops events

/-- Recording the begin or the end of a call. -/
theorem note_keeps
    {event : Event K V T}
    (inv : Invariant config (state, ghost))
    (quiet : Quiet event)
    (lives :
      ∀ slot,
        life slot (event :: state.events) = life slot state.events)
    (belongs : event.thread = some thread)
    (allowed : EventOk config state.events event)
    (leaves :
      ∀ slot < config.size.slots,
        (ghost.stage slot).owner = some thread →
        event.isReturn = false) :
    Invariant config (state.record event, ghost) ∧
      Guarantee thread (state, ghost) (state.record event, ghost) := by
  refine ⟨?_, ?_⟩
  · exact
      { inv with
        owner := fun slot inRange =>
          (quiet.owner slot _).trans (inv.owner slot inRange)
        life := fun slot => (lives slot).trans (inv.life slot)
        element := fun slot inRange _ _ _ element => by
          simp only [State.record, quiet.pushes, quiet.content]
          exact inv.element slot inRange element
        pushed := by
          simp only [State.record, quiet.pushes]
          exact inv.pushed
        popped := by
          simp only [State.record, quiet.pops]
          exact inv.popped
        matched := by
          simp only [State.record, quiet.pushes, quiet.pops]
          exact inv.matched
        keys := by
          simp only [State.record, quiet.pushes]
          exact inv.keys
        legal := ⟨allowed, inv.legal⟩
        working := fun slot inRange other mine =>
          inside_keeps belongs
            (fun same => leaves slot inRange (same ▸ mine))
            (inv.working slot inRange mine) }
  · exact
      { tail := fun _ _ => ⟨rfl, fun _ => rfl⟩
        head := fun _ _ => ⟨rfl, fun _ => rfl⟩
        slots := fun _ _ _ => ⟨Iff.rfl, fun _ => ⟨rfl, rfl, rfl⟩⟩
        calls := fun _ different => inCall_other _ belongs different }

/-- The state after an owner's access to its slot. -/
def State.touch
    (state : State K V T)
    (slot : Nat)
    (key : K)
    (life : Life V)
    (event : Event K V T) :
    State K V T :=
  { state with
    key := Function.update state.key slot key
    value := Function.update state.value slot life
    events := event :: state.events }

/-- An owner's access to the key or the value of its slot. -/
theorem touch_keeps
    {event : Event K V T}
    {slot : Nat}
    (key : K)
    (stored : Life V)
    (inv : Invariant config (state, ghost))
    (mine : (ghost.stage slot).owner = some thread)
    (quiet : Quiet event)
    (lives :
      ∀ place,
        life place (event :: state.events) =
          if slot = place then stored else life place state.events)
    (belongs : event.thread = some thread)
    (ongoing : event.isReturn = false)
    (allowed : EventOk config state.events event)
    (unlocked :
      stored = state.value slot ∨
        claimOf thread ghost.tailHolder = none ∧
          claimOf thread ghost.headHolder = none) :
    Invariant config (state.touch slot key stored event, ghost) ∧
      Guarantee thread (state, ghost)
        (state.touch slot key stored event, ghost) := by
  have kept :
      ∀ place,
        (ghost.stage place).owner ≠ some thread →
        (state.touch slot key stored event).value place =
          state.value place := by
    intro place notMine
    refine Function.update_of_ne ?_ _ _
    rintro rfl
    exact notMine mine
  have keptKey :
      ∀ place,
        (ghost.stage place).owner ≠ some thread →
        (state.touch slot key stored event).key place =
          state.key place := by
    intro place notMine
    refine Function.update_of_ne ?_ _ _
    rintro rfl
    exact notMine mine
  -- The value of a slot that is claimed under a lock is not touched.
  have keptClaim :
      ∀ {place holder claim},
        (ghost.stage place).owner = some holder →
        claim = some (holder, true) →
        (claimOf thread claim = none ∨ stored = state.value slot) →
        (state.touch slot key stored event).value place =
          state.value place := by
    intro place holder claim owned held free
    by_cases same : holder = thread
    · subst same
      rcases free with none | stays
      · simp [held, claimOf] at none
      · simp [State.touch, stays]
    · exact kept place fun mine' => same (by
        rw [owned] at mine'
        exact Option.some.inj mine')
  refine ⟨?_, ?_⟩
  · exact
      { inv with
        owner := fun place inRange =>
          (quiet.owner place _).trans (inv.owner place inRange)
        life := fun place => by
          have before := inv.life place
          simp only at before
          simp only [State.touch, lives, before, Function.update_apply,
            eq_comm]
        free := fun place inRange _ free => by
          rw [kept place (by rw [free]; simp [Stage.owner])]
          exact inv.free place inRange free
        full := fun place inRange _ _ _ full => by
          have other : (ghost.stage place).owner ≠ some thread := by
            rw [full]
            simp [Stage.owner]
          rw [kept place other, keptKey place other]
          exact inv.full place inRange full
        element := fun place inRange _ _ _ element => by
          simp only [State.touch, quiet.pushes, quiet.content]
          exact inv.element place inRange element
        pushed := by
          simp only [State.touch, quiet.pushes]
          exact inv.pushed
        popped := by
          simp only [State.touch, quiet.pops]
          exact inv.popped
        matched := by
          simp only [State.touch, quiet.pushes, quiet.pops]
          exact inv.matched
        keys := by
          simp only [State.touch, quiet.pushes]
          exact inv.keys
        tailClaim := fun claimed => by
          obtain ⟨claimedKey, value, stage, raw⟩ := inv.tailClaim claimed
          refine ⟨claimedKey, value, stage, ?_⟩
          rw [keptClaim (by rw [stage]; rfl) claimed
            (unlocked.symm.imp_left And.left)]
          exact raw
        headClaim := fun claimed => by
          obtain ⟨claimedKey, value, stage, built⟩ := inv.headClaim claimed
          refine ⟨claimedKey, value, stage, ?_⟩
          rw [keptClaim (by rw [stage]; rfl) claimed
            (unlocked.symm.imp_left And.right)]
          exact built
        legal := ⟨allowed, inv.legal⟩
        working := fun place inRange _ owned =>
          inside_keeps belongs (fun _ => ongoing)
            (inv.working place inRange owned) }
  · exact
      { tail := fun _ _ => ⟨rfl, fun _ => rfl⟩
        head := fun _ _ => ⟨rfl, fun _ => rfl⟩
        slots := fun place other different =>
          ⟨Iff.rfl, fun owned => by
            have notMine : (ghost.stage place).owner ≠ some thread := by
              intro mine'
              rw [owned] at mine'
              exact different (Option.some.inj mine')
            exact ⟨rfl, keptKey place notMine, kept place notMine⟩⟩
        calls := fun _ different => inCall_other _ belongs different }

end Events

section Slots

/-- The state after a step that changes the stage of a slot. -/
def State.restage
    (state : State K V T)
    (slot : Nat)
    (stage : Stage K V T)
    (event : Event K V T) :
    State K V T :=
  { state with
    seq := Function.update state.seq slot stage.seq
    events := event :: state.events }

/-- The ghost state after a step that changes the stage of a slot. -/
def Ghost.restage
    (ghost : Ghost K V T)
    (slot : Nat)
    (stage : Stage K V T)
    (tailHolder headHolder : Option (T × Bool)) :
    Ghost K V T :=
  { ghost with
    tailHolder := tailHolder
    headHolder := headHolder
    stage := Function.update ghost.stage slot stage }

/-- Claimed pairs keep their numbers. -/
private theorem getElem?_of_grows
    {pairs later : List (K × V)}
    {position : Nat}
    {pair : K × V}
    (grows : pairs <+: later)
    (listed : pairs[position]? = some pair) :
    later[position]? = some pair := by
  obtain ⟨rest, rfl⟩ := grows
  obtain ⟨bound, _⟩ := List.getElem?_eq_some_iff.mp listed
  rw [List.getElem?_append_left bound]
  exact listed

/-- A slot changes its stage in the hands of the thread. -/
structure Restage
    (config : Config K)
    (thread : T)
    (state : State K V T)
    (ghost : Ghost K V T)
    (slot : Nat)
    (stage : Stage K V T)
    (event : Event K V T)
    (tailHolder headHolder : Option (T × Bool)) : Prop where
  inRange : slot < config.size.slots
  before :
    (ghost.stage slot).owner = none ∨
      (ghost.stage slot).owner = some thread
  after : stage.owner = none ∨ stage.owner = some thread
  belongs : event.thread = some thread
  ongoing : event.isReturn = false
  allowed : EventOk config state.events event
  owns :
    ∀ place,
      owner place (event :: state.events) =
        if slot = place then stage.owner else owner place state.events
  lives :
    ∀ place, life place (event :: state.events) = life place state.events
  contents :
    ∀ place,
      place ≠ slot →
      content place (event :: state.events) = content place state.events
  grows : pushes state.events <+: pushes (event :: state.events)
  free : ∀ {number}, stage = .free number → state.value slot = .raw
  full :
    ∀ {number key value},
      stage = .full number key value →
      state.key slot = key ∧ state.value slot = .built value
  element :
    ∀ {number key value},
      stage.element = some (number, key, value) →
      config.start.toNat ≤ number ∧
        (pushes (event :: state.events))[number - config.start.toNat]? =
          some (key, value) ∧
        content slot (event :: state.events) =
          some (BitVec.ofNat 64 number, key, value)
  tailLocked : tailHolder.isSome = ghost.tailHolder.isSome
  headLocked : headHolder.isSome = ghost.headHolder.isSome
  tailHands : HandOver thread ghost.tailHolder tailHolder
  headHands : HandOver thread ghost.headHolder headHolder
  tailClaim :
    ∀ {holder},
      tailHolder = some (holder, true) →
      ∃ key value,
        (ghost.restage slot stage tailHolder headHolder).stage
            (ghost.tailIndex % config.size.slots) =
          .filling ghost.tailIndex holder key value ∧
        state.value (ghost.tailIndex % config.size.slots) = .raw
  headClaim :
    ∀ {holder},
      headHolder = some (holder, true) →
      ∃ key value,
        (ghost.restage slot stage tailHolder headHolder).stage
            (ghost.headIndex % config.size.slots) =
          .draining ghost.headIndex holder key value ∧
        state.value (ghost.headIndex % config.size.slots) = .built value
  ordered :
    (ghost.restage slot stage tailHolder headHolder).head ≤
      (ghost.restage slot stage tailHolder headHolder).tail
  bounded :
    (ghost.restage slot stage tailHolder headHolder).tail ≤
      (ghost.restage slot stage tailHolder headHolder).head +
        config.size.slots
  fit :
    stage.Fits config.size.slots
      (ghost.restage slot stage tailHolder headHolder).tail
      (ghost.restage slot stage tailHolder headHolder).head slot
  fits :
    ∀ place,
      place ≠ slot →
      (ghost.stage place).Fits config.size.slots ghost.tail ghost.head
        place →
      (ghost.stage place).Fits config.size.slots
        (ghost.restage slot stage tailHolder headHolder).tail
        (ghost.restage slot stage tailHolder headHolder).head place
  pushed :
    (ghost.restage slot stage tailHolder headHolder).tail =
      config.start.toNat + (pushes (event :: state.events)).length
  popped :
    (ghost.restage slot stage tailHolder headHolder).head =
      config.start.toNat + (pops (event :: state.events)).length
  matched :
    pops (event :: state.events) =
      ((pushes (event :: state.events)).take
        (pops (event :: state.events)).length).map
        fun pair => (pair.1, Life.built pair.2)
  keys :
    ∀ pair ∈ pushes (event :: state.events), pair.1 ≠ config.emptyKey

section Restage

variable
  {slot : Nat}
  {stage : Stage K V T}
  {event : Event K V T}
  {tailHolder headHolder : Option (T × Bool)}

omit [DecidableEq T] in
/-- A property of every slot needs a look at the changed one only. -/
private theorem restaged
    (property : Nat → Stage K V T → Prop)
    (changed : property slot stage)
    (others :
      ∀ place,
        place ≠ slot → property place (ghost.stage place))
    (place : Nat) :
    property place
      ((ghost.restage slot stage tailHolder headHolder).stage place) := by
  by_cases same : place = slot
  · subst same
    simpa [Ghost.restage] using changed
  · simpa [Ghost.restage, Function.update_of_ne same] using
      others place same

theorem Restage.keeps
    (inv : Invariant config (state, ghost))
    (restage :
      Restage config thread state ghost slot stage event tailHolder
        headHolder) :
    Invariant config
      (state.restage slot stage event,
        ghost.restage slot stage tailHolder headHolder) :=
  { inv with
    tailLocked := inv.tailLocked.trans restage.tailLocked.symm
    headLocked := inv.headLocked.trans restage.headLocked.symm
    ordered := restage.ordered
    bounded := restage.bounded
    fits := fun place inRange =>
      restaged
        (fun place stage =>
          place < config.size.slots →
          stage.Fits config.size.slots
            (ghost.restage _ _ tailHolder headHolder).tail
            (ghost.restage _ _ tailHolder headHolder).head place)
        (fun _ => restage.fit)
        (fun place other inRange =>
          restage.fits place other (inv.fits place inRange))
        place inRange
    seq := fun place inRange => by
      by_cases same : place = slot
      · subst same
        simp [State.restage, Ghost.restage]
      · simp only [State.restage, Ghost.restage,
          Function.update_of_ne same]
        exact inv.seq place inRange
    owner := fun place inRange => by
      refine (restage.owns place).trans ?_
      by_cases same : place = slot
      · subst same
        simp [Ghost.restage]
      · simp only [Ghost.restage, Function.update_of_ne same,
          Ne.symm same, ↓reduceIte]
        exact inv.owner place inRange
    life := fun place => (restage.lives place).trans (inv.life place)
    free := fun place inRange number =>
      restaged
        (fun place stage =>
          place < config.size.slots →
          stage = .free number → state.value place = .raw)
        (fun _ => restage.free)
        (fun place _ inRange => inv.free place inRange)
        place inRange
    full := fun place inRange number key value =>
      restaged
        (fun place stage =>
          place < config.size.slots →
          stage = .full number key value →
          state.key place = key ∧ state.value place = .built value)
        (fun _ => restage.full)
        (fun place _ inRange => inv.full place inRange)
        place inRange
    element := fun place inRange number key value element => by
      by_cases same : place = slot
      · subst same
        simp only [Ghost.restage, Function.update_self] at element
        exact restage.element element
      · simp only [Ghost.restage, Function.update_of_ne same] at element
        obtain ⟨started, listed, contained⟩ :=
          inv.element place inRange element
        exact ⟨started, getElem?_of_grows restage.grows listed,
          (restage.contents place same).trans contained⟩
    pushed := restage.pushed
    popped := restage.popped
    matched := restage.matched
    keys := restage.keys
    tailClaim := restage.tailClaim
    headClaim := restage.headClaim
    legal := ⟨restage.allowed, inv.legal⟩
    working := fun place inRange holder owned => by
      by_cases same : place = slot
      · subst same
        simp only [Ghost.restage, Function.update_self] at owned
        rcases restage.after with none | mine
        · rw [none] at owned
          cases owned
        · rw [mine] at owned
          cases owned
          exact inside_own _ restage.belongs restage.ongoing
      · simp only [Ghost.restage, Function.update_of_ne same] at owned
        exact inside_keeps restage.belongs (fun _ => restage.ongoing)
          (inv.working place inRange owned) }

theorem Restage.guarantee
    (restage :
      Restage config thread state ghost slot stage event tailHolder
        headHolder) :
    Guarantee thread (state, ghost)
      (state.restage slot stage event,
        ghost.restage slot stage tailHolder headHolder) where
  tail _ different :=
    ⟨restage.tailHands.claimOf different, fun _ => rfl⟩
  head _ different :=
    ⟨restage.headHands.claimOf different, fun _ => rfl⟩
  slots place other different := by
    by_cases same : place = slot
    · subst same
      have notBefore : (ghost.stage place).owner ≠ some other := by
        rcases restage.before with none | mine
        · simp [none]
        · simpa [mine] using Ne.symm different
      have notAfter : stage.owner ≠ some other := by
        rcases restage.after with none | mine
        · simp [none]
        · simpa [mine] using Ne.symm different
      simp [Ghost.restage, notBefore, notAfter]
    · simp [Ghost.restage, State.restage, Function.update_of_ne same]
  calls _ different := inCall_other _ restage.belongs different

omit [DecidableEq T] in
/-- A claim stores nothing in the slot. -/
theorem State.restage_record
    (event : Event K V T)
    (same : stage.seq = state.seq slot) :
    state.restage slot stage event = state.record event := by
  simp [State.restage, State.record, same]

end Restage

section Claims

omit [DecidableEq T] in
private theorem fits_push
    {stage : Stage K V T}
    {slots tail head place : Nat}
    (other : place ≠ tail % slots)
    (fits : stage.Fits slots tail head place) :
    stage.Fits slots (tail + 1) head place := by
  cases stage with
  | free number =>
      simp only [Stage.Fits] at fits ⊢
      have different : number ≠ tail := by
        rintro rfl
        exact other fits.1.symm
      exact ⟨fits.1, by omega, fits.2.2⟩
  | filling number holder key value =>
      simp only [Stage.Fits] at fits ⊢
      exact ⟨fits.1, fits.2.1, by omega⟩
  | full number key value =>
      simp only [Stage.Fits] at fits ⊢
      exact ⟨fits.1, fits.2.1, by omega⟩
  | draining number holder key value =>
      simp only [Stage.Fits] at fits ⊢
      have different : tail ≠ number + slots := by
        rintro rfl
        rw [Nat.add_mod_right] at other
        exact other fits.1.symm
      exact ⟨fits.1, fits.2.1, by omega⟩

omit [DecidableEq T] in
private theorem fits_pop
    {stage : Stage K V T}
    {slots tail head place : Nat}
    (other : place ≠ head % slots)
    (fits : stage.Fits slots tail head place) :
    stage.Fits slots tail (head + 1) place := by
  have notHead : ∀ number, number % slots = place → number ≠ head := by
    rintro number same rfl
    exact other same.symm
  cases stage with
  | free number =>
      simp only [Stage.Fits] at fits ⊢
      exact ⟨fits.1, fits.2.1, by omega⟩
  | filling number holder key value =>
      simp only [Stage.Fits] at fits ⊢
      have different := notHead number fits.1
      exact ⟨fits.1, by omega, fits.2.2⟩
  | full number key value =>
      simp only [Stage.Fits] at fits ⊢
      have different := notHead number fits.1
      exact ⟨fits.1, by omega, fits.2.2⟩
  | draining number holder key value =>
      simp only [Stage.Fits] at fits ⊢
      exact ⟨fits.1, by omega, fits.2.2⟩

/-- A producer claims the slot it found free. -/
theorem pushClaim_restage
    {slot : Nat}
    {key : K}
    (value : V)
    (inv : Invariant config (state, ghost))
    (mine : ghost.tailHolder = some (thread, false))
    (place : slot = ghost.tail % config.size.slots)
    (free : ghost.stage slot = .free ghost.tail)
    (nonEmpty : key ≠ config.emptyKey) :
    Restage config thread state ghost slot
      (.filling ghost.tailIndex thread key value)
      (.pushClaimed thread slot state.tail key value)
      (some (thread, true)) ghost.headHolder := by
  have word : state.tail = BitVec.ofNat 64 ghost.tailIndex := inv.tailWord
  have tail : ghost.tail = ghost.tailIndex := by
    simp [Ghost.tail, mine, advancing]
  have inRange : slot < config.size.slots := by
    rw [place]
    exact Nat.mod_lt _ config.size.slots_pos
  have fit := inv.fits slot inRange
  simp only [free, Stage.Fits] at fit
  have ordered : ghost.head ≤ ghost.tail := inv.ordered
  have pushed : ghost.tail =
      config.start.toNat + (pushes state.events).length := inv.pushed
  have popped : ghost.head =
      config.start.toNat + (pops state.events).length := inv.popped
  have raw : state.value slot = .raw := inv.free slot inRange free
  have position : ghost.tailIndex - config.start.toNat =
      (pushes state.events).length := by
    omega
  exact
    { inRange := inRange
      before := .inl (by rw [free]; rfl)
      after := .inr rfl
      belongs := rfl
      ongoing := rfl
      allowed :=
        ⟨by rw [word, RingSize.slotOf_ofNat, ← tail]; exact place,
          (inv.owner slot inRange).trans (by simp [free, Stage.owner]),
          (inv.life slot).trans raw⟩
      owns := fun _ => rfl
      lives := fun _ => rfl
      contents := fun _ other => by simp [content, Ne.symm other]
      grows := List.prefix_append _ _
      free := fun same => by cases same
      full := fun same => by cases same
      element := fun same => by
        cases same
        refine ⟨by omega, ?_, ?_⟩
        · simp [pushes, position]
        · simp [content, word]
      tailLocked := by simp [mine]
      headLocked := rfl
      tailHands := .inr (ownHands (.inr ⟨_, mine⟩) (.inr ⟨_, rfl⟩))
      headHands := .inl rfl
      tailClaim := fun claim => by
        cases claim
        rw [← tail, ← place]
        exact ⟨key, value, by simp [Ghost.restage], raw⟩
      headClaim := fun claim => by
        obtain ⟨heldKey, held, stage, built⟩ := inv.headClaim claim
        have other : ghost.headIndex % config.size.slots ≠ slot := by
          intro same
          simp only [same, free] at stage
          cases stage
        refine ⟨heldKey, held, ?_, built⟩
        simpa only [Ghost.restage, Function.update_of_ne other] using stage
      ordered := by
        simp only [Ghost.restage, Ghost.tail, Ghost.head, advancing] at *
        omega
      bounded := by
        simp only [Ghost.restage, Ghost.tail, Ghost.head, advancing] at *
        omega
      fit := by
        refine ⟨tail ▸ fit.1, tail ▸ ordered, ?_⟩
        simp [Ghost.restage, Ghost.tail, advancing]
      fits := fun other different fits => by
        have next : (ghost.restage slot
            (.filling ghost.tailIndex thread key value)
            (some (thread, true)) ghost.headHolder).tail =
              ghost.tail + 1 := by
          simp [Ghost.restage, Ghost.tail, advancing, mine]
        rw [next]
        exact fits_push (place ▸ different) fits
      pushed := by
        simp only [Ghost.restage, Ghost.tail, advancing, pushes,
          List.length_append, List.length_singleton] at *
        omega
      popped := popped
      matched := by
        have matched : pops state.events = _ := inv.matched
        simp only [pushes, pops]
        rw [List.take_append_of_le_length (by omega)]
        exact matched
      keys := by
        intro pair member
        simp only [pushes, List.mem_append, List.mem_singleton] at member
        rcases member with earlier | rfl
        · exact inv.keys pair earlier
        · exact nonEmpty }

/-- A consumer claims the slot it found full. -/
theorem popClaim_restage
    {slot : Nat}
    {key : K}
    {value : V}
    (inv : Invariant config (state, ghost))
    (mine : ghost.headHolder = some (thread, false))
    (place : slot = ghost.head % config.size.slots)
    (full : ghost.stage slot = .full ghost.head key value) :
    Restage config thread state ghost slot
      (.draining ghost.headIndex thread key value)
      (.popClaimed thread slot state.head (state.key slot)
        (state.value slot))
      ghost.tailHolder (some (thread, true)) := by
  have word : state.head = BitVec.ofNat 64 ghost.headIndex := inv.headWord
  have head : ghost.head = ghost.headIndex := by
    simp [Ghost.head, mine, advancing]
  have inRange : slot < config.size.slots := by
    rw [place]
    exact Nat.mod_lt _ config.size.slots_pos
  have fit := inv.fits slot inRange
  simp only [full, Stage.Fits] at fit
  have bounded : ghost.tail ≤ ghost.head + config.size.slots := inv.bounded
  have pushed : ghost.tail =
      config.start.toNat + (pushes state.events).length := inv.pushed
  have popped : ghost.head =
      config.start.toNat + (pops state.events).length := inv.popped
  obtain ⟨keyFound, built⟩ := inv.full slot inRange full
  simp only at keyFound built
  obtain ⟨started, listed, contained⟩ :=
    inv.element slot inRange (by rw [full]; rfl)
  have position : ghost.head - config.start.toNat =
      (pops state.events).length := by
    omega
  rw [position] at listed
  exact
    { inRange := inRange
      before := .inl (by rw [full]; rfl)
      after := .inr rfl
      belongs := rfl
      ongoing := rfl
      allowed :=
        ⟨by rw [word, RingSize.slotOf_ofNat, ← head]; exact place,
          (inv.owner slot inRange).trans (by simp [full, Stage.owner]),
          inv.life slot, value, built⟩
      owns := fun _ => rfl
      lives := fun _ => rfl
      contents := fun _ _ => rfl
      grows := List.prefix_rfl
      free := fun same => by cases same
      full := fun same => by cases same
      element := fun same => by
        cases same
        refine ⟨head ▸ started, ?_, head ▸ contained⟩
        rw [← head, position]
        exact listed
      tailLocked := rfl
      headLocked := by simp [mine]
      tailHands := .inl rfl
      headHands := .inr (ownHands (.inr ⟨_, mine⟩) (.inr ⟨_, rfl⟩))
      tailClaim := fun claim => by
        obtain ⟨heldKey, held, stage, raw⟩ := inv.tailClaim claim
        have other : ghost.tailIndex % config.size.slots ≠ slot := by
          intro same
          simp only [same, full] at stage
          cases stage
        refine ⟨heldKey, held, ?_, raw⟩
        simpa only [Ghost.restage, Function.update_of_ne other] using stage
      headClaim := fun claim => by
        cases claim
        rw [← head, ← place]
        exact ⟨key, value, by simp [Ghost.restage], built⟩
      ordered := by
        simp only [Ghost.restage, Ghost.tail, Ghost.head, advancing] at *
        omega
      bounded := by
        simp only [Ghost.restage, Ghost.tail, Ghost.head, advancing] at *
        omega
      fit := by
        refine ⟨head ▸ fit.1, ?_, head ▸ bounded⟩
        simp [Ghost.restage, Ghost.head, advancing]
      fits := fun other different fits => by
        have next : (ghost.restage slot
            (.draining ghost.headIndex thread key value)
            ghost.tailHolder (some (thread, true))).head =
              ghost.head + 1 := by
          simp [Ghost.restage, Ghost.head, advancing, mine]
        rw [next]
        exact fits_pop (place ▸ different) fits
      pushed := pushed
      popped := by
        simp only [Ghost.restage, Ghost.head, advancing, pops,
          List.length_append, List.length_singleton] at *
        omega
      matched := by
        have matched : pops state.events = _ := inv.matched
        simp only [pushes, pops, List.length_append,
          List.length_singleton, List.take_add_one, listed,
          List.map_append, Option.toList_some, List.map_singleton,
          keyFound, built]
        rw [← matched]
      keys := inv.keys }

/-- The final store of a producer. -/
theorem commit_restage
    {slot number : Nat}
    {key : K}
    {value : V}
    (inv : Invariant config (state, ghost))
    (inRange : slot < config.size.slots)
    (filling : ghost.stage slot = .filling number thread key value)
    (written : state.key slot = key)
    (built : state.value slot = .built value)
    (unlocked : claimOf thread ghost.tailHolder = none) :
    Restage config thread state ghost slot
      (.full number key value) (.committed thread slot)
      ghost.tailHolder ghost.headHolder := by
  have element := inv.element slot inRange (by rw [filling]; rfl)
  exact
    { inRange := inRange
      before := .inr (by rw [filling]; rfl)
      after := .inl rfl
      belongs := rfl
      ongoing := rfl
      allowed :=
        ⟨(inv.owner slot inRange).trans (by simp [filling, Stage.owner]),
          value, (inv.life slot).trans built⟩
      owns := fun _ => rfl
      lives := fun _ => rfl
      contents := fun _ _ => rfl
      grows := List.prefix_rfl
      free := fun same => by cases same
      full := fun same => by
        cases same
        exact ⟨written, built⟩
      element := fun same => by
        cases same
        exact element
      tailLocked := rfl
      headLocked := rfl
      tailHands := .inl rfl
      headHands := .inl rfl
      tailClaim := fun claim => by
        obtain ⟨heldKey, held, stage, raw⟩ := inv.tailClaim claim
        have other : ghost.tailIndex % config.size.slots ≠ slot := by
          intro same
          simp only [same, filling] at stage
          cases stage
          simp [claim, claimOf] at unlocked
        refine ⟨heldKey, held, ?_, raw⟩
        simpa only [Ghost.restage, Function.update_of_ne other] using stage
      headClaim := fun claim => by
        obtain ⟨heldKey, held, stage, drained⟩ := inv.headClaim claim
        have other : ghost.headIndex % config.size.slots ≠ slot := by
          intro same
          simp only [same, filling] at stage
          cases stage
        refine ⟨heldKey, held, ?_, drained⟩
        simpa only [Ghost.restage, Function.update_of_ne other] using stage
      ordered := inv.ordered
      bounded := inv.bounded
      fit := by
        have fit := inv.fits slot inRange
        simp only [filling] at fit
        exact fit
      fits := fun _ _ fits => fits
      pushed := inv.pushed
      popped := inv.popped
      matched := inv.matched
      keys := inv.keys }

/-- The final store of a consumer. -/
theorem release_restage
    {slot number : Nat}
    {key : K}
    {value : V}
    (inv : Invariant config (state, ghost))
    (inRange : slot < config.size.slots)
    (draining : ghost.stage slot = .draining number thread key value)
    (raw : state.value slot = .raw)
    (unlocked : claimOf thread ghost.headHolder = none) :
    Restage config thread state ghost slot
      (.free (number + config.size.slots)) (.released thread slot)
      ghost.tailHolder ghost.headHolder := by
  have fit := inv.fits slot inRange
  simp only [draining, Stage.Fits] at fit
  exact
    { inRange := inRange
      before := .inr (by rw [draining]; rfl)
      after := .inl rfl
      belongs := rfl
      ongoing := rfl
      allowed :=
        ⟨(inv.owner slot inRange).trans (by simp [draining, Stage.owner]),
          (inv.life slot).trans raw⟩
      owns := fun _ => rfl
      lives := fun _ => rfl
      contents := fun _ _ => rfl
      grows := List.prefix_rfl
      free := fun _ => raw
      full := fun same => by cases same
      element := fun same => by cases same
      tailLocked := rfl
      headLocked := rfl
      tailHands := .inl rfl
      headHands := .inl rfl
      tailClaim := fun claim => by
        obtain ⟨heldKey, held, stage, storage⟩ := inv.tailClaim claim
        have other : ghost.tailIndex % config.size.slots ≠ slot := by
          intro same
          simp only [same, draining] at stage
          cases stage
        refine ⟨heldKey, held, ?_, storage⟩
        simpa only [Ghost.restage, Function.update_of_ne other] using stage
      headClaim := fun claim => by
        obtain ⟨heldKey, held, stage, built⟩ := inv.headClaim claim
        have other : ghost.headIndex % config.size.slots ≠ slot := by
          intro same
          simp only [same, draining] at stage
          cases stage
          simp [claim, claimOf] at unlocked
        refine ⟨heldKey, held, ?_, built⟩
        simpa only [Ghost.restage, Function.update_of_ne other] using stage
      ordered := inv.ordered
      bounded := inv.bounded
      fit := by
        refine ⟨by rw [Nat.add_mod_right]; exact fit.1, fit.2.2, ?_⟩
        exact Nat.add_lt_add_right fit.2.1 _
      fits := fun _ _ fits => fits
      pushed := inv.pushed
      popped := inv.popped
      matched := inv.matched
      keys := inv.keys }

end Claims

end Slots

end ConcurrentCpp.RingQueue
