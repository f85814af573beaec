import ConcurrentCpp.RingKeyQueue

namespace ConcurrentCpp.RingKeyQueue

/-!
# Runs of the key-only ring queue

The proof counts the stores and the clears by unbounded numbers.  An index
may lag behind its number while the holder of its lock is between the key
store and the increment, so the head can be seen ahead of the tail; the slots
never lag.
-/

variable {K T : Type} [DecidableEq K] [DecidableEq T]

section Protocol

/-- What the proof keeps besides the shared words. -/
structure Ghost (T : Type) where
  tailIndex : Nat
  headIndex : Nat
  tailHolder : Option (T × Bool)
  headHolder : Option (T × Bool)

/-- The number of the next store. -/
def Ghost.tail (ghost : Ghost T) : Nat :=
  ghost.tailIndex + advancing ghost.tailHolder

/-- The number of the next clear. -/
def Ghost.head (ghost : Ghost T) : Nat :=
  ghost.headIndex + advancing ghost.headHolder

/-- What holds in every reachable world. -/
structure Invariant
    (config : Config K)
    (world : State K T × Ghost T) : Prop where
  tailLocked : world.1.tailLock = world.2.tailHolder.isSome
  headLocked : world.1.headLock = world.2.headHolder.isSome
  tailWord : world.1.tail = BitVec.ofNat 64 world.2.tailIndex
  headWord : world.1.head = BitVec.ofNat 64 world.2.headIndex
  filled :
    world.2.tail = world.2.head + (contents world.1.events).length
  bounded : (contents world.1.events).length ≤ config.size.slots
  keys :
    ∀ position < config.size.slots,
      world.1.key ((world.2.head + position) % config.size.slots) =
        (contents world.1.events)[position]?.getD config.emptyKey
  nonEmpty :
    ∀ key ∈ contents world.1.events, key ≠ config.emptyKey
  legal : Legal config world.1.events

/-- What one step of a thread guarantees to the others. -/
structure Guarantee
    (thread : T)
    (world after : State K T × Ghost T) : Prop where
  tail :
    ∀ other,
      other ≠ thread →
      claimOf other after.2.tailHolder = claimOf other world.2.tailHolder ∧
        (claimOf other world.2.tailHolder ≠ none →
          after.2.tailIndex = world.2.tailIndex ∧
            (contents after.1.events).length ≤
              (contents world.1.events).length)
  head :
    ∀ other,
      other ≠ thread →
      claimOf other after.2.headHolder = claimOf other world.2.headHolder ∧
        (claimOf other world.2.headHolder ≠ none →
          after.2.headIndex = world.2.headIndex ∧
            contents world.1.events <+: contents after.1.events)
  calls :
    ∀ other,
      other ≠ thread →
      inCall other after.1.events = inCall other world.1.events

/-- The protocol of the queue. -/
def protocol
    (config : Config K) :
    Protocol (State K T) (Ghost T) T where
  Inv := Invariant config
  Guar := Guarantee
  guar_refl _ _ :=
    { tail := fun _ _ => ⟨rfl, fun _ => ⟨rfl, Nat.le_refl _⟩⟩
      head := fun _ _ => ⟨rfl, fun _ => ⟨rfl, List.prefix_rfl⟩⟩
      calls := fun _ _ => rfl }

end Protocol

variable {config : Config K} {thread : T}
  {state : State K T} {ghost : Ghost T}

section Slots

/-- The slot of the next store is free unless the queue is full. -/
theorem key_at_tail
    (inv : Invariant config (state, ghost)) :
    state.key (ghost.tail % config.size.slots) = config.emptyKey ↔
      (contents state.events).length < config.size.slots := by
  have filled : ghost.tail = _ := inv.filled
  have bounded : (contents state.events).length ≤ _ := inv.bounded
  have positive := config.size.slots_pos
  simp only at filled
  constructor
  · intro free
    by_contra full
    have whole : (contents state.events).length = config.size.slots := by
      omega
    have first := inv.keys 0 positive
    rw [filled, whole, Nat.add_mod_right] at free
    simp only [Nat.add_zero] at first
    rw [free] at first
    have member : (contents state.events)[0] ∈ contents state.events :=
      List.getElem_mem (by omega)
    rw [List.getElem?_eq_getElem (by omega)] at first
    exact inv.nonEmpty _ member first.symm
  · intro room
    have next := inv.keys _ room
    simp only at next
    rw [filled, next, List.getElem?_eq_none (Nat.le_refl _)]
    rfl

/-- The slot of the next clear holds the oldest element. -/
theorem key_at_head
    (inv : Invariant config (state, ghost)) :
    state.key (ghost.head % config.size.slots) =
      (contents state.events).head?.getD config.emptyKey := by
  have first := inv.keys 0 config.size.slots_pos
  simp only [Nat.add_zero] at first
  rw [first, List.head?_eq_getElem?]

/-- The slot of the next clear is free only if the queue is empty. -/
theorem nothing_at_head
    (inv : Invariant config (state, ghost)) :
    state.key (ghost.head % config.size.slots) = config.emptyKey ↔
      contents state.events = [] := by
  rw [key_at_head inv]
  cases shape : contents state.events with
  | nil =>
      simp
  | cons key rest =>
      have member : key ∈ contents state.events := by
        rw [shape]
        exact List.mem_cons_self
      simpa using inv.nonEmpty key member

end Slots

section Steps

omit [DecidableEq K] in
/-- An event of another thread leaves a call alone. -/
theorem inCall_other
    {event : Event K T}
    {other : T}
    (events : List (Event K T))
    (belongs : event.thread = thread)
    (different : other ≠ thread) :
    inCall other (event :: events) = inCall other events := by
  simp [inCall, belongs, Ne.symm different]

omit [DecidableEq K] in
/-- The own event of a thread is added to its call. -/
theorem inCall_own
    {event : Event K T}
    {events calls : List (Event K T)}
    (belongs : event.thread = thread)
    (noCall : event.isCall = false)
    (earlier : inCall thread events = calls) :
    inCall thread (event :: events) = event :: calls := by
  simp [inCall, belongs, noCall, earlier]

/-- Recording what leaves the queue alone. -/
theorem note_keeps
    (event : Event K T)
    (inv : Invariant config (state, ghost))
    (belongs : event.thread = thread)
    (same : contents (event :: state.events) = contents state.events)
    (allowed : EventOk config state.events event) :
    Invariant config (state.record event, ghost) ∧
      Guarantee thread (state, ghost) (state.record event, ghost) := by
  refine ⟨?_, ?_⟩
  · exact
      { inv with
        filled := by
          simp only [State.record, same]
          exact inv.filled
        bounded := by
          simp only [State.record, same]
          exact inv.bounded
        keys := by
          simp only [State.record, same]
          exact inv.keys
        nonEmpty := by
          simp only [State.record, same]
          exact inv.nonEmpty
        legal := ⟨allowed, inv.legal⟩ }
  · exact
      { tail := fun _ _ => ⟨rfl, fun _ => ⟨rfl, by
          simp only [State.record, same, Nat.le_refl]⟩⟩
        head := fun _ _ => ⟨rfl, fun _ => ⟨rfl, by
          simp only [State.record, same, List.prefix_rfl]⟩⟩
        calls := fun _ different => inCall_other _ belongs different }

/-- The store of a key in the free slot at the tail. -/
theorem store_keeps
    {key : K}
    (inv : Invariant config (state, ghost))
    (mine : ghost.tailHolder = some (thread, false))
    (room : (contents state.events).length < config.size.slots)
    (real : key ≠ config.emptyKey) :
    let slot := ghost.tailIndex % config.size.slots
    let after : State K T :=
      ({ state with key := Function.update state.key slot key } :
        State K T).record (.stored thread key)
    let stored := { ghost with tailHolder := some (thread, true) }
    Invariant config (after, stored) ∧
      Guarantee thread (state, ghost) (after, stored) := by
  intro slot after stored
  have tail : ghost.tail = ghost.tailIndex := by
    simp [Ghost.tail, mine, advancing]
  have filled :
      ghost.tail = ghost.head + (contents state.events).length :=
    inv.filled
  have grown : contents after.events = contents state.events ++ [key] := rfl
  have next : stored.tail = ghost.tail + 1 := by
    simp [stored, Ghost.tail, mine, advancing]
  have still : stored.head = ghost.head := rfl
  refine ⟨?_, ?_⟩
  · exact
      { inv with
        tailLocked := by
          have locked := inv.tailLocked
          simp only [mine, Option.isSome_some] at locked
          exact locked
        filled := by
          simp only [next, still, grown, List.length_append,
            List.length_singleton]
          omega
        bounded := by
          simp only [grown, List.length_append, List.length_singleton]
          omega
        keys := fun position inRange => by
          simp only [grown, still]
          by_cases last : position = (contents state.events).length
          · have place :
                (ghost.head + position) % config.size.slots = slot := by
              simp only [slot, ← tail, filled, last]
            rw [place]
            simp [after, State.record, last]
          · have different :
                (ghost.head + position) % config.size.slots ≠ slot := by
              simp only [slot, ← tail, filled]
              intro same
              rcases Nat.lt_or_ge position
                (contents state.events).length with below | above
              · have := eq_of_mod_eq (by omega) (by omega) same
                omega
              · have := eq_of_mod_eq (by omega) (by omega) same.symm
                omega
            have before := inv.keys position inRange
            simp only at before
            simp only [after, State.record,
              Function.update_of_ne different]
            rw [before]
            rcases Nat.lt_or_ge position
              (contents state.events).length with below | above
            · rw [List.getElem?_append_left below]
            · rw [List.getElem?_eq_none above,
                List.getElem?_eq_none (by simp; omega)]
        nonEmpty := fun other member => by
          simp only [grown, List.mem_append, List.mem_singleton] at member
          rcases member with earlier | rfl
          · exact inv.nonEmpty other earlier
          · exact real
        legal := ⟨room, inv.legal⟩ }
  · exact
      { tail := fun other different => by
          have nobody := claimOf_other false different
          have stillNobody := claimOf_other true different
          exact ⟨by simp only [stored, mine, nobody, stillNobody],
            fun held => absurd (by rw [mine]; exact nobody) held⟩
        head := fun _ _ => ⟨rfl, fun _ => ⟨rfl, by
          rw [grown]
          exact List.prefix_append _ _⟩⟩
        calls := fun _ different => inCall_other _ rfl different }

/-- The clear of the key of the oldest element. -/
theorem clear_keeps
    {key : K}
    (inv : Invariant config (state, ghost))
    (mine : ghost.headHolder = some (thread, false))
    (front : (contents state.events).head? = some key) :
    let slot := ghost.headIndex % config.size.slots
    let after : State K T :=
      ({ state with
          key := Function.update state.key slot config.emptyKey } :
        State K T).record (.cleared thread key)
    let cleared := { ghost with headHolder := some (thread, true) }
    Invariant config (after, cleared) ∧
      Guarantee thread (state, ghost) (after, cleared) := by
  intro slot after cleared
  have head : ghost.head = ghost.headIndex := by
    simp [Ghost.head, mine, advancing]
  have filled :
      ghost.tail = ghost.head + (contents state.events).length :=
    inv.filled
  have bounded : (contents state.events).length ≤ _ := inv.bounded
  obtain ⟨rest, shape⟩ := List.head?_eq_some_iff.mp front
  have shrunk : contents after.events = rest := by
    simp [after, State.record, contents, shape]
  have length : (contents state.events).length = rest.length + 1 := by
    rw [shape]
    rfl
  have next : cleared.head = ghost.head + 1 := by
    simp [cleared, Ghost.head, mine, advancing]
  have still : cleared.tail = ghost.tail := rfl
  refine ⟨?_, ?_⟩
  · exact
      { inv with
        headLocked := by
          have locked := inv.headLocked
          simp only [mine, Option.isSome_some] at locked
          exact locked
        filled := by
          simp only [next, still, shrunk]
          omega
        bounded := by
          simp only [shrunk]
          omega
        keys := fun position inRange => by
          simp only [shrunk, next]
          by_cases lap : position + 1 = config.size.slots
          · have place :
                (ghost.head + 1 + position) % config.size.slots = slot := by
              have same : ghost.head + 1 + position =
                  ghost.head + config.size.slots := by omega
              rw [same, Nat.add_mod_right, head]
            have beyond : rest.length ≤ position := by omega
            simp [after, State.record, place,
              List.getElem?_eq_none beyond]
          · have different :
                (ghost.head + 1 + position) % config.size.slots ≠ slot := by
              simp only [slot, ← head]
              intro same
              have := eq_of_mod_eq (by omega) (by omega) same.symm
              omega
            have before := inv.keys (position + 1) (by omega)
            simp only [shape, List.getElem?_cons_succ] at before
            simp only [after, State.record,
              Function.update_of_ne different]
            rw [← before]
            congr 2
            omega
        nonEmpty := fun other member => by
          simp only [shrunk] at member
          exact inv.nonEmpty other (by
            simp only [shape]
            exact List.mem_cons_of_mem _ member)
        legal := ⟨front, inv.legal⟩ }
  · exact
      { tail := fun _ _ => ⟨rfl, fun _ => ⟨rfl, by
          simp only [shrunk]
          omega⟩⟩
        head := fun other different => by
          have nobody := claimOf_other false different
          have stillNobody := claimOf_other true different
          exact ⟨by simp only [cleared, mine, nobody, stillNobody],
            fun held => absurd (by rw [mine]; exact nobody) held⟩
        calls := fun _ different => inCall_other _ rfl different }

/-- A step on the lock words only. -/
theorem rehold_keeps
    {after : State K T}
    {held : Ghost T}
    (inv : Invariant config (state, ghost))
    (sameKey : after.key = state.key)
    (sameEvents : after.events = state.events)
    (tail : held.tail = ghost.tail)
    (head : held.head = ghost.head)
    (tailLocked : after.tailLock = held.tailHolder.isSome)
    (headLocked : after.headLock = held.headHolder.isSome)
    (tailWord : after.tail = BitVec.ofNat 64 held.tailIndex)
    (headWord : after.head = BitVec.ofNat 64 held.headIndex) :
    Invariant config (after, held) where
  tailLocked := tailLocked
  headLocked := headLocked
  tailWord := tailWord
  headWord := headWord
  filled := by
    simp only [tail, head, sameEvents]
    exact inv.filled
  bounded := by
    simp only [sameEvents]
    exact inv.bounded
  keys := by
    simp only [head, sameKey, sameEvents]
    exact inv.keys
  nonEmpty := by
    simp only [sameEvents]
    exact inv.nonEmpty
  legal := by
    simp only [sameEvents]
    exact inv.legal

omit [DecidableEq K] in
/-- The thread moves its own end of the queue. -/
theorem rehold_guarantee
    {after : State K T}
    {held : Ghost T}
    (sameEvents : after.events = state.events)
    (tail :
      OwnHands thread ghost.tailHolder held.tailHolder ∨
        held.tailHolder = ghost.tailHolder ∧
          held.tailIndex = ghost.tailIndex)
    (head :
      OwnHands thread ghost.headHolder held.headHolder ∨
        held.headHolder = ghost.headHolder ∧
          held.headIndex = ghost.headIndex) :
    Guarantee thread (state, ghost) (after, held) where
  tail other different := by
    simp only [sameEvents]
    rcases tail with own | ⟨holder, index⟩
    · obtain ⟨before, later⟩ := own other different
      exact ⟨later.trans before.symm, fun held => absurd before held⟩
    · exact ⟨by rw [holder], fun _ => ⟨index, Nat.le_refl _⟩⟩
  head other different := by
    simp only [sameEvents]
    rcases head with own | ⟨holder, index⟩
    · obtain ⟨before, later⟩ := own other different
      exact ⟨later.trans before.symm, fun held => absurd before held⟩
    · exact ⟨by rw [holder], fun _ => ⟨index, List.prefix_rfl⟩⟩
  calls _ _ := by
    simp only [sameEvents]

end Steps

section Assertions

/-- What a thread has in its hands and has done in its call. -/
structure Mine (K T : Type) where
  tail : Option (Bool × Nat)
  head : Option (Bool × Nat)
  calls : List (Event K T)

/-- The world agrees with what the thread has in its hands. -/
structure Holds
    (thread : T)
    (mine : Mine K T)
    (world : State K T × Ghost T) : Prop where
  tail :
    claimOf thread world.2.tailHolder = mine.tail.map Prod.fst ∧
      ∀ claim ∈ mine.tail, world.2.tailIndex = claim.2
  head :
    claimOf thread world.2.headHolder = mine.head.map Prod.fst ∧
      ∀ claim ∈ mine.head, world.2.headIndex = claim.2
  calls : inCall thread world.1.events = mine.calls

/-- The thread has this in its hands. -/
def holding
    (mine : Mine K T) :
    Assertion (protocol config) thread where
  holds := Holds thread mine
  stable {other world after} different _ _ guarantee known := by
    have tail := guarantee.tail thread (Ne.symm different)
    have head := guarantee.head thread (Ne.symm different)
    refine
      { tail := ⟨tail.1.trans known.tail.1, fun claim member => ?_⟩
        head := ⟨head.1.trans known.head.1, fun claim member => ?_⟩
        calls :=
          (guarantee.calls thread (Ne.symm different)).trans known.calls }
    · refine (tail.2 ?_).1.trans (known.tail.2 claim member)
      rw [known.tail.1, Option.mem_def.mp member]
      simp
    · refine (head.2 ?_).1.trans (known.head.2 claim member)
      rw [known.head.1, Option.mem_def.mp member]
      simp

variable {mine : Mine K T}

omit [DecidableEq K] in
theorem Holds.tailHolder
    {claimed : Bool}
    {index : Nat}
    (known : Holds thread mine (state, ghost))
    (held : mine.tail = some (claimed, index)) :
    ghost.tailHolder = some (thread, claimed) ∧
      ghost.tailIndex = index := by
  have claim := known.tail.1
  rw [held] at claim
  exact ⟨holder_of_claim claim, known.tail.2 _ (by rw [held]; rfl)⟩

omit [DecidableEq K] in
theorem Holds.headHolder
    {claimed : Bool}
    {index : Nat}
    (known : Holds thread mine (state, ghost))
    (held : mine.head = some (claimed, index)) :
    ghost.headHolder = some (thread, claimed) ∧
      ghost.headIndex = index := by
  have claim := known.head.1
  rw [held] at claim
  exact ⟨holder_of_claim claim, known.head.2 _ (by rw [held]; rfl)⟩

/-- The producer that holds the tail lock has seen room. -/
def sawRoom
    (index : Nat)
    (calls : List (Event K T)) :
    Assertion (protocol config) thread where
  holds world :=
    Holds thread ⟨some (false, index), none, calls⟩ world ∧
      (contents world.1.events).length < config.size.slots
  stable {other world after} different inv invAfter guarantee known := by
    refine ⟨(holding ⟨some (false, index), none, calls⟩ :
      Assertion (protocol config) thread).stable different inv invAfter
        guarantee known.1, ?_⟩
    have tail := guarantee.tail thread (Ne.symm different)
    have shorter := (tail.2 (by rw [known.1.tail.1]; simp)).2
    exact Nat.lt_of_le_of_lt shorter known.2

/-- The consumer that holds the head lock has seen the oldest key. -/
def sawFront
    (index : Nat)
    (key : K)
    (calls : List (Event K T)) :
    Assertion (protocol config) thread where
  holds world :=
    Holds thread ⟨none, some (false, index), calls⟩ world ∧
      (contents world.1.events).head? = some key
  stable {other world after} different inv invAfter guarantee known := by
    refine ⟨(holding ⟨none, some (false, index), calls⟩ :
      Assertion (protocol config) thread).stable different inv invAfter
        guarantee known.1, ?_⟩
    have head := guarantee.head thread (Ne.symm different)
    obtain ⟨more, longer⟩ := (head.2 (by rw [known.1.head.1]; simp)).2
    rw [← longer, List.head?_append, known.2]
    rfl

end Assertions

section Locks

variable {calls : List (Event K T)} {index : Nat}

theorem lockTail_triple :
    Triple (protocol config) thread
      (holding ⟨none, none, calls⟩)
      (tailSpin.lock id : Program K T Unit)
      fun _ => Assertion.any fun index : Nat =>
        holding ⟨some (false, index), none, calls⟩ := by
  apply SpinLock.lock_triple
  apply SpinLock.attempt_triple
  apply SpinLock.exchange_triple
  · intro state held
    exact congrArg (fun tailLock => { state with tailLock }) held.symm
  · rintro ⟨state, ghost⟩ inv known free
    have nobody : ghost.tailHolder = none :=
      holder_none inv.tailLocked free
    refine ⟨{ ghost with tailHolder := some (thread, false) }, ?_, ?_,
      ghost.tailIndex, ?_⟩
    · exact rehold_keeps inv rfl rfl
        (by simp [Ghost.tail, nobody, advancing]) rfl rfl inv.headLocked
        inv.tailWord inv.headWord
    · exact rehold_guarantee rfl
        (.inl (ownHands (.inl nobody) (.inr ⟨false, rfl⟩)))
        (.inr ⟨rfl, rfl⟩)
    · exact
        { known with
          tail := ⟨by simp [claimOf], fun claim member => by
            cases member
            rfl⟩ }

theorem unlockTail_triple :
    Triple (protocol config) thread
      (holding ⟨some (false, index), none, calls⟩)
      (tailSpin.unlock id : Program K T Unit)
      fun _ => holding ⟨none, none, calls⟩ := by
  apply Triple.atomic
  rintro ⟨state, ghost⟩ choice value shared inv known ran
  cases ran
  obtain ⟨mine, _⟩ := known.tailHolder rfl
  refine ⟨{ ghost with tailHolder := none }, ?_, ?_, ?_⟩
  · exact rehold_keeps inv rfl rfl
      (by simp [Ghost.tail, mine, advancing]) rfl rfl inv.headLocked
      inv.tailWord inv.headWord
  · exact rehold_guarantee rfl
      (.inl (ownHands (.inr ⟨false, mine⟩) (.inl rfl))) (.inr ⟨rfl, rfl⟩)
  · exact { known with tail := ⟨rfl, fun _ member => by cases member⟩ }

theorem advanceTail_triple :
    Triple (protocol config) thread
      (holding ⟨some (true, index), none, calls⟩)
      (advanceTail : Program K T Unit)
      fun _ => holding ⟨some (false, index + 1), none, calls⟩ := by
  apply Triple.atomic
  rintro ⟨state, ghost⟩ choice value shared inv known ran
  cases ran
  obtain ⟨mine, rfl⟩ := known.tailHolder rfl
  have locked : state.tailLock = true := by
    have held := inv.tailLocked
    simp only [mine, Option.isSome_some] at held
    exact held
  have word : state.tail = BitVec.ofNat 64 ghost.tailIndex := inv.tailWord
  refine ⟨{ ghost with
    tailIndex := ghost.tailIndex + 1
    tailHolder := some (thread, false) }, ?_, ?_, ?_⟩
  · exact rehold_keeps inv rfl rfl
      (by simp [Ghost.tail, mine, advancing]) rfl locked inv.headLocked
      (by simp [word, BitVec.ofNat_add]) inv.headWord
  · exact rehold_guarantee rfl
      (.inl (ownHands (.inr ⟨true, mine⟩) (.inr ⟨false, rfl⟩)))
      (.inr ⟨rfl, rfl⟩)
  · exact
      { known with
        tail := ⟨by simp [claimOf], fun claim member => by
          cases member
          rfl⟩ }

theorem lockHead_triple :
    Triple (protocol config) thread
      (holding ⟨none, none, calls⟩)
      (headSpin.lock id : Program K T Unit)
      fun _ => Assertion.any fun index : Nat =>
        holding ⟨none, some (false, index), calls⟩ := by
  apply SpinLock.lock_triple
  apply SpinLock.attempt_triple
  apply SpinLock.exchange_triple
  · intro state held
    exact congrArg (fun headLock => { state with headLock }) held.symm
  · rintro ⟨state, ghost⟩ inv known free
    have nobody : ghost.headHolder = none :=
      holder_none inv.headLocked free
    refine ⟨{ ghost with headHolder := some (thread, false) }, ?_, ?_,
      ghost.headIndex, ?_⟩
    · exact rehold_keeps inv rfl rfl rfl
        (by simp [Ghost.head, nobody, advancing]) inv.tailLocked rfl
        inv.tailWord inv.headWord
    · exact rehold_guarantee rfl (.inr ⟨rfl, rfl⟩)
        (.inl (ownHands (.inl nobody) (.inr ⟨false, rfl⟩)))
    · exact
        { known with
          head := ⟨by simp [claimOf], fun claim member => by
            cases member
            rfl⟩ }

theorem unlockHead_triple :
    Triple (protocol config) thread
      (holding ⟨none, some (false, index), calls⟩)
      (headSpin.unlock id : Program K T Unit)
      fun _ => holding ⟨none, none, calls⟩ := by
  apply Triple.atomic
  rintro ⟨state, ghost⟩ choice value shared inv known ran
  cases ran
  obtain ⟨mine, _⟩ := known.headHolder rfl
  refine ⟨{ ghost with headHolder := none }, ?_, ?_, ?_⟩
  · exact rehold_keeps inv rfl rfl rfl
      (by simp [Ghost.head, mine, advancing]) inv.tailLocked rfl
      inv.tailWord inv.headWord
  · exact rehold_guarantee rfl (.inr ⟨rfl, rfl⟩)
      (.inl (ownHands (.inr ⟨false, mine⟩) (.inl rfl)))
  · exact { known with head := ⟨rfl, fun _ member => by cases member⟩ }

theorem advanceHead_triple :
    Triple (protocol config) thread
      (holding ⟨none, some (true, index), calls⟩)
      (advanceHead : Program K T Unit)
      fun _ => holding ⟨none, some (false, index + 1), calls⟩ := by
  apply Triple.atomic
  rintro ⟨state, ghost⟩ choice value shared inv known ran
  cases ran
  obtain ⟨mine, rfl⟩ := known.headHolder rfl
  have locked : state.headLock = true := by
    have held := inv.headLocked
    simp only [mine, Option.isSome_some] at held
    exact held
  have word : state.head = BitVec.ofNat 64 ghost.headIndex := inv.headWord
  refine ⟨{ ghost with
    headIndex := ghost.headIndex + 1
    headHolder := some (thread, false) }, ?_, ?_, ?_⟩
  · exact rehold_keeps inv rfl rfl rfl
      (by simp [Ghost.head, mine, advancing]) inv.tailLocked locked
      inv.tailWord (by simp [word, BitVec.ofNat_add])
  · exact rehold_guarantee rfl (.inr ⟨rfl, rfl⟩)
      (.inl (ownHands (.inr ⟨true, mine⟩) (.inr ⟨false, rfl⟩)))
  · exact
      { known with
        head := ⟨by simp [claimOf], fun claim member => by
          cases member
          rfl⟩ }

theorem readTail_triple :
    Triple (protocol config) thread
      (holding ⟨some (false, index), none, calls⟩)
      (Prog.read State.tail : Program K T (BitVec 64))
      fun word =>
        (Assertion.pure (word = BitVec.ofNat 64 index)).and
          (holding ⟨some (false, index), none, calls⟩) := by
  apply Triple.read
  rintro ⟨state, ghost⟩ inv known
  refine ⟨inv.tailWord.trans ?_, known⟩
  rw [(known.tailHolder rfl).2]

theorem readHead_triple :
    Triple (protocol config) thread
      (holding ⟨none, some (false, index), calls⟩)
      (Prog.read State.head : Program K T (BitVec 64))
      fun word =>
        (Assertion.pure (word = BitVec.ofNat 64 index)).and
          (holding ⟨none, some (false, index), calls⟩) := by
  apply Triple.read
  rintro ⟨state, ghost⟩ inv known
  refine ⟨inv.headWord.trans ?_, known⟩
  rw [(known.headHolder rfl).2]

end Locks

section Calls

variable {calls : List (Event K T)} {index : Nat} {key : K}

/-- The load of a push finds room, or the queue is full at that instant. -/
theorem loadToPush_triple :
    Triple (protocol config) thread
      (holding ⟨some (false, index), none, calls⟩)
      (loadToPush config thread (index % config.size.slots))
      fun free =>
        if free then
          sawRoom index calls
        else
          holding ⟨some (false, index), none,
            .sawFull thread :: calls⟩ := by
  apply Triple.atomic
  rintro ⟨state, ghost⟩ choice free shared inv known ran
  obtain ⟨mine, rfl⟩ := known.tailHolder rfl
  have tail : ghost.tail = ghost.tailIndex := by
    simp [Ghost.tail, mine, advancing]
  have decides := key_at_tail inv
  have bounded : (contents state.events).length ≤ _ := inv.bounded
  rw [tail] at decides
  by_cases found :
      state.key (ghost.tailIndex % config.size.slots) = config.emptyKey
  · simp only [found, ↓reduceIte, Option.some.injEq, Prod.mk.injEq] at ran
    obtain ⟨rfl, rfl⟩ := ran
    exact ⟨ghost, inv, (protocol config).guar_refl thread _, known,
      decides.mp found⟩
  · simp only [found, ↓reduceIte, Option.some.injEq, Prod.mk.injEq] at ran
    obtain ⟨rfl, rfl⟩ := ran
    have full : (contents state.events).length = config.size.slots := by
      have noRoom := mt decides.mpr found
      omega
    have keeps := note_keeps (.sawFull thread) inv rfl rfl full
    refine ⟨ghost, keeps.1, keeps.2, ?_⟩
    exact { known with calls := inCall_own rfl rfl known.calls }

/-- The key store of a push. -/
theorem storeKey_triple
    (real : key ≠ config.emptyKey) :
    Triple (protocol config) thread
      (sawRoom index calls)
      (storeKey thread (index % config.size.slots) key)
      fun _ =>
        holding ⟨some (true, index), none,
          .stored thread key :: calls⟩ := by
  apply Triple.atomic
  rintro ⟨state, ghost⟩ choice value shared inv ⟨known, room⟩ ran
  cases ran
  obtain ⟨mine, rfl⟩ := known.tailHolder rfl
  have keeps := store_keeps inv mine room real
  refine ⟨_, keeps.1, keeps.2, ?_⟩
  exact
    { tail := ⟨by simp [claimOf], fun claim member => by
        cases member
        rfl⟩
      head := known.head
      calls := inCall_own rfl rfl known.calls }

/-- What the loads and the store of a push have recorded. -/
def PushDone
    (thread : T)
    (key : K)
    (tries : Nat)
    (result : Bool)
    (before after : List (Event K T)) : Prop :=
  if result then
    ∃ failed,
      after =
        .stored thread key ::
          (List.replicate failed (.sawFull thread) ++ before)
  else
    after = List.replicate tries (.sawFull thread) ++ before

theorem tryStore_triple
    (real : key ≠ config.emptyKey)
    (tries : Nat) :
    Triple (protocol config) thread
      (holding ⟨some (false, index), none, calls⟩)
      (tryStore config thread (index % config.size.slots) key tries)
      fun result =>
        Assertion.any fun done : { done : List (Event K T) × Nat //
            PushDone thread key tries result calls done.1 } =>
          holding ⟨some (false, done.1.2), none, done.1.1⟩ := by
  induction tries generalizing calls with
  | zero =>
      exact Triple.pure fun _ _ known => ⟨⟨(calls, index), rfl⟩, known⟩
  | succ tries inductionHypothesis =>
      refine Triple.bind loadToPush_triple fun free => ?_
      cases free with
      | true =>
          refine Triple.bind (storeKey_triple real) fun _ => ?_
          refine Triple.bind advanceTail_triple fun _ => ?_
          exact Triple.pure fun _ _ known =>
            ⟨⟨(_, _), 0, rfl⟩, known⟩
      | false =>
          refine inductionHypothesis.consequence ?_
          rintro result world _ ⟨⟨⟨done, next⟩, shape⟩, known⟩
          refine ⟨⟨(done, next), ?_⟩, known⟩
          cases result with
          | true =>
              obtain ⟨failed, same⟩ := shape
              refine ⟨failed + 1, same.trans ?_⟩
              simp [List.replicate_succ']
          | false =>
              refine Eq.trans shape ?_
              simp [List.replicate_succ']

/-- `push(key)`. -/
theorem push_triple
    (real : key ≠ config.emptyKey) :
    Triple (protocol config) thread
      (holding ⟨none, none, [.pushCalled thread key]⟩)
      (push config thread key)
      fun result =>
        Assertion.any fun done : { done : List (Event K T) //
            PushDone thread key config.nTry result
              [.pushCalled thread key] done } =>
          holding ⟨none, none, done.1⟩ := by
  refine Triple.bind lockTail_triple fun _ => Triple.any fun index => ?_
  refine Triple.bind readTail_triple fun word => Triple.given ?_
  rintro rfl
  rw [RingSize.slotOf_ofNat]
  refine Triple.bind (tryStore_triple real config.nTry) fun result =>
    Triple.any ?_
  rintro ⟨⟨done, next⟩, shape⟩
  refine Triple.bind unlockTail_triple fun _ => ?_
  exact Triple.pure fun _ _ known => ⟨⟨done, shape⟩, known⟩

/-- The load of a pop finds the oldest key, or the queue is empty then. -/
theorem loadToPop_triple :
    Triple (protocol config) thread
      (holding ⟨none, some (false, index), calls⟩)
      (loadToPop config thread (index % config.size.slots))
      fun key =>
        if key = config.emptyKey then
          holding ⟨none, some (false, index), .sawNothing thread :: calls⟩
        else
          sawFront index key calls := by
  apply Triple.atomic
  rintro ⟨state, ghost⟩ choice key shared inv known ran
  obtain ⟨mine, rfl⟩ := known.headHolder rfl
  have head : ghost.head = ghost.headIndex := by
    simp [Ghost.head, mine, advancing]
  have nothing := nothing_at_head inv
  have front := key_at_head inv
  rw [head] at nothing front
  by_cases found :
      state.key (ghost.headIndex % config.size.slots) = config.emptyKey
  · simp only [found, ↓reduceIte, Option.some.injEq, Prod.mk.injEq] at ran
    obtain ⟨rfl, rfl⟩ := ran
    have keeps := note_keeps (.sawNothing thread) inv rfl rfl
      (nothing.mp found)
    rw [if_pos rfl]
    refine ⟨ghost, keeps.1, keeps.2, ?_⟩
    exact { known with calls := inCall_own rfl rfl known.calls }
  · simp only [found, ↓reduceIte, Option.some.injEq, Prod.mk.injEq] at ran
    obtain ⟨rfl, rfl⟩ := ran
    rw [if_neg found]
    refine ⟨ghost, inv, (protocol config).guar_refl thread _, known, ?_⟩
    cases shape : contents state.events with
    | nil =>
        exact absurd (nothing.mpr shape) found
    | cons oldest rest =>
        rw [shape] at front
        rw [front]
        rfl

/-- The key clear of a pop. -/
theorem clearKey_triple :
    Triple (protocol config) thread
      (sawFront index key calls)
      (clearKey config thread (index % config.size.slots) key)
      fun _ =>
        holding ⟨none, some (true, index),
          .cleared thread key :: calls⟩ := by
  apply Triple.atomic
  rintro ⟨state, ghost⟩ choice value shared inv ⟨known, front⟩ ran
  cases ran
  obtain ⟨mine, rfl⟩ := known.headHolder rfl
  have keeps := clear_keeps inv mine front
  refine ⟨_, keeps.1, keeps.2, ?_⟩
  exact
    { tail := known.tail
      head := ⟨by simp [claimOf], fun claim member => by
        cases member
        rfl⟩
      calls := inCall_own rfl rfl known.calls }

/-- `pop()`. -/
theorem pop_triple :
    Triple (protocol config) thread
      (holding ⟨none, none, [.popCalled thread]⟩)
      (pop config thread)
      fun key =>
        if key = config.emptyKey then
          holding ⟨none, none, [.sawNothing thread, .popCalled thread]⟩
        else
          holding ⟨none, none, [.cleared thread key, .popCalled thread]⟩ := by
  refine Triple.bind lockHead_triple fun _ => Triple.any fun index => ?_
  refine Triple.bind readHead_triple fun word => Triple.given ?_
  rintro rfl
  rw [RingSize.slotOf_ofNat]
  refine Triple.bind loadToPop_triple fun key => ?_
  by_cases nothing : key = config.emptyKey
  · simp only [nothing, ↓reduceIte]
    refine Triple.bind unlockHead_triple fun _ => ?_
    exact Triple.pure fun _ _ known => by
      rw [if_pos rfl]
      exact known
  · simp only [nothing, ↓reduceIte]
    refine Triple.bind clearKey_triple fun _ => ?_
    refine Triple.bind advanceHead_triple fun _ => ?_
    refine Triple.bind unlockHead_triple fun _ => ?_
    exact Triple.pure fun _ _ known => by
      rw [if_neg nothing]
      exact known

/-- `empty()`. -/
theorem empty_triple :
    Triple (protocol config) thread
      (holding ⟨none, none, [.emptyCalled thread]⟩)
      (empty config thread : Program K T Bool)
      fun result =>
        holding ⟨none, none,
          [.looked thread result, .emptyCalled thread]⟩ := by
  refine Triple.bind lockHead_triple fun _ => Triple.any fun index => ?_
  refine Triple.bind readHead_triple fun word => Triple.given ?_
  rintro rfl
  rw [RingSize.slotOf_ofNat]
  have looked :
      Triple (protocol config) thread
        (holding ⟨none, some (false, index), [.emptyCalled thread]⟩)
        (loadToLook config thread (index % config.size.slots))
        fun result =>
          holding ⟨none, some (false, index),
            [.looked thread result, .emptyCalled thread]⟩ := by
    apply Triple.atomic
    rintro ⟨state, ghost⟩ choice result shared inv known ran
    cases ran
    obtain ⟨mine, rfl⟩ := known.headHolder rfl
    have head : ghost.head = ghost.headIndex := by
      simp [Ghost.head, mine, advancing]
    have nothing := nothing_at_head inv
    rw [head] at nothing
    have answer :
        decide (state.key (ghost.headIndex % config.size.slots) =
          config.emptyKey) = (contents state.events).isEmpty := by
      rw [Bool.eq_iff_iff, decide_eq_true_iff, nothing,
        List.isEmpty_iff]
    have keeps := note_keeps (.looked thread _) inv rfl rfl answer
    refine ⟨ghost, keeps.1, keeps.2, ?_⟩
    exact { known with calls := inCall_own rfl rfl known.calls }
  refine Triple.bind looked fun result => ?_
  refine Triple.bind unlockHead_triple fun _ => ?_
  exact Triple.pure fun _ _ known => known

end Calls

section Runs

/-- A thread between calls. -/
def idle
    (config : Config K)
    (thread : T) :
    Assertion (protocol config) thread :=
  Assertion.any fun calls : List (Event K T) =>
    holding ⟨none, none, calls⟩

/-- Recording the begin of a call. -/
theorem record_call
    {event : Event K T}
    {calls : List (Event K T)}
    (belongs : event.thread = thread)
    (begins : event.isCall = true)
    (same : ∀ events, contents (event :: events) = contents events)
    (allowed : ∀ events, EventOk config events event) :
    Triple (protocol config) thread
      (holding ⟨none, none, calls⟩)
      (record event)
      fun _ => holding ⟨none, none, [event]⟩ := by
  apply Triple.atomic
  rintro ⟨state, ghost⟩ choice value shared inv known ran
  cases ran
  have keeps := note_keeps event inv belongs (same _) (allowed _)
  refine ⟨ghost, keeps.1, keeps.2, ?_⟩
  exact
    { known with
      calls := by simp [State.record, inCall, belongs, begins] }

/-- Recording the end of a call. -/
theorem record_return
    {event : Event K T}
    {calls : List (Event K T)}
    (belongs : event.thread = thread)
    (noCall : event.isCall = false)
    (same : ∀ events, contents (event :: events) = contents events)
    (allowed :
      ∀ events,
        inCall thread events = calls →
        EventOk config events event) :
    Triple (protocol config) thread
      (holding ⟨none, none, calls⟩)
      (record event)
      fun _ => idle config thread := by
  apply Triple.atomic
  rintro ⟨state, ghost⟩ choice value shared inv known ran
  cases ran
  have keeps := note_keeps event inv belongs (same _) (allowed _ known.calls)
  refine ⟨ghost, keeps.1, keeps.2, event :: calls, ?_⟩
  exact { known with calls := inCall_own belongs noCall known.calls }

/-- A push is called with a key that is not `Key{}`. -/
def Sendable
    (config : Config K) :
    Call K → Prop
  | .push key => key ≠ config.emptyKey
  | _ => True

theorem pick_triple :
    Triple (protocol config) thread (idle config thread)
      (pick config : Program K T (Call K))
      fun call =>
        (Assertion.pure (Sendable config call)).and
          (idle config thread) := by
  apply Triple.atomic
  intro world choice call shared inv known ran
  have unchanged := (protocol config).guar_refl thread world
  cases choice with
  | proceed =>
      cases ran
  | call picked =>
      cases picked with
      | push key =>
          simp only at ran
          split at ran
          · cases ran
          · rename_i real
            cases ran
            exact ⟨world.2, inv, unchanged, real, known⟩
      | pop =>
          cases ran
          exact ⟨world.2, inv, unchanged, trivial, known⟩
      | empty =>
          cases ran
          exact ⟨world.2, inv, unchanged, trivial, known⟩

theorem client_triple :
    Triple (protocol config) thread (idle config thread)
      (client config thread : Program K T Unit)
      fun _ => .pure True := by
  refine Triple.loop
    (fun _ => ?_ : ∀ _ : Unit, Triple (protocol config) thread
      (idle config thread) _ _)
  refine Triple.bind pick_triple fun call =>
    Triple.given fun sendable => Triple.any fun calls => ?_
  cases call with
  | push key =>
      refine Triple.bind
        (record_call rfl rfl (fun _ => rfl) fun _ => trivial) fun _ => ?_
      refine Triple.bind (push_triple sendable) fun result =>
        Triple.any ?_
      rintro ⟨done, shape⟩
      refine Triple.bind
        (record_return rfl rfl (fun _ => rfl) fun events same => ?_)
        fun _ => ?_
      · subst same
        cases result with
        | true =>
            obtain ⟨failed, same⟩ := shape
            exact ⟨key, failed, same⟩
        | false =>
            exact ⟨key, shape⟩
      · exact Triple.ret fun _ _ known => known
  | pop =>
      refine Triple.bind
        (record_call rfl rfl (fun _ => rfl) fun _ => trivial) fun _ => ?_
      refine Triple.bind pop_triple fun key => ?_
      by_cases nothing : key = config.emptyKey
      · simp only [nothing, ↓reduceIte]
        refine Triple.bind
          (record_return rfl rfl (fun _ => rfl) fun events same => ?_)
          fun _ => ?_
        · simp only [EventOk, ↓reduceIte]
          exact same
        · exact Triple.ret fun _ _ known => known
      · simp only [nothing, ↓reduceIte]
        refine Triple.bind
          (record_return rfl rfl (fun _ => rfl) fun events same => ?_)
          fun _ => ?_
        · simp only [EventOk, nothing, ↓reduceIte]
          exact same
        · exact Triple.ret fun _ _ known => known
  | empty =>
      refine Triple.bind
        (record_call rfl rfl (fun _ => rfl) fun _ => trivial) fun _ => ?_
      refine Triple.bind empty_triple fun result => ?_
      refine Triple.bind
        (record_return rfl rfl (fun _ => rfl) fun events same => same)
        fun _ => ?_
      exact Triple.ret fun _ _ known => known

/-- Nothing is stored. -/
def Ghost.initial
    (config : Config K) :
    Ghost T where
  tailIndex := config.start.toNat
  headIndex := config.start.toNat
  tailHolder := none
  headHolder := none

/-- A queue without elements satisfies the invariant. -/
theorem initial_inv :
    Invariant config
      ((State.initial config : State K T), Ghost.initial config) where
  tailLocked := rfl
  headLocked := rfl
  tailWord := by simp [State.initial, Ghost.initial]
  headWord := by simp [State.initial, Ghost.initial]
  filled := rfl
  bounded := Nat.zero_le _
  keys _ _ := rfl
  nonEmpty _ member := by cases member
  legal := trivial

/-- Every run of clients keeps the protocol. -/
theorem covered
    (config : Config K)
    (fuel : Nat) :
    Covered (protocol config) fuel
      (initialPool config : Pool (State K T) (Choice K) T)
      (Ghost.initial config) :=
  covered_of_triples initial_inv
    (fun thread =>
      show (idle config thread).holds _ from
        ⟨[],
          { tail := ⟨rfl, fun _ member => by cases member⟩
            head := ⟨rfl, fun _ member => by cases member⟩
            calls := rfl }⟩)
    (fun _ => client_triple) fuel

/--
Every history is one of a bounded queue whose operations take effect at the
key store, the key clear and the deciding loads, and the keys come out in the
order in which they went in.
-/
theorem linearizes_to_queue
    (config : Config K)
    {pool : Pool (State K T) (Choice K) T}
    (reached : (initialPool config).Reaches pool) :
    Legal config pool.shared.events ∧
      stores pool.shared.events =
        clears pool.shared.events ++ contents pool.shared.events ∧
      (contents pool.shared.events).length ≤ config.size.slots := by
  obtain ⟨needed, runs⟩ := Covered.reaches reached
  obtain ⟨ghost, coveredPool, _⟩ := runs (covered config (0 + needed))
  have inv := coveredPool.1
  exact ⟨inv.legal, Legal.fifo inv.legal, inv.bounded⟩

/-- Eight slots whose first index is the last one before the wrap. -/
def wrapConfig : Config Nat where
  size := .eight
  nTry := 8
  emptyKey := 0
  start := BitVec.ofNat 64 (2 ^ 64 - 1)

/-- A pop overtakes a push that has not advanced the tail. -/
def overtaking : List (Bool × Choice Nat) :=
  [(false, Choice.proceed), (false, .call (.push 7))] ++
    List.replicate 7 (false, Choice.proceed) ++
    [(true, Choice.proceed), (true, .call .pop)] ++
    List.replicate 10 (true, Choice.proceed)

/-- The head has wrapped while the tail has not moved. -/
theorem linearizes_to_queue_overtaken :
    ∃ pool : Pool (State Nat Bool) (Choice Nat) Bool,
      (initialPool wrapConfig).run overtaking = some pool ∧
        pool.shared.head = 0 ∧
        pool.shared.tail = BitVec.ofNat 64 (2 ^ 64 - 1) ∧
        clears pool.shared.events = [7] ∧
        Legal wrapConfig pool.shared.events := by
  obtain ⟨pool, ran⟩ :
      ∃ pool : Pool (State Nat Bool) (Choice Nat) Bool,
        (initialPool wrapConfig).run overtaking = some pool :=
    ⟨_, rfl⟩
  refine ⟨pool, ran, ?_, ?_, ?_,
    (linearizes_to_queue wrapConfig ⟨_, ran⟩).1⟩
  · cases ran
    rfl
  · cases ran
    rfl
  · cases ran
    rfl

end Runs

end ConcurrentCpp.RingKeyQueue
