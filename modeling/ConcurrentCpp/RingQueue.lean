import ConcurrentCpp.RingIndex
import ConcurrentCpp.SpinLock

namespace ConcurrentCpp.RingQueue

/-!
# The key-value ring queue

`RingAtomicMapQueueMPMC<Key, Value>`.  Producers and consumers claim a slot
under the tail and the head lock and do the work on the value outside of them;
the sequence number of the slot tells each side whose turn it is.

A value lives in raw storage: it is under construction, built, moved from and
destroyed again.  The history records every claim, every access to a key or a
value and the final store of every owner.  No step reads it.
-/

variable {K V T : Type}

/-- The parameters of a queue; the constructor starts the indices at 0. -/
structure Config (K : Type) where
  size : RingSize
  nTry : Nat
  emptyKey : K
  start : BitVec 64

/-- The storage of a value. -/
inductive Life (V : Type) where
  | raw
  | building
  | built (value : V)
  | husk
  deriving DecidableEq

/-- What happened; a claim is the load that found the slot ready. -/
inductive Event (K V T : Type) where
  | pushCalled (thread : T) (key : K) (value : V)
  | pushClaimed
      (thread : T)
      (slot : Nat)
      (index : BitVec 64)
      (key : K)
      (value : V)
  | keyWritten (thread : T) (slot : Nat)
  | building (thread : T) (slot : Nat)
  | built (thread : T) (slot : Nat) (value : V)
  | committed (thread : T) (slot : Nat)
  | pushReturned (thread : T) (result : Bool)
  | popCalled (thread : T)
  | popClaimed
      (thread : T)
      (slot : Nat)
      (index : BitVec 64)
      (key : K)
      (value : Life V)
  | keyRead (thread : T) (slot : Nat)
  | keyCleared (thread : T) (slot : Nat)
  | moved (thread : T) (slot : Nat) (value : Life V)
  | destroyed (thread : T) (slot : Nat)
  | released (thread : T) (slot : Nat)
  | popReturned (thread : T) (key : K) (value : Option (Life V))
  | drained (slot : Nat)

/-- The shared words of the queue and what happened, latest first. -/
structure State (K V T : Type) where
  tailLock : Bool
  tail : BitVec 64
  headLock : Bool
  head : BitVec 64
  seq : Nat → BitVec 64
  key : Nat → K
  value : Nat → Life V
  events : List (Event K V T)

/-- The calls of a client. -/
inductive Call (K V : Type) where
  | push (key : K) (value : V)
  | pop
  | empty

/-- The scheduler picks the calls. -/
inductive Choice (K V : Type) where
  | proceed
  | call (call : Call K V)

/-- Programs of the queue. -/
abbrev Program (K V T : Type) := Prog (State K V T) (Choice K V)

/-- The lock `tail_.l`. -/
def tailSpin : SpinLock (State K V T) where
  word state := state.tailLock
  store held state := { state with tailLock := held }

/-- The lock `head_.l`. -/
def headSpin : SpinLock (State K V T) where
  word state := state.headLock
  store held state := { state with headLock := held }

/-- Add to the history. -/
def State.record
    (event : Event K V T)
    (state : State K V T) :
    State K V T :=
  { state with events := event :: state.events }

section Push

/-- The acquire load of a producer. -/
def loadToPush
    (config : Config K)
    (thread : T)
    (index : BitVec 64)
    (key : K)
    (value : V) :
    Program K V T Bool :=
  Prog.atomic fun state _ =>
    let slot := config.size.slotOf index
    if state.seq slot = index then
      some (true,
        state.record (.pushClaimed thread slot index key value))
    else
      some (false, state)

/-- The `NTRY` loads of a push. -/
def tryClaim
    (config : Config K)
    (thread : T)
    (index : BitVec 64)
    (key : K)
    (value : V) :
    Nat → Program K V T Bool
  | 0 => pure false
  | tries + 1 => do
      let claimed ← loadToPush config thread index key value
      if claimed then
        pure true
      else
        tryClaim config thread index key value tries

/-- `slot.key = key`. -/
def writeKey
    (thread : T)
    (slot : Nat)
    (key : K) :
    Program K V T Unit :=
  Prog.write fun state =>
    ({ state with key := Function.update state.key slot key } :
      State K V T).record (.keyWritten thread slot)

/-- `++tail_.i`. -/
def advanceTail : Program K V T Unit :=
  Prog.write fun state => { state with tail := state.tail + 1 }

/-- The constructor of the value starts. -/
def beginValue
    (thread : T)
    (slot : Nat) :
    Program K V T Unit :=
  Prog.write fun state =>
    ({ state with value := Function.update state.value slot .building } :
      State K V T).record (.building thread slot)

/-- The constructor of the value ends. -/
def finishValue
    (thread : T)
    (slot : Nat)
    (value : V) :
    Program K V T Unit :=
  Prog.write fun state =>
    ({ state with value := Function.update state.value slot (.built value) } :
      State K V T).record (.built thread slot value)

/-- `slot.seq.store(i + 1)`. -/
def commit
    (thread : T)
    (slot : Nat)
    (index : BitVec 64) :
    Program K V T Unit :=
  Prog.write fun state =>
    ({ state with seq := Function.update state.seq slot (index + 1) } :
      State K V T).record (.committed thread slot)

/-- `push(key, value)`. -/
def push
    (config : Config K)
    (thread : T)
    (key : K)
    (value : V) :
    Program K V T Bool := do
  tailSpin.lock id
  let index ← Prog.read State.tail
  let slot := config.size.slotOf index
  let claimed ← tryClaim config thread index key value config.nTry
  if claimed then do
    writeKey thread slot key
    advanceTail
    tailSpin.unlock id
    beginValue thread slot
    finishValue thread slot value
    commit thread slot index
    pure true
  else do
    tailSpin.unlock id
    pure false

end Push

section Pop

/-- The acquire load of a consumer. -/
def loadToPop
    (config : Config K)
    (thread : T)
    (index : BitVec 64) :
    Program K V T Bool :=
  Prog.atomic fun state _ =>
    let slot := config.size.slotOf index
    if state.seq slot = index + 1 then
      some (true,
        state.record
          (.popClaimed thread slot index (state.key slot)
            (state.value slot)))
    else
      some (false, state)

/-- `ret = slot.key`. -/
def readKey
    (thread : T)
    (slot : Nat) :
    Program K V T K :=
  Prog.atomic fun state _ =>
    some (state.key slot, state.record (.keyRead thread slot))

/-- `slot.key = Key{}`. -/
def clearKey
    (config : Config K)
    (thread : T)
    (slot : Nat) :
    Program K V T Unit :=
  Prog.write fun state =>
    ({ state with
        key := Function.update state.key slot config.emptyKey } :
      State K V T).record (.keyCleared thread slot)

/-- `++head_.i`. -/
def advanceHead : Program K V T Unit :=
  Prog.write fun state => { state with head := state.head + 1 }

/-- `value = std::move(slot.value)`. -/
def moveValue
    (thread : T)
    (slot : Nat) :
    Program K V T (Life V) :=
  Prog.atomic fun state _ =>
    some (state.value slot,
      ({ state with value := Function.update state.value slot .husk } :
        State K V T).record (.moved thread slot (state.value slot)))

/-- `slot.value.~Value()`. -/
def destroyValue
    (thread : T)
    (slot : Nat) :
    Program K V T Unit :=
  Prog.write fun state =>
    ({ state with value := Function.update state.value slot .raw } :
      State K V T).record (.destroyed thread slot)

/-- `slot.seq.store(i + capacity_)`. -/
def release
    (config : Config K)
    (thread : T)
    (slot : Nat)
    (index : BitVec 64) :
    Program K V T Unit :=
  Prog.write fun state =>
    ({ state with
        seq :=
          Function.update state.seq slot (index + config.size.capacity) } :
      State K V T).record (.released thread slot)

/-- `pop(value)`: the key, and what was moved into the caller's value. -/
def pop
    (config : Config K)
    (thread : T) :
    Program K V T (K × Option (Life V)) := do
  headSpin.lock id
  let index ← Prog.read State.head
  let slot := config.size.slotOf index
  let claimed ← loadToPop config thread index
  if claimed then do
    let key ← readKey thread slot
    clearKey config thread slot
    advanceHead
    headSpin.unlock id
    let value ← moveValue thread slot
    destroyValue thread slot
    release config thread slot index
    pure (key, some value)
  else do
    headSpin.unlock id
    pure (config.emptyKey, none)

/-- `empty()`. -/
def empty
    (config : Config K) :
    Program K V T Bool := do
  headSpin.lock id
  let index ← Prog.read State.head
  let seq ← Prog.read fun state => state.seq (config.size.slotOf index)
  let head ← Prog.read State.head
  headSpin.unlock id
  pure (!decide (seq = head + 1))

end Pop

/-- Record an event. -/
def record
    (event : Event K V T) :
    Program K V T Unit :=
  Prog.write (State.record event)

/-- A client picks its next call; `Key{}` is never pushed. -/
def pick
    [DecidableEq K]
    (config : Config K) :
    Program K V T (Call K V) :=
  Prog.atomic fun state choice =>
    match choice with
    | .call (.push key value) =>
        if key = config.emptyKey then none
        else some (.push key value, state)
    | .call call => some (call, state)
    | .proceed => none

/-- A client thread. -/
def client
    [DecidableEq K]
    (config : Config K)
    (thread : T) :
    Program K V T Unit :=
  Prog.loop () fun _ => do
    let call ← pick config
    match call with
    | .push key value => do
        record (.pushCalled thread key value)
        let result ← push config thread key value
        record (.pushReturned thread result)
        Prog.again ()
    | .pop => do
        record (.popCalled thread)
        let result ← pop config thread
        record (.popReturned thread result.1 result.2)
        Prog.again ()
    | .empty => do
        let _ ← empty config
        Prog.again ()

/--
A queue without elements.  A slot is free for the first index at or after the
start that lands in it; with the start at 0 that is its own position.
-/
def State.initial
    (config : Config K) :
    State K V T where
  tailLock := false
  tail := config.start
  headLock := false
  head := config.start
  seq slot :=
    config.start +
      ((BitVec.ofNat 64 slot - config.start) &&& config.size.capacityMask)
  key _ := config.emptyKey
  value _ := .raw
  events := []

/-- Any number of clients on a queue without elements. -/
def initialPool
    [DecidableEq K]
    (config : Config K) :
    Pool (State K V T) (Choice K V) T where
  shared := State.initial config
  threads := client config

/-- `slot.value.~Value()` of the destructor. -/
def drainValue
    (slot : Nat)
    (state : State K V T) :
    State K V T :=
  ({ state with value := Function.update state.value slot .raw } :
    State K V T).record (.drained slot)

/-- The destructor's loop from an index; `none` if the fuel runs out. -/
def drain
    (config : Config K) :
    Nat → BitVec 64 → State K V T → Option (State K V T)
  | 0, index, state => if index = state.tail then some state else none
  | fuel + 1, index, state =>
      if index = state.tail then
        some state
      else
        drain config fuel (index + 1)
          (drainValue (config.size.slotOf index) state)

/-- `~RingAtomicMapQueueMPMC()`. -/
def destruct
    (config : Config K)
    (fuel : Nat)
    (state : State K V T) :
    Option (State K V T) :=
  drain config fuel state.head state

section History

variable [DecidableEq T]

/-- The thread that an event belongs to; the destructor has none. -/
def Event.thread : Event K V T → Option T
  | .pushCalled thread _ _ => some thread
  | .pushClaimed thread _ _ _ _ => some thread
  | .keyWritten thread _ => some thread
  | .building thread _ => some thread
  | .built thread _ _ => some thread
  | .committed thread _ => some thread
  | .pushReturned thread _ => some thread
  | .popCalled thread => some thread
  | .popClaimed thread _ _ _ _ => some thread
  | .keyRead thread _ => some thread
  | .keyCleared thread _ => some thread
  | .moved thread _ _ => some thread
  | .destroyed thread _ => some thread
  | .released thread _ => some thread
  | .popReturned thread _ _ => some thread
  | .drained _ => none

/-- The event starts a call. -/
def Event.isCall : Event K V T → Bool
  | .pushCalled _ _ _ => true
  | .popCalled _ => true
  | _ => false

/-- The event ends a call. -/
def Event.isReturn : Event K V T → Bool
  | .pushReturned _ _ => true
  | .popReturned _ _ _ => true
  | _ => false

/-- What a thread has done since its last call began, latest first. -/
def inCall
    (thread : T) :
    List (Event K V T) → List (Event K V T)
  | [] => []
  | event :: earlier =>
      if event.thread = some thread then
        if event.isCall then [event]
        else event :: inCall thread earlier
      else inCall thread earlier

/-- The thread is between the begin and the end of a push or a pop. -/
def inside
    (thread : T)
    (events : List (Event K V T)) : Bool :=
  match inCall thread events with
  | [] => false
  | event :: _ => !event.isReturn

/-- The owner of a slot: from its claim to its final store. -/
def owner
    (slot : Nat) :
    List (Event K V T) → Option T
  | [] => none
  | .pushClaimed thread claimed _ _ _ :: earlier =>
      if claimed = slot then some thread else owner slot earlier
  | .popClaimed thread claimed _ _ _ :: earlier =>
      if claimed = slot then some thread else owner slot earlier
  | .committed _ stored :: earlier =>
      if stored = slot then none else owner slot earlier
  | .released _ stored :: earlier =>
      if stored = slot then none else owner slot earlier
  | _ :: earlier => owner slot earlier

/-- The life of the value in a slot. -/
def life
    (slot : Nat) :
    List (Event K V T) → Life V
  | [] => .raw
  | .building _ place :: earlier =>
      if place = slot then .building else life slot earlier
  | .built _ place value :: earlier =>
      if place = slot then .built value else life slot earlier
  | .moved _ place _ :: earlier =>
      if place = slot then .husk else life slot earlier
  | .destroyed _ place :: earlier =>
      if place = slot then .raw else life slot earlier
  | .drained place :: earlier =>
      if place = slot then .raw else life slot earlier
  | _ :: earlier => life slot earlier

/-- The element last claimed for a slot: its index, key and value. -/
def content
    (slot : Nat) :
    List (Event K V T) → Option (BitVec 64 × K × V)
  | [] => none
  | .pushClaimed _ claimed index key value :: earlier =>
      if claimed = slot then some (index, key, value)
      else content slot earlier
  | _ :: earlier => content slot earlier

/-- The pairs of the pushes that have claimed a slot, in claim order. -/
def pushes : List (Event K V T) → List (K × V)
  | [] => []
  | .pushClaimed _ _ _ key value :: earlier =>
      pushes earlier ++ [(key, value)]
  | _ :: earlier => pushes earlier

/-- The pairs that the pops found in the slots they claimed, in claim order. -/
def pops : List (Event K V T) → List (K × Life V)
  | [] => []
  | .popClaimed _ _ _ key value :: earlier =>
      pops earlier ++ [(key, value)]
  | _ :: earlier => pops earlier

/-- An event is allowed after what happened before. -/
def EventOk
    (config : Config K)
    (earlier : List (Event K V T)) :
    Event K V T → Prop
  | .pushCalled _ _ _ => True
  | .pushClaimed _ slot index _ _ =>
      slot = config.size.slotOf index ∧
        owner slot earlier = none ∧ life slot earlier = .raw
  | .keyWritten thread slot => owner slot earlier = some thread
  | .building thread slot =>
      owner slot earlier = some thread ∧ life slot earlier = .raw
  | .built thread slot _ =>
      owner slot earlier = some thread ∧ life slot earlier = .building
  | .committed thread slot =>
      owner slot earlier = some thread ∧
        ∃ value, life slot earlier = .built value
  | .pushReturned thread true =>
      ∃ slot index key value,
        inCall thread earlier =
          [.committed thread slot, .built thread slot value,
            .building thread slot, .keyWritten thread slot,
            .pushClaimed thread slot index key value,
            .pushCalled thread key value]
  | .pushReturned thread false =>
      ∃ key value, inCall thread earlier = [.pushCalled thread key value]
  | .popCalled _ => True
  | .popClaimed _ slot index _ found =>
      slot = config.size.slotOf index ∧
        owner slot earlier = none ∧ life slot earlier = found ∧
        ∃ value, found = .built value
  | .keyRead thread slot => owner slot earlier = some thread
  | .keyCleared thread slot => owner slot earlier = some thread
  | .moved thread slot found =>
      owner slot earlier = some thread ∧ life slot earlier = found ∧
        ∃ value, found = .built value
  | .destroyed thread slot =>
      owner slot earlier = some thread ∧ life slot earlier = .husk
  | .released thread slot =>
      owner slot earlier = some thread ∧ life slot earlier = .raw
  | .popReturned thread key (some value) =>
      key ≠ config.emptyKey ∧
        ∃ slot index,
          inCall thread earlier =
            [.released thread slot, .destroyed thread slot,
              .moved thread slot value, .keyCleared thread slot,
              .keyRead thread slot,
              .popClaimed thread slot index key value,
              .popCalled thread]
  | .popReturned thread key none =>
      key = config.emptyKey ∧ inCall thread earlier = [.popCalled thread]
  | .drained slot =>
      owner slot earlier = none ∧
        ∃ value, life slot earlier = .built value

/-- Every event of the history was allowed. -/
def Legal
    (config : Config K) :
    List (Event K V T) → Prop
  | [] => True
  | event :: earlier =>
      EventOk config earlier event ∧ Legal config earlier

end History

end ConcurrentCpp.RingQueue
