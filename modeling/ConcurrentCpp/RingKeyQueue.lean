import ConcurrentCpp.RingIndex
import ConcurrentCpp.SpinLock

namespace ConcurrentCpp.RingKeyQueue

/-!
# The key-only ring queue

`RingAtomicMapQueueMPMC<Key, void>`: a slot is full when its key is not
`Key{}`.  Both sides decide from one slot under their own lock, and the key
store precedes the increment of the index.

The history is that of a bounded queue: a push takes effect at its key store
and a pop at its key clear; the loads on which a refusal is based are recorded
as well.  No step reads it.
-/

variable {K T : Type}

/-- The parameters of a queue; the constructor starts the indices at 0. -/
structure Config (K : Type) where
  size : RingSize
  nTry : Nat
  emptyKey : K
  start : BitVec 64

/-- What happened. -/
inductive Event (K T : Type) where
  | pushCalled (thread : T) (key : K)
  | sawFull (thread : T)
  | stored (thread : T) (key : K)
  | pushReturned (thread : T) (result : Bool)
  | popCalled (thread : T)
  | sawNothing (thread : T)
  | cleared (thread : T) (key : K)
  | popReturned (thread : T) (key : K)
  | emptyCalled (thread : T)
  | looked (thread : T) (isEmpty : Bool)
  | emptyReturned (thread : T) (result : Bool)
  deriving DecidableEq

/-- The shared words of the queue and what happened, latest first. -/
structure State (K T : Type) where
  tailLock : Bool
  tail : BitVec 64
  headLock : Bool
  head : BitVec 64
  key : Nat → K
  events : List (Event K T)

/-- The calls of a client. -/
inductive Call (K : Type) where
  | push (key : K)
  | pop
  | empty

/-- The scheduler picks the calls. -/
inductive Choice (K : Type) where
  | proceed
  | call (call : Call K)

/-- Programs of the queue. -/
abbrev Program (K T : Type) := Prog (State K T) (Choice K)

/-- The lock `tail_.l`. -/
def tailSpin : SpinLock (State K T) where
  word state := state.tailLock
  store held state := { state with tailLock := held }

/-- The lock `head_.l`. -/
def headSpin : SpinLock (State K T) where
  word state := state.headLock
  store held state := { state with headLock := held }

/-- Add to the history. -/
def State.record
    (event : Event K T)
    (state : State K T) :
    State K T :=
  { state with events := event :: state.events }

/-- Record an event. -/
def record
    (event : Event K T) :
    Program K T Unit :=
  Prog.write (State.record event)

variable [DecidableEq K]

/-- `slot.key.load() == Key{}` of a push. -/
def loadToPush
    (config : Config K)
    (thread : T)
    (slot : Nat) :
    Program K T Bool :=
  Prog.atomic fun state _ =>
    if state.key slot = config.emptyKey then
      some (true, state)
    else
      some (false, state.record (.sawFull thread))

/-- `slot.key.store(key)`. -/
def storeKey
    (thread : T)
    (slot : Nat)
    (key : K) :
    Program K T Unit :=
  Prog.write fun state =>
    ({ state with key := Function.update state.key slot key } :
      State K T).record (.stored thread key)

/-- `++tail_.i`. -/
def advanceTail : Program K T Unit :=
  Prog.write fun state => { state with tail := state.tail + 1 }

/-- The `NTRY` loop of a push. -/
def tryStore
    (config : Config K)
    (thread : T)
    (slot : Nat)
    (key : K) :
    Nat → Program K T Bool
  | 0 => pure false
  | tries + 1 => do
      let free ← loadToPush config thread slot
      if free then do
        storeKey thread slot key
        advanceTail
        pure true
      else
        tryStore config thread slot key tries

/-- `push(key)`. -/
def push
    (config : Config K)
    (thread : T)
    (key : K) :
    Program K T Bool := do
  tailSpin.lock id
  let index ← Prog.read State.tail
  let result ←
    tryStore config thread (config.size.slotOf index) key config.nTry
  tailSpin.unlock id
  pure result

/-- `slot.key.load()` of a pop. -/
def loadToPop
    (config : Config K)
    (thread : T)
    (slot : Nat) :
    Program K T K :=
  Prog.atomic fun state _ =>
    if state.key slot = config.emptyKey then
      some (config.emptyKey, state.record (.sawNothing thread))
    else
      some (state.key slot, state)

/-- `slot.key.store(Key{})`. -/
def clearKey
    (config : Config K)
    (thread : T)
    (slot : Nat)
    (key : K) :
    Program K T Unit :=
  Prog.write fun state =>
    ({ state with
        key := Function.update state.key slot config.emptyKey } :
      State K T).record (.cleared thread key)

/-- `++head_.i`. -/
def advanceHead : Program K T Unit :=
  Prog.write fun state => { state with head := state.head + 1 }

/-- `pop()`. -/
def pop
    (config : Config K)
    (thread : T) :
    Program K T K := do
  headSpin.lock id
  let index ← Prog.read State.head
  let slot := config.size.slotOf index
  let key ← loadToPop config thread slot
  if key = config.emptyKey then do
    headSpin.unlock id
    pure config.emptyKey
  else do
    clearKey config thread slot key
    advanceHead
    headSpin.unlock id
    pure key

/-- `slot.key.load() == Key{}` of `empty()`. -/
def loadToLook
    (config : Config K)
    (thread : T)
    (slot : Nat) :
    Program K T Bool :=
  Prog.atomic fun state _ =>
    let isEmpty := decide (state.key slot = config.emptyKey)
    some (isEmpty, state.record (.looked thread isEmpty))

/-- `empty()`. -/
def empty
    (config : Config K)
    (thread : T) :
    Program K T Bool := do
  headSpin.lock id
  let index ← Prog.read State.head
  let result ← loadToLook config thread (config.size.slotOf index)
  headSpin.unlock id
  pure result

/-- A client picks its next call; `Key{}` is never pushed. -/
def pick
    (config : Config K) :
    Program K T (Call K) :=
  Prog.atomic fun state choice =>
    match choice with
    | .call (.push key) =>
        if key = config.emptyKey then none else some (.push key, state)
    | .call call => some (call, state)
    | .proceed => none

/-- A client thread. -/
def client
    (config : Config K)
    (thread : T) :
    Program K T Unit :=
  Prog.loop () fun _ => do
    let call ← pick config
    match call with
    | .push key => do
        record (.pushCalled thread key)
        let result ← push config thread key
        record (.pushReturned thread result)
        Prog.again ()
    | .pop => do
        record (.popCalled thread)
        let result ← pop config thread
        record (.popReturned thread result)
        Prog.again ()
    | .empty => do
        record (.emptyCalled thread)
        let result ← empty config thread
        record (.emptyReturned thread result)
        Prog.again ()

/-- A queue without elements. -/
def State.initial
    (config : Config K) :
    State K T where
  tailLock := false
  tail := config.start
  headLock := false
  head := config.start
  key _ := config.emptyKey
  events := []

/-- Any number of clients on a queue without elements. -/
def initialPool
    (config : Config K) :
    Pool (State K T) (Choice K) T where
  shared := State.initial config
  threads := client config

section History

/-- The thread that an event belongs to. -/
def Event.thread : Event K T → T
  | .pushCalled thread _ => thread
  | .sawFull thread => thread
  | .stored thread _ => thread
  | .pushReturned thread _ => thread
  | .popCalled thread => thread
  | .sawNothing thread => thread
  | .cleared thread _ => thread
  | .popReturned thread _ => thread
  | .emptyCalled thread => thread
  | .looked thread _ => thread
  | .emptyReturned thread _ => thread

/-- The event starts a call. -/
def Event.isCall : Event K T → Bool
  | .pushCalled _ _ => true
  | .popCalled _ => true
  | .emptyCalled _ => true
  | _ => false

/-- What a thread has done since its last call began, latest first. -/
def inCall
    [DecidableEq T]
    (thread : T) :
    List (Event K T) → List (Event K T)
  | [] => []
  | event :: earlier =>
      if event.thread = thread then
        if event.isCall then [event]
        else event :: inCall thread earlier
      else inCall thread earlier

/-- The queue that the history describes, oldest element first. -/
def contents : List (Event K T) → List K
  | [] => []
  | .stored _ key :: earlier => contents earlier ++ [key]
  | .cleared _ _ :: earlier => (contents earlier).tail
  | _ :: earlier => contents earlier

/-- The keys of the pushes that took effect, in that order. -/
def stores : List (Event K T) → List K
  | [] => []
  | .stored _ key :: earlier => stores earlier ++ [key]
  | _ :: earlier => stores earlier

/-- The keys of the pops that took effect, in that order. -/
def clears : List (Event K T) → List K
  | [] => []
  | .cleared _ key :: earlier => clears earlier ++ [key]
  | _ :: earlier => clears earlier

/-- An event is allowed for a bounded queue with this history. -/
def EventOk
    [DecidableEq T]
    (config : Config K)
    (earlier : List (Event K T)) :
    Event K T → Prop
  | .pushCalled _ _ => True
  | .sawFull _ => (contents earlier).length = config.size.slots
  | .stored _ _ => (contents earlier).length < config.size.slots
  | .pushReturned thread true =>
      ∃ key tries,
        inCall thread earlier =
          .stored thread key ::
            (List.replicate tries (.sawFull thread) ++
              [.pushCalled thread key])
  | .pushReturned thread false =>
      ∃ key,
        inCall thread earlier =
          List.replicate config.nTry (.sawFull thread) ++
            [.pushCalled thread key]
  | .popCalled _ => True
  | .sawNothing _ => contents earlier = []
  | .cleared _ key => (contents earlier).head? = some key
  | .popReturned thread key =>
      if key = config.emptyKey then
        inCall thread earlier = [.sawNothing thread, .popCalled thread]
      else
        inCall thread earlier = [.cleared thread key, .popCalled thread]
  | .emptyCalled _ => True
  | .looked _ isEmpty => isEmpty = (contents earlier).isEmpty
  | .emptyReturned thread result =>
      inCall thread earlier =
        [.looked thread result, .emptyCalled thread]

/-- The history is one of a bounded queue. -/
def Legal
    [DecidableEq T]
    (config : Config K) :
    List (Event K T) → Prop
  | [] => True
  | event :: earlier =>
      EventOk config earlier event ∧ Legal config earlier

/-- What was stored is what was cleared and what is still there. -/
theorem Legal.fifo
    [DecidableEq T]
    {config : Config K}
    {events : List (Event K T)}
    (legal : Legal config events) :
    stores events = clears events ++ contents events := by
  induction events with
  | nil =>
      rfl
  | cons event earlier inductionHypothesis =>
      obtain ⟨allowed, legalEarlier⟩ := legal
      have before := inductionHypothesis legalEarlier
      cases event with
      | stored thread key =>
          simp only [stores, clears, contents, before, List.append_assoc]
      | cleared thread key =>
          obtain ⟨rest, shape⟩ := List.head?_eq_some_iff.mp allowed
          simp only [stores, clears, contents, before, shape,
            List.tail_cons, List.append_assoc, List.singleton_append]
      | _ =>
          exact before

end History

end ConcurrentCpp.RingKeyQueue
