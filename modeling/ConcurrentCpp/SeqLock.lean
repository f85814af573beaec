import Mathlib.Data.BitVec
import ConcurrentCpp.SpinLock

namespace ConcurrentCpp.SeqLock

/-!
# The sequence lock

`SeqLock<T>`: a payload word, a 64-bit counter and a spinlock that excludes
other writers.  A writer makes the counter odd, stores the payload and makes
the counter even; a reader accepts a payload between two equal even loads of
the counter.

The history records which calls the clients made and what these returned, who
holds the lock and the three steps of every write.  No step reads it.
-/

variable {V T : Type}

/-- What a writer does to the payload; `none` when its callable throws. -/
abbrev Change (V : Type) := V → Option V

/-- The calls of a client; `load_validated()` is what `load()` returns from. -/
inductive Call (V : Type) where
  | load
  | loadValidated
  | store (value : V)
  | update (change : Change V)

/-- What a call returns: a value, a snapshot, nothing, or its callable threw. -/
inductive Result (V : Type) where
  | value (value : V)
  | snapshot (value : V) (seq : BitVec 64)
  | done
  | threw
  deriving DecidableEq

/-- What happened, with the payload and the counter at that step. -/
inductive Event (V T : Type) where
  | called (thread : T) (call : Call V)
  | returned (thread : T) (call : Call V) (result : Result V)
  | locked
      (thread : T)
      (change : Change V)
      (payload : V)
      (seq : BitVec 64)
  | opened (thread : T)
  | stored (thread : T)
  | closed (thread : T)
  | unlocked (thread : T) (payload : V) (seq : BitVec 64)

/-- The shared words and what happened, latest first. -/
structure State (V T : Type) where
  lock : Bool
  seq : BitVec 64
  payload : V
  events : List (Event V T)

/-- The scheduler picks the calls. -/
inductive Choice (V : Type) where
  | proceed
  | call (call : Call V)

/-- Programs of the sequence lock. -/
abbrev Program (V T : Type) := Prog (State V T) (Choice V)

/-- The lock `lock_`. -/
def lockWord : SpinLock (State V T) where
  word state := state.lock
  store held state := { state with lock := held }

/-- Add to the history. -/
def State.record
    (event : Event V T)
    (state : State V T) :
    State V T :=
  { state with events := event :: state.events }

/-- `lock_.lock()` of a writer with this change. -/
def lock
    (thread : T)
    (change : Change V) :
    Program V T Unit :=
  lockWord.lock fun state =>
    state.record (.locked thread change state.payload state.seq)

/-- `lock_.unlock()`. -/
def unlock
    (thread : T) :
    Program V T Unit :=
  lockWord.unlock fun state =>
    state.record (.unlocked thread state.payload state.seq)

/-- `seq_.load()`. -/
def loadSeq : Program V T (BitVec 64) :=
  Prog.read State.seq

/-- `payload_.load()`. -/
def loadPayload : Program V T V :=
  Prog.read State.payload

/-- `load_validated()`. -/
def loadValidated : Program V T (V × BitVec 64) :=
  Prog.loop () fun _ => do
    let seqBefore ← loadSeq
    if seqBefore &&& 1#64 = 0#64 then do
      let value ← loadPayload
      let seqAfter ← loadSeq
      if seqAfter = seqBefore then
        Prog.leave (value, seqBefore)
      else
        Prog.again ()
    else
      Prog.again ()

/-- `load()`. -/
def load : Program V T V := do
  let snapshot ← loadValidated
  pure snapshot.1

/-- `begin_write()`. -/
def beginWrite
    (thread : T) :
    Program V T (BitVec 64) := do
  let seq ← loadSeq
  Prog.write fun state =>
    ({ state with seq := seq + 1 } : State V T).record (.opened thread)
  pure (seq + 1)

/-- `store_payload(value)`. -/
def storePayload
    (thread : T)
    (value : V) :
    Program V T Unit :=
  Prog.write fun state =>
    ({ state with payload := value } : State V T).record (.stored thread)

/-- `end_write(odd_seq)`. -/
def endWrite
    (thread : T)
    (oddSeq : BitVec 64) :
    Program V T Unit :=
  Prog.write fun state =>
    ({ state with seq := oddSeq + 1 } : State V T).record (.closed thread)

/-- `write(value)`. -/
def write
    (thread : T)
    (value : V) :
    Program V T Unit := do
  let oddSeq ← beginWrite thread
  storePayload thread value
  endWrite thread oddSeq

/-- `store(value)`. -/
def store
    (thread : T)
    (value : V) :
    Program V T Unit := do
  lock thread fun _ => some value
  write thread value
  unlock thread

/-- `update(f)`; false if the callable threw. -/
def update
    (thread : T)
    (change : Change V) :
    Program V T Bool := do
  lock thread change
  let current ← loadPayload
  match change current with
  | none => do
      unlock thread
      pure false
  | some value => do
      write thread value
      unlock thread
      pure true

/-- A client picks its next call. -/
def pick
    (thread : T) :
    Program V T (Call V) :=
  Prog.atomic fun state choice =>
    match choice with
    | .call call => some (call, state.record (.called thread call))
    | .proceed => none

/-- What a call does after it has begun. -/
def perform
    (thread : T) :
    Call V → Program V T (Result V)
  | .load => do
      let value ← load
      pure (.value value)
  | .loadValidated => do
      let snapshot ← loadValidated
      pure (.snapshot snapshot.1 snapshot.2)
  | .store value => do
      store thread value
      pure .done
  | .update change => do
      let wrote ← update thread change
      pure (if wrote then .done else .threw)

/-- A client thread makes one call after the other. -/
def client
    (thread : T) :
    Program V T Unit :=
  Prog.loop () fun _ => do
    let call ← pick thread
    let result ← perform thread call
    Prog.write fun state => state.record (.returned thread call result)
    Prog.again ()

/-- A sequence lock that nobody has used. -/
def State.initial
    (value : V) :
    State V T where
  lock := false
  seq := 0
  payload := value
  events := []

/-- Any number of clients on a new sequence lock. -/
def initialPool
    (value : V) :
    Pool (State V T) (Choice V) T where
  shared := State.initial value
  threads := client

section History

/-- The change that a call makes, if it writes. -/
def Call.change : Call V → Option (Change V)
  | .load => none
  | .loadValidated => none
  | .store value => some fun _ => some value
  | .update change => some change

/-- Whose step the event is. -/
def Event.thread : Event V T → T
  | .called thread _ => thread
  | .returned thread _ _ => thread
  | .locked thread _ _ _ => thread
  | .opened thread => thread
  | .stored thread => thread
  | .closed thread => thread
  | .unlocked thread _ _ => thread

variable [DecidableEq T]

/-- The call that a thread is in. -/
def calling
    (thread : T) :
    List (Event V T) → Option (Call V)
  | [] => none
  | .called other call :: earlier =>
      if other = thread then some call else calling thread earlier
  | .returned other _ _ :: earlier =>
      if other = thread then none else calling thread earlier
  | _ :: earlier => calling thread earlier

/-- What a thread has done since it last began a call, latest first. -/
def session
    (thread : T) :
    List (Event V T) → List (Event V T)
  | [] => []
  | .called other _ :: earlier =>
      if other = thread then [] else session thread earlier
  | event :: earlier =>
      if event.thread = thread then event :: session thread earlier
      else session thread earlier

/-- An acquisition of the lock: the change and the words it found. -/
structure Acquired (V : Type) where
  change : Change V
  payload : V
  seq : BitVec 64

/-- The acquisition of a thread between its lock and its unlock. -/
def holding
    (thread : T) :
    List (Event V T) → Option (Acquired V)
  | [] => none
  | .locked holder change payload seq :: earlier =>
      if holder = thread then some ⟨change, payload, seq⟩
      else holding thread earlier
  | .unlocked holder _ _ :: earlier =>
      if holder = thread then none else holding thread earlier
  | _ :: earlier => holding thread earlier

/-- The number of completed writes. -/
def completed :
    List (Event V T) → Nat
  | [] => 0
  | .closed _ :: earlier => completed earlier + 1
  | _ :: earlier => completed earlier

/-- The writes that were complete when a thread last began a call. -/
def begun
    (thread : T) :
    List (Event V T) → Nat
  | [] => 0
  | .called other _ :: earlier =>
      if other = thread then completed earlier else begun thread earlier
  | _ :: earlier => begun thread earlier

/-- A write is between its odd and its even store. -/
def writing :
    List (Event V T) → Bool
  | [] => false
  | .opened _ :: _ => true
  | .closed _ :: _ => false
  | _ :: earlier => writing earlier

/--
The changes of the acquisitions that completed their write, in the order of
the acquisitions.  The walk goes backwards and carries the threads whose
completed write it has seen without the acquisition.
-/
def successesWith :
    (T → Bool) → List (Event V T) → List (Change V)
  | _, [] => []
  | wrote, .locked thread change _ _ :: earlier =>
      if wrote thread then
        successesWith (Function.update wrote thread false) earlier ++
          [change]
      else successesWith wrote earlier
  | wrote, .closed thread :: earlier =>
      successesWith (Function.update wrote thread true) earlier
  | wrote, _ :: earlier => successesWith wrote earlier

/-- The changes that took effect, in lock order. -/
def successes
    (events : List (Event V T)) :
    List (Change V) :=
  successesWith (fun _ => false) events

/-- A generation: the first successful changes applied one after another. -/
def generation
    (initial : V)
    (events : List (Event V T))
    (index : Nat) :
    Option V :=
  ((successes events).take index).foldlM
    (fun value change => change value) initial

end History

end ConcurrentCpp.SeqLock
