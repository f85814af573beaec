import ConcurrentCpp.SeqLock

namespace ConcurrentCpp.SeqLock

/-!
# The protocol of the sequence lock

The proof follows the writer that holds the lock through the steps of its
write.  A reader only needs that twice the number of completed writes, plus
one while a write is open, never goes down and is what the counter holds.
-/

variable {V T : Type} [DecidableEq T]

/-- Where the holder of the lock is. -/
inductive Stage (V T : Type) where
  | free
  | held (thread : T) (acquired : Acquired V)
  | opened (thread : T) (acquired : Acquired V) (value : V)
  | stored (thread : T) (acquired : Acquired V) (value : V)
  | closed (thread : T) (acquired : Acquired V) (value : V)

namespace Stage

/-- The holder and its acquisition. -/
def holder : Stage V T → Option (T × Acquired V)
  | .free => none
  | .held thread acquired => some (thread, acquired)
  | .opened thread acquired _ => some (thread, acquired)
  | .stored thread acquired _ => some (thread, acquired)
  | .closed thread acquired _ => some (thread, acquired)

/-- The write is open. -/
def odd : Stage V T → Bool
  | .opened _ _ _ => true
  | .stored _ _ _ => true
  | _ => false

end Stage

/-- The counter without its bound. -/
def position (events : List (Event V T)) : Nat :=
  2 * completed events + (writing events).toNat

/-- A write that closes now is the next one in lock order. -/
def Pending
    (thread : T)
    (change : Change V)
    (events : List (Event V T)) : Prop :=
  successesWith (Function.update (fun _ => false) thread true) events =
    successes events ++ [change]

/-- The words while the holder is at a stage. -/
def StageOk
    (initial : V)
    (state : State V T) :
    Stage V T → Prop
  | .free =>
      generation initial state.events (completed state.events) =
        some state.payload
  | .held thread acquired =>
      generation initial state.events (completed state.events) =
          some acquired.payload ∧
        state.payload = acquired.payload ∧
        state.seq = acquired.seq ∧
        Pending thread acquired.change state.events
  | .opened thread acquired value =>
      generation initial state.events (completed state.events) =
          some acquired.payload ∧
        state.payload = acquired.payload ∧
        state.seq = acquired.seq + 1 ∧
        acquired.change acquired.payload = some value ∧
        Pending thread acquired.change state.events
  | .stored thread acquired value =>
      generation initial state.events (completed state.events) =
          some acquired.payload ∧
        state.payload = value ∧
        state.seq = acquired.seq + 1 ∧
        acquired.change acquired.payload = some value ∧
        Pending thread acquired.change state.events
  | .closed _ acquired value =>
      generation initial state.events (completed state.events) =
          some value ∧
        state.payload = value ∧
        state.seq = acquired.seq + 2 ∧
        acquired.change acquired.payload = some value

/-- What an acquisition leaves when it is released. -/
def Acquired.Outcome
    (acquired : Acquired V)
    (payload : V)
    (seq : BitVec 64) : Prop :=
  match acquired.change acquired.payload with
  | some value => payload = value ∧ seq = acquired.seq + 2
  | none => payload = acquired.payload ∧ seq = acquired.seq

/-- Every release is the end of an acquisition and leaves its outcome. -/
def Released : List (Event V T) → Prop
  | [] => True
  | .unlocked thread payload seq :: earlier =>
      (∃ acquired,
        holding thread earlier = some acquired ∧
          acquired.Outcome payload seq) ∧
        Released earlier
  | _ :: earlier => Released earlier

/-- The steps of a call that has made its change. -/
def Wrote
    (thread : T)
    (change : Change V)
    (steps : List (Event V T)) : Prop :=
  ∃ payload seq value,
    change payload = some value ∧
      steps =
        [.unlocked thread value (seq + 2), .closed thread,
          .stored thread, .opened thread,
          .locked thread change payload seq]

/-- The steps of a call whose callable threw: the words are as before. -/
def Threw
    (thread : T)
    (change : Change V)
    (steps : List (Event V T)) : Prop :=
  ∃ payload seq,
    change payload = none ∧
      steps =
        [.unlocked thread payload seq, .locked thread change payload seq]

/-- The steps of a call that returned this result. -/
def Performs
    (thread : T) :
    Call V → Result V → List (Event V T) → Prop
  | .load, .value _, steps => steps = []
  | .loadValidated, .snapshot _ _, steps => steps = []
  | .store value, .done, steps => Wrote thread (fun _ => some value) steps
  | .update change, .done, steps => Wrote thread change steps
  | .update change, .threw, steps => Threw thread change steps
  | _, _, _ => False

/-- The value is of a generation that was in place since the call began. -/
def Current
    (initial : V)
    (thread : T)
    (events : List (Event V T))
    (index : Nat)
    (value : V) : Prop :=
  begun thread events ≤ index ∧
    index ≤ completed events ∧
    generation initial events index = some value

/-- What a call has found is a generation, and its counter says which. -/
def Found
    (initial : V)
    (thread : T)
    (events : List (Event V T)) :
    Result V → Prop
  | .value value => ∃ index, Current initial thread events index value
  | .snapshot value seq =>
      ∃ index,
        seq.toNat = 2 * index ∧
          Current initial thread events index value
  | _ => True

/-- What may happen next after a history. -/
def Allowed
    (initial : V)
    (earlier : List (Event V T)) :
    Event V T → Prop
  | .called thread _ => calling thread earlier = none
  | .returned thread call result =>
      calling thread earlier = some call ∧
        Performs thread call result (session thread earlier) ∧
        (completed earlier < 2 ^ 63 →
          Found initial thread earlier result)
  | .locked thread change _ _ =>
      ∃ call,
        calling thread earlier = some call ∧
          call.change = some change ∧
          session thread earlier = []
  | event => calling event.thread earlier ≠ none

/-- Whatever happened was allowed when it happened. -/
def Lawful (initial : V) : List (Event V T) → Prop
  | [] => True
  | event :: earlier => Allowed initial earlier event ∧ Lawful initial earlier

/-- After a release the lock is free and the words are as recorded. -/
def UnlockedNow (state : State V T) : Prop :=
  ∀ thread payload seq earlier,
    state.events = .unlocked thread payload seq :: earlier →
    state.lock = false ∧ state.payload = payload ∧ state.seq = seq

/-- What holds in every reachable world. -/
structure Invariant
    (initial : V)
    (world : State V T × Stage V T) : Prop where
  locked : world.1.lock = world.2.holder.isSome
  holding :
    ∀ thread acquired,
      holding thread world.1.events = some acquired ↔
        world.2.holder = some (thread, acquired)
  counter : world.1.seq = BitVec.ofNat 64 (position world.1.events)
  writing : writing world.1.events = world.2.odd
  count :
    (successes world.1.events).length = completed world.1.events
  stage : StageOk initial world.1 world.2
  lawful : Lawful initial world.1.events
  released : Released world.1.events
  unlocked : UnlockedNow world.1

/-- What one step of a thread guarantees to the others. -/
structure Guarantee
    (thread : T)
    (world after : State V T × Stage V T) : Prop where
  position : position world.1.events ≤ position after.1.events
  successes : successes world.1.events <+: successes after.1.events
  holder :
    ∀ other acquired,
      other ≠ thread →
      world.2.holder = some (other, acquired) →
      after.2 = world.2
  own :
    ∃ recent,
      after.1.events = recent ++ world.1.events ∧
        ∀ event ∈ recent, event.thread = thread

/-- The protocol of the sequence lock. -/
def protocol
    (initial : V) :
    Protocol (State V T) (Stage V T) T where
  Inv := Invariant initial
  Guar := Guarantee
  guar_refl _ _ :=
    { position := Nat.le_refl _
      successes := List.prefix_rfl
      holder := fun _ _ _ _ => rfl
      own := ⟨[], rfl, by simp⟩ }

variable {initial : V} {thread : T}

section Generations

/-- Completed generations stay when changes are added. -/
theorem generation_of_earlier
    {before after : List (Event V T)}
    {index : Nat}
    (grows : successes before <+: successes after)
    (done : index ≤ (successes before).length) :
    generation initial after index = generation initial before index := by
  obtain ⟨later, same⟩ := grows
  simp only [generation, ← same]
  rw [List.take_append_of_le_length done]

omit [DecidableEq T] in
theorem completed_le
    {before after : List (Event V T)}
    (le : position before ≤ position after) :
    completed before ≤ completed after := by
  simp only [position] at le
  have := Bool.toNat_le (writing after)
  omega

theorem Invariant.generation_eq
    {world after : State V T × Stage V T}
    (inv : Invariant initial world)
    (guarantee : Guarantee thread world after)
    {index : Nat}
    (done : index ≤ completed world.1.events) :
    generation initial after.1.events index =
      generation initial world.1.events index :=
  generation_of_earlier guarantee.successes (by rw [inv.count]; exact done)

/-- A write that closes adds the generation it made. -/
theorem generation_closed
    {state : State V T}
    {value next : V}
    {change : Change V}
    (pending : Pending thread change state.events)
    (count :
      (successes state.events).length = completed state.events)
    (current :
      generation initial state.events (completed state.events) =
        some value)
    (changed : change value = some next) :
    generation initial (.closed thread :: state.events)
        (completed (.closed thread :: state.events)) =
      some next := by
  have made :
      successes (.closed thread :: state.events) =
        successes state.events ++ [change] := pending
  have whole :
      (successes state.events).foldlM
          (fun value change => change value) initial = some value := by
    rw [← current, generation, List.take_of_length_le (by omega)]
  rw [generation, made, List.take_of_length_le (by simp [completed, count]),
    List.foldlM_append, whole]
  simp [changed]

end Generations

section Calls

/-- The events of other threads are no part of a call. -/
theorem call_append
    {recent : List (Event V T)}
    (foreign : ∀ event ∈ recent, event.thread ≠ thread)
    (earlier : List (Event V T)) :
    calling thread (recent ++ earlier) = calling thread earlier ∧
      session thread (recent ++ earlier) = session thread earlier ∧
      begun thread (recent ++ earlier) = begun thread earlier := by
  induction recent with
  | nil =>
      exact ⟨rfl, rfl, rfl⟩
  | cons event recent inductionHypothesis =>
      have different := foreign event (by simp)
      have rest :=
        inductionHypothesis fun other member =>
          foreign other (List.mem_cons_of_mem _ member)
      rw [← rest.1, ← rest.2.1, ← rest.2.2]
      cases event <;>
        simp_all [calling, session, begun, Event.thread]

/-- A call began no later than now. -/
theorem begun_le_completed
    (thread : T)
    (events : List (Event V T)) :
    begun thread events ≤ completed events := by
  induction events with
  | nil =>
      exact Nat.le_refl _
  | cons event earlier inductionHypothesis =>
      cases event with
      | called other call =>
          simp only [begun, completed]
          split
          · exact Nat.le_refl _
          · exact inductionHypothesis
      | closed other =>
          exact Nat.le_succ_of_le inductionHypothesis
      | _ =>
          exact inductionHypothesis

omit [DecidableEq T] in
/-- Completed writes stay complete. -/
theorem completed_append
    (recent earlier : List (Event V T)) :
    completed earlier ≤ completed (recent ++ earlier) := by
  induction recent with
  | nil =>
      exact Nat.le_refl _
  | cons event recent inductionHypothesis =>
      cases event with
      | closed other =>
          exact Nat.le_succ_of_le inductionHypothesis
      | _ =>
          exact inductionHypothesis

/-- The event at any position of a lawful history was allowed there. -/
theorem Lawful.at_event
    {later earlier : List (Event V T)}
    {event : Event V T}
    (lawful : Lawful initial (later ++ event :: earlier)) :
    Allowed initial earlier event := by
  induction later with
  | nil =>
      exact lawful.1
  | cons _ later inductionHypothesis =>
      exact inductionHypothesis lawful.2

end Calls

end ConcurrentCpp.SeqLock
