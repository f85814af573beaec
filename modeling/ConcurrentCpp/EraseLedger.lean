import Mathlib.Data.Finset.Card
import Mathlib.Data.List.Nodup

namespace ConcurrentCpp

/-!
# What the calls on a marked list did

A record of the marks that calls of `erase_after` set and of the results that
calls returned.  A thread that has set a mark reports it before it sets
another, so the marks exceed the successful returns by the number of threads
that still have one to report.

A mark names what it deleted: a node, or one life of a node that is reused.
-/

variable {I T : Type}

/-- What happened to a marked list, for statements about runs. -/
inductive ListEvent (I T : Type) where
  | marked (thread : T) (identity : I)
  | inserted (thread : T) (identity : I) (result : Bool)
  | eraseCalled (thread : T)
  | erased (thread : T) (result : Bool)
  deriving DecidableEq

namespace ListEvent

/-- The mark that the event set. -/
def mark? : ListEvent I T → Option I
  | marked _ identity => some identity
  | _ => none

/-- The event is a successful return of `erase_after`. -/
def isErased : ListEvent I T → Bool
  | erased _ result => result
  | _ => false

variable [DecidableEq T]

/-- The event is a call of `erase_after` by this thread. -/
def isEraseCallOf (thread : T) : ListEvent I T → Bool
  | eraseCalled other => other = thread
  | _ => false

/-- The event is a return of `erase_after` to this thread. -/
def isReturnTo (thread : T) : ListEvent I T → Bool
  | erased other _ => other = thread
  | _ => false

end ListEvent

/-- What the marks of a record deleted, latest first. -/
def marksOf (events : List (ListEvent I T)) : List I :=
  events.filterMap ListEvent.mark?

/-- The number of successful returns of `erase_after`. -/
def erasedCount (events : List (ListEvent I T)) : Nat :=
  events.countP ListEvent.isErased

@[simp] theorem marksOf_marked
    {events : List (ListEvent I T)}
    {thread : T}
    {identity : I} :
    marksOf (.marked thread identity :: events) =
      identity :: marksOf events :=
  rfl

@[simp] theorem marksOf_inserted
    {events : List (ListEvent I T)}
    {thread : T}
    {identity : I}
    {result : Bool} :
    marksOf (.inserted thread identity result :: events) =
      marksOf events :=
  rfl

@[simp] theorem marksOf_eraseCalled
    {events : List (ListEvent I T)}
    {thread : T} :
    marksOf (.eraseCalled thread :: events) = marksOf events :=
  rfl

@[simp] theorem marksOf_erased
    {events : List (ListEvent I T)}
    {thread : T}
    {result : Bool} :
    marksOf (.erased thread result :: events) = marksOf events :=
  rfl

/-- The record agrees with what the threads are doing. -/
structure Ledger
    [DecidableEq T]
    (events : List (ListEvent I T))
    (erasing : T → Bool)
    (unreported : Finset T) : Prop where
  markedOnce : (marksOf events).Nodup
  reported :
    (marksOf events).length = erasedCount events + unreported.card
  unreportedErasing :
    ∀ {thread}, thread ∈ unreported → erasing thread = true
  calls :
    ∀ thread,
      events.countP (ListEvent.isEraseCallOf thread) =
        events.countP (ListEvent.isReturnTo thread) +
          (erasing thread).toNat

namespace Ledger

variable [DecidableEq T]
variable {events : List (ListEvent I T)} {erasing : T → Bool}
variable {unreported : Finset T} {thread : T}

theorem empty :
    Ledger ([] : List (ListEvent I T)) (fun _ => false) ∅ where
  markedOnce := List.nodup_nil
  reported := rfl
  unreportedErasing member := by simp at member
  calls _ := rfl

/-- The result of an insertion is recorded. -/
theorem recordInsert
    (ledger : Ledger events erasing unreported)
    (identity : I)
    (result : Bool) :
    Ledger (.inserted thread identity result :: events)
      erasing unreported where
  markedOnce := ledger.markedOnce
  reported := ledger.reported
  unreportedErasing := ledger.unreportedErasing
  calls := ledger.calls

/-- A thread enters `erase_after`. -/
theorem recordCall
    (ledger : Ledger events erasing unreported)
    (idle : erasing thread = false) :
    Ledger (.eraseCalled thread :: events)
      (Function.update erasing thread true) unreported where
  markedOnce := ledger.markedOnce
  reported := ledger.reported
  unreportedErasing {other} member := by
    by_cases same : other = thread
    · simp [same]
    · simpa [same] using ledger.unreportedErasing member
  calls other := by
    have count := ledger.calls other
    by_cases same : other = thread
    · subst same
      simp [ListEvent.isEraseCallOf, ListEvent.isReturnTo,
        count, idle]
    · simp [ListEvent.isEraseCallOf, ListEvent.isReturnTo,
        count, same, Ne.symm same]

/-- A thread inside `erase_after` sets a mark. -/
theorem recordMark
    (ledger : Ledger events erasing unreported)
    {identity : I}
    (fresh : identity ∉ marksOf events)
    (busy : erasing thread = true)
    (reportedAll : thread ∉ unreported) :
    Ledger (.marked thread identity :: events)
      erasing (insert thread unreported) where
  markedOnce := List.nodup_cons.mpr ⟨fresh, ledger.markedOnce⟩
  reported := by
    rw [Finset.card_insert_of_notMem reportedAll]
    have count := ledger.reported
    simp only [erasedCount] at count
    simp [erasedCount, ListEvent.isErased, count, Nat.add_assoc]
  unreportedErasing {other} member := by
    rcases Finset.mem_insert.mp member with same | old
    · rw [same]
      exact busy
    · exact ledger.unreportedErasing old
  calls := ledger.calls

/-- A thread leaves `erase_after` and reports its mark if it set one. -/
theorem recordReturn
    (ledger : Ledger events erasing unreported)
    {result : Bool}
    (busy : erasing thread = true)
    (owed : thread ∈ unreported ↔ result = true) :
    Ledger (.erased thread result :: events)
      (Function.update erasing thread false)
      (unreported.erase thread) where
  markedOnce := ledger.markedOnce
  reported := by
    rw [marksOf_erased, ledger.reported]
    cases result with
    | false =>
        have absent : thread ∉ unreported := by simp [owed]
        simp [erasedCount, ListEvent.isErased,
          Finset.erase_eq_of_notMem absent]
    | true =>
        have member : thread ∈ unreported := owed.mpr rfl
        have positive := Finset.card_pos.mpr ⟨thread, member⟩
        have count :
            erasedCount (.erased thread true :: events) =
              erasedCount events + 1 := by
          simp [erasedCount, ListEvent.isErased, List.countP_cons]
        rw [count, Finset.card_erase_of_mem member]
        omega
  unreportedErasing {other} member := by
    obtain ⟨different, old⟩ := Finset.mem_erase.mp member
    simpa [different] using ledger.unreportedErasing old
  calls other := by
    have count := ledger.calls other
    by_cases same : other = thread
    · subst same
      simp [ListEvent.isEraseCallOf, ListEvent.isReturnTo,
        count, busy]
    · simp [ListEvent.isEraseCallOf, ListEvent.isReturnTo,
        count, same, Ne.symm same]

end Ledger

end ConcurrentCpp
