import Mathlib.Data.List.Basic
import Mathlib.Logic.Basic

namespace ConcurrentCpp

/-!
# Histories of a concurrent set

A history records, newest first, when calls begin and end and when a step puts
a key into the abstract set or takes it out.  The history at an earlier moment
is a suffix of it, so an instant of a call is a suffix that still holds the
beginning of that call.  A history is lawful if every call that returned has an
instant at which the abstract operation gives its result.
-/

/-- The operations of a set. -/
inductive SetOp (K : Type) where
  | contains (key : K)
  | insert (key : K)
  | erase (key : K)
  deriving DecidableEq

/-- What a history records. -/
inductive SetEvent (T K : Type) where
  | called (thread : T) (operation : SetOp K)
  | added (thread : T) (key : K)
  | removed (thread : T) (key : K)
  | returned (thread : T) (operation : SetOp K) (result : Bool)
  | threw (thread : T) (operation : SetOp K)
  deriving DecidableEq

variable {T K : Type}

/-- The key of an operation. -/
def SetOp.key : SetOp K → K
  | contains key => key
  | insert key => key
  | erase key => key

/-- What the abstract operation returns, given whether its key is present. -/
def SetOp.outcome : SetOp K → Bool → Bool
  | contains _, present => present
  | insert _, present => !present
  | erase _, present => present

/-- The change of the set by an operation with this result. -/
def SetOp.update
    (thread : T) :
    SetOp K → Bool → Option (SetEvent T K)
  | insert key, true => some (.added thread key)
  | erase key, true => some (.removed thread key)
  | _, _ => none

/-- The thread whose step the event is. -/
def SetEvent.thread : SetEvent T K → T
  | called thread _ => thread
  | added thread _ => thread
  | removed thread _ => thread
  | returned thread _ _ => thread
  | threw thread _ => thread

/-- The event changes the set. -/
def SetEvent.Updates : SetEvent T K → Prop
  | added _ _ => True
  | removed _ _ => True
  | _ => False

section Membership

variable [DecidableEq K]

/-- Whether the key is in the abstract set after the history. -/
def member : List (SetEvent T K) → K → Bool
  | [], _ => false
  | .added _ other :: earlier, key =>
      if other = key then true else member earlier key
  | .removed _ other :: earlier, key =>
      if other = key then false else member earlier key
  | _ :: earlier, key => member earlier key

/-- How often the key was put into the set. -/
def additions (events : List (SetEvent T K)) (key : K) : Nat :=
  events.countP fun event =>
    match event with
    | .added _ other => other = key
    | _ => false

/-- How often the key was taken out of the set. -/
def removals (events : List (SetEvent T K)) (key : K) : Nat :=
  events.countP fun event =>
    match event with
    | .removed _ other => other = key
    | _ => false

theorem member_of_not_updates
    {event : SetEvent T K}
    (neutral : ¬ event.Updates)
    (earlier : List (SetEvent T K))
    (key : K) :
    member (event :: earlier) key = member earlier key := by
  cases event with
  | added thread other =>
      exact (neutral trivial).elim
  | removed thread other =>
      exact (neutral trivial).elim
  | called thread operation =>
      rfl
  | returned thread operation result =>
      rfl
  | threw thread operation =>
      rfl

end Membership

section Calls

variable [DecidableEq T]

/-- The call that a thread is in. -/
def calling : List (SetEvent T K) → T → Option (SetOp K)
  | [], _ => none
  | .called other operation :: earlier, thread =>
      if other = thread then some operation else calling earlier thread
  | .returned other _ _ :: earlier, thread =>
      if other = thread then none else calling earlier thread
  | .threw other _ :: earlier, thread =>
      if other = thread then none else calling earlier thread
  | _ :: earlier, thread => calling earlier thread

/-- Whether a thread has changed the set since it last began a call. -/
def updated : List (SetEvent T K) → T → Bool
  | [], _ => false
  | .called other _ :: earlier, thread =>
      if other = thread then false else updated earlier thread
  | .added other _ :: earlier, thread =>
      if other = thread then true else updated earlier thread
  | .removed other _ :: earlier, thread =>
      if other = thread then true else updated earlier thread
  | _ :: earlier, thread => updated earlier thread

theorem calling_other
    {event : SetEvent T K}
    {thread : T}
    (different : event.thread ≠ thread)
    (earlier : List (SetEvent T K)) :
    calling (event :: earlier) thread = calling earlier thread := by
  cases event <;> simp_all [calling, SetEvent.thread]

theorem updated_other
    {event : SetEvent T K}
    {thread : T}
    (different : event.thread ≠ thread)
    (earlier : List (SetEvent T K)) :
    updated (event :: earlier) thread = updated earlier thread := by
  cases event <;> simp_all [updated, SetEvent.thread]

/-- The events of other threads leave a thread in its call. -/
theorem calling_append
    {thread : T}
    {recent : List (SetEvent T K)}
    (foreign : ∀ event ∈ recent, event.thread ≠ thread)
    (earlier : List (SetEvent T K)) :
    calling (recent ++ earlier) thread = calling earlier thread := by
  induction recent with
  | nil =>
      rfl
  | cons event recent inductionHypothesis =>
      rw [List.cons_append, calling_other (foreign event (by simp))]
      exact inductionHypothesis fun other member =>
        foreign other (List.mem_cons_of_mem _ member)

theorem updated_append
    {thread : T}
    {recent : List (SetEvent T K)}
    (foreign : ∀ event ∈ recent, event.thread ≠ thread)
    (earlier : List (SetEvent T K)) :
    updated (recent ++ earlier) thread = updated earlier thread := by
  induction recent with
  | nil =>
      rfl
  | cons event recent inductionHypothesis =>
      rw [List.cons_append, updated_other (foreign event (by simp))]
      exact inductionHypothesis fun other member =>
        foreign other (List.mem_cons_of_mem _ member)

end Calls

/-- Something held at an instant since the thread last began a call. -/
def Since
    (thread : T)
    (events : List (SetEvent T K))
    (property : List (SetEvent T K) → Prop) : Prop :=
  ∃ recent earlier,
    events = recent ++ earlier ∧
      (∀ operation, .called thread operation ∉ recent) ∧
      property earlier

namespace Since

variable
  {thread : T}
  {events : List (SetEvent T K)}
  {property weaker : List (SetEvent T K) → Prop}

/-- What holds now held at an instant of the call. -/
theorem now
    (known : property events) :
    Since thread events property :=
  ⟨[], events, rfl, by simp, known⟩

/-- More events change nothing unless the thread begins another call. -/
theorem later
    (since : Since thread events property)
    {recent : List (SetEvent T K)}
    (noCall : ∀ operation, .called thread operation ∉ recent) :
    Since thread (recent ++ events) property := by
  obtain ⟨middle, earlier, rfl, noCallMiddle, known⟩ := since
  refine ⟨recent ++ middle, earlier, by simp, ?_, known⟩
  intro operation member
  rcases List.mem_append.mp member with first | second
  · exact noCall operation first
  · exact noCallMiddle operation second

theorem imp
    (since : Since thread events property)
    (implies : ∀ instant, property instant → weaker instant) :
    Since thread events weaker := by
  obtain ⟨recent, earlier, split, noCall, known⟩ := since
  exact ⟨recent, earlier, split, noCall, implies earlier known⟩

end Since

variable [DecidableEq K] [DecidableEq T]

/--
At the instant, which may be the step of the thread that changes the set, the
abstract operation gives the result.
-/
def Performs
    (thread : T)
    (operation : SetOp K)
    (result : Bool)
    (instant : List (SetEvent T K)) : Prop :=
  match operation.update thread result with
  | none => operation.outcome (member instant operation.key) = result
  | some change =>
      ∃ before,
        instant = change :: before ∧
          operation.outcome (member before operation.key) = result

/-- The event may follow the earlier ones. -/
def Allowed (earlier : List (SetEvent T K)) : SetEvent T K → Prop
  | .called thread _ => calling earlier thread = none
  | .added thread key =>
      calling earlier thread = some (.insert key) ∧
        updated earlier thread = false ∧ member earlier key = false
  | .removed thread key =>
      calling earlier thread = some (.erase key) ∧
        updated earlier thread = false ∧ member earlier key = true
  | .returned thread operation result =>
      calling earlier thread = some operation ∧
        updated earlier thread = (operation.update thread result).isSome ∧
        Since thread earlier (Performs thread operation result)
  | .threw thread operation => calling earlier thread = some operation

/-- Every event is allowed by the ones before it. -/
def Lawful : List (SetEvent T K) → Prop
  | [] => True
  | event :: earlier => Allowed earlier event ∧ Lawful earlier

/-- The event at any position of a lawful history is allowed there. -/
theorem Lawful.at_event
    {later earlier : List (SetEvent T K)}
    {event : SetEvent T K}
    (lawful : Lawful (later ++ event :: earlier)) :
    Allowed earlier event := by
  induction later with
  | nil =>
      exact lawful.1
  | cons _ later inductionHypothesis =>
      exact inductionHypothesis lawful.2

/-- Calls that throw have not changed the set. -/
def Harmless : List (SetEvent T K) → Prop
  | [] => True
  | .threw thread _ :: earlier =>
      updated earlier thread = false ∧ Harmless earlier
  | _ :: earlier => Harmless earlier

omit [DecidableEq K] in
/-- The call that a thread is in began at some point of the history. -/
theorem calling_began
    {events : List (SetEvent T K)}
    {thread : T}
    {operation : SetOp K}
    (inCall : calling events thread = some operation)
    (unchanged : updated events thread = false) :
    ∃ recent older,
      events = recent ++ .called thread operation :: older ∧
        ∀ event ∈ recent, event.thread = thread → ¬ event.Updates := by
  induction events with
  | nil =>
      cases inCall
  | cons event earlier inductionHypothesis =>
      by_cases own : event.thread = thread
      · cases event with
        | called other begun =>
            obtain rfl : other = thread := own
            simp only [calling, ↓reduceIte, Option.some.injEq] at inCall
            subst inCall
            exact ⟨[], earlier, rfl, fun _ member => by cases member⟩
        | added other key =>
            obtain rfl : other = thread := own
            simp [updated] at unchanged
        | removed other key =>
            obtain rfl : other = thread := own
            simp [updated] at unchanged
        | returned other ended result =>
            obtain rfl : other = thread := own
            simp [calling] at inCall
        | threw other ended =>
            obtain rfl : other = thread := own
            simp [calling] at inCall
      · rw [calling_other own] at inCall
        rw [updated_other own] at unchanged
        obtain ⟨recent, older, rfl, silent⟩ :=
          inductionHypothesis inCall unchanged
        refine ⟨event :: recent, older, rfl, ?_⟩
        intro other member mine
        rcases List.mem_cons.mp member with rfl | later
        · exact absurd mine own
        · exact silent other later mine

omit [DecidableEq K] in
/-- A call that threw had not changed the set. -/
theorem Harmless.at_threw
    {later earlier : List (SetEvent T K)}
    {thread : T}
    {operation : SetOp K}
    (harmless : Harmless (later ++ .threw thread operation :: earlier)) :
    updated earlier thread = false := by
  induction later with
  | nil =>
      exact harmless.1
  | cons event later inductionHypothesis =>
      refine inductionHypothesis ?_
      cases event with
      | threw other ended =>
          exact harmless.2
      | called other begun =>
          exact harmless
      | added other key =>
          exact harmless
      | removed other key =>
          exact harmless
      | returned other ended result =>
          exact harmless

/-- A key was put into the set once more than it was taken out, or as often. -/
theorem Lawful.balance
    {events : List (SetEvent T K)}
    (lawful : Lawful events)
    (key : K) :
    additions events key =
      removals events key + (member events key).toNat := by
  induction events with
  | nil =>
      rfl
  | cons event earlier inductionHypothesis =>
      have before := inductionHypothesis lawful.2
      simp only [additions, removals, List.countP_cons] at before ⊢
      cases event with
      | added thread other =>
          by_cases same : other = key
          · subst same
            have absent := lawful.1.2.2
            simp only [absent, Bool.toNat_false] at before
            simp [member, before]
          · simp [member, same, before]
      | removed thread other =>
          by_cases same : other = key
          · subst same
            have present := lawful.1.2.2
            simp only [present, Bool.toNat_true] at before
            simp [member, before]
          · simp [member, same, before]
      | called thread operation =>
          simpa [member] using before
      | returned thread operation result =>
          simpa [member] using before
      | threw thread operation =>
          simpa [member] using before

end ConcurrentCpp
