import ConcurrentCpp.IntrPointer

namespace ConcurrentCpp.IntrPointer

/-!
# What the accounts of a run may say

The deeds describe the lives of the objects: each object is owned once, dropped
once, disposed of once by the thread that dropped it, and destroyed once, and
its count is not touched from then on.  The events describe the words as atomic
registers: every read returns what was written last, and every call that
returned is explained by its own reads and by its own swap.
-/

variable {A W T : Type}

section Lives

variable [DecidableEq A]

/-- The life of an object according to the deeds, latest first. -/
def lifeOf
    (a : A) :
    List (Deed A W T) → Status T
  | [] => .free
  | .allocated thread b :: earlier =>
      if b = a then .fresh thread else lifeOf a earlier
  | .touched _ :: earlier => lifeOf a earlier
  | .owned b :: earlier => if b = a then .owned else lifeOf a earlier
  | .dropped thread b :: earlier =>
      if b = a then .condemned thread else lifeOf a earlier
  | .disposed _ b :: earlier => if b = a then .retired else lifeOf a earlier
  | .destroyed thread b :: earlier =>
      if b = a then .dying thread else lifeOf a earlier
  | .freed b :: earlier => if b = a then .free else lifeOf a earlier
  | .strayed _ :: earlier => lifeOf a earlier

/-- The object exists and its destructor has not begun. -/
def Status.Alive (status : Status T) : Prop :=
  status ≠ .free ∧ ∀ thread, status ≠ .dying thread

/-- A deed is allowed after the earlier ones. -/
def DeedOk
    (earlier : List (Deed A W T)) :
    Deed A W T → Prop
  | .allocated _ a => lifeOf a earlier = .free
  | .touched a => (lifeOf a earlier).Alive
  | .owned a => ∃ thread, lifeOf a earlier = .fresh thread
  | .dropped _ a => lifeOf a earlier = .owned
  | .disposed thread a => lifeOf a earlier = .condemned thread
  | .destroyed _ a => lifeOf a earlier = .retired
  | .freed a => ∃ thread, lifeOf a earlier = .dying thread
  | .strayed _ => False

/-- Every deed was allowed. -/
def Lawful : List (Deed A W T) → Prop
  | [] => True
  | deed :: earlier => DeedOk earlier deed ∧ Lawful earlier

end Lives

section Registers

/-- The call that an event belongs to. -/
def Event.caller : Event A W T → Option (T × Nat)
  | .called call _ _ => some call
  | .read call _ _ => some call
  | .swapped call _ _ _ => some call
  | .returned call _ => some call
  | .built _ _ => none
  | .gone _ => none

/-- What happened in one call, latest first. -/
def ofCall
    [DecidableEq T]
    (call : T × Nat)
    (events : List (Event A W T)) :
    List (Event A W T) :=
  events.filter fun event => event.caller = some call

/-- The content of a word according to the events. -/
def contents
    [DecidableEq W]
    (w : W) :
    List (Event A W T) → Option (Word A)
  | [] => none
  | .built other value :: earlier =>
      if other = w then some value else contents w earlier
  | .gone other :: earlier =>
      if other = w then none else contents w earlier
  | .swapped _ other _ new :: earlier =>
      if other = w then some new else contents w earlier
  | .called _ _ _ :: earlier => contents w earlier
  | .read _ _ _ :: earlier => contents w earlier
  | .returned _ _ :: earlier => contents w earlier

/-- All these events are reads of one word in one call. -/
def Reads
    (call : T × Nat)
    (w : W)
    (events : List (Event A W T)) : Prop :=
  ∀ event ∈ events, ∃ value, event = .read call w value

theorem Reads.nil
    {call : T × Nat}
    {w : W} :
    Reads call w ([] : List (Event A W T)) :=
  fun _ member => absurd member List.not_mem_nil

/-- The events of a call explain its outcome. -/
def Explains
    (call : T × Nat)
    (w : W)
    (trail : List (Event A W T)) :
    Operation A → Outcome A → Prop
  | .load, .loaded result =>
      ∃ reads, trail = .read call w result :: reads ∧ Reads call w reads
  | .load, .threw => Reads call w trail
  | .store desired, .stored =>
      ∃ old, trail = [.swapped call w old desired]
  | .compareExchange _ original desired, .exchanged true expected =>
      expected = original ∧
        ∃ reads,
          trail = .swapped call w original desired :: reads ∧
            Reads call w reads
  | .compareExchange strong original _, .exchanged false expected =>
      (strong = true → expected ≠ original) ∧
        ∃ reads,
          trail = .read call w expected :: reads ∧ Reads call w reads
  | .compareExchange _ _ _, .threw => Reads call w trail
  | _, _ => False

/-- An event is allowed after the earlier ones. -/
def EventOk
    [DecidableEq W]
    [DecidableEq T]
    (earlier : List (Event A W T)) :
    Event A W T → Prop
  | .called call _ _ => ofCall call earlier = []
  | .read _ w value => contents w earlier = some value
  | .swapped _ w old _ => contents w earlier = some old
  | .returned call outcome =>
      ∃ w operation trail,
        ofCall call earlier = trail ++ [.called call w operation] ∧
          Explains call w trail operation outcome
  | .built w _ => contents w earlier = none
  | .gone w => contents w earlier ≠ none

/-- Every event was allowed: the words are atomic registers. -/
def Legal
    [DecidableEq W]
    [DecidableEq T] :
    List (Event A W T) → Prop
  | [] => True
  | event :: earlier => EventOk earlier event ∧ Legal earlier

theorem ofCall_cons_own
    [DecidableEq T]
    {call : T × Nat}
    {event : Event A W T}
    {events : List (Event A W T)}
    (same : event.caller = some call) :
    ofCall call (event :: events) = event :: ofCall call events := by
  simp [ofCall, same]

theorem ofCall_cons_other
    [DecidableEq T]
    {call : T × Nat}
    {event : Event A W T}
    {events : List (Event A W T)}
    (different : event.caller ≠ some call) :
    ofCall call (event :: events) = ofCall call events := by
  simp [ofCall, different]

/-- New words do not belong to a call. -/
theorem ofCall_built
    [DecidableEq T]
    {call : T × Nat}
    {words : List W}
    {value : Word A}
    {events : List (Event A W T)} :
    ofCall call (words.map (fun w => .built w value) ++ events) =
      ofCall call events := by
  induction words with
  | nil =>
      rfl
  | cons w words inductionHypothesis =>
      rw [List.map_cons, List.cons_append,
        ofCall_cons_other (by simp [Event.caller]), inductionHypothesis]

theorem contents_built
    [DecidableEq W]
    {w : W}
    {words : List W}
    {value : Word A}
    {events : List (Event A W T)} :
    contents w (words.map (fun w => .built w value) ++ events) =
      if w ∈ words then some value else contents w events := by
  induction words with
  | nil =>
      rfl
  | cons other words inductionHypothesis =>
      simp only [List.map_cons, List.cons_append, contents,
        inductionHypothesis, List.mem_cons]
      by_cases same : other = w
      · simp [same]
      · simp [same, Ne.symm same]

theorem legal_built
    [DecidableEq W]
    [DecidableEq T]
    {words : List W}
    {value : Word A}
    {events : List (Event A W T)}
    (legal : Legal events)
    (distinct : words.Nodup)
    (vacant : ∀ w ∈ words, contents w events = none) :
    Legal (words.map (fun w => Event.built w value) ++ events) := by
  induction words with
  | nil =>
      exact legal
  | cons w words inductionHypothesis =>
      rw [List.nodup_cons] at distinct
      refine ⟨?_, inductionHypothesis distinct.2 fun other member =>
        vacant other (List.mem_cons_of_mem w member)⟩
      show
        contents w (words.map (fun w => Event.built w value) ++ events) =
          none
      rw [contents_built, if_neg distinct.1]
      exact vacant w List.mem_cons_self

/-- Every event of a legal history was allowed when it happened. -/
theorem Legal.suffix
    [DecidableEq W]
    [DecidableEq T]
    {later earlier : List (Event A W T)}
    (legal : Legal (later ++ earlier)) :
    Legal earlier := by
  induction later with
  | nil =>
      exact legal
  | cons event later inductionHypothesis =>
      exact inductionHypothesis legal.2

end Registers

section Instants

variable [DecidableEq W] [DecidableEq T]

/-- The word held the value at an instant inside the call. -/
def HeldIn
    (call : T × Nat)
    (w : W)
    (operation : Operation A)
    (value : Word A)
    (events : List (Event A W T)) : Prop :=
  ∃ later instant,
    events = later ++ instant ∧
      .called call w operation ∈ instant ∧
      contents w instant = some value

/-- The call has not modified a word. -/
def SwapFree
    (call : T × Nat)
    (events : List (Event A W T)) : Prop :=
  ∀ w old new, .swapped call w old new ∉ events

/-- At one instant inside the call the word was replaced, and only then. -/
def SwapsOnce
    (call : T × Nat)
    (w : W)
    (operation : Operation A)
    (old new : Word A)
    (events : List (Event A W T)) : Prop :=
  ∃ later instant,
    events = later ++ .swapped call w old new :: instant ∧
      .called call w operation ∈ instant ∧
      contents w instant = some old ∧
      SwapFree call later ∧
      SwapFree call instant

/-- What the caller of an operation may conclude from its outcome. -/
def TakesEffect
    (call : T × Nat)
    (w : W)
    (events : List (Event A W T)) :
    Operation A → Outcome A → Prop
  | .load, .loaded result =>
      HeldIn call w .load result events ∧ SwapFree call events
  | .load, .threw => SwapFree call events
  | .store desired, .stored =>
      ∃ old, SwapsOnce call w (.store desired) old desired events
  | .compareExchange strong original desired, .exchanged true expected =>
      expected = original ∧
        SwapsOnce call w (.compareExchange strong original desired)
          original desired events
  | .compareExchange strong original desired, .exchanged false expected =>
      (strong = true → expected ≠ original) ∧
        HeldIn call w (.compareExchange strong original desired) expected
          events ∧
        SwapFree call events
  | .compareExchange _ _ _, .threw => SwapFree call events
  | _, _ => False

end Instants

end ConcurrentCpp.IntrPointer
