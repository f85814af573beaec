import ConcurrentCpp.AppendDequeData

namespace ConcurrentCpp.AppendDeque

/-!
# Histories of the append-only deque

A call of a writer takes effect where it stores `size_`.  A history is legal
if every such store continues the sequence of sizes, every critical section
does what its call is for, and every call returns what its own critical
section gave it.  From this the indices that `emplace_back` returns are
different.
-/

variable {D B V T : Type}

/-- The thread that an event belongs to. -/
def Event.thread : Event D B V T → T
  | .called thread _ => thread
  | .constructed thread _ _ => thread
  | .resized thread _ _ => thread
  | .released thread _ _ _ _ => thread
  | .returned thread _ _ => thread
  | .referred thread _ _ => thread
  | .dereferenced thread _ _ => thread

/-- What a thread has done in its call after the event. -/
def Event.during
    (earlier : List (Event D B V T)) :
    Event D B V T → List (Event D B V T)
  | .called thread call => [.called thread call]
  | .resized thread old new => .resized thread old new :: earlier
  | .released thread call before after outcome =>
      .released thread call before after outcome :: earlier
  | .returned _ _ _ => []
  | _ => earlier

section History

variable [DecidableEq T]

/-- What a thread has done in the call that it is in, latest first. -/
def marks
    (thread : T) :
    List (Event D B V T) → List (Event D B V T)
  | [] => []
  | event :: earlier =>
      if event.thread = thread then
        event.during (marks thread earlier)
      else
        marks thread earlier

/-- The size that the history has stored. -/
def sizeOf : List (Event D B V T) → Nat
  | [] => 0
  | .resized _ _ new :: _ => new
  | _ :: earlier => sizeOf earlier

/-- The indices that the calls have filled, in their order. -/
def filled : List (Event D B V T) → List Nat
  | [] => []
  | .resized _ old new :: earlier =>
      filled earlier ++ List.range' old (new - old)
  | _ :: earlier => filled earlier

/-- The indices that `emplace_back` has returned, latest first. -/
def returnedIndices : List (Event D B V T) → List Nat
  | [] => []
  | .returned _ _ (.index index) :: earlier =>
      index :: returnedIndices earlier
  | _ :: earlier => returnedIndices earlier

/-- The element at an index has a value. -/
def Data.Holds
    (config : Config V)
    (data : Data D B V)
    (index : Nat)
    (value : V) : Prop :=
  ∃ address,
    data.addressAt config data.directory index = some address ∧
      data.memory address.block address.offset.toNat = some value

/-- Every element below the size has a value. -/
def Located
    (config : Config V)
    (data : Data D B V) : Prop :=
  ∀ index < data.size, ∃ value, data.Holds config index value

/-- What the critical section of a call is for. -/
def Meets
    (config : Config V)
    (before after : Data D B V) :
    Call V → Outcome → Prop
  | .emplaceBack value, .index index =>
      index = before.size ∧ after.size = index + 1 ∧
        after.Holds config index value
  | .emplaceBack _, .threw => after.size = before.size
  | .resize newSize, .done =>
      after.size = max before.size newSize ∧
        ∀ index,
          before.size ≤ index →
          index < newSize →
          after.Holds config index config.initial
  | .resize _, .threw => after.size = before.size
  | .reserve newCapacity, .done =>
      after.size = before.size ∧
        newCapacity ≤ after.capacity * config.blockSize
  | .reserve _, .threw =>
      after.directory = before.directory ∧
        after.capacity = before.capacity ∧
        after.size = before.size
  | .capacity, .count count =>
      after = before ∧ count = before.capacity * config.blockSize
  | _, _ => False

/-- A critical section from the lock to the unlock. -/
structure Section
    (config : Config V)
    (call : Call V)
    (before after : Data D B V)
    (outcome : Outcome) : Prop where
  grows : Grows config before after
  formedBefore : Formed config before
  located : Located config before
  formed : Formed config after
  meets : Meets config before after call outcome

/-- The store of `size_` in a critical section, if there is one. -/
def change
    (thread : T)
    (before after : Data D B V) :
    List (Event D B V T) :=
  if before.size < after.size then
    [.resized thread before.size after.size]
  else
    []

/-- An event is allowed after this history. -/
def EventOk
    (config : Config V)
    (earlier : List (Event D B V T)) :
    Event D B V T → Prop
  | .resized _ old new => old = sizeOf earlier ∧ old < new
  | .released thread call before after outcome =>
      Section config call before after outcome ∧
        marks thread earlier =
          change thread before after ++ [.called thread call]
  | .returned thread call outcome =>
      (∃ before after,
        marks thread earlier =
          .released thread call before after outcome ::
            (change thread before after ++ [.called thread call])) ∨
      (∃ newSize,
        call = .resize newSize ∧ outcome = .done ∧
          marks thread earlier = [.called thread call] ∧
          newSize ≤ sizeOf earlier)
  | _ => True

/-- The history is one of an append-only deque. -/
def Legal
    (config : Config V) :
    List (Event D B V T) → Prop
  | [] => True
  | event :: earlier =>
      EventOk config earlier event ∧ Legal config earlier

end History

variable [DecidableEq T] {config : Config V}
variable {events : List (Event D B V T)}

section Marks

variable {thread : T}

theorem marks_own
    {event : Event D B V T}
    (own : event.thread = thread) :
    marks thread (event :: events) = event.during (marks thread events) :=
  if_pos own

theorem marks_other
    {event : Event D B V T}
    (other : event.thread ≠ thread) :
    marks thread (event :: events) = marks thread events :=
  if_neg other

/-- What a thread has done is in the history. -/
theorem marks_subset
    (thread : T)
    (events : List (Event D B V T)) :
    marks thread events ⊆ events := by
  induction events with
  | nil =>
      exact List.Subset.refl _
  | cons event earlier inductionHypothesis =>
      have later : marks thread earlier ⊆ event :: earlier :=
        fun _ member =>
          List.mem_cons_of_mem _ (inductionHypothesis member)
      by_cases own : event.thread = thread
      · rw [marks_own own]
        cases event with
        | called _ _ =>
            exact fun _ member =>
              List.mem_cons.mpr (.inl (List.mem_singleton.mp member))
        | resized _ _ _ =>
            exact List.cons_subset.mpr ⟨List.mem_cons_self, later⟩
        | released _ _ _ _ _ =>
            exact List.cons_subset.mpr ⟨List.mem_cons_self, later⟩
        | returned _ _ _ =>
            exact List.nil_subset _
        | _ =>
            exact later
      · rw [marks_other own]
        exact later

end Marks

/-- Every critical section of a legal history does what its call is for. -/
theorem Legal.released
    {thread : T}
    {call : Call V}
    {before after : Data D B V}
    {outcome : Outcome}
    (legal : Legal config events)
    (member : .released thread call before after outcome ∈ events) :
    Section config call before after outcome := by
  induction events with
  | nil =>
      cases member
  | cons event earlier inductionHypothesis =>
      rcases List.mem_cons.mp member with rfl | old
      · exact legal.1.1
      · exact inductionHypothesis legal.2 old

/-- The filled indices are those below the size, each filled once. -/
theorem Legal.filled_eq
    (legal : Legal config events) :
    filled events = List.range (sizeOf events) := by
  induction events with
  | nil =>
      rfl
  | cons event earlier inductionHypothesis =>
      have before := inductionHypothesis legal.2
      cases event with
      | resized thread old new =>
          obtain ⟨shape, increases⟩ :
              old = sizeOf earlier ∧ old < new := legal.1
          have split : new = old + (new - old) := by omega
          simp only [filled, sizeOf, before, ← shape]
          rw [List.range_eq_range', List.range_eq_range']
          conv_rhs => rw [split]
          simpa using List.range'_append_1 (s := 0) (m := old)
            (n := new - old)
      | _ =>
          exact before

/-- The indices of the calls that have taken effect and not returned. -/
def Pending
    (events : List (Event D B V T))
    (thread : T)
    (index : Nat) : Prop :=
  ∃ old new,
    .resized thread old new ∈ marks thread events ∧
      old ≤ index ∧ index < new

/-- How the returned indices relate to those that are pending. -/
structure Indexed
    (events : List (Event D B V T)) : Prop where
  bounded : ∀ index ∈ returnedIndices events, index < sizeOf events
  distinct : (returnedIndices events).Nodup
  pending :
    ∀ thread index,
      Pending events thread index →
      index < sizeOf events ∧ index ∉ returnedIndices events
  apart :
    ∀ first second index,
      Pending events first index →
      Pending events second index →
      first = second

/-- A pending index of another thread was pending before. -/
theorem Pending.earlier
    {event : Event D B V T}
    {thread : T}
    {index : Nat}
    (pending : Pending (event :: events) thread index)
    (unchanged :
      event.thread = thread →
      event.during (marks thread events) ⊆
        event :: marks thread events)
    (silent : ∀ old new, event ≠ .resized thread old new) :
    Pending events thread index := by
  obtain ⟨old, new, member, bounds⟩ := pending
  refine ⟨old, new, ?_, bounds⟩
  by_cases own : event.thread = thread
  · rw [marks_own own] at member
    rcases List.mem_cons.mp (unchanged own member) with same | earlier
    · exact absurd same.symm (silent old new)
    · exact earlier
  · rwa [marks_other own] at member

namespace Indexed

/-- An event that returns no index and stores no size. -/
theorem quiet
    {event : Event D B V T}
    (indexed : Indexed events)
    (sameReturns :
      returnedIndices (event :: events) = returnedIndices events)
    (sameSize : sizeOf (event :: events) = sizeOf events)
    (shrinks :
      ∀ thread, event.during (marks thread events) ⊆
        event :: marks thread events)
    (silent : ∀ thread old new, event ≠ .resized thread old new) :
    Indexed (event :: events) := by
  have earlier :
      ∀ thread index,
        Pending (event :: events) thread index →
        Pending events thread index :=
    fun thread _ pending =>
      pending.earlier (fun _ => shrinks thread) (silent thread)
  refine ⟨?_, ?_, ?_, ?_⟩
  · rw [sameReturns, sameSize]
    exact indexed.bounded
  · rw [sameReturns]
    exact indexed.distinct
  · rw [sameReturns, sameSize]
    exact fun thread index pending =>
      indexed.pending thread index (earlier thread index pending)
  · exact fun first second index atFirst atSecond =>
      indexed.apart first second index
        (earlier first index atFirst) (earlier second index atSecond)

/-- A store of a new size. -/
theorem resized
    {thread : T}
    {old new : Nat}
    (indexed : Indexed events)
    (continues : old = sizeOf events)
    (increases : old < new) :
    Indexed (.resized thread old new :: events) := by
  have earlier :
      ∀ other index,
        Pending (.resized thread old new :: events) other index →
        (other = thread ∧ old ≤ index ∧ index < new) ∨
          Pending events other index := by
    rintro other index ⟨low, high, member, bounds⟩
    by_cases own : thread = other
    · subst own
      simp only [marks, Event.thread, ↓reduceIte, Event.during] at member
      rcases List.mem_cons.mp member with same | later
      · cases same
        exact .inl ⟨rfl, bounds⟩
      · exact .inr ⟨low, high, later, bounds⟩
    · simp only [marks, Event.thread, own, ↓reduceIte] at member
      exact .inr ⟨low, high, member, bounds⟩
  refine ⟨?_, indexed.distinct, ?_, ?_⟩
  · intro index member
    have := indexed.bounded index member
    simp only [sizeOf]
    omega
  · intro other index pending
    simp only [sizeOf, returnedIndices]
    rcases earlier other index pending with ⟨-, low, high⟩ | before
    · refine ⟨high, fun member => ?_⟩
      have := indexed.bounded index member
      omega
    · have known := indexed.pending other index before
      exact ⟨by omega, known.2⟩
  · intro first second index atFirst atSecond
    rcases earlier first index atFirst with ⟨rfl, low, -⟩ | beforeFirst
    · rcases earlier second index atSecond with ⟨rfl, -⟩ | beforeSecond
      · rfl
      · have := (indexed.pending second index beforeSecond).1
        omega
    · rcases earlier second index atSecond with ⟨rfl, low, -⟩ | before
      · have := (indexed.pending first index beforeFirst).1
        omega
      · exact indexed.apart first second index beforeFirst before

/-- A call returns an index that is pending for its thread. -/
theorem returned
    {thread : T}
    {call : Call V}
    {index : Nat}
    (indexed : Indexed events)
    (waiting : Pending events thread index) :
    Indexed (.returned thread call (.index index) :: events) := by
  have known := indexed.pending thread index waiting
  have earlier :
      ∀ other position,
        Pending (.returned thread call (.index index) :: events)
          other position →
        other ≠ thread ∧ Pending events other position := by
    rintro other position ⟨low, high, member, bounds⟩
    by_cases own : thread = other
    · subst own
      simp only [marks, Event.thread, ↓reduceIte, Event.during] at member
      cases member
    · simp only [marks, Event.thread, own, ↓reduceIte] at member
      exact ⟨Ne.symm own, low, high, member, bounds⟩
  refine ⟨?_, ?_, ?_, ?_⟩
  · intro position member
    rcases List.mem_cons.mp member with rfl | old
    · exact known.1
    · exact indexed.bounded position old
  · exact List.nodup_cons.mpr ⟨known.2, indexed.distinct⟩
  · intro other position pending
    obtain ⟨different, before⟩ := earlier other position pending
    have knownOther := indexed.pending other position before
    refine ⟨knownOther.1, fun member => ?_⟩
    rcases List.mem_cons.mp member with rfl | old
    · exact different (indexed.apart other thread _ before waiting)
    · exact knownOther.2 old
  · exact fun first second position atFirst atSecond =>
      indexed.apart first second position
        (earlier first position atFirst).2
        (earlier second position atSecond).2

end Indexed

/-- An index is returned by an `emplace_back` that has appended it. -/
theorem Legal.appended
    {thread : T}
    {call : Call V}
    {index : Nat}
    (legal : Legal config events)
    (returns : EventOk config events (.returned thread call (.index index))) :
    (∃ value, call = .emplaceBack value) ∧
      .resized thread index (index + 1) ∈ marks thread events := by
  rcases returns with ⟨before, after, shape⟩ | ⟨_, _, impossible, _⟩
  · have member :
        .released thread call before after (.index index) ∈
          marks thread events := by
      rw [shape]
      exact List.mem_cons_self
    have meets := (legal.released (marks_subset _ _ member)).meets
    cases call with
    | emplaceBack value =>
        obtain ⟨rfl, grown, -⟩ := meets
        refine ⟨⟨value, rfl⟩, ?_⟩
        rw [shape, change, if_pos (by omega), grown]
        simp
    | _ =>
        exact meets.elim
  · cases impossible

/-- So it was pending. -/
theorem Legal.pending
    {thread : T}
    {call : Call V}
    {index : Nat}
    (legal : Legal config events)
    (returns : EventOk config events (.returned thread call (.index index))) :
    Pending events thread index :=
  ⟨index, index + 1, (legal.appended returns).2, Nat.le_refl _,
    Nat.lt_succ_self _⟩

theorem Legal.indexed
    (legal : Legal config events) :
    Indexed events := by
  induction events with
  | nil =>
      refine ⟨?_, List.nodup_nil, ?_, ?_⟩
      · intro index member
        cases member
      · rintro thread index ⟨old, new, member, -⟩
        cases member
      · rintro first second index ⟨old, new, member, -⟩
        cases member
  | cons event earlier inductionHypothesis =>
      have before := inductionHypothesis legal.2
      cases event with
      | resized thread old new =>
          exact before.resized legal.1.1 legal.1.2
      | returned thread call outcome =>
          cases outcome with
          | index index =>
              exact before.returned (legal.2.pending legal.1)
          | _ =>
              exact before.quiet rfl rfl
                (fun _ => List.nil_subset _)
                (fun _ _ _ same => nomatch same)
      | called thread call =>
          exact before.quiet rfl rfl
            (fun _ => List.cons_subset.mpr
              ⟨List.mem_cons_self, List.nil_subset _⟩)
            (fun _ _ _ same => nomatch same)
      | released thread call found left outcome =>
          exact before.quiet rfl rfl
            (fun _ => List.Subset.refl _)
            (fun _ _ _ same => nomatch same)
      | _ =>
          exact before.quiet rfl rfl
            (fun _ => List.subset_cons_self _ _)
            (fun _ _ _ same => nomatch same)

end ConcurrentCpp.AppendDeque
