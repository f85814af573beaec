import Mathlib.Data.Finset.Card
import Mathlib.Order.Lattice
import ConcurrentCpp.RelyGuarantee

namespace ConcurrentCpp.AtomicMax

/-!
# Raising an atomic to a maximum

`atomic_max(target, val)` over a linearly ordered type.  The load and every
`compare_exchange_weak` are one step each; the scheduler chooses which
exchanges fail spuriously and what every thread calls next.  The history
records, newest first, when calls begin and end and which exchanges succeeded;
no step depends on it.
-/

variable {V T : Type}

/-- What the history records. -/
inductive Event (V T : Type) where
  | called (thread : T) (value : V)
  | raised (thread : T) (value : V)
  | returned (thread : T) (value : V) (result : Bool)
  deriving DecidableEq

/-- The thread whose step the event is. -/
def Event.thread : Event V T → T
  | called thread _ => thread
  | raised thread _ => thread
  | returned thread _ _ => thread

/-- The target, the threads inside a call, and what happened so far. -/
structure State (V T : Type) where
  target : V
  inside : List T
  events : List (Event V T)

/-- The scheduler's choices. -/
inductive Choice (V : Type) where
  | proceed
  | spurious
  | call (value : V)

/-- Programs on the target. -/
abbrev Program (V T : Type) := Prog (State V T) (Choice V)

section Programs

variable [LinearOrder V]

/-- `target.compare_exchange_weak(cur, val)`; the value of `cur` afterwards. -/
def casRaise
    (thread : T)
    (current value : V) :
    Program V T (Bool × V) :=
  Prog.atomic fun state choice =>
    match choice with
    | .spurious => some ((false, state.target), state)
    | _ =>
        if state.target = current then
          some ((true, current),
            { state with
              target := value
              events := .raised thread value :: state.events })
        else
          some ((false, state.target), state)

/-- `atomic_max(target, val)`. -/
def atomicMax
    (thread : T)
    (value : V) :
    Program V T Bool := do
  let current ← Prog.read fun state => state.target
  Prog.loop current fun current =>
    if current < value then do
      let outcome ← casRaise thread current value
      if outcome.1 then
        Prog.leave true
      else
        Prog.again outcome.2
    else
      Prog.leave false

/-- A client picks the argument of its next call. -/
def pick (thread : T) : Program V T V :=
  Prog.atomic fun state choice =>
    match choice with
    | .call value =>
        some (value,
          { state with
            inside := thread :: state.inside
            events := .called thread value :: state.events })
    | _ => none

variable [DecidableEq T]

/-- A call returns. -/
def finish
    (thread : T)
    (value : V)
    (result : Bool) :
    Program V T Unit :=
  Prog.write fun state =>
    { state with
      inside := state.inside.erase thread
      events := .returned thread value result :: state.events }

/-- A client thread makes one call after the other. -/
def client (thread : T) : Program V T Unit :=
  Prog.loop () fun _ => do
    let value ← pick thread
    let result ← atomicMax thread value
    finish thread value result
    Prog.again ()

/-- Any number of client threads on a target with this value. -/
def initialPool (initial : V) : Pool (State V T) (Choice V) T where
  shared := ⟨initial, [], []⟩
  threads := client

end Programs

section History

/-- The value of the target after the history. -/
def valueAfter (initial : V) : List (Event V T) → V
  | [] => initial
  | .raised _ value :: _ => value
  | .called _ _ :: earlier => valueAfter initial earlier
  | .returned _ _ _ :: earlier => valueAfter initial earlier

/-- The arguments of all calls. -/
def arguments : List (Event V T) → List V
  | [] => []
  | .called _ value :: earlier => value :: arguments earlier
  | _ :: earlier => arguments earlier

/-- The number of calls that have returned `true`. -/
def trueReturns : List (Event V T) → Nat
  | [] => 0
  | .returned _ _ true :: earlier => trueReturns earlier + 1
  | _ :: earlier => trueReturns earlier

/-- The values that the target took after the initial one. -/
def valuesTaken
    [DecidableEq V]
    (initial : V)
    (events : List (Event V T)) :
    Finset V :=
  (events.tails.map (valueAfter initial)).toFinset.erase initial

variable [DecidableEq T]

/-- The argument of the call that a thread is in; whether it has raised. -/
def calling : List (Event V T) → T → Option (V × Bool)
  | [], _ => none
  | .called other value :: earlier, thread =>
      if other = thread then some (value, false) else calling earlier thread
  | .raised other value :: earlier, thread =>
      if other = thread then some (value, true) else calling earlier thread
  | .returned other _ _ :: earlier, thread =>
      if other = thread then none else calling earlier thread

theorem calling_other
    {event : Event V T}
    {thread : T}
    (different : event.thread ≠ thread)
    (earlier : List (Event V T)) :
    calling (event :: earlier) thread = calling earlier thread := by
  cases event <;> simp_all [calling, Event.thread]

/-- Something held at an instant since the thread last began a call. -/
def Since
    (thread : T)
    (events : List (Event V T))
    (property : List (Event V T) → Prop) : Prop :=
  ∃ recent instant,
    events = recent ++ instant ∧
      (∀ value, .called thread value ∉ recent) ∧
      property instant

variable [LinearOrder V] (initial : V)

/-- The event may follow the earlier ones. -/
def Allowed (earlier : List (Event V T)) : Event V T → Prop
  | .called thread _ => calling earlier thread = none
  | .raised thread value =>
      calling earlier thread = some (value, false) ∧
        valueAfter initial earlier < value
  | .returned thread value result =>
      calling earlier thread = some (value, result) ∧
        (result = false →
          Since thread earlier fun instant =>
            value ≤ valueAfter initial instant)

/-- Every event is allowed by the ones before it. -/
def Lawful : List (Event V T) → Prop
  | [] => True
  | event :: earlier => Allowed initial earlier event ∧ Lawful earlier

variable {initial}

theorem Lawful.earlier
    {recent events : List (Event V T)}
    (lawful : Lawful initial (recent ++ events)) :
    Lawful initial events := by
  induction recent with
  | nil =>
      exact lawful
  | cons event recent inductionHypothesis =>
      exact inductionHypothesis lawful.2

/-- The target never decreases along a lawful history. -/
theorem Lawful.grows
    {recent events : List (Event V T)}
    (lawful : Lawful initial (recent ++ events)) :
    valueAfter initial events ≤ valueAfter initial (recent ++ events) := by
  induction recent with
  | nil =>
      exact le_refl _
  | cons event recent inductionHypothesis =>
      have grown := inductionHypothesis lawful.2
      cases event with
      | called thread value =>
          exact grown
      | raised thread value =>
          exact le_trans grown (le_of_lt lawful.1.2)
      | returned thread value result =>
          exact grown

/-- A call that has raised the target has raised it to its argument. -/
theorem Lawful.raised_le
    {events : List (Event V T)}
    {thread : T}
    {value : V}
    (lawful : Lawful initial events)
    (raised : calling events thread = some (value, true)) :
    value ≤ valueAfter initial events := by
  induction events with
  | nil =>
      cases raised
  | cons event earlier inductionHypothesis =>
      have sequenced : Lawful initial ([event] ++ earlier) := lawful
      by_cases own : event.thread = thread
      · cases event with
        | called other begun =>
            obtain rfl : other = thread := own
            simp [calling] at raised
        | raised other reached =>
            obtain rfl : other = thread := own
            simp only [calling, ↓reduceIte, Option.some.injEq,
              Prod.mk.injEq, and_true] at raised
            subst raised
            exact le_refl _
        | returned other ended result =>
            obtain rfl : other = thread := own
            simp [calling] at raised
      · rw [calling_other own] at raised
        exact le_trans (inductionHypothesis lawful.2 raised)
          sequenced.grows

/-- The call of a thread began and has raised the target at most once. -/
theorem Lawful.began
    {events : List (Event V T)}
    {thread : T}
    {value : V}
    {result : Bool}
    (lawful : Lawful initial events)
    (inCall : calling events thread = some (value, result)) :
    ∃ inner before,
      events = inner ++ .called thread value :: before ∧
        inner.filter (fun event => event.thread = thread) =
          if result then [.raised thread value] else [] := by
  induction events generalizing result with
  | nil =>
      cases inCall
  | cons event earlier inductionHypothesis =>
      by_cases own : event.thread = thread
      · cases event with
        | called other begun =>
            obtain rfl : other = thread := own
            simp only [calling, ↓reduceIte, Option.some.injEq,
              Prod.mk.injEq] at inCall
            obtain ⟨rfl, rfl⟩ := inCall
            exact ⟨[], earlier, rfl, rfl⟩
        | raised other reached =>
            obtain rfl : other = thread := own
            simp only [calling, ↓reduceIte, Option.some.injEq,
              Prod.mk.injEq] at inCall
            obtain ⟨rfl, rfl⟩ := inCall
            obtain ⟨inner, before, rfl, silent⟩ :=
              inductionHypothesis lawful.2 lawful.1.1
            refine ⟨.raised other reached :: inner, before, rfl, ?_⟩
            have mine : (Event.raised other reached).thread = other := rfl
            rw [List.filter_cons_of_pos (by simp [mine]), silent]
            rfl
        | returned other ended outcome =>
            obtain rfl : other = thread := own
            simp [calling] at inCall
      · rw [calling_other own] at inCall
        obtain ⟨inner, before, rfl, steps⟩ :=
          inductionHypothesis lawful.2 inCall
        refine ⟨event :: inner, before, rfl, ?_⟩
        simpa [List.filter_cons, own] using steps

/-- The argument of a call is among the arguments. -/
theorem Lawful.argument
    {events : List (Event V T)}
    {thread : T}
    {value : V}
    {result : Bool}
    (lawful : Lawful initial events)
    (inCall : calling events thread = some (value, result)) :
    value ∈ arguments events := by
  obtain ⟨inner, before, rfl, steps⟩ := lawful.began inCall
  clear inCall lawful steps
  induction inner with
  | nil =>
      simp [arguments]
  | cons event inner inductionHypothesis =>
      cases event <;> simp [arguments, inductionHypothesis]

/-- The target has its initial value or that of an argument. -/
theorem Lawful.value_cases
    {events : List (Event V T)}
    (lawful : Lawful initial events) :
    valueAfter initial events = initial ∨
      valueAfter initial events ∈ arguments events := by
  induction events with
  | nil =>
      exact .inl rfl
  | cons event earlier inductionHypothesis =>
      have old := inductionHypothesis lawful.2
      cases event with
      | called thread value =>
          exact old.imp id (List.mem_cons_of_mem _)
      | raised thread value =>
          exact .inr (lawful.2.argument lawful.1.1)
      | returned thread value result =>
          exact old

/-- The target has passed the argument of every call that is over. -/
theorem Lawful.argument_le
    {events : List (Event V T)}
    {value : V}
    (lawful : Lawful initial events)
    (called : value ∈ arguments events) :
    value ≤ valueAfter initial events ∨
      ∃ thread result, calling events thread = some (value, result) := by
  induction events with
  | nil =>
      simp [arguments] at called
  | cons event earlier inductionHypothesis =>
      have sequenced : Lawful initial ([event] ++ earlier) := lawful
      have grown := sequenced.grows
      have carried :
          value ∈ arguments earlier →
          (∀ result,
            calling earlier event.thread = some (value, result) →
            value ≤ valueAfter initial (event :: earlier)) →
          value ≤ valueAfter initial (event :: earlier) ∨
            ∃ thread result,
              calling (event :: earlier) thread =
                some (value, result) := by
        intro member own
        rcases inductionHypothesis lawful.2 member with
            passed | ⟨thread, result, inCall⟩
        · exact .inl (le_trans passed grown)
        · by_cases same : event.thread = thread
          · exact .inl (own result (same ▸ inCall))
          · exact .inr ⟨thread, result,
              (calling_other same earlier).trans inCall⟩
      cases event with
      | called thread begun =>
          rcases List.mem_cons.mp called with rfl | old
          · exact .inr ⟨thread, false, by simp [calling]⟩
          · refine carried old fun result inCall => ?_
            cases inCall.symm.trans
              (show calling earlier thread = none from lawful.1)
      | raised thread reached =>
          refine carried called fun result inCall => ?_
          cases lawful.1.1.symm.trans inCall
          exact le_refl _
      | returned thread ended outcome =>
          refine carried called fun result inCall => ?_
          cases lawful.1.1.symm.trans inCall
          cases outcome with
          | true =>
              exact lawful.2.raised_le lawful.1.1
          | false =>
              obtain ⟨recent, instant, rfl, _, passed⟩ := lawful.1.2 rfl
              exact le_trans passed lawful.2.grows

/-- When no call is in progress, the target is the maximum. -/
theorem Lawful.maximum
    {events : List (Event V T)}
    (lawful : Lawful initial events)
    (quiet : ∀ thread, calling events thread = none) :
    valueAfter initial events = (arguments events).foldr max initial := by
  have bounded :
      ∀ {value bound : V} {values : List V},
        value ≤ bound →
        (∀ other ∈ values, other ≤ bound) →
        values.foldr max value ≤ bound := by
    intro value bound values low every
    induction values with
    | nil =>
        exact low
    | cons first rest inductionHypothesis =>
        exact max_le (every first (by simp))
          (inductionHypothesis fun other member =>
            every other (List.mem_cons_of_mem _ member))
  have reached :
      ∀ {value : V} {values : List V},
        value = initial ∨ value ∈ values →
        value ≤ values.foldr max initial := by
    intro value values known
    induction values with
    | nil =>
        rcases known with rfl | absent
        · exact le_refl _
        · cases absent
    | cons first rest inductionHypothesis =>
        rcases known with same | member
        · exact le_max_of_le_right (inductionHypothesis (.inl same))
        · rcases List.mem_cons.mp member with rfl | later
          · exact le_max_left _ _
          · exact le_max_of_le_right (inductionHypothesis (.inr later))
  refine le_antisymm (reached lawful.value_cases) (bounded ?_ ?_)
  · have whole : Lawful initial (events ++ []) := by
      rwa [List.append_nil]
    simpa [valueAfter] using whole.grows
  · intro value member
    rcases lawful.argument_le member with
        passed | ⟨thread, result, inCall⟩
    · exact passed
    · rw [quiet thread] at inCall
      cases inCall

/-- The number of successful exchanges. -/
def raises : List (Event V T) → Nat
  | [] => 0
  | .raised _ _ :: earlier => raises earlier + 1
  | _ :: earlier => raises earlier

/-- The threads in a call that has raised the target. -/
def raisers : List (Event V T) → List T
  | [] => []
  | .raised thread _ :: earlier => thread :: raisers earlier
  | .returned thread _ _ :: earlier => (raisers earlier).erase thread
  | .called _ _ :: earlier => raisers earlier

theorem Lawful.mem_raisers
    {events : List (Event V T)}
    (lawful : Lawful initial events) :
    (raisers events).Nodup ∧
      ∀ thread,
        thread ∈ raisers events ↔
          ∃ value, calling events thread = some (value, true) := by
  induction events with
  | nil =>
      simp [raisers, calling]
  | cons event earlier inductionHypothesis =>
      obtain ⟨distinct, members⟩ := inductionHypothesis lawful.2
      have others :
          ∀ thread,
            event.thread ≠ thread →
            (thread ∈ raisers earlier ↔
              ∃ value,
                calling (event :: earlier) thread = some (value, true)) :=
        fun thread different => by
          rw [calling_other different]
          exact members thread
      cases event with
      | called caller begun =>
          refine ⟨distinct, fun thread => ?_⟩
          by_cases same : caller = thread
          · subst same
            have idle : calling earlier caller = none := lawful.1
            simp [raisers, members, calling, idle]
          · exact others thread same
      | raised caller reached =>
          have fresh : caller ∉ raisers earlier := by
            rw [members, lawful.1.1]
            simp
          refine ⟨List.nodup_cons.mpr ⟨fresh, distinct⟩, fun thread => ?_⟩
          by_cases same : caller = thread
          · subst same
            simp [raisers, calling]
          · rw [← others thread same]
            simp [raisers, Ne.symm same]
      | returned caller ended result =>
          refine ⟨distinct.erase caller, fun thread => ?_⟩
          by_cases same : caller = thread
          · subst same
            simp [raisers, calling, distinct.mem_erase_iff]
          · rw [← others thread same]
            simp [raisers, distinct.mem_erase_iff, Ne.symm same]

/-- Every successful exchange is reported by its own call. -/
theorem Lawful.raises_eq
    {events : List (Event V T)}
    (lawful : Lawful initial events) :
    raises events = trueReturns events + (raisers events).length := by
  induction events with
  | nil =>
      rfl
  | cons event earlier inductionHypothesis =>
      have old := inductionHypothesis lawful.2
      cases event with
      | called caller begun =>
          exact old
      | raised caller reached =>
          simp only [raises, trueReturns, raisers, List.length_cons, old]
          omega
      | returned caller ended result =>
          have member := lawful.2.mem_raisers.2 caller
          rw [lawful.1.1] at member
          cases result with
          | true =>
              have inside : caller ∈ raisers earlier :=
                member.mpr ⟨ended, rfl⟩
              have positive := List.length_pos_of_mem inside
              simp only [raises, trueReturns, raisers, old,
                List.length_erase_of_mem inside]
              omega
          | false =>
              have outside : caller ∉ raisers earlier := by
                rw [member]
                simp
              simpa only [raises, trueReturns, raisers,
                List.erase_of_not_mem outside] using old

/-- Every successful exchange gives the target a value it never had. -/
theorem Lawful.card_valuesTaken
    {events : List (Event V T)}
    (lawful : Lawful initial events) :
    (valuesTaken initial events).card = raises events := by
  induction events with
  | nil =>
      simp [valuesTaken, raises, valueAfter]
  | cons event earlier inductionHypothesis =>
      have old := inductionHypothesis lawful.2
      have known :
          valueAfter initial earlier ∈
            (earlier.tails.map (valueAfter initial)).toFinset := by
        refine List.mem_toFinset.mpr (List.mem_map.mpr ⟨earlier, ?_, rfl⟩)
        exact (List.mem_tails _ _).mpr (List.suffix_refl _)
      have unchanged :
          valueAfter initial (event :: earlier) =
            valueAfter initial earlier →
          (valuesTaken initial (event :: earlier)).card =
            (valuesTaken initial earlier).card := by
        intro same
        simp only [valuesTaken, List.tails, List.map_cons,
          List.toFinset_cons, same, Finset.insert_eq_of_mem known]
      cases event with
      | called caller begun =>
          exact (unchanged rfl).trans old
      | returned caller ended result =>
          exact (unchanged rfl).trans old
      | raised caller reached =>
          have larger :
              ∀ value ∈
                (earlier.tails.map (valueAfter initial)).toFinset,
                value < reached := by
            intro value member
            obtain ⟨instant, suffix, rfl⟩ :=
              List.mem_map.mp (List.mem_toFinset.mp member)
            obtain ⟨recent, rfl⟩ := (List.mem_tails _ _).mp suffix
            exact lt_of_le_of_lt lawful.2.grows lawful.1.2
          have first :
              initial ∈
                (earlier.tails.map (valueAfter initial)).toFinset := by
            refine List.mem_toFinset.mpr (List.mem_map.mpr ⟨[], ?_, rfl⟩)
            exact (List.mem_tails _ _).mpr (List.nil_suffix)
          have new :
              reached ∉
                (earlier.tails.map (valueAfter initial)).toFinset :=
            fun member => lt_irrefl _ (larger reached member)
          have different : reached ≠ initial :=
            ne_of_gt (larger initial first)
          simp only [valuesTaken, List.tails, List.map_cons,
            List.toFinset_cons, valueAfter, raises] at old ⊢
          rw [Finset.erase_insert_of_ne different,
            Finset.card_insert_of_notMem
              (fun member => new (Finset.mem_of_mem_erase member)), old]

end History

end ConcurrentCpp.AtomicMax
