import ConcurrentCpp.RelyGuarantee

namespace ConcurrentCpp

/-!
# Completion of programs that run alone

A program that runs alone finishes if every choice that is allowed leads on
and there is always one.  Finishing is proved apart from what the program
keeps: a program that finishes and is verified finishes in its postcondition.
-/

variable {S C T α β γ : Type}

/--
Alone and under the allowed choices, the program always has a next step and
arrives at a result.
-/
inductive Finishes
    (allowed : C → Prop)
    (post : α → S → Prop) :
    Prog S C α → S → Prop where
  | ret {result : α} {state : S} :
      post result state →
      Finishes allowed post (.ret result) state
  | step {program : Prog S C α} {state : S} :
      (∃ choice,
        allowed choice ∧ (program.step state choice).isSome = true) →
      (∀ choice after rest,
        allowed choice →
        program.step state choice = some (after, rest) →
        Finishes allowed post rest after) →
      Finishes allowed post program state

/-- Sequencing keeps the steps of the first program. -/
theorem Prog.step_bind_some
    {program rest : Prog S C α}
    {next : α → Prog S C β}
    {state after : S}
    {choice : C}
    (moved : program.step state choice = some (after, rest)) :
    (program.bind next).step state choice =
      some (after, rest.bind next) := by
  cases program with
  | ret result =>
      cases moved
  | act command rest =>
      simp only [Prog.step, Option.map_eq_some_iff] at moved
      obtain ⟨outcome, ran, shape⟩ := moved
      cases shape
      simp [Prog.bind, Prog.step, ran]
  | iter body start rest =>
      simp only [Prog.step, Option.some.injEq, Prod.mk.injEq] at moved
      obtain ⟨rfl, rfl⟩ := moved
      simp only [Prog.bind, Prog.step, Prog.bind_assoc, Option.some.injEq,
        Prod.mk.injEq, true_and]
      congr 1
      funext outcome
      exact (Prog.turn_bind body rest next outcome).symm

namespace Finishes

variable {allowed : C → Prop}

/-- A finished program, in monad notation. -/
protected theorem pure
    {post : α → S → Prop}
    {result : α}
    {state : S}
    (known : post result state) :
    Finishes allowed post (Pure.pure result : Prog S C α) state :=
  .ret known

/-- Sequencing. -/
protected theorem bind
    {program : Prog S C α}
    {next : α → Prog S C β}
    {middle : α → S → Prop}
    {post : β → S → Prop}
    {state : S}
    (first : Finishes allowed middle program state)
    (second :
      ∀ result after,
        middle result after →
        Finishes allowed post (next result) after) :
    Finishes allowed post (program >>= next) state := by
  show Finishes allowed post (program.bind next) state
  induction first with
  | ret known =>
      exact second _ _ known
  | @step program state enabled _ inductionHypothesis =>
      have unfinished : ∀ result, program ≠ .ret result := by
        rintro result rfl
        obtain ⟨choice, -, moves⟩ := enabled
        cases moves
      refine .step ?_ ?_
      · obtain ⟨choice, fair, moves⟩ := enabled
        obtain ⟨⟨after, rest⟩, moved⟩ := Option.isSome_iff_exists.mp moves
        exact ⟨choice, fair, by rw [Prog.step_bind_some moved]; rfl⟩
      · intro choice after rest fair moved
        obtain ⟨middleProgram, movedFirst, rfl⟩ :=
          Prog.step_bind unfinished moved
        exact inductionHypothesis choice after middleProgram fair movedFirst

/-- One atomic command that some allowed choice enables. -/
theorem atomic
    {command : S → C → Option (β × S)}
    {post : β → S → Prop}
    {state : S}
    (enabled :
      ∃ choice, allowed choice ∧ (command state choice).isSome = true)
    (reaches :
      ∀ choice value after,
        allowed choice →
        command state choice = some (value, after) →
        post value after) :
    Finishes allowed post (Prog.atomic command) state := by
  refine .step ?_ ?_
  · obtain ⟨choice, fair, moves⟩ := enabled
    exact ⟨choice, fair, by simpa [Prog.atomic, Prog.step] using moves⟩
  · intro choice after rest fair moved
    simp only [Prog.atomic, Prog.step, Option.map_eq_some_iff] at moved
    obtain ⟨⟨value, shared⟩, ran, shape⟩ := moved
    cases shape
    exact .ret (reaches choice value shared fair ran)

/-- An atomic read. -/
theorem read
    {view : S → β}
    {post : β → S → Prop}
    {state : S}
    (enabled : ∃ choice, allowed choice)
    (known : post (view state) state) :
    Finishes allowed post (Prog.read view : Prog S C β) state := by
  refine atomic ?_ ?_
  · obtain ⟨choice, fair⟩ := enabled
    exact ⟨choice, fair, rfl⟩
  · intro choice value after fair ran
    cases ran
    exact known

/-- An atomic update. -/
theorem write
    {update : S → S}
    {post : Unit → S → Prop}
    {state : S}
    (enabled : ∃ choice, allowed choice)
    (known : post () (update state)) :
    Finishes allowed post (Prog.write update : Prog S C Unit) state := by
  refine atomic ?_ ?_
  · obtain ⟨choice, fair⟩ := enabled
    exact ⟨choice, fair, rfl⟩
  · intro choice value after fair ran
    cases ran
    exact known

/-- An atomic update ends in the updated state. -/
theorem wrote
    {update : S → S}
    {state : S}
    (enabled : ∃ choice, allowed choice) :
    Finishes allowed (fun _ after => after = update state)
      (Prog.write update : Prog S C Unit) state :=
  write enabled rfl

/-- A loop whose turns keep an invariant and make a measure smaller. -/
theorem loop
    {body : β → Prog S C (β ⊕ γ)}
    {post : γ → S → Prop}
    (invariant : β → S → Prop)
    (measure : β → Nat)
    (turns :
      ∀ value state,
        invariant value state →
        Finishes allowed
          (fun outcome after =>
            match outcome with
            | .inl next =>
                invariant next after ∧ measure next < measure value
            | .inr result => post result after)
          (body value) state)
    (enabled : ∃ choice, allowed choice)
    {start : β}
    {state : S}
    (known : invariant start state) :
    Finishes allowed post (Prog.loop start body) state := by
  generalize size : measure start = count
  induction count using Nat.strongRecOn generalizing start state with
  | _ count inductionHypothesis =>
      refine .step ?_ ?_
      · obtain ⟨choice, fair⟩ := enabled
        exact ⟨choice, fair, rfl⟩
      · intro choice after rest fair moved
        simp only [Prog.loop, Prog.step, Option.some.injEq,
          Prod.mk.injEq] at moved
        obtain ⟨rfl, rfl⟩ := moved
        refine Finishes.bind (turns start state known) ?_
        intro outcome after reached
        cases outcome with
        | inl next =>
            exact inductionHypothesis (measure next)
              (size ▸ reached.2) reached.1 rfl
        | inr result =>
            exact .ret reached

/-- A weaker postcondition is reached as well. -/
theorem mono
    {program : Prog S C α}
    {post weaker : α → S → Prop}
    {state : S}
    (finishes : Finishes allowed post program state)
    (implies : ∀ result after, post result after → weaker result after) :
    Finishes allowed weaker program state := by
  induction finishes with
  | ret known =>
      exact .ret (implies _ _ known)
  | step enabled _ inductionHypothesis =>
      exact .step enabled inductionHypothesis

/-- A verified program that finishes does so in its postcondition. -/
theorem verified
    {protocol : Protocol S Unit T}
    {thread : T}
    {program : Prog S C α}
    {post : α → S → Prop}
    {known : α → Assertion protocol thread}
    {state : S}
    (finishes : Finishes allowed post program state)
    (inv : protocol.Inv (state, ()))
    (safe : ∀ fuel, Safe protocol thread fuel program known (state, ())) :
    Finishes allowed
      (fun result after =>
        post result after ∧
          protocol.Inv (after, ()) ∧ (known result).holds (after, ()))
      program state := by
  induction finishes with
  | ret reached =>
      exact .ret ⟨reached, inv, (safe 1).1 _ rfl⟩
  | step enabled _ inductionHypothesis =>
      refine .step enabled ?_
      intro choice after rest fair moved
      have moves := fun fuel => (safe (fuel + 1)).2.2 choice after rest moved
      obtain ⟨_, invAfter, _⟩ := moves 0
      exact inductionHypothesis choice after rest fair moved invAfter
        fun fuel => by
          obtain ⟨_, _, _, later⟩ := moves fuel
          exact later

/-- Sequencing after a verified program. -/
theorem bind_verified
    {protocol : Protocol S Unit T}
    {thread : T}
    {program : Prog S C α}
    {next : α → Prog S C β}
    {pre : Assertion protocol thread}
    {known : α → Assertion protocol thread}
    {middle : α → S → Prop}
    {post : β → S → Prop}
    {state : S}
    (triple : Triple protocol thread pre program known)
    (first : Finishes allowed middle program state)
    (inv : protocol.Inv (state, ()))
    (start : pre.holds (state, ()))
    (second :
      ∀ result after,
        middle result after →
        protocol.Inv (after, ()) →
        (known result).holds (after, ()) →
        Finishes allowed post (next result) after) :
    Finishes allowed post (program >>= next) state :=
  Finishes.bind
    (first.verified inv fun fuel => triple fuel (state, ()) inv start)
    fun result after reached =>
      second result after reached.1 reached.2.1 reached.2.2

end Finishes

/--
Alone, the program arrives at a result although some choices, at most
`budget` of them, are not the likely ones.  The postcondition is told how
many of them are left.
-/
inductive Completes
    (likely : C → Prop)
    (post : α → Nat → S → Prop) :
    Nat → Prog S C α → S → Prop where
  | ret {budget : Nat} {result : α} {state : S} :
      post result budget state →
      Completes likely post budget (.ret result) state
  | step {budget : Nat} {program : Prog S C α} {state : S} :
      (∃ choice,
        likely choice ∧ (program.step state choice).isSome = true) →
      (∀ choice after rest,
        likely choice →
        program.step state choice = some (after, rest) →
        Completes likely post budget rest after) →
      (∀ choice after rest left,
        left < budget →
        program.step state choice = some (after, rest) →
        Completes likely post left rest after) →
      Completes likely post budget program state

namespace Completes

variable {likely : C → Prop} {budget : Nat}

/-- A weaker postcondition; no choice is given back. -/
theorem mono
    {program : Prog S C α}
    {post weaker : α → Nat → S → Prop}
    {state : S}
    (completes : Completes likely post budget program state)
    (implies :
      ∀ result left after,
        left ≤ budget →
        post result left after →
        weaker result left after) :
    Completes likely weaker budget program state := by
  induction completes with
  | ret known =>
      exact .ret (implies _ _ _ (Nat.le_refl _) known)
  | step enabled _ _ likelyStep otherStep =>
      refine .step enabled ?_ ?_
      · intro choice after rest fair moved
        exact likelyStep choice after rest fair moved implies
      · intro choice after rest left fewer moved
        refine otherStep choice after rest left fewer moved ?_
        intro result less final bound
        exact implies result less final
          (Nat.le_trans bound (Nat.le_of_lt fewer))

/-- Sequencing. -/
protected theorem bind
    {program : Prog S C α}
    {next : α → Prog S C β}
    {middle : α → Nat → S → Prop}
    {post : β → Nat → S → Prop}
    {state : S}
    (first : Completes likely middle budget program state)
    (second :
      ∀ result left after,
        left ≤ budget →
        middle result left after →
        Completes likely post left (next result) after) :
    Completes likely post budget (program >>= next) state := by
  show Completes likely post budget (program.bind next) state
  induction first with
  | ret known =>
      exact second _ _ _ (Nat.le_refl _) known
  | @step budget program state enabled _ _ likelyStep otherStep =>
      have unfinished : ∀ result, program ≠ .ret result := by
        rintro result rfl
        obtain ⟨choice, -, moves⟩ := enabled
        cases moves
      refine .step ?_ ?_ ?_
      · obtain ⟨choice, fair, moves⟩ := enabled
        obtain ⟨⟨after, rest⟩, moved⟩ := Option.isSome_iff_exists.mp moves
        exact ⟨choice, fair, by rw [Prog.step_bind_some moved]; rfl⟩
      · intro choice after rest fair moved
        obtain ⟨middleProgram, movedFirst, rfl⟩ :=
          Prog.step_bind unfinished moved
        exact likelyStep choice after middleProgram fair movedFirst second
      · intro choice after rest left fewer moved
        obtain ⟨middleProgram, movedFirst, rfl⟩ :=
          Prog.step_bind unfinished moved
        refine otherStep choice after middleProgram left fewer movedFirst ?_
        intro result less final bound
        exact second result less final
          (Nat.le_trans bound (Nat.le_of_lt fewer))

/-- One atomic command that some likely choice enables. -/
theorem atomic
    {command : S → C → Option (β × S)}
    {post : β → Nat → S → Prop}
    {state : S}
    (enabled :
      ∃ choice, likely choice ∧ (command state choice).isSome = true)
    (reaches :
      ∀ choice value after left,
        left ≤ budget →
        likely choice ∨ left < budget →
        command state choice = some (value, after) →
        post value left after) :
    Completes likely post budget (Prog.atomic command) state := by
  have ends :
      ∀ choice after (rest : Prog S C β) left,
        left ≤ budget →
        likely choice ∨ left < budget →
        (Prog.atomic command).step state choice = some (after, rest) →
        Completes likely post left rest after := by
    intro choice after rest left bound fair moved
    simp only [Prog.atomic, Prog.step, Option.map_eq_some_iff] at moved
    obtain ⟨⟨value, shared⟩, ran, shape⟩ := moved
    cases shape
    exact .ret (reaches choice value shared left bound fair ran)
  refine .step ?_ ?_ ?_
  · obtain ⟨choice, fair, moves⟩ := enabled
    exact ⟨choice, fair, by simpa [Prog.atomic, Prog.step] using moves⟩
  · intro choice after rest fair moved
    exact ends choice after rest budget (Nat.le_refl _) (.inl fair) moved
  · intro choice after rest left fewer moved
    exact ends choice after rest left (Nat.le_of_lt fewer) (.inr fewer)
      moved

/-- An atomic command that does not depend on the choice. -/
theorem plain
    {command : S → C → Option (β × S)}
    {post : β → Nat → S → Prop}
    {state after : S}
    {value : β}
    (enabled : ∃ choice, likely choice)
    (runs : ∀ choice, command state choice = some (value, after))
    (known : ∀ left, left ≤ budget → post value left after) :
    Completes likely post budget (Prog.atomic command) state := by
  obtain ⟨choice, fair⟩ := enabled
  refine atomic ⟨choice, fair, by simp [runs]⟩ ?_
  intro choice result final left bound _ ran
  rw [runs] at ran
  cases ran
  exact known left bound

/-- A loop with an invariant, whose index shrinks at every turn. -/
theorem loop
    {body : β → Prog S C (β ⊕ γ)}
    {post : γ → Nat → S → Prop}
    (invariant : Nat → β → S → Prop)
    (count : Nat)
    (enabled : ∃ choice, likely choice)
    (turns :
      ∀ left count value state,
        left ≤ budget →
        invariant count value state →
        Completes likely
          (fun outcome less after =>
            match outcome with
            | .inl next =>
                ∃ size,
                  invariant size next after ∧ (less < left ∨ size < count)
            | .inr result => post result less after)
          left (body value) state)
    {start : β}
    {state : S}
    (known : invariant count start state) :
    Completes likely post budget (Prog.loop start body) state := by
  suffices every :
      ∀ left, left ≤ budget →
        ∀ count start state,
          invariant count start state →
          Completes likely post left (Prog.loop start body) state by
    exact every budget (Nat.le_refl _) count start state known
  intro left
  induction left using Nat.strongRecOn with
  | _ left fewerLeft =>
      intro bound count
      induction count using Nat.strongRecOn with
      | _ count smaller =>
          intro start state holds
          have goes :
              ∀ less, less ≤ left →
                Completes likely post less
                  ((body start).bind (Prog.turn body .ret)) state := by
            intro less atMost
            refine Completes.bind
              (turns less count start state (Nat.le_trans atMost bound)
                holds) ?_
            intro outcome fewest after shrinks reached
            cases outcome with
            | inl next =>
                obtain ⟨size, again, shorter⟩ := reached
                have room : fewest ≤ left := Nat.le_trans shrinks atMost
                rcases Nat.lt_or_ge fewest left with fewer | same
                · exact fewerLeft fewest fewer (Nat.le_trans room bound)
                    size next after again
                · have equal : fewest = left := Nat.le_antisymm room same
                  subst equal
                  exact smaller size (shorter.resolve_left (by omega)) next
                    after again
            | inr result =>
                exact .ret reached
          refine .step ?_ ?_ ?_
          · obtain ⟨choice, fair⟩ := enabled
            exact ⟨choice, fair, rfl⟩
          · intro choice after rest _ moved
            simp only [Prog.loop, Prog.step, Option.some.injEq,
              Prod.mk.injEq] at moved
            obtain ⟨rfl, rfl⟩ := moved
            exact goes left (Nat.le_refl _)
          · intro choice after rest less fewer moved
            simp only [Prog.loop, Prog.step, Option.some.injEq,
              Prod.mk.injEq] at moved
            obtain ⟨rfl, rfl⟩ := moved
            exact goes less (Nat.le_of_lt fewer)

end Completes

end ConcurrentCpp
