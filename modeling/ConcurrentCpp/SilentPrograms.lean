import ConcurrentCpp.RelyGuarantee

namespace ConcurrentCpp

/-!
# Programs that leave a view alone

Many programs never touch the part of the state that a protocol speaks about.
`Spares` says so step by step; it follows the structure of a program, and a
program that spares a view keeps every protocol that depends on the view
alone.

`Composed` says of which pieces a program is put together.  An assertion that
every piece keeps is kept by the whole program.
-/

variable {S C G T V α β γ : Type}

namespace Prog

/-- No step of the program changes what the view shows. -/
def Spares
    (view : S → V) :
    {α : Type} → Prog S C α → Prop
  | _, ret _ => True
  | _, act command rest =>
      (∀ shared choice value after,
        command shared choice = some (value, after) →
        view after = view shared) ∧
        ∀ value, (rest value).Spares view
  | _, iter body _ rest =>
      (∀ value, (body value).Spares view) ∧
        ∀ result, (rest result).Spares view

variable {view : S → V}

@[simp] theorem spares_pure
    (result : α) :
    (pure result : Prog S C α).Spares view :=
  trivial

@[simp] theorem spares_again
    (value : β) :
    (again value : Prog S C (β ⊕ γ)).Spares view :=
  trivial

@[simp] theorem spares_leave
    (result : γ) :
    (leave result : Prog S C (β ⊕ γ)).Spares view :=
  trivial

/-- A command that never changes the view. -/
theorem spares_atomic
    {command : S → C → Option (β × S)}
    (same :
      ∀ shared choice value after,
        command shared choice = some (value, after) →
        view after = view shared) :
    (atomic command).Spares view :=
  ⟨same, fun _ => trivial⟩

@[simp] theorem spares_read
    (look : S → β) :
    (read look : Prog S C β).Spares view :=
  spares_atomic fun _ _ _ _ ran => by
    cases ran
    rfl

/-- An update that never changes the view. -/
theorem spares_write
    {update : S → S}
    (same : ∀ shared, view (update shared) = view shared) :
    (write update : Prog S C Unit).Spares view :=
  spares_atomic fun shared _ _ _ ran => by
    cases ran
    exact same shared

/-- A command that is never enabled. -/
@[simp] theorem spares_stuck :
    (atomic fun _ _ => none : Prog S C β).Spares view :=
  spares_atomic fun _ _ _ _ ran => by cases ran

/-- Sequencing. -/
theorem spares_bind
    {program : Prog S C α}
    {next : α → Prog S C β}
    (first : program.Spares view)
    (second : ∀ result, (next result).Spares view) :
    (program >>= next).Spares view := by
  show (program.bind next).Spares view
  induction program with
  | ret result =>
      exact second result
  | act command rest inductionHypothesis =>
      exact ⟨first.1, fun value =>
        inductionHypothesis value (first.2 value) second⟩
  | iter body start rest _ inductionHypothesis =>
      exact ⟨first.1, fun value =>
        inductionHypothesis value (first.2 value) second⟩

/-- A loop. -/
theorem spares_loop
    {start : β}
    {body : β → Prog S C (β ⊕ γ)}
    (turns : ∀ value, (body value).Spares view) :
    (loop start body).Spares view :=
  ⟨turns, fun _ => trivial⟩

/-- A program that spares a view spares what the view determines. -/
theorem Spares.coarser
    {W : Type}
    {coarse : S → W}
    {program : Prog S C α}
    (determines :
      ∀ {shared after},
        view after = view shared →
        coarse after = coarse shared)
    (spares : program.Spares view) :
    program.Spares coarse := by
  induction program with
  | ret result =>
      trivial
  | act command rest inductionHypothesis =>
      exact ⟨fun shared choice value after ran =>
          determines (spares.1 shared choice value after ran),
        fun value => inductionHypothesis value (spares.2 value)⟩
  | iter body start rest bodyHypothesis restHypothesis =>
      exact ⟨fun value => bodyHypothesis value (spares.1 value),
        fun result => restHypothesis result (spares.2 result)⟩

/-- A step of a program that spares the view. -/
theorem Spares.step
    {program remaining : Prog S C α}
    {shared after : S}
    {choice : C}
    (spares : program.Spares view)
    (moved : program.step shared choice = some (after, remaining)) :
    view after = view shared ∧ remaining.Spares view := by
  cases program with
  | ret result =>
      cases moved
  | act command rest =>
      simp only [Prog.step, Option.map_eq_some_iff] at moved
      obtain ⟨outcome, ran, shape⟩ := moved
      cases shape
      exact ⟨spares.1 shared choice outcome.1 outcome.2 ran,
        spares.2 outcome.1⟩
  | iter body start rest =>
      simp only [Prog.step, Option.some.injEq, Prod.mk.injEq] at moved
      obtain ⟨rfl, rfl⟩ := moved
      refine ⟨rfl, spares_bind (spares.1 start) ?_⟩
      intro outcome
      cases outcome with
      | inl value =>
          exact spares
      | inr result =>
          exact spares.2 result

/-- The program is put together of these pieces and of quiet programs. -/
inductive Composed
    (view : S → V)
    (piece : (β : Type) → Prog S C β → Prop) :
    {α : Type} → Prog S C α → Prop where
  | quiet {α : Type} {program : Prog S C α}
      (spares : program.Spares view) : Composed view piece program
  | piece {α : Type} {program : Prog S C α}
      (known : piece α program) : Composed view piece program
  | bind {α β : Type} {program : Prog S C α} {next : α → Prog S C β}
      (first : Composed view piece program)
      (second : ∀ result, Composed view piece (next result)) :
      Composed view piece (program >>= next)
  | loop {β γ : Type} {start : β} {body : β → Prog S C (β ⊕ γ)}
      (turns : ∀ value, Composed view piece (body value)) :
      Composed view piece (Prog.loop start body)

namespace Composed

variable {piece : (β : Type) → Prog S C β → Prop}

theorem pure
    (result : α) :
    (Pure.pure result : Prog S C α).Composed view piece :=
  .quiet (spares_pure result)

theorem again
    (value : β) :
    (Prog.again value : Prog S C (β ⊕ γ)).Composed view piece :=
  .quiet (spares_again value)

theorem leave
    (result : γ) :
    (Prog.leave result : Prog S C (β ⊕ γ)).Composed view piece :=
  .quiet (spares_leave result)

/-- A command that never changes the view. -/
theorem atomic
    {command : S → C → Option (β × S)}
    (same :
      ∀ shared choice value after,
        command shared choice = some (value, after) →
        view after = view shared) :
    (Prog.atomic command).Composed view piece :=
  .quiet (spares_atomic same)

theorem read
    (look : S → β) :
    (Prog.read look : Prog S C β).Composed view piece :=
  .quiet (spares_read look)

/-- An update that never changes the view. -/
theorem write
    {update : S → S}
    (same : ∀ shared, view (update shared) = view shared) :
    (Prog.write update : Prog S C Unit).Composed view piece :=
  .quiet (spares_write same)

/-- A command that is never enabled. -/
theorem stuck :
    (Prog.atomic fun _ _ => none : Prog S C β).Composed view piece :=
  .quiet spares_stuck

end Composed

end Prog

variable {protocol : Protocol S G T} {thread : T}

/--
A program that spares a view keeps what depends on the view alone.
-/
theorem Triple.spared
    {view : S → V}
    {pre : Assertion protocol thread}
    {program : Prog S C α}
    (spares : program.Spares view)
    (same :
      ∀ {shared after ghost},
        view after = view shared →
        protocol.Inv (shared, ghost) →
        protocol.Inv (after, ghost) ∧
          protocol.Guar thread (shared, ghost) (after, ghost))
    (keeps :
      ∀ {shared after ghost},
        view after = view shared →
        pre.holds (shared, ghost) →
        pre.holds (after, ghost)) :
    Triple protocol thread pre program fun _ => pre := by
  intro fuel
  induction fuel generalizing program with
  | zero =>
      intro world _ _
      trivial
  | succ fuel inductionHypothesis =>
      intro world inv known
      refine ⟨fun _ _ => known, ?_, ?_⟩
      · intro other after different invAfter moved
        exact inductionHypothesis spares after invAfter
          (pre.stable different inv invAfter moved known)
      · intro choice shared remaining moved
        obtain ⟨alike, later⟩ := spares.step moved
        obtain ⟨invAfter, guarantee⟩ := same alike inv
        exact ⟨world.2, invAfter, guarantee,
          inductionHypothesis later _ invAfter (keeps alike known)⟩

/-- What every piece keeps, the whole program keeps. -/
theorem Triple.composed
    {view : S → V}
    {piece : (β : Type) → Prog S C β → Prop}
    {pre : Assertion protocol thread}
    {program : Prog S C α}
    (composed : program.Composed view piece)
    (same :
      ∀ {shared after ghost},
        view after = view shared →
        protocol.Inv (shared, ghost) →
        protocol.Inv (after, ghost) ∧
          protocol.Guar thread (shared, ghost) (after, ghost))
    (keeps :
      ∀ {shared after ghost},
        view after = view shared →
        pre.holds (shared, ghost) →
        pre.holds (after, ghost))
    (pieces :
      ∀ β (program : Prog S C β),
        piece β program →
        Triple protocol thread pre program fun _ => pre) :
    Triple protocol thread pre program fun _ => pre := by
  induction composed with
  | quiet spares =>
      exact Triple.spared spares same keeps
  | piece known =>
      exact pieces _ _ known
  | bind _ _ first second =>
      exact first.bind second
  | @loop β γ start body _ turns =>
      have turned :
          ∀ value,
            Triple protocol thread ((fun _ : β => pre) value) (body value)
              (Assertion.turn (fun _ => pre) fun _ => pre) := by
        intro value
        refine (turns value).consequence fun outcome world _ known => ?_
        cases outcome with
        | inl again =>
            exact known
        | inr result =>
            exact known
      exact Triple.loop turned

end ConcurrentCpp
