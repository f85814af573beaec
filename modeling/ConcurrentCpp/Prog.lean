import Mathlib.Logic.Function.Basic

namespace ConcurrentCpp

/-!
# Programs made of atomic steps

A thread is a tree of atomic commands on one shared state.  Every load, store
and compare-and-swap of a modelled function is one `act`; a `while` loop is an
`iter`.  A pool runs one such program per thread and lets a scheduler pick, at
every step, the thread that moves and the outcome of whatever its command
leaves open: a spurious failure, a fresh address, a throwing constructor, the
next call of a client.

Commands are functions, so a pool can be executed along a given schedule.
-/

/-- A program over shared states `S` whose open outcomes are chosen from `C`. -/
inductive Prog (S C : Type) : Type → Type 1 where
  /-- The program has finished with a result. -/
  | ret {α : Type} (result : α) : Prog S C α
  /-- One atomic command; `none` means that it is not enabled. -/
  | act {α β : Type}
      (command : S → C → Option (β × S))
      (rest : β → Prog S C α) : Prog S C α
  /-- A loop: `Sum.inl` goes around again and `Sum.inr` leaves it. -/
  | iter {α β γ : Type}
      (body : β → Prog S C (β ⊕ γ))
      (start : β)
      (rest : γ → Prog S C α) : Prog S C α

namespace Prog

variable {S C T α β γ : Type}

/-- Run one program and continue with its result. -/
protected def bind :
    {α : Type} → Prog S C α → (α → Prog S C β) → Prog S C β
  | _, ret result, next => next result
  | _, act command rest, next =>
      act command fun value => (rest value).bind next
  | _, iter body start rest, next =>
      iter body start fun value => (rest value).bind next

instance : Monad (Prog S C) where
  pure := ret
  bind := Prog.bind

/-- Perform one atomic command and return its value. -/
def atomic
    (command : S → C → Option (β × S)) :
    Prog S C β :=
  act command ret

/-- Repeat a body until it leaves the loop with a result. -/
def loop
    (start : β)
    (body : β → Prog S C (β ⊕ γ)) :
    Prog S C γ :=
  iter body start ret

/-- Go around the enclosing loop again. -/
def again
    (value : β) :
    Prog S C (β ⊕ γ) :=
  ret (.inl value)

/-- Leave the enclosing loop. -/
def leave
    (result : γ) :
    Prog S C (β ⊕ γ) :=
  ret (.inr result)

/-- Read a function of the shared state in one atomic step. -/
def read
    (view : S → β) :
    Prog S C β :=
  atomic fun shared _ => some (view shared, shared)

/-- Replace the shared state in one atomic step. -/
def write
    (update : S → S) :
    Prog S C Unit :=
  atomic fun shared _ => some ((), update shared)

/-- Unfold one turn of a loop. -/
def turn
    (body : β → Prog S C (β ⊕ γ))
    (rest : γ → Prog S C α) :
    β ⊕ γ → Prog S C α
  | .inl value => iter body value rest
  | .inr result => rest result

/--
One step of a program.  Entering a loop turn is a step of its own that leaves
the shared state alone.
-/
def step :
    {α : Type} → Prog S C α → S → C → Option (S × Prog S C α)
  | _, ret _, _, _ => none
  | _, act command rest, shared, choice =>
      (command shared choice).map fun outcome =>
        (outcome.2, rest outcome.1)
  | _, iter body start rest, shared, _ =>
      some (shared, (body start).bind (turn body rest))

theorem bind_assoc
    (program : Prog S C α)
    (first : α → Prog S C β)
    (second : β → Prog S C γ) :
    (program.bind first).bind second =
      program.bind fun value => (first value).bind second := by
  induction program with
  | ret result =>
      rfl
  | act command rest inductionHypothesis =>
      simp only [Prog.bind, inductionHypothesis]
  | iter body start rest _ inductionHypothesis =>
      simp only [Prog.bind, inductionHypothesis]

/-- A loop turn followed by more work is a turn of the longer loop. -/
theorem turn_bind
    (body : β → Prog S C (β ⊕ γ))
    (rest : γ → Prog S C α)
    (next : α → Prog S C T)
    (outcome : β ⊕ γ) :
    (turn body rest outcome).bind next =
      turn body (fun value => (rest value).bind next) outcome := by
  cases outcome <;> rfl

/-- Sequencing does not change how an unfinished program steps. -/
theorem step_bind
    {program : Prog S C α}
    {next : α → Prog S C β}
    {shared after : S}
    {choice : C}
    {remaining : Prog S C β}
    (unfinished : ∀ result, program ≠ ret result)
    (moved :
      (program.bind next).step shared choice =
        some (after, remaining)) :
    ∃ middle,
      program.step shared choice = some (after, middle) ∧
        remaining = middle.bind next := by
  cases program with
  | ret result =>
      exact (unfinished result rfl).elim
  | act command rest =>
      simp only [Prog.bind, step, Option.map_eq_some_iff] at moved ⊢
      obtain ⟨outcome, ran, shape⟩ := moved
      cases shape
      exact ⟨_, ⟨outcome, ran, rfl⟩, rfl⟩
  | iter body start rest =>
      simp only [Prog.bind, step, Option.some.injEq,
        Prod.mk.injEq] at moved ⊢
      obtain ⟨rfl, rfl⟩ := moved
      refine ⟨_, ⟨rfl, rfl⟩, ?_⟩
      rw [bind_assoc]
      congr 1
      funext outcome
      exact (turn_bind body rest next outcome).symm

/-- The states after the steps of a program that others interrupt. -/
def replay :
    Prog S C α → List (S × C) → Option (List S × Prog S C α)
  | program, [] => some ([], program)
  | program, (state, choice) :: rest =>
      (program.step state choice).bind fun outcome =>
        (replay outcome.2 rest).map fun later =>
          (outcome.1 :: later.1, later.2)

end Prog

/-- One shared state and the remaining program of every thread. -/
structure Pool (S C T : Type) where
  shared : S
  threads : T → Prog S C Unit

namespace Pool

variable {S C T : Type} [DecidableEq T]

/-- Let one thread take one step. -/
def step
    (pool : Pool S C T)
    (thread : T)
    (choice : C) :
    Option (Pool S C T) :=
  ((pool.threads thread).step pool.shared choice).map fun outcome =>
    { shared := outcome.1
      threads := Function.update pool.threads thread outcome.2 }

/-- Execute a schedule; `none` if some scheduled step is not enabled. -/
def run
    (pool : Pool S C T) :
    List (T × C) → Option (Pool S C T)
  | [] => some pool
  | (thread, choice) :: rest =>
      (pool.step thread choice).bind fun next => next.run rest

/-- The pool reaches another one under some schedule. -/
def Reaches
    (first last : Pool S C T) : Prop :=
  ∃ schedule, first.run schedule = some last

/-- Schedules compose. -/
theorem run_append
    (pool : Pool S C T)
    (first second : List (T × C)) :
    pool.run (first ++ second) =
      (pool.run first).bind fun middle => middle.run second := by
  induction first generalizing pool with
  | nil =>
      rfl
  | cons entry rest inductionHypothesis =>
      obtain ⟨thread, choice⟩ := entry
      simp only [List.cons_append, run]
      cases pool.step thread choice with
      | none =>
          rfl
      | some next =>
          exact inductionHypothesis next

/-- The last step of a run. -/
theorem run_concat
    {pool last : Pool S C T}
    {schedule : List (T × C)}
    {thread : T}
    {choice : C}
    (ran : pool.run (schedule ++ [(thread, choice)]) = some last) :
    ∃ middle,
      pool.run schedule = some middle ∧
        middle.step thread choice = some last := by
  rw [run_append, Option.bind_eq_some_iff] at ran
  obtain ⟨middle, before, after⟩ := ran
  refine ⟨middle, before, ?_⟩
  simp only [run, Option.bind_eq_some_iff, Option.some.injEq] at after
  obtain ⟨_, moved, rfl⟩ := after
  exact moved

/-- A run that ends is seen to end. -/
theorem run_seen
    {V : Type}
    {pool : Pool S C T}
    {schedule : List (T × C)}
    {value : V}
    (view : S → V)
    (seen :
      (pool.run schedule).map (fun last => view last.shared) =
        some value) :
    ∃ last, pool.run schedule = some last ∧ view last.shared = value :=
  Option.map_eq_some_iff.mp seen

theorem Reaches.refl
    (pool : Pool S C T) :
    pool.Reaches pool :=
  ⟨[], rfl⟩

theorem Reaches.trans
    {first middle last : Pool S C T}
    (earlier : first.Reaches middle)
    (later : middle.Reaches last) :
    first.Reaches last := by
  obtain ⟨before, ranBefore⟩ := earlier
  obtain ⟨after, ranAfter⟩ := later
  exact ⟨before ++ after, by simp [run_append, ranBefore, ranAfter]⟩

end Pool

end ConcurrentCpp
