import Mathlib.Logic.Relation
import ConcurrentCpp.Prog

namespace ConcurrentCpp

/-!
# Rely-guarantee reasoning about thread programs

A protocol fixes what every reachable state satisfies and what one step of a
thread may do to it.  Both speak about the shared state together with a ghost
state that only the proof keeps.  A thread is verified alone against
assertions that no step of another thread can destroy; the pool theorem puts
the verified threads together again.
-/

variable {S G C T α β γ : Type}

/-- The invariant of a shared state and the steps its threads promise. -/
structure Protocol (S G T : Type) where
  Inv : S × G → Prop
  Guar : T → S × G → S × G → Prop
  guar_refl : ∀ thread world, Guar thread world world

/-- A property of worlds that the other threads cannot invalidate. -/
structure Assertion
    (protocol : Protocol S G T)
    (thread : T) where
  holds : S × G → Prop
  stable :
    ∀ {other world after},
      other ≠ thread →
      protocol.Inv world →
      protocol.Inv after →
      protocol.Guar other world after →
      holds world →
      holds after

namespace Assertion

variable {protocol : Protocol S G T} {thread : T}

/-- A fact that does not mention the world. -/
def pure
    (fact : Prop) :
    Assertion protocol thread where
  holds _ := fact
  stable _ _ _ _ known := known

/-- Both assertions hold. -/
def and
    (left right : Assertion protocol thread) :
    Assertion protocol thread where
  holds world := left.holds world ∧ right.holds world
  stable different before after moved known :=
    ⟨left.stable different before after moved known.1,
      right.stable different before after moved known.2⟩

/-- One of the assertions holds. -/
def or
    (left right : Assertion protocol thread) :
    Assertion protocol thread where
  holds world := left.holds world ∨ right.holds world
  stable different before after moved known :=
    known.imp
      (left.stable different before after moved)
      (right.stable different before after moved)

/-- Some member of a family of assertions holds. -/
def any
    {Index : Sort*}
    (family : Index → Assertion protocol thread) :
    Assertion protocol thread where
  holds world := ∃ index, (family index).holds world
  stable different before after moved := by
    rintro ⟨index, known⟩
    exact
      ⟨index, (family index).stable different before after moved known⟩

/-- Every member of a family of assertions holds. -/
def all
    {Index : Sort*}
    (family : Index → Assertion protocol thread) :
    Assertion protocol thread where
  holds world := ∀ index, (family index).holds world
  stable different before after moved known index :=
    (family index).stable different before after moved (known index)

@[simp] theorem holds_pure
    {fact : Prop}
    {world : S × G} :
    (pure fact : Assertion protocol thread).holds world ↔
      fact :=
  Iff.rfl

@[simp] theorem holds_and
    {left right : Assertion protocol thread}
    {world : S × G} :
    (left.and right).holds world ↔
      left.holds world ∧ right.holds world :=
  Iff.rfl

@[simp] theorem holds_or
    {left right : Assertion protocol thread}
    {world : S × G} :
    (left.or right).holds world ↔
      left.holds world ∨ right.holds world :=
  Iff.rfl

@[simp] theorem holds_any
    {Index : Sort*}
    {family : Index → Assertion protocol thread}
    {world : S × G} :
    (any family).holds world ↔ ∃ index, (family index).holds world :=
  Iff.rfl

@[simp] theorem holds_all
    {Index : Sort*}
    {family : Index → Assertion protocol thread}
    {world : S × G} :
    (all family).holds world ↔ ∀ index, (family index).holds world :=
  Iff.rfl

/-- An assertion that the thread's own steps cannot destroy either. -/
def Durable
    (assertion : Assertion protocol thread) : Prop :=
  ∀ world after,
    protocol.Inv world →
    protocol.Inv after →
    protocol.Guar thread world after →
    assertion.holds world →
    assertion.holds after

theorem Durable.and
    {left right : Assertion protocol thread}
    (first : left.Durable)
    (second : right.Durable) :
    (left.and right).Durable :=
  fun world after inv invAfter guarantee known =>
    ⟨first world after inv invAfter guarantee known.1,
      second world after inv invAfter guarantee known.2⟩

/-- A loop goes around with its invariant and leaves with its result. -/
def turn
    {β γ : Type}
    (invariant : β → Assertion protocol thread)
    (post : γ → Assertion protocol thread) :
    β ⊕ γ → Assertion protocol thread
  | .inl value => invariant value
  | .inr result => post result

/-- A property that no thread invalidates. -/
def lasting
    (holds : S × G → Prop)
    (keeps :
      ∀ other world after,
        protocol.Inv world →
        protocol.Inv after →
        protocol.Guar other world after →
        holds world →
        holds after) :
    Assertion protocol thread where
  holds := holds
  stable _ := keeps _ _ _

theorem lasting_durable
    {holds : S × G → Prop}
    {keeps :
      ∀ other world after,
        protocol.Inv world →
        protocol.Inv after →
        protocol.Guar other world after →
        holds world →
        holds after} :
    (lasting holds keeps : Assertion protocol thread).Durable :=
  keeps thread

end Assertion

variable (protocol : Protocol S G T) (thread : T)

/--
For the next `fuel` steps the thread keeps the protocol whatever the other
threads do, and its result satisfies the postcondition.
-/
def Safe :
    Nat →
    Prog S C α →
    (α → Assertion protocol thread) →
    S × G →
    Prop
  | 0, _, _, _ => True
  | fuel + 1, program, post, world =>
      (∀ result, program = .ret result → (post result).holds world) ∧
      (∀ other after,
        other ≠ thread →
        protocol.Inv after →
        protocol.Guar other world after →
        Safe fuel program post after) ∧
      (∀ choice shared remaining,
        program.step world.1 choice = some (shared, remaining) →
        ∃ ghost,
          protocol.Inv (shared, ghost) ∧
          protocol.Guar thread world (shared, ghost) ∧
          Safe fuel remaining post (shared, ghost))

/-- From the precondition the program is safe for any number of steps. -/
def Triple
    (pre : Assertion protocol thread)
    (program : Prog S C α)
    (post : α → Assertion protocol thread) : Prop :=
  ∀ fuel world,
    protocol.Inv world →
    pre.holds world →
    Safe protocol thread fuel program post world

variable {protocol : Protocol S G T} {thread : T}

/-- A step of the thread may end in this state and establishes the assertion. -/
def Lands
    (world : S × G)
    (shared : S)
    (post : Assertion protocol thread) : Prop :=
  ∃ ghost,
    protocol.Inv (shared, ghost) ∧
      protocol.Guar thread world (shared, ghost) ∧
      post.holds (shared, ghost)

/-- A step that changes nothing. -/
theorem Lands.stay
    {world : S × G}
    {post : Assertion protocol thread}
    (inv : protocol.Inv world)
    (known : post.holds world) :
    Lands world world.1 post :=
  ⟨world.2, inv, protocol.guar_refl thread world, known⟩

namespace Safe

/-- A finished program stays safe because assertions are stable. -/
theorem ret
    {fuel : Nat}
    {result : α}
    {post : α → Assertion protocol thread}
    {world : S × G}
    (inv : protocol.Inv world)
    (known : (post result).holds world) :
    Safe protocol thread fuel
      (.ret result : Prog S C α) post world := by
  induction fuel generalizing world with
  | zero =>
      trivial
  | succ fuel inductionHypothesis =>
      refine ⟨?_, ?_, ?_⟩
      · intro other same
        cases same
        exact known
      · intro other after different invAfter moved
        exact inductionHypothesis invAfter
          ((post result).stable different inv invAfter moved known)
      · intro choice shared remaining moved
        simp [Prog.step] at moved

/-- Sequencing, with the continuation safe for the steps that are left. -/
theorem bind
    {fuel : Nat}
    {program : Prog S C α}
    {next : α → Prog S C β}
    {middle : α → Assertion protocol thread}
    {post : β → Assertion protocol thread}
    {world : S × G}
    (inv : protocol.Inv world)
    (safe : Safe protocol thread fuel program middle world)
    (continues :
      ∀ left, left ≤ fuel →
        ∀ result after,
          protocol.Inv after →
          (middle result).holds after →
          Safe protocol thread left (next result) post after) :
    Safe protocol thread fuel (program.bind next) post world := by
  induction fuel generalizing program world with
  | zero =>
      trivial
  | succ fuel inductionHypothesis =>
      by_cases finished : ∃ result, program = .ret result
      · obtain ⟨result, rfl⟩ := finished
        exact continues _ (Nat.le_refl _) result world inv
          (safe.1 result rfl)
      · have unfinished : ∀ result, program ≠ .ret result :=
          fun result same => finished ⟨result, same⟩
        have continuesLater :
            ∀ left, left ≤ fuel →
              ∀ result after,
                protocol.Inv after →
                (middle result).holds after →
                Safe protocol thread left (next result) post after :=
          fun left bound =>
            continues left (Nat.le_succ_of_le bound)
        refine ⟨?_, ?_, ?_⟩
        · intro result same
          cases program with
          | ret value =>
              exact (unfinished value rfl).elim
          | act command rest =>
              cases same
          | iter body start rest =>
              cases same
        · intro other after different invAfter moved
          exact inductionHypothesis invAfter
            (safe.2.1 other after different invAfter moved)
            continuesLater
        · intro choice shared remaining moved
          obtain ⟨middleProgram, movedFirst, rfl⟩ :=
            Prog.step_bind unfinished moved
          obtain ⟨ghost, invAfter, guar, later⟩ :=
            safe.2.2 choice shared middleProgram movedFirst
          exact ⟨ghost, invAfter, guar,
            inductionHypothesis invAfter later continuesLater⟩

/-- A weaker postcondition is met as well. -/
theorem post_mono
    {fuel : Nat}
    {program : Prog S C α}
    {post weaker : α → Assertion protocol thread}
    {world : S × G}
    (inv : protocol.Inv world)
    (weakens :
      ∀ result after,
        protocol.Inv after →
        (post result).holds after →
        (weaker result).holds after)
    (safe : Safe protocol thread fuel program post world) :
    Safe protocol thread fuel program weaker world := by
  induction fuel generalizing program world with
  | zero =>
      trivial
  | succ fuel inductionHypothesis =>
      refine ⟨?_, ?_, ?_⟩
      · intro result same
        exact weakens result world inv (safe.1 result same)
      · intro other after different invAfter moved
        exact inductionHypothesis invAfter
          (safe.2.1 other after different invAfter moved)
      · intro choice shared remaining moved
        obtain ⟨ghost, invAfter, guar, later⟩ :=
          safe.2.2 choice shared remaining moved
        exact ⟨ghost, invAfter, guar,
          inductionHypothesis invAfter later⟩

/-- A fact that every step of every thread keeps can be carried along. -/
theorem frame
    {fuel : Nat}
    {program : Prog S C α}
    {post : α → Assertion protocol thread}
    {world : S × G}
    {kept : Assertion protocol thread}
    (durable : kept.Durable)
    (inv : protocol.Inv world)
    (known : kept.holds world)
    (safe : Safe protocol thread fuel program post world) :
    Safe protocol thread fuel program
      (fun result => (post result).and kept) world := by
  induction fuel generalizing program world with
  | zero =>
      trivial
  | succ fuel inductionHypothesis =>
      refine ⟨?_, ?_, ?_⟩
      · intro result same
        exact ⟨safe.1 result same, known⟩
      · intro other after different invAfter moved
        exact inductionHypothesis invAfter
          (kept.stable different inv invAfter moved known)
          (safe.2.1 other after different invAfter moved)
      · intro choice shared remaining moved
        obtain ⟨ghost, invAfter, guar, later⟩ :=
          safe.2.2 choice shared remaining moved
        exact ⟨ghost, invAfter, guar,
          inductionHypothesis invAfter
            (durable _ _ inv invAfter guar known) later⟩

end Safe

namespace Triple

/-- A finished program. -/
theorem ret
    {pre : Assertion protocol thread}
    {result : α}
    {post : α → Assertion protocol thread}
    (enough :
      ∀ world,
        protocol.Inv world →
        pre.holds world →
        (post result).holds world) :
    Triple protocol thread pre (.ret result : Prog S C α) post :=
  fun _ world inv known =>
    Safe.ret inv (enough world inv known)

/-- A finished program, in monad notation. -/
theorem pure
    {pre : Assertion protocol thread}
    {result : α}
    {post : α → Assertion protocol thread}
    (enough :
      ∀ world,
        protocol.Inv world →
        pre.holds world →
        (post result).holds world) :
    Triple protocol thread pre
      (Pure.pure result : Prog S C α) post :=
  ret enough

/-- Sequencing. -/
theorem bind
    {pre : Assertion protocol thread}
    {program : Prog S C α}
    {next : α → Prog S C β}
    {middle : α → Assertion protocol thread}
    {post : β → Assertion protocol thread}
    (first : Triple protocol thread pre program middle)
    (second :
      ∀ result,
        Triple protocol thread (middle result) (next result) post) :
    Triple protocol thread pre (program >>= next) post :=
  fun fuel world inv known =>
    Safe.bind inv (first fuel world inv known)
      fun left _ result after invAfter knownAfter =>
        second result left after invAfter knownAfter

/-- One atomic command: it keeps the protocol and reaches its postcondition. -/
theorem atomic
    {pre : Assertion protocol thread}
    {command : S → C → Option (β × S)}
    {post : β → Assertion protocol thread}
    (keeps :
      ∀ world choice value shared,
        protocol.Inv world →
        pre.holds world →
        command world.1 choice = some (value, shared) →
        ∃ ghost,
          protocol.Inv (shared, ghost) ∧
          protocol.Guar thread world (shared, ghost) ∧
          (post value).holds (shared, ghost)) :
    Triple protocol thread pre (Prog.atomic command) post := by
  intro fuel
  induction fuel with
  | zero =>
      intro world inv known
      trivial
  | succ fuel inductionHypothesis =>
      intro world inv known
      refine ⟨?_, ?_, ?_⟩
      · intro result same
        cases same
      · intro other after different invAfter moved
        exact inductionHypothesis after invAfter
          (pre.stable different inv invAfter moved known)
      · intro choice shared remaining moved
        simp only [Prog.atomic, Prog.step,
          Option.map_eq_some_iff] at moved
        obtain ⟨⟨value, after⟩, ran, shape⟩ := moved
        cases shape
        obtain ⟨ghost, invAfter, guar, knownAfter⟩ :=
          keeps world choice value after inv known ran
        exact ⟨ghost, invAfter, guar,
          Safe.ret invAfter knownAfter⟩

/-- An atomic read changes nothing. -/
theorem read
    {pre : Assertion protocol thread}
    {view : S → β}
    {post : β → Assertion protocol thread}
    (enough :
      ∀ world,
        protocol.Inv world →
        pre.holds world →
        (post (view world.1)).holds world) :
    Triple protocol thread pre
      (Prog.read view : Prog S C β) post := by
  apply atomic
  intro world choice value shared inv known ran
  cases ran
  exact ⟨world.2, inv, protocol.guar_refl thread world,
    enough world inv known⟩

/-- A loop whose turns keep an invariant. -/
theorem loop
    {invariant : β → Assertion protocol thread}
    {start : β}
    {body : β → Prog S C (β ⊕ γ)}
    {post : γ → Assertion protocol thread}
    (turns :
      ∀ value,
        Triple protocol thread (invariant value) (body value)
          (Assertion.turn invariant post)) :
    Triple protocol thread (invariant start)
      (Prog.loop start body) post := by
  intro fuel
  induction fuel using Nat.strongRecOn generalizing start with
  | _ fuel inductionHypothesis =>
      intro world inv known
      cases fuel with
      | zero =>
          trivial
      | succ fuel =>
          refine ⟨?_, ?_, ?_⟩
          · intro result same
            cases same
          · intro other after different invAfter moved
            exact inductionHypothesis fuel (Nat.lt_succ_self _)
              after invAfter
              ((invariant start).stable different inv invAfter
                moved known)
          · intro choice shared remaining moved
            simp only [Prog.loop, Prog.step, Option.some.injEq,
              Prod.mk.injEq] at moved
            obtain ⟨rfl, rfl⟩ := moved
            refine ⟨world.2, inv, protocol.guar_refl thread world, ?_⟩
            refine Safe.bind inv (turns start fuel world inv known) ?_
            intro left bound outcome after invAfter knownAfter
            cases outcome with
            | inl value =>
                exact inductionHypothesis left
                  (Nat.lt_succ_of_le bound) after invAfter knownAfter
            | inr result =>
                exact Safe.ret invAfter knownAfter

/-- A loop whose invariant is given. -/
theorem loopWith
    (invariant : β → Assertion protocol thread)
    {start : β}
    {body : β → Prog S C (β ⊕ γ)}
    {post : γ → Assertion protocol thread}
    (turns :
      ∀ value,
        Triple protocol thread (invariant value) (body value)
          (Assertion.turn invariant post)) :
    Triple protocol thread (invariant start)
      (Prog.loop start body) post :=
  loop turns

/-- Strengthen the precondition. -/
theorem weaken
    {pre stronger : Assertion protocol thread}
    {program : Prog S C α}
    {post : α → Assertion protocol thread}
    (triple : Triple protocol thread pre program post)
    (implies :
      ∀ world,
        protocol.Inv world →
        stronger.holds world →
        pre.holds world) :
    Triple protocol thread stronger program post :=
  fun fuel world inv known =>
    triple fuel world inv (implies world inv known)

/-- Weaken the postcondition. -/
theorem consequence
    {pre : Assertion protocol thread}
    {program : Prog S C α}
    {post weaker : α → Assertion protocol thread}
    (triple : Triple protocol thread pre program post)
    (implies :
      ∀ result world,
        protocol.Inv world →
        (post result).holds world →
        (weaker result).holds world) :
    Triple protocol thread pre program weaker :=
  fun fuel world inv known =>
    (triple fuel world inv known).post_mono inv implies

/-- Carry a durable fact across a program. -/
theorem frame
    {pre kept : Assertion protocol thread}
    {program : Prog S C α}
    {post : α → Assertion protocol thread}
    (durable : kept.Durable)
    (triple : Triple protocol thread pre program post) :
    Triple protocol thread (pre.and kept) program
      fun result => (post result).and kept :=
  fun fuel world inv known =>
    (triple fuel world inv known.1).frame durable inv known.2

/-- A precondition may be opened before the program is run. -/
theorem any
    {Index : Sort*}
    {family : Index → Assertion protocol thread}
    {program : Prog S C α}
    {post : α → Assertion protocol thread}
    (each :
      ∀ index,
        Triple protocol thread (family index) program post) :
    Triple protocol thread (Assertion.any family) program post :=
  fun fuel world inv ⟨index, known⟩ =>
    each index fuel world inv known

/-- A fact about local values may be assumed while verifying the program. -/
theorem given
    {fact : Prop}
    {pre : Assertion protocol thread}
    {program : Prog S C α}
    {post : α → Assertion protocol thread}
    (proves :
      fact → Triple protocol thread pre program post) :
    Triple protocol thread
      ((Assertion.pure fact).and pre) program post :=
  fun fuel world inv known =>
    proves known.1 fuel world inv known.2

end Triple

section Narrow

variable
  {promise : S × G → S × G → Prop}
  {reflexive : ∀ world, promise world world}

/-- The thread promises more than the protocol asks of it. -/
def Protocol.narrow
    (protocol : Protocol S G T)
    (thread : T)
    (promise : S × G → S × G → Prop)
    (reflexive : ∀ world, promise world world) :
    Protocol S G T where
  Inv := protocol.Inv
  Guar other world after :=
    protocol.Guar other world after ∧
      (other = thread → promise world after)
  guar_refl other world :=
    ⟨protocol.guar_refl other world, fun _ => reflexive world⟩

/-- Assertions of a thread do not depend on what it promises itself. -/
def Assertion.narrow
    (assertion : Assertion protocol thread) :
    Assertion (protocol.narrow thread promise reflexive) thread where
  holds := assertion.holds
  stable different inv invAfter guarantee :=
    assertion.stable different inv invAfter guarantee.1

/-- What is safe under a narrower promise is safe, and keeps what it keeps. -/
theorem Safe.widen
    {fuel : Nat}
    {program : Prog S C α}
    {post : α → Assertion protocol thread}
    {world : S × G}
    {kept : Assertion protocol thread}
    (durable :
      ∀ world after,
        protocol.Inv world →
        protocol.Inv after →
        promise world after →
        kept.holds world →
        kept.holds after)
    (inv : protocol.Inv world)
    (known : kept.holds world)
    (safe :
      Safe (protocol.narrow thread promise reflexive) thread fuel program
        (fun result => (post result).narrow) world) :
    Safe protocol thread fuel program
      (fun result => (post result).and kept) world := by
  induction fuel generalizing program world with
  | zero =>
      trivial
  | succ fuel inductionHypothesis =>
      refine ⟨?_, ?_, ?_⟩
      · intro result same
        exact ⟨safe.1 result same, known⟩
      · intro other after different invAfter moved
        exact inductionHypothesis invAfter
          (kept.stable different inv invAfter moved known)
          (safe.2.1 other after different invAfter
            ⟨moved, fun same => absurd same different⟩)
      · intro choice shared remaining moved
        obtain ⟨ghost, invAfter, guarantee, later⟩ :=
          safe.2.2 choice shared remaining moved
        exact ⟨ghost, invAfter, guarantee.1,
          inductionHypothesis invAfter
            (durable _ _ inv invAfter (guarantee.2 rfl) known) later⟩

/-- Assertions under a narrower promise are assertions without it. -/
def Assertion.unnarrow
    (assertion :
      Assertion (protocol.narrow thread promise reflexive) thread) :
    Assertion protocol thread where
  holds := assertion.holds
  stable different inv invAfter guarantee :=
    assertion.stable different inv invAfter
      ⟨guarantee, fun same => absurd same different⟩

/-- What is verified under a narrower promise is verified without it. -/
theorem Triple.unnarrow
    {program : Prog S C α}
    {pre : Assertion (protocol.narrow thread promise reflexive) thread}
    {post :
      α → Assertion (protocol.narrow thread promise reflexive) thread}
    (triple :
      Triple (protocol.narrow thread promise reflexive) thread pre program
        post) :
    Triple protocol thread pre.unnarrow program
      fun result => (post result).unnarrow := by
  intro fuel world inv known
  have wider :
      Safe protocol thread fuel program
        (fun result =>
          (post result).unnarrow.and (Assertion.pure True)) world :=
    Safe.widen (fun _ _ _ _ _ _ => trivial) inv trivial
      (triple fuel world inv known)
  refine Safe.post_mono inv ?_ wider
  intro result after _ reached
  exact reached.1

end Narrow

variable (protocol) in
/-- One step of some thread between worlds that satisfy the invariant. -/
def Moves
    (world after : S × G) : Prop :=
  protocol.Inv world ∧ protocol.Inv after ∧
    ∃ thread, protocol.Guar thread world after

variable (protocol) in
/-- Any number of steps. -/
def Evolves : S × G → S × G → Prop :=
  Relation.ReflTransGen (Moves protocol)

/-- What every step keeps, every run keeps. -/
theorem Evolves.keeps
    (property : S × G → Prop)
    {world last : S × G}
    (evolves : Evolves protocol world last)
    (known : property world)
    (steps :
      ∀ {thread world after},
        protocol.Inv world →
        protocol.Inv after →
        protocol.Guar thread world after →
        property world →
        property after) :
    property last := by
  induction evolves with
  | refl =>
      exact known
  | tail _ moved inductionHypothesis =>
      obtain ⟨inv, invAfter, thread, guarantee⟩ := moved
      exact steps inv invAfter guarantee inductionHypothesis

variable (protocol) in
/-- Every thread of the pool is safe for the next `fuel` steps. -/
def Covered
    (fuel : Nat)
    (pool : Pool S C T)
    (ghost : G) : Prop :=
  protocol.Inv (pool.shared, ghost) ∧
    ∀ thread,
      Safe protocol thread fuel (pool.threads thread)
        (fun _ => Assertion.pure True) (pool.shared, ghost)

namespace Covered

variable [DecidableEq T]

/-- One scheduled step keeps the protocol. -/
theorem step
    {fuel : Nat}
    {pool next : Pool S C T}
    {ghost : G}
    {thread : T}
    {choice : C}
    (covered : Covered protocol (fuel + 1) pool ghost)
    (moved : pool.step thread choice = some next) :
    ∃ after,
      Covered protocol fuel next after ∧
        protocol.Guar thread (pool.shared, ghost)
          (next.shared, after) := by
  simp only [Pool.step, Option.map_eq_some_iff] at moved
  obtain ⟨⟨shared, remaining⟩, ran, rfl⟩ := moved
  obtain ⟨after, inv, guar, safe⟩ :=
    (covered.2 thread).2.2 choice shared remaining ran
  refine ⟨after, ⟨inv, ?_⟩, guar⟩
  intro other
  by_cases same : other = thread
  · subst other
    simpa using safe
  · simp only [Function.update_of_ne same]
    exact (covered.2 other).2.1 thread _ (Ne.symm same) inv guar

/-- A scheduled run keeps the protocol at every step. -/
theorem run
    {fuel : Nat}
    {pool last : Pool S C T}
    {ghost : G}
    {schedule : List (T × C)}
    (covered : Covered protocol (fuel + schedule.length) pool ghost)
    (ran : pool.run schedule = some last) :
    ∃ after,
      Covered protocol fuel last after ∧
        Evolves protocol (pool.shared, ghost) (last.shared, after) := by
  induction schedule generalizing pool ghost with
  | nil =>
      cases ran
      exact ⟨ghost, covered, Relation.ReflTransGen.refl⟩
  | cons entry rest inductionHypothesis =>
      obtain ⟨thread, choice⟩ := entry
      simp only [Pool.run, Option.bind_eq_some_iff] at ran
      obtain ⟨next, moved, ranRest⟩ := ran
      obtain ⟨middle, coveredNext, guar⟩ := covered.step moved
      obtain ⟨after, coveredLast, evolves⟩ :=
        inductionHypothesis coveredNext ranRest
      exact ⟨after, coveredLast,
        evolves.head ⟨covered.1, coveredNext.1, thread, guar⟩⟩

/-- A pool reached from a covered one is covered for the steps left. -/
theorem reaches
    {pool last : Pool S C T}
    (reached : pool.Reaches last) :
    ∃ needed,
      ∀ {fuel ghost},
        Covered protocol (fuel + needed) pool ghost →
        ∃ after,
          Covered protocol fuel last after ∧
            Evolves protocol (pool.shared, ghost) (last.shared, after) := by
  obtain ⟨schedule, ran⟩ := reached
  exact ⟨schedule.length, fun covered => covered.run ran⟩

end Covered

/-- A pool whose threads are verified is covered for any number of steps. -/
theorem covered_of_triples
    {pool : Pool S C T}
    {ghost : G}
    {pre : ∀ thread, Assertion protocol thread}
    (inv : protocol.Inv (pool.shared, ghost))
    (known : ∀ thread, (pre thread).holds (pool.shared, ghost))
    (verified :
      ∀ thread,
        Triple protocol thread (pre thread) (pool.threads thread)
          fun _ => Assertion.pure True)
    (fuel : Nat) :
    Covered protocol fuel pool ghost :=
  ⟨inv, fun thread => verified thread fuel _ inv (known thread)⟩

end ConcurrentCpp
