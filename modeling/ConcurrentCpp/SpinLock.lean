import ConcurrentCpp.RelyGuarantee

namespace ConcurrentCpp

/-!
# The spinlock

`SpinLock` is one atomic word, taken by a hand-unrolled test-and-test-and-set
loop.  The model is generic in the shared state that holds the word.  What the
history records when the word is taken or given back is passed in; it is
recorded by the exchange that found the word free and by the store that frees
it.
-/

/-- The word of a lock inside a shared state. -/
structure SpinLock (S : Type) where
  word : S → Bool
  store : Bool → S → S

namespace SpinLock

variable {S G C T : Type}

/-- `lock_.load()`. -/
def load
    (spin : SpinLock S) :
    Prog S C Bool :=
  Prog.read spin.word

/-- `lock_.exchange(1)`. -/
def exchange
    (spin : SpinLock S)
    (taken : S → S) :
    Prog S C Bool :=
  Prog.atomic fun state _ =>
    if spin.word state then
      some (true, spin.store true state)
    else
      some (false, taken (spin.store true state))

/-- `!(lock_.load() || lock_.exchange(1))`. -/
def attempt
    (spin : SpinLock S)
    (taken : S → S) :
    Prog S C Bool := do
  let held ← spin.load
  if held then
    pure false
  else do
    let lost ← spin.exchange taken
    pure (!lost)

/-- Some attempts in a row. -/
def attempts
    (spin : SpinLock S)
    (taken : S → S) :
    Nat → Prog S C Bool
  | 0 => pure false
  | count + 1 => do
      let won ← spin.attempt taken
      if won then
        pure true
      else
        spin.attempts taken count

/-- `lock()`; after a long sleep the count of short ones starts over. -/
def lock
    (spin : SpinLock S)
    (taken : S → S) :
    Prog S C Unit :=
  Prog.loop 0 fun spinCount => do
    let won ← spin.attempt taken
    if won then
      Prog.leave ()
    else do
      let wonLater ← spin.attempts taken 7
      if wonLater then
        Prog.leave ()
      else
        Prog.again (if spinCount < 8 then spinCount + 1 else 0)

/-- `unlock()`. -/
def unlock
    (spin : SpinLock S)
    (released : S → S) :
    Prog S C Unit :=
  Prog.write fun state => released (spin.store false state)

section Rules

variable
  {protocol : Protocol S G T}
  {thread : T}
  {spin : SpinLock S}
  {taken : S → S}
  {pre post : Assertion protocol thread}

/-- Either the lock was won, with what that establishes, or nothing changed. -/
def outcome
    (pre post : Assertion protocol thread)
    (won : Bool) :
    Assertion protocol thread :=
  if won then post else pre

/--
The exchange: it is enough to look at one that finds the word free, since the
others write what is there.
-/
theorem exchange_triple
    (lens : ∀ state, spin.word state = true → spin.store true state = state)
    (wins :
      ∀ world,
        protocol.Inv world →
        pre.holds world →
        spin.word world.1 = false →
        ∃ ghost,
          protocol.Inv (taken (spin.store true world.1), ghost) ∧
          protocol.Guar thread world
            (taken (spin.store true world.1), ghost) ∧
          post.holds (taken (spin.store true world.1), ghost)) :
    Triple protocol thread pre (spin.exchange taken : Prog S C Bool)
      fun lost => outcome pre post (!lost) := by
  refine Triple.atomic ?_
  intro world choice value shared inv known ran
  by_cases held : spin.word world.1 = true
  · simp only [held, ↓reduceIte, Option.some.injEq,
      Prod.mk.injEq] at ran
    obtain ⟨rfl, rfl⟩ := ran
    rw [lens world.1 held]
    exact ⟨world.2, inv, protocol.guar_refl thread world, known⟩
  · simp only [held, Bool.false_eq_true, ↓reduceIte,
      Option.some.injEq, Prod.mk.injEq] at ran
    obtain ⟨rfl, rfl⟩ := ran
    exact wins world inv known (by simpa using held)

/-- One attempt to take the lock. -/
theorem attempt_triple
    (exchanged :
      Triple protocol thread pre (spin.exchange taken : Prog S C Bool)
        fun lost => outcome pre post (!lost)) :
    Triple protocol thread pre (spin.attempt taken : Prog S C Bool)
      (outcome pre post) := by
  have loaded :
      Triple protocol thread pre (spin.load : Prog S C Bool)
        fun _ => pre :=
    Triple.read fun _ _ known => known
  refine Triple.bind loaded ?_
  intro held
  cases held with
  | true =>
      exact Triple.pure fun _ _ known => known
  | false =>
      refine Triple.bind exchanged ?_
      intro lost
      exact Triple.pure fun _ _ known => known

theorem attempts_triple
    (once :
      Triple protocol thread pre (spin.attempt taken : Prog S C Bool)
        (outcome pre post))
    (count : Nat) :
    Triple protocol thread pre
      (spin.attempts taken count : Prog S C Bool)
      (outcome pre post) := by
  induction count with
  | zero =>
      exact Triple.pure fun _ _ known => known
  | succ count inductionHypothesis =>
      refine Triple.bind once ?_
      intro won
      cases won with
      | true =>
          exact Triple.pure fun _ _ known => known
      | false =>
          exact inductionHypothesis

/-- `lock()` returns with the lock taken. -/
theorem lock_triple
    (once :
      Triple protocol thread pre (spin.attempt taken : Prog S C Bool)
        (outcome pre post)) :
    Triple protocol thread pre (spin.lock taken : Prog S C Unit)
      fun _ => post := by
  refine Triple.loop
    (fun spinCount => ?_ : ∀ _ : Nat, Triple protocol thread pre _ _)
  refine Triple.bind once ?_
  intro won
  cases won with
  | true =>
      exact Triple.ret fun _ _ known => known
  | false =>
      refine Triple.bind (attempts_triple once 7) ?_
      intro wonLater
      cases wonLater with
      | true =>
          exact Triple.ret fun _ _ known => known
      | false =>
          exact Triple.ret fun _ _ known => known

end Rules

end SpinLock

section Holders

/-!
Where a lock guards an index, the proof keeps the holder of the lock and
whether it has already taken the index that the word still shows.
-/

variable {T : Type}

/-- The step that the index does not show yet. -/
def advancing : Option (T × Bool) → Nat
  | some (_, true) => 1
  | _ => 0

/-- A free lock has no holder. -/
theorem holder_none
    {holder : Option (T × Bool)}
    {lock : Bool}
    (locked : lock = holder.isSome)
    (free : lock = false) :
    holder = none := by
  rw [free] at locked
  exact Option.isNone_iff_eq_none.mp (by simpa using locked.symm)

variable [DecidableEq T] {thread : T}

/-- What the thread has taken, if it holds the lock. -/
def claimOf
    (thread : T) :
    Option (T × Bool) → Option Bool
  | some (holder, claimed) => if holder = thread then some claimed else none
  | none => none

/-- Nobody else holds a lock that the thread holds. -/
theorem claimOf_other
    {other : T}
    (claimed : Bool)
    (different : other ≠ thread) :
    claimOf other (some (thread, claimed)) = none := by
  simp [claimOf, Ne.symm different]

/-- The claim of the thread shows it as the holder. -/
theorem holder_of_claim
    {holder : Option (T × Bool)}
    {claimed : Bool}
    (claim : claimOf thread holder = some claimed) :
    holder = some (thread, claimed) := by
  cases holder with
  | none =>
      cases claim
  | some pair =>
      obtain ⟨other, flag⟩ := pair
      by_cases same : other = thread
      · simp only [claimOf, same, ↓reduceIte, Option.some.injEq] at claim
        rw [same, claim]
      · simp [claimOf, same] at claim

/-- A change of hands of the thread or of nobody. -/
def OwnHands
    (thread : T)
    (before after : Option (T × Bool)) : Prop :=
  ∀ other,
    other ≠ thread →
    claimOf other before = none ∧ claimOf other after = none

theorem ownHands
    {before after : Option (T × Bool)}
    (mineBefore : before = none ∨ ∃ claimed, before = some (thread, claimed))
    (mineAfter : after = none ∨ ∃ claimed, after = some (thread, claimed)) :
    OwnHands thread before after := by
  intro other different
  constructor
  · rcases mineBefore with rfl | ⟨claimed, rfl⟩
    · rfl
    · exact claimOf_other claimed different
  · rcases mineAfter with rfl | ⟨claimed, rfl⟩
    · rfl
    · exact claimOf_other claimed different

/-- The holder of a lock after a step of the thread. -/
def HandOver
    (thread : T)
    (before after : Option (T × Bool)) : Prop :=
  after = before ∨ OwnHands thread before after

theorem HandOver.claimOf
    {before after : Option (T × Bool)}
    {other : T}
    (hands : HandOver thread before after)
    (different : other ≠ thread) :
    claimOf other after = claimOf other before := by
  rcases hands with rfl | own
  · rfl
  · exact (own other different).2.trans (own other different).1.symm

end Holders

end ConcurrentCpp
