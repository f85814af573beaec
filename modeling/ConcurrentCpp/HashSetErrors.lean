import ConcurrentCpp.Completion
import ConcurrentCpp.HashSetBuckets

namespace ConcurrentCpp.HashSet

/-!
# Exceptions of the hash set

A call that throws has not changed the set.  A split that throws leaves nodes
frozen, but they stay authoritative until some thread publishes the bucket,
and whoever publishes it has one copy of every key of the bucket.  A doubling
that fails after a publication is forgotten.
-/

variable {K T : Type} [DecidableEq K] [DecidableEq T]

section History

/-- What a history says about calls that throw. -/
structure ExceptionSafe (events : List (SetEvent T K)) : Prop where
  /-- No step of a call that threw has changed the set. -/
  unchanged :
    ∀ {later thread operation earlier},
      events = later ++ .threw thread operation :: earlier →
      ∃ recent older,
        earlier = recent ++ .called thread operation :: older ∧
          ∀ event ∈ recent, event.thread = thread → ¬ event.Updates
  /-- An insertion that has published its key ends by returning `true`. -/
  published :
    ∀ {later thread key ending earlier},
      events = later ++ ending :: earlier →
      calling earlier thread = some (.insert key) →
      updated earlier thread = true →
      ending.thread = thread →
      ending = .returned thread (.insert key) true

end History

section Publication

variable
  {config : Config K T}
  {state : State K T}
  {bucket : Nat}

/-- The chain of the bucket is one node for every key of the bucket. -/
structure HoldsMembers
    (config : Config K T)
    (state : State K T)
    (bucket : Nat)
    (nodes : List Slot) : Prop where
  path : Path state.chainLinks (.root bucket) nodes
  distinct : nodes.Nodup
  live :
    ∀ node ∈ nodes,
      (state.link node).mark = false ∧
        (state.link node).frozen = false ∧
        ∃ key,
          state.value node = some key ∧
            OnPath (config.hash key) bucket ∧
            member state.events key = true
  copied :
    ∀ {key},
      OnPath (config.hash key) bucket →
      member state.events key = true →
      ∃ node,
        (node ∈ nodes ∧ state.value node = some key) ∧
          ∀ other ∈ nodes, state.value other = some key → other = node

omit [DecidableEq T] in
/-- A bucket that was split off for its keys has one node for each. -/
theorem SplitOff.holdsMembers
    {nodes : List Slot}
    {keys : List K}
    (split : SplitOff config state bucket nodes keys) :
    HoldsMembers config state bucket nodes := by
  have distinct : (nodes.map state.value).Nodup := by
    rw [split.values]
    exact split.distinct.map (Option.some_injective K)
  refine ⟨split.chain, distinct.of_map, ?_, ?_⟩
  · intro node inside
    have shown : state.value node ∈ keys.map some := by
      rw [← split.values]
      exact List.mem_map_of_mem inside
    obtain ⟨key, listed, holds⟩ := List.mem_map.mp shown
    obtain ⟨isMember, onPath⟩ := (split.members key).mp listed
    have bare := split.live node inside
    exact ⟨bare.1, bare.2, key, holds.symm, onPath, isMember⟩
  · intro key onPath isMember
    have shown : some key ∈ nodes.map state.value := by
      rw [split.values]
      exact List.mem_map_of_mem ((split.members key).mpr ⟨isMember, onPath⟩)
    obtain ⟨node, inside, holds⟩ := List.mem_map.mp shown
    refine ⟨node, ⟨inside, holds⟩, fun other insideToo same => ?_⟩
    exact List.inj_on_of_nodup_map distinct insideToo inside
      (same.trans holds.symm)

end Publication

section Doubling

omit [DecidableEq K] [DecidableEq T]

/--
The steps of a doubling whose `resize()` throws write only the lock, whatever
other threads do between them.
-/
theorem doubling_fails
    {size : Nat}
    {first second third : State K T}
    (crowded : size * 2 < first.nodeCount)
    (free : second.resizing = false)
    (current : third.tableSize = size)
    (fourth fifth : State K T) :
    (doubleTable size).replay
        [(first, .proceed), (second, .proceed), (third, .proceed),
          (fourth, .throws), (fifth, .proceed)] =
      some
        ([first, { second with resizing := true }, third, fourth,
          { fifth with resizing := false }], .ret ()) := by
  simp [Prog.replay, doubleTable, Bind.bind, Prog.bind, Prog.read, Prog.atomic,
    Prog.step, crowded, free, current, lockResize, loadSize,
    resizeBuckets, unlockResize, Prog.write]

/-- The new buckets are marked one after the other. -/
theorem markBuckets_finishes
    {size : Nat}
    {state : State K T} :
    Finishes (· = .proceed)
      (fun _ after => after = { state with buckets := after.buckets })
      (markBuckets size : Program K T Unit) state := by
  have enabled : ∃ choice : Choice K, choice = .proceed := ⟨_, rfl⟩
  refine Finishes.loop
    (fun _ after => after = { state with buckets := after.buckets })
    (fun bucket => size * 2 - bucket) ?_ enabled rfl
  intro bucket current known
  by_cases more : bucket < size * 2
  · simp only [more, ↓reduceIte]
    refine Finishes.bind (Finishes.wrote enabled) ?_
    rintro _ after rfl
    refine Finishes.ret ⟨?_, by omega⟩
    rw [known]
  · simp only [more, ↓reduceIte]
    exact Finishes.ret known

/-- A doubling that nothing disturbs doubles the table. -/
theorem doubling_finishes
    {size : Nat}
    {state : State K T}
    (crowded : size * 2 < state.nodeCount)
    (free : state.resizing = false)
    (current : state.tableSize = size) :
    Finishes (· = .proceed)
      (fun _ after =>
        after.tableSize = size * 2 ∧ after.resizing = false)
      (doubleTable size : Program K T Unit) state := by
  have enabled : ∃ choice : Choice K, choice = .proceed := ⟨_, rfl⟩
  have counts :
      Finishes (· = .proceed)
        (fun count after => count = state.nodeCount ∧ after = state)
        (Prog.read fun state => state.nodeCount : Program K T Nat)
        state :=
    Finishes.read enabled ⟨rfl, rfl⟩
  have locks :
      Finishes (· = .proceed)
        (fun _ after => after = { state with resizing := true })
        (lockResize : Program K T Unit) state := by
    refine Finishes.atomic ⟨.proceed, rfl, by simp [free]⟩ ?_
    intro choice value after _ ran
    simp only [free, Bool.false_eq_true, ↓reduceIte] at ran
    cases ran
    rfl
  have sizes :
      Finishes (· = .proceed)
        (fun found after =>
          found = size ∧ after = { state with resizing := true })
        (loadSize : Program K T Nat) { state with resizing := true } :=
    Finishes.read enabled ⟨current, rfl⟩
  have resizes :
      Finishes (· = .proceed)
        (fun resized after =>
          resized = true ∧ after = { state with resizing := true })
        (resizeBuckets : Program K T Bool)
        { state with resizing := true } := by
    refine Finishes.atomic ⟨.proceed, rfl, rfl⟩ ?_
    rintro choice value after rfl ran
    cases ran
    exact ⟨rfl, rfl⟩
  refine Finishes.bind counts ?_
  rintro count after ⟨rfl, rfl⟩
  simp only [crowded, ↓reduceIte]
  refine Finishes.bind locks ?_
  rintro _ after rfl
  refine Finishes.bind sizes ?_
  rintro found after ⟨rfl, rfl⟩
  simp only [↓reduceIte]
  refine Finishes.bind resizes ?_
  rintro resized after ⟨rfl, rfl⟩
  simp only [↓reduceIte]
  refine Finishes.bind markBuckets_finishes ?_
  intro _ marked _
  refine Finishes.bind (Finishes.wrote enabled) ?_
  rintro _ after rfl
  exact Finishes.write enabled ⟨rfl, rfl⟩

end Doubling

section Recovery

variable {config : Config K T}

/-- What the invariant of a history says about exceptions. -/
theorem Invariant.exceptionSafe
    {state : State K T}
    {ghost : Ghost T}
    (inv : Invariant config (state, ghost)) :
    ExceptionSafe state.events := by
  have lawful : Lawful state.events := inv.lawful
  have harmless : Harmless state.events := inv.harmless
  refine ⟨?_, ?_⟩
  · intro later thread operation earlier shape
    rw [shape] at lawful harmless
    exact calling_began lawful.at_event harmless.at_threw
  · intro later thread key ending earlier shape inCall changed own
    rw [shape] at lawful harmless
    have allowed := lawful.at_event
    cases ending with
    | called other begun =>
        obtain rfl : other = thread := own
        exact absurd (inCall.symm.trans allowed) (by simp)
    | added other found =>
        obtain rfl : other = thread := own
        exact absurd (changed.symm.trans allowed.2.1) (by simp)
    | removed other found =>
        obtain rfl : other = thread := own
        exact absurd (changed.symm.trans allowed.2.1) (by simp)
    | returned other ended result =>
        obtain rfl : other = thread := own
        obtain ⟨inside, isUpdate, _⟩ := allowed
        cases inside.symm.trans inCall
        rw [changed] at isUpdate
        cases result with
        | false =>
            simp [SetOp.update] at isUpdate
        | true =>
            rfl
    | threw other ended =>
        obtain rfl : other = thread := own
        exact absurd (changed.symm.trans harmless.at_threw) (by simp)

/-- What exceptions leave behind. -/
structure Recovers
    (config : Config K T)
    (pool : Pool (State K T) (Choice K) T) : Prop where
  /-- Calls that threw have changed nothing; others return. -/
  safe : ExceptionSafe pool.shared.events
  /-- A bucket is published with one node for each of its keys. -/
  splits :
    ∀ {thread choice next bucket},
      pool.step thread choice = some next →
      pool.shared.published bucket = false →
      next.shared.published bucket = true →
      ∃ nodes, HoldsMembers config next.shared bucket nodes
  /-- The lock is free once all calls have ended. -/
  unlocked : pool.shared.inside = [] → pool.shared.resizing = false
  /-- A failed doubling writes only the lock. -/
  fails :
    ∀ {size} {first second third : State K T} (fourth fifth : State K T),
      size * 2 < first.nodeCount →
      second.resizing = false →
      third.tableSize = size →
      (doubleTable size).replay
          [(first, .proceed), (second, .proceed), (third, .proceed),
            (fourth, .throws), (fifth, .proceed)] =
        some
          ([first, { second with resizing := true }, third, fourth,
            { fifth with resizing := false }], .ret ())
  /-- Whenever the lock is free, the doubling can be made up for. -/
  doubles :
    pool.shared.resizing = false →
    pool.shared.tableSize * 2 < pool.shared.nodeCount →
    Finishes (· = .proceed)
      (fun _ after =>
        after.tableSize = pool.shared.tableSize * 2 ∧
          after.resizing = false)
      (doubleTable pool.shared.tableSize : Program K T Unit) pool.shared

/--
A call that throws changes no key, in any interleaving; later splits publish
every key of their bucket once, and a published insertion returns `true` even
if the doubling after it fails.
-/
theorem exceptions_change_nothing
    (config : Config K T)
    {start : State K T}
    (constructed : construct config = some start)
    {pool : Pool (State K T) (Choice K) T}
    (reached : (poolOf config start).Reaches pool) :
    Recovers config pool := by
  obtain ⟨ghost, inv⟩ := reachable_inv constructed reached
  refine
    { safe := inv.exceptionSafe
      splits := ?_
      unlocked := ?_
      fails := fun fourth fifth crowded free current =>
        doubling_fails crowded free current fourth fifth
      doubles := fun free crowded => doubling_finishes crowded free rfl }
  · intro thread choice next bucket moved hidden published
    obtain ⟨before, after, invBefore, invAfter, guarantee⟩ :=
      reachable_step constructed reached moved
    obtain ⟨-, nodes, keys, split⟩ :=
      guarantee.splitOff invBefore invAfter hidden published
    exact ⟨nodes, split.holdsMembers⟩
  · intro quiescent
    have lock : pool.shared.resizing = ghost.holder.isSome := inv.lock
    rw [lock]
    cases held : ghost.holder with
    | none =>
        rfl
    | some thread =>
        have within : thread ∈ pool.shared.inside := inv.holder held
        simp [quiescent] at within

/-- The insertion that froze the first key runs out of memory. -/
def failing : List (Choice Nat) :=
  freezing ++ [Choice.proceed, .proceed, .throws, .proceed]

/-- The set is as before, and the bucket is still to be split. -/
theorem exceptions_change_nothing_frozen :
    ∃ pool : Pool (State Nat Unit) (Choice Nat) Unit,
      construct small = some smallSet ∧
        (poolOf small smallSet).run (alone failing) = some pool ∧
        pool.shared.events =
          [.threw () (.insert 5), .called () (.insert 5),
            .returned () (.insert 13) true, .added () 13,
            .called () (.insert 13)] ∧
        (pool.shared.link ⟨0, 0⟩).frozen = true ∧
        pool.shared.published 5 = false ∧
        Recovers small pool := by
  obtain ⟨pool, ran, seen⟩ :=
    Pool.run_seen
      (fun state : State Nat Unit =>
        (state.events, (state.link ⟨0, 0⟩).frozen, state.published 5))
      (show ((poolOf small smallSet).run (alone failing)).map _ =
          some
            ([.threw () (.insert 5), .called () (.insert 5),
              .returned () (.insert 13) true, .added () 13,
              .called () (.insert 13)], true, false) by decide +kernel)
  simp only [Prod.mk.injEq] at seen
  exact ⟨pool, rfl, ran, seen.1, seen.2.1, seen.2.2,
    exceptions_change_nothing small rfl ⟨_, ran⟩⟩

end Recovery

end ConcurrentCpp.HashSet
