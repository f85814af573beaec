import ConcurrentCpp.HashSetMembership

namespace ConcurrentCpp.HashSet

/-!
# The order of the buckets

A bucket is sealed before its child is published, and a child is published
with the keys that the set has for it.  Sizes, seals and published buckets
only grow while calls are in progress, and a tag bit stays.
-/

variable {K T : Type} [DecidableEq K] [DecidableEq T]

section Order

omit [DecidableEq K] [DecidableEq T]

/-- What the words of the buckets say about each other. -/
structure BucketOrder
    (config : Config K T)
    (state : State K T) : Prop where
  /-- No head is sealed for a table that has not been reached. -/
  levels :
    ∀ {bucket},
      bucket < state.tableSize →
      (state.buckets bucket).level ≤ levelFor state.tableSize
  /-- Only new buckets wait for their split, and they are not sealed. -/
  hidden :
    ∀ {bucket},
      bucket < state.tableSize →
      (state.buckets bucket).address = .uninitialized →
      (state.buckets bucket).level = 0 ∧ config.capacity ≤ bucket
  /-- The parent was split off before and is sealed for the child. -/
  parents :
    ∀ {bucket},
      config.capacity ≤ bucket →
      state.published bucket = true →
      state.published (parentOf bucket) = true ∧
        levelFor (2 * bitFloor bucket) ≤
          (state.buckets (parentOf bucket)).level
  /-- What is reachable in a bucket agrees with it on its own bits. -/
  homes :
    ∀ {bucket node},
      state.Reachable bucket node →
      ∃ key, state.value node = some key ∧
        OnPath (config.hash key) bucket

/-- What a step does to the buckets while a call is in progress. -/
structure BucketGrowth (before after : State K T) : Prop where
  size : before.tableSize ≤ after.tableSize
  published :
    ∀ {bucket},
      before.published bucket = true → after.published bucket = true
  levels :
    ∀ {bucket},
      before.published bucket = true →
      (before.buckets bucket).level ≤ (after.buckets bucket).level
  marks :
    ∀ {node},
      (before.link node).mark = true → (after.link node).mark = true
  freezes :
    ∀ {node},
      (before.link node).frozen = true → (after.link node).frozen = true
  successors :
    ∀ {node},
      (before.link node).mark = true ∨
        (before.link node).frozen = true →
      (after.link node).next = (before.link node).next

end Order

variable
  {config : Config K T}
  {state : State K T}
  {ghost : Ghost T}
  {thread : T}

/-- The seal that a split asks of the parent. -/
theorem levelFor_bitFloor
    {bucket : Nat}
    (positive : bucket ≠ 0) :
    levelFor (2 * bitFloor bucket) = bucket.log2 + 1 := by
  rw [levelFor, bitFloor, if_neg positive, ← Nat.pow_succ',
    Nat.log2_two_pow]

/-- The invariant shows in the words of the buckets. -/
theorem Invariant.bucketOrder
    (inv : Invariant config (state, ghost)) :
    BucketOrder config state := by
  have power : config.capacity = 2 ^ config.capacity.log2 :=
    bitCeil_power _
  have shown :
      ∀ {bucket},
        state.published bucket = true →
        (tableOf (state, ghost)).level bucket =
          (state.buckets bucket).level := by
    intro bucket published
    exact if_pos published
  refine
    { levels := ?_
      hidden := ?_
      parents := ?_
      homes := ?_ }
  · intro bucket small
    by_cases waiting :
        (state.buckets bucket).address = .uninitialized
    · rw [inv.unsealed small waiting]
      exact Nat.zero_le _
    · have published : state.published bucket = true := by
        simp [State.published, small, waiting]
      rw [← shown published]
      exact inv.table.levels published
  · intro bucket small waiting
    refine ⟨inv.unsealed small waiting, ?_⟩
    by_contra early
    rw [power] at early
    have published : state.published bucket = true :=
      inv.table.foundation (Nat.lt_of_not_le early)
    simp [State.published, waiting] at published
  · intro bucket late published
    have positive : bucket ≠ 0 := by
      rintro rfl
      rw [power] at late
      exact absurd late (Nat.not_le.mpr (Nat.two_pow_pos _))
    have parent := inv.table.ancestors positive published
    refine ⟨parent, ?_⟩
    rw [levelFor_bitFloor positive, ← shown parent]
    exact inv.table.sealedParent (by rwa [← power]) published
  · intro bucket node reachable
    have chained := inv.quiet.reachable_iff.mp reachable
    have linked :
        (tableOf (state, ghost)).forest.place node = .linked bucket :=
      Stage.place_eq_linked.mpr chained
    exact (inv.table.within (.inl linked)).2

/-- A tagged node is on a chain, before and after the steps of calls. -/
theorem Steps.tagged
    {world after : State K T × Ghost T}
    (inv : Invariant config world)
    (steps : Steps config thread world after)
    {node : Slot}
    (tagged :
      (world.1.link node).mark = true ∨
        (world.1.link node).frozen = true) :
    (tableOf world).forest.place node ≠ .off ∧
      (tableOf after).forest.place node ≠ .off := by
  have home : ∃ bucket, world.2.stage node = .chained bucket := by
    by_contra free
    have bare :=
      (inv.nodes node).bare fun bucket chained => free ⟨bucket, chained⟩
    rw [bare.1, bare.2] at tagged
    simp at tagged
  obtain ⟨bucket, chained⟩ := home
  have linked :
      (tableOf world).forest.place node = .linked bucket :=
    Stage.place_eq_linked.mpr chained
  refine ⟨by simp [linked], ?_⟩
  rcases steps.table.forest.linked linked with stays | cut
  · simp [stays]
  · exact absurd cut Stage.place_ne_cut

/-- Buckets grow with every step of a call. -/
theorem Steps.bucketGrowth
    {world after : State K T × Ghost T}
    (inv : Invariant config world)
    (invAfter : Invariant config after)
    (steps : Steps config thread world after) :
    BucketGrowth world.1 after.1 where
  size := by
    rw [inv.size, invAfter.size]
    exact Nat.pow_le_pow_right (by decide) steps.table.bits
  published known := steps.table.published known
  levels {bucket} known := by
    have grows := steps.table.level known
    have later := steps.table.published known
    rwa [show (tableOf world).level bucket =
        (world.1.buckets bucket).level from if_pos known,
      show (tableOf after).level bucket =
        (after.1.buckets bucket).level from if_pos later] at grows
  marks {node} marked := by
    obtain ⟨present, presentAfter⟩ := steps.tagged inv (.inl marked)
    exact steps.table.marked present presentAfter marked
  freezes {node} frozen := by
    obtain ⟨present, presentAfter⟩ := steps.tagged inv (.inr frozen)
    exact steps.table.frozen present presentAfter frozen
  successors {node} tagged := by
    obtain ⟨present, presentAfter⟩ := steps.tagged inv tagged
    exact steps.table.tagged present presentAfter tagged

/--
In every state that clients reach, heads are sealed and published in order and
chains hold keys of their own bucket; a step that is made while a call is in
progress takes no seal, no published bucket and no tag back.
-/
theorem buckets_in_order
    (config : Config K T)
    {start : State K T}
    (constructed : construct config = some start)
    {pool : Pool (State K T) (Choice K) T}
    (reached : (poolOf config start).Reaches pool) :
    BucketOrder config pool.shared ∧
      ∀ {thread choice next},
        pool.step thread choice = some next →
        pool.shared.inside ≠ [] ∨ next.shared.inside ≠ [] →
        BucketGrowth pool.shared next.shared := by
  obtain ⟨ghost, inv⟩ := reachable_inv constructed reached
  refine ⟨inv.bucketOrder, ?_⟩
  intro thread choice next moved busy
  obtain ⟨before, after, invBefore, invAfter, steps | quiescent⟩ :=
    reachable_step constructed reached moved
  · exact steps.bucketGrowth invBefore invAfter
  · rcases busy with busy | busy
    · exact absurd quiescent.1 busy
    · exact absurd quiescent.2.1 busy

/-- The bucket of the frozen key is about to be published. -/
def splitting : List (Choice Nat) :=
  freezing ++ List.replicate 4 Choice.proceed

/-- The step that publishes it. -/
theorem splitting_publishes :
    ∃ pool next : Pool (State Nat Unit) (Choice Nat) Unit,
      (poolOf small smallSet).run (alone splitting) = some pool ∧
        pool.step () .proceed = some next ∧
        pool.shared.inside = [()] ∧
        (pool.shared.link ⟨0, 0⟩).frozen = true ∧
        pool.shared.published 5 = false ∧
        next.shared.published 5 = true := by
  obtain ⟨next, ran, seen⟩ :=
    Pool.run_seen (fun state : State Nat Unit => state.published 5)
      (show ((poolOf small smallSet).run
            (alone splitting ++ [((), .proceed)])).map _ =
          some true by decide +kernel)
  obtain ⟨pool, ranBefore, moved⟩ := Pool.run_concat ran
  obtain ⟨same, ranSame, seenBefore⟩ :=
    Pool.run_seen
      (fun state : State Nat Unit =>
        (state.inside, (state.link ⟨0, 0⟩).frozen, state.published 5))
      (show ((poolOf small smallSet).run (alone splitting)).map _ =
          some ([()], true, false) by decide +kernel)
  obtain rfl : same = pool :=
    Option.some.inj (ranSame.symm.trans ranBefore)
  simp only [Prod.mk.injEq] at seenBefore
  exact ⟨same, next, ranSame, moved, seenBefore.1, seenBefore.2.1,
    seenBefore.2.2, seen⟩

/-- The tag of the frozen key survives the publication of its copy. -/
theorem buckets_in_order_splitting :
    ∃ pool next : Pool (State Nat Unit) (Choice Nat) Unit,
      construct small = some smallSet ∧
        (poolOf small smallSet).run (alone splitting) = some pool ∧
        pool.step () .proceed = some next ∧
        pool.shared.inside = [()] ∧
        (pool.shared.link ⟨0, 0⟩).frozen = true ∧
        BucketOrder small pool.shared ∧
        BucketGrowth pool.shared next.shared := by
  obtain ⟨pool, next, ran, moved, inside, frozen, -, -⟩ :=
    splitting_publishes
  have ordered := buckets_in_order small rfl ⟨_, ran⟩
  exact ⟨pool, next, rfl, ran, moved, inside, frozen, ordered.1,
    ordered.2 moved (.inl (by simp [inside]))⟩

/-- A bucket that was just published has no published child. -/
theorem Steps.fresh_not_moved
    {world after : State K T × Ghost T}
    (inv : Invariant config world)
    (invAfter : Invariant config after)
    (steps : Steps config thread world after)
    {bucket : Nat}
    (hidden : world.1.published bucket = false)
    (published : after.1.published bucket = true)
    (key : K) :
    ¬ (tableOf after).Moved config.hash key bucket := by
  refine invAfter.table.not_moved_of_level fun {child} next => ?_
  constructor
  · by_contra early
    have small : bucket < 2 ^ config.capacity.log2 := by
      rw [← next.parent]
      exact Nat.lt_trans (parentOf_lt next.positive)
        (Nat.lt_of_not_le early)
    have known : world.1.published bucket = true :=
      inv.table.foundation small
    rw [hidden] at known
    cases known
  · have level : (tableOf after).level bucket = 0 := by
      rw [show (tableOf after).level bucket =
        (after.1.buckets bucket).level from if_pos published]
      exact (steps.fresh bucket hidden published).1
    rw [level]
    exact Nat.zero_le _

/-- The chain of a bucket shows the keys of the set that it was split for. -/
structure SplitOff
    (config : Config K T)
    (state : State K T)
    (bucket : Nat)
    (nodes : List Slot)
    (keys : List K) : Prop where
  chain : Path state.chainLinks (.root bucket) nodes
  values : nodes.map state.value = keys.map some
  distinct : keys.Nodup
  live :
    ∀ node ∈ nodes,
      (state.link node).mark = false ∧ (state.link node).frozen = false
  members :
    ∀ key,
      key ∈ keys ↔
        member state.events key = true ∧ OnPath (config.hash key) bucket

/-- A bucket without published children decides about its keys. -/
theorem Invariant.splitOff
    (inv : Invariant config (state, ghost))
    {bucket : Nat}
    (published : state.published bucket = true)
    (last :
      ∀ key, ¬ (tableOf (state, ghost)).Moved config.hash key bucket)
    (live :
      ∀ node,
        ghost.stage node = .chained bucket →
        (state.link node).mark = false ∧
          (state.link node).frozen = false) :
    ∃ nodes keys, SplitOff config state bucket nodes keys := by
  obtain ⟨nodes, chained⟩ := inv.table.forest.chain bucket
  have stages :
      ∀ {node}, node ∈ nodes ↔ ghost.stage node = .chained bucket := by
    intro node
    rw [chained.members node]
    exact Stage.place_eq_linked
  have keyed :
      ∀ node ∈ nodes,
        ∃ key, state.value node = some key ∧
          OnPath (config.hash key) bucket := by
    intro node member
    exact (inv.table.within (.inl ((chained.members node).mp member))).2
  have carried :
      ∀ {node key},
        node ∈ nodes →
        state.value node = some key →
        (tableOf (state, ghost)).Carries node key := by
    intro node key member known
    exact ⟨known, (live node (stages.mp member)).1⟩
  have values :
      nodes.map state.value =
        (nodes.filterMap state.value).map some := by
    rw [List.map_filterMap_some_eq_filter_map_isSome]
    refine (List.filter_eq_self.mpr ?_).symm
    intro value member
    obtain ⟨node, inside, rfl⟩ := List.mem_map.mp member
    obtain ⟨key, known, _⟩ := keyed node inside
    rw [known]
    rfl
  refine ⟨nodes, nodes.filterMap state.value,
    { chain := chained.path
      values := values
      distinct := ?_
      live := fun node member => live node (stages.mp member)
      members := ?_ }⟩
  · refine List.pairwise_filterMap.mpr ?_
    refine chained.noDuplicates.imp_of_mem ?_
    rintro first second inFirst inSecond different key known _ same rfl
    exact different
      (inv.table.single ((chained.members first).mp inFirst)
        ((chained.members second).mp inSecond) (carried inFirst known)
        (carried inSecond same) (last key))
  · intro key
    rw [List.mem_filterMap]
    constructor
    · rintro ⟨node, member, known⟩
      obtain ⟨found, holds, onPath⟩ := keyed node member
      obtain rfl : found = key := Option.some.inj (holds.symm.trans known)
      exact ⟨inv.table.member_of_carries
        ((chained.members node).mp member) (carried member known)
        (last found), onPath⟩
    · rintro ⟨isMember, onPath⟩
      obtain ⟨node, linked, carries⟩ :=
        (inv.table.member_iff onPath published (last key)).mp isMember
      exact ⟨node, (chained.members node).mpr linked, carries.1⟩

/-- The step that publishes a bucket has split it off its parent. -/
theorem Guarantee.splitOff
    {world after : State K T × Ghost T}
    (inv : Invariant config world)
    (invAfter : Invariant config after)
    (guarantee : Guarantee config thread world after)
    {bucket : Nat}
    (hidden : world.1.published bucket = false)
    (published : after.1.published bucket = true) :
    (after.1.buckets bucket).level = 0 ∧
      ∃ nodes keys, SplitOff config after.1 bucket nodes keys := by
  rcases guarantee with steps | quiescent
  · have fresh := steps.fresh bucket hidden published
    exact ⟨fresh.1, invAfter.splitOff published
      (steps.fresh_not_moved inv invAfter hidden published) fresh.2⟩
  · rw [quiescent.2.2.2 bucket, hidden] at published
    cases published

/--
Whoever publishes a bucket publishes exactly one live node for each key of the
set that belongs to it, and nothing else.
-/
theorem splits_carry_members
    (config : Config K T)
    {start : State K T}
    (constructed : construct config = some start)
    {pool next : Pool (State K T) (Choice K) T}
    (reached : (poolOf config start).Reaches pool)
    {thread : T}
    {choice : Choice K}
    (moved : pool.step thread choice = some next)
    {bucket : Nat}
    (hidden : pool.shared.published bucket = false)
    (published : next.shared.published bucket = true) :
    (next.shared.buckets bucket).level = 0 ∧
      ∃ nodes keys, SplitOff config next.shared bucket nodes keys := by
  obtain ⟨ghost, after, inv, invAfter, guarantee⟩ :=
    reachable_step constructed reached moved
  exact guarantee.splitOff inv invAfter hidden published

/-- The bucket of the frozen key is published with its copy. -/
theorem splits_carry_members_splitting :
    ∃ pool next : Pool (State Nat Unit) (Choice Nat) Unit,
      construct small = some smallSet ∧
        (poolOf small smallSet).run (alone splitting) = some pool ∧
        pool.step () .proceed = some next ∧
        pool.shared.published 5 = false ∧
        next.shared.published 5 = true ∧
        (next.shared.buckets 5).level = 0 ∧
        ∃ nodes keys, SplitOff small next.shared 5 nodes keys := by
  obtain ⟨pool, next, ran, moved, -, -, hidden, published⟩ :=
    splitting_publishes
  exact ⟨pool, next, rfl, ran, moved, hidden, published,
    splits_carry_members small rfl ⟨_, ran⟩ moved hidden published⟩

end ConcurrentCpp.HashSet
