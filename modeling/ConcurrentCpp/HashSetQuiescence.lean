import ConcurrentCpp.HashSetMembership
import Mathlib.Data.Set.Card

namespace ConcurrentCpp.HashSet

/-!
# The hash set between its calls

What `reclaim()` does to a set on which no call is in progress, and how far
the node counter is from the occupancy of the arena then.
-/

variable {K T : Type} [DecidableEq K] [DecidableEq T]

section Words

omit [DecidableEq K] [DecidableEq T]

/-- `is_dead()` of a node on the chain of a bucket. -/
def State.Dead
    (config : Config K T)
    (state : State K T)
    (bucket : Nat)
    (node : Slot) : Prop :=
  (state.link node).mark = true ∨
    ∃ key,
      state.value node = some key ∧
        state.hasMoved config key bucket state.tableSize = true

/-- The key is a member: one of its reachable nodes is not dead. -/
def State.Member
    (config : Config K T)
    (state : State K T)
    (key : K) : Prop :=
  ∃ bucket node,
    state.Reachable bucket node ∧ state.value node = some key ∧
      ¬ state.Dead config bucket node

/-- The node is on a free or limbo list. -/
def State.OnList
    (state : State K T)
    (label : Label)
    (node : Slot) : Prop :=
  ∃ nodes, Path state.listLinks (.root label) nodes ∧ node ∈ nodes

/-- What `reclaim()` promises when it returns. -/
structure ReclaimResult
    (config : Config K T)
    (state after : State K T)
    (live : Nat) : Prop where
  /-- The membership of every key is unchanged. -/
  member : ∀ key, after.Member config key ↔ state.Member config key
  /-- The result is the number of member keys. -/
  count : {key | state.Member config key}.ncard = live
  /-- Every member key has exactly one reachable node. -/
  single :
    ∀ key,
      state.Member config key →
      ∃! place : Nat × Slot,
        after.Reachable place.1 place.2 ∧
          after.value place.2 = some key
  /-- Every reachable node was kept on its chain and is alive. -/
  kept :
    ∀ {bucket node},
      after.Reachable bucket node →
      state.Reachable bucket node ∧
        ¬ after.Dead config bucket node ∧
        after.value node = state.value node ∧
        (after.link node).mark = (state.link node).mark ∧
        (after.link node).frozen = (state.link node).frozen
  /-- The limbo lists are empty. -/
  limbo : ∀ shard, after.limboHead shard = none
  size : after.tableSize = state.tableSize
  level :
    ∀ bucket,
      (after.buckets bucket).level = (state.buckets bucket).level
  uninitialized :
    ∀ bucket,
      (after.buckets bucket).address = .uninitialized ↔
        (state.buckets bucket).address = .uninitialized
  /-- The free nodes are those that were free, in limbo or unlinked. -/
  free :
    ∀ node,
      (∃ shard, after.OnList (.free shard) node) ↔
        (∃ label, state.OnList label node) ∨
          (∃ bucket, state.Reachable bucket node) ∧
            ¬ ∃ bucket, after.Reachable bucket node
  /-- Every free node is on one free list, and once. -/
  freeOnce :
    (∀ {first second node},
        after.OnList (.free first) node →
        after.OnList (.free second) node →
        first = second) ∧
      ∀ shard, ∃ nodes,
        Path after.listLinks (.root (.free shard)) nodes ∧ nodes.Nodup

end Words

section Facts

omit [DecidableEq T]

variable
  {config : Config K T}
  {state : State K T}
  {ghost : Ghost T}
  {bucket : Nat}
  {node : Slot}
  {key : K}

/-- What is on a list has its label. -/
theorem Quiet.onList_iff
    (quiet : Quiet config (state, ghost))
    {label : Label} :
    state.OnList label node ↔ ghost.stage node = .listed label := by
  obtain ⟨nodes, holds⟩ := quiet.stacked label
  have members :
      node ∈ nodes ↔ ghost.stage node = .listed label := by
    simpa [stacksOf] using holds.members node
  rw [← members]
  constructor
  · rintro ⟨others, path, member⟩
    rwa [← path.unique holds.path]
  · intro member
    exact ⟨nodes, holds.path, member⟩

/-- A node on a chain holds a key. -/
theorem Quiet.valued
    (quiet : Quiet config (state, ghost))
    (home : ghost.stage node = .chained bucket) :
    ∃ key, state.value node = some key := by
  have linked :
      (tableOf (state, ghost)).forest.place node = .linked bucket := by
    simp [tableOf, home]
  obtain ⟨-, key, value, -⟩ := quiet.table.within (.inl linked)
  exact ⟨key, value⟩

/-- A node on a chain is dead exactly if it is stale. -/
theorem Quiet.dead_iff
    (quiet : Quiet config (state, ghost))
    (home : ghost.stage node = .chained bucket) :
    state.Dead config bucket node ↔
      (tableOf (state, ghost)).Stale config.hash bucket node := by
  have linked :
      (tableOf (state, ghost)).forest.place node = .linked bucket := by
    simp [tableOf, home]
  obtain ⟨_, found, holds, onPath⟩ := quiet.table.within (.inl linked)
  refine or_congr Iff.rfl (exists_congr fun key => and_congr_right ?_)
  intro value
  cases holds.symm.trans value
  exact hasMoved_iff onPath

/-- What a reachable node that is not dead says about the table. -/
theorem Quiet.alive_carries
    (quiet : Quiet config (state, ghost))
    (home : ghost.stage node = .chained bucket)
    (value : state.value node = some key)
    (alive : ¬ state.Dead config bucket node) :
    (tableOf (state, ghost)).Carries node key ∧
      ¬ (tableOf (state, ghost)).Moved config.hash key bucket := by
  rw [quiet.dead_iff home] at alive
  refine ⟨⟨value, ?_⟩, fun moved => alive (.inr ⟨key, value, moved⟩)⟩
  simpa using fun marked => alive (.inl marked)

/-- A key is a member by the words exactly if it is one by the history. -/
theorem Quiet.member_iff
    (quiet : Quiet config (state, ghost)) :
    state.Member config key ↔ member state.events key = true := by
  refine Iff.trans ?_ (quiet.table.authority key).symm
  constructor
  · rintro ⟨bucket, node, reachable, value, alive⟩
    have home := quiet.reachable_iff.mp reachable
    obtain ⟨carries, stays⟩ := quiet.alive_carries home value alive
    exact ⟨node, bucket, by simp [tableOf, home], carries, stays⟩
  · rintro ⟨node, bucket, linked, carries, stays⟩
    have home : ghost.stage node = .chained bucket := by
      simpa [tableOf] using linked
    refine ⟨bucket, node, quiet.reachable_iff.mpr home, carries.1, ?_⟩
    rw [quiet.dead_iff home]
    rintro (marked | ⟨other, value, moved⟩)
    · exact absurd (carries.2.symm.trans marked) (by simp)
    · cases carries.1.symm.trans value
      exact stays moved

/-- Two nodes of a key that are both alive are one. -/
theorem Quiet.alive_unique
    (quiet : Quiet config (state, ghost))
    {other : Nat}
    {copy : Slot}
    (home : ghost.stage node = .chained bucket)
    (homeCopy : ghost.stage copy = .chained other)
    (value : state.value node = some key)
    (valueCopy : state.value copy = some key)
    (alive : ¬ state.Dead config bucket node)
    (aliveCopy : ¬ state.Dead config other copy) :
    bucket = other ∧ node = copy := by
  obtain ⟨carries, stays⟩ := quiet.alive_carries home value alive
  obtain ⟨carriesCopy, staysCopy⟩ :=
    quiet.alive_carries homeCopy valueCopy aliveCopy
  exact quiet.table.carrier_unique (by simp [tableOf, home])
    (by simp [tableOf, homeCopy]) carries carriesCopy stays staysCopy

end Facts

section Reclaimed

variable
  {config : Config K T}
  {hashes : Option Nat}
  {state after : State K T}
  {ghost ghostAfter : Ghost T}
  {live : Nat}
  {kept : List Slot}
  (quiet : Quiet config (state, ghost))
  (unowned : ∀ node thread, ghost.stage node ≠ .owned thread)
  (reclaimed :
    Reclaimed config hashes (state, ghost) (some live)
      (after, ghostAfter) kept)

omit [DecidableEq T]

include reclaimed

/-- The set after `reclaim()` is quiet. -/
theorem Reclaimed.recounted :
    Quiet config (after.recount config (some live), ghostAfter) :=
  { reclaimed.quiet with
    nodes := fun node => { reclaimed.quiet.nodes node with } }

/-- Every node that is left on a chain is alive. -/
theorem Reclaimed.all_alive
    {bucket : Nat}
    {node : Slot}
    (home : ghostAfter.stage node = .chained bucket) :
    ¬ (after.recount config (some live)).Dead config bucket node := by
  have alive := reclaimed.alive (by simp) home
  rw [reclaimed.recounted.dead_iff home]
  exact alive

/-- The nodes that are left on chains name the members. -/
theorem Reclaimed.member_iff
    {key : K} :
    (after.recount config (some live)).Member config key ↔
      ∃ node ∈ kept, after.value node = some key := by
  constructor
  · rintro ⟨bucket, node, reachable, value, -⟩
    have home := reclaimed.recounted.reachable_iff.mp reachable
    exact ⟨node, (reclaimed.members (by simp) node).mpr ⟨bucket, home⟩,
      value⟩
  · rintro ⟨node, member, value⟩
    obtain ⟨bucket, home⟩ := (reclaimed.members (by simp) node).mp member
    exact ⟨bucket, node, reclaimed.recounted.reachable_iff.mpr home, value,
      reclaimed.all_alive home⟩

/-- No two kept nodes have one key. -/
theorem Reclaimed.value_inj
    {first second : Slot}
    (isFirst : first ∈ kept)
    (isSecond : second ∈ kept)
    (same : after.value first = after.value second) :
    first = second := by
  obtain ⟨bucket, home⟩ := (reclaimed.members (by simp) first).mp isFirst
  obtain ⟨other, homeOther⟩ :=
    (reclaimed.members (by simp) second).mp isSecond
  obtain ⟨key, value⟩ := reclaimed.quiet.valued home
  exact (reclaimed.recounted.alive_unique home homeOther value
    (same.symm.trans value) (reclaimed.all_alive home)
    (reclaimed.all_alive homeOther)).2

/-- `reclaim()` counts the members. -/
theorem Reclaimed.member_ncard :
    {key | (after.recount config (some live)).Member config key}.ncard =
      live := by
  classical
  have image :
      some '' {key |
          (after.recount config (some live)).Member config key} =
        after.value '' (kept.toFinset : Set Slot) := by
    ext found
    simp only [Set.mem_image, Set.mem_ofPred_eq, List.coe_toFinset,
      reclaimed.member_iff]
    constructor
    · rintro ⟨key, ⟨node, member, value⟩, rfl⟩
      exact ⟨node, member, value⟩
    · rintro ⟨node, member, rfl⟩
      obtain ⟨bucket, home⟩ :=
        (reclaimed.members (by simp) node).mp member
      obtain ⟨key, value⟩ := reclaimed.quiet.valued home
      exact ⟨key, ⟨node, member, value⟩, value.symm⟩
  have injective : Set.InjOn after.value (kept.toFinset : Set Slot) := by
    intro first isFirst second isSecond same
    exact reclaimed.value_inj (by simpa using isFirst)
      (by simpa using isSecond) same
  have sizes := congrArg Set.ncard image
  rw [Set.ncard_image_of_injective _ (Option.some_injective K),
    injective.ncard_image, Set.ncard_coe_finset,
    List.toFinset_card_of_nodup reclaimed.distinct] at sizes
  rw [sizes, reclaimed.live rfl]

include quiet unowned

/-- The free nodes are those that were free, in limbo or unlinked. -/
theorem Reclaimed.free_iff
    (node : Slot) :
    (∃ shard,
        (after.recount config (some live)).OnList (.free shard) node) ↔
      (∃ label, state.OnList label node) ∨
        (∃ bucket, state.Reachable bucket node) ∧
          ¬ ∃ bucket,
            (after.recount config (some live)).Reachable bucket node := by
  simp only [reclaimed.recounted.onList_iff, quiet.onList_iff,
    reclaimed.recounted.reachable_iff, quiet.reachable_iff]
  constructor
  · rintro ⟨shard, free⟩
    rcases reclaimed.sweeps.stage node with same | ⟨goes, -⟩
    · exact .inl ⟨.free shard, same.symm.trans free⟩
    · rcases goes with ⟨list, limbo⟩ | ⟨bucket, chained⟩
      · exact .inl ⟨.limbo list, limbo⟩
      · refine .inr ⟨⟨bucket, chained⟩, ?_⟩
        rintro ⟨other, chainedAfter⟩
        exact absurd (free.symm.trans chainedAfter) (by simp)
  · have placed :
        ghost.stage node ≠ .absent →
        (¬ ∃ bucket, ghostAfter.stage node = .chained bucket) →
        ∃ shard, ghostAfter.stage node = .listed (.free shard) := by
      intro before unlinked
      have present : ghostAfter.stage node ≠ .absent := by
        rcases reclaimed.sweeps.stage node with same | ⟨-, shard, free⟩
        · exact fun gone => before (same.symm.trans gone)
        · exact fun gone => absurd (free.symm.trans gone) (by simp)
      exact (reclaimed.free_or_chained unowned present).resolve_right
        unlinked
    rintro (⟨label, listed⟩ | ⟨⟨bucket, chained⟩, unlinked⟩)
    · refine placed (by simp [listed]) ?_
      rintro ⟨bucket, chainedAfter⟩
      have chained := reclaimed.sweeps.chained chainedAfter
      exact absurd (listed.symm.trans chained) (by simp)
    · exact placed (by simp [chained]) unlinked

/-- What `reclaim()` does on a quiet set. -/
theorem Reclaimed.result :
    ReclaimResult config state (after.recount config (some live)) live := by
  have events : after.events = state.events := reclaimed.sweeps.events
  have recounted := reclaimed.recounted
  have members :
      ∀ key,
        (after.recount config (some live)).Member config key ↔
          state.Member config key := by
    intro key
    rw [recounted.member_iff, quiet.member_iff]
    exact Iff.of_eq (congrArg (fun known => member known key = true) events)
  refine
    { member := members
      count := ?_
      single := ?_
      kept := ?_
      limbo := reclaimed.empty
      size := reclaimed.sweeps.tableSize
      level := reclaimed.sweeps.level
      uninitialized := reclaimed.sweeps.uninitialized
      free := reclaimed.free_iff quiet unowned
      freeOnce := ⟨?_, ?_⟩ }
  · rw [← reclaimed.member_ncard]
    congr 1
    ext key
    exact (members key).symm
  · intro key isMember
    obtain ⟨bucket, node, reachable, value, alive⟩ :=
      (members key).mpr isMember
    refine ⟨(bucket, node), ⟨reachable, value⟩, ?_⟩
    rintro ⟨other, copy⟩ ⟨reachableCopy, valueCopy⟩
    have home := recounted.reachable_iff.mp reachable
    have homeCopy := recounted.reachable_iff.mp reachableCopy
    have same :=
      recounted.alive_unique homeCopy home valueCopy value
        (reclaimed.all_alive homeCopy) alive
    exact Prod.ext same.1 same.2
  · intro bucket node reachable
    have home := recounted.reachable_iff.mp reachable
    have values : after.value = state.value := reclaimed.sweeps.value
    exact ⟨quiet.reachable_iff.mpr (reclaimed.sweeps.chained home),
      reclaimed.all_alive home, congrFun values node,
      reclaimed.sweeps.tags home⟩
  · intro first second node onFirst onSecond
    have same :=
      (recounted.onList_iff.mp onFirst).symm.trans
        (recounted.onList_iff.mp onSecond)
    simpa using same
  · intro shard
    obtain ⟨nodes, holds⟩ := recounted.stacked (.free shard)
    exact ⟨nodes, holds.path, holds.noDuplicates⟩

end Reclaimed

/-- When no call is in progress no slot is in the hands of a thread. -/
theorem Invariant.unowned
    {config : Config K T}
    {state : State K T}
    {ghost : Ghost T}
    (inv : Invariant config (state, ghost))
    (quiescent : state.inside = [])
    (node : Slot)
    (thread : T) :
    ghost.stage node ≠ .owned thread := by
  intro owned
  have busy : thread ∈ state.inside := inv.owner owned
  rw [quiescent] at busy
  cases busy

/--
`reclaim()` on any quiescent state that any number of clients reach: unless
`Hash` throws it returns, and whenever it returns it has only taken dead and
limbo nodes to the free lists and has counted the members.
-/
theorem reclaim_keeps_members
    (config : Config K T)
    {start : State K T}
    (constructed : construct config = some start)
    {pool : Pool (State K T) (Choice K) T}
    (reached : (poolOf config start).Reaches pool)
    (quiescent : pool.shared.inside = []) :
    (∀ key,
        pool.shared.Member config key ↔
          member pool.shared.events key = true) ∧
      (∃ live after,
        reclaim config none pool.shared = some (some live, after)) ∧
      ∀ {hashes live after},
        reclaim config hashes pool.shared = some (some live, after) →
        ReclaimResult config pool.shared after live := by
  obtain ⟨ghost, inv⟩ := reachable_inv constructed reached
  have quiet := inv.quiet
  refine ⟨fun key => quiet.member_iff, ?_, ?_⟩
  · obtain ⟨result, after, ghostAfter, kept, ran, reclaimed⟩ :=
      reclaim_spec none quiet
    obtain ⟨live, rfl⟩ :=
      Option.ne_none_iff_exists'.mp (reclaimed.returns rfl)
    exact ⟨live, _, ran⟩
  · intro hashes live final returned
    obtain ⟨result, after, ghostAfter, kept, ran, reclaimed⟩ :=
      reclaim_spec hashes quiet
    rw [ran] at returned
    simp only [Option.some.injEq, Prod.mk.injEq] at returned
    obtain ⟨rfl, rfl⟩ := returned
    exact reclaimed.result quiet (inv.unowned quiescent)

/-- Insert a key and erase it, from the bucket that it was split into. -/
def insertErase : List (Choice Nat) :=
  insertThirteen ++ [Choice.call (.erase 13)] ++
    List.replicate 23 Choice.proceed

/-- A frozen original and the marked copy of its key are both dead. -/
theorem reclaim_keeps_members_erased :
    ∃ (pool : Pool (State Nat Unit) (Choice Nat) Unit)
      (after : State Nat Unit),
      construct small = some smallSet ∧
        (poolOf small smallSet).run (alone insertErase) = some pool ∧
        pool.shared.inside = [] ∧
        (pool.shared.link ⟨0, 0⟩).frozen = true ∧
        (pool.shared.link ⟨0, 1⟩).mark = true ∧
        reclaim small none pool.shared = some (some 0, after) ∧
        ReclaimResult small pool.shared after 0 := by
  obtain ⟨pool, ran, seen⟩ :=
    Pool.run_seen
      (fun state : State Nat Unit =>
        (state.inside, (state.link ⟨0, 0⟩).frozen,
          (state.link ⟨0, 1⟩).mark,
          (reclaim small none state).map Prod.fst))
      (show ((poolOf small smallSet).run (alone insertErase)).map _ =
          some ([], true, true, some (some 0)) by decide +kernel)
  simp only [Prod.mk.injEq, Option.map_eq_some_iff] at seen
  obtain ⟨quiescent, frozen, marked, ⟨live, after⟩, returned, rfl⟩ := seen
  exact ⟨pool, after, rfl, ran, quiescent, frozen, marked, returned,
    (reclaim_keeps_members small rfl ⟨_, ran⟩ quiescent).2.2 returned⟩

section Occupancy

omit [DecidableEq K] [DecidableEq T] in
/-- The arena slots that are not on a free list. -/
noncomputable def State.occupied
    (config : Config K T)
    (state : State K T) :
    Nat :=
  state.slots config - {node | ∃ shard, state.OnList (.free shard) node}.ncard

/-- The shards that have ever appended. -/
def State.appendedShards
    (config : Config K T)
    (state : State K T) :
    List Nat :=
  (List.range config.shards).filter fun shard => 0 < state.arena shard

/-- The shards that have popped since the last complete `reclaim()`. -/
def State.poppedShards
    (config : Config K T)
    (state : State K T) :
    List Nat :=
  (List.range config.shards).filter fun shard =>
    shard ∈ poppedSince state.log

variable
  {config : Config K T}
  {state : State K T}
  {ghost : Ghost T}

/-- The free lists hold the free slots. -/
theorem Invariant.free_ncard
    (inv : Invariant config (state, ghost)) :
    {node | ∃ shard, state.OnList (.free shard) node}.ncard =
      freeSlots config (state, ghost) := by
  unfold freeSlots
  rw [← Set.ncard_coe_finset]
  congr 1
  ext node
  simp only [Set.mem_ofPred_eq, inv.quiet.onList_iff, Finset.coe_filter,
    List.mem_toFinset]
  constructor
  · rintro ⟨shard, free⟩
    exact ⟨inv.quiet.mem_slots (by simp [free]),
      by simp [free, Stage.isFree]⟩
  · rintro ⟨-, free⟩
    cases stage : ghost.stage node with
    | listed label =>
        cases label with
        | free shard =>
            exact ⟨shard, rfl⟩
        | limbo shard =>
            simp [stage, Stage.isFree] at free
    | _ =>
        simp [stage, Stage.isFree] at free

omit [DecidableEq K] [DecidableEq T] in
/-- A shard is charged for its slots at least. -/
theorem State.slots_le_charged :
    state.slots config ≤ state.charged config := by
  unfold State.slots State.charged
  refine List.sum_le_sum fun shard _ => ?_
  unfold State.charge
  omega

omit [DecidableEq K] [DecidableEq T] in
/-- What is charged beyond the slots: less than a batch for each path. -/
theorem State.charged_le
    (popped :
      ∀ {shard},
        (state.freeHead shard).pops ≠ 0 →
        shard ∈ poppedSince state.log) :
    state.charged config ≤
      state.slots config +
        255 *
          ((state.appendedShards config).length +
            (state.poppedShards config).length) := by
  unfold State.charged State.slots State.appendedShards
    State.poppedShards
  induction List.range config.shards with
  | nil =>
      simp
  | cons shard shards inductionHypothesis =>
      have first :
          state.charge shard ≤
            state.arena shard +
              255 * ((if 0 < state.arena shard then 1 else 0) +
                if shard ∈ poppedSince state.log then 1 else 0) := by
        unfold State.charge
        split_ifs with appends pops
        · omega
        · have none : (state.freeHead shard).pops = 0 :=
            not_not.mp (mt popped pops)
          omega
        · omega
        · have none : (state.freeHead shard).pops = 0 :=
            not_not.mp (mt popped (by assumption))
          omega
      simp only [List.map_cons, List.sum_cons, List.filter_cons,
        decide_eq_true_eq, apply_ite List.length, List.length_cons]
      split_ifs at first ⊢ <;> omega

/--
At every quiescent point the node counter is at least the occupancy, and
unless a `reclaim()` has thrown it exceeds it by at most 255 for every shard
that has appended and for every shard that has popped since the last one.
-/
theorem node_count_bounds
    (config : Config K T)
    {start : State K T}
    (constructed : construct config = some start)
    {pool : Pool (State K T) (Choice K) T}
    (reached : (poolOf config start).Reaches pool)
    (quiescent : pool.shared.inside = []) :
    pool.shared.occupied config ≤ pool.shared.nodeCount ∧
      (settled pool.shared.log = true →
        pool.shared.nodeCount ≤
          pool.shared.occupied config +
            255 *
              ((pool.shared.appendedShards config).length +
                (pool.shared.poppedShards config).length)) := by
  obtain ⟨ghost, inv⟩ := reachable_inv constructed reached
  have solvent : ghost.debtors = [] := by
    refine List.eq_nil_iff_forall_not_mem.mpr fun thread member => ?_
    have busy : thread ∈ pool.shared.inside := inv.counted.debtors member
    rw [quiescent] at busy
    cases busy
  have covers :
      pool.shared.charged config ≤
        pool.shared.nodeCount + freeSlots config (pool.shared, ghost) := by
    simpa [solvent] using inv.counted.covers
  have least : pool.shared.slots config ≤ pool.shared.charged config :=
    State.slots_le_charged
  have most :
      pool.shared.charged config ≤ pool.shared.slots config + _ :=
    State.charged_le fun popped => (inv.counted.popped popped).2
  unfold State.occupied
  rw [inv.free_ncard]
  constructor
  · omega
  · intro settles
    have total :
        pool.shared.charged config =
          pool.shared.nodeCount +
            freeSlots config (pool.shared, ghost) := by
      simpa [solvent] using inv.counted.exact settles
    omega

/-- The first node of a shard counts as 256. -/
theorem node_count_bounds_inserted :
    ∃ pool : Pool (State Nat Unit) (Choice Nat) Unit,
      construct small = some smallSet ∧
        (poolOf small smallSet).run (alone insertThirteen) = some pool ∧
        pool.shared.inside = [] ∧
        settled pool.shared.log = true ∧
        pool.shared.nodeCount = 256 ∧
        pool.shared.occupied small ≤ pool.shared.nodeCount ∧
        pool.shared.nodeCount ≤
          pool.shared.occupied small +
            255 *
              ((pool.shared.appendedShards small).length +
                (pool.shared.poppedShards small).length) := by
  obtain ⟨pool, ran, seen⟩ :=
    Pool.run_seen
      (fun state : State Nat Unit =>
        (state.inside, settled state.log, state.nodeCount))
      (show ((poolOf small smallSet).run (alone insertThirteen)).map _ =
          some ([], true, 256) by decide +kernel)
  simp only [Prod.mk.injEq] at seen
  have bounds := node_count_bounds small rfl ⟨_, ran⟩ seen.1
  exact ⟨pool, rfl, ran, seen.1, seen.2.1, seen.2.2, bounds.1,
    bounds.2 seen.2.1⟩

end Occupancy

end ConcurrentCpp.HashSet
