import ConcurrentCpp.HashSetProtocol

namespace ConcurrentCpp.HashSet

/-!
# The node counter of the hash set

The counter grows by a whole batch when the first node of the batch is taken,
so what was counted is the number of slots in use, plus what is left of the
current batches.
-/

variable {K T : Type}

variable
  {config : Config K T}
  {state after : State K T}
  {ghost ghostAfter : Ghost T}

theorem bitCeil_pos (number : Nat) : 0 < bitCeil number := by
  unfold bitCeil
  split
  · decide
  · exact Nat.two_pow_pos _

theorem bitCeil_power (number : Nat) :
    bitCeil number = 2 ^ (bitCeil number).log2 := by
  unfold bitCeil
  split
  · rfl
  · rw [Nat.log2_two_pow]

/-- `std::bit_ceil` is not below its argument. -/
theorem le_bitCeil (number : Nat) : number ≤ bitCeil number := by
  unfold bitCeil
  split
  · assumption
  · have below := @Nat.lt_log2_self (number - 1)
    omega

/-- `std::bit_ceil` is the least such power of two. -/
theorem bitCeil_le
    {number bits : Nat}
    (fits : number ≤ 2 ^ bits) :
    bitCeil number ≤ 2 ^ bits := by
  unfold bitCeil
  split
  · exact Nat.one_le_two_pow
  · have log : (number - 1).log2 < bits :=
      (Nat.log2_lt (by omega)).mpr (by omega)
    exact Nat.pow_le_pow_right (by decide) log

/-- The low bits of a number select one of the shards. -/
theorem and_shards_lt
    (number : Nat) :
    number &&& (config.shards - 1) < config.shards := by
  have positive : 0 < config.shards := bitCeil_pos _
  have bound : number &&& (config.shards - 1) ≤ config.shards - 1 :=
    Nat.and_le_right
  omega

/-- Every thread has one of the shards. -/
theorem myShard_lt (thread : T) : config.myShard thread < config.shards :=
  and_shards_lt _

theorem mem_arenaSlots
    {slot : Slot} :
    slot ∈ state.arenaSlots config ↔
      slot.shard < config.shards ∧ state.Appended slot := by
  obtain ⟨shard, index⟩ := slot
  simp [State.arenaSlots, State.Appended]

theorem arenaSlots_length :
    (state.arenaSlots config).length = state.slots config := by
  simp [State.arenaSlots, State.slots, List.length_flatMap]

theorem arenaSlots_nodup : (state.arenaSlots config).Nodup := by
  refine List.nodup_flatMap.mpr ⟨fun shard _ => ?_, ?_⟩
  · refine List.nodup_range.map fun first second same => ?_
    exact (Slot.mk.inj same).2
  · refine List.nodup_range.imp fun {first second} different => ?_
    intro slot left right
    simp only [List.mem_map] at left right
    obtain ⟨_, _, rfl⟩ := left
    obtain ⟨_, _, same⟩ := right
    exact different (Slot.mk.inj same).1.symm

/-- There are no more different slots than the arena has. -/
theorem length_le_slots
    {nodes : List Slot}
    (distinct : nodes.Nodup)
    (slots : ∀ node ∈ nodes, node ∈ state.arenaSlots config) :
    nodes.length ≤ state.slots config := by
  rw [← arenaSlots_length]
  exact (distinct.subperm slots).length_le

/-- A sum changes as its only term that changes. -/
theorem sum_change
    {count position : Nat}
    (valid : position < count)
    {terms changed : Nat → Nat}
    (others : ∀ other, other ≠ position → changed other = terms other) :
    ((List.range count).map changed).sum + terms position =
      ((List.range count).map terms).sum + changed position := by
  induction count with
  | zero =>
      exact absurd valid (Nat.not_lt_zero _)
  | succ count inductionHypothesis =>
      simp only [List.range_succ, List.map_append, List.map_cons,
        List.map_nil, List.sum_append, List.sum_cons, List.sum_nil]
      by_cases last : position = count
      · subst last
        have same :
            (List.range position).map changed =
              (List.range position).map terms := by
          refine List.map_congr_left fun other member => others other ?_
          have := List.mem_range.mp member
          omega
        rw [same]
        omega
      · have before := inductionHypothesis (by omega)
        have same := others count (Ne.symm last)
        omega

/-- The charge changes as the charge of the only shard that changes. -/
theorem charged_change
    {shard : Nat}
    (valid : shard < config.shards)
    (others :
      ∀ other, other ≠ shard → after.charge other = state.charge other) :
    after.charged config + state.charge shard =
      state.charged config + after.charge shard :=
  sum_change valid others

/-- The first append of a batch charges the whole batch. -/
theorem charge_append
    {shard : Nat}
    (arena : after.arena shard = state.arena shard + 1)
    (pops : after.freeHead shard = state.freeHead shard) :
    after.charge shard =
      state.charge shard +
        if state.arena shard % 256 = 0 then 256 else 0 := by
  unfold State.charge
  rw [arena, pops]
  split <;> omega

/-- The first pop of a batch charges the rest of the batch. -/
theorem charge_pop
    {shard : Nat}
    (arena : after.arena shard = state.arena shard)
    (pops :
      (after.freeHead shard).pops =
        ((state.freeHead shard).pops + 1) % 512) :
    after.charge shard + 1 =
      state.charge shard +
        if (state.freeHead shard).pops % 256 = 0 then 256 else 0 := by
  unfold State.charge
  rw [arena, pops]
  split <;> omega

/-- The slot is one of the arena and on a free list. -/
def Spare
    (config : Config K T)
    (world : State K T × Ghost T)
    (slot : Slot) : Prop :=
  slot ∈ world.1.arenaSlots config ∧
    (world.2.stage slot).isFree = true

theorem freeSlots_congr
    (same :
      ∀ slot,
        Spare config (after, ghostAfter) slot ↔
          Spare config (state, ghost) slot) :
    freeSlots config (after, ghostAfter) =
      freeSlots config (state, ghost) := by
  unfold freeSlots
  congr 1
  ext slot
  simpa [Spare] using same slot

/-- One slot less is free. -/
theorem freeSlots_take
    {node : Slot}
    (spare : Spare config (state, ghost) node)
    (same :
      ∀ slot,
        Spare config (after, ghostAfter) slot ↔
          slot ≠ node ∧ Spare config (state, ghost) slot) :
    freeSlots config (after, ghostAfter) + 1 =
      freeSlots config (state, ghost) := by
  have erased :
      ((after.arenaSlots config).toFinset.filter fun slot =>
          (ghostAfter.stage slot).isFree = true) =
        ((state.arenaSlots config).toFinset.filter fun slot =>
          (ghost.stage slot).isFree = true).erase node := by
    ext slot
    simpa [Spare] using same slot
  have member :
      node ∈ (state.arenaSlots config).toFinset.filter fun slot =>
        (ghost.stage slot).isFree = true := by
    simpa [Spare] using spare
  unfold freeSlots
  rw [erased]
  exact Finset.card_erase_add_one member

variable [DecidableEq T] {thread : T}

/-- Who owes a batch after a node was taken. -/
def Ghost.charging
    (ghost : Ghost T)
    (thread : T)
    (opens : Bool) :
    List T :=
  if opens then thread :: ghost.debtors else ghost.debtors

omit [DecidableEq T] in
theorem mem_charging
    {opens : Bool}
    {other : T}
    (different : other ≠ thread) :
    other ∈ ghost.charging thread opens ↔ other ∈ ghost.debtors := by
  cases opens <;> simp [Ghost.charging, different]

omit [DecidableEq T] in
/-- A node that was taken is paid for, if necessary by a debt. -/
theorem Counted.charge
    (counted : Counted config (state, ghost))
    (within : thread ∈ state.inside)
    (solvent : thread ∉ ghost.debtors)
    {opens : Bool}
    (inside : after.inside = state.inside)
    (nodeCount : after.nodeCount = state.nodeCount)
    (debtors : ghostAfter.debtors = ghost.charging thread opens)
    (settles : settled after.log = settled state.log)
    (balance :
      after.charged config + freeSlots config (state, ghost) =
        state.charged config + freeSlots config (after, ghostAfter) +
          if opens then 256 else 0)
    (popped :
      ∀ {shard},
        (after.freeHead shard).pops ≠ 0 →
        shard < config.shards ∧ shard ∈ poppedSince after.log) :
    Counted config (after, ghostAfter) := by
  have length :
      256 * ghostAfter.debtors.length =
        256 * ghost.debtors.length + if opens then 256 else 0 := by
    rw [debtors]
    cases opens <;> simp [Ghost.charging, Nat.mul_add]
  have covers := counted.covers
  have exactly := counted.exact
  simp only at covers exactly
  refine
    { debtors := ?_
      distinct := ?_
      covers := ?_
      exact := ?_
      popped := popped }
  · intro other member
    simp only [debtors, inside] at member ⊢
    cases opens with
    | false =>
        exact counted.debtors member
    | true =>
        rcases List.mem_cons.mp member with rfl | old
        · exact within
        · exact counted.debtors old
  · simp only [debtors]
    cases opens with
    | false =>
        exact counted.distinct
    | true =>
        exact List.nodup_cons.mpr ⟨solvent, counted.distinct⟩
  · simp only [nodeCount]
    omega
  · intro known
    simp only [nodeCount]
    have := exactly (settles ▸ known)
    omega

/-- A debtor counts its batch. -/
theorem Counted.pay
    (counted : Counted config (state, ghost))
    (owes : thread ∈ ghost.debtors) :
    Counted config
      ({ state with nodeCount := state.nodeCount + 256 },
        { ghost with debtors := ghost.debtors.erase thread }) := by
  have length : (ghost.debtors.erase thread).length + 1 =
      ghost.debtors.length := by
    have positive := List.length_pos_of_mem owes
    rw [List.length_erase_of_mem owes]
    omega
  have covers := counted.covers
  have exactly := counted.exact
  refine
    { debtors := fun member => counted.debtors (List.mem_of_mem_erase member)
      distinct := counted.distinct.erase thread
      covers := ?_
      exact := ?_
      popped := counted.popped }
  · change state.charged config ≤
      state.nodeCount + 256 + 256 * (ghost.debtors.erase thread).length +
        freeSlots config (state, ghost)
    simp only at covers
    omega
  · intro known
    change state.charged config =
      state.nodeCount + 256 + 256 * (ghost.debtors.erase thread).length +
        freeSlots config (state, ghost)
    have := exactly known
    simp only at this
    omega

omit [DecidableEq T] in
/-- Nothing that is counted has changed. -/
theorem Counted.same
    (counted : Counted config (state, ghost))
    (inside : after.inside = state.inside)
    (arena : after.arena = state.arena)
    (freeHead : after.freeHead = state.freeHead)
    (nodeCount : after.nodeCount = state.nodeCount)
    (log : after.log = state.log)
    (debtors : ghostAfter.debtors = ghost.debtors)
    (free :
      ∀ slot,
        (ghostAfter.stage slot).isFree = (ghost.stage slot).isFree) :
    Counted config (after, ghostAfter) := by
  have charge : after.charge = state.charge := by
    funext shard
    simp only [State.charge, arena, freeHead]
  have charged : after.charged config = state.charged config := by
    simp only [State.charged, charge]
  have slots :
      freeSlots config (after, ghostAfter) =
        freeSlots config (state, ghost) := by
    refine freeSlots_congr fun slot => ?_
    simp only [Spare, State.arenaSlots, arena, free]
  refine
    { debtors := ?_
      distinct := ?_
      covers := ?_
      exact := ?_
      popped := ?_ }
  · intro thread
    simpa only [debtors, inside] using counted.debtors
  · simpa only [debtors] using counted.distinct
  · simpa only [debtors, charged, nodeCount, slots] using counted.covers
  · simpa only [debtors, charged, nodeCount, slots, log] using
      counted.exact
  · intro shard
    simpa only [freeHead, log] using counted.popped

end ConcurrentCpp.HashSet
