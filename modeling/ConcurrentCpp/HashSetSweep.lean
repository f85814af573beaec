import ConcurrentCpp.HashSetReclaim
import Mathlib.Algebra.Order.BigOperators.Group.List
import Mathlib.Algebra.Order.Ring.Nat

namespace ConcurrentCpp.HashSet

/-!
# The sweep of the hash set

Step 3 of `reclaim()` walks the chain of every published bucket and frees the
nodes that decide nothing.  What it keeps is one node for every key of the
set, so that it can count the keys.
-/

variable {K T : Type} [DecidableEq K]

variable
  {config : Config K T}
  {state : State K T}
  {ghost : Ghost T}
  {bucket : Nat}

/-- What the walk over a chain leaves behind. -/
structure SweptChain
    (config : Config K T)
    (bucket : Nat)
    (sweep : Sweep K T)
    (ghost : Ghost T)
    (before : List Slot)
    (completed : Bool)
    (after : Sweep K T)
    (ghostAfter : Ghost T)
    (kept : List Slot) : Prop where
  quiet : Quiet config (after.state, ghostAfter)
  sweeps :
    Sweeps (· = .chained bucket) (sweep.state, ghost)
      (after.state, ghostAfter)
  returns :
    sweep.hashes = none → completed = true ∧ after.hashes = none
  chained :
    completed = true →
    (tableOf (after.state, ghostAfter)).forest.Chain bucket
      (before ++ kept)
  alive :
    completed = true →
    ∀ node ∈ kept,
      ¬ (tableOf (after.state, ghostAfter)).Stale config.hash bucket node
  live : completed = true → after.live = sweep.live + kept.length

namespace SweptChain

variable
  {sweep next after : Sweep K T}
  {ghostNext ghostAfter : Ghost T}
  {before kept : List Slot}
  {completed : Bool}

/-- The walk has freed a node and goes on. -/
theorem freed
    (swept :
      SweptChain config bucket next ghostNext before completed after
        ghostAfter kept)
    (sweeps :
      Sweeps (· = .chained bucket) (sweep.state, ghost)
        (next.state, ghostNext))
    (hashes : sweep.hashes = none → next.hashes = none)
    (live : next.live = sweep.live) :
    SweptChain config bucket sweep ghost before completed after
      ghostAfter kept where
  quiet := swept.quiet
  sweeps := sweeps.trans swept.sweeps
  returns never := swept.returns (hashes never)
  chained := swept.chained
  alive := swept.alive
  live done := live ▸ swept.live done

/-- The walk has counted a node and goes on. -/
theorem counted
    {node : Slot}
    (swept :
      SweptChain config bucket next ghost (before ++ [node]) completed
        after ghostAfter kept)
    (same : next.state = sweep.state)
    (hashes : sweep.hashes = none → next.hashes = none)
    (live : next.live = sweep.live + 1)
    (alive :
      ¬ (tableOf (sweep.state, ghost)).Stale config.hash bucket node) :
    SweptChain config bucket sweep ghost before completed after
      ghostAfter (node :: kept) where
  quiet := swept.quiet
  sweeps := same ▸ swept.sweeps
  returns never := swept.returns (hashes never)
  chained done := by
    simpa using swept.chained done
  alive := by
    intro done other member
    rcases List.mem_cons.mp member with rfl | later
    · have inside :=
        ((swept.chained done).members other).mp (by simp)
      have home : ghostAfter.stage other = .chained bucket := by
        simpa [tableOf] using inside
      rw [swept.sweeps.stale_iff home, same]
      exact alive
    · exact swept.alive done other later
  live done := by
    rw [swept.live done, live, List.length_cons]
    omega

end SweptChain

/-- The walk over a chain frees the nodes that decide nothing. -/
theorem sweepChain_spec
    (sweep : Sweep K T)
    {before rest : List Slot}
    {fuel size : Nat}
    {cell : Cell Nat Slot}
    {cursor : Option Slot}
    (quiet : Quiet config (sweep.state, ghost))
    (sized : sweep.state.tableSize = size)
    (chained :
      (tableOf (sweep.state, ghost)).forest.Chain bucket
        (before ++ rest))
    (cellIs : endCell (.root bucket) before = cell)
    (head : cursor = rest.head?)
    (bound : rest.length ≤ fuel) :
    ∃ completed after ghostAfter kept,
      sweepChain config bucket size fuel sweep cell cursor =
          some (completed, after) ∧
        SweptChain config bucket sweep ghost before completed after
          ghostAfter kept := by
  -- The induction is on the nodes that are still to be walked over.
  induction rest generalizing fuel sweep ghost before cell cursor with
  | nil =>
      subst head
      refine ⟨true, sweep, ghost, [], by cases fuel <;> rfl, ?_⟩
      exact
        { quiet := quiet
          sweeps := .refl _ _
          returns := fun never => ⟨rfl, never⟩
          chained := fun _ => chained
          alive := fun _ _ member => absurd member (by simp)
          live := fun _ => rfl }
  | cons node rest inductionHypothesis =>
      obtain ⟨fuel, rfl⟩ : ∃ less, fuel = less + 1 :=
        ⟨fuel - 1, by simp only [List.length_cons] at bound; omega⟩
      have shorter : rest.length ≤ fuel := by simpa using bound
      rw [List.head?_cons] at head
      subst head
      have home : ghost.stage node = .chained bucket := by
        have inside := (chained.members node).mp (by simp)
        simpa [tableOf] using inside
      have next : (sweep.state.link node).next = rest.head? :=
        (path_append.mp chained.path).2.2.head
      cases outcome : sweep.isDead config bucket size node with
      | none =>
          refine ⟨false, sweep, ghost, [], by simp [sweepChain, outcome],
            ?_⟩
          exact
            { quiet := quiet
              sweeps := .refl _ _
              returns := fun never =>
                absurd never (isDead_none quiet home outcome)
              chained := fun wrong => by cases wrong
              alive := fun wrong => by cases wrong
              live := fun wrong => by cases wrong }
      | some found =>
          obtain ⟨dead, hashed⟩ := found
          obtain ⟨deadIff, onlyHashes, hashes⟩ :=
            isDead_some quiet home (sized ▸ outcome)
          have sameState : hashed.state = sweep.state := by
            rw [onlyHashes]
          have sameLive : hashed.live = sweep.live := by
            rw [onlyHashes]
          cases dead with
          | true =>
              have expels :
                  Expellable config (sweep.state, ghost) bucket cell
                    before node rest :=
                ⟨chained, deadIff.mp rfl, cellIs⟩
              have valid :
                  hashed.deal &&& (config.shards - 1) < config.shards :=
                and_shards_lt hashed.deal
              have state :
                  (hashed.unlink config cell node).state =
                    (sweep.state.setNext (sweep.state.link node).next
                      cell).pushFree (hashed.deal &&& (config.shards - 1))
                      node := by
                simp [Sweep.unlink, Sweep.free, sameState]
              have quietNext := expels.quiet quiet valid
              have sweepsNext :=
                expels.sweeps quiet (hashed.deal &&& (config.shards - 1))
              have chainNext :=
                expels.chain quiet (hashed.deal &&& (config.shards - 1))
              rw [← state] at quietNext sweepsNext chainNext
              obtain ⟨completed, after, ghostAfter, kept, runs, swept⟩ :=
                inductionHypothesis (hashed.unlink config cell node)
                  quietNext (sweepsNext.tableSize.trans sized) chainNext
                  cellIs next shorter
              refine ⟨completed, after, ghostAfter, kept, ?_,
                swept.freed sweepsNext hashes sameLive⟩
              rw [← runs]
              simp [sweepChain, outcome]
          | false =>
              have chainNext :
                  (tableOf (hashed.state, ghost)).forest.Chain bucket
                    ((before ++ [node]) ++ rest) := by
                simpa [sameState] using chained
              have cellNext :
                  endCell (.root bucket : Cell Nat Slot)
                      (before ++ [node]) =
                    .node node := by
                simp
              obtain ⟨completed, after, ghostAfter, kept, runs, swept⟩ :=
                inductionHypothesis
                  { hashed with live := hashed.live + 1 }
                  (sameState ▸ quiet) (sameState ▸ sized) chainNext
                  cellNext next shorter
              have alive :
                  ¬ (tableOf (sweep.state, ghost)).Stale config.hash
                    bucket node :=
                fun stale => by cases deadIff.mpr stale
              refine ⟨completed, after, ghostAfter, node :: kept, ?_,
                swept.counted sameState hashes (by simp [sameLive])
                  alive⟩
              rw [← runs]
              simp [sweepChain, outcome]

/-- What step 3 has reached after some buckets. -/
structure Swept
    (config : Config K T)
    (start : Sweep K T)
    (ghost : Ghost T)
    (buckets : Nat)
    (completed : Bool)
    (after : Sweep K T)
    (ghostAfter : Ghost T)
    (kept : List Slot) : Prop where
  quiet : Quiet config (after.state, ghostAfter)
  sweeps :
    Sweeps (fun stage => ∃ bucket, stage = .chained bucket)
      (start.state, ghost) (after.state, ghostAfter)
  returns :
    start.hashes = none → completed = true ∧ after.hashes = none
  distinct : kept.Nodup
  members :
    completed = true →
    ∀ node,
      node ∈ kept ↔
        ∃ bucket,
          bucket < buckets ∧ ghostAfter.stage node = .chained bucket
  alive :
    completed = true →
    ∀ {node bucket},
      bucket < buckets →
      ghostAfter.stage node = .chained bucket →
      ¬ (tableOf (after.state, ghostAfter)).Stale config.hash bucket node
  live : completed = true → after.live = start.live + kept.length

namespace Swept

variable
  {start sweep after : Sweep K T}
  {ghostNext ghostAfter : Ghost T}
  {kept own : List Slot}
  {completed : Bool}

/-- A bucket without a chain, or one that is not reached after a throw. -/
theorem skip
    (swept :
      Swept config start ghost bucket completed sweep ghostNext kept)
    (empty :
      completed = true →
      ∀ node, ghostNext.stage node ≠ .chained bucket) :
    Swept config start ghost (bucket + 1) completed sweep ghostNext
      kept :=
  { swept with
    members := by
      intro done node
      rw [swept.members done node]
      refine exists_congr fun other => and_congr_left fun home => ?_
      have different : other ≠ bucket := by
        rintro rfl
        exact empty done node home
      omega
    alive := by
      intro done node other bound home
      refine swept.alive done ?_ home
      have different : other ≠ bucket := by
        rintro rfl
        exact empty done node home
      omega }

/-- A bucket was swept. -/
theorem next
    (swept :
      Swept config start ghost bucket true sweep ghostNext kept)
    (chain :
      SweptChain config bucket sweep ghostNext [] completed after
        ghostAfter own) :
    Swept config start ghost (bucket + 1) completed after ghostAfter
      (if completed then kept ++ own else []) := by
  have others :
      ∀ {node other},
        other ≠ bucket →
        (ghostAfter.stage node = .chained other ↔
          ghostNext.stage node = .chained other) := by
    intro node other different
    constructor
    · exact chain.sweeps.chained
    · intro home
      rw [chain.sweeps.stays (by simp [home, different])]
      exact home
  have ownHome :
      completed = true →
      ∀ node,
        node ∈ own ↔ ghostAfter.stage node = .chained bucket := by
    intro done node
    simpa [tableOf] using (chain.chained done).members node
  refine
    { quiet := chain.quiet
      sweeps := swept.sweeps.trans
        (chain.sweeps.mono fun same => ⟨bucket, same⟩)
      returns := fun never => chain.returns (swept.returns never).2
      distinct := ?_
      members := ?_
      alive := ?_
      live := ?_ }
  · cases completed with
    | false =>
        simp
    | true =>
        have own := (chain.chained rfl).noDuplicates
        refine List.nodup_append'.mpr
          ⟨swept.distinct, by simpa using own, ?_⟩
        intro node early late
        obtain ⟨other, bound, home⟩ := (swept.members rfl node).mp early
        have later := chain.sweeps.chained ((ownHome rfl node).mp late)
        cases home.symm.trans later
        exact Nat.lt_irrefl _ bound
  · rintro rfl node
    simp only [↓reduceIte, List.mem_append, swept.members rfl node,
      ownHome rfl node]
    constructor
    · rintro (⟨other, bound, home⟩ | home)
      · exact ⟨other, by omega,
          (others (Nat.ne_of_lt bound)).mpr home⟩
      · exact ⟨bucket, by omega, home⟩
    · rintro ⟨other, bound, home⟩
      by_cases same : other = bucket
      · exact .inr (same ▸ home)
      · exact .inl ⟨other, by omega, (others same).mp home⟩
  · rintro rfl node other bound home
    by_cases same : other = bucket
    · subst same
      exact chain.alive rfl node ((ownHome rfl node).mpr home)
    · rw [chain.sweeps.stale_iff home]
      exact swept.alive rfl (by omega) ((others same).mp home)
  · rintro rfl
    rw [chain.live rfl, swept.live rfl]
    simp only [↓reduceIte, List.length_append]
    omega

end Swept

/-- The chain of a published bucket. -/
theorem Quiet.published_chain
    (quiet : Quiet config (state, ghost))
    (published : state.published bucket = true) :
    ∃ nodes,
      (tableOf (state, ghost)).forest.Chain bucket nodes ∧
        (state.buckets bucket).address.first = nodes.head? ∧
        nodes.length ≤ state.slots config := by
  obtain ⟨nodes, chained⟩ := quiet.table.forest.chain bucket
  refine ⟨nodes, chained, ?_, ?_⟩
  · have head := chained.path.head
    simpa [tableOf, State.chainLinks, published] using head
  · refine length_le_slots chained.noDuplicates fun node member => ?_
    have home := (chained.members node).mp member
    refine quiet.mem_slots ?_
    simp only [tableOf, Stage.place_eq_linked] at home
    simp [home]

/-- Step 3 for one bucket. -/
theorem sweepBucket_spec
    {start sweep : Sweep K T}
    {ghostNext : Ghost T}
    {kept : List Slot}
    {completed : Bool}
    (bound : bucket < start.state.tableSize)
    (swept :
      Swept config start ghost bucket completed sweep ghostNext kept) :
    ∃ result,
      sweepBucket config start.state.tableSize (start.state.slots config)
          (completed, sweep) bucket = some result ∧
        ∃ ghostAfter kept,
          Swept config start ghost (bucket + 1) result.1 result.2
            ghostAfter kept := by
  by_cases skips :
      completed = false ∨
        (sweep.state.buckets bucket).address = .uninitialized
  · refine ⟨(completed, sweep), by simp [sweepBucket, skips], ghostNext,
      kept, swept.skip ?_⟩
    intro done node home
    have uninitialized := skips.resolve_left (by simp [done])
    have inside :
        (tableOf (sweep.state, ghostNext)).forest.place node =
          .linked bucket := by
      simp [tableOf, home]
    have published := (swept.quiet.table.within (.inl inside)).1
    simp [tableOf, State.published, uninitialized] at published
  · obtain ⟨completes, initialized⟩ := not_or.mp skips
    obtain rfl : completed = true := by simpa using completes
    have sized : sweep.state.tableSize = start.state.tableSize :=
      swept.sweeps.tableSize
    have published : sweep.state.published bucket = true := by
      simp [State.published, initialized, sized, bound]
    obtain ⟨nodes, chained, head, few⟩ :=
      swept.quiet.published_chain published
    rw [swept.sweeps.slots] at few
    obtain ⟨completed, after, ghostAfter, own, runs, chain⟩ :=
      sweepChain_spec sweep swept.quiet sized
        (show (tableOf (sweep.state, ghostNext)).forest.Chain bucket
          ([] ++ nodes) from chained) rfl head few
    refine ⟨(completed, after), ?_, ghostAfter, _, swept.next chain⟩
    simp only [sweepBucket, skips, ↓reduceIte]
    exact runs

/-- Step 3 sweeps every published bucket. -/
theorem sweep_spec
    {start : Sweep K T}
    (quiet : Quiet config (start.state, ghost)) :
    ∃ result,
      (List.range start.state.tableSize).foldlM
          (sweepBucket config start.state.tableSize
            (start.state.slots config)) (true, start) =
        some result ∧
      ∃ ghostAfter kept,
        Swept config start ghost start.state.tableSize result.1 result.2
          ghostAfter kept := by
  refine foldlM_range
    (fun buckets (result : Bool × Sweep K T) => ∃ ghostAfter kept,
      Swept config start ghost buckets result.1 result.2 ghostAfter kept)
    ⟨ghost, [], ?_⟩ ?_
  · exact
      { quiet := quiet
        sweeps := .refl _ _
        returns := fun never => ⟨rfl, never⟩
        distinct := List.nodup_nil
        members := fun _ _ => by simp
        alive := fun _ _ _ bound => absurd bound (by simp)
        live := fun _ => rfl }
  · rintro bucket ⟨completed, sweep⟩ bound ⟨ghostNext, kept, swept⟩
    exact sweepBucket_spec bound swept

section Limbo

variable {shard : Nat}

/-- A limbo list is empty if no slot is on it. -/
theorem Quiet.limbo_empty
    (quiet : Quiet config (state, ghost)) :
    state.limboHead shard = none ↔
      ∀ node, ghost.stage node ≠ .listed (.limbo shard) := by
  obtain ⟨items, holds⟩ := quiet.stacked (.limbo shard)
  have head : state.limboHead shard = items.head? := holds.path.head
  have members :
      ∀ node,
        node ∈ items ↔ ghost.stage node = .listed (.limbo shard) := by
    intro node
    simpa [stacksOf] using holds.members node
  constructor
  · intro none node listed
    have empty : items = [] := by
      rw [head] at none
      exact List.head?_eq_none_iff.mp none
    have member := (members node).mpr listed
    simp [empty] at member
  · intro none
    cases items with
    | nil =>
        exact head
    | cons first rest =>
        exact absurd ((members first).mp (by simp)) (none first)

theorem clearPops_quiet
    (quiet : Quiet config (state, ghost)) :
    Quiet config (state.clearPops config, ghost) := by
  refine
    { size := quiet.size
      unsealed := quiet.unsealed
      table := quiet.table
      stacked := ?_
      nodes := ?_ }
  · intro list
    obtain ⟨items, holds⟩ := quiet.stacked list
    refine ⟨items, holds.transfer ?_ (fun _ => rfl) fun _ => Iff.rfl⟩
    cases list with
    | free shard =>
        by_cases valid : shard < config.shards
        · simp [stacksOf, State.listLinks, State.clearPops, valid]
        · simp [stacksOf, State.listLinks, State.clearPops, valid]
    | limbo shard =>
        rfl
  · intro node
    have old := quiet.nodes node
    exact
      { appended := old.appended
        shard := old.shard
        valued := old.valued
        bare := old.bare
        label := old.label }

end Limbo

/-- The stages that `reclaim()` takes slots from. -/
def Reclaims (stage : Stage T) : Prop :=
  InLimbo stage ∨ ∃ bucket, stage = .chained bucket

/-- What `reclaim()` leaves behind, apart from the node counter. -/
structure Reclaimed
    (config : Config K T)
    (hashes : Option Nat)
    (world : State K T × Ghost T)
    (result : Option Nat)
    (after : State K T × Ghost T)
    (kept : List Slot) : Prop where
  quiet : Quiet config after
  sweeps :
    Sweeps Reclaims (world.1.clearPops config, world.2) after
  empty : ∀ shard, after.1.limboHead shard = none
  returns : hashes = none → result ≠ none
  distinct : kept.Nodup
  members :
    result ≠ none →
    ∀ node,
      node ∈ kept ↔ ∃ bucket, after.2.stage node = .chained bucket
  alive :
    result ≠ none →
    ∀ {node bucket},
      after.2.stage node = .chained bucket →
      ¬ (tableOf after).Stale config.hash bucket node
  live : ∀ {live}, result = some live → live = kept.length

/-- What steps 2 and 3 leave behind. -/
theorem Swept.reclaimed
    {hashes : Option Nat}
    {drained after : Sweep K T}
    {ghostDrained ghostAfter : Ghost T}
    {completed : Bool}
    {kept : List Slot}
    (done :
      Drained config ⟨state.clearPops config, 0, 0, hashes⟩ ghost
        config.shards drained ghostDrained)
    (swept :
      Swept config drained ghostDrained drained.state.tableSize completed
        after ghostAfter kept) :
    Reclaimed config hashes (state, ghost)
      (if completed then some after.live else none)
      (after.state, ghostAfter) kept := by
  have completes :
      (if completed then some after.live else none) ≠ none →
        completed = true := by
    cases completed <;> simp
  have inTable :
      ∀ {node bucket},
        ghostAfter.stage node = .chained bucket →
        bucket < drained.state.tableSize := by
    intro node bucket home
    have inside :
        (tableOf (after.state, ghostAfter)).forest.place node =
          .linked bucket := by
      simp [tableOf, home]
    have published := (swept.quiet.table.within (.inl inside)).1
    simp only [tableOf, State.published, Bool.and_eq_true,
      decide_eq_true_eq] at published
    exact swept.sweeps.tableSize ▸ published.1
  refine
    { quiet := swept.quiet
      sweeps := (done.sweeps.mono .inl).trans (swept.sweeps.mono .inr)
      empty := ?_
      returns := ?_
      distinct := swept.distinct
      members := ?_
      alive := fun finished _ _ home =>
        swept.alive (completes finished) (inTable home) home
      live := ?_ }
  · intro shard
    refine swept.quiet.limbo_empty.mpr fun node listed => ?_
    rcases swept.sweeps.stage node with same | ⟨_, list, free⟩
    · have before : ghostDrained.stage node = .listed (.limbo shard) :=
        same.symm.trans listed
      have valid : shard < config.shards :=
        (done.quiet.nodes node).label before
      exact done.quiet.limbo_empty.mp (done.empty valid) node before
    · cases free.symm.trans listed
  · intro never
    have finished := (swept.returns (done.hashes.trans never)).1
    simp [finished]
  · intro finished node
    rw [swept.members (completes finished) node]
    exact exists_congr fun bucket =>
      ⟨fun known => known.2, fun home => ⟨inTable home, home⟩⟩
  · intro live result
    cases completed with
    | false =>
        cases result
    | true =>
        cases result
        rw [swept.live rfl, done.live]
        exact Nat.zero_add _

/-- The node counter after `reclaim()`. -/
def State.recount
    (config : Config K T)
    (state : State K T)
    (result : Option Nat) :
    State K T :=
  { state with
    nodeCount :=
      match result with
      | some live => live + state.credit config
      | none => state.nodeCount }

omit [DecidableEq K] in
/-- The new count charges no batch. -/
theorem recount_charged
    {after : State K T}
    (result : Option Nat)
    (log : List ArenaEvent) :
    ({ after.recount config result with log := log } :
        State K T).charged config = after.charged config := by
  simp only [State.charged, State.recount]
  rfl

omit [DecidableEq K] in
/-- The new count takes no slot from a free list. -/
theorem recount_freeSlots
    {after : State K T}
    {ghostAfter : Ghost T}
    (result : Option Nat)
    (log : List ArenaEvent) :
    freeSlots config
        (({ after.recount config result with log := log } : State K T),
          ghostAfter) =
      freeSlots config (after, ghostAfter) := by
  refine freeSlots_congr fun slot => ?_
  simp only [Spare, mem_arenaSlots, State.Appended, State.recount]

/-- `reclaim()` ends, and throws only if `Hash` does. -/
theorem reclaim_spec
    (hashes : Option Nat)
    (quiet : Quiet config (state, ghost)) :
    ∃ result after ghostAfter kept,
      reclaim config hashes state =
          some (result, after.recount config result) ∧
        Reclaimed config hashes (state, ghost) result
          (after, ghostAfter) kept := by
  have cleared :
      Quiet config
        ((⟨state.clearPops config, 0, 0, hashes⟩ : Sweep K T).state,
          ghost) :=
    clearPops_quiet quiet
  obtain ⟨drained, ghostDrained, drains, done⟩ := drain_spec cleared
  obtain ⟨⟨completed, after⟩, runs, ghostAfter, kept, swept⟩ :=
    sweep_spec done.quiet
  have sized : drained.state.tableSize = state.tableSize :=
    done.sweeps.tableSize
  have slots : drained.state.slots config = state.slots config :=
    done.sweeps.slots
  rw [sized, slots] at runs
  refine ⟨if completed then some after.live else none, after.state,
    ghostAfter, kept, ?_, swept.reclaimed done⟩
  have cleared :
      (List.range config.shards).foldlM
          (drainShard config (state.slots config))
          ⟨state.clearPops config, 0, 0, hashes⟩ =
        some drained :=
    drains
  simp only [reclaim, cleared, runs, Option.bind_eq_bind,
    Option.bind_some]
  cases completed <;> rfl

section Count

omit [DecidableEq K]

/-- Without pops a shard is charged its appends and its append credit. -/
theorem charged_of_no_pops
    (cleared :
      ∀ {shard},
        shard < config.shards → (state.freeHead shard).pops = 0) :
    state.charged config = state.slots config + state.credit config := by
  have terms :
      (List.range config.shards).map state.charge =
        (List.range config.shards).map fun shard =>
          state.arena shard + (256 - state.arena shard % 256) % 256 := by
    refine List.map_congr_left fun shard member => ?_
    rw [State.charge, cleared (List.mem_range.mp member)]
    omega
  rw [State.charged, terms, List.sum_map_add]
  rfl

/-- Clearing the pop counters lowers the charge. -/
theorem charged_clear_le
    {after : State K T}
    (arena : after.arena = state.arena)
    (cleared :
      ∀ {shard},
        shard < config.shards → (after.freeHead shard).pops = 0) :
    after.charged config ≤ state.charged config := by
  refine List.sum_le_sum fun shard member => ?_
  rw [State.charge, State.charge, arena,
    cleared (List.mem_range.mp member)]
  omega

end Count

namespace Reclaimed

variable
  {hashes result : Option Nat}
  {after : State K T}
  {ghostAfter : Ghost T}
  {kept : List Slot}

/-- All pop counters are cleared. -/
theorem pops
    (reclaimed :
      Reclaimed config hashes (state, ghost) result (after, ghostAfter)
        kept)
    {shard : Nat}
    (valid : shard < config.shards) :
    (after.freeHead shard).pops = 0 := by
  have same := reclaimed.sweeps.pops shard
  simpa [State.clearPops, valid] using same

/-- A slot that is in nobody's hands is free or on a chain afterwards. -/
theorem free_or_chained
    (reclaimed :
      Reclaimed config hashes (state, ghost) result (after, ghostAfter)
        kept)
    (unowned : ∀ node thread, ghost.stage node ≠ .owned thread)
    {node : Slot}
    (present : ghostAfter.stage node ≠ .absent) :
    (∃ shard, ghostAfter.stage node = .listed (.free shard)) ∨
      ∃ bucket, ghostAfter.stage node = .chained bucket := by
  rcases reclaimed.sweeps.stage node with same | ⟨_, free⟩
  · cases stage : ghostAfter.stage node with
    | absent =>
        exact absurd stage present
    | owned thread =>
        exact absurd (same.symm.trans stage) (unowned node thread)
    | chained bucket =>
        exact .inr ⟨bucket, rfl⟩
    | listed label =>
        cases label with
        | free shard =>
            exact .inl ⟨shard, rfl⟩
        | limbo shard =>
            exact absurd stage
              (reclaimed.quiet.limbo_empty.mp (reclaimed.empty shard) node)
  · exact .inl free

/-- The slots that are not free are the ones that were kept. -/
theorem freeSlots_add
    (reclaimed :
      Reclaimed config hashes (state, ghost) result (after, ghostAfter)
        kept)
    (unowned : ∀ node thread, ghost.stage node ≠ .owned thread)
    (finished : result ≠ none) :
    freeSlots config (after, ghostAfter) + kept.length =
      after.slots config := by
  have others :
      (after.arenaSlots config).toFinset.filter
          (fun slot => ¬ (ghostAfter.stage slot).isFree = true) =
        kept.toFinset := by
    ext slot
    simp only [Finset.mem_filter, List.mem_toFinset,
      reclaimed.members finished slot]
    constructor
    · rintro ⟨member, notFree⟩
      have present : ghostAfter.stage slot ≠ .absent :=
        (reclaimed.quiet.nodes slot).appended.mpr
          (mem_arenaSlots.mp member).2
      rcases reclaimed.free_or_chained unowned present with
          ⟨shard, free⟩ | chained
      · exact absurd (by simp [free, Stage.isFree]) notFree
      · exact chained
    · rintro ⟨bucket, chained⟩
      exact ⟨reclaimed.quiet.mem_slots (by simp [chained]),
        by simp [chained, Stage.isFree]⟩
  have parts := Finset.card_filter_add_card_filter_not
    (s := (after.arenaSlots config).toFinset)
    fun slot => (ghostAfter.stage slot).isFree = true
  rw [others, List.toFinset_card_of_nodup reclaimed.distinct,
    List.toFinset_card_of_nodup arenaSlots_nodup, arenaSlots_length]
    at parts
  exact parts

/-- No free slot was lost. -/
theorem freeSlots_le
    (reclaimed :
      Reclaimed config hashes (state, ghost) result (after, ghostAfter)
        kept) :
    freeSlots config (state, ghost) ≤
      freeSlots config (after, ghostAfter) := by
  refine Finset.card_le_card fun slot member => ?_
  simp only [Finset.mem_filter, List.mem_toFinset, mem_arenaSlots,
    State.Appended] at member ⊢
  obtain ⟨appended, free⟩ := member
  have arena : after.arena = state.arena := reclaimed.sweeps.arena
  refine ⟨arena ▸ appended, ?_⟩
  rw [reclaimed.sweeps.stays]
  · exact free
  · intro goes
    rcases goes with ⟨list, same⟩ | ⟨bucket, same⟩
    · simp [show ghost.stage slot = _ from same, Stage.isFree] at free
    · simp [show ghost.stage slot = _ from same, Stage.isFree] at free

/-- The counter covers all batches again. -/
theorem counted
    (reclaimed :
      Reclaimed config hashes (state, ghost) result (after, ghostAfter)
        kept)
    (counted : Counted config (state, ghost))
    (unowned : ∀ node thread, ghost.stage node ≠ .owned thread)
    (solvent : ghost.debtors = []) :
    Counted config
      (({ after.recount config result with
          log := .reclaimed result.isSome :: after.log } : State K T),
        ghostAfter) := by
  have debtors : ghostAfter.debtors = [] :=
    reclaimed.sweeps.debtors.trans solvent
  have fresh := charged_of_no_pops fun valid => reclaimed.pops valid
  have arena : after.arena = state.arena := reclaimed.sweeps.arena
  have lower := charged_clear_le arena fun valid => reclaimed.pops valid
  have more := reclaimed.freeSlots_le
  have nodeCount : after.nodeCount = state.nodeCount :=
    reclaimed.sweeps.nodeCount
  have total : ∀ {live},
      result = some live →
      after.charged config =
        live + after.credit config +
          freeSlots config (after, ghostAfter) := by
    intro live finished
    have parts := reclaimed.freeSlots_add unowned (by simp [finished])
    have length := reclaimed.live finished
    omega
  have covers := counted.covers
  simp only [solvent, List.length_nil, Nat.mul_zero, Nat.add_zero]
    at covers
  refine
    { debtors := fun member => by simp [debtors] at member
      distinct := by simp [debtors]
      covers := ?_
      exact := ?_
      popped := ?_ }
  · simp only [debtors, List.length_nil, Nat.mul_zero, Nat.add_zero,
      recount_charged, recount_freeSlots]
    cases finished : result with
    | none =>
        simp only [State.recount]
        omega
    | some live =>
        exact Nat.le_of_eq (total finished)
  · intro settles
    simp only [debtors, List.length_nil, Nat.mul_zero, Nat.add_zero,
      recount_charged, recount_freeSlots]
    cases finished : result with
    | none =>
        simp [settled, finished] at settles
    | some live =>
        exact total finished
  · intro shard popped
    have old : (state.freeHead shard).pops ≠ 0 ∧
        ¬ shard < config.shards := by
      have same := reclaimed.sweeps.pops shard
      simp only [State.clearPops] at same
      split at same
      · exact absurd same popped
      · exact ⟨same ▸ popped, by assumption⟩
    exact absurd (counted.popped old.1).1 old.2

/-- `reclaim()` on a quiescent set keeps the invariant. -/
theorem invariant
    [DecidableEq T]
    (reclaimed :
      Reclaimed config hashes (state, ghost) result (after, ghostAfter)
        kept)
    (inv : Invariant config (state, ghost))
    (quiescent : state.inside = []) :
    Invariant config
      (({ after.recount config result with
          log := .reclaimed result.isSome :: after.log } : State K T),
        ghostAfter) := by
  have nobody : ∀ thread, thread ∉ state.inside := by
    simp [quiescent]
  have unowned : ∀ node thread, ghost.stage node ≠ .owned thread :=
    fun node thread owned => nobody thread (inv.owner owned)
  have solvent : ghost.debtors = [] :=
    List.eq_nil_iff_forall_not_mem.mpr fun thread member =>
      nobody thread (inv.counted.debtors member)
  have inside : after.inside = state.inside :=
    reclaimed.sweeps.inside
  have events : after.events = state.events :=
    reclaimed.sweeps.events
  have resizing : after.resizing = state.resizing :=
    reclaimed.sweeps.resizing
  have holder : ghostAfter.holder = ghost.holder :=
    reclaimed.sweeps.holder
  refine
    { size := reclaimed.quiet.size
      unsealed := reclaimed.quiet.unsealed
      table := reclaimed.quiet.table
      stacked := reclaimed.quiet.stacked
      nodes := fun node =>
        { reclaimed.quiet.nodes node with }
      owner := ?_
      holder := ?_
      lock := ?_
      lawful := ?_
      harmless := ?_
      threads := ?_
      calls := ?_
      counted := reclaimed.counted inv.counted unowned solvent }
  · intro node thread owned
    rcases reclaimed.sweeps.stage node with same | ⟨_, shard, free⟩
    · exact absurd (same.symm.trans owned) (unowned node thread)
    · cases free.symm.trans owned
  · intro thread held
    change thread ∈ after.inside
    rw [inside]
    exact inv.holder (holder.symm.trans held)
  · change after.resizing = ghostAfter.holder.isSome
    rw [resizing, holder]
    exact inv.lock
  · change Lawful after.events
    rw [events]
    exact inv.lawful
  · change Harmless after.events
    rw [events]
    exact inv.harmless
  · change after.inside.Nodup
    rw [inside]
    exact inv.threads
  · intro thread
    change thread ∈ after.inside ↔ calling after.events thread ≠ none
    rw [inside, events]
    exact inv.calls thread

end Reclaimed

end ConcurrentCpp.HashSet
