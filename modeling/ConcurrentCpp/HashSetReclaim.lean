import ConcurrentCpp.HashSetArena
import ConcurrentCpp.SplitTableSweep

namespace ConcurrentCpp.HashSet

/-!
# Reclamation of the hash set

`reclaim()` runs while no call is in progress.  It moves slots from the limbo
lists and from the chains to the free lists, one after the other, and touches
nothing else.
-/

variable {K T : Type}

variable
  {config : Config K T}
  {state : State K T}
  {ghost : Ghost T}

/-- Slots of some stages went to the free lists and nothing else changed. -/
structure Sweeps
    (goes : Stage T → Prop)
    (world after : State K T × Ghost T) : Prop where
  frame :
    after.1 =
      { world.1 with
        buckets := after.1.buckets
        link := after.1.link
        freeHead := after.1.freeHead
        limboHead := after.1.limboHead }
  level :
    ∀ bucket,
      (after.1.buckets bucket).level = (world.1.buckets bucket).level
  uninitialized :
    ∀ bucket,
      (after.1.buckets bucket).address = .uninitialized ↔
        (world.1.buckets bucket).address = .uninitialized
  pops :
    ∀ shard,
      (after.1.freeHead shard).pops = (world.1.freeHead shard).pops
  tags :
    ∀ {node bucket},
      after.2.stage node = .chained bucket →
      (after.1.link node).mark = (world.1.link node).mark ∧
        (after.1.link node).frozen = (world.1.link node).frozen
  ghost : after.2 = world.2.restage after.2.stage
  stage :
    ∀ node,
      after.2.stage node = world.2.stage node ∨
        goes (world.2.stage node) ∧
          ∃ shard, after.2.stage node = .listed (.free shard)

namespace Sweeps

variable
  {goes went : Stage T → Prop}
  {world middle after : State K T × Ghost T}

theorem refl
    (goes : Stage T → Prop)
    (world : State K T × Ghost T) :
    Sweeps goes world world where
  frame := rfl
  level _ := rfl
  uninitialized _ := Iff.rfl
  pops _ := rfl
  tags _ := ⟨rfl, rfl⟩
  ghost := rfl
  stage _ := .inl rfl

/-- A slot that is on a chain afterwards was on it before. -/
theorem chained
    (sweeps : Sweeps goes world after)
    {node : Slot}
    {bucket : Nat}
    (known : after.2.stage node = .chained bucket) :
    world.2.stage node = .chained bucket := by
  rcases sweeps.stage node with same | ⟨_, shard, free⟩
  · rw [← same, known]
  · rw [free] at known
    cases known

theorem trans
    (first : Sweeps goes world middle)
    (second : Sweeps goes middle after) :
    Sweeps goes world after where
  frame := by
    rw [second.frame, first.frame]
  level bucket := (second.level bucket).trans (first.level bucket)
  uninitialized bucket :=
    (second.uninitialized bucket).trans (first.uninitialized bucket)
  pops shard := (second.pops shard).trans (first.pops shard)
  tags known :=
    ⟨(second.tags known).1.trans (first.tags (second.chained known)).1,
      (second.tags known).2.trans (first.tags (second.chained known)).2⟩
  ghost := by
    rw [second.ghost, first.ghost]
    rfl
  stage node := by
    rcases second.stage node with same | ⟨leaves, free⟩
    · rw [same]
      exact first.stage node
    · rcases first.stage node with before | ⟨left, _⟩
      · rw [before] at leaves
        exact .inr ⟨leaves, free⟩
      · exact .inr ⟨left, free⟩

theorem mono
    (sweeps : Sweeps goes world after)
    (weaker : ∀ {stage}, goes stage → went stage) :
    Sweeps went world after :=
  { sweeps with
    stage := fun node => (sweeps.stage node).imp_right fun gone =>
      ⟨weaker gone.1, gone.2⟩ }

theorem tableSize
    (sweeps : Sweeps goes world after) :
    after.1.tableSize = world.1.tableSize := by
  rw [sweeps.frame]

theorem arena
    (sweeps : Sweeps goes world after) :
    after.1.arena = world.1.arena := by
  rw [sweeps.frame]

theorem slots
    (sweeps : Sweeps goes world after) :
    after.1.slots config = world.1.slots config := by
  simp only [State.slots, sweeps.arena]

theorem value
    (sweeps : Sweeps goes world after) :
    after.1.value = world.1.value := by
  rw [sweeps.frame]

theorem nodeCount
    (sweeps : Sweeps goes world after) :
    after.1.nodeCount = world.1.nodeCount := by
  rw [sweeps.frame]

theorem inside
    (sweeps : Sweeps goes world after) :
    after.1.inside = world.1.inside := by
  rw [sweeps.frame]

theorem events
    (sweeps : Sweeps goes world after) :
    after.1.events = world.1.events := by
  rw [sweeps.frame]

theorem resizing
    (sweeps : Sweeps goes world after) :
    after.1.resizing = world.1.resizing := by
  rw [sweeps.frame]

theorem log
    (sweeps : Sweeps goes world after) :
    after.1.log = world.1.log := by
  rw [sweeps.frame]

theorem holder
    (sweeps : Sweeps goes world after) :
    after.2.holder = world.2.holder := by
  rw [sweeps.ghost]
  rfl

theorem debtors
    (sweeps : Sweeps goes world after) :
    after.2.debtors = world.2.debtors := by
  rw [sweeps.ghost]
  rfl

theorem published
    (sweeps : Sweeps goes world after)
    (bucket : Nat) :
    after.1.published bucket = world.1.published bucket := by
  simp only [State.published, sweeps.tableSize, ne_eq,
    sweeps.uninitialized bucket]

/-- A stage that does not go stays. -/
theorem stays
    (sweeps : Sweeps goes world after)
    {node : Slot}
    (known : ¬ goes (world.2.stage node)) :
    after.2.stage node = world.2.stage node :=
  (sweeps.stage node).resolve_right fun gone => known gone.1

end Sweeps

variable [DecidableEq K]

/-- What holds of the words of a set whatever its calls do. -/
structure Quiet
    (config : Config K T)
    (world : State K T × Ghost T) : Prop where
  size : world.1.tableSize = 2 ^ world.1.tableSize.log2
  unsealed :
    ∀ {bucket},
      bucket < world.1.tableSize →
      (world.1.buckets bucket).address = .uninitialized →
      (world.1.buckets bucket).level = 0
  table :
    (tableOf world).Sound config.hash config.allowDelete
      config.capacity.log2
  stacked : (stacksOf world).WellFormed
  nodes : ∀ node, NodeOk config world node

theorem Invariant.quiet
    [DecidableEq T]
    (inv : Invariant config (state, ghost)) :
    Quiet config (state, ghost) where
  size := inv.size
  unsealed := inv.unsealed
  table := inv.table
  stacked := inv.stacked
  nodes := inv.nodes

/-- A slot that has a stage is one of the arena. -/
theorem Quiet.mem_slots
    (quiet : Quiet config (state, ghost))
    {node : Slot}
    (present : ghost.stage node ≠ .absent) :
    node ∈ state.arenaSlots config :=
  have appended := (quiet.nodes node).appended.mp present
  mem_arenaSlots.mpr ⟨(quiet.nodes node).shard appended, appended⟩

section PushFree

variable {node : Slot} {shard : Nat}

/-- A slot goes to a free list. -/
def Ghost.freed
    (ghost : Ghost T)
    (node : Slot)
    (shard : Nat) :
    Ghost T :=
  ghost.restage
    (Function.update ghost.stage node (.listed (.free shard)))

/-- A slot is nowhere. -/
def Ghost.without
    (ghost : Ghost T)
    (node : Slot) :
    Ghost T :=
  ghost.restage (Function.update ghost.stage node .absent)

omit [DecidableEq K] in
@[simp] theorem Ghost.freed_stage_self :
    (ghost.freed node shard).stage node = .listed (.free shard) := by
  simp [Ghost.freed, Ghost.restage]

omit [DecidableEq K] in
theorem Ghost.freed_stage_of_ne
    {slot : Slot}
    (different : slot ≠ node) :
    (ghost.freed node shard).stage slot = ghost.stage slot := by
  simp [Ghost.freed, Ghost.restage, different]

omit [DecidableEq K] in
@[simp] theorem Ghost.without_stage_self :
    (ghost.without node).stage node = .absent := by
  simp [Ghost.without, Ghost.restage]

omit [DecidableEq K] in
theorem Ghost.without_stage_of_ne
    {slot : Slot}
    (different : slot ≠ node) :
    (ghost.without node).stage slot = ghost.stage slot := by
  simp [Ghost.without, Ghost.restage, different]

omit [DecidableEq K] in
/-- The table sees the rewriting of the slot. -/
private theorem tableOf_pushFree :
    tableOf (state.pushFree shard node, ghost.freed node shard) =
      (tableOf (state, ghost.without node)).rewrite node
        (state.freeHead shard).top (state.value node) false false := by
  simp only [tableOf, SplitTable.rewrite, Forest.setLink,
    State.pushFree, SplitTable.mk.injEq, Forest.mk.injEq, and_true]
  refine ⟨⟨?_, ?_⟩, ?_, ?_, ?_, rfl, rfl⟩
  · funext cell
    cases cell with
    | root bucket =>
        simp [State.chainLinks, State.published]
    | node slot =>
        by_cases same : slot = node
        · simp [State.chainLinks, same, Link.bare]
        · simp [State.chainLinks, same]
  · funext slot
    by_cases same : slot = node
    · simp [same, Stage.place]
    · rw [Ghost.freed_stage_of_ne same, Ghost.without_stage_of_ne same]
  · simp
  · funext slot
    by_cases same : slot = node
    · simp [same, Link.bare]
    · simp [same]
  · funext slot
    by_cases same : slot = node
    · simp [same, Link.bare]
    · simp [same]

omit [DecidableEq K] in
/-- The lists see the slot on top of a free list. -/
private theorem stacksOf_pushFree :
    stacksOf (state.pushFree shard node, ghost.freed node shard) =
      ((stacksOf (state, ghost.without node)).setLink node
        (state.freeHead shard).top).splice (.free shard) node [] := by
  simp only [stacksOf, Stacks.setLink, Stacks.splice, State.pushFree,
    Stacks.mk.injEq]
  refine ⟨?_, ?_⟩
  · funext cell
    cases cell with
    | root list =>
        cases list with
        | free other =>
            by_cases here : other = shard
            · simp [State.listLinks, here]
            · simp [State.listLinks, here]
        | limbo other =>
            simp [State.listLinks]
    | node slot =>
        by_cases same : slot = node
        · simp [State.listLinks, same, Link.bare]
        · simp [State.listLinks, same]
  · funext slot
    by_cases same : slot = node
    · simp [same, Stage.label?]
    · simp [same, Ghost.freed_stage_of_ne same,
        Ghost.without_stage_of_ne same]

omit [DecidableEq K] in
private theorem pushFree_spliceable :
    ((stacksOf (state, ghost.without node)).setLink node
      (state.freeHead shard).top).Spliceable (.free shard) node [] := by
  refine ⟨⟨trivial, ?_⟩, by simp, ?_⟩
  · simp [Stacks.setLink, stacksOf, State.listLinks]
  · intro slot member
    cases List.mem_singleton.mp member
    simp [Stacks.setLink, stacksOf, Stage.label?]

/-- A slot that is on no chain and no list is pushed onto a free list. -/
theorem pushFree_quiet
    (size : state.tableSize = 2 ^ state.tableSize.log2)
    (unsealed :
      ∀ {bucket},
        bucket < state.tableSize →
        (state.buckets bucket).address = .uninitialized →
        (state.buckets bucket).level = 0)
    (table :
      (tableOf (state, ghost.without node)).Sound config.hash
        config.allowDelete config.capacity.log2)
    (stacked : (stacksOf (state, ghost.without node)).WellFormed)
    (others :
      ∀ slot, slot ≠ node → NodeOk config (state, ghost) slot)
    (appended : state.Appended node)
    (home : node.shard < config.shards)
    (valued : state.value node ≠ none)
    (valid : shard < config.shards) :
    Quiet config
      (state.pushFree shard node, ghost.freed node shard) := by
  have off : (tableOf (state, ghost.without node)).forest.place node =
      .off := by
    simp [tableOf, Stage.place]
  have unlisted :
      (stacksOf (state, ghost.without node)).listed node = none := by
    simp [stacksOf, Stage.label?]
  refine
    { size := size
      unsealed := unsealed
      table := ?_
      stacked := ?_
      nodes := ?_ }
  · rw [tableOf_pushFree]
    exact SplitTable.rewrite_sound table off _ _ _ _
  · rw [stacksOf_pushFree]
    exact Stacks.splice_wellFormed
      (Stacks.setLink_wellFormed stacked unlisted) pushFree_spliceable
  · intro slot
    by_cases same : slot = node
    · subst same
      exact
        { appended := by simpa [State.pushFree, State.Appended] using appended
          shard := fun _ => home
          valued := fun _ => valued
          bare := fun _ => by simp [State.pushFree, Link.bare]
          label := fun known => by
            simp only [Ghost.freed_stage_self, Stage.listed.injEq] at known
            exact known ▸ valid }
    · have old := others slot same
      have stage :
          (ghost.freed node shard).stage slot = ghost.stage slot :=
        Ghost.freed_stage_of_ne same
      exact
        { appended := by
            rw [stage]
            exact old.appended
          shard := old.shard
          valued := old.valued
          bare := fun known => by
            rw [stage] at known
            simpa [State.pushFree, same] using old.bare known
          label := fun known => by
            rw [stage] at known
            exact old.label known }

end PushFree

/-- A fold in `Option` over a range that keeps an invariant succeeds. -/
theorem foldlM_range
    {B : Type}
    {step : B → Nat → Option B}
    (keeps : Nat → B → Prop)
    {count : Nat}
    {start : B}
    (initially : keeps 0 start)
    (steps :
      ∀ {index current},
        index < count →
        keeps index current →
        ∃ next, step current index = some next ∧ keeps (index + 1) next) :
    ∃ result,
      (List.range count).foldlM step start = some result ∧
        keeps count result := by
  induction count with
  | zero =>
      exact ⟨start, rfl, initially⟩
  | succ count inductionHypothesis =>
      obtain ⟨middle, before, kept⟩ :=
        inductionHypothesis fun bound => steps (by omega)
      obtain ⟨next, last, done⟩ := steps (by omega) kept
      refine ⟨next, ?_, done⟩
      rw [List.range_succ, List.foldlM_append, before]
      simp [last]

section Drain

variable {node : Slot} {shard list : Nat}

/-- The set as if the rest of a limbo chain were still on its list. -/
def State.withLimbo
    (state : State K T)
    (list : Nat)
    (cursor : Option Slot) :
    State K T :=
  { state with
    limboHead := Function.update state.limboHead list cursor }

omit [DecidableEq K] in
private theorem tableOf_withLimbo
    {cursor : Option Slot}
    (listed : ghost.stage node = .listed (.limbo list)) :
    tableOf (state.withLimbo list cursor, ghost.without node) =
      tableOf (state, ghost) := by
  have place :
      (fun slot => ((ghost.without node).stage slot).place) =
        fun slot => (ghost.stage slot).place := by
    funext slot
    by_cases same : slot = node
    · simp [same, listed, Stage.place]
    · rw [Ghost.without_stage_of_ne same]
  simp only [tableOf, place]
  rfl

omit [DecidableEq K] in
private theorem stacksOf_withLimbo :
    stacksOf
        (state.withLimbo list (state.link node).next,
          ghost.without node) =
      (stacksOf (state, ghost)).pop (.limbo list) node := by
  simp only [stacksOf, Stacks.pop, State.withLimbo, Stacks.mk.injEq]
  refine ⟨?_, ?_⟩
  · funext cell
    cases cell with
    | root label =>
        cases label with
        | free other =>
            simp [State.listLinks]
        | limbo other =>
            by_cases here : other = list
            · simp [State.listLinks, here]
            · simp [State.listLinks, here]
    | node slot =>
        simp [State.listLinks]
  · funext slot
    by_cases same : slot = node
    · simp [same, Stage.label?]
    · simp [same, Ghost.without_stage_of_ne same]

/-- The top of a limbo list goes to a free list. -/
theorem drain_quiet
    (quiet : Quiet config (state, ghost))
    (top : state.limboHead list = some node)
    (valid : shard < config.shards) :
    Quiet config
        ((state.withLimbo list (state.link node).next).pushFree shard node,
          ghost.freed node shard) ∧
      Sweeps (· = .listed (.limbo list)) (state, ghost)
        ((state.withLimbo list (state.link node).next).pushFree shard node,
          ghost.freed node shard) := by
  have leads :
      (stacksOf (state, ghost)).links (.root (.limbo list)) =
        some node :=
    top
  have listed : ghost.stage node = .listed (.limbo list) := by
    obtain ⟨items, holds⟩ := quiet.stacked (.limbo list)
    simpa [stacksOf] using holds.top_listed leads
  have appended : state.Appended node :=
    (quiet.nodes node).appended.mp (by simp [listed])
  refine ⟨?_, ?_⟩
  · refine pushFree_quiet quiet.size quiet.unsealed ?_ ?_ ?_ appended
      ((quiet.nodes node).shard appended)
      ((quiet.nodes node).valued appended) valid
    · rw [tableOf_withLimbo listed]
      exact quiet.table
    · rw [stacksOf_withLimbo]
      exact Stacks.pop_wellFormed quiet.stacked leads
    · intro slot _
      have old := quiet.nodes slot
      exact
        { appended := old.appended
          shard := old.shard
          valued := old.valued
          bare := old.bare
          label := old.label }
  · refine
      { frame := rfl
        level := fun _ => rfl
        uninitialized := fun _ => Iff.rfl
        pops := ?_
        tags := ?_
        ghost := rfl
        stage := ?_ }
    · intro other
      by_cases same : other = shard
      · simp [State.pushFree, State.withLimbo, same]
      · simp [State.pushFree, State.withLimbo, same]
    · intro slot bucket known
      have same : slot ≠ node := by
        rintro rfl
        simp at known
      simp [State.pushFree, State.withLimbo, same]
    · intro slot
      by_cases same : slot = node
      · exact .inr ⟨same ▸ listed, shard, same ▸ Ghost.freed_stage_self⟩
      · exact .inl (Ghost.freed_stage_of_ne same)

omit [DecidableEq K] in
variable (shard) in
/-- The rest of the limbo list stays. -/
private theorem drain_holds
    {rest : List Slot}
    (holds :
      (stacksOf (state, ghost)).Holds (.limbo list) (node :: rest)) :
    (stacksOf
      ((state.withLimbo list (state.link node).next).pushFree shard node,
        ghost.freed node shard)).Holds (.limbo list) rest := by
  rw [stacksOf_pushFree]
  refine Stacks.splice_other pushFree_spliceable (by simp) ?_
  refine Stacks.setLink_holds (by simp [stacksOf, Stage.label?]) ?_
  rw [stacksOf_withLimbo]
  exact Stacks.pop_holds holds

/-- The walk over a limbo chain frees all of it. -/
theorem drainChain_spec
    (sweep : Sweep K T)
    {items : List Slot}
    {fuel : Nat}
    (bound : items.length ≤ fuel)
    {cursor : Option Slot}
    (quiet : Quiet config (sweep.state.withLimbo list cursor, ghost))
    (holds :
      (stacksOf (sweep.state.withLimbo list cursor, ghost)).Holds
        (.limbo list) items) :
    ∃ after ghostAfter,
      drainChain config fuel sweep cursor = some after ∧
        Quiet config (after.state.withLimbo list none, ghostAfter) ∧
        Sweeps (· = .listed (.limbo list))
          (sweep.state.withLimbo list cursor, ghost)
          (after.state.withLimbo list none, ghostAfter) ∧
        after.state.limboHead = sweep.state.limboHead ∧
        after.live = sweep.live ∧
        after.hashes = sweep.hashes := by
  have head : cursor = items.head? := by
    have first := holds.path.head
    simpa [stacksOf, State.listLinks, State.withLimbo] using first
  -- The induction is on the nodes that are still to be freed.
  induction items generalizing fuel sweep cursor ghost with
  | nil =>
      subst head
      refine ⟨sweep, ghost, ?_, quiet, .refl _ _, rfl, rfl, rfl⟩
      cases fuel <;> rfl
  | cons node rest inductionHypothesis =>
      obtain ⟨fuel, rfl⟩ : ∃ less, fuel = less + 1 :=
        ⟨fuel - 1, by simp only [List.length_cons] at bound; omega⟩
      rw [List.head?_cons] at head
      subst head
      have top :
          (sweep.state.withLimbo list (some node)).limboHead list =
            some node := by
        simp [State.withLimbo]
      have same :
          ((sweep.state.withLimbo list (some node)).withLimbo list
              (sweep.state.link node).next).pushFree
                (sweep.deal &&& (config.shards - 1)) node =
            (sweep.free config node).state.withLimbo list
              (sweep.state.link node).next := by
        simp [State.withLimbo, Sweep.free, State.pushFree]
      have moved := drain_quiet quiet top (and_shards_lt sweep.deal)
      have holdsNext :=
        drain_holds (sweep.deal &&& (config.shards - 1)) holds
      rw [show (sweep.state.withLimbo list (some node)).link =
        sweep.state.link from rfl, same] at moved holdsNext
      have next :
          (sweep.state.link node).next = rest.head? := by
        have first := holdsNext.path.head
        simpa [stacksOf, State.listLinks, State.withLimbo] using first
      obtain ⟨after, ghostAfter, runs, quietAfter, sweepsAfter,
          limbo, live, hashes⟩ :=
        inductionHypothesis (sweep.free config node)
          (by simpa using bound) moved.1 holdsNext next
      exact ⟨after, ghostAfter, runs, quietAfter,
        moved.2.trans sweepsAfter, limbo, live, hashes⟩

variable (list) in
/-- Step 2 for one shard empties its limbo list. -/
theorem drainShard_spec
    {sweep : Sweep K T}
    {fuel : Nat}
    (enough : sweep.state.slots config ≤ fuel)
    (quiet : Quiet config (sweep.state, ghost)) :
    ∃ after ghostAfter,
      drainShard config fuel sweep list = some after ∧
        Quiet config (after.state, ghostAfter) ∧
        Sweeps (· = .listed (.limbo list)) (sweep.state, ghost)
          (after.state, ghostAfter) ∧
        after.state.limboHead =
          Function.update sweep.state.limboHead list none ∧
        after.live = sweep.live ∧
        after.hashes = sweep.hashes := by
  obtain ⟨items, holds⟩ := quiet.stacked (.limbo list)
  have bound : items.length ≤ sweep.state.slots config := by
    refine length_le_slots holds.noDuplicates fun node member => ?_
    have listed := (holds.members node).mp member
    refine quiet.mem_slots ?_
    simp only [stacksOf, Stage.label?_eq_some] at listed
    simp [listed]
  have same :
      (sweep.state.withLimbo list none).withLimbo list
          (sweep.state.limboHead list) =
        sweep.state := by
    simp [State.withLimbo]
  rw [← same] at quiet holds
  obtain ⟨after, ghostAfter, runs, quietAfter, sweeps, limbo, kept⟩ :=
    drainChain_spec
      { sweep with state := sweep.state.withLimbo list none }
      (Nat.le_trans bound enough) quiet holds
  have empty : after.state.limboHead list = none := by
    rw [limbo]
    simp [State.withLimbo]
  have drained : after.state.withLimbo list none = after.state := by
    rw [State.withLimbo, Function.update_eq_self_iff.mpr empty.symm]
  rw [same, drained] at sweeps
  rw [drained] at quietAfter
  exact ⟨after, ghostAfter, runs, quietAfter, sweeps, limbo, kept⟩

/-- The stages that step 2 takes slots from. -/
def InLimbo (stage : Stage T) : Prop :=
  ∃ list, stage = .listed (.limbo list)

/-- What step 2 has reached after some shards. -/
structure Drained
    (config : Config K T)
    (start : Sweep K T)
    (ghost : Ghost T)
    (shards : Nat)
    (sweep : Sweep K T)
    (ghostAfter : Ghost T) : Prop where
  quiet : Quiet config (sweep.state, ghostAfter)
  sweeps :
    Sweeps InLimbo (start.state, ghost) (sweep.state, ghostAfter)
  empty : ∀ {list}, list < shards → sweep.state.limboHead list = none
  live : sweep.live = start.live
  hashes : sweep.hashes = start.hashes

/-- Step 2 empties all limbo lists. -/
theorem drain_spec
    {start : Sweep K T}
    (quiet : Quiet config (start.state, ghost)) :
    ∃ after ghostAfter,
      (List.range config.shards).foldlM
          (drainShard config (start.state.slots config)) start =
        some after ∧
      Drained config start ghost config.shards after ghostAfter := by
  have steps :
      ∀ {list : Nat} {sweep : Sweep K T},
        list < config.shards →
        (∃ before, Drained config start ghost list sweep before) →
        ∃ after,
          drainShard config (start.state.slots config) sweep list =
            some after ∧
          ∃ ghostAfter,
            Drained config start ghost (list + 1) after ghostAfter := by
    rintro list sweep _ ⟨before, drained⟩
    have enough : sweep.state.slots config ≤ start.state.slots config :=
      Nat.le_of_eq drained.sweeps.slots
    obtain ⟨after, ghostAfter, runs, quietAfter, sweeps, limbo, live,
        hashes⟩ :=
      drainShard_spec list enough drained.quiet
    refine ⟨after, runs, ghostAfter, quietAfter,
      drained.sweeps.trans (sweeps.mono fun same => ⟨list, same⟩),
      ?_, live.trans drained.live, hashes.trans drained.hashes⟩
    intro other bound
    rw [limbo]
    by_cases same : other = list
    · simp [same]
    · simp only [ne_eq, same, not_false_eq_true, Function.update_of_ne]
      exact drained.empty (by omega)
  obtain ⟨after, runs, ghostAfter, drained⟩ :=
    foldlM_range
      (fun shards sweep => ∃ ghostAfter,
        Drained config start ghost shards sweep ghostAfter)
      ⟨ghost, quiet, .refl _ _, fun bound => absurd bound (by simp),
        rfl, rfl⟩ steps
  exact ⟨after, ghostAfter, runs, drained⟩

end Drain

section Expel

variable
  {node : Slot}
  {cell : Cell Nat Slot}
  {next : Option Slot}
  {bucket shard : Nat}

@[simp] theorem Address.of_ne_uninitialized
    (first : Option Slot) :
    Address.of first ≠ .uninitialized := by
  cases first <;> simp [Address.of]

@[simp] theorem Address.of_first
    (first : Option Slot) :
    (Address.of first).first = first := by
  cases first <;> rfl

omit [DecidableEq K] in
variable (state next cell) in
/-- A store of an address leaves everything but heads and links alone. -/
private theorem setNext_frame :
    state.setNext next cell =
      { state with
        buckets := (state.setNext next cell).buckets
        link := (state.setNext next cell).link } := by
  cases cell <;> rfl

omit [DecidableEq K] in
private theorem setNext_address
    (bucket : Nat) :
    ((state.setNext next cell).buckets bucket).address =
      if cell = .root bucket then .of next
      else (state.buckets bucket).address := by
  cases cell with
  | root root =>
      by_cases same : root = bucket
      · simp [State.setNext, same]
      · simp [State.setNext, same, Ne.symm same]
  | node slot =>
      simp [State.setNext]

omit [DecidableEq K] in
private theorem setNext_level
    (bucket : Nat) :
    ((state.setNext next cell).buckets bucket).level =
      (state.buckets bucket).level := by
  cases cell with
  | root root =>
      by_cases same : bucket = root
      · simp [State.setNext, same]
      · simp [State.setNext, same]
  | node slot =>
      rfl

omit [DecidableEq K] in
private theorem setNext_next
    (slot : Slot) :
    ((state.setNext next cell).link slot).next =
      if cell = .node slot then next else (state.link slot).next := by
  cases cell with
  | root root =>
      simp [State.setNext]
  | node pred =>
      by_cases same : pred = slot
      · simp [State.setNext, same]
      · simp [State.setNext, same, Ne.symm same]

omit [DecidableEq K] in
variable (state next cell) in
private theorem setNext_tags
    (slot : Slot) :
    ((state.setNext next cell).link slot).mark = (state.link slot).mark ∧
      ((state.setNext next cell).link slot).frozen =
        (state.link slot).frozen := by
  cases cell with
  | root root =>
      exact ⟨rfl, rfl⟩
  | node pred =>
      by_cases same : slot = pred
      · simp [State.setNext, same]
      · simp [State.setNext, same]

omit [DecidableEq K] in
private theorem setNext_published
    (published : ∀ root, cell = .root root → state.published root = true) :
    (state.setNext next cell).published = state.published := by
  funext bucket
  have size : (state.setNext next cell).tableSize = state.tableSize := by
    rw [setNext_frame]
  simp only [State.published, size, setNext_address]
  split
  next here =>
    have known := published bucket here
    simp only [State.published, Bool.and_eq_true] at known
    rw [known.1, known.2]
    simp
  next =>
    rfl

omit [DecidableEq K] in
private theorem setNext_chainLinks
    (published : ∀ root, cell = .root root → state.published root = true) :
    (state.setNext next cell).chainLinks =
      Function.update state.chainLinks cell next := by
  funext other
  cases other with
  | root bucket =>
      simp only [State.chainLinks, setNext_published published,
        setNext_address, Function.update_apply]
      by_cases here : cell = .root bucket
      · simp [here, published bucket here]
      · simp [here, Ne.symm here]
  | node slot =>
      simp only [State.chainLinks, setNext_next, Function.update_apply]
      by_cases here : cell = .node slot
      · simp [here]
      · simp [here, Ne.symm here]

omit [DecidableEq K] in
variable (ghost node) in
/-- The table sees the slot leave its chain. -/
private theorem tableOf_setNext
    (published : ∀ root, cell = .root root → state.published root = true) :
    tableOf (state.setNext (state.link node).next cell,
        ghost.without node) =
      (tableOf (state, ghost)).expel cell node := by
  have place :
      (fun slot => ((ghost.without node).stage slot).place) =
        Function.update (fun slot => (ghost.stage slot).place)
          node .off := by
    funext slot
    by_cases here : slot = node
    · simp [here, Stage.place]
    · simp [here, Ghost.without_stage_of_ne here]
  simp only [tableOf, SplitTable.expel, Forest.expel, place,
    setNext_published published, setNext_chainLinks published,
    setNext_tags, setNext_level]
  rw [setNext_frame]
  rfl

omit [DecidableEq K] in
private theorem setNext_listLinks_root
    (list : Label) :
    (state.setNext next cell).listLinks (.root list) =
      state.listLinks (.root list) := by
  rw [setNext_frame]
  cases list <;> rfl

omit [DecidableEq K] in
/-- The lists do not see a store into a head or into a node of a chain. -/
private theorem stacksOf_setNext
    (stacked : (stacksOf (state, ghost)).WellFormed)
    (chained : ghost.stage node = .chained bucket)
    (unlisted :
      ∀ {pred},
        cell = .node pred → ∃ home, ghost.stage pred = .chained home) :
    (stacksOf
      (state.setNext next cell, ghost.without node)).WellFormed := by
  intro list
  obtain ⟨items, holds⟩ := stacked list
  refine ⟨items, holds.transfer (setNext_listLinks_root list) ?_ ?_⟩
  · intro slot listed
    have different : cell ≠ .node slot := by
      intro here
      obtain ⟨home, known⟩ := unlisted here
      simp [stacksOf, known, Stage.label?] at listed
    simp [stacksOf, State.listLinks, setNext_next, different]
  · intro slot
    by_cases same : slot = node
    · simp [stacksOf, same, chained]
    · simp [stacksOf, Ghost.without_stage_of_ne same]

omit [DecidableEq K] in
/-- The cell behind which a node of a chain is found. -/
private theorem endCell_chained
    {before : List Slot}
    (inside :
      ∀ slot ∈ before, ghost.stage slot = .chained bucket)
    {pred : Slot}
    (here : endCell (.root bucket) before = .node pred) :
    ghost.stage pred = .chained bucket := by
  cases before with
  | nil =>
      cases here
  | cons first rest =>
      obtain ⟨last, member, shape⟩ :=
        endCell_cons_mem (.root bucket : Cell Nat Slot) first rest
      cases shape.symm.trans here
      exact inside _ member

/-- The published node behind a cell, which decides nothing any more. -/
structure Expellable
    (config : Config K T)
    (world : State K T × Ghost T)
    (bucket : Nat)
    (cell : Cell Nat Slot)
    (before : List Slot)
    (node : Slot)
    (rest : List Slot) : Prop where
  chained :
    (tableOf world).forest.Chain bucket (before ++ node :: rest)
  stale : (tableOf world).Stale config.hash bucket node
  cellIs : endCell (.root bucket) before = cell

namespace Expellable

variable {before rest : List Slot}

omit [DecidableEq K] in
theorem stages
    (expels :
      Expellable config (state, ghost) bucket cell before node rest)
    {slot : Slot}
    (member : slot ∈ before ++ node :: rest) :
    ghost.stage slot = .chained bucket := by
  simpa [tableOf] using (expels.chained.members slot).mp member

omit [DecidableEq K] in
theorem home
    (expels :
      Expellable config (state, ghost) bucket cell before node rest) :
    ghost.stage node = .chained bucket :=
  expels.stages (by simp)

theorem published
    (expels :
      Expellable config (state, ghost) bucket cell before node rest)
    (quiet : Quiet config (state, ghost))
    (root : Nat)
    (atRoot : cell = .root root) :
    state.published root = true := by
  have inside := (expels.chained.members node).mp (by simp)
  have cellIs := expels.cellIs
  subst atRoot
  cases before with
  | nil =>
      cases cellIs
      exact (quiet.table.within (.inl inside)).1
  | cons first rest =>
      obtain ⟨last, _, shape⟩ :=
        endCell_cons_mem (.root bucket : Cell Nat Slot) first rest
      cases shape.symm.trans cellIs

/-- A node that decides nothing goes from its chain to a free list. -/
theorem quiet
    (expels :
      Expellable config (state, ghost) bucket cell before node rest)
    (quiet : Quiet config (state, ghost))
    (valid : shard < config.shards) :
    Quiet config
      ((state.setNext (state.link node).next cell).pushFree shard node,
        ghost.freed node shard) := by
  have frame := setNext_frame state cell (state.link node).next
  have appended : state.Appended node :=
    (quiet.nodes node).appended.mp (by simp [expels.home])
  refine pushFree_quiet ?_ ?_ ?_ ?_ ?_ ?_
    ((quiet.nodes node).shard appended) ?_ valid
  · rw [frame]
    exact quiet.size
  · intro other bound uninitialized
    rw [setNext_level]
    rw [setNext_address] at uninitialized
    split at uninitialized
    · exact absurd uninitialized (Address.of_ne_uninitialized _)
    · rw [frame] at bound
      exact quiet.unsealed bound uninitialized
  · rw [tableOf_setNext ghost node (expels.published quiet),
      ← expels.cellIs]
    exact SplitTable.expel_sound quiet.table (by simp [tableOf])
      expels.chained expels.stale
  · refine stacksOf_setNext quiet.stacked expels.home fun here => ?_
    exact ⟨bucket, endCell_chained
      (fun slot member => expels.stages (by simp [member]))
      (expels.cellIs.trans here)⟩
  · intro slot _
    have old := quiet.nodes slot
    refine
      { appended := ?_
        shard := ?_
        valued := ?_
        bare := ?_
        label := old.label }
    · rw [frame]
      exact old.appended
    · rw [frame]
      exact old.shard
    · rw [frame]
      exact old.valued
    · intro known
      obtain ⟨mark, frozen⟩ :=
        setNext_tags state cell (state.link node).next slot
      simp only [mark, frozen]
      exact old.bare known
  · rw [frame]
    exact appended
  · rw [frame]
    exact (quiet.nodes node).valued appended

theorem sweeps
    (expels :
      Expellable config (state, ghost) bucket cell before node rest)
    (quiet : Quiet config (state, ghost))
    (shard : Nat) :
    Sweeps (· = .chained bucket) (state, ghost)
      ((state.setNext (state.link node).next cell).pushFree shard node,
        ghost.freed node shard) where
  frame := by
    cases cell <;> rfl
  level := setNext_level
  uninitialized other := by
    change ((state.setNext _ cell).buckets other).address = _ ↔ _
    rw [setNext_address]
    split
    next here =>
      have published := expels.published quiet other here
      simp only [State.published, Bool.and_eq_true, decide_eq_true_eq]
        at published
      simp [published.2]
    next =>
      rfl
  pops other := by
    have heads :
        (state.setNext (state.link node).next cell).freeHead =
          state.freeHead := by
      rw [setNext_frame]
    by_cases same : other = shard
    · simp [State.pushFree, heads, same]
    · simp [State.pushFree, heads, same]
  tags := by
    intro slot home known
    have same : slot ≠ node := by
      rintro rfl
      simp at known
    simpa [State.pushFree, same] using
      setNext_tags state cell (state.link node).next slot
  ghost := rfl
  stage slot := by
    by_cases same : slot = node
    · exact .inr ⟨same ▸ expels.home, shard,
        same ▸ Ghost.freed_stage_self⟩
    · exact .inl (Ghost.freed_stage_of_ne same)

/-- The parts of the chain before and after the node are joined. -/
theorem chain
    (expels :
      Expellable config (state, ghost) bucket cell before node rest)
    (quiet : Quiet config (state, ghost))
    (shard : Nat) :
    (tableOf
      ((state.setNext (state.link node).next cell).pushFree shard node,
        ghost.freed node shard)).forest.Chain bucket
      (before ++ rest) := by
  rw [tableOf_pushFree,
    tableOf_setNext ghost node (expels.published quiet), ← expels.cellIs]
  refine (Forest.expel_chain expels.chained).transfer ?_ ?_
    fun _ => Iff.rfl
  · simp [SplitTable.rewrite, SplitTable.expel, Forest.setLink]
  · intro slot member
    have same : slot ≠ node := by
      rintro rfl
      have distinct := List.nodup_append'.mp expels.chained.noDuplicates
      rcases List.mem_append.mp member with early | late
      · exact distinct.2.2 early (by simp)
      · exact (List.nodup_cons.mp distinct.2.1).1 late
    simp [SplitTable.rewrite, SplitTable.expel, Forest.setLink, same]

end Expellable

end Expel

section Walk

variable {node : Slot} {bucket : Nat}

omit [DecidableEq K] in
/-- A node that stays on its chain stays as dead or alive as it was. -/
theorem Sweeps.stale_iff
    {goes : Stage T → Prop}
    {world after : State K T × Ghost T}
    (sweeps : Sweeps goes world after)
    (home : after.2.stage node = .chained bucket) :
    (tableOf after).Stale config.hash bucket node ↔
      (tableOf world).Stale config.hash bucket node := by
  have published : after.1.published = world.1.published :=
    funext sweeps.published
  simp only [SplitTable.Stale, SplitTable.Moved, tableOf, published,
    sweeps.value, (sweeps.tags home).1]

omit [DecidableEq K] in
/-- `is_dead` looks for the next child of the key. -/
theorem hasMoved_iff
    {key : K}
    (onPath : OnPath (config.hash key) bucket) :
    state.hasMoved config key bucket state.tableSize = true ↔
      (tableOf (state, ghost)).Moved config.hash key bucket := by
  simp only [State.hasMoved, Bool.and_eq_true, decide_eq_true_eq]
  constructor
  · rintro ⟨⟨moves, bound⟩, initialized⟩
    refine ⟨_, nextChild_next onPath ?_, ?_⟩
    · intro none
      exact moves (by simp [nextChild, none])
    · simp [tableOf, State.published, bound, initialized]
  · rintro ⟨child, next, published⟩
    have same := next.unique
      (nextChild_next onPath (movingBits_ne_zero next))
    subst same
    simp only [tableOf, State.published, Bool.and_eq_true,
      decide_eq_true_eq] at published
    exact ⟨⟨Nat.ne_of_gt next.lt, published.1⟩, published.2⟩

variable {sweep : Sweep K T}

/-- `is_dead` does not throw unless `Hash` does. -/
theorem isDead_none
    (quiet : Quiet config (sweep.state, ghost))
    (home : ghost.stage node = .chained bucket)
    {size : Nat}
    (threw : sweep.isDead config bucket size node = none) :
    sweep.hashes ≠ none := by
  have valued :=
    (quiet.nodes node).valued
      ((quiet.nodes node).appended.mp (by simp [home]))
  intro never
  unfold Sweep.isDead at threw
  split at threw
  · cases threw
  · rw [never] at threw
    cases value : sweep.state.value node with
    | none =>
        exact valued value
    | some key =>
        simp [value] at threw

/-- What `is_dead` says of a node of the chain. -/
theorem isDead_some
    (quiet : Quiet config (sweep.state, ghost))
    (home : ghost.stage node = .chained bucket)
    {dead : Bool}
    {hashed : Sweep K T}
    (outcome :
      sweep.isDead config bucket sweep.state.tableSize node =
        some (dead, hashed)) :
    (dead = true ↔
        (tableOf (sweep.state, ghost)).Stale config.hash bucket node) ∧
      hashed = { sweep with hashes := hashed.hashes } ∧
      (sweep.hashes = none → hashed.hashes = none) := by
  have inside :
      (tableOf (sweep.state, ghost)).forest.place node =
        .linked bucket := by
    simp [tableOf, home]
  obtain ⟨_, key, holds, onPath⟩ := quiet.table.within (.inl inside)
  have value : sweep.state.value node = some key := holds
  unfold Sweep.isDead at outcome
  split at outcome
  next mark =>
    simp only [Option.some.injEq, Prod.mk.injEq] at outcome
    obtain ⟨rfl, rfl⟩ := outcome
    exact ⟨by simp [SplitTable.Stale, tableOf, mark], rfl, id⟩
  next mark =>
    have moved :
        (tableOf (sweep.state, ghost)).Stale config.hash bucket node ↔
          (tableOf (sweep.state, ghost)).Moved config.hash key
            bucket := by
      have unmarked :
          (tableOf (sweep.state, ghost)).marked node ≠ true := mark
      simp [SplitTable.Stale, unmarked, holds]
    rw [value] at outcome
    split at outcome
    · cases outcome
    · rename_i absent _
      cases absent
    · rename_i found same _
      cases same
      simp only [Option.some.injEq, Prod.mk.injEq] at outcome
      obtain ⟨rfl, rfl⟩ := outcome
      refine ⟨?_, rfl, fun never => by simp [never]⟩
      rw [moved]
      exact hasMoved_iff onPath

end Walk

end ConcurrentCpp.HashSet
