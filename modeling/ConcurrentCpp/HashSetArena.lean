import ConcurrentCpp.HashSetCounting

namespace ConcurrentCpp.HashSet

/-!
# Private nodes of the hash set

Allocation, stores into nodes that are not published and pushes onto the limbo
lists leave the table alone: they only move slots between the arena, the lists
and the hands of a thread, or write slots that only their owner can see.
-/

variable {K T : Type} [DecidableEq K] [DecidableEq T]

variable
  {config : Config K T}
  {state : State K T}
  {ghost : Ghost T}
  {thread : T}

/-- Write every word of a slot, which may be new. -/
def State.rewrite
    (state : State K T)
    (arena : Nat → Nat)
    (node : Slot)
    (next : Option Slot)
    (value : K) :
    State K T :=
  { state with
    arena := arena
    link := Function.update state.link node (.bare next)
    value := Function.update state.value node (some value) }

/-- Move slots to other stages. -/
def Ghost.restage
    (ghost : Ghost T)
    (stage : Slot → Stage T) :
    Ghost T :=
  { ghost with stage := stage }

/-- Change who owes a batch. -/
def Ghost.owing
    (ghost : Ghost T)
    (debtors : List T) :
    Ghost T :=
  { ghost with debtors := debtors }

/-- A thread takes a node, which may open a batch. -/
def Ghost.take
    (ghost : Ghost T)
    (thread : T)
    (node : Slot)
    (opens : Bool) :
    Ghost T :=
  (ghost.restage
    (Function.update ghost.stage node (.owned thread))).owing
      (ghost.charging thread opens)

/-- Append a slot to a shard. -/
def State.append
    (state : State K T)
    (shard : Nat)
    (next : Option Slot)
    (value : K) :
    State K T :=
  state.rewrite
    (Function.update state.arena shard (state.arena shard + 1))
    ⟨shard, state.arena shard⟩ next value

/-- Pop a free list and count the pop. -/
def State.pop
    (state : State K T)
    (shard : Nat)
    (successor : Option Slot) :
    State K T :=
  { state with
    freeHead :=
      Function.update state.freeHead shard
        ⟨successor, ((state.freeHead shard).pops + 1) % 512⟩
    log := .popped shard :: state.log }

section Rewrite

variable
  {arena : Nat → Nat}
  {node : Slot}
  {next : Option Slot}
  {value : K}
  {stage : Slot → Stage T}
  {debtors : List T}

omit [DecidableEq K] [DecidableEq T] in
/-- The table sees the rewriting of one node. -/
private theorem tableOf_rewrite
    (place : ∀ slot, (stage slot).place = (ghost.stage slot).place) :
    tableOf (state.rewrite arena node next value, ghost.restage stage) =
      (tableOf (state, ghost)).rewrite node next (some value)
        false false := by
  simp only [tableOf, SplitTable.rewrite, Forest.setLink, Ghost.restage,
    State.rewrite, place, SplitTable.mk.injEq, Forest.mk.injEq, and_true,
    true_and]
  refine ⟨?_, ?_, ?_, rfl, rfl⟩
  · funext cell
    cases cell with
    | root bucket =>
        simp [State.chainLinks, State.published]
    | node slot =>
        by_cases same : slot = node
        · simp [State.chainLinks, same, Link.bare]
        · simp [State.chainLinks, same]
  · funext slot
    by_cases same : slot = node
    · simp [same, Link.bare]
    · simp [same]
  · funext slot
    by_cases same : slot = node
    · simp [same, Link.bare]
    · simp [same]

omit [DecidableEq K] [DecidableEq T] in
/-- So do the lists. -/
private theorem stacksOf_rewrite
    (label : ∀ slot, (stage slot).label? = (ghost.stage slot).label?) :
    stacksOf (state.rewrite arena node next value, ghost.restage stage) =
      (stacksOf (state, ghost)).setLink node next := by
  simp only [stacksOf, Stacks.setLink, Ghost.restage, State.rewrite, label,
    Stacks.mk.injEq, and_true]
  funext cell
  cases cell with
  | root list =>
      cases list <;> simp [State.listLinks]
  | node slot =>
      by_cases same : slot = node
      · simp [State.listLinks, same, Link.bare]
      · simp [State.listLinks, same]

variable (arena next value debtors) in
/-- A thread writes a slot that it owns or has just appended. -/
theorem rewrite_keeps
    (inv : Invariant config (state, ghost))
    (within : thread ∈ state.inside)
    (before :
      ghost.stage node = .owned thread ∨ ghost.stage node = .absent)
    (owned : stage node = .owned thread)
    (others : ∀ {slot}, slot ≠ node → stage slot = ghost.stage slot)
    (appended :
      ∀ slot,
        slot.index < arena slot.shard ↔
          slot = node ∨ slot.index < state.arena slot.shard)
    (shard : node.shard < config.shards)
    (owing :
      ∀ {other},
        other ≠ thread → (other ∈ debtors ↔ other ∈ ghost.debtors))
    (counted :
      Counted config
        (state.rewrite arena node next value,
          (ghost.restage stage).owing debtors)) :
    Invariant config
        (state.rewrite arena node next value,
          (ghost.restage stage).owing debtors) ∧
      Steps config thread (state, ghost)
        (state.rewrite arena node next value,
          (ghost.restage stage).owing debtors) := by
  have off : (ghost.stage node).place = .off := by
    rcases before with known | known <;> simp [known, Stage.place]
  have unlisted : (ghost.stage node).label? = none := by
    rcases before with known | known <;> simp [known, Stage.label?]
  have place :
      ∀ slot, (stage slot).place = (ghost.stage slot).place := by
    intro slot
    by_cases same : slot = node
    · rw [same, off, owned]
      rfl
    · rw [others same]
  have label :
      ∀ slot, (stage slot).label? = (ghost.stage slot).label? := by
    intro slot
    by_cases same : slot = node
    · rw [same, unlisted, owned]
      rfl
    · rw [others same]
  refine ⟨?_, ?_⟩
  · refine
      { inv with
        table := ?_
        stacked := ?_
        nodes := ?_
        owner := ?_
        counted := counted }
    · change (tableOf (state.rewrite arena node next value,
        ghost.restage stage)).Sound _ _ _
      rw [tableOf_rewrite place]
      exact SplitTable.rewrite_sound inv.table off _ _ _ _
    · change (stacksOf (state.rewrite arena node next value,
        ghost.restage stage)).WellFormed
      rw [stacksOf_rewrite label]
      exact Stacks.setLink_wellFormed inv.stacked unlisted
    · intro slot
      have old := inv.nodes slot
      by_cases same : slot = node
      · subst same
        exact
          { appended := by
              simp [Ghost.restage, Ghost.owing, owned, State.Appended,
                State.rewrite, appended]
            shard := fun _ => shard
            valued := fun _ => by simp [State.rewrite]
            bare := fun _ => by simp [State.rewrite, Link.bare]
            label := fun known => by
              simp [Ghost.restage, Ghost.owing, owned] at known }
      · refine
          { appended := ?_
            shard := ?_
            valued := ?_
            bare := ?_
            label := ?_ }
        · simpa [Ghost.restage, Ghost.owing, others same, State.Appended,
            State.rewrite, appended, same] using old.appended
        · intro known
          refine old.shard ?_
          simpa [State.Appended, State.rewrite, appended, same] using known
        · intro known
          have was : state.Appended slot := by
            simpa [State.Appended, State.rewrite, appended, same]
              using known
          simpa [State.rewrite, same] using old.valued was
        · intro known
          simpa [State.rewrite, same] using
            old.bare
              (by simpa [Ghost.restage, Ghost.owing, others same] using known)
        · intro list known
          exact old.label
            (by simpa [Ghost.restage, Ghost.owing, others same] using known)
    · intro slot other known
      by_cases same : slot = node
      · subst same
        simp only [Ghost.restage, Ghost.owing, owned,
          Stage.owned.injEq] at known
        exact known ▸ within
      · exact inv.owner
          (by simpa [Ghost.restage, Ghost.owing, others same] using known)
  · refine
      { table := ?_
        inside := fun _ => Iff.rfl
        next := ?_
        owned := ?_
        owner := ?_
        free := ?_
        holder := fun _ => Iff.rfl
        locked := fun _ _ => ⟨rfl, fun _ _ => rfl⟩
        debtors := owing
        fresh := .of_same fun _ => rfl }
    · change SplitTable.Advances _ _ _
        (tableOf (state.rewrite arena node next value,
          ghost.restage stage))
      rw [tableOf_rewrite place]
      exact SplitTable.rewrite_advances inv.table off _ _ _ _
    · intro slot bucket chained
      have same : slot ≠ node := by
        rintro rfl
        rw [chained] at off
        cases off
      simp [State.rewrite, same]
    · intro slot other different known
      have same : slot ≠ node := by
        rintro rfl
        rcases before with mine | absent
        · rw [mine] at known
          exact different (Stage.owned.inj known).symm
        · rw [absent] at known
          cases known
      exact ⟨by simpa [Ghost.restage, Ghost.owing, others same] using known,
        by simp [State.rewrite, same], by simp [State.rewrite, same]⟩
    · intro slot other different known
      have same : slot ≠ node := by
        rintro rfl
        simp only [Ghost.restage, Ghost.owing, owned,
          Stage.owned.injEq] at known
        exact different known.symm
      simpa [Ghost.restage, Ghost.owing, others same] using known
    · intro slot list known
      have same : slot ≠ node := by
        rintro rfl
        simp [Ghost.restage, Ghost.owing, owned] at known
      exact ⟨by simpa [Ghost.restage, Ghost.owing, others same] using known,
        by simp [State.rewrite, same]⟩

end Rewrite

/-- The owner of a node stores into its link. -/
theorem storeLink_keeps
    (inv : Invariant config (state, ghost))
    {node : Slot}
    (owned : ghost.stage node = .owned thread)
    (next : Option Slot) :
    Invariant config
        ({ state with
            link := Function.update state.link node (.bare next) },
          ghost) ∧
      Steps config thread (state, ghost)
        ({ state with
            link := Function.update state.link node (.bare next) },
          ghost) := by
  have appended : state.Appended node :=
    (inv.nodes node).appended.mp (by simp [owned])
  obtain ⟨value, holds⟩ :=
    Option.ne_none_iff_exists'.mp ((inv.nodes node).valued appended)
  have keeps :=
    rewrite_keeps state.arena next value ghost.debtors inv
      (inv.owner owned) (.inl owned) owned (fun _ => rfl)
      (fun slot => ⟨.inr, fun known => known.elim
        (fun same => same ▸ appended) id⟩)
      ((inv.nodes node).shard appended) (fun _ => Iff.rfl)
      (inv.counted.same rfl rfl rfl rfl rfl rfl fun _ => rfl)
  have same :
      state.rewrite state.arena node next value =
        { state with
          link := Function.update state.link node (.bare next) } := by
    simp [State.rewrite, ← holds]
  rw [same] at keeps
  exact keeps

/-- The owner of a node assigns a value to it. -/
theorem assignValue_keeps
    (inv : Invariant config (state, ghost))
    {node : Slot}
    (owned : ghost.stage node = .owned thread)
    (value : K) :
    Invariant config
        ({ state with
            value := Function.update state.value node (some value) },
          ghost) ∧
      Steps config thread (state, ghost)
        ({ state with
            value := Function.update state.value node (some value) },
          ghost) := by
  have appended : state.Appended node :=
    (inv.nodes node).appended.mp (by simp [owned])
  obtain ⟨unmarked, unfrozen⟩ :=
    (inv.nodes node).bare (by simp [owned])
  have keeps :=
    rewrite_keeps state.arena (state.link node).next value ghost.debtors
      inv (inv.owner owned) (.inl owned) owned (fun _ => rfl)
      (fun slot => ⟨.inr, fun known => known.elim
        (fun same => same ▸ appended) id⟩)
      ((inv.nodes node).shard appended) (fun _ => Iff.rfl)
      (inv.counted.same rfl rfl rfl rfl rfl rfl fun _ => rfl)
  have bare : Link.bare (state.link node).next = state.link node := by
    cases word : state.link node with
    | mk next mark frozen =>
        simp only [word] at unmarked unfrozen
        simp [Link.bare, unmarked, unfrozen]
  have same :
      state.rewrite state.arena node (state.link node).next value =
        { state with
          value := Function.update state.value node (some value) } := by
    simp [State.rewrite, bare]
  rw [same] at keeps
  exact keeps

/-- A thread appends a slot to its shard. -/
theorem emplaceBack_keeps
    (inv : Invariant config (state, ghost))
    (within : thread ∈ state.inside)
    (solvent : thread ∉ ghost.debtors)
    {shard : Nat}
    (valid : shard < config.shards)
    (next : Option Slot)
    (value : K) :
    Invariant config
        (state.append shard next value,
          ghost.take thread ⟨shard, state.arena shard⟩
            (decide (state.arena shard % 256 = 0))) ∧
      Steps config thread (state, ghost)
        (state.append shard next value,
          ghost.take thread ⟨shard, state.arena shard⟩
            (decide (state.arena shard % 256 = 0))) := by
  have absent : ghost.stage ⟨shard, state.arena shard⟩ = .absent := by
    by_contra present
    have appended := (inv.nodes ⟨shard, state.arena shard⟩).appended.mp
      present
    exact Nat.lt_irrefl _ appended
  have appended :
      ∀ slot : Slot,
        slot.index <
            Function.update state.arena shard (state.arena shard + 1)
              slot.shard ↔
          slot = ⟨shard, state.arena shard⟩ ∨
            slot.index < state.arena slot.shard := by
    rintro ⟨home, index⟩
    by_cases same : home = shard
    · subst same
      simp only [Function.update_self, Slot.mk.injEq, true_and]
      omega
    · simp [same]
  refine rewrite_keeps _ next value _ inv within (.inr absent) (by simp)
    (fun different => by simp [different]) appended valid
    (fun different => mem_charging different) ?_
  have charges :
      (state.append shard next value).charge shard =
        state.charge shard +
          if state.arena shard % 256 = 0 then 256 else 0 :=
    charge_append (by simp [State.append, State.rewrite]) rfl
  have total :
      (state.append shard next value).charged config +
          state.charge shard =
        state.charged config +
          (state.append shard next value).charge shard :=
    charged_change valid fun other different => by
      simp [State.charge, State.append, State.rewrite, different]
  have free :
      freeSlots config
          (state.append shard next value,
            ghost.take thread ⟨shard, state.arena shard⟩
              (decide (state.arena shard % 256 = 0))) =
        freeSlots config (state, ghost) := by
    refine freeSlots_congr fun slot => ?_
    simp only [Spare, mem_arenaSlots, State.Appended, State.append,
      State.rewrite, appended, Ghost.take, Ghost.owing, Ghost.restage]
    by_cases same : slot = ⟨shard, state.arena shard⟩
    · subst same
      simp [absent, Stage.isFree]
    · simp [same]
  refine inv.counted.charge within solvent rfl rfl rfl rfl ?_ ?_
  · rw [← State.append, ← Ghost.take, free]
    simp only [decide_eq_true_eq]
    omega
  · exact inv.counted.popped

omit [DecidableEq K] [DecidableEq T] in
/-- The table does not see where a slot off its chains is. -/
private theorem tableOf_restage
    {freeHead : Nat → FreeHead}
    {limboHead : Nat → Option Slot}
    {nodeCount : Nat}
    {log : List ArenaEvent}
    {stage : Slot → Stage T}
    {debtors : List T}
    (place : ∀ slot, (stage slot).place = (ghost.stage slot).place) :
    tableOf
        ({ state with
            freeHead := freeHead
            limboHead := limboHead
            nodeCount := nodeCount
            log := log },
          (ghost.restage stage).owing debtors) =
      tableOf (state, ghost) := by
  simp only [tableOf, Ghost.restage, Ghost.owing, place, SplitTable.mk.injEq,
    Forest.mk.injEq, and_true, true_and]
  exact ⟨rfl, rfl, rfl⟩

/-- Slots off the chains change hands. -/
private theorem restage_keeps
    (inv : Invariant config (state, ghost))
    (within : thread ∈ state.inside)
    {freeHead : Nat → FreeHead}
    {limboHead : Nat → Option Slot}
    {nodeCount : Nat}
    {log : List ArenaEvent}
    (stage : Slot → Stage T)
    (debtors : List T)
    (place : ∀ slot, (stage slot).place = (ghost.stage slot).place)
    (present :
      ∀ slot, stage slot ≠ .absent ↔ ghost.stage slot ≠ .absent)
    (stacked :
      (stacksOf
        ({ state with
            freeHead := freeHead
            limboHead := limboHead
            nodeCount := nodeCount
            log := log },
          (ghost.restage stage).owing debtors)).WellFormed)
    (label :
      ∀ {slot list},
        stage slot = .listed list → list.shard < config.shards)
    (owned :
      ∀ {slot other},
        other ≠ thread →
        (stage slot = .owned other ↔ ghost.stage slot = .owned other))
    (free :
      ∀ {slot shard},
        stage slot = .listed (.free shard) →
        ghost.stage slot = .listed (.free shard))
    (owing :
      ∀ {other},
        other ≠ thread → (other ∈ debtors ↔ other ∈ ghost.debtors))
    (counted :
      Counted config
        ({ state with
            freeHead := freeHead
            limboHead := limboHead
            nodeCount := nodeCount
            log := log },
          (ghost.restage stage).owing debtors)) :
    Invariant config
        ({ state with
            freeHead := freeHead
            limboHead := limboHead
            nodeCount := nodeCount
            log := log },
          (ghost.restage stage).owing debtors) ∧
      Steps config thread (state, ghost)
        ({ state with
            freeHead := freeHead
            limboHead := limboHead
            nodeCount := nodeCount
            log := log },
          (ghost.restage stage).owing debtors) := by
  have chained :
      ∀ slot,
        (∀ bucket, stage slot ≠ .chained bucket) ↔
          ∀ bucket, ghost.stage slot ≠ .chained bucket := by
    intro slot
    rw [← Stage.place_eq_off, ← Stage.place_eq_off, place]
  refine ⟨?_, ?_⟩
  · refine
      { inv with
        table := ?_
        stacked := stacked
        nodes := ?_
        owner := ?_
        counted := counted }
    · rw [tableOf_restage place]
      exact inv.table
    · intro slot
      have old := inv.nodes slot
      exact
        { appended := (present slot).trans old.appended
          shard := old.shard
          valued := old.valued
          bare := fun known => old.bare ((chained slot).mp known)
          label := label }
    · intro slot other known
      by_cases same : other = thread
      · exact same ▸ within
      · exact inv.owner ((owned same).mp known)
  · refine
      { table := ?_
        inside := fun _ => Iff.rfl
        next := fun _ => rfl
        owned := fun different known =>
          ⟨(owned different).mpr known, rfl, rfl⟩
        owner := fun different => (owned different).mp
        free := fun known => ⟨free known, rfl⟩
        holder := fun _ => Iff.rfl
        locked := fun _ _ => ⟨rfl, fun _ _ => rfl⟩
        debtors := owing
        fresh := .of_same fun _ => rfl }
    rw [tableOf_restage place]
    exact SplitTable.Advances.refl _ _ _

/-- A thread counts the batch that it owes. -/
theorem countBatch_keeps
    (inv : Invariant config (state, ghost))
    (owes : thread ∈ ghost.debtors) :
    Invariant config
        ({ state with nodeCount := state.nodeCount + 256 },
          ghost.owing (ghost.debtors.erase thread)) ∧
      Steps config thread (state, ghost)
        ({ state with nodeCount := state.nodeCount + 256 },
          ghost.owing (ghost.debtors.erase thread)) :=
  restage_keeps inv (inv.counted.debtors owes) _ _ (fun _ => rfl)
    (fun _ => Iff.rfl) inv.stacked
    (fun known => (inv.nodes _).label known) (fun _ => Iff.rfl) id
    (fun different => List.mem_erase_of_ne different)
    (inv.counted.pay owes)

/-- A thread pops the top of a free list. -/
theorem casFree_keeps
    (inv : Invariant config (state, ghost))
    (within : thread ∈ state.inside)
    (solvent : thread ∉ ghost.debtors)
    {shard : Nat}
    (valid : shard < config.shards)
    {node : Slot}
    (top : (state.freeHead shard).top = some node) :
    Invariant config
        (state.pop shard (state.link node).next,
          ghost.take thread node
            (decide ((state.freeHead shard).pops % 256 = 0))) ∧
      Steps config thread (state, ghost)
        (state.pop shard (state.link node).next,
          ghost.take thread node
            (decide ((state.freeHead shard).pops % 256 = 0))) := by
  have leads :
      (stacksOf (state, ghost)).links (.root (.free shard)) =
        some node :=
    top
  have listed : ghost.stage node = .listed (.free shard) := by
    obtain ⟨items, holds⟩ := inv.stacked (.free shard)
    simpa [stacksOf] using holds.top_listed leads
  have stage :
      ∀ slot,
        Function.update ghost.stage node (.owned thread) slot =
          if slot = node then .owned thread else ghost.stage slot := by
    intro slot
    simp [Function.update_apply]
  refine restage_keeps inv within _ _ ?_ ?_ ?_ ?_ ?_ ?_
    (fun different => mem_charging different) ?_
  · intro slot
    by_cases same : slot = node
    · simp [same, listed, Stage.place]
    · simp [same]
  · intro slot
    by_cases same : slot = node
    · simp [same, listed]
    · simp [same]
  · have popped := Stacks.pop_wellFormed inv.stacked leads
    have same :
        stacksOf
            (state.pop shard (state.link node).next,
              ghost.take thread node
                (decide ((state.freeHead shard).pops % 256 = 0))) =
          (stacksOf (state, ghost)).pop (.free shard) node := by
      simp only [stacksOf, Stacks.pop, Ghost.take, Ghost.restage,
        Ghost.owing, State.pop, Stacks.mk.injEq]
      refine ⟨?_, ?_⟩
      · funext cell
        cases cell with
        | root list =>
            cases list with
            | free other =>
                by_cases here : other = shard
                · simp [State.listLinks, here]
                · simp [State.listLinks, here]
            | limbo other =>
                simp [State.listLinks]
        | node slot =>
            simp [State.listLinks]
      · funext slot
        by_cases here : slot = node
        · simp [here, Stage.label?]
        · simp [here]
    rw [← same] at popped
    exact popped
  · intro slot list known
    rw [stage] at known
    split at known
    · cases known
    · exact (inv.nodes slot).label known
  · intro slot other different
    rw [stage]
    by_cases same : slot = node
    · simp [same, listed, Ne.symm different]
    · simp [same]
  · intro slot list known
    rw [stage] at known
    split at known
    · cases known
    · exact known
  · have charges :
        (state.pop shard (state.link node).next).charge shard + 1 =
          state.charge shard +
            if (state.freeHead shard).pops % 256 = 0 then 256 else 0 :=
      charge_pop rfl (by simp [State.pop])
    have total :
        (state.pop shard (state.link node).next).charged config +
            state.charge shard =
          state.charged config +
            (state.pop shard (state.link node).next).charge shard :=
      charged_change valid fun other different => by
        simp [State.charge, State.pop, different]
    have appended : state.Appended node :=
      (inv.nodes node).appended.mp (by simp [listed])
    have spare : Spare config (state, ghost) node :=
      ⟨mem_arenaSlots.mpr ⟨(inv.nodes node).shard appended, appended⟩,
        by simp [listed, Stage.isFree]⟩
    have free :
        freeSlots config
            (state.pop shard (state.link node).next,
              ghost.take thread node
                (decide ((state.freeHead shard).pops % 256 = 0))) + 1 =
          freeSlots config (state, ghost) := by
      refine freeSlots_take spare fun slot => ?_
      simp only [Spare, State.arenaSlots, State.pop, Ghost.take,
        Ghost.owing, Ghost.restage, stage]
      by_cases same : slot = node
      · simp [same, Stage.isFree]
      · simp [same]
    refine inv.counted.charge within solvent rfl rfl rfl rfl ?_ ?_
    · rw [← State.pop, ← Ghost.take]
      simp only [decide_eq_true_eq]
      omega
    · intro other known
      by_cases same : other = shard
      · subst same
        exact ⟨valid, List.mem_cons_self⟩
      · have before := inv.counted.popped (by simpa [same] using known)
        exact ⟨before.1, List.mem_cons_of_mem _ before.2⟩

/-- A thread pushes a private run onto a limbo list. -/
theorem casLimbo_keeps
    (inv : Invariant config (state, ghost))
    (within : thread ∈ state.inside)
    {shard : Nat}
    (valid : shard < config.shards)
    {first : Slot}
    {rest : List Slot}
    (owned : ∀ node ∈ first :: rest, ghost.stage node = .owned thread)
    (noDuplicates : (first :: rest).Nodup)
    (run : Run state.listLinks first rest (state.limboHead shard)) :
    Invariant config
        ({ state with
            limboHead :=
              Function.update state.limboHead shard (some first) },
          ghost.restage fun node =>
            if node ∈ first :: rest then
              .listed (.limbo shard)
            else
              ghost.stage node) ∧
      Steps config thread (state, ghost)
        ({ state with
            limboHead :=
              Function.update state.limboHead shard (some first) },
          ghost.restage fun node =>
            if node ∈ first :: rest then
              .listed (.limbo shard)
            else
              ghost.stage node) := by
  have spliceable :
      (stacksOf (state, ghost)).Spliceable (.limbo shard) first rest :=
    { run := run
      noDuplicates := noDuplicates
      unlisted := fun node member => by
        simp [stacksOf, owned node member, Stage.label?] }
  refine restage_keeps inv within
    (fun node =>
      if node ∈ first :: rest then
        .listed (.limbo shard)
      else
        ghost.stage node)
    ghost.debtors ?_ ?_ ?_ ?_ ?_ ?_ (fun _ => Iff.rfl) ?_
  · intro slot
    by_cases member : slot ∈ first :: rest
    · simp only [member, ↓reduceIte, owned slot member, Stage.place]
    · simp only [member, ↓reduceIte]
  · intro slot
    by_cases member : slot ∈ first :: rest
    · simp [member, owned slot member]
    · simp only [member, ↓reduceIte]
  · have spliced := Stacks.splice_wellFormed inv.stacked spliceable
    have same :
        stacksOf
            ({ state with
                limboHead :=
                  Function.update state.limboHead shard (some first) },
              ghost.restage fun node =>
                if node ∈ first :: rest then
                  .listed (.limbo shard)
                else
                  ghost.stage node) =
          (stacksOf (state, ghost)).splice (.limbo shard) first rest := by
      simp only [stacksOf, Stacks.splice, Ghost.restage, Stacks.mk.injEq]
      refine ⟨?_, ?_⟩
      · funext cell
        cases cell with
        | root list =>
            cases list with
            | free other =>
                simp [State.listLinks]
            | limbo other =>
                by_cases here : other = shard
                · simp [State.listLinks, here]
                · simp [State.listLinks, here]
        | node slot =>
            simp [State.listLinks]
      · funext slot
        by_cases member : slot ∈ first :: rest
        · simp only [member, ↓reduceIte, Stage.label?]
        · simp only [member, ↓reduceIte]
    rw [← same] at spliced
    exact spliced
  · intro slot list known
    by_cases member : slot ∈ first :: rest
    · simp only [member, ↓reduceIte, Stage.listed.injEq] at known
      exact known ▸ valid
    · simp only [member, ↓reduceIte] at known
      exact (inv.nodes slot).label known
  · intro slot other different
    by_cases member : slot ∈ first :: rest
    · simp [member, owned slot member, Ne.symm different]
    · simp only [member, ↓reduceIte]
  · intro slot list known
    by_cases member : slot ∈ first :: rest
    · simp [member] at known
    · simpa only [member, ↓reduceIte] using known
  · refine inv.counted.same rfl rfl rfl rfl rfl rfl fun slot => ?_
    by_cases member : slot ∈ first :: rest
    · simp only [Ghost.owing, Ghost.restage, member, ↓reduceIte,
        owned slot member, Stage.isFree]
    · simp only [Ghost.owing, Ghost.restage, member, ↓reduceIte]

end ConcurrentCpp.HashSet
