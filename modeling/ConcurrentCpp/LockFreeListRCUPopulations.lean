import ConcurrentCpp.LockFreeListRCUHandles

namespace ConcurrentCpp.LockFreeListRCU

/-!
# Where every node is when no call is in progress

At rest no node is in a thread's hands, so every allocated node is on exactly
one of the chain, the retired list, the bag of a sealed slot and the free
list.  The destructor walks all four: it destroys every value that is still
constructed and deletes every node, and never does either twice.
-/

variable {A H T V : Type}

/-- The slots of the ring that are sealed. -/
def sealedSlots
    (kGenerations : Nat)
    (state : State A H T V) :
    List Nat :=
  (List.range kGenerations).filter fun slot =>
    (state.ring slot).state = .sealed

/-- Where every allocated node is. -/
structure Populations
    (kGenerations : Nat)
    (state : State A H T V)
    (chain retired bagged free : List A) : Prop where
  onChain : Path (view state).links (.root ()) chain
  onRetired : Listed state state.retiredHead retired
  inBags :
    ∃ bags : Nat → List A,
      (∀ slot, Listed state (state.ring slot).bag (bags slot)) ∧
        bagged = (sealedSlots kGenerations state).flatMap bags
  onFree : Listed state state.freeHead free
  /-- No node is in two places or twice in one. -/
  once : (chain ++ retired ++ bagged ++ free).Nodup
  /-- The allocated nodes are those that are somewhere. -/
  allocated :
    ∀ node,
      state.allocated node = true ↔
        node ∈ chain ++ retired ++ bagged ++ free
  marked :
    ∀ node ∈ retired ++ bagged, (state.next (.node node)).mark = true
  /-- A slot has a bag exactly if it is sealed. -/
  bag_iff :
    ∀ slot, slot < kGenerations →
      ((state.ring slot).bag ≠ none ↔ (state.ring slot).state = .sealed)
  /-- The storage of a node holds a value unless it is on the free list. -/
  constructed :
    ∀ node,
      state.value node ≠ none ↔ node ∈ chain ++ retired ++ bagged

section Rest

variable [DecidableEq T] {capacity : Nat}
variable {world : State A H T V × Ghost A T}

/-- A slot has a bag exactly if it is sealed. -/
theorem Invariant.bag_iff
    (inv : Invariant capacity world)
    {slot : Nat}
    (bound : slot < capacity) :
    (world.1.ring slot).bag ≠ none ↔
      (world.1.ring slot).state = .sealed := by
  by_cases used : ∃ generation,
      bottomOf world.2 ≤ generation ∧ generation ≤ world.2.ring.now ∧
        slot = generation % capacity
  · obtain ⟨generation, above, below, rfl⟩ := used
    rcases Nat.lt_or_eq_of_le below with closed | rfl
    · have facts := inv.blocks.closed above closed
      simp [facts.1, facts.2.2]
    · have facts := inv.blocks.current
      simp [facts.1, facts.2.2]
  · have facts := inv.blocks.empty bound fun generation above below same =>
      used ⟨generation, above, below, same⟩
    simp [facts.1, facts.2]

/-- At rest nobody holds the flag. -/
theorem Invariant.unheld_at_rest
    (inv : Invariant capacity world)
    (rest : world.1.uses = []) :
    world.2.holder = none := by
  cases holder : world.2.holder with
  | none =>
      rfl
  | some thread =>
      have use := inv.duties.holder holder
      rw [rest] at use
      cases use

/-- At rest the stage of a node says where it is. -/
theorem Invariant.settled
    (inv : Invariant capacity world)
    (rest : world.1.uses = [])
    (node : A) :
    world.2.stage node = .absent ∨ world.2.stage node = .chained ∨
      ∃ label, world.2.stage node = .listed label := by
  have unladen : (world.2.stage node).owner? = none := by
    cases owner : (world.2.stage node).owner? with
    | none =>
        rfl
    | some thread =>
        obtain ⟨handle, use⟩ := inv.duties.owner owner
        rw [rest] at use
        cases use
  have unheld : world.2.stage node ≠ .hand := by
    intro inHand
    have member := (inv.hand node).mpr inHand
    rw [(inv.idle (inv.unheld_at_rest rest)).1] at member
    cases member
  cases stage : world.2.stage node with
  | absent =>
      exact .inl rfl
  | chained =>
      exact .inr (.inl rfl)
  | listed label =>
      exact .inr (.inr ⟨label, rfl⟩)
  | hand =>
      exact (unheld stage).elim
  | owned thread popped =>
      simp [stage, Stage.owner?] at unladen
  | pending thread =>
      simp [stage, Stage.owner?] at unladen

/-- A bag with a node in it belongs to a sealed slot of the ring. -/
theorem Invariant.sealed_of_bagged
    (inv : Invariant capacity world)
    (working : world.2.freeing = false)
    {node : A}
    {slot : Nat}
    (bagged : world.2.stage node = .listed (.bag slot)) :
    slot ∈ sealedSlots capacity world.1 := by
  have ok := inv.nodes node
  simp only [NodeOk, bagged] at ok
  obtain ⟨generation, _, _, rfl, _⟩ := ok.2.2.2.2
  have positive : 0 < capacity := by
    have low := inv.blocks.bottom_le
    have high := inv.blocks.now_lt
    omega
  have bound := Nat.mod_lt generation positive
  obtain ⟨nodes, holds⟩ := inv.stacked (.bag (generation % capacity))
  have member : node ∈ nodes :=
    (holds.members node).mpr (Stage.label?_eq_some.mpr bagged)
  have bag : (world.1.ring (generation % capacity)).bag ≠ none := by
    intro empty
    have head := holds.path.head
    simp only [stacksOf, stackLinks, working, Bool.false_eq_true,
      false_and, if_false] at head
    rw [empty] at head
    rw [List.head?_eq_none_iff.mp head.symm] at member
    cases member
  simp only [sealedSlots, List.mem_filter, List.mem_range,
    decide_eq_true_eq]
  exact ⟨bound, (inv.bag_iff bound).mp bag⟩

/-- Where every node is at rest. -/
theorem Invariant.populations
    (inv : Invariant capacity world)
    (rest : world.1.uses = []) :
    ∃ chain retired bagged free,
      Populations capacity world.1 chain retired bagged free := by
  have working := (inv.idle (inv.unheld_at_rest rest)).2
  obtain ⟨chain, chained⟩ := inv.chain.wellFormed.chain ()
  choose lists holds using inv.stacked
  have onChain : ∀ node,
      node ∈ chain ↔ world.2.stage node = .chained := by
    intro node
    rw [chained.members]
    refine ⟨inv.chained_of_linked, fun stage => ?_⟩
    have ok := inv.nodes node
    simp only [NodeOk, stage] at ok
    exact ok.1
  have onList : ∀ label node,
      node ∈ lists label ↔ world.2.stage node = .listed label :=
    fun label node =>
      ((holds label).members node).trans Stage.label?_eq_some
  have inBags : ∀ node,
      node ∈ (sealedSlots capacity world.1).flatMap (lists <| .bag ·) ↔
        ∃ slot, world.2.stage node = .listed (.bag slot) := by
    intro node
    simp only [List.mem_flatMap, onList]
    constructor
    · rintro ⟨slot, _, stage⟩
      exact ⟨slot, stage⟩
    · rintro ⟨slot, stage⟩
      exact ⟨slot, inv.sealed_of_bagged working stage, stage⟩
  refine ⟨chain, lists .retired,
    (sealedSlots capacity world.1).flatMap (lists <| .bag ·), lists .free,
    { onChain := chained.path
      onRetired := (holds .retired).path.transfer rfl fun _ _ => rfl
      inBags := ⟨(lists <| .bag ·), fun slot => ?_, rfl⟩
      onFree := (holds .free).path.transfer rfl fun _ _ => rfl
      once := ?_
      allocated := fun node => ?_
      marked := fun node member => ?_
      bag_iff := fun slot bound => inv.bag_iff bound
      constructed := fun node => ?_ }⟩
  · refine (holds (.bag slot)).path.transfer ?_ fun _ _ => rfl
    simp [retireLinks, stacksOf, stackLinks, working]
  · have apart :
        (sealedSlots capacity world.1).Pairwise fun first second =>
          (lists (.bag first)).Disjoint (lists (.bag second)) := by
      refine (List.nodup_range.filter _).imp fun different node left right => ?_
      rw [onList] at left right
      rw [left] at right
      cases right
      exact different rfl
    simp only [List.nodup_append, List.nodup_flatMap]
    refine ⟨⟨⟨chained.noDuplicates, (holds .retired).noDuplicates, ?_⟩,
      ⟨fun slot _ => (holds (.bag slot)).noDuplicates, apart⟩, ?_⟩,
      (holds .free).noDuplicates, ?_⟩
    · rintro node left _ right rfl
      rw [onChain] at left
      rw [onList, left] at right
      cases right
    · rintro node left _ right rfl
      obtain ⟨slot, stage⟩ := (inBags node).mp right
      simp [onChain, onList, stage] at left
    · rintro node left _ right rfl
      rw [onList] at right
      simp [onChain, onList, inBags, right] at left
  · have ok := inv.nodes node
    simp only [List.mem_append, onChain, onList, inBags]
    rcases inv.settled rest node with stage | stage | ⟨label, stage⟩
    · simp only [NodeOk, stage] at ok
      simp [stage, ok.2.2]
    · simp only [NodeOk, stage] at ok
      simp [stage, ok.2.2]
    · cases label <;> simp only [NodeOk, stage] at ok <;>
        simp [stage, ok.2.2.1]
  · have ok := inv.nodes node
    rw [List.mem_append, onList, inBags] at member
    rcases member with stage | ⟨slot, stage⟩
    · simp only [NodeOk, stage] at ok
      exact ok.2.2.2
    · simp only [NodeOk, stage] at ok
      exact ok.2.2.2.1
  · have ok := inv.nodes node
    simp only [List.mem_append, onChain, onList, inBags]
    rcases inv.settled rest node with stage | stage | ⟨label, stage⟩
    · simp only [NodeOk, stage] at ok
      simp [stage, ok.2.1]
    · simp only [NodeOk, stage] at ok
      simp [stage, ok.2.1]
    · cases label <;> simp only [NodeOk, stage] at ok <;>
        simp [stage, ok.2.1]

end Rest

section Destructor

variable [DecidableEq A]

/-- Every construction is matched by a destruction or a value. -/
def Balanced (state : State A H T V) : Prop :=
  ∀ node,
    state.constructions node =
      state.destructions node + (state.value node).toList.length

/-- The destructor has destroyed these values and deleted these nodes. -/
structure Torn
    (destroyed deleted : List A)
    (state torn : State A H T V) : Prop where
  next : torn.next = state.next
  retireLink : torn.retireLink = state.retireLink
  retiredHead : torn.retiredHead = state.retiredHead
  freeHead : torn.freeHead = state.freeHead
  ring : torn.ring = state.ring
  allocated :
    ∀ node,
      torn.allocated node = true ↔
        state.allocated node = true ∧ node ∉ deleted
  value :
    ∀ node,
      torn.value node ≠ none ↔
        state.value node ≠ none ∧ node ∉ destroyed
  balanced : Balanced state → Balanced torn

omit [DecidableEq A] in
theorem Torn.refl
    (state : State A H T V) :
    Torn [] [] state state := by
  constructor <;> simp

omit [DecidableEq A] in
theorem Torn.trans
    {destroyed deleted moreDestroyed moreDeleted : List A}
    {state torn last : State A H T V}
    (first : Torn destroyed deleted state torn)
    (second : Torn moreDestroyed moreDeleted torn last) :
    Torn (destroyed ++ moreDestroyed) (deleted ++ moreDeleted)
      state last where
  next := second.next.trans first.next
  retireLink := second.retireLink.trans first.retireLink
  retiredHead := second.retiredHead.trans first.retiredHead
  freeHead := second.freeHead.trans first.freeHead
  ring := second.ring.trans first.ring
  allocated node := by
    rw [second.allocated, first.allocated, List.mem_append]
    tauto
  value node := by
    rw [second.value, first.value, List.mem_append]
    tauto
  balanced known := second.balanced (first.balanced known)

omit [DecidableEq A] in
/-- The destructor does not touch the lists that it walks. -/
theorem Torn.listed
    {destroyed deleted nodes : List A}
    {state torn : State A H T V}
    {head : Option A}
    (tears : Torn destroyed deleted state torn)
    (listed : Listed state head nodes) :
    Listed torn head nodes :=
  listed.transfer rfl fun node _ => congrFun tears.retireLink node

/-- A node that is allocated, and constructed if need be, is torn down. -/
theorem tearNode_torn
    {state : State A H T V}
    {destroy : Bool}
    {node : A}
    (allocated : state.allocated node = true)
    (constructed : destroy = true → state.value node ≠ none) :
    ∃ torn,
      state.tearNode destroy node = some torn ∧
        Torn (if destroy then [node] else []) [node] state torn := by
  have allowed :
      ¬ (state.allocated node = false ∨
        destroy = true ∧ state.value node = none) := by
    rintro (gone | ⟨destroys, raw⟩)
    · exact absurd (allocated.symm.trans gone) (by simp)
    · exact constructed destroys raw
  refine ⟨_, if_neg allowed, ?_⟩
  cases destroy with
  | false =>
      refine
        { next := rfl
          retireLink := rfl
          retiredHead := rfl
          freeHead := rfl
          ring := rfl
          allocated := fun other => ?_
          value := fun other => by simp
          balanced := id }
      by_cases same : other = node <;> simp [same]
  | true =>
      refine
        { next := rfl
          retireLink := rfl
          retiredHead := rfl
          freeHead := rfl
          ring := rfl
          allocated := fun other => ?_
          value := fun other => ?_
          balanced := fun known other => ?_ }
      · by_cases same : other = node <;> simp [State.destroyValue, same]
      · by_cases same : other = node <;> simp [State.destroyValue, same]
      · by_cases same : other = node
        · subst same
          obtain ⟨value, holds⟩ :=
            Option.ne_none_iff_exists'.mp (constructed rfl)
          simp [State.destroyValue, known other, holds]
        · simp [State.destroyValue, same, known other]

/-- What a loop of the destructor finds and what it may do there. -/
structure Ready
    (destroy : Bool)
    (nodes : List A)
    (fuel : Nat)
    (state : State A H T V) : Prop where
  noDuplicates : nodes.Nodup
  allocated : ∀ node ∈ nodes, state.allocated node = true
  constructed :
    destroy = true → ∀ node ∈ nodes, state.value node ≠ none
  enough : nodes.length ≤ fuel

omit [DecidableEq A] in
/-- A part of what may be torn down may be torn down. -/
theorem Ready.left
    {destroy : Bool}
    {nodes more : List A}
    {fuel : Nat}
    {state : State A H T V}
    (ready : Ready destroy (nodes ++ more) fuel state) :
    Ready destroy nodes fuel state where
  noDuplicates := (List.nodup_append.mp ready.noDuplicates).1
  allocated node member :=
    ready.allocated node (List.mem_append_left _ member)
  constructed destroys node member :=
    ready.constructed destroys node (List.mem_append_left _ member)
  enough := by
    have bound := ready.enough
    rw [List.length_append] at bound
    omega

omit [DecidableEq A] in
/-- What is left after a part was torn down may be torn down as well. -/
theorem Ready.right
    {destroy : Bool}
    {nodes more : List A}
    {fuel : Nat}
    {state torn : State A H T V}
    (ready : Ready destroy (nodes ++ more) fuel state)
    (tears : Torn nodes nodes state torn) :
    Ready destroy more fuel torn := by
  obtain ⟨_, distinct, apart⟩ := List.nodup_append.mp ready.noDuplicates
  have outside : ∀ node ∈ more, node ∉ nodes :=
    fun node member inside => apart node inside node member rfl
  refine
    { noDuplicates := distinct
      allocated := fun node member =>
        (tears.allocated node).mpr
          ⟨ready.allocated node (List.mem_append_right _ member),
            outside node member⟩
      constructed := fun destroys node member =>
        (tears.value node).mpr
          ⟨ready.constructed destroys node
            (List.mem_append_right _ member), outside node member⟩
      enough := ?_ }
  have bound := ready.enough
  rw [List.length_append] at bound
  omega

/-- A loop of the destructor tears down the nodes of its list. -/
theorem tearLoop_torn
    {link : State A H T V → A → Option A}
    (steady :
      ∀ {destroyed deleted state torn},
        Torn destroyed deleted state torn → link torn = link state)
    {destroy : Bool}
    {links : Links Unit A}
    {nodes : List A}
    {cell : Cell Unit A}
    (path : Path links cell nodes)
    {fuel : Nat}
    {state : State A H T V}
    (leads : ∀ node, links (.node node) = link state node)
    (ready : Ready destroy nodes fuel state) :
    ∃ torn,
      tearLoop link destroy fuel state (links cell) = some torn ∧
        Torn (if destroy then nodes else []) nodes state torn := by
  induction nodes generalizing cell fuel state with
  | nil =>
      refine ⟨state, ?_, by simpa using Torn.refl state⟩
      rw [show links cell = none from path]
      cases fuel <;> rfl
  | cons first rest inductionHypothesis =>
      obtain ⟨noDuplicates, allocated, constructed, enough⟩ := ready
      obtain ⟨outside, restDistinct⟩ := List.nodup_cons.mp noDuplicates
      obtain ⟨more, rfl⟩ : ∃ more, fuel = more + 1 :=
        ⟨fuel - 1, by simp at enough; omega⟩
      obtain ⟨torn, tears, isTorn⟩ :=
        tearNode_torn (allocated first (by simp)) fun destroys =>
          constructed destroys first (by simp)
      have other : ∀ node ∈ rest, node ∉ [first] := by
        intro node member same
        rw [List.mem_singleton.mp same] at member
        exact outside member
      have restReady : Ready destroy rest more torn :=
        { noDuplicates := restDistinct
          allocated := fun node member =>
            (isTorn.allocated node).mpr
              ⟨allocated node (List.mem_cons_of_mem _ member),
                other node member⟩
          constructed := fun destroys node member => by
            refine (isTorn.value node).mpr
              ⟨constructed destroys node (List.mem_cons_of_mem _ member),
                ?_⟩
            simpa [destroys] using other node member
          enough := by simpa using enough }
      obtain ⟨last, tearsRest, isLast⟩ := inductionHypothesis path.2
        (fun node => (leads node).trans
          (congrFun (steady isTorn) node).symm) restReady
      refine ⟨last, ?_, ?_⟩
      · rw [path.1]
        simp only [tearLoop, tears, Option.bind_some]
        rw [← leads first]
        exact tearsRest
      · have joined := isTorn.trans isLast
        cases destroy <;> simpa using joined

/-- The loop over the chain from the head. -/
theorem tearChain_torn
    {nodes : List A}
    {fuel : Nat}
    {state : State A H T V}
    (path : Path (view state).links (.root ()) nodes)
    (ready : Ready true nodes fuel state) :
    ∃ torn,
      tearChain fuel state = some torn ∧ Torn nodes nodes state torn :=
  tearLoop_torn (fun torn => by rw [torn.next]) path (fun _ => rfl) ready

/-- A loop over a list that is threaded through `retire_link`. -/
theorem tearList_torn
    {destroy : Bool}
    {nodes : List A}
    {fuel : Nat}
    {state : State A H T V}
    {head : Option A}
    (listed : Listed state head nodes)
    (ready : Ready destroy nodes fuel state) :
    ∃ torn,
      tearList destroy fuel state head = some torn ∧
        Torn (if destroy then nodes else []) nodes state torn :=
  tearLoop_torn (fun torn => by rw [torn.retireLink]) listed
    (fun _ => rfl) ready

/-- The loop over the ring tears down the bags of its sealed slots. -/
theorem tearBags_torn
    {slots : List Nat}
    {bags : Nat → List A}
    {fuel : Nat}
    {state : State A H T V}
    (listed : ∀ slot, Listed state (state.ring slot).bag (bags slot))
    (ready :
      Ready true
        ((slots.filter fun slot =>
          (state.ring slot).state = .sealed).flatMap bags)
        fuel state) :
    ∃ torn,
      slots.foldlM (tearBag fuel) state = some torn ∧
        Torn
          ((slots.filter fun slot =>
            (state.ring slot).state = .sealed).flatMap bags)
          ((slots.filter fun slot =>
            (state.ring slot).state = .sealed).flatMap bags)
          state torn := by
  induction slots generalizing state with
  | nil =>
      exact ⟨state, rfl, Torn.refl state⟩
  | cons slot slots inductionHypothesis =>
      by_cases isSealed : (state.ring slot).state = .sealed
      · simp only [List.filter_cons, isSealed, decide_true, if_true,
          List.flatMap_cons] at ready ⊢
        obtain ⟨torn, tears, isTorn⟩ :=
          tearList_torn (listed slot) ready.left
        have rest := ready.right isTorn
        rw [← isTorn.ring] at rest ⊢
        obtain ⟨last, tearsRest, isLast⟩ := inductionHypothesis
          (fun other => by
            rw [isTorn.ring]
            exact isTorn.listed (listed other)) rest
        refine ⟨last, ?_, isTorn.trans isLast⟩
        rw [List.foldlM_cons]
        simp only [tearBag, ne_eq, isSealed, not_true_eq_false, if_false,
          tears]
        exact tearsRest
      · simp only [List.filter_cons, isSealed, decide_false,
          Bool.false_eq_true, if_false] at ready ⊢
        obtain ⟨torn, tears, isTorn⟩ := inductionHypothesis listed ready
        refine ⟨torn, ?_, isTorn⟩
        rw [List.foldlM_cons]
        simp only [tearBag, ne_eq, isSealed, not_false_eq_true, if_true]
        exact tears

/-- The destructor leaves no value and no node. -/
theorem Populations.destructor_torn
    {kGenerations : Nat}
    {state : State A H T V}
    {chain retired bagged free : List A}
    (populations :
      Populations kGenerations state chain retired bagged free)
    {fuel : Nat}
    (enough : (chain ++ retired ++ bagged ++ free).length ≤ fuel) :
    ∃ torn,
      destructor kGenerations fuel state = some torn ∧
        Torn (chain ++ retired ++ bagged)
          (chain ++ retired ++ bagged ++ free) state torn := by
  have ready : Ready false (chain ++ retired ++ bagged ++ free) fuel state :=
    { noDuplicates := populations.once
      allocated := fun node => (populations.allocated node).mpr
      constructed := fun destroys => by cases destroys
      enough := enough }
  have constructed : Ready true (chain ++ retired ++ bagged) fuel state :=
    { ready.left with
      constructed := fun _ node => (populations.constructed node).mpr }
  obtain ⟨bags, listed, rfl⟩ := populations.inBags
  rw [List.append_assoc] at constructed
  obtain ⟨unchained, tearsChain, isUnchained⟩ :=
    tearChain_torn populations.onChain constructed.left
  have behind := constructed.right isUnchained
  obtain ⟨unretired, tearsRetired, isUnretired⟩ :=
    tearList_torn (isUnchained.listed populations.onRetired) behind.left
  have inBags := behind.right isUnretired
  have soFar := isUnchained.trans isUnretired
  have sameRing := soFar.ring
  rw [sealedSlots, ← sameRing] at inBags
  obtain ⟨unbagged, tearsBags, isUnbagged⟩ :=
    tearBags_torn
      (fun slot => by
        rw [sameRing]
        exact soFar.listed (listed slot)) inBags
  rw [sameRing] at isUnbagged
  have allBags := soFar.trans isUnbagged
  obtain ⟨torn, tearsFree, isTorn⟩ :=
    tearList_torn (allBags.listed populations.onFree)
      (ready.right allBags)
  refine ⟨torn, ?_, by
    simpa [sealedSlots] using allBags.trans isTorn⟩
  rw [destructor, tearsChain]
  simp only [Option.bind_eq_bind, Option.bind_some]
  rw [isUnchained.retiredHead, tearsRetired]
  simp only [Option.bind_some]
  rw [tearsBags]
  simp only [Option.bind_some]
  rw [allBags.freeHead, tearsFree]

end Destructor

variable [DecidableEq A] [DecidableEq H] [DecidableEq T]

/--
Whenever no call is in progress, every allocated node is in exactly one of
the four populations, and the destructor leaves nothing behind: it ends with
no node allocated and no value constructed, and every value that was ever
constructed in a node has been destroyed once.
-/
theorem populations_at_rest
    {kGenerations : Nat}
    (admitted : 2 ≤ kGenerations)
    (pool : Pool (State A H T V) (Choice A H V) T)
    (reached : (initialPool kGenerations).Reaches pool)
    (rest : pool.shared.uses = []) :
    ∃ chain retired bagged free,
      Populations kGenerations pool.shared chain retired bagged free ∧
        ∀ fuel,
          (chain ++ retired ++ bagged ++ free).length ≤ fuel →
          ∃ torn,
            destructor kGenerations fuel pool.shared = some torn ∧
              ∀ node,
                torn.allocated node = false ∧ torn.value node = none ∧
                  torn.constructions node = torn.destructions node := by
  obtain ⟨needed, runs⟩ := Covered.reaches reached
  obtain ⟨ghost, now, _⟩ := runs (covered (by omega) (0 + needed))
  have inv := now.1
  obtain ⟨chain, retired, bagged, free, populations⟩ :=
    inv.populations rest
  refine ⟨chain, retired, bagged, free, populations, fun fuel enough => ?_⟩
  obtain ⟨torn, tears, isTorn⟩ := populations.destructor_torn enough
  refine ⟨torn, tears, fun node => ?_⟩
  have raw : torn.value node = none := by
    by_contra constructed
    obtain ⟨before, outside⟩ := (isTorn.value node).mp constructed
    exact outside ((populations.constructed node).mp before)
  refine ⟨?_, raw, ?_⟩
  · by_contra allocated
    obtain ⟨before, outside⟩ :=
      (isTorn.allocated node).mp (Bool.eq_true_of_not_eq_false allocated)
    exact outside ((populations.allocated node).mp before)
  · have balanced := isTorn.balanced inv.records.counts node
    simpa [raw] using balanced

/-- Node 7 is in a bag and no call is in progress. -/
theorem populations_at_rest_bagged :
    ∃ pool : Pool (State Nat Nat Nat Nat) (Choice Nat Nat Nat) Nat,
      2 ≤ 2 ∧
        (initialPool 2).run
          (insertSeven ++ eraseFirst ++ sampleCall .reclaim 12) =
          some pool ∧
        pool.shared.uses = [] ∧
        (pool.shared.ring 0).bag = some 7 ∧
        ∃ chain retired bagged free,
          Populations 2 pool.shared chain retired bagged free := by
  obtain ⟨pool, bagged⟩ : ∃ pool,
      (initialPool 2 :
        Pool (State Nat Nat Nat Nat) (Choice Nat Nat Nat) Nat).run
          (insertSeven ++ eraseFirst ++ sampleCall .reclaim 12) =
        some pool :=
    ⟨_, rfl⟩
  have rest : pool.shared.uses = [] := by
    cases bagged
    rfl
  obtain ⟨chain, retired, inBags, free, populations, _⟩ :=
    populations_at_rest (Nat.le_refl 2) pool ⟨_, bagged⟩ rest
  refine ⟨pool, Nat.le_refl 2, bagged, rest, ?_, chain, retired, inBags,
    free, populations⟩
  cases bagged
  rfl

end ConcurrentCpp.LockFreeListRCU
