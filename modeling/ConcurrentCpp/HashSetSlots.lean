import ConcurrentCpp.HashSetAccounting
import ConcurrentCpp.HashSetMembership

namespace ConcurrentCpp.HashSet

/-!
# Where the slots are

When no call is in progress, every slot of the arena is on the chain of a
published bucket, on a free list or on a limbo list, in exactly one place.
The accounting sweep finds this in the words of the set, however the nodes
were placed in memory.
-/

variable {K T : Type} [DecidableEq K] [DecidableEq T]

section Encoding

variable (address : Slot → Word)

/-- The word of a node or `EMPTY`. -/
def addressWord : Option Slot → Word
  | some slot => address slot
  | none => emptyWord

/-- The LINK word: an address, `MARK_BIT` and `FROZEN_BIT`. -/
def linkWord (link : Link) : Word :=
  addressWord address link.next |||
    (if link.mark then 1 else 0) ||| (if link.frozen then 2 else 0)

/-- The address field of a HEAD word. -/
def headAddress : Address → Word
  | .empty => emptyWord
  | .uninitialized => uninitializedWord
  | .node slot => address slot

/-- The HEAD word: an address and the seal level in bits 63..58. -/
def headWord (head : Head) : Word :=
  (BitVec.ofNat 64 head.level <<< 58) ||| headAddress address head.address

/-- `free_word()`: an address and the pop counter in bits 63..55. -/
def freeWord (head : FreeHead) : Word :=
  (addressWord address head.top >>> 3) |||
    (BitVec.ofNat 64 head.pops <<< 55)

/-- The words of a state, with its nodes at these addresses. -/
structure Represents
    (config : Config K T)
    (state : State K T)
    (memory : Memory) : Prop where
  shards : memory.shards = config.shards
  nodes :
    ∀ shard < config.shards,
      memory.nodes shard =
        (List.range (state.arena shard)).map fun index =>
          address ⟨shard, index⟩
  tableSize : memory.tableSize = state.tableSize
  buckets :
    ∀ bucket < state.tableSize,
      memory.buckets bucket = headWord address (state.buckets bucket)
  link :
    ∀ slot ∈ state.arenaSlots config,
      memory.link (address slot) = linkWord address (state.link slot)
  freeHead :
    ∀ shard < config.shards,
      memory.freeHead shard = freeWord address (state.freeHead shard)
  limboHead :
    ∀ shard < config.shards,
      memory.limboHead shard = addressWord address (state.limboHead shard)

end Encoding

section Bits

/-- The address field of a word with more bits set. -/
theorem addrOf_or
    (first second : Word) :
    addrOf (first ||| second) = addrOf first ||| addrOf second :=
  BitVec.and_or_distrib_right

/-- The bits of a level are outside of the address field. -/
theorem addrOf_level
    (level : Word) :
    addrOf (level <<< 58) = 0 := by
  have high : ∀ index < 64, 58 ≤ index → ptrMask.getLsbD index = false := by
    decide
  apply BitVec.eq_of_getLsbD_eq
  intro index within
  rw [addrOf, BitVec.getLsbD_and, BitVec.getLsbD_shiftLeft]
  by_cases above : 58 ≤ index
  · simp [high index within above]
  · simp [Nat.lt_of_not_le above]

/-- A free-list head is decoded to the address that it encodes. -/
theorem freeAddrOf_encoded
    (node pops : Word)
    (clean : node &&& ~~~ptrMask = 0) :
    freeAddrOf ((node >>> 3) ||| (pops <<< 55)) = node := by
  have outside :
      ∀ index < 64, index < 3 ∨ 58 ≤ index →
        ptrMask.getLsbD index = false := by
    decide
  have clear :
      ∀ index < 64, index < 3 ∨ 58 ≤ index →
        node.getLsbD index = false := by
    intro index within apart
    have bit : (node &&& ~~~ptrMask).getLsbD index = false := by
      rw [clean]
      exact BitVec.getLsbD_zero
    rw [BitVec.getLsbD_and, BitVec.getLsbD_not,
      outside index within apart] at bit
    simpa [within] using bit
  apply BitVec.eq_of_getLsbD_eq
  intro index within
  simp only [freeAddrOf, BitVec.getLsbD_ushiftRight,
    BitVec.getLsbD_shiftLeft, BitVec.getLsbD_or]
  by_cases inside : 3 ≤ index ∧ index < 58
  · rw [show 3 + (6 + index - 9) = index by omega]
    have fits : 6 + index < 64 := by omega
    have shifted : ¬ 6 + index < 9 := by omega
    have below : 6 + index - 9 < 55 := by omega
    simp [fits, shifted, below]
  · rw [clear index within (by omega)]
    by_cases high : 6 + index < 64
    · have low : 6 + index < 9 := by omega
      simp [low]
    · simp [high]

end Bits

section Represented

variable
  {config : Config K T}
  {state : State K T}
  {memory : Memory}
  {address : Slot → Word}
  (represents : Represents address config state memory)

include represents

omit [DecidableEq K] [DecidableEq T]

/-- The slots of the memory are the addresses of the slots of the arena. -/
theorem Represents.slots :
    memory.slots = (state.arenaSlots config).map address := by
  unfold Memory.slots State.arenaSlots
  rw [represents.shards, List.map_flatMap]
  refine List.flatMap_congr fun shard within => ?_
  rw [represents.nodes shard (List.mem_range.1 within), List.map_map]
  rfl

/-- Two slots are at two addresses. -/
theorem Represents.injective
    {first second : Slot}
    (isFirst : first ∈ state.arenaSlots config)
    (isSecond : second ∈ state.arenaSlots config)
    (same : address first = address second) :
    first = second := by
  have distinct := memory.distinct
  rw [show (List.range memory.shards).flatMap memory.nodes = _
    from represents.slots] at distinct
  exact List.inj_on_of_nodup_map distinct isFirst isSecond same

/-- What is known of the address of a slot. -/
theorem Represents.fits
    {slot : Slot}
    (isSlot : slot ∈ state.arenaSlots config) :
    address slot &&& ~~~ptrMask = 0 ∧
      address slot ≠ uninitializedWord ∧ address slot ≠ emptyWord := by
  have member : address slot ∈ memory.slots := by
    rw [represents.slots]
    exact List.mem_map_of_mem isSlot
  obtain ⟨shard, within, member⟩ := List.mem_flatMap.1 member
  exact memory.fits shard (List.mem_range.1 within) _ member

/-- The address field of a slot or of `EMPTY` is the word itself. -/
theorem Represents.addrOf_address
    {next : Option Slot}
    (known : ∀ slot ∈ next, slot ∈ state.arenaSlots config) :
    addrOf (addressWord address next) = addressWord address next := by
  cases next with
  | none =>
      exact BitVec.zero_and
  | some slot =>
      have member : address slot ∈ memory.slots := by
        rw [represents.slots]
        exact List.mem_map_of_mem (known slot rfl)
      exact Memory.addrOf_slot member

/-- The address field of a link word. -/
theorem Represents.addrOf_link
    {link : Link}
    (known : ∀ slot ∈ link.next, slot ∈ state.arenaSlots config) :
    addrOf (linkWord address link) = addressWord address link.next := by
  unfold linkWord
  rw [addrOf_or, addrOf_or, represents.addrOf_address known]
  cases link.mark <;> cases link.frozen <;> simp [addrOf, ptrMask]

/-- What a walk reads from the word of an address. -/
theorem Represents.target_address
    (root : Root)
    {word : Word}
    {next : Option Slot}
    (known : ∀ slot ∈ next, slot ∈ state.arenaSlots config)
    (reads : root.compared word = addressWord address next) :
    root.target word = next.map address := by
  unfold Root.target
  rw [reads]
  cases next with
  | none =>
      exact if_pos rfl
  | some slot =>
      exact if_neg (represents.fits (known slot rfl)).2.2

end Represented

section Stages

variable
  {config : Config K T}
  {state : State K T}
  {ghost : Ghost T}
  {memory : Memory}
  {address : Slot → Word}

/-- The stage of the slots that the walk from a root meets. -/
def Root.stage : Root → Stage T
  | .chain bucket => .chained bucket
  | .free shard => .listed (.free shard)
  | .limbo shard => .listed (.limbo shard)

/-- The slots that the walk from a root meets, in order. -/
structure RootNodes
    (memory : Memory)
    (address : Slot → Word)
    (ghost : Ghost T)
    (root : Root)
    (nodes : List Slot) : Prop where
  meets :
    ∀ count,
      ConcurrentCpp.meets memory.next memory.start root count =
        (nodes.map address)[count]?
  distinct : nodes.Nodup
  members : ∀ node, node ∈ nodes ↔ ghost.stage node = root.stage

/-- The walk along the words of a path of slots of one stage. -/
theorem RootNodes.of_path
    (inv : Invariant config (state, ghost))
    (represents : Represents address config state memory)
    {L : Type}
    {links : Links L Slot}
    {cell : Cell L Slot}
    {root : Root}
    {nodes : List Slot}
    (path : Path links cell nodes)
    (distinct : nodes.Nodup)
    (members : ∀ node, node ∈ nodes ↔ ghost.stage node = root.stage)
    (next : ∀ node, links (.node node) = (state.link node).next)
    (reads :
      ∀ node ∈ nodes,
        (∀ slot ∈ (state.link node).next,
            slot ∈ state.arenaSlots config) →
        root.compared (linkWord address (state.link node)) =
          addressWord address (state.link node).next)
    (head :
      (∀ slot ∈ links cell, slot ∈ state.arenaSlots config) →
      root.compared (memory.head root) =
        addressWord address (links cell)) :
    RootNodes memory address ghost root nodes := by
  have known : ∀ node ∈ nodes, node ∈ state.arenaSlots config := by
    intro node member
    apply inv.quiet.mem_slots
    rw [(members node).mp member]
    cases root <;> simp [Root.stage]
  have headKnown : ∀ slot ∈ links cell, slot ∈ state.arenaSlots config := by
    intro slot isHead
    rw [path.head] at isHead
    exact known slot (List.mem_of_mem_head? isHead)
  refine ⟨fun count => ?_, distinct, members⟩
  have start : memory.start root = (links cell).map address :=
    represents.target_address root headKnown (head headKnown)
  unfold ConcurrentCpp.meets
  rw [start]
  refine met_path path address (fun node member => ?_) count
  have nextKnown :
      ∀ slot ∈ (state.link node).next, slot ∈ state.arenaSlots config := by
    intro slot isNext
    rw [← next node] at isNext
    exact known slot (path.next_mem member isNext)
  rw [next node]
  unfold Memory.next
  rw [represents.link node (known node member)]
  exact represents.target_address root nextKnown
    (reads node member nextKnown)

/-- The head of a published bucket names a slot of the arena or none. -/
theorem Invariant.head_known
    (inv : Invariant config (state, ghost))
    {bucket : Nat}
    (published : state.published bucket = true)
    {slot : Slot}
    (isHead : (state.buckets bucket).address = .node slot) :
    slot ∈ state.arenaSlots config := by
  obtain ⟨nodes, chained⟩ := inv.table.forest.chain bucket
  have leads : state.chainLinks (.root bucket) = some slot := by
    simp [State.chainLinks, published, isHead, Address.first]
  have path : Path state.chainLinks (.root bucket) nodes := chained.path
  rw [path.head] at leads
  have linked := (chained.members slot).mp (List.mem_of_mem_head? leads)
  have home : ghost.stage slot = .chained bucket := by
    simpa [tableOf] using linked
  exact inv.quiet.mem_slots (by simp [home])

/-- The address field of the head of a bucket of the table. -/
theorem Invariant.addrOf_head
    (inv : Invariant config (state, ghost))
    (represents : Represents address config state memory)
    {bucket : Nat}
    (within : bucket < state.tableSize) :
    addrOf (memory.buckets bucket) =
      headAddress address (state.buckets bucket).address := by
  rw [represents.buckets bucket within, headWord, addrOf_or, addrOf_level]
  refine BitVec.zero_or.trans ?_
  cases shape : (state.buckets bucket).address with
  | empty =>
      exact BitVec.zero_and
  | uninitialized =>
      rw [headAddress]
      decide
  | node slot =>
      have published : state.published bucket = true := by
        simp [State.published, within, shape]
      have known : ∀ other ∈ some slot, other ∈ state.arenaSlots config := by
        intro other same
        cases same
        exact inv.head_known published shape
      exact represents.addrOf_address known

/-- The sweep and the table agree on which buckets are published. -/
theorem Invariant.published_iff
    (inv : Invariant config (state, ghost))
    (represents : Represents address config state memory)
    {bucket : Nat}
    (within : bucket < state.tableSize) :
    memory.Published bucket ↔ state.published bucket = true := by
  unfold Memory.Published
  rw [inv.addrOf_head represents within]
  cases shape : (state.buckets bucket).address with
  | empty =>
      simp [State.published, within, shape, headAddress, emptyWord,
        uninitializedWord]
  | uninitialized =>
      simp [State.published, shape, headAddress]
  | node slot =>
      have published : state.published bucket = true := by
        simp [State.published, within, shape]
      have apart :=
        (represents.fits (inv.head_known published shape)).2.1
      simp [published, headAddress, apart]

/-- The walk along the chain of a published bucket. -/
theorem Invariant.chain_nodes
    (inv : Invariant config (state, ghost))
    (represents : Represents address config state memory)
    {bucket : Nat}
    (within : bucket < state.tableSize)
    (published : state.published bucket = true) :
    ∃ nodes, RootNodes memory address ghost (.chain bucket) nodes := by
  obtain ⟨nodes, chained⟩ := inv.table.forest.chain bucket
  have path : Path state.chainLinks (.root bucket) nodes := chained.path
  refine ⟨nodes, .of_path inv represents path chained.noDuplicates ?_
    (fun _ => rfl) (fun _ _ => represents.addrOf_link) (fun _ => ?_)⟩
  · intro node
    simpa [tableOf, Root.stage] using chained.members node
  · refine (inv.addrOf_head represents within).trans ?_
    have initialized :
        (state.buckets bucket).address ≠ .uninitialized := by
      intro hidden
      simp [State.published, hidden] at published
    simp only [State.chainLinks, published, if_true]
    cases shape : (state.buckets bucket).address with
    | empty =>
        rfl
    | uninitialized =>
        exact absurd shape initialized
    | node slot =>
        rfl

/-- The walk along a free or a limbo list. -/
theorem Invariant.list_nodes
    (inv : Invariant config (state, ghost))
    (represents : Represents address config state memory)
    {shard : Nat}
    (within : shard < config.shards) :
    (∃ nodes, RootNodes memory address ghost (.free shard) nodes) ∧
      ∃ nodes, RootNodes memory address ghost (.limbo shard) nodes := by
  constructor
  · obtain ⟨nodes, holds⟩ := inv.stacked (.free shard)
    have path : Path state.listLinks (.root (.free shard)) nodes :=
      holds.path
    have members :
        ∀ node, node ∈ nodes ↔ ghost.stage node = .listed (.free shard) := by
      intro node
      simpa [stacksOf] using holds.members node
    refine ⟨nodes, .of_path inv represents path holds.noDuplicates members
      (fun _ => rfl) (fun node member _ => ?_) (fun known => ?_)⟩
    · have bare :
          (state.link node).mark = false ∧
            (state.link node).frozen = false :=
        (inv.nodes node).bare (by simp [(members node).mp member])
      simp [Root.compared, linkWord, bare.1, bare.2]
    · refine (congrArg freeAddrOf (represents.freeHead shard within)).trans
        (freeAddrOf_encoded _ _ ?_)
      cases top : (state.freeHead shard).top with
      | none =>
          exact BitVec.zero_and
      | some slot =>
          exact (represents.fits (known slot top)).1
  · obtain ⟨nodes, holds⟩ := inv.stacked (.limbo shard)
    have path : Path state.listLinks (.root (.limbo shard)) nodes :=
      holds.path
    refine ⟨nodes, .of_path inv represents path holds.noDuplicates ?_
      (fun _ => rfl) (fun _ _ => represents.addrOf_link) (fun known => ?_)⟩
    · intro node
      simpa [stacksOf, Root.stage] using holds.members node
    · refine (congrArg addrOf (represents.limboHead shard within)).trans ?_
      exact represents.addrOf_address known

/-- Every walk meets exactly the slots of one stage. -/
theorem Invariant.rootNodes
    (inv : Invariant config (state, ghost))
    (represents : Represents address config state memory)
    {root : Root}
    (isRoot : root ∈ memory.roots) :
    ∃ nodes, RootNodes memory address ghost root nodes := by
  rcases List.mem_append.1 isRoot with isChain | isList
  · obtain ⟨bucket, member, rfl⟩ := List.mem_map.1 isChain
    obtain ⟨inRange, shown⟩ := List.mem_filter.1 member
    have within : bucket < state.tableSize := by
      rw [← represents.tableSize]
      exact List.mem_range.1 inRange
    have published :=
      (inv.published_iff represents within).mp (of_decide_eq_true shown)
    exact inv.chain_nodes represents within published
  · obtain ⟨shard, inRange, member⟩ := List.mem_flatMap.1 isList
    have within : shard < config.shards := by
      rw [← represents.shards]
      exact List.mem_range.1 inRange
    have lists := inv.list_nodes represents within
    simp only [List.mem_cons, List.not_mem_nil, or_false] at member
    rcases member with rfl | rfl
    · exact lists.1
    · exact lists.2

/-- When no call is in progress every slot of the arena is behind a root. -/
theorem Invariant.slot_root
    (inv : Invariant config (state, ghost))
    (represents : Represents address config state memory)
    (quiet : state.inside = [])
    {slot : Slot}
    (isSlot : slot ∈ state.arenaSlots config) :
    ∃ root ∈ memory.roots, ghost.stage slot = root.stage := by
  have present :=
    (inv.nodes slot).appended.mpr (mem_arenaSlots.mp isSlot).2
  cases stage : ghost.stage slot with
  | absent =>
      exact absurd stage present
  | owned thread =>
      have busy := inv.owner stage
      rw [show (state, ghost).1.inside = [] from quiet] at busy
      cases busy
  | chained bucket =>
      have linked :
          (tableOf (state, ghost)).forest.place slot = .linked bucket := by
        simp [tableOf, stage]
      have published : state.published bucket = true :=
        (inv.table.within (.inl linked)).1
      have within : bucket < state.tableSize := by
        simp only [State.published, Bool.and_eq_true,
          decide_eq_true_eq] at published
        exact published.1
      have shown := (inv.published_iff represents within).mpr published
      refine ⟨.chain bucket, List.mem_append_left _ ?_, rfl⟩
      refine List.mem_map_of_mem (List.mem_filter.2 ⟨?_, ?_⟩)
      · rw [represents.tableSize]
        exact List.mem_range.2 within
      · exact decide_eq_true shown
  | listed label =>
      have within : label.shard < memory.shards := by
        rw [represents.shards]
        exact (inv.nodes slot).label stage
      cases label with
      | free shard =>
          refine ⟨.free shard, List.mem_append_right _ ?_, rfl⟩
          exact List.mem_flatMap.2
            ⟨shard, List.mem_range.2 within, by simp⟩
      | limbo shard =>
          refine ⟨.limbo shard, List.mem_append_right _ ?_, rfl⟩
          exact List.mem_flatMap.2
            ⟨shard, List.mem_range.2 within, by simp⟩

omit [DecidableEq K] [DecidableEq T] in
theorem Root.stage_inj
    {first second : Root}
    (same : (first.stage : Stage T) = second.stage) :
    first = second := by
  cases first <;> cases second <;> simp_all [Root.stage]

omit [DecidableEq T] in
/-- What a walk meets is a slot of the stage of its root. -/
theorem RootNodes.met
    {root : Root}
    {nodes : List Slot}
    (found : RootNodes memory address ghost root nodes)
    {count : Nat}
    {word : Word}
    (reached :
      ConcurrentCpp.meets memory.next memory.start root count =
        some word) :
    ∃ slot,
      nodes[count]? = some slot ∧ address slot = word ∧
        ghost.stage slot = root.stage := by
  rw [found.meets, List.getElem?_map, Option.map_eq_some_iff] at reached
  obtain ⟨slot, place, same⟩ := reached
  exact ⟨slot, place, same,
    (found.members slot).mp (List.mem_of_getElem? place)⟩

/-- When no call is in progress every slot is in exactly one place. -/
theorem Invariant.accounted
    (inv : Invariant config (state, ghost))
    (represents : Represents address config state memory)
    (quiet : state.inside = []) :
    memory.Accounted := by
  have known :
      ∀ {slot} {root : Root},
        ghost.stage slot = root.stage →
        slot ∈ state.arenaSlots config := by
    intro slot root stage
    apply inv.quiet.mem_slots
    rw [stage]
    cases root <;> simp [Root.stage]
  constructor
  · intro root isRoot count word reached
    obtain ⟨nodes, found⟩ := inv.rootNodes represents isRoot
    obtain ⟨slot, -, rfl, stage⟩ := found.met reached
    rw [represents.slots]
    exact List.mem_map_of_mem (known stage)
  · intro word isWord
    rw [represents.slots] at isWord
    obtain ⟨slot, isSlot, rfl⟩ := List.mem_map.1 isWord
    obtain ⟨root, isRoot, stage⟩ := inv.slot_root represents quiet isSlot
    obtain ⟨nodes, found⟩ := inv.rootNodes represents isRoot
    obtain ⟨count, place⟩ :=
      List.mem_iff_getElem?.1 ((found.members slot).mpr stage)
    refine ⟨(root, count), ⟨isRoot, ?_⟩, ?_⟩
    · show ConcurrentCpp.meets _ _ root count = _
      rw [found.meets, List.getElem?_map, place]
      rfl
    · rintro ⟨other, later⟩ ⟨isOther, reached⟩
      obtain ⟨others, foundOther⟩ := inv.rootNodes represents isOther
      obtain ⟨copy, placeOther, sameAddress, stageOther⟩ :=
        foundOther.met reached
      have sameSlot : copy = slot :=
        represents.injective (known stageOther) isSlot sameAddress
      subst sameSlot
      have sameRoot : other = root :=
        Root.stage_inj (stageOther.symm.trans stage)
      subst sameRoot
      obtain ⟨again, placeAgain, sameAgain, stageAgain⟩ := found.met reached
      have sameCopy : again = copy :=
        represents.injective (known stageAgain) isSlot sameAgain
      subst sameCopy
      obtain ⟨within, -⟩ := List.getElem?_eq_some_iff.1 placeAgain
      have sameCount : later = count :=
        (List.getElem?_inj within found.distinct).1
          (placeAgain.trans place.symm)
      rw [sameCount]

end Stages

/--
In every state that any number of clients reach and where no call is in
progress, every slot is in exactly one place and the accounting sweep says so,
for either value of `AllowDelete` and whatever was thrown on the way.
-/
theorem slots_are_accounted
    (config : Config K T)
    {start : State K T}
    (constructed : construct config = some start)
    {pool : Pool (State K T) (Choice K) T}
    (reached : (poolOf config start).Reaches pool)
    (quiet : pool.shared.inside = [])
    {address : Slot → Word}
    {memory : Memory}
    (represents : Represents address config pool.shared memory) :
    memory.Accounted ∧
      ∃ accounting,
        (∀ fuel > memory.slots.length,
            getInternalAccounting memory fuel = .ok accounting) ∧
          accounting.consistent = true := by
  obtain ⟨ghost, inv⟩ := reachable_inv constructed reached
  have accounted : memory.Accounted := inv.accounted represents quiet
  obtain ⟨after, stops, whole, ran, toured⟩ :=
    getInternalAccounting_toured memory
  have verdict := toured.accounted_iff memory.initialTally_acc
  exact ⟨accounted, after.acc.verdict, ran, verdict.mpr accounted⟩

/-- The slots of one shard, from address 16 on. -/
def addressOf (slot : Slot) : Word :=
  BitVec.ofNat 64 (16 * (slot.index + 1))

/-- The words of a set with two slots. -/
def twoSlotMemory (state : State Nat Unit) : Memory where
  shards := 1
  nodes _ := [16, 32]
  buckets bucket := headWord addressOf (state.buckets bucket)
  tableSize := state.tableSize
  link word :=
    linkWord addressOf (state.link ⟨0, if word = 16 then 0 else 1⟩)
  freeHead shard := freeWord addressOf (state.freeHead shard)
  limboHead shard := addressWord addressOf (state.limboHead shard)
  distinct := by decide
  fits := by
    intro shard _ address member
    simp only [List.mem_cons, List.not_mem_nil, or_false] at member
    rcases member with rfl | rfl <;> decide

theorem twoSlotMemory_represents
    {state : State Nat Unit}
    (two : state.arena 0 = 2) :
    Represents addressOf small state (twoSlotMemory state) where
  shards := rfl
  nodes := by
    intro shard within
    obtain rfl : shard = 0 := Nat.lt_one_iff.mp within
    rw [two]
    rfl
  tableSize := rfl
  buckets _ _ := rfl
  link := by
    rintro ⟨shard, index⟩ isSlot
    obtain ⟨within, appended⟩ := mem_arenaSlots.mp isSlot
    obtain rfl : shard = 0 := Nat.lt_one_iff.mp within
    have small : index < 2 := two ▸ appended
    obtain rfl | rfl : index = 0 ∨ index = 1 := by omega
    · rfl
    · rfl
  freeHead _ _ := rfl
  limboHead _ _ := rfl

/-- A key comes and goes, the set is reclaimed and another key comes. -/
def insertReused : List (Choice Nat) :=
  insertThirteen ++ [Choice.call (.erase 13)] ++
    List.replicate 24 Choice.proceed ++
    [Choice.reclaim none, .proceed, .call (.insert 14)] ++
    List.replicate 48 Choice.proceed

/-- One slot is on a chain again, the other one is still on the free list. -/
theorem slots_are_accounted_inserted :
    ∃ pool : Pool (State Nat Unit) (Choice Nat) Unit,
      construct small = some smallSet ∧
        (poolOf small smallSet).run (alone insertReused) = some pool ∧
        pool.shared.inside = [] ∧
        pool.shared.arena 0 = 2 ∧
        (pool.shared.buckets 6).address = .node ⟨0, 1⟩ ∧
        (pool.shared.freeHead 0).top = some ⟨0, 0⟩ ∧
        (twoSlotMemory pool.shared).Accounted ∧
        ∃ accounting,
          (∀ fuel > 2,
              getInternalAccounting (twoSlotMemory pool.shared) fuel =
                .ok accounting) ∧
            accounting.consistent = true := by
  obtain ⟨pool, ran, seen⟩ :=
    Pool.run_seen
      (fun state : State Nat Unit =>
        (state.inside, state.arena 0, (state.buckets 6).address,
          (state.freeHead 0).top))
      (show ((poolOf small smallSet).run (alone insertReused)).map _ =
          some ([], 2, .node ⟨0, 1⟩, some ⟨0, 0⟩) by decide +kernel)
  simp only [Prod.mk.injEq] at seen
  obtain ⟨quiet, two, chained, free⟩ := seen
  exact ⟨pool, rfl, ran, quiet, two, chained, free,
    slots_are_accounted small rfl ⟨_, ran⟩ quiet
      (twoSlotMemory_represents two)⟩

end ConcurrentCpp.HashSet
