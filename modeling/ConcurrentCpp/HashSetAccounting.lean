import ConcurrentCpp.VisitSweep
import Mathlib.Data.BitVec
import Mathlib.Data.List.Sort

namespace ConcurrentCpp.HashSet

/-!
# The accounting sweep

`get_internal_accounting()` over the words of the set as they stand in
memory.  Nothing is assumed of the words: bucket heads, links and list heads
may hold any 64 bits.  All that is known of a node is what the language and
the check in `alloc_node` promise of its address.  To load the link of
something that is no node is a fault.
-/

/-- `word_t`. -/
abbrev Word := BitVec 64

/-- `PTR_MASK`: the address field of a head or link word. -/
def ptrMask : Word :=
  0x03FFFFFFFFFFFFF8

/-- `EMPTY` and `FREE_EMPTY`. -/
def emptyWord : Word :=
  0

/-- `UNINITIALIZED`. -/
def uninitializedWord : Word :=
  8

/-- `addr_of()`. -/
def addrOf (word : Word) : Word :=
  word &&& ptrMask

/-- `free_addr_of()`. -/
def freeAddrOf (head : Word) : Word :=
  (head <<< 9) >>> 6

/-- `node_of()`. -/
def nodeOf (word : Word) : Word :=
  addrOf word

/--
The words of a set.  Two nodes never share an address, none is at the null
address, and `alloc_node` aborts at an address with bits outside of the
address field and at `UNINITIALIZED`.
-/
structure Memory where
  shards : Nat
  nodes : Nat → List Word
  buckets : Nat → Word
  tableSize : Nat
  link : Word → Word
  freeHead : Nat → Word
  limboHead : Nat → Word
  distinct : ((List.range shards).flatMap nodes).Nodup
  fits :
    ∀ shard < shards, ∀ address ∈ nodes shard,
      address &&& ~~~ptrMask = 0 ∧
        address ≠ uninitializedWord ∧ address ≠ emptyWord

/-- How a run of the sweep can go wrong. -/
inductive Fault where
  | foreignLoad
  | outOfFuel
  deriving DecidableEq

/-- The loops over the shards that collect the address of every slot. -/
def Memory.slots (memory : Memory) : List Word :=
  (List.range memory.shards).flatMap memory.nodes

/-- The load of the link of a node. -/
def Memory.load (memory : Memory) (node : Word) : Except Fault Word :=
  if node ∈ memory.slots then
    .ok (memory.link node)
  else
    .error .foreignLoad

/-- `InternalAccounting`. -/
structure InternalAccounting where
  slots : Nat
  reachable : Nat
  freeNodes : Nat
  limbo : Nat
  consistent : Bool
  deriving DecidableEq

/-- The populations that the sweep counts. -/
inductive Population where
  | chains
  | free
  | limbo
  deriving DecidableEq

/-- The count of a population. -/
def InternalAccounting.count
    (acc : InternalAccounting) :
    Population → Nat
  | .chains => acc.reachable
  | .free => acc.freeNodes
  | .limbo => acc.limbo

/-- One more node of a population. -/
def InternalAccounting.increment
    (acc : InternalAccounting) :
    Population → InternalAccounting
  | .chains => { acc with reachable := acc.reachable + 1 }
  | .free => { acc with freeNodes := acc.freeNodes + 1 }
  | .limbo => { acc with limbo := acc.limbo + 1 }

/-- The locals of the sweep: the result so far and a flag for each slot. -/
structure Tally where
  acc : InternalAccounting
  seen : List Bool
  deriving DecidableEq

/-- `std::lower_bound`: the first slot that is not below the address. -/
def lowerBound (slots : List Word) (address : Word) : Nat :=
  slots.findIdx fun slot => decide (address ≤ slot)

/--
`visit`: marks the address as seen; `false`, and the sweep inconsistent, if it
is no slot or was seen before.
-/
def visit
    (slots : List Word)
    (tally : Tally)
    (address : Word) :
    Bool × Tally :=
  let it := lowerBound slots address
  if it = slots.length ∨ slots[it]? ≠ some address ∨
      tally.seen[it]? = some true then
    (false, { tally with acc := { tally.acc with consistent := false } })
  else
    (true, { tally with seen := tally.seen.set it true })

/--
The `for` loop over one chain or list.  The loops differ in what they compare
of the current word and in the count they advance.
-/
def accountList
    (memory : Memory)
    (slots : List Word)
    (compared : Word → Word)
    (counted : Population) :
    Nat → Word → Tally → Except Fault Tally
  | 0, _, _ => .error .outOfFuel
  | fuel + 1, curr, tally =>
      if compared curr = emptyWord then
        .ok tally
      else
        match visit slots tally (compared curr) with
        | (false, stopped) => .ok stopped
        | (true, visited) => do
            let curr ← memory.load (nodeOf curr)
            accountList memory slots compared counted fuel curr
              { visited with acc := visited.acc.increment counted }

/-- The turn of the loop over the published chains for one bucket. -/
def accountBucket
    (memory : Memory)
    (slots : List Word)
    (fuel : Nat)
    (tally : Tally)
    (bucket : Nat) :
    Except Fault Tally :=
  let curr := memory.buckets bucket
  if addrOf curr = uninitializedWord then
    .ok tally
  else
    accountList memory slots addrOf .chains fuel curr tally

/-- The turn of the loop over the free and limbo lists for one shard. -/
def accountShard
    (memory : Memory)
    (slots : List Word)
    (fuel : Nat)
    (tally : Tally)
    (shard : Nat) :
    Except Fault Tally := do
  let free ←
    accountList memory slots id .free fuel
      (freeAddrOf (memory.freeHead shard)) tally
  accountList memory slots addrOf .limbo fuel (memory.limboHead shard) free

/-- `get_internal_accounting()`, with a bound on the turns of each walk. -/
def getInternalAccounting
    (memory : Memory)
    (fuel : Nat) :
    Except Fault InternalAccounting := do
  let slots := memory.slots.mergeSort fun first second => first ≤ second
  let initial : Tally :=
    { acc := ⟨slots.length, 0, 0, 0, true⟩
      seen := List.replicate slots.length false }
  let chains ←
    (List.range memory.tableSize).foldlM (accountBucket memory slots fuel)
      initial
  let lists ←
    (List.range memory.shards).foldlM (accountShard memory slots fuel)
      chains
  let acc := lists.acc
  if acc.reachable + acc.freeNodes + acc.limbo ≠ acc.slots then
    .ok { acc with consistent := false }
  else
    .ok acc

/-- The roots of the walks. -/
inductive Root where
  | chain (bucket : Nat)
  | free (shard : Nat)
  | limbo (shard : Nat)
  deriving DecidableEq

namespace Root

/-- The population behind a root. -/
def population : Root → Population
  | chain _ => .chains
  | free _ => .free
  | limbo _ => .limbo

/--
What a walk compares of a word: a free list is compared with its tag bits,
a chain and a limbo list without them.
-/
def compared : Root → Word → Word
  | free _ => id
  | _ => addrOf

/-- The address that a word names on the walk from a root. -/
def target (root : Root) (word : Word) : Option Word :=
  if root.compared word = emptyWord then
    none
  else
    some (root.compared word)

end Root

namespace Memory

variable (memory : Memory)

/-- The word that a walk starts from. -/
def head : Root → Word
  | .chain bucket => memory.buckets bucket
  | .free shard => freeAddrOf (memory.freeHead shard)
  | .limbo shard => memory.limboHead shard

/-- The first address of the walk from a root. -/
def start (root : Root) : Option Word :=
  root.target (memory.head root)

/-- The address behind another on the walk from a root. -/
def next (root : Root) (address : Word) : Option Word :=
  root.target (memory.link address)

/-- The bucket is published. -/
def Published (bucket : Nat) : Prop :=
  addrOf (memory.buckets bucket) ≠ uninitializedWord

instance (bucket : Nat) : Decidable (memory.Published bucket) :=
  inferInstanceAs (Decidable (_ ≠ _))

/-- The roots of the chains of the published buckets. -/
def chainRoots : List Root :=
  ((List.range memory.tableSize).filter fun bucket =>
    memory.Published bucket).map Root.chain

/-- The roots of the free and limbo lists. -/
def listRoots : List Root :=
  (List.range memory.shards).flatMap fun shard => [.free shard, .limbo shard]

/-- The roots of all walks, in the order of the sweep. -/
def roots : List Root :=
  memory.chainRoots ++ memory.listRoots

/--
Every slot is reached exactly once in total by walking the published chains,
the free lists and the limbo lists, and no walk meets anything else.
-/
def Accounted : Prop :=
  Covers memory.slots memory.next memory.start memory.roots

/-- The addresses that the walks of one kind meet. -/
def populated (kind : Population) : Set Word :=
  ConcurrentCpp.population memory.next memory.start memory.roots
    fun root => root.population = kind

variable {memory}

/-- A slot address has no bits but those of the address field. -/
theorem addrOf_slot
    {address : Word}
    (isSlot : address ∈ memory.slots) :
    addrOf address = address := by
  obtain ⟨shard, within, member⟩ := List.mem_flatMap.1 isSlot
  have clean :=
    (memory.fits shard (List.mem_range.1 within) address member).1
  have whole : address &&& (ptrMask ||| ~~~ptrMask) = address := by
    rw [BitVec.or_not_self, BitVec.and_allOnes]
  rw [BitVec.and_or_distrib_left, clean] at whole
  simpa [addrOf] using whole

/-- The node of a word that names a slot is that slot. -/
theorem nodeOf_slot
    {root : Root}
    {word : Word}
    (isSlot : root.compared word ∈ memory.slots) :
    nodeOf word = root.compared word := by
  cases root with
  | free shard =>
      exact addrOf_slot isSlot
  | chain bucket =>
      rfl
  | limbo shard =>
      rfl

end Memory

section Lookup

/-- The slots in the order of the sweep. -/
structure Sorted (memory : Memory) (slots : List Word) : Prop where
  perm : slots.Perm memory.slots
  ordered : slots.Pairwise (· ≤ ·)

/-- The flags of a sweep say which slots were seen. -/
structure Flags
    (slots : List Word)
    (flags : List Bool)
    (seen : Set Word) : Prop where
  length : flags.length = slots.length
  flag :
    ∀ (index : Nat) (address : Word), slots[index]? = some address →
      (flags[index]? = some true ↔ address ∈ seen)

variable {memory : Memory} {slots : List Word}

theorem Sorted.nodup
    (sorted : Sorted memory slots) :
    slots.Nodup :=
  sorted.perm.nodup_iff.2 memory.distinct

/-- In a sorted list, `lower_bound` finds every element. -/
theorem lowerBound_found
    (ordered : slots.Pairwise (· ≤ ·))
    {address : Word}
    (member : address ∈ slots) :
    slots[lowerBound slots address]? = some address := by
  have within : lowerBound slots address < slots.length :=
    List.findIdx_lt_length_of_exists
      ⟨address, member, by simp⟩
  have atLeast : address ≤ slots[lowerBound slots address] :=
    of_decide_eq_true (List.findIdx_getElem (w := within))
  obtain ⟨index, bound, value⟩ := List.mem_iff_getElem.1 member
  have notBefore : ¬ index < lowerBound slots address := by
    intro before
    have := List.not_of_lt_findIdx before
    simp [value] at this
  have atMost : slots[lowerBound slots address] ≤ address := by
    rcases Nat.eq_or_lt_of_le (Nat.le_of_not_lt notBefore) with same | later
    · simp [same, value]
    · have := List.pairwise_iff_getElem.1 ordered _ _ within bound later
      rwa [value] at this
  rw [List.getElem?_eq_getElem within]
  exact congrArg some (BitVec.le_antisymm atMost atLeast)

/-- The flag of a slot that `visit` sets. -/
theorem Flags.set
    {flags : List Bool}
    {seen : Set Word}
    (represented : Flags slots flags seen)
    (distinct : slots.Nodup)
    {index : Nat}
    {address : Word}
    (place : slots[index]? = some address) :
    Flags slots (flags.set index true) (Insert.insert address seen) where
  length := by rw [List.length_set, represented.length]
  flag other slot found := by
    obtain ⟨within, -⟩ := List.getElem?_eq_some_iff.1 place
    by_cases same : index = other
    · subst same
      have slotEq : slot = address :=
        Option.some.inj (found.symm.trans place)
      simp [slotEq, represented.length, within]
    · have slotNe : slot ≠ address := by
        intro slotEq
        rw [slotEq] at found
        exact same
          ((List.getElem?_inj within distinct).1 (place.trans found.symm))
      rw [List.getElem?_set_ne same, represented.flag other slot found,
        Set.mem_insert_iff, or_iff_right slotNe]

/-- The number of slots that a sweep has not seen. -/
def unseen (flags : List Bool) : Nat :=
  flags.count false

/-- `visit` refuses an address that is no slot or was seen. -/
theorem visit_refused
    (sorted : Sorted memory slots)
    {tally : Tally}
    {seen : Set Word}
    (represented : Flags slots tally.seen seen)
    {address : Word}
    (bad : address ∈ memory.slots → address ∈ seen) :
    visit slots tally address =
      (false,
        { tally with acc := { tally.acc with consistent := false } }) := by
  unfold visit
  rw [if_pos]
  by_cases isSlot : address ∈ memory.slots
  · have found := lowerBound_found sorted.ordered
      (sorted.perm.mem_iff.2 isSlot)
    exact Or.inr (Or.inr ((represented.flag _ _ found).2 (bad isSlot)))
  · refine Or.inr (Or.inl fun found => ?_)
    exact isSlot (sorted.perm.mem_iff.1 (List.mem_of_getElem? found))

/-- `visit` accepts a slot that was not seen and sets its flag. -/
theorem visit_accepted
    (sorted : Sorted memory slots)
    {tally : Tally}
    {seen : Set Word}
    (represented : Flags slots tally.seen seen)
    {address : Word}
    (isSlot : address ∈ memory.slots)
    (fresh : address ∉ seen) :
    ∃ flags,
      visit slots tally address = (true, { tally with seen := flags }) ∧
        Flags slots flags (Insert.insert address seen) ∧
          unseen flags + 1 = unseen tally.seen := by
  have found := lowerBound_found sorted.ordered
    (sorted.perm.mem_iff.2 isSlot)
  obtain ⟨within, -⟩ := List.getElem?_eq_some_iff.1 found
  have unset :=
    mt (represented.flag (lowerBound slots address) address found).1 fresh
  refine ⟨tally.seen.set (lowerBound slots address) true, ?_,
    represented.set sorted.nodup found, ?_⟩
  · unfold visit
    rw [if_neg]
    rintro (past | wrong | already)
    · omega
    · exact wrong found
    · exact unset already
  · have inFlags : lowerBound slots address < tally.seen.length := by
      rw [represented.length]
      exact within
    have isFalse : tally.seen[lowerBound slots address] = false := by
      rw [List.getElem?_eq_getElem inFlags] at unset
      simpa using unset
    have positive : 0 < tally.seen.count false :=
      List.count_pos_iff.2 (isFalse ▸ List.getElem_mem inFlags)
    unfold unseen
    rw [List.count_set inFlags, isFalse]
    simp only [beq_self_eq_true, if_true, beq_iff_eq, Bool.true_eq_false,
      if_false]
    omega

end Lookup

section Walks

/-- The nodes that a sweep visited of one population. -/
def visitedOf
    (kind : Population)
    (stops : List (Root × List Word)) :
    List Word :=
  (stops.filter fun stop => stop.1.population = kind).flatMap Prod.snd

/--
The sweep went from one tally to another over some roots: which nodes it
visited from each of them and whether every walk ran to its end.
-/
structure Toured
    (memory : Memory)
    (slots : List Word)
    (roots : List Root)
    (seen : Set Word)
    (before after : Tally)
    (stops : List (Root × List Word))
    (whole : Bool) : Prop where
  roots : stops.map Prod.fst = roots
  tour : Tour memory.slots memory.next memory.start seen stops whole
  flags :
    Flags slots after.seen
      (seen ∪ {node | node ∈ stops.flatMap Prod.snd})
  slots : after.acc.slots = before.acc.slots
  counts :
    ∀ kind,
      after.acc.count kind =
        before.acc.count kind + (visitedOf kind stops).length
  consistent : after.acc.consistent = (before.acc.consistent && whole)
  unseen : unseen after.seen ≤ unseen before.seen

variable {memory : Memory} {slots : List Word}
variable {seen : Set Word} {before : Tally}

/-- A sweep over no roots changes nothing. -/
theorem Toured.none
    (flags : Flags slots before.seen seen) :
    Toured memory slots [] seen before before [] true where
  roots := rfl
  tour := .done seen
  flags := by simpa using flags
  slots := rfl
  counts kind := rfl
  consistent := by simp
  unseen := Nat.le_refl _

/-- Sweeps compose. -/
theorem Toured.append
    {between after : Tally}
    {roots further : List Root}
    {stops others : List (Root × List Word)}
    {whole rest : Bool}
    (first : Toured memory slots roots seen before between stops whole)
    (second :
      Toured memory slots further
        (seen ∪ {node | node ∈ stops.flatMap Prod.snd}) between after
        others rest) :
    Toured memory slots (roots ++ further) seen before after
      (stops ++ others) (whole && rest) where
  roots := by rw [List.map_append, first.roots, second.roots]
  tour := first.tour.append second.tour
  flags := by
    have same :
        seen ∪ {node | node ∈ (stops ++ others).flatMap Prod.snd} =
          seen ∪ {node | node ∈ stops.flatMap Prod.snd} ∪
            {node | node ∈ others.flatMap Prod.snd} := by
      ext node
      simp [or_assoc, List.flatMap_append]
    rw [same]
    exact second.flags
  slots := second.slots.trans first.slots
  counts kind := by
    rw [second.counts kind, first.counts kind]
    simp [visitedOf, List.filter_append, Nat.add_assoc]
  consistent := by
    rw [second.consistent, first.consistent, Bool.and_assoc]
  unseen := Nat.le_trans second.unseen first.unseen

/-- The count of a population after one more node. -/
theorem count_increment
    (acc : InternalAccounting)
    (counted kind : Population) :
    (acc.increment counted).count kind =
      acc.count kind + if counted = kind then 1 else 0 := by
  cases counted <;> cases kind <;>
    simp [InternalAccounting.increment, InternalAccounting.count]

/-- The nodes of one more walk, by population. -/
theorem visitedOf_cons
    (kind : Population)
    (stop : Root × List Word)
    (stops : List (Root × List Word)) :
    visitedOf kind (stop :: stops) =
      (if stop.1.population = kind then stop.2 else []) ++
        visitedOf kind stops := by
  by_cases same : stop.1.population = kind <;> simp [visitedOf, same]

/-- The walk from a word went from one tally to another. -/
structure Walked
    (memory : Memory)
    (slots : List Word)
    (root : Root)
    (curr : Word)
    (seen : Set Word)
    (before after : Tally)
    (nodes : List Word)
    (whole : Bool) : Prop where
  visit :
    Visit memory.slots seen (met (memory.next root) (root.target curr))
      nodes whole
  flags : Flags slots after.seen (seen ∪ {node | node ∈ nodes})
  slots : after.acc.slots = before.acc.slots
  counts :
    ∀ kind,
      after.acc.count kind =
        before.acc.count kind +
          if root.population = kind then nodes.length else 0
  consistent : after.acc.consistent = (before.acc.consistent && whole)
  unseen : unseen after.seen ≤ unseen before.seen

/-- A walk that accepts a slot and goes on behind it. -/
theorem Walked.accepted
    {root : Root}
    {curr : Word}
    {marks : List Bool}
    {after : Tally}
    {nodes : List Word}
    {whole : Bool}
    (isSlot : root.compared curr ∈ memory.slots)
    (fresh : root.compared curr ∉ seen)
    (notEmpty : root.compared curr ≠ emptyWord)
    (fewer : HashSet.unseen marks + 1 = HashSet.unseen before.seen)
    (rest :
      Walked memory slots root (memory.link (root.compared curr))
        (Insert.insert (root.compared curr) seen)
        { acc := before.acc.increment root.population, seen := marks }
        after nodes whole) :
    Walked memory slots root curr seen before after
      (root.compared curr :: nodes) whole where
  visit := by
    rw [Root.target, if_neg notEmpty]
    exact .accepted isSlot fresh rest.visit
  flags := by
    have same :
        seen ∪ {node | node ∈ root.compared curr :: nodes} =
          Insert.insert (root.compared curr) seen ∪ {node | node ∈ nodes} := by
      ext node
      simp only [Set.mem_union, Set.mem_ofPred_eq, List.mem_cons,
        Set.mem_insert_iff]
      tauto
    rw [same]
    exact rest.flags
  slots := by
    rw [rest.slots]
    cases root <;> rfl
  counts kind := by
    rw [rest.counts kind, count_increment]
    split_ifs
    · rw [List.length_cons]
      omega
    · rfl
  consistent := by
    rw [rest.consistent]
    cases root <;> rfl
  unseen := by
    have fewerLater : HashSet.unseen after.seen ≤ HashSet.unseen marks :=
      rest.unseen
    omega

/--
The loop over one list: with a turn for every slot not seen and one more, it
ends without a fault.
-/
theorem accountList_spec
    (sorted : Sorted memory slots)
    (root : Root)
    (fuel : Nat)
    (curr : Word)
    (flags : Flags slots before.seen seen)
    (enough : unseen before.seen < fuel) :
    ∃ after nodes whole,
      accountList memory slots root.compared root.population fuel curr
          before = .ok after ∧
        Walked memory slots root curr seen before after nodes whole := by
  induction fuel generalizing curr before seen with
  | zero =>
      omega
  | succ fuel inductionHypothesis =>
      unfold accountList
      by_cases isEmpty : root.compared curr = emptyWord
      · rw [if_pos isEmpty]
        have ended : root.target curr = none := if_pos isEmpty
        exact ⟨before, [], true, rfl, ended ▸ .done _ _ _,
          by simpa using flags, rfl, by simp, by simp, Nat.le_refl _⟩
      rw [if_neg isEmpty]
      by_cases good :
          root.compared curr ∈ memory.slots ∧ root.compared curr ∉ seen
      · obtain ⟨marks, accepted, flagged, fewer⟩ :=
          visit_accepted sorted flags good.1 good.2
        have loaded :
            memory.load (nodeOf curr) =
              .ok (memory.link (root.compared curr)) := by
          rw [Memory.nodeOf_slot good.1, Memory.load, if_pos good.1]
        let visited : Tally :=
          { acc := before.acc.increment root.population, seen := marks }
        have room : unseen visited.seen < fuel := by
          show unseen marks < fuel
          omega
        obtain ⟨after, nodes, whole, ran, walked⟩ :=
          inductionHypothesis (memory.link (root.compared curr))
            (show Flags slots visited.seen _ from flagged) room
        refine ⟨after, root.compared curr :: nodes, whole, ?_,
          walked.accepted good.1 good.2 isEmpty fewer⟩
        simp only [accepted, loaded]
        exact ran
      · have bad :
            root.compared curr ∈ memory.slots →
              root.compared curr ∈ seen := by
          intro isSlot
          by_contra notSeen
          exact good ⟨isSlot, notSeen⟩
        have goesOn :
            root.target curr = some (root.compared curr) := if_neg isEmpty
        rw [visit_refused sorted flags bad]
        exact ⟨_, [], false, rfl, goesOn ▸ .refused bad,
          by simpa using flags, rfl, by simp [InternalAccounting.count],
          by simp, Nat.le_refl _⟩

/-- The walk from a root is a sweep over that root. -/
theorem Walked.toured
    {root : Root}
    {after : Tally}
    {nodes : List Word}
    {whole : Bool}
    (walked :
      Walked memory slots root (memory.head root) seen before after nodes
        whole) :
    Toured memory slots [root] seen before after [(root, nodes)]
      whole where
  roots := rfl
  tour := by
    have first :
        Visit memory.slots seen (meets memory.next memory.start root)
          nodes whole :=
      walked.visit
    have tour := Tour.visit first (.done _)
    rwa [Bool.and_true] at tour
  flags := by simpa using walked.flags
  slots := walked.slots
  counts kind := by
    rw [walked.counts kind, visitedOf_cons, List.length_append]
    split_ifs <;> rfl
  consistent := walked.consistent
  unseen := walked.unseen

/-- A part of the sweep that ends without a fault over some roots. -/
def Accounts
    (memory : Memory)
    (slots : List Word)
    (fuel : Nat)
    (roots : List Root)
    (part : Tally → Except Fault Tally) : Prop :=
  ∀ (before : Tally) (seen : Set Word),
    Flags slots before.seen seen →
      unseen before.seen < fuel →
        ∃ after stops whole,
          part before = .ok after ∧
            Toured memory slots roots seen before after stops whole

/-- Two parts of the sweep, one after the other. -/
theorem Accounts.bind
    {fuel : Nat}
    {roots further : List Root}
    {first second : Tally → Except Fault Tally}
    (accountsFirst : Accounts memory slots fuel roots first)
    (accountsSecond : Accounts memory slots fuel further second) :
    Accounts memory slots fuel (roots ++ further) fun before =>
      first before >>= second := by
  intro before seen flags enough
  obtain ⟨between, stops, whole, ranFirst, touredFirst⟩ :=
    accountsFirst before seen flags enough
  obtain ⟨after, others, rest, ranSecond, touredSecond⟩ :=
    accountsSecond between _ touredFirst.flags
      (Nat.lt_of_le_of_lt touredFirst.unseen enough)
  refine ⟨after, stops ++ others, whole && rest, ?_,
    touredFirst.append touredSecond⟩
  simp only [ranFirst]
  exact ranSecond

/-- A loop whose turns are parts of the sweep. -/
theorem Accounts.foldlM
    {fuel : Nat}
    {turn : Tally → Nat → Except Fault Tally}
    {roots : Nat → List Root}
    (accounts :
      ∀ index, Accounts memory slots fuel (roots index) fun before =>
        turn before index)
    (indices : List Nat) :
    Accounts memory slots fuel (indices.flatMap roots) fun before =>
      indices.foldlM turn before := by
  induction indices with
  | nil =>
      intro before seen flags enough
      exact ⟨before, [], true, rfl, .none flags⟩
  | cons index indices inductionHypothesis =>
      simp only [List.foldlM_cons, List.flatMap_cons]
      exact (accounts index).bind inductionHypothesis

/-- The loop over the list of a root. -/
theorem accountList_accounts
    (sorted : Sorted memory slots)
    (root : Root)
    (fuel : Nat) :
    Accounts memory slots fuel [root] fun before =>
      accountList memory slots root.compared root.population fuel
        (memory.head root) before := by
  intro before seen flags enough
  obtain ⟨after, nodes, whole, ran, walked⟩ :=
    accountList_spec sorted root fuel (memory.head root) flags enough
  exact ⟨after, [(root, nodes)], whole, ran, walked.toured⟩

/-- The roots in the turn of a bucket. -/
def Memory.bucketRoots (memory : Memory) (bucket : Nat) : List Root :=
  if memory.Published bucket then [.chain bucket] else []

theorem accountBucket_accounts
    (sorted : Sorted memory slots)
    (fuel bucket : Nat) :
    Accounts memory slots fuel (memory.bucketRoots bucket) fun before =>
      accountBucket memory slots fuel before bucket := by
  unfold accountBucket Memory.bucketRoots
  by_cases published : memory.Published bucket
  · simp only [if_pos published, if_neg published]
    exact accountList_accounts sorted (.chain bucket) fuel
  · rw [if_neg published]
    intro before seen flags enough
    refine ⟨before, [], true, ?_, .none flags⟩
    exact if_pos (not_not.1 published)

theorem accountShard_accounts
    (sorted : Sorted memory slots)
    (fuel shard : Nat) :
    Accounts memory slots fuel [.free shard, .limbo shard] fun before =>
      accountShard memory slots fuel before shard :=
  (accountList_accounts sorted (.free shard) fuel).bind
    (accountList_accounts sorted (.limbo shard) fuel)

/-- The roots of the turns are those of the published chains. -/
theorem Memory.chainRoots_eq
    (memory : Memory) :
    (List.range memory.tableSize).flatMap memory.bucketRoots =
      memory.chainRoots := by
  unfold Memory.chainRoots
  induction List.range memory.tableSize with
  | nil =>
      rfl
  | cons bucket buckets inductionHypothesis =>
      rw [List.flatMap_cons, inductionHypothesis, List.filter_cons]
      unfold Memory.bucketRoots
      by_cases published : memory.Published bucket <;> simp [published]

/-- No root is walked from twice. -/
theorem Memory.roots_nodup
    (memory : Memory) :
    memory.roots.Nodup := by
  unfold Memory.roots Memory.chainRoots Memory.listRoots
  refine List.nodup_append'.2 ⟨?_, ?_, ?_⟩
  · refine (List.nodup_range.filter _).map fun first second same => ?_
    exact Root.chain.inj same
  · refine List.nodup_flatMap.2 ⟨fun shard _ => by simp, ?_⟩
    refine List.nodup_range.imp fun different => ?_
    simp [Function.onFun, different.symm]
  · intro root inChains inLists
    obtain ⟨bucket, -, rfl⟩ := List.mem_map.1 inChains
    simp at inLists

end Walks

section Fuel

variable (memory : Memory) (slots : List Word)
variable {fuel more : Nat}

/-- More turns than a walk takes change nothing. -/
theorem accountList_more
    (compared : Word → Word)
    (counted : Population)
    (order : fuel ≤ more)
    {curr : Word}
    {before after : Tally}
    (ran :
      accountList memory slots compared counted fuel curr before =
        .ok after) :
    accountList memory slots compared counted more curr before =
      .ok after := by
  induction fuel generalizing more curr before with
  | zero =>
      cases ran
  | succ fuel inductionHypothesis =>
      obtain ⟨more, rfl⟩ := Nat.exists_eq_add_of_lt order
      unfold accountList at ran ⊢
      split_ifs at ran ⊢ with isEmpty
      · exact ran
      · rcases visited : visit slots before (compared curr) with
          ⟨_ | _, tally⟩
        · rw [visited] at ran
          exact ran
        · rw [visited] at ran
          cases loaded : memory.load (nodeOf curr) with
          | error fault =>
              simp only [loaded] at ran
              cases ran
          | ok word =>
              simp only [loaded] at ran ⊢
              exact inductionHypothesis (by omega) ran

/-- A loop gives the same result if each of its turns does. -/
theorem foldlM_of_turns
    {first second : Tally → Nat → Except Fault Tally}
    (agree :
      ∀ before index after,
        first before index = .ok after → second before index = .ok after)
    {indices : List Nat}
    {before after : Tally}
    (ran : indices.foldlM first before = .ok after) :
    indices.foldlM second before = .ok after := by
  induction indices generalizing before with
  | nil =>
      exact ran
  | cons index indices inductionHypothesis =>
      rw [List.foldlM_cons] at ran ⊢
      cases turned : first before index with
      | error fault =>
          rw [turned] at ran
          cases ran
      | ok between =>
          rw [turned] at ran
          rw [agree before index between turned]
          exact inductionHypothesis ran

theorem accountBucket_more
    (order : fuel ≤ more)
    (before : Tally)
    (bucket : Nat)
    (after : Tally)
    (ran : accountBucket memory slots fuel before bucket = .ok after) :
    accountBucket memory slots more before bucket = .ok after := by
  simp only [accountBucket] at ran ⊢
  split_ifs at ran ⊢
  · exact ran
  · exact accountList_more memory slots addrOf .chains order ran

theorem accountShard_more
    (order : fuel ≤ more)
    (before : Tally)
    (shard : Nat)
    (after : Tally)
    (ran : accountShard memory slots fuel before shard = .ok after) :
    accountShard memory slots more before shard = .ok after := by
  unfold accountShard at ran ⊢
  cases free :
      accountList memory slots id .free fuel
        (freeAddrOf (memory.freeHead shard)) before with
  | error fault =>
      rw [free] at ran
      cases ran
  | ok between =>
      rw [free] at ran
      rw [accountList_more memory slots id .free order free]
      exact accountList_more memory slots addrOf .limbo order ran

end Fuel

section Verdict

variable (memory : Memory)

/-- The addresses of the slots as `std::sort` leaves them. -/
def Memory.sortedSlots : List Word :=
  memory.slots.mergeSort fun first second => first ≤ second

theorem Memory.sorted :
    Sorted memory memory.sortedSlots where
  perm := List.mergeSort_perm _ _
  ordered := by
    have transitive (first second third : Word) :
        decide (first ≤ second) = true →
          decide (second ≤ third) = true →
            decide (first ≤ third) = true := by
      simp only [decide_eq_true_eq]
      exact BitVec.le_trans
    have total (first second : Word) :
        (decide (first ≤ second) || decide (second ≤ first)) = true := by
      simpa using BitVec.le_total first second
    exact (List.pairwise_mergeSort transitive total memory.slots).imp
      fun order => of_decide_eq_true order

theorem Memory.sortedSlots_length :
    memory.sortedSlots.length = memory.slots.length :=
  memory.sorted.perm.length_eq

/-- The locals that the sweep starts with. -/
def Memory.initialTally : Tally :=
  { acc := ⟨memory.sortedSlots.length, 0, 0, 0, true⟩
    seen := List.replicate memory.sortedSlots.length false }

theorem Memory.initialTally_flags :
    Flags memory.sortedSlots memory.initialTally.seen ∅ where
  length := List.length_replicate
  flag index address found := by
    simp [Memory.initialTally, List.getElem?_replicate]

/-- The loops of the sweep. -/
def Memory.sweepAll (fuel : Nat) (before : Tally) : Except Fault Tally := do
  let chains ←
    (List.range memory.tableSize).foldlM
      (accountBucket memory memory.sortedSlots fuel) before
  (List.range memory.shards).foldlM
    (accountShard memory memory.sortedSlots fuel) chains

theorem Memory.sweepAll_accounts
    (fuel : Nat) :
    Accounts memory memory.sortedSlots fuel memory.roots
      (memory.sweepAll fuel) := by
  have chains :=
    Accounts.foldlM (accountBucket_accounts memory.sorted fuel)
      (List.range memory.tableSize)
  rw [memory.chainRoots_eq] at chains
  exact chains.bind
    (Accounts.foldlM (accountShard_accounts memory.sorted fuel)
      (List.range memory.shards))

theorem Memory.sweepAll_more
    {fuel more : Nat}
    (order : fuel ≤ more)
    {before after : Tally}
    (ran : memory.sweepAll fuel before = .ok after) :
    memory.sweepAll more before = .ok after := by
  unfold sweepAll at ran ⊢
  cases chained :
      (List.range memory.tableSize).foldlM
        (accountBucket memory memory.sortedSlots fuel) before with
  | error fault =>
      rw [chained] at ran
      cases ran
  | ok between =>
      rw [chained] at ran
      rw [foldlM_of_turns (accountBucket_more memory _ order) chained]
      exact foldlM_of_turns (accountShard_more memory _ order) ran

/-- The last comparison of the sweep. -/
def InternalAccounting.verdict
    (acc : InternalAccounting) :
    InternalAccounting :=
  if acc.reachable + acc.freeNodes + acc.limbo ≠ acc.slots then
    { acc with consistent := false }
  else
    acc

theorem getInternalAccounting_eq
    (fuel : Nat)
    {after : Tally}
    (ran : memory.sweepAll fuel memory.initialTally = .ok after) :
    getInternalAccounting memory fuel = .ok after.acc.verdict := by
  unfold Memory.sweepAll at ran
  cases chained :
      (List.range memory.tableSize).foldlM
        (accountBucket memory memory.sortedSlots fuel)
        memory.initialTally with
  | error fault =>
      rw [chained] at ran
      cases ran
  | ok between =>
      rw [chained] at ran
      unfold getInternalAccounting
      show
        (List.foldlM (accountBucket memory memory.sortedSlots fuel)
          memory.initialTally (List.range memory.tableSize)).bind _ = _
      rw [chained]
      show
        (List.foldlM (accountShard memory memory.sortedSlots fuel)
          between (List.range memory.shards)).bind _ = _
      rw [show
        List.foldlM (accountShard memory memory.sortedSlots fuel)
          between (List.range memory.shards) = .ok after from ran]
      show (if _ then _ else _) = _
      unfold InternalAccounting.verdict
      split_ifs
      · rfl
      · rfl

/-- The three populations make up all visited nodes. -/
theorem visitedOf_sum
    (stops : List (Root × List Word)) :
    (visitedOf .chains stops).length + (visitedOf .free stops).length +
        (visitedOf .limbo stops).length =
      (stops.flatMap Prod.snd).length := by
  induction stops with
  | nil =>
      rfl
  | cons stop stops inductionHypothesis =>
      simp only [visitedOf_cons, List.flatMap_cons, List.length_append]
      rw [← inductionHypothesis]
      cases stop.1.population <;> simp <;> omega

section Whole

variable {memory} {slots : List Word} {before after : Tally}
variable {stops : List (Root × List Word)} {whole : Bool}
variable
  (toured : Toured memory slots memory.roots ∅ before after stops whole)
  (initial : before.acc = ⟨memory.slots.length, 0, 0, 0, true⟩)

include toured initial

/-- The counts of a sweep over all roots. -/
theorem Toured.count
    (kind : Population) :
    after.acc.count kind = (visitedOf kind stops).length := by
  rw [toured.counts kind, initial]
  cases kind <;> exact Nat.zero_add _

/-- The sweep saw everything, each walk to its end, if its verdict is good. -/
theorem Toured.verdict_iff :
    after.acc.verdict.consistent = true ↔
      whole = true ∧
        (stops.flatMap Prod.snd).length = memory.slots.length := by
  have sum :
      after.acc.reachable + after.acc.freeNodes + after.acc.limbo =
        (stops.flatMap Prod.snd).length := by
    rw [← visitedOf_sum, ← toured.count initial .chains,
      ← toured.count initial .free, ← toured.count initial .limbo]
    rfl
  have total : after.acc.slots = memory.slots.length := by
    rw [toured.slots, initial]
  have verdict : after.acc.consistent = whole := by
    rw [toured.consistent, initial, Bool.true_and]
  unfold InternalAccounting.verdict
  rw [sum, total]
  split_ifs with different
  · constructor
    · intro bad
      cases bad
    · intro good
      exact absurd good.2 different
  · rw [verdict]
    exact ⟨fun complete => ⟨complete, not_not.1 different⟩, And.left⟩

/-- The verdict is good exactly if every slot is accounted for. -/
theorem Toured.accounted_iff :
    after.acc.verdict.consistent = true ↔ memory.Accounted := by
  rw [toured.verdict_iff initial]
  have decided :=
    toured.tour.whole_iff memory.distinct
      (toured.roots.symm ▸ memory.roots_nodup)
  rwa [toured.roots] at decided

end Whole

theorem Memory.initialTally_acc :
    memory.initialTally.acc = ⟨memory.slots.length, 0, 0, 0, true⟩ := by
  rw [← memory.sortedSlots_length]
  rfl

/-- The sweep ends without a fault after a tour over all roots. -/
theorem getInternalAccounting_toured :
    ∃ after stops whole,
      (∀ fuel > memory.slots.length,
          getInternalAccounting memory fuel = .ok after.acc.verdict) ∧
        Toured memory memory.sortedSlots memory.roots ∅
          memory.initialTally after stops whole := by
  have room :
      unseen memory.initialTally.seen < memory.slots.length + 1 := by
    rw [← memory.sortedSlots_length]
    refine Nat.lt_succ_of_le (Nat.le_trans List.count_le_length ?_)
    simp [Memory.initialTally]
  obtain ⟨after, stops, whole, ran, toured⟩ :=
    memory.sweepAll_accounts (memory.slots.length + 1)
      memory.initialTally ∅ memory.initialTally_flags room
  refine ⟨after, stops, whole, fun fuel enough => ?_, toured⟩
  exact getInternalAccounting_eq memory fuel
    (memory.sweepAll_more enough ran)

/--
The sweep is a sound and complete checker of any memory: it ends without a
fault, its verdict is good exactly if every slot is reached once in total and
nothing else is met, and then its counts are the sizes of the populations.
-/
theorem accounting_checks_memory :
    ∃ accounting,
      (∀ fuel > memory.slots.length,
          getInternalAccounting memory fuel = .ok accounting) ∧
        accounting.slots = memory.slots.length ∧
          (accounting.consistent = true ↔ memory.Accounted) ∧
            (accounting.consistent = true →
              ∀ kind,
                accounting.count kind = (memory.populated kind).ncard) := by
  obtain ⟨after, stops, whole, ran, toured⟩ :=
    getInternalAccounting_toured memory
  have initial := memory.initialTally_acc
  refine ⟨after.acc.verdict, ran, ?_, toured.accounted_iff initial, ?_⟩
  · have total : after.acc.slots = memory.slots.length := by
      rw [toured.slots, initial]
    unfold InternalAccounting.verdict
    split_ifs
    · exact total
    · exact total
  · intro good kind
    have complete := ((toured.verdict_iff initial).1 good).1
    have counts :
        after.acc.verdict.count kind = after.acc.count kind := by
      unfold InternalAccounting.verdict
      split_ifs <;> cases kind <;> rfl
    subst complete
    rw [counts, toured.count initial kind]
    have sizes :=
      toured.tour.population_ncard fun root => root.population = kind
    rw [toured.roots] at sizes
    exact sizes.symm

end Verdict

end ConcurrentCpp.HashSet
