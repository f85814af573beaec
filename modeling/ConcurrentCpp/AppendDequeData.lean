import Mathlib.Data.List.Nodup
import ConcurrentCpp.AppendDeque

namespace ConcurrentCpp.AppendDeque

/-!
# The storage of the append-only deque

What holds of the members of the deque between two critical sections, and how
they may change: sizes and directories only grow, an entry that refers to a
block refers to it for good in every array that was ever published, and
elements that have been published keep their address and their value.
-/

variable {D B V T : Type} {config : Config V}

section Arithmetic

theorem Config.blockSize_pos
    (config : Config V) :
    0 < config.blockSize :=
  Nat.two_pow_pos _

theorem Config.blockIndex_eq
    (config : Config V)
    (index : Nat) :
    config.blockIndex index = index / config.blockSize :=
  Nat.shiftRight_eq_div_pow _ _

theorem Config.localOffset_eq
    (config : Config V)
    (index : Nat) :
    config.localOffset index = index % config.blockSize :=
  Nat.and_two_pow_sub_one_eq_mod _ _

/-- Blocks have at most half as many slots as there are words. -/
theorem Config.blockSize_le
    (config : Config V) :
    config.blockSize ≤ 2 ^ 63 :=
  Nat.pow_le_pow_right (by decide) (by have := config.narrow; omega)

/-- An index is its block and its place there. -/
theorem Config.index_eq
    (config : Config V)
    (index : Nat) :
    config.blockIndex index * config.blockSize + config.localOffset index =
      index := by
  rw [config.blockIndex_eq, config.localOffset_eq]
  exact Nat.div_add_mod' index config.blockSize

theorem Config.localOffset_lt
    (config : Config V)
    (index : Nat) :
    config.localOffset index < config.blockSize := by
  rw [config.localOffset_eq]
  exact Nat.mod_lt _ config.blockSize_pos

/-- An index is in its block's range of indices. -/
theorem Config.blockIndex_lt_iff
    (config : Config V)
    {index count : Nat} :
    config.blockIndex index < count ↔ index < count * config.blockSize := by
  rw [config.blockIndex_eq]
  exact Nat.div_lt_iff_lt_mul config.blockSize_pos

/-- Rounding up without a wrap gives enough blocks. -/
theorem Config.le_blocksFor
    (config : Config V)
    {count : Nat}
    (exact : count + config.blockMask < wordSize) :
    count ≤ config.blocksFor count * config.blockSize := by
  have positive := config.blockSize_pos
  have shape :
      config.blocksFor count =
        (count + config.blockMask) / config.blockSize := by
    rw [Config.blocksFor, Nat.mod_eq_of_lt exact]
    exact Nat.shiftRight_eq_div_pow _ _
  have divided :=
    Nat.div_add_mod' (count + config.blockMask) config.blockSize
  have below := Nat.mod_lt (count + config.blockMask) positive
  rw [shape]
  unfold Config.blockMask at *
  omega

/-- The rounded up count does not reach the end of the words. -/
theorem Config.blocksFor_mul_lt
    (config : Config V)
    (count : Nat) :
    config.blocksFor count * config.blockSize < wordSize := by
  have reduced : (count + config.blockMask) % wordSize < wordSize :=
    Nat.mod_lt _ (by decide)
  have shape :
      config.blocksFor count =
        (count + config.blockMask) % wordSize / config.blockSize :=
    Nat.shiftRight_eq_div_pow _ _
  rw [shape]
  exact Nat.lt_of_le_of_lt (Nat.div_mul_le_self _ _) reduced

/-- The slots of a directory that is not too long. -/
theorem Config.slotsOf_eq
    (config : Config V)
    {capacity : Nat}
    (short : capacity * config.blockSize < wordSize) :
    config.slotsOf capacity = capacity * config.blockSize := by
  unfold Config.slotsOf
  rw [Nat.shiftLeft_eq]
  exact Nat.mod_eq_of_lt short

end Arithmetic

/-- The block of an entry. -/
def Entry.block? : Entry B → Option B
  | .block found => some found
  | _ => none

namespace Data

/-- The entries of the current directory. -/
def entries
    (data : Data D B V) :
    List (Entry B) :=
  (data.directory.bind data.arrays).getD []

/-- The blocks that the current directory refers to. -/
def recorded
    (data : Data D B V) :
    List B :=
  data.entries.filterMap Entry.block?

theorem blockAt_eq_some
    {data : Data D B V}
    {directory : Option D}
    {index : Nat}
    {block : B} :
    data.blockAt directory index = some block ↔
      data.entryAt directory index = some (.block block) := by
  unfold blockAt
  split
  · rename_i found shape
    rw [shape]
    simp
  · rename_i other
    constructor
    · intro impossible
      cases impossible
    · intro shape
      exact absurd shape (other block)

/-- The current directory is read through its entries. -/
theorem entryAt_directory
    (data : Data D B V)
    (index : Nat) :
    data.entryAt data.directory index = data.entries[index]? := by
  unfold entryAt entries
  cases data.directory with
  | none =>
      rfl
  | some array =>
      cases same : data.arrays array with
      | none =>
          simp [same]
      | some entries =>
          simp [same]

theorem entries_of
    {data : Data D B V}
    {array : D}
    {entries : List (Entry B)}
    (current : data.directory = some array)
    (allocated : data.arrays array = some entries) :
    data.entries = entries := by
  simp [Data.entries, current, allocated]

theorem blockAt_directory
    {data : Data D B V}
    {index : Nat}
    {block : B} :
    data.blockAt data.directory index = some block ↔
      data.entries[index]? = some (.block block) := by
  rw [blockAt_eq_some, entryAt_directory]

theorem entryAt_some
    {data : Data D B V}
    {array : D}
    {entries : List (Entry B)}
    (same : data.arrays array = some entries)
    (index : Nat) :
    data.entryAt (some array) index = entries[index]? := by
  simp [entryAt, same]

theorem addressAt_eq_some
    {data : Data D B V}
    {directory : Option D}
    {index : Nat}
    {address : Address B} :
    data.addressAt config directory index = some address ↔
      data.blockAt directory (config.blockIndex index) =
          some address.block ∧
        address.offset = config.localOffset index := by
  obtain ⟨block, offset⟩ := address
  unfold addressAt
  cases data.blockAt directory (config.blockIndex index) with
  | none =>
      simp
  | some found =>
      simp only [Option.map_some, Option.some.injEq, Address.mk.injEq]
      exact and_congr_right fun _ => eq_comm

end Data

/-- How the deque may change while it is used. -/
structure Grows
    (config : Config V)
    (before after : Data D B V) : Prop where
  sized : before.size ≤ after.size
  roomy : before.capacity ≤ after.capacity
  blocks : before.blocks ⊆ after.blocks
  published : before.published ⊆ after.published
  found :
    ∀ array ∈ before.published,
      ∀ index block,
        before.blockAt (some array) index = some block →
        after.blockAt (some array) index = some block
  kept :
    ∀ index block,
      before.blockAt before.directory index = some block →
      after.blockAt after.directory index = some block
  values :
    ∀ index < before.size,
      ∀ address,
        before.addressAt config before.directory index = some address →
        after.memory address.block address.offset.toNat =
          before.memory address.block address.offset.toNat

namespace Grows

variable {before middle after : Data D B V}

protected theorem refl
    (data : Data D B V) :
    Grows config data data where
  sized := Nat.le_refl _
  roomy := Nat.le_refl _
  blocks := List.Subset.refl _
  published := List.Subset.refl _
  found _ _ _ _ known := known
  kept _ _ known := known
  values _ _ _ _ := rfl

/-- Elements are found where they were. -/
theorem address
    {index : Nat}
    {address : Address B}
    (grows : Grows config before after)
    (known :
      before.addressAt config before.directory index = some address) :
    after.addressAt config after.directory index = some address := by
  rw [Data.addressAt_eq_some] at known ⊢
  exact ⟨grows.kept _ _ known.1, known.2⟩

/-- They are found there through an array that was published before, too. -/
theorem addressIn
    {array : D}
    {index : Nat}
    {address : Address B}
    (grows : Grows config before after)
    (member : array ∈ before.published)
    (known : before.addressAt config (some array) index = some address) :
    after.addressAt config (some array) index = some address := by
  rw [Data.addressAt_eq_some] at known ⊢
  exact ⟨grows.found _ member _ _ known.1, known.2⟩

protected theorem trans
    (first : Grows config before middle)
    (second : Grows config middle after) :
    Grows config before after where
  sized := Nat.le_trans first.sized second.sized
  roomy := Nat.le_trans first.roomy second.roomy
  blocks := List.Subset.trans first.blocks second.blocks
  published := List.Subset.trans first.published second.published
  found array member index block known :=
    second.found array (first.published member) index block
      (first.found array member index block known)
  kept index block known :=
    second.kept index block (first.kept index block known)
  values index bound address known :=
    (second.values index (Nat.lt_of_lt_of_le bound first.sized) address
      (first.address known)).trans
      (first.values index bound address known)

end Grows

/-- What holds of the deque while nobody holds its lock. -/
structure Formed
    (config : Config V)
    (data : Data D B V) : Prop where
  /-- `directory_` and `directory_capacity_` agree. -/
  length : data.entries.length = data.capacity
  /-- Every entry was written. -/
  written : Entry.garbage ∉ data.entries
  /-- Every published directory is the current one or retired. -/
  published :
    data.published = data.directory.toList ++ data.retired.reverse
  /-- No directory was published or retired twice. -/
  distinct : data.published.Nodup
  /-- The published arrays are those that are allocated. -/
  owned : ∀ array, data.arrays array ≠ none ↔ array ∈ data.published
  /-- Every block is recorded at one index. -/
  recorded : data.recorded.Perm data.blocks
  blocksDistinct : data.blocks.Nodup
  short : data.capacity * config.blockSize < wordSize
  bounded : data.capacity < arrayBound
  stored : data.blocks.length * config.blockSize < storageBound

namespace Formed

variable {data : Data D B V}

/-- Blocks at different indices are different. -/
theorem index_unique
    {first second : Nat}
    {block : B}
    (formed : Formed config data)
    (atFirst : data.blockAt data.directory first = some block)
    (atSecond : data.blockAt data.directory second = some block) :
    first = second := by
  rw [Data.blockAt_directory] at atFirst atSecond
  have apart : data.recorded.Nodup :=
    formed.recorded.nodup_iff.mpr formed.blocksDistinct
  have pairs := List.pairwise_iff_getElem.mp
    (List.pairwise_filterMap.mp apart)
  obtain ⟨firstBound, firstShape⟩ := List.getElem?_eq_some_iff.mp atFirst
  obtain ⟨secondBound, secondShape⟩ :=
    List.getElem?_eq_some_iff.mp atSecond
  rcases Nat.lt_trichotomy first second with lower | same | higher
  · exact absurd rfl
      (pairs first second firstBound secondBound lower
        block (by rw [firstShape]; rfl) block (by rw [secondShape]; rfl))
  · exact same
  · exact absurd rfl
      (pairs second first secondBound firstBound higher
        block (by rw [secondShape]; rfl) block (by rw [firstShape]; rfl))

/-- Different elements have different addresses. -/
theorem address_unique
    {first second : Nat}
    {address : Address B}
    (formed : Formed config data)
    (atFirst :
      data.addressAt config data.directory first = some address)
    (atSecond :
      data.addressAt config data.directory second = some address) :
    first = second := by
  rw [Data.addressAt_eq_some] at atFirst atSecond
  have sameBlock := formed.index_unique atFirst.1 atSecond.1
  have sameOffset :
      config.localOffset first = config.localOffset second := by
    exact_mod_cast atFirst.2.symm.trans atSecond.2
  rw [← config.index_eq first, ← config.index_eq second, sameBlock,
    sameOffset]

/-- The current directory is allocated. -/
theorem directory_mem
    {array : D}
    (formed : Formed config data)
    (current : data.directory = some array) :
    array ∈ data.published := by
  rw [formed.published, current]
  exact List.mem_append_left _ (by simp)

/-- Its entries are those of its array. -/
theorem arrays_directory
    {array : D}
    (formed : Formed config data)
    (current : data.directory = some array) :
    data.arrays array = some data.entries := by
  have allocated := (formed.owned array).mpr (formed.directory_mem current)
  obtain ⟨found, shape⟩ := Option.ne_none_iff_exists'.mp allocated
  simp [Data.entries, current, shape]

/-- A deque with room for blocks has a directory. -/
theorem directory_of_lt
    {index : Nat}
    (formed : Formed config data)
    (bound : index < data.capacity) :
    ∃ array,
      data.directory = some array ∧
        data.arrays array = some data.entries := by
  cases current : data.directory with
  | none =>
      have empty : data.entries = [] := by simp [Data.entries, current]
      have zero : data.capacity = 0 := by rw [← formed.length, empty]; rfl
      omega
  | some array =>
      exact ⟨array, rfl, formed.arrays_directory current⟩

/-- A recorded block is allocated. -/
theorem block_mem
    {index : Nat}
    {block : B}
    (formed : Formed config data)
    (known : data.blockAt data.directory index = some block) :
    block ∈ data.blocks := by
  rw [Data.blockAt_directory] at known
  apply formed.recorded.subset
  exact List.mem_filterMap.mpr
    ⟨_, List.mem_of_getElem? known, rfl⟩

/-- The first entries all refer to blocks, so there are as many blocks. -/
theorem count_le
    {count : Nat}
    (formed : Formed config data)
    (all :
      ∀ index < count,
        ∃ block, data.blockAt data.directory index = some block) :
    count ≤ data.blocks.length := by
  have shape :
      ∀ prefixLength ≤ count,
        prefixLength ≤
          ((data.entries.take prefixLength).filterMap
            Entry.block?).length := by
    intro prefixLength bound
    induction prefixLength with
    | zero =>
        exact Nat.zero_le _
    | succ prefixLength inductionHypothesis =>
        obtain ⟨block, known⟩ := all prefixLength (by omega)
        rw [Data.blockAt_directory] at known
        have earlier := inductionHypothesis (by omega)
        rw [List.take_add_one, known, List.filterMap_append]
        simp only [Option.toList_some, List.length_append,
          List.filterMap_cons, Entry.block?, List.filterMap_nil,
          List.length_cons, List.length_nil]
        omega
  calc
    count ≤ ((data.entries.take count).filterMap Entry.block?).length :=
      shape count (Nat.le_refl _)
    _ ≤ data.recorded.length :=
      ((List.take_sublist _ _).filterMap _).length_le
    _ = data.blocks.length := formed.recorded.length_eq

/-- A deque has storage for its elements. -/
theorem size_le
    (formed : Formed config data)
    (located :
      ∀ index < data.size,
        ∃ address,
          data.addressAt config data.directory index = some address) :
    data.size ≤ data.blocks.length * config.blockSize := by
  by_cases empty : data.size = 0
  · omega
  have covered :
      config.blockIndex (data.size - 1) + 1 ≤ data.blocks.length := by
    apply formed.count_le
    intro index bound
    have inside : index * config.blockSize < data.size := by
      have reached : index ≤ config.blockIndex (data.size - 1) := by omega
      rw [config.blockIndex_eq] at reached
      have := (Nat.le_div_iff_mul_le config.blockSize_pos).mp reached
      omega
    obtain ⟨address, known⟩ := located _ inside
    rw [Data.addressAt_eq_some, config.blockIndex_eq,
      Nat.mul_div_cancel _ config.blockSize_pos] at known
    exact ⟨address.block, known.1⟩
  have last :=
    config.blockIndex_lt_iff.mp (Nat.lt_of_succ_le covered)
  omega

end Formed

section Steps

variable {data after : Data D B V}

/-- The current directory is among the published ones. -/
def Listed
    (data : Data D B V) : Prop :=
  ∀ array, data.directory = some array → array ∈ data.published

theorem Formed.listed
    (formed : Formed config data) :
    Listed data :=
  fun _ current => formed.directory_mem current

/-- Arrays that were published are left alone. -/
theorem Grows.ofArrays
    {arrays : D → Option (List (Entry B))}
    (listed : Listed data)
    (same : ∀ array ∈ data.published, arrays array = data.arrays array) :
    Grows config data { data with arrays := arrays } := by
  have found :
      ∀ array ∈ data.published,
        ∀ index block,
          data.blockAt (some array) index = some block →
          ({ data with arrays := arrays } : Data D B V).blockAt
            (some array) index = some block := by
    intro array member index block known
    rw [Data.blockAt_eq_some] at known ⊢
    simpa [Data.entryAt, same array member] using known
  refine ⟨Nat.le_refl _, Nat.le_refl _, List.Subset.refl _,
    List.Subset.refl _, found, ?_, fun _ _ _ _ => rfl⟩
  intro index block known
  cases current : data.directory with
  | none =>
      rw [Data.blockAt_eq_some, current] at known
      cases known
  | some array =>
      rw [current] at known
      exact found array (listed array current) index block known

/-- The directory, the arrays and the elements are left alone. -/
theorem Grows.ofStorage
    (sized : data.size ≤ after.size)
    (roomy : data.capacity ≤ after.capacity)
    (blocks : data.blocks ⊆ after.blocks)
    (published : data.published ⊆ after.published)
    (sameDirectory : after.directory = data.directory)
    (sameArrays : after.arrays = data.arrays)
    (sameMemory : after.memory = data.memory) :
    Grows config data after := by
  have same :
      ∀ directory index,
        after.blockAt directory index = data.blockAt directory index := by
    intro directory index
    simp [Data.blockAt, Data.entryAt, sameArrays]
  refine ⟨sized, roomy, blocks, published, ?_, ?_, ?_⟩
  · intro array member index block known
    rw [same]
    exact known
  · intro index block known
    rw [same, sameDirectory]
    exact known
  · intro index bound address known
    rw [sameMemory]

/-- A directory with more entries is published. -/
theorem Grows.publish
    {array : D}
    {entries : List (Entry B)}
    (allocated : data.arrays array = some entries)
    (larger :
      ∀ (index : Nat) (block : B),
        data.entries[index]? = some (.block block) →
        entries[index]? = some (.block block)) :
    Grows config data
      { data with
        directory := some array
        published := array :: data.published } where
  sized := Nat.le_refl _
  roomy := Nat.le_refl _
  blocks := List.Subset.refl _
  published := List.subset_cons_self _ _
  found _ _ _ _ known := known
  kept index block known := by
    rw [Data.blockAt_directory] at known
    have found : data.entryAt (some array) index = some (.block block) :=
      (Data.entryAt_some allocated index).trans (larger index block known)
    exact Data.blockAt_eq_some.mpr found
  values _ _ _ _ := rfl

variable [DecidableEq D]

/-- An array that was not published is private to its writer. -/
theorem Grows.withArray
    {array : D}
    {entries : List (Entry B)}
    (listed : Listed data)
    (hidden : array ∉ data.published) :
    Grows config data (data.withArray array entries) := by
  apply Grows.ofArrays listed
  intro other member
  have different : other ≠ array := fun same => hidden (same ▸ member)
  exact Function.update_of_ne different _ _

/-- A null entry of the current directory receives a block. -/
theorem Grows.setEntry
    {array : D}
    {entries : List (Entry B)}
    {index : Nat}
    {block : B}
    (current : data.directory = some array)
    (allocated : data.arrays array = some entries)
    (empty : entries[index]? = some .null) :
    Grows config data
      (data.withArray array (entries.set index (.block block))) := by
  have found :
      ∀ other position recorded,
        data.blockAt (some other) position = some recorded →
        (data.withArray array (entries.set index (.block block))).blockAt
          (some other) position = some recorded := by
    intro other position recorded known
    rw [Data.blockAt_eq_some] at known ⊢
    by_cases same : other = array
    · subst same
      rw [Data.entryAt_some allocated] at known
      have different : index ≠ position := by
        rintro rfl
        rw [empty] at known
        cases known
      rw [Data.entryAt_some (Function.update_self ..),
        List.getElem?_set_ne different]
      exact known
    · simpa [Data.entryAt, Data.withArray,
        Function.update_of_ne same] using known
  refine ⟨Nat.le_refl _, Nat.le_refl _, List.Subset.refl _,
    List.Subset.refl _, ?_, ?_, fun _ _ _ _ => rfl⟩
  · exact fun other _ => found other
  · intro position recorded known
    rw [current] at known
    simp only [Data.withArray, current]
    exact found array position recorded known

variable [DecidableEq B]

omit [DecidableEq D] in
/-- The value is at its address and all others are where they were. -/
theorem Data.withValue_memory
    {address other : Address B}
    {value : V}
    (known : 0 ≤ address.offset)
    (knownOther : 0 ≤ other.offset) :
    (data.withValue address value).memory other.block
        other.offset.toNat =
      if other = address then some value
      else data.memory other.block other.offset.toNat := by
  by_cases same : other = address
  · subst same
    simp [Data.withValue]
  · rw [if_neg same]
    by_cases sameBlock : other.block = address.block
    · have different : other.offset.toNat ≠ address.offset.toNat := by
        intro sameOffset
        apply same
        obtain ⟨block, offset⟩ := other
        obtain ⟨_, _⟩ := address
        simp only [Address.mk.injEq] at *
        exact ⟨sameBlock, by omega⟩
      simp only [Data.withValue, sameBlock, Function.update_self]
      exact Function.update_of_ne different _ _
    · simp only [Data.withValue]
      rw [Function.update_of_ne sameBlock]

omit [DecidableEq D] [DecidableEq B] in
theorem Data.offset_nonneg
    {directory : Option D}
    {index : Nat}
    {address : Address B}
    (known : data.addressAt config directory index = some address) :
    0 ≤ address.offset := by
  rw [(Data.addressAt_eq_some.mp known).2]
  exact Int.natCast_nonneg _

omit [DecidableEq D] in
/-- An element beyond the size is constructed. -/
theorem Grows.withValue
    {index : Nat}
    {address : Address B}
    {value : V}
    (formed : Formed config data)
    (beyond : data.size ≤ index)
    (known :
      data.addressAt config data.directory index = some address) :
    Grows config data (data.withValue address value) where
  sized := Nat.le_refl _
  roomy := Nat.le_refl _
  blocks := List.Subset.refl _
  published := List.Subset.refl _
  found _ _ _ _ known := known
  kept _ _ known := known
  values position bound other knownOther := by
    rw [Data.withValue_memory (Data.offset_nonneg known)
      (Data.offset_nonneg knownOther), if_neg]
    rintro rfl
    have := formed.address_unique known knownOther
    omega

omit [DecidableEq B] in
/-- The larger directory has taken the place of the old one. -/
theorem Formed.replaced
    {array : D}
    {capacity : Nat}
    (formed : Formed config data)
    (fresh : data.arrays array = none)
    (larger : data.capacity ≤ capacity)
    (short : capacity * config.blockSize < wordSize)
    (bounded : capacity < arrayBound) :
    Formed config
      { data.withArray array
          (data.entries ++
            List.replicate (capacity - data.capacity) .null) with
        directory := some array
        capacity := capacity
        retired := data.retired ++ data.directory.toList
        published := array :: data.published } := by
  have entries :
      Data.entries
        { data.withArray array
            (data.entries ++
              List.replicate (capacity - data.capacity) .null) with
          directory := some array
          capacity := capacity
          retired := data.retired ++ data.directory.toList
          published := array :: data.published } =
        data.entries ++
          List.replicate (capacity - data.capacity) .null :=
    Data.entries_of rfl (Function.update_self ..)
  have hidden : array ∉ data.published := by
    intro member
    exact (formed.owned array).mpr member fresh
  refine
    { length := ?_
      written := ?_
      published := ?_
      distinct := List.nodup_cons.mpr ⟨hidden, formed.distinct⟩
      owned := ?_
      recorded := ?_
      blocksDistinct := formed.blocksDistinct
      short := short
      bounded := bounded
      stored := formed.stored }
  · rw [entries, List.length_append, formed.length, List.length_replicate]
    exact Nat.add_sub_cancel' larger
  · rw [entries, List.mem_append, List.mem_replicate]
    rintro (old | ⟨-, new⟩)
    · exact formed.written old
    · cases new
  · simp only [formed.published, Option.toList_some, List.reverse_append]
    cases data.directory <;> simp
  · intro other
    by_cases same : other = array
    · subst same
      simp [Data.withArray]
    · simp only [Data.withArray, Function.update_of_ne same,
        List.mem_cons, same, false_or]
      exact formed.owned other
  · unfold Data.recorded
    rw [entries, List.filterMap_append]
    have none_ :
        (List.replicate (capacity - data.capacity)
          (Entry.null : Entry B)).filterMap Entry.block? = [] :=
      List.filterMap_eq_nil_iff.mpr fun entry member => by
        rw [(List.mem_replicate.mp member).2]
        rfl
    rw [none_, List.append_nil]
    exact formed.recorded

omit [DecidableEq D] [DecidableEq B] in
/-- A null entry that receives a block adds it to the recorded ones. -/
theorem filterMap_set
    {entries : List (Entry B)}
    {index : Nat}
    {block : B}
    (empty : entries[index]? = some .null) :
    ((entries.set index (.block block)).filterMap Entry.block?).Perm
      (block :: entries.filterMap Entry.block?) := by
  induction entries generalizing index with
  | nil =>
      cases empty
  | cons entry rest inductionHypothesis =>
      cases index with
      | zero =>
          simp only [List.getElem?_cons_zero, Option.some.injEq] at empty
          subst empty
          exact List.Perm.refl _
      | succ index =>
          have later :=
            inductionHypothesis
              (show rest[index]? = some .null by simpa using empty)
          simp only [List.set_cons_succ]
          cases known : entry.block? with
          | none =>
              simpa [known] using later
          | some found =>
              simp only [List.filterMap_cons, known]
              exact (later.cons found).trans (List.Perm.swap _ _ _)

omit [DecidableEq B] in
/-- A null entry of the directory has received a new block. -/
theorem Formed.backed
    {array : D}
    {index : Nat}
    {block : B}
    (formed : Formed config data)
    (current : data.directory = some array)
    (empty : data.entries[index]? = some .null)
    (fresh : block ∉ data.blocks)
    (room :
      (data.blocks.length + 1) * config.blockSize < storageBound) :
    Formed config
      { data.withArray array (data.entries.set index (.block block)) with
        blocks := block :: data.blocks } := by
  have entries :
      Data.entries
        { data.withArray array
            (data.entries.set index (.block block)) with
          blocks := block :: data.blocks } =
        data.entries.set index (.block block) :=
    Data.entries_of current (Function.update_self ..)
  refine
    { length := by rw [entries, List.length_set]; exact formed.length
      written := ?_
      published := formed.published
      distinct := formed.distinct
      owned := ?_
      recorded := ?_
      blocksDistinct := List.nodup_cons.mpr ⟨fresh, formed.blocksDistinct⟩
      short := formed.short
      bounded := formed.bounded
      stored := room }
  · rw [entries]
    intro member
    rcases List.mem_or_eq_of_mem_set member with old | new
    · exact formed.written old
    · cases new
  · intro other
    by_cases same : other = array
    · subst same
      simp only [Data.withArray, Function.update_self, ne_eq,
        reduceCtorEq, not_false_eq_true, true_iff]
      exact formed.directory_mem current
    · simp only [Data.withArray, Function.update_of_ne same]
      exact formed.owned other
  · unfold Data.recorded
    rw [entries]
    exact (filterMap_set empty).trans (formed.recorded.cons block)

end Steps

end ConcurrentCpp.AppendDeque
