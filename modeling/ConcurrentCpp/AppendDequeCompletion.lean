import Mathlib.Data.Set.Finite.Basic
import Mathlib.Order.Interval.Finset.Nat
import ConcurrentCpp.Completion
import ConcurrentCpp.AppendDequeRuns

namespace ConcurrentCpp.AppendDeque

/-!
# Completion of calls

A call that finds the lock free, has storage for what it needs and meets no
exception on its way returns normally, whatever exceptions came before it: the
blocks that an earlier call left behind are used and not allocated again.
-/

variable {D B V T : Type} [DecidableEq D] [DecidableEq B] [DecidableEq T]
variable {config : Config V} {thread : T} {state : State D B V T}

section Storage

/-- No allocation fails and no constructor throws. -/
def Choice.Succeeds : Choice D B V T → Prop
  | .fail => False
  | _ => True

omit [DecidableEq D] [DecidableEq B] [DecidableEq T] in
theorem exists_succeeds :
    ∃ choice : Choice D B V T, choice.Succeeds :=
  ⟨.proceed, trivial⟩

/-- The indices of a range at which a directory has no block. -/
def missing
    (data : Data D B V)
    (low high : Nat) :
    Finset Nat :=
  (Finset.Ico low high).filter fun index =>
    data.blockAt data.directory index = none

/-- The indices of a range at which an array is null. -/
def nulls
    (entries : List (Entry B))
    (low high : Nat) :
    Finset Nat :=
  (Finset.Ico low high).filter fun index =>
    entries[index]? = some .null

/-- The arrays and the blocks that a call needs can be had. -/
def Room
    (config : Config V)
    (data : Data D B V) :
    Call V → Prop
  | .emplaceBack _ =>
      (data.capacity ≤ config.blockIndex data.size →
        doubled data.capacity < arrayBound) ∧
      (data.blocks.length +
        (missing data (config.blockIndex data.size)
          (config.blockIndex data.size + 1)).card) *
            config.blockSize < storageBound
  | .resize newSize =>
      (data.capacity < config.blocksFor newSize →
        config.blocksFor newSize < arrayBound) ∧
      (data.blocks.length +
        (missing data (config.blockIndex data.size)
          (config.blocksFor newSize)).card) *
            config.blockSize < storageBound
  | .reserve newCapacity =>
      config.slotsOf data.capacity < newCapacity →
        config.blocksFor newCapacity < arrayBound
  | .capacity => True

omit [DecidableEq D] [DecidableEq T] in
/-- A null entry that receives a block is not null any more. -/
theorem nulls_set
    {entries : List (Entry B)}
    {index low high : Nat}
    {block : B}
    (empty : entries[index]? = some .null)
    (inside : low ≤ index ∧ index < high) :
    (nulls (entries.set index (.block block)) low high).card + 1 =
      (nulls entries low high).card := by
  have bound := (List.getElem?_eq_some_iff.mp empty).1
  have erased :
      nulls (entries.set index (.block block)) low high =
        (nulls entries low high).erase index := by
    ext position
    simp only [nulls, Finset.mem_filter, Finset.mem_Ico,
      Finset.mem_erase]
    by_cases same : index = position
    · subst same
      rw [List.getElem?_set_self bound]
      simp
    · rw [List.getElem?_set_ne same]
      constructor
      · exact fun known => ⟨fun other => same other.symm, known⟩
      · exact fun known => known.2
  have member : index ∈ nulls entries low high := by
    simp only [nulls, Finset.mem_filter, Finset.mem_Ico]
    exact ⟨inside, empty⟩
  rw [erased]
  exact Finset.card_erase_add_one member

omit [DecidableEq D] [DecidableEq T] in
/-- A later directory has fewer null entries than blocks were missing. -/
theorem nulls_le_missing
    {before after : Data D B V}
    {low high : Nat}
    (grows : Grows config before after) :
    (nulls after.entries low high).card ≤
      (missing before low high).card := by
  apply Finset.card_le_card
  intro index member
  simp only [nulls, missing, Finset.mem_filter] at member ⊢
  refine ⟨member.1, ?_⟩
  cases known : before.blockAt before.directory index with
  | none =>
      rfl
  | some block =>
      have kept := grows.kept index block known
      rw [Data.blockAt_directory, member.2] at kept
      cases kept

/-- An array and the number of blocks that filling its range may need. -/
def Stocked
    (array : D)
    (low high total : Nat)
    (state : State D B V T) : Prop :=
  ∃ entries,
    state.data.arrays array = some entries ∧
      state.data.blocks.length + (nulls entries low high).card ≤ total

end Storage

section Blocks

variable {array : D} {low high total : Nat} {post : Bool → State D B V T → Prop}

omit [DecidableEq D] [DecidableEq T] in
/-- Steps that leave the storage alone keep it stocked. -/
theorem Stocked.same
    {after : State D B V T}
    (stocked : Stocked array low high total state)
    (arrays : after.data.arrays = state.data.arrays)
    (blocks : after.data.blocks = state.data.blocks) :
    Stocked array low high total after := by
  unfold Stocked at *
  rw [arrays, blocks]
  exact stocked

omit [DecidableEq D] [DecidableEq B] [DecidableEq T] in
/-- Reading an entry finishes, and null was read from the array. -/
theorem readEntry_finishes
    (directory : Option D)
    (index : Nat) :
    Finishes Choice.Succeeds
      (fun entry after =>
        after.data = state.data ∧
          (entry = .null →
            state.data.entryAt directory index = some .null))
      (readEntry directory index : Program D B V T (Entry B)) state := by
  cases known : state.data.entryAt directory index with
  | none =>
      refine Finishes.atomic
        ⟨.proceed, trivial, by simp [known]⟩ ?_
      intro choice value after _ ran
      simp only [known, Option.some.injEq, Prod.mk.injEq] at ran
      obtain ⟨rfl, rfl⟩ := ran
      exact ⟨rfl, fun impossible => nomatch impossible⟩
  | some entry =>
      cases entry with
      | garbage =>
          refine Finishes.atomic
            ⟨.proceed, trivial, by simp [known]⟩ ?_
          intro choice value after _ ran
          simp only [known, Option.some.injEq, Prod.mk.injEq] at ran
          obtain ⟨rfl, rfl⟩ := ran
          exact ⟨rfl, fun impossible => nomatch impossible⟩
      | null =>
          refine Finishes.atomic
            ⟨.proceed, trivial, by simp [known]⟩ ?_
          intro choice value after _ ran
          simp only [known, Option.some.injEq, Prod.mk.injEq] at ran
          obtain ⟨rfl, rfl⟩ := ran
          exact ⟨rfl, fun _ => rfl⟩
      | block block =>
          refine Finishes.atomic
            ⟨.proceed, trivial, by simp [known]⟩ ?_
          intro choice value after _ ran
          simp only [known, Option.some.injEq, Prod.mk.injEq] at ran
          obtain ⟨rfl, rfl⟩ := ran
          exact ⟨rfl, fun impossible => nomatch impossible⟩

omit [DecidableEq D] [DecidableEq T] in
/-- With storage for one more block, its allocation can succeed. -/
theorem allocateBlock_finishes
    [Infinite B]
    (storage :
      (state.data.blocks.length + 1) * config.blockSize < storageBound) :
    Finishes Choice.Succeeds
      (fun allocated after =>
        ∃ block,
          allocated = some block ∧
            after =
              { state with
                data :=
                  { state.data with blocks := block :: state.data.blocks } })
      (allocateBlock config : Program D B V T (Option B)) state := by
  refine Finishes.atomic ?_ ?_
  · obtain ⟨block, fresh⟩ :=
      Infinite.exists_notMem_finset state.data.blocks.toFinset
    refine ⟨.block block, trivial, ?_⟩
    simp only [List.mem_toFinset] at fresh
    simp [fresh, storage]
  · intro choice value after succeeds ran
    cases choice with
    | fail =>
        exact succeeds.elim
    | block address =>
        simp only [Option.ite_none_right_eq_some, Option.some.injEq,
          Prod.mk.injEq] at ran
        obtain ⟨-, rfl, rfl⟩ := ran
        exact ⟨address, rfl, rfl⟩
    | _ =>
        cases ran

omit [DecidableEq T] in
/-- The slot gets its block. -/
theorem ensureBlock_finishes
    [Infinite B]
    {index : Nat}
    (enough : total * config.blockSize < storageBound)
    (inside : low ≤ index ∧ index < high)
    (stocked : Stocked array low high total state) :
    Finishes Choice.Succeeds
      (fun backed after =>
        backed = true ∧ Stocked array low high total after)
      (ensureBlock config (some array) index : Program D B V T Bool)
      state := by
  refine Finishes.bind (readEntry_finishes (some array) index) ?_
  rintro entry after ⟨same, wasNull⟩
  have stockedAfter : Stocked array low high total after :=
    stocked.same (by rw [same]) (by rw [same])
  cases entry with
  | null =>
      obtain ⟨entries, arrays, count⟩ := stockedAfter
      have empty : entries[index]? = some .null := by
        rw [← Data.entryAt_some arrays, same]
        exact wasNull rfl
      have positive :
          ∀ block : B,
            (nulls (entries.set index (.block block)) low high).card + 1 =
              (nulls entries low high).card :=
        fun _ => nulls_set empty inside
      have bound := (List.getElem?_eq_some_iff.mp empty).1
      have member : index ∈ nulls entries low high := by
        simp only [nulls, Finset.mem_filter, Finset.mem_Ico]
        exact ⟨inside, empty⟩
      have storage :
          (after.data.blocks.length + 1) * config.blockSize <
            storageBound := by
        refine Nat.lt_of_le_of_lt (Nat.mul_le_mul_right _ ?_) enough
        have := Finset.card_pos.mpr ⟨index, member⟩
        omega
      refine Finishes.bind (allocateBlock_finishes storage) ?_
      rintro allocated third ⟨block, rfl, rfl⟩
      have written :
          Finishes Choice.Succeeds
            (fun _ last => Stocked array low high total last)
            (writeEntry (some array) index (.block block) :
              Program D B V T Unit)
            { after with
              data :=
                { after.data with blocks := block :: after.data.blocks } } := by
        refine Finishes.write exists_succeeds ?_
        simp only [State.setEntry, arrays, bound, ↓reduceIte]
        refine ⟨entries.set index (.block block),
          Function.update_self .., ?_⟩
        have := positive block
        simp only [Data.withArray, List.length_cons]
        omega
      refine Finishes.bind written ?_
      intro _ last known
      exact Finishes.pure ⟨rfl, known⟩
  | garbage =>
      exact Finishes.pure ⟨rfl, stockedAfter⟩
  | block block =>
      exact Finishes.pure ⟨rfl, stockedAfter⟩

omit [DecidableEq D] [DecidableEq B] [DecidableEq T] in
/-- An address is computed, whatever the directory holds. -/
theorem elementAddress_finishes
    (directory : Option D)
    (index : Nat) :
    Finishes Choice.Succeeds
      (fun _ after => after.data = state.data)
      (elementAddress config directory index :
        Program D B V T (Option (Address B))) state := by
  cases known : state.data.addressAt config directory index with
  | none =>
      refine Finishes.atomic ⟨.proceed, trivial, by simp [known]⟩ ?_
      intro choice value after _ ran
      simp only [known, Option.some.injEq, Prod.mk.injEq] at ran
      obtain ⟨-, rfl⟩ := ran
      rfl
  | some address =>
      refine Finishes.atomic ⟨.proceed, trivial, by simp [known]⟩ ?_
      intro choice value after _ ran
      simp only [known, Option.some.injEq, Prod.mk.injEq] at ran
      obtain ⟨-, rfl⟩ := ran
      rfl

omit [DecidableEq D] [DecidableEq T] in
/-- A constructor leaves the storage alone. -/
theorem Stocked.construct
    {index : Nat}
    {address : Option (Address B)}
    {value : V}
    (stocked : Stocked array low high total state) :
    Stocked array low high total
      (state.construct thread index address value) := by
  cases address with
  | none =>
      exact stocked
  | some address =>
      exact stocked.same rfl rfl

omit [DecidableEq T] in
/-- The loop of `resize` fills its range. -/
theorem fill_finishes
    [Infinite B]
    {newSize size : Nat}
    (enough : total * config.blockSize < storageBound)
    (range :
      ∀ index,
        size ≤ index →
        index < newSize →
        low ≤ config.blockIndex index ∧ config.blockIndex index < high)
    (stocked : Stocked array low high total state) :
    Finishes Choice.Succeeds
      (fun filled _ => filled = true)
      (fill config thread (some array) newSize size :
        Program D B V T Bool) state := by
  refine Finishes.loop
    (fun index current =>
      size ≤ index ∧ Stocked array low high total current)
    (fun index => newSize - index) ?_ exists_succeeds
    ⟨Nat.le_refl _, stocked⟩
  rintro index current ⟨low_, stockedHere⟩
  by_cases more : index < newSize
  · rw [if_pos more]
    refine Finishes.bind
      (ensureBlock_finishes enough (range index low_ more)
        stockedHere) ?_
    rintro backed after ⟨rfl, stockedAfter⟩
    simp only [↓reduceIte]
    refine Finishes.bind (elementAddress_finishes (some array) index) ?_
    intro address third same
    have initialized :
        Finishes Choice.Succeeds
          (fun _ last => Stocked array low high total last)
          (valueInitialize config thread index address :
            Program D B V T Unit) third :=
      Finishes.write exists_succeeds
        (Stocked.construct
          (stockedAfter.same (by rw [same]) (by rw [same])))
    refine Finishes.bind initialized ?_
    intro _ last known
    exact .ret ⟨⟨Nat.le_succ_of_le low_, known⟩, by omega⟩
  · rw [if_neg more]
    exact .ret rfl

end Blocks

section Reallocation

omit [DecidableEq B] [DecidableEq T] in
/-- Entries are written without a change of the length. -/
theorem writeEntry_finishes
    {capacity : Nat}
    (directory : Option D)
    (index : Nat)
    (entry : Entry B)
    (same : state.data.capacity = capacity) :
    Finishes Choice.Succeeds
      (fun _ after => after.data.capacity = capacity)
      (writeEntry directory index entry : Program D B V T Unit) state := by
  refine Finishes.write exists_succeeds ?_
  unfold State.setEntry
  split
  · exact same
  · split
    · exact same
    · split
      · exact same
      · exact same

omit [DecidableEq B] [DecidableEq T] in
theorem copyEntries_finishes
    (oldDirectory : Option D)
    (newDirectory : D) :
    Finishes Choice.Succeeds
      (fun _ after => after.data.capacity = state.data.capacity)
      (copyEntries oldDirectory newDirectory : Program D B V T Unit)
      state := by
  refine Finishes.loop
    (fun _ current => current.data.capacity = state.data.capacity)
    (fun index => state.data.capacity - index) ?_ exists_succeeds rfl
  intro index current same
  have loaded :
      Finishes Choice.Succeeds
        (fun capacity after =>
          capacity = state.data.capacity ∧ after = current)
        (loadCapacity : Program D B V T Nat) current :=
    Finishes.read exists_succeeds ⟨same, rfl⟩
  refine Finishes.bind loaded ?_
  rintro capacity after ⟨rfl, rfl⟩
  by_cases more : index < state.data.capacity
  · rw [if_pos more]
    refine Finishes.bind (readEntry_finishes oldDirectory index) ?_
    rintro entry third ⟨unchanged, -⟩
    refine Finishes.bind
      (writeEntry_finishes (some newDirectory) index entry
        ((congrArg Data.capacity unchanged).trans same)) ?_
    intro _ last known
    exact .ret ⟨known, by omega⟩
  · rw [if_neg more]
    exact .ret same

omit [DecidableEq B] [DecidableEq T] in
theorem clearEntries_finishes
    (newDirectory : D)
    (newCapacity start : Nat) :
    Finishes Choice.Succeeds
      (fun _ _ => True)
      (clearEntries newDirectory newCapacity start :
        Program D B V T Unit) state := by
  refine Finishes.loop (fun _ _ => True) (fun index => newCapacity - index)
    ?_ exists_succeeds trivial
  intro index current _
  by_cases more : index < newCapacity
  · rw [if_pos more]
    refine Finishes.bind
      (writeEntry_finishes (some newDirectory) index .null rfl) ?_
    intro _ last _
    exact .ret ⟨trivial, by omega⟩
  · rw [if_neg more]
    exact .ret trivial

omit [DecidableEq B] [DecidableEq T] in
/-- The directory is replaced if its array can be had. -/
theorem reallocateDirectory_finishes
    {newCapacity : Nat}
    (fresh : ∃ array, state.data.arrays array = none)
    (bounded : newCapacity < arrayBound) :
    Finishes Choice.Succeeds
      (fun grown _ => grown = true)
      (reallocateDirectory newCapacity : Program D B V T Bool) state := by
  have allocated :
      Finishes Choice.Succeeds
        (fun (result : Option D) _ => result.isSome = true)
        (allocateArray newCapacity : Program D B V T (Option D)) state := by
    refine Finishes.atomic ?_ ?_
    · obtain ⟨array, free⟩ := fresh
      exact ⟨.array array, trivial, by simp [free, bounded]⟩
    · intro choice value after succeeds ran
      cases choice with
      | fail =>
          exact succeeds.elim
      | array address =>
          simp only [Option.ite_none_right_eq_some, Option.some.injEq,
            Prod.mk.injEq] at ran
          obtain ⟨-, rfl, -⟩ := ran
          rfl
      | _ =>
          cases ran
  refine Finishes.bind allocated ?_
  intro result second some_
  obtain ⟨newDirectory, rfl⟩ := Option.isSome_iff_exists.mp some_
  have loaded :
      Finishes Choice.Succeeds (fun _ _ => True)
        (loadDirectory : Program D B V T (Option D)) second :=
    Finishes.read exists_succeeds trivial
  refine Finishes.bind loaded ?_
  intro oldDirectory third _
  refine Finishes.bind (copyEntries_finishes oldDirectory newDirectory) ?_
  intro _ fourth _
  have counted :
      Finishes Choice.Succeeds (fun _ _ => True)
        (loadCapacity : Program D B V T Nat) fourth :=
    Finishes.read exists_succeeds trivial
  refine Finishes.bind counted ?_
  intro start fifth _
  refine Finishes.bind
    (clearEntries_finishes newDirectory newCapacity start) ?_
  intro _ sixth _
  have retired :
      Finishes Choice.Succeeds (fun recorded _ => recorded = true)
        (retire oldDirectory : Program D B V T Bool) sixth := by
    refine Finishes.atomic
      ⟨.proceed, trivial, by cases oldDirectory <;> rfl⟩ ?_
    intro choice value after succeeds ran
    cases oldDirectory with
    | none =>
        cases ran
        rfl
    | some array =>
        cases choice with
        | fail =>
            exact succeeds.elim
        | _ =>
            cases ran
            rfl
  refine Finishes.bind retired ?_
  rintro recorded seventh rfl
  simp only [↓reduceIte]
  refine Finishes.bind
    (Finishes.write exists_succeeds trivial :
      Finishes Choice.Succeeds (fun _ _ => True)
        (publish newDirectory : Program D B V T Unit) seventh) ?_
  intro _ eighth _
  refine Finishes.bind
    (Finishes.write exists_succeeds trivial :
      Finishes Choice.Succeeds (fun _ _ => True)
        (storeCapacity newCapacity : Program D B V T Unit) eighth) ?_
  intro _ last _
  exact Finishes.pure rfl

end Reallocation

section Bodies

variable
  {found : Data D B V}
  {list : List (Event D B V T)}

omit [DecidableEq D] [DecidableEq B] in
/-- Reading the size of the data that the writer has found. -/
theorem loadSize_finishes
    (owned :
      (owns config thread found list found.size
        fun data => data = found).holds (state, ())) :
    Finishes Choice.Succeeds
      (fun size after => size = found.size ∧ state = after)
      (loadSize : Program D B V T Nat) state :=
  Finishes.read exists_succeeds
    ⟨congrArg Data.size owned.2.2.2, rfl⟩

omit [DecidableEq D] [DecidableEq B] in
/-- Reading the length that the writer has found. -/
theorem loadCapacity_finishes
    (owned :
      (owns config thread found list found.size
        fun data => data = found).holds (state, ())) :
    Finishes Choice.Succeeds
      (fun capacity after => capacity = found.capacity ∧ state = after)
      (loadCapacity : Program D B V T Nat) state :=
  Finishes.read exists_succeeds
    ⟨congrArg Data.capacity owned.2.2.2, rfl⟩

omit [DecidableEq B] in
/-- A replacement of the directory succeeds, if it is needed. -/
theorem reallocateIf_finishes
    [Infinite D]
    {needed : Bool}
    {newCapacity room : Nat}
    (intact : Intact config state)
    (owned :
      (owns config thread found list found.size
        fun data => data = found).holds (state, ()))
    (formed : Formed config found)
    (larger : needed = true → found.capacity ≤ newCapacity)
    (short : needed = true → newCapacity * config.blockSize < wordSize)
    (enough : room ≤ if needed then newCapacity else found.capacity)
    (bounded : needed = true → newCapacity < arrayBound) :
    Finishes Choice.Succeeds
      (fun grown after =>
        grown = true ∧ Ready config found room after.data)
      (reallocateIf needed newCapacity : Program D B V T Bool) state := by
  have fresh : ∃ array, state.data.arrays array = none := by
    obtain ⟨array, unused⟩ :=
      Infinite.exists_notMem_finset found.published.toFinset
    refine ⟨array, ?_⟩
    rw [owned.2.2.2]
    by_contra allocated
    exact unused (List.mem_toFinset.mpr ((formed.owned array).mp allocated))
  have finishes :
      Finishes Choice.Succeeds (fun grown _ => grown = true)
        (reallocateIf needed newCapacity : Program D B V T Bool)
        state := by
    cases needed with
    | true =>
        exact reallocateDirectory_finishes fresh (bounded rfl)
    | false =>
        exact Finishes.pure rfl
  have triple :
      Triple (protocol config) thread
        (owns config thread found list found.size fun data => data = found)
        (reallocateIf needed newCapacity : Program D B V T Bool)
        fun grown =>
          owns config thread found list found.size fun data =>
            if grown then Ready config found room data else data = found :=
    reallocateIf_triple formed larger short enough
  have verified :=
    finishes.verified intact fun fuel =>
      triple fuel (state, ()) intact owned
  refine verified.mono ?_
  rintro grown after ⟨rfl, -, -, -, -, ready⟩
  exact ⟨rfl, ready⟩

/-- The body of `emplace_back`. -/
theorem append_finishes
    [Infinite D]
    [Infinite B]
    {value : V}
    (intact : Intact config state)
    (owned :
      (owns config thread found list found.size
        fun data => data = found).holds (state, ()))
    (formed : Formed config found)
    (located : Located config found)
    (room : Room config found (.emplaceBack value)) :
    Finishes Choice.Succeeds
      (fun outcome _ => outcome ≠ .threw)
      (append config thread value : Program D B V T Outcome) state := by
  refine Finishes.bind (loadSize_finishes owned) ?_
  rintro size after ⟨rfl, rfl⟩
  refine Finishes.bind (loadCapacity_finishes owned) ?_
  rintro capacity after ⟨rfl, rfl⟩
  have grown :
      Finishes Choice.Succeeds
        (fun grown after =>
          grown = true ∧
            Ready config found (config.blockIndex found.size + 1)
              after.data)
        (reallocateIf (found.capacity ≤ config.blockIndex found.size)
          (doubled found.capacity) : Program D B V T Bool) state :=
    reallocateIf_finishes intact owned formed (append_larger formed)
      (append_short formed located) (append_enough formed located)
      fun needed => room.1 (by simpa using needed)
  refine Finishes.bind grown ?_
  rintro success second ⟨rfl, ready⟩
  simp only [↓reduceIte]
  obtain ⟨array, current, arrays⟩ :=
    ready.formed.directory_of_lt
      (Nat.lt_of_lt_of_le (Nat.lt_succ_self _) ready.roomy)
  have loaded :
      Finishes Choice.Succeeds
        (fun directory third => directory = some array ∧ second = third)
        (loadDirectory : Program D B V T (Option D)) second :=
    Finishes.read exists_succeeds ⟨current, rfl⟩
  refine Finishes.bind loaded ?_
  rintro directory third ⟨rfl, rfl⟩
  have stocked :
      Stocked array (config.blockIndex found.size)
        (config.blockIndex found.size + 1)
        (found.blocks.length +
          (missing found (config.blockIndex found.size)
            (config.blockIndex found.size + 1)).card) second :=
    ⟨second.data.entries, arrays, by
      rw [ready.blocks]
      exact Nat.add_le_add_left (nulls_le_missing ready.grows) _⟩
  refine Finishes.bind
    (ensureBlock_finishes room.2
      ⟨Nat.le_refl _, Nat.lt_succ_self _⟩ stocked) ?_
  rintro backed fourth ⟨rfl, -⟩
  simp only [↓reduceIte]
  refine Finishes.bind
    (elementAddress_finishes (some array) found.size) ?_
  intro address fifth _
  have built :
      Finishes Choice.Succeeds (fun built _ => built = true)
        (constructElement thread found.size address value :
          Program D B V T Bool) fifth := by
    refine Finishes.atomic ⟨.proceed, trivial, rfl⟩ ?_
    intro choice result last succeeds ran
    cases choice with
    | fail =>
        exact succeeds.elim
    | _ =>
        cases ran
        rfl
  refine Finishes.bind built ?_
  rintro success sixth rfl
  simp only [↓reduceIte]
  refine Finishes.bind
    (Finishes.write exists_succeeds trivial :
      Finishes Choice.Succeeds (fun _ _ => True)
        (storeSize thread found.size ((found.size + 1) % wordSize) :
          Program D B V T Unit) sixth) ?_
  intro _ last _
  exact Finishes.pure (fun impossible => nomatch impossible)

omit [DecidableEq B] in
/-- The body of `reserve`. -/
theorem extend_finishes
    [Infinite D]
    {newCapacity : Nat}
    (intact : Intact config state)
    (owned :
      (owns config thread found list found.size
        fun data => data = found).holds (state, ()))
    (formed : Formed config found)
    (rounds : newCapacity + config.blockMask < wordSize)
    (room : Room config found (.reserve newCapacity)) :
    Finishes Choice.Succeeds
      (fun outcome _ => outcome ≠ .threw)
      (extend config newCapacity : Program D B V T Outcome) state := by
  refine Finishes.bind (loadCapacity_finishes owned) ?_
  rintro capacity after ⟨rfl, rfl⟩
  have slots := config.slotsOf_eq formed.short
  have enough := config.le_blocksFor rounds
  have grown :
      Finishes Choice.Succeeds
        (fun grown after =>
          grown = true ∧ Ready config found 0 after.data)
        (reallocateIf (config.slotsOf found.capacity < newCapacity)
          (config.blocksFor newCapacity) : Program D B V T Bool)
        state := by
    refine reallocateIf_finishes intact owned formed ?_
      (fun _ => config.blocksFor_mul_lt newCapacity) (Nat.zero_le _)
      fun needed => room (of_decide_eq_true needed)
    intro needed
    rw [decide_eq_true_eq, slots] at needed
    exact Nat.le_of_lt (Nat.lt_of_mul_lt_mul_right
      (Nat.lt_of_lt_of_le needed enough))
  refine Finishes.bind grown ?_
  rintro success last ⟨rfl, -⟩
  exact Finishes.pure (fun impossible => nomatch impossible)

/-- The body of `resize`. -/
theorem grow_finishes
    [Infinite D]
    [Infinite B]
    {newSize : Nat}
    (intact : Intact config state)
    (owned :
      (owns config thread found list found.size
        fun data => data = found).holds (state, ()))
    (formed : Formed config found)
    (rounds : newSize + config.blockMask < wordSize)
    (room : Room config found (.resize newSize)) :
    Finishes Choice.Succeeds
      (fun outcome _ => outcome ≠ .threw)
      (grow config thread newSize : Program D B V T Outcome) state := by
  refine Finishes.bind (loadSize_finishes owned) ?_
  rintro size after ⟨rfl, rfl⟩
  by_cases larger : found.size < newSize
  · rw [if_pos larger]
    refine Finishes.bind (loadCapacity_finishes owned) ?_
    rintro capacity after ⟨rfl, rfl⟩
    have enough := config.le_blocksFor rounds
    have grown :
        Finishes Choice.Succeeds
          (fun grown after =>
            grown = true ∧
              Ready config found (config.blocksFor newSize) after.data)
          (reallocateIf (found.capacity < config.blocksFor newSize)
            (config.blocksFor newSize) : Program D B V T Bool) state := by
      refine reallocateIf_finishes intact owned formed
        (fun needed => Nat.le_of_lt (of_decide_eq_true needed))
        (fun _ => config.blocksFor_mul_lt newSize) ?_
        fun needed => room.1 (of_decide_eq_true needed)
      by_cases needed : found.capacity < config.blocksFor newSize
      · simp [needed]
      · rw [if_neg (by simpa using needed)]
        exact Nat.not_lt.mp needed
    refine Finishes.bind grown ?_
    rintro success second ⟨rfl, ready⟩
    simp only [↓reduceIte]
    have positive : 0 < config.blocksFor newSize := by
      by_contra zero
      have none_ : config.blocksFor newSize = 0 := by omega
      rw [none_] at enough
      omega
    obtain ⟨array, current, arrays⟩ :=
      ready.formed.directory_of_lt
        (Nat.lt_of_lt_of_le positive ready.roomy)
    have loaded :
        Finishes Choice.Succeeds
          (fun directory third =>
            directory = some array ∧ second = third)
          (loadDirectory : Program D B V T (Option D)) second :=
      Finishes.read exists_succeeds ⟨current, rfl⟩
    refine Finishes.bind loaded ?_
    rintro directory third ⟨rfl, rfl⟩
    have stocked :
        Stocked array (config.blockIndex found.size)
          (config.blocksFor newSize)
          (found.blocks.length +
            (missing found (config.blockIndex found.size)
              (config.blocksFor newSize)).card) second :=
      ⟨second.data.entries, arrays, by
        rw [ready.blocks]
        exact Nat.add_le_add_left (nulls_le_missing ready.grows) _⟩
    have range :
        ∀ index,
          found.size ≤ index →
          index < newSize →
          config.blockIndex found.size ≤ config.blockIndex index ∧
            config.blockIndex index < config.blocksFor newSize := by
      intro index low high
      constructor
      · rw [config.blockIndex_eq, config.blockIndex_eq]
        exact Nat.div_le_div_right low
      · rw [config.blockIndex_lt_iff]
        omega
    refine Finishes.bind (fill_finishes room.2 range stocked) ?_
    rintro filled fourth rfl
    simp only [↓reduceIte]
    refine Finishes.bind
      (Finishes.write exists_succeeds trivial :
        Finishes Choice.Succeeds (fun _ _ => True)
          (storeSize thread found.size newSize : Program D B V T Unit)
          fourth) ?_
    intro _ last _
    exact Finishes.pure (fun impossible => nomatch impossible)
  · rw [if_neg larger]
    exact Finishes.pure (fun impossible => nomatch impossible)

end Bodies

section Calls

omit [DecidableEq D] [DecidableEq B] [DecidableEq T] in
/-- A free lock is taken at the first attempt. -/
theorem lock_finishes
    (free : state.lock = false) :
    Finishes Choice.Succeeds
      (fun _ after => after.data = state.data)
      (spin.lock (taking thread) : Program D B V T Unit) state := by
  refine Finishes.loop (fun _ current => state = current)
    (fun _ => 0) ?_ exists_succeeds rfl
  rintro count current rfl
  have loaded :
      Finishes Choice.Succeeds
        (fun held after => held = false ∧ state = after)
        (spin.load : Program D B V T Bool) state :=
    Finishes.read exists_succeeds ⟨free, rfl⟩
  have exchanged :
      Finishes Choice.Succeeds
        (fun lost after => lost = false ∧ after.data = state.data)
        (spin.exchange (taking thread) : Program D B V T Bool) state := by
    refine Finishes.atomic ⟨.proceed, trivial, by simp [spin, free]⟩ ?_
    intro choice lost last _ ran
    simp only [spin, free, Bool.false_eq_true, ↓reduceIte,
      Option.some.injEq, Prod.mk.injEq] at ran
    obtain ⟨rfl, rfl⟩ := ran
    exact ⟨rfl, rfl⟩
  have attempted :
      Finishes Choice.Succeeds
        (fun won after => won = true ∧ after.data = state.data)
        (spin.attempt (taking thread) : Program D B V T Bool) state := by
    refine Finishes.bind loaded ?_
    rintro held after ⟨rfl, rfl⟩
    simp only [Bool.false_eq_true, ↓reduceIte]
    refine Finishes.bind exchanged ?_
    rintro lost last ⟨rfl, same⟩
    exact Finishes.pure ⟨rfl, same⟩
  refine Finishes.bind attempted ?_
  rintro won last ⟨rfl, same⟩
  exact .ret same

omit [DecidableEq D] [DecidableEq B] in
/-- A call under a free lock finishes if its body does. -/
theorem locked_finishes
    {call : Call V}
    {body : Program D B V T Outcome}
    (intact : Intact config state)
    (free : state.lock = false)
    (does : marks thread state.events = [.called thread call])
    (works :
      ∀ after : State D B V T,
        Intact config after →
        (owns config thread state.data [.called thread call]
          state.data.size fun data => data = state.data).holds (after, ()) →
        Formed config state.data →
        Located config state.data →
        Finishes Choice.Succeeds (fun outcome _ => outcome ≠ .threw)
          body after) :
    Finishes Choice.Succeeds
      (fun outcome _ => outcome ≠ .threw)
      (locked thread call body : Program D B V T Outcome) state := by
  refine Finishes.bind_verified (lock_triple call) (lock_finishes free)
    intact does ?_
  rintro _ after same intactAfter ⟨found, ⟨formed, located⟩, held, doing,
    built, knows⟩
  have shape : found = state.data := knows.symm.trans same
  subst shape
  refine Finishes.bind
    (works after intactAfter ⟨held, doing, built, knows⟩ formed located) ?_
  intro outcome third normal
  refine Finishes.bind
    (Finishes.write exists_succeeds trivial :
      Finishes Choice.Succeeds (fun _ _ => True)
        (spin.unlock (releasing thread call outcome) :
          Program D B V T Unit) third) ?_
  intro _ last _
  exact Finishes.pure normal

/-- Every call completes if its allocations and constructors succeed. -/
theorem perform_finishes
    [Infinite D]
    [Infinite B]
    {call : Call V}
    (intact : Intact config state)
    (free : state.lock = false)
    (does : marks thread state.events = [.called thread call])
    (rounds : call.roundsUp config = true)
    (room : Room config state.data call) :
    Finishes Choice.Succeeds
      (fun outcome _ => outcome ≠ .threw)
      (perform config thread call : Program D B V T Outcome) state := by
  cases call with
  | emplaceBack value =>
      exact locked_finishes intact free does
        fun after intactAfter owned formed located =>
          append_finishes intactAfter owned formed located room
  | resize newSize =>
      have counted :
          Finishes Choice.Succeeds
            (fun _ after =>
              after =
                { state with
                  observed :=
                    Function.update state.observed thread
                      (max (state.observed thread) state.data.size) })
            (size thread : Program D B V T Nat) state := by
        refine Finishes.atomic ⟨.proceed, trivial, rfl⟩ ?_
        intro choice count after _ ran
        cases ran
        rfl
      refine Finishes.bind counted ?_
      rintro count after rfl
      split
      · exact Finishes.pure (fun impossible => nomatch impossible)
      · exact locked_finishes intact.observe free does
          fun after intactAfter owned formed _ =>
            grow_finishes intactAfter owned formed
              (of_decide_eq_true rounds) room
  | reserve newCapacity =>
      exact locked_finishes intact free does
        fun after intactAfter owned formed _ =>
          extend_finishes intactAfter owned formed
            (of_decide_eq_true rounds) room
  | capacity =>
      refine locked_finishes intact free does
        fun after intactAfter owned _ _ => ?_
      refine Finishes.bind (loadCapacity_finishes owned) ?_
      rintro capacity third ⟨rfl, rfl⟩
      exact Finishes.pure (fun impossible => nomatch impossible)

end Calls

end ConcurrentCpp.AppendDeque
