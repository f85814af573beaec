import ConcurrentCpp.AppendDequeGrowth

namespace ConcurrentCpp.AppendDeque

/-!
# Writers of the append-only deque

A writer backs the slots it needs with blocks, constructs elements above the
size and stores the size last.  Up to that store the deque is in order and has
the size it had, so an exception at any point leaves it so.
-/

variable {D B V T : Type} [DecidableEq D] [DecidableEq B] [DecidableEq T]
variable {config : Config V} {thread : T} {state : State D B V T}
variable
  {found : Data D B V}
  {list : List (Event D B V T)}
  {limit : Nat}

section Steps

omit [DecidableEq D] [DecidableEq B] in
/-- Record where an element was constructed. -/
theorem Intact.recordConstructed
    {index : Nat}
    {address : Address B}
    (intact : Intact config state)
    (known :
      state.data.addressAt config state.data.directory index =
        some address)
    (allocated : address.block ∈ state.data.blocks) :
    Intact config (state.record (.constructed thread index address)) where
  tame := intact.tame
  held := intact.held
  quiet := intact.quiet
  listed := intact.listed
  located := intact.located
  built index bound :=
    (intact.built index bound).mono (List.suffix_cons _ _)
  traced writer position other member := by
    rcases List.mem_cons.mp member with new | old
    · cases new
      exact ⟨known, allocated⟩
    · exact intact.traced writer position other old
  iterators := intact.iterators
  reached reader position other member := by
    apply intact.reached reader position other
    simpa using member
  observed := intact.observed
  sized := intact.sized
  small := intact.small
  legal := ⟨trivial, intact.legal⟩

omit [DecidableEq D] [DecidableEq B] in
/-- The new size is stored, after the elements below it were constructed. -/
theorem Intact.storeSize
    {new : Nat}
    (intact : Intact config state)
    (held : state.holder = some (thread, found))
    (increases : state.data.size < new)
    (small : new < wordSize)
    (built : ∀ index < new, Built state.events index)
    (located :
      ∀ index < new, ∃ value, state.data.Holds config index value) :
    Intact config
      (({ state with data := { state.data with size := new } } :
        State D B V T).record
          (.resized thread state.data.size new)) where
  tame := intact.tame
  held := intact.held
  quiet free := by
    rw [show state.holder = none from free] at held
    cases held
  listed := intact.listed
  located := located
  built index bound := (built index bound).mono (List.suffix_cons _ _)
  traced writer position other member := by
    refine intact.traced writer position other ?_
    simpa using member
  iterators thread slot held known :=
    (intact.iterators thread slot held known).mono
      { Grows.refl state.data with sized := Nat.le_of_lt increases }
  reached reader position other member := by
    refine intact.reached reader position other ?_
    simpa using member
  observed reader :=
    Nat.le_trans (intact.observed reader) (Nat.le_of_lt increases)
  sized := rfl
  small := small
  legal := ⟨⟨intact.sized, increases⟩, intact.legal⟩

omit [DecidableEq D] [DecidableEq B] in
/-- The data of a step of the owner and an event of its own. -/
theorem Promise.updateRecord
    {data : Data D B V}
    {event : Event D B V T}
    (held : state.holder = some (thread, found))
    (grows : Grows config state.data data)
    (own : event.thread = thread) :
    Promise config thread state
      (({ state with data := data } : State D B V T).record event) where
  grows := grows
  apart := (Promise.update held grows).apart
  marks _ different :=
    marks_other fun same => different (same.symm.trans own)
  iterators _ _ := rfl
  observed _ _ := rfl
  history := List.suffix_cons _ _

omit [DecidableEq D] in
/-- The writer constructs the next element above the size. -/
theorem construct_step
    {index : Nat}
    {address : Address B}
    {world : State D B V T × Unit}
    {pre : Data D B V → Prop}
    (value : V)
    (intact : Intact config world.1)
    (formed : Formed config world.1.data)
    (beyond : world.1.data.size ≤ index)
    (known :
      world.1.data.addressAt config world.1.data.directory index =
        some address)
    (owned : (owns config thread found list index pre).holds world) :
    ∃ ghost : Unit,
      Intact config (world.1.construct thread index (some address) value) ∧
      Promise config thread world.1
        (world.1.construct thread index (some address) value) ∧
      (owns config thread found list (index + 1) fun data =>
        ∃ earlier,
          pre earlier ∧ data = earlier.withValue address value).holds
        (world.1.construct thread index (some address) value, ghost) := by
  obtain ⟨held, does, built, knows⟩ := owned
  have grows :
      Grows config world.1.data (world.1.data.withValue address value) :=
    Grows.withValue formed beyond known
  refine ⟨(), ?_, ?_, held, (marks_own rfl).trans does, ?_,
    world.1.data, knows, rfl⟩
  · exact Intact.recordConstructed
      (intact.update held grows rfl intact.listed) (grows.address known)
      (formed.block_mem (Data.addressAt_eq_some.mp known).1)
  · exact Promise.updateRecord held grows rfl
  · intro position bound
    by_cases last : position = index
    · subst last
      exact ⟨thread, address, List.mem_cons_self⟩
    · exact (built position (by omega)).mono (List.suffix_cons _ _)

end Steps

section Blocks

/--
A writer is at work: it has constructed the elements from the old size up to
`next` with a value, and its directory has some room.
-/
structure Working
    (config : Config V)
    (found : Data D B V)
    (value : V)
    (next : Nat)
    (directory : Option D)
    (room : Nat)
    (data : Data D B V) : Prop where
  formed : Formed config data
  grows : Grows config found data
  size : data.size = found.size
  holds :
    ∀ index,
      found.size ≤ index →
      index < next →
      data.Holds config index value
  directory : data.directory = directory
  roomy : room ≤ data.capacity

variable {value : V} {next : Nat} {directory : Option D} {room : Nat}

omit [DecidableEq D] [DecidableEq B] in
theorem Data.Holds.keep
    {before after : Data D B V}
    {index : Nat}
    (grows : Grows config before after)
    (same : after.memory = before.memory)
    (known : before.Holds config index value) :
    after.Holds config index value := by
  obtain ⟨address, located, stored⟩ := known
  exact ⟨address, grows.address located, by rw [same]; exact stored⟩

omit [DecidableEq D] [DecidableEq B] in
/-- The entry at an index inside the directory. -/
theorem Working.entry
    {data : Data D B V}
    {index : Nat}
    (working : Working config found value next directory room data)
    (bound : index < room) :
    ∃ entry,
      data.entryAt directory index = some entry ∧ entry ≠ .garbage := by
  have inside : index < data.entries.length := by
    rw [working.formed.length]
    exact Nat.lt_of_lt_of_le bound working.roomy
  refine ⟨data.entries[index], ?_, ?_⟩
  · rw [← working.directory, Data.entryAt_directory]
    exact List.getElem?_eq_getElem inside
  · exact fun garbage =>
      working.formed.written (garbage ▸ List.getElem_mem inside)

/-- A new block that no entry refers to yet. -/
def Spare
    (config : Config V)
    (known : Data D B V → Prop)
    (block : B)
    (data : Data D B V) : Prop :=
  ∃ earlier,
    known earlier ∧
      block ∉ earlier.blocks ∧
      (earlier.blocks.length + 1) * config.blockSize < storageBound ∧
      data = { earlier with blocks := block :: earlier.blocks }

omit [DecidableEq D] in
theorem allocateBlock_triple
    {pre : Data D B V → Prop} :
    Triple (protocol config) thread
      (owns config thread found list limit pre)
      (allocateBlock config : Program D B V T (Option B))
      fun allocated =>
        owns config thread found list limit fun data =>
          match allocated with
          | none => pre data
          | some block => Spare config pre block data := by
  refine owns_update ?_
  intro state choice value after intact knows ran
  cases choice with
  | fail =>
      cases ran
      exact ⟨_, rfl, Grows.refl _, rfl, intact.listed, knows⟩
  | block address =>
      simp only [Option.ite_none_right_eq_some, Option.some.injEq,
        Prod.mk.injEq] at ran
      obtain ⟨⟨fresh, storage⟩, rfl, rfl⟩ := ran
      exact ⟨_, rfl,
        Grows.ofStorage (Nat.le_refl _) (Nat.le_refl _)
          (List.subset_cons_self _ _) (List.Subset.refl _) rfl rfl rfl,
        rfl, intact.listed, state.data, knows, fresh, storage, rfl⟩
  | _ =>
      cases ran

omit [DecidableEq B] in
/-- The new block is recorded where there was none. -/
theorem recordBlock_triple
    {index : Nat}
    {block : B} :
    Triple (protocol config) thread
      (owns config thread found list limit
        (Spare config
          (fun data =>
            data.entryAt directory index = some .null ∧
              Working config found value next directory room data)
          block))
      (writeEntry directory index (.block block) : Program D B V T Unit)
      fun _ =>
        owns config thread found list limit fun data =>
          Working config found value next directory room data ∧
            data.blockAt directory index = some block := by
  refine owns_update ?_
  rintro state choice result after intact
    ⟨earlier, ⟨empty, working⟩, fresh, storage, shape⟩ ran
  have emptyHere : earlier.entries[index]? = some .null := by
    rw [← Data.entryAt_directory, working.directory]
    exact empty
  have inside : index < earlier.entries.length :=
    (List.getElem?_eq_some_iff.mp emptyHere).1
  obtain ⟨array, current, allocated⟩ :=
    working.formed.directory_of_lt (by rwa [← working.formed.length])
  have same : directory = some array := working.directory.symm.trans current
  subst same
  have arrays : state.data.arrays array = some earlier.entries := by
    rw [shape]
    exact allocated
  simp only [Option.some.injEq, Prod.mk.injEq, true_and, State.setEntry,
    arrays, inside, ↓reduceIte] at ran
  subst ran
  have step :
      Grows config state.data
        (state.data.withArray array
          (earlier.entries.set index (.block block))) :=
    Grows.setEntry (by rw [shape]; exact current) arrays emptyHere
  have start : Grows config earlier state.data := by
    rw [shape]
    exact Grows.ofStorage (Nat.le_refl _) (Nat.le_refl _)
      (List.subset_cons_self _ _) (List.Subset.refl _) rfl rfl rfl
  have sameMemory :
      (state.data.withArray array
        (earlier.entries.set index (.block block))).memory =
        earlier.memory := by
    rw [shape]
    rfl
  have whole := start.trans step
  refine ⟨_, rfl, step, rfl, intact.listed, ⟨?_, ?_, ?_, ?_, ?_, ?_⟩, ?_⟩
  · rw [shape]
    exact working.formed.backed current emptyHere fresh storage
  · exact working.grows.trans whole
  · rw [shape]
    exact working.size
  · exact fun position low high =>
      (working.holds position low high).keep whole sameMemory
  · rw [shape]
    exact current
  · rw [shape]
    exact working.roomy
  · rw [Data.blockAt_eq_some]
    exact (Data.entryAt_some (Function.update_self ..) index).trans
      (List.getElem?_set_self inside)

/-- The slot of an element gets a block, or the allocation throws. -/
theorem ensureBlock_triple
    {index : Nat}
    (bound : index < room) :
    Triple (protocol config) thread
      (owns config thread found list limit
        (Working config found value next directory room))
      (ensureBlock config directory index : Program D B V T Bool)
      fun backed =>
        owns config thread found list limit fun data =>
          Working config found value next directory room data ∧
            (backed = true →
              ∃ block, data.blockAt directory index = some block) := by
  refine Triple.bind
    (owns_readEntry fun data working => working.entry bound) ?_
  intro entry
  cases entry with
  | garbage =>
      refine owns_weaken (owns_given fun garbage => absurd rfl garbage)
        fun data known => known.2
  | null =>
      refine Triple.bind
        (owns_weaken allocateBlock_triple fun data known =>
          (⟨known.1, known.2.2⟩ :
            data.entryAt directory index = some .null ∧
              Working config found value next directory room data)) ?_
      intro allocated
      cases allocated with
      | none =>
          exact Triple.pure fun _ _ ⟨held, does, built, known⟩ =>
            ⟨held, does, built, known.2, fun impossible => nomatch impossible⟩
      | some block =>
          refine Triple.bind recordBlock_triple ?_
          intro _
          exact Triple.pure fun _ _ ⟨held, does, built, known⟩ =>
            ⟨held, does, built, known.1, fun _ => ⟨block, known.2⟩⟩
  | block block =>
      exact Triple.pure fun _ _ ⟨held, does, built, known⟩ =>
        ⟨held, does, built, known.2.2,
          fun _ => ⟨block, Data.blockAt_eq_some.mpr known.1⟩⟩

omit [DecidableEq D] [DecidableEq B] in
/-- The values of elements do not matter for the directory. -/
theorem Formed.sameStorage
    {before after : Data D B V}
    (formed : Formed config before)
    (size : Nat)
    (memory : B → Nat → Option V)
    (shape : after = { before with size := size, memory := memory }) :
    Formed config after := by
  subst shape
  exact
    ⟨formed.length, formed.written, formed.published, formed.distinct,
      formed.owned, formed.recorded, formed.blocksDistinct, formed.short,
      formed.bounded, formed.stored⟩

omit [DecidableEq D] in
/-- One more element was constructed. -/
theorem Working.construct
    {data : Data D B V}
    {address : Address B}
    (working : Working config found value next directory room data)
    (beyond : found.size ≤ next)
    (known :
      data.addressAt config data.directory next = some address) :
    Working config found value (next + 1) directory room
      (data.withValue address value) := by
  have grows :
      Grows config data (data.withValue address value) :=
    Grows.withValue working.formed
      (by rw [working.size]; exact beyond) known
  refine
    { formed := working.formed.sameStorage _ _ rfl
      grows := working.grows.trans grows
      size := working.size
      holds := ?_
      directory := working.directory
      roomy := working.roomy }
  intro index low high
  by_cases last : index = next
  · subst last
    refine ⟨address, grows.address known, ?_⟩
    have nonneg := Data.offset_nonneg known
    rw [Data.withValue_memory nonneg nonneg, if_pos rfl]
  · obtain ⟨other, located, stored⟩ :=
      working.holds index low (by omega)
    refine ⟨other, grows.address located, ?_⟩
    rw [Data.withValue_memory (Data.offset_nonneg known)
      (Data.offset_nonneg located), if_neg]
    · exact stored
    · rintro rfl
      exact last (working.formed.address_unique located known)

/-- What the writer knows when it is about to construct an element. -/
def Aiming
    (config : Config V)
    (found : Data D B V)
    (value : V)
    (next : Nat)
    (directory : Option D)
    (room : Nat)
    (address : Address B)
    (data : Data D B V) : Prop :=
  data.addressAt config directory next = some address ∧
    Working config found value next directory room data

omit [DecidableEq D] in
theorem Aiming.step
    {world : State D B V T × Unit}
    {address : Address B}
    (beyond : found.size ≤ next)
    (intact : Intact config world.1)
    (owned :
      (owns config thread found list next
        (Aiming config found value next directory room address)).holds
        world) :
    ∃ ghost : Unit,
      Intact config (world.1.construct thread next (some address) value) ∧
      Promise config thread world.1
        (world.1.construct thread next (some address) value) ∧
      (owns config thread found list (next + 1)
        (Working config found value (next + 1) directory room)).holds
        (world.1.construct thread next (some address) value, ghost) := by
  obtain ⟨known, working⟩ := owned.2.2.2
  have knownHere :
      world.1.data.addressAt config world.1.data.directory next =
        some address := by
    rw [working.directory]
    exact known
  have beyondHere : world.1.data.size ≤ next := by
    rw [working.size]
    exact beyond
  obtain ⟨ghost, intactAfter, promise, held, does, built, earlier,
    aiming, shape⟩ :=
    construct_step value intact working.formed beyondHere knownHere owned
  refine ⟨ghost, intactAfter, promise, held, does, built, ?_⟩
  rw [shape]
  refine aiming.2.construct beyond ?_
  rw [aiming.2.directory]
  exact aiming.1

omit [DecidableEq D] in
/-- The constructor of the element returns, or throws and changes nothing. -/
theorem constructElement_triple
    {address : Address B}
    (beyond : found.size ≤ next) :
    Triple (protocol config) thread
      (owns config thread found list next
        (Aiming config found value next directory room address))
      (constructElement thread next (some address) value :
        Program D B V T Bool)
      fun built =>
        if built then
          owns config thread found list (next + 1)
            (Working config found value (next + 1) directory room)
        else
          owns config thread found list next
            (Working config found value next directory room) := by
  refine Triple.atomic ?_
  intro world choice result after intact owned ran
  cases choice with
  | fail =>
      cases ran
      obtain ⟨held, does, built, -, working⟩ := owned
      exact ⟨(), intact, Promise.refl _ _ _, held, does, built, working⟩
  | _ =>
      cases ran
      exact Aiming.step beyond intact owned

omit [DecidableEq D] in
/-- Value-initialization does not throw. -/
theorem valueInitialize_triple
    {address : Address B}
    (beyond : found.size ≤ next) :
    Triple (protocol config) thread
      (owns config thread found list next
        (Aiming config found config.initial next directory room address))
      (valueInitialize config thread next (some address) :
        Program D B V T Unit)
      fun _ =>
        owns config thread found list (next + 1)
          (Working config found config.initial (next + 1) directory
            room) := by
  refine Triple.atomic ?_
  intro world choice result after intact owned ran
  cases ran
  exact Aiming.step beyond intact owned

omit [DecidableEq D] [DecidableEq B] in
/-- The address of the next element, once its block is there. -/
theorem elementAddress_triple :
    Triple (protocol config) thread
      (owns config thread found list limit fun data =>
        Working config found value next directory room data ∧
          ∃ block,
            data.blockAt directory (config.blockIndex next) = some block)
      (elementAddress config directory next :
        Program D B V T (Option (Address B)))
      fun result =>
        Assertion.any fun address =>
          (Assertion.pure (result = some address)).and
            (owns config thread found list limit
              (Aiming config found value next directory room
                address)) := by
  refine Triple.consequence
    (owns_elementAddress fun data known => ?_) ?_
  · obtain ⟨-, block, backed⟩ := known
    exact ⟨⟨block, config.localOffset next⟩,
      Data.addressAt_eq_some.mpr ⟨backed, rfl⟩⟩
  · rintro result world - ⟨address, same, held, does, built, known,
      working, -⟩
    exact ⟨address, same, held, does, built, known, working⟩

end Blocks

section Bodies

omit [DecidableEq D] [DecidableEq B] [DecidableEq T] in
theorem built_zero
    (events : List (Event D B V T)) :
    ∀ index < 0, Built events index :=
  fun _ impossible => absurd impossible (Nat.not_lt_zero _)

/-- The writer has a directory with enough room. -/
structure Ready
    (config : Config V)
    (found : Data D B V)
    (room : Nat)
    (data : Data D B V) : Prop where
  formed : Formed config data
  grows : Grows config found data
  size : data.size = found.size
  roomy : room ≤ data.capacity
  blocks : data.blocks = found.blocks

omit [DecidableEq B] in
/-- A replacement of the directory, if it is needed. -/
theorem reallocateIf_triple
    {needed : Bool}
    {newCapacity room : Nat}
    (formed : Formed config found)
    (larger : needed = true → found.capacity ≤ newCapacity)
    (short : needed = true → newCapacity * config.blockSize < wordSize)
    (enough :
      room ≤ if needed then newCapacity else found.capacity) :
    Triple (protocol config) thread
      (owns config thread found list limit fun data => data = found)
      (reallocateIf needed newCapacity : Program D B V T Bool)
      fun grown =>
        owns config thread found list limit fun data =>
          if grown then Ready config found room data else data = found := by
  cases needed with
  | true =>
      refine Triple.consequence
        (reallocateDirectory_triple formed (larger rfl) (short rfl)) ?_
      rintro grown world - ⟨held, does, built, known⟩
      refine ⟨held, does, built, ?_⟩
      cases grown with
      | true =>
          exact ⟨known.formed, known.grows, known.size,
            Nat.le_trans enough (Nat.le_of_eq known.capacity.symm),
            known.blocks⟩
      | false =>
          exact known
  | false =>
      refine Triple.pure ?_
      rintro world - ⟨held, does, built, known⟩
      refine ⟨held, does, built, ?_⟩
      subst known
      exact ⟨formed, Grows.refl _, rfl, enough, rfl⟩

omit [DecidableEq D] [DecidableEq B] in
/-- The writer loads the directory that it will work on. -/
theorem loadDirectory_triple
    {room : Nat}
    (value : V) :
    Triple (protocol config) thread
      (owns config thread found list limit (Ready config found room))
      (loadDirectory : Program D B V T (Option D))
      fun directory =>
        owns config thread found list limit
          (Working config found value found.size directory room) :=
  owns_read fun _ _ ready =>
    ⟨ready.formed, ready.grows, ready.size,
      fun _ low high => absurd high (Nat.not_lt.mpr low), rfl, ready.roomy⟩

omit [DecidableEq D] [DecidableEq B] in
/-- The size that is stored last takes the new elements in. -/
theorem storeSize_triple
    {value : V}
    {new room : Nat}
    {directory : Option D}
    (located : Located config found)
    (increases : found.size < new)
    (small : new < wordSize) :
    Triple (protocol config) thread
      (owns config thread found list new
        (Working config found value new directory room))
      (storeSize thread found.size new : Program D B V T Unit)
      fun _ =>
        owns config thread found
          (.resized thread found.size new :: list) 0 fun data =>
            ∃ earlier,
              Working config found value new directory room earlier ∧
                data = { earlier with size := new } := by
  refine Triple.atomic ?_
  rintro ⟨state, ghost⟩ choice result after intact
    ⟨held, does, built, working⟩ ran
  cases ran
  simp only at held does built working
  have holds :
      ∀ index < new,
        ∃ value, state.data.Holds config index value := by
    intro index bound
    by_cases old : index < found.size
    · obtain ⟨known, holds⟩ := located index old
      exact ⟨known, holds.mono working.grows old⟩
    · exact ⟨value, working.holds index (by omega) bound⟩
  have sameSize : state.data.size = found.size := working.size
  have grows :
      Grows config state.data { state.data with size := new } :=
    Grows.ofStorage (by simp only; omega) (Nat.le_refl _)
      (List.Subset.refl _) (List.Subset.refl _) rfl rfl rfl
  refine ⟨(), ?_, ?_, held, ?_, built_zero _,
    state.data, working, rfl⟩
  · have stored :=
      intact.storeSize held (by omega : state.data.size < new) small built
        holds
    rw [sameSize] at stored
    exact stored
  · exact Promise.updateRecord held grows rfl
  · exact (marks_own rfl).trans (congrArg (List.cons _) does)

omit [DecidableEq D] [DecidableEq B] in
/-- A writer that throws leaves a deque of the old size. -/
theorem closing_threw
    {call : Call V}
    {value : V}
    {next room : Nat}
    {directory : Option D}
    {world : State D B V T × Unit}
    (formed : Formed config found)
    (located : Located config found)
    (meets :
      ∀ data : Data D B V,
        data.size = found.size → Meets config found data call .threw)
    (owned :
      (owns config thread found [.called thread call] limit
        (Working config found value next directory room)).holds world) :
    (closing config thread call found .threw).holds world := by
  obtain ⟨held, does, built, working⟩ := owned
  refine ⟨_, held, does, built_zero _,
    ⟨working.grows, formed, located, working.formed,
      meets _ working.size⟩, ?_⟩
  rw [change, if_neg (by rw [working.size]; exact Nat.lt_irrefl _)]
  rfl

omit [DecidableEq D] [DecidableEq B] in
/-- A writer that has done nothing but fail to allocate. -/
theorem closing_same
    {call : Call V}
    {outcome : Outcome}
    {world : State D B V T × Unit}
    (formed : Formed config found)
    (located : Located config found)
    (meets : Meets config found found call outcome)
    (owned :
      (owns config thread found [.called thread call] limit
        fun data => data = found).holds world) :
    (closing config thread call found outcome).holds world := by
  obtain ⟨held, does, built, same⟩ := owned
  refine ⟨_, held, does, built_zero _, ?_, ?_⟩
  · rw [same]
    exact ⟨Grows.refl _, formed, located, formed, meets⟩
  · rw [same, change, if_neg (Nat.lt_irrefl _)]
    rfl

omit [DecidableEq D] [DecidableEq B] in
/-- A writer that has stored a new size. -/
theorem closing_stored
    {call : Call V}
    {outcome : Outcome}
    {value : V}
    {new room : Nat}
    {directory : Option D}
    {world : State D B V T × Unit}
    (formed : Formed config found)
    (located : Located config found)
    (increases : found.size < new)
    (meets :
      ∀ earlier,
        Working config found value new directory room earlier →
        Meets config found { earlier with size := new } call outcome)
    (owned :
      (owns config thread found
        [.resized thread found.size new, .called thread call] 0 fun data =>
          ∃ earlier,
            Working config found value new directory room earlier ∧
              data = { earlier with size := new }).holds world) :
    (closing config thread call found outcome).holds world := by
  obtain ⟨held, does, built, earlier, working, shape⟩ := owned
  have grows : Grows config earlier { earlier with size := new } :=
    Grows.ofStorage
      (by simp only [working.size]; exact Nat.le_of_lt increases)
      (Nat.le_refl _) (List.Subset.refl _) (List.Subset.refl _) rfl rfl rfl
  refine ⟨_, held, does, built, ?_, ?_⟩
  · rw [shape]
    exact ⟨working.grows.trans grows, formed, located,
      working.formed.sameStorage _ _ rfl, meets earlier working⟩
  · rw [shape, change, if_pos increases]
    rfl

end Bodies

end ConcurrentCpp.AppendDeque
