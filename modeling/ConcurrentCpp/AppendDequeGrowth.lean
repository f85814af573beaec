import ConcurrentCpp.AppendDequeProtocol

namespace ConcurrentCpp.AppendDeque

/-!
# Growth of the append-only deque

Critical sections, the replacement of the directory and the allocation of
blocks.  The writer works on data that nobody else changes, so each step is
stated by the data before and after it.
-/

variable {D B V T : Type} [DecidableEq D] [DecidableEq B] [DecidableEq T]
variable {config : Config V} {thread : T} {state : State D B V T}
variable
  {found base : Data D B V}
  {list : List (Event D B V T)}
  {limit newCapacity : Nat}

section Locking

/-- Calls, unlocks and returns say nothing about elements. -/
def Event.isPlain : Event D B V T → Bool
  | .called _ _ => true
  | .released _ _ _ _ _ => true
  | .returned _ _ _ => true
  | _ => false

omit [DecidableEq D] [DecidableEq B] in
/-- Record an event that says nothing about elements. -/
theorem Intact.recordPlain
    {event : Event D B V T}
    (intact : Intact config state)
    (plain : event.isPlain = true)
    (allowed : EventOk config state.events event) :
    Intact config (state.record event) where
  tame := intact.tame
  held := intact.held
  quiet := intact.quiet
  listed := intact.listed
  located := intact.located
  built index bound :=
    (intact.built index bound).mono (List.suffix_cons _ _)
  traced thread index address member := by
    rcases List.mem_cons.mp member with rfl | old
    · cases plain
    · exact intact.traced thread index address old
  iterators := intact.iterators
  reached thread index address member := by
    apply intact.reached thread index address
    refine member.imp ?_ ?_ <;> intro known
    · rcases List.mem_cons.mp known with rfl | old
      · cases plain
      · exact old
    · rcases List.mem_cons.mp known with rfl | old
      · cases plain
      · exact old
  observed := intact.observed
  sized := by
    cases event with
    | called _ _ => exact intact.sized
    | released _ _ _ _ _ => exact intact.sized
    | returned _ _ _ => exact intact.sized
    | _ => cases plain
  small := intact.small
  legal := ⟨allowed, intact.legal⟩

omit [DecidableEq D] [DecidableEq B] in
/-- Recording an event of the thread does not disturb the others. -/
theorem Promise.record
    {event : Event D B V T}
    (own : event.thread = thread) :
    Promise config thread state (state.record event) where
  grows := Grows.refl _
  apart _ _ _ _ := ⟨rfl, rfl⟩
  marks _ different :=
    marks_other fun same => different (same.symm.trans own)
  iterators _ _ := rfl
  observed _ _ := rfl
  history := List.suffix_cons _ _

/-- The thread has taken the lock and found the data in order. -/
def entered
    (config : Config V)
    (thread : T)
    (call : Call V) :
    Knowledge D B config thread :=
  Assertion.any fun found =>
    (Assertion.pure (Formed config found ∧ Located config found)).and
      (owns config thread found [.called thread call] found.size
        fun data => data = found)

omit [DecidableEq D] [DecidableEq B] in
theorem lock_triple
    (call : Call V) :
    Triple (protocol config) thread
      (during config thread [.called thread call])
      (spin.lock (taking thread) : Program D B V T Unit)
      fun _ => entered config thread call := by
  have exchanged :
      Triple (protocol config) thread
        (during config thread [.called thread call])
        (spin.exchange (taking thread) : Program D B V T Bool)
        fun lost =>
          SpinLock.outcome (during config thread [.called thread call])
            (entered config thread call) (!lost) := by
    refine SpinLock.exchange_triple ?_ ?_
    · intro state held
      simp only [spin] at held ⊢
      rw [← held]
    · rintro ⟨state, ghost⟩ intact does free
      have nobody : state.holder = none := by
        have held := intact.held
        have word : state.lock = false := free
        rw [word] at held
        exact Option.isNone_iff_eq_none.mp (by simpa using held.symm)
      refine ⟨(), ?_, ?_, state.data, ?_, rfl, does, ?_, rfl⟩
      · exact
          { intact with
            held := rfl
            quiet := fun impossible => nomatch impossible }
      · exact
          { grows := Grows.refl _
            apart := fun other found _ heldOther => by
              rw [nobody] at heldOther
              cases heldOther
            marks := fun _ _ => rfl
            iterators := fun _ _ => rfl
            observed := fun _ _ => rfl
            history := List.suffix_refl _ }
      · exact ⟨intact.quiet nobody, intact.located⟩
      · exact intact.built
  exact SpinLock.lock_triple (SpinLock.attempt_triple exchanged)

omit [DecidableEq D] [DecidableEq B] in
theorem unlock_triple
    (call : Call V)
    (found : Data D B V)
    (outcome : Outcome) :
    Triple (protocol config) thread
      (closing config thread call found outcome)
      (spin.unlock (releasing thread call outcome) :
        Program D B V T Unit)
      fun _ => finished config thread call outcome := by
  refine Triple.any fun list => Triple.atomic ?_
  rintro ⟨state, ghost⟩ choice value after intact
    ⟨held, does, -, finishes, shape⟩ ran
  simp only at held does finishes shape
  simp only [Option.some.injEq, Prod.mk.injEq, true_and, releasing, spin,
    held] at ran
  subst ran
  have allowed :
      EventOk config state.events
        (.released thread call found state.data outcome) :=
    ⟨finishes, does.trans shape⟩
  refine ⟨(), ?_, ?_, found, state.data, ?_⟩
  · exact
      { intact.recordPlain rfl allowed with
        held := rfl
        quiet := fun _ => finishes.formed }
  · have promise :
        Promise config thread state
          (state.record
            (.released thread call found state.data outcome)) :=
      Promise.record rfl
    exact
      { promise with
        apart := fun other found' different heldOther => by
          rw [held] at heldOther
          cases heldOther
          exact absurd rfl different }
  · exact
      (marks_own rfl).trans (congrArg (List.cons _) (does.trans shape))

omit [DecidableEq D] [DecidableEq B] in
/-- A body under the lock. -/
theorem locked_triple
    {call : Call V}
    {body : Program D B V T Outcome}
    (works :
      ∀ found,
        Formed config found →
        Located config found →
        Triple (protocol config) thread
          (owns config thread found [.called thread call] found.size
            fun data => data = found)
          body
          (closing config thread call found)) :
    Triple (protocol config) thread
      (during config thread [.called thread call])
      (locked thread call body)
      (finished config thread call) := by
  refine Triple.bind (lock_triple call) ?_
  intro _
  refine Triple.any fun found => Triple.given fun ⟨formed, located⟩ => ?_
  refine Triple.bind (works found formed located) ?_
  intro outcome
  refine Triple.bind (unlock_triple call found outcome) ?_
  intro _
  exact Triple.pure fun _ _ known => known

end Locking

section Reallocation

/-- The entries of the larger directory. -/
def enlarged
    (base : Data D B V)
    (newCapacity : Nat) :
    List (Entry B) :=
  base.entries ++ List.replicate (newCapacity - base.capacity) .null

/-- The first entries of the new array are written. -/
def Copied
    (base : Data D B V)
    (newDirectory : D)
    (newCapacity count : Nat)
    (data : Data D B V) : Prop :=
  ∃ entries,
    data = base.withArray newDirectory entries ∧
      entries.length = newCapacity ∧
      ∀ index < count,
        entries[index]? = (enlarged base newCapacity)[index]?

omit [DecidableEq D] [DecidableEq B] in
theorem enlarged_length
    (formed : Formed config base)
    (larger : base.capacity ≤ newCapacity) :
    (enlarged base newCapacity).length = newCapacity := by
  simp only [enlarged, List.length_append, formed.length,
    List.length_replicate]
  omega

omit [DecidableEq D] [DecidableEq B] in
/-- The new directory starts with the entries of the old one. -/
theorem enlarged_old
    {index : Nat}
    (formed : Formed config base)
    (old : index < base.capacity) :
    (enlarged base newCapacity)[index]? = base.entries[index]? :=
  List.getElem?_append_left (by rw [formed.length]; exact old)

omit [DecidableEq D] [DecidableEq B] in
/-- The rest of its entries is null. -/
theorem enlarged_new
    {index : Nat}
    (formed : Formed config base)
    (old : base.capacity ≤ index)
    (bound : index < newCapacity) :
    (enlarged base newCapacity)[index]? = some .null := by
  unfold enlarged
  rw [List.getElem?_append_right (by rw [formed.length]; exact old),
    formed.length, List.getElem?_replicate, if_pos (by omega)]

omit [DecidableEq B] in
theorem Copied.all
    {newDirectory : D}
    {data : Data D B V}
    (formed : Formed config base)
    (larger : base.capacity ≤ newCapacity)
    (copied : Copied base newDirectory newCapacity newCapacity data) :
    data = base.withArray newDirectory (enlarged base newCapacity) := by
  obtain ⟨entries, rfl, length, same⟩ := copied
  congr 1
  apply List.ext_getElem?
  intro index
  by_cases bound : index < newCapacity
  · exact same index bound
  · rw [List.getElem?_eq_none (by omega), List.getElem?_eq_none
      (by rw [enlarged_length formed larger]; omega)]

omit [DecidableEq B] in
/-- A write to the new array does not disturb anybody. -/
theorem write_private
    {newDirectory : D}
    {index : Nat}
    {entry : Entry B}
    (formed : Formed config base)
    (fresh : base.arrays newDirectory = none)
    (bound : index < newCapacity)
    (next : (enlarged base newCapacity)[index]? = some entry) :
    Triple (protocol config) thread
      (owns config thread found list limit
        (Copied base newDirectory newCapacity index))
      (writeEntry (some newDirectory) index entry :
        Program D B V T Unit)
      fun _ =>
        owns config thread found list limit
          (Copied base newDirectory newCapacity (index + 1)) := by
  refine owns_update ?_
  rintro state choice value after intact ⟨entries, shape, length, same⟩ ran
  have hidden : newDirectory ∉ base.published :=
    fun member => (formed.owned newDirectory).mpr member fresh
  have array : state.data.arrays newDirectory = some entries := by
    rw [shape]
    exact Function.update_self ..
  simp only [Option.some.injEq, Prod.mk.injEq, true_and,
    State.setEntry, array, length, bound, ↓reduceIte] at ran
  subst ran
  have sizes : state.data.size = base.size := by rw [shape]; rfl
  have overwritten :
      state.data.withArray newDirectory (entries.set index entry) =
        base.withArray newDirectory (entries.set index entry) := by
    rw [shape]
    simp [Data.withArray]
  refine ⟨_, rfl, ?_, rfl, ?_, entries.set index entry, overwritten,
    by rw [List.length_set, length], ?_⟩
  · refine Grows.withArray intact.listed ?_
    rw [shape]
    exact hidden
  · exact intact.listed
  · intro position below
    by_cases last : index = position
    · subst last
      rw [List.getElem?_set_self (by omega), next]
    · rw [List.getElem?_set_ne last]
      exact same position (by omega)

omit [DecidableEq B] in
/-- The old entries are read as they are. -/
theorem readEntry_triple
    {newDirectory : D}
    {index : Nat}
    (formed : Formed config base)
    (fresh : base.arrays newDirectory = none)
    (bound : index < base.capacity) :
    Triple (protocol config) thread
      (owns config thread found list limit
        (Copied base newDirectory newCapacity index))
      (readEntry base.directory index : Program D B V T (Entry B))
      fun entry =>
        (Assertion.pure (base.entries[index]? = some entry)).and
          (owns config thread found list limit
            (Copied base newDirectory newCapacity index)) := by
  obtain ⟨oldDirectory, current, allocated⟩ := formed.directory_of_lt bound
  have different : oldDirectory ≠ newDirectory := by
    rintro rfl
    rw [fresh] at allocated
    cases allocated
  have inside : index < base.entries.length := by rwa [formed.length]
  have same :
      ∀ data,
        Copied base newDirectory newCapacity index data →
        data.entryAt base.directory index = base.entries[index]? := by
    rintro data ⟨entries, rfl, -⟩
    rw [current]
    exact Data.entryAt_some
      ((Function.update_of_ne different _ _).trans allocated) index
  refine Triple.consequence (owns_readEntry fun data copied =>
    ⟨base.entries[index],
      (same data copied).trans (List.getElem?_eq_getElem inside),
      fun garbage => formed.written (garbage ▸ List.getElem_mem inside)⟩)
    ?_
  rintro entry world - ⟨held, does, built, found, -, copied⟩
  exact ⟨(same _ copied).symm.trans found, held, does, built, copied⟩

omit [DecidableEq B] in
/-- The copy of the old entries. -/
theorem copyEntries_triple
    {newDirectory : D}
    (formed : Formed config base)
    (fresh : base.arrays newDirectory = none)
    (larger : base.capacity ≤ newCapacity) :
    Triple (protocol config) thread
      (owns config thread found list limit
        (Copied base newDirectory newCapacity 0))
      (copyEntries base.directory newDirectory : Program D B V T Unit)
      fun _ =>
        owns config thread found list limit
          (Copied base newDirectory newCapacity base.capacity) := by
  refine Triple.weaken
    (Triple.loop
      (fun index => ?_ :
        ∀ index : Nat, Triple (protocol config) thread
          ((Assertion.pure (index ≤ base.capacity)).and
            (owns config thread found list limit
              (Copied base newDirectory newCapacity index))) _ _))
    fun _ _ known => ⟨Nat.zero_le _, known⟩
  refine Triple.given fun bound => ?_
  have loaded :
      Triple (protocol config) thread
        (owns config thread found list limit
          (Copied base newDirectory newCapacity index))
        (loadCapacity : Program D B V T Nat)
        fun capacity =>
          owns config thread found list limit fun data =>
            capacity = base.capacity ∧
              Copied base newDirectory newCapacity index data :=
    owns_read fun state _ copied => by
      refine ⟨?_, copied⟩
      obtain ⟨entries, shape, -⟩ := copied
      rw [shape]
      rfl
  refine Triple.bind loaded ?_
  intro capacity
  refine owns_given fun same => ?_
  subst same
  by_cases more : index < base.capacity
  · rw [if_pos more]
    refine Triple.bind (readEntry_triple formed fresh more) ?_
    intro entry
    refine Triple.given fun known => ?_
    refine Triple.bind
      (write_private formed fresh (Nat.lt_of_lt_of_le more larger)
        ((enlarged_old formed more).trans known)) ?_
    intro _
    exact Triple.ret fun _ _ known => ⟨more, known⟩
  · rw [if_neg more]
    have last : index = base.capacity := by omega
    subst last
    exact Triple.ret fun _ _ known => known

omit [DecidableEq B] in
/-- The rest of the new array. -/
theorem clearEntries_triple
    {newDirectory : D}
    (formed : Formed config base)
    (fresh : base.arrays newDirectory = none)
    (larger : base.capacity ≤ newCapacity) :
    Triple (protocol config) thread
      (owns config thread found list limit
        (Copied base newDirectory newCapacity base.capacity))
      (clearEntries newDirectory newCapacity base.capacity :
        Program D B V T Unit)
      fun _ =>
        owns config thread found list limit fun data =>
          data =
            base.withArray newDirectory (enlarged base newCapacity) := by
  refine Triple.weaken
    (Triple.loop
      (fun index => ?_ :
        ∀ index : Nat, Triple (protocol config) thread
          ((Assertion.pure
              (base.capacity ≤ index ∧ index ≤ newCapacity)).and
            (owns config thread found list limit
              (Copied base newDirectory newCapacity index))) _ _))
    fun _ _ known => ⟨⟨Nat.le_refl _, larger⟩, known⟩
  refine Triple.given fun bounds => ?_
  by_cases more : index < newCapacity
  · rw [if_pos more]
    refine Triple.bind
      (write_private formed fresh more
        (enlarged_new formed bounds.1 more)) ?_
    intro _
    exact Triple.ret fun _ _ known =>
      ⟨⟨Nat.le_succ_of_le bounds.1, more⟩, known⟩
  · rw [if_neg more]
    have last : index = newCapacity := by omega
    subst last
    exact Triple.ret fun _ _ ⟨held, does, built, copied⟩ =>
      ⟨held, does, built, copied.all formed larger⟩

omit [DecidableEq B] in
variable (base newCapacity) in
/-- The old directory is recorded, or nothing has changed. -/
theorem retire_triple
    (newDirectory : D) :
    Triple (protocol config) thread
      (owns config thread found list limit fun data =>
        data = base.withArray newDirectory (enlarged base newCapacity))
      (retire base.directory : Program D B V T Bool)
      fun recorded =>
        owns config thread found list limit fun data =>
          data =
            { base.withArray newDirectory (enlarged base newCapacity) with
              retired :=
                if recorded then base.retired ++ base.directory.toList
                else base.retired } := by
  refine owns_update ?_
  intro state choice value after intact shape ran
  have quiet :
      ∀ retired,
        Grows config state.data { state.data with retired := retired } :=
    fun retired =>
      Grows.ofStorage (Nat.le_refl _) (Nat.le_refl _)
        (List.Subset.refl _) (List.Subset.refl _) rfl rfl rfl
  have listed :
      ∀ retired, Listed { state.data with retired := retired } :=
    fun _ => intact.listed
  cases current : base.directory with
  | none =>
      rw [current] at ran
      cases ran
      exact ⟨state.data, rfl, Grows.refl _, rfl, intact.listed,
        by rw [shape]; simp [Data.withArray]⟩
  | some oldDirectory =>
      rw [current] at ran
      cases choice with
      | fail =>
          cases ran
          exact ⟨state.data, rfl, Grows.refl _, rfl, intact.listed,
            by rw [shape]; simp [Data.withArray]⟩
      | _ =>
          cases ran
          exact ⟨_, rfl, quiet _, rfl, listed _,
            by rw [shape]; simp [Data.withArray]⟩

/-- The deque after its directory was replaced. -/
structure Enlarged
    (config : Config V)
    (base : Data D B V)
    (newCapacity : Nat)
    (data : Data D B V) : Prop where
  formed : Formed config data
  grows : Grows config base data
  size : data.size = base.size
  capacity : data.capacity = newCapacity
  blocks : data.blocks = base.blocks

/-- The deque between the store of the directory and of its length. -/
def Published
    (config : Config V)
    (base : Data D B V)
    (newDirectory : D)
    (newCapacity : Nat)
    (data : Data D B V) : Prop :=
  Grows config base data ∧
    data =
      { base.withArray newDirectory (enlarged base newCapacity) with
        directory := some newDirectory
        retired := base.retired ++ base.directory.toList
        published := newDirectory :: base.published }

omit [DecidableEq B] in
/-- The new directory is published. -/
theorem publish_triple
    {newDirectory : D}
    (formed : Formed config base)
    (fresh : base.arrays newDirectory = none) :
    Triple (protocol config) thread
      (owns config thread found list limit fun data =>
        data =
          { base.withArray newDirectory (enlarged base newCapacity) with
            retired := base.retired ++ base.directory.toList })
      (publish newDirectory : Program D B V T Unit)
      fun _ =>
        owns config thread found list limit
          (Published config base newDirectory newCapacity) := by
  have hidden : newDirectory ∉ base.published :=
    fun member => (formed.owned newDirectory).mpr member fresh
  have kept :
      ∀ (index : Nat) (block : B),
        base.entries[index]? = some (.block block) →
        (enlarged base newCapacity)[index]? = some (.block block) := by
    intro index block known
    have bound : index < base.capacity := by
      rw [← formed.length]
      exact (List.getElem?_eq_some_iff.mp known).1
    rw [enlarged_old formed bound]
    exact known
  refine owns_update ?_
  intro state choice value after intact shape ran
  cases ran
  have array :
      state.data.arrays newDirectory =
        some (enlarged base newCapacity) := by
    rw [shape]
    exact Function.update_self ..
  have entries : state.data.entries = base.entries := by
    unfold Data.entries
    rw [shape]
    cases current : base.directory with
    | none =>
        simp [Data.withArray, current]
    | some oldDirectory =>
        have different : oldDirectory ≠ newDirectory := by
          rintro rfl
          exact hidden (formed.directory_mem current)
        simp [Data.withArray, current, Function.update_of_ne different]
  have step :
      Grows config state.data
        { state.data with
          directory := some newDirectory
          published := newDirectory :: state.data.published } :=
    Grows.publish array (by rw [entries]; exact kept)
  have start : Grows config base state.data := by
    rw [shape]
    exact (Grows.withArray formed.listed hidden).trans
      (Grows.ofStorage (Nat.le_refl _) (Nat.le_refl _)
        (List.Subset.refl _) (List.Subset.refl _) rfl rfl rfl)
  refine ⟨_, rfl, step, rfl, ?_, start.trans step, ?_⟩
  · intro array current
    cases current
    exact List.mem_cons_self
  · rw [shape]
    rfl

omit [DecidableEq B] in
/-- The length of the new directory is noted. -/
theorem storeCapacity_triple
    {newDirectory : D}
    (formed : Formed config base)
    (fresh : base.arrays newDirectory = none)
    (larger : base.capacity ≤ newCapacity)
    (short : newCapacity * config.blockSize < wordSize)
    (bounded : newCapacity < arrayBound) :
    Triple (protocol config) thread
      (owns config thread found list limit
        (Published config base newDirectory newCapacity))
      (storeCapacity newCapacity : Program D B V T Unit)
      fun _ =>
        owns config thread found list limit
          (Enlarged config base newCapacity) := by
  refine owns_update ?_
  rintro state choice value after intact ⟨grows, shape⟩ ran
  cases ran
  have step :
      Grows config state.data
        { state.data with capacity := newCapacity } := by
    refine Grows.ofStorage (Nat.le_refl _) ?_
      (List.Subset.refl _) (List.Subset.refl _) rfl rfl rfl
    rw [shape]
    exact larger
  refine ⟨_, rfl, step, rfl, intact.listed, ?_, grows.trans step, ?_, rfl,
    ?_⟩
  · rw [shape]
    exact formed.replaced fresh larger short bounded
  · rw [shape]
    rfl
  · rw [shape]
    rfl

omit [DecidableEq B] in
/-- The array that was not published is deleted. -/
theorem freeArray_triple
    {newDirectory : D}
    (formed : Formed config base)
    (fresh : base.arrays newDirectory = none) :
    Triple (protocol config) thread
      (owns config thread found list limit fun data =>
        data =
          { base.withArray newDirectory (enlarged base newCapacity) with
            retired := base.retired })
      (freeArray newDirectory : Program D B V T Unit)
      fun _ =>
        owns config thread found list limit fun data => data = base := by
  have hidden : newDirectory ∉ base.published :=
    fun member => (formed.owned newDirectory).mpr member fresh
  refine owns_update ?_
  intro state choice value after intact shape ran
  cases ran
  refine ⟨_, rfl, ?_, rfl, intact.listed, ?_⟩
  · apply Grows.ofArrays intact.listed
    intro array member
    have different : array ≠ newDirectory := by
      rintro rfl
      rw [shape] at member
      exact hidden member
    exact Function.update_of_ne different _ _
  · rw [shape]
    simp [Data.withArray, ← fresh]

omit [DecidableEq B] in
/-- The new array is private to the writer. -/
theorem allocateArray_triple
    (formed : Formed config base) :
    Triple (protocol config) thread
      (owns config thread found list limit fun data => data = base)
      (allocateArray newCapacity : Program D B V T (Option D))
      fun allocated =>
        owns config thread found list limit fun data =>
          match allocated with
          | none => data = base
          | some newDirectory =>
              (base.arrays newDirectory = none ∧
                newCapacity < arrayBound) ∧
                Copied base newDirectory newCapacity 0 data := by
  refine owns_update ?_
  intro state choice value after intact shape ran
  subst shape
  cases choice with
  | fail =>
      cases ran
      exact ⟨_, rfl, Grows.refl _, rfl, intact.listed, rfl⟩
  | array address =>
      simp only [Option.ite_none_right_eq_some, Option.some.injEq,
        Prod.mk.injEq] at ran
      obtain ⟨⟨bounded, fresh⟩, rfl, rfl⟩ := ran
      refine ⟨_, rfl, ?_, rfl, intact.listed, ⟨fresh, bounded⟩,
        _, rfl, List.length_replicate, ?_⟩
      · exact Grows.withArray intact.listed
          fun member => (formed.owned address).mpr member fresh
      · intro index bound
        omega
  | _ =>
      cases ran

omit [DecidableEq B] in
/-- A replacement of the directory either happens or changes nothing. -/
theorem reallocateDirectory_triple
    (formed : Formed config base)
    (larger : base.capacity ≤ newCapacity)
    (short : newCapacity * config.blockSize < wordSize) :
    Triple (protocol config) thread
      (owns config thread found list limit fun data => data = base)
      (reallocateDirectory newCapacity : Program D B V T Bool)
      fun grown =>
        owns config thread found list limit fun data =>
          if grown then Enlarged config base newCapacity data
          else data = base := by
  refine Triple.bind (allocateArray_triple formed) ?_
  intro allocated
  cases allocated with
  | none =>
      exact Triple.pure fun _ _ known => known
  | some newDirectory =>
      refine owns_given fun ⟨fresh, bounded⟩ => ?_
      have loaded :
          Triple (protocol config) thread
            (owns config thread found list limit
              (Copied base newDirectory newCapacity 0))
            (loadDirectory : Program D B V T (Option D))
            fun directory =>
              owns config thread found list limit fun data =>
                directory = base.directory ∧
                  Copied base newDirectory newCapacity 0 data :=
        owns_read fun state _ copied => by
          refine ⟨?_, copied⟩
          obtain ⟨entries, shape, -⟩ := copied
          rw [shape]
          rfl
      refine Triple.bind loaded ?_
      intro directory
      refine owns_given fun same => ?_
      subst same
      refine Triple.bind (copyEntries_triple formed fresh larger) ?_
      intro _
      have counted :
          Triple (protocol config) thread
            (owns config thread found list limit
              (Copied base newDirectory newCapacity base.capacity))
            (loadCapacity : Program D B V T Nat)
            fun start =>
              owns config thread found list limit fun data =>
                start = base.capacity ∧
                  Copied base newDirectory newCapacity
                    base.capacity data :=
        owns_read fun state _ copied => by
          refine ⟨?_, copied⟩
          obtain ⟨entries, shape, -⟩ := copied
          rw [shape]
          rfl
      refine Triple.bind counted ?_
      intro start
      refine owns_given fun same => ?_
      subst same
      refine Triple.bind (clearEntries_triple formed fresh larger) ?_
      intro _
      refine Triple.bind (retire_triple base newCapacity newDirectory) ?_
      intro recorded
      cases recorded with
      | true =>
          refine Triple.bind (publish_triple formed fresh) ?_
          intro _
          refine Triple.bind
            (storeCapacity_triple formed fresh larger short bounded) ?_
          intro _
          exact Triple.pure fun _ _ known => known
      | false =>
          refine Triple.bind (freeArray_triple formed fresh) ?_
          intro _
          exact Triple.pure fun _ _ known => known

end Reallocation

end ConcurrentCpp.AppendDeque
