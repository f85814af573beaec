import ConcurrentCpp.AppendDequeWriters

namespace ConcurrentCpp.AppendDeque

/-!
# Calls of writers

The bodies of `emplace_back`, `resize`, `reserve` and `capacity()` and the
calls around them.  The arithmetic of the growth is right as long as rounding
an argument up to whole blocks does not wrap.
-/

variable {D B V T : Type} [DecidableEq D] [DecidableEq B] [DecidableEq T]
variable {config : Config V} {thread : T}
variable
  {found : Data D B V}
  {list : List (Event D B V T)}
  {limit : Nat}

section Sizes

omit [DecidableEq D] [DecidableEq B] in
theorem Located.address
    {data : Data D B V}
    (located : Located config data) :
    ∀ index < data.size,
      ∃ address,
        data.addressAt config data.directory index = some address := by
  intro index bound
  obtain ⟨_, address, known, _⟩ := located index bound
  exact ⟨address, known⟩

omit [DecidableEq D] [DecidableEq B] in
/-- A deque is smaller than half of the words. -/
theorem size_lt
    (formed : Formed config found)
    (located : Located config found) :
    found.size < storageBound :=
  Nat.lt_of_le_of_lt (formed.size_le located.address) formed.stored

omit [DecidableEq D] [DecidableEq B] in
/-- The elements fit into the blocks that the directory has room for. -/
theorem size_le_room
    (formed : Formed config found)
    (located : Located config found) :
    found.size ≤ found.capacity * config.blockSize := by
  have blocks : found.blocks.length ≤ found.capacity := by
    rw [← formed.recorded.length_eq, ← formed.length]
    exact List.length_filterMap_le _ _
  exact Nat.le_trans (formed.size_le located.address)
    (Nat.mul_le_mul_right _ blocks)

/-- The length that `emplace_back` asks for. -/
def doubled
    (capacity : Nat) :
    Nat :=
  if capacity = 0 then 1 else (capacity * 2) % wordSize

omit [DecidableEq D] [DecidableEq B] in
theorem doubled_eq
    (formed : Formed config found) :
    doubled found.capacity =
      if found.capacity = 0 then 1 else found.capacity * 2 := by
  have bounded := formed.bounded
  unfold doubled
  unfold arrayBound at bounded
  unfold wordSize
  split
  · rfl
  · omega

omit [DecidableEq D] [DecidableEq B] in
/-- Twice the blocks of a full deque is not too many. -/
theorem doubled_short
    (formed : Formed config found)
    (located : Located config found)
    (full : found.capacity ≤ config.blockIndex found.size) :
    doubled found.capacity * config.blockSize < wordSize := by
  have small := size_lt formed located
  have blockSize := config.blockSize_le
  have filled : found.capacity * config.blockSize ≤ found.size := by
    rw [config.blockIndex_eq] at full
    exact (Nat.le_div_iff_mul_le config.blockSize_pos).mp full
  rw [doubled_eq formed]
  unfold storageBound at small
  unfold wordSize
  split
  · omega
  · rw [Nat.mul_right_comm]
    omega

omit [DecidableEq D] [DecidableEq B] in
/-- A full directory is replaced by a larger one. -/
theorem append_larger
    (formed : Formed config found)
    (_needed :
      decide (found.capacity ≤ config.blockIndex found.size) = true) :
    found.capacity ≤ doubled found.capacity := by
  rw [doubled_eq formed]
  split
  · omega
  · omega

omit [DecidableEq D] [DecidableEq B] in
/-- It is not too long. -/
theorem append_short
    (formed : Formed config found)
    (located : Located config found)
    (needed :
      decide (found.capacity ≤ config.blockIndex found.size) = true) :
    doubled found.capacity * config.blockSize < wordSize :=
  doubled_short formed located (of_decide_eq_true needed)

omit [DecidableEq D] [DecidableEq B] in
/-- The next element falls into the room of the directory. -/
theorem append_enough
    (formed : Formed config found)
    (located : Located config found) :
    config.blockIndex found.size + 1 ≤
      if decide (found.capacity ≤ config.blockIndex found.size) = true then
        doubled found.capacity
      else found.capacity := by
  by_cases full : found.capacity ≤ config.blockIndex found.size
  · rw [if_pos (decide_eq_true full)]
    have room := size_le_room formed located
    have next : config.blockIndex found.size < found.capacity + 1 := by
      rw [config.blockIndex_lt_iff, Nat.add_mul]
      have := config.blockSize_pos
      omega
    rw [doubled_eq formed]
    split
    · omega
    · omega
  · rw [if_neg (by simpa using full)]
    exact Nat.not_le.mp full

end Sizes

section Append

variable {value : V} {directory : Option D} {room : Nat}

omit [DecidableEq D] [DecidableEq B] in
/-- The writer reads the size that it has found. -/
theorem loadSize_triple :
    Triple (protocol config) thread
      (owns config thread found list limit fun data => data = found)
      (loadSize : Program D B V T Nat)
      fun size =>
        owns config thread found list limit fun data =>
          size = found.size ∧ data = found :=
  owns_read fun _ _ same => ⟨by rw [same], same⟩

omit [DecidableEq D] [DecidableEq B] in
/-- The writer reads the length that it has found. -/
theorem loadCapacity_triple :
    Triple (protocol config) thread
      (owns config thread found list limit fun data => data = found)
      (loadCapacity : Program D B V T Nat)
      fun capacity =>
        owns config thread found list limit fun data =>
          capacity = found.capacity ∧ data = found :=
  owns_read fun _ _ same => ⟨by rw [same], same⟩

variable (room) in
omit [DecidableEq D] in
/-- The element is constructed and taken in, or its constructor throws. -/
theorem constructBack_triple
    (formed : Formed config found)
    (located : Located config found) :
    Triple (protocol config) thread
      (owns config thread found [.called thread (.emplaceBack value)]
        found.size fun data =>
          Working config found value found.size directory room data ∧
            ∃ block,
              data.blockAt directory (config.blockIndex found.size) =
                some block)
      (constructBack config thread value directory found.size :
        Program D B V T Outcome)
      (closing config thread (.emplaceBack value) found) := by
  refine Triple.bind elementAddress_triple ?_
  intro result
  refine Triple.any fun address => Triple.given fun same => ?_
  subst same
  refine Triple.bind (constructElement_triple (Nat.le_refl _)) ?_
  intro built
  cases built with
  | true =>
      have small := size_lt formed located
      have exactly : (found.size + 1) % wordSize = found.size + 1 := by
        unfold storageBound at small
        unfold wordSize
        omega
      rw [if_pos rfl, exactly]
      refine Triple.bind
        (storeSize_triple located (Nat.lt_succ_self _)
          (by rw [← exactly]; exact Nat.mod_lt _ (by decide))) ?_
      intro _
      refine Triple.pure fun world _ owned => ?_
      refine closing_stored formed located (Nat.lt_succ_self _) ?_ owned
      intro earlier working
      obtain ⟨address, known, stored⟩ :=
        working.holds found.size (Nat.le_refl _) (Nat.lt_succ_self _)
      exact ⟨rfl, rfl, address, known, stored⟩
  | false =>
      exact Triple.pure fun _ _ owned =>
        closing_threw formed located (fun _ same => same) owned

/-- The body of `emplace_back`. -/
theorem append_triple
    (formed : Formed config found)
    (located : Located config found) :
    Triple (protocol config) thread
      (owns config thread found [.called thread (.emplaceBack value)]
        found.size fun data => data = found)
      (append config thread value : Program D B V T Outcome)
      (closing config thread (.emplaceBack value) found) := by
  refine Triple.bind loadSize_triple ?_
  intro size
  refine owns_given fun same => ?_
  subst same
  refine Triple.bind loadCapacity_triple ?_
  intro capacity
  refine owns_given fun same => ?_
  subst same
  have grown :
      Triple (protocol config) thread
        (owns config thread found [.called thread (.emplaceBack value)]
          found.size fun data => data = found)
        (reallocateIf (found.capacity ≤ config.blockIndex found.size)
          (doubled found.capacity) : Program D B V T Bool)
        fun grown =>
          owns config thread found [.called thread (.emplaceBack value)]
            found.size fun data =>
              if grown then
                Ready config found (config.blockIndex found.size + 1) data
              else data = found := by
    exact reallocateIf_triple formed (append_larger formed)
      (append_short formed located) (append_enough formed located)
  refine Triple.bind grown ?_
  intro success
  cases success with
  | true =>
      refine Triple.bind (loadDirectory_triple value) ?_
      intro directory
      refine Triple.bind (ensureBlock_triple (Nat.lt_succ_self _)) ?_
      intro backed
      cases backed with
      | true =>
          exact owns_weaken
            (constructBack_triple (config.blockIndex found.size + 1)
              formed located)
            fun _ known => ⟨known.1, known.2 rfl⟩
      | false =>
          refine Triple.pure fun world _ owned => ?_
          obtain ⟨held, does, built, working, -⟩ := owned
          exact closing_threw formed located (fun _ same => same)
            ⟨held, does, built, working⟩
  | false =>
      exact Triple.pure fun _ _ owned =>
        closing_same formed located rfl owned

end Append

section Resize

variable {newSize room : Nat} {directory : Option D}

/-- The loop of `resize`. -/
theorem fill_triple
    (larger : found.size ≤ newSize)
    (enough : newSize ≤ room * config.blockSize) :
    Triple (protocol config) thread
      (owns config thread found list found.size
        (Working config found config.initial found.size directory room))
      (fill config thread directory newSize found.size :
        Program D B V T Bool)
      fun filled =>
        if filled then
          owns config thread found list newSize
            (Working config found config.initial newSize directory room)
        else
          Assertion.any fun next =>
            owns config thread found list next
              (Working config found config.initial next directory
                room) := by
  refine Triple.weaken
    (Triple.loop
      (fun index => ?_ :
        ∀ index : Nat, Triple (protocol config) thread
          ((Assertion.pure (found.size ≤ index ∧ index ≤ newSize)).and
            (owns config thread found list index
              (Working config found config.initial index directory
                room))) _ _))
    fun _ _ known => ⟨⟨Nat.le_refl _, larger⟩, known⟩
  refine Triple.given fun bounds => ?_
  by_cases more : index < newSize
  · rw [if_pos more]
    have inside : config.blockIndex index < room := by
      rw [config.blockIndex_lt_iff]
      omega
    refine Triple.bind (ensureBlock_triple inside) ?_
    intro backed
    cases backed with
    | true =>
        have known :
            Triple (protocol config) thread
              (owns config thread found list index fun data =>
                Working config found config.initial index directory room
                    data ∧
                  (true = true →
                    ∃ block,
                      data.blockAt directory (config.blockIndex index) =
                        some block))
              (elementAddress config directory index :
                Program D B V T (Option (Address B)))
              fun result =>
                Assertion.any fun address =>
                  (Assertion.pure (result = some address)).and
                    (owns config thread found list index
                      (Aiming config found config.initial index directory
                        room address)) :=
          owns_weaken elementAddress_triple
            fun _ known => ⟨known.1, known.2 rfl⟩
        refine Triple.bind known ?_
        intro result
        refine Triple.any fun address => Triple.given fun same => ?_
        subst same
        refine Triple.bind (valueInitialize_triple bounds.1) ?_
        intro _
        exact Triple.ret fun _ _ known =>
          ⟨⟨Nat.le_succ_of_le bounds.1, more⟩, known⟩
    | false =>
        exact Triple.ret fun _ _ ⟨held, does, built, working, _⟩ =>
          ⟨index, held, does, built, working⟩
  · rw [if_neg more]
    have last : index = newSize := by omega
    subst last
    exact Triple.ret fun _ _ known => known

/-- The body of `resize`. -/
theorem grow_triple
    (formed : Formed config found)
    (located : Located config found)
    (rounds : newSize + config.blockMask < wordSize) :
    Triple (protocol config) thread
      (owns config thread found [.called thread (.resize newSize)]
        found.size fun data => data = found)
      (grow config thread newSize : Program D B V T Outcome)
      (closing config thread (.resize newSize) found) := by
  refine Triple.bind loadSize_triple ?_
  intro size
  refine owns_given fun same => ?_
  subst same
  by_cases larger : found.size < newSize
  · rw [if_pos larger]
    refine Triple.bind loadCapacity_triple ?_
    intro capacity
    refine owns_given fun same => ?_
    subst same
    have grown :
        Triple (protocol config) thread
          (owns config thread found [.called thread (.resize newSize)]
            found.size fun data => data = found)
          (reallocateIf (found.capacity < config.blocksFor newSize)
            (config.blocksFor newSize) : Program D B V T Bool)
          fun grown =>
            owns config thread found [.called thread (.resize newSize)]
              found.size fun data =>
                if grown then
                  Ready config found (config.blocksFor newSize) data
                else data = found := by
      refine reallocateIf_triple formed ?_ ?_ ?_
      · intro needed
        exact Nat.le_of_lt (by simpa using needed)
      · exact fun _ => config.blocksFor_mul_lt newSize
      · by_cases needed : found.capacity < config.blocksFor newSize
        · simp [needed]
        · simp only [needed, decide_false, Bool.false_eq_true,
            ↓reduceIte]
          exact Nat.not_lt.mp needed
    refine Triple.bind grown ?_
    intro success
    cases success with
    | true =>
        refine Triple.bind (loadDirectory_triple config.initial) ?_
        intro directory
        refine Triple.bind
          (fill_triple (Nat.le_of_lt larger)
            (config.le_blocksFor rounds)) ?_
        intro filled
        cases filled with
        | true =>
            refine Triple.bind
              (storeSize_triple located larger
                (Nat.lt_of_le_of_lt (Nat.le_add_right _ _) rounds)) ?_
            intro _
            refine Triple.pure fun world _ owned => ?_
            refine closing_stored formed located larger ?_ owned
            intro earlier working
            refine ⟨(Nat.max_eq_right (Nat.le_of_lt larger)).symm, ?_⟩
            exact fun index low high =>
              (working.holds index low high)
        | false =>
            refine Triple.any fun next => ?_
            exact Triple.pure fun _ _ owned =>
              closing_threw formed located (fun _ same => same) owned
    | false =>
        exact Triple.pure fun _ _ owned =>
          closing_same formed located rfl owned
  · rw [if_neg larger]
    refine Triple.pure fun _ _ owned => closing_same formed located ?_ owned
    refine ⟨(Nat.max_eq_left (Nat.not_lt.mp larger)).symm, ?_⟩
    intro index low high
    omega

end Resize

section Calls

variable {newCapacity : Nat}

omit [DecidableEq B] in
/-- The body of `reserve`. -/
theorem extend_triple
    (formed : Formed config found)
    (located : Located config found)
    (rounds : newCapacity + config.blockMask < wordSize) :
    Triple (protocol config) thread
      (owns config thread found [.called thread (.reserve newCapacity)]
        found.size fun data => data = found)
      (extend config newCapacity : Program D B V T Outcome)
      (closing config thread (.reserve newCapacity) found) := by
  refine Triple.bind loadCapacity_triple ?_
  intro capacity
  refine owns_given fun same => ?_
  subst same
  have slots := config.slotsOf_eq formed.short
  have enough := config.le_blocksFor rounds
  have grown :
      Triple (protocol config) thread
        (owns config thread found [.called thread (.reserve newCapacity)]
          found.size fun data => data = found)
        (reallocateIf (config.slotsOf found.capacity < newCapacity)
          (config.blocksFor newCapacity) : Program D B V T Bool)
        fun grown =>
          owns config thread found [.called thread (.reserve newCapacity)]
            found.size fun data =>
              if grown then
                Ready config found
                  (if found.capacity * config.blockSize < newCapacity then
                    config.blocksFor newCapacity
                  else found.capacity) data
              else data = found := by
    refine reallocateIf_triple formed ?_ ?_ ?_
    · intro needed
      rw [decide_eq_true_eq, slots] at needed
      exact Nat.le_of_lt (Nat.lt_of_mul_lt_mul_right
        (Nat.lt_of_lt_of_le needed enough))
    · exact fun _ => config.blocksFor_mul_lt newCapacity
    · rw [slots]
      by_cases needed : found.capacity * config.blockSize < newCapacity
      · simp [needed]
      · simp [needed]
  refine Triple.bind grown ?_
  intro success
  refine Triple.pure ?_
  cases success with
  | true =>
      rintro world - ⟨held, does, built, ready⟩
      have room :
          newCapacity ≤ world.1.data.capacity * config.blockSize := by
        have wide := Nat.mul_le_mul_right config.blockSize ready.roomy
        split at wide
        · omega
        · omega
      refine ⟨_, held, does, built_zero _,
        ⟨ready.grows, formed, located, ready.formed, ready.size, room⟩, ?_⟩
      rw [change, if_neg (by rw [ready.size]; exact Nat.lt_irrefl _)]
      rfl
  | false =>
      exact fun _ _ owned => closing_same formed located ⟨rfl, rfl, rfl⟩ owned

/-- A call of a writer ends with an outcome that its effects explain. -/
def ended
    (config : Config V)
    (thread : T)
    (call : Call V)
    (outcome : Outcome) :
    Knowledge D B config thread :=
  (finished config thread call outcome).or
    { holds := fun world =>
        ∃ newSize,
          call = .resize newSize ∧ outcome = .done ∧
            marks thread world.1.events = [.called thread call] ∧
            newSize ≤ world.1.data.size
      stable := by
        rintro other world after different - - promise
          ⟨newSize, shape, done, does, bound⟩
        exact ⟨newSize, shape, done,
          (promise.marks _ (Ne.symm different)).trans does,
          Nat.le_trans bound promise.grows.sized⟩ }

omit [DecidableEq D] [DecidableEq B] in
/-- `capacity()`. -/
theorem capacity_triple :
    Triple (protocol config) thread
      (during config thread [.called thread .capacity])
      (capacity config thread : Program D B V T Outcome)
      (finished config thread .capacity) := by
  refine locked_triple fun found formed located => ?_
  refine Triple.bind loadCapacity_triple ?_
  intro capacity
  refine owns_given fun same => ?_
  subst same
  exact Triple.pure fun _ _ owned =>
    closing_same formed located ⟨rfl, config.slotsOf_eq formed.short⟩ owned

omit [DecidableEq D] [DecidableEq B] in
/-- `size()` changes what the thread has observed. -/
theorem Intact.observe
    {state : State D B V T}
    (intact : Intact config state) :
    Intact config
      { state with
        observed :=
          Function.update state.observed thread
            (max (state.observed thread) state.data.size) } :=
  { intact with
    observed := fun other => by
      by_cases same : other = thread
      · subst same
        simpa [Function.update_self] using
          Nat.max_le.mpr ⟨intact.observed other, Nat.le_refl _⟩
      · simpa [Function.update_of_ne same] using intact.observed other }

omit [DecidableEq D] [DecidableEq B] in
theorem Promise.observe
    {state : State D B V T}
    {count : Nat} :
    Promise config thread state
      { state with
        observed := Function.update state.observed thread count } :=
  { Promise.refl config thread state with
    observed := fun _ different => Function.update_of_ne different _ _ }

/-- `resize(n)`, with its first check. -/
theorem resize_triple
    {newSize : Nat}
    (rounds : newSize + config.blockMask < wordSize) :
    Triple (protocol config) thread
      (during config thread [.called thread (.resize newSize)])
      (resize config thread newSize : Program D B V T Outcome)
      (ended config thread (.resize newSize)) := by
  have loaded :
      Triple (protocol config) thread
        (during config thread [.called thread (.resize newSize)])
        (size thread : Program D B V T Nat)
        fun count =>
          if newSize ≤ count then
            ended config thread (.resize newSize) .done
          else
            during config thread [.called thread (.resize newSize)] := by
    refine Triple.atomic ?_
    rintro ⟨state, ghost⟩ choice count after intact does ran
    simp only [Option.some.injEq, Prod.mk.injEq] at ran
    obtain ⟨rfl, rfl⟩ := ran
    refine ⟨(), intact.observe, Promise.observe, ?_⟩
    split
    · rename_i enough
      exact .inr ⟨newSize, rfl, rfl, does, enough⟩
    · exact does
  refine Triple.bind loaded ?_
  intro count
  by_cases enough : newSize ≤ count
  · simp only [if_pos enough]
    exact Triple.pure fun _ _ known => known
  · simp only [if_neg enough]
    refine Triple.consequence
      (locked_triple fun found formed located =>
        grow_triple formed located rounds) ?_
    exact fun _ _ _ known => .inl known

/-- Every call of a writer. -/
theorem perform_triple
    (call : Call V)
    (rounds : call.roundsUp config = true) :
    Triple (protocol config) thread
      (during config thread [.called thread call])
      (perform config thread call : Program D B V T Outcome)
      (ended config thread call) := by
  cases call with
  | emplaceBack value =>
      refine Triple.consequence
        (locked_triple fun found formed located =>
          append_triple formed located) ?_
      exact fun _ _ _ known => .inl known
  | resize newSize =>
      exact resize_triple (by simpa [Call.roundsUp] using rounds)
  | reserve newCapacity =>
      refine Triple.consequence
        (locked_triple fun found formed located =>
          extend_triple formed located
            (by simpa [Call.roundsUp] using rounds)) ?_
      exact fun _ _ _ known => .inl known
  | capacity =>
      refine Triple.consequence capacity_triple ?_
      exact fun _ _ _ known => .inl known

omit [DecidableEq D] [DecidableEq B] in
/-- A call that returns is in the history with its outcome. -/
theorem returned_triple
    (call : Call V)
    (outcome : Outcome) :
    Triple (protocol config) thread
      (ended config thread call outcome)
      (record (.returned thread call outcome) : Program D B V T Unit)
      fun _ => during config thread [] := by
  refine Triple.atomic ?_
  rintro ⟨state, ghost⟩ choice result after intact known ran
  cases ran
  have allowed :
      EventOk config state.events (.returned thread call outcome) := by
    rcases known with ⟨before, left, does⟩ | ⟨newSize, shape, done, does,
      bound⟩
    · exact .inl ⟨before, left, does⟩
    · exact .inr ⟨newSize, shape, done, does, by
        rw [← intact.sized]; exact bound⟩
  exact ⟨(), intact.recordPlain rfl allowed, Promise.record rfl,
    marks_own rfl⟩

end Calls

end ConcurrentCpp.AppendDeque
