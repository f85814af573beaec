import ConcurrentCpp.AppendDequeCalls

namespace ConcurrentCpp.AppendDeque

/-!
# Readers of the append-only deque

A reader that has seen an index below a size finds its element through every
directory that it loads from then on.  An iterator keeps the pointer of its
element only while it stays in one block, where moving the pointer and moving
the index is the same.
-/

variable {D B V T : Type} {config : Config V}

section Iterators

variable {data : Data D B V} {iterator : Iterator B}

/-- The block and the place of an index are determined. -/
theorem Config.split
    (config : Config V)
    {index : Nat}
    (block offset : Nat)
    (inside : offset < config.blockSize)
    (shape : index = block * config.blockSize + offset) :
    config.blockIndex index = block ∧ config.localOffset index = offset := by
  subst shape
  rw [config.blockIndex_eq, config.localOffset_eq, Nat.add_comm]
  constructor
  · rw [Nat.add_mul_div_right _ _ config.blockSize_pos,
      Nat.div_eq_of_lt inside, Nat.zero_add]
  · rw [Nat.add_mul_mod_self_right, Nat.mod_eq_of_lt inside]

/-- The pointer moves with the index inside a block. -/
theorem cached_shifted
    {index : Nat}
    {distance : Int}
    {address : Address B}
    (sound : iterator.Sound config data)
    (sameBlock :
      config.blockIndex index = config.blockIndex iterator.index)
    (sameDistance :
      (config.localOffset index : Int) =
        config.localOffset iterator.index + distance)
    (known :
      Iterator.shifted distance iterator.current = some address) :
    data.addressAt config data.directory index = some address := by
  unfold Iterator.shifted at known
  obtain ⟨old, cached, rfl⟩ := Option.map_eq_some_iff.mp known
  obtain ⟨block, offset⟩ :=
    Data.addressAt_eq_some.mp (sound.cached old cached)
  rw [Data.addressAt_eq_some, sameBlock]
  exact ⟨block, by simp only; rw [offset, sameDistance]⟩

/-- `++` moves the index by one. -/
theorem Iterator.increment_index :
    ((iterator.increment config).index : Int) =
      (iterator.index + 1) % (wordSize : Nat) := by
  simp only [Iterator.increment]
  push_cast
  rfl

theorem Iterator.Sound.increment
    (sound : iterator.Sound config data) :
    (iterator.increment config).Sound config data := by
  have bound := sound.small
  constructor
  · exact Nat.mod_lt _ (by decide)
  · intro address known
    simp only [Iterator.increment] at known ⊢
    split at known
    · cases known
    · rename_i inside
      have next : (iterator.index + 1) % wordSize = iterator.index + 1 := by
        by_cases last : iterator.index + 1 = wordSize
        · rw [last, Nat.mod_self, config.localOffset_eq,
            Nat.zero_mod] at inside
          exact absurd rfl inside
        · exact Nat.mod_eq_of_lt (by omega)
      rw [next] at inside ⊢
      have shape := config.index_eq iterator.index
      have below := config.localOffset_lt iterator.index
      have room :
          config.localOffset iterator.index + 1 < config.blockSize := by
        by_contra full
        have end_ :
            config.localOffset iterator.index + 1 = config.blockSize := by
          omega
        refine inside
          (config.split (config.blockIndex iterator.index + 1) 0
            config.blockSize_pos ?_).2
        rw [Nat.add_mul]
        omega
      have place :=
        config.split (config.blockIndex iterator.index)
          (config.localOffset iterator.index + 1) room
          (show iterator.index + 1 = _ by omega)
      exact cached_shifted sound place.1 (by rw [place.2]; push_cast; rfl)
        known

/-- The index before an index, modulo the words. -/
theorem previous_eq
    (index : Nat) :
    ((previous index : Nat) : Int) % (wordSize : Nat) =
      ((index : Int) - 1) % (wordSize : Nat) := by
  have positive : 0 < wordSize := by decide
  unfold previous
  split
  · rename_i zero
    subst zero
    have around : ((wordSize - 1 : Nat) : Int) = (0 : Nat) - 1 + wordSize := by
      omega
    rw [around, Int.add_emod_right]
  · congr 1
    omega

theorem previous_lt
    {index : Nat}
    (bound : index < wordSize) :
    previous index < wordSize := by
  unfold previous
  split
  · omega
  · omega

/-- `--` moves the index back by one. -/
theorem Iterator.decrement_index
    (bound : iterator.index < wordSize) :
    ((iterator.decrement config).index : Int) =
      (iterator.index + -1) % (wordSize : Nat) := by
  have below : ((previous iterator.index : Nat) : Int) < (wordSize : Nat) :=
    Int.ofNat_lt.mpr (previous_lt bound)
  simp only [Iterator.decrement]
  rw [← Int.emod_eq_of_lt (Int.natCast_nonneg _) below, previous_eq]
  rfl

theorem Iterator.Sound.decrement
    (sound : iterator.Sound config data) :
    (iterator.decrement config).Sound config data := by
  have bound := sound.small
  constructor
  · exact previous_lt bound
  · intro address known
    simp only [Iterator.decrement] at known ⊢
    split at known
    · cases known
    · rename_i inside
      have shape := config.index_eq iterator.index
      have below := config.localOffset_lt iterator.index
      have previousIndex : previous iterator.index = iterator.index - 1 :=
        if_neg (by omega)
      rw [previousIndex]
      have place :=
        config.split (config.blockIndex iterator.index)
          (config.localOffset iterator.index - 1)
          (by omega) (show iterator.index - 1 = _ by omega)
      exact cached_shifted sound place.1 (by rw [place.2]; omega) known

theorem Iterator.indexAt_eq
    (iterator : Iterator B)
    (distance : Int) :
    (iterator.indexAt distance : Int) =
      (iterator.index + distance) % (wordSize : Nat) :=
  Int.toNat_of_nonneg (Int.emod_nonneg _ (by decide))

/-- Inside one block the index does not wrap. -/
theorem indexAt_exact
    {distance : Int}
    (least : -(2 ^ 63) ≤ distance)
    (most : distance < 2 ^ 63)
    (bound : iterator.index < wordSize)
    (sameBlock :
      config.blockIndex iterator.index =
        config.blockIndex (iterator.indexAt distance)) :
    (iterator.indexAt distance : Int) = iterator.index + distance := by
  have shape := config.index_eq iterator.index
  have shapeNew := config.index_eq (iterator.indexAt distance)
  have below := config.localOffset_lt iterator.index
  have belowNew := config.localOffset_lt (iterator.indexAt distance)
  have small := config.blockSize_le
  rw [← sameBlock] at shapeNew
  have reduced := iterator.indexAt_eq distance
  have divided :=
    Int.emod_add_mul_ediv (iterator.index + distance) (wordSize : Nat)
  unfold wordSize at *
  omega

/-- `+=` moves the index by its argument. -/
theorem Iterator.advance_index
    {distance : Int}
    (bound : iterator.index < wordSize) :
    ((iterator.advance config distance).index : Int) =
      (iterator.index + distance) % (wordSize : Nat) := by
  unfold Iterator.advance
  split
  · rename_i zero
    rw [zero, Int.add_zero]
    exact (Int.emod_eq_of_lt (Int.natCast_nonneg _)
      (Int.ofNat_lt.mpr bound)).symm
  · exact iterator.indexAt_eq distance

theorem Iterator.Sound.advance
    {distance : Int}
    (least : -(2 ^ 63) ≤ distance)
    (most : distance < 2 ^ 63)
    (sound : iterator.Sound config data) :
    (iterator.advance config distance).Sound config data := by
  have bound := sound.small
  unfold Iterator.advance
  split
  · exact sound
  · constructor
    · have reduced := iterator.indexAt_eq distance
      have below :=
        Int.emod_lt_of_pos (iterator.index + distance)
          (show (0 : Int) < (wordSize : Nat) by decide)
      simp only
      omega
    · intro address known
      simp only at known ⊢
      split at known
      · rename_i sameBlock
        have exactly := indexAt_exact least most bound sameBlock
        have shape := config.index_eq iterator.index
        have shapeNew := config.index_eq (iterator.indexAt distance)
        rw [← sameBlock] at shapeNew
        exact cached_shifted sound sameBlock.symm (by omega) known
      · cases known

/-- `-=` moves the index back by its argument, also by the least one. -/
theorem Iterator.retreat_index
    {distance : Int}
    (bound : iterator.index < wordSize) :
    ((iterator.retreat config distance).index : Int) =
      (iterator.index + -distance) % (wordSize : Nat) := by
  have opposite :
      Iterator.opposite distance % (wordSize : Nat) =
        (-distance) % (wordSize : Nat) :=
    Int.bmod_emod
  unfold Iterator.retreat
  rw [Iterator.advance_index bound, Int.add_emod, opposite, ← Int.add_emod]

theorem Iterator.Sound.retreat
    {distance : Int}
    (sound : iterator.Sound config data) :
    (iterator.retreat config distance).Sound config data := by
  have least : -(2 ^ 63) ≤ Iterator.opposite distance := by
    have := Int.le_bmod (x := -distance) (m := wordSize) (by decide)
    unfold wordSize at this
    exact this
  have most : Iterator.opposite distance < 2 ^ 63 := by
    have := Int.bmod_lt (x := -distance) (m := wordSize) (by decide)
    unfold wordSize at this
    exact this
  exact sound.advance least most

theorem Variable.position_eq
    (held : Variable B) :
    (held.position : Int) = (held.start + held.moved) % (wordSize : Nat) :=
  Int.toNat_of_nonneg (Int.emod_nonneg _ (by decide))

/-- A change that moves the iterator as far as its reader asked. -/
theorem Variable.Sound.displace
    {held : Variable B}
    {distance : Int}
    {change : Iterator B → Iterator B}
    (sound : held.Sound config data)
    (keeps : (change held.iterator).Sound config data)
    (moves :
      ((change held.iterator).index : Int) =
        (held.iterator.index + distance) % (wordSize : Nat)) :
    (held.displace distance change).Sound config data := by
  refine ⟨keeps, Int.ofNat_inj.mp ?_⟩
  rw [Variable.position_eq]
  calc ((change held.iterator).index : Int)
      = (held.position + distance) % (wordSize : Nat) := by
        rw [moves, sound.placed]
    _ = (held.start + (held.moved + distance)) % (wordSize : Nat) := by
        rw [held.position_eq, Int.emod_add_emod, Int.add_assoc]

/-- A new iterator has not moved. -/
theorem Variable.Sound.fresh
    {index : Nat}
    {iterator : Iterator B}
    (sound : iterator.Sound config data)
    (asked : iterator.index = index) :
    Variable.Sound config data ⟨iterator, index, 0⟩ := by
  refine ⟨sound, Int.ofNat_inj.mp ?_⟩
  rw [Variable.position_eq, asked, Int.add_zero]
  exact (Int.emod_eq_of_lt (Int.natCast_nonneg _)
    (Int.ofNat_lt.mpr (asked ▸ sound.small))).symm

end Iterators

variable [DecidableEq T] {thread : T} {state : State D B V T}

section Knowledge

/-- The thread is between two calls of writers. -/
def idle
    (config : Config V)
    (thread : T) :
    Knowledge D B config thread :=
  during config thread []

/-- The deque has more elements than the index. -/
def visible
    (config : Config V)
    (thread : T)
    (index : Nat) :
    Knowledge D B config thread :=
  Assertion.lasting (fun world => index < world.1.data.size)
    fun _ _ _ _ _ promise bound =>
      Nat.lt_of_lt_of_le bound promise.grows.sized

/-- The element at the index is found through the directory. -/
def through
    (config : Config V)
    (thread : T)
    (directory : Option D)
    (index : Nat) :
    Knowledge D B config thread :=
  Assertion.lasting
    (fun world =>
      ∃ array address,
        directory = some array ∧
          array ∈ world.1.data.published ∧
          world.1.data.addressAt config (some array) index =
            some address ∧
          world.1.data.addressAt config world.1.data.directory index =
            some address)
    fun _ _ _ _ _ promise ⟨array, address, same, member, found, current⟩ =>
      ⟨array, address, same, promise.grows.published member,
        promise.grows.addressIn member found,
        promise.grows.address current⟩

/-- The result is the address of the element at the index. -/
def places
    (config : Config V)
    (thread : T)
    (index : Nat)
    (result : Option (Address B)) :
    Knowledge D B config thread :=
  Assertion.lasting
    (fun world =>
      ∃ address,
        result = some address ∧
          world.1.data.addressAt config world.1.data.directory index =
            some address)
    fun _ _ _ _ _ promise ⟨address, same, current⟩ =>
      ⟨address, same, promise.grows.address current⟩

/-- The iterator of the variable is where it is taken to be. -/
def standing
    (config : Config V)
    (thread : T)
    (held : Variable B) :
    Knowledge D B config thread :=
  Assertion.lasting (fun world => held.Sound config world.1.data)
    fun _ _ _ _ _ promise known => known.mono promise.grows

/-- The iterator is sound. -/
def sound
    (config : Config V)
    (thread : T)
    (iterator : Iterator B) :
    Knowledge D B config thread :=
  Assertion.lasting (fun world => iterator.Sound config world.1.data)
    fun _ _ _ _ _ promise known => known.mono promise.grows

end Knowledge

section Loads

variable {kept : Knowledge D B config thread} {index : Nat}

/-- A directory that is loaded later leads to the element. -/
theorem loadDirectory_visible :
    Triple (protocol config) thread
      (kept.and (visible config thread index))
      (loadDirectory : Program D B V T (Option D))
      fun directory =>
        kept.and (through config thread directory index) := by
  refine Triple.read ?_
  rintro ⟨state, ghost⟩ intact ⟨keeps, bound⟩
  refine ⟨keeps, ?_⟩
  obtain ⟨address, known⟩ := intact.address bound
  cases current : state.data.directory with
  | none =>
      rw [current] at known
      cases known
  | some array =>
      exact ⟨array, address, rfl, intact.listed array current,
        current ▸ known, known⟩

/-- The entry leads to the element, also in a retired directory. -/
theorem elementAddress_through
    {directory : Option D} :
    Triple (protocol config) thread
      (kept.and (through config thread directory index))
      (elementAddress config directory index :
        Program D B V T (Option (Address B)))
      fun result => kept.and (places config thread index result) := by
  refine Triple.atomic ?_
  rintro ⟨state, ghost⟩ choice result after intact
    ⟨keeps, array, address, same, member, found, current⟩ ran
  subst same
  simp only at found
  simp only [found, Option.some.injEq, Prod.mk.injEq] at ran
  obtain ⟨rfl, rfl⟩ := ran
  exact ⟨(), intact, Promise.refl _ _ _, keeps, address, rfl, current⟩

/-- `size()` gives a size that the deque keeps. -/
theorem size_triple :
    Triple (protocol config) thread
      (idle config thread)
      (size thread : Program D B V T Nat)
      fun count =>
        (idle config thread).and
          (Assertion.lasting
            (fun world => count ≤ world.1.data.size ∧ count < wordSize)
            fun _ _ _ _ _ promise known =>
              ⟨Nat.le_trans known.1 promise.grows.sized, known.2⟩) := by
  refine Triple.atomic ?_
  rintro ⟨state, ghost⟩ choice count after intact does ran
  simp only [Option.some.injEq, Prod.mk.injEq] at ran
  obtain ⟨rfl, rfl⟩ := ran
  exact ⟨(), intact.observe, Promise.observe, does, Nat.le_refl _,
    intact.small⟩

/-- Record an address that a reader was given. -/
theorem Intact.recordReached
    {event : Event D B V T}
    {result : Option (Address B)}
    (intact : Intact config state)
    (shape :
      event = .referred thread index result ∨
        event = .dereferenced thread index result)
    (some_ : result.isSome = true)
    (known :
      state.data.addressAt config state.data.directory index = result) :
    Intact config (state.record event) where
  tame := intact.tame
  held := intact.held
  quiet := intact.quiet
  listed := intact.listed
  located := intact.located
  built index bound :=
    (intact.built index bound).mono (List.suffix_cons _ _)
  traced writer position other member := by
    refine intact.traced writer position other ?_
    rcases shape with rfl | rfl <;> simpa using member
  iterators := intact.iterators
  reached reader position other member := by
    have cases_ :
        (position = index ∧ other = result) ∨
          (.referred reader position other ∈ state.events ∨
            .dereferenced reader position other ∈ state.events) := by
      rcases shape with rfl | rfl
      · simp only [State.record_events, List.mem_cons,
          Event.referred.injEq, reduceCtorEq, false_or] at member
        rcases member with (⟨-, same, sameResult⟩ | old) | old
        · exact .inl ⟨same, sameResult⟩
        · exact .inr (.inl old)
        · exact .inr (.inr old)
      · simp only [State.record_events, List.mem_cons,
          Event.dereferenced.injEq, reduceCtorEq, false_or] at member
        rcases member with old | ⟨-, same, sameResult⟩ | old
        · exact .inr (.inl old)
        · exact .inl ⟨same, sameResult⟩
        · exact .inr (.inr old)
    rcases cases_ with ⟨rfl, rfl⟩ | old
    · exact ⟨some_, known⟩
    · exact intact.reached reader position other old
  observed := intact.observed
  sized := by
    rcases shape with rfl | rfl <;> exact intact.sized
  small := intact.small
  legal := by
    rcases shape with rfl | rfl <;> exact ⟨trivial, intact.legal⟩

/-- The address that a reader was given enters the history. -/
theorem record_reached
    {event : Event D B V T}
    {result : Option (Address B)}
    (shape :
      event = .referred thread index result ∨
        event = .dereferenced thread index result) :
    Triple (protocol config) thread
      ((idle config thread).and (places config thread index result))
      (record event : Program D B V T Unit)
      fun _ => idle config thread := by
  refine Triple.atomic ?_
  rintro ⟨state, ghost⟩ choice value after intact
    ⟨does, address, same, current⟩ ran
  cases ran
  have some_ : result.isSome = true := by rw [same]; rfl
  refine ⟨(), intact.recordReached shape some_ (current.trans same.symm),
    ?_, ?_⟩
  · rcases shape with rfl | rfl <;> exact Promise.record rfl
  · rcases shape with rfl | rfl <;> exact (marks_own rfl).trans does

/-- `operator[]` at an index below a size that was seen. -/
theorem subscript_triple :
    Triple (protocol config) thread
      ((idle config thread).and (visible config thread index))
      (subscript config thread index : Program D B V T Unit)
      fun _ => idle config thread := by
  refine Triple.bind loadDirectory_visible ?_
  intro directory
  refine Triple.bind elementAddress_through ?_
  intro result
  exact record_reached (.inl rfl)

end Loads

section Visits

variable {slot : Nat}

/-- A sound iterator is stored in a variable of the thread. -/
theorem Intact.assign
    {held : Variable B}
    (intact : Intact config state)
    (known : held.Sound config state.data) :
    Intact config (state.assign thread slot held) :=
  { intact with
    iterators := by
      intro reader position other stored
      by_cases sameThread : reader = thread
      · subst sameThread
        simp only [State.assign, Function.update_self] at stored
        by_cases sameSlot : position = slot
        · subst sameSlot
          rw [Function.update_self] at stored
          cases stored
          exact known
        · rw [Function.update_of_ne sameSlot] at stored
          exact intact.iterators reader position other stored
      · simp only [State.assign,
          Function.update_of_ne sameThread] at stored
        exact intact.iterators reader position other stored }

theorem Promise.assign
    {held : Variable B} :
    Promise config thread state (state.assign thread slot held) :=
  { Promise.refl config thread state with
    iterators := fun _ different => Function.update_of_ne different _ _ }

theorem assign_triple
    {held : Variable B} :
    Triple (protocol config) thread
      ((idle config thread).and (standing config thread held))
      (assign thread slot held : Program D B V T Unit)
      fun _ => idle config thread := by
  refine Triple.atomic ?_
  rintro ⟨state, ghost⟩ choice value after intact ⟨does, known⟩ ran
  cases ran
  exact ⟨(), intact.assign known, Promise.assign, does⟩

/-- A move of an iterator touches nothing shared. -/
theorem displace_triple
    {distance : Int}
    {change : Iterator B → Iterator B}
    (keeps :
      ∀ (data : Data D B V) iterator,
        iterator.Sound config data → (change iterator).Sound config data)
    (moves :
      ∀ iterator : Iterator B,
        iterator.index < wordSize →
        ((change iterator).index : Int) =
          (iterator.index + distance) % (wordSize : Nat)) :
    Triple (protocol config) thread
      (idle config thread)
      (displace thread slot distance change : Program D B V T Unit)
      fun _ => idle config thread := by
  refine Triple.atomic ?_
  rintro ⟨state, ghost⟩ choice value after intact does ran
  simp only [Option.some.injEq, Prod.mk.injEq, true_and] at ran
  cases stored : state.iterators thread slot with
  | none =>
      simp only [stored] at ran
      subst ran
      exact ⟨(), intact, Promise.refl _ _ _, does⟩
  | some held =>
      simp only [stored] at ran
      subst ran
      have known := intact.iterators thread slot held stored
      have displaced :=
        known.displace (keeps _ _ known.iterator)
          (moves _ known.iterator.small)
      exact ⟨(), intact.assign displaced, Promise.assign, does⟩

/-- The constructor resolves the pointer of an element that it has seen. -/
theorem construct_triple
    {index : Nat}
    (bound : index < wordSize) :
    Triple (protocol config) thread
      (idle config thread)
      (construct config thread index : Program D B V T (Iterator B))
      fun iterator =>
        (idle config thread).and
          (standing config thread ⟨iterator, index, 0⟩) := by
  refine Triple.bind size_triple ?_
  intro count
  by_cases inside : index < count
  · rw [if_pos inside]
    refine Triple.bind
      (Triple.weaken loadDirectory_visible fun world _ known =>
        ⟨known.1, Nat.lt_of_lt_of_le inside known.2.1⟩) ?_
    intro directory
    refine Triple.bind elementAddress_through ?_
    intro result
    refine Triple.pure ?_
    rintro world - ⟨does, address, rfl, current⟩
    refine ⟨does, Variable.Sound.fresh ⟨bound, ?_⟩ rfl⟩
    intro other same
    cases same
    exact current
  · rw [if_neg inside]
    refine Triple.pure ?_
    rintro world - ⟨does, -⟩
    refine ⟨does, Variable.Sound.fresh ⟨bound, ?_⟩ rfl⟩
    intro other same
    cases same

/-- A dereference at an index that was seen finds the element. -/
theorem dereference_triple
    {kept : Knowledge D B config thread}
    {iterator : Iterator B} :
    Triple (protocol config) thread
      ((kept.and (sound config thread iterator)).and
        (visible config thread iterator.index))
      (dereference config iterator : Program D B V T (Iterator B))
      fun resolved =>
        ((kept.and (sound config thread resolved)).and
          (places config thread iterator.index resolved.current)).and
          (Assertion.pure (resolved.index = iterator.index)) := by
  unfold dereference
  cases cached : iterator.current with
  | some address =>
      refine Triple.pure ?_
      rintro world - ⟨⟨keeps, known⟩, -⟩
      exact ⟨⟨⟨keeps, known⟩, address, cached,
        known.cached address cached⟩, rfl⟩
  | none =>
      refine Triple.bind loadDirectory_visible ?_
      intro directory
      refine Triple.bind elementAddress_through ?_
      intro result
      refine Triple.pure ?_
      rintro world - ⟨⟨keeps, known⟩, address, rfl, current⟩
      refine ⟨⟨⟨keeps, known.small, ?_⟩, address, rfl, current⟩, rfl⟩
      intro other same
      cases same
      exact current

/-- What the picked visit relies on. -/
def Visit.Ready
    (config : Config V)
    (thread : T)
    (state : State D B V T) :
    Visit T → Prop
  | .subscript index => index < state.data.size
  | .front => 0 < state.data.size
  | .back => 0 < state.data.size
  | .iterate _ index => index < wordSize
  | .atIndex index => index < wordSize
  | .advance _ distance => isDistance distance = true
  | .retreat _ distance => isDistance distance = true
  | .dereference slot =>
      ∃ held,
        state.iterators thread slot = some held ∧
          held.position < state.data.size
  | .subscriptFrom slot distance =>
      ∃ held,
        state.iterators thread slot = some held ∧
          isDistance distance = true ∧
          (held.displace distance
              (Iterator.advance config distance)).position <
            state.data.size
  | _ => True

/-- The visit is ready, whatever the others do. -/
def ready
    (config : Config V)
    (thread : T)
    (visit : Visit T) :
    Knowledge D B config thread where
  holds world := visit.Ready config thread world.1
  stable := by
    rintro other world after different - - promise known
    have sized := promise.grows.sized
    have same := promise.iterators thread (Ne.symm different)
    cases visit with
    | subscript index =>
        exact Nat.lt_of_lt_of_le known sized
    | front =>
        exact Nat.lt_of_lt_of_le known sized
    | back =>
        exact Nat.lt_of_lt_of_le known sized
    | dereference slot =>
        obtain ⟨iterator, stored, bound⟩ := known
        exact ⟨iterator, by rw [same]; exact stored,
          Nat.lt_of_lt_of_le bound sized⟩
    | subscriptFrom slot distance =>
        obtain ⟨iterator, stored, range, bound⟩ := known
        exact ⟨iterator, by rw [same]; exact stored, range,
          Nat.lt_of_lt_of_le bound sized⟩
    | _ =>
        exact known

theorem isDistance_iff
    {distance : Int} :
    isDistance distance = true ↔
      -(2 ^ 63) ≤ distance ∧ distance < 2 ^ 63 := by
  simp [isDistance]

/-- `at(index)`. -/
theorem atIndex_triple
    {index : Nat} :
    Triple (protocol config) thread
      (idle config thread)
      (atIndex config thread index : Program D B V T Unit)
      fun _ => idle config thread := by
  refine Triple.bind size_triple ?_
  intro count
  by_cases inside : index < count
  · rw [if_pos inside]
    exact Triple.weaken subscript_triple fun world _ known =>
      ⟨known.1, Nat.lt_of_lt_of_le inside known.2.1⟩
  · rw [if_neg inside]
    exact Triple.pure fun _ _ known => known.1

/-- `back()` of a deque that is not empty. -/
theorem back_triple :
    Triple (protocol config) thread
      ((idle config thread).and (visible config thread 0))
      (back config thread : Program D B V T Unit)
      fun _ => idle config thread := by
  have counted :
      Triple (protocol config) thread
        ((idle config thread).and (visible config thread 0))
        (size thread : Program D B V T Nat)
        fun count =>
          (idle config thread).and
            (visible config thread (previous count)) := by
    refine Triple.atomic ?_
    rintro ⟨state, ghost⟩ choice count after intact ⟨does, bound⟩ ran
    simp only [Option.some.injEq, Prod.mk.injEq] at ran
    obtain ⟨rfl, rfl⟩ := ran
    refine ⟨(), intact.observe, Promise.observe, does, ?_⟩
    have positive : 0 < state.data.size := bound
    show previous state.data.size < state.data.size
    unfold previous
    rw [if_neg (by omega)]
    omega
  refine Triple.bind counted ?_
  intro count
  exact subscript_triple

/-- The reader of a variable gets the element where it takes it to be. -/
theorem dereferenceAt_triple
    {held : Variable B}
    (placed : held.iterator.index = held.position) :
    Triple (protocol config) thread
      (((idle config thread).and (sound config thread held.iterator)).and
        (visible config thread held.iterator.index))
      (do
        let resolved ← dereference config held.iterator
        assign thread slot { held with iterator := resolved }
        record (.dereferenced thread held.position resolved.current) :
        Program D B V T Unit)
      fun _ => idle config thread := by
  refine Triple.bind dereference_triple ?_
  intro resolved
  have assigned :
      Triple (protocol config) thread
        (((idle config thread).and
            (standing config thread { held with iterator := resolved })).and
          (places config thread held.position resolved.current))
        (assign thread slot { held with iterator := resolved } :
          Program D B V T Unit)
        fun _ =>
          (idle config thread).and
            (places config thread held.position resolved.current) :=
    Triple.frame Assertion.lasting_durable assign_triple
  refine Triple.bind (assigned.weaken ?_) ?_
  · rintro world - ⟨⟨⟨does, known⟩, found⟩, same⟩
    rw [placed] at found
    exact ⟨⟨does, known, same.trans placed⟩, found⟩
  · intro _
    exact record_reached (.inr rfl)

/-- `operator[]` of an iterator. -/
theorem subscriptFrom_triple
    {held : Variable B}
    (placed : held.iterator.index = held.position) :
    Triple (protocol config) thread
      (((idle config thread).and (sound config thread held.iterator)).and
        (visible config thread held.iterator.index))
      (do
        let resolved ← dereference config held.iterator
        record (.dereferenced thread held.position resolved.current) :
        Program D B V T Unit)
      fun _ => idle config thread := by
  refine Triple.bind dereference_triple ?_
  intro resolved
  refine (record_reached (.inr rfl)).weaken ?_
  rintro world - ⟨⟨⟨does, -⟩, found⟩, -⟩
  rw [placed] at found
  exact ⟨does, found⟩

/-- What the visit relies on may be assumed if it is about local values. -/
theorem ready_given
    {α : Type}
    {reading : Visit T}
    {fact : Prop}
    {program : Program D B V T α}
    {post : α → Knowledge D B config thread}
    (implies :
      ∀ state : State D B V T, reading.Ready config thread state → fact)
    (proves :
      fact →
      Triple (protocol config) thread (idle config thread) program post) :
    Triple (protocol config) thread
      ((idle config thread).and (ready config thread reading))
      program post :=
  fun fuel world inv known =>
    proves (implies world.1 known.2) fuel world inv known.1

/-- What the thread knows about a variable that it has read. -/
def readVariable
    (config : Config V)
    (thread : T)
    (extra : Variable B → Knowledge D B config thread) :
    Option (Variable B) → Knowledge D B config thread
  | none => idle config thread
  | some held =>
      ((idle config thread).and (standing config thread held)).and
        (extra held)

/-- Every call of a reader. -/
theorem visit_triple
    (reading : Visit T) :
    Triple (protocol config) thread
      ((idle config thread).and (ready config thread reading))
      (visit config thread reading : Program D B V T Unit)
      fun _ => idle config thread := by
  have forget :
      ∀ {program : Program D B V T Unit},
        Triple (protocol config) thread (idle config thread) program
          (fun _ => idle config thread) →
        Triple (protocol config) thread
          ((idle config thread).and (ready config thread reading)) program
          fun _ => idle config thread :=
    fun triple => triple.weaken fun _ _ known => known.1
  cases reading with
  | size =>
      refine forget (Triple.bind size_triple ?_)
      intro count
      exact Triple.pure fun _ _ known => known.1
  | subscript index =>
      exact subscript_triple
  | atIndex index =>
      exact forget atIndex_triple
  | front =>
      exact subscript_triple
  | back =>
      exact back_triple
  | iterate slot index =>
      refine ready_given
        (fun _ known => show index < wordSize from known) ?_
      intro bound
      refine Triple.bind (construct_triple bound) ?_
      intro iterator
      exact assign_triple
  | beginAt slot =>
      refine forget (Triple.bind (construct_triple (by decide)) ?_)
      intro iterator
      exact assign_triple
  | endAt slot =>
      refine forget (Triple.bind size_triple ?_)
      intro count
      refine Triple.bind
        (fun fuel world inv known =>
          construct_triple known.2.2 fuel world inv known.1) ?_
      intro iterator
      exact assign_triple
  | increment slot =>
      exact forget
        (displace_triple (fun _ _ known => known.increment)
          fun _ _ => Iterator.increment_index)
  | decrement slot =>
      exact forget
        (displace_triple (fun _ _ known => known.decrement)
          fun _ bound => Iterator.decrement_index bound)
  | advance slot distance =>
      refine ready_given
        (fun _ known => show isDistance distance = true from known) ?_
      intro range
      obtain ⟨least, most⟩ := isDistance_iff.mp range
      exact displace_triple (fun _ _ known => known.advance least most)
        fun _ bound => Iterator.advance_index bound
  | retreat slot distance =>
      exact forget
        (displace_triple (fun _ _ known => known.retreat)
          fun _ bound => Iterator.retreat_index bound)
  | copy slot owner source =>
      have original :
          Triple (protocol config) thread
            (idle config thread)
            (Prog.read (fun state => state.iterators owner source) :
              Program D B V T (Option (Variable B)))
            (readVariable config thread
              fun _ => Assertion.pure True) := by
        refine Triple.read ?_
        rintro ⟨state, ghost⟩ intact does
        cases stored : state.iterators owner source with
        | none =>
            exact does
        | some held =>
            exact ⟨⟨does, intact.iterators owner source held stored⟩,
              trivial⟩
      refine forget (Triple.bind original ?_)
      intro result
      cases result with
      | none =>
          exact Triple.pure fun _ _ known => known
      | some held =>
          exact Triple.weaken assign_triple fun _ _ known => known.1
  | dereference slot =>
      have original :
          Triple (protocol config) thread
            ((idle config thread).and
              (ready config thread (.dereference slot)))
            (Prog.read (fun state => state.iterators thread slot) :
              Program D B V T (Option (Variable B)))
            (readVariable config thread fun held =>
              visible config thread held.position) := by
        refine Triple.read ?_
        rintro ⟨state, ghost⟩ intact ⟨does, held, stored, bound⟩
        simp only at stored
        rw [stored]
        exact ⟨⟨does, intact.iterators thread slot held stored⟩, bound⟩
      refine Triple.bind original ?_
      intro result
      cases result with
      | none =>
          exact Triple.pure fun _ _ known => known
      | some held =>
          intro fuel world inv known
          have stands : held.Sound config world.1.data := known.1.2
          refine dereferenceAt_triple stands.placed fuel world inv
            ⟨⟨known.1.1, stands.iterator⟩, ?_⟩
          show held.iterator.index < world.1.data.size
          rw [stands.placed]
          exact known.2
  | subscriptFrom slot distance =>
      have original :
          Triple (protocol config) thread
            ((idle config thread).and
              (ready config thread (.subscriptFrom slot distance)))
            (Prog.read (fun state => state.iterators thread slot) :
              Program D B V T (Option (Variable B)))
            (readVariable config thread fun held =>
              (Assertion.pure (isDistance distance = true)).and
                (visible config thread
                  (held.displace distance
                    (Iterator.advance config distance)).position)) := by
        refine Triple.read ?_
        rintro ⟨state, ghost⟩ intact ⟨does, held, stored, range, bound⟩
        simp only at stored
        rw [stored]
        exact ⟨⟨does, intact.iterators thread slot held stored⟩, range,
          bound⟩
      refine Triple.bind original ?_
      intro result
      cases result with
      | none =>
          exact Triple.pure fun _ _ known => known
      | some held =>
          intro fuel world inv known
          have stands : held.Sound config world.1.data := known.1.2
          obtain ⟨least, most⟩ := isDistance_iff.mp known.2.1
          have copied :=
            stands.displace (stands.iterator.advance least most)
              (Iterator.advance_index stands.iterator.small)
          refine subscriptFrom_triple copied.placed fuel world inv
            ⟨⟨known.1.1, copied.iterator⟩, ?_⟩
          show (held.displace distance
              (Iterator.advance config distance)).iterator.index <
            world.1.data.size
          rw [copied.placed]
          exact known.2.2

end Visits

end ConcurrentCpp.AppendDeque
