import ConcurrentCpp.AppendDequeHistory

namespace ConcurrentCpp.AppendDeque

/-!
# The protocol of the append-only deque

The holder of the lock is the only thread that changes the data, so it knows
them exactly.  What all threads rely on is that the data only grow: whatever a
reader has found through a directory stays there.
-/

variable {D B V T : Type} [DecidableEq T]

section Protocol

/-- The element at an index was constructed. -/
def Built
    (events : List (Event D B V T))
    (index : Nat) : Prop :=
  ∃ thread address, .constructed thread index address ∈ events

/-- A pointer that an iterator keeps is the address of its element. -/
structure Iterator.Sound
    (config : Config V)
    (data : Data D B V)
    (iterator : Iterator B) : Prop where
  small : iterator.index < wordSize
  cached :
    ∀ address,
      iterator.current = some address →
      data.addressAt config data.directory iterator.index = some address

/-- The iterator of a variable is where its reader takes it to be. -/
structure Variable.Sound
    (config : Config V)
    (data : Data D B V)
    (held : Variable B) : Prop where
  iterator : held.iterator.Sound config data
  placed : held.iterator.index = held.position

/-- What holds in every reachable state. -/
structure Intact
    (config : Config V)
    (state : State D B V T) : Prop where
  tame : state.wild = false
  held : state.lock = state.holder.isSome
  quiet : state.holder = none → Formed config state.data
  listed : Listed state.data
  located : Located config state.data
  built : ∀ index < state.data.size, Built state.events index
  traced :
    ∀ thread index address,
      .constructed thread index address ∈ state.events →
      state.data.addressAt config state.data.directory index =
          some address ∧
        address.block ∈ state.data.blocks
  iterators :
    ∀ thread slot held,
      state.iterators thread slot = some held →
      held.Sound config state.data
  reached :
    ∀ thread index address,
      .referred thread index address ∈ state.events ∨
          .dereferenced thread index address ∈ state.events →
      address.isSome ∧
        state.data.addressAt config state.data.directory index = address
  observed : ∀ thread, state.observed thread ≤ state.data.size
  sized : state.data.size = sizeOf state.events
  small : state.data.size < wordSize
  legal : Legal config state.events

/-- What one step of a thread promises to the others. -/
structure Promise
    (config : Config V)
    (thread : T)
    (before after : State D B V T) : Prop where
  grows : Grows config before.data after.data
  apart :
    ∀ other found,
      other ≠ thread →
      before.holder = some (other, found) →
      after.holder = before.holder ∧ after.data = before.data
  marks :
    ∀ other,
      other ≠ thread →
      marks other after.events = marks other before.events
  iterators :
    ∀ other,
      other ≠ thread → after.iterators other = before.iterators other
  observed :
    ∀ other,
      other ≠ thread → after.observed other = before.observed other
  history : before.events <:+ after.events

theorem Promise.refl
    (config : Config V)
    (thread : T)
    (state : State D B V T) :
    Promise config thread state state where
  grows := Grows.refl _
  apart _ _ _ _ := ⟨rfl, rfl⟩
  marks _ _ := rfl
  iterators _ _ := rfl
  observed _ _ := rfl
  history := List.suffix_refl _

/-- The protocol of the deque; the proof keeps nothing besides the state. -/
def protocol
    (config : Config V) :
    Protocol (State D B V T) Unit T where
  Inv world := Intact config world.1
  Guar thread world after := Promise config thread world.1 after.1
  guar_refl thread world := Promise.refl config thread world.1

end Protocol

variable {config : Config V} {thread : T}
variable {state after : State D B V T}

omit [DecidableEq T] in
@[simp] theorem State.record_events
    {event : Event D B V T} :
    (state.record event).events = event :: state.events :=
  rfl

omit [DecidableEq T] in
theorem Built.mono
    {earlier later : List (Event D B V T)}
    {index : Nat}
    (grown : earlier <:+ later)
    (built : Built earlier index) :
    Built later index := by
  obtain ⟨thread, address, member⟩ := built
  exact ⟨thread, address, grown.subset member⟩

theorem Data.Holds.mono
    {before after : Data D B V}
    {index : Nat}
    {value : V}
    (grows : Grows config before after)
    (bound : index < before.size)
    (known : before.Holds config index value) :
    after.Holds config index value := by
  obtain ⟨address, located, stored⟩ := known
  refine ⟨address, grows.address located, ?_⟩
  rw [grows.values index bound address located]
  exact stored

theorem Iterator.Sound.mono
    {before after : Data D B V}
    {iterator : Iterator B}
    (grows : Grows config before after)
    (sound : iterator.Sound config before) :
    iterator.Sound config after where
  small := sound.small
  cached address known := grows.address (sound.cached address known)

theorem Variable.Sound.mono
    {before after : Data D B V}
    {held : Variable B}
    (grows : Grows config before after)
    (sound : held.Sound config before) :
    held.Sound config after where
  iterator := sound.iterator.mono grows
  placed := sound.placed

/-- An element below the size has an address. -/
theorem Intact.address
    {index : Nat}
    (intact : Intact config state)
    (bound : index < state.data.size) :
    ∃ address,
      state.data.addressAt config state.data.directory index =
        some address := by
  obtain ⟨_, address, known, _⟩ := intact.located index bound
  exact ⟨address, known⟩

section Assertions

/-- What a thread knows about the deque. -/
abbrev Knowledge
    (D B : Type)
    (config : Config V)
    (thread : T) :=
  Assertion (protocol (D := D) (B := B) config) thread

/-- What the thread has done in its call. -/
def during
    (config : Config V)
    (thread : T)
    (list : List (Event D B V T)) :
    Knowledge D B config thread where
  holds world := marks thread world.1.events = list
  stable different _ _ promise known :=
    (promise.marks _ (Ne.symm different)).trans known

/--
The thread holds the lock and knows the data; the elements up to an index were
constructed.
-/
def owns
    (config : Config V)
    (thread : T)
    (found : Data D B V)
    (list : List (Event D B V T))
    (limit : Nat)
    (known : Data D B V → Prop) :
    Knowledge D B config thread where
  holds world :=
    world.1.holder = some (thread, found) ∧
      marks thread world.1.events = list ∧
      (∀ index < limit, Built world.1.events index) ∧
      known world.1.data
  stable := by
    rintro other world after different - - promise ⟨held, does, built, knows⟩
    obtain ⟨sameHolder, sameData⟩ :=
      promise.apart thread found (Ne.symm different) held
    refine ⟨sameHolder.trans held,
      (promise.marks _ (Ne.symm different)).trans does,
      fun index bound => (built index bound).mono promise.history, ?_⟩
    rw [sameData]
    exact knows

/-- The call has left its critical section with an outcome. -/
def finished
    (config : Config V)
    (thread : T)
    (call : Call V)
    (outcome : Outcome) :
    Knowledge D B config thread :=
  Assertion.any fun before =>
    Assertion.any fun after =>
      during config thread
        (.released thread call before after outcome ::
          (change thread before after ++ [.called thread call]))

/-- The critical section has done what its call is for. -/
def closing
    (config : Config V)
    (thread : T)
    (call : Call V)
    (found : Data D B V)
    (outcome : Outcome) :
    Knowledge D B config thread :=
  Assertion.any fun list =>
    owns config thread found list 0 fun data =>
      Section config call found data outcome ∧
        list = change thread found data ++ [.called thread call]

end Assertions

section DataSteps

/-- The holder of the lock changes the data and not the size. -/
theorem Intact.update
    {data : Data D B V}
    {found : Data D B V}
    (intact : Intact config state)
    (held : state.holder = some (thread, found))
    (grows : Grows config state.data data)
    (sameSize : data.size = state.data.size)
    (listed : Listed data) :
    Intact config { state with data := data } where
  tame := intact.tame
  held := intact.held
  quiet free := by
    rw [held] at free
    cases free
  listed := listed
  located index bound := by
    have below : index < state.data.size := by rwa [← sameSize]
    obtain ⟨value, known⟩ := intact.located index below
    exact ⟨value, known.mono grows below⟩
  built index bound := intact.built index (by rwa [← sameSize])
  traced thread index address member :=
    ⟨grows.address (intact.traced thread index address member).1,
      grows.blocks (intact.traced thread index address member).2⟩
  iterators thread slot iterator known :=
    (intact.iterators thread slot iterator known).mono grows
  reached thread index address member := by
    obtain ⟨some_, known⟩ := intact.reached thread index address member
    obtain ⟨found, rfl⟩ := Option.isSome_iff_exists.mp some_
    exact ⟨some_, grows.address known⟩
  observed thread := by
    show _ ≤ data.size
    rw [sameSize]
    exact intact.observed thread
  sized := sameSize.trans intact.sized
  small := by
    show data.size < wordSize
    rw [sameSize]
    exact intact.small
  legal := intact.legal

/-- It does not disturb the others. -/
theorem Promise.update
    {data : Data D B V}
    {found : Data D B V}
    (held : state.holder = some (thread, found))
    (grows : Grows config state.data data) :
    Promise config thread state { state with data := data } where
  grows := grows
  apart other found' different heldOther := by
    rw [held] at heldOther
    cases heldOther
    exact absurd rfl different
  marks _ _ := rfl
  iterators _ _ := rfl
  observed _ _ := rfl
  history := List.suffix_refl _

variable
  {found : Data D B V}
  {list : List (Event D B V T)}
  {limit : Nat}

/-- A step that changes the data and not the size. -/
theorem owns_update
    {β : Type}
    {command :
      State D B V T → Choice D B V T → Option (β × State D B V T)}
    {pre : Data D B V → Prop}
    {post : β → Data D B V → Prop}
    (updates :
      ∀ state choice value after,
        Intact config state →
        pre state.data →
        command state choice = some (value, after) →
        ∃ data,
          after = { state with data := data } ∧
            Grows config state.data data ∧
            data.size = state.data.size ∧
            Listed data ∧
            post value data) :
    Triple (protocol config) thread
      (owns config thread found list limit pre)
      (Prog.atomic command)
      fun value => owns config thread found list limit (post value) := by
  refine Triple.atomic ?_
  rintro ⟨state, ghost⟩ choice value after intact
    ⟨held, does, built, knows⟩ ran
  obtain ⟨data, rfl, grows, sameSize, listed, reached⟩ :=
    updates state choice value after intact knows ran
  exact ⟨(),
    intact.update held grows sameSize listed,
    Promise.update held grows,
    held, does, built, reached⟩

/-- A step that only reads the data. -/
theorem owns_read
    {β : Type}
    {view : State D B V T → β}
    {pre : Data D B V → Prop}
    {post : β → Data D B V → Prop}
    (reads :
      ∀ state,
        Intact config state →
        pre state.data →
        post (view state) state.data) :
    Triple (protocol config) thread
      (owns config thread found list limit pre)
      (Prog.read view : Program D B V T β)
      fun value => owns config thread found list limit (post value) := by
  refine Triple.read ?_
  rintro ⟨state, ghost⟩ intact ⟨held, does, built, knows⟩
  exact ⟨held, does, built, reads state intact knows⟩

/-- Entries inside a directory are read as they are. -/
theorem owns_readEntry
    {pre : Data D B V → Prop}
    {directory : Option D}
    {index : Nat}
    (inside :
      ∀ data,
        pre data →
        ∃ entry,
          data.entryAt directory index = some entry ∧ entry ≠ .garbage) :
    Triple (protocol config) thread
      (owns config thread found list limit pre)
      (readEntry directory index : Program D B V T (Entry B))
      fun entry =>
        owns config thread found list limit fun data =>
          data.entryAt directory index = some entry ∧
            entry ≠ .garbage ∧ pre data := by
  refine owns_update ?_
  intro state choice value after intact knows ran
  obtain ⟨entry, known, written⟩ := inside state.data knows
  rw [known] at ran
  cases entry with
  | garbage =>
      exact absurd rfl written
  | null =>
      cases ran
      exact ⟨_, rfl, Grows.refl _, rfl, intact.listed, known, written,
        knows⟩
  | block block =>
      cases ran
      exact ⟨_, rfl, Grows.refl _, rfl, intact.listed, known, written,
        knows⟩

/-- An element whose block is there has its address. -/
theorem owns_elementAddress
    {pre : Data D B V → Prop}
    {directory : Option D}
    {index : Nat}
    (backed :
      ∀ data,
        pre data →
        ∃ address,
          data.addressAt config directory index = some address) :
    Triple (protocol config) thread
      (owns config thread found list limit pre)
      (elementAddress config directory index :
        Program D B V T (Option (Address B)))
      fun result =>
        Assertion.any fun address =>
          (Assertion.pure (result = some address)).and
            (owns config thread found list limit fun data =>
              data.addressAt config directory index = some address ∧
                pre data) := by
  refine Triple.atomic ?_
  rintro ⟨state, ghost⟩ choice value after intact
    ⟨held, does, built, knows⟩ ran
  obtain ⟨address, known⟩ := backed state.data knows
  simp only [known, Option.some.injEq, Prod.mk.injEq] at ran
  obtain ⟨rfl, rfl⟩ := ran
  exact ⟨(), intact, Promise.refl _ _ _, address, rfl, held, does, built,
    known, knows⟩

/-- What the owner knows about local values may be assumed. -/
theorem owns_given
    {α : Type}
    {fact : Prop}
    {pre : Data D B V → Prop}
    {program : Program D B V T α}
    {post : α → Knowledge D B config thread}
    (proves :
      fact →
      Triple (protocol config) thread
        (owns config thread found list limit pre) program post) :
    Triple (protocol config) thread
      (owns config thread found list limit fun data => fact ∧ pre data)
      program post :=
  fun fuel world inv ⟨held, does, built, known, knows⟩ =>
    proves known fuel world inv ⟨held, does, built, knows⟩

/-- The owner may forget. -/
theorem owns_weaken
    {α : Type}
    {pre stronger : Data D B V → Prop}
    {program : Program D B V T α}
    {post : α → Knowledge D B config thread}
    (triple :
      Triple (protocol config) thread
        (owns config thread found list limit pre) program post)
    (implies : ∀ data, stronger data → pre data) :
    Triple (protocol config) thread
      (owns config thread found list limit stronger) program post :=
  triple.weaken fun _ _ ⟨held, does, built, knows⟩ =>
    ⟨held, does, built, implies _ knows⟩

end DataSteps

end ConcurrentCpp.AppendDeque
