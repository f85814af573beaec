import ConcurrentCpp.AppendDequeReaders

namespace ConcurrentCpp.AppendDeque

/-!
# Runs of the append-only deque

Any number of clients make calls whose arguments can be rounded up to whole
blocks, with any pattern of exceptions, and read without a lock.
-/

variable {D B V T : Type} [DecidableEq D] [DecidableEq B] [DecidableEq T]
variable {config : Config V} {thread : T}

section Clients

/-- What a client knows about the call that it has picked. -/
def picked
    (config : Config V)
    (thread : T) :
    Call V ⊕ Visit T → Knowledge D B config thread
  | .inl call =>
      (Assertion.pure (call.roundsUp config = true)).and
        (during config thread [.called thread call])
  | .inr reading =>
      (idle config thread).and (ready config thread reading)

omit [DecidableEq D] [DecidableEq B] in
/-- A legal visit is ready. -/
theorem ready_of_legal
    {state : State D B V T}
    {reading : Visit T}
    (intact : Intact config state)
    (legal : reading.isLegal config state thread = true) :
    reading.Ready config thread state := by
  have seen := intact.observed thread
  cases reading with
  | subscript index =>
      simp only [Visit.isLegal, decide_eq_true_eq] at legal
      exact Nat.lt_of_lt_of_le legal seen
  | front =>
      simp only [Visit.isLegal, decide_eq_true_eq] at legal
      exact Nat.lt_of_lt_of_le legal seen
  | back =>
      simp only [Visit.isLegal, decide_eq_true_eq] at legal
      exact Nat.lt_of_lt_of_le legal seen
  | iterate slot index =>
      simp only [Visit.isLegal, decide_eq_true_eq] at legal
      exact legal
  | atIndex index =>
      simp only [Visit.isLegal, decide_eq_true_eq] at legal
      exact legal
  | advance slot distance =>
      simp only [Visit.isLegal, Bool.and_eq_true] at legal
      exact legal.2
  | retreat slot distance =>
      simp only [Visit.isLegal, Bool.and_eq_true] at legal
      exact legal.2
  | dereference slot =>
      simp only [Visit.isLegal] at legal
      cases stored : state.iterators thread slot with
      | none =>
          simp [stored] at legal
      | some iterator =>
          simp only [stored, decide_eq_true_eq] at legal
          exact ⟨iterator, stored, Nat.lt_of_lt_of_le legal seen⟩
  | subscriptFrom slot distance =>
      simp only [Visit.isLegal] at legal
      cases stored : state.iterators thread slot with
      | none =>
          simp [stored] at legal
      | some iterator =>
          simp only [stored, Bool.and_eq_true, decide_eq_true_eq] at legal
          exact ⟨iterator, stored, legal.1,
            Nat.lt_of_lt_of_le legal.2 seen⟩
  | _ =>
      trivial

omit [DecidableEq D] [DecidableEq B] in
theorem pick_triple :
    Triple (protocol config) thread
      (idle config thread)
      (pick config (Call.roundsUp config) thread :
        Program D B V T (Call V ⊕ Visit T))
      (picked config thread) := by
  refine Triple.atomic ?_
  rintro ⟨state, ghost⟩ choice next after intact does ran
  cases choice with
  | call call =>
      simp only [Bool.and_eq_true, Option.ite_none_right_eq_some,
        Option.some.injEq, Prod.mk.injEq] at ran
      obtain ⟨⟨-, rounds⟩, rfl, rfl⟩ := ran
      exact ⟨(), intact.recordPlain rfl trivial, Promise.record rfl,
        rounds, marks_own rfl⟩
  | visit reading =>
      simp only [Option.ite_none_right_eq_some, Option.some.injEq,
        Prod.mk.injEq] at ran
      obtain ⟨legal, rfl, rfl⟩ := ran
      exact ⟨(), intact, Promise.refl _ _ _, does,
        ready_of_legal intact legal⟩
  | _ =>
      cases ran

/-- A client goes on for ever. -/
theorem client_triple :
    Triple (protocol config) thread
      (idle config thread)
      (client config (Call.roundsUp config) thread :
        Program D B V T Unit)
      fun _ => Assertion.pure True := by
  refine Triple.loop
    (fun _ => ?_ :
      ∀ _ : Unit, Triple (protocol config) thread
        (idle config thread) _ _)
  refine Triple.bind pick_triple ?_
  intro next
  cases next with
  | inl call =>
      refine Triple.given fun rounds => ?_
      have acted :
          Triple (protocol config) thread
            (during config thread [.called thread call])
            (act config thread (.inl call) : Program D B V T Unit)
            fun _ => idle config thread := by
        refine Triple.bind (perform_triple call rounds) ?_
        intro outcome
        exact returned_triple call outcome
      refine Triple.bind acted ?_
      intro _
      exact Triple.ret fun _ _ known => known
  | inr reading =>
      have acted :
          Triple (protocol config) thread
            ((idle config thread).and (ready config thread reading))
            (act config thread (.inr reading) : Program D B V T Unit)
            fun _ => idle config thread :=
        visit_triple reading
      refine Triple.bind acted ?_
      intro _
      exact Triple.ret fun _ _ known => known

omit [DecidableEq D] [DecidableEq B] [DecidableEq T] in
/-- The deque without elements is in order. -/
theorem formed_initial :
    Formed config (Data.initial : Data D B V) where
  length := rfl
  written := List.not_mem_nil
  published := rfl
  distinct := List.nodup_nil
  owned array := by simp [Data.initial]
  recorded := List.Perm.refl _
  blocksDistinct := List.nodup_nil
  short := by simp [Data.initial, wordSize]
  bounded := by simp [Data.initial, arrayBound]
  stored := by simp [Data.initial, storageBound]

omit [DecidableEq D] [DecidableEq B] in
theorem intact_initial :
    Intact config (State.initial : State D B V T) where
  tame := rfl
  held := rfl
  quiet _ := formed_initial
  listed _ current := nomatch current
  located index bound := absurd bound (Nat.not_lt_zero _)
  built index bound := absurd bound (Nat.not_lt_zero _)
  traced _ _ _ member := nomatch member
  iterators _ _ _ stored := nomatch stored
  reached _ _ _ member := by
    rcases member with member | member
    · cases member
    · cases member
  observed _ := Nat.le_refl _
  sized := rfl
  small := by simp [State.initial, Data.initial, wordSize]
  legal := trivial

/-- Runs of clients keep the protocol. -/
theorem covered_initial
    (fuel : Nat) :
    Covered (protocol config) fuel
      (initialPool config (Call.roundsUp config) :
        Pool (State D B V T) (Choice D B V T) T) () :=
  covered_of_triples intact_initial (fun _ => rfl)
    (fun _ => client_triple) fuel

/-- What one step keeps: the data grow and the history is continued. -/
structure Later
    (config : Config V)
    (first last : State D B V T) : Prop where
  grows : Grows config first.data last.data
  history : first.events <:+ last.events

omit [DecidableEq D] [DecidableEq B] in
theorem later_of_evolves
    {first last : State D B V T × Unit}
    (evolves : Evolves (protocol config) first last) :
    Later config first.1 last.1 := by
  refine evolves.keeps (fun world => Later config first.1 world.1)
    ⟨Grows.refl _, List.suffix_refl _⟩ ?_
  intro thread world after _ _ promise known
  exact ⟨known.grows.trans promise.grows,
    known.history.trans promise.history⟩

/-- Every pool that is reached is in order. -/
theorem intact_of_reaches
    {pool : Pool (State D B V T) (Choice D B V T) T}
    (reached :
      (initialPool config (Call.roundsUp config)).Reaches pool) :
    Intact config pool.shared := by
  obtain ⟨needed, covers⟩ := Covered.reaches reached
  obtain ⟨after, covered, -⟩ := covers (covered_initial (0 + needed))
  exact covered.1

/-- Between two pools of a run the data have grown. -/
theorem later_of_reaches
    {first last : Pool (State D B V T) (Choice D B V T) T}
    (reached :
      (initialPool config (Call.roundsUp config)).Reaches first)
    (continued : first.Reaches last) :
    Later config first.shared last.shared := by
  obtain ⟨needed, covers⟩ := Covered.reaches continued
  obtain ⟨earlier, coversFirst⟩ := Covered.reaches reached
  obtain ⟨ghost, coveredFirst, -⟩ :=
    coversFirst (covered_initial (0 + needed + earlier))
  obtain ⟨after, -, evolves⟩ := covers coveredFirst
  exact later_of_evolves evolves

end Clients

section Stability

/--
A reader has loaded the size in the first state and the directory in the
second, and looks into that directory in the third.
-/
structure Stable
    (config : Config V)
    (first second third : State D B V T) : Prop where
  /-- The size never decreases. -/
  grown :
    first.data.size ≤ second.data.size ∧
      second.data.size ≤ third.data.size
  /-- The directory leads to the one address of every element seen. -/
  found :
    ∀ index < first.data.size,
      ∃ array address,
        second.data.directory = some array ∧
          third.data.addressAt config (some array) index = some address ∧
          address.block ∈ third.data.blocks ∧
          (∃ writer, .constructed writer index address ∈ third.events) ∧
          ∀ writer other,
            .constructed writer index other ∈ third.events →
            other = address
  /-- What was constructed is not forgotten. -/
  history :
    first.events <:+ second.events ∧ second.events <:+ third.events

/-- The indices that `emplace_back` gives out. -/
structure Numbered
    (state : State D B V T) : Prop where
  /-- The size is the one that was stored last. -/
  sized : state.data.size = sizeOf state.events
  /-- A size is stored over the size that was there. -/
  continues :
    ∀ writer old new later earlier,
      state.events = later ++ .resized writer old new :: earlier →
      old = sizeOf earlier ∧ old < new
  /-- Every index is filled once, by an append or by a resize. -/
  filled : filled state.events = List.range state.data.size
  /-- An index is returned by the `emplace_back` that has filled it. -/
  appended :
    ∀ writer call index later earlier,
      state.events =
          later ++ .returned writer call (.index index) :: earlier →
      (∃ value, call = .emplaceBack value) ∧
        .resized writer index (index + 1) ∈ marks writer earlier
  /-- No index is returned twice. -/
  distinct : (returnedIndices state.events).Nodup

omit [DecidableEq D] [DecidableEq B] in
/-- The rules hold at every point of a legal history. -/
theorem Legal.split
    {event : Event D B V T}
    {later earlier : List (Event D B V T)}
    (legal : Legal config (later ++ event :: earlier)) :
    EventOk config earlier event ∧ Legal config earlier := by
  induction later with
  | nil =>
      exact legal
  | cons _ rest inductionHypothesis =>
      exact inductionHypothesis legal.2

omit [DecidableEq D] [DecidableEq B] in
theorem Intact.numbered
    {state : State D B V T}
    (intact : Intact config state) :
    Numbered state where
  sized := intact.sized
  continues writer old new later earlier shape := by
    have legal := intact.legal
    rw [shape] at legal
    exact legal.split.1
  filled := by
    rw [intact.legal.filled_eq, intact.sized]
  appended writer call index later earlier shape := by
    have legal := intact.legal
    rw [shape] at legal
    exact legal.split.2.appended legal.split.1
  distinct := intact.legal.indexed.distinct

/--
Elements stay where they were constructed while the deque grows, and every
`emplace_back` has an index of its own.
-/
theorem elements_stay
    (config : Config V)
    (first second third : Pool (State D B V T) (Choice D B V T) T)
    (reached :
      (initialPool config (Call.roundsUp config)).Reaches first)
    (loaded : first.Reaches second)
    (dereferenced : second.Reaches third) :
    Stable config first.shared second.shared third.shared ∧
      Numbered third.shared := by
  have reachedSecond := reached.trans loaded
  have reachedThird := reachedSecond.trans dereferenced
  have intact := intact_of_reaches reached
  have intactSecond := intact_of_reaches reachedSecond
  have intactThird := intact_of_reaches reachedThird
  have early := later_of_reaches reached loaded
  have late := later_of_reaches reachedSecond dereferenced
  refine ⟨⟨⟨early.grows.sized, late.grows.sized⟩, ?_,
    early.history, late.history⟩, intactThird.numbered⟩
  intro index bound
  obtain ⟨writer, address, member⟩ := intact.built index bound
  have built : .constructed writer index address ∈ second.shared.events :=
    early.history.subset member
  have builtThird :
      .constructed writer index address ∈ third.shared.events :=
    late.history.subset built
  have known := intactSecond.traced writer index address built
  have knownThird := intactThird.traced writer index address builtThird
  cases current : second.shared.data.directory with
  | none =>
      rw [current] at known
      cases known.1
  | some array =>
      rw [current] at known
      refine ⟨array, address, rfl,
        late.grows.addressIn (intactSecond.listed array current) known.1,
        knownThird.2, ⟨writer, builtThird⟩, ?_⟩
      intro other elsewhere memberOther
      have same := intactThird.traced other index elsewhere memberOther
      rw [knownThird.1] at same
      exact (Option.some.inj same.1).symm

/-- Blocks of two elements, which are numbers. -/
def pairs : Config Nat :=
  ⟨1, by decide, 0⟩

/-- A client of its own. -/
def alone
    (choices : List (Choice Nat Nat Nat Unit)) :
    List (Unit × Choice Nat Nat Nat Unit) :=
  choices.map fun choice => ((), choice)

/-- The first `emplace_back` allocates the directory 0 and the block 0. -/
def appending : List (Choice Nat Nat Nat Unit) :=
  [Choice.proceed, .call (.emplaceBack 7)] ++ List.replicate 5 Choice.proceed ++
    [Choice.array 0] ++ List.replicate 12 Choice.proceed ++
    [Choice.block 0] ++ List.replicate 7 Choice.proceed

/-- A `reserve` replaces the directory by the directory 1. -/
def replacing : List (Choice Nat Nat Nat Unit) :=
  [Choice.call (.reserve 4)] ++ List.replicate 4 Choice.proceed ++
    [Choice.array 1] ++ List.replicate 17 Choice.proceed

/-- A directory is loaded and then retired before it is looked into. -/
theorem elements_stay_retired :
    ∃ (second third :
        Pool (State Nat Nat Nat Unit) (Choice Nat Nat Nat Unit) Unit),
      (initialPool pairs (Call.roundsUp pairs)).run (alone appending) =
          some second ∧
        second.run (alone replacing) = some third ∧
        second.shared.data.directory = some 0 ∧
        third.shared.data.directory = some 1 ∧
        second.shared.data.size = 1 ∧
        Stable pairs second.shared second.shared third.shared := by
  obtain ⟨second, ran⟩ :
      ∃ second :
          Pool (State Nat Nat Nat Unit) (Choice Nat Nat Nat Unit) Unit,
        (initialPool pairs (Call.roundsUp pairs)).run (alone appending) =
          some second :=
    ⟨_, rfl⟩
  obtain ⟨third, ranOn⟩ :
      ∃ third :
          Pool (State Nat Nat Nat Unit) (Choice Nat Nat Nat Unit) Unit,
        second.run (alone replacing) = some third := by
    cases ran
    exact ⟨_, rfl⟩
  refine ⟨second, third, ran, ranOn, ?_, ?_, ?_,
    (elements_stay pairs second second third ⟨_, ran⟩
      (Pool.Reaches.refl _) ⟨_, ranOn⟩).1⟩
  · cases ran
    rfl
  · cases ran
    cases ranOn
    rfl
  · cases ran
    rfl

end Stability

section Iteration

/--
A non-null cached pointer is the address of the slot for the index, every
dereference has given the address that `operator[]` gives, and an index is the
one that the reader asked for plus all displacements that it asked for.
-/
structure Cached
    (config : Config V)
    (state : State D B V T) : Prop where
  cached :
    ∀ reader slot held address,
      state.iterators reader slot = some held →
      held.iterator.current = some address →
      state.data.addressAt config state.data.directory
          held.iterator.index =
        some address
  placed :
    ∀ reader slot held,
      state.iterators reader slot = some held →
      (held.iterator.index : Int) =
        (held.start + held.moved) % (2 ^ 64 : Int)
  dereferenced :
    ∀ reader index result,
      .dereferenced reader index result ∈ state.events →
      ∃ address,
        result = some address ∧
          state.data.addressAt config state.data.directory index =
            some address
  agrees :
    ∀ reader other index result reference,
      .dereferenced reader index result ∈ state.events →
      .referred other index reference ∈ state.events →
      result = reference
  /-- Nothing outside a directory or a block was touched. -/
  tame : state.wild = false

/-- The cache of an iterator is right at every point of every run. -/
theorem iterators_cache
    (config : Config V)
    (pool : Pool (State D B V T) (Choice D B V T) T)
    (reached :
      (initialPool config (Call.roundsUp config)).Reaches pool) :
    Cached config pool.shared := by
  have intact := intact_of_reaches reached
  refine ⟨?_, ?_, ?_, ?_, intact.tame⟩
  · intro reader slot held address stored current
    exact (intact.iterators reader slot held stored).iterator.cached
      address current
  · intro reader slot held stored
    rw [(intact.iterators reader slot held stored).placed]
    exact held.position_eq
  · intro reader index result member
    obtain ⟨some_, known⟩ :=
      intact.reached reader index result (.inr member)
    obtain ⟨address, rfl⟩ := Option.isSome_iff_exists.mp some_
    exact ⟨address, rfl, known⟩
  · intro reader other index result reference member memberOther
    have first := (intact.reached reader index result (.inr member)).2
    have second :=
      (intact.reached other index reference (.inl memberOther)).2
    exact first.symm.trans second

/-- An iterator goes around, is dereferenced and goes on in its block. -/
def iterating : List (Choice Nat Nat Nat Unit) :=
  [Choice.visit .size] ++ List.replicate 2 Choice.proceed ++
    [Choice.visit (.beginAt 0)] ++ List.replicate 5 Choice.proceed ++
    [Choice.visit (.advance 0 (-3))] ++ List.replicate 2 Choice.proceed ++
    [Choice.visit (.decrement 0)] ++ List.replicate 2 Choice.proceed ++
    [Choice.visit (.advance 0 6)] ++ List.replicate 2 Choice.proceed ++
    [Choice.visit (.retreat 0 2)] ++ List.replicate 2 Choice.proceed ++
    [Choice.visit (.dereference 0)] ++ List.replicate 6 Choice.proceed ++
    [Choice.visit (.increment 0)] ++ List.replicate 2 Choice.proceed

/-- It found the element, and its pointer has moved on with it. -/
theorem iterators_cache_wrapped :
    ∃ pool : Pool (State Nat Nat Nat Unit) (Choice Nat Nat Nat Unit) Unit,
      (initialPool pairs (Call.roundsUp pairs)).run
          (alone (appending ++ iterating)) = some pool ∧
        .dereferenced () 0 (some ⟨0, 0⟩) ∈ pool.shared.events ∧
        pool.shared.iterators () 0 = some ⟨⟨1, some ⟨0, 1⟩⟩, 0, 1⟩ ∧
        Cached pairs pool.shared := by
  obtain ⟨pool, ran⟩ :
      ∃ pool :
          Pool (State Nat Nat Nat Unit) (Choice Nat Nat Nat Unit) Unit,
        (initialPool pairs (Call.roundsUp pairs)).run
          (alone (appending ++ iterating)) = some pool :=
    ⟨_, rfl⟩
  refine ⟨pool, ran, ?_, ?_, iterators_cache pairs pool ⟨_, ran⟩⟩
  · cases ran
    exact List.mem_cons_self
  · cases ran
    rfl

end Iteration

section Arithmetic

/-- What `reserve` and `resize` are to do with their argument. -/
def GrowthRight
    (config : Config V)
    (before after : Data D B V)
    (outcome : Outcome) :
    Call V → Prop
  | .reserve newCapacity =>
      (outcome = .threw ∧
        after.directory = before.directory ∧
        after.capacity = before.capacity ∧
        after.size = before.size) ∨
      (outcome = .done ∧
        before.capacity ≤ after.capacity ∧
        (∀ index block,
          before.blockAt before.directory index = some block →
          after.blockAt after.directory index = some block) ∧
        newCapacity ≤ after.capacity * config.blockSize)
  | .resize newSize =>
      (outcome = .threw ∧ after.size = before.size) ∨
      (outcome = .done ∧ after.size = max before.size newSize)
  | _ => True

/-- The arithmetic of growth is right so far. -/
structure GrownRight
    (config : Config V)
    (state : State D B V T) : Prop where
  /-- No directory entry outside its directory was read or written. -/
  tame : state.wild = false
  /-- Every critical section has grown the deque as it should. -/
  sections :
    ∀ writer call before after outcome,
      .released writer call before after outcome ∈ state.events →
      GrowthRight config before after outcome call
  /-- A call without a critical section had nothing to do. -/
  returns :
    ∀ writer call outcome later earlier,
      state.events = later ++ .returned writer call outcome :: earlier →
      (∃ before after,
        .released writer call before after outcome ∈
          marks writer earlier) ∨
      (∃ newSize,
        call = .resize newSize ∧ outcome = .done ∧
          newSize ≤ sizeOf earlier)

omit [DecidableEq D] [DecidableEq B] in
theorem Section.right
    {call : Call V}
    {before after : Data D B V}
    {outcome : Outcome}
    (done : Section config call before after outcome) :
    GrowthRight config before after outcome call := by
  have meets := done.meets
  cases call with
  | reserve newCapacity =>
      cases outcome with
      | done =>
          exact .inr ⟨rfl, done.grows.roomy, done.grows.kept, meets.2⟩
      | threw =>
          exact .inl ⟨rfl, meets⟩
      | _ =>
          exact meets.elim
  | resize newSize =>
      cases outcome with
      | done =>
          exact .inr ⟨rfl, meets.1⟩
      | threw =>
          exact .inl ⟨rfl, meets⟩
      | _ =>
          exact meets.elim
  | _ =>
      trivial

/-- As long as no argument wraps when it is rounded up, growth is right. -/
theorem growth_right_unless_wrapping
    (config : Config V)
    (pool : Pool (State D B V T) (Choice D B V T) T)
    (reached :
      (initialPool config (Call.roundsUp config)).Reaches pool) :
    GrownRight config pool.shared := by
  have intact := intact_of_reaches reached
  refine ⟨intact.tame, ?_, ?_⟩
  · intro writer call before after outcome member
    exact (intact.legal.released member).right
  · intro writer call outcome later earlier shape
    have legal := intact.legal
    rw [shape] at legal
    rcases legal.split.1 with ⟨before, after, does⟩ | ⟨newSize, same, done,
      -, bound⟩
    · refine .inl ⟨before, after, ?_⟩
      rw [does]
      exact List.mem_cons_self
    · exact .inr ⟨newSize, same, done, bound⟩

/-- The directory has room for two blocks after the `reserve`. -/
theorem growth_right_reserved :
    ∃ pool : Pool (State Nat Nat Nat Unit) (Choice Nat Nat Nat Unit) Unit,
      (initialPool pairs (Call.roundsUp pairs)).run
          (alone (appending ++ replacing)) = some pool ∧
        pool.shared.data.capacity = 2 ∧
        GrownRight pairs pool.shared := by
  obtain ⟨pool, ran⟩ :
      ∃ pool :
          Pool (State Nat Nat Nat Unit) (Choice Nat Nat Nat Unit) Unit,
        (initialPool pairs (Call.roundsUp pairs)).run
          (alone (appending ++ replacing)) = some pool :=
    ⟨_, rfl⟩
  refine ⟨pool, ran, ?_, growth_right_unless_wrapping pairs pool ⟨_, ran⟩⟩
  cases ran
  rfl

/-- The argument is so large that rounding it up gives no blocks at all. -/
def wrapping : List (Choice Nat Nat Nat Unit) :=
  [Choice.call (.reserve (2 ^ 64 - 1))] ++ List.replicate 4 Choice.proceed ++
    [Choice.array 1] ++ List.replicate 15 Choice.proceed

/--
After one `emplace_back`, `reserve(2 ^ 64 - 1)` returns with an empty
directory, having copied the old entry outside it.
-/
theorem reserve_shrinks :
    ∃ (pool :
        Pool (State Nat Nat Nat Unit) (Choice Nat Nat Nat Unit) Unit)
        (before after : Data Nat Nat Nat),
      (initialPool pairs fun _ => true).run
          (alone (appending ++ wrapping)) = some pool ∧
        .released () (.reserve (2 ^ 64 - 1)) before after .done ∈
          pool.shared.events ∧
        before.capacity = 1 ∧
        after.capacity = 0 ∧
        pool.shared.wild = true ∧
        ¬ GrowthRight pairs before after .done (.reserve (2 ^ 64 - 1)) := by
  obtain ⟨pool, ran⟩ :
      ∃ pool :
          Pool (State Nat Nat Nat Unit) (Choice Nat Nat Nat Unit) Unit,
        (initialPool pairs fun _ => true).run
          (alone (appending ++ wrapping)) = some pool :=
    ⟨_, rfl⟩
  cases ran
  refine ⟨_, _, _, rfl, List.mem_cons_of_mem _ List.mem_cons_self, rfl,
    rfl, rfl, ?_⟩
  rintro (⟨impossible, -⟩ | ⟨-, roomy, -⟩)
  · cases impossible
  · exact absurd roomy (by decide)

/-- An element is dereferenced before that `reserve` and looked up after. -/
def stranding : List (Choice Nat Nat Nat Unit) :=
  appending ++
    ([Choice.visit .size] ++ List.replicate 2 Choice.proceed) ++
    ([Choice.visit (.beginAt 0)] ++ List.replicate 5 Choice.proceed) ++
    ([Choice.visit (.dereference 0)] ++ List.replicate 4 Choice.proceed) ++
    wrapping ++
    ([Choice.visit (.subscript 0)] ++ List.replicate 4 Choice.proceed)

/--
The iterator keeps the address of the element, which the empty directory does
not lead to any more.
-/
theorem reserve_strands_iterators :
    ∃ pool : Pool (State Nat Nat Nat Unit) (Choice Nat Nat Nat Unit) Unit,
      (initialPool pairs fun _ => true).run (alone stranding) =
          some pool ∧
        pool.shared.data.size = 1 ∧
        .dereferenced () 0 (some ⟨0, 0⟩) ∈ pool.shared.events ∧
        .referred () 0 none ∈ pool.shared.events ∧
        ¬ Cached pairs pool.shared := by
  obtain ⟨pool, ran⟩ :
      ∃ pool :
          Pool (State Nat Nat Nat Unit) (Choice Nat Nat Nat Unit) Unit,
        (initialPool pairs fun _ => true).run (alone stranding) =
          some pool :=
    ⟨_, rfl⟩
  have sized : pool.shared.data.size = 1 := by
    cases ran
    rfl
  have resolved :
      .dereferenced () 0 (some ⟨0, 0⟩) ∈ pool.shared.events := by
    cases ran
    exact List.mem_cons_of_mem _ (List.mem_cons_of_mem _
      (List.mem_cons_of_mem _ (List.mem_cons_of_mem _
        List.mem_cons_self)))
  have lost : .referred () 0 none ∈ pool.shared.events := by
    cases ran
    exact List.mem_cons_self
  refine ⟨pool, ran, sized, resolved, lost, ?_⟩
  intro cached
  exact nomatch cached.agrees _ _ _ _ _ resolved lost

end Arithmetic

end ConcurrentCpp.AppendDeque
