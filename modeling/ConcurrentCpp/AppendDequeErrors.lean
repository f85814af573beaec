import ConcurrentCpp.AppendDequeCompletion

namespace ConcurrentCpp.AppendDeque

/-!
# Error paths and destruction

Whatever allocations and constructors throw, the deque is in order again when
the lock is given back: nothing leaks, later calls complete, and the
destructor gives back everything once.
-/

variable {D B V T : Type} {config : Config V}

section Destructor

/-- What the destructor has done so far; `defined` is lost for good. -/
structure Teardown (D B : Type) where
  destroyed : List (Address B)
  blocks : List B
  arrays : List D
  defined : Bool

namespace Teardown

/-- The destructor of an element. -/
def destroy
    (log : Teardown D B) :
    Option (Address B) → Teardown D B
  | some address => { log with destroyed := log.destroyed ++ [address] }
  | none => { log with defined := false }

/-- `if (dir[i]) delete b`. -/
def release
    (log : Teardown D B) :
    Option (Entry B) → Teardown D B
  | some (.block block) => { log with blocks := log.blocks ++ [block] }
  | some .null => log
  | _ => { log with defined := false }

end Teardown

/-- The loop that destroys the elements, from an index on. -/
def destroyElements
    (config : Config V)
    (data : Data D B V)
    (index : Nat) :
    Nat → Teardown D B → Teardown D B
  | 0, log => log
  | remaining + 1, log =>
      destroyElements config data (index + 1) remaining
        (log.destroy (data.addressAt config data.directory index))

/-- The loop that frees the blocks, from an index on. -/
def freeBlocks
    (data : Data D B V)
    (index : Nat) :
    Nat → Teardown D B → Teardown D B
  | 0, log => log
  | remaining + 1, log =>
      freeBlocks data (index + 1) remaining
        (log.release (data.entryAt data.directory index))

/-- `~ConcurrentAppendDeque()`. -/
def destructor
    (config : Config V)
    (data : Data D B V) :
    Teardown D B :=
  let log : Teardown D B :=
    match data.directory with
    | none => ⟨[], [], [], true⟩
    | some array =>
        let emptied : Teardown D B :=
          freeBlocks data 0 data.capacity
            (destroyElements config data 0 data.size ⟨[], [], [], true⟩)
        { emptied with arrays := emptied.arrays ++ [array] }
  { log with arrays := log.arrays ++ data.retired }

variable {data : Data D B V}

/-- The elements of a range are destroyed in their order. -/
theorem destroyElements_eq
    {index remaining : Nat}
    {log : Teardown D B}
    {addresses : List (Address B)}
    (length : addresses.length = remaining)
    (located :
      ∀ position < remaining,
        data.addressAt config data.directory (index + position) =
          addresses[position]?) :
    destroyElements config data index remaining log =
      { log with destroyed := log.destroyed ++ addresses } := by
  induction remaining generalizing index log addresses with
  | zero =>
      rw [List.length_eq_zero_iff.mp length, List.append_nil]
      rfl
  | succ remaining inductionHypothesis =>
      cases addresses with
      | nil =>
          cases length
      | cons address rest =>
          have first := located 0 (Nat.succ_pos _)
          rw [Nat.add_zero, List.getElem?_cons_zero] at first
          have later :
              ∀ position < remaining,
                data.addressAt config data.directory
                    (index + 1 + position) =
                  rest[position]? := by
            intro position bound
            have := located (position + 1) (by omega)
            rw [List.getElem?_cons_succ] at this
            rw [← this]
            congr 1
            omega
          simp only [destroyElements, first, Teardown.destroy]
          rw [inductionHypothesis (by simpa using length) later]
          simp

/-- The blocks of a range of entries are freed in their order. -/
theorem freeBlocks_eq
    {index remaining : Nat}
    {log : Teardown D B}
    {entries : List (Entry B)}
    (length : entries.length = remaining)
    (written : Entry.garbage ∉ entries)
    (located :
      ∀ position < remaining,
        data.entryAt data.directory (index + position) =
          entries[position]?) :
    freeBlocks data index remaining log =
      { log with
        blocks := log.blocks ++ entries.filterMap Entry.block? } := by
  induction remaining generalizing index log entries with
  | zero =>
      rw [List.length_eq_zero_iff.mp length]
      simp [freeBlocks]
  | succ remaining inductionHypothesis =>
      cases entries with
      | nil =>
          cases length
      | cons entry rest =>
          have first := located 0 (Nat.succ_pos _)
          rw [Nat.add_zero, List.getElem?_cons_zero] at first
          have later :
              ∀ position < remaining,
                data.entryAt data.directory (index + 1 + position) =
                  rest[position]? := by
            intro position bound
            have := located (position + 1) (by omega)
            rw [List.getElem?_cons_succ] at this
            rw [← this]
            congr 1
            omega
          have shorter : rest.length = remaining := by simpa using length
          have clean : Entry.garbage ∉ rest :=
            fun member => written (List.mem_cons_of_mem _ member)
          simp only [freeBlocks, first]
          cases entry with
          | garbage =>
              exact absurd List.mem_cons_self written
          | null =>
              simp only [Teardown.release]
              rw [inductionHypothesis shorter clean later]
              rfl
          | block block =>
              simp only [Teardown.release]
              rw [inductionHypothesis shorter clean later]
              simp [Entry.block?]

/-- Everything is given back once. -/
structure TornDown
    (config : Config V)
    (data : Data D B V)
    (log : Teardown D B) : Prop where
  defined : log.defined = true
  /-- Each element below the size is destroyed once. -/
  destroyed :
    log.destroyed.length = data.size ∧
      ∀ index < data.size,
        data.addressAt config data.directory index = log.destroyed[index]?
  distinct : log.destroyed.Nodup
  /-- Each block that was allocated is freed once. -/
  blocks : log.blocks.Perm data.blocks ∧ log.blocks.Nodup
  /-- Each array that is allocated is freed once. -/
  arrays :
    (∀ array, array ∈ log.arrays ↔ data.arrays array ≠ none) ∧
      log.arrays.Nodup

/-- The addresses of the elements of a deque. -/
theorem exists_addresses
    (located :
      ∀ index < data.size,
        ∃ address,
          data.addressAt config data.directory index = some address) :
    ∃ addresses : List (Address B),
      addresses.length = data.size ∧
        ∀ index < data.size,
          data.addressAt config data.directory index =
            addresses[index]? := by
  have all :
      ∀ count ≤ data.size,
        ∃ addresses : List (Address B),
          addresses.length = count ∧
            ∀ index < count,
              data.addressAt config data.directory index =
                addresses[index]? := by
    intro count bound
    induction count with
    | zero =>
        exact ⟨[], rfl, fun _ impossible => absurd impossible
          (Nat.not_lt_zero _)⟩
    | succ count inductionHypothesis =>
        obtain ⟨addresses, length, known⟩ :=
          inductionHypothesis (by omega)
        obtain ⟨address, last⟩ := located count (by omega)
        refine ⟨addresses ++ [address], by simp [length], ?_⟩
        intro index below
        by_cases end_ : index = count
        · subst end_
          rw [last, ← length, List.getElem?_concat_length]
        · rw [known index (by omega),
            List.getElem?_append_left (by omega)]
  exact all data.size (Nat.le_refl _)

/-- The destructor of a deque in order gives everything back once. -/
theorem destructor_tornDown
    (formed : Formed config data)
    (located :
      ∀ index < data.size,
        ∃ address,
          data.addressAt config data.directory index = some address) :
    TornDown config data (destructor config data) := by
  obtain ⟨addresses, length, known⟩ := exists_addresses located
  have apart : addresses.Nodup := by
    rw [List.nodup_iff_getElem?_ne_getElem?]
    intro first second lower bound same
    have atFirst := known first (by omega)
    have atSecond := known second (by omega)
    rw [List.getElem?_eq_getElem (by omega)] at same atFirst
    rw [← same] at atSecond
    have := formed.address_unique atFirst atSecond
    omega
  have arrays :
      (∀ array,
          array ∈ data.directory.toList ++ data.retired ↔
            data.arrays array ≠ none) ∧
        (data.directory.toList ++ data.retired).Nodup := by
    have same :
        (data.directory.toList ++ data.retired).Perm data.published := by
      rw [formed.published]
      exact List.Perm.append_left _ (List.reverse_perm _).symm
    refine ⟨fun array => ?_, same.nodup_iff.mpr formed.distinct⟩
    rw [formed.owned array]
    exact same.mem_iff
  have recordedDistinct : data.recorded.Nodup :=
    formed.recorded.nodup_iff.mpr formed.blocksDistinct
  cases current : data.directory with
  | none =>
      have empty : data.entries = [] := by simp [Data.entries, current]
      have noBlocks : data.blocks = [] := by
        have := formed.recorded
        unfold Data.recorded at this
        rw [empty] at this
        exact List.nil_perm.mp this
      have noElements : data.size = 0 := by
        by_contra some_
        obtain ⟨address, impossible⟩ := located 0 (by omega)
        rw [current] at impossible
        cases impossible
      rw [current] at arrays
      refine
        { defined := by simp [destructor, current]
          destroyed := by
            simp only [destructor, current, noElements]
            exact ⟨rfl, fun _ impossible =>
              absurd impossible (Nat.not_lt_zero _)⟩
          distinct := by simp [destructor, current]
          blocks := by simp [destructor, current, noBlocks]
          arrays := ?_ }
      simpa [destructor, current] using arrays
  | some array =>
      have shape :
          destructor config data =
            ⟨addresses, data.recorded, [array] ++ data.retired, true⟩ := by
        unfold destructor
        rw [destroyElements_eq length (by simpa using known),
          freeBlocks_eq formed.length formed.written
            (fun position _ => by
              rw [Nat.zero_add, Data.entryAt_directory])]
        simp [current, Data.recorded]
      rw [current] at arrays
      rw [shape]
      exact
        { defined := rfl
          destroyed := ⟨length, known⟩
          distinct := apart
          blocks := ⟨formed.recorded, recordedDistinct⟩
          arrays := arrays }

end Destructor

section Errors

variable [DecidableEq D] [DecidableEq B] [DecidableEq T]

/-- What holds of a deque whose calls may throw. -/
structure ErrorSafe
    (config : Config V)
    (state : State D B V T) : Prop where
  /-- A call that throws leaves the size and every element. -/
  throws :
    ∀ writer call before after,
      .released writer call before after .threw ∈ state.events →
      after.size = before.size ∧
        ∀ index < before.size,
          ∃ address,
            before.addressAt config before.directory index =
                some address ∧
              after.addressAt config after.directory index =
                some address ∧
              after.memory address.block address.offset.toNat =
                before.memory address.block address.offset.toNat
  /-- Every call that throws does so from its own critical section. -/
  thrown :
    ∀ writer call later earlier,
      state.events = later ++ .returned writer call .threw :: earlier →
      ∃ before after,
        .released writer call before after .threw ∈ marks writer earlier
  /-- The deque is in order after every critical section. -/
  ordered :
    ∀ writer call before after outcome,
      .released writer call before after outcome ∈ state.events →
      Formed config after
  /-- It is in order whenever the lock is free. -/
  formed : state.lock = false → Formed config state.data
  /-- A later call whose allocations succeed completes normally. -/
  completes :
    state.lock = false →
    ∀ writer call,
      call.roundsUp config = true →
      Room config state.data call →
      Finishes Choice.Succeeds
        (fun outcome _ => outcome ≠ .threw)
        (perform config writer call : Program D B V T Outcome)
        (state.record (.called writer call))
  /-- The destructor gives everything back once. -/
  destroyed :
    state.lock = false →
    TornDown config state.data (destructor config state.data)

omit [DecidableEq D] [DecidableEq B] [DecidableEq T] in
/-- A call that throws has not changed the size. -/
theorem Meets.threw
    {before after : Data D B V}
    {call : Call V}
    (meets : Meets config before after call .threw) :
    after.size = before.size := by
  cases call with
  | emplaceBack value =>
      exact meets
  | resize newSize =>
      exact meets
  | reserve newCapacity =>
      exact meets.2.2
  | capacity =>
      exact meets.elim

omit [DecidableEq D] [DecidableEq B] [DecidableEq T] in
/-- An element that was there before a critical section has not moved. -/
theorem Section.kept
    {before after : Data D B V}
    {call : Call V}
    {outcome : Outcome}
    (done : Section config call before after outcome)
    {index : Nat}
    (bound : index < before.size) :
    ∃ address,
      before.addressAt config before.directory index = some address ∧
        after.addressAt config after.directory index = some address ∧
        after.memory address.block address.offset.toNat =
          before.memory address.block address.offset.toNat := by
  obtain ⟨value, address, known, -⟩ := done.located index bound
  exact ⟨address, known, done.grows.address known,
    done.grows.values index bound address known⟩

/-- No pattern of exceptions brings the deque out of order. -/
theorem errors_leave_order
    [Infinite D]
    [Infinite B]
    (config : Config V)
    (pool : Pool (State D B V T) (Choice D B V T) T)
    (reached :
      (initialPool config (Call.roundsUp config)).Reaches pool) :
    ErrorSafe config pool.shared := by
  have intact := intact_of_reaches reached
  have order : pool.shared.lock = false → Formed config pool.shared.data := by
    intro free
    refine intact.quiet ?_
    have held := intact.held
    rw [free] at held
    exact Option.isNone_iff_eq_none.mp (by simpa using held.symm)
  refine
    { throws := ?_
      thrown := ?_
      ordered := ?_
      formed := order
      completes := ?_
      destroyed := ?_ }
  · intro writer call before after member
    have done := intact.legal.released member
    exact ⟨done.meets.threw, fun _ bound => done.kept bound⟩
  · intro writer call later earlier shape
    have legal := intact.legal
    rw [shape] at legal
    rcases legal.split.1 with ⟨before, after, does⟩ | ⟨_, _, normal, _⟩
    · refine ⟨before, after, ?_⟩
      rw [does]
      exact List.mem_cons_self
    · cases normal
  · intro writer call before after outcome member
    exact (intact.legal.released member).formed
  · intro free writer call rounds room
    exact perform_finishes (intact.recordPlain rfl trivial) free
      (marks_own rfl) rounds room
  · intro free
    exact destructor_tornDown (order free) fun index bound =>
      intact.address bound

/-- The directory is allocated for an `emplace_back`, the block is not. -/
def failing : List (Choice Nat Nat Nat Unit) :=
  [Choice.proceed, .call (.emplaceBack 7)] ++ List.replicate 5 Choice.proceed ++
    [Choice.array 0] ++ List.replicate 12 Choice.proceed ++
    [Choice.fail] ++ List.replicate 3 Choice.proceed

/-- Another `emplace_back` needs the block only. -/
def retrying : List (Choice Nat Nat Nat Unit) :=
  [Choice.call (.emplaceBack 8)] ++ List.replicate 7 Choice.proceed ++
    [Choice.block 0] ++ List.replicate 7 Choice.proceed

/-- It uses the directory that was left, and the destructor frees that once. -/
theorem errors_leave_order_failed :
    ∃ pool : Pool (State Nat Nat Nat Unit) (Choice Nat Nat Nat Unit) Unit,
      (initialPool pairs (Call.roundsUp pairs)).run
          (alone (failing ++ retrying)) = some pool ∧
        .returned () (.emplaceBack 7) .threw ∈ pool.shared.events ∧
        .returned () (.emplaceBack 8) (.index 0) ∈ pool.shared.events ∧
        pool.shared.data.directory = some 0 ∧
        (destructor pairs pool.shared.data).arrays = [0] ∧
        ErrorSafe pairs pool.shared := by
  obtain ⟨pool, ran⟩ :
      ∃ pool :
          Pool (State Nat Nat Nat Unit) (Choice Nat Nat Nat Unit) Unit,
        (initialPool pairs (Call.roundsUp pairs)).run
          (alone (failing ++ retrying)) = some pool :=
    ⟨_, rfl⟩
  refine ⟨pool, ran, ?_, ?_, ?_, ?_,
    errors_leave_order pairs pool ⟨_, ran⟩⟩
  · cases ran
    exact List.mem_of_getElem? (i := 5) rfl
  · cases ran
    exact List.mem_cons_self
  · cases ran
    rfl
  · cases ran
    rfl

end Errors

end ConcurrentCpp.AppendDeque
