import ConcurrentCpp.HashSetArena

namespace ConcurrentCpp.HashSet

/-!
# The deciding steps of the hash set

Every successful compare-and-swap on a head or on the link of a published node
is one change of the split table.  The doubling happens under a lock; its last
store changes the table.
-/

variable {K T : Type} [DecidableEq K] [DecidableEq T]

variable
  {config : Config K T}
  {state : State K T}
  {ghost : Ghost T}
  {thread : T}

/-- The words that the deciding steps write. -/
def State.rewords
    (state : State K T)
    (buckets : Nat → Head)
    (link : Slot → Link)
    (events : List (SetEvent T K)) :
    State K T :=
  { state with buckets := buckets, link := link, events := events }

section Words

variable
  {buckets : Nat → Head}
  {link : Slot → Link}
  {events : List (SetEvent T K)}
  {stage : Slot → Stage T}

/-- A change of the table is a step if only its own slots change hands. -/
private theorem rewords_keeps
    (inv : Invariant config (state, ghost))
    (sound :
      (tableOf
        (state.rewords buckets link events,
          ghost.restage stage)).Sound config.hash config.allowDelete
        config.capacity.log2)
    (advances :
      SplitTable.Advances config.hash thread (tableOf (state, ghost))
        (tableOf
          (state.rewords buckets link events, ghost.restage stage)))
    (stages :
      ∀ slot,
        stage slot = ghost.stage slot ∨
          ghost.stage slot = .owned thread ∧
            ∃ bucket, stage slot = .chained bucket)
    (next : ∀ slot, (link slot).next = (state.link slot).next)
    (bare :
      ∀ {slot},
        (∀ bucket, stage slot ≠ .chained bucket) →
        link slot = state.link slot)
    (beyond :
      ∀ bucket,
        state.tableSize ≤ bucket →
        buckets bucket = state.buckets bucket)
    (unsealed :
      ∀ bucket,
        buckets bucket = state.buckets bucket ∨
          (buckets bucket).address ≠ .uninitialized)
    (lawful : Lawful events)
    (harmless : Harmless events)
    (calls :
      ∀ other, calling events other = calling state.events other)
    (fresh :
      Fresh (state, ghost)
        (state.rewords buckets link events, ghost.restage stage)) :
    Invariant config
        (state.rewords buckets link events, ghost.restage stage) ∧
      Steps config thread (state, ghost)
        (state.rewords buckets link events, ghost.restage stage) := by
  have label :
      ∀ slot, (stage slot).label? = (ghost.stage slot).label? := by
    intro slot
    rcases stages slot with same | ⟨owned, bucket, chained⟩
    · rw [same]
    · simp [owned, chained, Stage.label?]
  have sameStacks :
      stacksOf (state.rewords buckets link events, ghost.restage stage) =
        stacksOf (state, ghost) := by
    simp only [stacksOf, Ghost.restage, label, Stacks.mk.injEq, and_true]
    funext cell
    cases cell with
    | root list =>
        cases list <;> rfl
    | node slot =>
        exact next slot
  have owned :
      ∀ {slot other},
        stage slot = .owned other → ghost.stage slot = .owned other := by
    intro slot other known
    rcases stages slot with same | ⟨_, bucket, chained⟩
    · rwa [same] at known
    · rw [chained] at known
      cases known
  have listed :
      ∀ {slot list},
        stage slot = .listed list → ghost.stage slot = .listed list := by
    intro slot list known
    rcases stages slot with same | ⟨_, bucket, chained⟩
    · rwa [same] at known
    · rw [chained] at known
      cases known
  have free :
      ∀ slot, (stage slot).isFree = (ghost.stage slot).isFree := by
    intro slot
    rcases stages slot with same | ⟨owned, bucket, chained⟩
    · rw [same]
    · simp [owned, chained, Stage.isFree]
  refine ⟨?_, ?_⟩
  · refine
      { size := inv.size
        unsealed := ?_
        table := sound
        stacked := sameStacks ▸ inv.stacked
        nodes := ?_
        owner := fun known => inv.owner (owned known)
        holder := inv.holder
        lock := inv.lock
        lawful := lawful
        harmless := harmless
        threads := inv.threads
        calls := fun other => by
          rw [show (state.rewords buckets link events).events = events
            from rfl, calls other]
          exact inv.calls other
        counted := inv.counted.same rfl rfl rfl rfl rfl rfl free }
    · intro bucket small hidden
      rcases unsealed bucket with same | published
      · simp only [State.rewords, same] at hidden ⊢
        exact inv.unsealed small hidden
      · exact absurd hidden published
    intro slot
    have old := inv.nodes slot
    refine
      { appended := ?_
        shard := old.shard
        valued := old.valued
        bare := ?_
        label := fun known => old.label (listed known) }
    · refine Iff.trans ?_ old.appended
      rcases stages slot with same | ⟨known, bucket, chained⟩
      · simp [Ghost.restage, same]
      · simp [Ghost.restage, known, chained]
    · intro unchained
      rw [show (state.rewords buckets link events).link slot =
        state.link slot from bare unchained]
      refine old.bare ?_
      rcases stages slot with same | ⟨_, bucket, chained⟩
      · rw [← show stage slot = ghost.stage slot from same]
        exact unchained
      · exact absurd chained (unchained bucket)
  · refine
      { table := advances
        inside := fun _ => Iff.rfl
        next := fun _ => next _
        owned := ?_
        owner := fun _ known => owned known
        free := ?_
        holder := fun _ => Iff.rfl
        locked := fun _ _ => ⟨rfl, beyond⟩
        debtors := fun _ => Iff.rfl
        fresh := fresh }
    · intro slot other different known
      rcases stages slot with same | ⟨mine, _⟩
      · refine ⟨same.trans known, bare ?_, rfl⟩
        intro bucket chained
        rw [same, known] at chained
        cases chained
      · rw [mine] at known
        exact absurd (Stage.owned.inj known).symm different
    · intro slot list known
      refine ⟨listed known, bare ?_⟩
      intro bucket chained
      rw [show stage slot = _ from known] at chained
      cases chained

end Words

omit [DecidableEq K] [DecidableEq T] in
/-- A published bucket leads to its first node. -/
theorem root_links
    {bucket : Nat}
    (published : state.published bucket = true) :
    (tableOf (state, ghost)).forest.links (.root bucket) =
      (state.buckets bucket).address.first := by
  simp [tableOf, State.chainLinks, published]

omit [DecidableEq K] [DecidableEq T] in
theorem published_iff
    {bucket : Nat} :
    state.published bucket = true ↔
      bucket < state.tableSize ∧
        (state.buckets bucket).address ≠ .uninitialized := by
  simp [State.published]

omit [DecidableEq K] [DecidableEq T] in
theorem level_of_published
    {bucket : Nat}
    (published : state.published bucket = true) :
    (tableOf (state, ghost)).level bucket =
      (state.buckets bucket).level := by
  simp [tableOf, published]

variable (thread) in
/-- A splitter seals a published parent. -/
theorem casSeal_keeps
    (inv : Invariant config (state, ghost))
    {bucket level : Nat}
    (published : state.published bucket = true)
    (higher : (state.buckets bucket).level ≤ level)
    (inTable : level ≤ state.tableSize.log2) :
    Invariant config
        ({ state with
            buckets :=
              Function.update state.buckets bucket
                { state.buckets bucket with level := level } },
          ghost) ∧
      Steps config thread (state, ghost)
        ({ state with
            buckets :=
              Function.update state.buckets bucket
                { state.buckets bucket with level := level } },
          ghost) := by
  have samePublished :
      ∀ other,
        ({ state with
            buckets :=
              Function.update state.buckets bucket
                { state.buckets bucket with level := level } } :
          State K T).published other = state.published other := by
    intro other
    by_cases same : other = bucket
    · simp [State.published, same]
    · simp [State.published, same]
  have table :
      tableOf
          ({ state with
              buckets :=
                Function.update state.buckets bucket
                  { state.buckets bucket with level := level } },
            ghost) =
        (tableOf (state, ghost)).sealBucket bucket level := by
    simp only [tableOf, SplitTable.sealBucket, SplitTable.mk.injEq,
      Forest.mk.injEq, and_true, true_and]
    refine ⟨?_, funext samePublished, ?_⟩
    · funext cell
      cases cell with
      | root other =>
          simp only [State.chainLinks, samePublished]
          by_cases same : other = bucket
          · simp [same]
          · simp [same]
      | node slot =>
          rfl
    · funext other
      simp only [samePublished]
      by_cases same : other = bucket
      · simp [same, published]
      · simp [same]
  have low : (tableOf (state, ghost)).level bucket ≤ level := by
    rwa [level_of_published published]
  refine rewords_keeps inv ?_ ?_ (fun _ => .inl rfl) (fun _ => rfl)
    (fun _ => rfl) ?_ ?_ inv.lawful inv.harmless (fun _ => rfl)
    (.of_same samePublished)
  · exact table ▸ SplitTable.sealBucket_sound inv.table low inTable
  · exact table ▸ SplitTable.sealBucket_advances low
  · intro other large
    have different : other ≠ bucket := by
      rintro rfl
      have small := (published_iff.mp published).1
      omega
    simp [different]
  · intro other
    by_cases same : other = bucket
    · exact .inr (by simpa [same] using (published_iff.mp published).2)
    · exact .inl (by simp [same])

variable (thread) in
/-- A splitter freezes a node of the snapshot. -/
theorem casFreeze_keeps
    (inv : Invariant config (state, ghost))
    {bucket child : Nat}
    {node : Slot}
    {key : K}
    (freezable :
      (tableOf (state, ghost)).Freezable config.hash bucket child node
        key) :
    Invariant config
        ({ state with
            link :=
              Function.update state.link node
                { state.link node with frozen := true } },
          ghost) ∧
      Steps config thread (state, ghost)
        ({ state with
            link :=
              Function.update state.link node
                { state.link node with frozen := true } },
          ghost) := by
  have chained : ghost.stage node = .chained bucket := by
    simpa [tableOf] using freezable.linked
  have table :
      tableOf
          ({ state with
              link :=
                Function.update state.link node
                  { state.link node with frozen := true } },
            ghost) =
        (tableOf (state, ghost)).freeze node := by
    simp only [tableOf, SplitTable.freeze, SplitTable.mk.injEq,
      Forest.mk.injEq, and_true, true_and]
    refine ⟨?_, ?_, ?_, rfl, rfl⟩
    · funext cell
      cases cell with
      | root other =>
          rfl
      | node slot =>
          by_cases same : slot = node
          · simp [State.chainLinks, same]
          · simp [State.chainLinks, same]
    · funext slot
      by_cases same : slot = node
      · simp [same]
      · simp [same]
    · funext slot
      by_cases same : slot = node
      · simp [same]
      · simp [same]
  refine rewords_keeps inv ?_ ?_ (fun _ => .inl rfl) ?_ ?_
    (fun _ _ => rfl) (fun _ => .inl rfl) inv.lawful inv.harmless
    (fun _ => rfl) (.of_same fun _ => rfl)
  · exact table ▸ SplitTable.freeze_sound inv.table freezable
  · exact table ▸ SplitTable.freeze_advances node
  · intro slot
    by_cases same : slot = node
    · simp [same]
    · simp [same]
  · intro slot unchained
    have different : slot ≠ node := by
      rintro rfl
      exact unchained bucket chained
    simp [different]

/-- An eraser marks a node. -/
theorem casMark_keeps
    (inv : Invariant config (state, ghost))
    {bucket : Nat}
    {node : Slot}
    {key : K}
    (markable :
      (tableOf (state, ghost)).Markable config.allowDelete bucket node
        key)
    (inCall : calling state.events thread = some (.erase key))
    (pure : updated state.events thread = false)
    (present : member state.events key = true) :
    Invariant config
        ({ state with
            link :=
              Function.update state.link node
                { state.link node with mark := true }
            events := .removed thread key :: state.events },
          ghost) ∧
      Steps config thread (state, ghost)
        ({ state with
            link :=
              Function.update state.link node
                { state.link node with mark := true }
            events := .removed thread key :: state.events },
          ghost) := by
  have chained : ghost.stage node = .chained bucket := by
    simpa [tableOf] using markable.linked
  have table :
      tableOf
          ({ state with
              link :=
                Function.update state.link node
                  { state.link node with mark := true }
              events := .removed thread key :: state.events },
            ghost) =
        (tableOf (state, ghost)).mark thread node key := by
    simp only [tableOf, SplitTable.mark, SplitTable.mk.injEq,
      Forest.mk.injEq, and_true, true_and]
    refine ⟨?_, ?_, ?_, rfl, rfl⟩
    · funext cell
      cases cell with
      | root other =>
          rfl
      | node slot =>
          by_cases same : slot = node
          · simp [State.chainLinks, same]
          · simp [State.chainLinks, same]
    · funext slot
      by_cases same : slot = node
      · simp [same]
      · simp [same]
    · funext slot
      by_cases same : slot = node
      · simp [same]
      · simp [same]
  refine rewords_keeps inv ?_ ?_ (fun _ => .inl rfl) ?_ ?_
    (fun _ _ => rfl) (fun _ => .inl rfl)
    ⟨⟨inCall, pure, present⟩, inv.lawful⟩ inv.harmless (fun _ => rfl)
    (.of_same fun _ => rfl)
  · exact table ▸ SplitTable.mark_sound inv.table markable
  · exact table ▸ SplitTable.mark_advances markable.carries.1
  · intro slot
    by_cases same : slot = node
    · simp [same]
    · simp [same]
  · intro slot unchained
    have different : slot ≠ node := by
      rintro rfl
      exact unchained bucket chained
    simp [different]

/-- An inserter publishes its node. -/
theorem casInsert_keeps
    (inv : Invariant config (state, ghost))
    {bucket : Nat}
    {node : Slot}
    {key : K}
    (owned : ghost.stage node = .owned thread)
    (prependable :
      (tableOf (state, ghost)).Prependable config.hash
        config.capacity.log2 bucket node key)
    (inCall : calling state.events thread = some (.insert key))
    (pure : updated state.events thread = false)
    (absent : member state.events key = false) :
    Invariant config
        ({ state with
            buckets :=
              Function.update state.buckets bucket
                { state.buckets bucket with address := .node node }
            events := .added thread key :: state.events },
          ghost.restage
            (Function.update ghost.stage node (.chained bucket))) ∧
      Steps config thread (state, ghost)
        ({ state with
            buckets :=
              Function.update state.buckets bucket
                { state.buckets bucket with address := .node node }
            events := .added thread key :: state.events },
          ghost.restage
            (Function.update ghost.stage node (.chained bucket))) := by
  have published : state.published bucket = true := prependable.published
  have samePublished :
      ∀ other,
        ({ state with
            buckets :=
              Function.update state.buckets bucket
                { state.buckets bucket with address := .node node }
            events := .added thread key :: state.events } :
          State K T).published other = state.published other := by
    intro other
    by_cases same : other = bucket
    · have small := (published_iff.mp published).1
      rw [same, published]
      simp [State.published, small]
    · simp [State.published, same]
  have table :
      tableOf
          ({ state with
              buckets :=
                Function.update state.buckets bucket
                  { state.buckets bucket with address := .node node }
              events := .added thread key :: state.events },
            ghost.restage
              (Function.update ghost.stage node (.chained bucket))) =
        (tableOf (state, ghost)).prepend thread bucket node key := by
    simp only [tableOf, SplitTable.prepend, Forest.insertAfter,
      Ghost.restage, SplitTable.mk.injEq, Forest.mk.injEq, and_true,
      true_and]
    refine ⟨⟨?_, ?_⟩, funext samePublished, ?_⟩
    · funext cell
      cases cell with
      | root other =>
          simp only [State.chainLinks, samePublished]
          by_cases same : other = bucket
          · simp [same, published, Address.first]
          · simp [same, State.chainLinks]
      | node slot =>
          simp [State.chainLinks]
    · funext slot
      by_cases same : slot = node
      · simp [same, Stage.place]
      · simp [same]
    · funext other
      simp only [samePublished]
      by_cases same : other = bucket
      · simp [same]
      · simp [same]
  refine rewords_keeps inv ?_ ?_ ?_ (fun _ => rfl) (fun _ => rfl) ?_ ?_
    ⟨⟨inCall, pure, absent⟩, inv.lawful⟩ inv.harmless (fun _ => rfl)
    (.of_same samePublished)
  · exact table ▸ SplitTable.prepend_sound inv.table prependable
  · exact table ▸ SplitTable.prepend_advances inv.table prependable
  · intro slot
    by_cases same : slot = node
    · exact .inr ⟨same ▸ owned, bucket, by simp [same]⟩
    · exact .inl (by simp [same])
  · intro other large
    have different : other ≠ bucket := by
      rintro rfl
      have small := (published_iff.mp published).1
      omega
    simp [different]
  · intro other
    by_cases same : other = bucket
    · exact .inr (by simp [same])
    · exact .inl (by simp [same])

/-- A splitter publishes its copies. -/
theorem casPublish_keeps
    (inv : Invariant config (state, ghost))
    {bucket : Nat}
    {copies : List Slot}
    (owned : ∀ node ∈ copies, ghost.stage node = .owned thread)
    (hidden : state.buckets bucket = ⟨.uninitialized, 0⟩)
    (splittable :
      (tableOf (state, ghost)).Splittable config.hash config.allowDelete
        bucket copies) :
    Invariant config
        ({ state with
            buckets :=
              Function.update state.buckets bucket
                ⟨.of copies.head?, 0⟩ },
          ghost.restage fun node =>
            if node ∈ copies then .chained bucket else ghost.stage node) ∧
      Steps config thread (state, ghost)
        ({ state with
            buckets :=
              Function.update state.buckets bucket
                ⟨.of copies.head?, 0⟩ },
          ghost.restage fun node =>
            if node ∈ copies then
              .chained bucket
            else
              ghost.stage node) := by
  have small : bucket < state.tableSize := by
    rw [inv.size]
    exact splittable.inTable
  have first :
      (Address.of copies.head?).first = copies.head? ∧
        Address.of copies.head? ≠ .uninitialized := by
    cases copies.head? <;> simp [Address.of, Address.first]
  have published :
      ({ state with
          buckets :=
            Function.update state.buckets bucket
              ⟨.of copies.head?, 0⟩ } : State K T).published =
        Function.update state.published bucket true := by
    funext other
    by_cases same : other = bucket
    · simp [State.published, same, small, first.2]
    · simp [State.published, same]
  have table :
      tableOf
          ({ state with
              buckets :=
                Function.update state.buckets bucket
                  ⟨.of copies.head?, 0⟩ },
            ghost.restage fun node =>
              if node ∈ copies then
                .chained bucket
              else
                ghost.stage node) =
        (tableOf (state, ghost)).publish bucket copies := by
    simp only [tableOf, SplitTable.publish, Forest.publish, Ghost.restage,
      published, SplitTable.mk.injEq, Forest.mk.injEq, and_true, true_and]
    refine ⟨⟨?_, ?_⟩, ?_⟩
    · funext cell
      cases cell with
      | root other =>
          simp only [State.chainLinks, published]
          by_cases same : other = bucket
          · simp [same, first.1]
          · simp [same, State.chainLinks]
      | node slot =>
          simp [State.chainLinks]
    · funext slot
      by_cases member : slot ∈ copies
      · simp [member, Stage.place]
      · simp [member]
    · funext other
      by_cases same : other = bucket
      · simp [same]
      · simp [same]
  refine rewords_keeps inv ?_ ?_ ?_ (fun _ => rfl) (fun _ => rfl) ?_ ?_
    inv.lawful inv.harmless (fun _ => rfl) ?_
  · exact table ▸ SplitTable.publish_sound inv.table splittable
  · exact table ▸ SplitTable.publish_advances inv.table splittable
  · intro slot
    by_cases member : slot ∈ copies
    · exact .inr ⟨owned slot member, bucket, by simp [member]⟩
    · exact .inl (by simp [member])
  · intro other large
    have different : other ≠ bucket := by
      rintro rfl
      omega
    simp [different]
  · intro other
    by_cases same : other = bucket
    · exact .inr (by simpa [same] using first.2)
    · exact .inl (by simp [same])
  · intro other before after
    have same : other = bucket := by
      by_contra different
      rw [show (state.rewords _ _ _).published other = _ from
        congrFun published other] at after
      simp [different, before] at after
    subst same
    refine ⟨by simp [State.rewords], fun node home => ?_⟩
    by_cases member : node ∈ copies
    · exact splittable.live node member
    · simp only [Ghost.restage, member, ↓reduceIte] at home
      have inside :
          (tableOf (state, ghost)).forest.place node =
            .linked other := by
        simp [tableOf, home]
      have visible := (inv.table.within (.inl inside)).1
      exact absurd (visible.symm.trans before) (by simp)

section Resize

/-- A thread takes the lock. -/
theorem lockResize_keeps
    (inv : Invariant config (state, ghost))
    (within : thread ∈ state.inside)
    (unlocked : state.resizing = false) :
    Invariant config
        ({ state with resizing := true },
          { ghost with holder := some thread }) ∧
      Steps config thread (state, ghost)
        ({ state with resizing := true },
          { ghost with holder := some thread }) := by
  have nobody : ghost.holder = none := by
    have known := inv.lock
    rw [show (state, ghost).1.resizing = false from unlocked] at known
    simpa using known.symm
  refine ⟨?_, ?_⟩
  · refine
      { inv with
        nodes := fun node => { inv.nodes node with }
        counted := { inv.counted with }
        holder := ?_
        lock := rfl }
    intro other known
    cases known
    exact within
  · refine
      { Steps.refl config thread (state, ghost) with
        holder := ?_
        locked := ?_ }
    · intro other different
      simp [nobody, Ne.symm different]
    · intro other _ known
      simp [nobody] at known

/-- The holder releases the lock. -/
theorem unlockResize_keeps
    (inv : Invariant config (state, ghost))
    (holder : ghost.holder = some thread) :
    Invariant config
        ({ state with resizing := false },
          { ghost with holder := none }) ∧
      Steps config thread (state, ghost)
        ({ state with resizing := false },
          { ghost with holder := none }) := by
  refine ⟨?_, ?_⟩
  · refine
      { inv with
        nodes := fun node => { inv.nodes node with }
        counted := { inv.counted with }
        holder := ?_
        lock := rfl }
    intro other known
    cases known
  · refine
      { Steps.refl config thread (state, ghost) with
        holder := ?_
        locked := ?_ }
    · intro other different
      simp [holder, Ne.symm different]
    · intro other different known
      rw [holder] at known
      exact absurd (Option.some.inj known).symm different

omit [DecidableEq K] [DecidableEq T] in
/-- A table depends on its own buckets only. -/
private theorem tableOf_beyond
    {buckets : Nat → Head}
    (within :
      ∀ bucket,
        bucket < state.tableSize →
        buckets bucket = state.buckets bucket) :
    tableOf ({ state with buckets := buckets }, ghost) =
      tableOf (state, ghost) := by
  have published :
      ({ state with buckets := buckets } : State K T).published =
        state.published := by
    funext bucket
    by_cases small : bucket < state.tableSize
    · simp [State.published, within bucket small]
    · simp [State.published, small]
  simp only [tableOf, published, SplitTable.mk.injEq, Forest.mk.injEq,
    and_true, true_and]
  refine ⟨?_, ?_⟩
  · funext cell
    cases cell with
    | root bucket =>
        simp only [State.chainLinks, published]
        by_cases known : state.published bucket = true
        · simp [known, within bucket (published_iff.mp known).1]
        · simp [known]
    | node slot =>
        rfl
  · funext bucket
    by_cases known : state.published bucket = true
    · simp [known, within bucket (published_iff.mp known).1]
    · simp [known]

/-- The holder marks a bucket beyond the table. -/
theorem markBucket_keeps
    (inv : Invariant config (state, ghost))
    (holder : ghost.holder = some thread)
    {bucket : Nat}
    (outside : state.tableSize ≤ bucket) :
    Invariant config
        ({ state with
            buckets :=
              Function.update state.buckets bucket ⟨.uninitialized, 0⟩ },
          ghost) ∧
      Steps config thread (state, ghost)
        ({ state with
            buckets :=
              Function.update state.buckets bucket ⟨.uninitialized, 0⟩ },
          ghost) := by
  have table :
      tableOf
          ({ state with
              buckets :=
                Function.update state.buckets bucket
                  ⟨.uninitialized, 0⟩ },
            ghost) =
        tableOf (state, ghost) := by
    refine tableOf_beyond fun other small => ?_
    have different : other ≠ bucket := by
      rintro rfl
      omega
    simp [different]
  refine ⟨?_, ?_⟩
  · refine
      { inv with
        unsealed := ?_
        table := table ▸ inv.table
        nodes := fun node => { inv.nodes node with }
        counted := { inv.counted with } }
    intro other small hidden
    have different : other ≠ bucket := by
      rintro rfl
      exact absurd small (Nat.not_lt.mpr outside)
    simp only [Function.update_of_ne different] at hidden ⊢
    exact inv.unsealed small hidden
  · refine
      { Steps.refl config thread (state, ghost) with
        table := table ▸ SplitTable.Advances.refl _ _ _
        fresh := .of_same (congrFun (congrArg SplitTable.published table))
        locked := ?_ }
    intro other different known
    rw [holder] at known
    exact absurd (Option.some.inj known).symm different

/-- The holder doubles the table once all new buckets are marked. -/
theorem storeSize_keeps
    (inv : Invariant config (state, ghost))
    (holder : ghost.holder = some thread)
    (marked :
      ∀ bucket,
        state.tableSize ≤ bucket →
        bucket < state.tableSize * 2 →
        state.buckets bucket = ⟨.uninitialized, 0⟩) :
    Invariant config
        ({ state with tableSize := state.tableSize * 2 }, ghost) ∧
      Steps config thread (state, ghost)
        ({ state with tableSize := state.tableSize * 2 }, ghost) := by
  have power := inv.size
  have log : (state.tableSize * 2).log2 = state.tableSize.log2 + 1 := by
    rw [show state.tableSize = _ from power, ← Nat.pow_succ,
      Nat.log2_two_pow, Nat.log2_two_pow]
  have published :
      ({ state with tableSize := state.tableSize * 2 } :
        State K T).published = state.published := by
    funext bucket
    by_cases small : bucket < state.tableSize
    · simp [State.published, small,
        show bucket < state.tableSize * 2 by omega]
    · by_cases new : bucket < state.tableSize * 2
      · simp [State.published, small, new,
          marked bucket (Nat.not_lt.mp small) new]
      · simp [State.published, small, new]
  have table :
      tableOf ({ state with tableSize := state.tableSize * 2 }, ghost) =
        (tableOf (state, ghost)).double := by
    simp only [tableOf, SplitTable.double, published, log,
      SplitTable.mk.injEq, Forest.mk.injEq, and_true]
    funext cell
    cases cell with
    | root bucket =>
        simp only [State.chainLinks, published]
    | node slot =>
        rfl
  refine ⟨?_, ?_⟩
  · refine
      { inv with
        size := ?_
        unsealed := ?_
        table := table ▸ SplitTable.double_sound inv.table
        nodes := fun node => { inv.nodes node with }
        counted := { inv.counted with } }
    · change state.tableSize * 2 = 2 ^ (state.tableSize * 2).log2
      rw [log, Nat.pow_succ, ← show state.tableSize = _ from power]
    · intro bucket small hidden
      by_cases old : bucket < state.tableSize
      · exact inv.unsealed old hidden
      · rw [marked bucket (Nat.not_lt.mp old) small]
  · refine
      { Steps.refl config thread (state, ghost) with
        table := table ▸ SplitTable.double_advances
        fresh := .of_same (congrFun published)
        locked := ?_ }
    intro other different known
    rw [holder] at known
    exact absurd (Option.some.inj known).symm different

end Resize

section Calls

/-- A thread begins a call. -/
theorem begin_keeps
    (inv : Invariant config (state, ghost))
    (idle : thread ∉ state.inside)
    (operation : SetOp K) :
    Invariant config (state.begin thread operation, ghost) ∧
      Steps config thread (state, ghost)
        (state.begin thread operation, ghost) := by
  have free : calling state.events thread = none := by
    by_contra busy
    exact idle ((inv.calls thread).mpr busy)
  refine ⟨?_, ?_⟩
  · refine
      { inv with
        table :=
          SplitTable.record_sound inv.table
            (.called thread operation) id
        nodes := fun node => { inv.nodes node with }
        counted :=
          { inv.counted with
            debtors := fun member =>
              List.mem_cons_of_mem _ (inv.counted.debtors member) }
        owner := fun known => List.mem_cons_of_mem _ (inv.owner known)
        holder := fun known => List.mem_cons_of_mem _ (inv.holder known)
        lawful := ⟨free, inv.lawful⟩
        threads := List.nodup_cons.mpr ⟨idle, inv.threads⟩
        calls := ?_ }
    intro other
    by_cases same : other = thread
    · subst same
      simp [State.begin, calling]
    · simpa [State.begin, calling, same, Ne.symm same] using
        inv.calls other
  · refine
      { Steps.refl config thread (state, ghost) with
        table :=
          SplitTable.record_advances (.called thread operation) rfl
        inside := ?_ }
    intro other different
    simp [State.begin, different]

/-- A thread that owns nothing ends its call. -/
theorem finish_keeps
    (inv : Invariant config (state, ghost))
    (within : thread ∈ state.inside)
    (empty : ∀ node, ghost.stage node ≠ .owned thread)
    (unlocked : ghost.holder ≠ some thread)
    (solvent : thread ∉ ghost.debtors)
    {event : SetEvent T K}
    (own : event.thread = thread)
    (neutral : ¬ event.Updates)
    (ends : calling (event :: state.events) thread = none)
    (allowed : Allowed state.events event)
    (harmless : Harmless (event :: state.events)) :
    Invariant config
        ({ state with
            inside := state.inside.erase thread
            events := event :: state.events },
          ghost) ∧
      Steps config thread (state, ghost)
        ({ state with
            inside := state.inside.erase thread
            events := event :: state.events },
          ghost) := by
  have others :
      ∀ {other},
        other ≠ thread →
        (other ∈ state.inside.erase thread ↔ other ∈ state.inside) :=
    fun different => List.mem_erase_of_ne different
  refine ⟨?_, ?_⟩
  · refine
      { inv with
        table := SplitTable.record_sound inv.table event neutral
        nodes := fun node => { inv.nodes node with }
        counted := { inv.counted with debtors := ?_ }
        owner := ?_
        holder := ?_
        lawful := ⟨allowed, inv.lawful⟩
        harmless := harmless
        threads := inv.threads.erase thread
        calls := ?_ }
    · intro node other known
      have different : other ≠ thread := by
        rintro rfl
        exact empty node known
      exact (others different).mpr (inv.owner known)
    · intro other known
      have different : other ≠ thread := by
        rintro rfl
        exact unlocked known
      exact (others different).mpr (inv.holder known)
    · intro other
      by_cases same : other = thread
      · subst same
        simp [ends, inv.threads.not_mem_erase]
      · have foreign : event.thread ≠ other := by
          rw [own]
          exact Ne.symm same
        have kept := calling_other foreign state.events
        simp only [kept, others same]
        exact inv.calls other
    · intro other member
      have different : other ≠ thread := by
        rintro rfl
        exact solvent member
      exact (others different).mpr (inv.counted.debtors member)
  · exact
      { Steps.refl config thread (state, ghost) with
        table := SplitTable.record_advances event own
        inside := others }

end Calls

end ConcurrentCpp.HashSet
