import ConcurrentCpp.LockFreeListSteps

namespace ConcurrentCpp.LockFreeList

/-!
# The threads of the reference-counted list

The programs of `insert_after` and `erase_after` verified against the
protocol, and with them a client that calls them in any order at any anchors
it has ever reached.
-/

variable {A T : Type} [DecidableEq A] [DecidableEq T]

variable {thread : T}

omit [DecidableEq A] in
/-- A present cell leads to present nodes only. -/
theorem Invariant.present_next
    {world : State A T × Ghost A T}
    (inv : Invariant world)
    {cell : Cell Unit A}
    (present : (chainOf world).Present cell)
    {node : A}
    (leads : (world.1.next cell).ptr = some node) :
    (chainOf world).Present (.node node) := by
  have wellFormed := inv.sound.wellFormed
  intro other same
  cases same
  cases cell with
  | root chain =>
      have linked : (chainOf world).place node = .linked () :=
        wellFormed.root_next leads
      simp [linked]
  | node here =>
      have visible : (chainOf world).forest.Visible () 0 here := by
        cases place : world.2.place here with
        | off =>
            exact (present here rfl place).elim
        | linked chain =>
            exact .inl place
        | cut chain stamp =>
            exact .inr ⟨stamp, Nat.zero_le _, place⟩
      exact (wellFormed.visible_next (Nat.le_refl 0) visible leads).ne_off

omit [DecidableEq A] in
/-- A cell that is present stays present. -/
theorem present_durable
    (cell : Cell Unit A) :
    (present thread cell).Durable :=
  fun _ _ _ _ guarantee known node same =>
    stays_present guarantee.chain (known node same)

omit [DecidableEq A] in
/-- Loading a word reveals present nodes only. -/
theorem loadNext_reached
    (kept : Assertion (protocol (A := A)) thread)
    (cell : Cell Unit A) :
    Triple protocol thread
      (kept.and (present thread cell))
      (loadNext cell)
      fun word =>
        (kept.and (present thread cell)).and (reached thread word) := by
  apply Triple.read
  intro world inv known
  refine ⟨known, ?_⟩
  rintro ⟨node, leads⟩
  exact inv.present_next known.2 leads

omit [DecidableEq A] in
/-- Loading the word of a node tells whether it is final. -/
theorem loadNext_final
    (kept : Assertion (protocol (A := A)) thread)
    (node : A) :
    Triple protocol thread
      (kept.and (present thread (.node node)))
      (loadNext (.node node))
      fun word =>
        (kept.and (present thread (.node node))).and
          (final thread node word) := by
  apply Triple.read
  intro world inv known
  exact ⟨known, fun mark => ⟨known.2 node rfl, rfl, mark⟩⟩

variable {spare : List A} {erasing unreported : Bool}

/-- Writing the word of a node that the thread owns. -/
theorem storeNext_prepared
    {anchor : Cell Unit A}
    {node : A}
    (member : node ∈ spare)
    {word : MarkedPtr A}
    (unmarked : word.mark = false) :
    Triple protocol thread
      (((holding thread spare).and (phase thread erasing unreported)).and
        (present thread anchor))
      (storeNext node word)
      fun _ =>
        (((holding thread spare).and
          (phase thread erasing unreported)).and
            (present thread anchor)).and
          (prepared thread node word) := by
  apply Triple.atomic
  rintro ⟨state, ghost⟩ choice value shared inv known ran
  cases ran
  have owned := known.1.1 node member
  have keeps := store_keeps inv owned unmarked
  exact ⟨ghost, keeps.1, keeps.2, known, owned, by simp⟩

/-- The swap of `insert_after`. -/
theorem compareExchange_link
    {anchor : Cell Unit A}
    {node : A}
    (noDuplicates : spare.Nodup)
    {word : MarkedPtr A}
    (unmarked : word.mark = false) :
    Triple protocol thread
      ((((holding thread spare).and
        (phase thread erasing unreported)).and
          (present thread anchor)).and
        (prepared thread node word))
      (compareExchange anchor word ⟨some node, false⟩ [])
      fun outcome =>
        (((holding thread
            (if outcome.1 then spare.erase node else spare)).and
          (phase thread erasing unreported)).and
            (present thread anchor)).and
          (insertedIf thread outcome.1 node) := by
  apply Triple.atomic
  rintro ⟨state, ghost⟩ choice value shared inv known ran
  obtain ⟨⟨⟨holds, inPhase⟩, here⟩, owned, written⟩ := known
  simp only at ran
  split at ran
  · rename_i current
    cases ran
    have keeps := link_keeps inv here
      (by rw [current]; exact unmarked) owned
      (written.trans current.symm)
    refine ⟨_, keeps.1, keeps.2, ⟨⟨?_, inPhase⟩, ?_⟩, ?_⟩
    · intro other remains
      have facts := noDuplicates.mem_erase_iff.mp remains
      simpa [facts.1] using holds other facts.2
    · intro other same
      exact stays_present keeps.2.chain (here other same)
    · intro _ other same
      cases same
      simp [chainOf]
  · cases ran
    exact ⟨ghost, inv, protocol.guar_refl thread _,
      ⟨⟨holds, inPhase⟩, here⟩, by simp [insertedIf]⟩

/-- `insert_after` at an anchor that the client has reached. -/
theorem insertAfter_triple
    {anchor : Cell Unit A}
    {node : A}
    (member : node ∈ spare)
    (noDuplicates : spare.Nodup) :
    Triple protocol thread
      (((holding thread spare).and (phase thread erasing unreported)).and
        (present thread anchor))
      (insertAfter (some anchor) node)
      fun result =>
        ((holding thread (if result then spare.erase node else spare)).and
          (phase thread erasing unreported)).and
          (insertedIf thread result node) := by
  refine Triple.loop
    (fun _ => ?_ : ∀ _ : Unit, Triple protocol thread
      (((holding thread spare).and (phase thread erasing unreported)).and
        (present thread anchor)) _ _)
  refine Triple.bind (loadNext_reached _ anchor) fun word => ?_
  split
  · refine Triple.ret fun world _ known => ?_
    exact ⟨known.1.1, by simp [insertedIf]⟩
  · rename_i unmarked
    have clear : word.mark = false := by simpa using unmarked
    refine Triple.bind
      ((storeNext_prepared member clear).weaken
        fun _ _ known => known.1) fun _ => ?_
    refine Triple.bind
      (compareExchange_link noDuplicates clear) fun outcome => ?_
    cases swapped : outcome.1 with
    | true =>
        refine Triple.ret fun world _ known => ?_
        exact ⟨known.1.1, known.2⟩
    | false =>
        refine Triple.ret fun world _ known => ?_
        exact known.1

/-- The swap that marks the target of `erase_after`. -/
theorem compareExchange_mark
    {node : A}
    {word : MarkedPtr A}
    (unmarked : word.mark = false) :
    Triple protocol thread
      (((holding thread spare).and (phase thread true false)).and
        (present thread (.node node)))
      (compareExchange (.node node) word word.setMark
        [.marked thread node])
      fun outcome =>
        (((holding thread spare).and (phase thread true outcome.1)).and
          (present thread (.node node))).and
          (final thread node
            (if outcome.1 then word.setMark else outcome.2)) := by
  apply Triple.atomic
  rintro ⟨state, ghost⟩ choice value shared inv known ran
  obtain ⟨⟨holds, erasing, reported⟩, here⟩ := known
  have linked : ghost.place node ≠ .off := here node rfl
  simp only at ran
  split at ran
  · rename_i current
    cases ran
    have keeps := mark_keeps inv linked
      (by rw [current]; exact unmarked) erasing
      (by simpa using reported)
    rw [current] at keeps
    refine ⟨_, keeps.1, keeps.2, ⟨⟨holds, erasing, ?_⟩, here⟩, ?_⟩
    · simp
    · intro _
      exact ⟨linked, by simp, rfl⟩
  · cases ran
    exact ⟨ghost, inv, protocol.guar_refl thread _,
      ⟨⟨holds, erasing, reported⟩, here⟩,
      fun mark => ⟨linked, rfl, mark⟩⟩

/-- The marking race ends with the target's final word. -/
theorem markTarget_triple
    {node : A}
    (loaded : MarkedPtr A) :
    Triple protocol thread
      ((((holding thread spare).and (phase thread true false)).and
        (present thread (.node node))).and (final thread node loaded))
      (markTarget thread node loaded)
      fun race =>
        ((holding thread spare).and (phase thread true race.2)).and
          (marked thread node race.1) := by
  refine Triple.loop
    (fun word => ?_ : ∀ word : MarkedPtr A, Triple protocol thread
      ((((holding thread spare).and (phase thread true false)).and
        (present thread (.node node))).and (final thread node word)) _ _)
  split
  · rename_i mark
    refine Triple.ret fun world _ known => ?_
    exact ⟨known.1.1, known.2 mark⟩
  · rename_i unmarked
    have clear : word.mark = false := by simpa using unmarked
    refine Triple.bind
      ((compareExchange_mark clear).weaken
        fun _ _ known => known.1) fun outcome => ?_
    cases swapped : outcome.1 with
    | true =>
        refine Triple.ret fun world _ known => ?_
        exact ⟨known.1.1, known.2 rfl⟩
    | false =>
        refine Triple.ret fun world _ known => ?_
        exact known

/-- The swap that unlinks a marked target. -/
theorem compareExchange_unlink
    {anchor : Cell Unit A}
    {node : A}
    {word : MarkedPtr A}
    {won : Bool} :
    Triple protocol thread
      ((((holding thread spare).and (phase thread true won)).and
        (marked thread node word)).and (present thread anchor))
      (compareExchange anchor ⟨some node, false⟩ word.clearMark [])
      fun _ =>
        ((holding thread spare).and (phase thread true won)).and
          (present thread anchor) := by
  apply Triple.atomic
  rintro ⟨state, ghost⟩ choice value shared inv known ran
  obtain ⟨⟨keep, linked, last, mark⟩, here⟩ := known
  simp only at ran
  split at ran
  · rename_i current
    cases ran
    have last : state.next (.node node) = word := last
    have unlinkable :
        (chainOf (state, ghost)).Unlinkable anchor node :=
      ⟨here, current, by simpa [chainOf, last] using mark⟩
    obtain ⟨after, guarantee⟩ := unlink_keeps thread inv unlinkable
    rw [last] at after guarantee
    refine ⟨_, after, guarantee, keep, ?_⟩
    intro other same
    exact stays_present guarantee.chain (here other same)
  · cases ran
    exact ⟨ghost, inv, protocol.guar_refl thread _, keep, here⟩

/-- `erase_after` reports exactly the mark that it set. -/
theorem eraseAfter_triple
    {anchor : Cell Unit A} :
    Triple protocol thread
      (((holding thread spare).and (phase thread true false)).and
        (present thread anchor))
      (eraseAfter thread (some anchor))
      fun result =>
        (holding thread spare).and (phase thread true result) := by
  refine Triple.loop
    (fun _ => ?_ : ∀ _ : Unit, Triple protocol thread
      (((holding thread spare).and (phase thread true false)).and
        (present thread anchor)) _ _)
  refine Triple.bind (loadNext_reached _ anchor) fun target => ?_
  split
  · rename_i node
    refine Triple.bind
      ((loadNext_final
          (((holding thread spare).and (phase thread true false)).and
            (present thread anchor)) node).weaken
        fun _ _ known => ⟨known.1, known.2 ⟨node, rfl⟩⟩)
      fun loaded => ?_
    refine Triple.bind
      (((markTarget_triple loaded).frame (present_durable anchor)).weaken
        fun _ _ known =>
          ⟨⟨⟨known.1.1.1, known.1.2⟩, known.2⟩, known.1.1.2⟩)
      fun race => ?_
    refine Triple.bind compareExchange_unlink fun _ => ?_
    cases won : race.2 with
    | true =>
        exact Triple.ret fun world _ known => known.1
    | false =>
        exact Triple.ret fun world _ known => known
  · exact Triple.ret fun world _ known => known.1.1

/-- A client between calls, with the unlinked nodes it owns. -/
def idle
    (thread : T)
    (spare : List A) :
    Assertion (protocol (A := A)) thread :=
  ((holding thread spare).and (phase thread false false)).and
    (.pure spare.Nodup)

/-- What a client knows when it has picked a call. -/
def ready
    (thread : T)
    (spare : List A) :
    Call A → Assertion (protocol (A := A)) thread
  | .makeNode => .pure True
  | .beforeBegin => .pure True
  | .increment position => present thread position
  | .insertAfter anchor newNode =>
      (anchorPresent thread anchor).and (.pure (newNode ∈ spare))
  | .eraseAfter anchor => anchorPresent thread anchor

/-- An allowed call has a present anchor. -/
theorem pick_triple :
    Triple protocol thread
      (idle thread spare)
      (pick spare)
      fun call => (idle thread spare).and (ready thread spare call) := by
  apply Triple.atomic
  rintro ⟨state, ghost⟩ choice call shared inv known ran
  cases choice with
  | proceed =>
      cases ran
  | fresh node =>
      cases ran
  | call picked =>
      simp only at ran
      split at ran
      · rename_i allowed
        cases ran
        refine ⟨ghost, inv, protocol.guar_refl thread _, known, ?_⟩
        cases call with
        | makeNode =>
            trivial
        | beforeBegin =>
            trivial
        | increment position =>
            exact inv.iterators allowed
        | insertAfter anchor newNode =>
            exact ⟨fun cell => inv.iterators (allowed.1 cell.1 cell.2),
              allowed.2⟩
        | eraseAfter anchor =>
            exact fun cell => inv.iterators (allowed cell.1 cell.2)
      · cases ran

omit [DecidableEq A] in
/-- A client keeps another iterator. -/
private theorem iterators_keeps
    (thread : T)
    {state : State A T}
    {ghost : Ghost A T}
    (inv : Invariant (state, ghost))
    {cell : Cell Unit A}
    (here : (chainOf (state, ghost)).Present cell) :
    Invariant
        ({ state with iterators := cell :: state.iterators }, ghost) ∧
      Guarantee thread (state, ghost)
        ({ state with iterators := cell :: state.iterators }, ghost) := by
  refine ⟨?_, ?_⟩
  · refine
      { sound := inv.sound
        noDuplicates := inv.noDuplicates
        created := inv.created
        owned := inv.owned
        offUnmarked := inv.offUnmarked
        iterators := ?_
        inserted := inv.inserted
        ledger := inv.ledger
        marks := inv.marks }
    intro other member
    rcases List.mem_cons.mp member with same | old
    · rw [same]
      exact here
    · exact inv.iterators old
  · exact Guarantee.of_same rfl (List.Subset.refl _)
      (List.subset_cons_self _ _) List.suffix_rfl

omit [DecidableEq A] in
/-- `before_begin()` yields the root. -/
theorem beforeBegin_triple :
    Triple protocol thread
      (idle thread spare)
      beforeBegin
      fun _ => idle thread spare := by
  apply Triple.atomic
  rintro ⟨state, ghost⟩ choice value shared inv known ran
  cases ran
  have here : (chainOf (state, ghost)).Present (.root ()) := by
    intro node same
    cases same
  have keeps := iterators_keeps thread inv here
  exact ⟨ghost, keeps.1, keeps.2, known⟩

omit [DecidableEq A] in
/-- `++it` yields a present node. -/
theorem increment_triple
    {position : Cell Unit A} :
    Triple protocol thread
      ((idle thread spare).and (present thread position))
      (increment position)
      fun _ => idle thread spare := by
  apply Triple.atomic
  rintro ⟨state, ghost⟩ choice value shared inv known ran
  simp only at ran
  split at ran
  · cases ran
    exact ⟨ghost, inv, protocol.guar_refl thread _, known.1⟩
  · rename_i node leads
    cases ran
    have keeps := iterators_keeps thread inv
      (inv.present_next known.2 leads)
    exact ⟨ghost, keeps.1, keeps.2, known.1⟩

/-- A new node belongs to its creator. -/
theorem makeNode_triple :
    Triple protocol thread
      (idle thread spare)
      makeNode
      fun node => idle thread (node :: spare) := by
  apply Triple.atomic
  rintro ⟨state, ghost⟩ choice node shared inv known ran
  cases choice with
  | proceed =>
      cases ran
  | call picked =>
      cases ran
  | fresh address =>
      simp only at ran
      split at ran
      · cases ran
      · rename_i absent
        cases ran
        obtain ⟨⟨holds, inPhase⟩, noDuplicates⟩ := known
        have keeps := make_keeps thread inv absent
        refine ⟨_, keeps.1, keeps.2, ⟨?_, inPhase⟩, ?_⟩
        · intro other member
          by_cases same : other = node
          · simp [same]
          · rcases List.mem_cons.mp member with new | old
            · exact (same new).elim
            · simpa [same] using holds other old
        · refine List.nodup_cons.mpr ⟨?_, noDuplicates⟩
          intro member
          exact absent (inv.owned (holds node member)).1

omit [DecidableEq A] in
/-- Recording a result of `insert_after`. -/
theorem record_inserted
    {result : Bool}
    {node : A} :
    Triple protocol thread
      ((idle thread spare).and (insertedIf thread result node))
      (record (.inserted thread node result))
      fun _ => idle thread spare := by
  apply Triple.atomic
  rintro ⟨state, ghost⟩ choice value shared inv known ran
  cases ran
  refine ⟨ghost, ?_, ?_, known.1⟩
  · refine
      { sound := inv.sound
        noDuplicates := inv.noDuplicates
        created := inv.created
        owned := inv.owned
        offUnmarked := inv.offUnmarked
        iterators := inv.iterators
        inserted := ?_
        ledger := inv.ledger.recordInsert node result
        marks := inv.marks }
    intro other placed member
    rcases List.mem_cons.mp member with same | old
    · cases same
      exact known.2 rfl _ rfl
    · exact inv.inserted old
  · exact Guarantee.of_same rfl (List.Subset.refl _)
      (List.Subset.refl _) (List.suffix_cons _ _)

omit [DecidableEq A] in
/-- Entering `erase_after`. -/
theorem record_eraseCalled :
    Triple protocol thread
      (idle thread spare)
      (record (.eraseCalled thread))
      fun _ =>
        ((holding thread spare).and (phase thread true false)).and
          (.pure spare.Nodup) := by
  apply Triple.atomic
  rintro ⟨state, ghost⟩ choice value shared inv known ran
  cases ran
  obtain ⟨⟨holds, quiet, reported⟩, noDuplicates⟩ := known
  refine
    ⟨{ ghost with erasing := Function.update ghost.erasing thread true },
      ?_, ?_, ⟨holds, by simp, reported⟩, noDuplicates⟩
  · refine
      { sound := inv.sound
        noDuplicates := inv.noDuplicates
        created := inv.created
        owned := inv.owned
        offUnmarked := inv.offUnmarked
        iterators := inv.iterators
        inserted := ?_
        ledger := inv.ledger.recordCall quiet
        marks := inv.marks }
    intro other placed member
    exact inv.inserted (by simpa using member)
  · refine
      { chain := MarkedChain.Advances.refl _
        nodes := List.Subset.refl _
        iterators := List.Subset.refl _
        events := List.suffix_cons _ _
        owner := fun _ known => ⟨known, rfl⟩
        erasing := ?_ }
    intro other different
    exact ⟨by simp [different], Iff.rfl⟩

omit [DecidableEq A] in
/-- Leaving `erase_after` with what it marked. -/
theorem record_erased
    {result : Bool} :
    Triple protocol thread
      (((holding thread spare).and (phase thread true result)).and
        (.pure spare.Nodup))
      (record (.erased thread result))
      fun _ => idle thread spare := by
  apply Triple.atomic
  rintro ⟨state, ghost⟩ choice value shared inv known ran
  cases ran
  obtain ⟨⟨holds, busy, owed⟩, noDuplicates⟩ := known
  refine
    ⟨{ ghost with
        erasing := Function.update ghost.erasing thread false
        unreported := ghost.unreported.erase thread },
      ?_, ?_, ⟨holds, by simp, by simp⟩, noDuplicates⟩
  · refine
      { sound := inv.sound
        noDuplicates := inv.noDuplicates
        created := inv.created
        owned := inv.owned
        offUnmarked := inv.offUnmarked
        iterators := inv.iterators
        inserted := ?_
        ledger := inv.ledger.recordReturn busy owed
        marks := inv.marks }
    intro other placed member
    exact inv.inserted (by simpa using member)
  · refine
      { chain := MarkedChain.Advances.refl _
        nodes := List.Subset.refl _
        iterators := List.Subset.refl _
        events := List.suffix_cons _ _
        owner := fun _ known => ⟨known, rfl⟩
        erasing := ?_ }
    intro other different
    exact ⟨by simp [different], by simp [different]⟩

/-- A client inserts a node that it owns. -/
theorem insertAfter_client
    {anchor : Iterator A}
    {node : A} :
    Triple protocol thread
      ((idle thread spare).and
        (ready thread spare (.insertAfter anchor node)))
      (insertAfter anchor node)
      fun result =>
        (idle thread (if result then spare.erase node else spare)).and
          (insertedIf thread result node) := by
  intro fuel world inv known
  obtain ⟨⟨keep, noDuplicates⟩, here, member⟩ := known
  cases anchor with
  | none =>
      exact Safe.ret inv
        ⟨⟨keep, noDuplicates⟩, by simp [insertedIf]⟩
  | some anchor =>
      have inserts := insertAfter_triple member noDuplicates fuel world
        inv ⟨keep, here ⟨anchor, rfl⟩⟩
      refine inserts.post_mono inv fun result after _ known => ?_
      refine ⟨⟨known.1, ?_⟩, known.2⟩
      cases result with
      | true =>
          exact noDuplicates.erase node
      | false =>
          exact noDuplicates

/-- A client erases behind an anchor that it has reached. -/
theorem eraseAfter_client
    {anchor : Iterator A} :
    Triple protocol thread
      ((((holding thread spare).and (phase thread true false)).and
        (.pure spare.Nodup)).and (anchorPresent thread anchor))
      (eraseAfter thread anchor)
      fun result =>
        ((holding thread spare).and (phase thread true result)).and
          (.pure spare.Nodup) := by
  intro fuel world inv known
  obtain ⟨⟨keep, noDuplicates⟩, here⟩ := known
  cases anchor with
  | none =>
      exact Safe.ret inv ⟨keep, noDuplicates⟩
  | some anchor =>
      have erases :=
        eraseAfter_triple fuel world inv ⟨keep, here ⟨anchor, rfl⟩⟩
      exact erases.post_mono inv fun _ _ _ known =>
        ⟨known, noDuplicates⟩

omit [DecidableEq A] in
private theorem anchorPresent_durable
    (anchor : Iterator A) :
    (anchorPresent thread anchor).Durable :=
  fun world after inv invAfter guarantee known cell =>
    present_durable cell.1 world after inv invAfter guarantee
      (known cell)

/-- A client never breaks the protocol. -/
theorem client_triple :
    Triple protocol thread
      (idle thread ([] : List A))
      (client thread)
      fun _ => .pure True := by
  refine Triple.loop
    (fun spare => ?_ : ∀ spare : List A, Triple protocol thread
      (idle thread spare) _ _)
  refine Triple.bind pick_triple fun call => ?_
  cases call with
  | makeNode =>
      refine Triple.bind
        (makeNode_triple.weaken fun _ _ known => known.1) fun node => ?_
      exact Triple.ret fun _ _ known => known
  | beforeBegin =>
      refine Triple.bind
        (beforeBegin_triple.weaken fun _ _ known => known.1) fun _ => ?_
      exact Triple.ret fun _ _ known => known
  | increment position =>
      refine Triple.bind increment_triple fun _ => ?_
      exact Triple.ret fun _ _ known => known
  | insertAfter anchor newNode =>
      refine Triple.bind insertAfter_client fun result => ?_
      refine Triple.bind record_inserted fun _ => ?_
      exact Triple.ret fun _ _ known => known
  | eraseAfter anchor =>
      refine Triple.bind
        (record_eraseCalled.frame (anchorPresent_durable anchor))
        fun _ => ?_
      refine Triple.bind eraseAfter_client fun result => ?_
      refine Triple.bind record_erased fun _ => ?_
      exact Triple.ret fun _ _ known => known

end ConcurrentCpp.LockFreeList
