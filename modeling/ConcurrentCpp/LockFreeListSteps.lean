import ConcurrentCpp.LockFreeListProtocol

namespace ConcurrentCpp.LockFreeList

/-!
# The steps of the reference-counted list

Every load, store and compare-and-swap keeps the protocol.  The successful
swaps are the three changes of a marked chain; everything else leaves the
chain alone or writes a node that only its owner can see.
-/

variable {A T : Type} [DecidableEq A] [DecidableEq T]

variable {state : State A T} {ghost : Ghost A T} {thread : T}

omit [DecidableEq A] in
/-- A change of words that sets no mark keeps the protocol. -/
private theorem keeps_of_advances
    (inv : Invariant (state, ghost))
    {next : Cell Unit A → MarkedPtr A}
    {place : A → Place Unit}
    {owner : A → Option T}
    (sound :
      (chainOf
        ({ state with next := next },
          { ghost with place := place, owner := owner })).Sound)
    (advances :
      (chainOf (state, ghost)).Advances
        (chainOf
          ({ state with next := next },
            { ghost with place := place, owner := owner })))
    (sameMarks :
      ∀ node ∈ state.nodes,
        (next (.node node)).mark = (state.next (.node node)).mark)
    (created : ∀ {node}, place node ≠ .off → node ∈ state.nodes)
    (owned :
      ∀ {node other},
        owner node = some other →
        ghost.owner node = some other ∧ place node = .off)
    (others :
      ∀ {node other},
        other ≠ thread →
        ghost.owner node = some other →
        owner node = some other ∧
          next (.node node) = state.next (.node node)) :
    Invariant
        ({ state with next := next },
          { ghost with place := place, owner := owner }) ∧
      Guarantee thread (state, ghost)
        ({ state with next := next },
          { ghost with place := place, owner := owner }) := by
  refine ⟨?_, ?_⟩
  · refine
      { sound := sound
        noDuplicates := inv.noDuplicates
        created := created
        owned := ?_
        offUnmarked := ?_
        iterators := ?_
        inserted := ?_
        ledger := inv.ledger
        marks := ?_ }
    · intro node other known
      obtain ⟨before, off⟩ := owned known
      exact ⟨(inv.owned before).1, off⟩
    · intro node off member
      have before : ghost.place node = .off := by
        by_contra present
        exact stays_present advances present off
      exact (sameMarks node member).trans
        (inv.offUnmarked before member)
    · intro cell member node same
      exact stays_present advances (inv.iterators member node same)
    · intro other node member
      exact stays_present advances (inv.inserted member)
    · intro node
      rw [inv.marks node]
      simp only [markedNodes, List.mem_filter]
      constructor
      · rintro ⟨member, mark⟩
        exact ⟨member, (sameMarks node member).trans mark⟩
      · rintro ⟨member, mark⟩
        exact ⟨member, (sameMarks node member).symm.trans mark⟩
  · exact
      { chain := advances
        nodes := List.Subset.refl _
        iterators := List.Subset.refl _
        events := List.suffix_rfl
        owner := others
        erasing := fun _ => ⟨rfl, Iff.rfl⟩ }

/-- The owner of an unlinked node writes its word. -/
theorem store_keeps
    (inv : Invariant (state, ghost))
    {node : A}
    (owned : ghost.owner node = some thread)
    {word : MarkedPtr A}
    (unmarked : word.mark = false) :
    Invariant
        ({ state with
            next := Function.update state.next (.node node) word },
          ghost) ∧
      Guarantee thread (state, ghost)
        ({ state with
            next := Function.update state.next (.node node) word },
          ghost) := by
  obtain ⟨member, off⟩ := inv.owned owned
  refine keeps_of_advances inv
    (MarkedChain.write_sound inv.sound off word)
    (MarkedChain.write_advances inv.sound off word)
    ?_ inv.created ?_ ?_
  · intro other _
    by_cases same : other = node
    · subst same
      have before : (state.next (.node other)).mark = false :=
        inv.offUnmarked off member
      simp [unmarked, before]
    · simp [same]
  · intro other holder known
    exact ⟨known, (inv.owned known).2⟩
  · intro other holder different known
    have notNode : other ≠ node := by
      rintro rfl
      exact different (Option.some.inj (known.symm.trans owned))
    exact ⟨known, by simp [notNode]⟩

/-- The swap of `insert_after` publishes the prepared node. -/
theorem link_keeps
    (inv : Invariant (state, ghost))
    {anchor : Cell Unit A}
    {node : A}
    (present : (chainOf (state, ghost)).Present anchor)
    (unmarked : (state.next anchor).mark = false)
    (owned : ghost.owner node = some thread)
    (prepared : state.next (.node node) = state.next anchor) :
    Invariant
        ({ state with
            next :=
              Function.update state.next anchor ⟨some node, false⟩ },
          { ghost with
            place := Function.update ghost.place node (.linked ())
            owner := Function.update ghost.owner node none }) ∧
      Guarantee thread (state, ghost)
        ({ state with
            next :=
              Function.update state.next anchor ⟨some node, false⟩ },
          { ghost with
            place := Function.update ghost.place node (.linked ())
            owner := Function.update ghost.owner node none }) := by
  obtain ⟨member, off⟩ := inv.owned owned
  have linkable : (chainOf (state, ghost)).Linkable anchor node :=
    ⟨present, unmarked, off, prepared⟩
  refine keeps_of_advances inv
    (MarkedChain.link_sound inv.sound linkable)
    (MarkedChain.link_advances inv.sound linkable)
    ?_ ?_ ?_ ?_
  · intro other _
    by_cases same : (.node other : Cell Unit A) = anchor
    · subst same
      simp [unmarked]
    · simp [same]
  · intro other placed
    by_cases same : other = node
    · rw [same]
      exact member
    · exact inv.created (by simpa [same] using placed)
  · intro other holder known
    have different : other ≠ node := by
      rintro rfl
      simp at known
    simp only [Function.update_of_ne different] at known ⊢
    exact ⟨known, (inv.owned known).2⟩
  · intro other holder different known
    have notNode : other ≠ node := by
      rintro rfl
      exact different (Option.some.inj (known.symm.trans owned))
    have notAnchor : (.node other : Cell Unit A) ≠ anchor := by
      rintro rfl
      exact present other rfl (inv.owned known).2
    exact ⟨by simp [notNode, known], by simp [notAnchor]⟩

/-- The second swap of `erase_after` bypasses a marked node. -/
theorem unlink_keeps
    (thread : T)
    (inv : Invariant (state, ghost))
    {anchor : Cell Unit A}
    {node : A}
    (unlinkable :
      (chainOf (state, ghost)).Unlinkable anchor node) :
    Invariant
        ({ state with
            next :=
              Function.update state.next anchor
                (state.next (.node node)).clearMark },
          { ghost with
            place := Function.update ghost.place node (.cut () 0) }) ∧
      Guarantee thread (state, ghost)
        ({ state with
            next :=
              Function.update state.next anchor
                (state.next (.node node)).clearMark },
          { ghost with
            place := Function.update ghost.place node (.cut () 0) }) := by
  have linked := unlinkable.linked inv.sound
  have nodePresent : ghost.place node ≠ .off := by
    intro off
    exact absurd (off.symm.trans linked) (by simp)
  refine keeps_of_advances inv
    (MarkedChain.unlink_sound inv.sound unlinkable)
    (MarkedChain.unlink_advances inv.sound unlinkable)
    ?_ ?_ ?_ ?_
  · intro other _
    by_cases same : (.node other : Cell Unit A) = anchor
    · subst same
      have unmarked : (state.next (.node other)).mark = false :=
        congrArg MarkedPtr.mark unlinkable.leads
      simp [unmarked]
    · simp [same]
  · intro other placed
    by_cases same : other = node
    · rw [same]
      exact inv.created nodePresent
    · exact inv.created (by simpa [same] using placed)
  · intro other holder known
    have off := (inv.owned known).2
    have different : other ≠ node := by
      rintro rfl
      exact nodePresent off
    exact ⟨known, by simpa [different] using off⟩
  · intro other holder _ known
    have notAnchor : (.node other : Cell Unit A) ≠ anchor := by
      rintro rfl
      exact unlinkable.present other rfl (inv.owned known).2
    exact ⟨known, by simp [notAnchor]⟩

/-- The first swap of `erase_after` marks the target. -/
theorem mark_keeps
    (inv : Invariant (state, ghost))
    {node : A}
    (present : ghost.place node ≠ .off)
    (unmarked : (state.next (.node node)).mark = false)
    (erasing : ghost.erasing thread = true)
    (reported : thread ∉ ghost.unreported) :
    Invariant
        ({ state with
            next :=
              Function.update state.next (.node node)
                (state.next (.node node)).setMark
            events := .marked thread node :: state.events },
          { ghost with
            unreported := insert thread ghost.unreported }) ∧
      Guarantee thread (state, ghost)
        ({ state with
            next :=
              Function.update state.next (.node node)
                (state.next (.node node)).setMark
            events := .marked thread node :: state.events },
          { ghost with
            unreported := insert thread ghost.unreported }) := by
  have member : node ∈ state.nodes := inv.created present
  have fresh : node ∉ marksOf state.events := by
    rw [inv.marks node]
    simp [markedNodes, unmarked]
  refine ⟨?_, ?_⟩
  · refine
      { sound := MarkedChain.mark_sound inv.sound
        noDuplicates := inv.noDuplicates
        created := inv.created
        owned := inv.owned
        offUnmarked := ?_
        iterators := inv.iterators
        inserted := ?_
        ledger := inv.ledger.recordMark fresh erasing reported
        marks := ?_ }
    · intro other off otherMember
      have different : other ≠ node := by
        rintro rfl
        exact present off
      simpa [different] using inv.offUnmarked off otherMember
    · intro other placed known
      exact inv.inserted (by simpa using known)
    · intro other
      by_cases same : other = node
      · subst same
        simp [markedNodes, member]
      · have known := inv.marks other
        simp only [markedNodes, List.mem_filter] at known
        simp [markedNodes, same, known]
  · refine
      { chain := MarkedChain.mark_advances unmarked
        nodes := List.Subset.refl _
        iterators := List.Subset.refl _
        events := List.suffix_cons _ _
        owner := ?_
        erasing := ?_ }
    · intro other holder _ known
      have different : other ≠ node := by
        rintro rfl
        exact present (inv.owned known).2
      exact ⟨known, by simp [different]⟩
    · intro other different
      exact ⟨rfl, by simp [different]⟩

/-- A client creates a node that it alone owns. -/
theorem make_keeps
    (thread : T)
    (inv : Invariant (state, ghost))
    {node : A}
    (fresh : node ∉ state.nodes) :
    Invariant
        ({ state with
            next :=
              Function.update state.next (.node node) ⟨none, false⟩
            nodes := node :: state.nodes },
          { ghost with
            owner :=
              Function.update ghost.owner node (some thread) }) ∧
      Guarantee thread (state, ghost)
        ({ state with
            next :=
              Function.update state.next (.node node) ⟨none, false⟩
            nodes := node :: state.nodes },
          { ghost with
            owner :=
              Function.update ghost.owner node (some thread) }) := by
  have off : ghost.place node = .off := by
    by_contra placed
    exact fresh (inv.created placed)
  refine ⟨?_, ?_⟩
  · refine
      { sound := MarkedChain.write_sound inv.sound off ⟨none, false⟩
        noDuplicates := List.nodup_cons.mpr ⟨fresh, inv.noDuplicates⟩
        created := fun placed => List.mem_cons_of_mem _ (inv.created placed)
        owned := ?_
        offUnmarked := ?_
        iterators := inv.iterators
        inserted := inv.inserted
        ledger := inv.ledger
        marks := ?_ }
    · intro other holder known
      by_cases same : other = node
      · subst same
        exact ⟨List.mem_cons_self, off⟩
      · have before := inv.owned (by simpa [same] using known)
        exact ⟨List.mem_cons_of_mem _ before.1, before.2⟩
    · intro other otherOff member
      by_cases same : other = node
      · simp [same]
      · rcases List.mem_cons.mp member with new | old
        · exact (same new).elim
        · simpa [same] using inv.offUnmarked otherOff old
    · intro other
      have known := inv.marks other
      simp only [markedNodes, List.mem_filter] at known
      by_cases same : other = node
      · subst same
        simp [markedNodes, known, fresh]
      · simp [markedNodes, same, known]
  · refine
      { chain :=
          MarkedChain.write_advances inv.sound off ⟨none, false⟩
        nodes := List.subset_cons_self _ _
        iterators := List.Subset.refl _
        events := List.suffix_rfl
        owner := ?_
        erasing := fun _ => ⟨rfl, Iff.rfl⟩ }
    intro other holder _ known
    have different : other ≠ node := by
      rintro rfl
      exact fresh (inv.owned known).1
    exact ⟨by simpa [different] using known, by simp [different]⟩

end ConcurrentCpp.LockFreeList
