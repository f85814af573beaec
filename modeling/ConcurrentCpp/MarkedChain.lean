import ConcurrentCpp.ForestAdvance

namespace ConcurrentCpp

/-!
# A chain whose nodes carry deletion marks

The general theory of a singly linked list in which a node is deleted by
marking its own link and is unlinked later by redirecting the word before it.
The root word is never marked.  A node may be inserted behind any unmarked
word, marked once, and bypassed once it is marked; nodes that are off the
chain may be rewritten at will.
-/

/-- A node address or null, with a deletion mark. -/
structure MarkedPtr (A : Type) where
  ptr : Option A
  mark : Bool
  deriving DecidableEq

namespace MarkedPtr

variable {A : Type}

/-- The same pointer, marked. -/
def setMark (word : MarkedPtr A) : MarkedPtr A :=
  { word with mark := true }

/-- The same pointer, unmarked. -/
def clearMark (word : MarkedPtr A) : MarkedPtr A :=
  { word with mark := false }

@[simp] theorem setMark_ptr (word : MarkedPtr A) :
    word.setMark.ptr = word.ptr :=
  rfl

@[simp] theorem setMark_mark (word : MarkedPtr A) :
    word.setMark.mark = true :=
  rfl

@[simp] theorem clearMark_ptr (word : MarkedPtr A) :
    word.clearMark.ptr = word.ptr :=
  rfl

@[simp] theorem clearMark_mark (word : MarkedPtr A) :
    word.clearMark.mark = false :=
  rfl

end MarkedPtr

/-- The words of a marked chain and the place of every node. -/
structure MarkedChain (A : Type) where
  next : Cell Unit A → MarkedPtr A
  place : A → Place Unit
  now : Nat
  floor : Nat

namespace MarkedChain

variable {A : Type}

/-- The forest of one chain that is left when marks are stripped. -/
def forest (chain : MarkedChain A) : Forest Unit A where
  links cell := (chain.next cell).ptr
  place := chain.place
  now := chain.now
  floor := chain.floor

/-- The chain is well formed, its root unmarked and its cut nodes marked. -/
structure Sound (chain : MarkedChain A) : Prop where
  wellFormed : chain.forest.WellFormed
  rootUnmarked : (chain.next (.root ())).mark = false
  cutMarked :
    ∀ {node stamp},
      chain.place node = .cut () stamp →
      (chain.next (.node node)).mark = true

/-- A word that a thread may hold: the root or a node that is not off. -/
def Present
    (chain : MarkedChain A)
    (cell : Cell Unit A) : Prop :=
  ∀ node, cell = .node node → chain.place node ≠ .off

/-- What one change of the chain guarantees. -/
structure Advances (before after : MarkedChain A) : Prop where
  forest : before.forest.Advances after.forest
  frozen :
    ∀ {node},
      before.place node ≠ .off →
      after.place node ≠ .off →
      (before.next (.node node)).mark = true →
      after.next (.node node) = before.next (.node node)
  keeps :
    ∀ {node},
      before.place node = .linked () →
      (before.next (.node node)).mark = false →
      after.place node = .linked ()

theorem Advances.refl
    (chain : MarkedChain A) :
    chain.Advances chain where
  forest := Forest.Advances.refl _
  frozen _ _ _ := rfl
  keeps linked _ := linked

namespace Sound

variable {chain : MarkedChain A}

/-- An unmarked word that is present belongs to the chain. -/
theorem attached
    (sound : chain.Sound)
    {cell : Cell Unit A}
    (present : chain.Present cell)
    (unmarked : (chain.next cell).mark = false) :
    chain.forest.Attached () cell := by
  cases cell with
  | root chain =>
      exact .inl rfl
  | node node =>
      refine .inr ⟨node, rfl, ?_⟩
      cases place : chain.place node with
      | off =>
          exact (present node rfl place).elim
      | linked here =>
          exact place
      | cut here stamp =>
          rw [sound.cutMarked place] at unmarked
          cases unmarked

/-- An unmarked node that is present is linked. -/
theorem linked_of_unmarked
    (sound : chain.Sound)
    {node : A}
    (present : chain.place node ≠ .off)
    (unmarked : (chain.next (.node node)).mark = false) :
    chain.place node = .linked () := by
  have here : chain.Present (.node node) := by
    intro other same
    cases same
    exact present
  rcases sound.attached here unmarked with root | ⟨_, shape, linked⟩
  · cases root
  · cases shape
    exact linked

end Sound

variable [DecidableEq A]

/-- Publish a prepared node behind a word. -/
def link
    (chain : MarkedChain A)
    (cell : Cell Unit A)
    (node : A) :
    MarkedChain A :=
  { chain with
    next := Function.update chain.next cell ⟨some node, false⟩
    place := Function.update chain.place node (.linked ()) }

/-- Mark a node as deleted. -/
def mark
    (chain : MarkedChain A)
    (node : A) :
    MarkedChain A :=
  { chain with
    next :=
      Function.update chain.next (.node node)
        (chain.next (.node node)).setMark }

/-- Redirect a word past a marked node. -/
def unlink
    (chain : MarkedChain A)
    (cell : Cell Unit A)
    (node : A) :
    MarkedChain A :=
  { chain with
    next :=
      Function.update chain.next cell
        (chain.next (.node node)).clearMark
    place := Function.update chain.place node (.cut () chain.now) }

/-- Write the word of a node. -/
def write
    (chain : MarkedChain A)
    (node : A)
    (word : MarkedPtr A) :
    MarkedChain A :=
  { chain with
    next := Function.update chain.next (.node node) word }

/-- Take a cut node off the chain for good. -/
def release
    (chain : MarkedChain A)
    (node : A) :
    MarkedChain A :=
  { chain with
    place := Function.update chain.place node .off }

section Link

variable {chain : MarkedChain A} {cell : Cell Unit A} {node : A}

private theorem forest_link :
    (chain.link cell node).forest =
      chain.forest.insertAfter () cell node := by
  have links :
      (chain.link cell node).forest.links =
        (chain.forest.insertAfter () cell node).links := by
    funext other
    by_cases same : other = cell
    · subst same
      simp [forest, link, Forest.insertAfter]
    · simp [forest, link, Forest.insertAfter, same]
  simp only [forest, link, Forest.insertAfter] at links ⊢
  rw [links]

/-- The node is off the chain and already points where the word does. -/
structure Linkable
    (chain : MarkedChain A)
    (cell : Cell Unit A)
    (node : A) : Prop where
  present : chain.Present cell
  unmarked : (chain.next cell).mark = false
  off : chain.place node = .off
  prepared : chain.next (.node node) = chain.next cell

theorem link_sound
    (sound : chain.Sound)
    (linkable : chain.Linkable cell node) :
    (chain.link cell node).Sound where
  wellFormed := by
    rw [forest_link]
    exact Forest.insertAfter_wellFormed sound.wellFormed
      (sound.attached linkable.present linkable.unmarked)
      linkable.off
      (congrArg MarkedPtr.ptr linkable.prepared)
  rootUnmarked := by
    by_cases same : (.root () : Cell Unit A) = cell
    · simp [link, same]
    · simpa [link, same] using sound.rootUnmarked
  cutMarked {other stamp} cut := by
    have different : other ≠ node := by
      rintro rfl
      simp [link] at cut
    simp only [link, Function.update_of_ne different] at cut
    have marked := sound.cutMarked cut
    have notCell : (.node other : Cell Unit A) ≠ cell := by
      rintro rfl
      rw [linkable.unmarked] at marked
      cases marked
    simpa [link, notCell] using marked

theorem link_advances
    (sound : chain.Sound)
    (linkable : chain.Linkable cell node) :
    chain.Advances (chain.link cell node) where
  forest := by
    rw [forest_link]
    exact Forest.insertAfter_advances sound.wellFormed
      (sound.attached linkable.present linkable.unmarked)
      linkable.off
      (congrArg MarkedPtr.ptr linkable.prepared)
  frozen {other} _ _ marked := by
    have notCell : (.node other : Cell Unit A) ≠ cell := by
      rintro rfl
      rw [linkable.unmarked] at marked
      cases marked
    simp [link, notCell]
  keeps {other} linked _ := by
    by_cases same : other = node
    · simp [link, same]
    · simpa [link, same] using linked

end Link

section Mark

variable {chain : MarkedChain A} {node : A}

private theorem forest_mark :
    (chain.mark node).forest = chain.forest := by
  have links :
      (chain.mark node).forest.links = chain.forest.links := by
    funext other
    by_cases same : other = .node node
    · subst same
      simp [forest, mark]
    · simp [forest, mark, same]
  simp only [forest, mark] at links ⊢
  rw [links]

theorem mark_sound
    (sound : chain.Sound) :
    (chain.mark node).Sound where
  wellFormed := by
    rw [forest_mark]
    exact sound.wellFormed
  rootUnmarked := by
    simpa [mark] using sound.rootUnmarked
  cutMarked {other stamp} cut := by
    by_cases same : other = node
    · simp [mark, same]
    · simpa [mark, same] using sound.cutMarked cut

theorem mark_advances
    (unmarked : (chain.next (.node node)).mark = false) :
    chain.Advances (chain.mark node) where
  forest := by
    rw [forest_mark]
    exact Forest.Advances.refl _
  frozen {other} _ _ marked := by
    have different : other ≠ node := by
      rintro rfl
      rw [unmarked] at marked
      cases marked
    simp [mark, different]
  keeps linked _ := linked

end Mark

section Unlink

variable {chain : MarkedChain A} {cell : Cell Unit A} {node : A}

/-- The word leads to a marked node. -/
structure Unlinkable
    (chain : MarkedChain A)
    (cell : Cell Unit A)
    (node : A) : Prop where
  present : chain.Present cell
  leads : chain.next cell = ⟨some node, false⟩
  marked : (chain.next (.node node)).mark = true

omit [DecidableEq A] in
private theorem Unlinkable.attached
    (sound : chain.Sound)
    (unlinkable : chain.Unlinkable cell node) :
    chain.forest.Attached () cell :=
  sound.attached unlinkable.present (by simp [unlinkable.leads])

omit [DecidableEq A] in
private theorem Unlinkable.segment
    (unlinkable : chain.Unlinkable cell node) :
    Segment chain.forest.links cell [node] :=
  ⟨by simp [forest, unlinkable.leads], trivial⟩

private theorem forest_unlink :
    (chain.unlink cell node).forest =
      chain.forest.cutRun () cell [node] := by
  have links :
      (chain.unlink cell node).forest.links =
        (chain.forest.cutRun () cell [node]).links := by
    funext other
    by_cases same : other = cell
    · subst same
      simp [forest, unlink, Forest.cutRun, endCell]
    · simp [forest, unlink, Forest.cutRun, same]
  have place :
      (chain.unlink cell node).forest.place =
        (chain.forest.cutRun () cell [node]).place := by
    funext other
    by_cases same : other = node
    · subst same
      simp [forest, unlink, Forest.cutRun]
    · simp [forest, unlink, Forest.cutRun, same]
  simp only [forest, unlink, Forest.cutRun] at links place ⊢
  rw [links, place]

omit [DecidableEq A] in
/-- The node behind an unmarked word is linked. -/
theorem Unlinkable.linked
    (sound : chain.Sound)
    (unlinkable : chain.Unlinkable cell node) :
    chain.place node = .linked () :=
  sound.wellFormed.attached_next (unlinkable.attached sound)
    (by simp [forest, unlinkable.leads])

theorem unlink_sound
    (sound : chain.Sound)
    (unlinkable : chain.Unlinkable cell node) :
    (chain.unlink cell node).Sound where
  wellFormed := by
    rw [forest_unlink]
    exact Forest.cutRun_wellFormed sound.wellFormed
      (unlinkable.attached sound) unlinkable.segment
  rootUnmarked := by
    by_cases same : (.root () : Cell Unit A) = cell
    · simp [unlink, same]
    · simpa [unlink, same] using sound.rootUnmarked
  cutMarked {other stamp} cut := by
    have marked : (chain.next (.node other)).mark = true := by
      by_cases same : other = node
      · subst same
        exact unlinkable.marked
      · simp only [unlink, Function.update_of_ne same] at cut
        exact sound.cutMarked cut
    have notCell : (.node other : Cell Unit A) ≠ cell := by
      rintro rfl
      simp [unlinkable.leads] at marked
    simpa [unlink, notCell] using marked

theorem unlink_advances
    (sound : chain.Sound)
    (unlinkable : chain.Unlinkable cell node) :
    chain.Advances (chain.unlink cell node) where
  forest := by
    rw [forest_unlink]
    exact Forest.cutRun_advances sound.wellFormed
      (unlinkable.attached sound) unlinkable.segment
  frozen {other} _ _ marked := by
    have notCell : (.node other : Cell Unit A) ≠ cell := by
      rintro rfl
      simp [unlinkable.leads] at marked
    simp [unlink, notCell]
  keeps {other} linked unmarked := by
    have different : other ≠ node := by
      rintro rfl
      rw [unlinkable.marked] at unmarked
      cases unmarked
    simpa [unlink, different] using linked

end Unlink

section Private

variable {chain : MarkedChain A} {node : A}

private theorem forest_write
    {word : MarkedPtr A} :
    (chain.write node word).forest =
      chain.forest.setLink node word.ptr := by
  have links :
      (chain.write node word).forest.links =
        (chain.forest.setLink node word.ptr).links := by
    funext other
    by_cases same : other = .node node
    · subst same
      simp [forest, write, Forest.setLink]
    · simp [forest, write, Forest.setLink, same]
  simp only [forest, write, Forest.setLink] at links ⊢
  rw [links]

theorem write_sound
    (sound : chain.Sound)
    (off : chain.place node = .off)
    (word : MarkedPtr A) :
    (chain.write node word).Sound where
  wellFormed := by
    rw [forest_write]
    exact Forest.setLink_wellFormed sound.wellFormed off word.ptr
  rootUnmarked := by
    simpa [write] using sound.rootUnmarked
  cutMarked {other stamp} cut := by
    have different : other ≠ node := by
      rintro rfl
      exact absurd (off.symm.trans cut) (by simp)
    simpa [write, different] using sound.cutMarked cut

theorem write_advances
    (sound : chain.Sound)
    (off : chain.place node = .off)
    (word : MarkedPtr A) :
    chain.Advances (chain.write node word) where
  forest := by
    rw [forest_write]
    exact Forest.setLink_advances sound.wellFormed off word.ptr
  frozen {other} present _ _ := by
    have different : other ≠ node := by
      rintro rfl
      exact present off
    simp [write, different]
  keeps linked _ := linked

theorem release_sound
    (sound : chain.Sound)
    {stamp : Nat}
    (cut : chain.place node = .cut () stamp)
    (below : stamp < chain.floor) :
    (chain.release node).Sound where
  wellFormed := Forest.release_wellFormed sound.wellFormed cut below
  rootUnmarked := sound.rootUnmarked
  cutMarked {other later} cutOther := by
    by_cases same : other = node
    · subst same
      simp [release] at cutOther
    · simp only [release, Function.update_of_ne same] at cutOther
      exact sound.cutMarked cutOther

theorem release_advances
    {stamp : Nat}
    (cut : chain.place node = .cut () stamp)
    (below : stamp < chain.floor) :
    chain.Advances (chain.release node) where
  forest := Forest.release_advances cut below
  frozen _ _ _ := rfl
  keeps {other} linked _ := by
    have different : other ≠ node := by
      rintro rfl
      exact absurd (cut.symm.trans linked) (by simp)
    simpa [release, different] using linked

end Private

omit [DecidableEq A] in
/-- Time may pass and the floor may rise. -/
theorem Sound.later
    {chain : MarkedChain A}
    (sound : chain.Sound)
    {later higher : Nat}
    (laterNow : chain.now ≤ later)
    (higherFloor : chain.floor ≤ higher) :
    ({ chain with now := later, floor := higher } :
      MarkedChain A).Sound where
  wellFormed := sound.wellFormed.later laterNow higherFloor
  rootUnmarked := sound.rootUnmarked
  cutMarked := sound.cutMarked

omit [DecidableEq A] in
theorem later_advances
    {chain : MarkedChain A}
    {later higher : Nat}
    (laterNow : chain.now ≤ later)
    (higherFloor : chain.floor ≤ higher) :
    chain.Advances { chain with now := later, floor := higher } where
  forest := Forest.later_advances laterNow higherFloor
  frozen _ _ _ := rfl
  keeps linked _ := linked

section Holders

variable {chain later : MarkedChain A}

/-- The node is marked, and its holders still see it. -/
def Gone
    (chain : MarkedChain A)
    (since : Nat)
    (node : A) : Prop :=
  chain.forest.Visible () since node ∧
    (chain.next (.node node)).mark = true

omit [DecidableEq A] in
/-- A marked node that is pinned stays marked. -/
theorem Gone.step
    (advances : chain.Advances later)
    {since : Nat}
    {node : A}
    (pinned : later.floor ≤ since)
    (past : since ≤ chain.now)
    (gone : chain.Gone since node) :
    later.Gone since node := by
  have seen := advances.forest.visible pinned past gone.1
  refine ⟨seen, ?_⟩
  rw [advances.frozen gone.1.ne_off seen.ne_off gone.2]
  exact gone.2

omit [DecidableEq A] in
/-- A linked node stays linked, or it is marked and pinned. -/
theorem Sound.linked_or_gone
    (soundAfter : later.Sound)
    (advances : chain.Advances later)
    {since : Nat}
    {node : A}
    (past : since ≤ chain.now)
    (linked : chain.place node = .linked ()) :
    later.place node = .linked () ∨ later.Gone since node := by
  rcases advances.forest.linked linked with stays | cut
  · exact .inl stays
  · exact .inr ⟨.inr ⟨chain.now, past, cut⟩, soundAfter.cutMarked cut⟩

/-- The holder of one node can find the other, unless that is marked. -/
def Finds
    (chain : MarkedChain A)
    (since : Nat)
    (parked node : A) : Prop :=
  chain.forest.Visible () since parked ∧
    (chain.place node = .linked () ∧
        LeadsTo chain.forest.links parked node ∨
      chain.Gone since node)

omit [DecidableEq A] in
/-- A holder that reaches a node can find it. -/
theorem finds_of_leadsTo
    (sound : chain.Sound)
    {since : Nat}
    {parked node : A}
    (aboveFloor : chain.floor ≤ since)
    (visible : chain.forest.Visible () since parked)
    (leads : LeadsTo chain.forest.links parked node)
    (unmarked : (chain.next (.node node)).mark = false) :
    chain.Finds since parked node := by
  have found := sound.wellFormed.visible_leadsTo aboveFloor visible leads
  exact ⟨visible,
    .inl ⟨sound.linked_of_unmarked found.ne_off unmarked, leads⟩⟩

omit [DecidableEq A] in
/-- A change keeps what the holder of a pinned node can find. -/
theorem Finds.step
    (soundAfter : later.Sound)
    (advances : chain.Advances later)
    {since : Nat}
    {parked node : A}
    (aboveFloor : chain.floor ≤ since)
    (pinned : later.floor ≤ since)
    (past : since ≤ chain.now)
    (finds : chain.Finds since parked node) :
    later.Finds since parked node := by
  obtain ⟨visible, cases⟩ := finds
  refine ⟨advances.forest.visible pinned past visible, ?_⟩
  rcases cases with ⟨linked, leads⟩ | gone
  · rcases soundAfter.linked_or_gone advances past linked with
      stays | gone
    · exact .inl ⟨stays, advances.forest.leadsTo
        (visible.mono aboveFloor) leads linked stays⟩
    · exact .inr gone
  · exact .inr (gone.step advances pinned past)

/-- Both nodes are on the chain, one before the other. -/
def Ordered
    (chain : MarkedChain A)
    (first second : A) : Prop :=
  chain.place first = .linked () ∧ chain.place second = .linked () ∧
    ∀ nodes,
      chain.forest.Chain () nodes → [first, second].Sublist nodes

omit [DecidableEq A] in
/-- A change keeps the order of two nodes that it leaves on the chain. -/
theorem Ordered.step
    (sound : chain.Sound)
    (advances : chain.Advances later)
    {first second : A}
    (ordered : chain.Ordered first second)
    (firstStays : later.place first = .linked ())
    (secondStays : later.place second = .linked ()) :
    later.Ordered first second := by
  refine ⟨firstStays, secondStays, fun nodes chained => ?_⟩
  obtain ⟨before, chainedBefore⟩ := sound.wellFormed.chain ()
  exact advances.forest.keeps_order chainedBefore chained
    (ordered.2.2 before chainedBefore) firstStays secondStays

/-- Two nodes of the chain are in order, unless one of them is marked. -/
def InOrder
    (chain : MarkedChain A)
    (since : Nat)
    (first second : A) : Prop :=
  chain.Ordered first second ∨ chain.Gone since first ∨
    chain.Gone since second

omit [DecidableEq A] in
/-- A change keeps the order of pinned nodes. -/
theorem InOrder.step
    (sound : chain.Sound)
    (soundAfter : later.Sound)
    (advances : chain.Advances later)
    {since : Nat}
    {first second : A}
    (pinned : later.floor ≤ since)
    (past : since ≤ chain.now)
    (inOrder : chain.InOrder since first second) :
    later.InOrder since first second := by
  rcases inOrder with ordered | gone | gone
  · rcases soundAfter.linked_or_gone advances past ordered.1 with
      firstStays | gone
    · rcases soundAfter.linked_or_gone advances past ordered.2.1 with
        secondStays | gone
      · exact .inl (ordered.step sound advances firstStays secondStays)
      · exact .inr (.inr gone)
    · exact .inr (.inl gone)
  · exact .inr (.inl (gone.step advances pinned past))
  · exact .inr (.inr (gone.step advances pinned past))

omit [DecidableEq A] in
/-- Two nodes that are in order and unmarked are on the chain. -/
theorem InOrder.ordered
    {since : Nat}
    {first second : A}
    (inOrder : chain.InOrder since first second)
    (firstClear : (chain.next (.node first)).mark = false)
    (secondClear : (chain.next (.node second)).mark = false) :
    chain.Ordered first second := by
  rcases inOrder with ordered | gone | gone
  · exact ordered
  · exact absurd (firstClear.symm.trans gone.2) (by simp)
  · exact absurd (secondClear.symm.trans gone.2) (by simp)

omit [DecidableEq A] in
/-- The path from the root is the chain. -/
theorem Sound.chain_of_path
    (sound : chain.Sound)
    {nodes : List A}
    (path : Path chain.forest.links (.root ()) nodes) :
    chain.forest.Chain () nodes := by
  obtain ⟨known, chained⟩ := sound.wellFormed.chain ()
  rw [path.unique chained.path]
  exact chained

omit [DecidableEq A] in
/-- The order of a path from the root is the order of the chain. -/
theorem Sound.ordered_of_path
    (sound : chain.Sound)
    {nodes : List A}
    (path : Path chain.forest.links (.root ()) nodes)
    {first second : A}
    (ordered : [first, second].Sublist nodes) :
    chain.Ordered first second := by
  have chained := sound.chain_of_path path
  refine ⟨(chained.members first).mp (ordered.subset (by simp)),
    (chained.members second).mp (ordered.subset (by simp)),
    fun other otherChained => ?_⟩
  rw [otherChained.path.unique path]
  exact ordered

end Holders

end MarkedChain

end ConcurrentCpp
