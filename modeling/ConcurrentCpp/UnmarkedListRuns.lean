import ConcurrentCpp.UnmarkedList

namespace ConcurrentCpp.UnmarkedList

/-!
# Runs of the list without marking

With one eraser the nodes that were linked are on the chain, unlinked or cut
off, and each of them in one way only.  The chain is known only as long as no
call takes effect behind a node that is no longer on it.
-/

variable {A T : Type} [DecidableEq A]

/-- All calls have taken effect at anchors that they may be made at. -/
def Orderly (events : List (Event A T)) : Prop :=
  InsertsIntact events ∧ ErasesAttached events

/-- The nodes of the chain and what the eraser knows about its target. -/
structure Chained
    (state : State A T)
    (nodes : List A) : Prop where
  path : Path state.next (.root ()) nodes
  noDuplicates : nodes.Nodup
  members :
    ∀ node,
      node ∈ nodes ↔
        node ∈ linkedNodes state.events ∧
          node ∉ unlinkedNodes state.events ∧
          node ∉ (fate state.events).cutOff
  window :
    ∀ {target next},
      (fate state.events).target = some (target, next) →
      target ∈ nodes →
      ∃ before inside after,
        nodes = before ++ target :: (inside ++ after) ∧
          (∀ node, node ∈ inside ↔ node ∈ (fate state.events).behind) ∧
          after.head? = next

/-- Which thread owns a node that is not linked yet. -/
abbrev Ghost (A T : Type) := A → Option T

/-- What holds in every reachable world. -/
structure Invariant (world : State A T × Ghost A T) : Prop where
  created :
    ∀ {node}, node ∈ linkedNodes world.1.events → node ∈ world.1.nodes
  owned :
    ∀ {node thread},
      world.2 node = some thread →
      node ∈ world.1.nodes ∧ node ∉ linkedNodes world.1.events
  iterators :
    ∀ {node},
      (.node node : Cell Unit A) ∈ world.1.iterators →
      node ∈ linkedNodes world.1.events
  next :
    ∀ {cell node},
      (∀ other, cell = .node other →
        other ∈ linkedNodes world.1.events) →
      world.1.next cell = some node →
      node ∈ linkedNodes world.1.events
  unlinked :
    ∀ {node},
      node ∈ unlinkedNodes world.1.events →
      node ∈ linkedNodes world.1.events
  target :
    ∀ {node next},
      (fate world.1.events).target = some (node, next) →
      node ∈ linkedNodes world.1.events
  behind :
    ∀ {node},
      node ∈ (fate world.1.events).behind →
      node ∈ linkedNodes world.1.events
  cutOff :
    ∀ {node},
      node ∈ (fate world.1.events).cutOff →
      node ∈ linkedNodes world.1.events
  inserted :
    ∀ {thread node},
      .inserted thread node true ∈ world.1.events →
      node ∈ linkedNodes world.1.events
  chain : Orderly world.1.events → ∃ nodes, Chained world.1 nodes

section Insertion

variable {state : State A T} {nodes : List A}

/-- The state after an insertion has taken effect. -/
def State.link
    (state : State A T)
    (anchor : Cell Unit A)
    (node : A) :
    State A T :=
  { state with
    next := Function.update state.next anchor (some node)
    events := .linked anchor node :: state.events }

omit [DecidableEq A] in
/-- What ends a list of nodes is the root or one of them. -/
theorem endCell_ne
    {before : List A}
    {node : A}
    (outside : node ∉ before) :
    .node node ≠ endCell (.root () : Cell Unit A) before := by
  cases before with
  | nil =>
      simp
  | cons first rest =>
      obtain ⟨last, member, shape⟩ :=
        endCell_cons_mem (.root () : Cell Unit A) first rest
      rw [shape]
      intro same
      cases same
      exact outside member

/-- A path in which a node has been linked behind another or the head. -/
theorem path_linked
    {before after : List A}
    {node : A}
    (path : Path state.next (.root ()) (before ++ after))
    (noDuplicates : (before ++ after).Nodup)
    (fresh : node ∉ before ++ after)
    (word :
      state.next (.node node) = state.next (endCell (.root ()) before)) :
    Path (state.link (endCell (.root ()) before) node).next (.root ())
      (before ++ node :: after) := by
  obtain ⟨distinct, -, apart⟩ := List.nodup_append.mp noDuplicates
  rw [List.mem_append, not_or] at fresh
  refine path.redirect distinct (fun _ _ => by simp) ?_ ⟨?_, ?_⟩
  · intro other different
    exact Function.update_of_ne different _ _
  · exact Function.update_self ..
  · have behind := (path_append.mp path).2
    refine behind.transfer ?_ fun other member => ?_
    · rw [← word]
      exact Function.update_of_ne (endCell_ne fresh.1) _ _
    · refine Function.update_of_ne (endCell_ne fun early => ?_) _ _
      exact apart other early other member rfl

omit [DecidableEq A] in
/-- The chain splits behind an attached cell. -/
theorem split_behind
    {anchor : Cell Unit A}
    (attached :
      anchor = .root () ∨ ∃ other ∈ nodes, anchor = .node other) :
    ∃ before after,
      nodes = before ++ after ∧ anchor = endCell (.root ()) before := by
  rcases attached with rfl | ⟨other, member, rfl⟩
  · exact ⟨[], nodes, rfl, rfl⟩
  · obtain ⟨early, late, rfl⟩ := List.append_of_mem member
    exact ⟨early ++ [other], late, by simp, by simp⟩

omit [DecidableEq A] in
/-- Where a list of nodes ends, by its last part. -/
theorem endCell_last
    (early rest : List A)
    (first : A) :
    ∃ last ∈ first :: rest,
      endCell (.root () : Cell Unit A) (early ++ first :: rest) =
        .node last := by
  rw [endCell_append]
  exact endCell_cons_mem _ first rest

omit [DecidableEq A] in
/-- A cell that is neither the target nor behind it does not follow it. -/
theorem not_follows
    {known : Fate A}
    {target : A}
    {next : Option A}
    (examined : known.target = some (target, next))
    {before : List A}
    (apart : ∀ other ∈ before, other ≠ target ∧ other ∉ known.behind) :
    ¬ known.Follows (endCell (.root ()) before) := by
  cases before with
  | nil =>
      exact id
  | cons first rest =>
      obtain ⟨last, member, shape⟩ :=
        endCell_cons_mem (.root () : Cell Unit A) first rest
      rw [shape]
      rintro (⟨other, same⟩ | inside)
      · rw [examined] at same
        cases same
        exact (apart _ member).1 rfl
      · exact (apart last member).2 inside

/-- Where a node is linked relative to the target of the eraser. -/
theorem window_linked
    {known : Fate A}
    {target : A}
    {next : Option A}
    {before after early inside late : List A}
    {node : A}
    (noDuplicates : (early ++ target :: (inside ++ late)).Nodup)
    (examined : known.target = some (target, next))
    (members : ∀ other, other ∈ inside ↔ other ∈ known.behind)
    (ahead : late.head? = next)
    (split : before ++ after = early ++ target :: (inside ++ late)) :
    ∃ early' inside' late',
      before ++ node :: after =
          early' ++ target :: (inside' ++ late') ∧
        (∀ other,
          other ∈ inside' ↔
            other ∈
              if known.Follows (endCell (.root ()) before) then
                node :: known.behind
              else
                known.behind) ∧
        late'.head? = next := by
  obtain ⟨-, distinct, apart⟩ := List.nodup_append.mp noDuplicates
  obtain ⟨notBehind, distinct⟩ := List.nodup_cons.mp distinct
  obtain ⟨-, -, insideLate⟩ := List.nodup_append.mp distinct
  have before_target :
      ∀ rest, early = before ++ rest →
        ¬ known.Follows (endCell (.root ()) before) := by
    intro rest shape
    refine not_follows examined fun other member => ?_
    have isEarly : other ∈ early := by
      rw [shape]
      exact List.mem_append_left _ member
    refine ⟨apart other isEarly target List.mem_cons_self, ?_⟩
    intro isBehind
    refine apart other isEarly other ?_ rfl
    exact List.mem_cons_of_mem _
      (List.mem_append_left _ ((members other).mpr isBehind))
  rcases List.append_eq_append_iff.mp split with
      ⟨rest, shape, shapeAfter⟩ | ⟨rest, shape, shapeAfter⟩
  · refine ⟨before ++ node :: rest, inside, late, by simp [shapeAfter],
      ?_, ahead⟩
    rw [if_neg (before_target rest shape)]
    exact members
  · cases rest with
    | nil =>
        rw [List.append_nil] at shape
        rw [List.nil_append] at shapeAfter
        subst shape
        refine ⟨before ++ [node], inside, late, by simp [← shapeAfter],
          ?_, ahead⟩
        rw [if_neg (before_target [] (by simp))]
        exact members
    | cons first rest =>
        rw [List.cons_append, List.cons.injEq] at shapeAfter
        obtain ⟨rfl, shapeAfter⟩ := shapeAfter
        subst shape
        have follows :
            (∀ other ∈ rest, other ∈ inside) →
              known.Follows
                (endCell (.root ()) (early ++ target :: rest)) := by
          intro within
          obtain ⟨last, member, ends⟩ := endCell_last early rest target
          rw [ends]
          rcases List.mem_cons.mp member with rfl | member
          · exact .inl ⟨next, examined⟩
          · exact .inr ((members last).mp (within last member))
        rcases List.append_eq_append_iff.mp shapeAfter with
            ⟨more, shape, shapeLate⟩ | ⟨more, shape, shapeLate⟩
        · cases more with
          | nil =>
              rw [List.append_nil] at shape
              rw [List.nil_append] at shapeLate
              subst shape shapeLate
              refine ⟨early, rest ++ [node], late, by simp, ?_, ahead⟩
              intro other
              rw [if_pos (follows fun _ member => member)]
              simp [members other, or_comm]
          | cons second more =>
              subst shape shapeLate
              refine ⟨early, inside, second :: (more ++ node :: after),
                by simp, ?_, by simpa using ahead⟩
              obtain ⟨last, member, ends⟩ :=
                endCell_last (early ++ target :: inside) more second
              have isLate : last ∈ second :: more ++ after :=
                List.mem_append_left _ member
              rw [if_neg]
              · exact members
              · rw [show early ++ target :: (inside ++ second :: more) =
                    (early ++ target :: inside) ++ second :: more
                  by simp, ends]
                rintro (⟨other, same⟩ | isBehind)
                · rw [examined] at same
                  cases same
                  exact notBehind (List.mem_append_right _ isLate)
                · exact insideLate last ((members last).mpr isBehind)
                    last isLate rfl
        · subst shape shapeLate
          refine ⟨early, rest ++ node :: more, late, by simp, ?_, ahead⟩
          intro other
          rw [if_pos (follows fun _ member =>
            List.mem_append_left _ member)]
          simp only [List.mem_append, List.mem_cons, ← members other]
          tauto

/-- What is known of a node that is about to be linked. -/
structure Linkable
    (state : State A T)
    (anchor : Cell Unit A)
    (node : A) : Prop where
  fresh : node ∉ linkedNodes state.events
  unlinked : node ∉ unlinkedNodes state.events
  target :
    ∀ {next}, (fate state.events).target ≠ some (node, next)
  cutOff : node ∉ (fate state.events).cutOff
  word : state.next (.node node) = state.next anchor

/-- An insertion behind the head or a node of the chain. -/
theorem Chained.link
    (chained : Chained state nodes)
    {anchor : Cell Unit A}
    {node : A}
    (linkable : Linkable state anchor node)
    (attached :
      anchor = .root () ∨ ∃ other ∈ nodes, anchor = .node other) :
    ∃ after, Chained (state.link anchor node) after := by
  have aboard : ¬ (fate state.events).Adrift anchor := by
    rcases attached with rfl | ⟨other, member, rfl⟩
    · exact id
    · exact ((chained.members other).mp member).2.2
  have fresh : node ∉ nodes := fun member =>
    linkable.fresh ((chained.members node).mp member).1
  obtain ⟨before, after, rfl, rfl⟩ := split_behind attached
  refine ⟨before ++ node :: after, ?_, ?_, ?_, ?_⟩
  · exact path_linked chained.path chained.noDuplicates fresh
      linkable.word
  · rw [List.nodup_middle, List.nodup_cons]
    exact ⟨fresh, chained.noDuplicates⟩
  · intro other
    have known := chained.members other
    simp only [State.link, linkedNodes, unlinkedNodes, fate,
      if_neg aboard, List.mem_cons]
    rw [List.mem_append] at known
    rw [List.mem_append, List.mem_cons]
    constructor
    · rintro (member | rfl | member)
      · exact ⟨.inr (known.mp (.inl member)).1,
          (known.mp (.inl member)).2⟩
      · exact ⟨.inl rfl, linkable.unlinked, linkable.cutOff⟩
      · exact ⟨.inr (known.mp (.inr member)).1,
          (known.mp (.inr member)).2⟩
    · rintro ⟨rfl | linked, rest⟩
      · exact .inr (.inl rfl)
      · rcases known.mpr ⟨linked, rest⟩ with member | member
        · exact .inl member
        · exact .inr (.inr member)
  · intro target next examined member
    have seen : (fate state.events).target = some (target, next) :=
      examined
    have older : target ∈ before ++ after := by
      rw [List.mem_append, List.mem_cons] at member
      rw [List.mem_append]
      rcases member with member | rfl | member
      · exact .inl member
      · exact absurd seen linkable.target
      · exact .inr member
    obtain ⟨early, inside, late, shape, members, ahead⟩ :=
      chained.window seen older
    have distinct := chained.noDuplicates
    rw [shape] at distinct
    exact window_linked distinct seen members ahead shape

/-- An insertion behind a node that was cut off. -/
theorem Chained.link_adrift
    (chained : Chained state nodes)
    {anchor node : A}
    (linkable : Linkable state (.node anchor) node)
    (adrift : anchor ∈ (fate state.events).cutOff) :
    Chained (state.link (.node anchor) node) nodes := by
  have outside : anchor ∉ nodes := fun member =>
    ((chained.members anchor).mp member).2.2 adrift
  have fresh : node ∉ nodes := fun member =>
    linkable.fresh ((chained.members node).mp member).1
  have isAdrift : (fate state.events).Adrift (.node anchor) := adrift
  refine ⟨?_, chained.noDuplicates, ?_, ?_⟩
  · refine chained.path.transfer ?_ fun other member => ?_
    · have apart : (.root () : Cell Unit A) ≠ .node anchor := by simp
      exact Function.update_of_ne apart (some node) state.next
    · refine Function.update_of_ne ?_ _ _
      intro same
      cases same
      exact outside member
  · intro other
    simp only [State.link, linkedNodes, unlinkedNodes, fate,
      if_pos isAdrift, List.mem_cons]
    rw [chained.members other]
    constructor
    · rintro ⟨linked, intact, aboard⟩
      refine ⟨.inr linked, intact, ?_⟩
      rintro (rfl | lost)
      · exact linkable.fresh linked
      · exact aboard lost
    · rintro ⟨rfl | linked, intact, aboard⟩
      · exact absurd (.inl rfl) aboard
      · exact ⟨linked, intact, fun lost => aboard (.inr lost)⟩
  · intro target next examined member
    have seen : (fate state.events).target = some (target, next) :=
      examined
    obtain ⟨early, inside, late, shape, members, ahead⟩ :=
      chained.window seen member
    have notFollows : ¬ (fate state.events).Follows (.node anchor) := by
      rintro (⟨other, same⟩ | isBehind)
      · rw [seen] at same
        cases same
        exact outside member
      · apply outside
        rw [shape]
        have isInside := (members anchor).mpr isBehind
        simp [isInside]
    refine ⟨early, inside, late, shape, ?_, ahead⟩
    simp only [State.link, fate, if_neg notFollows]
    exact members

end Insertion

section Erasure

variable {state : State A T} {nodes : List A}

/-- The state after an erasure has taken effect. -/
def State.unlink
    (state : State A T)
    (anchor : Cell Unit A)
    (target : A)
    (next : Option A) :
    State A T :=
  { state with
    next := Function.update state.next anchor next
    events := .unlinked anchor target :: state.events }

/-- The erasure of a target takes what was linked behind it along. -/
theorem Chained.unlink
    (chained : Chained state nodes)
    {anchor : Cell Unit A}
    {target : A}
    {next : Option A}
    (attached :
      anchor = .root () ∨ ∃ other ∈ nodes, anchor = .node other)
    (leads : state.next anchor = some target)
    (examined : (fate state.events).target = some (target, next)) :
    ∃ after, Chained (state.unlink anchor target next) after := by
  have member : target ∈ nodes := by
    rcases attached with rfl | ⟨other, member, rfl⟩
    · rw [chained.path.head] at leads
      exact List.mem_of_mem_head? leads
    · exact chained.path.next_mem member leads
  obtain ⟨before, inside, after, rfl, members, ahead⟩ :=
    chained.window examined member
  have ends : anchor = endCell (.root ()) before :=
    chained.path.cell_before chained.noDuplicates attached leads
  subst ends
  have distinct := chained.noDuplicates
  obtain ⟨distinctBefore, distinctRest, apart⟩ :=
    List.nodup_append.mp distinct
  obtain ⟨targetOut, distinctRest⟩ := List.nodup_cons.mp distinctRest
  obtain ⟨-, distinctAfter, insideAfter⟩ :=
    List.nodup_append.mp distinctRest
  have apartAfter :
      ∀ node ∈ before, node ∉ target :: (inside ++ after) :=
    fun node isBefore again => apart node isBefore node again rfl
  refine ⟨before ++ after, ?_, ?_, ?_, ?_⟩
  · refine chained.path.redirect distinctBefore (fun _ _ => by simp)
      (fun other different => Function.update_of_ne different _ _) ?_
    have tail : Path state.next (endCell (.node target) inside) after := by
      have whole := (path_append.mp chained.path).2.2
      exact (path_append.mp whole).2
    refine tail.transfer ?_ fun other isAfter => ?_
    · rw [tail.head, ahead]
      exact Function.update_self ..
    · refine Function.update_of_ne (endCell_ne fun isBefore => ?_) _ _
      exact apartAfter other isBefore (by simp [isAfter])
  · refine List.nodup_append.mpr ⟨distinctBefore, distinctAfter, ?_⟩
    rintro first isBefore _ isAfter rfl
    exact apartAfter first isBefore (by simp [isAfter])
  · intro node
    have known := chained.members node
    simp only [List.mem_append, List.mem_cons] at known
    simp only [State.unlink, linkedNodes, unlinkedNodes, fate,
      List.mem_append, List.mem_cons, ← members node, not_or]
    constructor
    · rintro (isBefore | isAfter)
      · have here := known.mp (.inl isBefore)
        have others := apartAfter node isBefore
        simp only [List.mem_cons, List.mem_append, not_or] at others
        exact ⟨here.1, ⟨others.1, here.2.1⟩, others.2.1, here.2.2⟩
      · have here := known.mp (.inr (.inr (.inr isAfter)))
        refine ⟨here.1, ⟨?_, here.2.1⟩, ?_, here.2.2⟩
        · rintro rfl
          exact targetOut (List.mem_append_right _ isAfter)
        · intro isInside
          exact insideAfter node isInside node isAfter rfl
    · rintro ⟨linked, ⟨notTarget, intact⟩, notInside, aboard⟩
      rcases known.mpr ⟨linked, intact, aboard⟩ with
          isBefore | rfl | isInside | isAfter
      · exact .inl isBefore
      · exact absurd rfl notTarget
      · exact absurd isInside notInside
      · exact .inr isAfter
  · intro other word none
    cases none

/-- The eraser has loaded the successor of its target. -/
theorem Chained.examine
    (chained : Chained state nodes)
    (target : A) :
    Chained
      { state with
        events :=
          .examined target (state.next (.node target)) :: state.events }
      nodes where
  path := chained.path
  noDuplicates := chained.noDuplicates
  members := chained.members
  window := by
    intro found next examined member
    cases examined
    obtain ⟨before, after, shape, behind⟩ := chained.path.split_at member
    refine ⟨before, [], after, by simpa using shape, by simp [fate], ?_⟩
    exact behind.head.symm

end Erasure

section Steps

variable {state : State A T} {ghost : Ghost A T}

/-- A cell that an iterator is parked on is the head or was linked. -/
theorem Invariant.iterator_linked
    (inv : Invariant (state, ghost))
    {anchor : Cell Unit A}
    (held : anchor ∈ state.iterators)
    {node : A}
    (isNode : anchor = .node node) :
    node ∈ linkedNodes state.events := by
  subst isNode
  exact inv.iterators held

/-- A cell that an iterator is parked on leads to a linked node. -/
theorem Invariant.iterator_next
    (inv : Invariant (state, ghost))
    {anchor : Cell Unit A}
    (held : anchor ∈ state.iterators)
    {node : A}
    (leads : state.next anchor = some node) :
    node ∈ linkedNodes state.events :=
  inv.next (fun _ isNode => inv.iterator_linked held isNode) leads

/-- An anchor that was not unlinked is on the chain or was cut off. -/
theorem Invariant.attached_or_adrift
    (inv : Invariant (state, ghost))
    {nodes : List A}
    (chained : Chained state nodes)
    {anchor : Cell Unit A}
    (held : anchor ∈ state.iterators)
    (intact : Intact state.events anchor) :
    (anchor = .root () ∨ ∃ other ∈ nodes, anchor = .node other) ∨
      ∃ other ∈ (fate state.events).cutOff, anchor = .node other := by
  cases anchor with
  | root chain =>
      exact .inl (.inl rfl)
  | node other =>
      by_cases lost : other ∈ (fate state.events).cutOff
      · exact .inr ⟨other, lost, rfl⟩
      · refine .inl (.inr ⟨other, ?_, rfl⟩)
        exact (chained.members other).mpr
          ⟨inv.iterators held, intact, lost⟩

/-- A node that a thread owns can be linked once it has the right word. -/
theorem Invariant.linkable
    (inv : Invariant (state, ghost))
    {anchor : Cell Unit A}
    {node : A}
    {thread : T}
    (owned : ghost node = some thread)
    (word : state.next (.node node) = state.next anchor) :
    Linkable state anchor node where
  fresh := (inv.owned owned).2
  unlinked member := (inv.owned owned).2 (inv.unlinked member)
  target examined := (inv.owned owned).2 (inv.target examined)
  cutOff member := (inv.owned owned).2 (inv.cutOff member)
  word := word

/-- An insertion that takes effect. -/
theorem Invariant.link
    (inv : Invariant (state, ghost))
    {anchor : Cell Unit A}
    {node : A}
    {thread : T}
    (held : anchor ∈ state.iterators)
    (owned : ghost node = some thread)
    (word : state.next (.node node) = state.next anchor) :
    Invariant (state.link anchor node, Function.update ghost node none) where
  created member := by
    rcases List.mem_cons.mp member with rfl | member
    · exact (inv.owned owned).1
    · exact inv.created member
  owned := by
    intro other owner known
    by_cases same : other = node
    · subst same
      simp at known
    · have before : ghost other = some owner := by
        simpa [Function.update_of_ne same] using known
      refine ⟨(inv.owned before).1, fun member => ?_⟩
      rcases List.mem_cons.mp member with again | member
      · exact same again
      · exact (inv.owned before).2 member
  iterators member := List.mem_cons_of_mem _ (inv.iterators member)
  next := by
    intro cell other isLinked leads
    by_cases atAnchor : cell = anchor
    · subst atAnchor
      have found : some node = some other := by
        simpa [State.link] using leads
      cases found
      exact List.mem_cons_self
    · have before : state.next cell = some other := by
        simpa [State.link, Function.update_of_ne atAnchor] using leads
      apply List.mem_cons_of_mem
      by_cases isNew : cell = .node node
      · subst isNew
        rw [word] at before
        exact inv.iterator_next held before
      · refine inv.next (fun inner isNode => ?_) before
        rcases List.mem_cons.mp (isLinked inner isNode) with rfl | member
        · exact absurd isNode isNew
        · exact member
  unlinked member := List.mem_cons_of_mem _ (inv.unlinked member)
  target examined := List.mem_cons_of_mem _ (inv.target examined)
  behind := by
    intro other member
    simp only [State.link, fate] at member
    split_ifs at member
    · rcases List.mem_cons.mp member with rfl | member
      · exact List.mem_cons_self
      · exact List.mem_cons_of_mem _ (inv.behind member)
    · exact List.mem_cons_of_mem _ (inv.behind member)
  cutOff := by
    intro other member
    simp only [State.link, fate] at member
    split_ifs at member
    · rcases List.mem_cons.mp member with rfl | member
      · exact List.mem_cons_self
      · exact List.mem_cons_of_mem _ (inv.cutOff member)
    · exact List.mem_cons_of_mem _ (inv.cutOff member)
  inserted := by
    intro owner other member
    rcases List.mem_cons.mp member with same | member
    · cases same
    · exact List.mem_cons_of_mem _ (inv.inserted member)
  chain := by
    rintro ⟨⟨intact, inserts⟩, erases⟩
    obtain ⟨nodes, chained⟩ := inv.chain ⟨inserts, erases⟩
    have linkable := inv.linkable owned word
    rcases inv.attached_or_adrift chained held intact with
        attached | ⟨other, lost, rfl⟩
    · exact chained.link linkable attached
    · exact ⟨nodes, chained.link_adrift linkable lost⟩

/-- An erasure that takes effect. -/
theorem Invariant.unlink
    (inv : Invariant (state, ghost))
    {anchor : Cell Unit A}
    {target : A}
    {next : Option A}
    (held : anchor ∈ state.iterators)
    (leads : state.next anchor = some target)
    (examined : (fate state.events).target = some (target, next))
    (known : ∀ node ∈ next, node ∈ linkedNodes state.events) :
    Invariant (state.unlink anchor target next, ghost) where
  created := inv.created
  owned := inv.owned
  iterators := inv.iterators
  next := by
    intro cell other isLinked found
    by_cases atAnchor : cell = anchor
    · subst atAnchor
      exact known other (by simpa [State.unlink] using found)
    · refine inv.next isLinked ?_
      simpa [State.unlink, Function.update_of_ne atAnchor] using found
  unlinked member := by
    rcases List.mem_cons.mp member with rfl | member
    · exact inv.iterator_next held leads
    · exact inv.unlinked member
  target none := by cases none
  behind member := by cases member
  cutOff member := by
    rcases List.mem_append.mp member with member | member
    · exact inv.behind member
    · exact inv.cutOff member
  inserted := by
    intro owner other member
    rcases List.mem_cons.mp member with same | member
    · cases same
    · exact inv.inserted member
  chain := by
    rintro ⟨inserts, ⟨⟨intact, aboard⟩, erases⟩⟩
    obtain ⟨nodes, chained⟩ := inv.chain ⟨inserts, erases⟩
    rcases inv.attached_or_adrift chained held intact with
        attached | ⟨other, lost, rfl⟩
    · exact chained.unlink attached leads examined
    · exact absurd lost aboard

/-- The eraser loads the successor of its target. -/
theorem Invariant.examine
    (inv : Invariant (state, ghost))
    {target : A}
    (linked : target ∈ linkedNodes state.events) :
    Invariant
      ({ state with
          events :=
            .examined target (state.next (.node target)) ::
              state.events }, ghost) where
  created := inv.created
  owned := inv.owned
  iterators := inv.iterators
  next := inv.next
  unlinked := inv.unlinked
  target examined := by
    cases examined
    exact linked
  behind member := by cases member
  cutOff := inv.cutOff
  inserted := by
    intro owner other member
    rcases List.mem_cons.mp member with same | member
    · cases same
    · exact inv.inserted member
  chain orderly := by
    obtain ⟨nodes, chained⟩ := inv.chain orderly
    exact ⟨nodes, chained.examine target⟩

/-- What a call returned is noted. -/
theorem Invariant.note
    (inv : Invariant (state, ghost))
    {event : Event A T}
    (silent :
      ∀ events : List (Event A T),
        fate (event :: events) = fate events ∧
          linkedNodes (event :: events) = linkedNodes events ∧
          unlinkedNodes (event :: events) = unlinkedNodes events ∧
          (Orderly (event :: events) → Orderly events))
    (names :
      ∀ {owner node},
        event = .inserted owner node true →
        node ∈ linkedNodes state.events) :
    Invariant ({ state with events := event :: state.events }, ghost) := by
  obtain ⟨sameFate, sameLinked, sameUnlinked, orderly⟩ :=
    silent state.events
  refine
    { created := ?_
      owned := ?_
      iterators := ?_
      next := ?_
      unlinked := ?_
      target := ?_
      behind := ?_
      cutOff := ?_
      inserted := ?_
      chain := ?_ }
  all_goals simp only [sameFate, sameLinked, sameUnlinked]
  · exact inv.created
  · exact inv.owned
  · exact inv.iterators
  · exact inv.next
  · exact inv.unlinked
  · exact inv.target
  · exact inv.behind
  · exact inv.cutOff
  · intro owner node member
    rcases List.mem_cons.mp member with same | member
    · exact names same.symm
    · exact inv.inserted member
  · intro known
    obtain ⟨nodes, chained⟩ := inv.chain (orderly known)
    refine ⟨nodes, chained.path, chained.noDuplicates, ?_, ?_⟩
    · simp only [sameFate, sameLinked, sameUnlinked]
      exact chained.members
    · simp only [sameFate]
      exact chained.window

/-- Whatever else a call does leaves the words of linked nodes alone. -/
theorem Invariant.beside
    (inv : Invariant (state, ghost))
    {changed : State A T}
    {owners : Ghost A T}
    (events : changed.events = state.events)
    (created : ∀ {node}, node ∈ state.nodes → node ∈ changed.nodes)
    (owned :
      ∀ {node thread},
        owners node = some thread →
        node ∈ changed.nodes ∧ node ∉ linkedNodes state.events)
    (iterators :
      ∀ {node},
        (.node node : Cell Unit A) ∈ changed.iterators →
        node ∈ linkedNodes state.events)
    (next :
      ∀ cell,
        (∀ other, cell = .node other →
          other ∈ linkedNodes state.events) →
        changed.next cell = state.next cell) :
    Invariant (changed, owners) where
  created member := created (inv.created (events ▸ member))
  owned known := by
    rw [events]
    exact owned known
  iterators member := by
    rw [events]
    exact iterators member
  next := by
    intro cell node isLinked leads
    simp only [events] at isLinked ⊢
    rw [next cell isLinked] at leads
    exact inv.next isLinked leads
  unlinked member := by
    simp only [events] at member ⊢
    exact inv.unlinked member
  target examined := by
    simp only [events] at examined ⊢
    exact inv.target examined
  behind member := by
    simp only [events] at member ⊢
    exact inv.behind member
  cutOff member := by
    simp only [events] at member ⊢
    exact inv.cutOff member
  inserted member := by
    simp only [events] at member ⊢
    exact inv.inserted member
  chain orderly := by
    simp only [events] at orderly
    obtain ⟨nodes, chained⟩ := inv.chain orderly
    refine ⟨nodes, ?_, chained.noDuplicates, ?_, ?_⟩
    · refine chained.path.transfer (next _ (by simp)) ?_
      intro node member
      refine next _ fun other same => ?_
      cases same
      exact ((chained.members node).mp member).1
    · rw [events]
      exact chained.members
    · rw [events]
      exact chained.window

end Steps

/-- What one step of a thread promises the others. -/
structure Guarantee
    (eraser thread : T)
    (world after : State A T × Ghost A T) : Prop where
  events : world.1.events <:+ after.1.events
  iterators :
    ∀ {cell}, cell ∈ world.1.iterators → cell ∈ after.1.iterators
  target :
    thread ≠ eraser →
    (fate after.1.events).target = (fate world.1.events).target
  owned :
    ∀ {node other},
      other ≠ thread →
      world.2 node = some other →
      after.2 node = some other ∧
        after.1.next (.node node) = world.1.next (.node node)

theorem Guarantee.refl
    (eraser thread : T)
    (world : State A T × Ghost A T) :
    Guarantee eraser thread world world where
  events := List.suffix_refl _
  iterators member := member
  target _ := rfl
  owned _ known := ⟨known, rfl⟩

variable (A) in
/-- The protocol of the list. -/
def protocol (eraser : T) : Protocol (State A T) (Ghost A T) T where
  Inv := Invariant
  Guar := Guarantee eraser
  guar_refl := Guarantee.refl eraser

omit [DecidableEq A] in
/-- A node that was linked stays one that was linked. -/
theorem linkedNodes_mono
    {events later : List (Event A T)}
    (suffix : events <:+ later)
    {node : A}
    (member : node ∈ linkedNodes events) :
    node ∈ linkedNodes later := by
  obtain ⟨recent, rfl⟩ := suffix
  induction recent with
  | nil =>
      exact member
  | cons event recent inductionHypothesis =>
      cases event with
      | linked anchor other =>
          exact List.mem_cons_of_mem _ inductionHypothesis
      | examined target next =>
          exact inductionHypothesis
      | unlinked anchor target =>
          exact inductionHypothesis
      | inserted owner other result =>
          exact inductionHypothesis
      | erased owner result =>
          exact inductionHypothesis

section Assertions

variable {eraser thread : T}

/-- The thread owns these nodes. -/
def owns
    (spare : List A) :
    Assertion (protocol A eraser) thread where
  holds world := ∀ node ∈ spare, world.2 node = some thread
  stable different _ _ guarantee known node member :=
    (guarantee.owned (Ne.symm different) (known node member)).1

/-- Some client has an iterator there. -/
def parked
    (anchor : Cell Unit A) :
    Assertion (protocol A eraser) thread :=
  .lasting (fun world => anchor ∈ world.1.iterators)
    fun _ _ _ _ _ guarantee held => guarantee.iterators held

/-- The word is null or names a node that was linked. -/
def reaches
    (word : Option A) :
    Assertion (protocol A eraser) thread :=
  .lasting
    (fun world => ∀ node ∈ word, node ∈ linkedNodes world.1.events)
    fun _ _ _ _ _ guarantee known node isNode =>
      linkedNodes_mono guarantee.events (known node isNode)

/-- A node that the thread owns has this word. -/
def prepared
    (node : A)
    (word : Option A) :
    Assertion (protocol A eraser) thread where
  holds world :=
    world.2 node = some thread ∧ world.1.next (.node node) = word
  stable different _ _ guarantee known :=
    have kept := guarantee.owned (Ne.symm different) known.1
    ⟨kept.1, kept.2.trans known.2⟩

/-- The eraser has loaded the successor of its target. -/
def examining
    (isEraser : thread = eraser)
    (target : A)
    (next : Option A) :
    Assertion (protocol A eraser) thread where
  holds world := (fate world.1.events).target = some (target, next)
  stable different _ _ guarantee known :=
    (guarantee.target (isEraser ▸ different)).trans known

variable {spare : List A} {anchor : Cell Unit A}

variable (spare anchor) in
/-- The load of the word of an anchor. -/
theorem loadNext_triple :
    Triple (protocol A eraser) thread
      ((owns spare).and (parked anchor)) (loadNext anchor)
      fun word => ((owns spare).and (parked anchor)).and (reaches word) := by
  apply Triple.read
  intro world inv known
  refine ⟨known, fun node leads => ?_⟩
  exact inv.iterator_next known.2 leads

/-- The store to a node that nobody else can see. -/
theorem storeNext_triple
    {node : A}
    (mine : node ∈ spare)
    (word : Option A) :
    Triple (protocol A eraser) thread
      (((owns spare).and (parked anchor)).and (reaches word))
      (storeNext node word)
      fun _ =>
        (((owns spare).and (parked anchor)).and (reaches word)).and
          (prepared node word) := by
  apply Triple.atomic
  intro world choice value shared inv known ran
  cases ran
  have owned := known.1.1 node mine
  have hidden := (inv.owned owned).2
  refine ⟨world.2, ?_, ?_, known, owned, by simp⟩
  · refine inv.beside rfl (fun member => member) inv.owned
      inv.iterators fun cell isLinked => ?_
    refine Function.update_of_ne (fun same => ?_) _ _
    exact hidden (isLinked node same)
  · refine
      { events := List.suffix_refl _
        iterators := fun member => member
        target := fun _ => rfl
        owned := fun different other => ⟨other, ?_⟩ }
    refine Function.update_of_ne (fun same => ?_) _ _
    cases same
    rw [owned] at other
    exact different (Option.some.inj other).symm

/-- The compare-and-swap of an insertion. -/
theorem link_triple
    {node : A}
    (mine : node ∈ spare)
    (distinct : spare.Nodup)
    (word : Option A) :
    Triple (protocol A eraser) thread
      ((((owns spare).and (parked anchor)).and (reaches word)).and
        (prepared node word))
      (compareExchange anchor word (some node) (.linked anchor node))
      fun outcome =>
        if outcome.1 then
          (owns (spare.erase node)).and (reaches (some node))
        else
          ((owns spare).and (parked anchor)).and (reaches outcome.2) := by
  apply Triple.atomic
  intro world choice value shared inv known ran
  obtain ⟨⟨⟨owned, held⟩, reached⟩, prepared⟩ := known
  by_cases current : world.1.next anchor = word
  · rw [if_pos current] at ran
    cases ran
    have sameWord : world.1.next (.node node) = world.1.next anchor :=
      prepared.2.trans current.symm
    refine ⟨Function.update world.2 node none,
      inv.link held prepared.1 sameWord, ?_, ?_, ?_⟩
    · refine
        { events := List.suffix_cons _ _
          iterators := fun member => member
          target := fun _ => rfl
          owned := ?_ }
      intro other owner different mineOther
      have apart : other ≠ node := by
        rintro rfl
        rw [prepared.1] at mineOther
        exact different (Option.some.inj mineOther).symm
      refine ⟨(Function.update_of_ne apart _ _).trans mineOther, ?_⟩
      refine Function.update_of_ne (fun same => ?_) _ _
      have linked := inv.iterator_linked held same.symm
      exact (inv.owned mineOther).2 linked
    · intro other member
      have inSpare := (distinct.mem_erase_iff.mp member)
      exact (Function.update_of_ne inSpare.1 _ _).trans
        (owned other inSpare.2)
    · rintro other ⟨⟩
      exact List.mem_cons_self
  · rw [if_neg current] at ran
    cases ran
    refine ⟨world.2, inv, Guarantee.refl _ _ _, ⟨owned, held⟩, ?_⟩
    intro other leads
    exact inv.iterator_next held leads

/-- `insert_after` keeps the protocol and links its node. -/
theorem insertAfter_triple
    {node : A}
    (mine : node ∈ spare)
    (distinct : spare.Nodup)
    (anchor : Iterator A) :
    Triple (protocol A eraser) thread
      ((owns spare).and
        (.all fun cell : {cell // cell ∈ anchor} => parked cell.1))
      (insertAfter anchor node)
      fun result =>
        if result then
          (owns (spare.erase node)).and (reaches (some node))
        else
          owns spare := by
  cases anchor with
  | none =>
      exact Triple.pure fun _ _ known => known.1
  | some anchor =>
      refine Triple.bind
        ((loadNext_triple spare anchor).weaken fun _ _ known =>
          ⟨known.1, known.2 ⟨anchor, rfl⟩⟩)
        fun first => ?_
      refine Triple.bind (storeNext_triple mine first) fun _ => ?_
      refine Triple.loop
        (fun word => ?_ : ∀ word, Triple (protocol A eraser) thread
          ((((owns spare).and (parked anchor)).and (reaches word)).and
            (prepared node word)) _ _)
      refine Triple.bind (link_triple mine distinct word) fun outcome => ?_
      rcases outcome with ⟨_ | _, refreshed⟩
      · exact Triple.bind (storeNext_triple mine refreshed) fun _ =>
          Triple.ret fun _ _ known => known
      · exact Triple.ret fun _ _ known => known

/-- The eraser loads the successor of its target. -/
theorem loadTargetNext_triple
    (isEraser : thread = eraser)
    (target : A) :
    Triple (protocol A eraser) thread
      (((owns spare).and (parked anchor)).and (reaches (some target)))
      (loadTargetNext target)
      fun next =>
        (((owns spare).and (parked anchor)).and (reaches next)).and
          (examining isEraser target next) := by
  apply Triple.atomic
  intro world choice value shared inv known ran
  cases ran
  have linked := known.2 target rfl
  refine ⟨world.2, inv.examine linked, ?_, ⟨known.1, ?_⟩, rfl⟩
  · exact
      { events := List.suffix_cons _ _
        iterators := fun member => member
        target := fun other => absurd isEraser other
        owned := fun _ mine => ⟨mine, rfl⟩ }
  · intro node leads
    refine inv.next (fun other same => ?_) leads
    cases same
    exact linked

/-- The compare-and-swap of an erasure. -/
theorem unlink_triple
    (isEraser : thread = eraser)
    (target : A)
    (next : Option A) :
    Triple (protocol A eraser) thread
      ((((owns spare).and (parked anchor)).and (reaches next)).and
        (examining isEraser target next))
      (compareExchange anchor (some target) next (.unlinked anchor target))
      fun outcome =>
        ((owns spare).and (parked anchor)).and
          (if outcome.1 then .pure True else reaches outcome.2) := by
  apply Triple.atomic
  intro world choice value shared inv known ran
  obtain ⟨⟨⟨owned, held⟩, reached⟩, examined⟩ := known
  by_cases current : world.1.next anchor = some target
  · rw [if_pos current] at ran
    cases ran
    refine ⟨world.2, inv.unlink held current examined reached, ?_,
      ⟨owned, held⟩, trivial⟩
    refine
      { events := List.suffix_cons _ _
        iterators := fun member => member
        target := fun other => absurd isEraser other
        owned := fun different mine => ⟨mine, ?_⟩ }
    refine Function.update_of_ne (fun same => ?_) _ _
    have linked := inv.iterator_linked held same.symm
    exact (inv.owned mine).2 linked
  · rw [if_neg current] at ran
    cases ran
    refine ⟨world.2, inv, Guarantee.refl _ _ _, ⟨owned, held⟩, ?_⟩
    intro other leads
    exact inv.iterator_next held leads

/-- `erase_after` keeps the protocol. -/
theorem eraseAfter_triple
    (isEraser : thread = eraser)
    (anchor : Iterator A) :
    Triple (protocol A eraser) thread
      ((owns spare).and
        (.all fun cell : {cell // cell ∈ anchor} => parked cell.1))
      (eraseAfter anchor)
      fun _ => owns spare := by
  cases anchor with
  | none =>
      exact Triple.pure fun _ _ known => known.1
  | some anchor =>
      refine Triple.bind
        ((loadNext_triple spare anchor).weaken fun _ _ known =>
          ⟨known.1, known.2 ⟨anchor, rfl⟩⟩)
        fun first => ?_
      refine Triple.loop
        (fun target => ?_ : ∀ target, Triple (protocol A eraser) thread
          (((owns spare).and (parked anchor)).and (reaches target)) _ _)
      cases target with
      | none =>
          exact Triple.ret fun _ _ known => known.1.1
      | some target =>
          refine Triple.bind (loadTargetNext_triple isEraser target)
            fun next => ?_
          refine Triple.bind (unlink_triple isEraser target next)
            fun outcome => ?_
          rcases outcome with ⟨_ | _, refreshed⟩
          · exact Triple.ret fun _ _ known => known
          · exact Triple.ret fun _ _ known => known.1.1

/-- The note of what a call returned. -/
theorem record_triple
    {event : Event A T}
    (silent :
      ∀ events : List (Event A T),
        fate (event :: events) = fate events ∧
          linkedNodes (event :: events) = linkedNodes events ∧
          unlinkedNodes (event :: events) = unlinkedNodes events ∧
          (Orderly (event :: events) → Orderly events))
    (word : Option A)
    (names :
      ∀ {owner node}, event = .inserted owner node true → word = some node) :
    Triple (protocol A eraser) thread ((owns spare).and (reaches word))
      (record event) fun _ => owns spare := by
  apply Triple.atomic
  intro world choice value shared inv known ran
  cases ran
  refine ⟨world.2, inv.note silent fun isInsert => ?_, ?_, known.1⟩
  · exact known.2 _ (names isInsert)
  · exact
      { events := List.suffix_cons _ _
        iterators := fun member => member
        target := fun _ => congrArg Fate.target (silent _).1
        owned := fun _ mine => ⟨mine, rfl⟩ }

/-- A new node belongs to the thread that made it. -/
theorem makeNode_triple :
    Triple (protocol A eraser) thread
      ((Assertion.pure spare.Nodup).and (owns spare))
      makeNode
      fun node =>
        (Assertion.pure (node :: spare).Nodup).and
          (owns (node :: spare)) := by
  apply Triple.atomic
  intro world choice made shared inv known ran
  obtain ⟨distinct, owned⟩ := known
  cases choice with
  | proceed =>
      cases ran
  | call call =>
      cases ran
  | fresh node =>
      simp only at ran
      split_ifs at ran with used
      cases ran
      have unowned : ∀ owner, world.2 made ≠ some owner :=
        fun owner mine => used (inv.owned mine).1
      refine ⟨Function.update world.2 made (some thread), ?_, ?_, ?_, ?_⟩
      · refine inv.beside rfl (fun member => List.mem_cons_of_mem _ member)
          ?_ inv.iterators fun cell isLinked => ?_
        · intro other owner mine
          by_cases same : other = made
          · subst same
            exact ⟨List.mem_cons_self,
              fun linked => used (inv.created linked)⟩
          · rw [Function.update_of_ne same] at mine
            exact ⟨List.mem_cons_of_mem _ (inv.owned mine).1,
              (inv.owned mine).2⟩
        · refine Function.update_of_ne (fun same => ?_) _ _
          exact used (inv.created (isLinked made same))
      · refine
          { events := List.suffix_refl _
            iterators := fun member => member
            target := fun _ => rfl
            owned := ?_ }
        intro other owner _ mine
        have apart : other ≠ made := by
          rintro rfl
          exact unowned owner mine
        refine ⟨(Function.update_of_ne apart _ _).trans mine, ?_⟩
        refine Function.update_of_ne (fun same => apart ?_) _ _
        cases same
        rfl
      · refine List.nodup_cons.mpr ⟨fun member => ?_, distinct⟩
        exact unowned thread (owned made member)
      · intro other member
        by_cases same : other = made
        · subst same
          exact Function.update_self ..
        · rcases List.mem_cons.mp member with isNew | member
          · exact absurd isNew same
          · exact (Function.update_of_ne same _ _).trans
              (owned other member)

/-- A new iterator is parked on the head or on a linked node. -/
theorem iterator_triple
    {extra : Assertion (protocol A eraser) thread}
    {update : State A T → State A T}
    (adds :
      ∀ {world : State A T × Ghost A T},
        Invariant world →
        extra.holds world →
        update world.1 = world.1 ∨
          ∃ cell : Cell Unit A,
            (∀ node, cell = .node node →
              node ∈ linkedNodes world.1.events) ∧
            update world.1 =
              { world.1 with
                iterators := cell :: world.1.iterators }) :
    Triple (protocol A eraser) thread ((owns spare).and extra)
      (Prog.write update : Program A T Unit) fun _ => owns spare := by
  apply Triple.atomic
  intro world choice value shared inv known ran
  cases ran
  rcases adds inv known.2 with same | ⟨cell, linked, shape⟩
  · rw [same]
    exact ⟨world.2, inv, Guarantee.refl _ _ _, known.1⟩
  · rw [shape]
    refine ⟨world.2, ?_, ?_, known.1⟩
    · refine inv.beside rfl (fun member => member) inv.owned ?_
        fun _ _ => rfl
      intro node member
      rcases List.mem_cons.mp member with same | member
      · exact linked node same.symm
      · exact inv.iterators member
    · exact
        { events := List.suffix_refl _
          iterators := fun member => List.mem_cons_of_mem _ member
          target := fun _ => rfl
          owned := fun _ mine => ⟨mine, rfl⟩ }

variable [DecidableEq T]

/-- What a client thread owns between its calls. -/
def idle
    (spare : List A) :
    Assertion (protocol A eraser) thread :=
  (Assertion.pure spare.Nodup).and (owns spare)

/-- What is known of the arguments of a call. -/
def called
    (spare : List A) :
    Call A → Assertion (protocol A eraser) thread
  | .makeNode => idle spare
  | .beforeBegin => idle spare
  | .increment position =>
      (Assertion.pure spare.Nodup).and ((owns spare).and (parked position))
  | .insertAfter anchor newNode =>
      (Assertion.pure (newNode ∈ spare ∧ spare.Nodup)).and
        ((owns spare).and
          (.all fun cell : {cell // cell ∈ anchor} => parked cell.1))
  | .eraseAfter anchor =>
      (Assertion.pure (thread = eraser ∧ spare.Nodup)).and
        ((owns spare).and
          (.all fun cell : {cell // cell ∈ anchor} => parked cell.1))

omit [DecidableEq T] in
variable (spare) in
/-- `before_begin()`. -/
theorem beforeBegin_triple :
    Triple (protocol A eraser) thread (owns spare)
      (beforeBegin : Program A T Unit) fun _ => owns spare := by
  refine Triple.weaken
    (iterator_triple
      (fun _ (_ : (Assertion.pure True).holds _) => .inr ?_))
    fun _ _ owned => ⟨owned, trivial⟩
  exact ⟨.root (), fun _ same => (by cases same), rfl⟩

omit [DecidableEq T] in
variable (spare) in
/-- `++it`. -/
theorem increment_triple
    (position : Cell Unit A) :
    Triple (protocol A eraser) thread ((owns spare).and (parked position))
      (increment position : Program A T Unit) fun _ => owns spare := by
  refine iterator_triple fun {world} inv held => ?_
  cases leads : world.1.next position with
  | none =>
      exact .inl rfl
  | some node =>
      refine .inr ⟨.node node, fun other same => ?_, rfl⟩
      cases same
      exact inv.iterator_next held leads

/-- A client makes only calls that it may make. -/
theorem pick_triple :
    Triple (protocol A eraser) thread (idle spare)
      (pick eraser thread spare) (called spare) := by
  apply Triple.atomic
  intro world choice value shared inv known ran
  cases choice with
  | proceed =>
      cases ran
  | fresh node =>
      cases ran
  | call call =>
      simp only at ran
      split_ifs at ran with allowed
      cases ran
      refine ⟨world.2, inv, Guarantee.refl _ _ _, ?_⟩
      cases value with
      | makeNode =>
          exact known
      | beforeBegin =>
          exact known
      | increment position =>
          exact ⟨known.1, known.2, allowed⟩
      | insertAfter anchor newNode =>
          exact ⟨⟨allowed.2, known.1⟩, known.2,
            fun cell => allowed.1 cell.1 cell.2⟩
      | eraseAfter anchor =>
          exact ⟨⟨allowed.1, known.1⟩, known.2,
            fun cell => allowed.2 cell.1 cell.2⟩

/-- A client thread keeps the protocol. -/
theorem client_triple :
    Triple (protocol A eraser) thread (idle [])
      (client eraser thread) fun _ => .pure True := by
  refine Triple.loop
    (fun spare => ?_ : ∀ spare : List A,
      Triple (protocol A eraser) thread (idle spare) _ _)
  refine Triple.bind pick_triple fun call => ?_
  cases call with
  | makeNode =>
      exact Triple.bind makeNode_triple fun node =>
        Triple.ret fun _ _ known => known
  | beforeBegin =>
      refine Triple.given fun distinct => ?_
      refine Triple.bind
        ((beforeBegin_triple spare).weaken fun _ _ owned => owned)
        fun _ => ?_
      exact Triple.ret fun _ _ known => ⟨distinct, known⟩
  | increment position =>
      refine Triple.given fun distinct => ?_
      refine Triple.bind (increment_triple spare position) fun _ => ?_
      exact Triple.ret fun _ _ known => ⟨distinct, known⟩
  | insertAfter anchor newNode =>
      refine Triple.given fun ⟨mine, distinct⟩ => ?_
      refine Triple.bind (insertAfter_triple mine distinct anchor)
        fun result => ?_
      cases result with
      | false =>
          refine Triple.bind
            ((record_triple (fun _ => ⟨rfl, rfl, rfl, id⟩) none
              (fun noInsert => by cases noInsert)).weaken
              fun _ _ owned => ⟨owned, fun _ none => nomatch none⟩)
            fun _ => ?_
          exact Triple.ret fun _ _ known => ⟨distinct, known⟩
      | true =>
          refine Triple.bind
            (record_triple (fun _ => ⟨rfl, rfl, rfl, id⟩) (some newNode)
              (fun isInsert => by cases isInsert; rfl))
            fun _ => ?_
          exact Triple.ret fun _ _ known =>
            ⟨distinct.erase newNode, known⟩
  | eraseAfter anchor =>
      refine Triple.given fun ⟨isEraser, distinct⟩ => ?_
      refine Triple.bind (eraseAfter_triple isEraser anchor)
        fun result => ?_
      refine Triple.bind
        ((record_triple (fun _ => ⟨rfl, rfl, rfl, id⟩) none
          (fun noInsert => by cases noInsert)).weaken
          fun _ _ owned => ⟨owned, fun _ none => nomatch none⟩)
        fun _ => ?_
      exact Triple.ret fun _ _ known => ⟨distinct, known⟩

end Assertions

section Runs

variable [DecidableEq T]

omit [DecidableEq A] [DecidableEq T] in
theorem initial_inv
    [DecidableEq A] :
    Invariant (State.initial, (fun _ => none : Ghost A T)) where
  created member := by cases member
  owned known := by cases known
  iterators member := by cases member
  next _ leads := by cases leads
  unlinked member := by cases member
  target examined := by cases examined
  behind member := by cases member
  cutOff member := by cases member
  inserted member := by cases member
  chain _ :=
    ⟨[], rfl, List.nodup_nil, fun node => by simp [State.initial, linkedNodes],
      fun examined => by cases examined⟩

/-- Every reachable state satisfies the invariant. -/
theorem reachable_inv
    {eraser : T}
    {pool : Pool (State A T) (Choice A) T}
    (reached : (initialPool eraser).Reaches pool) :
    ∃ ghost, Invariant (pool.shared, ghost) := by
  have covered :
      ∀ fuel,
        Covered (protocol A eraser) fuel (initialPool eraser)
          fun _ => none :=
    covered_of_triples initial_inv
      (fun thread =>
        show (idle [] : Assertion (protocol A eraser) thread).holds _ from
          ⟨List.nodup_nil, fun _ member => nomatch member⟩)
      fun _ => client_triple
  obtain ⟨needed, covers⟩ := Covered.reaches reached
  obtain ⟨ghost, last, -⟩ := covers (covered (0 + needed))
  exact ⟨ghost, last.1⟩

/--
With one eraser, any number of inserting threads and any schedule in which no
insertion takes effect behind an erased node and no erasure behind a node
that is off the chain, the chain holds every node that was inserted and
neither erased nor cut off, once, and no erased node.
-/
theorem single_eraser_keeps_chain
    {eraser : T}
    {pool : Pool (State A T) (Choice A) T}
    (reached : (initialPool eraser).Reaches pool)
    (inserts : InsertsIntact pool.shared.events)
    (erases : ErasesAttached pool.shared.events) :
    ∃ chain,
      Path pool.shared.next (.root ()) chain ∧ chain.Nodup ∧
        (∀ {thread node},
          .inserted thread node true ∈ pool.shared.events →
          node ∉ unlinkedNodes pool.shared.events →
          node ∉ (fate pool.shared.events).cutOff →
          node ∈ chain) ∧
        ∀ {node},
          node ∈ unlinkedNodes pool.shared.events → node ∉ chain := by
  obtain ⟨ghost, inv⟩ := reachable_inv reached
  obtain ⟨chain, chained⟩ := inv.chain ⟨inserts, erases⟩
  refine ⟨chain, chained.path, chained.noDuplicates, ?_, ?_⟩
  · intro thread node inserted intact aboard
    exact (chained.members node).mpr
      ⟨inv.inserted inserted, intact, aboard⟩
  · intro node erased member
    exact ((chained.members node).mp member).2.1 erased

/-- Steps of one of two threads; the eraser is `true`. -/
def steps
    (thread : Bool)
    (choices : List (Choice Nat)) :
    List (Bool × Choice Nat) :=
  choices.map fun choice => (thread, choice)

/-- A client inserts a new node behind the head and parks an iterator on it. -/
def insertFirst : List (Choice Nat) :=
  [Choice.proceed, .call .beforeBegin, .proceed, .proceed, .call .makeNode,
    .fresh 1, .proceed, .call (.insertAfter (some (.root ())) 1)] ++
    List.replicate 6 Choice.proceed ++
    [Choice.call (.increment (.root ())), .proceed, .proceed]

/-- It makes another node and inserts it behind the first. -/
def insertSecond : List (Choice Nat) :=
  [Choice.call .makeNode, .fresh 2, .proceed,
    .call (.insertAfter (some (.node 1)) 2)] ++
    List.replicate 6 Choice.proceed

/-- The eraser examines the first node; then a node is inserted behind it. -/
def insertBehindTarget : List (Bool × Choice Nat) :=
  steps false insertFirst ++
    steps true
      [.proceed, .call (.eraseAfter (some (.root ()))), .proceed, .proceed,
        .proceed] ++
    steps false insertSecond ++ steps true [.proceed, .proceed]

/-- What `insertBehindTarget` leaves behind. -/
def targetEvents : List (Event Nat Bool) :=
  [.erased true true, .unlinked (.root ()) 1, .inserted false 2 true,
    .linked (.node 1) 2, .examined 1 none, .inserted false 1 true,
    .linked (.root ()) 1]

theorem insertBehindTarget_runs :
    ∃ pool : Pool (State Nat Bool) (Choice Nat) Bool,
      (initialPool true).run insertBehindTarget = some pool ∧
        pool.shared.events = targetEvents ∧
        pool.shared.next (.root ()) = none := by
  obtain ⟨pool, ran, seen⟩ :=
    Pool.run_seen
      (fun state : State Nat Bool => (state.events, state.next (.root ())))
      (show ((initialPool true).run insertBehindTarget).map _ =
          some (targetEvents, none) by decide +kernel)
  simp only [Prod.mk.injEq] at seen
  exact ⟨pool, ran, seen.1, seen.2⟩

theorem targetEvents_orderly : Orderly targetEvents := by
  simp [Orderly, targetEvents, InsertsIntact, ErasesAttached, Intact,
    unlinkedNodes, Fate.Adrift]

/-- A node that was inserted behind the target is cut off with it. -/
theorem single_eraser_keeps_chain_but_cutOff :
    ∃ (pool : Pool (State Nat Bool) (Choice Nat) Bool)
      (chain : List Nat),
      (initialPool true).run insertBehindTarget = some pool ∧
        InsertsIntact pool.shared.events ∧
        ErasesAttached pool.shared.events ∧
        2 ∈ (fate pool.shared.events).cutOff ∧
        1 ∈ unlinkedNodes pool.shared.events ∧
        Path pool.shared.next (.root ()) chain ∧ 1 ∉ chain := by
  obtain ⟨pool, ran, events, -⟩ := insertBehindTarget_runs
  have orderly : Orderly pool.shared.events := events ▸ targetEvents_orderly
  have erased : 1 ∈ unlinkedNodes pool.shared.events := by
    rw [events]
    decide
  obtain ⟨chain, path, -, -, absent⟩ :=
    single_eraser_keeps_chain ⟨_, ran⟩ orderly.1 orderly.2
  refine ⟨pool, chain, ran, orderly.1, orderly.2, ?_, erased, path,
    absent erased⟩
  rw [events]
  decide

/-- The eraser erases the first node and then the node behind it. -/
def eraseBehindErased : List (Bool × Choice Nat) :=
  steps true
    (insertFirst ++ insertSecond ++
      [Choice.call (.eraseAfter (some (.root ())))] ++
      List.replicate 6 Choice.proceed ++
      [Choice.call (.eraseAfter (some (.node 1)))] ++
      List.replicate 6 Choice.proceed)

/-- What `eraseBehindErased` leaves behind. -/
def erasedEvents : List (Event Nat Bool) :=
  [.erased true true, .unlinked (.node 1) 2, .examined 2 none,
    .erased true true, .unlinked (.root ()) 1, .examined 1 (some 2),
    .inserted true 2 true, .linked (.node 1) 2, .inserted true 1 true,
    .linked (.root ()) 1]

/--
One eraser is not enough.  A node whose insertion behind an unerased node has
returned `true` is lost although no erasure has removed it, and an erasure
behind an erased node returns `true` while its target stays on the chain.
-/
theorem single_eraser_loses_nodes :
    (∃ pool : Pool (State Nat Bool) (Choice Nat) Bool,
      (initialPool true).run insertBehindTarget = some pool ∧
        InsertsIntact pool.shared.events ∧
        .inserted false 2 true ∈ pool.shared.events ∧
        2 ∉ unlinkedNodes pool.shared.events ∧
        ∀ chain, Path pool.shared.next (.root ()) chain → 2 ∉ chain) ∧
      ∃ pool : Pool (State Nat Bool) (Choice Nat) Bool,
        (initialPool true).run eraseBehindErased = some pool ∧
          InsertsIntact pool.shared.events ∧
          pool.shared.events = erasedEvents ∧
          2 ∈ unlinkedNodes pool.shared.events ∧
          Path pool.shared.next (.root ()) [2] := by
  constructor
  · obtain ⟨pool, ran, events, empty⟩ := insertBehindTarget_runs
    refine ⟨pool, ran, events ▸ targetEvents_orderly.1, ?_, ?_, ?_⟩
    · rw [events]
      decide
    · rw [events]
      decide
    · intro chain path
      rw [path.unique (show Path _ (.root ()) [] from empty)]
      exact List.not_mem_nil
  · obtain ⟨pool, ran, seen⟩ :=
      Pool.run_seen
        (fun state : State Nat Bool =>
          (state.events, state.next (.root ()), state.next (.node 2)))
        (show ((initialPool true).run eraseBehindErased).map _ =
            some (erasedEvents, some 2, none) by decide +kernel)
    simp only [Prod.mk.injEq] at seen
    refine ⟨pool, ran, ?_, seen.1, ?_, seen.2.1, seen.2.2⟩
    · rw [seen.1]
      simp [erasedEvents, InsertsIntact, Intact, unlinkedNodes]
    · rw [seen.1]
      decide

end Runs

end ConcurrentCpp.UnmarkedList
