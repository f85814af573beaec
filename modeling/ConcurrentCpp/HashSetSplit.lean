import ConcurrentCpp.HashSetAllocation

namespace ConcurrentCpp.HashSet

/-!
# Splits

A split seals the parent, freezes and copies what the snapshot of its chain
holds for the child, and publishes the copies unless somebody else has
published the child before.  Whatever throws on the way, the copies end in
limbo and the thread has in its hands what it had before.
-/

variable {K T : Type} [DecidableEq K] [DecidableEq T]
variable {config : Config K T} {thread : T}

section Cursors

omit [DecidableEq T] in
/-- A published bucket leads to a node of its chain. -/
theorem cursorAt_root
    {world : State K T × Ghost T}
    (table :
      (tableOf world).Sound config.hash config.allowDelete
        config.capacity.log2)
    {bucket : Nat}
    (published : world.1.published bucket = true) :
    CursorAt bucket (world.1.buckets bucket).address.first world := by
  intro node leads
  have linked :=
    table.forest.root_next ((root_links published).trans leads)
  simpa [tableOf] using linked

omit [DecidableEq T] in
/-- A node of a chain leads to a node of the chain. -/
theorem cursorAt_next
    {world : State K T × Ghost T}
    (table :
      (tableOf world).Sound config.hash config.allowDelete
        config.capacity.log2)
    {bucket : Nat}
    {node : Slot}
    (chained : world.2.stage node = .chained bucket) :
    CursorAt bucket (world.1.link node).next world := by
  intro next leads
  have place : (tableOf world).forest.place node = .linked bucket := by
    simpa [tableOf] using chained
  have linked := table.forest.linked_next place leads
  simpa [tableOf] using linked

end Cursors

section Seal

variable {hands : Hands K} {child : Nat}

/-- The child can be split off its parent. -/
def ready
    (child : Nat) :
    Fact config thread where
  holds world :=
    child ≠ 0 ∧ world.1.published (parentOf child) = true ∧
      child < 2 ^ world.1.tableSize.log2
  keeps _ _ steps _ known :=
    ⟨known.1, steps.table.published known.2.1,
      Nat.lt_of_lt_of_le known.2.2
        (Nat.pow_le_pow_right (by decide) steps.table.bits)⟩

/-- A splitter has come to the cursor with these copies. -/
def copying
    (child : Nat)
    (copies : List K)
    (cursor : Option Slot) :
    Fact config thread where
  holds := Copying config child copies cursor
  keeps _ invAfter steps _ known := known.step invAfter steps

/-- If the head was sealed when it was read, it is a snapshot. -/
def snapshotOf
    (child : Nat)
    (head : Head) :
    Fact config thread where
  holds world :=
    child.log2 + 1 ≤ head.level →
      Copying config child [] head.address.first world
  keeps _ invAfter steps _ known enough :=
    (known enough).step invAfter steps

/-- A head of the parent is a snapshot if it is sealed. -/
theorem snapshot_now
    {world : State K T × Ghost T}
    (inv : Invariant config world)
    (positive : child ≠ 0)
    (published : world.1.published (parentOf child) = true)
    (inTable : child < 2 ^ world.1.tableSize.log2)
    (enough :
      child.log2 + 1 ≤ (world.1.buckets (parentOf child)).level) :
    Copying config child []
      (world.1.buckets (parentOf child)).address.first world where
  sealedFor :=
    { positive := positive
      parent := published
      level := by rwa [level_of_published published]
      inTable := inTable }
  cursorAt := cursorAt_root inv.table published
  splitting := by
    rw [← root_links published]
    exact SplitTable.Splitting.start inv.table
  distinct _ := List.nodup_nil

theorem level_of_split
    (positive : child ≠ 0) :
    levelFor (bitFloor child * 2) = child.log2 + 1 := by
  simp only [levelFor, bitFloor, positive, ↓reduceIte]
  rw [← Nat.pow_succ, Nat.log2_two_pow]

/-- The compare-and-swap that seals finds a head either way. -/
theorem casSeal_triple
    (expected : Head)
    (low : expected.level < child.log2 + 1) :
    Triple (inner config thread) thread
      ((holding hands).and (ready child).claim)
      (casSeal (parentOf child) expected (child.log2 + 1) :
        Program K T (Bool × Head))
      fun outcome =>
        ((holding hands).and (ready child).claim).and
          (snapshotOf child outcome.2).claim := by
  refine Triple.atomic ?_
  rintro ⟨state, ghost⟩ choice ⟨won, found⟩ shared inv ⟨held, able⟩ ran
  obtain ⟨within, positive, published, inTable⟩ := able
  have lost :
      Lands (state, ghost) state
        (((holding hands).and (ready child).claim).and
          (snapshotOf child (state.buckets (parentOf child))).claim :
            Claim config thread) :=
    Lands.stay inv
      ⟨⟨held, within, positive, published, inTable⟩, within,
        fun enough => snapshot_now inv positive published inTable enough⟩
  have sealed_ :
      state.buckets (parentOf child) = expected →
      Lands (state, ghost)
        { state with
          buckets :=
            Function.update state.buckets (parentOf child)
              { expected with level := child.log2 + 1 } }
        (((holding hands).and (ready child).claim).and
          (snapshotOf child
            { expected with level := child.log2 + 1 }).claim :
            Claim config thread) := by
    intro same
    have higher :
        (state.buckets (parentOf child)).level ≤ child.log2 + 1 := by
      rw [same]
      omega
    have fits : child.log2 + 1 ≤ state.tableSize.log2 :=
      (Nat.log2_lt positive).mpr inTable
    have keeps := casSeal_keeps thread inv published higher fits
    rw [same] at keeps
    have guarantee :
        (inner config thread).Guar thread (state, ghost)
          ({ state with
              buckets :=
                Function.update state.buckets (parentOf child)
                  { expected with level := child.log2 + 1 } },
            ghost) :=
      silent_step keeps.2 rfl rfl
    have able :
        (ready child : Fact config thread).claim.holds
          ({ state with
              buckets :=
                Function.update state.buckets (parentOf child)
                  { expected with level := child.log2 + 1 } },
            ghost) :=
      (ready child).durable _ _ inv keeps.1 guarantee
        ⟨within, positive, published, inTable⟩
    refine ⟨ghost, keeps.1, guarantee, ⟨{ held with }, able⟩, within, ?_⟩
    intro _
    have snapshot :=
      snapshot_now keeps.1 able.2.1 able.2.2.1 able.2.2.2 (by simp)
    simpa using snapshot
  simp only at ran
  split at ran
  · cases ran
    exact lost
  · split at ran
    · cases ran
      exact sealed_ ‹_›
    · cases ran
      exact lost

/-- The seal loop ends with a snapshot of the parent. -/
theorem sealParent_triple
    (positive : child ≠ 0)
    (head : Head) :
    Triple (inner config thread) thread
      (((holding hands).and (ready child).claim).and
        (snapshotOf child head).claim)
      (sealParent (parentOf child) (levelFor (bitFloor child * 2)) head :
        Program K T Head)
      fun snapshot =>
        (holding hands).and
          (copying child [] snapshot.address.first).claim := by
  rw [level_of_split positive]
  refine Triple.loop
    (fun head => ?_ :
      ∀ head : Head,
        Triple (inner config thread) thread
          (((holding hands).and (ready child).claim).and
            (snapshotOf child head).claim) _ _)
  split
  case isTrue low =>
    refine Triple.bind
      (Triple.weaken (casSeal_triple head low)
        fun _ _ known => known.1) fun outcome => ?_
    exact Triple.ret fun _ _ known => known
  case isFalse high =>
    refine Triple.ret fun world _ known => ?_
    exact ⟨known.1.1, known.1.1.inside,
      known.2.2 (Nat.not_lt.mp high)⟩

end Seal

section Copy

variable {hands : Hands K} {child : Nat}

omit [DecidableEq K] in
/-- A step that writes no link of a private node. -/
theorem Holding.relink
    {state : State K T}
    {ghost : Ghost T}
    {link : Slot → Link}
    (held : Holding thread hands (state, ghost))
    (same : ∀ own ∈ hands.nodes, link own.slot = state.link own.slot) :
    Holding thread hands ({ state with link := link }, ghost) :=
  { held with
    linked := fun own member =>
      (same own member).trans (held.linked own member) }

/-- The word was read from a node of the bucket. -/
def seen
    (bucket : Nat)
    (node : Slot)
    (link : Link) :
    Fact config thread where
  holds := Seen bucket node link
  keeps _ _ steps _ known := known.step steps

/-- The node holds the key for good and can be copied. -/
def copyable
    (bucket : Nat)
    (node : Slot)
    (key : K) :
    Fact config thread where
  holds world :=
    world.2.stage node = .chained bucket ∧
      world.1.value node = some key ∧
      (world.1.link node).mark = false ∧
      (config.allowDelete = true → (world.1.link node).frozen = true)
  keeps {mover world after} _ invAfter steps _ known := by
    have stays := steps.chained known.1
    have present : (tableOf world).forest.place node ≠ .off := by
      simp [tableOf, known.1, Stage.place]
    have presentAfter : (tableOf after).forest.place node ≠ .off := by
      simp [tableOf, stays, Stage.place]
    have frozen :
        config.allowDelete = true →
        (after.1.link node).frozen = true :=
      fun deletes =>
        steps.table.frozen present presentAfter (known.2.2.2 deletes)
    refine ⟨stays, ?_, ?_, frozen⟩
    · rw [← known.2.1]
      exact steps.table.key present presentAfter
    · cases deletes : config.allowDelete with
      | false =>
          exact invAfter.table.unmarked deletes presentAfter
      | true =>
          exact invAfter.table.unmarked_of_frozen presentAfter
            (frozen deletes)

/-- The selection of `split_bucket` picks the keys that move to the child. -/
theorem selects_iff
    (positive : child ≠ 0)
    (hash : Nat) :
    hash &&& (bitFloor child * 2 - 1) = child ↔
      NextBucket hash (parentOf child) child := by
  have mask : bitFloor child * 2 = 2 ^ (child.log2 + 1) := by
    simp [bitFloor, positive, Nat.pow_succ]
  rw [mask, Nat.and_two_pow_sub_one_eq_mod]
  exact ⟨NextBucket.of_mod_eq positive, NextBucket.mod_eq⟩

/-- What is known when a node was frozen, or was marked before. -/
def frozenBy
    (bucket : Nat)
    (node : Slot)
    (key : K)
    (final : Link) :
    Claim config thread :=
  (seen bucket node final).claim.and
    (if final.mark then
      Assertion.pure True
    else
      (copyable bucket node key).claim)

variable (hands) in
/-- A node that moves to the child is frozen before it is copied. -/
theorem freezeNode_triple
    (copies : List K)
    (cursor : Option Slot)
    (node : Slot)
    {key : K}
    {link : Link}
    (moving : NextBucket (config.hash key) (parentOf child) child)
    (unmarked : link.mark = false) :
    Triple (inner config thread) thread
      ((holding hands).and
        (((copying child copies cursor).claim.and
          (holdsKey (parentOf child) node key).claim).and
            (seen (parentOf child) node link).claim))
      (freezeNode config node link : Program K T Link)
      fun final =>
        (holding hands).and (frozenBy (parentOf child) node key final) := by
  unfold freezeNode
  split
  case isFalse kept =>
    refine Triple.ret ?_
    rintro world inv ⟨held, ⟨_, _, chained, value⟩, within, word⟩
    refine ⟨held, ⟨within, word⟩, ?_⟩
    have present : (tableOf world).forest.place node ≠ .off := by
      simp [tableOf, chained, Stage.place]
    have frozen :
        config.allowDelete = true → (world.1.link node).frozen = true := by
      intro deletes
      refine word.frozen ?_
      by_contra unfrozen
      exact kept ⟨deletes, by simpa using unfrozen⟩
    simp only [unmarked, Bool.false_eq_true, ↓reduceIte]
    refine ⟨within, chained, value, ?_, frozen⟩
    cases deletes : config.allowDelete with
    | false =>
        exact inv.table.unmarked deletes present
    | true =>
        exact inv.table.unmarked_of_frozen present (frozen deletes)
  case isTrue needed =>
    obtain ⟨deletes, unfrozen⟩ := needed
    refine Triple.atomic ?_
    rintro ⟨state, ghost⟩ choice final shared inv
      ⟨held, ⟨⟨_, copies⟩, _, chained, value⟩, within, word⟩ ran
    simp only at ran
    split at ran
    case isTrue same =>
      cases ran
      have freezable :
          (tableOf (state, ghost)).Freezable config.hash
            (parentOf child) child node key :=
        { linked := by simpa [tableOf] using chained
          carries := ⟨value, by simp [tableOf, same, unmarked]⟩
          next := moving
          inTable := copies.sealedFor.inTable
          sealedFor := copies.sealedFor.level }
      have keeps := casFreeze_keeps thread inv freezable
      rw [same] at keeps
      refine ⟨ghost, keeps.1, silent_step keeps.2 rfl rfl, ?_⟩
      refine ⟨held.relink ?_, ⟨within, ?_⟩, ?_⟩
      · intro own member
        refine Function.update_of_ne ?_ _ _
        rintro rfl
        have owned := (held.owned _).mpr (List.mem_map_of_mem member)
        rw [chained] at owned
        cases owned
      · exact
          { chained := chained
            next := by simp
            mark := by simp
            frozen := by simp }
      · simp only [unmarked, Bool.false_eq_true, ↓reduceIte]
        exact ⟨within, chained, value, by simp,
          fun _ => by simp⟩
    case isFalse changed =>
      cases ran
      refine Lands.stay inv ⟨held, ⟨within, ?_⟩, ?_⟩
      · exact
          { chained := chained
            next := rfl
            mark := id
            frozen := id }
      · cases marked : (state.link node).mark with
        | true =>
            trivial
        | false =>
            refine ⟨within, chained, value, marked, fun _ => ?_⟩
            by_contra thawed
            refine changed ?_
            have next := word.next
            simp only [Bool.not_eq_true] at thawed
            simp only at next
            cases found : state.link node with
            | mk successor mark frozen =>
                cases link with
                | mk expected tag freeze =>
                    simp_all

/-- The ends of a private chain. -/
def subchainOf (copies : List (Private K)) : Subchain :=
  ⟨copies.head?.map Private.slot, copies.getLast?.map Private.slot⟩

omit [DecidableEq K] in
theorem subchainOf_push
    (copies : List (Private K))
    (own : Private K) :
    (subchainOf copies).push own.slot = subchainOf (own :: copies) := by
  cases copies with
  | nil =>
      rfl
  | cons first rest =>
      simp [subchainOf, Subchain.push, List.getLast?_cons]

/-- The thread has a private chain besides what it had. -/
def built
    (hands : Hands K)
    (copies : List (Private K))
    (subchain : Subchain) :
    Claim config thread :=
  (Assertion.pure (subchain = subchainOf copies ∧ Strung none copies)).and
    (holding (hands.having (copies ++ hands.nodes)))

/-- A splitter at its cursor, with the copies that it has made. -/
def walking
    (hands : Hands K)
    (child : Nat)
    (subchain : Subchain)
    (cursor : Option Slot) :
    Claim config thread :=
  .any fun copies : List (Private K) =>
    (built hands copies subchain).and
      (copying child (copies.map Private.value) cursor).claim

/-- A splitter after one node; if something threw it has what it had. -/
def passed
    (hands : Hands K)
    (child : Nat)
    (node : Slot)
    (subchain : Subchain) :
    Option (Subchain × Option Slot) → Claim config thread
  | none => walking hands child subchain (some node)
  | some (after, next) => walking hands child after next

/-- A cursor passes a node that is not copied. -/
theorem Copying.pass
    {world : State K T × Ghost T}
    (inv : Invariant config world)
    {copies : List K}
    {node : Slot}
    {link : Link}
    (known : Copying config child copies (some node) world)
    (word : Seen (parentOf child) node link world)
    (stays :
      ∀ {key},
        (tableOf world).Carries node key →
        ¬ NextBucket (config.hash key) (parentOf child) child) :
    Copying config child copies link.next world where
  sealedFor := known.sealedFor
  cursorAt := by
    rw [← word.next]
    exact cursorAt_next inv.table word.chained
  splitting := by
    rw [← word.next]
    exact known.splitting.pass stays
  distinct := known.distinct

/-- A cursor passes a node that was copied. -/
theorem Copying.copy
    {world : State K T × Ghost T}
    (inv : Invariant config world)
    {copies : List K}
    {node : Slot}
    {key : K}
    {link : Link}
    (known : Copying config child copies (some node) world)
    (word : Seen (parentOf child) node link world)
    (value : world.1.value node = some key)
    (unmarked : (world.1.link node).mark = false)
    (frozen :
      config.allowDelete = true → (world.1.link node).frozen = true)
    (moving : NextBucket (config.hash key) (parentOf child) child) :
    Copying config child (key :: copies) link.next world := by
  have linked :
      (tableOf world).forest.place node = .linked (parentOf child) := by
    simpa [tableOf] using word.chained
  have copied :=
    known.splitting.copy inv.table (.inl linked) ⟨value, unmarked⟩ moving
      frozen
  rw [← word.next]
  exact
    { sealedFor := known.sealedFor
      cursorAt := cursorAt_next inv.table word.chained
      splitting := copied.2
      distinct := fun hidden =>
        List.nodup_cons.mpr ⟨copied.1 hidden, known.distinct hidden⟩ }

/-- The key of a node and its hash, unless `Hash` threw. -/
def hashedAs
    (bucket : Nat)
    (node : Slot) :
    Option (K × Nat) → Claim config thread
  | none => .pure True
  | some (key, hash) =>
      (Assertion.pure (hash = config.hash key)).and
        (holdsKey bucket node key).claim

theorem hashValue_triple
    {known : Claim config thread}
    {bucket : Nat}
    {node : Slot}
    (chained :
      ∀ world,
        known.holds world →
        thread ∈ world.1.inside ∧ world.2.stage node = .chained bucket) :
    Triple (inner config thread) thread
      known
      (hashValue config node : Program K T (Option (K × Nat)))
      fun hashed => known.and (hashedAs bucket node hashed) := by
  refine Triple.atomic ?_
  rintro ⟨state, ghost⟩ choice hashed shared inv holds ran
  obtain ⟨within, onChain⟩ := chained _ holds
  simp only [Option.map_eq_some_iff] at ran
  obtain ⟨value, stored, shape⟩ := ran
  split at shape
  · cases shape
    exact Lands.stay inv ⟨holds, trivial⟩
  · cases shape
    exact Lands.stay inv ⟨holds, rfl, within, onChain, stored⟩

/-- A node that moves to the child is frozen and copied. -/
theorem copyMoving_triple
    (solvent : hands.owes = false)
    {node : Slot}
    {key : K}
    {link : Link}
    (copies : List (Private K))
    (strung : Strung none copies)
    (moving : NextBucket (config.hash key) (parentOf child) child)
    (unmarked : link.mark = false) :
    Triple (inner config thread) thread
      ((holding (hands.having (copies ++ hands.nodes))).and
        (((copying child (copies.map Private.value) (some node)).claim.and
          (holdsKey (parentOf child) node key).claim).and
            (seen (parentOf child) node link).claim))
      (do
        let final ← freezeNode config node link
        if final.mark then
          pure (some (subchainOf copies, final.next))
        else do
          let copied ←
            allocNode config thread key (subchainOf copies).head
          match copied with
          | none => pure none
          | some copy =>
              pure (some ((subchainOf copies).push copy, final.next)) :
        Program K T (Option (Subchain × Option Slot)))
      (passed hands child node (subchainOf copies)) := by
  have freeze : Triple (inner config thread) thread _ _ _ :=
    Triple.frame
      (copying child (copies.map Private.value) (some node)).durable
      (freezeNode_triple (hands.having (copies ++ hands.nodes))
        (copies.map Private.value) (some node) node moving unmarked)
  refine Triple.bind
    (Triple.weaken freeze fun _ _ known => ⟨known, known.2.1.1⟩)
    fun final => ?_
  split
  case isTrue marked =>
    refine Triple.ret fun world inv known => ?_
    obtain ⟨⟨held, word, -⟩, within, progress⟩ := known
    refine ⟨copies, ⟨⟨rfl, strung⟩, held⟩, within,
      progress.pass inv word.2 ?_⟩
    intro other carries
    exact absurd (word.2.mark marked) carries.not_marked
  case isFalse live =>
    have alloc : Triple (inner config thread) thread _ _ _ :=
      Triple.frame
        ((copying child (copies.map Private.value)
            (some node)).durable.and
          ((seen (parentOf child) node final).durable.and
            (copyable (parentOf child) node key).durable))
        (allocNode_triple (hands.having (copies ++ hands.nodes)) solvent
          key (subchainOf copies).head)
    refine Triple.bind (Triple.weaken alloc ?_) fun copied => ?_
    · rintro world inv ⟨⟨held, word, frozen⟩, progress⟩
      simp only [live] at frozen
      exact ⟨held, progress, word, frozen⟩
    cases copied with
    | none =>
        refine Triple.ret fun world inv known => ?_
        exact ⟨copies, ⟨⟨rfl, strung⟩, known.1⟩, known.2.1⟩
    | some copy =>
        refine Triple.ret fun world inv known => ?_
        obtain ⟨held, ⟨within, progress⟩, ⟨_, word⟩, _, _, value, bare,
          frozen⟩ := known
        refine ⟨⟨copy, (subchainOf copies).head, key⟩ :: copies,
          ⟨⟨subchainOf_push copies ⟨copy, _, key⟩, ?_, strung⟩, held⟩,
          within, progress.copy inv word value bare frozen moving⟩
        simp [subchainOf]

/-- One node of the parent is passed or copied. -/
theorem copyNode_triple
    (positive : child ≠ 0)
    (solvent : hands.owes = false)
    (node : Slot)
    (subchain : Subchain) :
    Triple (inner config thread) thread
      (walking hands child subchain (some node))
      (copyNode config thread child node subchain :
        Program K T (Option (Subchain × Option Slot)))
      (passed hands child node subchain) := by
  refine Triple.any fun copies => ?_
  have load :
      Triple (inner config thread) thread
        ((built hands copies subchain).and
          (copying child (copies.map Private.value) (some node)).claim)
        (loadLink node : Program K T Link)
        fun link =>
          ((built hands copies subchain).and
            (copying child (copies.map Private.value)
              (some node)).claim).and
            (seen (parentOf child) node link).claim := by
    refine Triple.read fun world _ known => ⟨known, known.2.1, ?_⟩
    exact
      { chained := known.2.2.cursorAt node rfl
        next := rfl
        mark := id
        frozen := id }
  refine Triple.bind load fun link => ?_
  split
  case isTrue marked =>
    refine Triple.ret fun world inv known => ?_
    refine ⟨copies, known.1.1, known.1.2.1,
      known.1.2.2.pass inv known.2.2 ?_⟩
    intro key carries
    exact absurd (known.2.2.mark marked) carries.not_marked
  case isFalse unmarked =>
    simp only [Bool.not_eq_true] at unmarked
    refine Triple.bind
      (hashValue_triple fun _ known => ⟨known.2.1, known.2.2.chained⟩)
      fun hashed => ?_
    cases hashed with
    | none =>
        exact Triple.ret fun _ _ known =>
          ⟨copies, known.1.1.1, known.1.1.2⟩
    | some found =>
        obtain ⟨key, hash⟩ := found
        simp only
        split
        case isTrue selected =>
          refine fun fuel world inv known => ?_
          obtain ⟨⟨⟨⟨⟨rfl, strung⟩, held⟩, progress⟩, word⟩, rfl, holds⟩ :=
            known
          exact copyMoving_triple solvent copies strung
            ((selects_iff positive _).mp selected) unmarked fuel world inv
            ⟨held, ⟨progress, holds⟩, word⟩
        case isFalse other =>
          refine Triple.ret fun world inv known => ?_
          obtain ⟨⟨⟨made, progress⟩, word⟩, rfl, holds⟩ := known
          refine ⟨copies, made, progress.1,
            progress.2.pass inv word.2 ?_⟩
          intro found carries moving
          have same : found = key :=
            Option.some.inj (carries.1.symm.trans holds.2.2)
          subst same
          exact other ((selects_iff positive _).mpr moving)

/-- The walk over the snapshot. -/
theorem copyChain_triple
    (positive : child ≠ 0)
    (solvent : hands.owes = false)
    (start : Option Slot) :
    Triple (inner config thread) thread
      ((holding hands).and (copying child [] start).claim)
      (copyChain config thread child start :
        Program K T (Subchain × Bool))
      fun copied =>
        .any fun cursor : Option Slot =>
          (Assertion.pure (copied.2 = true → cursor = none)).and
            (walking hands child copied.1 cursor) := by
  refine Triple.weaken
    (Triple.loop
      (fun walk => ?_ :
        ∀ walk : Subchain × Option Slot,
          Triple (inner config thread) thread
            (walking hands child walk.1 walk.2) _ _))
    fun world _ known => ⟨[], ⟨⟨rfl, trivial⟩, known.1⟩, known.2⟩
  obtain ⟨subchain, cursor⟩ := walk
  cases cursor with
  | none =>
      exact Triple.ret fun _ _ known => ⟨none, fun _ => rfl, known⟩
  | some node =>
      refine Triple.bind
        (copyNode_triple positive solvent node subchain) fun outcome => ?_
      cases outcome with
      | none =>
          refine Triple.ret fun _ _ known => ⟨some node, ?_, known⟩
          intro impossible
          cases impossible
      | some next =>
          exact Triple.ret fun _ _ known => known

/-- A chain that is not published goes to limbo. -/
theorem abandonSubchain_triple
    (copies : List (Private K))
    (strung : Strung none copies) :
    Triple (inner config thread) thread
      (holding (hands.having (copies ++ hands.nodes)))
      (abandonSubchain config thread (subchainOf copies) :
        Program K T Unit)
      fun _ => holding hands := by
  rcases List.eq_nil_or_concat' copies with rfl | ⟨leading, last, rfl⟩
  · exact Triple.ret fun _ _ held => held
  · have first :
        ∃ first, (slotsOf (leading ++ [last])).head? = some first := by
      cases leading with
      | nil =>
          exact ⟨_, rfl⟩
      | cons own rest =>
          exact ⟨_, rfl⟩
    obtain ⟨first, begins⟩ := first
    have shape :
        subchainOf (leading ++ [last]) = ⟨some first, some last.slot⟩ := by
      simp only [slotsOf, List.head?_map] at begins
      simp only [subchainOf, begins, List.getLast?_concat, Option.map_some]
    have push :
        Triple (inner config thread) thread
          (holding (hands.having (leading ++ last :: hands.nodes)))
          (pushLimbo (config.myShard thread) first last.slot :
            Program K T Unit)
          fun _ => holding (hands.having hands.nodes) :=
      pushLimbo_triple (myShard_lt thread) leading begins strung
    rw [shape, List.append_assoc]
    exact push

end Copy

section Publish

variable {hands : Hands K} {child : Nat}

omit [DecidableEq K] in
/-- A private chain is a path. -/
theorem Holding.path
    {world : State K T × Ghost T}
    (held : Holding thread hands world)
    {copies : List (Private K)}
    (inHands : ∀ own ∈ copies, own ∈ hands.nodes)
    (strung : Strung none copies)
    {links : Links Nat Slot}
    {cell : Cell Nat Slot}
    (root : links cell = (slotsOf copies).head?)
    (nodes : ∀ slot, links (.node slot) = (world.1.link slot).next) :
    Path links cell (slotsOf copies) := by
  induction copies generalizing cell with
  | nil =>
      exact root
  | cons own rest inductionHypothesis =>
      refine ⟨root, inductionHypothesis ?_ strung.2 ?_⟩
      · exact fun other member =>
          inHands other (List.mem_cons_of_mem _ member)
      · rw [nodes, held.linked own (inHands own (by simp))]
        have next := strung.1
        change own.next = (slotsOf rest).head?
        simpa [slotsOf] using next

/-- A finished walk has copied what the child needs. -/
theorem splittable_of_walked
    {state : State K T}
    {ghost : Ghost T}
    (inv : Invariant config (state, ghost))
    {copies : List (Private K)}
    (held :
      Holding thread (hands.having (copies ++ hands.nodes)) (state, ghost))
    (strung : Strung none copies)
    (progress :
      Copying config child (copies.map Private.value) none (state, ghost))
    (hidden : (state.buckets child).address = .uninitialized) :
    (tableOf (state, ghost)).Splittable config.hash config.allowDelete
      child (slotsOf copies) := by
  have unpublished : state.published child = false := by
    simp [State.published, hidden]
  have inHands : ∀ own ∈ copies, own ∈ copies ++ hands.nodes :=
    fun own member => List.mem_append_left _ member
  have owned :
      ∀ slot ∈ slotsOf copies, ghost.stage slot = .owned thread := by
    intro slot member
    obtain ⟨own, isCopy, rfl⟩ := List.mem_map.mp member
    exact (held.owned _).mpr (List.mem_map_of_mem (inHands own isCopy))
  have finished := progress.splitting.finish unpublished
  have valued :
      ∀ own ∈ copies, state.value own.slot = some own.value :=
    fun own member => held.valued own (inHands own member)
  have distinct : (slotsOf copies).Nodup := by
    have known := held.distinct
    simp only [Hands.having, slotsOf, List.map_append] at known
    exact (List.nodup_append.mp known).1
  refine
    { positive := progress.sealedFor.positive
      unpublished := unpublished
      inTable := progress.sealedFor.inTable
      parent := progress.sealedFor.parent
      sealedFor := progress.sealedFor.level
      publishable :=
        { noChain := ?_
          unlinked := fun slot member => by
            simp [tableOf, owned slot member, Stage.place]
          noDuplicates := distinct
          path := held.path inHands strung (by simp) fun slot => by
            simp [tableOf, State.chainLinks] }
      live := ?_
      copied := ?_
      keyed := ?_
      distinct := ?_
      originals := fun deletes => finished.2 deletes }
  · intro node linked
    have published := (inv.table.within (.inl linked)).1
    rw [show (tableOf (state, ghost)).published child = false
      from unpublished] at published
    cases published
  · intro slot member
    exact (inv.nodes slot).bare (by simp [owned slot member])
  · intro key
    refine Iff.trans ?_ finished.1
    constructor
    · rintro ⟨slot, member, stored⟩
      obtain ⟨own, isCopy, rfl⟩ := List.mem_map.mp member
      have same : own.value = key :=
        Option.some.inj ((valued own isCopy).symm.trans stored)
      exact same ▸ List.mem_map_of_mem isCopy
    · intro member
      obtain ⟨own, isCopy, rfl⟩ := List.mem_map.mp member
      exact ⟨own.slot, List.mem_map_of_mem isCopy, valued own isCopy⟩
  · intro slot member
    obtain ⟨own, isCopy, rfl⟩ := List.mem_map.mp member
    simp [tableOf, valued own isCopy]
  · intro first second key memberFirst memberSecond storedFirst storedSecond
    obtain ⟨ownFirst, isFirst, rfl⟩ := List.mem_map.mp memberFirst
    obtain ⟨ownSecond, isSecond, rfl⟩ := List.mem_map.mp memberSecond
    have same : ownFirst.value = ownSecond.value :=
      Option.some.inj
        ((valued ownFirst isFirst).symm.trans
          ((storedFirst.trans storedSecond.symm).trans
            (valued ownSecond isSecond)))
    have keys := progress.distinct unpublished
    rw [List.inj_on_of_nodup_map keys isFirst isSecond same]

/-- A splitter publishes its copies or finds that another one was first. -/
theorem casPublish_triple
    {copies : List (Private K)}
    (strung : Strung none copies) :
    Triple (inner config thread) thread
      ((holding (hands.having (copies ++ hands.nodes))).and
        (copying child (copies.map Private.value) none).claim)
      (casPublish child (subchainOf copies).head : Program K T Bool)
      fun published =>
        (if published then
          holding hands
        else
          holding (hands.having (copies ++ hands.nodes))).and
            (publishedAt child).claim := by
  refine Triple.atomic ?_
  rintro ⟨state, ghost⟩ choice won shared inv ⟨held, within, progress⟩ ran
  simp only at ran
  split at ran
  case isFalse taken =>
    cases ran
    refine Lands.stay inv ⟨held, within, ?_⟩
    have small : child < state.tableSize := by
      rw [inv.size]
      exact progress.sealedFor.inTable
    refine published_iff.mpr ⟨small, fun hidden => taken ?_⟩
    have level := inv.unsealed small hidden
    cases word : state.buckets child with
    | mk address found =>
        simp only [word] at hidden level
        rw [hidden, level]
  case isTrue hidden =>
    cases ran
    have splittable :=
      splittable_of_walked inv held strung progress (by rw [hidden])
    have inHands : ∀ own ∈ copies, own ∈ copies ++ hands.nodes :=
      fun own member => List.mem_append_left _ member
    have owned :
        ∀ slot ∈ slotsOf copies, ghost.stage slot = .owned thread := by
      intro slot member
      obtain ⟨own, isCopy, rfl⟩ := List.mem_map.mp member
      exact (held.owned _).mpr (List.mem_map_of_mem (inHands own isCopy))
    have keeps := casPublish_keeps inv owned hidden splittable
    have head : (subchainOf copies).head = (slotsOf copies).head? := by
      simp [subchainOf, slotsOf]
    rw [head]
    refine ⟨_, keeps.1, silent_step keeps.2 rfl rfl, ?_, within, ?_⟩
    · have dropped :=
        held.drop
          (fun node =>
            if node ∈ slotsOf copies then
              .chained child
            else
              ghost.stage node)
          (fun slot member => by
            rw [if_pos member]
            simp)
          fun slot other => if_neg other
      exact { dropped with }
    · refine published_iff.mpr ⟨?_, ?_⟩
      · change child < state.tableSize
        rw [inv.size]
        exact progress.sealedFor.inTable
      · cases (slotsOf copies).head? <;> simp [Address.of]

/-- A split has published the child, or has thrown. -/
def splitDone
    (hands : Hands K)
    (child : Nat)
    (published : Bool) :
    Claim config thread :=
  (holding hands).and
    (if published then (publishedAt child).claim else .pure True)

/-- Copying a snapshot and publishing it. -/
theorem copyAndPublish_triple
    (positive : child ≠ 0)
    (solvent : hands.owes = false)
    (snapshot : Head) :
    Triple (inner config thread) thread
      ((holding hands).and
        (copying child [] snapshot.address.first).claim)
      (copyAndPublish config thread child snapshot : Program K T Bool)
      (splitDone hands child) := by
  refine Triple.bind (copyChain_triple positive solvent _) ?_
  rintro ⟨subchain, whole⟩
  refine Triple.any fun cursor => ?_
  refine Triple.given fun ended => ?_
  refine Triple.any fun copies => ?_
  refine fun fuel world inv known => ?_
  obtain ⟨⟨⟨rfl, strung⟩, held⟩, progress⟩ := known
  cases whole with
  | true =>
      cases ended rfl
      refine Triple.bind (casPublish_triple strung) (fun won => ?_)
        fuel world inv ⟨held, progress⟩
      cases won with
      | true =>
          exact Triple.ret fun _ _ known => known
      | false =>
          refine Triple.bind
            (Triple.frame (publishedAt child).durable
              (abandonSubchain_triple copies strung)) fun _ => ?_
          exact Triple.ret fun _ _ known => known
  | false =>
      refine Triple.bind (abandonSubchain_triple copies strung)
        (fun _ => ?_) fuel world inv held
      exact Triple.ret fun _ _ known => ⟨known, trivial⟩

/-- The bucket is in the table. -/
def inTableAt
    (bucket : Nat) :
    Fact config thread where
  holds world := bucket < 2 ^ world.1.tableSize.log2
  keeps _ _ steps _ known :=
    Nat.lt_of_lt_of_le known
      (Nat.pow_le_pow_right (by decide) steps.table.bits)

/-- A split whose parent is published. -/
theorem splitFrom_triple
    (positive : child ≠ 0)
    (solvent : hands.owes = false)
    (head : Head) :
    Triple (inner config thread) thread
      (((holding hands).and (ready child).claim).and
        (snapshotOf child head).claim)
      (splitFrom config thread child head : Program K T Bool)
      (splitDone hands child) := by
  refine Triple.bind (sealParent_triple positive head) fun snapshot => ?_
  exact copyAndPublish_triple positive solvent snapshot

/-- The head of a published parent is read. -/
theorem loadParent_triple
    (positive : child ≠ 0) :
    Triple (inner config thread) thread
      ((holding hands).and (inTableAt child).claim)
      (loadHead (parentOf child) : Program K T Head)
      fun head =>
        if head.address = .uninitialized then
          (holding hands).and (inTableAt child).claim
        else
          ((holding hands).and (ready child).claim).and
            (snapshotOf child head).claim := by
  refine Triple.read ?_
  rintro ⟨state, ghost⟩ inv ⟨held, within, inTable⟩
  simp only
  split
  case isTrue =>
    exact ⟨held, within, inTable⟩
  case isFalse visible =>
    have small : parentOf child < state.tableSize := by
      rw [inv.size]
      exact Nat.lt_trans (parentOf_lt positive) inTable
    have published : state.published (parentOf child) = true :=
      published_iff.mpr ⟨small, visible⟩
    exact ⟨⟨held, within, positive, published, inTable⟩, within,
      fun enough => snapshot_now inv positive published inTable enough⟩

/-- `split_bucket` publishes the child and leaves the hands as they were. -/
theorem splitBucket_triple
    (solvent : hands.owes = false)
    (depth : Nat) :
    Triple (inner config thread) thread
      ((holding hands).and (inTableAt child).claim)
      (splitBucket config thread depth child : Program K T Bool)
      (splitDone hands child) := by
  induction depth generalizing child with
  | zero =>
      refine Triple.atomic ?_
      intro _ _ _ _ _ _ ran
      cases ran
  | succ depth inductionHypothesis =>
      unfold splitBucket
      split
      case isTrue =>
        refine Triple.atomic ?_
        intro _ _ _ _ _ _ ran
        cases ran
      case isFalse positive =>
        refine Triple.bind (loadParent_triple positive) fun head => ?_
        split
        case isFalse =>
          exact splitFrom_triple positive solvent head
        case isTrue =>
          have parent :
              Triple (inner config thread) thread
                ((holding hands).and (inTableAt child).claim)
                (splitBucket config thread depth (parentOf child) :
                  Program K T Bool)
                fun ready =>
                  (splitDone hands (parentOf child) ready).and
                    (inTableAt child).claim := by
            refine Triple.weaken
              (Triple.frame (inTableAt child).durable inductionHypothesis)
              fun world _ known => ⟨⟨known.1, known.2.1, ?_⟩, known.2⟩
            exact Nat.lt_trans (parentOf_lt positive) known.2.2
          refine Triple.bind parent fun published => ?_
          cases published with
          | false =>
              exact Triple.ret fun _ _ known => known.1
          | true =>
              have load :
                  Triple (inner config thread) thread
                    ((splitDone hands (parentOf child) true).and
                      (inTableAt child).claim)
                    (loadHead (parentOf child) : Program K T Head)
                    fun head =>
                      ((holding hands).and (ready child).claim).and
                        (snapshotOf child head).claim := by
                refine Triple.read ?_
                rintro ⟨state, ghost⟩ inv
                  ⟨⟨held, _, published⟩, within, inTable⟩
                exact ⟨⟨held, within, positive, published, inTable⟩,
                  within, fun enough =>
                    snapshot_now inv positive published inTable enough⟩
              refine Triple.bind load fun head => ?_
              exact splitFrom_triple positive solvent head

end Publish

end ConcurrentCpp.HashSet
