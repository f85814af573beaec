import ConcurrentCpp.HashSetCalls

namespace ConcurrentCpp.HashSet

/-!
# Insertion and doubling

An insertion publishes its node with the head that it scanned, so the scan is
still right and the bucket has not been sealed for a larger table.  Only then
may the table double, and nothing that fails while it does is reported.
-/

variable {K T : Type} [DecidableEq K] [DecidableEq T]
variable {config : Config K T} {thread : T}

section Doubling

variable {hands : Hands K} {size : Nat}

/-- The hands with the lock. -/
def Hands.locked
    (hands : Hands K)
    (locks : Bool) :
    Hands K :=
  { hands with locks := locks }

/-- The holder of the lock has marked the buckets below the limit. -/
def guarding
    (hands : Hands K)
    (size limit : Nat) :
    Claim config thread where
  holds world :=
    Holding thread (hands.locked true) world ∧
      world.1.tableSize = size ∧
        ∀ bucket,
          size ≤ bucket →
          bucket < limit →
          world.1.buckets bucket = ⟨.uninitialized, 0⟩
  stable {other world after} different inv invAfter guarantee known := by
    obtain ⟨held, current, marked⟩ := known
    have steps := (steps_of_other different held.inside guarantee).1
    obtain ⟨sameSize, beyond⟩ :=
      steps.locked (Ne.symm different) (held.locks.mpr rfl)
    refine ⟨held.step different steps, sameSize.trans current, ?_⟩
    intro bucket large small
    rw [beyond bucket (current ▸ large)]
    exact marked bucket large small

theorem lockResize_triple :
    Triple (inner config thread) thread
      (holding hands)
      (lockResize : Program K T Unit)
      fun _ => holding (hands.locked true) := by
  refine Triple.atomic ?_
  rintro ⟨state, ghost⟩ choice value shared inv held ran
  simp only at ran
  split at ran
  case isTrue =>
    cases ran
  case isFalse unlocked =>
    cases ran
    have keeps := lockResize_keeps inv held.inside (by simpa using unlocked)
    exact ⟨_, keeps.1, silent_step keeps.2 rfl rfl,
      { held with locks := by simp [Hands.locked] }⟩

theorem unlockResize_triple :
    Triple (inner config thread) thread
      (holding (hands.locked true))
      (unlockResize : Program K T Unit)
      fun _ => holding (hands.locked false) := by
  refine Triple.atomic ?_
  rintro ⟨state, ghost⟩ choice value shared inv held ran
  cases ran
  have keeps := unlockResize_keeps inv (held.locks.mpr rfl)
  exact ⟨_, keeps.1, silent_step keeps.2 rfl rfl,
    { held with locks := by simp [Hands.locked] }⟩

/-- The store loop marks all new buckets. -/
theorem markBuckets_triple :
    Triple (inner config thread) thread
      (guarding hands size size)
      (markBuckets size : Program K T Unit)
      fun _ => guarding hands size (size * 2) := by
  refine Triple.weaken
    (Triple.loop
      (fun limit => ?_ :
        ∀ limit : Nat,
          Triple (inner config thread) thread
            ((Assertion.pure (size ≤ limit)).and
              (guarding hands size limit)) _ _))
    fun _ _ known => ⟨Nat.le_refl _, known⟩
  split
  case isFalse ended =>
    refine Triple.ret fun world _ known => ⟨known.2.1, known.2.2.1, ?_⟩
    intro bucket large small
    exact known.2.2.2 bucket large (by omega)
  case isTrue =>
    have mark :
        Triple (inner config thread) thread
          ((Assertion.pure (size ≤ limit)).and
            (guarding hands size limit))
          (Prog.write fun state =>
            { state with
              buckets :=
                Function.update state.buckets limit
                  ⟨.uninitialized, 0⟩ } :
            Program K T Unit)
          fun _ =>
            (Assertion.pure (size ≤ limit + 1)).and
              (guarding hands size (limit + 1)) := by
      refine Triple.atomic ?_
      rintro ⟨state, ghost⟩ choice value shared inv
        ⟨low, held, current, marked⟩ ran
      cases ran
      have outside : state.tableSize ≤ limit := current ▸ low
      have keeps :=
        markBucket_keeps inv (held.locks.mpr rfl) outside
      refine ⟨ghost, keeps.1, silent_step keeps.2 rfl rfl,
        Nat.le_succ_of_le low, { held with }, current, ?_⟩
      intro bucket large small
      by_cases same : bucket = limit
      · subst same
        exact Function.update_self _ _ _
      · exact (Function.update_of_ne same _ _).trans
          (marked bucket large (by omega))
    refine Triple.bind mark fun _ => ?_
    exact Triple.ret fun _ _ known => known

theorem storeSize_triple :
    Triple (inner config thread) thread
      (guarding hands size (size * 2))
      (Prog.write fun state => { state with tableSize := size * 2 } :
        Program K T Unit)
      fun _ => holding (hands.locked true) := by
  refine Triple.atomic ?_
  rintro ⟨state, ghost⟩ choice value shared inv ⟨held, current, marked⟩ ran
  cases ran
  subst current
  have keeps := storeSize_keeps inv (held.locks.mpr rfl) marked
  exact ⟨ghost, keeps.1, silent_step keeps.2 rfl rfl, { held with }⟩

variable (hands size) in
/-- A doubling gives the lock back, whether it was done or not. -/
theorem doubleTable_triple
    (free : hands.locks = false) :
    Triple (inner config thread) thread
      (holding hands)
      (doubleTable size : Program K T Unit)
      fun _ => holding hands := by
  have unlocked : hands.locked false = hands := by
    simp [Hands.locked, ← free]
  refine Triple.bind
    (Triple.read fun _ _ held => held :
      Triple (inner config thread) thread (holding hands) _
        fun _ => holding hands) fun count => ?_
  split
  case isFalse =>
    exact Triple.ret fun _ _ held => held
  case isTrue =>
    refine Triple.bind lockResize_triple fun _ => ?_
    have load :
        Triple (inner config thread) thread
          (holding (hands.locked true))
          (loadSize : Program K T Nat)
          fun current =>
            if current = size then
              guarding hands size size
            else
              holding (hands.locked true) := by
      refine Triple.read fun world _ held => ?_
      split
      case isTrue same =>
        refine ⟨held, same, ?_⟩
        intro bucket large small
        omega
      case isFalse =>
        exact held
    refine Triple.bind load fun current => ?_
    split
    case isFalse =>
      rw [← unlocked]
      exact unlockResize_triple
    case isTrue =>
      have resize :
          Triple (inner config thread) thread
            (guarding hands size size)
            (resizeBuckets : Program K T Bool)
            fun _ => guarding hands size size := by
        refine Triple.atomic ?_
        rintro ⟨state, ghost⟩ choice value shared inv known ran
        simp only at ran
        split at ran
        · cases ran
          exact Lands.stay inv known
        · cases ran
          exact Lands.stay inv known
      refine Triple.bind resize fun resized => ?_
      rw [← unlocked]
      split
      case isTrue =>
        refine Triple.bind
          (Triple.weaken markBuckets_triple fun _ _ known => known)
          fun _ => ?_
        refine Triple.bind storeSize_triple fun _ => ?_
        exact unlockResize_triple
      case isFalse =>
        exact Triple.weaken unlockResize_triple fun _ _ known => known.1

end Doubling

section Insert

variable {key : K} {bucket size : Nat} {nodes : List (Private K)}

/-- The hands of an insertion that has published nothing. -/
def Hands.inserting
    (key : K)
    (nodes : List (Private K)) :
    Hands K :=
  (Hands.empty (.insert key) false).having nodes

/-- The node that an insertion has kept from an earlier attempt. -/
def Pending
    (key : K)
    (pending : Option Slot)
    (nodes : List (Private K)) : Prop :=
  match pending with
  | none => nodes = []
  | some node => ∃ next, nodes = [⟨node, next, key⟩]

/-- The node of an insertion that will not be published goes to limbo. -/
theorem abandonNode_triple
    {pending : Option Slot}
    (kept : Pending key pending nodes) :
    Triple (inner config thread) thread
      (holding (.inserting key nodes))
      (abandonNode config thread pending : Program K T Unit)
      fun _ => holding (.inserting key []) := by
  cases pending with
  | none =>
      cases kept
      exact Triple.ret fun _ _ held => held
  | some node =>
      obtain ⟨next, rfl⟩ := kept
      exact pushLimbo_triple (myShard_lt thread) [] rfl ⟨rfl, trivial⟩

/-- A node to publish, unless the allocation threw. -/
def prepared
    (key : K)
    (next : Option Slot) :
    Option Slot → Claim config thread
  | none => holding (.inserting key [])
  | some node => holding (.inserting key [⟨node, next, key⟩])

theorem prepareNode_triple
    {pending : Option Slot}
    (kept : Pending key pending nodes)
    (next : Option Slot) :
    Triple (inner config thread) thread
      (holding (.inserting key nodes))
      (prepareNode config thread key pending next :
        Program K T (Option Slot))
      (prepared key next) := by
  cases pending with
  | none =>
      cases kept
      refine Triple.consequence
        (allocNode_triple (.inserting key []) rfl key next)
        fun result world _ held => ?_
      cases result with
      | none =>
          exact held
      | some node =>
          exact held
  | some node =>
      obtain ⟨old, rfl⟩ := kept
      refine Triple.bind
        (storeLink_triple [] [] ⟨node, old, key⟩ next) fun _ => ?_
      exact Triple.ret fun _ _ held => held

/-- A scan for the key from a head of its bucket. -/
def scanning
    (key : K)
    (bucket : Nat)
    (first cursor : Option Slot) :
    Fact config thread where
  holds := Scanning config thread key bucket first cursor
  keeps inv _ steps continues known := known.step inv steps continues

variable (key bucket) in
theorem scanning_walks
    (first : Option Slot) :
    Walk config thread key bucket (scanning key bucket first) where
  cursorAt known := known.cursorAt
  notStale known := known.notStale
  pass inv known other :=
    { firstAt := known.firstAt
      cursorAt := cursorAt_next inv.table (known.cursorAt _ rfl)
      notStale := known.notStale
      scanned := SplitTable.Scanned.pass known.scanned other }

/-- The compare-and-swap that inserts the key. -/
theorem casInsert_triple
    {head : Head}
    {node : Slot}
    (base : config.capacity.log2 ≤ size.log2)
    (unsealed : head.level ≤ size.log2) :
    Triple (inner config thread) thread
      ((holding
          (.inserting key [⟨node, head.address.first, key⟩])).and
        ((publishedAt (config.hash key % 2 ^ size.log2)).claim.and
          (scanning key (config.hash key % 2 ^ size.log2)
            head.address.first none).claim))
      (casInsert thread (config.hash key % 2 ^ size.log2) head node key :
        Program K T Bool)
      fun published =>
        if published then
          ended (.insert key) (some true)
        else
          holding
            (.inserting key [⟨node, head.address.first, key⟩]) := by
  refine Triple.atomic ?_
  rintro ⟨state, ghost⟩ choice won shared inv
    ⟨held, ⟨within, published⟩, _, scan⟩ ran
  simp only at ran
  split at ran
  case isFalse =>
    cases ran
    exact Lands.stay inv held
  case isTrue same =>
    cases ran
    have own : (⟨node, head.address.first, key⟩ : Private K) ∈
        [(⟨node, head.address.first, key⟩ : Private K)] :=
      List.mem_singleton_self _
    have owned : ghost.stage node = .owned thread :=
      (held.owned node).mpr (List.mem_map_of_mem own)
    have word : state.link node = .bare head.address.first :=
      held.linked _ own
    have stored : state.value node = some key := held.valued _ own
    have onPath :
        OnPath (config.hash key) (config.hash key % 2 ^ size.log2) :=
      onPath_mod _ _
    have root :
        (tableOf (state, ghost)).forest.links
            (.root (config.hash key % 2 ^ size.log2)) =
          head.address.first := by
      rw [root_links published, same]
    have fits :
        ∀ {child},
          NextBucket (config.hash key)
            (config.hash key % 2 ^ size.log2) child →
          2 ^ config.capacity.log2 ≤ child ∧
            (tableOf (state, ghost)).level
                (config.hash key % 2 ^ size.log2) ≤
              child.log2 := by
      intro child next
      have large : size.log2 ≤ child.log2 := next.le_of_mod_eq rfl
      refine ⟨?_, ?_⟩
      · calc
          2 ^ config.capacity.log2
              ≤ 2 ^ child.log2 :=
            Nat.pow_le_pow_right (by decide) (Nat.le_trans base large)
          _ ≤ child := Nat.log2_self_le next.positive
      · rw [level_of_published published, same]
        exact Nat.le_trans unsealed large
    have scanned :
        (tableOf (state, ghost)).Scanned
          (config.hash key % 2 ^ size.log2) key
          ((tableOf (state, ghost)).forest.links
            (.root (config.hash key % 2 ^ size.log2))) none := by
      rw [root]
      exact scan.scanned
    have unseen :
        ∀ {other},
          (tableOf (state, ghost)).forest.place other =
              .linked (config.hash key % 2 ^ size.log2) →
          ¬ (tableOf (state, ghost)).Carries other key :=
      fun linked => SplitTable.Scanned.absent inv.table scanned linked
    have prependable :
        (tableOf (state, ghost)).Prependable config.hash
          config.capacity.log2 (config.hash key % 2 ^ size.log2) node
          key :=
      { off := by simp [tableOf, owned, Stage.place]
        published := published
        onPath := onPath
        holds := stored
        unmarked := by simp [tableOf, word, Link.bare]
        unfrozen := by simp [tableOf, word, Link.bare]
        leads := by
          rw [root]
          simp [tableOf, State.chainLinks, word, Link.bare]
        unsealed := fits
        absent := unseen }
    have absent : member state.events key = false := by
      cases present : member state.events key with
      | false =>
          rfl
      | true =>
          obtain ⟨other, linked, carries⟩ :=
            (inv.table.member_iff onPath published
              (inv.table.not_moved_of_level fits)).mp present
          exact absurd carries (unseen linked)
    have keeps :=
      casInsert_keeps inv owned prependable held.called held.changed
        absent
    rw [same] at keeps
    refine ⟨_, keeps.1, ⟨.inl keeps.2, fun _ => ⟨keeps.2, rfl, ?_⟩⟩, ?_,
      within, ?_⟩
    · exact ⟨[.added thread key], rfl, by simp⟩
    · have whole :
          Holding thread
            ((Hands.empty (.insert key) false).having
              ([⟨node, head.address.first, key⟩] ++ []))
            (state, ghost) :=
        held
      have dropped :=
        whole.drop
          (Function.update ghost.stage node
            (.chained (config.hash key % 2 ^ size.log2)))
          (fun slot member => by
            cases List.mem_singleton.mp member
            simp)
          fun slot other => by
            refine Function.update_of_ne ?_ _ _
            rintro rfl
            exact other (List.mem_singleton_self _)
      exact
        { dropped with
          called := held.called
          changed := by simp [updated, SetOp.update, Hands.empty] }
    · exact Since.now ⟨state.events, rfl, by simp [SetOp.outcome,
        SetOp.key, absent]⟩

/-- One attempt at a bucket whose head was read. -/
theorem insertAt_triple
    {head : Head}
    {pending : Option Slot}
    (kept : Pending key pending nodes)
    (base : config.capacity.log2 ≤ size.log2)
    (unsealed : head.level ≤ size.log2) :
    Triple (inner config thread) thread
      ((holding (.inserting key nodes)).and
        ((publishedAt (config.hash key % 2 ^ size.log2)).claim.and
          (scanning key (config.hash key % 2 ^ size.log2)
            head.address.first head.address.first).claim))
      (insertAt config thread key size (config.hash key % 2 ^ size.log2)
        head pending : Program K T (Option Slot ⊕ Option Bool))
      (Assertion.turn
        (fun pending : Option Slot =>
          .any fun nodes : List (Private K) =>
            (Assertion.pure (Pending key pending nodes)).and
              (holding (.inserting key nodes)))
        (ended (.insert key))) := by
  have find : Triple (inner config thread) thread _ _ _ :=
    Triple.frame
      (publishedAt (config.hash key % 2 ^ size.log2)).durable
      (findKey_triple (.inserting key nodes)
        (scanning_walks key (config.hash key % 2 ^ size.log2)
          head.address.first) head.address.first)
  refine Triple.bind
    (Triple.weaken find fun _ _ known =>
      ⟨⟨known.1, known.2.2⟩, known.2.1⟩) fun found => ?_
  cases found with
  | none =>
      refine Triple.bind
        (Triple.weaken (abandonNode_triple kept) fun _ _ known => known.1)
        fun _ => ?_
      exact Triple.ret fun _ _ held => held
  | some found =>
      cases found with
      | true =>
          have abandon : Triple (inner config thread) thread _ _ _ :=
            Triple.frame (sawMember key).durable (abandonNode_triple kept)
          refine Triple.bind
            (Triple.weaken abandon fun _ _ known => known.1) fun _ => ?_
          refine Triple.ret fun world _ known => ?_
          refine ⟨known.1, known.2.1, known.2.2.imp ?_⟩
          intro instant present
          simp [Performs, SetOp.update, SetOp.outcome, SetOp.key, present]
      | false =>
          have prepare : Triple (inner config thread) thread _ _ _ :=
            Triple.frame
              ((publishedAt
                  (config.hash key % 2 ^ size.log2)).durable.and
                (scanning key (config.hash key % 2 ^ size.log2)
                  head.address.first none).durable)
              (prepareNode_triple kept head.address.first)
          refine Triple.bind
            (Triple.weaken prepare fun _ _ known =>
              ⟨known.1.1, known.2, known.1.2⟩) fun result => ?_
          cases result with
          | none =>
              exact Triple.ret fun _ _ known => known.1
          | some node =>
              refine Triple.bind (casInsert_triple base unsealed) ?_
              intro published
              cases published with
              | false =>
                  exact Triple.ret fun _ _ held =>
                    ⟨_, ⟨head.address.first, rfl⟩, held⟩
              | true =>
                  have double : Triple (inner config thread) thread _ _ _ :=
                    Triple.frame (performed (.insert key) true).durable
                      (doubleTable_triple (.empty (.insert key) true)
                        size rfl)
                  refine Triple.bind
                    (Triple.weaken double fun _ _ known => known)
                    fun _ => ?_
                  exact Triple.ret fun _ _ known => known

/-- The head of the bucket of the key is read. -/
theorem loadHome_triple :
    Triple (inner config thread) thread
      ((holding (.inserting key nodes)).and (sized key size).claim)
      (loadHead (config.hash key % 2 ^ size.log2) : Program K T Head)
      fun head =>
        if head.address = .uninitialized then
          (holding (.inserting key nodes)).and
            (inTableAt (config.hash key % 2 ^ size.log2)).claim
        else
          (holding (.inserting key nodes)).and
            ((publishedAt (config.hash key % 2 ^ size.log2)).claim.and
              (scanning key (config.hash key % 2 ^ size.log2)
                head.address.first head.address.first).claim) := by
  refine Triple.read ?_
  rintro ⟨state, ghost⟩ inv ⟨held, within, known⟩
  simp only
  split
  case isTrue =>
    exact ⟨held, within, known.inTable _⟩
  case isFalse visible =>
    have small : config.hash key % 2 ^ size.log2 < state.tableSize := by
      rw [inv.size]
      exact known.inTable _
    have published := published_iff.mpr ⟨small, visible⟩
    exact ⟨held, ⟨within, published⟩, within,
      { firstAt := cursorAt_root inv.table published
        cursorAt := cursorAt_root inv.table published
        notStale := known.notStale
        scanned := fun _ _ behind => behind }⟩

/-- `insert` has the result of the abstract operation. -/
theorem insert_triple
    (key : K) :
    Triple (inner config thread) thread
      (holding (.inserting key []))
      (insert config thread key : Program K T (Option Bool))
      (ended (.insert key)) := by
  refine Triple.weaken
    (Triple.loop
      (fun pending => ?_ :
        ∀ pending : Option Slot,
          Triple (inner config thread) thread
            (.any fun nodes : List (Private K) =>
              (Assertion.pure (Pending key pending nodes)).and
                (holding (.inserting key nodes))) _ _))
    fun _ _ held => ⟨[], rfl, held⟩
  refine Triple.any fun nodes => ?_
  refine Triple.given fun kept => ?_
  refine Triple.bind (loadSize_triple key fun _ held => held.inside)
    fun size => ?_
  refine Triple.bind (hashKey_triple key) fun hashed => ?_
  refine Triple.given fun correct => ?_
  cases hashed with
  | none =>
      refine Triple.bind
        (Triple.weaken (abandonNode_triple kept) fun _ _ known => known.1)
        fun _ => ?_
      exact Triple.ret fun _ _ held => held
  | some hash =>
      cases correct hash rfl
      refine fun fuel world inv known => ?_
      have power := known.2.2.power
      have base := known.2.2.base
      simp only [bucket_eq power]
      refine Triple.bind loadHome_triple (fun head => ?_)
        fuel world inv known
      split
      case isTrue =>
        refine Triple.bind (splitBucket_triple rfl _) fun ready => ?_
        cases ready with
        | true =>
            exact Triple.ret fun _ _ known => ⟨nodes, kept, known.1⟩
        | false =>
            refine Triple.bind
              (Triple.weaken (abandonNode_triple kept)
                fun _ _ known => known.1) fun _ => ?_
            exact Triple.ret fun _ _ held => held
      case isFalse =>
        split
        case isTrue =>
          exact Triple.ret fun _ _ known => ⟨nodes, kept, known.1⟩
        case isFalse unsealed =>
          exact insertAt_triple kept base (Nat.not_lt.mp unsealed)

end Insert

end ConcurrentCpp.HashSet
