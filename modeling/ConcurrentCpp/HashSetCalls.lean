import ConcurrentCpp.HashSetSplit

namespace ConcurrentCpp.HashSet

/-!
# The calls of the hash set

A call computes its bucket from a table size that may be out of date when it
looks into the bucket.  What it finds there was present at some instant of the
call, and what it does not find was absent at some instant if the table has
not grown meanwhile.
-/

variable {K T : Type} [DecidableEq K] [DecidableEq T]
variable {config : Config K T} {thread : T}

section Lookup

variable {hands : Hands K} {key : K} {bucket bits : Nat}

/-- A table size that was read in this call. -/
structure Sized
    (config : Config K T)
    (thread : T)
    (key : K)
    (size : Nat)
    (world : State K T × Ghost T) : Prop where
  power : size = 2 ^ size.log2
  base : config.capacity.log2 ≤ size.log2
  known : size.log2 ≤ world.1.tableSize.log2
  notStale :
    SplitTable.NotStale config.hash thread (tableOf world) key
      (config.hash key % 2 ^ size.log2)

/-- The call has read this table size. -/
def sized
    (key : K)
    (size : Nat) :
    Fact config thread where
  holds := Sized config thread key size
  keeps inv _ steps continues known :=
    { power := known.power
      base := known.base
      known := Nat.le_trans known.known steps.table.bits
      notStale :=
        known.notStale.step inv.table steps.table continues }

/-- The size that is read names the last bucket of the key. -/
theorem sized_now
    {world : State K T × Ghost T}
    (inv : Invariant config world)
    (key : K) :
    Sized config thread key world.1.tableSize world where
  power := inv.size
  base := inv.table.baseBits
  known := Nat.le_refl _
  notStale := SplitTable.NotStale.of_home inv.table rfl

theorem loadSize_triple
    {known : Claim config thread}
    (key : K)
    (within : ∀ world, known.holds world → thread ∈ world.1.inside) :
    Triple (inner config thread) thread
      known
      (loadSize : Program K T Nat)
      fun size => known.and (sized key size).claim :=
  Triple.read fun world inv holds =>
    ⟨holds, within world holds, sized_now inv key⟩

theorem hashKey_triple
    {known : Claim config thread}
    (key : K) :
    Triple (inner config thread) thread
      known
      (hashKey config key : Program K T (Option Nat))
      fun hashed =>
        (Assertion.pure
          (∀ hash ∈ hashed, hash = config.hash key)).and known := by
  refine Triple.atomic ?_
  rintro ⟨state, ghost⟩ choice hashed shared inv holds ran
  simp only at ran
  split at ran
  · cases ran
    exact Lands.stay inv ⟨by simp, holds⟩
  · cases ran
    exact Lands.stay inv ⟨by simp, holds⟩

/-- What a walk for a key does with its cursor. -/
structure Walk
    (config : Config K T)
    (thread : T)
    (key : K)
    (bucket : Nat)
    (walk : Option Slot → Fact config thread) : Prop where
  cursorAt :
    ∀ {world cursor},
      (walk cursor).holds world → CursorAt bucket cursor world
  notStale :
    ∀ {world cursor},
      (walk cursor).holds world →
      SplitTable.NotStale config.hash thread (tableOf world) key bucket
  pass :
    ∀ {world node},
      Invariant config world →
      (walk (some node)).holds world →
      ¬ (tableOf world).Carries node key →
      (walk (world.1.link node).next).holds world

/-- The key was present when the word was read, if the node holds it. -/
def sighted
    (key : K)
    (bucket : Nat)
    (node : Slot)
    (link : Link) :
    Fact config thread where
  holds world :=
    Seen bucket node link world ∧
      (link.mark = false →
        world.1.value node = some key →
        SplitTable.SeenMember thread (tableOf world) key)
  keeps {mover world after} _ _ steps continues known := by
    have stays := steps.chained known.1.chained
    refine ⟨known.1.step steps, fun unmarked stored => ?_⟩
    have same : after.1.value node = world.1.value node :=
      steps.table.key (by simp [tableOf, known.1.chained, Stage.place])
        (by simp [tableOf, stays, Stage.place])
    exact continues.since (known.2 unmarked (same ▸ stored))

/-- Whether the node holds the key, unless `==` threw. -/
def comparedTo
    (bucket : Nat)
    (node : Slot)
    (key : K) :
    Option Bool → Fact config thread
  | none =>
      { holds := fun _ => True
        keeps := fun _ _ _ _ _ => trivial }
  | some same =>
      { holds := fun world =>
          world.2.stage node = .chained bucket ∧
            (same = true ↔ world.1.value node = some key)
        keeps := fun {mover world after} _ _ steps _ known => by
          have stays := steps.chained known.1
          have value : after.1.value node = world.1.value node :=
            steps.table.key (by simp [tableOf, known.1, Stage.place])
              (by simp [tableOf, stays, Stage.place])
          exact ⟨stays, by rw [value]; exact known.2⟩ }

theorem equalKey_triple
    {known : Claim config thread}
    {node : Slot}
    (key : K)
    (chained :
      ∀ world,
        known.holds world →
        thread ∈ world.1.inside ∧ world.2.stage node = .chained bucket) :
    Triple (inner config thread) thread
      known
      (equalKey node key : Program K T (Option Bool))
      fun same => known.and (comparedTo bucket node key same).claim := by
  refine Triple.atomic ?_
  rintro ⟨state, ghost⟩ choice same shared inv holds ran
  obtain ⟨within, onChain⟩ := chained _ holds
  simp only [Option.map_eq_some_iff] at ran
  obtain ⟨value, stored, shape⟩ := ran
  split at shape
  · cases shape
    exact Lands.stay inv ⟨holds, within, trivial⟩
  · cases shape
    refine Lands.stay inv ⟨holds, within, onChain, ?_⟩
    simp [stored]

/-- The answer of a walk. -/
def answered
    (hands : Hands K)
    (key : K)
    (walk : Option Slot → Fact config thread) :
    Option Bool → Claim config thread
  | none => holding hands
  | some true => (holding hands).and (sawMember key).claim
  | some false => (holding hands).and (walk none).claim

variable (hands) in
/-- The walk of `contains` and `insert`. -/
theorem findKey_triple
    {walk : Option Slot → Fact config thread}
    (walks : Walk config thread key bucket walk)
    (start : Option Slot) :
    Triple (inner config thread) thread
      ((holding hands).and (walk start).claim)
      (findKey key start : Program K T (Option Bool))
      (answered hands key walk) := by
  refine Triple.loop
    (fun cursor => ?_ :
      ∀ cursor : Option Slot,
        Triple (inner config thread) thread
          ((holding hands).and (walk cursor).claim) _ _)
  cases cursor with
  | none =>
      exact Triple.ret fun _ _ known => known
  | some node =>
      have load :
          Triple (inner config thread) thread
            ((holding hands).and (walk (some node)).claim)
            (loadLink node : Program K T Link)
            fun link =>
              ((holding hands).and (walk (some node)).claim).and
                (sighted key bucket node link).claim := by
        refine Triple.read fun world inv known => ⟨known, known.2.1, ?_⟩
        have chained := walks.cursorAt known.2.2 node rfl
        refine ⟨⟨chained, rfl, id, id⟩, fun unmarked stored => ?_⟩
        have linked :
            (tableOf world).forest.place node = .linked bucket := by
          simpa [tableOf] using chained
        exact (walks.notStale known.2.2).found inv.table (.inl linked)
          ⟨stored, unmarked⟩
      refine Triple.bind load fun link => ?_
      refine Triple.bind
        (equalKey_triple key fun _ known =>
          ⟨known.2.1, known.2.2.1.chained⟩) fun same => ?_
      cases same with
      | none =>
          exact Triple.ret fun _ _ known => known.1.1.1
      | some same =>
          simp only
          split
          case isTrue found =>
            refine Triple.ret fun world _ known => ?_
            obtain ⟨⟨⟨held, _⟩, within, _, saw⟩, _, _, compared⟩ := known
            exact ⟨held, within, saw found.2 (compared.mp found.1)⟩
          case isFalse other =>
            refine Triple.ret fun world inv known => ?_
            obtain ⟨⟨⟨held, _, walked⟩, within, word, _⟩, _, _, compared⟩ :=
              known
            refine ⟨held, within, ?_⟩
            rw [← word.next]
            refine walks.pass inv walked fun carries => other ⟨?_, ?_⟩
            · exact compared.mpr carries.1
            · cases marked : link.mark with
              | false =>
                  rfl
              | true =>
                  exact absurd (word.mark marked) carries.not_marked

/-- A lookup of the key in its bucket. -/
def looking
    (key : K)
    (bucket bits : Nat)
    (cursor : Option Slot) :
    Fact config thread where
  holds := Looking config thread key bucket bits cursor
  keeps inv invAfter steps continues known :=
    known.step inv invAfter steps continues

theorem looking_walks :
    Walk config thread key bucket (looking key bucket bits) where
  cursorAt known := known.cursorAt
  notStale known := known.notStale
  pass inv known other :=
    { home := known.home
      cursorAt := cursorAt_next inv.table (known.cursorAt _ rfl)
      notStale := known.notStale
      mayMiss := known.mayMiss.pass other }

/-- A lookup begins at the head of a published bucket. -/
theorem looking_now
    {world : State K T × Ghost T}
    (inv : Invariant config world)
    {size : Nat}
    (sized : Sized config thread key size world)
    (home : config.hash key % 2 ^ size.log2 = bucket)
    (published : world.1.published bucket = true) :
    Looking config thread key bucket size.log2
      (world.1.buckets bucket).address.first world where
  home := home
  cursorAt := cursorAt_root inv.table published
  notStale := home ▸ sized.notStale
  mayMiss := by
    rw [← root_links published]
    exact SplitTable.MayMiss.start inv.table home sized.known published

omit [DecidableEq K] [DecidableEq T] in
theorem bucket_eq
    {size : Nat}
    (power : size = 2 ^ size.log2)
    (hash : Nat) :
    hash &&& (size - 1) = hash % 2 ^ size.log2 := by
  nth_rewrite 1 [power]
  exact Nat.and_two_pow_sub_one_eq_mod _ _

end Lookup

section Contains

variable {hands : Hands K} {key : K} {size : Nat}

/-- A head that was read from the published bucket of the key. -/
def entered
    (hands : Hands K)
    (key : K)
    (size : Nat) :
    Option Head → Claim config thread
  | none => holding hands
  | some head =>
      ((holding hands).and (sized key size).claim).and
        (looking key (config.hash key % 2 ^ size.log2) size.log2
          head.address.first).claim

omit [DecidableEq T] in
/-- The bucket of a size that was read is in the table. -/
theorem Sized.inTable
    {world : State K T × Ghost T}
    (known : Sized config thread key size world)
    (hash : Nat) :
    hash % 2 ^ size.log2 < 2 ^ world.1.tableSize.log2 :=
  Nat.lt_of_lt_of_le (Nat.mod_lt _ (Nat.two_pow_pos _))
    (Nat.pow_le_pow_right (by decide) known.known)

theorem enterBucket_triple
    (solvent : hands.owes = false)
    (power : size = 2 ^ size.log2) :
    Triple (inner config thread) thread
      ((holding hands).and (sized key size).claim)
      (enterBucket config thread (config.hash key &&& (size - 1)) :
        Program K T (Option Head))
      (entered hands key size) := by
  rw [bucket_eq power]
  have load :
      Triple (inner config thread) thread
        ((holding hands).and (sized key size).claim)
        (loadHead (config.hash key % 2 ^ size.log2) : Program K T Head)
        fun head =>
          if head.address = .uninitialized then
            ((holding hands).and
              (inTableAt (config.hash key % 2 ^ size.log2)).claim).and
                (sized key size).claim
          else
            entered hands key size (some head) := by
    refine Triple.read ?_
    rintro ⟨state, ghost⟩ inv ⟨held, within, known⟩
    simp only
    split
    case isTrue =>
      exact ⟨⟨held, within, known.inTable _⟩, within, known⟩
    case isFalse visible =>
      have small : config.hash key % 2 ^ size.log2 < state.tableSize := by
        rw [inv.size]
        exact known.inTable _
      exact ⟨⟨held, within, known⟩, within,
        looking_now inv known rfl (published_iff.mpr ⟨small, visible⟩)⟩
  refine Triple.bind load fun head => ?_
  split
  case isFalse =>
    exact Triple.ret fun _ _ known => known
  case isTrue =>
    refine Triple.bind
      (Triple.frame (sized key size).durable
        (splitBucket_triple solvent _)) fun ready => ?_
    cases ready with
    | false =>
        exact Triple.ret fun _ _ known => known.1.1
    | true =>
        have reload :
            Triple (inner config thread) thread
              ((splitDone hands (config.hash key % 2 ^ size.log2) true).and
                (sized key size).claim)
              (loadHead (config.hash key % 2 ^ size.log2) :
                Program K T Head)
              fun head => entered hands key size (some head) := by
          refine Triple.read ?_
          rintro ⟨state, ghost⟩ inv ⟨⟨held, _, published⟩, within, known⟩
          exact ⟨⟨held, within, known⟩, within,
            looking_now inv known rfl published⟩
        refine Triple.bind reload fun head => ?_
        exact Triple.ret fun _ _ known => known

/-- The abstract operation gives this result at an instant of the call. -/
def performed
    (operation : SetOp K)
    (result : Bool) :
    Fact config thread where
  holds world :=
    Since thread world.1.events (Performs thread operation result)
  keeps _ _ _ continues known := continues.since known

/-- The hands of a thread that has nothing. -/
def Hands.empty
    (operation : SetOp K)
    (changed : Bool) :
    Hands K :=
  ⟨operation, changed, [], false, false⟩

/-- A call ends with a result, or throws before it has changed anything. -/
def ended
    (operation : SetOp K) :
    Option Bool → Claim config thread
  | none => holding (.empty operation false)
  | some result =>
      (holding
        (.empty operation (operation.update thread result).isSome)).and
          (performed operation result).claim

/-- The key was absent at an instant of the call, if the condition holds. -/
def absentIf
    (condition : Prop)
    (key : K) :
    Fact config thread where
  holds world :=
    condition → SplitTable.SeenAbsent thread (tableOf world) key
  keeps _ _ _ continues known holds := continues.since (known holds)

/-- A walk that has come to the end of the bucket. -/
def missed
    (key : K)
    (size : Nat) :
    Fact config thread :=
  looking key (config.hash key % 2 ^ size.log2) size.log2 none

/-- A size that is still current makes a miss definite. -/
theorem reload_triple :
    Triple (inner config thread) thread
      ((holding hands).and (missed key size).claim)
      (loadSize : Program K T Nat)
      fun newSize =>
        ((holding hands).and (sized key newSize).claim).and
          (absentIf (newSize = size) key).claim := by
  refine Triple.read fun world inv known => ?_
  obtain ⟨held, within, looked⟩ := known
  refine ⟨⟨held, within, sized_now inv key⟩, within, fun same => ?_⟩
  refine looked.mayMiss.finish ?_
  change world.1.tableSize.log2 = size.log2
  rw [same]

/-- `contains` has the result of the abstract operation. -/
theorem contains_triple
    (key : K) :
    Triple (inner config thread) thread
      (holding (.empty (.contains key) false))
      (contains config thread key : Program K T (Option Bool))
      (ended (.contains key)) := by
  refine Triple.bind (loadSize_triple key fun _ held => held.inside)
    fun size => ?_
  refine Triple.loop
    (fun size => ?_ :
      ∀ size : Nat,
        Triple (inner config thread) thread
          ((holding (.empty (.contains key) false)).and
            (sized key size).claim) _ _)
  refine Triple.bind (hashKey_triple key) fun hashed => ?_
  refine Triple.given fun correct => ?_
  cases hashed with
  | none =>
      exact Triple.ret fun _ _ known => known.1
  | some hash =>
      cases correct hash rfl
      refine fun fuel world inv known => ?_
      refine Triple.bind
        (enterBucket_triple rfl known.2.2.power) (fun entry => ?_)
        fuel world inv known
      cases entry with
      | none =>
          exact Triple.ret fun _ _ held => held
      | some head =>
          refine Triple.bind
            (Triple.weaken
              (findKey_triple _ looking_walks head.address.first)
              fun _ _ known => ⟨known.1.1, known.2⟩) fun found => ?_
          cases found with
          | none =>
              exact Triple.ret fun _ _ known => known
          | some found =>
              cases found with
              | true =>
                  exact Triple.ret fun _ _ known => known
              | false =>
                  refine Triple.bind reload_triple fun newSize => ?_
                  split
                  case isTrue same =>
                    exact Triple.ret fun _ _ known =>
                      ⟨known.1.1, known.2.1, known.2.2 same⟩
                  case isFalse =>
                    exact Triple.ret fun _ _ known => known.1

end Contains

section Erase

variable {hands : Hands K} {key : K} {size : Nat}

/-- How a walk of `erase` ends. -/
def erasing
    (key : K)
    (size : Nat) :
    EraseWalk → Claim config thread
  | .threw => holding (.empty (.erase key) false)
  | .erased => ended (.erase key) (some true)
  | .missed true => holding (.empty (.erase key) false)
  | .missed false =>
      (holding (.empty (.erase key) false)).and (missed key size).claim

/-- An unmarked node of the key was seen. -/
structure Target
    (thread : T)
    (key : K)
    (bucket : Nat)
    (node : Slot)
    (link : Link)
    (world : State K T × Ghost T) : Prop where
  word : Seen bucket node link world
  value : world.1.value node = some key
  unmarked : SplitTable.Unmarked thread (tableOf world) key node

def target
    (key : K)
    (bucket : Nat)
    (node : Slot)
    (link : Link) :
    Fact config thread where
  holds := Target thread key bucket node link
  keeps {mover world after} _ _ steps continues known := by
    have stays := steps.chained known.word.chained
    have present : (tableOf world).forest.place node ≠ .off := by
      simp [tableOf, known.word.chained, Stage.place]
    have presentAfter : (tableOf after).forest.place node ≠ .off := by
      simp [tableOf, stays, Stage.place]
    exact
      { word := known.word.step steps
        value := (steps.table.key present presentAfter).trans known.value
        unmarked :=
          known.unmarked.step steps.table continues present presentAfter }

/-- The node was unmarked when the word was read, if it holds the key. -/
def noticed
    (key : K)
    (bucket : Nat)
    (node : Slot)
    (link : Link) :
    Fact config thread where
  holds world :=
    Seen bucket node link world ∧
      (link.mark = false →
        world.1.value node = some key →
        SplitTable.Unmarked thread (tableOf world) key node)
  keeps {mover world after} _ _ steps continues known := by
    have stays := steps.chained known.1.chained
    have present : (tableOf world).forest.place node ≠ .off := by
      simp [tableOf, known.1.chained, Stage.place]
    have presentAfter : (tableOf after).forest.place node ≠ .off := by
      simp [tableOf, stays, Stage.place]
    refine ⟨known.1.step steps, fun unmarked stored => ?_⟩
    have same : after.1.value node = world.1.value node :=
      steps.table.key present presentAfter
    exact (known.2 unmarked (same ▸ stored)).step steps.table continues
      present presentAfter

/-- The compare-and-swap that erases the key. -/
theorem casMark_triple
    (deletes : config.allowDelete = true)
    {bucket : Nat}
    {node : Slot}
    {link : Link}
    (unmarked : link.mark = false)
    (unfrozen : link.frozen = false) :
    Triple (inner config thread) thread
      ((holding (.empty (.erase key) false)).and
        (target key bucket node link).claim)
      (casMark thread node link key : Program K T (Bool × Link))
      fun outcome =>
        if outcome.1 then
          ended (.erase key) (some true)
        else
          (holding (.empty (.erase key) false)).and
            (absentIf (outcome.2.frozen = false) key).claim := by
  refine Triple.atomic ?_
  rintro ⟨state, ghost⟩ choice ⟨won, found⟩ shared inv
    ⟨held, within, known⟩ ran
  have chained := known.word.chained
  have linked :
      (tableOf (state, ghost)).forest.place node = .linked bucket := by
    simpa [tableOf] using chained
  simp only at ran
  split at ran
  case isFalse changed =>
    cases ran
    refine Lands.stay inv ⟨held, within, fun thawed => ?_⟩
    rcases known.unmarked with carries | absent
    · -- the word has changed without a tag bit
      exfalso
      have bare : (state.link node).mark = false := carries.2
      have next : (state.link node).next = link.next := known.word.next
      refine changed ?_
      cases word : state.link node with
      | mk successor mark frozen =>
          cases link with
          | mk expected tag freeze =>
              simp_all
    · exact absent
  case isTrue same =>
    cases ran
    have carries :
        (tableOf (state, ghost)).Carries node key :=
      ⟨known.value, by simp [tableOf, same, unmarked]⟩
    have frozen : (state.link node).frozen = false := by
      rw [same]
      exact unfrozen
    have markable :
        (tableOf (state, ghost)).Markable config.allowDelete bucket node
          key :=
      { freezes := deletes
        linked := linked
        carries := carries
        unfrozen := frozen }
    have last :
        ¬ (tableOf (state, ghost)).Moved config.hash key bucket := by
      intro moved
      have known : (state.link node).frozen = true :=
        inv.table.movedFrozen deletes linked carries moved
      rw [frozen] at known
      cases known
    have present : member state.events key = true :=
      inv.table.member_of_carries linked carries last
    have keeps :=
      casMark_keeps inv markable held.called held.changed present
    rw [same] at keeps
    refine ⟨ghost, keeps.1, ⟨.inl keeps.2, fun _ => ⟨keeps.2, rfl, ?_⟩⟩,
      ?_, within, ?_⟩
    · exact ⟨[.removed thread key], rfl, by simp⟩
    · have relinked : Holding thread (.empty (.erase key) false)
          ({ state with
              link :=
                Function.update state.link node
                  { link with mark := true } },
            ghost) :=
        held.relink fun own member => nomatch member
      exact
        { relinked with
          called := held.called
          changed := by simp [updated, SetOp.update, Hands.empty] }
    · exact Since.now ⟨state.events, rfl, present⟩

variable (size) in
/-- An unmarked node of the key is erased or was taken by somebody else. -/
theorem eraseNode_triple
    (deletes : config.allowDelete = true)
    {node : Slot}
    {link : Link}
    (unmarked : link.mark = false) :
    Triple (inner config thread) thread
      (((holding (.empty (.erase key) false)).and
        (target key (config.hash key % 2 ^ size.log2) node link).claim).and
          (looking key (config.hash key % 2 ^ size.log2) size.log2
            (some node)).claim)
      (eraseNode thread key node link : Program K T EraseWalk)
      (erasing key size) := by
  unfold eraseNode
  split
  case isTrue =>
    exact Triple.ret fun _ _ known => known.1.1
  case isFalse thawed =>
    have unfrozen : link.frozen = false := by simpa using thawed
    refine Triple.bind
      (Triple.frame
        (looking key (config.hash key % 2 ^ size.log2) size.log2
          (some node)).durable
        (casMark_triple deletes unmarked unfrozen)) ?_
    rintro ⟨won, found⟩
    cases won with
    | true =>
        exact Triple.ret fun _ _ known => known.1
    | false =>
        refine Triple.ret fun world inv known => ?_
        obtain ⟨⟨held, within, absent⟩, _, looked⟩ := known
        cases frozen : found.frozen with
        | true =>
            simpa [erasing, frozen] using held
        | false =>
            have ends :
                Looking config thread key
                  (config.hash key % 2 ^ size.log2) size.log2 none
                  world :=
              { looked with
                cursorAt := fun _ member => nomatch member
                mayMiss := .inl (absent frozen) }
            simpa [erasing, frozen] using ⟨held, within, ends⟩

variable (size) in
/-- The walk of `erase`. -/
theorem eraseKey_triple
    (deletes : config.allowDelete = true)
    (start : Option Slot) :
    Triple (inner config thread) thread
      ((holding (.empty (.erase key) false)).and
        (looking key (config.hash key % 2 ^ size.log2) size.log2
          start).claim)
      (eraseKey thread key start : Program K T EraseWalk)
      (erasing key size) := by
  refine Triple.loop
    (fun cursor => ?_ :
      ∀ cursor : Option Slot,
        Triple (inner config thread) thread
          ((holding (.empty (.erase key) false)).and
            (looking key (config.hash key % 2 ^ size.log2) size.log2
              cursor).claim) _ _)
  cases cursor with
  | none =>
      exact Triple.ret fun _ _ known => known
  | some node =>
      have load :
          Triple (inner config thread) thread
            ((holding (.empty (.erase key) false)).and
              (looking key (config.hash key % 2 ^ size.log2) size.log2
                (some node)).claim)
            (loadLink node : Program K T Link)
            fun link =>
              ((holding (.empty (.erase key) false)).and
                (looking key (config.hash key % 2 ^ size.log2) size.log2
                  (some node)).claim).and
                (noticed key (config.hash key % 2 ^ size.log2) node
                  link).claim := by
        refine Triple.read fun world inv known => ⟨known, known.2.1, ?_⟩
        refine ⟨⟨known.2.2.cursorAt node rfl, rfl, id, id⟩, ?_⟩
        exact fun unmarked stored => .inl ⟨stored, unmarked⟩
      refine Triple.bind load fun link => ?_
      refine Triple.bind
        (equalKey_triple key fun _ known =>
          ⟨known.2.1, known.2.2.1.chained⟩) fun same => ?_
      cases same with
      | none =>
          exact Triple.ret fun _ _ known => known.1.1.1
      | some same =>
          simp only
          split
          case isTrue found =>
            refine Triple.bind
              (Triple.weaken (eraseNode_triple size deletes found.2)
                fun world _ known => ?_) fun outcome => ?_
            · obtain ⟨⟨⟨held, looked⟩, within, word, unmarked⟩, _, _,
                compared⟩ := known
              have stored := compared.mp found.1
              exact ⟨⟨held, within, word, stored,
                unmarked found.2 stored⟩, looked⟩
            · exact Triple.ret fun _ _ known => known
          case isFalse other =>
            refine Triple.ret fun world inv known => ?_
            obtain ⟨⟨⟨held, _, looked⟩, within, word, _⟩, _, _, compared⟩ :=
              known
            refine ⟨held, within, ?_⟩
            rw [← word.next]
            refine looking_walks.pass inv looked
              fun carries => other ⟨?_, ?_⟩
            · exact compared.mpr carries.1
            · cases marked : link.mark with
              | false =>
                  rfl
              | true =>
                  exact absurd (word.mark marked) carries.not_marked

/-- `erase` has the result of the abstract operation. -/
theorem erase_triple
    (deletes : config.allowDelete = true)
    (key : K) :
    Triple (inner config thread) thread
      (holding (.empty (.erase key) false))
      (erase config thread key : Program K T (Option Bool))
      (ended (.erase key)) := by
  refine Triple.bind (loadSize_triple key fun _ held => held.inside)
    fun size => ?_
  refine Triple.loop
    (fun size => ?_ :
      ∀ size : Nat,
        Triple (inner config thread) thread
          ((holding (.empty (.erase key) false)).and
            (sized key size).claim) _ _)
  refine Triple.bind (hashKey_triple key) fun hashed => ?_
  refine Triple.given fun correct => ?_
  cases hashed with
  | none =>
      exact Triple.ret fun _ _ known => known.1
  | some hash =>
      cases correct hash rfl
      refine fun fuel world inv known => ?_
      refine Triple.bind
        (enterBucket_triple rfl known.2.2.power) (fun entry => ?_)
        fuel world inv known
      cases entry with
      | none =>
          exact Triple.ret fun _ _ held => held
      | some head =>
          refine Triple.bind
            (Triple.weaken
              (eraseKey_triple size deletes head.address.first)
              fun _ _ known => ⟨known.1.1, known.2⟩) fun walked => ?_
          cases walked with
          | threw =>
              exact Triple.ret fun _ _ held => held
          | erased =>
              exact Triple.ret fun _ _ known => known
          | missed stale =>
              cases stale with
              | true =>
                  refine Triple.bind
                    (loadSize_triple key fun _ held => held.inside)
                    fun newSize => ?_
                  rw [if_neg (fun impossible => nomatch impossible.2)]
                  exact Triple.ret fun _ _ known => known
              | false =>
                  refine Triple.bind reload_triple fun newSize => ?_
                  split
                  case isTrue same =>
                    exact Triple.ret fun _ _ known =>
                      ⟨known.1.1, known.2.1, known.2.2 same.1⟩
                  case isFalse =>
                    exact Triple.ret fun _ _ known => known.1

end Erase

end ConcurrentCpp.HashSet
