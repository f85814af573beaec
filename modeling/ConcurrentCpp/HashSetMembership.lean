import ConcurrentCpp.HashSetRuns

namespace ConcurrentCpp.HashSet

/-!
# The keys of the hash set

At every moment of every run a key is in the set exactly if some node of it is
authoritative, and then there is one such node.  The history of the calls is
the history of a set.
-/

variable {K T : Type} [DecidableEq K] [DecidableEq T]

section Authority

omit [DecidableEq K] [DecidableEq T]

/-- The node is on the chain of a published bucket. -/
def State.Reachable
    (state : State K T)
    (bucket : Nat)
    (node : Slot) : Prop :=
  state.published bucket = true ∧
    ∃ nodes, Path state.chainLinks (.root bucket) nodes ∧ node ∈ nodes

/--
The node decides that its key is in the set: it is live, or frozen while the
next bucket of its key is not initialized.
-/
structure Authoritative
    (config : Config K T)
    (state : State K T)
    (key : K)
    (bucket : Nat)
    (node : Slot) : Prop where
  reachable : state.Reachable bucket node
  holds : state.value node = some key
  unmarked : (state.link node).mark = false
  pending :
    (state.link node).frozen = true →
    (state.buckets (nextChild (config.hash key) bucket)).address =
      .uninitialized

end Authority

variable
  {config : Config K T}
  {state : State K T}
  {ghost : Ghost T}
  {bucket : Nat}
  {node : Slot}
  {key : K}

omit [DecidableEq T] in
/-- What is reachable from a bucket is on its chain. -/
theorem Quiet.reachable_iff
    (quiet : Quiet config (state, ghost)) :
    state.Reachable bucket node ↔ ghost.stage node = .chained bucket := by
  obtain ⟨nodes, chained⟩ := quiet.table.forest.chain bucket
  have members :
      node ∈ nodes ↔ ghost.stage node = .chained bucket := by
    simpa [tableOf] using chained.members node
  rw [← members]
  constructor
  · rintro ⟨_, others, path, member⟩
    rwa [← path.unique chained.path]
  · intro member
    have inside := (chained.members node).mp member
    exact ⟨(quiet.table.within (.inl inside)).1, nodes, chained.path,
      member⟩

/-- An authoritative node is one whose key has not moved on. -/
theorem Invariant.authoritative_iff
    (inv : Invariant config (state, ghost))
    (deletes : config.allowDelete = true) :
    Authoritative config state key bucket node ↔
      (tableOf (state, ghost)).forest.place node = .linked bucket ∧
        (tableOf (state, ghost)).Carries node key ∧
        ¬ (tableOf (state, ghost)).Moved config.hash key bucket := by
  have home :
      (tableOf (state, ghost)).forest.place node = .linked bucket ↔
        state.Reachable bucket node := by
    rw [inv.quiet.reachable_iff]
    simp [tableOf]
  constructor
  · intro authoritative
    have linked := home.mpr authoritative.reachable
    refine ⟨linked,
      ⟨authoritative.holds, authoritative.unmarked⟩, ?_⟩
    rintro ⟨child, next, published⟩
    have frozen :=
      inv.table.movedFrozen deletes linked
        ⟨authoritative.holds, authoritative.unmarked⟩
        ⟨child, next, published⟩
    have hidden := authoritative.pending frozen
    have same := next.unique
      (nextChild_next next.bucket_onPath (movingBits_ne_zero next))
    rw [← same] at hidden
    simp [tableOf, State.published, hidden] at published
  · rintro ⟨linked, carries, stays⟩
    refine
      { reachable := home.mp linked
        holds := carries.1
        unmarked := carries.2
        pending := ?_ }
    intro frozen
    obtain ⟨child, next, small, _⟩ :=
      inv.table.frozenSealed linked frozen carries.1
    have same := next.unique
      (nextChild_next next.bucket_onPath (movingBits_ne_zero next))
    rw [← same]
    by_contra initialized
    refine stays ⟨child, next, ?_⟩
    have inTable : child < state.tableSize := by
      rw [inv.size]
      exact small
    simp [tableOf, State.published, inTable, initialized]

/-- What the words of the set say about one key. -/
structure KeyAuthority
    (config : Config K T)
    (state : State K T)
    (key : K) : Prop where
  /-- No two reachable nodes are authoritative for the key. -/
  unique :
    ∀ {first second bucket other},
      Authoritative config state key bucket first →
      Authoritative config state key other second →
      first = second
  /-- The key was added as often as it was removed, or once more. -/
  balanced :
    additions state.events key = removals state.events key ∨
      additions state.events key = removals state.events key + 1
  /-- It is in the set exactly if some node is authoritative. -/
  decided :
    additions state.events key = removals state.events key + 1 ↔
      ∃ bucket node, Authoritative config state key bucket node

theorem Invariant.keyAuthority
    (inv : Invariant config (state, ghost))
    (deletes : config.allowDelete = true)
    (key : K) :
    KeyAuthority config state key := by
  have balance :
      additions state.events key =
        removals state.events key + (member state.events key).toNat :=
    inv.lawful.balance key
  refine
    { unique := ?_
      balanced := ?_
      decided := ?_ }
  · intro first second bucket other onFirst onSecond
    obtain ⟨linked, carries, stays⟩ :=
      (inv.authoritative_iff deletes).mp onFirst
    obtain ⟨linkedOther, carriesOther, staysOther⟩ :=
      (inv.authoritative_iff deletes).mp onSecond
    exact (inv.table.carrier_unique linked linkedOther carries
      carriesOther stays staysOther).2
  · cases known : member state.events key with
    | false =>
        rw [known] at balance
        exact .inl balance
    | true =>
        rw [known] at balance
        exact .inr balance
  · have present :
        additions state.events key = removals state.events key + 1 ↔
          member state.events key = true := by
      cases known : member state.events key with
      | false =>
          rw [known] at balance
          simp only [Bool.toNat_false] at balance
          simp only [Bool.false_eq_true, iff_false]
          omega
      | true =>
          rw [known] at balance
          simpa using balance
    refine present.trans ((inv.table.authority key).trans ?_)
    constructor
    · rintro ⟨node, bucket, known⟩
      exact ⟨bucket, node, (inv.authoritative_iff deletes).mpr known⟩
    · rintro ⟨bucket, node, known⟩
      exact ⟨node, bucket, (inv.authoritative_iff deletes).mp known⟩

/-- No link word has both tag bits. -/
theorem Invariant.exclusive
    (inv : Invariant config (state, ghost))
    (node : Slot) :
    ¬ ((state.link node).mark = true ∧
      (state.link node).frozen = true) := by
  rintro ⟨marked, frozen⟩
  by_cases home : ∃ bucket, ghost.stage node = .chained bucket
  · obtain ⟨bucket, home⟩ := home
    have present :
        (tableOf (state, ghost)).forest.place node ≠ .off := by
      simp [tableOf, home, Stage.place]
    have clear := inv.table.exclusive present marked
    exact absurd (clear.symm.trans frozen) (by simp)
  · have bare :=
      (inv.nodes node).bare fun bucket chained => home ⟨bucket, chained⟩
    rw [bare.1] at marked
    cases marked

/--
In every state that any number of clients reach, the tag bits exclude each
other and every key has at most one authoritative node, which it has exactly
as long as it is in the set.
-/
theorem keys_have_one_authority
    (config : Config K T)
    (deletes : config.allowDelete = true)
    {start : State K T}
    (constructed : construct config = some start)
    {pool : Pool (State K T) (Choice K) T}
    (reached : (poolOf config start).Reaches pool) :
    (∀ node,
        ¬ ((pool.shared.link node).mark = true ∧
          (pool.shared.link node).frozen = true)) ∧
      ∀ key, KeyAuthority config pool.shared key := by
  obtain ⟨ghost, inv⟩ := reachable_inv constructed reached
  exact ⟨inv.exclusive, inv.keyAuthority deletes⟩

/-- Four buckets and one shard, for one thread. -/
def small : Config Nat Unit where
  hash := id
  allowDelete := true
  initialCapacity := 4
  arenaShards := 1
  hardwareConcurrency := 1
  threadNumber _ := 0

/-- The set that is constructed with them. -/
def smallSet : State Nat Unit :=
  (construct small).get rfl

/-- The steps of the only thread. -/
def alone (choices : List (Choice Nat)) : List (Unit × Choice Nat) :=
  choices.map fun choice => ((), choice)

/-- An insertion that doubles the table. -/
def insertThirteen : List (Choice Nat) :=
  [Choice.proceed, .call (.insert 13)] ++ List.replicate 27 Choice.proceed

/-- Another insertion has frozen the first key for its new bucket. -/
def freezing : List (Choice Nat) :=
  insertThirteen ++ [Choice.call (.insert 5)] ++
    List.replicate 12 Choice.proceed

/-- A frozen node whose bucket is not split yet is the authority. -/
theorem keys_have_one_authority_frozen :
    ∃ pool : Pool (State Nat Unit) (Choice Nat) Unit,
      small.allowDelete = true ∧
        construct small = some smallSet ∧
        (poolOf small smallSet).run (alone freezing) = some pool ∧
        (pool.shared.link ⟨0, 0⟩).frozen = true ∧
        (pool.shared.buckets 5).address = .uninitialized ∧
        additions pool.shared.events 13 = 1 ∧
        KeyAuthority small pool.shared 13 := by
  obtain ⟨pool, ran, seen⟩ :=
    Pool.run_seen
      (fun state : State Nat Unit =>
        ((state.link ⟨0, 0⟩).frozen, (state.buckets 5).address,
          additions state.events 13))
      (show ((poolOf small smallSet).run (alone freezing)).map _ =
          some (true, .uninitialized, 1) by decide +kernel)
  simp only [Prod.mk.injEq] at seen
  exact ⟨pool, rfl, rfl, ran, seen.1, seen.2.1, seen.2.2,
    (keys_have_one_authority small rfl rfl ⟨_, ran⟩).2 13⟩

/-- What the history of a linearizable set looks like. -/
structure Linearized (events : List (SetEvent T K)) : Prop where
  /-- Every result is the one of the abstract operation at an instant. -/
  instants :
    ∀ {later thread operation result earlier},
      events = later ++ .returned thread operation result :: earlier →
      calling earlier thread = some operation ∧
        Since thread earlier (Performs thread operation result)
  /-- A publishing step is one of an insertion and of an absent key. -/
  added :
    ∀ {later thread key earlier},
      events = later ++ .added thread key :: earlier →
      calling earlier thread = some (.insert key) ∧
        updated earlier thread = false ∧ member earlier key = false
  /-- A marking step is one of an erasure and of a present key. -/
  removed :
    ∀ {later thread key earlier},
      events = later ++ .removed thread key :: earlier →
      calling earlier thread = some (.erase key) ∧
        updated earlier thread = false ∧ member earlier key = true
  /-- An update returns `true` exactly if it was the one to change the set. -/
  updates :
    ∀ {later thread operation result earlier},
      events = later ++ .returned thread operation result :: earlier →
      (updated earlier thread = true ↔
        result = true ∧ ∀ key, operation ≠ .contains key)

/--
For either value of `AllowDelete`, any number of clients and any schedule, the
history of the calls is the one of a set.
-/
theorem set_linearizable
    (config : Config K T)
    {start : State K T}
    (constructed : construct config = some start)
    {pool : Pool (State K T) (Choice K) T}
    (reached : (poolOf config start).Reaches pool) :
    Linearized pool.shared.events := by
  obtain ⟨ghost, inv⟩ := reachable_inv constructed reached
  have lawful : Lawful pool.shared.events := inv.lawful
  refine
    { instants := ?_
      added := ?_
      removed := ?_
      updates := ?_ }
  · intro later thread operation result earlier shape
    rw [shape] at lawful
    exact ⟨lawful.at_event.1, lawful.at_event.2.2⟩
  · intro later thread key earlier shape
    rw [shape] at lawful
    exact lawful.at_event
  · intro later thread key earlier shape
    rw [shape] at lawful
    exact lawful.at_event
  · intro later thread operation result earlier shape
    rw [shape] at lawful
    rw [lawful.at_event.2.1]
    cases operation <;> cases result <;> simp [SetOp.update]

/-- An insertion that splits a bucket on its way returns `true`. -/
theorem set_linearizable_inserted :
    ∃ pool : Pool (State Nat Unit) (Choice Nat) Unit,
      construct small = some smallSet ∧
        (poolOf small smallSet).run
            (alone (freezing ++ List.replicate 41 .proceed)) =
          some pool ∧
        pool.shared.events =
          [.returned () (.insert 5) true, .added () 5,
            .called () (.insert 5), .returned () (.insert 13) true,
            .added () 13, .called () (.insert 13)] ∧
        Linearized pool.shared.events := by
  obtain ⟨pool, ran, seen⟩ :=
    Pool.run_seen State.events
      (show ((poolOf small smallSet).run
            (alone (freezing ++ List.replicate 41 .proceed))).map _ =
          some
            [.returned () (.insert 5) true, .added () 5,
              .called () (.insert 5), .returned () (.insert 13) true,
              .added () 13, .called () (.insert 13)] by decide +kernel)
  exact ⟨pool, rfl, ran, seen, set_linearizable small rfl ⟨_, ran⟩⟩

end ConcurrentCpp.HashSet
