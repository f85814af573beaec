import ConcurrentCpp.HandleAssignment

namespace ConcurrentCpp.NodeDestruction

/-!
# The destruction of list nodes

`~Node()` of `LockFreeList` over `intr_shared_ptr`, in one thread.  The
destructor takes its successor over into a handle and walks on while it is the
only owner; every overwrite of a handle or of a `next` word releases a
reference, and the release of the last one runs the destructor again.

Whatever touches a node checks that its storage is still there.  The heap
records which nodes were destroyed and how deep destructors were nested.
-/

open HandleAssignment (Word)

/--
The nodes.  `destroyed` records on which nodes `~Node()` was entered, latest
first, and `deepest` the largest number of entered destructors so far.
-/
structure Heap (N : Type) where
  nodes : Finset N
  next : N → Word N
  count : N → Int
  destroyed : List N
  depth : Nat
  deepest : Nat

/-- How a destruction can go wrong. -/
inductive Fault where
  | freedNode
  | outOfFuel
  deriving DecidableEq

variable {N : Type} [DecidableEq N]

/-- How a reference is released. -/
abbrev Release (N : Type) := Heap N → Option N → Except Fault (Heap N)

namespace Heap

/-- The node of a call must not be freed. -/
def check
    (heap : Heap N)
    (node : N) :
    Except Fault Unit :=
  if node ∈ heap.nodes then .ok () else .error .freedNode

/-- `AddRef()` of a pointee, unless it is null. -/
def addRef
    (heap : Heap N) :
    Option N → Except Fault (Heap N)
  | none => .ok heap
  | some node => do
      heap.check node
      .ok
        { heap with
          count := Function.update heap.count node (heap.count node + 1) }

/-- The count of a node, less one. -/
def decremented
    (heap : Heap N)
    (node : N) :
    Heap N :=
  { heap with
    count := Function.update heap.count node (heap.count node - 1) }

/-- The `next` word of a node is null. -/
def cut
    (heap : Heap N)
    (node : N) :
    Heap N :=
  { heap with next := Function.update heap.next node .null }

/-- `~Node()` begins. -/
def enter
    (heap : Heap N)
    (node : N) :
    Heap N :=
  { heap with
    destroyed := node :: heap.destroyed
    depth := heap.depth + 1
    deepest := max heap.deepest (heap.depth + 1) }

/-- `~Node()` has ended, and the storage is freed. -/
def leave
    (heap : Heap N)
    (node : N) :
    Heap N :=
  { heap with
    nodes := heap.nodes.erase node
    depth := heap.depth - 1 }

/-- `node->next.load()`: the word, with a reference to its pointee. -/
def load
    (heap : Heap N)
    (node : N) :
    Except Fault (Word N × Heap N) := do
  heap.check node
  let heap' ← heap.addRef (heap.next node).ptr
  .ok (heap.next node, heap')

/--
`node->next.store(desired)`; the parameter is destroyed when the call
returns.
-/
def store
    (release : Release N)
    (heap : Heap N)
    (node : N)
    (desired : Word N) :
    Except Fault (Heap N) := do
  let heap ← heap.addRef desired.ptr
  heap.check node
  let old := (heap.next node).ptr
  let heap ←
    release
      { heap with next := Function.update heap.next node desired } old
  release heap desired.ptr

/-- `use_count()` of a pointee. -/
def useCount
    (heap : Heap N)
    (node : N) :
    Except Fault Int := do
  heap.check node
  .ok (heap.count node)

/-- The load of a `next` word and the store of null to it. -/
def detach
    (release : Release N)
    (heap : Heap N)
    (node : N) :
    Except Fault (Word N × Heap N) := do
  let (word, heap) ← heap.load node
  let heap ← heap.store release node .null
  .ok (word, heap)

/-- The chain walk while sole owner: what `curr` is in the end. -/
def walk
    (release : Release N) :
    Nat → Heap N → Word N → Except Fault (Word N × Heap N)
  | 0, _, _ => .error .outOfFuel
  | fuel + 1, heap, curr =>
      match curr.ptr with
      | none => .ok (curr, heap)
      | some node => do
          let uses ← heap.useCount node
          if uses = 1 then do
            let (nextCurr, heap) ← heap.detach release node
            -- curr = std::move(next_curr)
            let heap ← release heap (some node)
            walk release fuel heap nextCurr
          else
            .ok (curr, heap)

/-- `~Node()`, the destructors of `curr` and of the member `next` included. -/
def destruct
    (release : Release N)
    (fuel : Nat)
    (heap : Heap N)
    (node : N) :
    Except Fault (Heap N) := do
  let (curr, heap) ← (heap.enter node).detach release node
  let (curr, heap) ← heap.walk release fuel curr
  let heap ← release heap curr.ptr
  heap.check node
  let heap' ← release heap (heap.next node).ptr
  .ok (heap'.leave node)

/--
`delete_disposal::release(p)`.  The fuel bounds how deep destructors nest and
how far each of them walks.
-/
def release : Nat → Release N
  | _, heap, none => .ok heap
  | fuel, heap, some node => do
      heap.check node
      if heap.count node = 1 then
        match fuel with
        | 0 => .error .outOfFuel
        | fuel + 1 =>
            destruct (release fuel) fuel (heap.decremented node) node
      else
        .ok (heap.decremented node)

end Heap

/-- The nodes from a pointer on, to the end of the chain. -/
def Linked
    (next : N → Word N) :
    Option N → List N → Prop
  | pointer, [] => pointer = none
  | pointer, node :: rest =>
      pointer = some node ∧ Linked next (next node).ptr rest

section Steps

variable
  {heap : Heap N}
  {node : N}
  {release : Release N}

/-- A release that is not the last one just counts. -/
structure Counts (release : Release N) : Prop where
  null : ∀ heap, release heap none = .ok heap
  shared :
    ∀ {heap : Heap N} {node : N},
      node ∈ heap.nodes →
      heap.count node ≠ 1 →
      release heap (some node) = .ok (heap.decremented node)

/-- The cases of a release. -/
theorem release_some
    (fuel : Nat)
    (present : node ∈ heap.nodes) :
    heap.release fuel (some node) =
      if heap.count node = 1 then
        match fuel with
        | 0 => .error .outOfFuel
        | fuel + 1 =>
            (heap.decremented node).destruct (Heap.release fuel) fuel node
      else
        .ok (heap.decremented node) := by
  cases fuel with
  | zero =>
      simp [Heap.release, Heap.check, present, bind, Except.bind]
  | succ fuel =>
      simp [Heap.release, Heap.check, present, bind, Except.bind]

theorem release_none
    (fuel : Nat)
    (heap : Heap N) :
    heap.release fuel none = .ok heap := by
  cases fuel with
  | zero =>
      rfl
  | succ fuel =>
      rfl

theorem release_counts
    (fuel : Nat) :
    Counts (Heap.release (N := N) fuel) where
  null := release_none fuel
  shared := fun present more => by
    rw [release_some fuel present, if_neg more]

/-- The last release runs the destructor. -/
theorem release_last
    (present : node ∈ heap.nodes)
    (last : heap.count node = 1)
    (fuel : Nat) :
    heap.release (fuel + 1) (some node) =
      (heap.decremented node).destruct (Heap.release fuel) fuel node := by
  rw [release_some (fuel + 1) present, if_pos last]

/--
To detach a node from its successor moves the reference of the word into the
handle.
-/
theorem detach_spec
    (counts : Counts release)
    (present : node ∈ heap.nodes)
    (successor :
      ∀ {other},
        (heap.next node).ptr = some other →
        other ∈ heap.nodes ∧ 1 ≤ heap.count other) :
    heap.detach release node = .ok (heap.next node, heap.cut node) := by
  cases pointer : (heap.next node).ptr with
  | none =>
      simp [Heap.detach, Heap.load, Heap.store, Heap.check, Heap.addRef,
        present, pointer, Word.null, bind, Except.bind, counts.null,
        Heap.cut]
  | some other =>
      obtain ⟨alive, positive⟩ := successor pointer
      let counted : Heap N :=
        { heap with
          count :=
            Function.update heap.count other (heap.count other + 1) }
      have restored : (counted.cut node).decremented other = heap.cut node := by
        simp [counted, Heap.decremented, Heap.cut]
      have released :
          release (counted.cut node) (some other) = .ok (heap.cut node) := by
        rw [counts.shared, restored]
        · exact alive
        · simp only [counted, Heap.cut, Function.update_self]
          omega
      have stored :
          counted.store release node .null = .ok (heap.cut node) := by
        simp only [Heap.store, Heap.addRef, Word.null, Heap.check, counted,
          present, if_true, bind, Except.bind, pointer]
        change
          (release (counted.cut node) (some other) >>= fun heap =>
            release heap none) = _
        rw [released]
        exact counts.null _
      have loaded : heap.load node = .ok (heap.next node, counted) := by
        simp [Heap.load, Heap.check, Heap.addRef, present, pointer, alive,
          bind, Except.bind, counted]
      simp only [Heap.detach, loaded, bind, Except.bind, stored]

/-- The destructor of a node without a successor. -/
theorem destruct_detached
    (counts : Counts release)
    (present : node ∈ heap.nodes)
    (detached : heap.next node = .null)
    (fuel : Nat) :
    heap.destruct release (fuel + 1) node =
      .ok (((heap.enter node).cut node).leave node) := by
  have word : (heap.enter node).next node = .null := detached
  have taken :
      (heap.enter node).detach release node =
        .ok (.null, (heap.enter node).cut node) := by
    have spec :
        (heap.enter node).detach release node =
          .ok ((heap.enter node).next node, (heap.enter node).cut node) :=
      detach_spec counts present fun pointer => by
        rw [word] at pointer
        cases pointer
    rw [word] at spec
    exact spec
  have stops :
      ((heap.enter node).cut node).walk release (fuel + 1) .null =
        .ok (.null, (heap.enter node).cut node) :=
    rfl
  have inside : node ∈ ((heap.enter node).cut node).nodes := present
  have null : (((heap.enter node).cut node).next node).ptr = none := by
    simp [Heap.cut, Word.null]
  have nothing :
      release ((heap.enter node).cut node) (Word.null : Word N).ptr =
        .ok ((heap.enter node).cut node) :=
    counts.null _
  simp only [Heap.destruct, taken, bind, Except.bind, stops, nothing,
    counts.null, Heap.check, if_pos inside, null]

/-- A node that one destructor takes apart on its walk. -/
def Heap.dismantle
    (heap : Heap N)
    (node : N) :
    Heap N where
  nodes := heap.nodes.erase node
  next := Function.update heap.next node .null
  count := Function.update heap.count node (heap.count node - 1)
  destroyed := node :: heap.destroyed
  depth := heap.depth
  deepest := max heap.deepest (heap.depth + 1)

/-- The release of a detached node with no other owner. -/
theorem release_detached
    (present : node ∈ heap.nodes)
    (last : heap.count node = 1)
    (fuel : Nat) :
    (heap.cut node).release (fuel + 2) (some node) =
      .ok (heap.dismantle node) := by
  have inside : node ∈ (heap.cut node).nodes := present
  have one : (heap.cut node).count node = 1 := last
  have null : ((heap.cut node).decremented node).next node = .null := by
    simp [Heap.decremented, Heap.cut]
  have stays : node ∈ ((heap.cut node).decremented node).nodes := present
  rw [release_last inside one,
    destruct_detached (release_counts (fuel + 1)) stays null]
  simp [Heap.enter, Heap.decremented, Heap.cut, Heap.leave, Heap.dismantle]

/-- One turn of the walk. -/
theorem walk_turn
    (fuel steps : Nat)
    (mark : Bool)
    (present : node ∈ heap.nodes)
    (last : heap.count node = 1)
    (successor :
      ∀ {other},
        (heap.next node).ptr = some other →
        other ∈ heap.nodes ∧ 1 ≤ heap.count other) :
    heap.walk (Heap.release (fuel + 2)) (steps + 1) ⟨some node, mark⟩ =
      (heap.dismantle node).walk (Heap.release (fuel + 2)) steps
        (heap.next node) := by
  have detached :=
    detach_spec (release_counts (fuel + 2)) present successor
  have released := release_detached present last fuel
  simp only [Heap.walk, Heap.useCount, Heap.check, if_pos present, bind,
    Except.bind, if_pos last, detached, released]

end Steps

section Walk

variable {next : N → Word N}

/-- A chain that avoids a node does not depend on its word. -/
theorem Linked.update
    {node : N}
    {word : Word N}
    {chain : List N}
    (avoids : node ∉ chain)
    {pointer : Option N}
    (linked : Linked next pointer chain) :
    Linked (Function.update next node word) pointer chain := by
  induction chain generalizing pointer with
  | nil =>
      exact linked
  | cons first rest induct =>
      obtain ⟨outside, later⟩ := not_or.mp (List.mem_cons.not.mp avoids)
      refine ⟨linked.1, ?_⟩
      rw [Function.update_of_ne (Ne.symm outside)]
      exact induct later linked.2

omit [DecidableEq N] in
/-- What a pointer points to is on its chain. -/
theorem Linked.mem_of_eq
    {pointer : Option N}
    {node : N}
    {chain : List N}
    (linked : Linked next pointer chain)
    (points : pointer = some node) :
    node ∈ chain := by
  cases chain with
  | nil =>
      exact absurd (linked.symm.trans points) nofun
  | cons first rest =>
      have same : first = node :=
        Option.some.inj (linked.1.symm.trans points)
      exact same ▸ List.mem_cons_self

/-- The nodes of a chain exist, once each, and every one is owned. -/
structure Owned (heap : Heap N) (chain : List N) : Prop where
  distinct : chain.Nodup
  present : ∀ node ∈ chain, node ∈ heap.nodes
  positive : ∀ node ∈ chain, 1 ≤ heap.count node

/-- What is left of a chain is owned as before. -/
theorem Owned.dismantle
    {heap : Heap N}
    {node : N}
    {rest : List N}
    (owned : Owned heap (node :: rest)) :
    Owned (heap.dismantle node) rest := by
  obtain ⟨outside, distinct⟩ := List.nodup_cons.mp owned.distinct
  refine ⟨distinct, fun other member => ?_, fun other member => ?_⟩
  · refine Finset.mem_erase.mpr ⟨?_, owned.present other (.tail _ member)⟩
    rintro rfl
    exact outside member
  · have different : other ≠ node := by
      rintro rfl
      exact outside member
    simpa only [Heap.dismantle, Function.update_of_ne different] using
      owned.positive other (.tail _ member)

/-- The nodes at the front of a chain with no other owner. -/
def unshared
    (heap : Heap N)
    (chain : List N) :
    List N :=
  chain.takeWhile fun node => decide (heap.count node = 1)

/-- The chain from the first node with another owner on. -/
def shared
    (heap : Heap N)
    (chain : List N) :
    List N :=
  chain.dropWhile fun node => decide (heap.count node = 1)

/-- Counts of other nodes do not matter. -/
theorem dismantle_count
    {heap : Heap N}
    {node other : N}
    (different : other ≠ node) :
    (heap.dismantle node).count other = heap.count other :=
  Function.update_of_ne different ..

/-- The part of a chain with no other owner does not depend on other nodes. -/
theorem unshared_dismantle
    (heap : Heap N)
    {node : N}
    {rest : List N}
    (outside : node ∉ rest) :
    unshared (heap.dismantle node) rest = unshared heap rest ∧
      shared (heap.dismantle node) rest = shared heap rest := by
  induction rest with
  | nil =>
      exact ⟨rfl, rfl⟩
  | cons first rest induct =>
      obtain ⟨different, later⟩ := not_or.mp (List.mem_cons.not.mp outside)
      obtain ⟨front, back⟩ := induct later
      have same :
          (heap.dismantle node).count first = heap.count first :=
        dismantle_count (Ne.symm different)
      unfold unshared at front ⊢
      unfold shared at back ⊢
      rw [List.takeWhile_cons, List.takeWhile_cons, List.dropWhile_cons,
        List.dropWhile_cons, same, front, back]
      exact ⟨rfl, rfl⟩

/--
The walk takes the nodes with no other owner apart, one after another, and
ends at the first node with another owner.
-/
theorem walk_spec
    (fuel : Nat)
    {chain : List N}
    {heap : Heap N}
    {curr : Word N}
    {steps : Nat}
    (linked : Linked heap.next curr.ptr chain)
    (owned : Owned heap chain)
    (enough : chain.length < steps) :
    ∃ mark,
      heap.walk (Heap.release (fuel + 2)) steps curr =
        .ok (⟨(shared heap chain).head?, mark⟩,
          (unshared heap chain).foldl Heap.dismantle heap) := by
  induction chain generalizing heap curr steps with
  | nil =>
      obtain ⟨steps, rfl⟩ : ∃ less, steps = less + 1 :=
        ⟨steps - 1, by omega⟩
      obtain ⟨pointer, mark⟩ := curr
      have null : pointer = none := linked
      subst null
      exact ⟨mark, rfl⟩
  | cons node rest induct =>
      obtain ⟨steps, rfl⟩ : ∃ less, steps = less + 1 :=
        ⟨steps - 1, by omega⟩
      obtain ⟨pointer, mark⟩ := curr
      obtain ⟨rfl, linkedRest⟩ := linked
      obtain ⟨outside, distinct⟩ := List.nodup_cons.mp owned.distinct
      have present := owned.present node List.mem_cons_self
      by_cases last : heap.count node = 1
      · have successor :
            ∀ {other},
              (heap.next node).ptr = some other →
              other ∈ heap.nodes ∧ 1 ≤ heap.count other := by
          intro other pointer
          have member : other ∈ node :: rest :=
            .tail _ (linkedRest.mem_of_eq pointer)
          exact ⟨owned.present other member, owned.positive other member⟩
        obtain ⟨lastMark, walked⟩ :=
          induct (linkedRest.update outside) owned.dismantle
            (Nat.lt_of_succ_lt_succ enough)
        obtain ⟨front, back⟩ := unshared_dismantle heap outside
        have taken :
            unshared heap (node :: rest) = node :: unshared heap rest :=
          List.takeWhile_cons_of_pos (decide_eq_true last)
        have left : shared heap (node :: rest) = shared heap rest :=
          List.dropWhile_cons_of_pos (decide_eq_true last)
        refine ⟨lastMark, ?_⟩
        rw [walk_turn fuel steps mark present last successor, walked, taken,
          left, front, back]
        rfl
      · refine ⟨mark, ?_⟩
        simp [Heap.walk, Heap.useCount, Heap.check, present, last, bind,
          Except.bind, shared, unshared]

/-- What is left after some nodes have been taken apart. -/
structure Dismantled
    (heap after : Heap N)
    (gone : List N) : Prop where
  nodes : after.nodes = heap.nodes \ gone.toFinset
  next : ∀ node ∉ gone, after.next node = heap.next node
  count : ∀ node ∉ gone, after.count node = heap.count node
  destroyed : after.destroyed = gone.reverse ++ heap.destroyed
  depth : after.depth = heap.depth
  deepest : after.deepest ≤ max heap.deepest (heap.depth + 1)

theorem dismantled_foldl
    (gone : List N)
    (heap : Heap N) :
    Dismantled heap (gone.foldl Heap.dismantle heap) gone := by
  induction gone generalizing heap with
  | nil =>
      exact ⟨by simp, fun _ _ => rfl, fun _ _ => rfl, rfl, rfl,
        Nat.le_max_left _ _⟩
  | cons first rest induct =>
      have later := induct (heap.dismantle first)
      rw [List.foldl_cons]
      refine ⟨?_, fun node outside => ?_, fun node outside => ?_, ?_,
        later.depth, ?_⟩
      · rw [later.nodes, Heap.dismantle, List.toFinset_cons]
        ext node
        simp only [Finset.mem_sdiff, Finset.mem_erase, Finset.mem_insert]
        tauto
      · obtain ⟨different, notLater⟩ :=
          not_or.mp (List.mem_cons.not.mp outside)
        rw [later.next node notLater]
        exact Function.update_of_ne different ..
      · obtain ⟨different, notLater⟩ :=
          not_or.mp (List.mem_cons.not.mp outside)
        rw [later.count node notLater, dismantle_count different]
      · rw [later.destroyed, List.reverse_cons, List.append_assoc]
        rfl
      · refine Nat.le_trans later.deepest ?_
        exact Nat.max_le.mpr ⟨Nat.le_refl _, Nat.le_max_right _ _⟩

omit [DecidableEq N] in
/-- The first node with another owner is not among those taken apart. -/
theorem shared_head
    {heap : Heap N}
    {chain : List N}
    (distinct : chain.Nodup)
    {first : N}
    (found : (shared heap chain).head? = some first) :
    first ∈ chain ∧
      first ∉ unshared heap chain ∧ heap.count first ≠ 1 := by
  have member : first ∈ shared heap chain := List.mem_of_head? found
  have parts : unshared heap chain ++ shared heap chain = chain :=
    List.takeWhile_append_dropWhile
  have stops :=
    List.head?_dropWhile_not
      (fun node => decide (heap.count node = 1)) chain
  rw [shared] at found
  rw [found] at stops
  rw [← parts] at distinct
  refine ⟨parts ▸ List.mem_append_right _ member, fun front => ?_,
    of_decide_eq_false stops⟩
  exact (List.nodup_append.mp distinct).2.2 first front first member rfl

omit [DecidableEq N] in
/-- No other owner means no reference from outside of the chain. -/
theorem unshared_eq
    {heap : Heap N}
    {outside : N → Nat}
    {chain : List N}
    (counted : ∀ node ∈ chain, heap.count node = 1 + outside node) :
    unshared heap chain = chain.takeWhile (outside · = 0) ∧
      shared heap chain = chain.dropWhile (outside · = 0) := by
  induction chain with
  | nil =>
      exact ⟨rfl, rfl⟩
  | cons first rest induct =>
      obtain ⟨front, back⟩ :=
        induct fun node member => counted node (.tail _ member)
      have test :
          decide (heap.count first = 1) = decide (outside first = 0) := by
        rw [counted first List.mem_cons_self, decide_eq_decide]
        omega
      unfold unshared at front ⊢
      unfold shared at back ⊢
      rw [List.takeWhile_cons, List.takeWhile_cons, List.dropWhile_cons,
        List.dropWhile_cons, test, front, back]
      exact ⟨rfl, rfl⟩

end Walk

section Destruction

/-- One reference less to what the pointer points to. -/
def Heap.unreferenced
    (heap : Heap N) :
    Option N → Heap N
  | none => heap
  | some node => heap.decremented node

/-- All that the loss of a reference changes is a count. -/
theorem Heap.unreferenced_eq
    (heap : Heap N)
    (pointer : Option N) :
    heap.unreferenced pointer =
      { heap with
        count := fun node =>
          heap.count node - if pointer = some node then 1 else 0 } := by
  cases pointer with
  | none =>
      simp [Heap.unreferenced]
  | some first =>
      simp only [Heap.unreferenced, Heap.decremented]
      congr 1
      funext other
      by_cases same : other = first
      · subst same
        simp
      · simp [Function.update_of_ne same, Ne.symm same]

variable
  {heap : Heap N}
  {node : N}
  {chain : List N}

/-- `~Node()` of a node with an owned chain behind it. -/
theorem destruct_spec
    (fuel : Nat)
    (present : node ∈ heap.nodes)
    (linked : Linked heap.next (heap.next node).ptr chain)
    (outside : node ∉ chain)
    (owned : Owned heap chain)
    (enough : chain.length < fuel + 2) :
    heap.destruct (Heap.release (fuel + 2)) (fuel + 2) node =
      .ok
        ((((unshared heap chain).foldl Heap.dismantle
          ((heap.enter node).cut node)).unreferenced
            (shared heap chain).head?).leave node) := by
  let entered := heap.enter node
  have successor :
      ∀ {other},
        (entered.next node).ptr = some other →
        other ∈ entered.nodes ∧ 1 ≤ entered.count other := by
    intro other pointer
    have member : other ∈ chain := linked.mem_of_eq pointer
    exact ⟨owned.present other member, owned.positive other member⟩
  have detached :
      entered.detach (Heap.release (fuel + 2)) node =
        .ok (heap.next node, entered.cut node) :=
    detach_spec (release_counts _) present successor
  have ownedCut : Owned (entered.cut node) chain :=
    ⟨owned.distinct, owned.present, owned.positive⟩
  obtain ⟨mark, walked⟩ :=
    walk_spec fuel (linked.update outside) ownedCut enough
  have dismantled :=
    dismantled_foldl (unshared heap chain) (entered.cut node)
  have away : node ∉ unshared heap chain :=
    fun member => outside ((List.takeWhile_sublist _).subset member)
  have stays :
      node ∈
        ((unshared heap chain).foldl Heap.dismantle
          (entered.cut node)).nodes := by
    rw [dismantled.nodes]
    simp only [Finset.mem_sdiff, List.mem_toFinset]
    exact ⟨present, away⟩
  have null :
      (((unshared heap chain).foldl Heap.dismantle
        (entered.cut node)).next node).ptr = none := by
    rw [dismantled.next node away]
    simp [Heap.cut, Word.null]
  have counts := release_counts (N := N) (fuel + 2)
  have walkedAll :
      (entered.cut node).walk (Heap.release (fuel + 2)) (fuel + 2)
          (heap.next node) =
        .ok (⟨(shared heap chain).head?, mark⟩,
          (unshared heap chain).foldl Heap.dismantle (entered.cut node)) :=
    walked
  have ends :
      heap.destruct (Heap.release (fuel + 2)) (fuel + 2) node =
        (Heap.release (fuel + 2)
            ((unshared heap chain).foldl Heap.dismantle
              (entered.cut node)) (shared heap chain).head? >>=
          fun rest => do
            rest.check node
            let after ←
              Heap.release (fuel + 2) rest (rest.next node).ptr
            .ok (after.leave node)) := by
    unfold Heap.destruct
    rw [detached]
    simp only [bind, Except.bind, walkedAll]
  rw [ends]
  cases head : (shared heap chain).head? with
  | none =>
      simp only [counts.null, bind, Except.bind, Heap.check, if_pos stays,
        null]
      rfl
  | some first =>
      obtain ⟨member, kept, more⟩ := shared_head owned.distinct head
      have alive :
          first ∈
            ((unshared heap chain).foldl Heap.dismantle
              (entered.cut node)).nodes := by
        rw [dismantled.nodes]
        simp only [Finset.mem_sdiff, List.mem_toFinset]
        exact ⟨owned.present first member, kept⟩
      have notLast :
          ((unshared heap chain).foldl Heap.dismantle
            (entered.cut node)).count first ≠ 1 := by
        rw [dismantled.count first kept]
        exact more
      simp only [counts.shared alive notLast, bind, Except.bind,
        Heap.check, Heap.decremented, if_pos stays, null, counts.null]
      rfl

end Destruction

/--
To drop the last reference to a node destroys it and the run of nodes behind
it that nothing else refers to, each once; the first node with a reference
from outside loses one reference and keeps its successor, nothing else
changes, and no more than two destructors are ever nested.
-/
theorem destruction_exact
    (heap : Heap N)
    (node : N)
    (chain : List N)
    (outside : N → Nat)
    (linked : Linked heap.next (some node) (node :: chain))
    (distinct : (node :: chain).Nodup)
    (present : ∀ other ∈ node :: chain, other ∈ heap.nodes)
    (last : heap.count node = 1)
    (counted : ∀ other ∈ chain, heap.count other = 1 + outside other)
    {fuel : Nat}
    (enough : chain.length + 3 ≤ fuel) :
    ∃ after,
      heap.release fuel (some node) = .ok after ∧
        after.destroyed =
          (node :: chain.takeWhile (outside · = 0)).reverse ++
            heap.destroyed ∧
        after.nodes =
          heap.nodes \ (node :: chain.takeWhile (outside · = 0)).toFinset ∧
        (∀ other ∉ node :: chain.takeWhile (outside · = 0),
          after.next other = heap.next other ∧
            after.count other =
              heap.count other -
                if (chain.dropWhile (outside · = 0)).head? = some other then
                  1
                else
                  0) ∧
        after.depth = heap.depth ∧
        after.deepest ≤ max heap.deepest (heap.depth + 2) := by
  obtain ⟨less, rfl⟩ : ∃ less, fuel = less + 2 + 1 :=
    ⟨fuel - 3, by omega⟩
  obtain ⟨apart, distinctChain⟩ := List.nodup_cons.mp distinct
  have inside := present node List.mem_cons_self
  let dropped := heap.decremented node
  have kept :
      ∀ other ∈ chain, dropped.count other = heap.count other := by
    intro other member
    refine Function.update_of_ne ?_ ..
    rintro rfl
    exact apart member
  have owned : Owned dropped chain := by
    refine ⟨distinctChain, fun other member => ?_, fun other member => ?_⟩
    · exact present other (.tail _ member)
    · rw [kept other member, counted other member]
      omega
  have fits :
      ∀ other ∈ chain, dropped.count other = 1 + outside other :=
    fun other member =>
      (kept other member).trans (counted other member)
  obtain ⟨front, back⟩ := unshared_eq fits
  obtain ⟨rest, dismantled, ran⟩ :
      ∃ rest,
        Dismantled ((dropped.enter node).cut node) rest
            (chain.takeWhile (outside · = 0)) ∧
          heap.release (less + 2 + 1) (some node) =
            .ok
              ((rest.unreferenced
                (chain.dropWhile (outside · = 0)).head?).leave node) := by
    rw [← front, ← back]
    refine ⟨_, dismantled_foldl _ _, ?_⟩
    rw [release_last inside last]
    exact destruct_spec less inside linked.2 apart owned (by omega)
  rw [Heap.unreferenced_eq] at ran
  refine ⟨_, ran, ?_, ?_, fun other away => ?_, ?_, ?_⟩
  · simp only [Heap.leave, dismantled.destroyed, List.reverse_cons,
      List.append_assoc]
    rfl
  · have others : rest.nodes =
        heap.nodes \ (chain.takeWhile (outside · = 0)).toFinset :=
      dismantled.nodes
    simp only [Heap.leave, others, List.toFinset_cons]
    ext other
    simp only [Finset.mem_erase, Finset.mem_sdiff, Finset.mem_insert]
    tauto
  · obtain ⟨different, later⟩ := not_or.mp (List.mem_cons.not.mp away)
    have word : rest.next other = heap.next other :=
      (dismantled.next other later).trans
        (Function.update_of_ne different ..)
    have references : rest.count other = heap.count other :=
      (dismantled.count other later).trans
        (Function.update_of_ne different ..)
    simp only [Heap.leave, word, references]
    exact ⟨trivial, trivial⟩
  · simp only [Heap.leave, dismantled.depth]
    rfl
  · refine Nat.le_trans dismantled.deepest ?_
    simp only [Heap.cut, Heap.enter, dropped, Heap.decremented]
    omega

/-- Three nodes, the first next word marked, the last node held outside. -/
def markedChain : Heap Nat where
  nodes := {0, 1, 2}
  next := fun node =>
    if node = 0 then
      ⟨some 1, true⟩
    else if node = 1 then
      ⟨some 2, false⟩
    else
      .null
  count := fun node => if node = 2 then 2 else 1
  destroyed := []
  depth := 0
  deepest := 0

/-- The first two are destroyed, and the third loses the word that held it. -/
theorem destruction_exact_markedChain :
    ∃ after,
      markedChain.release 5 (some 0) = .ok after ∧
        after.destroyed = [1, 0] ∧
        after.count 2 = 1 ∧
        after.deepest ≤ 2 := by
  obtain ⟨after, ran, destroyed, -, others, -, deepest⟩ :=
    destruction_exact markedChain 0 [1, 2]
      (fun node => if node = 2 then 1 else 0)
      ⟨rfl, rfl, rfl, rfl⟩ (by decide) (by decide) rfl (by decide)
      (Nat.le_refl 5)
  refine ⟨after, ran, destroyed, ?_, deepest⟩
  have third := (others 2 (by decide)).2
  exact third.trans (by decide)

end ConcurrentCpp.NodeDestruction
