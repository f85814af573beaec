import Mathlib.Algebra.Order.Group.Int
import Mathlib.Data.Finset.Card
import Mathlib.Data.Fintype.Basic
import Mathlib.Data.List.Count

namespace ConcurrentCpp.HandleAssignment

/-!
# Assignment of intrusive handles

`shared_ptr_type` of the intrusive pointers with `delete_disposal`, in one
thread.  Handles are variables or members of objects.  The release of an
object's last reference deletes it in place, which destroys its members and
releases what they own, and so on, in the middle of an assignment.

Whatever touches a handle or a count checks that it still exists; to touch it
afterwards is a fault.
-/

variable {O H : Type}

/-- The word of a handle: a pointer and the mark. -/
structure Word (O : Type) where
  ptr : Option O
  mark : Bool
  deriving DecidableEq

/-- `nullptr`, without the mark. -/
def Word.null : Word O :=
  ⟨none, false⟩

/--
Objects and handles.  `home` says which object a handle is a member of, and
`members` in which order a destructor destroys them; `deleted` records the
objects that were deleted, latest first.
-/
structure Heap (O H : Type) where
  objects : Finset O
  handles : Finset H
  word : H → Word O
  count : O → Int
  home : H → Option O
  members : O → List H
  deleted : List O

/-- How an assignment can go wrong. -/
inductive Fault where
  | destroyedHandle
  | deletedObject
  | outOfFuel
  deriving DecidableEq

variable [DecidableEq O] [DecidableEq H]

namespace Heap

/-- The read of the word of a handle. -/
def read
    (heap : Heap O H)
    (handle : H) :
    Except Fault (Word O) :=
  if handle ∈ heap.handles then
    .ok (heap.word handle)
  else
    .error .destroyedHandle

/-- The write of the word of a handle. -/
def write
    (heap : Heap O H)
    (handle : H)
    (word : Word O) :
    Except Fault (Heap O H) :=
  if handle ∈ heap.handles then
    .ok { heap with word := Function.update heap.word handle word }
  else
    .error .destroyedHandle

/-- `AddRef()` of a pointee, unless it is null. -/
def addRef
    (heap : Heap O H) :
    Option O → Except Fault (Heap O H)
  | none => .ok heap
  | some object =>
      if object ∈ heap.objects then
        .ok
          { heap with
            count :=
              Function.update heap.count object (heap.count object + 1) }
      else
        .error .deletedObject

/-- `DelRef()` of an object: whether this was the last reference. -/
def delRef
    (heap : Heap O H)
    (object : O) :
    Except Fault (Bool × Heap O H) :=
  if object ∈ heap.objects then
    .ok (heap.count object = 1,
      { heap with
        count :=
          Function.update heap.count object (heap.count object - 1) })
  else
    .error .deletedObject

/-- The object is gone; its members are still to be destroyed. -/
def remove
    (heap : Heap O H)
    (object : O) :
    Heap O H :=
  { heap with
    objects := heap.objects.erase object
    deleted := object :: heap.deleted }

/-- `~shared_ptr_type()`, given how a reference is released. -/
def destroy
    (release : Heap O H → Option O → Except Fault (Heap O H))
    (heap : Heap O H)
    (handle : H) :
    Except Fault (Heap O H) := do
  let word ← heap.read handle
  release { heap with handles := heap.handles.erase handle } word.ptr

/--
`delete_disposal::release(p)`.  The fuel bounds how deep deletions nest.
-/
def release :
    Nat → Heap O H → Option O → Except Fault (Heap O H)
  | _, heap, none => .ok heap
  | fuel, heap, some object => do
      let (last, heap) ← heap.delRef object
      if last then
        match fuel with
        | 0 => .error .outOfFuel
        | fuel + 1 =>
            (heap.members object).foldlM (destroy (release fuel))
              (heap.remove object)
      else
        .ok heap

/-- The copy assignment `target = source`. -/
def assignCopy
    (fuel : Nat)
    (heap : Heap O H)
    (target source : H) :
    Except Fault (Heap O H) :=
  if target = source then
    .ok heap
  else do
    let newWord ← heap.read source
    let heap ← heap.addRef newWord.ptr
    let oldWord ← heap.read target
    let heap ← heap.release fuel oldWord.ptr
    heap.write target newWord

/-- The move assignment `target = std::move(source)`. -/
def assignMove
    (fuel : Nat)
    (heap : Heap O H)
    (target source : H) :
    Except Fault (Heap O H) :=
  if target = source then
    .ok heap
  else do
    let oldWord ← heap.read target
    let newWord ← heap.read source
    let heap ← heap.write target newWord
    let heap ← heap.write source .null
    heap.release fuel oldWord.ptr

/-- The handles that own an object. -/
def owners
    (heap : Heap O H)
    (object : O) :
    Finset H :=
  heap.handles.filter fun handle => (heap.word handle).ptr = some object

/-- The members of every object are the handles that live in it. -/
def Housed (heap : Heap O H) : Prop :=
  ∀ object ∈ heap.objects,
    (heap.members object).Nodup ∧
      ∀ handle,
        handle ∈ heap.members object ↔
          handle ∈ heap.handles ∧ heap.home handle = some object

/--
An ownership graph: handles own objects that exist, every count is the number
of owners, and the members of an object are the handles that live in it.
-/
structure Consistent (heap : Heap O H) : Prop where
  owned :
    ∀ {handle object},
      handle ∈ heap.handles →
      (heap.word handle).ptr = some object →
      object ∈ heap.objects
  counted :
    ∀ {object},
      object ∈ heap.objects →
      heap.count object = (heap.owners object).card
  housed :
    ∀ {handle object},
      handle ∈ heap.handles →
      heap.home handle = some object →
      object ∈ heap.objects
  members : heap.Housed

end Heap

/-- The two assignments. -/
inductive Kind where
  | copy
  | move
  deriving DecidableEq

/-- An assignment of either kind. -/
def Heap.assign
    (heap : Heap O H)
    (kind : Kind)
    (fuel : Nat)
    (target source : H) :
    Except Fault (Heap O H) :=
  match kind with
  | .copy => heap.assignCopy fuel target source
  | .move => heap.assignMove fuel target source

/--
The last owner of an object vanishes: the object was owned or loses a
reference now, and every handle that is to own it is a member of an object
whose last owner vanishes, too.
-/
inductive LastOwnerVanishes
    (handles : Finset H)
    (home : H → Option O)
    (word : H → Word O)
    (released : Option O) :
    O → Prop
  | intro
      {object : O}
      (parent : H → O)
      (loses :
        released = some object ∨
          ∃ handle ∈ handles, (word handle).ptr = some object)
      (inside :
        ∀ handle ∈ handles,
          (word handle).ptr = some object →
          home handle = some (parent handle))
      (vanish :
        ∀ handle ∈ handles,
          (word handle).ptr = some object →
          LastOwnerVanishes handles home word released
            (parent handle)) :
      LastOwnerVanishes handles home word released object

section Purpose

variable (heap : Heap O H) (kind : Kind) (target source : H)

/-- The words that the handles are to have, if they survive. -/
def Heap.assigned : H → Word O :=
  if target = source then
    heap.word
  else
    match kind with
    | .copy => Function.update heap.word target (heap.word source)
    | .move =>
        Function.update
          (Function.update heap.word target (heap.word source)) source
          .null

/-- The object that loses the reference of the target. -/
def Heap.released : Option O :=
  if target = source then none else (heap.word target).ptr

/-- The objects whose last owner vanishes in the assignment. -/
def Heap.Vanishes (object : O) : Prop :=
  LastOwnerVanishes heap.handles heap.home
    (heap.assigned kind target source) (heap.released target source)
    object

end Purpose

section Counting

variable
  {handles : Finset H}
  {handle : H}

/-- A handle less among the owners of an object. -/
theorem card_owners_erase
    (exists' : handle ∈ handles)
    (word : H → Word O)
    (object : O) :
    ((handles.erase handle).filter fun other =>
        (word other).ptr = some object).card +
        (word handle).ptr.toList.count object =
      (handles.filter fun other => (word other).ptr = some object).card := by
  rw [Finset.filter_erase]
  by_cases owns : (word handle).ptr = some object
  · have member :
        handle ∈ handles.filter fun other =>
          (word other).ptr = some object :=
      Finset.mem_filter.mpr ⟨exists', owns⟩
    have once : (word handle).ptr.toList.count object = 1 := by
      simp [owns]
    rw [once]
    exact Finset.card_erase_add_one member
  · have absent :
        handle ∉ handles.filter fun other =>
          (word other).ptr = some object :=
      fun member => owns (Finset.mem_filter.mp member).2
    have never : (word handle).ptr.toList.count object = 0 := by
      refine List.count_eq_zero.mpr fun member => ?_
      exact owns (Option.mem_toList.mp member)
    rw [Finset.erase_eq_of_notMem absent, never, Nat.add_zero]

/-- A handle gives up one object and takes another. -/
theorem card_owners_update
    (exists' : handle ∈ handles)
    (word : H → Word O)
    (value : Word O)
    (object : O) :
    (handles.filter fun other =>
        (Function.update word handle value other).ptr =
          some object).card +
        (word handle).ptr.toList.count object =
      (handles.filter fun other => (word other).ptr = some object).card +
        value.ptr.toList.count object := by
  have before := card_owners_erase exists' word object
  have after :=
    card_owners_erase exists' (Function.update word handle value) object
  have others :
      ((handles.erase handle).filter fun other =>
          (Function.update word handle value other).ptr = some object) =
        (handles.erase handle).filter fun other =>
          (word other).ptr = some object := by
    refine Finset.filter_congr fun other member => ?_
    rw [Function.update_of_ne (Finset.ne_of_mem_erase member)]
  rw [others, Function.update_self] at after
  omega

end Counting

section Cascade

/--
In the middle of a release: `view` are the words that the handles are to have
in the end, `debt` the references that are still to be released, `pending` the
members of deleted objects that are still to be destroyed.
-/
structure Cascade
    (start : Heap O H)
    (view : H → Word O)
    (lost : Option O)
    (heap : Heap O H)
    (debt : List O)
    (pending : List H) : Prop where
  word : heap.word = start.word
  home : heap.home = start.home
  members : heap.members = start.members
  handles : heap.handles ⊆ start.handles
  objects : heap.objects ⊆ start.objects
  owned :
    ∀ {handle object},
      handle ∈ heap.handles →
      (view handle).ptr = some object →
      object ∈ heap.objects
  due : ∀ {object}, object ∈ debt → object ∈ heap.objects
  counted :
    ∀ {object},
      object ∈ heap.objects →
      heap.count object =
        ((heap.handles.filter fun handle =>
            (view handle).ptr = some object).card : Int) +
          debt.count object
  alive :
    ∀ {handle object},
      handle ∈ start.handles →
      start.home handle = some object →
      object ∈ heap.objects →
      handle ∈ heap.handles
  destroyed :
    ∀ {handle},
      handle ∈ start.handles →
      handle ∉ heap.handles →
      ∃ object,
        start.home handle = some object ∧
          LastOwnerVanishes start.handles start.home view lost object
  deleted :
    ∀ {object},
      object ∈ start.objects →
      object ∉ heap.objects →
      LastOwnerVanishes start.handles start.home view lost object
  loses :
    ∀ {object},
      object ∈ debt →
      lost = some object ∨
        ∃ handle ∈ start.handles, (view handle).ptr = some object
  pendingAlive : ∀ {handle}, handle ∈ pending → handle ∈ heap.handles
  pendingHome :
    ∀ {handle},
      handle ∈ pending →
      ∃ object,
        start.home handle = some object ∧
          object ∈ start.objects ∧ object ∉ heap.objects
  pendingDistinct : pending.Nodup
  housed :
    ∀ {handle object},
      handle ∈ heap.handles →
      start.home handle = some object →
      object ∈ heap.objects ∨ handle ∈ pending
  log :
    ∃ recent,
      heap.deleted = recent ++ start.deleted ∧
        recent.Nodup ∧
        ∀ object,
          object ∈ recent ↔
            object ∈ start.objects ∧ object ∉ heap.objects
  zero :
    ∀ {object},
      object ∈ heap.objects →
      heap.count object = 0 →
      start.count object = 0

variable
  {start heap : Heap O H}
  {view : H → Word O}
  {lost : Option O}
  {debt : List O}
  {pending : List H}

omit [DecidableEq H] in
/-- One reference less to an object that has more. -/
theorem Cascade.decrement
    {object : O}
    (cascade : Cascade start view lost heap (object :: debt) pending)
    (more : heap.count object ≠ 1) :
    Cascade start view lost
      { heap with
        count :=
          Function.update heap.count object (heap.count object - 1) }
      debt pending :=
  { cascade with
    due := fun member => cascade.due (List.mem_cons_of_mem _ member)
    counted := by
      intro other exists'
      have known := cascade.counted exists'
      by_cases same : other = object
      · subst same
        rw [List.count_cons_self] at known
        simp only [Function.update_self]
        push_cast at known ⊢
        omega
      · rw [List.count_cons_of_ne (Ne.symm same)] at known
        simpa only [Function.update_of_ne same] using known
    loses := fun member => cascade.loses (List.mem_cons_of_mem _ member)
    zero := by
      intro other exists' none
      by_cases same : other = object
      · subst same
        simp only [Function.update_self] at none
        omega
      · simp only [Function.update_of_ne same] at none
        exact cascade.zero exists' none }

omit [DecidableEq H] in
/-- An object whose count drops to zero has lost its last owner. -/
theorem Cascade.last
    {object : O}
    (cascade : Cascade start view lost heap (object :: debt) pending)
    (one : heap.count object = 1) :
    (∀ handle ∈ heap.handles, (view handle).ptr ≠ some object) ∧
      object ∉ debt ∧
      LastOwnerVanishes start.handles start.home view lost object := by
  have total := cascade.counted (cascade.due List.mem_cons_self)
  rw [List.count_cons_self, one] at total
  push_cast at total
  have noOwner :
      (heap.handles.filter fun handle =>
        (view handle).ptr = some object).card = 0 := by
    omega
  have noDebt : debt.count object = 0 := by
    omega
  have unowned :
      ∀ handle ∈ heap.handles, (view handle).ptr ≠ some object := by
    intro handle exists' owns
    rw [Finset.card_eq_zero] at noOwner
    have member :
        handle ∈ heap.handles.filter fun handle =>
          (view handle).ptr = some object :=
      Finset.mem_filter.mpr ⟨exists', owns⟩
    rw [noOwner] at member
    exact absurd member (Finset.notMem_empty handle)
  refine ⟨unowned, List.count_eq_zero.mp noDebt, ?_⟩
  have gone :
      ∀ handle ∈ start.handles,
        (view handle).ptr = some object →
        ∃ parent,
          start.home handle = some parent ∧
            LastOwnerVanishes start.handles start.home view lost parent :=
    fun handle exists' owns =>
      cascade.destroyed exists' fun still => unowned handle still owns
  refine .intro (fun handle => (start.home handle).getD object)
    (cascade.loses List.mem_cons_self) ?_ ?_
  · intro handle exists' owns
    obtain ⟨parent, home, -⟩ := gone handle exists' owns
    simp [home]
  · intro handle exists' owns
    obtain ⟨parent, home, vanishes⟩ := gone handle exists' owns
    simpa [home] using vanishes

omit [DecidableEq H] in
/-- The object whose last owner vanished is deleted. -/
theorem Cascade.delete
    (housed : start.Housed)
    {object : O}
    (cascade : Cascade start view lost heap (object :: debt) pending)
    (one : heap.count object = 1) :
    Cascade start view lost
      (({ heap with
          count :=
            Function.update heap.count object
              (heap.count object - 1) } : Heap O H).remove object)
      debt (heap.members object ++ pending) := by
  obtain ⟨unowned, unindebted, vanishes⟩ := cascade.last one
  have current := cascade.due List.mem_cons_self
  have member := housed object (cascade.objects current)
  rw [← cascade.members] at member
  refine
    { cascade with
      objects := fun _ kept =>
        cascade.objects (Finset.mem_of_mem_erase kept)
      owned := ?_
      due := ?_
      counted := ?_
      alive := fun exists' home kept =>
        cascade.alive exists' home (Finset.mem_of_mem_erase kept)
      deleted := ?_
      loses := fun member =>
        cascade.loses (List.mem_cons_of_mem _ member)
      pendingAlive := ?_
      pendingHome := ?_
      pendingDistinct := ?_
      housed := ?_
      log := ?_
      zero := ?_ }
  · intro handle other exists' owns
    refine Finset.mem_erase.mpr ⟨?_, cascade.owned exists' owns⟩
    rintro rfl
    exact unowned handle exists' owns
  · intro other inDebt
    refine Finset.mem_erase.mpr
      ⟨?_, cascade.due (List.mem_cons_of_mem _ inDebt)⟩
    rintro rfl
    exact unindebted inDebt
  · intro other kept
    obtain ⟨different, kept⟩ := Finset.mem_erase.mp kept
    have known := cascade.counted kept
    rw [List.count_cons_of_ne (Ne.symm different)] at known
    simpa only [Heap.remove, Function.update_of_ne different] using known
  · intro other exists' gone
    by_cases same : other = object
    · subst same
      exact vanishes
    · refine cascade.deleted exists' fun kept => gone ?_
      exact Finset.mem_erase.mpr ⟨same, kept⟩
  · intro handle isPending
    rcases List.mem_append.mp isPending with isMember | isPending
    · obtain ⟨exists', home⟩ := (member.2 handle).mp isMember
      exact cascade.alive exists' home current
    · exact cascade.pendingAlive isPending
  · intro handle isPending
    rcases List.mem_append.mp isPending with isMember | isPending
    · obtain ⟨-, home⟩ := (member.2 handle).mp isMember
      exact ⟨object, home, cascade.objects current,
        Finset.notMem_erase object _⟩
    · obtain ⟨other, home, exists', gone⟩ := cascade.pendingHome isPending
      exact ⟨other, home, exists',
        fun kept => gone (Finset.mem_of_mem_erase kept)⟩
  · refine List.nodup_append.mpr
      ⟨member.1, cascade.pendingDistinct, ?_⟩
    rintro handle isMember _ isPending rfl
    obtain ⟨-, home⟩ := (member.2 handle).mp isMember
    obtain ⟨other, homeOther, -, gone⟩ := cascade.pendingHome isPending
    rw [home] at homeOther
    cases homeOther
    exact gone current
  · intro handle other exists' home
    by_cases same : other = object
    · subst same
      exact .inr (List.mem_append_left _
        ((member.2 handle).mpr ⟨cascade.handles exists', home⟩))
    · rcases cascade.housed exists' home with kept | isPending
      · exact .inl (Finset.mem_erase.mpr ⟨same, kept⟩)
      · exact .inr (List.mem_append_right _ isPending)
  · obtain ⟨recent, log, distinct, exact'⟩ := cascade.log
    refine ⟨object :: recent, by simp [Heap.remove, log],
      List.nodup_cons.mpr ⟨fun again => ?_, distinct⟩, fun other => ?_⟩
    · exact ((exact' object).mp again).2 current
    · by_cases same : other = object
      · subst same
        simp [Heap.remove, cascade.objects current]
      · simp [Heap.remove, exact' other, same]
  · intro other kept none
    obtain ⟨different, kept⟩ := Finset.mem_erase.mp kept
    simp only [Heap.remove, Function.update_of_ne different] at none
    exact cascade.zero kept none

/-- A member of a deleted object is destroyed. -/
theorem Cascade.destroy
    {handle : H}
    (cascade : Cascade start view lost heap debt (handle :: pending)) :
    Cascade start view lost
      { heap with handles := heap.handles.erase handle }
      ((view handle).ptr.toList ++ debt) pending := by
  have current := cascade.pendingAlive List.mem_cons_self
  obtain ⟨outside, distinct⟩ := List.nodup_cons.mp cascade.pendingDistinct
  refine
    { cascade with
      handles := fun _ kept =>
        cascade.handles (Finset.mem_of_mem_erase kept)
      owned := fun exists' owns =>
        cascade.owned (Finset.mem_of_mem_erase exists') owns
      due := ?_
      counted := ?_
      alive := ?_
      destroyed := ?_
      loses := ?_
      pendingAlive := ?_
      pendingHome := fun isPending =>
        cascade.pendingHome (List.mem_cons_of_mem _ isPending)
      pendingDistinct := distinct
      housed := ?_ }
  · intro object inDebt
    rcases List.mem_append.mp inDebt with owned | inDebt
    · exact cascade.owned current (Option.mem_toList.mp owned)
    · exact cascade.due inDebt
  · intro object exists'
    have known := cascade.counted exists'
    have fewer := card_owners_erase current view object
    rw [List.count_append]
    push_cast
    omega
  · intro other object exists' home kept
    refine Finset.mem_erase.mpr ⟨?_, cascade.alive exists' home kept⟩
    rintro rfl
    obtain ⟨deleted, homeDeleted, -, gone⟩ :=
      cascade.pendingHome List.mem_cons_self
    rw [home] at homeDeleted
    cases homeDeleted
    exact gone kept
  · intro other exists' gone
    by_cases same : other = handle
    · subst same
      obtain ⟨object, home, present, deleted⟩ :=
        cascade.pendingHome List.mem_cons_self
      exact ⟨object, home, cascade.deleted present deleted⟩
    · refine cascade.destroyed exists' fun kept => gone ?_
      exact Finset.mem_erase.mpr ⟨same, kept⟩
  · intro object inDebt
    rcases List.mem_append.mp inDebt with owned | inDebt
    · exact .inr ⟨handle, cascade.handles current,
        Option.mem_toList.mp owned⟩
    · exact cascade.loses inDebt
  · intro other isPending
    refine Finset.mem_erase.mpr
      ⟨?_, cascade.pendingAlive (List.mem_cons_of_mem _ isPending)⟩
    rintro rfl
    exact outside isPending
  · intro other object exists' home
    obtain ⟨different, kept⟩ := Finset.mem_erase.mp exists'
    rcases cascade.housed kept home with present | isPending
    · exact .inl present
    · rcases List.mem_cons.mp isPending with same | isPending
      · exact absurd same different
      · exact .inr isPending

/--
The members of objects that vanish hold what they are to hold in the end.
-/
def Settled
    (start : Heap O H)
    (view : H → Word O)
    (lost : Option O) : Prop :=
  ∀ {handle object},
    start.home handle = some object →
    LastOwnerVanishes start.handles start.home view lost object →
    start.word handle = view handle

/-- What a program does that releases a reference in the middle of a release. -/
def Releases
    (start : Heap O H)
    (view : H → Word O)
    (lost : Option O)
    (bound : Nat)
    (release : Heap O H → Option O → Except Fault (Heap O H)) : Prop :=
  ∀ {heap : Heap O H} {debt : List O} {pending : List H}
    (reference : Option O),
    Cascade start view lost heap (reference.toList ++ debt) pending →
    heap.objects.card ≤ bound →
    ∃ after,
      release heap reference = .ok after ∧
        after.objects ⊆ heap.objects ∧
        Cascade start view lost after debt pending

/-- A destructor destroys the members of its object one after another. -/
theorem Cascade.destroyMembers
    {bound : Nat}
    {release : Heap O H → Option O → Except Fault (Heap O H)}
    (releases : Releases start view lost bound release)
    (settled : Settled start view lost)
    (members : List H)
    (cascade : Cascade start view lost heap debt (members ++ pending))
    (small : heap.objects.card ≤ bound) :
    ∃ after,
      members.foldlM (Heap.destroy release) heap = .ok after ∧
        after.objects ⊆ heap.objects ∧
        Cascade start view lost after debt pending := by
  induction members generalizing heap with
  | nil =>
      exact ⟨heap, rfl, subset_rfl, cascade⟩
  | cons handle members induct =>
      have current := cascade.pendingAlive List.mem_cons_self
      obtain ⟨object, home, present, gone⟩ :=
        cascade.pendingHome List.mem_cons_self
      have same : heap.word handle = view handle := by
        rw [cascade.word]
        exact settled home (cascade.deleted present gone)
      obtain ⟨middle, runs, fewer, cascade⟩ :=
        releases (view handle).ptr cascade.destroy small
      obtain ⟨after, rest, fewest, cascade⟩ :=
        induct cascade ((Finset.card_le_card fewer).trans small)
      refine ⟨after, ?_, fewest.trans fewer, cascade⟩
      have first : Heap.destroy release heap handle = .ok middle := by
        simpa only [Heap.destroy, Heap.read, if_pos current, same, bind,
          Except.bind] using runs
      rw [List.foldlM_cons, first]
      exact rest

/--
`release` settles its reference, with all that follows, when its fuel is the
number of objects: every nested deletion has one object less.
-/
theorem release_spec
    (housed : start.Housed)
    (settled : Settled start view lost)
    (fuel : Nat) :
    Releases start view lost fuel (Heap.release fuel) := by
  induction fuel with
  | zero =>
      intro heap debt pending reference cascade small
      cases reference with
      | none =>
          exact ⟨heap, by simp [Heap.release], subset_rfl, cascade⟩
      | some object =>
          have current := cascade.due List.mem_cons_self
          have positive := Finset.card_pos.mpr ⟨object, current⟩
          omega
  | succ fuel induct =>
      intro heap debt pending reference cascade small
      cases reference with
      | none =>
          exact ⟨heap, by simp [Heap.release], subset_rfl, cascade⟩
      | some object =>
          have current := cascade.due List.mem_cons_self
          by_cases one : heap.count object = 1
          · have removed := cascade.delete housed one
            have fewer := Finset.card_erase_add_one current
            obtain ⟨after, runs, fewest, cascade⟩ :=
              Cascade.destroyMembers induct settled _ removed
                (by simp only [Heap.remove]; omega)
            refine ⟨after, ?_,
              fewest.trans (Finset.erase_subset _ _), cascade⟩
            simpa [Heap.release, Heap.delRef, current, one, bind, Except.bind]
              using runs
          · have less := cascade.decrement one
            refine ⟨_, ?_, ?_, less⟩
            · simp [Heap.release, Heap.delRef, current, one, bind, Except.bind]
            · exact subset_rfl

omit [DecidableEq H] in
/-- The begin of a release. -/
theorem Cascade.begun
    (owned :
      ∀ {handle object},
        handle ∈ start.handles →
        (view handle).ptr = some object →
        object ∈ start.objects)
    (due : ∀ {object}, lost = some object → object ∈ start.objects)
    (counted :
      ∀ {object},
        object ∈ start.objects →
        start.count object =
          ((start.handles.filter fun handle =>
              (view handle).ptr = some object).card : Int) +
            lost.toList.count object)
    (housed :
      ∀ {handle object},
        handle ∈ start.handles →
        start.home handle = some object →
        object ∈ start.objects) :
    Cascade start view lost start lost.toList [] where
  word := rfl
  home := rfl
  members := rfl
  handles := subset_rfl
  objects := subset_rfl
  owned := owned
  due := fun inDebt => due (Option.mem_toList.mp inDebt)
  counted := counted
  alive := fun exists' _ _ => exists'
  destroyed := fun exists' gone => absurd exists' gone
  deleted := fun exists' gone => absurd exists' gone
  loses := fun inDebt => .inl (Option.mem_toList.mp inDebt)
  pendingAlive := fun none => absurd none List.not_mem_nil
  pendingHome := fun none => absurd none List.not_mem_nil
  pendingDistinct := List.nodup_nil
  housed := fun exists' home => .inl (housed exists' home)
  log := by
    refine ⟨[], rfl, List.nodup_nil, fun object => ?_⟩
    simp only [List.not_mem_nil, false_iff, not_and, not_not]
    exact id
  zero := fun _ none => none

/-- A release from its begin to its end. -/
theorem Cascade.run
    (started : Cascade start view lost start lost.toList [])
    (housed : start.Housed)
    (settled : Settled start view lost)
    {fuel : Nat}
    (enough : start.objects.card ≤ fuel) :
    ∃ after,
      start.release fuel lost = .ok after ∧
        Cascade start view lost after [] [] := by
  rw [← List.append_nil lost.toList] at started
  obtain ⟨after, runs, -, ended⟩ :=
    release_spec housed settled fuel lost started enough
  exact ⟨after, runs, ended⟩

omit [DecidableEq H] in
/-- After a release, no object is left whose last owner vanishes. -/
theorem Cascade.complete
    (started : Cascade start view lost start lost.toList [])
    (ended : Cascade start view lost heap [] [])
    {object : O}
    (vanishes :
      LastOwnerVanishes start.handles start.home view lost object) :
    object ∈ start.objects ∧ object ∉ heap.objects := by
  induction vanishes with
  | @intro object parent loses inside _ induct =>
      have present : object ∈ start.objects := by
        rcases loses with released | ⟨handle, exists', owns⟩
        · exact started.due (Option.mem_toList.mpr released)
        · exact started.owned exists' owns
      refine ⟨present, fun kept => ?_⟩
      -- No owner is left, so the count is zero; it was not at the start.
      have unowned :
          ∀ handle ∈ heap.handles, (view handle).ptr ≠ some object := by
        intro handle exists' owns
        have existed := ended.handles exists'
        have home := inside handle existed owns
        rcases ended.housed exists' home with alive | none
        · exact (induct handle existed owns).2 alive
        · exact absurd none List.not_mem_nil
      have empty := ended.counted kept
      rw [Finset.filter_false_of_mem unowned] at empty
      have zero := ended.zero kept empty
      have total := started.counted present
      rw [zero] at total
      rcases loses with released | ⟨handle, exists', owns⟩
      · have once : lost.toList.count object = 1 := by
          simp [released]
        omega
      · have member :
            handle ∈ start.handles.filter fun handle =>
              (view handle).ptr = some object :=
          Finset.mem_filter.mpr ⟨exists', owns⟩
        have positive := Finset.card_pos.mpr ⟨handle, member⟩
        omega

omit [DecidableEq H] in
/-- After a release, the objects and handles left are an ownership graph. -/
theorem Cascade.consistent
    (housed : start.Housed)
    (ended : Cascade start view lost heap [] []) :
    ({ heap with word := view } : Heap O H).Consistent where
  owned := ended.owned
  counted := by
    intro object exists'
    simpa [Heap.owners] using ended.counted exists'
  housed := by
    intro handle object exists' home
    simp only [ended.home] at home
    rcases ended.housed exists' home with alive | none
    · exact alive
    · exact absurd none List.not_mem_nil
  members := by
    intro object exists'
    have member := housed object (ended.objects exists')
    simp only [ended.members, ended.home]
    refine ⟨member.1, fun handle => ?_⟩
    rw [member.2 handle]
    constructor
    · rintro ⟨existed, home⟩
      exact ⟨ended.alive existed home exists', home⟩
    · rintro ⟨still, home⟩
      exact ⟨ended.handles still, home⟩

end Cascade

section Assignment

variable
  {heap : Heap O H}
  {kind : Kind}
  {target source : H}

/-- What an assignment leaves behind. -/
structure Assigned
    (heap after : Heap O H)
    (kind : Kind)
    (target source : H) : Prop where
  holds : target ∈ after.handles ∧ after.word target = heap.word source
  moved :
    kind = .move →
    source ≠ target →
    source ∈ after.handles →
    after.word source = .null
  words :
    ∀ {handle},
      handle ∈ after.handles →
      handle ≠ target →
      handle ≠ source ∨ kind = .copy →
      after.word handle = heap.word handle
  handles :
    ∀ handle,
      handle ∈ after.handles ↔
        handle ∈ heap.handles ∧
          ∀ object,
            heap.home handle = some object →
            ¬ heap.Vanishes kind target source object
  objects :
    ∀ object,
      object ∈ after.objects ↔
        object ∈ heap.objects ∧ ¬ heap.Vanishes kind target source object
  deleted :
    ∃ recent,
      after.deleted = recent ++ heap.deleted ∧
        recent.Nodup ∧
        ∀ object,
          object ∈ recent ↔ heap.Vanishes kind target source object
  consistent : after.Consistent

omit [DecidableEq O] [DecidableEq H] in
/-- Without a release no last owner vanishes. -/
theorem not_lastOwnerVanishes
    {handles : Finset H}
    {home : H → Option O}
    {word : H → Word O}
    {object : O} :
    ¬ LastOwnerVanishes handles home word none object := by
  intro vanishes
  induction vanishes with
  | intro parent loses _ _ induct =>
      rcases loses with released | ⟨handle, exists', owns⟩
      · cases released
      · exact induct handle exists' owns

/-- The assignment of a handle to itself. -/
theorem Heap.Consistent.assigned_self
    (consistent : heap.Consistent)
    (exists' : target ∈ heap.handles) :
    Assigned heap heap kind target target := by
  have none : ∀ object, ¬ heap.Vanishes kind target target object := by
    intro object vanishes
    rw [Heap.Vanishes, Heap.released, if_pos rfl] at vanishes
    exact not_lastOwnerVanishes vanishes
  exact
    { holds := ⟨exists', rfl⟩
      moved := fun _ different => absurd rfl different
      words := fun _ _ _ => rfl
      handles := fun handle => by simp [none]
      objects := fun object => by simp [none]
      deleted := ⟨[], rfl, List.nodup_nil, fun object => by simp [none]⟩
      consistent := consistent }

/--
The release of an assignment, from a heap in which all is done except for it,
and the store of the words that are to be.
-/
theorem Heap.Consistent.assigned_of_cascade
    (consistent : heap.Consistent)
    (different : target ≠ source)
    (exists' : target ∈ heap.handles)
    (outside :
      ∀ object,
        heap.home target = some object →
        ¬ heap.Vanishes kind target source object)
    {start after : Heap O H}
    (started :
      Cascade start (heap.assigned kind target source)
        (heap.word target).ptr start (heap.word target).ptr.toList [])
    (ended :
      Cascade start (heap.assigned kind target source)
        (heap.word target).ptr after [] [])
    (handles : start.handles = heap.handles)
    (objects : start.objects = heap.objects)
    (home : start.home = heap.home)
    (members : start.members = heap.members)
    (log : start.deleted = heap.deleted) :
    Assigned heap
      { after with word := heap.assigned kind target source }
      kind target source := by
  have vanishes :
      ∀ object,
        heap.Vanishes kind target source object ↔
          object ∈ start.objects ∧ object ∉ after.objects := by
    intro object
    rw [Heap.Vanishes, Heap.released, if_neg different, ← handles, ← home]
    exact ⟨started.complete ended,
      fun gone => ended.deleted gone.1 gone.2⟩
  have survives :
      ∀ handle,
        handle ∈ after.handles ↔
          handle ∈ heap.handles ∧
            ∀ object,
              heap.home handle = some object →
              ¬ heap.Vanishes kind target source object := by
    intro handle
    constructor
    · intro still
      refine ⟨handles ▸ ended.handles still, fun object lives => ?_⟩
      rw [vanishes]
      rintro ⟨-, gone⟩
      rw [← home] at lives
      rcases ended.housed still lives with alive | none
      · exact gone alive
      · exact absurd none List.not_mem_nil
    · rintro ⟨existed, safe⟩
      by_contra gone
      obtain ⟨object, lives, vanished⟩ :=
        ended.destroyed (handles ▸ existed) gone
      refine safe object (home ▸ lives) ?_
      rw [Heap.Vanishes, Heap.released, if_neg different, ← handles,
        ← home]
      exact vanished
  have housed : start.Housed := by
    intro object present
    rw [members, handles, home]
    exact consistent.members object (objects ▸ present)
  refine
    { holds := ⟨(survives target).mpr ⟨exists', outside⟩, ?_⟩
      moved := ?_
      words := ?_
      handles := survives
      objects := ?_
      deleted := ?_
      consistent := ended.consistent housed }
  · cases kind with
    | copy =>
        simp [Heap.assigned, different]
    | move =>
        simp [Heap.assigned, different]
  · rintro rfl - -
    simp [Heap.assigned, different]
  · intro handle _ notTarget notSource
    cases kind with
    | copy =>
        simp [Heap.assigned, different, notTarget]
    | move =>
        have notSource : handle ≠ source := by
          simpa using notSource
        simp [Heap.assigned, different, notTarget, notSource]
  · intro object
    rw [vanishes, objects]
    constructor
    · intro kept
      exact ⟨objects ▸ ended.objects kept, fun gone => gone.2 kept⟩
    · rintro ⟨present, safe⟩
      by_contra gone
      exact safe ⟨present, gone⟩
  · obtain ⟨recent, log', distinct, exact'⟩ := ended.log
    refine ⟨recent, by rw [← log]; exact log', distinct, fun object => ?_⟩
    rw [exact' object, vanishes]

omit [DecidableEq H] in
/-- `AddRef()` of what exists adds one to its count. -/
theorem Heap.addRef_spec
    {reference : Option O}
    (exists' : ∀ {object}, reference = some object → object ∈ heap.objects) :
    heap.addRef reference =
      .ok
        { heap with
          count := fun object =>
            heap.count object + reference.toList.count object } := by
  cases reference with
  | none =>
      simp [Heap.addRef]
  | some object =>
      rw [Heap.addRef, if_pos (exists' rfl)]
      congr 2
      funext other
      by_cases same : other = object
      · subst same
        simp
      · simp [Function.update_of_ne same, Ne.symm same]

/-- What a handle owns once the target has taken the word of the source. -/
theorem Heap.Consistent.retarget_owned
    (consistent : heap.Consistent)
    (existsSource : source ∈ heap.handles)
    {handle : H}
    {object : O}
    (exists' : handle ∈ heap.handles)
    (owns :
      (Function.update heap.word target (heap.word source) handle).ptr =
        some object) :
    object ∈ heap.objects := by
  by_cases same : handle = target
  · subst same
    rw [Function.update_self] at owns
    exact consistent.owned existsSource owns
  · rw [Function.update_of_ne same] at owns
    exact consistent.owned exists' owns

/-- The counts with the new reference and without the old one. -/
theorem Heap.Consistent.retarget_counted
    (consistent : heap.Consistent)
    (existsTarget : target ∈ heap.handles)
    (source : H)
    {object : O}
    (exists' : object ∈ heap.objects) :
    heap.count object + (heap.word source).ptr.toList.count object =
      ((heap.handles.filter fun handle =>
          (Function.update heap.word target (heap.word source) handle).ptr =
            some object).card : Int) +
        (heap.word target).ptr.toList.count object := by
  have known := consistent.counted exists'
  have balance :=
    card_owners_update existsTarget heap.word (heap.word source) object
  rw [Heap.owners] at known
  omega

/-- The copy assignment, to another handle. -/
theorem Heap.Consistent.assignCopy
    (consistent : heap.Consistent)
    (different : target ≠ source)
    (existsTarget : target ∈ heap.handles)
    (existsSource : source ∈ heap.handles)
    (outside :
      ∀ object,
        heap.home target = some object →
        ¬ heap.Vanishes .copy target source object)
    {fuel : Nat}
    (enough : heap.objects.card ≤ fuel) :
    ∃ after,
      heap.assignCopy fuel target source = .ok after ∧
        Assigned heap after .copy target source := by
  have view :
      heap.assigned .copy target source =
        Function.update heap.word target (heap.word source) := by
    simp [Heap.assigned, different]
  let start : Heap O H :=
    { heap with
      count := fun object =>
        heap.count object + (heap.word source).ptr.toList.count object }
  have started :
      Cascade start (heap.assigned .copy target source)
        (heap.word target).ptr start (heap.word target).ptr.toList [] := by
    rw [view]
    exact Cascade.begun (consistent.retarget_owned existsSource)
      (consistent.owned existsTarget)
      (consistent.retarget_counted existsTarget source) consistent.housed
  have settled :
      Settled start (heap.assigned .copy target source)
        (heap.word target).ptr := by
    intro handle object home vanishes
    have safe : handle ≠ target := by
      rintro rfl
      refine outside object home ?_
      rw [Heap.Vanishes, Heap.released, if_neg different]
      exact vanishes
    rw [view, Function.update_of_ne safe]
  obtain ⟨after, runs, ended⟩ :=
    started.run consistent.members settled enough
  have assigned :=
    consistent.assigned_of_cascade different existsTarget outside
      started ended rfl rfl rfl rfl rfl
  refine ⟨_, ?_, assigned⟩
  have added :
      heap.addRef (heap.word source).ptr = .ok start :=
    Heap.addRef_spec (consistent.owned existsSource)
  have written :
      after.write target (heap.word source) =
        .ok { after with word := heap.assigned .copy target source } := by
    rw [Heap.write, if_pos assigned.holds.1, view, ended.word]
  simpa only [Heap.assignCopy, if_neg different, Heap.read,
    if_pos existsSource, if_pos existsTarget, added, bind, Except.bind,
    start, runs] using written

/-- The move assignment, from another handle. -/
theorem Heap.Consistent.assignMove
    (consistent : heap.Consistent)
    (different : target ≠ source)
    (existsTarget : target ∈ heap.handles)
    (existsSource : source ∈ heap.handles)
    (outside :
      ∀ object,
        heap.home target = some object →
        ¬ heap.Vanishes .move target source object)
    {fuel : Nat}
    (enough : heap.objects.card ≤ fuel) :
    ∃ after,
      heap.assignMove fuel target source = .ok after ∧
        Assigned heap after .move target source := by
  have view :
      heap.assigned .move target source =
        Function.update
          (Function.update heap.word target (heap.word source)) source
          .null := by
    simp [Heap.assigned, different]
  let start : Heap O H :=
    { heap with word := heap.assigned .move target source }
  have started :
      Cascade start (heap.assigned .move target source)
        (heap.word target).ptr start (heap.word target).ptr.toList [] := by
    refine Cascade.begun ?_ (consistent.owned existsTarget) ?_
      consistent.housed
    · intro handle object exists' owns
      rw [view] at owns
      by_cases isSource : handle = source
      · subst isSource
        simp [Word.null] at owns
      · rw [Function.update_of_ne isSource] at owns
        by_cases isTarget : handle = target
        · subst isTarget
          rw [Function.update_self] at owns
          exact consistent.owned existsSource owns
        · rw [Function.update_of_ne isTarget] at owns
          exact consistent.owned exists' owns
    · intro object exists'
      have known := consistent.counted exists'
      have taken :=
        card_owners_update existsTarget heap.word (heap.word source) object
      have given :=
        card_owners_update existsSource
          (Function.update heap.word target (heap.word source)) .null object
      rw [Function.update_of_ne (Ne.symm different)] at given
      have none :
          (Word.null : Word O).ptr.toList.count object = 0 := by
        simp [Word.null]
      rw [Heap.owners] at known
      simp only [view, start]
      omega
  obtain ⟨after, runs, ended⟩ :=
    started.run consistent.members (fun _ _ => rfl) enough
  have assigned :=
    consistent.assigned_of_cascade different existsTarget outside
      started ended rfl rfl rfl rfl rfl
  have unchanged :
      { after with word := heap.assigned .move target source } = after := by
    rw [← show after.word = heap.assigned .move target source from
      ended.word]
  rw [unchanged] at assigned
  refine ⟨after, ?_, assigned⟩
  simpa only [Heap.assignMove, if_neg different, Heap.read, Heap.write,
    if_pos existsSource, if_pos existsTarget, bind, Except.bind, start,
    view] using runs

/--
Every assignment between handles of an ownership graph, whatever it destroys
on the way.
-/
theorem assign_under_aliasing
    (heap : Heap O H)
    (kind : Kind)
    (target source : H)
    (consistent : heap.Consistent)
    (existsTarget : target ∈ heap.handles)
    (existsSource : source ∈ heap.handles)
    (outside :
      ∀ object,
        heap.home target = some object →
        ¬ heap.Vanishes kind target source object)
    {fuel : Nat}
    (enough : heap.objects.card ≤ fuel) :
    ∃ after,
      heap.assign kind fuel target source = .ok after ∧
        Assigned heap after kind target source := by
  by_cases same : target = source
  · subst same
    refine ⟨heap, ?_, consistent.assigned_self existsTarget⟩
    cases kind with
    | copy =>
        simp [Heap.assign, Heap.assignCopy]
    | move =>
        simp [Heap.assign, Heap.assignMove]
  · cases kind with
    | copy =>
        exact consistent.assignCopy same existsTarget existsSource outside
          enough
    | move =>
        exact consistent.assignMove same existsTarget existsSource outside
          enough

/-- `h`, the only owner of a parent whose member owns a child, marked. -/
def parentAndChild : Heap (Fin 2) (Fin 2) where
  objects := Finset.univ
  handles := Finset.univ
  word := fun handle => if handle = 0 then ⟨some 0, false⟩ else ⟨some 1, true⟩
  count := fun _ => 1
  home := fun handle => if handle = 0 then none else some 0
  members := fun object => if object = 0 then [1] else []
  deleted := []

theorem parentAndChild_consistent : parentAndChild.Consistent where
  owned := fun _ _ => Finset.mem_univ _
  counted := by decide
  housed := fun _ _ => Finset.mem_univ _
  members := by unfold Heap.Housed; decide

/-- `h = h->child`: the parent is deleted, and `h` owns the child. -/
theorem assign_under_aliasing_child :
    parentAndChild.Vanishes .copy 0 1 0 ∧
      ∃ after,
        parentAndChild.assign .copy 2 0 1 = .ok after ∧
          Assigned parentAndChild after .copy 0 1 := by
  have unowned :
      ∀ handle,
        (parentAndChild.assigned .copy 0 1 handle).ptr ≠ some 0 := by
    decide
  refine ⟨?_, ?_⟩
  · exact .intro id (.inl rfl)
      (fun handle _ owns => absurd owns (unowned handle))
      (fun handle _ owns => absurd owns (unowned handle))
  · exact assign_under_aliasing parentAndChild .copy 0 1
      parentAndChild_consistent (by decide) (by decide)
      (fun _ home => by cases home) (by decide)

end Assignment

end ConcurrentCpp.HandleAssignment
