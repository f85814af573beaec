import ConcurrentCpp.HandleAssignment

namespace ConcurrentCpp.HandleAssignment

/-!
# Copy assignment against move assignment

`h = x` and `h = shared_ptr_type(x)`, the move assignment of a temporary copy.
The copy assignment stores the word after the release, the move assignment
before it, so they differ when the release destroys the target itself: its
destructor then releases the old reference a second time.
-/

variable {O H : Type} [DecidableEq O] [DecidableEq H]

namespace Heap

/-- The copy constructor of a temporary. -/
def construct
    (heap : Heap O H)
    (temporary source : H) :
    Except Fault (Heap O H) := do
  let word ← heap.read source
  let heap ← heap.addRef word.ptr
  .ok
    { heap with
      handles := insert temporary heap.handles
      word := Function.update heap.word temporary word
      home := Function.update heap.home temporary none }

/--
`target = shared_ptr_type(source)`: the temporary is constructed, assigned
from by a move and destroyed.
-/
def assignTemporary
    (fuel : Nat)
    (heap : Heap O H)
    (target source temporary : H) :
    Except Fault (Heap O H) := do
  let heap ← heap.construct temporary source
  let heap ← heap.assignMove fuel target temporary
  heap.destroy (release fuel) temporary

end Heap

/-- Two heaps with the same objects, counts, deletions, handles and words. -/
structure SameEffect (first second : Heap O H) : Prop where
  objects : first.objects = second.objects
  count : first.count = second.count
  deleted : first.deleted = second.deleted
  handles : first.handles = second.handles
  word :
    ∀ handle ∈ first.handles, first.word handle = second.word handle

/-- Both assignments run without a fault, and to the same effect. -/
def Heap.Agrees
    (heap : Heap O H)
    (fuel : Nat)
    (target source temporary : H) : Prop :=
  ∃ copied moved,
    heap.assignCopy fuel target source = .ok copied ∧
      heap.assignTemporary fuel target source temporary = .ok moved ∧
      SameEffect copied moved

section Release

variable
  {heap after : Heap O H}
  {object : O}
  {fuel : Nat}

/-- The count of an object, less one. -/
def Heap.decremented
    (heap : Heap O H)
    (object : O) :
    Heap O H :=
  { heap with
    count := Function.update heap.count object (heap.count object - 1) }

/-- The cases of a release. -/
theorem Heap.release_some
    (fuel : Nat)
    (heap : Heap O H)
    (object : O) :
    heap.release fuel (some object) =
      if object ∈ heap.objects then
        if heap.count object = 1 then
          match fuel with
          | 0 => .error .outOfFuel
          | fuel + 1 =>
              (heap.members object).foldlM (Heap.destroy (Heap.release fuel))
                ((heap.decremented object).remove object)
        else
          .ok (heap.decremented object)
      else
        .error .deletedObject := by
  by_cases present : object ∈ heap.objects
  · by_cases last : heap.count object = 1
    · cases fuel with
      | zero =>
          simp [Heap.release, Heap.delRef, present, last, bind, Except.bind]
      | succ fuel =>
          simp [Heap.release, Heap.delRef, present, last, bind, Except.bind,
            Heap.decremented]
    · cases fuel with
      | zero =>
          simp [Heap.release, Heap.delRef, present, last, bind, Except.bind,
            Heap.decremented]
      | succ fuel =>
          simp [Heap.release, Heap.delRef, present, last, bind, Except.bind,
            Heap.decremented]
  · cases fuel with
    | zero =>
        simp [Heap.release, Heap.delRef, present, bind, Except.bind]
    | succ fuel =>
        simp [Heap.release, Heap.delRef, present, bind, Except.bind]

/-- What a release leaves alone, and what it only takes away from. -/
structure Shrinks (heap after : Heap O H) : Prop where
  objects : after.objects ⊆ heap.objects
  handles : after.handles ⊆ heap.handles
  word : after.word = heap.word

omit [DecidableEq O] [DecidableEq H] in
theorem Shrinks.refl (heap : Heap O H) : Shrinks heap heap :=
  ⟨subset_rfl, subset_rfl, rfl⟩

omit [DecidableEq O] [DecidableEq H] in
theorem Shrinks.trans
    {middle : Heap O H}
    (first : Shrinks heap middle)
    (second : Shrinks middle after) :
    Shrinks heap after :=
  ⟨second.objects.trans first.objects, second.handles.trans first.handles,
    second.word.trans first.word⟩

/-- The handle that a destructor takes away. -/
def Heap.without
    (heap : Heap O H)
    (handle : H) :
    Heap O H :=
  { heap with handles := heap.handles.erase handle }

omit [DecidableEq O] in
theorem Heap.destroy_eq
    (release : Heap O H → Option O → Except Fault (Heap O H))
    (heap : Heap O H)
    (handle : H) :
    heap.destroy release handle =
      if handle ∈ heap.handles then
        release (heap.without handle) (heap.word handle).ptr
      else
        .error .destroyedHandle := by
  by_cases present : handle ∈ heap.handles
  · simp [Heap.destroy, Heap.read, present, bind, Except.bind, Heap.without]
  · simp [Heap.destroy, Heap.read, present, bind, Except.bind]

/-- Whatever it releases, the heap shrinks. -/
def Shrinking
    (release : Heap O H → Option O → Except Fault (Heap O H)) : Prop :=
  ∀ heap after reference,
    release heap reference = .ok after →
    Shrinks heap after

omit [DecidableEq O] in
/-- A destructor shrinks the heap if its releases do. -/
theorem Shrinks.members
    {release : Heap O H → Option O → Except Fault (Heap O H)}
    (shrinking : Shrinking release)
    (members : List H)
    (runs : members.foldlM (Heap.destroy release) heap = .ok after) :
    Shrinks heap after := by
  induction members generalizing heap with
  | nil =>
      cases runs
      exact .refl _
  | cons handle members induct =>
      rw [List.foldlM_cons] at runs
      cases first : heap.destroy release handle with
      | error fault =>
          rw [first] at runs
          cases runs
      | ok middle =>
          rw [first] at runs
          rw [Heap.destroy_eq] at first
          split at first
          · have less : Shrinks heap (heap.without handle) :=
              ⟨subset_rfl, Finset.erase_subset _ _, rfl⟩
            exact (less.trans (shrinking _ _ _ first)).trans (induct runs)
          · cases first

/-- How a release can have ended without a fault. -/
theorem Heap.release_ok
    {reference : Option O}
    (runs : heap.release fuel reference = .ok after) :
    (reference = none ∧ after = heap) ∨
      ∃ object,
        reference = some object ∧
          object ∈ heap.objects ∧
          ((heap.count object ≠ 1 ∧ after = heap.decremented object) ∨
            heap.count object = 1 ∧
              ∃ less,
                fuel = less + 1 ∧
                  (heap.members object).foldlM
                      (Heap.destroy (Heap.release less))
                      ((heap.decremented object).remove object) =
                    .ok after) := by
  cases reference with
  | none =>
      simp only [Heap.release, Except.ok.injEq] at runs
      exact .inl ⟨rfl, runs.symm⟩
  | some object =>
      refine .inr ⟨object, rfl, ?_⟩
      rw [Heap.release_some] at runs
      by_cases present : object ∈ heap.objects
      · rw [if_pos present] at runs
        refine ⟨present, ?_⟩
        by_cases last : heap.count object = 1
        · rw [if_pos last] at runs
          cases fuel with
          | zero =>
              cases runs
          | succ less =>
              exact .inr ⟨last, less, rfl, runs⟩
        · rw [if_neg last] at runs
          cases runs
          exact .inl ⟨last, rfl⟩
      · rw [if_neg present] at runs
        cases runs

theorem Heap.release_shrinking
    (fuel : Nat) :
    Shrinking (Heap.release (O := O) (H := H) fuel) := by
  induction fuel using Nat.strongRecOn with
  | _ fuel induct =>
      intro heap after reference runs
      obtain ⟨rfl, rfl⟩ | ⟨object, rfl, present, ending⟩ :=
        Heap.release_ok runs
      · exact .refl _
      · obtain ⟨-, rfl⟩ | ⟨-, less, rfl, rest⟩ := ending
        · exact ⟨subset_rfl, subset_rfl, rfl⟩
        · have removed :
              Shrinks heap ((heap.decremented object).remove object) :=
            ⟨Finset.erase_subset _ _, subset_rfl, rfl⟩
          exact removed.trans
            (Shrinks.members (induct less (Nat.lt_succ_self less)) _ rest)

omit [DecidableEq O] in
/-- The fuel suffices for the members if it does for their releases. -/
theorem Heap.members_fueled
    {release : Heap O H → Option O → Except Fault (Heap O H)}
    {bound : Nat}
    (shrinking : Shrinking release)
    (fueled :
      ∀ {heap reference},
        heap.objects.card ≤ bound →
        release heap reference ≠ .error .outOfFuel)
    (members : List H)
    (small : heap.objects.card ≤ bound) :
    members.foldlM (Heap.destroy release) heap ≠ .error .outOfFuel := by
  induction members generalizing heap with
  | nil =>
      simp [pure, Except.pure]
  | cons handle members induct =>
      rw [List.foldlM_cons]
      have first : heap.destroy release handle ≠ .error .outOfFuel := by
        rw [Heap.destroy_eq]
        split
        · exact fueled small
        · simp
      cases found : heap.destroy release handle with
      | error fault =>
          rw [found] at first
          exact first
      | ok middle =>
          refine induct ((Finset.card_le_card ?_).trans small)
          rw [Heap.destroy_eq] at found
          split at found
          · exact (shrinking _ _ _ found).objects
          · cases found

/-- A release never runs out of fuel that the objects cannot use up. -/
theorem Heap.release_fueled
    {reference : Option O}
    (enough : heap.objects.card ≤ fuel) :
    heap.release fuel reference ≠ .error .outOfFuel := by
  induction fuel generalizing heap reference with
  | zero =>
      cases reference with
      | none =>
          simp [Heap.release]
      | some object =>
          rw [Heap.release_some]
          split
          · rename_i present
            have positive := Finset.card_pos.mpr ⟨object, present⟩
            omega
          · simp
  | succ fuel induct =>
      cases reference with
      | none =>
          simp [Heap.release]
      | some object =>
          rw [Heap.release_some]
          split
          · rename_i present
            split
            · have fewer := Finset.card_erase_add_one present
              refine
                Heap.members_fueled (Heap.release_shrinking fuel) induct _ ?_
              simp only [Heap.remove, Heap.decremented]
              omega
            · simp
          · simp

end Release

section Alike

/-- Heaps that differ at most in the handles set apart. -/
structure Alike
    (apart : H → Prop)
    (first second : Heap O H) : Prop where
  objects : first.objects = second.objects
  count : first.count = second.count
  members : first.members = second.members
  deleted : first.deleted = second.deleted
  handles :
    ∀ {handle},
      ¬ apart handle →
      (handle ∈ first.handles ↔ handle ∈ second.handles)
  word :
    ∀ {handle},
      ¬ apart handle →
      first.word handle = second.word handle

/-- A release that destroys no handle set apart runs alike on such heaps. -/
def Mirrors
    (apart : H → Prop)
    (release : Heap O H → Option O → Except Fault (Heap O H)) : Prop :=
  ∀ (first second after : Heap O H) (reference : Option O),
    Alike apart first second →
    release first reference = .ok after →
    (∀ handle,
      apart handle →
      handle ∈ first.handles →
      handle ∈ after.handles) →
    ∃ result,
      release second reference = .ok result ∧
        Alike apart after result ∧
        ∀ handle,
          apart handle →
          (handle ∈ result.handles ↔ handle ∈ second.handles)

variable
  {apart : H → Prop}
  {first second after : Heap O H}

omit [DecidableEq O] in
theorem Alike.without
    (alike : Alike apart first second)
    (handle : H) :
    Alike apart (first.without handle) (second.without handle) :=
  { alike with
    handles := fun outside => by
      simp only [Heap.without, Finset.mem_erase, alike.handles outside] }

omit [DecidableEq H] in
theorem Alike.decremented
    (alike : Alike apart first second)
    (object : O) :
    Alike apart (first.decremented object) (second.decremented object) :=
  { alike with
    count := by
      simp only [Heap.decremented, alike.count] }

omit [DecidableEq H] in
theorem Alike.remove
    (alike : Alike apart first second)
    (object : O) :
    Alike apart (first.remove object) (second.remove object) :=
  { alike with
    objects := by
      simp only [Heap.remove, alike.objects]
    deleted := by
      simp only [Heap.remove, alike.deleted] }

omit [DecidableEq O] in
/-- The members are destroyed alike. -/
theorem Mirrors.members
    {release : Heap O H → Option O → Except Fault (Heap O H)}
    (shrinking : Shrinking release)
    (mirrors : Mirrors apart release)
    (members : List H)
    (alike : Alike apart first second)
    (runs : members.foldlM (Heap.destroy release) first = .ok after)
    (survive :
      ∀ handle,
        apart handle →
        handle ∈ first.handles →
        handle ∈ after.handles) :
    ∃ result,
      members.foldlM (Heap.destroy release) second = .ok result ∧
        Alike apart after result ∧
        ∀ handle,
          apart handle →
          (handle ∈ result.handles ↔ handle ∈ second.handles) := by
  induction members generalizing first second with
  | nil =>
      cases runs
      exact ⟨second, rfl, alike, fun _ _ => Iff.rfl⟩
  | cons handle members induct =>
      rw [List.foldlM_cons] at runs
      cases found : first.destroy release handle with
      | error fault =>
          rw [found] at runs
          cases runs
      | ok middle =>
          rw [found] at runs
          rw [Heap.destroy_eq] at found
          split at found
          · rename_i present
            have rest := Shrinks.members shrinking members runs
            have less := shrinking _ _ _ found
            have common : ¬ apart handle := by
              intro isApart
              have still := survive handle isApart present
              exact Finset.notMem_erase handle _
                (less.handles (rest.handles still))
            obtain ⟨other, ran, alikeMiddle, keptMiddle⟩ :=
              mirrors _ _ _ _ (alike.without handle) found
                fun kept isApart inside =>
                  rest.handles (survive kept isApart
                    (Finset.mem_of_mem_erase inside))
            obtain ⟨result, ranRest, alikeAfter, keptAfter⟩ :=
              induct alikeMiddle runs fun kept isApart inside =>
                survive kept isApart
                  (Finset.mem_of_mem_erase (less.handles inside))
            refine ⟨result, ?_, alikeAfter, fun kept isApart => ?_⟩
            · rw [List.foldlM_cons, Heap.destroy_eq,
                if_pos ((alike.handles common).mp present),
                ← alike.word common, ran]
              exact ranRest
            · rw [keptAfter kept isApart, keptMiddle kept isApart]
              have different : kept ≠ handle := by
                rintro rfl
                exact common isApart
              simp [Heap.without, different]
          · cases found

theorem Heap.release_mirrors
    (apart : H → Prop)
    (fuel : Nat) :
    Mirrors apart (Heap.release (O := O) fuel) := by
  induction fuel using Nat.strongRecOn with
  | _ fuel induct =>
      intro first second after reference alike runs survive
      obtain ⟨rfl, rfl⟩ | ⟨object, rfl, present, ending⟩ :=
        Heap.release_ok runs
      · exact ⟨second, by simp [Heap.release], alike, fun _ _ => Iff.rfl⟩
      · rw [alike.objects] at present
        rw [alike.count] at ending
        obtain ⟨more, rfl⟩ | ⟨last, less, rfl, rest⟩ := ending
        · refine ⟨second.decremented object, ?_, alike.decremented object,
            fun _ _ => Iff.rfl⟩
          rw [Heap.release_some, if_pos present, if_neg more]
        · rw [alike.members] at rest
          obtain ⟨result, ran, alikeAfter, kept⟩ :=
            Mirrors.members (Heap.release_shrinking less)
              (induct less (Nat.lt_succ_self less)) _
              ((alike.decremented object).remove object) rest survive
          refine ⟨result, ?_, alikeAfter, kept⟩
          rw [Heap.release_some, if_pos present, if_pos last]
          exact ran

end Alike

section Agreement

variable
  {heap : Heap O H}
  {fuel : Nat}
  {target source temporary : H}

omit [DecidableEq O] [DecidableEq H] in
theorem SameEffect.trans
    {first second third : Heap O H}
    (left : SameEffect first second)
    (right : SameEffect second third) :
    SameEffect first third where
  objects := left.objects.trans right.objects
  count := left.count.trans right.count
  deleted := left.deleted.trans right.deleted
  handles := left.handles.trans right.handles
  word := fun handle member =>
    (left.word handle member).trans
      (right.word handle (left.handles ▸ member))

/-- The target has taken a new reference to what the source owns. -/
def Heap.retargeted
    (heap : Heap O H)
    (target source : H) :
    Heap O H :=
  { heap with
    count := fun object =>
      heap.count object + (heap.word source).ptr.toList.count object
    word := Function.update heap.word target (heap.word source) }

/-- The release of the old reference, once the target has let go of it. -/
theorem Heap.Consistent.retargeted_run
    (consistent : heap.Consistent)
    (existsTarget : target ∈ heap.handles)
    (existsSource : source ∈ heap.handles)
    (enough : heap.objects.card ≤ fuel) :
    Cascade (heap.retargeted target source)
        (Function.update heap.word target (heap.word source))
        (heap.word target).ptr (heap.retargeted target source)
        (heap.word target).ptr.toList [] ∧
      ∃ after,
        (heap.retargeted target source).release fuel
            (heap.word target).ptr = .ok after ∧
          Cascade (heap.retargeted target source)
            (Function.update heap.word target (heap.word source))
            (heap.word target).ptr after [] [] := by
  have started :
      Cascade (heap.retargeted target source)
        (Function.update heap.word target (heap.word source))
        (heap.word target).ptr (heap.retargeted target source)
        (heap.word target).ptr.toList [] :=
    Cascade.begun (consistent.retarget_owned existsSource)
      (consistent.owned existsTarget)
      (consistent.retarget_counted existsTarget source) consistent.housed
  exact ⟨started,
    started.run consistent.members (fun _ _ => rfl) enough⟩

/-- The move assignment of a temporary copy does this release. -/
theorem Heap.Consistent.assignTemporary
    (consistent : heap.Consistent)
    (existsTarget : target ∈ heap.handles)
    (existsSource : source ∈ heap.handles)
    (fresh : temporary ∉ heap.handles)
    {after : Heap O H}
    (runs :
      (heap.retargeted target source).release fuel
        (heap.word target).ptr = .ok after) :
    ∃ moved,
      heap.assignTemporary fuel target source temporary = .ok moved ∧
        SameEffect after moved := by
  have different : target ≠ temporary := by
    rintro rfl
    exact fresh existsTarget
  let start : Heap O H :=
    { heap.retargeted target source with
      handles := insert temporary heap.handles
      word :=
        Function.update
          (Function.update heap.word target (heap.word source)) temporary
          .null
      home := Function.update heap.home temporary none }
  have alike :
      Alike (· = temporary) (heap.retargeted target source) start :=
    { objects := rfl
      count := rfl
      members := rfl
      deleted := rfl
      handles := fun outside => by
        simp [start, Heap.retargeted, outside]
      word := fun outside => by
        simp [start, Heap.retargeted, Function.update_of_ne outside] }
  obtain ⟨result, ran, alikeAfter, kept⟩ :=
    Heap.release_mirrors (· = temporary) fuel _ _ _ _ alike runs
      fun handle same inside => absurd (same ▸ inside) fresh
  have shrunk := Heap.release_shrinking fuel _ _ _ runs
  have shrunkResult := Heap.release_shrinking fuel _ _ _ ran
  have present : temporary ∈ result.handles :=
    (kept temporary rfl).mpr (Finset.mem_insert_self _ _)
  have null : result.word temporary = .null := by
    rw [shrunkResult.word]
    exact Function.update_self ..
  refine ⟨result.without temporary, ?_, ?_⟩
  · have constructed :
        heap.construct temporary source =
          .ok
            { heap with
              count := (heap.retargeted target source).count
              handles := insert temporary heap.handles
              word :=
                Function.update heap.word temporary (heap.word source)
              home := Function.update heap.home temporary none } := by
      simp only [Heap.construct, Heap.read, if_pos existsSource, bind,
        Except.bind,
        Heap.addRef_spec (consistent.owned existsSource)]
      rfl
    have words :
        Function.update
            (Function.update
              (Function.update heap.word temporary (heap.word source))
              target (heap.word source))
            temporary .null =
          start.word := by
      rw [Function.update_comm different.symm]
      exact Function.update_idem ..
    have destroyed :
        result.destroy (Heap.release fuel) temporary =
          .ok (result.without temporary) := by
      rw [Heap.destroy_eq, if_pos present, null]
      simp [Word.null, Heap.release]
    have inside : target ∈ insert temporary heap.handles :=
      Finset.mem_insert_of_mem existsTarget
    have own : temporary ∈ insert temporary heap.handles :=
      Finset.mem_insert_self _ _
    simp only [Heap.assignTemporary, constructed, bind, Except.bind,
      Heap.assignMove, if_neg different, Heap.read, Heap.write,
      if_pos inside, if_pos own, Function.update_self,
      Function.update_of_ne different, words]
    change
      (Heap.release fuel start (heap.word target).ptr >>= fun heap =>
        heap.destroy (Heap.release fuel) temporary) = _
    rw [ran]
    exact destroyed
  · exact
      { objects := alikeAfter.objects
        count := alikeAfter.count
        deleted := alikeAfter.deleted
        handles := by
          ext handle
          by_cases same : handle = temporary
          · subst same
            simp only [Heap.without, Finset.notMem_erase, iff_false]
            exact fun still => fresh (shrunk.handles still)
          · rw [alikeAfter.handles same]
            simp [Heap.without, same]
        word := by
          intro handle member
          refine alikeAfter.word fun same => ?_
          exact fresh (shrunk.handles (same ▸ member)) }

/-- The copy assignment to another handle: what is left is a release. -/
theorem Heap.Consistent.assignCopy_eq
    (consistent : heap.Consistent)
    (different : target ≠ source)
    (existsTarget : target ∈ heap.handles)
    (existsSource : source ∈ heap.handles) :
    heap.assignCopy fuel target source =
      (Heap.release fuel
          { heap with count := (heap.retargeted target source).count }
          (heap.word target).ptr >>= fun after =>
        after.write target (heap.word source)) := by
  simp only [Heap.assignCopy, if_neg different, Heap.read,
    if_pos existsSource, if_pos existsTarget, bind, Except.bind,
    Heap.addRef_spec (consistent.owned existsSource)]
  rfl

/-- The copy assignment runs alike but for the target. -/
theorem alike_retargeted
    (heap : Heap O H)
    (target source : H) :
    Alike (· = target) (heap.retargeted target source)
      { heap with count := (heap.retargeted target source).count } where
  objects := rfl
  count := rfl
  members := rfl
  deleted := rfl
  handles := fun _ => Iff.rfl
  word := fun outside => Function.update_of_ne outside ..

omit [DecidableEq O] [DecidableEq H] in
theorem Alike.symm
    {apart : H → Prop}
    {first second : Heap O H}
    (alike : Alike apart first second) :
    Alike apart second first where
  objects := alike.objects.symm
  count := alike.count.symm
  members := alike.members.symm
  deleted := alike.deleted.symm
  handles := fun outside => (alike.handles outside).symm
  word := fun outside => (alike.word outside).symm

/-- A target that survives: the copy assignment has the same effect. -/
theorem Heap.Consistent.copy_survives
    (consistent : heap.Consistent)
    (different : target ≠ source)
    (existsTarget : target ∈ heap.handles)
    (existsSource : source ∈ heap.handles)
    {after : Heap O H}
    (runs :
      (heap.retargeted target source).release fuel
        (heap.word target).ptr = .ok after)
    (survives : target ∈ after.handles) :
    ∃ copied,
      heap.assignCopy fuel target source = .ok copied ∧
        SameEffect copied after := by
  obtain ⟨result, ran, alike, kept⟩ :=
    Heap.release_mirrors (· = target) fuel _ _ _ _
      (alike_retargeted heap target source) runs
      fun handle same _ => same ▸ survives
  have shrunk := Heap.release_shrinking fuel _ _ _ runs
  have shrunkResult := Heap.release_shrinking fuel _ _ _ ran
  have present : target ∈ result.handles :=
    (kept target rfl).mpr existsTarget
  refine
    ⟨{ result with
        word := Function.update result.word target (heap.word source) },
      ?_, ?_⟩
  · rw [consistent.assignCopy_eq different existsTarget existsSource, ran]
    exact if_pos present
  · exact
      { objects := alike.objects.symm
        count := alike.count.symm
        deleted := alike.deleted.symm
        handles := by
          ext handle
          by_cases same : handle = target
          · subst same
            exact ⟨fun _ => survives, fun _ => present⟩
          · exact (alike.handles same).symm
        word := by
          intro handle _
          simp only [shrunk.word, shrunkResult.word]
          rfl }

/-- A target that does not survive: the copy assignment faults. -/
theorem Heap.Consistent.copy_faults
    (consistent : heap.Consistent)
    (different : target ≠ source)
    (existsTarget : target ∈ heap.handles)
    (existsSource : source ∈ heap.handles)
    (enough : heap.objects.card ≤ fuel)
    {after : Heap O H}
    (runs :
      (heap.retargeted target source).release fuel
        (heap.word target).ptr = .ok after)
    (dies : target ∉ after.handles) :
    ∃ fault,
      heap.assignCopy fuel target source = .error fault ∧
        fault ≠ .outOfFuel := by
  rw [consistent.assignCopy_eq different existsTarget existsSource]
  have fueled :
      Heap.release fuel
          { heap with count := (heap.retargeted target source).count }
          (heap.word target).ptr ≠ .error .outOfFuel :=
    Heap.release_fueled enough
  cases ran :
      Heap.release fuel
        { heap with count := (heap.retargeted target source).count }
        (heap.word target).ptr with
  | error fault =>
      refine ⟨fault, rfl, ?_⟩
      rintro rfl
      exact fueled ran
  | ok middle =>
      refine ⟨.destroyedHandle, if_neg fun still => dies ?_, by simp⟩
      -- Had the target survived here, the other run would have kept it, too.
      obtain ⟨result, ranResult, -, kept⟩ :=
        Heap.release_mirrors (· = target) fuel _ _ _ _
          (alike_retargeted heap target source).symm ran
          fun handle same _ => same ▸ still
      rw [runs] at ranResult
      cases ranResult
      exact (kept target rfl).mpr existsTarget

/-- The assignment of a handle to itself releases what it has just counted. -/
theorem Heap.Consistent.copy_self
    (consistent : heap.Consistent)
    (existsTarget : target ∈ heap.handles)
    {after : Heap O H}
    (runs :
      (heap.retargeted target target).release fuel
        (heap.word target).ptr = .ok after) :
    SameEffect heap after := by
  have words :
      (heap.retargeted target target).word = heap.word :=
    Function.update_eq_self ..
  obtain ⟨null, rfl⟩ | ⟨object, owned, present, ending⟩ :=
    Heap.release_ok runs
  · refine ⟨rfl, ?_, rfl, rfl, fun handle _ => by rw [words]⟩
    funext other
    simp [Heap.retargeted, null]
  · have positive : 0 < heap.count object := by
      rw [consistent.counted present]
      exact_mod_cast Finset.card_pos.mpr
        ⟨target, Finset.mem_filter.mpr ⟨existsTarget, owned⟩⟩
    have more : (heap.retargeted target target).count object ≠ 1 := by
      simp only [Heap.retargeted, owned, Option.toList_some,
        List.count_singleton_self]
      omega
    obtain ⟨-, rfl⟩ | ⟨last, -⟩ := ending
    · refine ⟨rfl, ?_, rfl, rfl, fun handle _ => ?_⟩
      · funext other
        by_cases same : other = object
        · subst same
          simp [Heap.decremented, Heap.retargeted, owned]
        · simp [Heap.decremented, Heap.retargeted, owned, same,
            Ne.symm same]
      · exact (congrFun words handle).symm
    · exact absurd last more

/--
The copy assignment and the move assignment of a temporary copy have the same
effect exactly if the target is not a member of an object whose last owner
vanishes in the assignment.  The move assignment never faults; the copy
assignment to such a target always does.
-/
theorem copy_agrees_iff
    (heap : Heap O H)
    (target source temporary : H)
    (consistent : heap.Consistent)
    (existsTarget : target ∈ heap.handles)
    (existsSource : source ∈ heap.handles)
    (fresh : temporary ∉ heap.handles)
    {fuel : Nat}
    (enough : heap.objects.card ≤ fuel) :
    (heap.Agrees fuel target source temporary ↔
        ∀ object,
          heap.home target = some object →
          ¬ heap.Vanishes .copy target source object) ∧
      (∃ moved,
        heap.assignTemporary fuel target source temporary = .ok moved) ∧
      ((∃ object,
          heap.home target = some object ∧
            heap.Vanishes .copy target source object) →
        ∃ fault,
          heap.assignCopy fuel target source = .error fault ∧
            fault ≠ .outOfFuel) := by
  obtain ⟨started, after, runs, ended⟩ :=
    consistent.retargeted_run existsTarget existsSource enough
  obtain ⟨moved, movedRuns, movedEffect⟩ :=
    consistent.assignTemporary existsTarget existsSource fresh runs
  by_cases same : target = source
  · subst same
    have none :
        ∀ object, ¬ heap.Vanishes .copy target target object := by
      intro object vanishes
      rw [Heap.Vanishes, Heap.released, if_pos rfl] at vanishes
      exact not_lastOwnerVanishes vanishes
    have agrees : heap.Agrees fuel target target temporary :=
      ⟨heap, moved, if_pos rfl, movedRuns,
        (consistent.copy_self existsTarget runs).trans movedEffect⟩
    refine ⟨⟨fun _ object _ => none object, fun _ => agrees⟩,
      ⟨moved, movedRuns⟩, ?_⟩
    rintro ⟨object, _, vanishes⟩
    exact absurd vanishes (none object)
  have vanishes :
      ∀ object,
        heap.Vanishes .copy target source object ↔
          LastOwnerVanishes heap.handles heap.home
            (Function.update heap.word target (heap.word source))
            (heap.word target).ptr object := by
    intro object
    rw [Heap.Vanishes, Heap.released, Heap.assigned, if_neg same,
      if_neg same]
  have dies :
      ∀ object,
        heap.home target = some object →
        heap.Vanishes .copy target source object →
        target ∉ after.handles := by
    intro object home vanished still
    have gone := started.complete ended ((vanishes object).mp vanished)
    rcases ended.housed still home with alive | none
    · exact gone.2 alive
    · exact absurd none List.not_mem_nil
  have faults :
      (∃ object,
        heap.home target = some object ∧
          heap.Vanishes .copy target source object) →
      ∃ fault,
        heap.assignCopy fuel target source = .error fault ∧
          fault ≠ .outOfFuel := by
    rintro ⟨object, home, vanished⟩
    exact consistent.copy_faults same existsTarget existsSource enough
      runs (dies object home vanished)
  refine ⟨⟨?_, ?_⟩, ⟨moved, movedRuns⟩, faults⟩
  · rintro ⟨copied, _, copiedRuns, _⟩ object home vanished
    obtain ⟨fault, faulted, -⟩ := faults ⟨object, home, vanished⟩
    rw [copiedRuns] at faulted
    cases faulted
  · intro outside
    have survives : target ∈ after.handles := by
      by_contra gone
      obtain ⟨object, home, vanished⟩ := ended.destroyed existsTarget gone
      exact outside object home ((vanishes object).mpr vanished)
    obtain ⟨copied, copiedRuns, copiedEffect⟩ :=
      consistent.copy_survives same existsTarget existsSource runs survives
    exact ⟨copied, moved, copiedRuns, movedRuns,
      copiedEffect.trans movedEffect⟩

/-- An object kept alive by its own member, and a null variable. -/
def selfCycle : Heap (Fin 1) (Fin 3) where
  objects := {0}
  handles := {0, 1}
  word := fun handle => if handle = 0 then ⟨some 0, false⟩ else .null
  count := fun _ => 1
  home := fun handle => if handle = 0 then some 0 else none
  members := fun _ => [0]
  deleted := []

theorem selfCycle_consistent : selfCycle.Consistent where
  owned := fun {_ object} _ _ => by
    have only : object = 0 := Subsingleton.elim object 0
    exact Finset.mem_singleton.mpr only
  counted := by decide
  housed := fun {_ object} _ _ => by
    have only : object = 0 := Subsingleton.elim object 0
    exact Finset.mem_singleton.mpr only
  members := by unfold Heap.Housed; decide

/-- The variable takes the word of the member, both ways alike. -/
theorem copy_agrees_iff_selfCycle :
    selfCycle.Agrees 1 1 0 2 := by
  refine (copy_agrees_iff selfCycle 1 0 2 selfCycle_consistent (by decide)
    (by decide) (by decide) (by decide)).1.mpr ?_
  intro object home
  cases home

/-- To clear the member by a copy releases its reference twice. -/
theorem copy_differs_selfCycle :
    selfCycle.Consistent ∧
      selfCycle.assignCopy 1 0 1 = .error .deletedObject ∧
      ¬ selfCycle.Agrees 1 0 1 2 := by
  have faults : selfCycle.assignCopy 1 0 1 = .error .deletedObject := rfl
  refine ⟨selfCycle_consistent, faults, ?_⟩
  rintro ⟨copied, moved, runs, -⟩
  rw [faults] at runs
  cases runs

end Agreement

end ConcurrentCpp.HandleAssignment
