import ConcurrentCpp.LockFreeListRCURuns
import ConcurrentCpp.LockFreeListRuns

namespace ConcurrentCpp

/-!
# The promises of both lists

What clients of `LockFreeList` in marking mode and of `LockFreeListRCU` can
rely on along every run, whatever the other threads do.
-/

variable {A H T V : Type}
variable [DecidableEq A] [DecidableEq H] [DecidableEq T]

/--
In either list, a node that was unmarked and behind a parked iterator is
still reachable from it as long as the node stays unmarked and the iterator
is kept.  A client that applies `++` to the iterator until it is at `end()`,
while nothing else happens, gets there, and it comes by all such nodes in list
order.
-/
theorem lists_keep_traversal
    {kGenerations : Nat}
    (admitted : 2 ≤ kGenerations)
    (parked : A) :
    (∀ first later :
        Pool (LockFreeList.State A T) (LockFreeList.Choice A) T,
      LockFreeList.initialPool.Reaches first →
      first.Reaches later →
      .node parked ∈ first.shared.iterators →
      (LockFreeList.view first.shared).KeepsReach
          (LockFreeList.view later.shared) parked ∧
        Finishes (fun _ => True)
          (fun visited after =>
            LockFreeList.view after = LockFreeList.view later.shared ∧
              (LockFreeList.view first.shared).Traversal
                (LockFreeList.view later.shared) parked visited)
          (traverse LockFreeList.increment parked) later.shared) ∧
      ∀ (session : Nat)
        (first later :
          Pool (LockFreeListRCU.State A H T V)
            (LockFreeListRCU.Choice A H V) T),
        (LockFreeListRCU.initialPool kGenerations).Reaches first →
        first.Reaches later →
        (session, .node parked) ∈ first.shared.iterators →
        LockFreeListRCU.Lasts later.shared session →
        (LockFreeListRCU.view first.shared).KeepsReach
            (LockFreeListRCU.view later.shared) parked ∧
          Finishes (fun _ => True)
            (fun visited after =>
              LockFreeListRCU.view after =
                  LockFreeListRCU.view later.shared ∧
                (LockFreeListRCU.view first.shared).Traversal
                  (LockFreeListRCU.view later.shared) parked visited)
            (traverse (LockFreeListRCU.increment session) parked)
            later.shared := by
  refine ⟨?_, ?_⟩
  · intro first later reached continued kept
    obtain ⟨atFirst, runsFirst⟩ := Covered.reaches reached
    obtain ⟨atLater, runsLater⟩ := Covered.reaches continued
    obtain ⟨firstGhost, firstCovered, _⟩ :=
      runsFirst (LockFreeList.covered (0 + atLater + atFirst))
    obtain ⟨laterGhost, laterCovered, evolves⟩ := runsLater firstCovered
    obtain ⟨reach, visited, traversal⟩ :=
      LockFreeList.traversal_of_evolves firstCovered.1 laterCovered.1
        evolves kept
    refine ⟨reach, ?_⟩
    refine (traverse_finishes ⟨.proceed, trivial⟩
      LockFreeList.increment_finishes traversal.path).mono ?_
    rintro found after ⟨rfl, same⟩
    exact ⟨same, traversal⟩
  · intro session first later reached continued kept lasts
    obtain ⟨atFirst, runsFirst⟩ := Covered.reaches reached
    obtain ⟨atLater, runsLater⟩ := Covered.reaches continued
    obtain ⟨firstGhost, firstCovered, _⟩ :=
      runsFirst
        (LockFreeListRCU.covered (by omega) (0 + atLater + atFirst))
    obtain ⟨laterGhost, laterCovered, evolves⟩ := runsLater firstCovered
    obtain ⟨reach, visited, traversal⟩ :=
      LockFreeListRCU.traversal_of_evolves firstCovered.1 laterCovered.1
        evolves kept lasts
    refine ⟨reach, ?_⟩
    refine (traverse_finishes ⟨.proceed, trivial⟩
      (LockFreeListRCU.increment_finishes session) traversal.path).mono ?_
    rintro found after ⟨rfl, same⟩
    exact ⟨same, traversal⟩

/--
In both lists an iterator is parked on node 7 when nodes 7 and 8 are erased.
It comes by node 8, which is erased as well, and by node 9, which has stayed.
-/
theorem lists_keep_traversal_erase :
    (∃ first later :
        Pool (LockFreeList.State Nat Nat) (LockFreeList.Choice Nat) Nat,
      LockFreeList.initialPool.run
          (LockFreeList.insertThree ++ LockFreeList.visitFirst) =
          some first ∧
        first.run (LockFreeList.eraseFirst ++ LockFreeList.eraseFirst) =
          some later ∧
        .node 7 ∈ first.shared.iterators ∧
        later.shared.next (.root ()) = ⟨some 9, false⟩ ∧
        (LockFreeList.view first.shared).KeepsReach
          (LockFreeList.view later.shared) 7 ∧
        Finishes (fun _ => True)
          (fun visited _ =>
            visited = [8, 9] ∧
              (LockFreeList.view first.shared).Traversal
                (LockFreeList.view later.shared) 7 visited)
          (traverse LockFreeList.increment 7) later.shared) ∧
      ∃ first later :
          Pool (LockFreeListRCU.State Nat Nat Nat Nat)
            (LockFreeListRCU.Choice Nat Nat Nat) Nat,
        2 ≤ 2 ∧
          (LockFreeListRCU.initialPool 2).run
            (LockFreeListRCU.insertThree ++ LockFreeListRCU.visitSeven) =
            some first ∧
          first.run
            (LockFreeListRCU.eraseFirst ++ LockFreeListRCU.eraseFirst) =
            some later ∧
          (0, .node 7) ∈ first.shared.iterators ∧
          LockFreeListRCU.Lasts later.shared 0 ∧
          later.shared.next (.root ()) = ⟨some 9, false⟩ ∧
          (LockFreeListRCU.view first.shared).KeepsReach
            (LockFreeListRCU.view later.shared) 7 ∧
          Finishes (fun _ => True)
            (fun visited _ =>
              visited = [8, 9] ∧
                (LockFreeListRCU.view first.shared).Traversal
                  (LockFreeListRCU.view later.shared) 7 visited)
            (traverse (LockFreeListRCU.increment 0) 7) later.shared := by
  have promises := lists_keep_traversal (A := Nat) (H := Nat) (T := Nat)
    (V := Nat) (Nat.le_refl 2) 7
  refine ⟨?_, ?_⟩
  · obtain ⟨first, visited⟩ : ∃ first,
        (LockFreeList.initialPool (A := Nat) (T := Nat)).run
          (LockFreeList.insertThree ++ LockFreeList.visitFirst) =
          some first :=
      ⟨_, rfl⟩
    obtain ⟨later, erased⟩ : ∃ later,
        first.run (LockFreeList.eraseFirst ++ LockFreeList.eraseFirst) =
          some later := by
      cases visited
      exact ⟨_, rfl⟩
    have parked : .node 7 ∈ first.shared.iterators := by
      cases visited
      exact List.mem_cons_self
    have path :
        Path (LockFreeList.view later.shared).links (.node 7) [8, 9] := by
      cases visited
      cases erased
      exact ⟨rfl, rfl, rfl⟩
    obtain ⟨reach, walks⟩ :=
      promises.1 first later ⟨_, visited⟩ ⟨_, erased⟩ parked
    refine ⟨first, later, visited, erased, parked, ?_, reach,
      walks.mono fun found _ walked =>
        ⟨walked.2.path.unique path, walked.2⟩⟩
    cases visited
    cases erased
    rfl
  · obtain ⟨first, visited⟩ : ∃ first,
        (LockFreeListRCU.initialPool 2).run
          (LockFreeListRCU.insertThree ++ LockFreeListRCU.visitSeven) =
          some first :=
      ⟨_, rfl⟩
    obtain ⟨later, erased⟩ : ∃ later,
        first.run
          (LockFreeListRCU.eraseFirst ++ LockFreeListRCU.eraseFirst) =
          some later := by
      cases visited
      exact ⟨_, rfl⟩
    have parked : (0, .node 7) ∈ first.shared.iterators := by
      cases visited
      exact List.mem_cons_self
    have lasts : LockFreeListRCU.Lasts later.shared 0 := by
      cases visited
      cases erased
      exact ⟨0, ⟨0, 0⟩, rfl, rfl⟩
    have path :
        Path (LockFreeListRCU.view later.shared).links (.node 7) [8, 9] := by
      cases visited
      cases erased
      exact ⟨rfl, rfl, rfl⟩
    obtain ⟨reach, walks⟩ :=
      promises.2 0 first later ⟨_, visited⟩ ⟨_, erased⟩ parked lasts
    refine ⟨first, later, Nat.le_refl 2, visited, erased, parked, lasts, ?_,
      reach, walks.mono fun found _ walked =>
        ⟨walked.2.path.unique path, walked.2⟩⟩
    cases visited
    cases erased
    rfl

end ConcurrentCpp
