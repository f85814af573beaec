import ConcurrentCpp.Completion
import ConcurrentCpp.EraseLedger
import ConcurrentCpp.MarkedChain

namespace ConcurrentCpp

/-!
# What a marked list promises its clients

Both lists show their clients the same things: the words of the chain, which
life of a node an address currently stands for, and the calls made so far.
`Integrity` says what holds of one view, `Continues` and `NeverRelinked` what
holds between views of one run, and `KeepsReach` and `Traversal` what an
iterator parked on a node may rely on.  `traverse` is the client that moves
such an iterator on until it is at the end.
-/

/-- What clients can see of a list; `identity` names the life of a node. -/
structure ListView (A I T : Type) where
  next : Cell Unit A → MarkedPtr A
  identity : A → I
  events : List (ListEvent I T)

namespace ListView

variable {A I T : Type}

/-- Where the words lead when marks are stripped. -/
def links (view : ListView A I T) : Links Unit A :=
  fun cell => (view.next cell).ptr

/-- The word of the node is not marked. -/
def Unmarked (view : ListView A I T) (node : A) : Prop :=
  (view.next (.node node)).mark = false

/-- The insertion of the node returned true and the node is not marked. -/
def Live (view : ListView A I T) (node : A) : Prop :=
  (∃ thread,
    ListEvent.inserted thread (view.identity node) true ∈ view.events) ∧
    view.Unmarked node

/-- Some erasing call has marked the node in its current life. -/
def Erased (view : ListView A I T) (node : A) : Prop :=
  view.identity node ∈ marksOf view.events

/-- The node is reachable from the head. -/
def OnChain (view : ListView A I T) (node : A) : Prop :=
  ∃ nodes, Path view.links (.root ()) nodes ∧ node ∈ nodes

/-- What holds between a view and a later one. -/
structure Continues (view later : ListView A I T) : Prop where
  /-- Live nodes keep their order. -/
  order :
    ∀ {first second nodes laterNodes},
      view.Live first →
      view.Live second →
      later.identity first = view.identity first →
      later.identity second = view.identity second →
      later.Live first →
      later.Live second →
      Path view.links (.root ()) nodes →
      Path later.links (.root ()) laterNodes →
      [first, second].Sublist nodes →
      [first, second].Sublist laterNodes
  /-- The word of a marked node is final in its life. -/
  frozen :
    ∀ {node},
      view.Erased node ∨
        view.OnChain node ∧ ¬ view.Unmarked node →
      later.identity node = view.identity node →
      later.next (.node node) = view.next (.node node) ∧
        ¬ later.Unmarked node

/-- The node was behind the parked one, and it has stayed unmarked. -/
def Stays
    (view later : ListView A I T)
    (parked node : A) : Prop :=
  view.Unmarked node ∧ LeadsTo view.links parked node ∧
    later.Unmarked node

/-- What was behind the parked node and has stayed unmarked is still there. -/
def KeepsReach
    (view later : ListView A I T)
    (parked : A) : Prop :=
  ∀ {node},
    view.Stays later parked node → LeadsTo later.links parked node

/-- What an iterator parked on a node visits when it moves on later. -/
structure Traversal
    (view later : ListView A I T)
    (parked : A)
    (visited : List A) : Prop where
  /-- The iterator follows the words to the end. -/
  path : Path later.links (.node parked) visited
  /-- It comes by every node that has stayed. -/
  stayed :
    ∀ {node}, view.Stays later parked node → node ∈ parked :: visited
  /-- It comes by them in list order. -/
  order :
    ∀ {first second nodes},
      view.Stays later parked first →
      view.Stays later parked second →
      Path view.links (.root ()) nodes →
      [first, second].Sublist nodes →
      [first, second].Sublist (parked :: visited)

end ListView

section Traverse

variable {S C A I T : Type}

/--
A client that applies `++` to an iterator parked on a node until it is at
`end()`, and the nodes that it comes by.
-/
def traverse
    (increment : Cell Unit A → Prog S C (Option A))
    (parked : A) :
    Prog S C (List A) :=
  Prog.loop (parked, []) fun walk => do
    let moved ← increment (.node walk.1)
    match moved with
    | none => Prog.leave walk.2
    | some node => Prog.again (node, walk.2 ++ [node])

/-- Alone, the client arrives at `end()` if the words lead there. -/
theorem traverse_finishes
    {allowed : C → Prop}
    {increment : Cell Unit A → Prog S C (Option A)}
    {shown : S → ListView A I T}
    (enabled : ∃ choice, allowed choice)
    (moves :
      ∀ position state,
        Finishes allowed
          (fun moved after =>
            moved = ((shown state).next position).ptr ∧
              shown after = shown state)
          (increment position) state)
    {state : S}
    {parked : A}
    {visited : List A}
    (path : Path (shown state).links (.node parked) visited) :
    Finishes allowed
      (fun found after => found = visited ∧ shown after = shown state)
      (traverse increment parked) state := by
  refine Finishes.loop
    (fun walk now =>
      ∃ rest,
        visited = walk.2 ++ rest ∧
          Path (shown state).links (.node walk.1) rest ∧
          shown now = shown state)
    (fun walk => visited.length - walk.2.length) ?_ enabled
    ⟨visited, rfl, path, rfl⟩
  rintro ⟨position, passed⟩ now ⟨rest, whole, ahead, same⟩
  refine (moves (.node position) now).bind ?_
  rintro moved after ⟨rfl, kept⟩
  rw [same] at kept ⊢
  cases rest with
  | nil =>
      have last : ((shown state).next (.node position)).ptr = none :=
        ahead
      rw [last]
      exact .ret ⟨by simpa using whole.symm, kept⟩
  | cons node rest =>
      obtain ⟨leads, onward⟩ := ahead
      have next : ((shown state).next (.node position)).ptr = some node :=
        leads
      rw [next]
      refine .ret ⟨⟨rest, by simpa using whole, onward, kept⟩, ?_⟩
      simp only [whole, List.length_append, List.length_cons]
      omega

end Traverse

end ConcurrentCpp
