import ConcurrentCpp.IntrPointerHistory
import ConcurrentCpp.RelyGuarantee

namespace ConcurrentCpp.IntrPointer

/-!
# The protocol of the intrusive pointers

The count of an object is the number of handles and words that refer to it and
of the references in flight.  Everything else rests on this equation: what a
word names is owned, so a hazard set before a read that still finds the object
was set before its retirement.

A frame says what one thread knows while it runs a call: which handles it uses
and what they hold, its references in flight, its hazard, its lock, the objects
whose destructors it runs and what its calls have done so far.
-/

variable {A W H T : Type}

section Accounts

/-- What the handles refer to. -/
def handleRefers
    (handle : H → Option (Word A)) :
    H → Option A :=
  fun h => (handle h).bind Word.ptr

/-- What the words refer to. -/
def wordRefers
    (word : W → Option (Word A)) :
    W → Option A :=
  fun w => (word w).bind Word.ptr

theorem handleRefers_update
    [DecidableEq H]
    (handle : H → Option (Word A))
    (h : H)
    (value : Option (Word A)) :
    handleRefers (Function.update handle h value) =
      Function.update (handleRefers handle) h (value.bind Word.ptr) := by
  funext other
  by_cases same : other = h
  · subst other
    simp [handleRefers]
  · simp [handleRefers, same]

theorem wordRefers_update
    [DecidableEq W]
    (word : W → Option (Word A))
    (w : W)
    (value : Option (Word A)) :
    wordRefers (Function.update word w value) =
      Function.update (wordRefers word) w (value.bind Word.ptr) :=
  handleRefers_update word w value

variable [DecidableEq A]

/-- The references to an object that are in flight. -/
def flying
    (flights : List (T × Flight A))
    (a : A) : Nat :=
  flights.countP fun entry => entry.2.object = a

/-- All counted references to an object. -/
noncomputable def references
    (state : State A W H T)
    (a : A) : Nat :=
  holding (handleRefers state.handle) a +
    holding (wordRefers state.word) a +
    flying state.flights a

end Accounts

/-- The hazard of a thread keeps an object from being destroyed. -/
def Shielded
    (state : State A W H T)
    (thread : T)
    (a : A) : Prop :=
  state.hazard thread = some a ∧
    (state.status a = .owned ∨
      (∃ other, state.status a = .condemned other) ∨
      (state.status a = .retired ∧ thread ∈ state.guards a))

/-- No reference to the object counts but the one of a single handle. -/
structure Solitary
    (state : State A W H T)
    (a : A)
    (cell : H) : Prop where
  held : handleRefers state.handle cell = some a
  only : ∀ h, handleRefers state.handle h = some a → h = cell
  unnamed : ∀ w, wordRefers state.word w ≠ some a
  tentative :
    ∀ entry ∈ state.flights,
      entry.2.object = a → entry.2.tentative = true

/-- The word cannot end while the thread uses it. -/
def Uses
    (config : Config A W)
    (state : State A W H T)
    (thread : T)
    (w : W) : Prop :=
  match config.home w with
  | none => (thread, ⟨.word w, false⟩) ∈ state.pins
  | some a =>
      (∃ h exclusive,
        (thread, ⟨.handle h, exclusive⟩) ∈ state.pins ∧
          handleRefers state.handle h = some a) ∨
        state.status a = .dying thread

variable [DecidableEq A] [DecidableEq W] [DecidableEq T]

/-- What holds in every state. -/
structure Invariant
    (config : Config A W)
    (state : State A W H T) : Prop where
  exact : ∀ a, state.count a = references state a
  boundedHandles : Bounded (handleRefers state.handle)
  boundedWords : Bounded (wordRefers state.word)
  owned : ∀ a, state.status a = .owned ↔ 0 < state.count a
  life : ∀ a, lifeOf a state.deeds = state.status a
  lawful : Lawful state.deeds
  condemned :
    ∀ thread a,
      state.releasing thread = some a ↔
        state.status a = .condemned thread
  unbuilt :
    ∀ a w,
      config.home w = some a →
      state.status a = .free →
      state.word w = none
  built :
    ∀ a w,
      config.home w = some a →
      (state.status a).Alive →
      state.word w ≠ none
  disciplined : Disciplined state.pins
  flown : ∀ entry ∈ state.flights, ∃ pin, (entry.1, pin) ∈ state.pins
  inside : ∀ entry ∈ state.pins, ∃ call, (entry.1, call) ∈ state.running
  pinned :
    ∀ thread w,
      (thread, ⟨.word w, false⟩) ∈ state.pins → state.word w ≠ none
  roots :
    ∀ thread w exclusive,
      (thread, ⟨.word w, exclusive⟩) ∈ state.pins →
        config.home w = none
  unhazarded :
    config.flavour = .spinning → ∀ thread, state.hazard thread = none
  unlocked : config.flavour = .hazard → ∀ w, state.lock w = none
  locked :
    ∀ thread w,
      state.lock w = some thread → Uses config state thread w
  recorded : ∀ thread, state.hazard thread ≠ none → thread ∈ state.records
  current : ∀ w, contents w state.events = state.word w
  legal : Legal state.events
  numbered :
    ∀ thread number,
      state.calls thread ≤ number →
      ofCall (thread, number) state.events = []
  walked :
    ∀ thread a cell,
      (thread, (a, cell)) ∈ state.walking →
        Solitary state a cell ∧
          (thread, ⟨.handle cell, true⟩) ∈ state.pins

omit [DecidableEq A] [DecidableEq W] [DecidableEq T] in
/-- The uses of two threads at one place are shared. -/
theorem Disciplined.shared
    {pins : List (T × Pin W H)}
    {first second : T}
    {place : Place W H}
    {firstMode secondMode : Bool}
    (disciplined : Disciplined pins)
    (pinsFirst : (first, ⟨place, firstMode⟩) ∈ pins)
    (pinsSecond : (second, ⟨place, secondMode⟩) ∈ pins)
    (different : first ≠ second) :
    firstMode = false ∧ secondMode = false := by
  have symmetric :
      Std.Symm fun first second : T × Pin W H =>
        first.2.Compatible second.2 :=
    ⟨fun _ _ compatible same => (compatible same.symm).symm⟩
  have differs :
      ((first, ⟨place, firstMode⟩) : T × Pin W H) ≠
        (second, ⟨place, secondMode⟩) := by
    simp [different]
  exact List.Pairwise.forall disciplined pinsFirst pinsSecond differs rfl

omit [DecidableEq A] [DecidableEq W] [DecidableEq T] in
/-- A place that is used alone has no shared use. -/
theorem Disciplined.alone
    {pins : List (T × Pin W H)}
    {first second : T}
    {place : Place W H}
    (disciplined : Disciplined pins)
    (pinsFirst : (first, ⟨place, true⟩) ∈ pins) :
    (second, ⟨place, false⟩) ∉ pins := by
  intro pinsSecond
  have symmetric :
      Std.Symm fun first second : T × Pin W H =>
        first.2.Compatible second.2 :=
    ⟨fun _ _ compatible same => (compatible same.symm).symm⟩
  have compatible :=
    List.Pairwise.forall disciplined pinsFirst pinsSecond (by simp) rfl
  simp at compatible

/-- What the steps of the other threads leave to a thread. -/
structure Kept
    (config : Config A W)
    (thread : T)
    (before after : State A W H T) : Prop where
  running : own thread after.running = own thread before.running
  pins : own thread after.pins = own thread before.pins
  handles :
    ∀ h exclusive,
      (thread, ⟨.handle h, exclusive⟩) ∈ before.pins →
        after.handle h = before.handle h
  roots :
    ∀ w,
      (thread, ⟨.word w, true⟩) ∈ before.pins →
        after.word w = before.word w
  flights : own thread after.flights = own thread before.flights
  hazard : after.hazard thread = before.hazard thread
  shield : ∀ a, Shielded before thread a → Shielded after thread a
  lock :
    ∀ w, after.lock w = some thread ↔ before.lock w = some thread
  lockedWord :
    ∀ w, before.lock w = some thread → after.word w = before.word w
  releasing : after.releasing thread = before.releasing thread
  walking : own thread after.walking = own thread before.walking
  fresh :
    ∀ a,
      before.status a = .fresh thread → after.status a = .fresh thread
  dying :
    ∀ a,
      before.status a = .dying thread →
        after.status a = .dying thread ∧
          ∀ w,
            config.home w = some a →
              (after.word w = none ↔ before.word w = none)
  calls : after.calls thread = before.calls thread
  events :
    ∀ number,
      ofCall (thread, number) after.events =
        ofCall (thread, number) before.events

omit [DecidableEq A] [DecidableEq W] in
theorem Kept.refl
    (config : Config A W)
    (thread : T)
    (state : State A W H T) :
    Kept config thread state state where
  running := rfl
  pins := rfl
  handles _ _ _ := rfl
  roots _ _ := rfl
  flights := rfl
  hazard := rfl
  shield _ known := known
  lock _ := Iff.rfl
  lockedWord _ _ := rfl
  releasing := rfl
  walking := rfl
  fresh _ known := known
  dying _ known := ⟨known, fun _ _ => Iff.rfl⟩
  calls := rfl
  events _ := rfl

omit [DecidableEq A] [DecidableEq W] in
theorem Kept.trans
    {config : Config A W}
    {thread : T}
    {before middle after : State A W H T}
    (first : Kept config thread before middle)
    (second : Kept config thread middle after) :
    Kept config thread before after where
  running := second.running.trans first.running
  pins := second.pins.trans first.pins
  handles h exclusive pinned := by
    have pinnedStill := pinned
    rw [← mem_own, ← first.pins, mem_own] at pinnedStill
    exact (second.handles h exclusive pinnedStill).trans
      (first.handles h exclusive pinned)
  roots w pinned := by
    have pinnedStill := pinned
    rw [← mem_own, ← first.pins, mem_own] at pinnedStill
    exact (second.roots w pinnedStill).trans (first.roots w pinned)
  flights := second.flights.trans first.flights
  hazard := second.hazard.trans first.hazard
  shield a known := second.shield a (first.shield a known)
  lock w := (second.lock w).trans (first.lock w)
  lockedWord w locked :=
    (second.lockedWord w ((first.lock w).mpr locked)).trans
      (first.lockedWord w locked)
  releasing := second.releasing.trans first.releasing
  walking := second.walking.trans first.walking
  fresh a known := second.fresh a (first.fresh a known)
  dying a known := by
    obtain ⟨status, same⟩ := first.dying a known
    obtain ⟨statusStill, sameStill⟩ := second.dying a status
    exact ⟨statusStill, fun w inside =>
      (sameStill w inside).trans (same w inside)⟩
  calls := second.calls.trans first.calls
  events number := (second.events number).trans (first.events number)

/-- The protocol: a step leaves the other threads what is theirs. -/
def protocol
    (config : Config A W) :
    Protocol (State A W H T) Unit T where
  Inv world := Invariant config world.1
  Guar thread before after :=
    ∀ other, other ≠ thread → Kept config other before.1 after.1
  guar_refl _ world other _ := Kept.refl config other world.1

/-- What a thread knows while it runs. -/
structure Frame (A W H T : Type) where
  /-- The calls that the thread is in, innermost first. -/
  running : List (Call A W H)
  pins : List (Pin W H)
  /-- What the handles hold that the thread uses. -/
  value : H → Option (Word A)
  /-- What the words hold that the thread uses alone. -/
  root : W → Option (Word A)
  flights : List (Flight A)
  hazard : Option A
  shielded : Bool
  lock : Option (W × Word A)
  releasing : Option A
  walking : List (A × H)
  /-- The objects whose destructors run, with the words they still have. -/
  dying : List (A × List W)
  /-- The calls that have not returned, with what they did. -/
  calls : List (Nat × List (Event A W T))

/-- What a thread knows is true. -/
structure Holds
    (config : Config A W)
    (thread : T)
    (frame : Frame A W H T)
    (state : State A W H T) : Prop where
  running : own thread state.running = frame.running
  pins : own thread state.pins = frame.pins
  values :
    ∀ h exclusive,
      ⟨.handle h, exclusive⟩ ∈ frame.pins → state.handle h = frame.value h
  roots :
    ∀ w, ⟨.word w, true⟩ ∈ frame.pins → state.word w = frame.root w
  flights : own thread state.flights = frame.flights
  hazard : state.hazard thread = frame.hazard
  shield :
    frame.shielded = true →
      ∀ a, frame.hazard = some a → Shielded state thread a
  lock :
    ∀ w,
      state.lock w = some thread ↔
        frame.lock.map Prod.fst = some w
  lockedWord :
    ∀ w value,
      frame.lock = some (w, value) → state.word w = some value
  releasing : state.releasing thread = frame.releasing
  walking : own thread state.walking = frame.walking
  dying :
    ∀ a words,
      (a, words) ∈ frame.dying →
        state.status a = .dying thread ∧
          ∀ w,
            config.home w = some a →
              (w ∈ words ↔ state.word w ≠ none)
  calls :
    ∀ number trail,
      (number, trail) ∈ frame.calls →
        number < state.calls thread ∧
          ofCall (thread, number) state.events = trail

omit [DecidableEq A] [DecidableEq W] in
/-- Other threads leave what a thread knows. -/
theorem Holds.kept
    {config : Config A W}
    {thread : T}
    {frame : Frame A W H T}
    {before after : State A W H T}
    (holds : Holds config thread frame before)
    (kept : Kept config thread before after) :
    Holds config thread frame after where
  running := kept.running.trans holds.running
  pins := kept.pins.trans holds.pins
  values h exclusive pinned := by
    have known := pinned
    rw [← holds.pins, mem_own] at known
    rw [kept.handles h exclusive known]
    exact holds.values h exclusive pinned
  roots w pinned := by
    have known := pinned
    rw [← holds.pins, mem_own] at known
    rw [kept.roots w known]
    exact holds.roots w pinned
  flights := kept.flights.trans holds.flights
  hazard := kept.hazard.trans holds.hazard
  shield shielded a named :=
    kept.shield a (holds.shield shielded a named)
  lock w := (kept.lock w).trans (holds.lock w)
  lockedWord w value locked := by
    have holder : before.lock w = some thread :=
      (holds.lock w).mpr (by rw [locked]; rfl)
    exact (kept.lockedWord w holder).trans
      (holds.lockedWord w value locked)
  releasing := kept.releasing.trans holds.releasing
  walking := kept.walking.trans holds.walking
  dying a words member := by
    obtain ⟨status, remaining⟩ := holds.dying a words member
    obtain ⟨statusAfter, same⟩ := kept.dying a status
    exact ⟨statusAfter, fun w inside =>
      (remaining w inside).trans (not_congr (same w inside)).symm⟩
  calls number trail member := by
    obtain ⟨begun, trailIs⟩ := holds.calls number trail member
    exact ⟨by rw [kept.calls]; exact begun,
      (kept.events number).trans trailIs⟩

/-- The thread knows what its frame says. -/
def keeping
    (config : Config A W)
    (thread : T)
    (frame : Frame A W H T) :
    Assertion (protocol config (H := H)) thread where
  holds world := Holds config thread frame world.1
  stable different _ _ guarantee known :=
    known.kept (guarantee _ (Ne.symm different))

/-- A step of a thread keeps the invariant and what is the others'. -/
structure Sound
    (config : Config A W)
    (thread : T)
    (before after : State A W H T) : Prop where
  inv : Invariant config after
  kept : ∀ other, other ≠ thread → Kept config other before after

theorem Sound.refl
    {config : Config A W}
    {thread : T}
    {state : State A W H T}
    (inv : Invariant config state) :
    Sound config thread state state :=
  ⟨inv, fun other _ => Kept.refl config other state⟩

theorem Sound.trans
    {config : Config A W}
    {thread : T}
    {before middle after : State A W H T}
    (first : Sound config thread before middle)
    (second : Sound config thread middle after) :
    Sound config thread before after :=
  ⟨second.inv, fun other different =>
    (first.kept other different).trans (second.kept other different)⟩

/-- A command is verified by what it does to the state. -/
theorem command_triple
    {config : Config A W}
    {thread : T}
    {β : Type}
    {frame : Frame A W H T}
    {command :
      State A W H T → Choice A W H → Option (β × State A W H T)}
    {post : β → Assertion (protocol config) thread}
    (keeps :
      ∀ state choice value after,
        Invariant config state →
        Holds config thread frame state →
        command state choice = some (value, after) →
        Sound config thread state after ∧
          (post value).holds (after, ())) :
    Triple (protocol config) thread (keeping config thread frame)
      (Prog.atomic command) post := by
  apply Triple.atomic
  intro world choice value shared inv known ran
  obtain ⟨sound, holds⟩ := keeps world.1 choice value shared inv known ran
  exact ⟨(), sound.inv, sound.kept, holds⟩

/-- A write is verified by what it does to the state. -/
theorem update_triple
    {config : Config A W}
    {thread : T}
    {frame post : Frame A W H T}
    {update : State A W H T → State A W H T}
    (keeps :
      ∀ state,
        Invariant config state →
        Holds config thread frame state →
        Sound config thread state (update state) ∧
          Holds config thread post (update state)) :
    Triple (protocol config) thread (keeping config thread frame)
      (Prog.write update : Program A W H T Unit)
      (fun _ => keeping config thread post) := by
  apply command_triple
  intro state choice value after inv holds ran
  cases ran
  exact keeps state inv holds

section Facts

variable
  {config : Config A W}
  {thread : T}
  {frame : Frame A W H T}
  {state : State A W H T}

omit [DecidableEq W] [DecidableEq T] in
theorem flying_pos
    {entry : T × Flight A}
    {flights : List (T × Flight A)}
    (member : entry ∈ flights) :
    0 < flying flights entry.2.object := by
  rw [flying, List.countP_pos_iff]
  exact ⟨entry, member, by simp⟩

/-- What a handle refers to is owned. -/
theorem Invariant.owned_of_handle
    {h : H}
    {a : A}
    (inv : Invariant config state)
    (refersTo : handleRefers state.handle h = some a) :
    state.status a = .owned := by
  have counted := holding_pos inv.boundedHandles refersTo
  have exact := inv.exact a
  rw [inv.owned, exact, references]
  omega

/-- What a word names is owned. -/
theorem Invariant.owned_of_word
    {w : W}
    {a : A}
    (inv : Invariant config state)
    (refersTo : wordRefers state.word w = some a) :
    state.status a = .owned := by
  have counted := holding_pos inv.boundedWords refersTo
  have exact := inv.exact a
  rw [inv.owned, exact, references]
  omega

/-- What is referred to in flight is owned. -/
theorem Invariant.owned_of_flight
    {entry : T × Flight A}
    (inv : Invariant config state)
    (member : entry ∈ state.flights) :
    state.status entry.2.object = .owned := by
  have counted := flying_pos member
  have exact := inv.exact entry.2.object
  rw [inv.owned, exact, references]
  omega

omit [DecidableEq A] [DecidableEq W] in
theorem Holds.pin_mem
    {pin : Pin W H}
    (holds : Holds config thread frame state)
    (pinned : pin ∈ frame.pins) :
    (thread, pin) ∈ state.pins := by
  rw [← mem_own, holds.pins]
  exact pinned

omit [DecidableEq A] [DecidableEq W] in
/-- A frame with a use is the frame of a thread that uses a place. -/
theorem Holds.busy
    (holds : Holds config thread frame state)
    (uses : frame.pins ≠ []) :
    ∃ pin, (thread, pin) ∈ state.pins := by
  obtain ⟨pin, pinned⟩ := List.exists_mem_of_ne_nil _ uses
  exact ⟨pin, holds.pin_mem pinned⟩

omit [DecidableEq A] [DecidableEq W] in
theorem Holds.flight_mem
    {flight : Flight A}
    (holds : Holds config thread frame state)
    (flies : flight ∈ frame.flights) :
    (thread, flight) ∈ state.flights := by
  rw [← mem_own, holds.flights]
  exact flies

/-- A thread that uses a place may have other references in flight. -/
theorem Invariant.flown_own
    {flights : List (T × Flight A)}
    (inv : Invariant config state)
    (busy : ∃ pin, (thread, pin) ∈ state.pins)
    (others :
      ∀ other,
        other ≠ thread → own other flights = own other state.flights) :
    ∀ entry ∈ flights, ∃ pin, (entry.1, pin) ∈ state.pins := by
  rintro ⟨other, flight⟩ member
  by_cases mine : other = thread
  · subst other
    exact busy
  · have theirs := mem_own.mpr member
    rw [others other mine, mem_own] at theirs
    exact inv.flown _ theirs

omit [DecidableEq A] [DecidableEq W] in
/-- The thread holds no lock. -/
theorem Holds.lockless
    {w : W}
    (holds : Holds config thread frame state)
    (free : frame.lock = none) :
    state.lock w ≠ some thread := by
  rw [Ne, holds.lock, free]
  simp

/-- The handle is used, and it is not the cell of a walk. -/
def Frame.Reads
    (frame : Frame A W H T)
    (h : H) : Prop :=
  (∃ exclusive, ⟨.handle h, exclusive⟩ ∈ frame.pins) ∧
    ∀ entry ∈ frame.walking, entry.2 ≠ h

/-- The handle is used alone, and it is not the cell of a walk. -/
def Frame.Writes
    (frame : Frame A W H T)
    (h : H) : Prop :=
  ⟨.handle h, true⟩ ∈ frame.pins ∧
    ∀ entry ∈ frame.walking, entry.2 ≠ h

omit [DecidableEq A] [DecidableEq W] [DecidableEq T] in
theorem Frame.Writes.reads
    {h : H}
    (writes : frame.Writes h) :
    frame.Reads h :=
  ⟨⟨true, writes.1⟩, writes.2⟩

omit [DecidableEq A] [DecidableEq W] [DecidableEq T] in
/-- A handle that is used is a place that is used. -/
theorem Frame.Reads.busy
    {h : H}
    (reads : frame.Reads h) :
    frame.pins ≠ [] := by
  obtain ⟨⟨exclusive, pinned⟩, -⟩ := reads
  exact List.ne_nil_of_mem pinned

/-- No walk has found the object to be its own. -/
def Unwalked
    (state : State A W H T)
    (a : A) : Prop :=
  ∀ other cell, (other, (a, cell)) ∉ state.walking

/-- The cell of a walk is used by nobody else. -/
theorem cell_unused
    {h : H}
    {a : A}
    {other : T}
    (inv : Invariant config state)
    (holds : Holds config thread frame state)
    (reads : frame.Reads h) :
    (other, (a, h)) ∉ state.walking := by
  intro walks
  obtain ⟨⟨exclusive, pinned⟩, free⟩ := reads
  by_cases same : other = thread
  · subst other
    rw [← mem_own, holds.walking] at walks
    exact free _ walks rfl
  · have cellPinned := (inv.walked other a h walks).2
    have shared :=
      inv.disciplined.shared cellPinned (holds.pin_mem pinned) same
    simp at shared

/-- The pointee of a handle that is used is not walked. -/
theorem unwalked_of_handle
    {h : H}
    {a : A}
    (inv : Invariant config state)
    (holds : Holds config thread frame state)
    (reads : frame.Reads h)
    (refersTo : handleRefers state.handle h = some a) :
    Unwalked state a := by
  intro other cell walks
  obtain ⟨solitary, -⟩ := inv.walked other a cell walks
  have same := solitary.only h refersTo
  subst same
  exact cell_unused inv holds reads walks

/-- What a word names is not walked. -/
theorem Invariant.unwalked_of_word
    {w : W}
    {a : A}
    (inv : Invariant config state)
    (refersTo : wordRefers state.word w = some a) :
    Unwalked state a :=
  fun other cell walks =>
    (inv.walked other a cell walks).1.unnamed w refersTo

/-- A validated reference is to an object that is not walked. -/
theorem Invariant.unwalked_of_flight
    {other : T}
    {a : A}
    (inv : Invariant config state)
    (flies : (other, ⟨a, false⟩) ∈ state.flights) :
    Unwalked state a := by
  intro walker cell walks
  have tentative :=
    (inv.walked walker a cell walks).1.tentative _ flies rfl
  simp at tentative

omit [DecidableEq A] [DecidableEq W] [DecidableEq T] in
/-- A solitary object stays so while nobody gains a reference to it. -/
theorem Solitary.keep
    {before after : State A W H T}
    {a : A}
    {cell : H}
    (solitary : Solitary before a cell)
    (cellKept : after.handle cell = before.handle cell)
    (handles :
      ∀ h,
        handleRefers after.handle h = some a →
        handleRefers before.handle h = some a)
    (words :
      ∀ w,
        wordRefers after.word w = some a →
        wordRefers before.word w = some a)
    (flights :
      ∀ entry ∈ after.flights,
        entry.2.object = a →
        entry ∈ before.flights ∨ entry.2.tentative = true) :
    Solitary after a cell where
  held := by
    have held := solitary.held
    unfold handleRefers at held ⊢
    rw [cellKept]
    exact held
  only h refersTo := solitary.only h (handles h refersTo)
  unnamed w refersTo := solitary.unnamed w (words w refersTo)
  tentative entry member named :=
    (flights entry member named).elim
      (fun old => solitary.tentative entry old named) id

end Facts

end ConcurrentCpp.IntrPointer
