import Mathlib.Logic.Equiv.Basic
import ConcurrentCpp.LockFreeListRCUProtocol

namespace ConcurrentCpp.LockFreeListRCU

/-!
# Steps on handles, sessions and iterators

Joining, leaving, moving and refreshing handles, beginning and ending calls,
and loading addresses under a session.  None of these steps touches a node.
-/

variable {A H T V : Type} [DecidableEq T]
variable {capacity : Nat} {thread : T}
variable {state : State A H T V} {ghost : Ghost A T}

omit [DecidableEq T] in
/-- Counts of the single shard of this list. -/
private theorem refs_update
    (block : Nat)
    (count : Int) :
    (fun place : Unit × Nat =>
        Function.update state.refs block count place.2) =
      Function.update (fun place : Unit × Nat => state.refs place.2)
        ((), block) count := by
  funext place
  obtain ⟨⟨⟩, slot⟩ := place
  by_cases same : slot = block
  · subst same
    simp
  · have different : ((), slot) ≠ ((), block) := by simp [same]
    simp [same]

/-- The next session has no token yet. -/
theorem Invariant.fresh_session
    (inv : Invariant capacity (state, ghost)) :
    ghost.ring.token (.inl state.nextSession) = none := by
  by_contra held
  obtain ⟨handle, live, known, same⟩ := inv.sessions.tokens held
  have bound : live.session < state.nextSession :=
    inv.sessions.fresh known
  omega

/-- A step of the thread's own token keeps every session. -/
private theorem token_keeps
    (inv : Invariant capacity (state, ghost))
    {refs : Nat → Int}
    {token : Option (Token Unit)}
    (ring :
      (ghost.ring.setToken (.inr thread) token).Sound capacity
        state.current fun place => refs place.2) :
    Invariant capacity
        ({ state with refs := refs },
          { ghost with
            ring := ghost.ring.setToken (.inr thread) token }) ∧
      Guarantee thread (state, ghost)
        ({ state with refs := refs },
          { ghost with
            ring := ghost.ring.setToken (.inr thread) token }) := by
  have others : ∀ session : Nat,
      (ghost.ring.setToken (.inr thread) token).token (.inl session) =
        ghost.ring.token (.inl session) :=
    fun _ => Ring.setToken_other (by simp)
  have verified : ∀ {session generation : Nat},
      (ghost.ring.setToken (.inr thread) token).Verified
          (.inl session) generation ↔
        ghost.ring.Verified (.inl session) generation :=
    Ring.verified_other (by simp)
  refine ⟨?_, ?_⟩
  · refine
      { chain := inv.chain
        ring := ring
        blocks := inv.blocks
        freeing := inv.freeing
        stacked := inv.stacked
        nodes := inv.nodes
        hand := inv.hand
        sessions := ?_
        visible := ?_
        watch := ?_
        lives := inv.lives
        records := inv.records
        duties := inv.duties
        flag := inv.flag
        idle := inv.idle }
    · refine
        { live := ?_
          fresh := inv.sessions.fresh
          injective := inv.sessions.injective
          tokens := ?_
          older := inv.sessions.older
          positions := inv.sessions.positions
          threads := inv.sessions.threads
          exclusive := inv.sessions.exclusive }
      · intro handle live known
        simpa only [others] using inv.sessions.live known
      · intro session held
        simp only [others] at held
        exact inv.sessions.tokens held
    · intro session node generation member known
      exact inv.visible member (verified.mp known)
    · intro other node seen
      obtain ⟨generation, ⟨handle, live, use, known, under⟩, rest⟩ :=
        inv.watch seen
      exact ⟨generation,
        ⟨handle, live, use, known, verified.mpr under⟩, rest⟩
  · refine
      { nodes := .same rfl rfl rfl rfl rfl rfl rfl rfl
        sessions := ?_
        reclaim :=
          .same rfl rfl rfl rfl rfl rfl rfl rfl fun _ _ => ⟨rfl, rfl⟩
        record := .same rfl rfl rfl rfl rfl }
    refine
      { uses := fun member _ =>
          ⟨member, fun _ => ⟨rfl, fun _ => others _⟩⟩
        usesNew := fun member _ => member
        tokens := ?_
        reached := List.Subset.refl _
        reachedNew := .inl
        sessions := fun _ _ => others _ }
    intro other different
    exact Ring.setToken_other (by simpa using different)

/-- `fetch_add` of a join attempt. -/
theorem addRef_keeps
    (inv : Invariant capacity (state, ghost))
    (idle : ghost.ring.token (.inr thread) = none)
    (block : Nat) :
    Invariant capacity
        (state.addRef block,
          { ghost with
            ring :=
              ghost.ring.setToken (.inr thread)
                (some ⟨(), block, none⟩) }) ∧
      Guarantee thread (state, ghost)
        (state.addRef block,
          { ghost with
            ring :=
              ghost.ring.setToken (.inr thread)
                (some ⟨(), block, none⟩) }) := by
  refine token_keeps inv ?_
  rw [refs_update]
  exact inv.ring.enter idle ((), block)

/-- `fetch_sub` that takes a join attempt back. -/
theorem dropRef_keeps
    (inv : Invariant capacity (state, ghost))
    {block : Nat}
    {generation : Option Nat}
    (held :
      ghost.ring.token (.inr thread) =
        some ⟨(), block, generation⟩) :
    Invariant capacity
        (state.dropRef block,
          { ghost with
            ring := ghost.ring.setToken (.inr thread) none }) ∧
      Guarantee thread (state, ghost)
        (state.dropRef block,
          { ghost with
            ring := ghost.ring.setToken (.inr thread) none }) := by
  refine token_keeps inv ?_
  rw [refs_update]
  exact inv.ring.leave held

/-- The check of a join attempt that finds its slot still current. -/
theorem verify_keeps
    (inv : Invariant capacity (state, ghost))
    {generation : Option Nat}
    (held :
      ghost.ring.token (.inr thread) =
        some ⟨(), state.current, generation⟩) :
    Invariant capacity
        (state,
          { ghost with
            ring :=
              ghost.ring.setToken (.inr thread)
                (some ⟨(), state.current, some ghost.ring.now⟩) }) ∧
      Guarantee thread (state, ghost)
        (state,
          { ghost with
            ring :=
              ghost.ring.setToken (.inr thread)
                (some ⟨(), state.current, some ghost.ring.now⟩) }) :=
  token_keeps inv (inv.ring.verify held)

/-- The ring with other tokens, as far as handles are concerned. -/
structure HandleChange
    (thread : T)
    (state : State A H T V)
    (ghost : Ghost A T)
    (handles : H → Option Handle)
    (nextSession : Nat)
    (ring : Ring Unit (Nat ⊕ T)) : Prop where
  now : ring.now = ghost.ring.now
  low : ring.low = ghost.ring.low
  later : state.nextSession ≤ nextSession
  live :
    ∀ {handle live},
      handles handle = some live →
      live.session < nextSession ∧
        ∃ generation,
          ring.token (.inl live.session) =
            some ⟨(), live.block, some generation⟩
  injective :
    ∀ {handle other first second},
      handles handle = some first →
      handles other = some second →
      first.session = second.session →
      handle = other
  held :
    ∀ {session},
      ring.token (.inl session) ≠ none →
      ∃ handle live,
        handles handle = some live ∧ live.session = session
  others :
    ∀ {other},
      other ≠ thread →
      ring.token (.inr other) = ghost.ring.token (.inr other)
  reached :
    ∀ {session cell},
      (session, cell) ∈ state.reached →
      ring.token (.inl session) ≠ none →
      ring.token (.inl session) = ghost.ring.token (.inl session)
  used :
    ∀ {use handle},
      use ∈ state.uses →
      use.thread ≠ thread ∨ use.exclusive = false →
      use.handle = some handle →
      handles handle = state.handles handle ∧
        ∀ {live},
          state.handles handle = some live →
          ring.token (.inl live.session) =
            ghost.ring.token (.inl live.session)

/-- A change of handles that no call in progress uses. -/
private theorem handles_keeps
    (inv : Invariant capacity (state, ghost))
    {refs : Nat → Int}
    {handles : H → Option Handle}
    {nextSession : Nat}
    {ring : Ring Unit (Nat ⊕ T)}
    (sound :
      ring.Sound capacity state.current fun place => refs place.2)
    (change :
      HandleChange thread state ghost handles nextSession ring) :
    Invariant capacity
        ({ state with
            refs := refs
            handles := handles
            nextSession := nextSession },
          { ghost with ring := ring }) ∧
      Guarantee thread (state, ghost)
        ({ state with
            refs := refs
            handles := handles
            nextSession := nextSession },
          { ghost with ring := ring }) := by
  obtain ⟨now, low, token, members⟩ := ring
  obtain ⟨sameNow, sameLow, later, live, injective, held, others,
    reached, used⟩ := change
  dsimp only at sameNow sameLow
  subst sameNow sameLow
  refine ⟨?_, ?_⟩
  · refine
      { chain := inv.chain
        ring := sound
        blocks := inv.blocks
        freeing := inv.freeing
        stacked := inv.stacked
        nodes := inv.nodes
        hand := inv.hand
        sessions := ?_
        visible := ?_
        watch := ?_
        lives := inv.lives
        records := inv.records
        duties := inv.duties
        flag := inv.flag
        idle := inv.idle }
    · exact
        { live := fun known => (live known).2
          fresh := fun known => (live known).1
          injective := injective
          tokens := held
          older := fun member =>
            Nat.lt_of_lt_of_le (inv.sessions.older member) later
          positions := inv.sessions.positions
          threads := inv.sessions.threads
          exclusive := inv.sessions.exclusive }
    · rintro session node generation member ⟨found, known, verified⟩
      have known : token (.inl session) = some found := known
      have same := reached member (by simp [known])
      exact inv.visible member
        ⟨found, same.symm.trans known, verified⟩
    · intro other node seen
      obtain ⟨generation, ⟨handle, live, use, known, verified⟩, rest⟩ :=
        inv.watch seen
      obtain ⟨sameHandle, sameToken⟩ := used use (.inr rfl) rfl
      obtain ⟨found, heldToken, isVerified⟩ := verified
      exact ⟨generation,
        ⟨handle, live, use, sameHandle.trans known,
          ⟨found, (sameToken known).trans heldToken, isVerified⟩⟩,
        rest⟩
  · exact
      { nodes := .same rfl rfl rfl rfl rfl rfl rfl rfl
        sessions :=
          { uses := fun member different =>
              ⟨member, used member (.inl different)⟩
            usesNew := fun member _ => member
            tokens := others
            reached := List.Subset.refl _
            reachedNew := .inl
            sessions := reached }
        reclaim :=
          .same rfl rfl rfl rfl rfl rfl rfl rfl fun _ _ => ⟨rfl, rfl⟩
        record := .same rfl rfl rfl rfl rfl }

variable [DecidableEq H]

omit [DecidableEq H] in
/-- A handle that a call uses exclusively is used by no other call. -/
private theorem used_ne
    (inv : Invariant capacity (state, ghost))
    {handle other : H}
    (own : (⟨thread, some handle, true⟩ : Use H T) ∈ state.uses)
    {use : Use H T}
    (member : use ∈ state.uses)
    (foreign : use.thread ≠ thread ∨ use.exclusive = false)
    (uses : use.handle = some other) :
    other ≠ handle := by
  rintro rfl
  have same := inv.sessions.exclusive own member rfl uses rfl
  subst same
  rcases foreign with different | shared
  · exact different rfl
  · cases shared

/-- Sessions stay apart when one handle gets a session of its own. -/
private theorem injective_update
    (inv : Invariant capacity (state, ghost))
    {handle : H}
    {value : Option Handle}
    (apart :
      ∀ {other live new},
        other ≠ handle →
        state.handles other = some live →
        value = some new →
        live.session ≠ new.session)
    {first second : H}
    {left right : Handle}
    (leftKnown :
      Function.update state.handles handle value first = some left)
    (rightKnown :
      Function.update state.handles handle value second = some right)
    (same : left.session = right.session) :
    first = second := by
  by_cases firstSame : first = handle <;>
    by_cases secondSame : second = handle
  · rw [firstSame, secondSame]
  · subst firstSame
    simp only [Function.update_self,
      Function.update_of_ne secondSame] at leftKnown rightKnown
    exact absurd same.symm (apart secondSame rightKnown leftKnown)
  · subst secondSame
    simp only [Function.update_self,
      Function.update_of_ne firstSame] at leftKnown rightKnown
    exact absurd same (apart firstSame leftKnown rightKnown)
  · simp only [Function.update_of_ne firstSame,
      Function.update_of_ne secondSame] at leftKnown rightKnown
    exact inv.sessions.injective leftKnown rightKnown same

/-- `new_handle()` installs the membership of its join. -/
theorem install_keeps
    (inv : Invariant capacity (state, ghost))
    {handle : H}
    (own : (⟨thread, some handle, true⟩ : Use H T) ∈ state.uses)
    (empty : state.handles handle = none)
    {block generation : Nat}
    (held :
      ghost.ring.token (.inr thread) =
        some ⟨(), block, some generation⟩) :
    Invariant capacity
        ({ state with
            handles :=
              Function.update state.handles handle
                (some ⟨block, state.nextSession⟩)
            nextSession := state.nextSession + 1 },
          { ghost with
            ring :=
              (ghost.ring.setToken (.inr thread) none).setToken
                (.inl state.nextSession)
                (some ⟨(), block, some generation⟩) }) ∧
      Guarantee thread (state, ghost)
        ({ state with
            handles :=
              Function.update state.handles handle
                (some ⟨block, state.nextSession⟩)
            nextSession := state.nextSession + 1 },
          { ghost with
            ring :=
              (ghost.ring.setToken (.inr thread) none).setToken
                (.inl state.nextSession)
                (some ⟨(), block, some generation⟩) }) := by
  have fresh := inv.fresh_session
  have older : ∀ {other live},
      state.handles other = some live →
      live.session < state.nextSession := inv.sessions.fresh
  have kept : ∀ {session : Nat}, session < state.nextSession →
      ((ghost.ring.setToken (.inr thread) none).setToken
        (.inl state.nextSession)
        (some ⟨(), block, some generation⟩)).token (.inl session) =
        ghost.ring.token (.inl session) := by
    intro session bound
    simp [Nat.ne_of_lt bound]
  refine handles_keeps inv (inv.ring.transfer held fresh)
    { now := rfl
      low := rfl
      later := Nat.le_succ _
      live := ?_
      injective := ?_
      held := ?_
      others := ?_
      reached := ?_
      used := ?_ }
  · intro other live known
    by_cases same : other = handle
    · subst same
      simp only [Function.update_self, Option.some.injEq] at known
      subst known
      exact ⟨Nat.lt_succ_self _, generation, by simp⟩
    · simp only [Function.update_of_ne same] at known
      rw [kept (older known)]
      exact ⟨Nat.lt_succ_of_lt (older known), inv.sessions.live known⟩
  · exact injective_update inv fun _ known new => by
      cases new
      exact Nat.ne_of_lt (older known)
  · intro session present
    by_cases same : session = state.nextSession
    · exact ⟨handle, ⟨block, state.nextSession⟩, by simp, same.symm⟩
    · have before : ghost.ring.token (.inl session) ≠ none := by
        simpa [same] using present
      obtain ⟨other, live, known, sameSession⟩ :=
        inv.sessions.tokens before
      have different : other ≠ handle := by
        rintro rfl
        exact absurd (empty.symm.trans known) (by simp)
      exact ⟨other, live, by simpa [different] using known, sameSession⟩
  · intro other different
    simp [different]
  · intro session node member _
    exact kept (inv.sessions.older member)
  · intro use other member foreign uses
    have different := used_ne inv own member foreign uses
    exact ⟨by simp [different], fun known => kept (older known)⟩

/-- `refresh()` redraws the session of its handle. -/
theorem redraw_keeps
    (inv : Invariant capacity (state, ghost))
    {handle : H}
    {live : Handle}
    (own : (⟨thread, some handle, true⟩ : Use H T) ∈ state.uses)
    (known : state.handles handle = some live)
    {generation : Nat}
    (held :
      ghost.ring.token (.inl live.session) =
        some ⟨(), live.block, some generation⟩) :
    Invariant capacity
        (state.redraw handle live.block,
          { ghost with
            ring :=
              (ghost.ring.setToken (.inl live.session) none).setToken
                (.inl state.nextSession)
                (some ⟨(), live.block, some generation⟩) }) ∧
      Guarantee thread (state, ghost)
        (state.redraw handle live.block,
          { ghost with
            ring :=
              (ghost.ring.setToken (.inl live.session) none).setToken
                (.inl state.nextSession)
                (some ⟨(), live.block, some generation⟩) }) := by
  have fresh := inv.fresh_session
  have older : ∀ {other live},
      state.handles other = some live →
      live.session < state.nextSession := inv.sessions.fresh
  have kept : ∀ {session : Nat},
      session < state.nextSession →
      session ≠ live.session →
      ((ghost.ring.setToken (.inl live.session) none).setToken
        (.inl state.nextSession)
        (some ⟨(), live.block, some generation⟩)).token (.inl session) =
        ghost.ring.token (.inl session) := by
    intro session bound different
    simp [Nat.ne_of_lt bound, different]
  have gone :
      ((ghost.ring.setToken (.inl live.session) none).setToken
        (.inl state.nextSession)
        (some ⟨(), live.block, some generation⟩)).token
          (.inl live.session) = none := by
    simp [Nat.ne_of_lt (older known)]
  have apart : ∀ {other found},
      other ≠ handle →
      state.handles other = some found →
      found.session ≠ live.session :=
    fun different foundKnown same =>
      different (inv.sessions.injective foundKnown known same)
  refine handles_keeps inv (inv.ring.transfer held fresh)
    { now := rfl
      low := rfl
      later := Nat.le_succ _
      live := ?_
      injective := ?_
      held := ?_
      others := ?_
      reached := ?_
      used := ?_ }
  · intro other found foundKnown
    by_cases same : other = handle
    · subst same
      simp only [Function.update_self, Option.some.injEq] at foundKnown
      subst foundKnown
      exact ⟨Nat.lt_succ_self _, generation, by simp⟩
    · simp only [Function.update_of_ne same] at foundKnown
      rw [kept (older foundKnown) (apart same foundKnown)]
      exact ⟨Nat.lt_succ_of_lt (older foundKnown),
        inv.sessions.live foundKnown⟩
  · exact injective_update inv fun _ foundKnown new => by
      cases new
      exact Nat.ne_of_lt (older foundKnown)
  · intro session present
    by_cases same : session = state.nextSession
    · exact ⟨handle, ⟨live.block, state.nextSession⟩, by simp,
        same.symm⟩
    · by_cases old : session = live.session
      · subst old
        exact absurd gone present
      · have before : ghost.ring.token (.inl session) ≠ none := by
          simpa [same, old] using present
        obtain ⟨other, found, foundKnown, sameSession⟩ :=
          inv.sessions.tokens before
        have different : other ≠ handle := by
          rintro rfl
          have same := Option.some.inj (known.symm.trans foundKnown)
          subst same
          exact old sameSession.symm
        exact ⟨other, found, by simpa [different] using foundKnown,
          sameSession⟩
  · intro other _
    simp
  · intro session node member present
    by_cases old : session = live.session
    · subst old
      exact absurd gone present
    · exact kept (inv.sessions.older member) old
  · intro use other member foreign uses
    have different := used_ne inv own member foreign uses
    refine ⟨by simp [different], fun foundKnown => ?_⟩
    exact kept (older foundKnown) (apart different foundKnown)

/-- `refresh()` leaves its old generation for the one it has joined. -/
theorem rejoin_keeps
    (inv : Invariant capacity (state, ghost))
    {handle : H}
    {live : Handle}
    (own : (⟨thread, some handle, true⟩ : Use H T) ∈ state.uses)
    (known : state.handles handle = some live)
    (unreached : ∀ cell, (live.session, cell) ∉ state.reached)
    {old joined generation : Nat}
    (left :
      ghost.ring.token (.inl live.session) =
        some ⟨(), live.block, some old⟩)
    (held :
      ghost.ring.token (.inr thread) =
        some ⟨(), joined, some generation⟩) :
    Invariant capacity
        ({ state.dropRef live.block with
            handles :=
              Function.update state.handles handle
                ((state.handles handle).map fun old =>
                  { old with block := joined }) },
          { ghost with
            ring :=
              ((ghost.ring.setToken (.inl live.session) none).setToken
                (.inr thread) none).setToken (.inl live.session)
                (some ⟨(), joined, some generation⟩) }) ∧
      Guarantee thread (state, ghost)
        ({ state.dropRef live.block with
            handles :=
              Function.update state.handles handle
                ((state.handles handle).map fun old =>
                  { old with block := joined }) },
          { ghost with
            ring :=
              ((ghost.ring.setToken (.inl live.session) none).setToken
                (.inr thread) none).setToken (.inl live.session)
                (some ⟨(), joined, some generation⟩) }) := by
  have sound := inv.ring.leave left
  have heldStill :
      (ghost.ring.setToken (.inl live.session) none).token
          (.inr thread) = some ⟨(), joined, some generation⟩ := by
    simpa using held
  have moved := sound.transfer heldStill
    (show (ghost.ring.setToken (.inl live.session) none).token
      (.inl live.session) = none by simp)
  have kept : ∀ {session : Nat},
      session ≠ live.session →
      (((ghost.ring.setToken (.inl live.session) none).setToken
        (.inr thread) none).setToken (.inl live.session)
        (some ⟨(), joined, some generation⟩)).token (.inl session) =
        ghost.ring.token (.inl session) := by
    intro session different
    simp [different]
  have apart : ∀ {other found},
      other ≠ handle →
      state.handles other = some found →
      found.session ≠ live.session :=
    fun different foundKnown same =>
      different (inv.sessions.injective foundKnown known same)
  rw [known]
  refine handles_keeps inv
    (by simp only [State.dropRef]; rw [refs_update]; exact moved)
    { now := rfl
      low := rfl
      later := Nat.le_refl _
      live := ?_
      injective := ?_
      held := ?_
      others := ?_
      reached := ?_
      used := ?_ }
  · intro other found foundKnown
    by_cases same : other = handle
    · subst same
      simp only [Function.update_self, Option.map_some,
        Option.some.injEq] at foundKnown
      subst foundKnown
      have older : live.session < state.nextSession :=
        inv.sessions.fresh known
      exact ⟨older, generation, by simp⟩
    · simp only [Function.update_of_ne same] at foundKnown
      rw [kept (apart same foundKnown)]
      exact ⟨inv.sessions.fresh foundKnown, inv.sessions.live foundKnown⟩
  · exact injective_update inv fun different foundKnown new => by
      cases new
      exact apart different foundKnown
  · intro session present
    by_cases same : session = live.session
    · exact ⟨handle, ⟨joined, live.session⟩, by simp, same.symm⟩
    · rw [kept same] at present
      obtain ⟨other, found, foundKnown, sameSession⟩ :=
        inv.sessions.tokens present
      have different : other ≠ handle := by
        rintro rfl
        have eq := Option.some.inj (known.symm.trans foundKnown)
        subst eq
        exact same sameSession.symm
      exact ⟨other, found, by simpa [different] using foundKnown,
        sameSession⟩
  · intro other different
    simp [different]
  · intro session node member _
    have different : session ≠ live.session := by
      rintro rfl
      exact unreached node member
    exact kept different
  · intro use other member foreign uses
    have different := used_ne inv own member foreign uses
    refine ⟨by simp [different], fun foundKnown => ?_⟩
    exact kept (apart different foundKnown)

variable (thread) in
/-- The end of a session whose handle nobody uses. -/
theorem leaveHandle_keeps
    (inv : Invariant capacity (state, ghost))
    {handle : H}
    (unused : Unused state handle) :
    ∃ ring,
      (∀ other, ring.token (.inr other) = ghost.ring.token (.inr other)) ∧
        Invariant capacity
          (state.leaveHandle handle, { ghost with ring := ring }) ∧
        Guarantee thread (state, ghost)
          (state.leaveHandle handle, { ghost with ring := ring }) := by
  cases known : state.handles handle with
  | none =>
      refine ⟨ghost.ring, fun _ => rfl, ?_⟩
      simp only [State.leaveHandle, known]
      exact ⟨inv, (protocol capacity).guar_refl thread _⟩
  | some live =>
      obtain ⟨generation, held⟩ := inv.sessions.live known
      have kept : ∀ {session : Nat},
          session ≠ live.session →
          (ghost.ring.setToken (.inl live.session) none).token
              (.inl session) =
            ghost.ring.token (.inl session) := by
        intro session different
        simp [different]
      have apart : ∀ {other found},
          other ≠ handle →
          state.handles other = some found →
          found.session ≠ live.session :=
        fun different foundKnown same =>
          different (inv.sessions.injective foundKnown known same)
      refine ⟨ghost.ring.setToken (.inl live.session) none,
        fun _ => by simp, ?_⟩
      simp only [State.leaveHandle, known]
      refine handles_keeps inv
        (by
          simp only [State.dropRef]
          rw [refs_update]
          exact inv.ring.leave held)
        { now := rfl
          low := rfl
          later := Nat.le_refl _
          live := ?_
          injective := ?_
          held := ?_
          others := ?_
          reached := ?_
          used := ?_ }
      · intro other found foundKnown
        have different : other ≠ handle := by
          rintro rfl
          simp at foundKnown
        simp only [Function.update_of_ne different] at foundKnown
        rw [kept (apart different foundKnown)]
        exact ⟨inv.sessions.fresh foundKnown,
          inv.sessions.live foundKnown⟩
      · exact injective_update inv fun _ _ new => by cases new
      · intro session present
        have different : session ≠ live.session := by
          rintro rfl
          simp at present
        rw [kept different] at present
        obtain ⟨other, found, foundKnown, sameSession⟩ :=
          inv.sessions.tokens present
        have notHandle : other ≠ handle := by
          rintro rfl
          have eq := Option.some.inj (known.symm.trans foundKnown)
          subst eq
          exact different sameSession.symm
        exact ⟨other, found, by simpa [notHandle] using foundKnown,
          sameSession⟩
      · intro other _
        simp
      · intro session node _ present
        have different : session ≠ live.session := by
          rintro rfl
          simp at present
        exact kept different
      · intro use other member _ uses
        have different : other ≠ handle := by
          rintro rfl
          exact unused use member uses
        refine ⟨by simp [different], fun foundKnown => ?_⟩
        exact kept (apart different foundKnown)

variable (thread) in
/-- Exchanging the sessions of handles that nobody uses. -/
theorem swapHandles_keeps
    (inv : Invariant capacity (state, ghost))
    {first second : H}
    (firstUnused : Unused state first)
    (secondUnused : Unused state second) :
    Invariant capacity (state.swapHandles first second, ghost) ∧
      Guarantee thread (state, ghost)
        (state.swapHandles first second, ghost) := by
  have shape :
      Function.update
          (Function.update state.handles first (state.handles second))
          second (state.handles first) =
        fun handle => state.handles (Equiv.swap first second handle) := by
    funext handle
    by_cases isSecond : handle = second
    · simp [isSecond]
    · by_cases isFirst : handle = first
      · simp [isFirst, Function.update_of_ne,
          show first ≠ second from fun same =>
            isSecond (isFirst.trans same)]
      · simp [isFirst, isSecond, Equiv.swap_apply_of_ne_of_ne]
  simp only [State.swapHandles, shape]
  refine handles_keeps inv inv.ring
    { now := rfl
      low := rfl
      later := Nat.le_refl _
      live := fun known =>
        ⟨inv.sessions.fresh known, inv.sessions.live known⟩
      injective := fun left right same =>
        (Equiv.swap first second).injective
          (inv.sessions.injective left right same)
      held := ?_
      others := fun _ => rfl
      reached := fun _ _ => rfl
      used := ?_ }
  · intro session present
    obtain ⟨other, found, foundKnown, sameSession⟩ :=
      inv.sessions.tokens present
    exact ⟨Equiv.swap first second other, found,
      by simpa using foundKnown, sameSession⟩
  · intro use other member _ uses
    have notFirst : other ≠ first := by
      rintro rfl
      exact firstUnused use member uses
    have notSecond : other ≠ second := by
      rintro rfl
      exact secondUnused use member uses
    refine ⟨?_, fun _ => rfl⟩
    rw [Equiv.swap_apply_of_ne_of_ne notFirst notSecond]

omit [DecidableEq T] in
/-- Moving into an empty handle is an exchange with it. -/
theorem moveHandle_eq_swap
    {target source : H}
    (empty : state.handles target = none) :
    state.moveHandle target source = state.swapHandles target source := by
  have shape :
      Function.update
          (Function.update state.handles source none)
          target (state.handles source) =
        Function.update
          (Function.update state.handles target (state.handles source))
          source (state.handles target) := by
    funext handle
    by_cases isSource : handle = source <;>
      by_cases isTarget : handle = target
    · subst isSource isTarget
      simp
    · subst isSource
      simp [isTarget, empty]
    · subst isTarget
      simp [isSource]
    · simp [isSource, isTarget]
  simp only [State.moveHandle, State.swapHandles, shape]

variable (thread) in
/-- Moving into an empty handle. -/
theorem moveHandle_keeps
    (inv : Invariant capacity (state, ghost))
    {target source : H}
    (targetUnused : Unused state target)
    (sourceUnused : Unused state source)
    (empty : state.handles target = none) :
    Invariant capacity (state.moveHandle target source, ghost) ∧
      Guarantee thread (state, ghost)
        (state.moveHandle target source, ghost) := by
  rw [moveHandle_eq_swap empty]
  exact swapHandles_keeps thread inv targetUnused sourceUnused

omit [DecidableEq H] [DecidableEq T] in
/-- A step may let its session learn the address of a word as well. -/
theorem Guarantee.reach
    {after : State A H T V}
    {later : Ghost A T}
    (guarantee : Guarantee thread (state, ghost) (after, later))
    (same : after.reached = state.reached)
    {handle : H}
    {live : Handle}
    (known : state.handles handle = some live)
    (shared : Unchanging state handle)
    (cell : Cell Unit A) :
    Guarantee thread (state, ghost)
      ({ after with reached := (live.session, cell) :: after.reached },
        later) := by
  obtain ⟨nodes, sessions, reclaim, record⟩ := guarantee
  refine
    { nodes :=
        ⟨nodes.chain, nodes.owned, nodes.pending, nodes.owner,
          nodes.watched,
          nodes.freeLink, nodes.present, nodes.life, nodes.used⟩
      sessions :=
        { uses := sessions.uses
          usesNew := sessions.usesNew
          tokens := sessions.tokens
          reached := ?_
          reachedNew := ?_
          sessions := sessions.sessions }
      reclaim :=
        ⟨reclaim.holder, reclaim.taken, reclaim.fields, reclaim.ghost,
          reclaim.hand⟩
      record :=
        ⟨record.tops, record.ownTop, record.erasing, record.events⟩ }
  · intro entry member
    exact List.mem_cons_of_mem _ (sessions.reached member)
  · intro session other member
    rcases List.mem_cons.mp member with new | old
    · cases new
      exact .inr ⟨handle, live, known, rfl, shared⟩
    · rw [same] at old
      exact .inl old

omit [DecidableEq H] [DecidableEq T] in
/-- A step may add to the record as well. -/
theorem Guarantee.record_event
    {after : State A H T V}
    {later : Ghost A T}
    (guarantee : Guarantee thread (state, ghost) (after, later))
    {events : List (ListEvent (A × Nat) T)}
    {erasing : T → Bool}
    {unreported : Finset T}
    (suffix : state.events <:+ events)
    (others :
      ∀ {other},
        other ≠ thread →
        erasing other = ghost.erasing other ∧
          (other ∈ unreported ↔ other ∈ ghost.unreported)) :
    Guarantee thread (state, ghost)
      ({ after with events := events },
        { later with erasing := erasing, unreported := unreported }) := by
  obtain ⟨nodes, sessions, reclaim, record⟩ := guarantee
  exact
    { nodes :=
        ⟨nodes.chain, nodes.owned, nodes.pending, nodes.owner,
          nodes.watched,
          nodes.freeLink, nodes.present, nodes.life, nodes.used⟩
      sessions :=
        ⟨sessions.uses, sessions.usesNew, sessions.tokens,
          sessions.reached, sessions.reachedNew, sessions.sessions⟩
      reclaim :=
        ⟨reclaim.holder, reclaim.taken, reclaim.fields, reclaim.ghost,
          reclaim.hand⟩
      record := ⟨record.tops, record.ownTop, others, suffix⟩ }

variable (thread) in
omit [DecidableEq H] in
/-- A session that nobody is changing learns the address of a word. -/
theorem reachCell_keeps
    (inv : Invariant capacity (state, ghost))
    {handle : H}
    {live : Handle}
    (known : state.handles handle = some live)
    (shared : Unchanging state handle)
    (cell : Cell Unit A)
    (visible :
      ∀ {node generation},
        cell = .node node →
        ghost.ring.Verified (.inl live.session) generation →
        (chainOf (state, ghost)).forest.Visible () generation node) :
    Invariant capacity
        ({ state with reached := (live.session, cell) :: state.reached },
          ghost) ∧
      Guarantee thread (state, ghost)
        ({ state with reached := (live.session, cell) :: state.reached },
          ghost) := by
  refine ⟨?_, ?_⟩
  · refine
      { chain := inv.chain
        ring := inv.ring
        blocks := inv.blocks
        freeing := inv.freeing
        stacked := inv.stacked
        nodes := inv.nodes
        hand := inv.hand
        sessions := ?_
        visible := ?_
        watch := inv.watch
        lives := inv.lives
        records := inv.records
        duties := inv.duties
        flag := inv.flag
        idle := inv.idle }
    · refine
        { live := inv.sessions.live
          fresh := inv.sessions.fresh
          injective := inv.sessions.injective
          tokens := inv.sessions.tokens
          older := ?_
          positions := fun member =>
            List.mem_cons_of_mem _ (inv.sessions.positions member)
          threads := inv.sessions.threads
          exclusive := inv.sessions.exclusive }
      intro session other member
      rcases List.mem_cons.mp member with new | old
      · cases new
        exact inv.sessions.fresh known
      · exact inv.sessions.older old
    · intro session other generation member verified
      rcases List.mem_cons.mp member with new | old
      · cases new
        exact visible rfl verified
      · exact inv.visible old verified
  · exact ((protocol capacity).guar_refl thread _).reach rfl known
      shared cell

variable (thread) in
omit [DecidableEq H] in
/-- A session that nobody is changing learns what a word leads to. -/
theorem reach_keeps
    (inv : Invariant capacity (state, ghost))
    {handle : H}
    {live : Handle}
    (known : state.handles handle = some live)
    (shared : Unchanging state handle)
    (target : Option A)
    (visible :
      ∀ {node generation},
        target = some node →
        ghost.ring.Verified (.inl live.session) generation →
        (chainOf (state, ghost)).forest.Visible () generation node) :
    Invariant capacity (state.reach live.session target, ghost) ∧
      Guarantee thread (state, ghost)
        (state.reach live.session target, ghost) := by
  cases target with
  | none =>
      exact ⟨inv, (protocol capacity).guar_refl thread _⟩
  | some node =>
      exact reachCell_keeps thread inv known shared (.node node)
        fun same verified => by
          cases same
          exact visible rfl verified

omit [DecidableEq H] in
/-- A client keeps an iterator on a word that its session has reached. -/
theorem iterator_keeps
    (inv : Invariant capacity (state, ghost))
    (session : Nat)
    (cell : Cell Unit A)
    (reached : (session, cell) ∈ state.reached) :
    Invariant capacity
      ({ state with iterators := (session, cell) :: state.iterators },
        ghost) := by
  refine
    { chain := inv.chain
      ring := inv.ring
      blocks := inv.blocks
      freeing := inv.freeing
      stacked := inv.stacked
      nodes := inv.nodes
      hand := inv.hand
      sessions := ?_
      visible := inv.visible
      watch := inv.watch
      lives := inv.lives
      records := inv.records
      duties := inv.duties
      flag := inv.flag
      idle := inv.idle }
  · refine
      { live := inv.sessions.live
        fresh := inv.sessions.fresh
        injective := inv.sessions.injective
        tokens := inv.sessions.tokens
        older := inv.sessions.older
        positions := ?_
        threads := inv.sessions.threads
        exclusive := inv.sessions.exclusive }
    intro other node member
    rcases List.mem_cons.mp member with new | old
    · cases new
      exact reached
    · exact inv.sessions.positions old

/-- The thread has nothing in its hands. -/
structure Done
    (thread : T)
    (state : State A H T V)
    (ghost : Ghost A T) : Prop where
  unread : state.topRead thread = none
  unladen : ∀ node, (ghost.stage node).owner? ≠ some thread
  released : ghost.holder ≠ some thread

/-- The calls in progress after a call begins or ends. -/
structure CallChange
    (thread : T)
    (state : State A H T V)
    (ghost : Ghost A T)
    (uses : List (Use H T)) : Prop where
  threads : (uses.map Use.thread).Nodup
  exclusive :
    ∀ {first second handle},
      first ∈ uses →
      second ∈ uses →
      first.handle = some handle →
      second.handle = some handle →
      first.exclusive = true →
      first = second
  kept : ∀ {use}, use ∈ state.uses → use.thread ≠ thread → use ∈ uses
  foreign : ∀ {use}, use ∈ uses → use.thread ≠ thread → use ∈ state.uses
  own :
    ∀ {use},
      use ∈ state.uses →
      use.thread = thread →
      use ∈ uses ∨ Done thread state ghost

/-- The record after a call begins or ends. -/
structure BookChange
    (thread : T)
    (state : State A H T V)
    (ghost : Ghost A T)
    (events : List (ListEvent (A × Nat) T))
    (erasing : T → Bool)
    (unreported : Finset T) : Prop where
  marks : marksOf events = marksOf state.events
  inserted :
    ∀ {caller node life},
      ListEvent.inserted caller (node, life) true ∈ events →
      ListEvent.inserted caller (node, life) true ∈ state.events ∨
        life = state.life node ∧ (ghost.stage node).Used
  ledger : Ledger events erasing unreported
  suffix : state.events <:+ events
  others :
    ∀ {other},
      other ≠ thread →
      erasing other = ghost.erasing other ∧
        (other ∈ unreported ↔ other ∈ ghost.unreported)

omit [DecidableEq H] in
/-- A thread that is in no call begins one that the others allow. -/
theorem CallChange.begin
    (inv : Invariant capacity (state, ghost))
    (free : ∀ use ∈ state.uses, use.thread ≠ thread)
    {use : Use H T}
    (mine : use.thread = thread)
    (allowed :
      ∀ other ∈ state.uses,
        ∀ handle,
          use.handle = some handle →
          other.handle = some handle →
          use.exclusive = false ∧ other.exclusive = false) :
    CallChange thread state ghost (use :: state.uses) where
  threads := by
    rw [List.map_cons, List.nodup_cons]
    refine ⟨?_, inv.sessions.threads⟩
    rw [List.mem_map]
    rintro ⟨other, member, same⟩
    exact free other member (same.trans mine)
  exclusive {first second handle} firstIn secondIn firstHas secondHas
      exclusive := by
    rcases List.mem_cons.mp firstIn with rfl | firstOld
    · rcases List.mem_cons.mp secondIn with rfl | secondOld
      · rfl
      · have shared := allowed second secondOld handle firstHas secondHas
        exact absurd (shared.1.symm.trans exclusive) (by simp)
    · rcases List.mem_cons.mp secondIn with rfl | secondOld
      · have shared := allowed first firstOld handle secondHas firstHas
        exact absurd (shared.2.symm.trans exclusive) (by simp)
      · exact inv.sessions.exclusive firstOld secondOld firstHas
          secondHas exclusive
  kept member _ := List.mem_cons_of_mem _ member
  foreign {other} member different := by
    rcases List.mem_cons.mp member with rfl | old
    · exact (different mine).elim
    · exact old
  own member _ := .inl (List.mem_cons_of_mem _ member)

omit [DecidableEq H] in
/-- A thread is in one call at most. -/
theorem Invariant.same_use
    (inv : Invariant capacity (state, ghost))
    {use other : Use H T}
    (member : use ∈ state.uses)
    (otherMember : other ∈ state.uses)
    (same : other.thread = use.thread) :
    other = use :=
  List.inj_on_of_nodup_map inv.sessions.threads otherMember member same

/-- A thread that ends its call is in none. -/
theorem Invariant.one_use
    (inv : Invariant capacity (state, ghost))
    {use other : Use H T}
    (member : use ∈ state.uses)
    (remains : other ∈ state.uses.erase use) :
    other.thread ≠ use.thread := by
  intro same
  have noDuplicates : state.uses.Nodup :=
    List.Nodup.of_map _ inv.sessions.threads
  have facts := noDuplicates.mem_erase_iff.mp remains
  exact facts.1 (inv.same_use member facts.2 same)

/-- A thread ends the call that it is in. -/
theorem CallChange.finish
    (inv : Invariant capacity (state, ghost))
    (use : Use H T)
    (mine : use.thread = thread)
    (done : Done thread state ghost) :
    CallChange thread state ghost (state.uses.erase use) where
  threads :=
    inv.sessions.threads.sublist (List.erase_sublist.map Use.thread)
  exclusive firstIn secondIn :=
    inv.sessions.exclusive (List.mem_of_mem_erase firstIn)
      (List.mem_of_mem_erase secondIn)
  kept {other} member different := by
    have notUse : other ≠ use := by
      rintro rfl
      exact different mine
    exact (List.mem_erase_of_ne notUse).mpr member
  foreign member _ := List.mem_of_mem_erase member
  own _ _ := .inr done

omit [DecidableEq H] in
/-- Nothing is recorded. -/
theorem BookChange.same
    (inv : Invariant capacity (state, ghost)) :
    BookChange thread state ghost state.events ghost.erasing
      ghost.unreported where
  marks := rfl
  inserted := .inl
  ledger := inv.records.ledger
  suffix := List.suffix_rfl
  others _ := ⟨rfl, Iff.rfl⟩

omit [DecidableEq H] in
/-- A call begins or ends. -/
theorem call_keeps
    (inv : Invariant capacity (state, ghost))
    {uses : List (Use H T)}
    {events : List (ListEvent (A × Nat) T)}
    {erasing : T → Bool}
    {unreported : Finset T}
    (change : CallChange thread state ghost uses)
    (book :
      BookChange thread state ghost events erasing unreported) :
    Invariant capacity
        ({ state with uses := uses, events := events },
          { ghost with erasing := erasing, unreported := unreported }) ∧
      Guarantee thread (state, ghost)
        ({ state with uses := uses, events := events },
          { ghost with
            erasing := erasing
            unreported := unreported }) := by
  refine ⟨?_, ?_⟩
  · refine
      { chain := inv.chain
        ring := inv.ring
        blocks := inv.blocks
        freeing := inv.freeing
        stacked := inv.stacked
        nodes := inv.nodes
        hand := inv.hand
        sessions := ?_
        visible := inv.visible
        watch := ?_
        lives := ?_
        records := ?_
        duties := ?_
        flag := inv.flag
        idle := inv.idle }
    · exact
        { live := inv.sessions.live
          fresh := inv.sessions.fresh
          injective := inv.sessions.injective
          tokens := inv.sessions.tokens
          older := inv.sessions.older
          positions := inv.sessions.positions
          threads := change.threads
          exclusive := change.exclusive }
    · intro other node seen
      obtain ⟨generation, ⟨handle, live, use, under⟩, rest⟩ :=
        inv.watch seen
      have stays :
          (⟨other, some handle, false⟩ : Use H T) ∈ uses := by
        by_cases same : other = thread
        · subst same
          rcases change.own use rfl with stays | done
          · exact stays
          · exact absurd (done.unread.symm.trans seen) (by simp)
        · exact change.kept use same
      exact ⟨generation, ⟨handle, live, stays, under⟩, rest⟩
    · refine
        { marked := ?_
          unmarked := ?_
          inserted := ?_ }
      · intro node life member
        rw [book.marks] at member
        exact inv.lives.marked member
      · intro node member
        rw [book.marks] at member
        exact inv.lives.unmarked member
      · intro caller node life member
        rcases book.inserted member with old | ⟨same, used⟩
        · exact inv.lives.inserted old
        · exact ⟨Nat.le_of_eq same, fun _ => used⟩
    · exact
        { ledger := book.ledger
          unlinkedSame := inv.records.unlinkedSame
          constructed := inv.records.constructed
          counts := inv.records.counts }
    · refine ⟨?_, ?_⟩
      · intro node other owner
        obtain ⟨handle, use⟩ := inv.duties.owner owner
        refine ⟨handle, ?_⟩
        by_cases same : other = thread
        · subst same
          rcases change.own use rfl with stays | done
          · exact stays
          · exact (done.unladen node owner).elim
        · exact change.kept use same
      · intro other holds
        have use := inv.duties.holder holds
        by_cases same : other = thread
        · subst same
          rcases change.own use rfl with stays | done
          · exact stays
          · exact (done.released holds).elim
        · exact change.kept use same
  · exact
      { nodes := .same rfl rfl rfl rfl rfl rfl rfl rfl
        sessions :=
          { uses := fun member different =>
              ⟨change.kept member different,
                fun _ => ⟨rfl, fun _ => rfl⟩⟩
            usesNew := change.foreign
            tokens := fun _ => rfl
            reached := List.Subset.refl _
            reachedNew := .inl
            sessions := fun _ _ => rfl }
        reclaim :=
          .same rfl rfl rfl rfl rfl rfl rfl rfl fun _ _ => ⟨rfl, rfl⟩
        record :=
          { tops := fun _ => ⟨rfl, rfl⟩
            ownTop := ⟨Nat.le_refl _, fun _ => .inl rfl⟩
            erasing := book.others
            events := book.suffix } }

end ConcurrentCpp.LockFreeListRCU
