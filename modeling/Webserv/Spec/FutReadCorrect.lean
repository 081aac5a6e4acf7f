import Mathlib.Data.List.GetD
import Webserv.Native.FutIo
import Webserv.Spec.FutureRuns

/-!
# `read_entity` is the plain loop

`readLoop` reads a part, feeds it, and goes on while the creator says PENDING.
It says what is done, and what is returned if the outcomes are enough.

## Key results

- `readEntity_refines_loop`: on the same outcomes `read_entity` does the same
-/

namespace Webserv.Fut

open Futures Transition

variable {σ Entity Err : Type} (impl : EntityCreator σ Entity Err)

/-- The loop behind some turns, on the outcomes that are left. -/
def readLoop : (creator : σ) → List ReadEvent →
    Trace (readSignature σ Entity Err) × Option (Except Err Entity)
  | _, [] => ([], none)
  | creator, ev :: evs =>
    match ev.result with
    | .error err => ([.answered () ev], some (.error (impl.errorOf err)))
    | .ok data =>
      match impl.call creator data with
      | (.pending, creator') =>
        let (trace, res) := readLoop creator' evs
        (.answered () ev :: .performed (.fed creator data) :: trace, res)
      | (.ready, creator') =>
        ([.answered () ev, .performed (.fed creator data), .performed (.created creator')],
          some (impl.createEntity creator'))

/-- The outcomes of the reader. -/
def readEvents (trace : Trace (readSignature σ Entity Err)) : List ReadEvent :=
  (answers trace).map Sigma.snd

/-- The calls of the loop on these outcomes, and the callback if it returns. -/
def readLoopNotes (creator : σ) (evs : List ReadEvent) : Trace (readSignature σ Entity Err) :=
  match readLoop impl creator evs with
  | (trace, none) => trace
  | (trace, some res) => trace ++ [.performed (.resolved res)]

variable {impl}

/-! ## One turn -/

section turn
variable {creator : σ} {trace : Trace (readSignature σ Entity Err)}

/-- A turn that delivers: the read failed, the entity is there, or another turn follows. -/
theorem delivers_readEntity_turn {value : Except Err Entity}
    (h : Delivers (readBodies impl) (readEntity impl creator) trace value) : ∃ ev : ReadEvent,
      (∃ err, ev.result = .error err ∧ trace = [.answered () ev] ∧
        value = .error (impl.errorOf err)) ∨
      (∃ data creator', ev.result = .ok data ∧ impl.call creator data = (.ready, creator') ∧
        trace = [.answered () ev, .performed (.fed creator data), .performed (.created creator')] ∧
        value = impl.createEntity creator') ∨
      ∃ data creator' trace', ev.result = .ok data ∧ impl.call creator data = (.pending, creator') ∧
        trace = .answered () ev :: .performed (.fed creator data) :: trace' ∧
        Delivers (readBodies impl) (readEntity impl creator') trace' value := by
  obtain ⟨_, part, rest, hpart, hnext, rfl⟩ := delivers_flatmap.mp h
  obtain ⟨ev, rfl, rfl⟩ := delivers_when.mp hpart
  refine ⟨ev, ?_⟩
  cases hresult : ev.result with
  | error err =>
    rw [hresult] at hnext
    obtain ⟨rfl, rfl⟩ := delivers_fromVal.mp hnext
    exact .inl ⟨err, rfl, rfl, rfl⟩
  | ok data =>
    rw [hresult] at hnext
    -- the part is fed to the creator
    obtain ⟨trace', hcont, rfl⟩ := delivers_perform.mp hnext
    rcases hcall : impl.call creator data with ⟨_ | _, creator'⟩
    · rw [hcall] at hcont
      exact .inr (.inr ⟨data, creator', trace', rfl, hcall, rfl, delivers_call.mp hcont⟩)
    · rw [hcall] at hcont
      obtain ⟨_, hlast, rfl⟩ := delivers_perform.mp hcont
      obtain ⟨rfl, rfl⟩ := delivers_fromVal.mp hlast
      exact .inr (.inl ⟨data, creator', rfl, hcall, rfl, rfl⟩)

/-- A turn that waits, or another one that does. -/
theorem blocks_readEntity_turn {wait : Wait (readSignature σ Entity Err)}
    (h : Blocks (readBodies impl) (readEntity impl creator) trace wait) :
    trace = [] ∨ ∃ ev data creator' trace', ev.result = .ok data ∧
      impl.call creator data = (.pending, creator') ∧
      trace = .answered () ev :: .performed (.fed creator data) :: trace' ∧
      Blocks (readBodies impl) (readEntity impl creator') trace' wait := by
  -- the read waits, or it has come and the turn goes on
  obtain hpart | ⟨_, part, rest, hpart, hnext, rfl⟩ := blocks_flatmap.mp h
  · exact .inl (blocks_when.mp hpart).1
  · obtain ⟨ev, rfl, rfl⟩ := delivers_when.mp hpart
    refine .inr ⟨ev, ?_⟩
    cases hresult : ev.result with
    | error err =>
      rw [hresult] at hnext
      exact absurd hnext not_blocks_fromVal
    | ok data =>
      rw [hresult] at hnext
      obtain ⟨trace', hcont, rfl⟩ := blocks_perform.mp hnext
      rcases hcall : impl.call creator data with ⟨_ | _, creator'⟩
      · rw [hcall] at hcont
        -- PENDING: the next turn is a call of its own
        exact ⟨data, creator', trace', rfl, hcall, rfl, blocks_call.mp hcont⟩
      · rw [hcall] at hcont
        obtain ⟨_, hlast, rfl⟩ := blocks_perform.mp hcont
        exact absurd hlast not_blocks_fromVal

/-! ## All the turns -/

/-- What is delivered is what the loop returns. -/
theorem delivers_readEntity {value : Except Err Entity}
    (h : Delivers (readBodies impl) (readEntity impl creator) trace value) :
    readLoop impl creator (readEvents trace) = (trace, some value) := by
  induction hevents : readEvents trace generalizing creator trace with
  | nil =>
    obtain ⟨ev, ⟨_, -, rfl, -⟩ | ⟨_, _, -, -, rfl, -⟩ | ⟨_, _, _, -, -, rfl, -⟩⟩ :=
      delivers_readEntity_turn h
    -- each turn reads a part
    all_goals exact absurd hevents (List.cons_ne_nil _ _)
  | cons ev evs ih =>
    obtain ⟨ev', ⟨err, hresult, rfl, rfl⟩ | ⟨data, creator', hresult, hcall, rfl, rfl⟩ |
      ⟨data, creator', trace, hresult, hcall, rfl, hnext⟩⟩ := delivers_readEntity_turn h
    · obtain ⟨rfl, rfl⟩ := List.cons.inj hevents
      rw [readLoop, hresult]
    · obtain ⟨rfl, rfl⟩ := List.cons.inj hevents
      rw [readLoop, hresult]
      dsimp only
      rw [hcall]
    · obtain ⟨rfl, hevs⟩ := List.cons.inj hevents
      rw [readLoop, hresult]
      dsimp only
      rw [hcall]
      dsimp only
      rw [ih hnext hevs]

/-- Before that the loop has not returned. -/
theorem blocks_readEntity {wait : Wait (readSignature σ Entity Err)}
    (h : Blocks (readBodies impl) (readEntity impl creator) trace wait) :
    readLoop impl creator (readEvents trace) = (trace, none) := by
  induction hevents : readEvents trace generalizing creator trace with
  | nil =>
    obtain rfl | ⟨_, _, _, _, -, -, rfl, -⟩ := blocks_readEntity_turn h
    · -- no part has come yet
      rfl
    · exact absurd hevents (List.cons_ne_nil _ _)
  | cons ev evs ih =>
    obtain rfl | ⟨ev', data, creator', trace, hresult, hcall, rfl, hnext⟩ :=
      blocks_readEntity_turn h
    · exact absurd hevents.symm (List.cons_ne_nil _ _)
    · obtain ⟨rfl, hevs⟩ := List.cons.inj hevents
      rw [readLoop, hresult]
      dsimp only
      rw [hcall]
      dsimp only
      rw [ih hnext hevs]

end turn

/-! ## Runs -/

/-- One call is free behind every answer, and a call leaves none. -/
def readEnds : ∀ t : ReadTy, (readSignature σ Entity Err).Proc t → ℕ
  | .part, proc => nomatch proc
  | .entity, _ => 0

/-- It takes no contract from outside. -/
theorem takes_readEntity (creator : σ) :
    Takes (S := readSignature σ Entity Err) 0 (readEntity impl creator) := by
  refine .flatmap (add_zero 0).symm (.when _) fun part => ?_
  cases part with
  | error err => exact .fromVal _
  | ok data =>
    refine .perform _ ?_
    rcases impl.call creator data with ⟨_ | _, creator'⟩
    · exact .call _
    · exact .perform _ (.fromVal _)

/-- It waits before it calls itself. -/
theorem pays_readEntity (creator : σ) :
    Pays (S := readSignature σ Entity Err) readEnds 0 (readEntity impl creator) 0 := by
  refine .flatmap (.when _ (Nat.le_refl 1)) fun part => ?_
  cases part with
  | error err => exact .fromVal _ (Nat.zero_le 1)
  | ok data =>
    refine .perform _ ?_
    rcases impl.call creator data with ⟨_ | _, creator'⟩
    · -- the read in front pays for the call
      exact .call Nat.one_pos (Nat.le_refl 0)
    · exact .perform _ (.fromVal _ (Nat.zero_le 1))

/-- So the future is sound. -/
theorem good_readEntity (creator : σ) :
    (readEntity impl creator).Good readEnds (readBodies impl) := by
  refine ⟨⟨fun t proc => ?_, fun t proc => ?_⟩, ⟨0, Multiset.nodup_zero, takes_readEntity creator⟩,
    0, 0, pays_readEntity creator⟩
  · cases t with
    | part => exact nomatch proc
    | entity => exact takes_readEntity proc
  · cases t with
    | part => exact nomatch proc
    | entity => exact pays_readEntity proc

section runs
variable {creator : σ} {es : List (Event (readSignature σ Entity Err))}
  {c : Config (readSignature σ Entity Err)}

/-- A loop that has returned reads no further. -/
theorem readLoop_append_of_some {evs : List ReadEvent} {res : Except Err Entity}
    {trace : Trace (readSignature σ Entity Err)} (rest : List ReadEvent)
    (h : readLoop impl creator evs = (trace, some res)) :
    readLoop impl creator (evs ++ rest) = (trace, some res) := by
  induction evs generalizing creator trace with
  | nil => cases h
  | cons ev evs ih =>
    rw [List.cons_append, readLoop]
    rw [readLoop] at h
    cases hresult : ev.result with
    | error err =>
      rw [hresult] at h
      exact h
    | ok data =>
      rw [hresult] at h
      dsimp only at h ⊢
      rcases hcall : impl.call creator data with ⟨_ | _, creator'⟩
      · rw [hcall] at h
        dsimp only at h ⊢
        -- the creator wants more, so the loop goes on
        obtain ⟨rfl, hres⟩ := Prod.mk.inj h
        rw [ih (Prod.ext rfl hres)]
      · rw [hcall] at h
        exact h

/-- A loop that does not return uses up all outcomes. -/
theorem readLoop_of_none {evs : List ReadEvent} (h : (readLoop impl creator evs).2 = none) :
    readLoopNotes impl creator evs = (readLoop impl creator evs).1 ∧
      readEvents (readLoop impl creator evs).1 = evs := by
  constructor
  · -- without a result there is no note behind the reads
    rw [readLoopNotes]
    cases hloop : readLoop impl creator evs with
    | mk trace res =>
      rw [hloop] at h
      dsimp only at h
      rw [h]
  · induction evs generalizing creator with
    | nil => rfl
    | cons ev evs ih =>
      rw [readLoop] at h ⊢
      cases hresult : ev.result with
      | error err =>
        rw [hresult] at h
        cases h
      | ok data =>
        rw [hresult] at h
        dsimp only at h ⊢
        -- a loop that has no result has used up its reads
        rcases hcall : impl.call creator data with ⟨_ | _, creator'⟩
        · rw [hcall] at h
          exact congrArg (List.cons ev) (ih h)
        · rw [hcall] at h
          cases h

/-- When every call has returned, the loop was run on the outcomes there were. -/
theorem readEntity_idle (hrun : ProgRun (readBodies impl) (readProg impl creator) es c)
    (hidle : c.Idle) :
    notes es = readLoopNotes impl creator (readEvents (notes es)) ∧
      c.pending.card = if (readLoop impl creator (readEvents (notes es))).2.isNone then 1 else 0 := by
  cases (good_readEntity creator).outcome_notes hrun hidle with
  -- resolved: the notes are those of the loop to its end
  | @finished trace value hpending h htrace =>
    have hevents : readEvents (notes es) = readEvents trace := by
      rw [htrace, readEvents, answers_append, answers_performed, List.append_nil]
      rfl
    rw [hevents, readLoopNotes, delivers_readEntity h, hpending]
    exact ⟨htrace, rfl⟩
  -- waiting: they are those of the loop so far
  | @asks handler hpending h =>
    rw [readLoopNotes, blocks_readEntity h, hpending]
    exact ⟨rfl, rfl⟩
  | @waits t contract => exact nomatch contract

/-- On the same outcomes `read_entity` does what the loop does, in the same order, and it
    resolves if the loop returns.  If not, one handler waits for the next outcome. -/
theorem readEntity_refines_loop (impl : EntityCreator σ Entity Err) (creator : σ)
    (hrun : ProgRun (readBodies impl) (readProg impl creator) es c) :
    notes es <+: readLoopNotes impl creator (readEvents (notes es)) ∧
      .uncaught ∉ es ∧ Inevitably (Step (readBodies impl)) Event.Internal Config.Idle c ∧
      (c.Idle → notes es = readLoopNotes impl creator (readEvents (notes es)) ∧ c.pending.card =
        if (readLoop impl creator (readEvents (notes es))).2.isNone then 1 else 0) := by
  have hgood : (readEntity impl creator).Good readEnds (readBodies impl) := good_readEntity creator
  refine ⟨?_, hgood.not_uncaught hrun, hgood.returns hrun, readEntity_idle hrun⟩
  -- the run goes on without answers until it is idle, and is a prefix then
  obtain ⟨es', c', hrun', hidle', hinternal⟩ := hgood.settles hrun
  have hnotes := (readEntity_idle hrun' hidle').1
  have hevents : readEvents (notes (es ++ es')) = readEvents (notes es) := by
    rw [readEvents, answers_notes_append_internal hinternal]
    rfl
  rw [hevents, notes_append] at hnotes
  rw [← hnotes]
  exact List.prefix_append _ _

/-- Whatever the outcomes are, there is a run that comes to its end on them. -/
theorem readEntity_exists_run (impl : EntityCreator σ Entity Err) (creator : σ)
    (evs : List ReadEvent) : ∃ es c, ProgRun (readBodies impl) (readProg impl creator) es c ∧
      c.Idle ∧ notes es = readLoopNotes impl creator evs := by
  obtain ⟨es, c, hrun, hidle, hanswers, hle, hend⟩ := (good_readEntity creator).exists_run
    (fun res => [.resolved res]) (fun i _ => evs.getD i .closed) evs.length
  refine ⟨es, c, hrun, hidle, ?_⟩
  obtain ⟨hnotes, hpending⟩ := readEntity_idle hrun hidle
  have hlength : (readEvents (notes es)).length = (answers (notes es)).length := List.length_map _
  -- the parts that were read are the first ones
  have hbegins : readEvents (notes es) <+: evs := by
    refine List.prefix_iff_getElem?.mpr fun i hi => ?_
    have hi' : i < (answers (notes es)).length := hlength ▸ hi
    have hanswer := hanswers i _ (List.getElem?_eq_getElem hi')
    have hevent : (readEvents (notes es))[i] = ((answers (notes es))[i]).2 := List.getElem_map _
    rw [hevent, hanswer, List.getD_eq_getElem evs _ (hi'.trans_le hle)]
    exact List.getElem?_eq_getElem _
  obtain ⟨rest, hrest⟩ := hbegins
  rw [hnotes, ← hrest]
  obtain hzero | hall := hend
  · -- the loop has returned
    rw [hzero] at hpending
    cases hloop : readLoop impl creator (readEvents (notes es)) with
    | mk trace result =>
      cases result with
      | none =>
        rw [hloop] at hpending
        exact absurd hpending Nat.zero_ne_one
      | some res => rw [readLoopNotes, readLoopNotes, hloop, readLoop_append_of_some rest hloop]
  · -- all parts were read
    have hnone : rest = [] := by
      have hlengths := congrArg List.length hrest
      rw [List.length_append, hlength, hall] at hlengths
      exact List.eq_nil_of_length_eq_zero (by omega)
    rw [hnone, List.append_nil]

end runs

/-- A creator of strings of three bytes. -/
def threeBytes : EntityCreator Bytes Bytes Io.Error where
  call received part :=
    (if (received ++ part).length < 3 then .pending else .ready, received ++ part)
  createEntity received := .ok received
  errorOf err := err

/-- Two reads make up the entity. -/
theorem readEntity_refines_loop_threeBytes : ∃ es c,
    ProgRun (readBodies threeBytes) (readProg threeBytes []) es c ∧
    notes es <+: [.answered () (.toRead (.ok [1, 2])), .performed (.fed [] [1, 2]),
      .answered () (.toRead (.ok [3])), .performed (.fed [1, 2] [3]),
      .performed (.created [1, 2, 3]), .performed (.resolved (.ok [1, 2, 3]))] ∧
    c.pending.card = 0 := by
  obtain ⟨es, c, hrun, hidle, hnotes⟩ := readEntity_exists_run threeBytes []
    [.toRead (.ok [1, 2]), .toRead (.ok [3]), .closed]
  -- the third event is never looked at
  have hevents : readEvents (notes es) = [.toRead (.ok [1, 2]), .toRead (.ok [3])] := by
    rw [hnotes]
    rfl
  obtain ⟨hbegins, -, -, hdone⟩ := readEntity_refines_loop threeBytes [] hrun
  rw [hevents] at hbegins hdone
  exact ⟨es, c, hrun, hbegins, (hdone hidle).2⟩

end Webserv.Fut
