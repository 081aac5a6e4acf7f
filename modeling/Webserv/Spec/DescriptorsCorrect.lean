import Webserv.ForStd.Simulation
import Webserv.Native.Descriptors
import Webserv.Spec.EventLoopCorrect
import Webserv.Spec.EventPacking

/-!
# Nobody waits for a descriptor that was closed

The event loop relies on its callers not to close a descriptor that is
registered.  They do not: a callback holds the object it waits for, and the
object closes its descriptor when nobody holds it any more.

## Key results

- `ProcessStep.good`: an object owns its descriptor, and lives as long as it is held
- `processStep_simulation`: the process does with its tables what the event loop does
- `descriptors_never_stale`: a registration stands for the open file of a live object
- `descriptors_accounted`: what is closed, and what is left open
-/

namespace Webserv.Io

open Transition (Run Simulation visible)

/-! ## Who owns what -/

/-- Objects own their descriptors, and live as long as they are held.  A registration is
    that of a stored callback, for the file that its object has open. -/
structure Process.Good (s : Process) : Prop where
  fresh : ∀ fd n, s.kernel.files fd = some (.opened n) → n < s.kernel.nextFile
  distinct : ∀ fd fd' f, s.kernel.files fd = some f → s.kernel.files fd' = some f → fd = fd'
  current : ∀ o e, s.objects.lookup o = some e → e.fd ≠ 0 → s.kernel.files e.fd = some e.file
  unique : ∀ o o' e e', s.objects.lookup o = some e → s.objects.lookup o' = some e' →
    e.fd = e'.fd → e.fd ≠ 0 → o = o'
  held : ∀ o, s.Held o ↔ ∃ e, s.objects.lookup o = some e
  registered : ∀ fd f, (fd, f) ∈ s.kernel.epoll → s.kernel.files fd = some f ∧
    ∃ callback o e, s.evStorage.handlers fd = some callback ∧ o ∈ callback.captures ∧
      s.objects.lookup o = some e ∧ e.fd = fd ∧ e.shared = true
  stored : ∀ fd callback, s.evStorage.handlers fd = some callback → ∃ f, (fd, f) ∈ s.kernel.epoll

/-- Opening changes one descriptor. -/
theorem Kernel.openFd_files (k : Kernel) (fd x : Fd) :
    (k.openFd fd).files x = if x = fd then some (.opened k.nextFile) else k.files x :=
  Function.update_apply ..

/-- Closing changes one descriptor. -/
theorem Kernel.close_files (k : Kernel) (fd x : Fd) :
    (k.close fd).2.files x = if x = fd then none else k.files x :=
  Function.update_apply ..

/-- All that `epoll_ctl` can do with a new registration. -/
theorem Kernel.ctlAdd_cases (k : Kernel) (fd : Fd) (granted : Bool) :
    k.ctlAdd fd granted = none ∨
    ∃ f, k.files fd = some f ∧ (fd, f) ∉ k.epoll ∧
      k.ctlAdd fd granted = some { k with epoll := insert (fd, f) k.epoll } := by
  unfold Kernel.ctlAdd
  -- a closed descriptor, one that is registered already, or a kernel that refuses
  cases hfile : k.files fd with
  | none => exact .inl rfl
  | some f =>
    by_cases h : (fd, f) ∈ k.epoll ∨ granted = false
    · exact .inl (if_pos h)
    · exact .inr ⟨f, rfl, fun hmem => h (.inl hmem), if_neg h⟩

namespace Process

/-- A process starts with what it inherits. -/
theorem good_start (inherited : Finset Fd) : (start inherited).Good where
  fresh fd n h := by
    dsimp only [start] at h
    split at h <;> cases h
  distinct fd fd' f h h' := by
    dsimp only [start] at h h'
    split at h <;> split at h' <;> cases h <;> cases h'
    rfl
  current o e h := nomatch h
  unique o o' e e' h := nomatch h
  -- no object exists yet, and nobody holds one
  held o := by
    constructor
    · rintro (h | ⟨fd, callback, h, -⟩)
      · exact absurd h (Multiset.notMem_zero o)
      · exact nomatch h
    · rintro ⟨e, h⟩
      exact nomatch h
  registered fd f h := absurd h (Finset.notMem_empty _)
  stored fd callback h := nomatch h

namespace Good

variable {s : Process}

/-! ## The code that uses the library -/

/-- A file that no object gets. -/
theorem openFd (hs : s.Good) {fd : Fd} (hfree : s.kernel.files fd = none) :
    Good { s with kernel := s.kernel.openFd fd } where
  fresh fd' n h := by
    rw [Kernel.openFd_files] at h
    show n < s.kernel.nextFile + 1
    split at h
    · cases h
      omega
    · have := hs.fresh fd' n h
      omega
  distinct fd₁ fd₂ f h₁ h₂ := by
    rw [Kernel.openFd_files] at h₁ h₂
    -- no descriptor stands for the file that is opened next
    split at h₁ <;> split at h₂
    · rename_i heq₁ heq₂
      rw [heq₁, heq₂]
    · cases h₁
      exact absurd (hs.fresh fd₂ _ h₂) (Nat.lt_irrefl _)
    · cases h₂
      exact absurd (hs.fresh fd₁ _ h₁) (Nat.lt_irrefl _)
    · exact hs.distinct fd₁ fd₂ f h₁ h₂
  -- a live object is on a descriptor that is taken, so not on the new one
  current o e hlive hne := by
    have hfile := hs.current o e hlive hne
    rw [Kernel.openFd_files, if_neg, hfile]
    rintro rfl
    rw [hfree] at hfile
    cases hfile
  unique := hs.unique
  held := hs.held
  registered fd' f hmem := by
    obtain ⟨hfile, howner⟩ := hs.registered fd' f hmem
    refine ⟨?_, howner⟩
    rw [Kernel.openFd_files, if_neg, hfile]
    rintro rfl
    rw [hfree] at hfile
    cases hfile
  stored := hs.stored

/-- A file that is open for a moment. -/
theorem withdraw (hs : s.Good) {fd : Fd} (hfree : s.kernel.files fd = none) :
    Good { s with kernel := ((s.kernel.openFd fd).close fd).2 } := by
  -- the descriptor was free before, and is free again
  have hfiles : ((s.kernel.openFd fd).close fd).2.files = s.kernel.files := by
    funext x
    rw [Kernel.close_files, Kernel.openFd_files]
    split
    · rename_i heq
      rw [heq, hfree]
    · rfl
  exact {
    fresh := fun fd' n h => by
      have hlt := hs.fresh fd' n (by rwa [hfiles] at h)
      exact Nat.lt_succ_of_lt hlt
    distinct := fun fd₁ fd₂ f h₁ h₂ => by
      rw [hfiles] at h₁ h₂
      exact hs.distinct fd₁ fd₂ f h₁ h₂
    current := fun o e hlive hne => by
      rw [hfiles]
      exact hs.current o e hlive hne
    unique := hs.unique
    held := hs.held
    registered := fun fd' f hmem => by
      rw [hfiles]
      exact hs.registered fd' f hmem
    stored := hs.stored }

/-- One more holder of a live object, or one less of an object that others hold. -/
theorem rescope (hs : s.Good) {scope : Multiset ℕ}
    (hheld : ∀ o, Held { s with scope := scope } o ↔ s.Held o) :
    Good { s with scope := scope } :=
  { hs with held := fun o => (hheld o).trans (hs.held o) }

/-- The phase of the loop has no part in the invariant. -/
theorem rephase (hs : s.Good) (phase : LoopPhase) : Good { s with phase := phase } := { hs with }

/-- A new object that a local variable holds. -/
theorem held_new (hs : s.Good) {objects : Heap Endpoint} (e : Endpoint) (kernel : Kernel)
    (hsame : ∀ o, (∃ e, objects.lookup o = some e) ↔ ∃ e, s.objects.lookup o = some e)
    (o : ℕ) :
    Held { s with
      kernel := kernel
      objects := objects.new e
      scope := objects.size ::ₘ s.scope } o ↔ ∃ e', (objects.new e).lookup o = some e' := by
  have hnew := Heap.lookup_new objects e o
  -- the new object is held by whoever made it
  by_cases ho : o = objects.size
  · rw [if_pos ho] at hnew
    refine ⟨fun _ => ⟨e, hnew⟩, fun _ => .inl ?_⟩
    rw [ho]
    exact Multiset.mem_cons_self _ _
  · rw [if_neg ho] at hnew
    rw [hnew, hsame, ← hs.held]
    unfold Held
    dsimp only
    rw [Multiset.mem_cons, or_iff_right ho]

/-- A constructor takes a descriptor nobody had. -/
theorem construct (hs : s.Good) {fd : Fd} (hfree : s.kernel.files fd = none) :
    (s.construct fd).Good := by
  have hk := hs.openFd hfree
  -- no object had the descriptor
  have hother : ∀ o e, s.objects.lookup o = some e → e.fd ≠ 0 → e.fd ≠ fd := by
    rintro o e hlive hne rfl
    have hfile := hs.current o e hlive hne
    rw [hfree] at hfile
    cases hfile
  -- a live object is the new one or an old one
  have hlookup : ∀ o e, (s.objects.new { fd := fd, file := .opened s.kernel.nextFile }).lookup o
      = some e → (o = s.objects.size ∧ e = { fd := fd, file := .opened s.kernel.nextFile }) ∨
        s.objects.lookup o = some e := by
    intro o e hlive
    rw [Heap.lookup_new] at hlive
    split at hlive
    · rename_i ho
      exact .inl ⟨ho, (Option.some.inj hlive).symm⟩
    · exact .inr hlive
  exact { hk with
    current := fun o e hlive hne => by
      obtain ⟨-, rfl⟩ | hold := hlookup o e hlive
      · exact (Kernel.openFd_files ..).trans (if_pos rfl)
      · exact hk.current o e hold hne
    unique := fun o o' e e' hlive hlive' heq hne => by
      obtain ⟨rfl, rfl⟩ | hold := hlookup o e hlive <;>
        obtain ⟨rfl, rfl⟩ | hold' := hlookup o' e' hlive'
      · rfl
      · exact absurd heq.symm (hother o' e' hold' (heq ▸ hne))
      · exact absurd heq (hother o e hold hne)
      · exact hs.unique o o' e e' hold hold' heq hne
    held := hs.held_new _ _ fun o => Iff.rfl
    registered := fun fd' f hmem => by
      obtain ⟨hfile, callback, o, e, hcallback, ho, hlive, hrest⟩ := hk.registered fd' f hmem
      refine ⟨hfile, callback, o, e, hcallback, ho, ?_, hrest⟩
      show (s.objects.new _).lookup o = some e
      rw [Heap.lookup_new, if_neg (Nat.ne_of_lt (Heap.lt_size_of_lookup hlive)), hlive] }

/-- The descriptor changes hands. -/
theorem moveConstruct (hs : s.Good) {o : ℕ} {e : Endpoint} (hlive : s.objects.lookup o = some e)
    (hvalue : e.shared = false) (shared : Bool) : (s.moveConstruct o e shared).Good := by
  have hput := Heap.lookup_put hlive { e with fd := 0 }
  have hsize : (s.objects.put o { e with fd := 0 }).size = s.objects.size := Heap.size_put _
  have hlt := Heap.lt_size_of_lookup hlive
  -- the new object has the descriptor, the old one has none, and the others are as before
  have hlookup : ∀ o' e', ((s.objects.put o { e with fd := 0 }).new { e with shared := shared }).lookup
      o' = some e' → (o' = s.objects.size ∧ e' = { e with shared := shared }) ∨
        (o' = o ∧ e' = { e with fd := 0 }) ∨ o' ≠ o ∧ s.objects.lookup o' = some e' := by
    intro o' e' h
    rw [Heap.lookup_new, hsize, hput] at h
    split at h
    · rename_i ho
      exact .inl ⟨ho, (Option.some.inj h).symm⟩
    · split at h
      · rename_i ho
        exact .inr (.inl ⟨ho, (Option.some.inj h).symm⟩)
      · rename_i ho
        exact .inr (.inr ⟨ho, h⟩)
  exact { hs with
    current := fun o' e' h hne => by
      obtain ⟨-, rfl⟩ | ⟨-, rfl⟩ | ⟨-, hold⟩ := hlookup o' e' h
      · exact hs.current o e hlive hne
      · exact absurd rfl hne
      · exact hs.current o' e' hold hne
    unique := fun o₁ o₂ e₁ e₂ h₁ h₂ heq hne => by
      obtain ⟨rfl, rfl⟩ | ⟨rfl, rfl⟩ | ⟨hne₁, hold₁⟩ := hlookup o₁ e₁ h₁ <;>
        obtain ⟨rfl, rfl⟩ | ⟨rfl, rfl⟩ | ⟨hne₂, hold₂⟩ := hlookup o₂ e₂ h₂
      · rfl
      · exact absurd heq hne
      · exact absurd (hs.unique o o₂ e e₂ hlive hold₂ heq hne).symm hne₂
      · exact absurd rfl hne
      · rfl
      · exact absurd rfl hne
      · exact absurd (hs.unique o₁ o e₁ e hold₁ hlive heq hne) hne₁
      · exact absurd heq hne
      · exact hs.unique o₁ o₂ e₁ e₂ hold₁ hold₂ heq hne
    held := fun x => by
      -- no object comes to life or dies but the new one
      have hsame : ∀ x, (∃ e', (s.objects.put o { e with fd := 0 }).lookup x = some e') ↔
          ∃ e', s.objects.lookup x = some e' := by
        intro x
        rw [hput]
        split
        · rename_i heq
          rw [heq, hlive]
          exact ⟨fun _ => ⟨e, rfl⟩, fun _ => ⟨_, rfl⟩⟩
        · rfl
      have hnew := hs.held_new { e with shared := shared } s.kernel hsame x
      rwa [hsize] at hnew
    registered := fun fd f hmem => by
      obtain ⟨hfile, callback, o', e', hcallback, ho', hlive', hfd, hshared⟩ :=
        hs.registered fd f hmem
      refine ⟨hfile, callback, o', e', hcallback, ho', ?_, hfd, hshared⟩
      -- what is waited for is not moved, since it is shared
      have hne : o' ≠ o := by
        rintro rfl
        rw [hlive] at hlive'
        cases hlive'
        rw [hvalue] at hshared
        cases hshared
      show ((s.objects.put o _).new _).lookup o' = some e'
      rw [Heap.lookup_new, hsize, if_neg (Nat.ne_of_lt (Heap.lt_size_of_lookup hlive')), hput,
        if_neg hne, hlive'] }

/-- A destructor closes the descriptor of its object, if it has one. -/
theorem closeFd_files (k : Kernel) (e : Endpoint) (x : Fd) :
    (closeFd k e).2.files x = if x = e.fd ∧ e.fd ≠ 0 then none else k.files x := by
  unfold closeFd
  -- the destructor takes descriptor 0 for none
  by_cases hzero : e.fd ≠ 0
  · rw [if_pos hzero]
    show (k.close e.fd).2.files x = _
    rw [Kernel.close_files]
    simp only [hzero, ne_eq, not_false_eq_true, and_true]
  · rw [if_neg hzero, if_neg fun h => hzero h.2]

/-- It leaves the interest list alone. -/
theorem closeFd_frame (k : Kernel) (e : Endpoint) :
    (closeFd k e).2.nextFile = k.nextFile ∧ (closeFd k e).2.epoll = k.epoll := by
  unfold closeFd
  split <;> exact ⟨rfl, rfl⟩

/-- The last holder goes, and the descriptor with it: no callback is waiting for it. -/
theorem destroy (hs : s.Good) {o : ℕ} {e : Endpoint} (hlive : s.objects.lookup o = some e)
    (hlast : ¬ Held { s with scope := s.scope.erase o } o) : (s.destroy o e).Good := by
  obtain ⟨hnext, hepoll⟩ := closeFd_frame s.kernel e
  have hfiles := closeFd_files s.kernel e
  have hremove := Heap.lookup_remove hlive
  -- what is left was there before
  have hlookup : ∀ o' e', (s.objects.remove o).lookup o' = some e' →
      o' ≠ o ∧ s.objects.lookup o' = some e' := by
    intro o' e' h
    rw [hremove] at h
    split at h
    · cases h
    · rename_i hne
      exact ⟨hne, h⟩
  -- another object has another descriptor
  have hkept : ∀ o' e', o' ≠ o → s.objects.lookup o' = some e' →
      (closeFd s.kernel e).2.files e'.fd = s.kernel.files e'.fd := by
    intro o' e' hne hlive'
    rw [hfiles, if_neg]
    rintro ⟨heq, hzero⟩
    exact hne (hs.unique o' o e' e hlive' hlive heq (heq ▸ hzero))
  exact { hs with
    fresh := fun fd n h => by
      dsimp only [Process.destroy] at h ⊢
      rw [hfiles] at h
      rw [hnext]
      split at h
      · cases h
      · exact hs.fresh fd n h
    distinct := fun fd fd' f h h' => by
      dsimp only [Process.destroy] at h h'
      rw [hfiles] at h h'
      split at h <;> split at h' <;> try contradiction
      exact hs.distinct fd fd' f h h'
    current := fun o' e' h hne => by
      obtain ⟨ho, hold⟩ := hlookup o' e' h
      exact (hkept o' e' ho hold).trans (hs.current o' e' hold hne)
    unique := fun o₁ o₂ e₁ e₂ h₁ h₂ =>
      hs.unique o₁ o₂ e₁ e₂ (hlookup o₁ e₁ h₁).2 (hlookup o₂ e₂ h₂).2
    -- nobody holds the object that goes, and who holds another one still does
    held := fun x => by
      show Held { s with scope := s.scope.erase o } x ↔ ∃ e', (s.objects.remove o).lookup x = some e'
      rw [hremove]
      by_cases hx : x = o
      · subst hx
        rw [if_pos rfl]
        exact ⟨fun h => absurd h hlast, fun ⟨_, h⟩ => nomatch h⟩
      · rw [if_neg hx, ← hs.held]
        unfold Held
        dsimp only
        rw [Multiset.mem_erase_of_ne hx]
    registered := fun fd f hmem => by
      obtain ⟨hfile, callback, o', e', hcallback, ho', hlive', hfd, hshared⟩ :=
        hs.registered fd f (by rwa [← hepoll])
      -- a callback that is stored holds its object, so that one is not destroyed
      have hne : o' ≠ o := by
        rintro rfl
        exact hlast (.inr ⟨fd, callback, hcallback, ho'⟩)
      refine ⟨?_, callback, o', e', hcallback, ho', ?_, hfd, hshared⟩
      · rw [← hfile, ← hfd]
        exact hkept o' e' hne hlive'
      · show (s.objects.remove o).lookup o' = some e'
        rw [hremove, if_neg hne, hlive']
    stored := fun fd callback h => by
      dsimp only [Process.destroy]
      rw [hepoll]
      exact hs.stored fd callback h }

/-! ## Registrations -/

/-- All that waiting for an object can do.  What is registered had no callback before. -/
theorem addHandlerForEvent_cases (hs : s.Good) (event : Event) (captures : List ℕ)
    (granted : Bool) :
    s.addHandlerForEvent event captures granted = (.error .epollAdd, s) ∨
    ∃ f, s.kernel.files event.fd = some f ∧ (∀ f', (event.fd, f') ∉ s.kernel.epoll) ∧
      s.evStorage.handlers event.fd = none ∧
      s.addHandlerForEvent event captures granted = (.ok (), { s with
        kernel := { s.kernel with epoll := insert (event.fd, f) s.kernel.epoll }
        evStorage := s.evStorage.setHandler event { number := s.accepted, captures := captures }
        accepted := s.accepted + 1 }) := by
  obtain hadd | ⟨f, hfile, hnew, hadd⟩ := s.kernel.ctlAdd_cases event.fd granted
  · left
    rw [addHandlerForEvent, hadd]
  · right
    -- a registration on this descriptor would be of the file it has now
    have hnone : ∀ f', (event.fd, f') ∉ s.kernel.epoll := by
      intro f' hmem
      have hsame := (hs.registered _ f' hmem).1
      rw [hfile] at hsame
      exact hnew (Option.some.inj hsame ▸ hmem)
    refine ⟨f, hfile, hnone, ?_, by rw [addHandlerForEvent, hadd]⟩
    cases hcallback : s.evStorage.handlers event.fd with
    | none => rfl
    | some callback =>
      obtain ⟨f', hmem⟩ := hs.stored _ callback hcallback
      exact absurd hmem (hnone f')

/-- A registration is refused, or the callback keeps the object alive. -/
theorem addHandlerForEvent (hs : s.Good) {o : ℕ} {e : Endpoint} {event : Event}
    {captures : List ℕ} (granted : Bool) (hfd : event.fd = e.fd)
    (hlive : s.objects.lookup o = some e) (hshared : e.shared = true) (hself : o ∈ captures)
    (hcaptures : ∀ c ∈ captures, c ∈ s.scope) :
    (s.addHandlerForEvent event captures granted).2.Good := by
  obtain hadd | ⟨f, hfile, hnone, hcallback, hadd⟩ :=
    hs.addHandlerForEvent_cases event captures granted
  · rw [hadd]
    exact hs
  · rw [hadd]
    have hupdate : ∀ fd, (s.evStorage.setHandler event ⟨s.accepted, captures⟩).handlers fd =
        if fd = event.fd then some ⟨s.accepted, captures⟩ else s.evStorage.handlers fd :=
      fun fd => Function.update_apply ..
    exact { hs with
      held := fun x => by
        rw [← hs.held]
        unfold Held
        refine or_congr_right' fun hscope => exists_congr fun fd => exists_congr fun callback =>
          and_congr_left fun hx => ?_
        rw [hupdate]
        split
        · -- what the callback holds is at hand
          rename_i heq
          rw [heq, hcallback]
          refine ⟨fun h => ?_, nofun⟩
          cases h
          exact absurd (hcaptures x hx) hscope
        · rfl
      registered := fun fd f' hmem => by
        -- the new registration has its object among what the callback holds
        obtain heq | hmem := Finset.mem_insert.mp hmem
        · cases heq
          refine ⟨hfile, ⟨s.accepted, captures⟩, o, e, ?_, hself, hlive, hfd.symm, hshared⟩
          rw [hupdate, if_pos rfl]
        · obtain ⟨hfile', callback, hrest⟩ := hs.registered fd f' hmem
          refine ⟨hfile', callback, ?_⟩
          rw [hupdate, if_neg]
          · exact hrest
          · rintro rfl
            exact hnone f' hmem
      stored := fun fd callback h => by
        rw [hupdate] at h
        split at h
        · rename_i heq
          exact ⟨f, heq ▸ Finset.mem_insert_self _ _⟩
        · obtain ⟨f', hmem⟩ := hs.stored fd callback h
          exact ⟨f', Finset.mem_insert_of_mem hmem⟩ }

/-- All that taking a callback can do: what the kernel has registered is found. -/
theorem takeHandler_cases (hs : s.Good) (ev : Event) :
    (∀ f, (ev.fd, f) ∉ s.kernel.epoll) ∧ s.takeHandler ev = (.error .epollDel, s) ∨
    ∃ f callback, (ev.fd, f) ∈ s.kernel.epoll ∧
      s.evStorage.handlers ev.fd = some callback ∧
      s.takeHandler ev = (.ok callback.number, { s with
        kernel := { s.kernel with epoll := s.kernel.epoll.erase (ev.fd, f) }
        evStorage := { handlers := Function.update s.evStorage.handlers ev.fd none }
        scope := s.scope + (callback.captures : Multiset ℕ) }) := by
  -- what is registered has its callback, by the invariant
  by_cases hregistered : ∃ f, (ev.fd, f) ∈ s.kernel.epoll
  · right
    obtain ⟨f, hmem⟩ := hregistered
    obtain ⟨hfile, callback, o, e, hcallback, -⟩ := hs.registered _ f hmem
    refine ⟨f, callback, hmem, hcallback, ?_⟩
    simp only [takeHandler, Kernel.ctlDel, hfile, if_pos hmem, CallbackStorage.getHandler,
      hcallback]
  · left
    have hnone : ∀ f, (ev.fd, f) ∉ s.kernel.epoll := fun f hmem => hregistered ⟨f, hmem⟩
    refine ⟨hnone, ?_⟩
    have hdel : s.kernel.ctlDel ev.fd = none := by
      unfold Kernel.ctlDel
      split
      · rfl
      · exact if_neg (hnone _)
    simp only [takeHandler, hdel]

/-- What a callback held is at hand while it runs. -/
theorem takeHandler (hs : s.Good) (ev : Event) : (s.takeHandler ev).2.Good := by
  obtain ⟨-, htake⟩ | ⟨f, callback, hmem, hcallback, htake⟩ := hs.takeHandler_cases ev
  · rw [htake]
    exact hs
  · rw [htake]
    have hupdate : ∀ fd, Function.update s.evStorage.handlers ev.fd none fd =
        if fd = ev.fd then none else s.evStorage.handlers fd := fun fd => Function.update_apply ..
    -- the entry that goes is the only one on its descriptor
    have hother : ∀ fd f', (fd, f') ∈ s.kernel.epoll.erase (ev.fd, f) →
        fd ≠ ev.fd ∧ (fd, f') ∈ s.kernel.epoll := by
      intro fd f' h
      obtain ⟨hne, hmem'⟩ := Finset.mem_erase.mp h
      refine ⟨?_, hmem'⟩
      rintro rfl
      have hsame := (hs.registered _ f' hmem').1
      rw [(hs.registered _ f hmem).1] at hsame
      exact hne (by rw [Option.some.inj hsame])
    exact { hs with
      held := fun x => by
        rw [← hs.held]
        unfold Held
        dsimp only
        constructor
        · -- what is at hand was held by the callback, or was at hand before
          rintro (h | ⟨fd, callback', h, hx⟩)
          · obtain h | h := Multiset.mem_add.mp h
            · exact .inl h
            · exact .inr ⟨ev.fd, callback, hcallback, Multiset.mem_coe.mp h⟩
          · rw [hupdate] at h
            split at h
            · cases h
            · exact .inr ⟨fd, callback', h, hx⟩
        · rintro (h | ⟨fd, callback', h, hx⟩)
          · exact .inl (Multiset.mem_add.mpr (.inl h))
          · -- what the callback held is at hand now
            by_cases heq : fd = ev.fd
            · subst heq
              rw [hcallback] at h
              cases h
              exact .inl (Multiset.mem_add.mpr (.inr (Multiset.mem_coe.mpr hx)))
            · exact .inr ⟨fd, callback', by rw [hupdate, if_neg heq, h], hx⟩
      registered := fun fd f' h => by
        obtain ⟨hne, hmem'⟩ := hother fd f' h
        obtain ⟨hfile, callback', hrest⟩ := hs.registered fd f' hmem'
        refine ⟨hfile, callback', ?_⟩
        dsimp only
        rwa [hupdate, if_neg hne]
      stored := fun fd callback' h => by
        dsimp only at h ⊢
        rw [hupdate] at h
        split at h
        · cases h
        · rename_i hne
          obtain ⟨f', hmem'⟩ := hs.stored fd callback' h
          exact ⟨f', Finset.mem_erase.mpr ⟨fun heq => hne (congrArg Prod.fst heq), hmem'⟩⟩ }

end Good

end Process

/-- Whatever the code does with its objects. -/
theorem ProcessStep.good {s s' : Process} {e : ProcessEvent} (h : ProcessStep s e s')
    (hs : s.Good) : s'.Good := by
  cases h with
  | constructed fd hfree => exact hs.construct hfree
  | abandoned fd hfree => exact hs.openFd hfree
  | withdrawn fd hfree => exact hs.withdraw hfree
  | moved shared hscope hlive hvalue => exact hs.moveConstruct hlive hvalue shared
  | @copied o e hscope hlive hshared =>
    -- a copy is held by the scope that copied it
    refine hs.rescope fun x => ?_
    unfold Process.Held
    dsimp only
    rw [Multiset.mem_cons, or_assoc, or_iff_right_of_imp]
    rintro rfl
    exact .inl hscope
  | @released o hscope hheld =>
    refine hs.rescope fun x => ?_
    by_cases hx : x = o
    · subst hx
      exact ⟨fun _ => .inl hscope, fun _ => hheld⟩
    · unfold Process.Held
      dsimp only
      rw [Multiset.mem_erase_of_ne hx]
  | destroyed hscope hlive hlast => exact hs.destroy hlive hlast
  | add eventType captures granted hlive hshared hself hcaptures =>
    exact hs.addHandlerForEvent granted (Event.fd_ofFd _ _) hlive hshared hself hcaptures
  | block events hphase hregistered hdistinct => exact hs.rephase _
  | take hphase => exact (hs.takeHandler _).rephase _
  | returned hphase => exact hs.rephase _
  | threw hphase => exact hs.rephase _
  | batchDone hphase => exact hs.rephase _

/-- So the invariant holds in every state of a run. -/
theorem ProcessRun.good {inherited : Finset Fd} {es : List ProcessEvent} {s : Process}
    (h : ProcessRun inherited es s) : s.Good :=
  h.invariant (Process.good_start inherited) fun _ _ _ hs hstep => hstep.good hs

/-! ## The event loop -/

/-- The two tables of the event loop, and where it stands. -/
structure Process.Shows (s : Process) (t : LoopState) : Prop where
  registered : ∀ fd, fd ∈ t.ctx.listener.registered ↔ ∃ f, (fd, f) ∈ s.kernel.epoll
  handlers : ∀ fd, t.ctx.evStorage.handlers fd = (s.evStorage.handlers fd).map Callback.number
  phase : t.phase = s.phase
  accepted : t.accepted = s.accepted

/-- What the event loop has to do with a step. -/
def ProcessEvent.loopEvents : ProcessEvent → List LoopEvent
  | .loop e => [e]
  | _ => []

section simulation
variable {s : Process} {t : LoopState}

/-- A registration is one of the loop. -/
theorem Process.Good.simulate_add (hs : s.Good) (hshows : s.Shows t) (event : Event)
    (captures : List ℕ) (granted : Bool) : ∃ t',
      LoopStep t (.add event s.accepted (s.addHandlerForEvent event captures granted).1) t' ∧
      (s.addHandlerForEvent event captures granted).2.Shows t' := by
  obtain hadd | ⟨f, hfile, hnone, hcallback, hadd⟩ :=
    hs.addHandlerForEvent_cases event captures granted
  · -- the kernel refuses
    have hrefused : t.ctx.addHandlerForEvent event t.accepted false = (.error .epollAdd, t.ctx) := by
      simp [ExecutionContext.addHandlerForEvent, Listener.addEvent]
    have hstep := LoopStep.add (s := t) event false
    rw [hrefused, if_neg nofun, hshows.accepted] at hstep
    rw [hadd]
    exact ⟨_, hstep, hshows.registered, hshows.handlers, hshows.phase, rfl⟩
  · -- the descriptor is not registered yet
    have hfresh : event.fd ∉ t.ctx.listener.registered := by
      rw [hshows.registered]
      rintro ⟨f', hmem⟩
      exact hnone f' hmem
    have hstored : t.ctx.addHandlerForEvent event t.accepted true = (.ok (),
        { listener := { registered := insert event.fd t.ctx.listener.registered },
          evStorage := t.ctx.evStorage.setHandler event t.accepted }) := by
      simp [ExecutionContext.addHandlerForEvent, Listener.addEvent, hfresh]
    have hstep := LoopStep.add (s := t) event true
    rw [hstored, if_pos rfl, hshows.accepted] at hstep
    rw [hadd]
    refine ⟨_, hstep, fun fd => ?_, fun fd => ?_, hshows.phase, rfl⟩
    · dsimp only
      rw [Finset.mem_insert, hshows.registered]
      constructor
      · rintro (rfl | ⟨f', hmem⟩)
        · exact ⟨f, Finset.mem_insert_self _ _⟩
        · exact ⟨f', Finset.mem_insert_of_mem hmem⟩
      · rintro ⟨f', hmem⟩
        obtain heq | hmem := Finset.mem_insert.mp hmem
        · exact .inl (congrArg Prod.fst heq)
        · exact .inr ⟨f', hmem⟩
    · dsimp only [CallbackStorage.setHandler]
      rw [Function.update_apply, Function.update_apply]
      split
      · rfl
      · exact hshows.handlers fd

/-- An event that is taken is taken by the loop, which finds the handler. -/
theorem Process.Good.simulate_take (hs : s.Good) (ht : t.Good) (hshows : s.Shows t) {ev : Event}
    {rest : List Event} (hphase : s.phase = .batch (ev :: rest)) : ∃ t',
      LoopStep t (.take ev (s.takeHandler ev).1) t' ∧
      Shows { (s.takeHandler ev).2 with phase := .afterTake rest (s.takeHandler ev).1 } t' ∧
      ∃ handler, (s.takeHandler ev).1 = .ok handler := by
  have htphase : t.phase = .batch (ev :: rest) := hshows.phase.trans hphase
  have hev : ev.fd ∈ t.ctx.listener.registered :=
    ht.registered ev (by rw [htphase]; exact List.mem_cons_self)
  obtain ⟨f₀, hmem₀⟩ := (hshows.registered ev.fd).mp hev
  obtain ⟨hnone, -⟩ | ⟨f, callback, hmem, hcallback, htake⟩ := hs.takeHandler_cases ev
  · -- the process has the handler whenever the loop does
    exact absurd hmem₀ (hnone f₀)
  · obtain ⟨handler, hhandler, htaken⟩ := takeHandler_of_consistent ht.tables hev
    obtain rfl : handler = callback.number := by
      rw [hshows.handlers, hcallback] at hhandler
      exact (Option.some.inj hhandler).symm
    have hstep := LoopStep.take htphase
    rw [htaken] at hstep
    rw [htake]
    refine ⟨_, hstep, ⟨fun fd => ?_, fun fd => ?_, rfl, hshows.accepted⟩, _, rfl⟩
    · dsimp only
      rw [Finset.mem_erase, hshows.registered]
      constructor
      · -- one entry goes on both sides, and there is no other of its descriptor
        rintro ⟨hne, f', hmem'⟩
        exact ⟨f', Finset.mem_erase.mpr ⟨fun heq => hne (congrArg Prod.fst heq), hmem'⟩⟩
      · rintro ⟨f', hmem'⟩
        obtain ⟨hne, hmem'⟩ := Finset.mem_erase.mp hmem'
        refine ⟨?_, f', hmem'⟩
        rintro rfl
        have hsame := (hs.registered _ f' hmem').1
        rw [(hs.registered _ f hmem).1] at hsame
        exact hne (by rw [Option.some.inj hsame])
    · dsimp only
      rw [Function.update_apply, Function.update_apply]
      split
      · rfl
      · exact hshows.handlers fd

/-- A step of the loop that touches neither table. -/
theorem Process.Shows.rephase (hshows : s.Shows t) (phase : LoopPhase) :
    Shows { s with phase := phase } { t with phase := phase } :=
  { hshows with phase := rfl }

end simulation

/-- The process does what the loop does, with descriptors besides. -/
theorem processStep_simulation : Simulation ProcessStep LoopStep ProcessEvent.loopEvents
    fun s t => s.Good ∧ t.Good ∧ s.Shows t where
  step s t e s' hrel hstep := by
    obtain ⟨hs, ht, hshows⟩ := hrel
    have hs' := hstep.good hs
    -- what the loop makes of it is good by its own invariant
    have hfinish : ∀ {e : LoopEvent} {t' : LoopState}, LoopStep t e t' → s'.Shows t' →
        ∃ t', Run LoopStep t [e] t' ∧ s'.Good ∧ t'.Good ∧ s'.Shows t' :=
      fun h hshows' => ⟨_, .snoc .nil h, hs', (h.moves ht).good ht, hshows'⟩
    have hquiet : s'.Shows t → ∃ t', Run LoopStep t [] t' ∧ s'.Good ∧ t'.Good ∧ s'.Shows t' :=
      fun hshows' => ⟨t, .nil, hs', ht, hshows'⟩
    cases hstep with
    -- what happens to objects is not seen by the loop
    | constructed fd hfree => exact hquiet { hshows with }
    | abandoned fd hfree => exact hquiet { hshows with }
    | withdrawn fd hfree => exact hquiet { hshows with }
    | moved shared hscope hlive hvalue => exact hquiet { hshows with }
    | copied hscope hlive hshared => exact hquiet { hshows with }
    | released hscope hheld => exact hquiet { hshows with }
    | @destroyed o e hscope hlive hlast =>
      refine hquiet { hshows with registered := fun fd => ?_ }
      dsimp only [Process.destroy]
      rw [(Process.Good.closeFd_frame s.kernel e).2]
      exact hshows.registered fd
    | add eventType captures granted hlive hshared hself hcaptures =>
      obtain ⟨t', hadd, hshows'⟩ := hs.simulate_add hshows _ captures granted
      exact hfinish hadd hshows'
    | block events hphase hregistered hdistinct =>
      exact hfinish (.block events (hshows.phase.trans hphase)
        (fun ev hev => (hshows.registered _).mpr (hregistered ev hev)) hdistinct)
        (hshows.rephase _)
    | take hphase =>
      obtain ⟨t', htake, hshows', -⟩ := hs.simulate_take ht hshows hphase
      exact hfinish htake hshows'
    | returned hphase =>
      exact hfinish (.returned (hshows.phase.trans hphase)) (hshows.rephase _)
    | threw hphase => exact hfinish (.threw (hshows.phase.trans hphase)) (hshows.rephase _)
    | batchDone hphase =>
      exact hfinish (.batchDone (hshows.phase.trans hphase)) (hshows.rephase _)

/-- The two start alike. -/
theorem shows_start (inherited : Finset Fd) : (Process.start inherited).Shows {} where
  registered fd := by
    refine ⟨fun h => absurd h (Finset.notMem_empty fd), ?_⟩
    rintro ⟨f, hmem⟩
    exact absurd hmem (Finset.notMem_empty _)
  handlers fd := rfl
  phase := rfl
  accepted := rfl

/-- What the event loop does in a run of the process. -/
theorem ProcessRun.loopRun {inherited : Finset Fd} {es : List ProcessEvent} {s : Process}
    (h : ProcessRun inherited es s) :
    ∃ t, LoopRun (visible ProcessEvent.loopEvents es) t ∧ s.Shows t := by
  obtain ⟨t, hrun, -, -, hshows⟩ := processStep_simulation.run h
    ⟨Process.good_start inherited, good_init, shows_start inherited⟩
  exact ⟨t, hrun, hshows⟩

/-- The loop finds the handler of whatever it takes. -/
theorem LoopRun.take_ok {es : List LoopEvent} {t : LoopState} (h : LoopRun es t) {ev : Event}
    {r : Except LogicError ℕ} (hmem : .take ev r ∈ es) : ∃ handler, r = .ok handler := by
  have htakes := h.forall_events (P := LoopState.Good)
    (Q := fun e => ∀ ev r, e = .take ev r → ∃ handler, r = .ok handler) good_init
    fun t e t' hgood hstep => by
      have hmove := hstep.moves hgood
      refine ⟨hmove.good hgood, ?_⟩
      rintro ev r rfl
      cases hmove with
      | invoked hphase hhandler => exact ⟨_, rfl⟩
      | phase p hadd htake _ _ => exact absurd rfl (htake ev r)
  exact htakes _ hmem ev r rfl

/-- What the event loop asks of its callers they keep to: a descriptor that is registered is
    open, for the file it was registered with, and the object that owns it is alive.  So the
    loop and the kernel never disagree, however often the kernel hands a descriptor out. -/
theorem descriptors_never_stale {inherited : Finset Fd} {es : List ProcessEvent} {s : Process}
    (h : ProcessRun inherited es s) :
    (∃ t, LoopRun (visible ProcessEvent.loopEvents es) t ∧ s.Shows t) ∧
    (∀ ev r, .loop (.take ev r) ∈ es → ∃ handler, r = .ok handler) ∧
    (∀ fd f, (fd, f) ∈ s.kernel.epoll → s.kernel.files fd = some f ∧
      ∃ callback o e, s.evStorage.handlers fd = some callback ∧ o ∈ callback.captures ∧
        s.objects.lookup o = some e ∧ e.fd = fd ∧ (fd ≠ 0 → e.file = f)) ∧
    ∀ o, s.Held o ↔ ∃ e, s.objects.lookup o = some e := by
  have hgood := h.good
  obtain ⟨t, hrun, hshows⟩ := h.loopRun
  refine ⟨⟨t, hrun, hshows⟩, fun ev r hmem => ?_, fun fd f hmem => ?_, hgood.held⟩
  · exact hrun.take_ok (List.mem_flatMap.mpr ⟨_, hmem, List.mem_singleton_self _⟩)
  · obtain ⟨hfile, callback, o, e, hcallback, ho, hlive, hfd, -⟩ := hgood.registered fd f hmem
    refine ⟨hfile, callback, o, e, hcallback, ho, hlive, hfd, fun hne => ?_⟩
    -- but for descriptor 0, an object has the file it was made for
    have hcurrent := hgood.current o e hlive (hfd ▸ hne)
    rw [hfd, hfile] at hcurrent
    exact (Option.some.inj hcurrent).symm

/-- A socket is accepted, shared and waited for. -/
theorem descriptors_never_stale_waiting : ∃ es s, ProcessRun {0, 1, 2} es s ∧
    (5, .opened 0) ∈ s.kernel.epoll ∧ s.kernel.files 5 = some (.opened 0) ∧
    ∃ e, s.objects.lookup 1 = some e := by
  obtain ⟨es, s, hrun, hmem, hscope⟩ : ∃ es s, ProcessRun {0, 1, 2} es s ∧
      (5, .opened 0) ∈ s.kernel.epoll ∧ 1 ∈ s.scope := by
    have hshared : ProcessRun {0, 1, 2} _ _ :=
      .snoc (.snoc .nil (.constructed 5 (by decide))) (.moved (o := 0) true (by decide) rfl rfl)
    have hrun : ProcessRun {0, 1, 2} _ _ :=
      .snoc hshared (.add (o := 1) .toRead [1] true rfl rfl (by decide) (by decide))
    exact ⟨_, _, hrun, by decide +kernel, by decide +kernel⟩
  obtain ⟨-, -, hregistered, hheld⟩ := descriptors_never_stale hrun
  exact ⟨es, s, hrun, hmem, (hregistered 5 _ hmem).1, (hheld 1).mp (.inl hscope)⟩

/-! ## What is closed and what is not -/

/-- The file a step closes. -/
def ProcessEvent.closes : ProcessEvent → Option File
  | .destroyed _ (some (_, some f)) => some f
  | _ => none

/-- The files that were closed, in order. -/
def closings (es : List ProcessEvent) : List File := es.filterMap ProcessEvent.closes

/-- The closings of a run that goes on. -/
theorem closings_snoc (es : List ProcessEvent) (e : ProcessEvent) :
    closings (es ++ [e]) = closings es ++ e.closes.toList := by
  cases h : e.closes <;> simp [closings, h]

/-- The files that were opened are open, or were closed by an object that was made for them. -/
structure Ledger (es : List ProcessEvent) (s : Process) : Prop where
  good : s.Good
  made : ∀ o e, s.objects.lookup o = some e → e.fd ≠ 0 → ∃ o', .constructed o' e.fd e.file ∈ es
  gone : ∀ f ∈ closings es, ∀ fd, s.kernel.files fd ≠ some f
  old : ∀ n, .opened n ∈ closings es → n < s.kernel.nextFile
  once : (closings es).Nodup
  closed : ∀ o fd file, .destroyed o (some (fd, file)) ∈ es →
    ∃ f o', file = some f ∧ .constructed o' fd f ∈ es
  left : ∀ fd f, s.kernel.files fd = some f → f = .inherited fd ∨ fd = 0 ∨
    .abandoned fd f ∈ es ∨ ∃ o e, s.objects.lookup o = some e ∧ e.fd = fd ∧ e.file = f

namespace Ledger

variable {es : List ProcessEvent} {s s' : Process} {e : ProcessEvent}

/-- Nothing is closed at first. -/
theorem start (inherited : Finset Fd) : Ledger [] (.start inherited) where
  good := Process.good_start inherited
  made o e h := nomatch h
  gone f h := nomatch h
  old n h := nomatch h
  once := List.nodup_nil
  closed o fd file h := nomatch h
  left fd f h := by
    dsimp only [Process.start] at h
    -- what is open at the start is inherited
    split at h <;> cases h
    exact .inl rfl

/-- A step that calls no destructor closes nothing. -/
theorem closings_of_ne (he : ∀ o closed, e ≠ .destroyed o closed) :
    closings (es ++ [e]) = closings es := by
  have hnone : e.closes = none := by
    cases e with
    | destroyed o closed => exact absurd rfl (he o closed)
    | _ => rfl
  rw [closings_snoc, hnone]
  exact List.append_nil _

/-- The part of the ledger that speaks of the past. -/
theorem closed_of_ne (h : Ledger es s) (he : ∀ o closed, e ≠ .destroyed o closed) :
    ∀ o fd file, .destroyed o (some (fd, file)) ∈ es ++ [e] →
      ∃ f o', file = some f ∧ .constructed o' fd f ∈ es ++ [e] := by
  intro o fd file hmem
  -- an older destruction, as the new event is none
  obtain hmem | hmem := List.mem_append.mp hmem
  · obtain ⟨f, o', hfile, hmade⟩ := h.closed o fd file hmem
    exact ⟨f, o', hfile, List.mem_append_left _ hmade⟩
  · exact absurd (List.mem_singleton.mp hmem).symm (he _ _)

/-- A step that opens and closes nothing, and leaves the objects alone. -/
theorem quiet (h : Ledger es s) (hgood : s'.Good) (hfiles : s'.kernel.files = s.kernel.files)
    (hnext : s.kernel.nextFile ≤ s'.kernel.nextFile) (hobjects : s'.objects = s.objects)
    (he : ∀ o closed, e ≠ .destroyed o closed) : Ledger (es ++ [e]) s' where
  good := hgood
  -- objects, files and closings are those before
  made o e' hlive hne := by
    rw [hobjects] at hlive
    obtain ⟨o', hmade⟩ := h.made o e' hlive hne
    exact ⟨o', List.mem_append_left _ hmade⟩
  gone := by
    rw [closings_of_ne he, hfiles]
    exact h.gone
  old n hn := by
    rw [closings_of_ne he] at hn
    exact Nat.lt_of_lt_of_le (h.old n hn) hnext
  once := by
    rw [closings_of_ne he]
    exact h.once
  closed := h.closed_of_ne he
  left fd f hfile := by
    rw [hfiles] at hfile
    rw [hobjects]
    exact (h.left fd f hfile).imp_right fun hrest => hrest.imp_right fun hrest =>
      hrest.imp_left fun hmem => List.mem_append_left _ hmem

/-- A new file, which an object may get. -/
theorem opens (h : Ledger es s) (hgood : s'.Good) {fd : Fd}
    (hkernel : s'.kernel = s.kernel.openFd fd)
    (hobjects : ∀ o e', s.objects.lookup o = some e' → s'.objects.lookup o = some e')
    (hmade : ∀ o e', s'.objects.lookup o = some e' → s.objects.lookup o = some e' ∨
      .constructed o e'.fd e'.file = e)
    (hnew : .abandoned fd (.opened s.kernel.nextFile) = e ∨
      ∃ o e', s'.objects.lookup o = some e' ∧ e'.fd = fd ∧ e'.file = .opened s.kernel.nextFile)
    (he : ∀ o closed, e ≠ .destroyed o closed) : Ledger (es ++ [e]) s' where
  good := hgood
  made o e' hlive hne := by
    obtain hold | hmade := hmade o e' hlive
    · obtain ⟨o', hmade⟩ := h.made o e' hold hne
      exact ⟨o', List.mem_append_left _ hmade⟩
    · exact ⟨o, by rw [hmade]; exact List.mem_append_right _ (List.mem_singleton_self _)⟩
  gone f hf fd' hfile := by
    rw [closings_of_ne he] at hf
    rw [hkernel, Kernel.openFd_files] at hfile
    split at hfile
    · -- no file that was closed is opened again
      cases hfile
      exact Nat.lt_irrefl _ (h.old _ hf)
    · exact h.gone f hf fd' hfile
  old n hn := by
    rw [closings_of_ne he] at hn
    rw [hkernel]
    exact Nat.lt_succ_of_lt (h.old n hn)
  once := by
    rw [closings_of_ne he]
    exact h.once
  closed := h.closed_of_ne he
  left fd' f hfile := by
    rw [hkernel, Kernel.openFd_files] at hfile
    split at hfile
    · rename_i heq
      cases hfile
      subst heq
      -- the new file is the one that was abandoned, or has its object
      obtain hnew | hnew := hnew
      · exact .inr (.inr (.inl (by rw [hnew]; exact List.mem_append_right _ (List.mem_singleton_self _))))
      · exact .inr (.inr (.inr hnew))
    · -- an older file is still accounted for
      obtain hin | hzero | habandoned | ⟨o, e', hlive, hrest⟩ := h.left fd' f hfile
      · exact .inl hin
      · exact .inr (.inl hzero)
      · exact .inr (.inr (.inl (List.mem_append_left _ habandoned)))
      · exact .inr (.inr (.inr ⟨o, e', hobjects o e' hlive, hrest⟩))

/-- A move constructor hands the descriptor on. -/
theorem moves (h : Ledger es s) {o : ℕ} {e : Endpoint} (hlive : s.objects.lookup o = some e)
    (shared : Bool) (hgood : (s.moveConstruct o e shared).Good) :
    Ledger (es ++ [.moved o s.objects.size]) (s.moveConstruct o e shared) := by
  have hput := Heap.lookup_put hlive { e with fd := 0 }
  have hsize : (s.objects.put o { e with fd := 0 }).size = s.objects.size := Heap.size_put _
  -- the new object has what the old one had
  have hlookup : ∀ x, (s.moveConstruct o e shared).objects.lookup x =
      if x = s.objects.size then some { e with shared := shared }
      else if x = o then some { e with fd := 0 } else s.objects.lookup x := by
    intro x
    show ((s.objects.put o _).new _).lookup x = _
    rw [Heap.lookup_new, hsize, hput]
  have he : ∀ x closed, ProcessEvent.moved o s.objects.size ≠ .destroyed x closed := nofun
  exact {
    good := hgood
    made := fun x e' hx hne => by
      rw [hlookup] at hx
      -- the old object has descriptor 0 now, so only the new one counts
      obtain ⟨o', hmade⟩ : ∃ o', .constructed o' e'.fd e'.file ∈ es := by
        split at hx
        · cases hx
          exact h.made o e hlive hne
        · split at hx
          · cases hx
            exact absurd rfl hne
          · exact h.made x e' hx hne
      exact ⟨o', List.mem_append_left _ hmade⟩
    gone := by
      rw [closings_of_ne he]
      exact h.gone
    old := by
      rw [closings_of_ne he]
      exact h.old
    once := by
      rw [closings_of_ne he]
      exact h.once
    closed := h.closed_of_ne he
    left := fun fd f hfile => by
      obtain hin | hzero | habandoned | ⟨x, e', hx, hfd, hsame⟩ := h.left fd f hfile
      · exact .inl hin
      · exact .inr (.inl hzero)
      · exact .inr (.inr (.inl (List.mem_append_left _ habandoned)))
      · refine .inr (.inr (.inr ?_))
        -- a file of the old object goes over to the new one
        by_cases hxo : x = o
        · subst hxo
          rw [hlive] at hx
          cases hx
          exact ⟨_, _, (hlookup _).trans (if_pos rfl), hfd, hsame⟩
        · refine ⟨x, e', ?_, hfd, hsame⟩
          rw [hlookup, if_neg (Nat.ne_of_lt (Heap.lt_size_of_lookup hx)), if_neg hxo, hx] }

/-- The destructor closes the file its object was made for, if it has a descriptor. -/
theorem destroys (h : Ledger es s) {o : ℕ} {e : Endpoint} (hlive : s.objects.lookup o = some e)
    (hgood : (s.destroy o e).Good) :
    Ledger (es ++ [.destroyed o (Process.closeFd s.kernel e).1]) (s.destroy o e) := by
  have hremove := Heap.lookup_remove hlive
  have hlookup : ∀ x e', (s.destroy o e).objects.lookup x = some e' →
      x ≠ o ∧ s.objects.lookup x = some e' := by
    intro x e' hx
    rw [show (s.destroy o e).objects.lookup x = _ from hremove x] at hx
    split at hx
    · cases hx
    · rename_i hne
      exact ⟨hne, hx⟩
  have hfiles := Process.Good.closeFd_files s.kernel e
  have hkept : ∀ fd f, s.kernel.files fd = some f → (fd = e.fd ∧ e.fd ≠ 0) ∨
      (s.destroy o e).kernel.files fd = some f := by
    intro fd f hfile
    by_cases hclosed : fd = e.fd ∧ e.fd ≠ 0
    · exact .inl hclosed
    · exact .inr (by
        show (Process.closeFd s.kernel e).2.files fd = some f
        rw [hfiles, if_neg hclosed, hfile])
  -- what is open now was open before, and was not closed by this
  have hopen : ∀ fd f, (s.destroy o e).kernel.files fd = some f →
      ¬ (fd = e.fd ∧ e.fd ≠ 0) ∧ s.kernel.files fd = some f := by
    intro fd f hfile
    rw [show (s.destroy o e).kernel.files fd = _ from hfiles fd] at hfile
    split at hfile
    · cases hfile
    · rename_i hne
      exact ⟨hne, hfile⟩
  have hnext : (s.destroy o e).kernel.nextFile = s.kernel.nextFile :=
    (Process.Good.closeFd_frame s.kernel e).1
  have hmade : ∀ x e', (s.destroy o e).objects.lookup x = some e' → e'.fd ≠ 0 →
      ∃ o', .constructed o' e'.fd e'.file ∈ es ++ [.destroyed o (Process.closeFd s.kernel e).1] := by
    intro x e' hx hne
    obtain ⟨o', hmade⟩ := h.made x e' (hlookup x e' hx).2 hne
    exact ⟨o', List.mem_append_left _ hmade⟩
  have hleft : ∀ fd f, (s.destroy o e).kernel.files fd = some f → f = .inherited fd ∨ fd = 0 ∨
      .abandoned fd f ∈ es ++ [.destroyed o (Process.closeFd s.kernel e).1] ∨
      ∃ x e', (s.destroy o e).objects.lookup x = some e' ∧ e'.fd = fd ∧ e'.file = f := by
    intro fd f hfile
    obtain ⟨hnot, hold⟩ := hopen fd f hfile
    obtain hin | hzero | habandoned | ⟨x, e', hx, hfd, hsame⟩ := h.left fd f hold
    · exact .inl hin
    · exact .inr (.inl hzero)
    · exact .inr (.inr (.inl (List.mem_append_left _ habandoned)))
    · by_cases hxo : x = o
      · -- the object had descriptor 0, which stands for none
        subst hxo
        rw [hlive] at hx
        cases hx
        exact .inr (.inl (by_contra fun hne => hnot ⟨hfd.symm, hfd ▸ hne⟩))
      · refine .inr (.inr (.inr ⟨x, e', ?_, hfd, hsame⟩))
        exact (hremove x).trans ((if_neg hxo).trans hx)
  by_cases hzero : e.fd = 0
  · -- an object without a descriptor closes nothing
    have hnone : (Process.closeFd s.kernel e).1 = none := by
      unfold Process.closeFd
      rw [if_neg (not_not.mpr hzero)]
    have hclosings : closings (es ++ [.destroyed o (Process.closeFd s.kernel e).1]) =
        closings es := by
      rw [closings_snoc, hnone]
      exact List.append_nil _
    exact {
      good := hgood
      made := hmade
      gone := fun f hf fd hfile => h.gone f (hclosings ▸ hf) fd (hopen fd f hfile).2
      old := fun n hn => hnext ▸ h.old n (hclosings ▸ hn)
      once := hclosings ▸ h.once
      closed := fun x fd file hmem => by
        obtain hmem | hmem := List.mem_append.mp hmem
        · obtain ⟨f, o', hfile, hmade⟩ := h.closed x fd file hmem
          exact ⟨f, o', hfile, List.mem_append_left _ hmade⟩
        · rw [hnone] at hmem
          cases List.mem_singleton.mp hmem
      left := hleft }
  · have hcurrent := h.good.current o e hlive hzero
    -- the other ones close the file they opened
    have hsome : (Process.closeFd s.kernel e).1 = some (e.fd, some e.file) := by
      unfold Process.closeFd
      rw [if_pos hzero, ← hcurrent]
      rfl
    have hclosings : closings (es ++ [.destroyed o (Process.closeFd s.kernel e).1]) =
        closings es ++ [e.file] := by
      rw [closings_snoc, hsome]
      rfl
    exact {
      good := hgood
      made := hmade
      gone := fun f hf fd hfile => by
        obtain ⟨hnot, hold⟩ := hopen fd f hfile
        rw [hclosings, List.mem_append, List.mem_singleton] at hf
        obtain hf | rfl := hf
        · exact h.gone f hf fd hold
        · exact hnot ⟨h.good.distinct _ _ _ hold hcurrent, hzero⟩
      old := fun n hn => by
        rw [hnext]
        rw [hclosings, List.mem_append, List.mem_singleton] at hn
        obtain hn | hn := hn
        · exact h.old n hn
        · exact h.good.fresh e.fd n (hn ▸ hcurrent)
      once := by
        rw [hclosings]
        refine List.nodup_append.mpr ⟨h.once, List.nodup_singleton _, ?_⟩
        rintro f hf f' hf' rfl
        rw [List.mem_singleton.mp hf'] at hf
        exact h.gone _ hf e.fd hcurrent
      closed := fun x fd file hmem => by
        obtain hmem | hmem := List.mem_append.mp hmem
        · obtain ⟨f, o', hfile, hmade⟩ := h.closed x fd file hmem
          exact ⟨f, o', hfile, List.mem_append_left _ hmade⟩
        · rw [hsome] at hmem
          cases List.mem_singleton.mp hmem
          obtain ⟨o', hmade⟩ := h.made o e hlive hzero
          exact ⟨e.file, o', rfl, List.mem_append_left _ hmade⟩
      left := hleft }

end Ledger

/-- Each step keeps the ledger. -/
theorem ProcessStep.ledger {es : List ProcessEvent} {s s' : Process} {e : ProcessEvent}
    (hstep : ProcessStep s e s') (h : Ledger es s) : Ledger (es ++ [e]) s' := by
  have hgood := hstep.good h.good
  cases hstep with
  -- a file is opened, with its object
  | constructed fd hfree =>
    have hnew := Heap.lookup_new s.objects { fd := fd, file := .opened s.kernel.nextFile }
    refine h.opens hgood rfl (fun o e' hlive => ?_) (fun o e' hlive => ?_) (.inr ?_) nofun
    · exact (hnew o).trans ((if_neg (Nat.ne_of_lt (Heap.lt_size_of_lookup hlive))).trans hlive)
    · rw [show (s.construct fd).objects.lookup o = _ from hnew o] at hlive
      split at hlive
      · rename_i ho
        cases hlive
        exact .inr (by rw [ho])
      · exact .inl hlive
    · exact ⟨_, _, (hnew _).trans (if_pos rfl), rfl, rfl⟩
  | abandoned fd hfree =>
    exact h.opens hgood rfl (fun o e' hlive => hlive) (fun o e' hlive => .inl hlive) (.inl rfl) nofun
  | withdrawn fd hfree =>
    -- what is opened and closed again leaves no trace
    refine h.quiet hgood (funext fun x => ?_) (Nat.le_succ _) rfl nofun
    rw [Kernel.close_files, Kernel.openFd_files]
    split
    · rename_i heq
      rw [heq, hfree]
    · rfl
  | moved shared hscope hlive hvalue => exact h.moves hlive shared hgood
  | copied hscope hlive hshared => exact h.quiet hgood rfl (Nat.le_refl _) rfl nofun
  | released hscope hheld => exact h.quiet hgood rfl (Nat.le_refl _) rfl nofun
  | destroyed hscope hlive hlast => exact h.destroys hlive hgood
  -- neither a registration nor a take opens or closes anything
  | @add o e eventType captures granted hlive hshared hself hcaptures =>
    refine h.quiet hgood ?_ ?_ ?_ nofun <;>
      obtain hadd | ⟨f, -, -, -, hadd⟩ :=
        h.good.addHandlerForEvent_cases (.ofFd e.fd eventType) captures granted <;> rw [hadd]
  | block events hphase hregistered hdistinct =>
    exact h.quiet hgood rfl (Nat.le_refl _) rfl nofun
  | @take ev rest hphase =>
    refine h.quiet hgood ?_ ?_ ?_ nofun <;>
      obtain ⟨-, htake⟩ | ⟨f, callback, -, -, htake⟩ := h.good.takeHandler_cases ev <;> rw [htake]
  | returned hphase => exact h.quiet hgood rfl (Nat.le_refl _) rfl nofun
  | threw hphase => exact h.quiet hgood rfl (Nat.le_refl _) rfl nofun
  | batchDone hphase => exact h.quiet hgood rfl (Nat.le_refl _) rfl nofun

/-- So does a run. -/
theorem ProcessRun.ledger {inherited : Finset Fd} {es : List ProcessEvent} {s : Process}
    (h : ProcessRun inherited es s) : Ledger es s :=
  h.history (P := Ledger) (Ledger.start inherited) fun _ _ _ _ hl hstep => hstep.ledger hl

/-- `::close` is only called for the file that was opened for the object, and for no file twice.
    What is open and was not inherited belongs to a live object, or is one of two leaks: the
    socket of a `connect` that failed, and a file that got descriptor 0. -/
theorem descriptors_accounted {inherited : Finset Fd} {es : List ProcessEvent} {s : Process}
    (h : ProcessRun inherited es s) :
    (∀ o fd file, .destroyed o (some (fd, file)) ∈ es →
      ∃ f o', file = some f ∧ .constructed o' fd f ∈ es) ∧
    (closings es).Nodup ∧ (∀ f ∈ closings es, ∀ fd, s.kernel.files fd ≠ some f) ∧
    (∀ o e, s.objects.lookup o = some e → e.fd ≠ 0 → s.kernel.files e.fd = some e.file) ∧
    ∀ fd f, s.kernel.files fd = some f → f = .inherited fd ∨ fd = 0 ∨ .abandoned fd f ∈ es ∨
      ∃ o e, s.objects.lookup o = some e ∧ e.fd = fd ∧ e.file = f := by
  have hledger := h.ledger
  exact ⟨hledger.closed, hledger.once, hledger.gone, hledger.good.current, hledger.left⟩

/-- The descriptor of a socket that could not connect stays open, and that of one that was
    accepted is closed. -/
theorem descriptors_accounted_leak : ∃ es s, ProcessRun {0} es s ∧
    closings es = [.opened 1] ∧ s.kernel.files 3 = some (.opened 0) ∧
    ∀ fd, s.kernel.files fd ≠ some (.opened 1) := by
  obtain ⟨es, s, hrun, hclosings, hleak⟩ : ∃ es s, ProcessRun {0} es s ∧
      closings es = [.opened 1] ∧ s.kernel.files 3 = some (.opened 0) := by
    have hopened : ProcessRun {0} _ _ :=
      .snoc (.snoc .nil (.abandoned 3 (by decide))) (.constructed 4 (by decide))
    have hrun : ProcessRun {0} _ _ := .snoc hopened (.destroyed (o := 0) (by decide) rfl (by
      rintro (hscope | ⟨fd, callback, hcallback, -⟩)
      · revert hscope
        decide
      · exact nomatch hcallback))
    exact ⟨_, _, hrun, by decide +kernel, by decide +kernel⟩
  obtain ⟨-, -, hgone, -⟩ := descriptors_accounted hrun
  exact ⟨es, s, hrun, hclosings, hleak, hgone _ (by rw [hclosings]; exact List.mem_singleton_self _)⟩

end Webserv.Io
