import Webserv.Spec.FutureLogic

/-!
# The rights of a running program add up

`World` says of a configuration that the rights of its threads, handlers and
waiting callbacks are the ones its shared states have handed out, and that the
baton is with one of them.  Each step keeps it, with one lemma for each call.

## Key results

- `Step.world`: a step of a safe program
- `Plan.Sound.world`: every run of a safe program
- `World.idle`: where the baton is when every call has returned
- `World.returns`: and they all return
-/

namespace Webserv.Futures

open Transition Relation

variable {S : Signature}

/-! ## What is left to do -/

/-- What makes a program take steps. -/
inductive Item (S : Signature) where
  | code (prog : Prog S)
  | callback (t : S.Ty) (callback : S.Val t → Prog S)
  | unlock

/-- A step takes one and leaves smaller ones. -/
inductive Item.Smaller : Item S → Item S → Prop where
  | unlock (prog : Prog S) : Smaller .unlock (.code prog)
  | makeContract {t : S.Ty} (next : ℕ → Prog S) (id : ℕ) :
      Smaller (.code (next id)) (.code (.makeContract t next))
  | setValue {t : S.Ty} {promise : ℕ} {value : S.Val t} (next : Prog S) :
      Smaller (.code next) (.code (.setValue t promise value next))
  | attached {t : S.Ty} {future : Ref S t} (callback : S.Val t → Prog S) {next : Prog S} :
      Smaller (.callback t callback) (.code (.setCallback t future callback next))
  | setCallback {t : S.Ty} {future : Ref S t} {callback : S.Val t → Prog S} (next : Prog S) :
      Smaller (.code next) (.code (.setCallback t future callback next))
  | callback {t : S.Ty} (callback : S.Val t → Prog S) (value : S.Val t) :
      Smaller (.code (callback value)) (.callback t callback)
  | perform {effect : S.Effect} (next : Prog S) :
      Smaller (.code next) (.code (.perform effect next))
  | register {query : S.Query} {handler : S.Answer query → Prog S} (next : Prog S) :
      Smaller (.code next) (.code (.register query handler next))

/-- Nothing is smaller than an unlock. -/
theorem Item.acc_unlock : Acc Item.Smaller (.unlock : Item S) :=
  ⟨_, fun _ h => nomatch h⟩

/-- What a callback leads to is its code. -/
theorem Item.acc_callback {t : S.Ty} {callback : S.Val t → Prog S}
    (h : ∀ value, Acc Item.Smaller (.code (callback value))) :
    Acc Item.Smaller (.callback t callback) := by
  refine ⟨_, fun item hitem => ?_⟩
  cases hitem with
  | callback _ value => exact h value

/-- What code leads to is its parts. -/
theorem Item.acc_code (prog : Prog S) : Acc Item.Smaller (.code prog) := by
  -- induction on the code: each step leaves shorter code, stored callbacks and an unlock
  induction prog with
  | done =>
    refine ⟨_, fun item hitem => ?_⟩
    cases hitem with
    | unlock => exact acc_unlock
  | makeContract t next ih =>
    refine ⟨_, fun item hitem => ?_⟩
    cases hitem with
    | unlock => exact acc_unlock
    | makeContract _ id => exact ih id
  | setValue t promise value next ih =>
    refine ⟨_, fun item hitem => ?_⟩
    cases hitem with
    | unlock => exact acc_unlock
    | setValue => exact ih
  -- the callback is stored, and the code goes on
  | setCallback t future callback next ihcallback ihnext =>
    refine ⟨_, fun item hitem => ?_⟩
    cases hitem with
    | unlock => exact acc_unlock
    | attached => exact acc_callback ihcallback
    | setCallback => exact ihnext
  | perform effect next ih =>
    refine ⟨_, fun item hitem => ?_⟩
    cases hitem with
    | unlock => exact acc_unlock
    | perform => exact ih
  | register query handler next ihhandler ihnext =>
    refine ⟨_, fun item hitem => ?_⟩
    cases hitem with
    | unlock => exact acc_unlock
    | register => exact ihnext
  | call t proc next ih =>
    refine ⟨_, fun item hitem => ?_⟩
    cases hitem with
    | unlock => exact acc_unlock

/-- So nothing goes on for ever. -/
theorem Item.wellFounded_smaller : WellFounded (Item.Smaller (S := S)) := by
  refine ⟨fun item => ?_⟩
  cases item with
  | code prog => exact acc_code prog
  | callback t callback => exact acc_callback fun value => acc_code _
  | unlock => exact acc_unlock

def Frame.item : Frame S → Multiset (Item S)
  | .code prog => {.code prog}
  | .unlock _ _ => {.unlock}
  | .threw => 0

def stackItems (stack : List (Frame S)) : Multiset (Item S) :=
  (stack.map Frame.item).sum

/-! ## The shared states -/

/-- What is known of a shared state. -/
inductive GhostCell (S : Signature) where
  | fresh (t : S.Ty) (id : ℕ) (post : Post S t)
  | valued (t : S.Ty) (id : ℕ) (post : Post S t) (value : S.Val t) (b : Baton S)
  | waiting (t : S.Ty) (id : ℕ) (post : Post S t) (callback : S.Val t → Prog S) (K : Rights S)
  | unset (t : S.Ty) (contract : S.Contract t)
  | given (t : S.Ty) (contract : S.Contract t) (value : S.Val t)
  | asked (t : S.Ty) (contract : S.Contract t) (callback : S.Val t → Prog S) (K : Rights S)
      (b : Baton S)
  /-- Its callback is running. -/
  | running (addr : Addr S)
  | spent (addr : Addr S)

namespace GhostCell

def addr : GhostCell S → Addr S
  | fresh t id _ => ⟨t, .made id⟩
  | valued t id _ _ _ => ⟨t, .made id⟩
  | waiting t id _ _ _ => ⟨t, .made id⟩
  | unset t contract => ⟨t, .given contract⟩
  | given t contract _ => ⟨t, .given contract⟩
  | asked t contract _ _ _ => ⟨t, .given contract⟩
  | running addr => addr
  | spent addr => addr

/-- The rights it has handed out. -/
def outside : GhostCell S → Rights S
  | fresh t id post => {.set t id post} + {.attach t id post}
  | valued t id post _ _ => {.attach t id post}
  | waiting t id post _ _ => {.set t id post}
  | unset t contract => {.take t contract}
  | given t contract _ => {.take t contract}
  | asked _ _ _ _ _ => 0
  | running addr => {.unlock addr}
  | spent _ => 0

/-- The rights it keeps. -/
def inside : GhostCell S → Rights S
  | valued _ _ _ _ b => {.baton b}
  | waiting _ _ _ _ K => K
  | asked _ _ _ K b => K + {.baton b}
  | _ => 0

def items : GhostCell S → Multiset (Item S)
  | waiting t _ _ callback _ => {.callback t callback}
  | asked t _ callback _ _ => {.callback t callback}
  | _ => 0

/-- The shared state is as it is known to be. -/
def Fits (plan : Plan S) (es : List (Event S)) : (cell : GhostCell S) → Cell S cell.addr.1 → Prop
  | fresh _ _ _, content => content = {}
  | valued _ _ post value b, content =>
    content = { state := { value := .full value } } ∧ post value b
  | waiting _ _ post callback K, content =>
    content = { state := { callback := .full callback } } ∧ CanKeep K ∧
      ∀ value b, post value b → plan.Safe (K + {.baton b}) (callback value)
  | unset _ _, content => content = {}
  | given t contract value, content =>
    content = { state := { value := .full value } } ∧ .gave t contract value ∈ es
  | asked t contract callback K b, content =>
    content = { state := { callback := .full callback } } ∧ CanKeep K ∧
      plan.Waits b.trace (.value t contract) ∧
      ∀ value, plan.Safe (K + {.baton (b.note (.got t contract value))}) (callback value)
  | running _, content => content.state.value = .movedFrom
  | spent _, content => content.state.value = .movedFrom

/-- What a cell holds stays so in a run that goes on. -/
theorem Fits.mono {plan : Plan S} {es : List (Event S)} {cell : GhostCell S}
    {content : Cell S cell.addr.1} (h : cell.Fits plan es content) (e : Event S) :
    cell.Fits plan (es ++ [e]) content := by
  cases cell with
  | given t contract value => exact ⟨h.1, List.mem_append_left _ h.2⟩
  | _ => exact h

/-- A cell whose callback runs has given its value away. -/
theorem fits_running {plan : Plan S} {es : List (Event S)} {addr : Addr S}
    {content : Cell S addr.1} {callback : Slot (S.Val addr.1 → Prog S)} {locked : Bool}
    (h : content = ⟨⟨.movedFrom, callback⟩, locked⟩) : (running addr).Fits plan es content := by
  subst h
  rfl

/-- No cell hands the baton out. -/
theorem baton_not_mem_outside (cell : GhostCell S) (b : Baton S) :
    .baton b ∉ cell.outside := by
  cases cell <;> simp [outside]

end GhostCell

/-- The id of a shared state is one that was handed out. -/
def Addr.Below (made : ℕ) : Addr S → Prop
  | ⟨_, .made id⟩ => id < made
  | ⟨_, .given _⟩ => True

/-- The known shared states, and those that are not made yet. -/
structure Tracked (plan : Plan S) (es : List (Event S)) (heap : Heap S)
    (made : ℕ) (cells : Multiset (GhostCell S)) : Prop where
  nodup : (cells.map GhostCell.addr).Nodup
  fits : ∀ cell ∈ cells, cell.Fits plan es (heap cell.addr)
  below : ∀ cell ∈ cells, cell.addr.Below made
  unmade : ∀ t id, made ≤ id → heap ⟨t, .made id⟩ = {}
  untaken : ∀ t contract, (∀ cell ∈ cells, cell.addr ≠ ⟨t, .given contract⟩) →
    (heap ⟨t, .given contract⟩).state.callback = .empty

/-! ## The balance -/

structure Ghost (S : Signature) where
  /-- The rights of the threads, of the registered handlers, and of nobody. -/
  threads : Rights S
  pending : Rights S
  dropped : Rights S
  cells : Multiset (GhostCell S)
  baton : Baton S
  /-- Somebody has the baton. -/
  alive : Bool

namespace Ghost

def inside (g : Ghost S) : Rights S := (g.cells.map GhostCell.inside).sum

def outside (g : Ghost S) : Rights S := (g.cells.map GhostCell.outside).sum

def items (g : Ghost S) : Multiset (Item S) := (g.cells.map GhostCell.items).sum

def batonRights (g : Ghost S) : Rights S := if g.alive then {.baton g.baton} else 0

/-- Beside the rights of one thread. -/
def Balanced (g : Ghost S) (R : Rights S) : Prop :=
  R + g.threads + g.pending + g.inside + g.dropped = g.outside + g.batonRights

variable {g : Ghost S} {R R' : Rights S}

/-- The baton of a thread is the one there is. -/
theorem Balanced.baton_eq (h : g.Balanced R) {b : Baton S} (hb : .baton b ∈ R) :
    g.alive = true ∧ g.baton = b := by
  have hmem : .baton b ∈ g.outside + g.batonRights := by
    rw [← h]
    simp [hb]
  obtain hout | hbaton := Multiset.mem_add.mp hmem
  · obtain ⟨R₁, hR₁, hb₁⟩ := Multiset.mem_join.mp hout
    obtain ⟨cell, -, rfl⟩ := Multiset.mem_map.mp hR₁
    exact absurd hb₁ (cell.baton_not_mem_outside b)
  · unfold batonRights at hbaton
    split at hbaton
    · next halive =>
      rw [Multiset.mem_singleton, Right.baton.injEq] at hbaton
      exact ⟨halive, hbaton.symm⟩
    · simp at hbaton

/-- Another right of a thread is one that a shared state has handed out. -/
theorem Balanced.exists_cell (h : g.Balanced R) {r : Right S} (hr : r ∈ R)
    (hbaton : ∀ b, r ≠ .baton b) : ∃ cell rest, g.cells = cell ::ₘ rest ∧ r ∈ cell.outside := by
  have hmem : r ∈ g.outside + g.batonRights := by
    rw [← h]
    simp [hr]
  obtain hout | hr' := Multiset.mem_add.mp hmem
  · obtain ⟨R₁, hR₁, hr₁⟩ := Multiset.mem_join.mp hout
    obtain ⟨cell, hcell, rfl⟩ := Multiset.mem_map.mp hR₁
    obtain ⟨rest, hrest⟩ := Multiset.exists_cons_of_mem hcell
    exact ⟨cell, rest, hrest, hr₁⟩
  · unfold batonRights at hr'
    split at hr'
    · exact absurd (Multiset.mem_singleton.mp hr') (hbaton _)
    · simp at hr'

/-- The items of one cell, and of the others. -/
theorem items_eq {cell : GhostCell S} {rest : Multiset (GhostCell S)}
    (h : g.cells = cell ::ₘ rest) : g.items = cell.items + (rest.map GhostCell.items).sum := by
  rw [items, h, Multiset.map_cons, Multiset.sum_cons]

/-- The items with a cell put in front. -/
theorem items_cons (cell : GhostCell S) (rest : Multiset (GhostCell S)) :
    { g with cells := cell ::ₘ rest }.items = cell.items + (rest.map GhostCell.items).sum :=
  items_eq rfl

/-- What a shared state takes and hands out is made up for. -/
theorem Balanced.replace (h : g.Balanced R) {cell cell' : GhostCell S}
    {rest : Multiset (GhostCell S)} (hcells : g.cells = cell ::ₘ rest)
    (hsame : R' + cell'.inside + cell.outside = R + cell.inside + cell'.outside) :
    { g with cells := cell' ::ₘ rest }.Balanced R' := by
  classical
  have hbalance : R + g.threads + g.pending + g.inside + g.dropped =
    g.outside + g.batonRights := h
  show R' + g.threads + g.pending + ((cell' ::ₘ rest).map GhostCell.inside).sum + g.dropped =
    ((cell' ::ₘ rest).map GhostCell.outside).sum + g.batonRights
  unfold inside outside at hbalance
  rw [hcells] at hbalance
  -- right by right this is arithmetic
  ext r
  have hcount := congrArg (Multiset.count r) hbalance
  have hcountSame := congrArg (Multiset.count r) hsame
  simp only [Multiset.map_cons, Multiset.sum_cons, Multiset.count_add] at hcount hcountSame ⊢
  omega

/-- A new shared state. -/
theorem Balanced.add (h : g.Balanced R) {cell : GhostCell S}
    (hsame : R' + cell.inside = R + cell.outside) :
    { g with cells := cell ::ₘ g.cells }.Balanced R' := by
  classical
  have hbalance : R + g.threads + g.pending + g.inside + g.dropped =
    g.outside + g.batonRights := h
  show R' + g.threads + g.pending + ((cell ::ₘ g.cells).map GhostCell.inside).sum + g.dropped =
    ((cell ::ₘ g.cells).map GhostCell.outside).sum + g.batonRights
  unfold inside outside at hbalance
  ext r
  have hcount := congrArg (Multiset.count r) hbalance
  have hcountSame := congrArg (Multiset.count r) hsame
  simp only [Multiset.map_cons, Multiset.sum_cons, Multiset.count_add] at hcount hcountSame ⊢
  omega

/-- More is noted on the baton. -/
theorem Balanced.rebaton {b : Baton S} (h : g.Balanced (R + {.baton b})) (b' : Baton S) :
    { g with baton := b' }.Balanced (R + {Right.baton b'}) := by
  classical
  obtain ⟨halive, hb⟩ := h.baton_eq (b := b) (by simp)
  have hbalance : R + {.baton b} + g.threads + g.pending + g.inside + g.dropped =
    g.outside + g.batonRights := h
  show R + {.baton b'} + g.threads + g.pending + g.inside + g.dropped =
    g.outside + if g.alive then {Right.baton b'} else 0
  unfold batonRights at hbalance
  rw [if_pos halive, hb] at hbalance
  rw [if_pos halive]
  ext r
  have hcount := congrArg (Multiset.count r) hbalance
  simp only [Multiset.count_add] at hcount ⊢
  omega

/-- The baton is put down. -/
theorem Balanced.unbaton {b : Baton S} (h : g.Balanced (R + {.baton b})) :
    { g with alive := false }.Balanced R := by
  classical
  obtain ⟨halive, hb⟩ := h.baton_eq (b := b) (by simp)
  have hbalance : R + {.baton b} + g.threads + g.pending + g.inside + g.dropped =
    g.outside + g.batonRights := h
  show R + g.threads + g.pending + g.inside + g.dropped = g.outside + 0
  unfold batonRights at hbalance
  rw [if_pos halive, hb] at hbalance
  ext r
  have hcount := congrArg (Multiset.count r) hbalance
  simp only [Multiset.count_add, Multiset.count_zero] at hcount ⊢
  omega

end Ghost

namespace Tracked

variable {plan : Plan S} {es : List (Event S)} {heap : Heap S} {made : ℕ}
  {cells rest : Multiset (GhostCell S)} {cell : GhostCell S}

/-- What is tracked stays tracked in a run that goes on. -/
theorem mono (h : Tracked plan es heap made cells) (e : Event S) :
    Tracked plan (es ++ [e]) heap made cells :=
  ⟨h.nodup, fun cell hcell => (h.fits cell hcell).mono e, h.below, h.unmade, h.untaken⟩

/-- A section changes one of the shared states. -/
theorem replace (h : Tracked plan es heap made (cell ::ₘ rest)) {addr : Addr S}
    {content : Cell S addr.1} {cell' : GhostCell S} (hold : cell.addr = addr)
    (hnew : cell'.addr = addr)
    (hfits : ∀ heap : Heap S, heap addr = content → cell'.Fits plan es (heap cell'.addr)) :
    Tracked plan es (Function.update heap addr content) made (cell' ::ₘ rest) := by
  subst hold
  have hnodup := h.nodup
  rw [Multiset.map_cons, Multiset.nodup_cons] at hnodup
  -- the new cell has the address of the old one, so all that is said of addresses stays
  refine ⟨?_, ?_, ?_, ?_, ?_⟩
  · rw [Multiset.map_cons, hnew, ← Multiset.map_cons]
    exact h.nodup
  · intro other hother
    obtain rfl | hother := Multiset.mem_cons.mp hother
    · exact hfits _ (Function.update_self _ _ _)
    · have hne : other.addr ≠ cell.addr := fun hsame =>
        hnodup.1 (hsame ▸ Multiset.mem_map_of_mem _ hother)
      rw [Function.update_of_ne hne]
      exact h.fits other (Multiset.mem_cons_of_mem hother)
  · intro other hother
    obtain rfl | hother := Multiset.mem_cons.mp hother
    · exact hnew ▸ h.below cell (Multiset.mem_cons_self _ _)
    · exact h.below other (Multiset.mem_cons_of_mem hother)
  · intro t id hid
    have hne : (⟨t, .made id⟩ : Addr S) ≠ cell.addr := by
      intro hsame
      have hbelow := h.below cell (Multiset.mem_cons_self _ _)
      rw [← hsame] at hbelow
      exact absurd hbelow (Nat.not_lt.mpr hid)
    rw [Function.update_of_ne hne]
    exact h.unmade t id hid
  · intro t contract hunknown
    rw [Multiset.forall_mem_cons, hnew] at hunknown
    rw [Function.update_of_ne hunknown.1.symm]
    exact h.untaken t contract (Multiset.forall_mem_cons.mpr hunknown)

/-- `make_contract` -/
theorem make (h : Tracked plan es heap made cells) (t : S.Ty) (post : Post S t) :
    Tracked plan es heap (made + 1) (.fresh t made post ::ₘ cells) := by
  refine ⟨?_, ?_, ?_, ?_, ?_⟩
  · rw [Multiset.map_cons, Multiset.nodup_cons]
    refine ⟨fun hmem => ?_, h.nodup⟩
    -- a cell of that number would be below itself
    obtain ⟨cell, hcell, haddr⟩ := Multiset.mem_map.mp hmem
    have hbelow := h.below cell hcell
    rw [haddr] at hbelow
    exact absurd hbelow (Nat.lt_irrefl _)
  · intro cell hcell
    obtain rfl | hcell := Multiset.mem_cons.mp hcell
    · exact h.unmade t made (Nat.le_refl _)
    · exact h.fits cell hcell
  · intro cell hcell
    obtain rfl | hcell := Multiset.mem_cons.mp hcell
    · exact Nat.lt_succ_self made
    · have hbelow := h.below cell hcell
      revert hbelow
      generalize cell.addr = addr
      obtain ⟨_, id | contract⟩ := addr
      · exact Nat.lt_succ_of_lt
      · exact id
  · intro t' id hid
    exact h.unmade t' id (by omega)
  · intro t' contract hunknown
    exact h.untaken t' contract (Multiset.forall_mem_cons.mp hunknown).2

/-- A contract is set that the program does not have. -/
theorem give (h : Tracked plan es heap made cells) {t : S.Ty} {contract : S.Contract t}
    (content : Cell S t) (hcallback : content.state.callback = .empty)
    (hunknown : ∀ cell ∈ cells, cell.addr ≠ ⟨t, .given contract⟩) :
    Tracked plan es (Function.update heap ⟨t, .given contract⟩ content) made cells := by
  refine ⟨h.nodup, ?_, h.below, ?_, ?_⟩
  · intro cell hcell
    rw [Function.update_of_ne (hunknown cell hcell)]
    exact h.fits cell hcell
  · intro t' id hid
    have hne : (⟨t', .made id⟩ : Addr S) ≠ ⟨t, .given contract⟩ := nofun
    rw [Function.update_of_ne hne]
    exact h.unmade t' id hid
  · intro t' contract' hunknown'
    -- only the contract itself has changed
    by_cases hsame : (⟨t', .given contract'⟩ : Addr S) = ⟨t, .given contract⟩
    · cases hsame
      rwa [Function.update_self]
    · rw [Function.update_of_ne hsame]
      exact h.untaken t' contract' hunknown'

end Tracked

/-! ## The invariant -/

section world
variable (plan : Plan S)

/-- A thread makes do with its rights. -/
inductive Plan.SafeStack : Rights S → List (Frame S) → Prop where
  | nil : Plan.SafeStack 0 []
  | code {R R' : Rights S} {prog : Prog S} {stack : List (Frame S)} (h : plan.Safe R prog)
      (hstack : Plan.SafeStack R' stack) : Plan.SafeStack (R + R') (.code prog :: stack)
  | unlock {R : Rights S} {addr : Addr S} (reset : Bool) {stack : List (Frame S)}
      (hstack : Plan.SafeStack R stack) :
      Plan.SafeStack ({.unlock addr} + R) (.unlock addr reset :: stack)

/-- A registered handler has the baton. -/
def Plan.SafeHandler (handler : Σ query : S.Query, S.Answer query → Prog S) (R : Rights S) :
    Prop :=
  ∃ K b, R = K + {.baton b} ∧ CanKeep K ∧ plan.Waits b.trace (.answer handler.1) ∧
    ∀ answer, plan.Safe (K + {.baton (b.answered handler.1 answer)}) (handler.2 answer)

/-- The notes of what happened, the values of given contracts apart. -/
def Event.note? : Event S → Option (Note S)
  | .performed effect => some (.performed effect)
  | .answered query answer => some (.answered query answer)
  | _ => none

def Note.isGot : Note S → Bool
  | .got _ _ _ => true
  | _ => false

/-- The trace on the baton is what the run looks like. -/
structure Agrees (trace : Trace S) (es : List (Event S)) : Prop where
  notes : trace.filter (fun n => !n.isGot) = es.filterMap Event.note?
  got : ∀ t contract value, .got t contract value ∈ trace → .gave t contract value ∈ es

/-- The rights of `c` and of one more thread add up. -/
structure World (es : List (Event S)) (c : Config S) (R : Rights S) (g : Ghost S) : Prop where
  threads : Multiset.Deals (fun stack R => plan.SafeStack R stack) c.threads g.threads
  pending : Multiset.Deals plan.SafeHandler c.pending g.pending
  tracked : Tracked plan es c.heap c.made g.cells
  dropped : CanKeep g.dropped
  balanced : g.Balanced R
  agrees : Agrees g.baton.trace es
  final : g.alive = false → plan.Final g.baton.trace

end world

section agrees
variable {trace : Trace S} {es : List (Event S)} {e : Event S}

/-- A silent event adds nothing to the trace. -/
theorem Agrees.silent (h : Agrees trace es) (he : e.note? = none) : Agrees trace (es ++ [e]) := by
  refine ⟨?_, fun t contract value hmem => List.mem_append_left _ (h.got t contract value hmem)⟩
  rw [h.notes, List.filterMap_append, List.filterMap_cons_none he, List.filterMap_nil,
    List.append_nil]

/-- A noted event adds its note. -/
theorem Agrees.noted (h : Agrees trace es) {n : Note S} (he : e.note? = some n)
    (hn : n.isGot = false) : Agrees (trace ++ [n]) (es ++ [e]) := by
  refine ⟨?_, fun t contract value hmem => ?_⟩
  · rw [List.filter_append, List.filterMap_append, h.notes, List.filterMap_cons_some he]
    simp [hn]
  · -- a value that was got stands further in front, the new note is none
    obtain hmem | hmem := List.mem_append.mp hmem
    · exact List.mem_append_left _ (h.got t contract value hmem)
    · rw [← List.mem_singleton.mp hmem] at hn
      simp [Note.isGot] at hn

/-- A value from outside is noted when it is taken. -/
theorem Agrees.get (h : Agrees trace es) {t : S.Ty} {contract : S.Contract t} {value : S.Val t}
    (hgave : .gave t contract value ∈ es) : Agrees (trace ++ [.got t contract value]) es := by
  refine ⟨?_, fun t' contract' value' hmem => ?_⟩
  · rw [List.filter_append, h.notes]
    simp [Note.isGot]
  · -- a value that was got before, or the one that was given
    obtain hmem | hmem := List.mem_append.mp hmem
    · exact h.got t' contract' value' hmem
    · rw [List.mem_singleton] at hmem
      cases hmem
      exact hgave

end agrees

namespace World

variable {plan : Plan S} {es : List (Event S)} {c : Config S} {R : Rights S} {g : Ghost S}

/-- One thread is looked at. -/
theorem focus {stack : List (Frame S)} {rest : Multiset (List (Frame S))}
    (h : World plan es c 0 g) (hthread : c.threads = stack ::ₘ rest) :
    ∃ R threads, plan.SafeStack R stack ∧
      World plan es { c with threads := rest } R { g with threads := threads } := by
  have hdeals := h.threads
  rw [hthread, Multiset.deals_cons] at hdeals
  obtain ⟨R, threads, hthreads, hstack, hrest⟩ := hdeals
  refine ⟨R, threads, hstack, hrest, h.pending, h.tracked, h.dropped, ?_, h.agrees, h.final⟩
  have hbalance : 0 + g.threads + g.pending + g.inside + g.dropped = g.outside + g.batonRights :=
    h.balanced
  rw [hthreads, zero_add] at hbalance
  exact hbalance

/-- The thread goes back to the others. -/
theorem unfocus {stack : List (Frame S)} (h : World plan es c R g)
    (hstack : plan.SafeStack R stack) :
    World plan es { c with threads := stack ::ₘ c.threads } 0
      { g with threads := R + g.threads } := by
  refine ⟨Multiset.deals_cons.mpr ⟨R, g.threads, rfl, hstack, h.threads⟩, h.pending, h.tracked,
    h.dropped, ?_, h.agrees, h.final⟩
  -- the rights go back to the threads, so the sum is the same
  have hbalance : R + g.threads + g.pending + g.inside + g.dropped = g.outside + g.batonRights :=
    h.balanced
  show 0 + (R + g.threads) + g.pending + g.inside + g.dropped = g.outside + g.batonRights
  rw [zero_add]
  exact hbalance

/-- A step nobody notes. -/
theorem silent (h : World plan es c R g) {e : Event S} (he : e.note? = none) :
    World plan (es ++ [e]) c R g :=
  ⟨h.threads, h.pending, h.tracked.mono e, h.dropped, h.balanced, h.agrees.silent he, h.final⟩

/-- Rights that are not used. -/
theorem drop {K : Rights S} (h : World plan es c (R + K) g) (hkeep : CanKeep K) :
    World plan es c R { g with dropped := g.dropped + K } := by
  refine ⟨h.threads, h.pending, h.tracked, h.dropped.add hkeep, ?_, h.agrees, h.final⟩
  -- the rights that are dropped stay in the sum
  have hbalance : R + K + g.threads + g.pending + g.inside + g.dropped =
    g.outside + g.batonRights := h.balanced
  show R + g.threads + g.pending + g.inside + (g.dropped + K) = g.outside + g.batonRights
  rw [← hbalance]
  abel

/-- The program is over. -/
theorem finish {b : Baton S} (h : World plan es c (R + {.baton b}) g)
    (hfinal : plan.Final b.trace) : World plan es c R { g with alive := false } := by
  obtain ⟨-, rfl⟩ := h.balanced.baton_eq (b := b) (by simp)
  exact ⟨h.threads, h.pending, h.tracked, h.dropped, h.balanced.unbaton, h.agrees,
    fun _ => hfinal⟩

/-- An effect. -/
theorem perform {b : Baton S} (h : World plan es c (R + {.baton b}) g) (effect : S.Effect) :
    World plan (es ++ [.performed effect]) c (R + {.baton (b.note (.performed effect))})
      { g with baton := b.note (.performed effect) } := by
  obtain ⟨halive, rfl⟩ := h.balanced.baton_eq (b := b) (by simp)
  exact ⟨h.threads, h.pending, h.tracked.mono _, h.dropped, h.balanced.rebaton _,
    h.agrees.noted rfl rfl, fun hdead => absurd (halive.symm.trans hdead) (by simp)⟩

/-- The value of a given contract. -/
theorem get {b : Baton S} {t : S.Ty} {contract : S.Contract t} {value : S.Val t}
    (h : World plan es c (R + {.baton b}) g) (hgave : .gave t contract value ∈ es) :
    World plan es c (R + {.baton (b.note (.got t contract value))})
      { g with baton := b.note (.got t contract value) } := by
  obtain ⟨halive, rfl⟩ := h.balanced.baton_eq (b := b) (by simp)
  exact ⟨h.threads, h.pending, h.tracked, h.dropped, h.balanced.rebaton _, h.agrees.get hgave,
    fun hdead => absurd (halive.symm.trans hdead) (by simp)⟩

/-- A call of a recursive function. -/
theorem call {trace : Trace S} {calls : ℕ} (h : World plan es c (R + {.baton ⟨trace, calls + 1⟩}) g) :
    g.baton.calls = calls + 1 ∧ World plan es c (R + {.baton ⟨trace, calls⟩})
      { g with baton := ⟨trace, calls⟩ } := by
  obtain ⟨halive, hb⟩ := h.balanced.baton_eq (b := ⟨trace, calls + 1⟩) (by simp)
  have hagrees := h.agrees
  rw [hb] at hagrees
  exact ⟨by rw [hb], h.threads, h.pending, h.tracked, h.dropped, h.balanced.rebaton _, hagrees,
    fun hdead => absurd (halive.symm.trans hdead) (by simp)⟩

/-- `make_contract` -/
theorem make (h : World plan es c R g) (t : S.Ty) (post : Post S t) :
    World plan es { c with made := c.made + 1 }
      (R + {.set t c.made post} + {.attach t c.made post})
      { g with cells := .fresh t c.made post ::ₘ g.cells } := by
  refine ⟨h.threads, h.pending, h.tracked.make t post, h.dropped, ?_, h.agrees, h.final⟩
  -- a new cell owes what the two new rights stand for
  apply h.balanced.add
  show R + {.set t c.made post} + {.attach t c.made post} + 0 =
    R + ({.set t c.made post} + {.attach t c.made post})
  rw [add_zero, add_assoc]

/-- A handler is registered with the baton. -/
theorem register {K : Rights S} {b : Baton S} {query : S.Query}
    {handler : S.Answer query → Prog S} (h : World plan es c (R + K + {.baton b}) g)
    (hhandler : plan.SafeHandler ⟨query, handler⟩ (K + {.baton b})) :
    World plan es { c with pending := ⟨query, handler⟩ ::ₘ c.pending } R
      { g with pending := K + {.baton b} + g.pending } := by
  refine ⟨h.threads, Multiset.deals_cons.mpr ⟨_, _, rfl, hhandler, h.pending⟩, h.tracked,
    h.dropped, ?_, h.agrees, h.final⟩
  have hbalance : R + K + {.baton b} + g.threads + g.pending + g.inside + g.dropped =
    g.outside + g.batonRights := h.balanced
  show R + g.threads + (K + {.baton b} + g.pending) + g.inside + g.dropped =
    g.outside + g.batonRights
  rw [← hbalance]
  abel

/-- The handler is called. -/
theorem answer {query : S.Query} {handler : S.Answer query → Prog S}
    {rest : Multiset (Σ query : S.Query, S.Answer query → Prog S)} (h : World plan es c 0 g)
    (hpending : c.pending = ⟨query, handler⟩ ::ₘ rest) (answer : S.Answer query) :
    ∃ R g', plan.Safe R (handler answer) ∧
      World plan (es ++ [.answered query answer]) { c with pending := rest } R g' := by
  have hdeals := h.pending
  rw [hpending, Multiset.deals_cons] at hdeals
  obtain ⟨_, pending, hsum, ⟨K, b, rfl, hkeep, hwaits, hsafe⟩, hrest⟩ := hdeals
  have hbalanced : Ghost.Balanced { g with pending := pending } (K + {.baton b}) := by
    have hbalance : 0 + g.threads + g.pending + g.inside + g.dropped =
      g.outside + g.batonRights := h.balanced
    show K + {.baton b} + g.threads + pending + g.inside + g.dropped = g.outside + g.batonRights
    rw [← hbalance, hsum]
    abel
  -- the handler had the baton, and notes the answer on it
  obtain ⟨halive, rfl⟩ := hbalanced.baton_eq (b := b) (by simp)
  have halive' : g.alive = true := halive
  exact ⟨_, { g with pending := pending, baton := g.baton.answered query answer }, hsafe answer,
    h.threads, hrest, h.tracked.mono _, h.dropped, hbalanced.rebaton _,
    h.agrees.noted rfl rfl, fun hdead => absurd (halive'.symm.trans hdead) (by simp)⟩

/-- A section on a known shared state. -/
theorem replace {R' : Rights S} {cell : GhostCell S} {rest : Multiset (GhostCell S)}
    (h : World plan es c R g) (addr : Addr S) (cell' : GhostCell S) (content : Cell S addr.1)
    (hcells : g.cells = cell ::ₘ rest) (hold : cell.addr = addr) (hnew : cell'.addr = addr)
    (hfits : ∀ heap : Heap S, heap addr = content → cell'.Fits plan es (heap cell'.addr))
    (hsame : R' + cell'.inside + cell.outside = R + cell.inside + cell'.outside) :
    World plan es { c with heap := Function.update c.heap addr content } R'
      { g with cells := cell' ::ₘ rest } := by
  have htracked := h.tracked
  rw [hcells] at htracked
  exact ⟨h.threads, h.pending, htracked.replace hold hnew hfits, h.dropped,
    h.balanced.replace hcells hsame, h.agrees, h.final⟩

end World

/-! ## The sections -/

/-- What a section comes to for the thread, which has the rights `R` behind it: its
    value or callback is stored, or the callback runs. -/
inductive Served (plan : Plan S) (es : List (Event S)) (c : Config S) (addr : Addr S)
    (st : SharedState (S.Val addr.1) (S.Val addr.1 → Prog S)) (R : Rights S)
    (items : Multiset (Item S)) (calls : ℕ) :
    Call (S.Val addr.1) (S.Val addr.1 → Prog S) → Prop where
  | stored {g : Ghost S}
      (h : World plan es { c with heap := Function.update c.heap addr ⟨st, false⟩ } R g)
      (hitems : g.items = items) (hcalls : g.baton.calls = calls) :
      Served plan es c addr st R items calls .nothing
  | ran {g : Ghost S} {R' : Rights S} {callback : S.Val addr.1 → Prog S} {value : S.Val addr.1}
      (hsafe : plan.Safe R' (callback value))
      (h : World plan es { c with heap := Function.update c.heap addr ⟨st, true⟩ }
        (R' + ({.unlock addr} + R)) g)
      (hitems : items = .callback addr.1 callback ::ₘ g.items) (hcalls : g.baton.calls = calls) :
      Served plan es c addr st R items calls (.run callback value)

section served
variable {plan : Plan S} {es : List (Event S)} {c : Config S} {R : Rights S} {g : Ghost S}

/-- `set_value` with the baton. -/
theorem World.set {t : S.Ty} {promise : ℕ} {post : Post S t} {value : S.Val t} {b : Baton S}
    (h : World plan es c (R + {.set t promise post} + {.baton b}) g) (hpost : post value b) :
    (c.heap ⟨t, .made promise⟩).locked = false ∧
      Served plan es c ⟨t, .made promise⟩ ((c.heap ⟨t, .made promise⟩).state.setValue value).2 R
        g.items g.baton.calls ((c.heap ⟨t, .made promise⟩).state.setValue value).1 := by
  obtain ⟨cell, rest, hcells, hmem⟩ := h.balanced.exists_cell
    (r := .set t promise post) (by simp) (by simp)
  have hfits := h.tracked.fits cell (hcells ▸ Multiset.mem_cons_self cell rest)
  have hitems := Ghost.items_eq hcells
  cases cell with
  -- no callback yet: the value waits, and the baton with it
  | fresh t' id post' =>
    obtain hmem | hmem := Multiset.mem_add.mp hmem
    · cases Multiset.mem_singleton.mp hmem
      have hheap : c.heap ⟨t, .made promise⟩ = {} := hfits
      rw [hheap]
      have hsame : R + {.baton b} + ({.set t promise post} + {.attach t promise post}) =
          R + {.set t promise post} + {.baton b} + 0 + {.attach t promise post} := by
        abel
      have hworld := h.replace ⟨t, .made promise⟩ (.valued t promise post value b)
        { state := { value := .full value } } hcells rfl rfl (fun _ hheap => ⟨hheap, hpost⟩) hsame
      refine ⟨rfl, .stored hworld ?_ rfl⟩
      rw [hitems, Ghost.items_cons]
      rfl
    · cases Multiset.mem_singleton.mp hmem
  -- the callback runs with the rights it kept, and the baton
  | waiting t' id post' callback K =>
    cases Multiset.mem_singleton.mp hmem
    obtain ⟨hheap, hkeep, hsafe⟩ := hfits
    have hheap' : c.heap ⟨t, .made promise⟩ = { state := { callback := .full callback } } := hheap
    rw [hheap']
    have hsame : K + {.baton b} + ({.unlock ⟨t, .made promise⟩} + R) + 0 + {.set t promise post} =
        R + {.set t promise post} + {.baton b} + K + {.unlock ⟨t, .made promise⟩} := by
      abel
    have hworld := h.replace ⟨t, .made promise⟩ (.running _)
      ⟨⟨.movedFrom, .movedFrom⟩, true⟩ hcells rfl rfl (fun _ => GhostCell.fits_running) hsame
    refine ⟨rfl, .ran (hsafe value b hpost) hworld ?_ rfl⟩
    rw [hitems, Ghost.items_cons]
    show {Item.callback t callback} + _ = _ ::ₘ (0 + _)
    rw [zero_add, Multiset.singleton_add]
  -- nobody else has the right to set this promise
  | valued | running => cases Multiset.mem_singleton.mp hmem
  | unset | given => cases Multiset.mem_singleton.mp hmem
  | asked | spent => cases hmem

/-- `set_callback` on a future that the program made. -/
theorem World.attach {t : S.Ty} {id : ℕ} {post : Post S t} {K : Rights S}
    {callback : S.Val t → Prog S} (h : World plan es c (R + K + {.attach t id post}) g)
    (hkeep : CanKeep K)
    (hcallback : ∀ value b, post value b → plan.Safe (K + {.baton b}) (callback value)) :
    (c.heap ⟨t, .made id⟩).locked = false ∧
      Served plan es c ⟨t, .made id⟩ ((c.heap ⟨t, .made id⟩).state.setCallback callback).2 R
        (.callback t callback ::ₘ g.items) g.baton.calls
        ((c.heap ⟨t, .made id⟩).state.setCallback callback).1 := by
  obtain ⟨cell, rest, hcells, hmem⟩ := h.balanced.exists_cell
    (r := .attach t id post) (by simp) (by simp)
  have hfits := h.tracked.fits cell (hcells ▸ Multiset.mem_cons_self cell rest)
  have hitems := Ghost.items_eq hcells
  cases cell with
  -- no value yet: the callback waits, with the rights it keeps
  | fresh t' id' post' =>
    obtain hmem | hmem := Multiset.mem_add.mp hmem
    · cases Multiset.mem_singleton.mp hmem
    · cases Multiset.mem_singleton.mp hmem
      have hheap : c.heap ⟨t, .made id⟩ = {} := hfits
      rw [hheap]
      have hsame : R + K + ({.set t id post} + {.attach t id post}) =
          R + K + {.attach t id post} + 0 + {.set t id post} := by
        abel
      have hworld := h.replace ⟨t, .made id⟩ (.waiting t id post callback K)
        { state := { callback := .full callback } } hcells rfl rfl
        (fun _ hheap => ⟨hheap, hkeep, hcallback⟩) hsame
      refine ⟨rfl, .stored hworld ?_ rfl⟩
      rw [hitems, Ghost.items_cons]
      show {Item.callback t callback} + _ = _ ::ₘ (0 + _)
      rw [zero_add, Multiset.singleton_add]
  -- the value is there, and the callback runs with the baton that came with it
  | valued t' id' post' value b =>
    cases Multiset.mem_singleton.mp hmem
    obtain ⟨hheap, hpost⟩ := hfits
    have hheap' : c.heap ⟨t, .made id⟩ = { state := { value := .full value } } := hheap
    rw [hheap']
    have hsame : K + {.baton b} + ({.unlock ⟨t, .made id⟩} + R) + 0 + {.attach t id post} =
        R + K + {.attach t id post} + {.baton b} + {.unlock ⟨t, .made id⟩} := by
      abel
    have hworld := h.replace ⟨t, .made id⟩ (.running _) ⟨⟨.movedFrom, .movedFrom⟩, true⟩
      hcells rfl rfl (fun _ => GhostCell.fits_running) hsame
    refine ⟨rfl, .ran (hcallback value b hpost) hworld ?_ rfl⟩
    rw [hitems, Ghost.items_cons]
    rfl
  | waiting | running => cases Multiset.mem_singleton.mp hmem
  | unset | given => cases Multiset.mem_singleton.mp hmem
  | asked | spent => cases hmem

/-- `set_callback` on a given contract, with the baton. -/
theorem World.take {t : S.Ty} {contract : S.Contract t} {b : Baton S} {K : Rights S}
    {callback : S.Val t → Prog S}
    (h : World plan es c (R + K + {.take t contract} + {.baton b}) g) (hkeep : CanKeep K)
    (hwaits : plan.Waits b.trace (.value t contract))
    (hcallback : ∀ value, plan.Safe (K + {.baton (b.note (.got t contract value))})
      (callback value)) :
    (c.heap ⟨t, .given contract⟩).locked = false ∧
      Served plan es c ⟨t, .given contract⟩
        ((c.heap ⟨t, .given contract⟩).state.setCallback callback).2 R
        (.callback t callback ::ₘ g.items) g.baton.calls
        ((c.heap ⟨t, .given contract⟩).state.setCallback callback).1 := by
  obtain ⟨cell, rest, hcells, hmem⟩ := h.balanced.exists_cell
    (r := .take t contract) (by simp) (by simp)
  have hfits := h.tracked.fits cell (hcells ▸ Multiset.mem_cons_self cell rest)
  have hitems := Ghost.items_eq hcells
  obtain ⟨-, hb⟩ := h.balanced.baton_eq (b := b) (by simp)
  cases cell with
  -- no value yet: the callback waits for the outside
  | unset t' contract' =>
    cases Multiset.mem_singleton.mp hmem
    have hheap : c.heap ⟨t, .given contract⟩ = {} := hfits
    rw [hheap]
    have hsame : R + (K + {.baton b}) + {.take t contract} =
        R + K + {.take t contract} + {.baton b} + 0 + 0 := by
      abel
    have hworld := h.replace ⟨t, .given contract⟩ (.asked t contract callback K b)
      { state := { callback := .full callback } } hcells rfl rfl
      (fun _ hheap => ⟨hheap, hkeep, hwaits, hcallback⟩) hsame
    refine ⟨rfl, .stored hworld ?_ rfl⟩
    rw [hitems, Ghost.items_cons]
    show {Item.callback t callback} + _ = _ ::ₘ (0 + _)
    rw [zero_add, Multiset.singleton_add]
  -- the value is there, and is noted on the baton
  | given t' contract' value =>
    cases Multiset.mem_singleton.mp hmem
    obtain ⟨hheap, hgave⟩ := hfits
    have hheap' : c.heap ⟨t, .given contract⟩ = { state := { value := .full value } } := hheap
    rw [hheap']
    have hsame : K + {.unlock ⟨t, .given contract⟩} + R +
        {.baton (b.note (.got t contract value))} + 0 + {.take t contract} =
        R + K + {.take t contract} + {.baton (b.note (.got t contract value))} + 0 +
          {.unlock ⟨t, .given contract⟩} := by
      abel
    have hworld := (h.get hgave).replace ⟨t, .given contract⟩ (.running _)
      ⟨⟨.movedFrom, .movedFrom⟩, true⟩ hcells rfl rfl (fun _ => GhostCell.fits_running) hsame
    have hrights : K + {.unlock ⟨t, .given contract⟩} + R +
        {.baton (b.note (.got t contract value))} =
        K + {.baton (b.note (.got t contract value))} +
          ({.unlock ⟨t, .given contract⟩} + R) := by
      abel
    rw [hrights] at hworld
    have hcalls : b.calls = g.baton.calls := congrArg Baton.calls hb.symm
    refine ⟨rfl, .ran (hcallback value) hworld ?_ hcalls⟩
    rw [hitems, Ghost.items_cons]
    rfl
  -- the other cells do not have this right outside
  | fresh =>
    obtain hmem | hmem := Multiset.mem_add.mp hmem
    · cases Multiset.mem_singleton.mp hmem
    · cases Multiset.mem_singleton.mp hmem
  | valued | waiting => cases Multiset.mem_singleton.mp hmem
  | running => cases Multiset.mem_singleton.mp hmem
  | asked | spent => cases hmem

/-- A callback is attached to a future of either kind. -/
theorem World.setCallback {t : S.Ty} {future : Ref S t} {post : Post S t} {K F : Rights S}
    {callback : S.Val t → Prog S} (h : World plan es c (R + K + F) g) (hkeep : CanKeep K)
    (hfuture : plan.Awaits future post F)
    (hcallback : ∀ value b, post value b → plan.Safe (K + {.baton b}) (callback value)) :
    (c.heap ⟨t, future⟩).locked = false ∧
      Served plan es c ⟨t, future⟩ ((c.heap ⟨t, future⟩).state.setCallback callback).2 R
        (.callback t callback ::ₘ g.items) g.baton.calls
        ((c.heap ⟨t, future⟩).state.setCallback callback).1 := by
  cases hfuture with
  | made hpost =>
    exact h.attach hkeep fun value b hb => hcallback value b (hpost value b hb)
  | given hwaits hpost =>
    rw [← add_assoc] at h
    exact h.take hkeep hwaits fun value => hcallback value _ (hpost value)

/-- `set_value` on a given contract, by somebody else. -/
theorem World.give {t : S.Ty} {contract : S.Contract t} {value : S.Val t}
    (h : World plan es c 0 g)
    (hunset : (c.heap ⟨t, .given contract⟩).state.value = .empty) :
    Served plan (es ++ [.gave t contract value]) c ⟨t, .given contract⟩
      ((c.heap ⟨t, .given contract⟩).state.setValue value).2 0 g.items g.baton.calls
      ((c.heap ⟨t, .given contract⟩).state.setValue value).1 := by
  have hlater := h.silent (e := .gave t contract value) rfl
  by_cases hknown : ∃ cell ∈ g.cells, cell.addr = ⟨t, .given contract⟩
  · -- the program knows the contract
    obtain ⟨cell, hcell, haddr⟩ := hknown
    obtain ⟨rest, hcells⟩ := Multiset.exists_cons_of_mem hcell
    have hfits := h.tracked.fits cell hcell
    have hitems := Ghost.items_eq hcells
    cases cell with
    | fresh | valued | waiting => cases haddr
    -- nobody has asked yet, so the value is stored
    | unset t' contract' =>
      cases haddr
      have hheap : c.heap ⟨t, .given contract⟩ = {} := hfits
      rw [hheap]
      have hgave : .gave t contract value ∈ es ++ [.gave t contract value] := by simp
      have hworld := hlater.replace ⟨t, .given contract⟩ (.given t contract value)
        { state := { value := .full value } } hcells rfl rfl
        (fun _ hheap => ⟨hheap, hgave⟩) rfl
      refine .stored hworld ?_ rfl
      rw [hitems, Ghost.items_cons]
      rfl
    -- it cannot be given twice
    | given t' contract' value' =>
      cases haddr
      have hheap : c.heap ⟨t, .given contract⟩ = { state := { value := .full value' } } := hfits.1
      rw [hheap] at hunset
      cases hunset
    -- a callback waits, and runs in the thread that gives the value
    | asked t' contract' callback K b =>
      cases haddr
      obtain ⟨hheap, hkeep, hwaits, hcallback⟩ := hfits
      have hheap' : c.heap ⟨t, .given contract⟩ = { state := { callback := .full callback } } :=
        hheap
      rw [hheap']
      have hsame : K + {.unlock ⟨t, .given contract⟩} + {.baton b} + 0 + 0 =
          0 + (K + {.baton b}) + {.unlock ⟨t, .given contract⟩} := by
        abel
      have hworld := hlater.replace ⟨t, .given contract⟩ (.running _)
        ⟨⟨.movedFrom, .movedFrom⟩, true⟩ hcells rfl rfl (fun _ => GhostCell.fits_running) hsame
      obtain ⟨-, hb⟩ := hworld.balanced.baton_eq (b := b) (by simp)
      have hgave : .gave t contract value ∈ es ++ [.gave t contract value] := by simp
      have hgot := hworld.get (b := b) hgave
      have hrights : K + {.unlock ⟨t, .given contract⟩} +
          {.baton (b.note (.got t contract value))} =
          K + {.baton (b.note (.got t contract value))} +
            ({.unlock ⟨t, .given contract⟩} + 0) := by
        abel
      rw [hrights] at hgot
      have hcalls : b.calls = g.baton.calls := congrArg Baton.calls hb.symm
      refine .ran (hcallback value) hgot ?_ hcalls
      rw [hitems]
      show {Item.callback t callback} + _ =
        _ ::ₘ ((GhostCell.running _ ::ₘ rest).map GhostCell.items).sum
      rw [Multiset.map_cons, Multiset.sum_cons]
      show _ = _ ::ₘ (0 + _)
      rw [zero_add, Multiset.singleton_add]
    -- a value that was moved out was given before
    | running addr =>
      cases haddr
      have hmoved : (c.heap ⟨t, .given contract⟩).state.value = .movedFrom := hfits
      rw [hmoved] at hunset
      cases hunset
    | spent addr =>
      cases haddr
      have hmoved : (c.heap ⟨t, .given contract⟩).state.value = .movedFrom := hfits
      rw [hmoved] at hunset
      cases hunset
  · -- the program has lost the contract, so no callback is there
    have hunknown : ∀ cell ∈ g.cells, cell.addr ≠ ⟨t, .given contract⟩ :=
      fun cell hcell haddr => hknown ⟨cell, hcell, haddr⟩
    have hcallback := h.tracked.untaken t contract hunknown
    obtain ⟨-, hset⟩ | ⟨callback, hfull, -⟩ | ⟨hmoved, -⟩ :=
      (c.heap ⟨t, .given contract⟩).state.setValue_cases value
    · rw [hset]
      have htracked := hlater.tracked.give { state := { value := .full value } } rfl hunknown
      exact .stored ⟨hlater.threads, hlater.pending, htracked, hlater.dropped, hlater.balanced,
        hlater.agrees, hlater.final⟩ rfl rfl
    · rw [hfull] at hcallback
      cases hcallback
    · rw [hmoved] at hcallback
      cases hcallback

/-- The end of a section behind its callback. -/
theorem World.unlock {addr : Addr S} (reset : Bool) (h : World plan es c ({.unlock addr} + R) g) :
    ∃ g', World plan es
      { c with
        heap := Function.update c.heap addr
          { state := if reset then (c.heap addr).state.afterCall else (c.heap addr).state } }
      R g' ∧ g'.items = g.items ∧ g'.baton.calls = g.baton.calls := by
  obtain ⟨cell, rest, hcells, hmem⟩ := h.balanced.exists_cell (r := .unlock addr) (by simp) (by simp)
  have hfits := h.tracked.fits cell (hcells ▸ Multiset.mem_cons_self cell rest)
  have hitems := Ghost.items_eq hcells
  cases cell with
  | running addr' =>
    cases Multiset.mem_singleton.mp hmem
    have hmoved : (c.heap addr).state.value = .movedFrom := hfits
    have hsame : R + 0 + {.unlock addr} = {.unlock addr} + R + 0 + 0 := by
      abel
    refine ⟨_, h.replace addr (.spent addr) _ hcells rfl rfl (fun heap hheap => ?_) hsame, ?_, rfl⟩
    · show (heap addr).state.value = .movedFrom
      rw [hheap]
      -- the callback is dropped or not, the value is gone in either case
      cases reset with
      | true => exact hmoved
      | false => exact hmoved
    · rw [hitems, Ghost.items_cons]
      rfl
  | fresh =>
    obtain hmem | hmem := Multiset.mem_add.mp hmem
    · cases Multiset.mem_singleton.mp hmem
    · cases Multiset.mem_singleton.mp hmem
  | valued | waiting => cases Multiset.mem_singleton.mp hmem
  | unset | given => cases Multiset.mem_singleton.mp hmem
  | asked | spent => cases hmem

end served

/-! ## Every step gets nearer to the next answer -/

/-- What is left to do of a program. -/
def Config.items (c : Config S) (g : Ghost S) : Multiset (Item S) :=
  (c.threads.map stackItems).sum + g.items

/-- The free calls come first. -/
def Lower : ℕ × Multiset (Item S) → ℕ × Multiset (Item S) → Prop :=
  Prod.Lex (· < ·) (TransGen (CutExpand Item.Smaller))

/-- The measure cannot sink for ever. -/
theorem wellFounded_lower : WellFounded (Lower (S := S)) :=
  WellFounded.prod_lex Nat.lt_wfRel.wf Item.wellFounded_smaller.cutExpand.transGen

/-- The items of a frame, and of those below it. -/
theorem stackItems_cons (frame : Frame S) (stack : List (Frame S)) :
    stackItems (frame :: stack) = frame.item + stackItems stack := by
  rw [stackItems, List.map_cons, List.sum_cons, stackItems]

/-- A section may run a callback, and leaves the end of the section behind it. -/
def Spends (items items' : Multiset (Item S)) : Prop :=
  ∃ J, (J = items ∨ CutExpand Item.Smaller J items) ∧ (items' = J ∨ items' = {.unlock} + J)

/-- What a step spends is cut out of one item. -/
theorem Spends.transGen {item : Item S} {X Y items items' : Multiset (Item S)}
    (h : Spends items items') (hitems : items = Y + X) (hY : ∀ i ∈ Y, Item.Smaller i item)
    (hunlock : Item.Smaller .unlock item) :
    TransGen (CutExpand Item.Smaller) items' ({item} + X) := by
  subst hitems
  obtain ⟨J, hJ, hitems'⟩ := h
  -- the unlock, if there is one, is cut out of the item together with the rest
  obtain ⟨U, hU, rfl⟩ : ∃ U, (∀ i ∈ U, Item.Smaller i item) ∧ items' = U + J := by
    obtain rfl | rfl := hitems'
    · exact ⟨0, by simp, (zero_add _).symm⟩
    · refine ⟨{.unlock}, fun i hi => ?_, rfl⟩
      rw [Multiset.mem_singleton.mp hi]
      exact hunlock
  have hcut : CutExpand Item.Smaller (U + (Y + X)) ({item} + X) := by
    refine ⟨U + Y, item, fun i hi => (Multiset.mem_add.mp hi).elim (hU i) (hY i), ?_⟩
    abel
  obtain rfl | hJ := hJ
  · exact .single hcut
  · exact .head ((cutExpand_add_left U).mpr hJ) (.single hcut)

/-- A frame is replaced by what its step leaves of it. -/
theorem Lower.of_thread {c : Config S} {g g' : Ghost S} {stack stack' : List (Frame S)}
    {rest : Multiset (List (Frame S))} (hthread : c.threads = stack ::ₘ rest) {c' : Config S}
    (hthread' : c'.threads = stack' ::ₘ rest) (hcalls : g'.baton.calls = g.baton.calls)
    (h : TransGen (CutExpand Item.Smaller) (stackItems stack' + g'.items)
      (stackItems stack + g.items)) :
    Lower (g'.baton.calls, c'.items g') (g.baton.calls, c.items g) := by
  have hlift : TransGen (CutExpand Item.Smaller)
      ((rest.map stackItems).sum + (stackItems stack' + g'.items))
      ((rest.map stackItems).sum + (stackItems stack + g.items)) :=
    h.lift ((rest.map stackItems).sum + ·) fun _ _ => (cutExpand_add_left _).mpr
  unfold Config.items
  rw [hcalls, hthread, hthread', Multiset.map_cons, Multiset.sum_cons, Multiset.map_cons,
    Multiset.sum_cons, add_comm (stackItems stack'), add_comm (stackItems stack), add_assoc,
    add_assoc]
  exact Prod.Lex.right _ hlift

/-- What the shared state answers can be carried out. -/
theorem Served.exists_called {plan : Plan S} {es : List (Event S)} {c : Config S} {R : Rights S}
    {addr : Addr S} {st : SharedState (S.Val addr.1) (S.Val addr.1 → Prog S)}
    {items : Multiset (Item S)} {calls : ℕ}
    {call : Call (S.Val addr.1) (S.Val addr.1 → Prog S)}
    (h : Served plan es c addr st R items calls call) (reset : Bool) (below : List (Frame S)) :
    ∃ locked stack', Called addr reset below call locked stack' := by
  cases h with
  | stored => exact ⟨_, _, .nothing⟩
  | @ran _ _ callback value => exact ⟨_, _, .run callback value⟩

section steps
variable {plan : Plan S} {es : List (Event S)} {c c' : Config S} {R : Rights S} {g : Ghost S}

/-- The thread behind a section. -/
theorem Served.called {addr : Addr S}
    {st : SharedState (S.Val addr.1) (S.Val addr.1 → Prog S)} {items : Multiset (Item S)}
    {calls : ℕ} {call : Call (S.Val addr.1) (S.Val addr.1 → Prog S)}
    (h : Served plan es c addr st R items calls call) {reset locked : Bool}
    {below stack' : List (Frame S)} (hcalled : Called addr reset below call locked stack')
    (hbelow : plan.SafeStack R below) :
    ∃ R' g', plan.SafeStack R' stack' ∧
      World plan es { c with heap := Function.update c.heap addr ⟨st, locked⟩ } R' g' ∧
      g'.baton.calls = calls ∧ Spends (stackItems below + items) (stackItems stack' + g'.items) := by
  cases h with
  -- the shared state only stored something
  | @stored g hworld hitems hcalls =>
    cases hcalled with
    | nothing => exact ⟨R, g, hbelow, hworld, hcalls, _, .inl rfl, .inl (by rw [hitems])⟩
  -- a callback runs on top of the stack, above the frame that unlocks
  | @ran g R' callback value hsafe hworld hitems hcalls =>
    cases hcalled with
    | run =>
      refine ⟨_, g, .code hsafe (.unlock reset hbelow), hworld, hcalls,
        stackItems below + ({.code (callback value)} + g.items), .inr ?_, .inr ?_⟩
      · rw [hitems, ← Multiset.singleton_add]
        exact (cutExpand_add_left _).mpr (cutExpand_single_add (.callback callback value) _)
      · rw [stackItems_cons, stackItems_cons]
        show {Item.code (callback value)} + ({Item.unlock} + stackItems below) + g.items = _
        abel

/-- One frame becomes smaller ones. -/
theorem cut_items (frame : Frame S) {item : Item S} (hframe : frame.item = {item})
    (frames stack : List (Frame S)) (hsmaller : ∀ i ∈ stackItems frames, Item.Smaller i item)
    (items : Multiset (Item S)) :
    TransGen (CutExpand Item.Smaller) (stackItems (frames ++ stack) + items)
      (stackItems (frame :: stack) + items) := by
  have happend : stackItems (frames ++ stack) = stackItems frames + stackItems stack := by
    rw [stackItems, List.map_append, List.sum_append, stackItems, stackItems]
  rw [happend, stackItems_cons, hframe]
  -- one frame goes, and all that comes in its place is smaller
  refine .single ⟨stackItems frames, item, hsmaller, ?_⟩
  abel

/-- Code that goes on is smaller. -/
theorem cut_code {prog next : Prog S} (h : Item.Smaller (.code next) (.code prog))
    (stack : List (Frame S)) (items : Multiset (Item S)) :
    TransGen (CutExpand Item.Smaller) (stackItems (.code next :: stack) + items)
      (stackItems (.code prog :: stack) + items) := by
  have hitems : stackItems [.code next] = {.code next} := add_zero {Item.code next}
  refine cut_items (.code prog) rfl [.code next] stack (fun i hi => ?_) items
  rw [hitems] at hi
  rw [Multiset.mem_singleton.mp hi]
  exact h

/-- A step that goes on, and may have run a callback. -/
theorem Spends.transGen_code {prog next : Prog S} {stack : List (Frame S)}
    {items items' : Multiset (Item S)}
    (h : Spends (stackItems (.code next :: stack) + items) items')
    (hnext : Item.Smaller (.code next) (.code prog)) (hunlock : Item.Smaller .unlock (.code prog)) :
    TransGen (CutExpand Item.Smaller) items' (stackItems (.code prog :: stack) + items) := by
  rw [stackItems_cons, add_assoc] at h
  rw [stackItems_cons, add_assoc]
  refine h.transGen rfl (fun i hi => ?_) hunlock
  rw [Multiset.mem_singleton.mp hi]
  exact hnext

/-- The same with a callback that was attached by the step. -/
theorem Spends.transGen_callback {prog next : Prog S} {t : S.Ty} {callback : S.Val t → Prog S}
    {stack : List (Frame S)} {items items' : Multiset (Item S)}
    (h : Spends (stackItems (.code next :: stack) + .callback t callback ::ₘ items) items')
    (hnext : Item.Smaller (.code next) (.code prog))
    (hcallback : Item.Smaller (.callback t callback) (.code prog))
    (hunlock : Item.Smaller .unlock (.code prog)) :
    TransGen (CutExpand Item.Smaller) items' (stackItems (.code prog :: stack) + items) := by
  rw [stackItems_cons, ← Multiset.singleton_add] at h
  rw [stackItems_cons, add_assoc]
  have hitems : {.code next} + stackItems stack + ({.callback t callback} + items) =
      {.code next} + {.callback t callback} + (stackItems stack + items) := by
    abel
  -- the code that attaches is larger than what comes of it
  refine h.transGen hitems (fun i hi => ?_) hunlock
  obtain hi | hi := Multiset.mem_add.mp hi
  · rw [Multiset.mem_singleton.mp hi]
    exact hnext
  · rw [Multiset.mem_singleton.mp hi]
    exact hcallback

/-- The thread goes on with its rights. -/
theorem World.resume {stack stack' : List (Frame S)} {rest : Multiset (List (Frame S))}
    {heap : Heap S} {made : ℕ} {pending : Multiset (Σ query : S.Query, S.Answer query → Prog S)}
    {R' : Rights S} {g' : Ghost S} (h : World plan es ⟨heap, made, rest, pending⟩ R' g')
    (hthread : c.threads = stack ::ₘ rest) (hstack : plan.SafeStack R' stack')
    (hcalls : g'.baton.calls = g.baton.calls)
    (hlower : TransGen (CutExpand Item.Smaller) (stackItems stack' + g'.items)
      (stackItems stack + g.items)) :
    ∃ g'', World plan es ⟨heap, made, stack' ::ₘ rest, pending⟩ 0 g'' ∧
      Lower (g''.baton.calls, Config.items ⟨heap, made, stack' ::ₘ rest, pending⟩ g'')
        (g.baton.calls, c.items g) :=
  ⟨_, h.unfocus hstack, .of_thread hthread rfl hcalls hlower⟩

/-- A step of a thread: it keeps the balance, and there is less to do. -/
theorem Step.world_internal {bodies : Bodies S} (hsound : plan.Sound bodies) {e : Event S}
    (hstep : Step bodies c e c') (he : e.Internal) (h : World plan es c 0 g) :
    ∃ g', World plan (es ++ [e]) c' 0 g' ∧
      Lower (g'.baton.calls, c'.items g') (g.baton.calls, c.items g) := by
  cases hstep with
  | @done stack rest hthread =>
    obtain ⟨_, threads, hstack, hworld⟩ := h.focus hthread
    cases hstack with
    | @code R R' _ _ hsafe hrest =>
      have hworld := hworld.silent (e := .silent) rfl
      have hcut := cut_items (.code .done) rfl [] stack (by simp [stackItems]) g.items
      rw [add_comm] at hworld
      cases hsafe with
      | done hkeep => exact (hworld.drop hkeep).resume hthread hrest rfl hcut
      -- the baton ends here
      | finish hR hkeep hfinal =>
        rw [hR, ← add_assoc] at hworld
        exact ((hworld.finish hfinal).drop hkeep).resume hthread hrest rfl hcut
  | @makeContract stack rest t next hthread =>
    obtain ⟨_, threads, hstack, hworld⟩ := h.focus hthread
    cases hstack with
    | @code R R' _ _ hsafe hrest =>
      cases hsafe with
      | makeContract post hnext =>
        -- a new cell, with the rights to set it and to attach to it
        have hmade := (hworld.silent (e := .silent) rfl).make t post
        have hrights : R + R' + {.set t c.made post} + {.attach t c.made post} =
            R + {.set t c.made post} + {.attach t c.made post} + R' := by
          abel
        rw [hrights] at hmade
        refine hmade.resume hthread (.code (hnext c.made) hrest) rfl ?_
        rw [Ghost.items_cons]
        show TransGen _ (_ + (0 + g.items)) _
        rw [zero_add]
        exact cut_code (.makeContract next c.made) stack g.items
  | @setValue stack stack' rest t promise value next locked hthread hfree hcalled =>
    obtain ⟨_, threads, hstack, hworld⟩ := h.focus hthread
    cases hstack with
    | @code R R'' _ _ hsafe hrest =>
      cases hsafe with
      | @setValue _ R' _ _ _ _ post b hR hpost hnext =>
        have hrights : R + R'' = R' + R'' + {.set t promise post} + {.baton b} := by
          rw [hR]
          abel
        rw [hrights] at hworld
        -- the promise takes the baton
        obtain ⟨-, hserved⟩ := (hworld.silent (e := .silent) rfl).set hpost
        obtain ⟨_, g', hsafe', hworld', hcalls, hspends⟩ :=
          hserved.called hcalled (.code hnext hrest)
        exact hworld'.resume hthread hsafe' hcalls
          (hspends.transGen_code (.setValue next) (.unlock _))
  | @setCallback stack stack' rest t future callback next locked hthread hfree hcalled =>
    obtain ⟨_, threads, hstack, hworld⟩ := h.focus hthread
    cases hstack with
    | @code R R'' _ _ hsafe hrest =>
      cases hsafe with
      | @setCallback _ R' K F _ _ _ _ post hR hkeep hfuture hcallback hnext =>
        have hrights : R + R'' = R' + R'' + K + F := by
          rw [hR]
          abel
        rw [hrights] at hworld
        -- the future gets the callback, and may run it at once
        obtain ⟨-, hserved⟩ :=
          (hworld.silent (e := .silent) rfl).setCallback hkeep hfuture hcallback
        obtain ⟨_, g', hsafe', hworld', hcalls, hspends⟩ :=
          hserved.called hcalled (.code hnext hrest)
        exact hworld'.resume hthread hsafe' hcalls
          (hspends.transGen_callback (.setCallback next) (.attached callback) (.unlock _))
  | @perform stack rest effect next hthread =>
    obtain ⟨_, threads, hstack, hworld⟩ := h.focus hthread
    cases hstack with
    | @code R R'' _ _ hsafe hrest =>
      cases hsafe with
      | @perform _ R' _ _ b hR hnext =>
        have hrights : R + R'' = R' + R'' + {.baton b} := by
          rw [hR]
          abel
        rw [hrights] at hworld
        obtain ⟨-, hb⟩ := hworld.balanced.baton_eq (b := b) (by simp)
        -- the baton notes the effect
        have hperformed := hworld.perform effect
        have hrights' : R' + R'' + {.baton (b.note (.performed effect))} =
            R' + {.baton (b.note (.performed effect))} + R'' := by
          abel
        rw [hrights'] at hperformed
        have hcalls : b.calls = g.baton.calls := congrArg Baton.calls hb.symm
        exact hperformed.resume hthread (.code hnext hrest) hcalls
          (cut_code (.perform next) stack g.items)
  | @register stack rest query handler next hthread =>
    obtain ⟨_, threads, hstack, hworld⟩ := h.focus hthread
    cases hstack with
    | @code R R'' _ _ hsafe hrest =>
      cases hsafe with
      | @register _ R' K _ _ _ b hR hkeep hwaits hhandler hnext =>
        have hrights : R + R'' = R' + R'' + K + {.baton b} := by
          rw [hR]
          abel
        rw [hrights] at hworld
        have hsafe : plan.SafeHandler ⟨query, handler⟩ (K + {.baton b}) :=
          ⟨K, b, rfl, hkeep, hwaits, hhandler⟩
        -- the handler takes the baton with it
        have hregistered := (hworld.silent (e := .silent) rfl).register hsafe
        exact hregistered.resume hthread (.code hnext hrest) rfl
          (cut_code (.register next) stack g.items)
  | @call stack rest t proc next hthread =>
    obtain ⟨_, threads, hstack, hworld⟩ := h.focus hthread
    cases hstack with
    | @code R R'' _ _ hsafe hrest =>
      cases hsafe with
      | @call _ R' _ _ _ trace calls hR hpre hnext =>
        have hrights : R + R'' = R' + R'' + {.baton ⟨trace, calls + 1⟩} := by
          rw [hR]
          abel
        rw [hrights] at hworld
        obtain ⟨hcalls, hcalled⟩ := (hworld.silent (e := .silent) rfl).call
        have hrights' : R' + R'' + {.baton ⟨trace, calls⟩} = R' + {.baton ⟨trace, calls⟩} + R'' := by
          abel
        rw [hrights'] at hcalled
        -- the body is safe, and one call less is free
        have hbody := hsound t proc trace calls R' next hpre hnext
        have hcalls' : g.baton.calls = calls + 1 := hcalls
        refine ⟨_, hcalled.unfocus (.code hbody hrest), .left _ _ ?_⟩
        show calls < g.baton.calls
        omega
  | @unlock stack rest addr reset hthread =>
    obtain ⟨_, threads, hstack, hworld⟩ := h.focus hthread
    cases hstack with
    | @unlock R _ _ _ hrest =>
      obtain ⟨g', hworld', hitems, hcalls⟩ := (hworld.silent (e := .silent) rfl).unlock reset
      refine hworld'.resume hthread hrest hcalls ?_
      rw [hitems]
      exact cut_items (.unlock addr reset) rfl [] stack (by simp [stackItems]) g.items
  -- no thread unwinds, for no stack of the invariant does
  | @unwindCode stack rest prog hthread =>
    obtain ⟨_, threads, hstack, -⟩ := h.focus hthread
    cases hstack
  | @unwindUnlock stack rest addr reset hthread =>
    obtain ⟨_, threads, hstack, -⟩ := h.focus hthread
    cases hstack
  | @uncaught rest hthread =>
    obtain ⟨_, threads, hstack, -⟩ := h.focus hthread
    cases hstack
  | answer => cases he
  | give => cases he

/-- Every step keeps the invariant. -/
theorem Step.world {bodies : Bodies S} (hsound : plan.Sound bodies) {e : Event S}
    (hstep : Step bodies c e c') (h : World plan es c 0 g) :
    ∃ g', World plan (es ++ [e]) c' 0 g' := by
  by_cases he : e.Internal
  · obtain ⟨g', hworld, -⟩ := hstep.world_internal hsound he h
    exact ⟨g', hworld⟩
  · cases hstep with
    | @answer rest query handler answer hpending =>
      obtain ⟨R, g', hsafe, hworld⟩ := h.answer hpending answer
      rw [← add_zero R] at hworld
      exact ⟨_, hworld.unfocus (.code hsafe .nil)⟩
    | @give stack' t contract value locked hunset hfree hcalled =>
      obtain ⟨_, g', hstack, hworld, -, -⟩ := (h.give hunset).called hcalled .nil
      exact ⟨_, hworld.unfocus hstack⟩
    | _ => exact absurd trivial he

end steps

/-! ## Runs -/

/-- The rights to attach to some given contracts. -/
def takes (D : Multiset (Σ t : S.Ty, S.Contract t)) : Rights S :=
  D.map fun x => .take x.1 x.2

section runs
variable {plan : Plan S} {es : List (Event S)} {c : Config S} {g : Ghost S}

/-- The program starts with its contracts and the baton. -/
theorem World.start {prog : Prog S} {D : Multiset (Σ t : S.Ty, S.Contract t)} (hD : D.Nodup)
    {calls : ℕ} (hsafe : plan.Safe (takes D + {.baton ⟨[], calls⟩}) prog) :
    ∃ g, World plan [] (.start prog) 0 g := by
  have hworld : World plan [] { threads := 0 } (takes D + {.baton ⟨[], calls⟩})
      { threads := 0, pending := 0, dropped := 0, cells := D.map fun x => .unset x.1 x.2,
        baton := ⟨[], calls⟩, alive := true } := by
    refine ⟨Multiset.deals_zero.mpr rfl, Multiset.deals_zero.mpr rfl, ⟨?_, ?_, ?_, ?_, ?_⟩,
      canKeep_zero, ?_, ⟨rfl, fun _ _ _ h => nomatch h⟩, fun h => nomatch h⟩
    · rw [Multiset.map_map]
      refine hD.map fun x y hxy => ?_
      obtain ⟨t, contract⟩ := x
      cases hxy
      rfl
    · intro cell hcell
      obtain ⟨x, -, rfl⟩ := Multiset.mem_map.mp hcell
      exact rfl
    · intro cell hcell
      obtain ⟨x, -, rfl⟩ := Multiset.mem_map.mp hcell
      trivial
    · exact fun _ _ _ => rfl
    · exact fun _ _ _ => rfl
    · show takes D + {.baton ⟨[], calls⟩} + 0 + 0 + _ + 0 = _ + {.baton ⟨[], calls⟩}
      have hinside : ((D.map fun x => GhostCell.unset x.1 x.2).map GhostCell.inside).sum =
          (0 : Rights S) := by
        rw [Multiset.map_map]
        refine Multiset.sum_eq_zero fun R hR => ?_
        obtain ⟨x, -, rfl⟩ := Multiset.mem_map.mp hR
        rfl
      -- each contract from outside may be taken once
      have houtside : ((D.map fun x => GhostCell.unset x.1 x.2).map GhostCell.outside).sum =
          takes D := by
        have hsum := Multiset.sum_map_singleton (takes D)
        rw [takes, Multiset.map_map] at hsum
        rw [Multiset.map_map]
        exact hsum
      rw [Ghost.inside, Ghost.outside, hinside, houtside]
      abel
  rw [← add_zero (takes D + {.baton ⟨[], calls⟩})] at hworld
  exact ⟨_, hworld.unfocus (.code hsafe .nil)⟩

/-- The rights add up in every run of a safe program. -/
theorem Plan.Sound.world {bodies : Bodies S} (hsound : plan.Sound bodies) {prog : Prog S}
    {D : Multiset (Σ t : S.Ty, S.Contract t)} (hD : D.Nodup) {calls : ℕ}
    (hsafe : plan.Safe (takes D + {.baton ⟨[], calls⟩}) prog) (hrun : ProgRun bodies prog es c) :
    ∃ g, World plan es c 0 g :=
  hrun.history (P := fun es c => ∃ g, World plan es c 0 g) (World.start hD hsafe)
    fun _ _ _ _ ⟨_, hworld⟩ hstep => hstep.world hsound hworld

/-! ## When every call has returned -/

def Right.isBaton : Right S → Bool
  | .baton _ => true
  | _ => false

/-- Rights that may stay unused are no baton. -/
theorem CanKeep.countP_isBaton {K : Rights S} (h : CanKeep K) :
    K.countP (fun r => r.isBaton = true) = 0 := by
  refine Multiset.countP_eq_zero.mpr fun r hr hbaton => ?_
  have hkeep := h r hr
  cases r with
  | baton => exact hkeep
  | _ => cases hbaton

/-- Every handler has a baton. -/
theorem countP_isBaton_pending {pending : Multiset (Σ query : S.Query, S.Answer query → Prog S)}
    {R : Rights S} (h : pending.Deals plan.SafeHandler R) :
    R.countP (fun r => r.isBaton = true) = pending.card := by
  induction pending using Multiset.induction_on generalizing R with
  | empty =>
    rw [Multiset.deals_zero.mp h]
    rfl
  | cons handler rest ih =>
    obtain ⟨_, R', rfl, ⟨K, b, rfl, hkeep, -⟩, hrest⟩ := Multiset.deals_cons.mp h
    have hone : ({.baton b} : Rights S).countP (fun r => r.isBaton = true) = 1 := rfl
    rw [Multiset.countP_add, Multiset.countP_add, hkeep.countP_isBaton, ih hrest,
      Multiset.card_cons, hone]
    omega

/-- A handler can keep nothing but its baton. -/
theorem mem_pending_rights {pending : Multiset (Σ query : S.Query, S.Answer query → Prog S)}
    {R : Rights S} (h : pending.Deals plan.SafeHandler R) {r : Right S} (hr : r ∈ R) :
    r.CanKeep ∨ ∃ handler ∈ pending, ∃ b, r = .baton b ∧ plan.Waits b.trace (.answer handler.1) := by
  -- induction on the handlers, each with its own share
  induction pending using Multiset.induction_on generalizing R with
  | empty =>
    rw [Multiset.deals_zero.mp h] at hr
    simp at hr
  | cons handler rest ih =>
    obtain ⟨_, R', rfl, ⟨K, b, rfl, hkeep, hwaits, -⟩, hrest⟩ := Multiset.deals_cons.mp h
    obtain hr | hr := Multiset.mem_add.mp hr
    · obtain hr | hr := Multiset.mem_add.mp hr
      · exact .inl (hkeep r hr)
      · exact .inr ⟨handler, Multiset.mem_cons_self _ _, b, Multiset.mem_singleton.mp hr, hwaits⟩
    · obtain hkeep | ⟨handler', hmem, hwaits⟩ := ih hrest hr
      · exact .inl hkeep
      · exact .inr ⟨handler', Multiset.mem_cons_of_mem hmem, hwaits⟩

/-- The rights of threads that are over. -/
theorem idle_rights {threads : Multiset (List (Frame S))} {R : Rights S}
    (h : threads.Deals (fun stack R => plan.SafeStack R stack) R)
    (hidle : ∀ stack ∈ threads, stack = []) : R = 0 := by
  induction threads using Multiset.induction_on generalizing R with
  | empty => exact Multiset.deals_zero.mp h
  | cons stack rest ih =>
    obtain ⟨R₁, R₂, rfl, hstack, hrest⟩ := Multiset.deals_cons.mp h
    rw [hidle stack (Multiset.mem_cons_self _ _)] at hstack
    cases hstack with
    | nil =>
      rw [zero_add]
      exact ih hrest fun stack hmem => hidle stack (Multiset.mem_cons_of_mem hmem)

/-- A shared state keeps what its callback may keep, and a baton with a value or for one. -/
theorem World.mem_inside {R : Rights S} (h : World plan es c R g) {r : Right S}
    (hr : r ∈ g.inside) : r.CanKeep ∨ ∃ b, r = .baton b ∧
      ((∃ t id post value, .valued t id post value b ∈ g.cells) ∨
        ∃ t contract, plan.Waits b.trace (.value t contract) ∧
          (c.heap ⟨t, .given contract⟩).state.value = .empty) := by
  obtain ⟨R, hR, hr⟩ := Multiset.mem_join.mp hr
  obtain ⟨cell, hcell, rfl⟩ := Multiset.mem_map.mp hR
  have hfits := h.tracked.fits cell hcell
  cases cell with
  -- a value that is stored keeps the baton until somebody attaches
  | valued t id post value b =>
    exact .inr ⟨b, Multiset.mem_singleton.mp hr, .inl ⟨t, id, post, value, hcell⟩⟩
  | waiting t id post callback K => exact .inl (hfits.2.1 r hr)
  -- a callback that waits for a contract keeps the baton, too
  | asked t contract callback K b =>
    obtain ⟨hheap, hkeep, hwaits, -⟩ := hfits
    have hheap' : c.heap ⟨t, .given contract⟩ = { state := { callback := .full callback } } :=
      hheap
    obtain hr | hr := Multiset.mem_add.mp hr
    · exact .inl (hkeep r hr)
    · exact .inr ⟨b, Multiset.mem_singleton.mp hr, .inr ⟨t, contract, hwaits, by rw [hheap']⟩⟩
  | fresh | unset | given | running | spent => cases hr

/-- Nobody is left who could attach, so nobody waits for it with the baton. -/
theorem World.no_valued (h : World plan es c 0 g) (hidle : c.Idle) {t : S.Ty} {id : ℕ}
    {post : Post S t} {value : S.Val t} {b : Baton S} :
    .valued t id post value b ∉ g.cells := by
  intro hcell
  -- the right to attach would be in nobody's hands
  have hattach : .attach t id post ∈ g.outside + g.batonRights :=
    Multiset.mem_add.mpr (.inl (Multiset.mem_join.mpr
      ⟨_, Multiset.mem_map_of_mem _ hcell, Multiset.mem_singleton_self _⟩))
  have hbalance : 0 + g.threads + g.pending + g.inside + g.dropped =
    g.outside + g.batonRights := h.balanced
  rw [← hbalance, idle_rights h.threads hidle, zero_add, zero_add] at hattach
  obtain hmem | hmem := Multiset.mem_add.mp hattach
  · obtain hmem | hmem := Multiset.mem_add.mp hmem
    · obtain hkeep | ⟨-, -, b, hbaton, -⟩ := mem_pending_rights h.pending hmem
      · exact hkeep
      · cases hbaton
    · obtain hkeep | ⟨b, hbaton, -⟩ := h.mem_inside hmem
      · exact hkeep
      · cases hbaton
  · exact h.dropped _ hmem

/-- The batons of the handlers and of the shared states. -/
theorem World.countP_isBaton (h : World plan es c 0 g) (hidle : c.Idle) :
    c.pending.card + g.inside.countP (fun r => r.isBaton = true) = if g.alive then 1 else 0 := by
  have hbalance : 0 + g.threads + g.pending + g.inside + g.dropped =
    g.outside + g.batonRights := h.balanced
  have hcount := congrArg (Multiset.countP (fun r => r.isBaton = true)) hbalance
  -- the baton is with a handler, in a cell or nowhere
  have houtside : g.outside.countP (fun r => r.isBaton = true) = 0 := by
    refine Multiset.countP_eq_zero.mpr fun r hr hbaton => ?_
    obtain ⟨R, hR, hr⟩ := Multiset.mem_join.mp hr
    obtain ⟨cell, -, rfl⟩ := Multiset.mem_map.mp hR
    cases r with
    | baton b => exact cell.baton_not_mem_outside b hr
    | _ => cases hbaton
  have hbaton : g.batonRights.countP (fun r => r.isBaton = true) = if g.alive then 1 else 0 := by
    unfold Ghost.batonRights
    cases g.alive with
    | true => rfl
    | false => rfl
  simp only [Multiset.countP_add, idle_rights h.threads hidle, zero_add,
    h.dropped.countP_isBaton, add_zero, houtside, hbaton, countP_isBaton_pending h.pending]
    at hcount
  exact hcount

/-- When every call has returned the program is over, or waits for one answer or for one
    value that is not given yet. -/
theorem World.idle (h : World plan es c 0 g) (hidle : c.Idle) :
    (c.pending = 0 ∧ plan.Final g.baton.trace) ∨
    (∃ handler, c.pending = {handler} ∧ plan.Waits g.baton.trace (.answer handler.1)) ∨
    (∃ t contract, c.pending = 0 ∧ plan.Waits g.baton.trace (.value t contract) ∧
      (c.heap ⟨t, .given contract⟩).state.value = .empty) := by
  have hcount := h.countP_isBaton hidle
  cases halive : g.alive with
  -- the baton has ended
  | false =>
    rw [halive, if_neg (by simp)] at hcount
    exact .inl ⟨Multiset.card_eq_zero.mp (by omega), h.final halive⟩
  -- it is with a handler or in a cell
  | true =>
    rw [halive, if_pos rfl] at hcount
    have hbaton : .baton g.baton ∈ g.outside + g.batonRights := by
      unfold Ghost.batonRights
      rw [halive, if_pos rfl]
      simp
    have hbalance : 0 + g.threads + g.pending + g.inside + g.dropped =
      g.outside + g.batonRights := h.balanced
    rw [← hbalance, idle_rights h.threads hidle, zero_add, zero_add] at hbaton
    obtain hmem | hmem := Multiset.mem_add.mp hbaton
    · obtain hmem | hmem := Multiset.mem_add.mp hmem
      · obtain hkeep | ⟨handler, hhandler, b, hb, hwaits⟩ := mem_pending_rights h.pending hmem
        · exact hkeep.elim
        · cases hb
          obtain ⟨rest, hrest⟩ := Multiset.exists_cons_of_mem hhandler
          rw [hrest, Multiset.card_cons] at hcount
          have hnone : rest = 0 := Multiset.card_eq_zero.mp (by omega)
          exact .inr (.inl ⟨handler, by rw [hrest, hnone]; rfl, hwaits⟩)
      · have hpos : 0 < g.inside.countP (fun r => r.isBaton = true) :=
          Multiset.countP_pos.mpr ⟨_, hmem, rfl⟩
        obtain hkeep | ⟨b, hb, ⟨t, id, post, value, hvalued⟩ | ⟨t, contract, hwaits, hunset⟩⟩ :=
          h.mem_inside hmem
        · exact hkeep.elim
        · exact (h.no_valued hidle hvalued).elim
        · cases hb
          exact .inr (.inr ⟨t, contract, Multiset.card_eq_zero.mp (by omega), hwaits, hunset⟩)
    · exact (h.dropped _ hmem).elim

/-- A thread that has something to do can do it. -/
theorem World.progress {bodies : Bodies S} (h : World plan es c 0 g) (hidle : ¬ c.Idle) :
    ∃ e c', e.Internal ∧ Step bodies c e c' := by
  -- some thread is not done, and its top frame can step
  have hbusy : ∃ stack ∈ c.threads, stack ≠ [] := by
    by_contra hnone
    exact hidle fun stack hmem => by_contra fun hne => hnone ⟨stack, hmem, hne⟩
  obtain ⟨stack, hmem, hne⟩ := hbusy
  obtain ⟨rest, hthread⟩ := Multiset.exists_cons_of_mem hmem
  obtain ⟨_, threads, hstack, hworld⟩ := h.focus hthread
  cases hstack with
  | nil => exact absurd rfl hne
  | unlock reset => exact ⟨.silent, _, trivial, .unlock hthread⟩
  | @code R R' prog stack hsafe =>
    cases hsafe with
    | done | finish => exact ⟨.silent, _, trivial, .done hthread⟩
    | makeContract => exact ⟨.silent, _, trivial, .makeContract hthread⟩
    | @setValue _ R₁ t promise value next post b hR hpost =>
      have hrights : R + R' = R₁ + R' + {.set t promise post} + {.baton b} := by
        rw [hR]
        abel
      rw [hrights] at hworld
      -- the mutex is free, for nobody else has the right
      obtain ⟨hfree, hserved⟩ := hworld.set hpost
      obtain ⟨locked, stack', hcalled⟩ := hserved.exists_called true (.code next :: stack)
      exact ⟨.silent, _, trivial, .setValue hthread hfree hcalled⟩
    | @setCallback _ R₁ K F t future callback next post hR hkeep hfuture hcallback =>
      have hrights : R + R' = R₁ + R' + K + F := by
        rw [hR]
        abel
      rw [hrights] at hworld
      obtain ⟨hfree, hserved⟩ := hworld.setCallback hkeep hfuture hcallback
      obtain ⟨locked, stack', hcalled⟩ := hserved.exists_called false (.code next :: stack)
      exact ⟨.silent, _, trivial, .setCallback hthread hfree hcalled⟩
    | perform => exact ⟨.performed _, _, trivial, .perform hthread⟩
    | register => exact ⟨.silent, _, trivial, .register hthread⟩
    | call => exact ⟨.silent, _, trivial, .call hthread⟩

/-- However the threads take turns, every call returns. -/
theorem World.returns {bodies : Bodies S} (hsound : plan.Sound bodies) (h : World plan es c 0 g) :
    Inevitably (Step bodies) Event.Internal Config.Idle c := by
  refine Inevitably.of_wellFounded wellFounded_lower
    (P := fun m c => ∃ es g, World plan es c 0 g ∧ m = (g.baton.calls, c.items g)) ?_ ?_
    ⟨es, g, h, rfl⟩
  · rintro _ c e c' ⟨es, g, hworld, rfl⟩ he hstep
    obtain ⟨g', hworld', hlower⟩ := hstep.world_internal hsound he hworld
    exact ⟨_, hlower, _, g', hworld', rfl⟩
  · rintro _ c ⟨es, g, hworld, -⟩
    by_cases hidle : c.Idle
    · exact .inl hidle
    · exact .inr (hworld.progress hidle)

/-- No exception comes out of a thread. -/
theorem Step.ne_uncaught {bodies : Bodies S} {c' : Config S} {e : Event S}
    (hstep : Step bodies c e c') (h : World plan es c 0 g) : e ≠ .uncaught := by
  rintro rfl
  cases hstep with
  | uncaught hthread =>
    obtain ⟨_, threads, hstack, -⟩ := h.focus hthread
    cases hstack

end runs

end Webserv.Futures
