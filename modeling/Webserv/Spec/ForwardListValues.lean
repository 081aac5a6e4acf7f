import Mathlib.Logic.Function.Basic
import Mathlib.Tactic.Tauto
import Webserv.Spec.ForwardListCorrect

/-!
# Copies and moves of `forward_list`

A program on any number of objects, against the same program on independent lists.
The copy constructor leaves `_tail` as it is, and what a move leaves behind has no
dummy node.  `Origin` tells these objects from the whole ones, and an operation is
`Safe` if it does not need what its object lacks.

## Key results

- `copyConstruct_chained`: a copy has nodes of its own with the same values
- `Op.exec_safe`, `Op.exec_unsafe`: a safe operation is that of a list, another faults
- `valueSemantics_iff`: the programs that behave as on independent lists
-/

namespace Webserv.ForwardList

open Heap (Addr Ptr Chain Exchanges)

variable {T : Type}

/-! ## Copying the nodes -/

/-- One turn of the loop: the node `s` is copied behind the node `c`. -/
theorem copyLoop_node {h : NodeHeap T} {c s : Addr} {node snode : Node T} {x : T}
    (hcurr : h.lookup c = some node) (hs : h.lookup s = some snode)
    (hvalue : snode.value = some x) (hsc : s ≠ c) : ∃ h',
      (∀ fuel, copyLoop (fuel + 1) (.addr c) (.addr s) h =
        copyLoop fuel (.addr h.size) snode.next h') ∧
      Exchanges h h' [c] [c, h.size] ∧
      ∀ y, h'.lookup y = if y = h.size then some { next := .null, value := some x }
        else if y = c then some { node with next := .addr h.size } else h.lookup y := by
  have hcn : c ≠ h.size := Nat.ne_of_lt (Heap.lt_size_of_lookup hcurr)
  have hsn : s ≠ h.size := Nat.ne_of_lt (Heap.lt_size_of_lookup hs)
  -- the new node is linked before it is constructed
  have hcurr₁ : (h.new {}).lookup c = some node := by rw [Heap.lookup_new, if_neg hcn, hcurr]
  have hset := NodeHeap.setNext_of_lookup hcurr₁ (.addr h.size)
  have hlookup₂ := Heap.lookup_put hcurr₁ { node with next := .addr h.size }
  have hex : Exchanges h (h.new {}) [c] [c, h.size] :=
    ((Heap.exchanges_new h {}).append [c]).congr (fun y => Iff.rfl) fun y => by
      simp [or_comm]
  have hex₂ := Heap.exchanges_put_of_mem hcurr₁ { node with next := .addr h.size }
    (List.mem_cons_self : c ∈ [c, h.size])
  generalize (h.new {}).put c { node with next := .addr h.size } = h₂ at hset hlookup₂ hex₂
  -- the node is raw memory until it is constructed
  have hraw₂ : h₂.lookup h.size = some {} := by
    rw [hlookup₂, if_neg (Ne.symm hcn), Heap.lookup_new, if_pos rfl]
  have hc₂ : h₂.lookup c = some { node with next := .addr h.size } := by rw [hlookup₂, if_pos rfl]
  have hs₂ : h₂.lookup s = some snode := by
    rw [hlookup₂, if_neg hsc, Heap.lookup_new, if_neg hsn, hs]
  have hconstruct : NodeHeap.construct h₂ (.addr h.size) x = .ok _ := Heap.write_of_lookup hraw₂ _
  have hlookup₃ := Heap.lookup_put hraw₂ { next := .null, value := some x }
  have hex₃ := Heap.exchanges_put_of_mem hraw₂ { next := .null, value := some x }
    (by simp : h.size ∈ [c, h.size])
  generalize h₂.put h.size { next := .null, value := some x } = h₃ at hconstruct hlookup₃ hex₃
  have hc₃ : h₃.lookup c = some { node with next := .addr h.size } := by
    rw [hlookup₃, if_neg hcn, hc₂]
  have hs₃ : h₃.lookup s = some snode := by rw [hlookup₃, if_neg hsn, hs₂]
  refine ⟨h₃, fun fuel => ?_, (hex.trans hex₂).trans hex₃, fun y => ?_⟩
  · rw [copyLoop, Heap.Ptr.eq_addr_null, Except.ok_bind, if_neg Bool.false_ne_true]
    simp only [NodeHeap.allocate, hset, Except.ok_bind, NodeHeap.getValue_of_lookup hs₂ hvalue,
      NodeHeap.getNext_of_lookup hc₂, hconstruct, NodeHeap.getNext_of_lookup hs₃,
      NodeHeap.getNext_of_lookup hc₃]
  · -- two cells differ from the old heap
    rw [hlookup₃, hlookup₂]
    split
    · rfl
    · rename_i hy
      rw [Heap.lookup_new, if_neg hy]

/-- The values from `p` on are copied behind the node `c`. -/
theorem copyLoop_chain {h : NodeHeap T} {c : Addr} {node : Node T} {p : Ptr} {src : List Addr}
    {xs : List T} {fuel : ℕ} (hcurr : h.lookup c = some node) (hchain : Chain Node.next h p src)
    (hold : Hold h src xs) (hnot : c ∉ src) (hfuel : src.length < fuel) : ∃ h' new,
      copyLoop fuel (.addr c) p h = .ok h' ∧ Chain Node.next h' (.addr c) (c :: new) ∧
      Hold h' new xs ∧ valueAt h' c = node.value ∧ Exchanges h h' [c] (c :: new) := by
  induction src generalizing h c node p xs fuel with
  | nil =>
    obtain ⟨fuel, rfl⟩ := Nat.exists_eq_succ_of_ne_zero (Nat.ne_of_gt hfuel)
    obtain rfl : p = .null := hchain
    obtain rfl := List.forall₂_nil_left_iff.mp hold
    -- the statement behind the loop ends the chain
    have hlookup : (Heap.put h c { node with next := .null }).lookup c =
        some { node with next := .null } := by
      rw [Heap.lookup_put hcurr, if_pos rfl]
    refine ⟨h.put c { node with next := .null }, [], ?_, ⟨rfl, _, hlookup, rfl⟩, .nil, ?_,
      Heap.exchanges_put hcurr _⟩
    · rw [copyLoop, Heap.Ptr.eq_null_null, Except.ok_bind, if_pos rfl]
      exact NodeHeap.setNext_of_lookup hcurr .null
    · rw [valueAt, hlookup]
      rfl
  | cons s src ih =>
    obtain ⟨fuel, rfl⟩ := Nat.exists_eq_succ_of_ne_zero (Nat.ne_of_gt (Nat.zero_lt_of_lt hfuel))
    obtain ⟨rfl, snode, hs, hrest⟩ := id hchain
    obtain ⟨x, xs, rfl, hvalue, hvalues⟩ := hold.uncons hs
    have hsc : s ≠ c := fun heq => hnot (heq ▸ List.mem_cons_self)
    obtain ⟨h₁, hturn, hex₁, hlookup₁⟩ := copyLoop_node hcurr hs hvalue hsc
    -- the rest of the source is behind neither of the two nodes
    have hfresh : ∀ y ∈ src, y ≠ h.size ∧ y ≠ c := fun y hy => by
      obtain ⟨ynode, hynode⟩ := hrest.lookup hy
      exact ⟨Nat.ne_of_lt (Heap.lt_size_of_lookup hynode),
        fun heq => hnot (heq ▸ List.mem_cons_of_mem s hy)⟩
    have hagree : ∀ y ∈ src, h₁.lookup y = h.lookup y := fun y hy => by
      rw [hlookup₁, if_neg (hfresh y hy).1, if_neg (hfresh y hy).2]
    have hnew : h₁.lookup h.size = some { next := .null, value := some x } := by
      rw [hlookup₁, if_pos rfl]
    obtain ⟨h', new, hloop, hchain', hvalues', hfirst, hex'⟩ := ih hnew (hrest.of_agree hagree)
      (hvalues.of_agree fun y hy => by rw [valueAt, hagree y hy, valueAt])
      (fun hmem => (hfresh _ hmem).1 rfl) (Nat.lt_of_succ_lt_succ hfuel)
    have hcn : c ≠ h.size := Nat.ne_of_lt (Heap.lt_size_of_lookup hcurr)
    -- the later turns are behind the new node and leave `c` as this one made it
    have hc : h'.lookup c = some { node with next := .addr h.size } := by
      rw [hex'.lookup_eq (by simpa using hcn)
        (Nat.lt_of_lt_of_le (Heap.lt_size_of_lookup hcurr) hex₁.size), hlookup₁, if_neg hcn,
        if_pos rfl]
    refine ⟨h', h.size :: new, (hturn fuel).trans hloop, ⟨rfl, _, hc, hchain'⟩,
      .cons hfirst hvalues', ?_, hex₁.trans ((hex'.append [c]).congr (fun y => ?_) fun y => ?_)⟩
    · rw [valueAt, hc]
      rfl
    · simp [or_comm]
    · simp only [List.mem_append, List.mem_cons, List.not_mem_nil, or_false]
      tauto

/-- A copy has nodes of its own with the same values, and no `_tail`. -/
theorem copyConstruct_chained {l : ForwardList} {h : NodeHeap T} {dummy : Addr} {nodes : List Addr}
    {xs : List T} (hl : Chained l h dummy nodes xs) : ∃ l' h' nodes',
      l.copyConstruct h = .ok (l', h') ∧ Chained l' h' h.size nodes' xs ∧ l'.tail = .uninit ∧
      Exchanges h h' [] (h.size :: nodes') := by
  obtain ⟨-, node, hdummy, hrest⟩ := id hl.chain
  have hne : ∀ a ∈ dummy :: nodes, a ≠ h.size := fun a ha => by
    obtain ⟨anode, hanode⟩ := hl.chain.lookup ha
    exact Nat.ne_of_lt (Heap.lt_size_of_lookup hanode)
  have hagree : ∀ a ∈ dummy :: nodes, (h.new {}).lookup a = h.lookup a := fun a ha => by
    rw [Heap.lookup_new, if_neg (hne a ha)]
  have hagree' : ∀ a ∈ nodes, (h.new {}).lookup a = h.lookup a := fun a ha =>
    hagree a (List.mem_cons_of_mem dummy ha)
  have hraw : (h.new {}).lookup h.size = some {} := by rw [Heap.lookup_new, if_pos rfl]
  have hdummy' : (h.new {}).lookup dummy = some node := by
    rw [hagree dummy List.mem_cons_self, hdummy]
  -- the nodes of the source are distinct, so there is fuel for each of them
  have hfuel : nodes.length < (h.new {}).size + 1 := by
    have hlength := hl.chain.length_le
    rw [List.length_cons] at hlength
    rw [Heap.size_new]
    omega
  obtain ⟨h', new, hloop, hchain, hvalues, -, hex⟩ := copyLoop_chain hraw (hrest.of_agree hagree')
    (hl.values.of_agree fun a ha => by rw [valueAt, hagree' a ha, valueAt])
    (fun hmem => hne _ (List.mem_cons_of_mem dummy hmem) rfl) hfuel
  refine ⟨{ head := .addr h.size, tail := .uninit }, h', new, ?_, ⟨rfl, hchain, hvalues⟩, rfl,
    (Heap.exchanges_new h {}).trans hex⟩
  simp only [copyConstruct, copyValues, NodeHeap.allocate, hl.head,
    NodeHeap.getNext_of_lookup hdummy', Except.ok_bind, hloop]
  rfl

/-! ## Independent lists -/

/-- What a program would return on objects that are lists; what was moved from is empty. -/
def Op.apply (op : Op T) (lists : Heap (List T)) : Result T × Heap (List T) :=
  match op with
  | .construct => (.void, lists.new [])
  | .copyConstruct other =>
    match lists.lookup other with
    | none => (.void, lists)
    | some xs => (.void, lists.new xs)
  | .moveConstruct other =>
    match lists.lookup other with
    | none => (.void, lists)
    | some xs => (.void, (lists.put other []).new xs)
  | .pushBack obj v =>
    match lists.lookup obj with
    | none => (.void, lists)
    | some xs => (.void, lists.put obj (xs ++ [v]))
  | .popFront obj =>
    match lists.lookup obj with
    | none => (.void, lists)
    | some xs => (.popped xs.head?, lists.put obj xs.tail)
  | .isEmpty obj =>
    match lists.lookup obj with
    | none => (.void, lists)
    | some xs => (.empty xs.isEmpty, lists)
  | .destruct obj =>
    match lists.lookup obj with
    | none => (.void, lists)
    | some _ => (.void, lists.remove obj)

def applyAll : List (Op T) → Heap (List T) → List (Result T) × Heap (List T)
  | [], lists => ([], lists)
  | op :: ops, lists =>
    let (res, lists) := op.apply lists
    let (ress, lists) := applyAll ops lists
    (res :: ress, lists)

/-- An object has these nodes, which hold these values; one that was moved from may have
    none, not even a dummy node. -/
def Stands (l : ForwardList) (h : NodeHeap T) (nodes : List Addr) (xs : List T) : Prop :=
  (l.head = .null ∧ nodes = [] ∧ xs = []) ∨
    ∃ dummy rest, nodes = dummy :: rest ∧ Chained l h dummy rest xs

/-- Every object is a list on its own: no two share a node, and every node that is of no
    object was freed once. -/
def Independent (w : World T) (lists : Heap (List T)) : Prop :=
  ∃ own : ℕ → List Addr,
    (∀ i, (w.objects.lookup i = none ∧ lists.lookup i = none ∧ own i = []) ∨
      ∃ l xs, w.objects.lookup i = some l ∧ lists.lookup i = some xs ∧
        Stands l w.nodes (own i) xs) ∧
    (∀ i j, i ≠ j → ∀ a ∈ own i, a ∉ own j) ∧
    ∀ a < w.nodes.size, (∀ i, a ∉ own i) → w.nodes.freed.count a = 1

/-- The program runs to its end, returns what it would on lists, and leaves such lists. -/
def ValueSemantics (ops : List (Op T)) : Prop :=
  ∃ w, exec ops {} = .ok ((applyAll ops {}).1, w) ∧ Independent w (applyAll ops {}).2

/-! ## Where an object comes from -/

/-- How an object came to its contents. -/
inductive Origin where
  | built
  /-- By a copy construction, of this object or of one it was moved from. -/
  | copied
  /-- It was moved from, or constructed from such an object. -/
  | moved
deriving DecidableEq

def Op.trace (op : Op T) (origins : Heap Origin) : Heap Origin :=
  match op with
  | .construct => origins.new .built
  | .copyConstruct other =>
    match origins.lookup other with
    | none => origins
    | some _ => origins.new .copied
  | .moveConstruct other =>
    match origins.lookup other with
    | none => origins
    | some o => (origins.put other .moved).new o
  | .destruct obj =>
    match origins.lookup obj with
    | none => origins
    | some _ => origins.remove obj
  | .pushBack _ _ | .popFront _ | .isEmpty _ => origins

/-- The origins of the objects behind a program. -/
def originsOf (ops : List (Op T)) : Heap Origin :=
  ops.foldl (fun origins op => op.trace origins) {}

/-- An operation that needs nothing its object lacks. -/
def Op.Safe (origins : Heap Origin) : Op T → Prop
  | .construct | .moveConstruct _ => True
  | .pushBack obj _ => origins.lookup obj ≠ some .copied ∧ origins.lookup obj ≠ some .moved
  | .popFront obj | .isEmpty obj => origins.lookup obj ≠ some .copied
  | .copyConstruct obj | .destruct obj => origins.lookup obj ≠ some .moved

/-! ## The invariant -/

/-- What is known of an object, its nodes and its values, by its origin. -/
inductive Entry (h : NodeHeap T) (nodes : List Addr) (obj : Option ForwardList)
    (list : Option (List T)) (origin : Option Origin) : Prop where
  | absent (hnodes : nodes = []) (hobj : obj = none) (hlist : list = none)
      (horigin : origin = none)
  | built {l : ForwardList} {dummy : Addr} {rest : List Addr} {xs : List T}
      (hnodes : nodes = dummy :: rest) (hobj : obj = some l) (hlist : list = some xs)
      (horigin : origin = some .built) (hl : Listed l h dummy rest xs)
  | copied {l : ForwardList} {dummy : Addr} {rest : List Addr} {xs : List T}
      (hnodes : nodes = dummy :: rest) (hobj : obj = some l) (hlist : list = some xs)
      (horigin : origin = some .copied) (hl : Chained l h dummy rest xs) (htail : l.tail = .uninit)
  | moved (hnodes : nodes = []) (hobj : obj = some { head := .null, tail := .null })
      (hlist : list = some []) (horigin : origin = some .moved)

section entry
variable {h h' : NodeHeap T} {nodes : List Addr} {obj : Option ForwardList} {list : Option (List T)}
  {origin : Option Origin}

/-- The nodes of an object are there. -/
theorem Entry.lookup (he : Entry h nodes obj list origin) {a : Addr} (ha : a ∈ nodes) :
    ∃ node, h.lookup a = some node := by
  cases he with
  | absent hnodes => simp [hnodes] at ha
  | built hnodes _ _ _ hl => exact hl.chain.lookup (hnodes ▸ ha)
  | copied hnodes _ _ _ hl => exact hl.chain.lookup (hnodes ▸ ha)
  | moved hnodes => simp [hnodes] at ha

/-- An entry depends on its own nodes only. -/
theorem Entry.of_agree (he : Entry h nodes obj list origin)
    (hagree : ∀ a ∈ nodes, h'.lookup a = h.lookup a) : Entry h' nodes obj list origin := by
  cases he with
  | absent hnodes hobj hlist horigin => exact .absent hnodes hobj hlist horigin
  -- a list that can be used has its end as well
  | built hnodes hobj hlist horigin hl =>
    subst hnodes
    exact .built rfl hobj hlist horigin ⟨hl.toChained.of_agree hagree, hl.tail⟩
  | copied hnodes hobj hlist horigin hl htail =>
    subst hnodes
    exact .copied rfl hobj hlist horigin (hl.of_agree hagree) htail
  | moved hnodes hobj hlist horigin => exact .moved hnodes hobj hlist horigin

/-- An object has contents, a list and an origin, or it has none of them. -/
theorem Entry.exists_object (he : Entry h nodes obj list origin) :
    (obj = none ∧ list = none ∧ origin = none) ∨
      ∃ l xs o, obj = some l ∧ list = some xs ∧ origin = some o := by
  cases he with
  | absent _ hobj hlist horigin => exact .inl ⟨hobj, hlist, horigin⟩
  | built _ hobj hlist horigin => exact .inr ⟨_, _, _, hobj, hlist, horigin⟩
  | copied _ hobj hlist horigin => exact .inr ⟨_, _, _, hobj, hlist, horigin⟩
  | moved _ hobj hlist horigin => exact .inr ⟨_, _, _, hobj, hlist, horigin⟩

/-- One that was not moved from has a dummy node, and the others hold its values. -/
theorem Entry.exists_chained (he : Entry h nodes obj list origin) (hmoved : origin ≠ some .moved) :
    (obj = none ∧ list = none ∧ origin = none) ∨
      ∃ l dummy rest xs o, nodes = dummy :: rest ∧ obj = some l ∧ list = some xs ∧
        origin = some o ∧ Chained l h dummy rest xs := by
  cases he with
  | absent _ hobj hlist horigin => exact .inl ⟨hobj, hlist, horigin⟩
  | built hnodes hobj hlist horigin hl =>
    exact .inr ⟨_, _, _, _, _, hnodes, hobj, hlist, horigin, hl.toChained⟩
  -- a copy has no `_tail`, but its chain is whole
  | copied hnodes hobj hlist horigin hl _ =>
    exact .inr ⟨_, _, _, _, _, hnodes, hobj, hlist, horigin, hl⟩
  | moved _ _ _ horigin => exact absurd horigin hmoved

end entry

/-- The objects of a program, with the nodes each of them owns. -/
structure Tracks (w : World T) (lists : Heap (List T)) (origins : Heap Origin)
    (own : ℕ → List Addr) : Prop where
  entry : ∀ i, Entry w.nodes (own i) (w.objects.lookup i) (lists.lookup i) (origins.lookup i)
  size_lists : lists.size = w.objects.size
  size_origins : origins.size = w.objects.size
  apart : ∀ i j, i ≠ j → ∀ a ∈ own i, a ∉ own j
  owned : ∀ a node, w.nodes.lookup a = some node → ∃ i, a ∈ own i

/-- There is no object at first. -/
theorem tracks_init : Tracks (T := T) {} {} {} fun _ => [] where
  entry _ := .absent rfl rfl rfl rfl
  size_lists := rfl
  size_origins := rfl
  apart _ _ _ a ha := by cases ha
  owned a node hnode := by cases hnode

section tracks
variable {w w' : World T} {lists lists' : Heap (List T)} {origins origins' : Heap Origin}
  {own : ℕ → List Addr} {i : ℕ}

/-- An operation that exchanges the nodes of one object leaves the others alone. -/
theorem Tracks.exchange {new : List Addr} (ht : Tracks w lists origins own)
    (hex : Exchanges w.nodes w'.nodes (own i) new)
    (hentry : Entry w'.nodes new (w'.objects.lookup i) (lists'.lookup i) (origins'.lookup i))
    (hothers : ∀ j, j ≠ i → w'.objects.lookup j = w.objects.lookup j ∧
      lists'.lookup j = lists.lookup j ∧ origins'.lookup j = origins.lookup j)
    (hlists : lists'.size = w'.objects.size) (horigins : origins'.size = w'.objects.size) :
    Tracks w' lists' origins' (Function.update own i new) where
  entry j := by
    by_cases hj : j = i
    · subst hj
      rw [Function.update_self]
      exact hentry
    · obtain ⟨hobj, hlist, horigin⟩ := hothers j hj
      rw [Function.update_of_ne hj, hobj, hlist, horigin]
      -- the nodes of the others are as they were
      refine (ht.entry j).of_agree fun a ha => ?_
      obtain ⟨node, hnode⟩ := (ht.entry j).lookup ha
      exact hex.lookup_eq (ht.apart j i hj a ha) (Heap.lt_size_of_lookup hnode)
  size_lists := hlists
  size_origins := horigins
  apart := by
    -- the new nodes are old ones of the object, or in no other object
    have hnew : ∀ j, j ≠ i → ∀ a ∈ new, a ∉ own j := fun j hj a ha hmem => by
      rcases hex.fresh a ha with hold | hle
      · exact ht.apart i j (Ne.symm hj) a hold hmem
      · obtain ⟨node, hnode⟩ := (ht.entry j).lookup hmem
        exact absurd (Heap.lt_size_of_lookup hnode) (Nat.not_lt.mpr hle)
    intro j k hjk a ha hmem
    by_cases hj : j = i
    · subst hj
      rw [Function.update_self] at ha
      rw [Function.update_of_ne (Ne.symm hjk)] at hmem
      exact hnew k (Ne.symm hjk) a ha hmem
    · rw [Function.update_of_ne hj] at ha
      by_cases hk : k = i
      · subst hk
        rw [Function.update_self] at hmem
        exact hnew j hj a hmem ha
      · rw [Function.update_of_ne hk] at hmem
        exact ht.apart j k hjk a ha hmem
  owned a node hnode := by
    by_cases hnew : a ∈ new
    · exact ⟨i, by rwa [Function.update_self]⟩
    · -- a node that is alive and not new was not of this object before
      have hold : a ∉ own i := fun hold => by
        rw [hex.dead a hold hnew] at hnode
        cases hnode
      rw [hex.frame a hold hnew] at hnode
      obtain ⟨j, hj⟩ := ht.owned a node hnode
      have hji : j ≠ i := fun heq => hold (heq ▸ hj)
      exact ⟨j, by rwa [Function.update_of_ne hji]⟩

/-- A number that is not used yet owns nothing. -/
theorem Tracks.own_size (ht : Tracks w lists origins own) : own w.objects.size = [] := by
  have hnone := Heap.lookup_size w.objects
  cases ht.entry w.objects.size with
  | absent hnodes => exact hnodes
  | built _ hobj => cases hnone.symm.trans hobj
  | copied _ hobj => cases hnone.symm.trans hobj
  | moved hnodes => exact hnodes

/-- A new object. -/
theorem Tracks.add {nodes : NodeHeap T} {new : List Addr} {l : ForwardList} {xs : List T}
    {o : Origin} (ht : Tracks w lists origins own) (hex : Exchanges w.nodes nodes [] new)
    (hentry : Entry nodes new (some l) (some xs) (some o)) :
    Tracks { nodes := nodes, objects := w.objects.new l } (lists.new xs) (origins.new o)
      (Function.update own w.objects.size new) := by
  -- the new object has the next number, and no nodes before
  refine ht.exchange (i := w.objects.size) (by rwa [ht.own_size]) ?_ (fun j hj => ?_) ?_ ?_
  · rw [Heap.lookup_new, Heap.lookup_new, Heap.lookup_new, ht.size_lists, ht.size_origins,
      if_pos rfl, if_pos rfl, if_pos rfl]
    exact hentry
  · rw [Heap.lookup_new, Heap.lookup_new, Heap.lookup_new, ht.size_lists, ht.size_origins,
      if_neg hj, if_neg hj, if_neg hj]
    exact ⟨rfl, rfl, rfl⟩
  · rw [Heap.size_new, Heap.size_new, ht.size_lists]
  · rw [Heap.size_new, Heap.size_new, ht.size_origins]

/-- An operation on an object that stays. -/
theorem Tracks.change {nodes : NodeHeap T} {new : List Addr} {l l' : ForwardList} {xs xs' : List T}
    (ht : Tracks w lists origins own) (hobj : w.objects.lookup i = some l)
    (hlist : lists.lookup i = some xs) (hex : Exchanges w.nodes nodes (own i) new)
    (hentry : Entry nodes new (some l') (some xs') (origins.lookup i)) :
    Tracks { nodes := nodes, objects := w.objects.put i l' } (lists.put i xs') origins
      (Function.update own i new) := by
  refine ht.exchange hex ?_ (fun j hj => ⟨?_, ?_, rfl⟩) ?_ ?_
  · rw [Heap.lookup_put hobj, Heap.lookup_put hlist, if_pos rfl, if_pos rfl]
    exact hentry
  · rw [Heap.lookup_put hobj, if_neg hj]
  · rw [Heap.lookup_put hlist, if_neg hj]
  · rw [Heap.size_put, Heap.size_put, ht.size_lists]
  · rw [Heap.size_put, ht.size_origins]

/-- The end of an object. -/
theorem Tracks.drop {nodes : NodeHeap T} {l : ForwardList} {xs : List T} {o : Origin}
    (ht : Tracks w lists origins own) (hobj : w.objects.lookup i = some l)
    (hlist : lists.lookup i = some xs) (horigin : origins.lookup i = some o)
    (hex : Exchanges w.nodes nodes (own i) []) :
    Tracks { nodes := nodes, objects := w.objects.remove i } (lists.remove i) (origins.remove i)
      (Function.update own i []) := by
  refine ht.exchange hex ?_ (fun j hj => ⟨?_, ?_, ?_⟩) ?_ ?_
  · rw [Heap.lookup_remove hobj, Heap.lookup_remove hlist, Heap.lookup_remove horigin, if_pos rfl,
      if_pos rfl, if_pos rfl]
    -- of what is destroyed nothing is left
    exact .absent rfl rfl rfl rfl
  · rw [Heap.lookup_remove hobj, if_neg hj]
  · rw [Heap.lookup_remove hlist, if_neg hj]
  · rw [Heap.lookup_remove horigin, if_neg hj]
  · rw [Heap.size_remove, Heap.size_remove, ht.size_lists]
  · rw [Heap.size_remove, Heap.size_remove, ht.size_origins]

/-- A move hands over the nodes, and the heap of nodes stays as it is. -/
theorem Tracks.transfer {l : ForwardList} {xs : List T} {o : Origin}
    (ht : Tracks w lists origins own) (hobj : w.objects.lookup i = some l)
    (hlist : lists.lookup i = some xs) (horigin : origins.lookup i = some o) :
    Tracks { w with objects := (w.objects.put i { head := .null, tail := .null }).new l }
      ((lists.put i []).new xs) ((origins.put i .moved).new o)
      (Function.update (Function.update own i []) w.objects.size (own i)) := by
  have hne : i ≠ w.objects.size := Nat.ne_of_lt (Heap.lt_size_of_lookup hobj)
  -- a node is of the new object, or of the one it was of, which is not `i`
  have hown : ∀ j a, a ∈ Function.update (Function.update own i []) w.objects.size (own i) j →
      (j = w.objects.size ∧ a ∈ own i) ∨ (j ≠ w.objects.size ∧ j ≠ i ∧ a ∈ own j) := by
    intro j a ha
    by_cases hj : j = w.objects.size
    · subst hj
      rw [Function.update_self] at ha
      exact .inl ⟨rfl, ha⟩
    · rw [Function.update_of_ne hj] at ha
      by_cases hji : j = i
      · subst hji
        rw [Function.update_self] at ha
        cases ha
      · rw [Function.update_of_ne hji] at ha
        exact .inr ⟨hj, hji, ha⟩
  refine ⟨fun j => ?_, ?_, ?_, fun j k hjk a ha hmem => ?_, fun a node hnode => ?_⟩
  · simp only [Heap.lookup_new, Heap.size_put, ht.size_lists, ht.size_origins]
    by_cases hj : j = w.objects.size
    · subst hj
      rw [if_pos rfl, if_pos rfl, if_pos rfl, Function.update_self, ← hobj, ← hlist, ← horigin]
      exact ht.entry i
    · rw [if_neg hj, if_neg hj, if_neg hj, Function.update_of_ne hj, Heap.lookup_put hobj,
        Heap.lookup_put hlist, Heap.lookup_put horigin]
      by_cases hji : j = i
      · rw [if_pos hji, if_pos hji, if_pos hji, hji, Function.update_self]
        exact .moved rfl rfl rfl rfl
      · rw [if_neg hji, if_neg hji, if_neg hji, Function.update_of_ne hji]
        exact ht.entry j
  · rw [Heap.size_new, Heap.size_new, Heap.size_put, Heap.size_put, ht.size_lists]
  · rw [Heap.size_new, Heap.size_new, Heap.size_put, Heap.size_put, ht.size_origins]
  · -- a node with two owners would have had two before
    rcases hown j a ha with ⟨hj, ha⟩ | ⟨-, hji, ha⟩
    · rcases hown k a hmem with ⟨hk, -⟩ | ⟨-, hki, hmem⟩
      · exact hjk (hj.trans hk.symm)
      · exact ht.apart i k (Ne.symm hki) a ha hmem
    · rcases hown k a hmem with ⟨-, hmem⟩ | ⟨-, -, hmem⟩
      · exact ht.apart j i hji a ha hmem
      · exact ht.apart j k hjk a ha hmem
  · -- a node that was of `i` is of the new object
    obtain ⟨j, hj⟩ := ht.owned a node hnode
    by_cases hji : j = i
    · exact ⟨w.objects.size, by rwa [Function.update_self, ← hji]⟩
    · have hjs : j ≠ w.objects.size := by
        rintro rfl
        rw [ht.own_size] at hj
        cases hj
      exact ⟨j, by rwa [Function.update_of_ne hjs, Function.update_of_ne hji]⟩

/-! ## One operation -/

/-- Whether there are nodes is whether there are values. -/
theorem Hold.isEmpty_eq {h : NodeHeap T} {nodes : List Addr} {xs : List T} (hold : Hold h nodes xs) :
    nodes.isEmpty = xs.isEmpty := by
  cases hold <;> rfl

/-- The operation does what it does on lists, and the objects stay tracked. -/
def Op.Matches (op : Op T) (w : World T) (lists : Heap (List T)) (origins : Heap Origin) : Prop :=
  ∃ w' own', op.exec w = .ok ((op.apply lists).1, w') ∧
    Tracks w' (op.apply lists).2 (op.trace origins) own'

/-- A new object is an empty list. -/
theorem Tracks.construct (ht : Tracks w lists origins own) :
    Op.construct.Matches w lists origins := by
  obtain ⟨l, nodes, hconstruct, hl, hex, -⟩ := construct_listed w.nodes
  refine ⟨_, _, ?_, ht.add hex (.built rfl rfl rfl rfl hl)⟩
  rw [Op.exec, hconstruct]
  rfl

/-- A copy has nodes of its own. -/
theorem Tracks.copyConstruct (ht : Tracks w lists origins own)
    (hmoved : origins.lookup i ≠ some .moved) :
    (Op.copyConstruct i).Matches w lists origins := by
  unfold Op.Matches
  simp only [Op.exec, Op.apply, Op.trace]
  obtain ⟨hobj, hlist, horigin⟩ | ⟨l, dummy, rest, xs, o, -, hobj, hlist, horigin, hl⟩ :=
    (ht.entry i).exists_chained hmoved
  · rw [hobj, hlist, horigin]
    exact ⟨w, own, rfl, ht⟩
  · -- the chain of the other object is read, and not touched
    obtain ⟨l', nodes, rest', hcopy, hl', htail, hex⟩ := copyConstruct_chained hl
    rw [hobj, hlist, horigin]
    refine ⟨_, _, ?_, ht.add hex (.copied rfl rfl rfl rfl hl' htail)⟩
    dsimp only
    rw [hcopy]
    rfl

/-- Whatever the object is, both of its pointers go. -/
theorem Tracks.moveConstruct (ht : Tracks w lists origins own) :
    (Op.moveConstruct i).Matches w lists origins := by
  unfold Op.Matches
  simp only [Op.exec, Op.apply, Op.trace]
  obtain ⟨hobj, hlist, horigin⟩ | ⟨l, xs, o, hobj, hlist, horigin⟩ := (ht.entry i).exists_object
  · rw [hobj, hlist, horigin]
    exact ⟨w, own, rfl, ht⟩
  · rw [hobj, hlist, horigin]
    exact ⟨_, _, rfl, ht.transfer hobj hlist horigin⟩

/-- A value is appended to one list. -/
theorem Tracks.pushBack (ht : Tracks w lists origins own) (v : T)
    (hcopied : origins.lookup i ≠ some .copied) (hmoved : origins.lookup i ≠ some .moved) :
    (Op.pushBack i v).Matches w lists origins := by
  unfold Op.Matches
  simp only [Op.exec, Op.apply, Op.trace]
  cases ht.entry i with
  | absent _ hobj hlist _ =>
    rw [hobj, hlist]
    exact ⟨w, own, rfl, ht⟩
  | built hnodes hobj hlist horigin hl =>
    obtain ⟨l', nodes, hpush, hl', hex⟩ := pushBack_listed hl v
    rw [← hnodes] at hex
    rw [hobj, hlist]
    refine ⟨_, _, ?_, ht.change hobj hlist hex (.built ?_ rfl rfl horigin hl')⟩
    · dsimp only
      rw [hpush]
      rfl
    · rw [hnodes, List.cons_append]
  -- these two are what the operation must not meet
  | copied _ _ _ horigin => exact absurd horigin hcopied
  | moved _ _ _ horigin => exact absurd horigin hmoved

/-- A value is taken from one list. -/
theorem Tracks.popFront (ht : Tracks w lists origins own)
    (hcopied : origins.lookup i ≠ some .copied) :
    (Op.popFront i).Matches w lists origins := by
  unfold Op.Matches
  simp only [Op.exec, Op.apply, Op.trace]
  cases ht.entry i with
  | absent _ hobj hlist _ =>
    rw [hobj, hlist]
    exact ⟨w, own, rfl, ht⟩
  | built hnodes hobj hlist horigin hl =>
    obtain ⟨l', nodes, hpop, hl', hex⟩ := popFront_listed hl
    rw [← hnodes] at hex
    rw [hobj, hlist]
    refine ⟨_, _, ?_, ht.change hobj hlist hex (.built rfl rfl rfl horigin hl')⟩
    dsimp only
    rw [hpop]
    rfl
  | copied _ _ _ horigin => exact absurd horigin hcopied
  | moved hnodes hobj hlist horigin =>
    -- both pointers are null, so the list counts as empty
    rw [hobj, hlist]
    exact ⟨_, _, rfl, ht.change hobj hlist (.refl _ _) (.moved hnodes rfl rfl horigin)⟩

/-- The question changes nothing. -/
theorem Tracks.isEmpty (ht : Tracks w lists origins own)
    (hcopied : origins.lookup i ≠ some .copied) :
    (Op.isEmpty i).Matches w lists origins := by
  unfold Op.Matches
  simp only [Op.exec, Op.apply, Op.trace]
  cases ht.entry i with
  | absent _ hobj hlist _ =>
    rw [hobj, hlist]
    exact ⟨w, own, rfl, ht⟩
  | built _ hobj hlist _ hl =>
    rw [hobj, hlist]
    refine ⟨w, own, ?_, ht⟩
    dsimp only
    rw [isEmpty_listed hl, hl.values.isEmpty_eq]
    rfl
  | copied _ _ _ horigin => exact absurd horigin hcopied
  -- the two null pointers are equal, so it is empty
  | moved _ hobj hlist _ =>
    rw [hobj, hlist]
    exact ⟨w, own, rfl, ht⟩

/-- The nodes of a destroyed object are freed. -/
theorem Tracks.destruct (ht : Tracks w lists origins own)
    (hmoved : origins.lookup i ≠ some .moved) :
    (Op.destruct i).Matches w lists origins := by
  unfold Op.Matches
  simp only [Op.exec, Op.apply, Op.trace]
  -- nothing to destroy, or a chain that is freed
  obtain ⟨hobj, hlist, horigin⟩ | ⟨l, dummy, rest, xs, o, hnodes, hobj, hlist, horigin, hl⟩ :=
    (ht.entry i).exists_chained hmoved
  · rw [hobj, hlist, horigin]
    exact ⟨w, own, rfl, ht⟩
  · obtain ⟨nodes, hdelete, hex, -⟩ := deleteValues_chained hl
    rw [← hnodes] at hex
    rw [hobj, hlist, horigin]
    refine ⟨_, _, ?_, ht.drop hobj hlist horigin hex⟩
    dsimp only
    rw [ForwardList.destruct, hdelete]
    rfl

/-- A safe operation is that of a list. -/
theorem Op.exec_safe (ht : Tracks w lists origins own) (op : Op T) (hsafe : op.Safe origins) :
    op.Matches w lists origins := by
  cases op with
  | construct => exact ht.construct
  | copyConstruct obj => exact ht.copyConstruct hsafe
  | moveConstruct obj => exact ht.moveConstruct
  | pushBack obj v => exact ht.pushBack v hsafe.1 hsafe.2
  | popFront obj => exact ht.popFront hsafe
  | isEmpty obj => exact ht.isEmpty hsafe
  | destruct obj => exact ht.destruct hsafe

/-- A copy has no `_tail`. -/
theorem Tracks.of_copied (ht : Tracks w lists origins own)
    (horigin : origins.lookup i = some .copied) :
    ∃ l, w.objects.lookup i = some l ∧ l.tail = .uninit := by
  cases ht.entry i with
  | absent _ _ _ horigin' => cases horigin.symm.trans horigin'
  | built _ _ _ horigin' => cases horigin.symm.trans horigin'
  | copied _ hobj _ _ _ htail => exact ⟨_, hobj, htail⟩
  | moved _ _ _ horigin' => cases horigin.symm.trans horigin'

/-- A list that was moved from has two null pointers. -/
theorem Tracks.of_moved (ht : Tracks w lists origins own)
    (horigin : origins.lookup i = some .moved) :
    w.objects.lookup i = some { head := .null, tail := .null } := by
  cases ht.entry i with
  | absent _ _ _ horigin' => cases horigin.symm.trans horigin'
  | built _ _ _ horigin' => cases horigin.symm.trans horigin'
  | copied _ _ _ horigin' => cases horigin.symm.trans horigin'
  | moved _ hobj _ _ => exact hobj

/-- Any other operation uses a `_tail` that was not initialised or follows a null
    pointer. -/
theorem Op.exec_unsafe (ht : Tracks w lists origins own) (op : Op T) (hnotSafe : ¬ op.Safe origins) :
    ∃ flt, op.exec w = .error flt := by
  cases op with
  | construct => exact absurd trivial hnotSafe
  -- moving is safe from every origin
  | moveConstruct obj => exact absurd trivial hnotSafe
  | copyConstruct obj =>
    rw [exec, ht.of_moved (not_not.mp hnotSafe)]
    exact ⟨.null, rfl⟩
  | pushBack obj v =>
    obtain ⟨nodes, hconstruct, -, -⟩ := NodeHeap.construct_new w.nodes v
    rw [Safe, not_and_or, not_not, not_not] at hnotSafe
    -- the node is there when `_tail` is followed
    obtain horigin | horigin := hnotSafe
    · obtain ⟨l, hobj, htail⟩ := ht.of_copied horigin
      rw [exec, hobj]
      simp only [ForwardList.pushBack, NodeHeap.allocate, hconstruct, Except.ok_bind, htail]
      exact ⟨.uninit, rfl⟩
    · rw [exec, ht.of_moved horigin]
      simp only [ForwardList.pushBack, NodeHeap.allocate, hconstruct, Except.ok_bind]
      exact ⟨.null, rfl⟩
  | popFront obj =>
    obtain ⟨l, hobj, htail⟩ := ht.of_copied (not_not.mp hnotSafe)
    rw [exec, hobj]
    simp only [ForwardList.popFront, ForwardList.isEmpty, htail, Heap.Ptr.eq_uninit]
    exact ⟨.uninit, rfl⟩
  | isEmpty obj =>
    obtain ⟨l, hobj, htail⟩ := ht.of_copied (not_not.mp hnotSafe)
    rw [exec, hobj]
    simp only [ForwardList.isEmpty, htail, Heap.Ptr.eq_uninit]
    exact ⟨.uninit, rfl⟩
  | destruct obj =>
    rw [exec, ht.of_moved (not_not.mp hnotSafe)]
    exact ⟨.null, rfl⟩

/-! ## Programs -/

/-- What the invariant says of a world and its lists. -/
theorem Tracks.independent (ht : Tracks w lists origins own) : Independent w lists := by
  refine ⟨own, fun i => ?_, ht.apart, fun a hlt hnone => ?_⟩
  · cases ht.entry i with
    | absent hnodes hobj hlist _ => exact .inl ⟨hobj, hlist, hnodes⟩
    | built hnodes hobj hlist _ hl =>
      exact .inr ⟨_, _, hobj, hlist, .inr ⟨_, _, hnodes, hl.toChained⟩⟩
    | copied hnodes hobj hlist _ hl _ => exact .inr ⟨_, _, hobj, hlist, .inr ⟨_, _, hnodes, hl⟩⟩
    | moved hnodes hobj hlist _ => exact .inr ⟨_, _, hobj, hlist, .inl ⟨rfl, hnodes, rfl⟩⟩
  · -- a node that is alive has an owner, so one that has none was freed
    cases hlookup : w.nodes.lookup a with
    | none => exact Heap.count_freed hlt hlookup
    | some node =>
      obtain ⟨i, hi⟩ := ht.owned a node hlookup
      exact absurd hi (hnone i)

/-- A program of safe operations runs to its end, and any other one to a fault. -/
theorem exec_iff (ht : Tracks w lists origins own) (ops : List (Op T)) :
    ((∀ pre op post, ops = pre ++ op :: post →
        op.Safe (pre.foldl (fun origins op => op.trace origins) origins)) ∧
      ∃ w', exec ops w = .ok ((applyAll ops lists).1, w') ∧
        Independent w' (applyAll ops lists).2) ∨
    ((∃ pre op post, ops = pre ++ op :: post ∧
        ¬ op.Safe (pre.foldl (fun origins op => op.trace origins) origins)) ∧
      ∃ flt, exec ops w = .error flt) := by
  induction ops generalizing w lists origins own with
  | nil =>
    refine .inl ⟨fun pre op post hsplit => ?_, w, rfl, ht.independent⟩
    simp at hsplit
  | cons op ops ih =>
    by_cases hsafe : op.Safe origins
    · obtain ⟨w₁, own₁, hop, ht₁⟩ := op.exec_safe ht hsafe
      -- the operation is safe, so the rest decides
      obtain ⟨hall, w', hops, hind⟩ | ⟨⟨pre, op', post, hsplit, hnot⟩, flt, hops⟩ := ih ht₁
      · refine .inl ⟨fun pre op' post hsplit => ?_, w', ?_, hind⟩
        · cases pre with
          | nil =>
            obtain ⟨rfl, -⟩ := List.cons.inj hsplit
            exact hsafe
          | cons op₀ pre =>
            obtain ⟨rfl, hrest⟩ := List.cons.inj hsplit
            exact hall pre op' post hrest
        · simp only [exec, hop, hops, Except.ok_bind]
          rfl
      · refine .inr ⟨⟨op :: pre, op', post, congrArg (List.cons op) hsplit, hnot⟩, flt, ?_⟩
        simp only [exec, hop, hops, Except.ok_bind]
        rfl
    · -- the first fault ends the program
      obtain ⟨flt, hop⟩ := op.exec_unsafe ht hsafe
      refine .inr ⟨⟨[], op, ops, rfl, hsafe⟩, flt, ?_⟩
      rw [exec, hop]
      rfl

end tracks

/-- A program behaves as on independent lists exactly when no object with contents from a
    copy is pushed to, popped or asked whether it is empty, and none that was moved from is
    pushed to, copied or destroyed. -/
theorem valueSemantics_iff (ops : List (Op T)) : ValueSemantics ops ↔
    ∀ pre op post, ops = pre ++ op :: post → op.Safe (originsOf pre) := by
  obtain ⟨hsafe, hrun⟩ | ⟨⟨pre, op, post, hsplit, hnotSafe⟩, flt, hrun⟩ := exec_iff tracks_init ops
  · exact iff_of_true hrun hsafe
  · refine iff_of_false ?_ fun hsafe => hnotSafe (hsafe pre op post hsplit)
    rintro ⟨w, hok, -⟩
    cases hrun.symm.trans hok

/-- A copy has no `_tail` to push behind. -/
theorem valueSemantics_false : ¬ ∀ ops : List (Op ℕ), ValueSemantics ops := by
  intro hall
  obtain ⟨w, hok, -⟩ := hall [.construct, .copyConstruct 0, .pushBack 1 7]
  have herror : (exec [.construct, .copyConstruct 0, .pushBack 1 (7 : ℕ)] {}).isOk = false := by
    decide +kernel
  rw [hok] at herror
  cases herror

end Webserv.ForwardList
