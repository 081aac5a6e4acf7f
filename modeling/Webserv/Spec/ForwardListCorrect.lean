import Webserv.ForStd.Except
import Webserv.Native.ForwardList

/-!
# The linked queue is a list

`Chained` says which nodes an object has and what they hold, and `Listed` adds that
`_tail` is the last of them, the dummy node if there is no other.  Every member keeps
this, and what it does to the heap is an exchange of the object's own nodes.

## Key results

- `pushBack_listed`, `popFront_listed`, `isEmpty_listed`: the members of a whole object
- `deleteValues_chained`: the destructor frees the nodes, whatever `_tail` is
- `queue_refines_list`: all calls on a new object
-/

namespace Webserv

open Heap (Addr Ptr Chain Exchanges)

variable {T : Type}

/-! ## Accesses of a node -/

namespace NodeHeap

variable {h : NodeHeap T} {a : Addr} {node : ForwardList.Node T} {v : T}

/-- A node that is there can be read. -/
theorem getNext_of_lookup (hlive : h.lookup a = some node) :
    h.getNext (.addr a) = .ok node.next := by
  rw [getNext, Heap.read_of_lookup hlive]
  rfl

/-- It can be linked. -/
theorem setNext_of_lookup (hlive : h.lookup a = some node) (q : Ptr) :
    h.setNext (.addr a) q = .ok (h.put a { node with next := q }) := by
  rw [setNext, Heap.read_of_lookup hlive]
  exact Heap.write_of_lookup hlive _

/-- Its value can be read while it has one. -/
theorem getValue_of_lookup (hlive : h.lookup a = some node) (hvalue : node.value = some v) :
    h.getValue (.addr a) = .ok v := by
  rw [getValue, Heap.read_of_lookup hlive, Except.ok_bind, hvalue]
  rfl

/-- It can be destroyed while it has a value. -/
theorem destroy_of_lookup (hlive : h.lookup a = some node) (hvalue : node.value = some v) :
    h.destroy (.addr a) = .ok (h.put a { node with value := none }) := by
  rw [destroy, getValue_of_lookup hlive hvalue, Heap.read_of_lookup hlive]
  exact Heap.write_of_lookup hlive _

/-- A node that is destroyed and deallocated. -/
theorem exchanges_destroy_free (hlive : h.lookup a = some node) (hvalue : node.value = some v) :
    ∃ h', (do let h ← h.destroy (.addr a); h.free (.addr a)) = .ok h' ∧ Exchanges h h' [a] [] ∧
      h'.size = h.size := by
  have hlive' : (h.put a { node with value := none }).lookup a = some { node with value := none } := by
    rw [Heap.lookup_put hlive, if_pos rfl]
  refine ⟨(h.put a { node with value := none }).remove a, ?_, ?_, ?_⟩
  · rw [destroy_of_lookup hlive hvalue]
    exact Heap.free_of_lookup hlive'
  · exact (Heap.exchanges_put hlive _).trans (Heap.exchanges_remove hlive')
  · rw [Heap.size_remove, Heap.size_put]

/-- A node that is allocated and constructed. -/
theorem construct_new (h : NodeHeap T) (v : T) : ∃ h',
    construct (h.new {}) (.addr h.size) v = .ok h' ∧ Exchanges h h' [] [h.size] ∧
      ∀ x, h'.lookup x =
        if x = h.size then some { next := .null, value := some v } else h.lookup x := by
  have hraw : (h.new {}).lookup h.size = some {} := by rw [Heap.lookup_new, if_pos rfl]
  refine ⟨_, Heap.write_of_lookup hraw _, ?_, fun x => ?_⟩
  · exact (Heap.exchanges_new h {}).trans (Heap.exchanges_put hraw _)
  · rw [Heap.lookup_put hraw, Heap.lookup_new]
    split <;> rfl

end NodeHeap

namespace ForwardList

/-! ## What an object stands for -/

/-- The value in a node. -/
def valueAt (h : NodeHeap T) (a : Addr) : Option T := (h.lookup a).bind Node.value

/-- The nodes hold these values. -/
def Hold (h : NodeHeap T) (nodes : List Addr) (xs : List T) : Prop :=
  List.Forall₂ (fun a x => valueAt h a = some x) nodes xs

/-- The values depend on the nodes only. -/
theorem Hold.of_agree {h h' : NodeHeap T} {nodes : List Addr} {xs : List T} (hold : Hold h nodes xs)
    (hagree : ∀ a ∈ nodes, valueAt h' a = valueAt h a) : Hold h' nodes xs := by
  induction hold with
  | nil => exact .nil
  | @cons a x nodes xs hax _ ih =>
    refine .cons ?_ (ih fun b hb => hagree b (List.mem_cons_of_mem a hb))
    rw [hagree a List.mem_cons_self]
    exact hax

/-- The value of the first node, and the others. -/
theorem Hold.uncons {h : NodeHeap T} {a : Addr} {node : Node T} {nodes : List Addr} {xs : List T}
    (hold : Hold h (a :: nodes) xs) (hnode : h.lookup a = some node) :
    ∃ x xs', xs = x :: xs' ∧ node.value = some x ∧ Hold h nodes xs' := by
  obtain ⟨x, xs', hvalue, hrest, rfl⟩ := List.forall₂_cons_left_iff.mp hold
  rw [valueAt, hnode] at hvalue
  exact ⟨x, xs', rfl, hvalue, hrest⟩

/-- The dummy node and the nodes behind it, with the values `xs`. -/
structure Chained (l : ForwardList) (h : NodeHeap T) (dummy : Addr) (nodes : List Addr)
    (xs : List T) : Prop where
  head : l.head = .addr dummy
  chain : Chain Node.next h (.addr dummy) (dummy :: nodes)
  values : Hold h nodes xs

/-- `_tail` is the last node. -/
structure Listed (l : ForwardList) (h : NodeHeap T) (dummy : Addr) (nodes : List Addr)
    (xs : List T) : Prop extends Chained l h dummy nodes xs where
  tail : l.tail = .addr ((dummy :: nodes).getLast (List.cons_ne_nil _ _))

/-- Other objects play no part. -/
theorem Chained.of_agree {l : ForwardList} {h h' : NodeHeap T} {dummy : Addr} {nodes : List Addr}
    {xs : List T} (hl : Chained l h dummy nodes xs)
    (hagree : ∀ a ∈ dummy :: nodes, h'.lookup a = h.lookup a) : Chained l h' dummy nodes xs where
  head := hl.head
  chain := hl.chain.of_agree hagree
  values := hl.values.of_agree fun a ha => by
    rw [valueAt, hagree a (List.mem_cons_of_mem dummy ha), valueAt]

/-! ## The destructor -/

/-- The loop of the destructor frees every node of the chain. -/
theorem deleteLoop_chain {h : NodeHeap T} {p : Ptr} {nodes : List Addr} {xs : List T} {fuel : ℕ}
    (hchain : Chain Node.next h p nodes) (hold : Hold h nodes xs) (hfuel : nodes.length < fuel) :
    ∃ h', deleteLoop fuel p h = .ok h' ∧ Exchanges h h' nodes [] ∧ h'.size = h.size := by
  induction nodes generalizing h p xs fuel with
  | nil =>
    obtain ⟨fuel, rfl⟩ := Nat.exists_eq_succ_of_ne_zero (Nat.ne_of_gt hfuel)
    obtain rfl : p = .null := hchain
    exact ⟨h, rfl, .refl h [], rfl⟩
  | cons a nodes ih =>
    obtain ⟨fuel, rfl⟩ := Nat.exists_eq_succ_of_ne_zero (Nat.ne_of_gt (Nat.zero_lt_of_lt hfuel))
    have hnodup := hchain.nodup
    obtain ⟨rfl, node, hnode, hrest⟩ := hchain
    obtain ⟨x, xs, rfl, hvalue, holdrest⟩ := hold.uncons hnode
    -- the first node goes, and the others are as they were
    obtain ⟨h₁, hfree, hex, hsize⟩ := NodeHeap.exchanges_destroy_free hnode hvalue
    have hagree : ∀ b ∈ nodes, h₁.lookup b = h.lookup b := fun b hb =>
      hex.frame b (fun heq => (List.nodup_cons.mp hnodup).1 (List.mem_singleton.mp heq ▸ hb))
        List.not_mem_nil
    have hvalues : ∀ b ∈ nodes, valueAt h₁ b = valueAt h b := fun b hb => by
      rw [valueAt, hagree b hb, valueAt]
    obtain ⟨h', hloop, hex', hsize'⟩ := ih (hrest.of_agree hagree) (holdrest.of_agree hvalues)
      (Nat.lt_of_succ_lt_succ hfuel)
    refine ⟨h', ?_, ?_, hsize'.trans hsize⟩
    · rw [deleteLoop, Heap.Ptr.eq_addr_null, NodeHeap.getNext_of_lookup hnode]
      show (do let h ← h.destroy (.addr a); let h ← h.free (.addr a); deleteLoop fuel node.next h) = _
      rw [← bind_assoc, hfree]
      exact hloop
    · exact (hex.append nodes).trans hex'

/-- `_delete_values` follows the list from `_head` on, and `_tail` plays no part. -/
theorem deleteValues_chained {l : ForwardList} {h : NodeHeap T} {dummy : Addr} {nodes : List Addr}
    {xs : List T} (hl : Chained l h dummy nodes xs) : ∃ h', l.deleteValues h = .ok h' ∧
      Exchanges h h' (dummy :: nodes) [] ∧ h'.size = h.size := by
  have hlength := hl.chain.length_le
  have hnodup := hl.chain.nodup
  obtain ⟨-, node, hnode, hrest⟩ := hl.chain
  have hfuel : nodes.length < h.size + 1 := Nat.lt_succ_of_lt hlength
  obtain ⟨h₁, hloop, hex, hsize⟩ := deleteLoop_chain hrest hl.values hfuel
  -- the dummy node is still there, and is freed last
  have hdummy : h₁.lookup dummy = some node := by
    rw [hex.frame dummy (List.nodup_cons.mp hnodup).1 List.not_mem_nil]
    exact hnode
  refine ⟨h₁.remove dummy, ?_, ?_, Heap.size_remove.trans hsize⟩
  · rw [deleteValues, hl.head, NodeHeap.getNext_of_lookup hnode]
    show (do let h ← deleteLoop (h.size + 1) node.next h; h.free (.addr dummy)) = _
    rw [hloop]
    exact Heap.free_of_lookup hdummy
  · have hboth := (hex.append [dummy]).trans (Heap.exchanges_remove hdummy)
    exact hboth.congr (fun x => by simp [or_comm]) fun x => Iff.rfl

/-! ## Construction -/

/-- A new object is the empty list. -/
theorem construct_listed (h : NodeHeap T) : ∃ l h', construct h = .ok (l, h') ∧
    Listed l h' h.size [] [] ∧ Exchanges h h' [] [h.size] ∧ h'.size = h.size + 1 := by
  have hnew : (h.new {}).lookup h.size = some {} := by rw [Heap.lookup_new, if_pos rfl]
  refine ⟨{ head := .addr h.size, tail := .addr h.size }, (h.new {}).put h.size { next := .null },
    ?_, ⟨⟨rfl, ?_, .nil⟩, rfl⟩, ?_, ?_⟩
  · simp only [construct, NodeHeap.allocate, NodeHeap.setNext_of_lookup hnew]
    rfl
  · refine ⟨rfl, { next := .null }, ?_, rfl⟩
    rw [Heap.lookup_put hnew, if_pos rfl]
  · exact (Heap.exchanges_new h {}).trans (Heap.exchanges_put hnew _)
  · rw [Heap.size_put, Heap.size_new]

/-! ## The members -/

/-- Whether there are nodes can be told from the two pointers. -/
theorem isEmpty_listed {l : ForwardList} {h : NodeHeap T} {dummy : Addr} {nodes : List Addr}
    {xs : List T} (hl : Listed l h dummy nodes xs) : l.isEmpty = .ok nodes.isEmpty := by
  rw [isEmpty, hl.head, hl.tail, Heap.Ptr.eq_addr_addr]
  cases nodes with
  | nil => simp
  | cons a nodes =>
    -- the last node is not the dummy node
    have hlast : dummy ≠ (dummy :: a :: nodes).getLast (List.cons_ne_nil _ _) := by
      rw [List.getLast_cons (List.cons_ne_nil _ _)]
      intro heq
      refine (List.nodup_cons.mp hl.chain.nodup).1 ?_
      rw [heq]
      exact List.getLast_mem _
    rw [decide_eq_false hlast, List.isEmpty_cons]

/-- The dummy node or the last node links the new one. -/
theorem pushBack_listed {l : ForwardList} {h : NodeHeap T} {dummy : Addr} {nodes : List Addr}
    {xs : List T} (hl : Listed l h dummy nodes xs) (v : T) : ∃ l' h',
      l.pushBack v h = .ok (l', h') ∧ Listed l' h' dummy (nodes ++ [h.size]) (xs ++ [v]) ∧
      Exchanges h h' (dummy :: nodes) (dummy :: nodes ++ [h.size]) := by
  -- `_tail` is the last node, or the dummy one
  obtain ⟨pre, last, hsplit⟩ : ∃ pre last, dummy :: nodes = pre ++ [last] :=
    ⟨_, _, (List.dropLast_append_getLast (List.cons_ne_nil _ _)).symm⟩
  have htail : l.tail = .addr last := by simp [hl.tail, hsplit]
  obtain ⟨node, hlast⟩ := hl.chain.lookup (a := last) (by simp [hsplit])
  have hne : last ≠ h.size := Nat.ne_of_lt (Heap.lt_size_of_lookup hlast)
  obtain ⟨h₁, hconstruct, hex₁, hlookup₁⟩ := NodeHeap.construct_new h v
  have hlast₁ : h₁.lookup last = some node := by rw [hlookup₁, if_neg hne, hlast]
  have hset := NodeHeap.setNext_of_lookup hlast₁ (.addr h.size)
  have hlookup := Heap.lookup_put hlast₁ { node with next := .addr h.size }
  have hmem : last ∈ dummy :: nodes ++ [h.size] := by simp [hsplit]
  have hex₂ := Heap.exchanges_put_of_mem hlast₁ { node with next := .addr h.size } hmem
  generalize h₁.put last { node with next := .addr h.size } = h₂ at hset hlookup hex₂
  -- the new node is behind all that was there
  have hnew : h₂.lookup h.size = some { next := .null, value := some v } := by
    rw [hlookup, if_neg (Ne.symm hne), hlookup₁, if_pos rfl]
  refine ⟨{ l with tail := .addr h.size }, h₂, ?_, ⟨⟨hl.head, ?_, ?_⟩, ?_⟩, ?_⟩
  · simp only [pushBack, NodeHeap.allocate, hconstruct, htail]
    show (do let h ← NodeHeap.setNext h₁ (.addr last) (.addr h.size); _) = _
    rw [hset]
    rfl
  · have hchain := hl.chain
    rw [hsplit] at hchain
    have hnodup := hchain.nodup
    rw [← List.cons_append, hsplit, List.append_assoc]
    refine hchain.append_of_agree (fun x hx => ?_) (by rw [hlookup, if_pos rfl])
      ⟨rfl, _, hnew, rfl⟩
    have hx' : x ≠ last := by
      rintro rfl
      exact (List.nodup_append.mp hnodup).2.2 x hx x (by simp) rfl
    obtain ⟨node', hnode'⟩ := hchain.lookup (List.mem_append_left _ hx)
    rw [hlookup, if_neg hx', hlookup₁, if_neg (Nat.ne_of_lt (Heap.lt_size_of_lookup hnode'))]
  · refine List.rel_append (hl.values.of_agree fun x hx => ?_) ?_
    · -- the last node keeps its value
      obtain ⟨node', hnode'⟩ := hl.chain.lookup (List.mem_cons_of_mem dummy hx)
      have hx' : x ≠ h.size := Nat.ne_of_lt (Heap.lt_size_of_lookup hnode')
      rw [valueAt, valueAt, hlookup, hlookup₁, if_neg hx']
      split
      · rename_i heq
        rw [heq, hlast]
        rfl
      · rfl
    · exact .cons (by rw [valueAt, hnew]; rfl) .nil
  · simp
  · have hgrow : Exchanges h h₁ (dummy :: nodes) (dummy :: nodes ++ [h.size]) :=
      (hex₁.append (dummy :: nodes)).congr (fun x => Iff.rfl) fun x => by
        simp only [List.mem_append, or_comm]
    exact hgrow.trans hex₂

/-- The first value goes, and `_tail` is the dummy node again if it was the only one. -/
theorem popFront_listed {l : ForwardList} {h : NodeHeap T} {dummy : Addr} {nodes : List Addr}
    {xs : List T} (hl : Listed l h dummy nodes xs) : ∃ l' h',
      l.popFront h = .ok (xs.head?, l', h') ∧ Listed l' h' dummy nodes.tail xs.tail ∧
      Exchanges h h' (dummy :: nodes) (dummy :: nodes.tail) := by
  have hempty := isEmpty_listed hl
  have hnodup := hl.chain.nodup
  cases nodes with
  | nil =>
    obtain rfl := List.forall₂_nil_left_iff.mp hl.values
    refine ⟨l, h, ?_, hl, .refl h _⟩
    rw [popFront, hempty]
    rfl
  | cons a nodes =>
    obtain ⟨-, node, hdummy, hnext, node', hnode, hrest⟩ := hl.chain
    obtain ⟨x, xs, rfl, hvalue, hvalues⟩ := hl.values.uncons hnode
    have hne : a ≠ dummy := fun heq => (List.nodup_cons.mp hnodup).1 (heq ▸ List.mem_cons_self)
    -- the dummy node is linked past the first one, which is then freed
    have hset := NodeHeap.setNext_of_lookup hdummy node'.next
    have hlookup := Heap.lookup_put hdummy { node with next := node'.next }
    have hex₁ := Heap.exchanges_put_of_mem hdummy { node with next := node'.next }
      (List.mem_cons_self : dummy ∈ dummy :: a :: nodes)
    generalize Heap.put h dummy { node with next := node'.next } = h₁ at hset hlookup hex₁
    have hnode₁ : h₁.lookup a = some node' := by rw [hlookup, if_neg hne, hnode]
    obtain ⟨h₂, hfree, hex₂, -⟩ := NodeHeap.exchanges_destroy_free hnode₁ hvalue
    -- behind the first node nothing is touched
    have hagree : ∀ b ∈ nodes, h₂.lookup b = h.lookup b := fun b hb => by
      rw [List.nodup_cons, List.nodup_cons] at hnodup
      have hba : b ∉ [a] := fun heq => hnodup.2.1 (List.mem_singleton.mp heq ▸ hb)
      have hbdummy : b ≠ dummy := fun heq => hnodup.1 (heq ▸ List.mem_cons_of_mem a hb)
      rw [hex₂.frame b hba List.not_mem_nil, hlookup, if_neg hbdummy]
    have hdummy₂ : h₂.lookup dummy = some { node with next := node'.next } := by
      rw [hex₂.frame dummy (by simpa using Ne.symm hne) List.not_mem_nil, hlookup, if_pos rfl]
    -- whether the list is empty now decides about `_tail`
    have hnull : node'.next.eq .null = .ok nodes.isEmpty := by
      cases nodes with
      | nil => rw [show node'.next = .null from hrest, Heap.Ptr.eq_null_null, List.isEmpty_nil]
      | cons b nodes => rw [hrest.1, Heap.Ptr.eq_addr_null, List.isEmpty_cons]
    refine ⟨if nodes.isEmpty then { l with tail := l.head } else l, h₂, ?_,
      ⟨⟨?_, ⟨rfl, _, hdummy₂, hrest.of_agree hagree⟩, ?_⟩, ?_⟩, ?_⟩
    · have hgetNext₁ := NodeHeap.getNext_of_lookup hnode₁
      simp only [popFront, hempty, hl.head, NodeHeap.getNext_of_lookup hdummy, hnext,
        Except.ok_bind, NodeHeap.getNext_of_lookup hnode, hset, hgetNext₁, hnull,
        NodeHeap.getValue_of_lookup hnode₁ hvalue]
      rw [List.isEmpty_cons, if_neg Bool.false_ne_true, ← bind_assoc, hfree]
      rfl
    · split <;> exact hl.head
    · exact hvalues.of_agree fun b hb => by rw [valueAt, hagree b hb, valueAt]
    · cases nodes with
      | nil => exact hl.head
      | cons b nodes => simp [hl.tail]
    · exact hex₁.trans ((hex₂.append (dummy :: nodes)).congr
        (fun x => by simp [or_left_comm]) fun x => Iff.rfl)

/-! ## All calls on a new object -/

/-- A call on a queue. -/
inductive Call (T : Type) where
  | pushBack (v : T)
  | popFront

def Call.exec (call : Call T) (l : ForwardList) (h : NodeHeap T) :
    Except Heap.Fault (Result T × ForwardList × NodeHeap T) :=
  match call with
  | .pushBack v => do
    let (l, h) ← l.pushBack v h
    return (.void, l, h)
  | .popFront => do
    let (res, l, h) ← l.popFront h
    return (.popped res, l, h)

def execCalls : List (Call T) → ForwardList → NodeHeap T →
    Except Heap.Fault (List (Result T) × ForwardList × NodeHeap T)
  | [], l, h => .ok ([], l, h)
  | call :: calls, l, h => do
    let (res, l, h) ← call.exec l h
    let (ress, l, h) ← execCalls calls l h
    return (res :: ress, l, h)

/-- What the call does to a list. -/
def Call.apply : Call T → List T → Result T × List T
  | .pushBack v, xs => (.void, xs ++ [v])
  | .popFront, xs => (.popped xs.head?, xs.tail)

def applyCalls : List (Call T) → List T → List (Result T) × List T
  | [], xs => ([], xs)
  | call :: calls, xs =>
    let (res, xs) := call.apply xs
    let (ress, xs) := applyCalls calls xs
    (res :: ress, xs)

section calls
variable {l : ForwardList} {h : NodeHeap T} {dummy : Addr} {nodes : List Addr} {xs : List T}

/-- A call does to the nodes what it does to the list. -/
theorem exec_listed (hl : Listed l h dummy nodes xs) (call : Call T) : ∃ l' h' nodes',
    call.exec l h = .ok ((call.apply xs).1, l', h') ∧ Listed l' h' dummy nodes' (call.apply xs).2 ∧
      Exchanges h h' (dummy :: nodes) (dummy :: nodes') := by
  -- a new node at the end, or a node less at the front
  cases call with
  | pushBack v =>
    obtain ⟨l', h', hpush, hl', hex⟩ := pushBack_listed hl v
    refine ⟨l', h', _, ?_, hl', hex⟩
    rw [Call.exec, hpush]
    rfl
  | popFront =>
    obtain ⟨l', h', hpop, hl', hex⟩ := popFront_listed hl
    refine ⟨l', h', _, ?_, hl', hex⟩
    rw [Call.exec, hpop]
    rfl

/-- So does any sequence of calls. -/
theorem execCalls_listed (hl : Listed l h dummy nodes xs) (calls : List (Call T)) :
    ∃ l' h' nodes', execCalls calls l h = .ok ((applyCalls calls xs).1, l', h') ∧
      Listed l' h' dummy nodes' (applyCalls calls xs).2 ∧
      Exchanges h h' (dummy :: nodes) (dummy :: nodes') := by
  induction calls generalizing l h nodes xs with
  | nil => exact ⟨l, h, nodes, rfl, hl, .refl h _⟩
  | cons call calls ih =>
    -- the first call, then the others on the list it leaves
    obtain ⟨l₁, h₁, nodes₁, hcall, hl₁, hex₁⟩ := exec_listed hl call
    obtain ⟨l', h', nodes', hcalls, hl', hex⟩ := ih hl₁
    refine ⟨l', h', nodes', ?_, hl', hex₁.trans hex⟩
    rw [execCalls, hcall, Except.ok_bind]
    dsimp only
    rw [hcalls]
    rfl

end calls

/-- On a new object the calls do what they do to a list.  The nodes behind the dummy node
    are the list, `_tail` is the last of them, and every other node was freed once; the
    destructor frees those that are left. -/
theorem queue_refines_list (h₀ : NodeHeap T) (calls : List (Call T)) : ∃ l₀ h₁ l h nodes,
    construct h₀ = .ok (l₀, h₁) ∧ execCalls calls l₀ h₁ = .ok ((applyCalls calls []).1, l, h) ∧
      Listed l h h₀.size nodes (applyCalls calls []).2 ∧ (h₀.size :: nodes).Nodup ∧
      l.isEmpty = .ok nodes.isEmpty ∧
      (∀ a ∈ h₀.size :: nodes, a ∉ h.freed) ∧
      (∀ a, h₀.size ≤ a → a < h.size → a ∉ h₀.size :: nodes → h.freed.count a = 1) ∧
      ∃ h', l.destruct h = .ok h' ∧ h'.size = h.size ∧
        (∀ a, h₀.size ≤ a → a < h'.size → h'.freed.count a = 1) ∧
        ∀ a < h₀.size, h'.lookup a = h₀.lookup a := by
  obtain ⟨l₀, h₁, hconstruct, hl₀, hex₀, -⟩ := construct_listed h₀
  obtain ⟨l, h, nodes, hcalls, hl, hex⟩ := execCalls_listed hl₀ calls
  obtain ⟨h', hdelete, hex', hsize⟩ := deleteValues_chained hl.toChained
  -- the three exchanges in a row give what was freed in all
  have hall := (hex₀.trans hex).trans hex'
  refine ⟨l₀, h₁, l, h, nodes, hconstruct, hcalls, hl, hl.chain.nodup, isEmpty_listed hl,
    fun a ha => ?_, fun a ha hlt hnot => (hex₀.trans hex).count_freed ha hlt hnot, h', hdelete,
    hsize, fun a ha hlt => hall.count_freed ha hlt List.not_mem_nil,
    fun a ha => hall.lookup_eq List.not_mem_nil ha⟩
  obtain ⟨node, hnode⟩ := hl.chain.lookup ha
  exact Heap.not_mem_freed hnode

end ForwardList

end Webserv
