import Webserv.ForStd.Heap

/-!
# `forward_list`

The linked list under the queue, on an explicit heap of nodes.  Its constructors,
destructor and members are those of `forward_list.hpp`; a member that a constructor
does not initialise is `.uninit`.

A program is a list of operations on objects, which are numbered in the order of
their construction.
-/

namespace Webserv

open Heap (Addr Ptr)

/-- `_Node`; the value of the dummy node is never constructed. -/
structure ForwardList.Node (T : Type) where
  next : Ptr := .uninit
  value : Option T := none

abbrev NodeHeap (T : Type) := Heap (ForwardList.Node T)

namespace NodeHeap

variable {T : Type}

/-- `traits_t::allocate(_alloc, 1)`: raw memory. -/
def allocate (h : NodeHeap T) : Ptr × NodeHeap T := (.addr h.size, h.new {})

/-- `traits_t::construct(_alloc, p, v)` -/
def construct (h : NodeHeap T) (p : Ptr) (v : T) : Except Heap.Fault (NodeHeap T) :=
  h.write p { next := .null, value := some v }

/-- `p->next` -/
def getNext (h : NodeHeap T) (p : Ptr) : Except Heap.Fault Ptr := do
  let node ← h.read p
  return node.next

/-- `p->next = q` -/
def setNext (h : NodeHeap T) (p q : Ptr) : Except Heap.Fault (NodeHeap T) := do
  let node ← h.read p
  h.write p { node with next := q }

/-- `p->value` -/
def getValue (h : NodeHeap T) (p : Ptr) : Except Heap.Fault T := do
  let node ← h.read p
  match node.value with
  | none => throw .uninit
  | some v => return v

/-- `traits_t::destroy(_alloc, p)` of a node that was constructed. -/
def destroy (h : NodeHeap T) (p : Ptr) : Except Heap.Fault (NodeHeap T) := do
  let _ ← h.getValue p
  let node ← h.read p
  h.write p { node with value := none }

end NodeHeap

/-- The members of a `forward_list`. -/
structure ForwardList where
  head : Ptr
  tail : Ptr

namespace ForwardList

variable {T : Type}

/-- The loop of `_delete_values`. -/
def deleteLoop : (fuel : ℕ) → (curr : Ptr) → NodeHeap T → Except Heap.Fault (NodeHeap T)
  | 0, _, _ => .error .endless
  | fuel + 1, curr, h => do
    if ← curr.eq .null then
      return h
    else
      -- the pointer is read before its node is freed
      let next ← h.getNext curr
      let h ← h.destroy curr
      let h ← h.free curr
      deleteLoop fuel next h

/-- `_delete_values`.  No list has more nodes than were ever allocated. -/
def deleteValues (l : ForwardList) (h : NodeHeap T) : Except Heap.Fault (NodeHeap T) := do
  let curr ← h.getNext l.head
  let h ← deleteLoop (h.size + 1) curr h
  -- only dummy node must be deallocated
  h.free l.head

/-- The loop of `_copy_values`, and the statement behind it. -/
def copyLoop : (fuel : ℕ) → (curr otherCurr : Ptr) → NodeHeap T →
    Except Heap.Fault (NodeHeap T)
  | 0, _, _, _ => .error .endless
  | fuel + 1, curr, otherCurr, h => do
    if ← otherCurr.eq .null then
      -- for an empty list: the new dummy node has no `next` yet
      h.setNext curr .null
    else
      let (node, h) := h.allocate
      let h ← h.setNext curr node
      let v ← h.getValue otherCurr
      let h ← h.construct (← h.getNext curr) v
      let otherCurr ← h.getNext otherCurr
      let curr ← h.getNext curr
      copyLoop fuel curr otherCurr h

/-- `_copy_values`: the new `_head`. -/
def copyValues (other : ForwardList) (h : NodeHeap T) : Except Heap.Fault (Ptr × NodeHeap T) := do
  let (dummy, h) := h.allocate
  let otherCurr ← h.getNext other.head
  let h ← copyLoop (h.size + 1) dummy otherCurr h
  return (dummy, h)

/-- `forward_list()` -/
def construct (h : NodeHeap T) : Except Heap.Fault (ForwardList × NodeHeap T) := do
  let (dummy, h) := h.allocate
  let h ← h.setNext dummy .null
  return ({ head := dummy, tail := dummy }, h)

/-- `forward_list(const forward_list &)`: `_tail` is not initialised. -/
def copyConstruct (other : ForwardList) (h : NodeHeap T) :
    Except Heap.Fault (ForwardList × NodeHeap T) := do
  let (head, h) ← copyValues other h
  -- the source leaves the member as it is
  return ({ head := head, tail := .uninit }, h)

/-- `forward_list(forward_list &&)`: the new object and `other`. -/
def moveConstruct (other : ForwardList) : ForwardList × ForwardList :=
  -- the object that was moved from is left without its dummy node
  ({ head := other.head, tail := other.tail }, { head := .null, tail := .null })

/-- `~forward_list()` -/
def destruct (l : ForwardList) (h : NodeHeap T) : Except Heap.Fault (NodeHeap T) :=
  l.deleteValues h

def pushBack (l : ForwardList) (v : T) (h : NodeHeap T) :
    Except Heap.Fault (ForwardList × NodeHeap T) := do
  let (node, h) := h.allocate
  let h ← h.construct node v
  -- through `_tail`, whatever it holds
  let h ← h.setNext l.tail node
  return ({ l with tail := node }, h)

def isEmpty (l : ForwardList) : Except Heap.Fault Bool := l.head.eq l.tail

def popFront (l : ForwardList) (h : NodeHeap T) :
    Except Heap.Fault (Option T × ForwardList × NodeHeap T) := do
  if ← l.isEmpty then
    return (none, l, h)
  -- the first node is behind the dummy node
  let node ← h.getNext l.head
  let h ← h.setNext l.head (← h.getNext node)
  -- the last value goes, and the dummy node is the end again
  let l := if ← (← h.getNext node).eq .null then { l with tail := l.head } else l
  let res ← h.getValue node
  let h ← h.destroy node
  let h ← h.free node
  return (some res, l, h)

/-! ## Programs -/

/-- An operation; objects are named by their numbers. -/
inductive Op (T : Type) where
  | construct
  | copyConstruct (other : ℕ)
  | moveConstruct (other : ℕ)
  | pushBack (obj : ℕ) (v : T)
  | popFront (obj : ℕ)
  | isEmpty (obj : ℕ)
  | destruct (obj : ℕ)
deriving DecidableEq

/-- What an operation returns. -/
inductive Result (T : Type) where
  | void
  | popped (res : Option T)
  | empty (res : Bool)
deriving DecidableEq

/-- The nodes and the objects. -/
structure World (T : Type) where
  nodes : NodeHeap T := {}
  objects : Heap ForwardList := {}

/-- An operation on an object that does not exist is none. -/
def Op.exec (op : Op T) (w : World T) : Except Heap.Fault (Result T × World T) :=
  match op with
  | .construct => do
    let (l, nodes) ← ForwardList.construct w.nodes
    return (.void, { nodes := nodes, objects := w.objects.new l })
  | .copyConstruct other =>
    match w.objects.lookup other with
    | none => return (.void, w)
    | some l => do
      let (l', nodes) ← l.copyConstruct w.nodes
      return (.void, { nodes := nodes, objects := w.objects.new l' })
  | .moveConstruct other =>
    match w.objects.lookup other with
    | none => return (.void, w)
    | some l =>
      let (l', l) := l.moveConstruct
      return (.void, { w with objects := (w.objects.put other l).new l' })
  | .pushBack obj v =>
    match w.objects.lookup obj with
    | none => return (.void, w)
    | some l => do
      let (l, nodes) ← l.pushBack v w.nodes
      return (.void, { nodes := nodes, objects := w.objects.put obj l })
  | .popFront obj =>
    match w.objects.lookup obj with
    | none => return (.void, w)
    | some l => do
      let (res, l, nodes) ← l.popFront w.nodes
      return (.popped res, { nodes := nodes, objects := w.objects.put obj l })
  | .isEmpty obj =>
    match w.objects.lookup obj with
    | none => return (.void, w)
    | some l => do
      let res ← l.isEmpty
      return (.empty res, w)
  | .destruct obj =>
    match w.objects.lookup obj with
    | none => return (.void, w)
    | some l => do
      let nodes ← l.destruct w.nodes
      return (.void, { nodes := nodes, objects := w.objects.remove obj })

/-- The operations one after the other, up to the first fault. -/
def exec : List (Op T) → World T → Except Heap.Fault (List (Result T) × World T)
  | [], w => .ok ([], w)
  | op :: ops, w => do
    let (res, w) ← op.exec w
    let (ress, w) ← exec ops w
    return (res :: ress, w)

end ForwardList

end Webserv
