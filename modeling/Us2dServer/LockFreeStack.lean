import Us2dServer.Lib.Linearization
import Us2dServer.Lib.Chain
import Us2dServer.Lib.Custody

/-!
# `boost::lockfree::stack`, one atomic access after another

The stacks of `ts_memory_pool` are node-based: a node lies on the list under `tos`, on the free
list under `pool_`, or belongs to the thread that is working on it.  Both list heads are words
of a pointer and a 16-bit tag, replaced by `compare_exchange_weak`; a pop moves the tag on, a
push keeps it.

A step of a thread is one access to shared memory, the accesses of all threads being
interleaved in any order.  The loops of the four functions are two:

    takeTop head    load; read the top's link; CAS head to the link    (allocate_impl, consume_one)
    putTop head n   load; write n's link; CAS head to n                (link_nodes_atomic, deallocate_impl)

Nodes are names of any type `Node`, as are the elements.  A node once allocated stays allocated
until the stack is destroyed.  `node::next` and `freelist_node::next` are the same word of it.
-/

namespace Us2d

/-! ## Tagged pointers -/

/-! The 64-bit words of `tagged_ptr`. -/

namespace CompressedPtr

def ptrMask : BitVec 64 := 0xffffffffffff#64

def extractPtr (i : BitVec 64) : BitVec 64 := i &&& ptrMask

/-- `cu.tag[tag_index]`, the highest of the four 16-bit parts. -/
def extractTag (i : BitVec 64) : BitVec 16 := i.extractLsb' 48 16

/-- The pointer's word with its highest 16-bit part overwritten. -/
def packPtr (p : BitVec 64) (tag : BitVec 16) : BitVec 64 :=
  (p &&& ptrMask) ||| (tag.setWidth 64 <<< 48)

theorem getLsbD_ptrMask (i : Nat) : ptrMask.getLsbD i = decide (i < 48) := by
  by_cases hi : i < 64
  · have h : ∀ i : Fin 64, ptrMask.getLsbD i = decide (i.val < 48) := by decide
    exact h ⟨i, hi⟩
  · have h48 : ¬ i < 48 := by omega
    rw [BitVec.getLsbD_of_ge _ _ (by omega), decide_eq_false h48]

theorem extractTag_packPtr (p : BitVec 64) (tag : BitVec 16) : extractTag (packPtr p tag) = tag := by
  apply BitVec.eq_of_getLsbD_eq
  intro i hi
  have hmask : ptrMask.getLsbD (48 + i) = false := by simp [getLsbD_ptrMask]
  have h64 : 48 + i < 64 := by omega
  simp only [extractTag, packPtr, BitVec.getLsbD_extractLsb', BitVec.getLsbD_or, BitVec.getLsbD_and,
    hmask]
  simp [hi, h64]

/-- The upper 16 bits of a canonical user-space address are zero. -/
def Canonical (p : BitVec 64) : Prop := p &&& ptrMask = p

theorem extractPtr_packPtr (p : BitVec 64) (tag : BitVec 16) :
    extractPtr (packPtr p tag) = extractPtr p := by
  apply BitVec.eq_of_getLsbD_eq
  intro i hi
  by_cases h48 : i < 48
  · simp [extractPtr, packPtr, getLsbD_ptrMask, h48]
  · simp [extractPtr, getLsbD_ptrMask, h48]

/-- The compare of a CAS on the words compares pointers and tags. -/
theorem packPtr_inj {p q : BitVec 64} {t u : BitVec 16} (hp : Canonical p) (hq : Canonical q) :
    packPtr p t = packPtr q u ↔ p = q ∧ t = u := by
  constructor
  · intro h
    have hptr := congrArg extractPtr h
    have htag := congrArg extractTag h
    rw [extractPtr_packPtr, extractPtr_packPtr] at hptr
    rw [extractTag_packPtr, extractTag_packPtr] at htag
    exact ⟨hp.symm.trans (hptr.trans hq), htag⟩
  · rintro ⟨rfl, rfl⟩
    rfl

end CompressedPtr

/-- `tagged_ptr<T>`. -/
structure TaggedPtr (Node : Type) where
  ptr : Option Node
  tag : BitVec 16
deriving DecidableEq, Repr

namespace TaggedPtr

variable {Node : Type}

def getNextTag (p : TaggedPtr Node) : BitVec 16 := BitVec.ofNat 16 ((p.tag.toNat + 1) &&& 0xffff)

/-- The word that holds a tagged pointer, `addr` being where the nodes lie. -/
def word (addr : Option Node → BitVec 64) (p : TaggedPtr Node) : BitVec 64 :=
  CompressedPtr.packPtr (addr p.ptr) p.tag

theorem word_inj {addr : Option Node → BitVec 64} (haddr : Function.Injective addr)
    (hcan : ∀ p, CompressedPtr.Canonical (addr p)) {p q : TaggedPtr Node} :
    p.word addr = q.word addr ↔ p = q := by
  unfold word
  rw [CompressedPtr.packPtr_inj (hcan _) (hcan _), haddr.eq_iff]
  constructor
  · rintro ⟨hptr, htag⟩
    cases p
    cases q
    exact congrArg₂ TaggedPtr.mk hptr htag
  · rintro rfl
    exact ⟨rfl, rfl⟩

/-- **The word is the pair.**  Wherever the nodes lie, the word gives back the address and the tag, and a
CAS on words succeeds if and only if the pointer and the tag are the expected ones. -/
theorem word_faithful {addr : Option Node → BitVec 64} (haddr : Function.Injective addr)
    (hcan : ∀ p, CompressedPtr.Canonical (addr p)) :
    (∀ p : TaggedPtr Node, CompressedPtr.extractPtr (p.word addr) = addr p.ptr ∧
      CompressedPtr.extractTag (p.word addr) = p.tag) ∧
    ∀ p q : TaggedPtr Node, p.word addr = q.word addr ↔ p = q := by
  refine ⟨fun p => ⟨?_, ?_⟩, fun p q => word_inj haddr hcan⟩
  · unfold word
    rw [CompressedPtr.extractPtr_packPtr]
    exact hcan p.ptr
  · exact CompressedPtr.extractTag_packPtr _ _

/-- Two nodes of 64 bytes at the top of the user's addresses. -/
def twoNodes : Option Bool → BitVec 64
  | none => 0
  | some false => 0x7fffffffff80#64
  | some true => 0x7fffffffffc0#64

/-- The tag keeps a pointer that has come back from being taken for the old one. -/
theorem word_faithful_two_nodes :
    CompressedPtr.extractPtr (word twoNodes ⟨some true, 7⟩) = 0x7fffffffffc0#64 ∧
      word twoNodes ⟨some true, 7⟩ ≠ word twoNodes ⟨some true, 8⟩ := by
  have haddr : Function.Injective twoNodes := by
    rintro (_ | _ | _) (_ | _ | _) h <;> first | rfl | exact absurd h (by decide)
  have hcan : ∀ p, CompressedPtr.Canonical (twoNodes p) := by
    intro p
    unfold CompressedPtr.Canonical
    rcases p with _ | _ | _ <;> decide
  obtain ⟨hparts, hcas⟩ := word_faithful haddr hcan
  refine ⟨(hparts ⟨some true, 7⟩).1, fun h => ?_⟩
  have htag := congrArg TaggedPtr.tag ((hcas _ _).mp h)
  revert htag
  decide

end TaggedPtr

/-! ## The stack's memory -/

inductive Head
  | tos
  | pool
deriving DecidableEq, Repr

structure LockFreeStack (Node α : Type) where
  /-- the nodes that `Alloc::allocate` has returned -/
  heap : List Node
  /-- the first word of a node -/
  next : Node → Option Node
  /-- `node::v` -/
  v : Node → α
  /-- `tos` and `pool_` -/
  head : Head → TaggedPtr Node

/-- Where a thread is in the loop that takes the top node off a list. -/
inductive Take (Node : Type)
  | start
  | loaded (old : TaggedPtr Node)
  | read (top : Node) (tag : BitVec 16) (next : Option Node)
deriving DecidableEq, Repr

/-- Where a thread is in the loop that puts a node on a list. -/
inductive Put (Node : Type)
  | start
  | loaded (old : TaggedPtr Node)
  | linked (old : TaggedPtr Node)
deriving DecidableEq, Repr

/-- How a step of the first loop ends. -/
inductive Took (Node : Type)
  | again (at' : Take Node)
  | empty
  | node (n : Node)

namespace LockFreeStack

variable {Node α : Type} [DecidableEq Node]

def setNext (n : Node) (w : Option Node) (s : LockFreeStack Node α) : LockFreeStack Node α :=
  { s with next := Function.update s.next n w }

def setV (n : Node) (x : α) (s : LockFreeStack Node α) : LockFreeStack Node α :=
  { s with v := Function.update s.v n x }

def setHead (h : Head) (p : TaggedPtr Node) (s : LockFreeStack Node α) : LockFreeStack Node α :=
  { s with head := Function.update s.head h p }

/-- `Alloc::allocate(1)` returns `n`, and `memset` clears it. -/
def newNode [Inhabited α] (n : Node) (s : LockFreeStack Node α) : LockFreeStack Node α :=
  { s with heap := n :: s.heap, next := Function.update s.next n none,
           v := Function.update s.v n default }

/-- The next access of a thread in the loop that takes the top of a list. -/
def takeTop (h : Head) (s : LockFreeStack Node α) : Take Node → LockFreeStack Node α × Took Node
  | .start => (s, .again (.loaded (s.head h)))
  | .loaded ⟨none, _⟩ => (s, .empty)
  | .loaded ⟨some top, tag⟩ => (s, .again (.read top tag (s.next top)))
  | .read top tag next =>
    if s.head h = ⟨some top, tag⟩ then
      (s.setHead h ⟨next, TaggedPtr.getNextTag ⟨some top, tag⟩⟩, .node top)
    else (s, .again (.loaded (s.head h)))

/-- The next access of a thread in the loop that puts `n` on a list; `none` when `n` is on. -/
def putTop (h : Head) (n : Node) (s : LockFreeStack Node α) :
    Put Node → LockFreeStack Node α × Option (Put Node)
  | .start => (s, some (.loaded (s.head h)))
  | .loaded old => (s.setNext n old.ptr, some (.linked old))
  | .linked old =>
    if s.head h = old then (s.setHead h ⟨some n, old.tag⟩, none)
    else (s, some (.loaded (s.head h)))

/-- `freelist_stack::allocate_impl`, as far as the free list goes. -/
def allocateImpl (s : LockFreeStack Node α) (at' : Take Node) : LockFreeStack Node α × Took Node :=
  s.takeTop .pool at'

/-- The loop of `consume_one`. -/
def consumeOne (s : LockFreeStack Node α) (at' : Take Node) : LockFreeStack Node α × Took Node :=
  s.takeTop .tos at'

/-- `link_nodes_atomic(n, n)`. -/
def linkNodesAtomic (n : Node) (s : LockFreeStack Node α) (at' : Put Node) :
    LockFreeStack Node α × Option (Put Node) :=
  s.putTop .tos n at'

/-- `freelist_stack::deallocate_impl`. -/
def deallocateImpl (n : Node) (s : LockFreeStack Node α) (at' : Put Node) :
    LockFreeStack Node α × Option (Put Node) :=
  s.putTop .pool n at'

/-- `compare_exchange_weak` fails although the head is the expected one, and reloads it. -/
def takeWeak (h : Head) (s : LockFreeStack Node α) : Take Node → Option (Take Node)
  | .read _ _ _ => some (.loaded (s.head h))
  | _ => none

def putWeak (h : Head) (s : LockFreeStack Node α) : Put Node → Option (Put Node)
  | .linked _ => some (.loaded (s.head h))
  | _ => none

/-- `freelist_stack::deallocate_impl_unsafe`. -/
def deallocateImplUnsafe (n : Node) (s : LockFreeStack Node α) : LockFreeStack Node α :=
  (s.setNext n (s.head .pool).ptr).setHead .pool ⟨some n, (s.head .pool).tag⟩

/-- The constructors of the free list, with the nodes the allocator returns, and of the stack. -/
def create [Inhabited α] (nodes : List Node) : LockFreeStack Node α :=
  nodes.foldl (fun s n => (s.newNode n).deallocateImplUnsafe n)
    ⟨[], fun _ => none, fun _ => default, fun _ => ⟨none, 0⟩⟩

end LockFreeStack

/-! ## The threads -/

/-- `push(x)`, or `pop(ret)`. -/
inductive StackOp (α : Type)
  | push (x : α)
  | pop
deriving DecidableEq, Repr

/-- What `push` returns, and what `pop` leaves in `ret` when it returns true. -/
inductive StackRes (α : Type)
  | pushed (ok : Bool)
  | popped (x : Option α)
deriving DecidableEq, Repr

/-- The next access of a thread. -/
inductive Pc (Node α : Type)
  | idle
  /-- `push(x)`: `pool.construct(x)` is in `allocate_impl` -/
  | allocating (x : α) (at' : Take Node)
  /-- `new (n) node(x)` -/
  | constructing (x : α) (n : Node)
  | linking (n : Node) (at' : Put Node)
  /-- `pop`: the loop of `consume_one` -/
  | consuming (at' : Take Node)
  /-- `ret = std::move(n->v)` -/
  | moving (n : Node)
  /-- `pool.destruct(n)`, `ret` being `x` -/
  | deallocating (n : Node) (x : α) (at' : Put Node)
deriving DecidableEq, Repr

structure StackThreads (Node α : Type) where
  stack : LockFreeStack Node α
  pc : Nat → Pc Node α

namespace StackThreads

open AtomicObject

variable {Node α : Type} [DecidableEq Node]

inductive Action (Node α : Type)
  | call (thread : Nat) (op : StackOp α)
  /-- the thread's next access -/
  | next (thread : Nat)
  /-- the thread's next access is a `compare_exchange_weak` that fails spuriously -/
  | weak (thread : Nat)
  /-- the free list was empty and `Alloc::allocate` returns `n` -/
  | allocate (thread : Nat) (n : Node)
deriving DecidableEq, Repr

def goto (s : StackThreads Node α) (thread : Nat) (p : Pc Node α) : StackThreads Node α :=
  { s with pc := Function.update s.pc thread p }

/-- The first step of an operation. -/
def enter : StackOp α → Pc Node α
  | .push x => .allocating x .start
  | .pop => .consuming .start

def next (s : StackThreads Node α) (thread : Nat) :
    Option (StackThreads Node α × List (Observed (StackOp α) (StackRes α))) :=
  match s.pc thread with
  | .idle => none
  | .allocating x at' =>
    match s.stack.allocateImpl at' with
    | (stack, .again at') => some (goto ⟨stack, s.pc⟩ thread (.allocating x at'), [])
    | (_, .empty) => none
    | (stack, .node n) => some (goto ⟨stack, s.pc⟩ thread (.constructing x n), [])
  | .constructing x n => some (goto ⟨s.stack.setV n x, s.pc⟩ thread (.linking n .start), [])
  | .linking n at' =>
    match s.stack.linkNodesAtomic n at' with
    | (stack, some at') => some (goto ⟨stack, s.pc⟩ thread (.linking n at'), [])
    | (stack, none) => some (goto ⟨stack, s.pc⟩ thread .idle, [.returned thread (.pushed true)])
  | .consuming at' =>
    match s.stack.consumeOne at' with
    | (stack, .again at') => some (goto ⟨stack, s.pc⟩ thread (.consuming at'), [])
    | (stack, .empty) => some (goto ⟨stack, s.pc⟩ thread .idle, [.returned thread (.popped none)])
    | (stack, .node n) => some (goto ⟨stack, s.pc⟩ thread (.moving n), [])
  | .moving n => some (s.goto thread (.deallocating n (s.stack.v n) .start), [])
  | .deallocating n x at' =>
    match s.stack.deallocateImpl n at' with
    | (stack, some at') => some (goto ⟨stack, s.pc⟩ thread (.deallocating n x at'), [])
    | (stack, none) =>
      some (goto ⟨stack, s.pc⟩ thread .idle, [.returned thread (.popped (some x))])

def weak (s : StackThreads Node α) (thread : Nat) : Option (StackThreads Node α) :=
  match s.pc thread with
  | .allocating x at' =>
    (s.stack.takeWeak .pool at').map fun at' => s.goto thread (.allocating x at')
  | .linking n at' => (s.stack.putWeak .tos at').map fun at' => s.goto thread (.linking n at')
  | .consuming at' => (s.stack.takeWeak .tos at').map fun at' => s.goto thread (.consuming at')
  | .deallocating n x at' =>
    (s.stack.putWeak .pool at').map fun at' => s.goto thread (.deallocating n x at')
  | _ => none

def act [Inhabited α] (s : StackThreads Node α) :
    Action Node α → Option (StackThreads Node α × List (Observed (StackOp α) (StackRes α)))
  | .call thread op =>
    match s.pc thread with
    | .idle => some (s.goto thread (enter op), [.called thread op])
    | _ => none
  | .next thread => s.next thread
  | .weak thread => (s.weak thread).map fun s => (s, [])
  | .allocate thread n =>
    match s.pc thread with
    | .allocating x (.loaded ⟨none, _⟩) =>
      if n ∈ s.stack.heap then none
      else some (goto ⟨s.stack.newNode n, s.pc⟩ thread (.constructing x n), [])
    | _ => none

def step [Inhabited α] : StackThreads Node α → Action Node α → Option (StackThreads Node α) :=
  Transition.stepOf act

/-- A stack constructed with the nodes that the allocator returns, before any call. -/
def init [Inhabited α] (nodes : List Node) : StackThreads Node α :=
  ⟨LockFreeStack.create nodes, fun _ => .idle⟩

end StackThreads

end Us2d
