import Us2dServer.Lib.Custody
import Mathlib.Logic.Function.Basic
import Mathlib.Data.Multiset.Count
import Mathlib.Data.Multiset.MapFold

/-!
# The block pool `ts_memory_pool`

Seven lock-free stacks, one for each `memory_block<size>`, lend blocks as `shared_ptr<uint8_t>`.
A block is named by its number in the order of allocation, so a name is never used twice; the
type it was allocated as is `heap[b]`.  The pointers on a stack and in a `shared_ptr` are bare
names: that a name on the stack of `memory_block<N>` was allocated with that type is not part of
the representation but a theorem (`Inv.stackType`).

`rentPopped` and `rentFresh` are the two ways in which `rent_block` gets its block.  They are
separate operations because another thread may act between the failed `pop` and the `new`;
`rentBlock` is the function without such an interruption.
-/

namespace Us2d

/-- The instantiations of `memory_block`. -/
inductive BlockType
  | block64 | block128 | block256 | block512 | block1024 | block2048 | block4096
deriving DecidableEq, Repr

/-- `size` of `memory_block<size>`: the bytes in `data`. -/
def BlockType.size : BlockType → Nat
  | .block64 => 64
  | .block128 => 128
  | .block256 => 256
  | .block512 => 512
  | .block1024 => 1024
  | .block2048 => 2048
  | .block4096 => 4096

def KB : Nat := 1024

/-- `system_config::ts_memory_pool`: the number of blocks the constructor allocates. -/
def BlockType.poolCount : BlockType → Nat
  | .block64 => (8 * KB) / 64
  | .block128 => (16 * KB) / 128
  | .block256 => (32 * KB) / 256
  | .block512 => (32 * KB) / 512
  | .block1024 => (16 * KB) / 1024
  | .block2048 => (8 * KB) / 2048
  | .block4096 => (8 * KB) / 4096

/-- A `shared_ptr<uint8_t>`: the stored pointer and the control block it shares. -/
structure SharedPtr where
  ptr : Nat
  ctrl : Nat
deriving DecidableEq, Repr

/-- A control block: the owned pointer, the `&stack` (and so `block_type`) that the deleter
captured, and the use count. -/
structure ControlBlock where
  ptr : Nat
  stack : BlockType
  useCount : Nat
deriving DecidableEq, Repr

structure TsMemoryPool where
  /-- the type of every block ever allocated -/
  heap : List BlockType
  /-- `pool_64b` … `pool_4096b`, top first -/
  pools : BlockType → List Nat
  /-- the control blocks made so far -/
  ctrls : List ControlBlock
  /-- the blocks passed to `delete` -/
  deleted : List Nat

namespace TsMemoryPool

/-! ## Operations -/

/-- The stack that `rent(size)` turns to. -/
def classOf (size : Nat) : Option BlockType :=
  if size ≤ 64 then some .block64
  else if size ≤ 128 then some .block128
  else if size ≤ 256 then some .block256
  else if size ≤ 512 then some .block512
  else if size ≤ 1024 then some .block1024
  else if size ≤ 2048 then some .block2048
  else if size ≤ 4096 then some .block4096
  else none

/-- `new block_type()`. -/
def newBlock (t : BlockType) (p : TsMemoryPool) : Nat × TsMemoryPool :=
  (p.heap.length, { p with heap := p.heap ++ [t] })

/-- The `shared_ptr` constructed from a block and the deleter for the stack of `t`. -/
def share (b : Nat) (t : BlockType) (p : TsMemoryPool) : SharedPtr × TsMemoryPool :=
  (⟨b, p.ctrls.length⟩, { p with ctrls := p.ctrls ++ [⟨b, t, 1⟩] })

/-- `stack.pop(block)` succeeds and the block is wrapped. -/
def rentPopped (t : BlockType) (p : TsMemoryPool) : Option (SharedPtr × TsMemoryPool) :=
  match p.pools t with
  | [] => none
  | b :: rest => some (share b t { p with pools := Function.update p.pools t rest })

/-- `can_allocate_dynamic()` has answered yes: a new block is wrapped. -/
def rentFresh (t : BlockType) (p : TsMemoryPool) : SharedPtr × TsMemoryPool :=
  share (p.newBlock t).1 t (p.newBlock t).2

/-- `rent_block`; `can` is the answer of `can_allocate_dynamic()`. -/
def rentBlock (t : BlockType) (can : Bool) (p : TsMemoryPool) : Option SharedPtr × TsMemoryPool :=
  match p.rentPopped t with
  | some (sp, p') => (some sp, p')
  | none => if can then (some (p.rentFresh t).1, (p.rentFresh t).2) else (none, p)

def rent (size : Nat) (can : Bool) (p : TsMemoryPool) : Option SharedPtr × TsMemoryPool :=
  match classOf size with
  | some t => p.rentBlock t can
  | none => (none, p)

/-- `push(p, stack)`, and `delete p` when it returns false. -/
def giveBack (b : Nat) (t : BlockType) (pushed : Bool) (p : TsMemoryPool) : TsMemoryPool :=
  if pushed then { p with pools := Function.update p.pools t (b :: p.pools t) }
  else { p with deleted := b :: p.deleted }

def setCtrl (g : Nat) (c : ControlBlock) (p : TsMemoryPool) : TsMemoryPool :=
  { p with ctrls := p.ctrls.set g c }

/-- Copy a `shared_ptr`. -/
def copy (sp : SharedPtr) (p : TsMemoryPool) : TsMemoryPool :=
  match p.ctrls[sp.ctrl]? with
  | none => p
  | some c => p.setCtrl sp.ctrl { c with useCount := c.useCount + 1 }

/-- Destroy a `shared_ptr`; the last one runs the deleter, whose `push` answers `pushed`. -/
def drop (sp : SharedPtr) (pushed : Bool) (p : TsMemoryPool) : TsMemoryPool :=
  match p.ctrls[sp.ctrl]? with
  | none => p
  | some c =>
    if c.useCount = 1 then
      (p.setCtrl sp.ctrl { c with useCount := 0 }).giveBack c.ptr c.stack pushed
    else p.setCtrl sp.ctrl { c with useCount := c.useCount - 1 }

/-- `initialize_pool`: `count` times allocate and push, or delete when the push of block `b`
is refused (`pushed b = false`). -/
def initializePool (t : BlockType) (pushed : Nat → Bool) : Nat → TsMemoryPool → TsMemoryPool
  | 0, p => p
  | count + 1, p =>
    initializePool t pushed count ((p.newBlock t).2.giveBack (p.newBlock t).1 t (pushed p.heap.length))

def empty : TsMemoryPool := ⟨[], fun _ => [], [], []⟩

/-- The order in which the constructor fills the stacks and the destructor empties them. -/
def stackOrder : List BlockType :=
  [.block64, .block128, .block256, .block512, .block1024, .block2048, .block4096]

/-- The constructor. -/
def create (pushed : Nat → Bool) : TsMemoryPool :=
  stackOrder.foldl (fun p t => initializePool t pushed t.poolCount p) empty

/-- `while (stack.pop(b)) delete b` for the stack of `t`. -/
def destroyStack (p : TsMemoryPool) (t : BlockType) : TsMemoryPool :=
  { p with pools := Function.update p.pools t [], deleted := (p.pools t).reverse ++ p.deleted }

/-- The destructor. -/
def destroy (p : TsMemoryPool) : TsMemoryPool := stackOrder.foldl destroyStack p

/-- The use count behind a control block number. -/
def useCount (p : TsMemoryPool) (g : Nat) : Nat :=
  match p.ctrls[g]? with
  | none => 0
  | some c => c.useCount

/-! ## Where a block is -/

inductive Place
  | stack (t : BlockType)
  | rental (g : Nat)
  | deleted
deriving DecidableEq, Repr

/-- How often a place holds a block.  The rental group of control block `g` holds its block
while it has a use count. -/
def held (p : TsMemoryPool) : Place → Nat → Nat
  | .stack t, b => (p.pools t).count b
  | .rental g, b =>
    match p.ctrls[g]? with
    | none => 0
    | some c => if 0 < c.useCount ∧ c.ptr = b then 1 else 0
  | .deleted, b => p.deleted.count b

structure Inv (p : TsMemoryPool) : Prop where
  custody : ∀ b, b < p.heap.length → Custody.Exclusive p.held b
  absent : ∀ b, p.heap.length ≤ b → Custody.Absent p.held b
  stackType : ∀ t b, b ∈ p.pools t → p.heap[b]? = some t
  ctrlType : ∀ (g : Nat) (c : ControlBlock), p.ctrls[g]? = some c → p.heap[c.ptr]? = some c.stack

/-- `refs` are the `shared_ptr`s in existence: every use count is the number of them, and each
stores the pointer of its control block. -/
structure Refs (p : TsMemoryPool) (refs : Multiset SharedPtr) : Prop where
  useCount : ∀ g, p.useCount g = (refs.map SharedPtr.ctrl).count g
  ptr : ∀ sp ∈ refs, ∃ c : ControlBlock, p.ctrls[sp.ctrl]? = some c ∧ c.ptr = sp.ptr

end TsMemoryPool

end Us2d
