import Us2dServer.Lib.Linearization
import Mathlib.Algebra.Group.Nat.Defs
import Mathlib.Tactic.Common

/-!
# The sub-queues of `ConcurrentQueue`, access by access

Each thread that enqueues has an `ImplicitProducer` of its own; any thread dequeues from any
producer.  The elements stand in blocks of 32, which the producers take from a common pool and
the last consumer of a block returns.  A consumer does not lock: it draws a ticket
(`dequeueOptimisticCount`), and takes the next index (`headIndex`) if its ticket, less the
tickets that are known to have failed (`dequeueOvercommit`), is below `tailIndex`.

    enqueue      loadTail … construct, storeTail
    dequeue      readTail, readOvercommit, readOptimistic, addOptimistic, rereadTail,
                 addHead, loadEntry, moveElement, setEmpty, clearEntry, giveBlock

`none` is undefined behaviour: an index without a block, a slot without an element, a block that
has been destroyed.

Two parts are atomic here.  The block index is a map from the first index of a block to the block:
looking a block up is one step (`loadEntry`), and so is inserting an entry, which may fail.  The
pool is a bag: taking a block from it, which may be a new one or none, is one step, and so is giving
one back.  `BlockIndex` has the index access by access, and `BlockIndexLaw` that it refines the map.
-/

namespace Us2d

open Transition AtomicObject

/-- `index_t` -/
abbrev Index := BitVec 64

def BLOCK_SIZE : Nat := 32

/-- `details::circular_less_than<index_t>` -/
def circularLessThan (a b : Index) : Bool := 1#64 <<< 63 < a - b

/-- `index & ~static_cast<index_t>(BLOCK_SIZE - 1)` -/
def blockBase (index : Index) : Index := index &&& ~~~(BitVec.ofNat 64 (BLOCK_SIZE - 1))

/-- `index & static_cast<index_t>(BLOCK_SIZE - 1)` -/
def blockOffset (index : Index) : Index := index &&& BitVec.ofNat 64 (BLOCK_SIZE - 1)

structure Block (α : Type) where
  /-- by offset; `none` is raw memory -/
  elements : Index → Option α
  elementsCompletelyDequeued : Nat

/-- `(*block)[index]` is constructed or destroyed. -/
def Block.set {α : Type} (B : Block α) (index : Index) (e : Option α) : Block α :=
  { B with elements := Function.update B.elements (blockOffset index) e }

structure ImplicitProducer where
  tailIndex : Index
  headIndex : Index
  dequeueOptimisticCount : Index
  dequeueOvercommit : Index
  tailBlock : Option Nat
  /-- the value of the block index entry with a key -/
  blockIndex : Index → Option Nat

/-- Blocks are named by number in the order of creation. -/
structure ConcurrentQueue (α : Type) where
  producers : Nat → ImplicitProducer
  blocks : Nat → Block α
  /-- the blocks of the initial pool that have not been handed out, and those returned -/
  freeList : List Nat
  initialBlockPoolSize : Nat
  created : Nat
  destroyed : List Nat

inductive QueueOp (α : Type)
  | enqueue (element : α)
  | dequeue (producer : Nat)
deriving DecidableEq, Repr

inductive QueueRes (α : Type)
  | enqueued (ok : Bool)
  | dequeued (element : Option α)
deriving DecidableEq, Repr

/-- The access that a thread is about to make, with the local variables it needs later. -/
inductive QueuePc (α : Type)
  | idle
  | loadTail (element : α)
  | loadHead (element : α) (currentTailIndex : Index)
  | insertEntry (element : α) (currentTailIndex : Index)
  | requisition (element : α) (currentTailIndex : Index)
  | resetEmpty (element : α) (currentTailIndex : Index) (newBlock : Nat)
  | storeEntry (element : α) (currentTailIndex : Index) (newBlock : Nat)
  | construct (element : α) (currentTailIndex : Index)
  | storeTail (element : α) (currentTailIndex : Index)
  | readTail (producer : Nat)
  | readOvercommit (producer : Nat) (tail : Index)
  | readOptimistic (producer : Nat) (tail overcommit : Index)
  | addOptimistic (producer : Nat) (overcommit : Index)
  | rereadTail (producer : Nat) (overcommit myDequeueCount : Index)
  | addHead (producer : Nat) (myDequeueCount : Index)
  | addOvercommit (producer : Nat) (myDequeueCount : Index)
  | loadEntry (producer : Nat) (index : Index)
  | moveElement (producer : Nat) (index : Index) (block : Nat)
  | setEmpty (producer : Nat) (index : Index) (block : Nat) (element : α)
  | clearEntry (producer : Nat) (index : Index) (block : Nat) (element : α)
  | giveBlock (block : Nat) (element : α)
deriving DecidableEq, Repr

namespace ConcurrentQueue

variable {α : Type}

def setProducer (q : ConcurrentQueue α) (p : Nat) (P : ImplicitProducer) : ConcurrentQueue α :=
  { q with producers := Function.update q.producers p P }

def setBlock (q : ConcurrentQueue α) (b : Nat) (B : Block α) : ConcurrentQueue α :=
  { q with blocks := Function.update q.blocks b B }

/-- What a pointer to a block leads to. -/
def deref (q : ConcurrentQueue α) (b : Nat) : Option (Block α) :=
  if b ∈ q.destroyed then none else some (q.blocks b)

/-- `requisition_block`: a block of the pool, a new one, or `nullptr`. -/
def requisitionBlock (q : ConcurrentQueue α) : Option Nat → Option (ConcurrentQueue α)
  | none => some q
  | some b =>
    if b ∈ q.freeList then some { q with freeList := q.freeList.erase b }
    else if b = q.created then some { q with created := q.created + 1 }
    else none

/-- `add_block_to_free_list`; `RECYCLE_ALLOCATED_BLOCKS` is false. -/
def addBlockToFreeList (q : ConcurrentQueue α) (b : Nat) : ConcurrentQueue α :=
  if q.initialBlockPoolSize ≤ b then { q with destroyed := b :: q.destroyed }
  else { q with freeList := b :: q.freeList }

/-- One access of a thread. -/
def access (q : ConcurrentQueue α) (thread : Nat) :
    QueuePc α → Option (ConcurrentQueue α × (QueuePc α ⊕ QueueRes α))
  | .loadTail x =>
    let currentTailIndex := (q.producers thread).tailIndex
    some (q, .inl (if blockOffset currentTailIndex = 0 then .loadHead x currentTailIndex
      else .construct x currentTailIndex))
  | .loadHead x currentTailIndex =>
    if circularLessThan (q.producers thread).headIndex (currentTailIndex + BitVec.ofNat 64 BLOCK_SIZE)
    then some (q, .inl (.insertEntry x currentTailIndex))
    else some (q, .inr (.enqueued false))
  | .resetEmpty x currentTailIndex b =>
    (q.deref b).map fun B =>
      (q.setBlock b { B with elementsCompletelyDequeued := 0 }, .inl (.storeEntry x currentTailIndex b))
  | .storeEntry x currentTailIndex b =>
    let P := q.producers thread
    some (q.setProducer thread
      { P with blockIndex := Function.update P.blockIndex currentTailIndex (some b), tailBlock := some b },
      .inl (.construct x currentTailIndex))
  | .construct x currentTailIndex =>
    (q.producers thread).tailBlock.bind fun b => (q.deref b).map fun B =>
      (q.setBlock b (B.set currentTailIndex (some x)), .inl (.storeTail x currentTailIndex))
  | .storeTail _ currentTailIndex =>
    some (q.setProducer thread { q.producers thread with tailIndex := 1 + currentTailIndex },
      .inr (.enqueued true))
  | .readTail p => some (q, .inl (.readOvercommit p (q.producers p).tailIndex))
  | .readOvercommit p tail => some (q, .inl (.readOptimistic p tail (q.producers p).dequeueOvercommit))
  | .readOptimistic p tail overcommit =>
    if circularLessThan ((q.producers p).dequeueOptimisticCount - overcommit) tail then
      some (q, .inl (.addOptimistic p overcommit))
    else some (q, .inr (.dequeued none))
  | .addOptimistic p overcommit =>
    let P := q.producers p
    some (q.setProducer p { P with dequeueOptimisticCount := P.dequeueOptimisticCount + 1 },
      .inl (.rereadTail p overcommit P.dequeueOptimisticCount))
  | .rereadTail p overcommit myDequeueCount =>
    some (q, .inl (if circularLessThan (myDequeueCount - overcommit) (q.producers p).tailIndex
      then .addHead p myDequeueCount else .addOvercommit p myDequeueCount))
  | .addHead p _ =>
    let P := q.producers p
    some (q.setProducer p { P with headIndex := P.headIndex + 1 }, .inl (.loadEntry p P.headIndex))
  | .addOvercommit p _ =>
    let P := q.producers p
    some (q.setProducer p { P with dequeueOvercommit := P.dequeueOvercommit + 1 }, .inr (.dequeued none))
  | .loadEntry p index =>
    ((q.producers p).blockIndex (blockBase index)).map fun b => (q, .inl (.moveElement p index b))
  | .moveElement p index b =>
    (q.deref b).bind fun B => (B.elements (blockOffset index)).map fun x =>
      (q.setBlock b (B.set index none), .inl (.setEmpty p index b x))
  | .setEmpty p index b x =>
    (q.deref b).map fun B =>
      (q.setBlock b { B with elementsCompletelyDequeued := B.elementsCompletelyDequeued + 1 },
        if B.elementsCompletelyDequeued = BLOCK_SIZE - 1 then .inl (.clearEntry p index b x)
        else .inr (.dequeued (some x)))
  | .clearEntry p index b x =>
    let P := q.producers p
    some (q.setProducer p { P with blockIndex := Function.update P.blockIndex (blockBase index) none },
      .inl (.giveBlock b x))
  | .giveBlock b x => some (q.addBlockToFreeList b, .inr (.dequeued (some x)))
  | _ => none

end ConcurrentQueue

/-- The queue and the threads that use it. -/
structure QueueThreads (α : Type) where
  queue : ConcurrentQueue α
  pc : Nat → QueuePc α

namespace QueueThreads

variable {α : Type}

inductive Action (α : Type)
  | call (thread : Nat) (op : QueueOp α)
  | next (thread : Nat)
  /-- `insert_block_index_entry`, with its answer -/
  | insert (thread : Nat) (ok : Bool)
  /-- `requisition_block`, with its answer -/
  | requisition (thread : Nat) (newBlock : Option Nat)
deriving DecidableEq, Repr

def Action.thread : Action α → Nat
  | .call thread _ => thread
  | .next thread => thread
  | .insert thread _ => thread
  | .requisition thread _ => thread

def start : QueueOp α → QueuePc α
  | .enqueue x => .loadTail x
  | .dequeue p => .readTail p

/-- Thread `thread` comes to the next access, or returns. -/
def goto (s : QueueThreads α) (thread : Nat) (q : ConcurrentQueue α) :
    QueuePc α ⊕ QueueRes α → QueueThreads α × List (Observed (QueueOp α) (QueueRes α))
  | .inl p => (⟨q, Function.update s.pc thread p⟩, [])
  | .inr r => (⟨q, Function.update s.pc thread .idle⟩, [.returned thread r])

def act (s : QueueThreads α) :
    Action α → Option (QueueThreads α × List (Observed (QueueOp α) (QueueRes α)))
  | .call thread op =>
    match s.pc thread with
    | .idle => some (⟨s.queue, Function.update s.pc thread (start op)⟩, [.called thread op])
    | _ => none
  | .next thread => (s.queue.access thread (s.pc thread)).map fun r => s.goto thread r.1 r.2
  | .insert thread ok =>
    match s.pc thread with
    | .insertEntry x currentTailIndex =>
      if ok then some (s.goto thread s.queue (.inl (.requisition x currentTailIndex)))
      else some (s.goto thread s.queue (.inr (.enqueued false)))
    | _ => none
  | .requisition thread newBlock =>
    match s.pc thread with
    | .requisition x currentTailIndex =>
      (s.queue.requisitionBlock newBlock).map fun q =>
        match newBlock with
        | some b => s.goto thread q (.inl (.resetEmpty x currentTailIndex b))
        | none =>
          let P := q.producers thread
          s.goto thread (q.setProducer thread
            { P with blockIndex := Function.update P.blockIndex currentTailIndex none })
            (.inr (.enqueued false))
    | _ => none

/-- A new producer. -/
def newProducer : ImplicitProducer := ⟨0, 0, 0, 0, none, fun _ => none⟩

/-- The constructor, with an initial pool of `n` blocks. -/
def init (n : Nat) : QueueThreads α where
  queue := {
    producers := fun _ => newProducer
    blocks := fun _ => ⟨fun _ => none, 0⟩
    freeList := List.range n
    initialBlockPoolSize := n
    created := n
    destroyed := [] }
  pc := fun _ => .idle

end QueueThreads

end Us2d
