import Us2dServer.ConcurrentQueue

/-!
# The block index of an implicit producer, access by access

`ConcurrentQueue` has a map for the block index.  In the source it is a ring of pointers to entries,
with the start of a block for key and the block for value.  Only the producer's own thread inserts: it
stores the key in the entry after the tail and moves the tail on.  If that entry is still in use it
makes a ring of twice the size, which begins with the entries of the old one.  A consumer reads the
ring, its tail and the key there, and counts the blocks back to its own.

    enqueue      … insertEntry, checkValue, growIndex, storeKey, storeIndexTail, requisition,
                 resetEmpty, storeEntry …, or rewindTail, clearFailed
    dequeue      … loadIndex, loadIndexTail, loadTailKey, loadEntry, moveElement …

Loads of what only the loading thread stores (`blockIndex`, `tail` and the keys, by the producer) are
not accesses of their own.  An assertion of these functions is checked with the access before it; where
it fails the access is undefined, `none`.  The pool of the blocks is atomic here too.
-/

namespace Us2d

open Transition AtomicObject

def INVALID_BLOCK_BASE : Index := 1

def IMPLICIT_INITIAL_INDEX_SIZE : Nat := 32

structure BlockIndexEntry where
  key : Index
  value : Option Nat

structure BlockIndexHeader where
  capacity : Nat
  tail : Nat
  /-- entries, by number -/
  index : Nat → Nat

/-- The headers and the entries of a producer, by number in the order of creation. -/
structure BlockIndex where
  nextBlockIndexCapacity : Nat
  blockIndex : Option Nat
  headers : Nat → BlockIndexHeader
  headerCount : Nat
  entries : Nat → BlockIndexEntry
  entryCount : Nat

/-- `i & (capacity - 1)`, `i` being a `size_t`. -/
def BlockIndexHeader.mask (h : BlockIndexHeader) (i : Nat) : Nat := i % 2 ^ 64 &&& (h.capacity - 1)

namespace BlockIndex

def setEntry (ix : BlockIndex) (e : Nat) (entry : BlockIndexEntry) : BlockIndex :=
  { ix with entries := Function.update ix.entries e entry }

def setTail (ix : BlockIndex) (h tail : Nat) : BlockIndex :=
  { ix with headers := Function.update ix.headers h { ix.headers h with tail := tail } }

/-- `new_block_index` when it gets memory.  The constructor of an atomic pointer stores `nullptr`. -/
def newBlockIndex (ix : BlockIndex) : BlockIndex :=
  let prevCapacity := match ix.blockIndex with
    | none => 0
    | some prev => (ix.headers prev).capacity
  let entryCount := match ix.blockIndex with
    | none => ix.nextBlockIndexCapacity
    | some _ => prevCapacity
  -- the entries of the old ring, from the one after its tail
  let copied : Nat → Nat := match ix.blockIndex with
    | none => fun _ => 0
    | some prev => fun i => (ix.headers prev).index ((ix.headers prev).mask ((ix.headers prev).tail + 1 + i))
  let header : BlockIndexHeader := {
    capacity := ix.nextBlockIndexCapacity
    tail := (prevCapacity + (2 ^ 64 - 1)) % 2 ^ 64 &&& (ix.nextBlockIndexCapacity - 1)
    index := fun i => if i < prevCapacity then copied i else ix.entryCount + (i - prevCapacity) }
  { nextBlockIndexCapacity := (ix.nextBlockIndexCapacity <<< 1) % 2 ^ 64
    blockIndex := some ix.headerCount
    headers := Function.update ix.headers ix.headerCount header
    headerCount := ix.headerCount + 1
    entries := fun e =>
      if ix.entryCount ≤ e ∧ e < ix.entryCount + entryCount then ⟨INVALID_BLOCK_BASE, none⟩ else ix.entries e
    entryCount := ix.entryCount + entryCount }

/-- Before `new_block_index()` in the constructor. -/
def empty : BlockIndex where
  nextBlockIndexCapacity := IMPLICIT_INITIAL_INDEX_SIZE
  blockIndex := none
  headers := fun _ => ⟨0, 0, fun _ => 0⟩
  headerCount := 0
  entries := fun _ => ⟨INVALID_BLOCK_BASE, none⟩
  entryCount := 0

/-- How far the block of `index` is from the block that begins at `tailBase`; both differences are
signed. -/
def offset (index tailBase : Index) : Nat :=
  (BitVec.ofInt 64 ((blockBase index - tailBase).toInt.tdiv BLOCK_SIZE)).toNat

end BlockIndex

structure IndexedProducer where
  tailIndex : Index
  headIndex : Index
  dequeueOptimisticCount : Index
  dequeueOvercommit : Index
  tailBlock : Option Nat
  index : BlockIndex

/-- `ConcurrentQueue` with the block indexes of the source. -/
structure IndexedQueue (α : Type) where
  producers : Nat → IndexedProducer
  blocks : Nat → Block α
  freeList : List Nat
  initialBlockPoolSize : Nat
  created : Nat
  destroyed : List Nat

/-- As `QueuePc`; `entry` is `idxEntry` or the `entry` of `dequeue`, `newTail`, `header` and `tail` are
local variables of the functions on the index. -/
inductive IndexedPc (α : Type)
  | idle
  | loadTail (element : α)
  | loadHead (element : α) (currentTailIndex : Index)
  | insertEntry (element : α) (currentTailIndex : Index)
  | checkValue (element : α) (currentTailIndex : Index) (newTail entry : Nat)
  | growIndex (element : α) (currentTailIndex : Index)
  | storeKey (element : α) (currentTailIndex : Index) (newTail entry : Nat)
  | storeIndexTail (element : α) (currentTailIndex : Index) (newTail entry : Nat)
  | requisition (element : α) (currentTailIndex : Index) (entry : Nat)
  | rewindTail (element : α) (currentTailIndex : Index) (entry : Nat)
  | clearFailed (element : α) (currentTailIndex : Index) (entry : Nat)
  | resetEmpty (element : α) (currentTailIndex : Index) (newBlock entry : Nat)
  | storeEntry (element : α) (currentTailIndex : Index) (newBlock entry : Nat)
  | construct (element : α) (currentTailIndex : Index)
  | storeTail (element : α) (currentTailIndex : Index)
  | readTail (producer : Nat)
  | readOvercommit (producer : Nat) (tail : Index)
  | readOptimistic (producer : Nat) (tail overcommit : Index)
  | addOptimistic (producer : Nat) (overcommit : Index)
  | rereadTail (producer : Nat) (overcommit myDequeueCount : Index)
  | addHead (producer : Nat) (myDequeueCount : Index)
  | addOvercommit (producer : Nat) (myDequeueCount : Index)
  | loadIndex (producer : Nat) (index : Index)
  | loadIndexTail (producer : Nat) (index : Index) (header : Nat)
  | loadTailKey (producer : Nat) (index : Index) (header tail : Nat)
  | loadEntry (producer : Nat) (index : Index) (header idx : Nat)
  | moveElement (producer : Nat) (index : Index) (block entry : Nat)
  | setEmpty (producer : Nat) (index : Index) (block entry : Nat) (element : α)
  | clearEntry (producer : Nat) (index : Index) (block entry : Nat) (element : α)
  | giveBlock (block : Nat) (element : α)
deriving DecidableEq, Repr

namespace IndexedQueue

variable {α : Type}

def setProducer (q : IndexedQueue α) (p : Nat) (P : IndexedProducer) : IndexedQueue α :=
  { q with producers := Function.update q.producers p P }

def setIndex (q : IndexedQueue α) (p : Nat) (ix : BlockIndex) : IndexedQueue α :=
  q.setProducer p { q.producers p with index := ix }

def setBlock (q : IndexedQueue α) (b : Nat) (B : Block α) : IndexedQueue α :=
  { q with blocks := Function.update q.blocks b B }

def deref (q : IndexedQueue α) (b : Nat) : Option (Block α) :=
  if b ∈ q.destroyed then none else some (q.blocks b)

def requisitionBlock (q : IndexedQueue α) : Option Nat → Option (IndexedQueue α)
  | none => some q
  | some b =>
    if b ∈ q.freeList then some { q with freeList := q.freeList.erase b }
    else if b = q.created then some { q with created := q.created + 1 }
    else none

def addBlockToFreeList (q : IndexedQueue α) (b : Nat) : IndexedQueue α :=
  if q.initialBlockPoolSize ≤ b then { q with destroyed := b :: q.destroyed }
  else { q with freeList := b :: q.freeList }

/-- The pointer at a place of a ring; there is none beyond its end. -/
def slot (h : BlockIndexHeader) (i : Nat) : Option Nat := if i < h.capacity then some (h.index i) else none

/-- `insert_block_index_entry` up to the load of the value: on to the entry after the tail. -/
def insertBlockIndexEntry (ix : BlockIndex) (x : α) (currentTailIndex : Index) :
    Option (IndexedPc α ⊕ QueueRes α) :=
  match ix.blockIndex with
  | none => some (.inr (.enqueued false))
  | some h =>
    let newTail := (ix.headers h).mask ((ix.headers h).tail + 1)
    (slot (ix.headers h) newTail).map fun idxEntry =>
      if (ix.entries idxEntry).key = INVALID_BLOCK_BASE then .inl (.storeKey x currentTailIndex newTail idxEntry)
      else .inl (.checkValue x currentTailIndex newTail idxEntry)

/-- The entry after the tail of the ring just made. -/
def insertAfterGrowth (ix : BlockIndex) (x : α) (currentTailIndex : Index) : Option (IndexedPc α) :=
  ix.blockIndex.bind fun h =>
    let newTail := (ix.headers h).mask ((ix.headers h).tail + 1)
    (slot (ix.headers h) newTail).bind fun idxEntry =>
      -- the assertion on the key
      if (ix.entries idxEntry).key = INVALID_BLOCK_BASE then some (.storeKey x currentTailIndex newTail idxEntry)
      else none

/-- One access of a thread. -/
def access (q : IndexedQueue α) (thread : Nat) :
    IndexedPc α → Option (IndexedQueue α × (IndexedPc α ⊕ QueueRes α))
  | .loadTail x =>
    let currentTailIndex := (q.producers thread).tailIndex
    some (q, .inl (if blockOffset currentTailIndex = 0 then .loadHead x currentTailIndex
      else .construct x currentTailIndex))
  | .loadHead x currentTailIndex =>
    if circularLessThan (q.producers thread).headIndex (currentTailIndex + BitVec.ofNat 64 BLOCK_SIZE)
    then some (q, .inl (.insertEntry x currentTailIndex))
    else some (q, .inr (.enqueued false))
  | .insertEntry x currentTailIndex =>
    (insertBlockIndexEntry (q.producers thread).index x currentTailIndex).map fun r => (q, r)
  | .checkValue x currentTailIndex newTail idxEntry =>
    some (q, .inl (if ((q.producers thread).index.entries idxEntry).value = none
      then .storeKey x currentTailIndex newTail idxEntry else .growIndex x currentTailIndex))
  | .storeKey x currentTailIndex newTail idxEntry =>
    let ix := (q.producers thread).index
    some (q.setIndex thread (ix.setEntry idxEntry { ix.entries idxEntry with key := currentTailIndex }),
      .inl (.storeIndexTail x currentTailIndex newTail idxEntry))
  | .storeIndexTail x currentTailIndex newTail idxEntry =>
    let ix := (q.producers thread).index
    ix.blockIndex.map fun h =>
      (q.setIndex thread (ix.setTail h newTail), .inl (.requisition x currentTailIndex idxEntry))
  | .rewindTail x currentTailIndex idxEntry =>
    let ix := (q.producers thread).index
    ix.blockIndex.map fun h =>
      (q.setIndex thread (ix.setTail h ((ix.headers h).mask ((ix.headers h).tail + (2 ^ 64 - 1)))),
        .inl (.clearFailed x currentTailIndex idxEntry))
  | .clearFailed _ _ idxEntry =>
    let ix := (q.producers thread).index
    some (q.setIndex thread (ix.setEntry idxEntry { ix.entries idxEntry with value := none }),
      .inr (.enqueued false))
  | .resetEmpty x currentTailIndex b idxEntry =>
    (q.deref b).map fun B => (q.setBlock b { B with elementsCompletelyDequeued := 0 },
      .inl (.storeEntry x currentTailIndex b idxEntry))
  | .storeEntry x currentTailIndex b idxEntry =>
    let P := q.producers thread
    some (q.setProducer thread { P with
        index := P.index.setEntry idxEntry { P.index.entries idxEntry with value := some b }
        tailBlock := some b },
      .inl (.construct x currentTailIndex))
  | .construct x currentTailIndex =>
    (q.producers thread).tailBlock.bind fun b => (q.deref b).map fun B =>
      (q.setBlock b (B.set currentTailIndex (some x)), .inl (.storeTail x currentTailIndex))
  | .storeTail _ currentTailIndex =>
    some (q.setProducer thread { q.producers thread with tailIndex := 1 + currentTailIndex },
      .inr (.enqueued true))
  | .readTail p => some (q, .inl (.readOvercommit p (q.producers p).tailIndex))
  | .readOvercommit p tail => some (q, .inl (.readOptimistic p tail (q.producers p).dequeueOvercommit))
  | .readOptimistic p tail overcommit =>
    if circularLessThan ((q.producers p).dequeueOptimisticCount - overcommit) tail then
      some (q, .inl (.addOptimistic p overcommit))
    else some (q, .inr (.dequeued none))
  | .addOptimistic p overcommit =>
    let P := q.producers p
    some (q.setProducer p { P with dequeueOptimisticCount := P.dequeueOptimisticCount + 1 },
      .inl (.rereadTail p overcommit P.dequeueOptimisticCount))
  | .rereadTail p overcommit myDequeueCount =>
    some (q, .inl (if circularLessThan (myDequeueCount - overcommit) (q.producers p).tailIndex
      then .addHead p myDequeueCount else .addOvercommit p myDequeueCount))
  | .addHead p _ =>
    let P := q.producers p
    some (q.setProducer p { P with headIndex := P.headIndex + 1 }, .inl (.loadIndex p P.headIndex))
  | .addOvercommit p _ =>
    let P := q.producers p
    some (q.setProducer p { P with dequeueOvercommit := P.dequeueOvercommit + 1 }, .inr (.dequeued none))
  | .loadIndex p index =>
    (q.producers p).index.blockIndex.map fun h => (q, .inl (.loadIndexTail p index h))
  | .loadIndexTail p index h =>
    some (q, .inl (.loadTailKey p index h ((q.producers p).index.headers h).tail))
  | .loadTailKey p index h tail =>
    let ix := (q.producers p).index
    (slot (ix.headers h) tail).bind fun tailEntry =>
      -- the assertion on `tailBase`
      if (ix.entries tailEntry).key = INVALID_BLOCK_BASE then none
      else some (q, .inl (.loadEntry p index h
        ((ix.headers h).mask (tail + BlockIndex.offset index (ix.entries tailEntry).key))))
  | .loadEntry p index h idx =>
    let ix := (q.producers p).index
    (slot (ix.headers h) idx).bind fun entry =>
      -- the assertion on the key and the value
      if (ix.entries entry).key = blockBase index then (ix.entries entry).value.map fun b =>
        (q, .inl (.moveElement p index b entry))
      else none
  | .moveElement p index b entry =>
    (q.deref b).bind fun B => (B.elements (blockOffset index)).map fun x =>
      (q.setBlock b (B.set index none), .inl (.setEmpty p index b entry x))
  | .setEmpty p index b entry x =>
    (q.deref b).map fun B =>
      (q.setBlock b { B with elementsCompletelyDequeued := B.elementsCompletelyDequeued + 1 },
        if B.elementsCompletelyDequeued = BLOCK_SIZE - 1 then .inl (.clearEntry p index b entry x)
        else .inr (.dequeued (some x)))
  | .clearEntry p _ b entry x =>
    let ix := (q.producers p).index
    some (q.setIndex p (ix.setEntry entry { ix.entries entry with value := none }), .inl (.giveBlock b x))
  | .giveBlock b x => some (q.addBlockToFreeList b, .inr (.dequeued (some x)))
  | _ => none

end IndexedQueue

structure IndexedThreads (α : Type) where
  queue : IndexedQueue α
  pc : Nat → IndexedPc α

namespace IndexedThreads

variable {α : Type}

inductive Action (α : Type)
  | call (thread : Nat) (op : QueueOp α)
  | next (thread : Nat)
  /-- `new_block_index`, which may get no memory -/
  | grow (thread : Nat) (ok : Bool)
  /-- `requisition_block`, with its answer -/
  | requisition (thread : Nat) (newBlock : Option Nat)
deriving DecidableEq, Repr

def Action.thread : Action α → Nat
  | .call thread _ => thread
  | .next thread => thread
  | .grow thread _ => thread
  | .requisition thread _ => thread

def start : QueueOp α → IndexedPc α
  | .enqueue x => .loadTail x
  | .dequeue p => .readTail p

def goto (s : IndexedThreads α) (thread : Nat) (q : IndexedQueue α) :
    IndexedPc α ⊕ QueueRes α → IndexedThreads α × List (Observed (QueueOp α) (QueueRes α))
  | .inl p => (⟨q, Function.update s.pc thread p⟩, [])
  | .inr r => (⟨q, Function.update s.pc thread .idle⟩, [.returned thread r])

def act (s : IndexedThreads α) :
    Action α → Option (IndexedThreads α × List (Observed (QueueOp α) (QueueRes α)))
  | .call thread op =>
    match s.pc thread with
    | .idle => some (⟨s.queue, Function.update s.pc thread (start op)⟩, [.called thread op])
    | _ => none
  | .next thread => (s.queue.access thread (s.pc thread)).map fun r => s.goto thread r.1 r.2
  | .grow thread ok =>
    match s.pc thread with
    | .growIndex x currentTailIndex =>
      if ok then
        let ix := (s.queue.producers thread).index.newBlockIndex
        (IndexedQueue.insertAfterGrowth ix x currentTailIndex).map fun pc =>
          s.goto thread (s.queue.setIndex thread ix) (.inl pc)
      else some (s.goto thread s.queue (.inr (.enqueued false)))
    | _ => none
  | .requisition thread newBlock =>
    match s.pc thread with
    | .requisition x currentTailIndex idxEntry =>
      (s.queue.requisitionBlock newBlock).map fun q =>
        match newBlock with
        | some b => s.goto thread q (.inl (.resetEmpty x currentTailIndex b idxEntry))
        | none => s.goto thread q (.inl (.rewindTail x currentTailIndex idxEntry))
    | _ => none

/-- A new producer; `built` says whether its constructor got memory for the index. -/
def newProducer (built : Bool) : IndexedProducer :=
  ⟨0, 0, 0, 0, none, if built then BlockIndex.empty.newBlockIndex else BlockIndex.empty⟩

/-- The constructor, with an initial pool of `n` blocks. -/
def init (n : Nat) (built : Nat → Bool) : IndexedThreads α where
  queue := {
    producers := fun p => newProducer (built p)
    blocks := fun _ => ⟨fun _ => none, 0⟩
    freeList := List.range n
    initialBlockPoolSize := n
    created := n
    destroyed := [] }
  pc := fun _ => .idle

end IndexedThreads

end Us2d
