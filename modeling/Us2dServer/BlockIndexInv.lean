import Us2dServer.BlockIndexRing

/-!
# What the threads know of a block index

The producer's thread knows the place after the tail, whose entry it prepares (`OwnOk`).  A consumer
holds a header that may be old, a tail that may be behind, and the entry of its block (`ReadOk`).  All
of this stays true as long as the block of the consumer's index is in use (`ReadOk.mono`).
-/

namespace Us2d

/-- The blocks that have been begun below an index. -/
def begun (tailIndex : Index) : Nat := (tailIndex.toNat + 31) / 32

namespace IndexedPc

variable {α : Type}

/-- The access of the queue with the map. -/
def abs : IndexedPc α → QueuePc α
  | .idle => .idle
  | .loadTail x => .loadTail x
  | .loadHead x cur => .loadHead x cur
  | .insertEntry x cur => .insertEntry x cur
  | .checkValue x cur _ _ => .insertEntry x cur
  | .growIndex x cur => .insertEntry x cur
  | .storeKey x cur _ _ => .insertEntry x cur
  | .storeIndexTail x cur _ _ => .insertEntry x cur
  | .requisition x cur _ => .requisition x cur
  | .rewindTail x cur _ => .requisition x cur
  | .clearFailed x cur _ => .requisition x cur
  | .resetEmpty x cur b _ => .resetEmpty x cur b
  | .storeEntry x cur b _ => .storeEntry x cur b
  | .construct x cur => .construct x cur
  | .storeTail x cur => .storeTail x cur
  | .readTail p => .readTail p
  | .readOvercommit p tail => .readOvercommit p tail
  | .readOptimistic p tail overcommit => .readOptimistic p tail overcommit
  | .addOptimistic p overcommit => .addOptimistic p overcommit
  | .rereadTail p overcommit my => .rereadTail p overcommit my
  | .addHead p my => .addHead p my
  | .addOvercommit p my => .addOvercommit p my
  | .loadIndex p i => .loadEntry p i
  | .loadIndexTail p i _ => .loadEntry p i
  | .loadTailKey p i _ _ => .loadEntry p i
  | .loadEntry p i _ _ => .loadEntry p i
  | .moveElement p i b _ => .moveElement p i b
  | .setEmpty p i b _ x => .setEmpty p i b x
  | .clearEntry p i b _ x => .clearEntry p i b x
  | .giveBlock b x => .giveBlock b x

/-- The thread is between the load of the index and the end of `insert_block_index_entry`'s use. -/
def indexed : IndexedPc α → Bool
  | .checkValue .. | .growIndex .. | .storeKey .. | .storeIndexTail .. | .requisition .. | .rewindTail ..
  | .clearFailed .. | .resetEmpty .. | .storeEntry .. => true
  | _ => false

/-- The index has the block that the current element goes into. -/
def published : IndexedPc α → Bool
  | .requisition .. | .rewindTail .. | .resetEmpty .. | .storeEntry .. | .construct .. | .storeTail .. => true
  | _ => false

/-- The number of blocks up to the tail of the last ring. -/
def indexTop (tailIndex : Index) (c : IndexedPc α) : Nat :=
  if c.published then tailIndex.toNat / 32 + 1 else begun tailIndex

/-- What the producer's own thread knows of the last ring. -/
def OwnOk (ix : BlockIndex) (g : IndexGhost) (tailIndex : Index) : IndexedPc α → Prop
  | .checkValue _ _ newTail e =>
    newTail = (g.top g.cur - g.base g.cur) % (ix.headers g.cur).capacity ∧ e = (ix.headers g.cur).index newTail
  | .growIndex _ _ =>
    g.high g.cur = g.top g.cur ∧ g.base g.cur + (ix.headers g.cur).capacity ≤ g.top g.cur
  | .storeKey _ _ newTail e =>
    newTail = (g.top g.cur - g.base g.cur) % (ix.headers g.cur).capacity ∧
      e = (ix.headers g.cur).index newTail ∧ (ix.entries e).value = none
  | .storeIndexTail _ _ newTail e =>
    newTail = (g.top g.cur - g.base g.cur) % (ix.headers g.cur).capacity ∧
      e = g.entryOf (tailIndex.toNat / 32) ∧ g.high g.cur = g.top g.cur + 1
  | .requisition _ _ e => e = g.entryOf (tailIndex.toNat / 32) ∧ g.high g.cur = g.top g.cur
  | .rewindTail _ _ e => e = g.entryOf (tailIndex.toNat / 32) ∧ g.high g.cur = g.top g.cur
  | .clearFailed _ _ e => e = g.entryOf (tailIndex.toNat / 32) ∧ g.high g.cur = g.top g.cur + 1
  | .resetEmpty _ _ _ e => e = g.entryOf (tailIndex.toNat / 32) ∧ g.high g.cur = g.top g.cur
  | .storeEntry _ _ _ e => e = g.entryOf (tailIndex.toNat / 32) ∧ g.high g.cur = g.top g.cur
  | _ => True

/-- The producer and the index that the thread takes an element of. -/
def reading : IndexedPc α → Option (Nat × Index)
  | .loadIndex p i | .loadIndexTail p i _ | .loadTailKey p i _ _ | .loadEntry p i _ _ | .moveElement p i _ _
  | .setEmpty p i _ _ _ | .clearEntry p i _ _ _ => some (p, i)
  | _ => none

end IndexedPc

/-- The block of the index `i` is in the ring of the header, should that be an old one. -/
def IndexSeen (ix : BlockIndex) (g : IndexGhost) (i : Index) (h : Nat) : Prop :=
  h ≤ g.cur ∧ (h < g.cur → g.base h ≤ i.toNat / 32 ∧ i.toNat / 32 < g.top h ∧
    g.high h ≤ i.toNat / 32 + (ix.headers h).capacity)

namespace IndexedPc

variable {α : Type}

/-- What a consumer knows of the index of the producer `p`. -/
def ReadOk (p : Nat) (ix : BlockIndex) (g : IndexGhost) : IndexedPc α → Prop
  | .loadIndexTail p' i h => p' = p → IndexSeen ix g i h
  | .loadTailKey p' i h tail => p' = p → IndexSeen ix g i h ∧ ∃ m, i.toNat / 32 ≤ m ∧ m < g.high h ∧
      tail = (m - g.base h) % (ix.headers h).capacity
  | .loadEntry p' i h idx => p' = p → IndexSeen ix g i h ∧
      idx = (i.toNat / 32 - g.base h) % (ix.headers h).capacity
  | .moveElement p' i _ e => p' = p → e = g.entryOf (i.toNat / 32)
  | .setEmpty p' i _ e _ => p' = p → e = g.entryOf (i.toNat / 32)
  | .clearEntry p' i _ e _ => p' = p → e = g.entryOf (i.toNat / 32)
  | _ => True

variable {c c' : IndexedPc α} {p : Nat} {ix ix' : BlockIndex} {g g' : IndexGhost} {tailIndex : Index}

/-- The index may change as long as the entries of blocks in use stay. -/
theorem ReadOk.mono (hok : c.ReadOk p ix g)
    (hseen : ∀ i h, c.reading = some (p, i) → IndexSeen ix g i h → IndexSeen ix' g' i h)
    (hheader : ∀ h, h ≤ g.cur → g'.base h = g.base h ∧
      (ix'.headers h).capacity = (ix.headers h).capacity ∧ g.high h ≤ g'.high h)
    (hentry : ∀ i, c.reading = some (p, i) → g'.entryOf (i.toNat / 32) = g.entryOf (i.toNat / 32)) :
    c.ReadOk p ix' g' := by
  cases c with
  | loadIndexTail p' i h =>
    rintro rfl
    exact hseen i h rfl (hok rfl)
  | loadTailKey p' i h tail =>
    rintro rfl
    obtain ⟨hs, m, hle, hlt, htail⟩ := hok rfl
    obtain ⟨hbase, hcap, hhigh⟩ := hheader h hs.1
    exact ⟨hseen i h rfl hs, m, hle, by omega, by rw [hbase, hcap, htail]⟩
  | loadEntry p' i h idx =>
    rintro rfl
    obtain ⟨hs, hidx⟩ := hok rfl
    obtain ⟨hbase, hcap, -⟩ := hheader h hs.1
    exact ⟨hseen i h rfl hs, by rw [hbase, hcap, hidx]⟩
  | moveElement p' i b e =>
    rintro rfl
    rw [hentry i rfl]
    exact hok rfl
  | setEmpty p' i b e x =>
    rintro rfl
    rw [hentry i rfl]
    exact hok rfl
  | clearEntry p' i b e x =>
    rintro rfl
    rw [hentry i rfl]
    exact hok rfl
  | _ => trivial

/-- The index of a block in use is in the ring of the header that the consumer has. -/
theorem seen_window {map : Index → Option Nat} {n : Nat} {i : Index} {h : Nat} (hr : IndexRing ix map n g)
    (hs : IndexSeen ix g i h) (hlive : map (blockBase i) ≠ none) (hlt : i.toNat / 32 < n) :
    g.base h ≤ i.toNat / 32 ∧ i.toNat / 32 < g.top h ∧ g.high h ≤ i.toNat / 32 + (ix.headers h).capacity := by
  have hi := i.isLt
  rw [← BlockIndex.blockKey_div] at hlive
  obtain ⟨hbase, hle, -⟩ := hr.live _ (by omega) hlive
  have hbegun := hr.begun_le
  obtain rfl | hne := Nat.eq_or_lt_of_le hs.1
  · exact ⟨hbase, by omega, hle⟩
  · exact hs.2 hne

end IndexedPc

/-- The index of a producer, whose thread is at `c`. -/
structure IndexOwned (P : IndexedProducer) (map : Index → Option Nat) {α : Type} (c : IndexedPc α)
    (g : IndexGhost) : Prop where
  absent : P.index.blockIndex = none → (∀ key, map key = none) ∧ c.indexed = false
  ring : P.index.blockIndex ≠ none → IndexRing P.index map (begun P.tailIndex) g
  top : P.index.blockIndex ≠ none → g.top g.cur = c.indexTop P.tailIndex
  own : P.index.blockIndex ≠ none → c.OwnOk P.index g P.tailIndex

/-- The index of the producer `p`. -/
structure IndexInv {α : Type} (p : Nat) (P : IndexedProducer) (map : Index → Option Nat)
    (pc : Nat → IndexedPc α) (g : IndexGhost) : Prop where
  owned : IndexOwned P map (pc p) g
  readers : ∀ t, (pc t).ReadOk p P.index g

namespace IndexOwned

variable {α : Type} {P P' : IndexedProducer} {map : Index → Option Nat} {c c' : IndexedPc α} {g : IndexGhost}

/-- The thread goes on without a store to the index. -/
theorem goes (ho : IndexOwned P map c g) (hindex : P'.index = P.index) (htail : P'.tailIndex = P.tailIndex)
    (habsent : P.index.blockIndex = none → c.indexed = false → c'.indexed = false)
    (htop : P.index.blockIndex ≠ none → c'.indexTop P.tailIndex = c.indexTop P.tailIndex)
    (hown : P.index.blockIndex ≠ none → c'.OwnOk P.index g P.tailIndex) : IndexOwned P' map c' g where
  absent := by
    rw [hindex]
    exact fun h => ⟨(ho.absent h).1, habsent h (ho.absent h).2⟩
  ring := by
    rw [hindex, htail]
    exact ho.ring
  top := by
    rw [hindex, htail]
    exact fun h => by rw [htop h, ho.top h]
  own := by
    rw [hindex, htail]
    exact hown

/-- A thread that has prepared no entry, and still has none. -/
theorem steps (ho : IndexOwned P map c g) (hindex : P'.index = P.index) (htail : P'.tailIndex = P.tailIndex)
    (hpublished : c'.published = c.published) (hindexed : c'.indexed = false) : IndexOwned P' map c' g := by
  refine ho.goes hindex htail (fun _ _ => hindexed) (fun _ => ?_) fun _ => ?_
  · rw [IndexedPc.indexTop, IndexedPc.indexTop, hpublished]
  · cases c' <;> trivial

end IndexOwned

end Us2d
