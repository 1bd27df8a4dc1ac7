import Us2dServer.BlockIndexInv
import Us2dServer.ConcurrentQueueLaw

/-!
# The accesses of the queue with its block indexes

Each access is none or one of the queue with the maps (`Follows`).  `insert_block_index_entry` takes
effect when it stores the tail, `rewind_block_index_tail` with the store of the value after it, and the
look-up when it loads the value of the entry; the accesses in between change nothing that the map shows.

    of the producer's thread    access_insertEntry, …, access_clearFailed, access_storeEntry
    of a consumer               access_loadIndex, …, access_loadEntry, access_clearEntry
-/

namespace Us2d

open Transition AtomicObject

variable {α : Type}

def IndexedProducer.abs (P : IndexedProducer) (map : Index → Option Nat) : ImplicitProducer where
  tailIndex := P.tailIndex
  headIndex := P.headIndex
  dequeueOptimisticCount := P.dequeueOptimisticCount
  dequeueOvercommit := P.dequeueOvercommit
  tailBlock := P.tailBlock
  blockIndex := map

def IndexedQueue.abs (q : IndexedQueue α) (maps : Nat → Index → Option Nat) : ConcurrentQueue α where
  producers := fun p => (q.producers p).abs (maps p)
  blocks := q.blocks
  freeList := q.freeList
  initialBlockPoolSize := q.initialBlockPoolSize
  created := q.created
  destroyed := q.destroyed

def IndexedThreads.abs (s : IndexedThreads α) (maps : Nat → Index → Option Nat) : QueueThreads α where
  queue := s.queue.abs maps
  pc := fun t => (s.pc t).abs

namespace IndexedQueue

variable {q : IndexedQueue α} {maps : Nat → Index → Option Nat} {p b : Nat}

theorem abs_setProducer (P : IndexedProducer) (map : Index → Option Nat) :
    (q.setProducer p P).abs (Function.update maps p map) = (q.abs maps).setProducer p (P.abs map) := by
  simp only [abs, setProducer, ConcurrentQueue.setProducer, ConcurrentQueue.mk.injEq, and_self, and_true]
  funext p'
  by_cases hp : p' = p
  · subst hp
    simp
  · simp [Function.update_of_ne hp]

theorem abs_setProducer_same (P : IndexedProducer) :
    (q.setProducer p P).abs maps = (q.abs maps).setProducer p (P.abs (maps p)) := by
  rw [← abs_setProducer, Function.update_eq_self]

/-- Of an index only the map is seen. -/
theorem abs_setIndex (ix : BlockIndex) : (q.setIndex p ix).abs maps = q.abs maps := by
  simp only [abs, setIndex, setProducer, ConcurrentQueue.mk.injEq, and_self, and_true]
  funext p'
  by_cases hp : p' = p
  · subst hp
    simp [IndexedProducer.abs]
  · simp [Function.update_of_ne hp]

theorem abs_deref : (q.abs maps).deref b = q.deref b := rfl

theorem abs_requisitionBlock (newBlock : Option Nat) :
    (q.abs maps).requisitionBlock newBlock = (q.requisitionBlock newBlock).map fun q => q.abs maps := by
  cases newBlock with
  | none => rfl
  | some b =>
    simp only [requisitionBlock, ConcurrentQueue.requisitionBlock]
    by_cases hfree : b ∈ q.freeList
    · rw [if_pos hfree]
      exact if_pos hfree
    · rw [if_neg hfree]
      refine (if_neg hfree).trans ?_
      by_cases hnew : b = q.created
      · rw [if_pos hnew]
        exact if_pos hnew
      · rw [if_neg hnew]
        exact if_neg hnew

theorem requisitionBlock_producers {q' : IndexedQueue α} {newBlock : Option Nat}
    (h : q.requisitionBlock newBlock = some q') : q'.producers = q.producers := by
  cases newBlock with
  | none =>
    cases h
    rfl
  | some b =>
    simp only [requisitionBlock] at h
    split at h
    · cases h
      rfl
    · split at h <;> cases h
      rfl

theorem abs_addBlockToFreeList : (q.addBlockToFreeList b).abs maps = (q.abs maps).addBlockToFreeList b := by
  simp only [addBlockToFreeList, ConcurrentQueue.addBlockToFreeList]
  by_cases hb : q.initialBlockPoolSize ≤ b
  · rw [if_pos hb]
    exact (if_pos hb).symm
  · rw [if_neg hb]
    exact (if_neg hb).symm

end IndexedQueue

namespace IndexedThreads

variable {s s' : IndexedThreads α} {maps maps' : Nat → Index → Option Nat} {gs gs' : Nat → IndexGhost}
  {gh : Nat → QueueGhost α} {n t p : Nat} {c : IndexedPc α} {q : IndexedQueue α} {r : IndexedPc α ⊕ QueueRes α}
  {os : List (Observed (QueueOp α) (QueueRes α))}

/-- The indexes say what the maps say. -/
def Indexed (q : IndexedQueue α) (pc : Nat → IndexedPc α) (maps : Nat → Index → Option Nat)
    (gs : Nat → IndexGhost) : Prop :=
  ∀ p, IndexInv p (q.producers p) (maps p) pc (gs p)

def absRes : IndexedPc α ⊕ QueueRes α → QueuePc α ⊕ QueueRes α := Sum.map IndexedPc.abs id

/-- Where the thread is after an access. -/
def after : IndexedPc α ⊕ QueueRes α → IndexedPc α
  | .inl c => c
  | .inr _ => .idle

theorem goto_fst : (s.goto t q r).1 = ⟨q, Function.update s.pc t (after r)⟩ := by cases r <;> rfl

theorem abs_update (pc : Nat → IndexedPc α) (c : IndexedPc α) :
    (fun u => (Function.update pc t c u).abs) = Function.update (fun u => (pc u).abs) t c.abs := by
  funext u
  by_cases hu : u = t
  · subst hu
    simp
  · simp [Function.update_of_ne hu]

theorem abs_goto :
    ((s.goto t q r).1.abs maps', (s.goto t q r).2) = (s.abs maps).goto t (q.abs maps') (absRes r) := by
  cases r with
  | inl c => simp only [goto, abs, absRes, Sum.map_inl, QueueThreads.goto, abs_update]
  | inr r =>
    simp only [goto, abs, absRes, Sum.map_inr, QueueThreads.goto, abs_update, id]
    rfl

/-- The access is none or one of the queue with the map. -/
def Follows (s : IndexedThreads α) (maps : Nat → Index → Option Nat) (t : Nat) (q : IndexedQueue α)
    (r : IndexedPc α ⊕ QueueRes α) : Prop :=
  ∃ bs maps' gs', bs.length ≤ 1 ∧
    trace QueueThreads.act (s.abs maps) bs = some ((s.goto t q r).1.abs maps', (s.goto t q r).2) ∧
    Indexed q (Function.update s.pc t (after r)) maps' gs'

theorem follows_none (hq : q.abs maps = s.queue.abs maps) (hc : c.abs = (s.pc t).abs)
    (hi : Indexed q (Function.update s.pc t c) maps gs') : s.Follows maps t q (.inl c) := by
  refine ⟨[], maps, gs', by simp, ?_, hi⟩
  simp only [trace_nil, goto, abs, abs_update, hq, hc, Option.some.injEq, Prod.mk.injEq, and_true,
    QueueThreads.mk.injEq, true_and]
  exact (Function.update_eq_self t _).symm

theorem follows_one {x : QueueThreads.Action α}
    (h : (s.abs maps).act x = some ((s.abs maps).goto t (q.abs maps') (absRes r)))
    (hi : Indexed q (Function.update s.pc t (after r)) maps' gs') : s.Follows maps t q r := by
  refine ⟨[x], maps', gs', by simp, ?_, hi⟩
  apply trace_singleton
  rw [h, ← abs_goto]

theorem follows_next
    (h : (s.queue.abs maps).access t (s.pc t).abs = some (q.abs maps', absRes r))
    (hi : Indexed q (Function.update s.pc t (after r)) maps' gs') : s.Follows maps t q r := by
  refine follows_one (x := .next t) ?_ hi
  simp only [QueueThreads.act, abs] at h ⊢
  rw [h]
  rfl

/-! ## Steps that leave the indexes alone -/

/-- No index changes, and no `tailIndex` but that of the thread. -/
theorem Indexed.goes (hi : Indexed s.queue s.pc maps gs)
    (hindex : ∀ p, (q.producers p).index = (s.queue.producers p).index)
    (htail : ∀ p, p ≠ t → (q.producers p).tailIndex = (s.queue.producers p).tailIndex)
    (hown : IndexOwned (q.producers t) (maps t) c (gs t))
    (hread : ∀ p, c.ReadOk p (s.queue.producers p).index (gs p)) :
    Indexed q (Function.update s.pc t c) maps gs := by
  intro p
  have hp := hi p
  refine ⟨?_, fun u => ?_⟩
  · by_cases hpt : p = t
    · subst hpt
      rwa [Function.update_self]
    · rw [Function.update_of_ne hpt]
      exact hp.owned.goes (hindex p) (htail p hpt) (fun _ h => h) (fun _ => rfl) hp.owned.own
  · rw [hindex p]
    by_cases hut : u = t
    · subst hut
      rw [Function.update_self]
      exact hread p
    · rw [Function.update_of_ne hut]
      exact hp.readers u

/-! ## Steps at an index -/

/-- The thread stores to the index of the producer `p`. -/
theorem Indexed.stores (hi : Indexed s.queue s.pc maps gs) {P' : IndexedProducer} {map' : Index → Option Nat}
    {g' : IndexGhost} (hp : IndexOwned P' map' (Function.update s.pc t c p) g')
    (ht : p ≠ t → IndexOwned (s.queue.producers t) (maps t) c (gs t))
    (hreaders : ∀ u, u ≠ t → (s.pc u).ReadOk p (s.queue.producers p).index (gs p) →
      (s.pc u).ReadOk p P'.index g')
    (hread : ∀ p ix g, c.ReadOk p ix g) :
    Indexed (s.queue.setProducer p P') (Function.update s.pc t c) (Function.update maps p map')
      (Function.update gs p g') := by
  intro p'
  have hall : ∀ u ix g, (u ≠ t → (s.pc u).ReadOk p' ix g) → (Function.update s.pc t c u).ReadOk p' ix g := by
    intro u ix g hu
    by_cases hut : u = t
    · subst hut
      rw [Function.update_self]
      exact hread p' ix g
    · rw [Function.update_of_ne hut]
      exact hu hut
  by_cases hpp : p' = p
  · subst hpp
    simp only [IndexedQueue.setProducer, Function.update_self]
    exact ⟨hp, fun u => hall u _ _ fun hut => hreaders u hut ((hi p').readers u)⟩
  · simp only [IndexedQueue.setProducer, Function.update_of_ne hpp]
    refine ⟨?_, fun u => hall u _ _ fun _ => (hi p').readers u⟩
    by_cases hpt : p' = t
    · subst hpt
      rw [Function.update_self]
      exact ht (fun h => hpp h.symm)
    · rw [Function.update_of_ne hpt]
      exact (hi p').owned

/-- The producer's own thread stores a key or a tail, or makes a ring: the map stays. -/
theorem Indexed.storesOwn (hi : Indexed s.queue s.pc maps gs) {ix : BlockIndex} {g : IndexGhost}
    (ho : IndexOwned { s.queue.producers t with index := ix } (maps t) c g)
    (hreaders : ∀ u, (s.pc u).ReadOk t (s.queue.producers t).index (gs t) → (s.pc u).ReadOk t ix g)
    (hread : ∀ p ix g, c.ReadOk p ix g) :
    Indexed (s.queue.setIndex t ix) (Function.update s.pc t c) maps (Function.update gs t g) := by
  have hstores := hi.stores (p := t) (by rwa [Function.update_self]) (fun h => absurd rfl h)
    (fun u _ => hreaders u) hread
  rwa [Function.update_eq_self] at hstores

/-- The producer's own thread stores the value of an entry. -/
theorem Indexed.storesValue (hi : Indexed s.queue s.pc maps gs) {P' : IndexedProducer}
    {map' : Index → Option Nat} (ho : IndexOwned P' map' c (gs t))
    (hreaders : ∀ u, (s.pc u).ReadOk t (s.queue.producers t).index (gs t) → (s.pc u).ReadOk t P'.index (gs t))
    (hread : ∀ p ix g, c.ReadOk p ix g) :
    Indexed (s.queue.setProducer t P') (Function.update s.pc t c) (Function.update maps t map') gs := by
  have hstores := hi.stores (p := t) (by rwa [Function.update_self]) (fun h => absurd rfl h)
    (fun u _ => hreaders u) hread
  rwa [Function.update_eq_self] at hstores

/-- The block of an index that a thread has taken is in use. -/
theorem reading_live (ha : (s.abs maps).Inv gh n) {i : Index} (h : (s.pc t).reading = some (p, i)) :
    maps p (blockBase i) ≠ none ∧ i.toNat / 32 < begun (s.queue.producers p).tailIndex := by
  have hpi := ha.producer p
  have hhead : ((s.queue.producers p).abs (maps p)).headIndex.toNat ≤ (gh p).hist.length := hpi.head_le
  have hsome : ∀ b, maps p (blockBase i) = some b → maps p (blockBase i) ≠ none := by
    intro b hb hnone
    rw [hb] at hnone
    cases hnone
  have htail : (s.queue.producers p).tailIndex.toNat = (gh p).hist.length := hpi.tail
  have hlt : i.toNat < (s.queue.producers p).tailIndex.toNat →
      i.toNat / 32 < begun (s.queue.producers p).tailIndex := by
    unfold begun
    omega
  have hok : (s.pc t).abs.target t = some p → (s.pc t).abs.Ok ((s.queue.producers p).abs (maps p))
      s.queue.blocks (gh p) := hpi.threads t
  have hload : (s.pc t).abs = .loadEntry p i → maps p (blockBase i) ≠ none ∧
      i.toNat / 32 < begun (s.queue.producers p).tailIndex := by
    intro hp
    rw [hp] at hok
    obtain ⟨hl, hmoved⟩ := hok rfl
    obtain ⟨b, hb⟩ := hpi.entry i (by omega) fun hd => hmoved (hpi.done_sub hd)
    exact ⟨hsome b hb, hlt (by omega)⟩
  cases hp : s.pc t <;> rw [hp] at h <;> simp only [IndexedPc.reading, reduceCtorEq] at h <;>
    obtain ⟨rfl, rfl⟩ := Prod.mk.inj (Option.some.inj h)
  case loadIndex => exact hload (by rw [hp]; rfl)
  case loadIndexTail => exact hload (by rw [hp]; rfl)
  case loadTailKey => exact hload (by rw [hp]; rfl)
  case loadEntry => exact hload (by rw [hp]; rfl)
  case moveElement b e =>
    rw [hp] at hok
    obtain ⟨hl, hb⟩ := hok rfl
    exact ⟨hsome b hb, hlt (by have := hl.1; omega)⟩
  case setEmpty b e x =>
    rw [hp] at hok
    obtain ⟨hm, hb, -⟩ := hok rfl
    have : _ < ((s.queue.producers _).abs (maps _)).headIndex.toNat := hpi.moved_lt _ hm.1
    exact ⟨hsome b hb, hlt (by omega)⟩
  case clearEntry b e x =>
    rw [hp] at hok
    obtain ⟨hb, hdone⟩ := hok rfl
    have : _ < ((s.queue.producers _).abs (maps _)).headIndex.toNat :=
      hpi.moved_lt _ (hpi.done_sub (hdone _ rfl))
    exact ⟨hsome b hb, hlt (by omega)⟩

/-- A producer's thread at its index. -/
structure Building (s : IndexedThreads α) (maps : Nat → Index → Option Nat) (t : Nat) (g : IndexGhost)
    (cur : Index) : Prop where
  ring : IndexRing (s.queue.producers t).index (maps t) (cur.toNat / 32) g
  tail : cur = (s.queue.producers t).tailIndex
  start : cur.toNat % 32 = 0
  begun : begun cur = cur.toNat / 32
  small : cur.toNat / 32 < 2 ^ 57
  top : g.top g.cur = (s.pc t).indexTop cur
  own : (s.pc t).OwnOk (s.queue.producers t).index g cur
  free : maps t cur = none

theorem Indexed.building (hi : Indexed s.queue s.pc maps gs) (ha : (s.abs maps).Inv gh n) (hn : n < 2 ^ 62)
    (hbuilt : (s.queue.producers t).index.blockIndex ≠ none) {cur : Index}
    (hok : cur = (s.queue.producers t).tailIndex ∧ cur.toNat % 32 = 0) (hb : (s.pc t).abs.building = false) :
    s.Building maps t (gs t) cur := by
  obtain ⟨hcur, hmod⟩ := hok
  have hpi := ha.producer t
  have htail : (s.queue.producers t).tailIndex.toNat = (gh t).hist.length := hpi.tail
  have hsmall := (ha.small t).1
  have hbegun : begun cur = cur.toNat / 32 := by
    unfold begun
    omega
  refine ⟨?_, hcur, hmod, hbegun, ?_, ?_, ?_, ?_⟩
  · rw [← hbegun, hcur]
    exact (hi t).owned.ring hbuilt
  · rw [hcur]
    omega
  · rw [hcur]
    exact (hi t).owned.top hbuilt
  · rw [hcur]
    exact (hi t).owned.own hbuilt
  · exact hpi.index_tail_none hb hcur

theorem Indexed.built (hi : Indexed s.queue s.pc maps gs) (h : (s.pc t).indexed = true) :
    (s.queue.producers t).index.blockIndex ≠ none := by
  intro hnone
  have := ((hi t).owned.absent hnone).2
  rw [h] at this
  cases this

theorem inserting (ha : (s.abs maps).Inv gh n) {x : α} {cur : Index} (hp : (s.pc t).abs = .insertEntry x cur) :
    cur = (s.queue.producers t).tailIndex ∧ cur.toNat % 32 = 0 := by
  have hok : (s.pc t).abs.target t = some t → (s.pc t).abs.Ok _ _ _ := (ha.producer t).threads t
  rw [hp] at hok
  exact hok rfl

theorem requisitioning (ha : (s.abs maps).Inv gh n) {x : α} {cur : Index}
    (hp : (s.pc t).abs = .requisition x cur) :
    cur = (s.queue.producers t).tailIndex ∧ cur.toNat % 32 = 0 := by
  have hok : (s.pc t).abs.target t = some t → (s.pc t).abs.Ok _ _ _ := (ha.producer t).threads t
  rw [hp] at hok
  exact hok rfl

/-- The index after a store of the producer's thread. -/
theorem Building.owned {g g' : IndexGhost} {cur : Index} {P' : IndexedProducer} {map' : Index → Option Nat}
    (hb : s.Building maps t g cur) (htail : P'.tailIndex = (s.queue.producers t).tailIndex)
    (hr : IndexRing P'.index map' (cur.toNat / 32) g') (htop : g'.top g'.cur = c.indexTop cur)
    (hown : c.OwnOk P'.index g' cur) : IndexOwned P' map' c g' where
  absent := fun hnone => by
    have hcur := hr.current
    rw [hnone] at hcur
    cases hcur
  ring := fun _ => by
    rw [htail, ← hb.tail, hb.begun]
    exact hr
  top := fun _ => by rw [htail, ← hb.tail, htop]
  own := fun _ => by rwa [htail, ← hb.tail]

/-- The readers go on when the producer's thread stores to its index. -/
theorem Indexed.readers (ha : (s.abs maps).Inv gh n) {ix ix' : BlockIndex} {g g' : IndexGhost}
    (hlast : ∀ u (i : Index) (h : Nat), i.toNat / 32 < begun (s.queue.producers p).tailIndex →
      (s.pc u).reading = some (p, i) → IndexSeen ix g i h → IndexSeen ix' g' i h)
    (hheader : ∀ h, h ≤ g.cur → g'.base h = g.base h ∧ (ix'.headers h).capacity = (ix.headers h).capacity ∧
      g.high h ≤ g'.high h)
    (hentry : ∀ m, m < begun (s.queue.producers p).tailIndex → g'.entryOf m = g.entryOf m) (u : Nat)
    (hok : (s.pc u).ReadOk p ix g) : (s.pc u).ReadOk p ix' g' :=
  hok.mono (fun i h hr hs => hlast u i h (reading_live ha hr).2 hr hs) hheader
    fun _ hr => hentry _ (reading_live ha hr).2

/-- The tail of the last ring is all that changes. -/
theorem readers_setTail (ha : (s.abs maps).Inv gh n) {tail top : Nat} (u : Nat)
    (hok : (s.pc u).ReadOk t (s.queue.producers t).index (gs t)) :
    (s.pc u).ReadOk t ((s.queue.producers t).index.setTail (gs t).cur tail) ((gs t).upTo top) := by
  have hcap : ∀ h, (((s.queue.producers t).index.setTail (gs t).cur tail).headers h).capacity =
      ((s.queue.producers t).index.headers h).capacity := by
    intro h
    simp only [BlockIndex.setTail, Function.update_apply]
    split
    · next heq => rw [heq]
    · rfl
  refine Indexed.readers (g := gs t) ha ?_ ?_ ?_ u hok
  · intro u i h _ _ hs
    refine ⟨hs.1, fun hh => ?_⟩
    have hne : h ≠ (gs t).cur := Nat.ne_of_lt hh
    rw [hcap]
    simp only [IndexGhost.upTo, Function.update_of_ne hne]
    exact hs.2 hh
  · exact fun h _ => ⟨rfl, hcap h, Nat.le_refl _⟩
  · exact fun _ _ => rfl

/-- No reader depends on a value. -/
theorem readers_setValue {e : Nat} {v : Option Nat} (u : Nat)
    (hok : (s.pc u).ReadOk p (s.queue.producers p).index (gs p)) :
    (s.pc u).ReadOk p ((s.queue.producers p).index.setEntry e
      { (s.queue.producers p).index.entries e with value := v }) (gs p) :=
  hok.mono (fun _ _ _ hs => hs) (fun _ _ => ⟨rfl, rfl, Nat.le_refl _⟩) fun _ _ => rfl

/-- The value of an entry becomes `none`. -/
theorem ownOk_clear {ix : BlockIndex} {g : IndexGhost} {T : Index} {c : IndexedPc α} {e : Nat}
    (h : c.OwnOk ix g T) : c.OwnOk (ix.setEntry e { ix.entries e with value := none }) g T := by
  cases c with
  | storeKey x cur newTail e' =>
    refine ⟨h.1, h.2.1, ?_⟩
    simp only [BlockIndex.setEntry, Function.update_apply]
    split
    · rfl
    · exact h.2.2
  | _ => exact h

section Producer

variable (hi : Indexed s.queue s.pc maps gs) (ha : (s.abs maps).Inv gh n) (hn : n < 2 ^ 62)

include hi ha hn

theorem access_storeKey {x : α} {cur : Index} {newTail e : Nat} (hp : s.pc t = .storeKey x cur newTail e)
    (h : s.queue.access t (s.pc t) = some (q, r)) : s.Follows maps t q r := by
  rw [hp] at h
  cases h
  have hbuilt := hi.built (by rw [hp]; rfl)
  have hb := hi.building ha hn hbuilt (inserting ha (by rw [hp]; rfl)) (by rw [hp]; rfl)
  have htop := hb.top
  have hown := hb.own
  rw [hp] at htop hown
  obtain ⟨rfl, he, hnone⟩ := hown
  have htop' : (gs t).top (gs t).cur = cur.toNat / 32 := htop.trans hb.begun
  have hlt := hb.small
  have hkey : BlockIndex.blockKey ((gs t).top (gs t).cur) = cur := by
    rw [htop', BlockIndex.blockKey_of_mod hb.start]
  have hcur : cur.toNat = 32 * (gs t).top (gs t).cur := by
    have := hb.start
    omega
  have hr := hb.ring.storeKey htop' he hnone hcur (by rw [hkey, hb.free])
  refine follows_none (IndexedQueue.abs_setIndex _) (by rw [hp]; rfl)
    (hi.storesOwn (hb.owned rfl hr htop ⟨rfl, ?_, ?_⟩) (Indexed.readers ha ?_ ?_ ?_) fun _ _ _ => trivial)
  · simp only [IndexGhost.keyed, ← htop', Function.update_self]
  · simp only [IndexGhost.keyed, Function.update_self]
  · intro u i h _ _ hs
    refine ⟨hs.1, fun hh => ?_⟩
    have hne : h ≠ (gs t).cur := Nat.ne_of_lt hh
    simp only [IndexGhost.keyed, Function.update_of_ne hne]
    exact hs.2 hh
  · intro h hh
    have htl := hb.ring.high_le
    refine ⟨rfl, rfl, ?_⟩
    simp only [IndexGhost.keyed, Function.update_apply]
    split
    · next heq =>
      rw [heq]
      exact htl
    · exact Nat.le_refl _
  · intro m hm
    rw [← hb.tail, hb.begun] at hm
    exact Function.update_of_ne (by omega) _ _

/-- Here `insert_block_index_entry` takes effect. -/
theorem access_storeIndexTail {x : α} {cur : Index} {newTail e : Nat}
    (hp : s.pc t = .storeIndexTail x cur newTail e)
    (h : s.queue.access t (s.pc t) = some (q, r)) : s.Follows maps t q r := by
  have hbuilt := hi.built (t := t) (by rw [hp]; rfl)
  have hb := hi.building ha hn hbuilt (inserting ha (by rw [hp]; rfl)) (by rw [hp]; rfl)
  have htop := hb.top
  have hown := hb.own
  rw [hp] at h htop hown
  obtain ⟨rfl, he, hhigh⟩ := hown
  have htop' : (gs t).top (gs t).cur = cur.toNat / 32 := htop.trans hb.begun
  simp only [IndexedQueue.access, hb.ring.current, Option.map_some] at h
  cases h
  refine follows_one (x := .insert t true) ?_
    (hi.storesOwn (hb.owned rfl (hb.ring.storeIndexTail htop' hhigh) ?_ ⟨he, ?_⟩)
      (fun u => readers_setTail ha u) fun _ _ _ => trivial)
  · simp only [QueueThreads.act, abs, hp, IndexedPc.abs, if_true, IndexedQueue.abs_setIndex]
    rfl
  · simp only [IndexGhost.upTo, Function.update_self, htop']
    rfl
  · simp only [IndexGhost.upTo, Function.update_self, hhigh]

theorem access_rewindTail {x : α} {cur : Index} {e : Nat} (hp : s.pc t = .rewindTail x cur e)
    (h : s.queue.access t (s.pc t) = some (q, r)) : s.Follows maps t q r := by
  have hbuilt := hi.built (t := t) (by rw [hp]; rfl)
  have hb := hi.building ha hn hbuilt (requisitioning ha (by rw [hp]; rfl)) (by rw [hp]; rfl)
  have htop := hb.top
  have hown := hb.own
  rw [hp] at h htop hown
  obtain ⟨he, hhigh⟩ := hown
  have htop' : (gs t).top (gs t).cur = cur.toNat / 32 + 1 := htop
  simp only [IndexedQueue.access, hb.ring.current, Option.map_some] at h
  cases h
  refine follows_none (IndexedQueue.abs_setIndex _) (by rw [hp]; rfl)
    (hi.storesOwn (hb.owned rfl (hb.ring.rewindTail htop' hhigh) ?_ ⟨he, ?_⟩)
      (fun u => readers_setTail ha u) fun _ _ _ => trivial)
  · simp only [IndexGhost.upTo, Function.update_self]
    exact hb.begun.symm
  · simp only [IndexGhost.upTo, Function.update_self, hhigh, htop']

/-- Here the failed `requisition_block` takes effect. -/
theorem access_clearFailed {x : α} {cur : Index} {e : Nat} (hp : s.pc t = .clearFailed x cur e)
    (h : s.queue.access t (s.pc t) = some (q, r)) : s.Follows maps t q r := by
  have hbuilt := hi.built (t := t) (by rw [hp]; rfl)
  have hb := hi.building ha hn hbuilt (requisitioning ha (by rw [hp]; rfl)) (by rw [hp]; rfl)
  have htop := hb.top
  have hown := hb.own
  rw [hp] at h htop hown
  obtain ⟨rfl, hhigh⟩ := hown
  have htop' : (gs t).top (gs t).cur = cur.toNat / 32 := htop.trans hb.begun
  have hsmall := hb.small
  cases h
  have hr := hb.ring.setValue (m := cur.toNat / 32) hb.ring.base_le (by have := hb.ring.pos; omega) (by omega)
    (by omega) none
  rw [BlockIndex.blockKey_of_mod hb.start] at hr
  refine follows_one (x := .requisition t none) ?_
    (hi.storesValue (hb.owned rfl hr htop trivial) (fun u => readers_setValue u) fun _ _ _ => trivial)
  simp only [QueueThreads.act, abs, hp, IndexedPc.abs]
  rw [IndexedQueue.setIndex, IndexedQueue.abs_setProducer]
  rfl

theorem access_storeEntry {x : α} {cur : Index} {b e : Nat} (hp : s.pc t = .storeEntry x cur b e)
    (h : s.queue.access t (s.pc t) = some (q, r)) : s.Follows maps t q r := by
  have hbuilt := hi.built (t := t) (by rw [hp]; rfl)
  have hok : (s.pc t).abs.target t = some t → (s.pc t).abs.Ok _ _ _ := (ha.producer t).threads t
  rw [hp] at hok
  have hb := hi.building ha hn hbuilt (hok rfl).1 (by rw [hp]; rfl)
  have htop := hb.top
  have hown := hb.own
  rw [hp] at h htop hown
  obtain ⟨rfl, hhigh⟩ := hown
  have htop' : (gs t).top (gs t).cur = cur.toNat / 32 + 1 := htop
  have hsmall := hb.small
  cases h
  have hr := hb.ring.setValue (m := cur.toNat / 32) hb.ring.base_le (by have := hb.ring.pos; omega) (by omega)
    (by omega) (some b)
  rw [BlockIndex.blockKey_of_mod hb.start] at hr
  refine follows_next ?_
    (hi.storesValue (hb.owned rfl hr htop trivial) (fun u => readers_setValue u) fun _ _ _ => trivial)
  rw [hp, IndexedQueue.abs_setProducer]
  rfl

omit hi ha hn in
/-- `insert_block_index_entry` up to the load of the value: the entry after the tail. -/
theorem insertBlockIndexEntry_eq {ix : BlockIndex} {map : Index → Option Nat} {begun : Nat} {g : IndexGhost}
    (hr : IndexRing ix map begun g) (x : α) (cur : Index) :
    IndexedQueue.insertBlockIndexEntry ix x cur =
      let newTail := (g.top g.cur - g.base g.cur) % (ix.headers g.cur).capacity
      let idxEntry := (ix.headers g.cur).index newTail
      some (if (ix.entries idxEntry).key = INVALID_BLOCK_BASE then .inl (.storeKey x cur newTail idxEntry)
        else .inl (.checkValue x cur newTail idxEntry)) := by
  have hplace := hr.place_lt (g.top g.cur)
  simp only [IndexedQueue.insertBlockIndexEntry, hr.current, hr.window.mask_tail, IndexedQueue.slot,
    if_pos hplace, Option.map_some]

theorem access_insertEntry {x : α} {cur : Index} (hp : s.pc t = .insertEntry x cur)
    (h : s.queue.access t (s.pc t) = some (q, r)) : s.Follows maps t q r := by
  have hins : cur = _ ∧ cur.toNat % 32 = 0 := inserting ha (t := t) (x := x) (by rw [hp]; rfl)
  by_cases hbuilt : (s.queue.producers t).index.blockIndex = none
  · rw [hp] at h
    simp only [IndexedQueue.access, IndexedQueue.insertBlockIndexEntry, hbuilt, Option.map_some] at h
    cases h
    refine follows_one (x := .insert t false) ?_
      (hi.goes (fun _ => rfl) (fun _ _ => rfl) ((hi t).owned.steps rfl rfl (by rw [hp]; rfl) rfl) fun _ => trivial)
    simp only [QueueThreads.act, abs, hp, IndexedPc.abs]
    rfl
  · have hb := hi.building ha hn hbuilt hins (by rw [hp]; rfl)
    have htop := hb.top
    rw [hp] at h htop
    simp only [IndexedQueue.access, insertBlockIndexEntry_eq hb.ring, Option.map_some] at h
    cases h
    split
    · next hkey =>
      have hnone := hb.ring.value_of_invalid rfl hkey
      exact follows_none rfl (by rw [hp]; rfl) (hi.goes (fun _ => rfl) (fun _ _ => rfl)
        (hb.owned rfl hb.ring htop ⟨rfl, rfl, hnone⟩) fun _ => trivial)
    · exact follows_none rfl (by rw [hp]; rfl) (hi.goes (fun _ => rfl) (fun _ _ => rfl)
        (hb.owned rfl hb.ring htop ⟨rfl, rfl⟩) fun _ => trivial)

/-- The ring is full if the entry after its tail is in use. -/
theorem access_checkValue {x : α} {cur : Index} {newTail e : Nat} (hp : s.pc t = .checkValue x cur newTail e)
    (h : s.queue.access t (s.pc t) = some (q, r)) : s.Follows maps t q r := by
  have hbuilt := hi.built (t := t) (by rw [hp]; rfl)
  have hb := hi.building ha hn hbuilt (inserting ha (by rw [hp]; rfl)) (by rw [hp]; rfl)
  have htop := hb.top
  have hown := hb.own
  rw [hp] at h htop hown
  obtain ⟨rfl, he⟩ := hown
  have htop' : (gs t).top (gs t).cur = cur.toNat / 32 := htop.trans hb.begun
  simp only [IndexedQueue.access] at h
  split at h
  · next hnone =>
    cases h
    exact follows_none rfl (by rw [hp]; rfl) (hi.goes (fun _ => rfl) (fun _ _ => rfl)
      (hb.owned rfl hb.ring htop ⟨rfl, he, hnone⟩) fun _ => trivial)
  · next hsome =>
    cases h
    have hfree : maps t (BlockIndex.blockKey ((gs t).top (gs t).cur)) = none := by
      rw [htop', BlockIndex.blockKey_of_mod hb.start, hb.free]
    exact follows_none rfl (by rw [hp]; rfl) (hi.goes (fun _ => rfl) (fun _ _ => rfl)
      (hb.owned rfl hb.ring htop (hb.ring.full he hsome hfree)) fun _ => trivial)

omit hi ha hn in
theorem insertAfterGrowth_eq {ix : BlockIndex} {map : Index → Option Nat} {begun : Nat} {g : IndexGhost}
    (hr : IndexRing ix map begun g) (hhigh : g.high g.cur = g.top g.cur)
    (hroom : g.top g.cur < g.base g.cur + (ix.headers g.cur).capacity) (x : α) (cur : Index) :
    IndexedQueue.insertAfterGrowth ix x cur = some (.storeKey x cur
      ((g.top g.cur - g.base g.cur) % (ix.headers g.cur).capacity)
      ((ix.headers g.cur).index ((g.top g.cur - g.base g.cur) % (ix.headers g.cur).capacity))) := by
  have hplace := hr.place_lt (g.top g.cur)
  simp only [IndexedQueue.insertAfterGrowth, hr.current, Option.bind_some, hr.window.mask_tail,
    IndexedQueue.slot, if_pos hplace, if_pos (hr.next_unused hhigh hroom).1]

/-- The producer's thread at `new_block_index`. -/
theorem growing {x : α} {cur : Index} (hp : s.pc t = .growIndex x cur) :
    s.Building maps t (gs t) cur ∧ (gs t).top (gs t).cur = begun cur ∧
      (gs t).high (gs t).cur = (gs t).top (gs t).cur ∧
      (gs t).base (gs t).cur + ((s.queue.producers t).index.headers (gs t).cur).capacity ≤
        (gs t).top (gs t).cur := by
  have hbuilt := hi.built (t := t) (by rw [hp]; rfl)
  have hb := hi.building ha hn hbuilt (inserting ha (by rw [hp]; rfl)) (by rw [hp]; rfl)
  have htop := hb.top
  have hown := hb.own
  rw [hp] at htop hown
  exact ⟨hb, htop, hown⟩

/-- `new_block_index` gets memory. -/
theorem grow_follows {x : α} {cur : Index} {c : IndexedPc α} (hp : s.pc t = .growIndex x cur)
    (h : IndexedQueue.insertAfterGrowth (s.queue.producers t).index.newBlockIndex x cur = some c) :
    s.Follows maps t (s.queue.setIndex t (s.queue.producers t).index.newBlockIndex) (.inl c) := by
  obtain ⟨hb, htop, hhigh, hfull⟩ := growing hi ha hn hp
  have hsmall := hb.small
  have hr := hb.ring.grow (htop.trans hb.begun) hhigh hfull (by omega)
  obtain ⟨hhigh', hroom⟩ := hb.ring.grown_room hfull rfl
  have hnone := (hr.next_unused hhigh' hroom).2
  rw [insertAfterGrowth_eq hr hhigh' hroom] at h
  cases h
  refine follows_none (IndexedQueue.abs_setIndex _) (by rw [hp]; rfl)
    (hi.storesOwn (hb.owned rfl hr ?_ ⟨rfl, rfl, hnone⟩) (Indexed.readers (g := gs t) ha ?_ ?_ fun _ _ => rfl)
      fun _ _ _ => trivial)
  · simp only [IndexGhost.grown, Function.update_self]
    exact htop
  · intro u i h hlt hread hs
    have hne : h ≠ (gs t).cur + 1 := by have := hs.1; omega
    have hold : (s.queue.producers t).index.newBlockIndex.headers h = (s.queue.producers t).index.headers h := by
      simp only [BlockIndex.newBlockIndex, hb.ring.count]
      exact Function.update_of_ne hne _ _
    refine ⟨Nat.le_succ_of_le hs.1, fun _ => ?_⟩
    simp only [IndexGhost.grown, Function.update_of_ne hne, hold]
    rw [← hb.tail, hb.begun] at hlt
    exact IndexedPc.seen_window hb.ring hs (reading_live ha hread).1 hlt
  · intro h hh
    have hne : h ≠ (gs t).cur + 1 := by omega
    simp only [IndexGhost.grown, BlockIndex.newBlockIndex, hb.ring.count, Function.update_of_ne hne]
    exact ⟨trivial, trivial, Nat.le_refl _⟩

/-- The assertion on the key of the new ring holds. -/
theorem grow_defined {x : α} {cur : Index} (hp : s.pc t = .growIndex x cur) :
    ∃ c, IndexedQueue.insertAfterGrowth (s.queue.producers t).index.newBlockIndex x cur = some c := by
  obtain ⟨hb, htop, hhigh, hfull⟩ := growing hi ha hn hp
  have hsmall := hb.small
  have hr := hb.ring.grow (htop.trans hb.begun) hhigh hfull (by omega)
  obtain ⟨hhigh', hroom⟩ := hb.ring.grown_room hfull rfl
  exact ⟨_, insertAfterGrowth_eq hr hhigh' hroom x cur⟩

end Producer

/-! ## The accesses of a consumer -/

section Consumer

variable (hi : Indexed s.queue s.pc maps gs) (ha : (s.abs maps).Inv gh n) {i : Index}

/-- The index of the block that a consumer has an element of. -/
theorem Indexed.looked (hi : Indexed s.queue s.pc maps gs) (ha : (s.abs maps).Inv gh n)
    (hread : (s.pc t).reading = some (p, i)) :
    IndexRing (s.queue.producers p).index (maps p) (begun (s.queue.producers p).tailIndex) (gs p) := by
  refine (hi p).owned.ring fun hnone => ?_
  exact (reading_live ha hread).1 (((hi p).owned.absent hnone).1 _)

/-- The block of an index that a consumer has taken is in the last ring. -/
theorem looked_live {ix : BlockIndex} {map : Index → Option Nat} {begun : Nat} {g : IndexGhost}
    (hr : IndexRing ix map begun g) (hlive : map (blockBase i) ≠ none) :
    g.base g.cur ≤ i.toNat / 32 ∧ g.high g.cur ≤ i.toNat / 32 + (ix.headers g.cur).capacity ∧
      i.toNat / 32 < g.high g.cur := by
  have := i.isLt
  rw [← BlockIndex.blockKey_div] at hlive
  exact hr.live _ (by omega) hlive

theorem high_small (ha : (s.abs maps).Inv gh n) (hn : n < 2 ^ 62)
    (hr : IndexRing (s.queue.producers p).index (maps p) (begun (s.queue.producers p).tailIndex) (gs p)) :
    (gs p).high (gs p).cur < 2 ^ 58 := by
  have htail : (s.queue.producers p).tailIndex.toNat = (gh p).hist.length := (ha.producer p).tail
  have hlen := (ha.small p).1
  have hhigh := hr.high_le
  have htop := hr.top_le
  unfold begun at htop
  omega

include hi ha

theorem loadIndex_eq (hp : s.pc t = .loadIndex p i) :
    s.queue.access t (.loadIndex p i) = some (s.queue, .inl (.loadIndexTail p i (gs p).cur)) := by
  have hr := hi.looked ha (t := t) (p := p) (i := i) (by rw [hp]; rfl)
  simp only [IndexedQueue.access, hr.current, Option.map_some]

theorem access_loadIndex (hp : s.pc t = .loadIndex p i) (h : s.queue.access t (s.pc t) = some (q, r)) :
    s.Follows maps t q r := by
  rw [hp, loadIndex_eq hi ha hp] at h
  cases h
  refine follows_none rfl (by rw [hp]; rfl) (hi.goes (fun _ => rfl) (fun _ _ => rfl)
    ((hi t).owned.steps rfl rfl (by rw [hp]; rfl) rfl) ?_)
  rintro p' rfl
  exact ⟨Nat.le_refl _, fun hlt => absurd hlt (Nat.lt_irrefl _)⟩

theorem access_loadIndexTail {k : Nat} (hp : s.pc t = .loadIndexTail p i k)
    (h : s.queue.access t (s.pc t) = some (q, r)) : s.Follows maps t q r := by
  have hread : (s.pc t).reading = some (p, i) := by rw [hp]; rfl
  have hr := hi.looked ha hread
  obtain ⟨hlive, hlt⟩ := reading_live ha hread
  have hok := (hi p).readers t
  rw [hp] at h hok
  cases h
  have hs := hok rfl
  obtain ⟨hbase, htop, -⟩ := IndexedPc.seen_window hr hs hlive hlt
  have hw := hr.windows k hs.1
  have hle := hw.top_le
  refine follows_none rfl (by rw [hp]; rfl) (hi.goes (fun _ => rfl) (fun _ _ => rfl)
    ((hi t).owned.steps rfl rfl (by rw [hp]; rfl) rfl) ?_)
  rintro p' rfl
  exact ⟨hs, (gs p).top k - 1, by omega, by omega, hw.tail_eq (by omega)⟩

/-- **The key at the tail leads to the place of the consumer's block**, whatever the producer has done
since the tail was loaded. -/
theorem loadTailKey_eq (hn : n < 2 ^ 62) {k tail : Nat} (hp : s.pc t = .loadTailKey p i k tail) :
    IndexSeen (s.queue.producers p).index (gs p) i k ∧
      s.queue.access t (.loadTailKey p i k tail) = some (s.queue, .inl (.loadEntry p i k
        ((i.toNat / 32 - (gs p).base k) % ((s.queue.producers p).index.headers k).capacity))) := by
  have hread : (s.pc t).reading = some (p, i) := by rw [hp]; rfl
  have hr := hi.looked ha hread
  obtain ⟨hlive, hlt⟩ := reading_live ha hread
  have hok := (hi p).readers t
  rw [hp] at hok
  obtain ⟨hs, m, hle, hmlt, rfl⟩ := hok rfl
  obtain ⟨hbase, -, hin⟩ := IndexedPc.seen_window hr hs hlive hlt
  have hw := hr.windows k hs.1
  have hslot := hw.slots m (by omega) (by omega) hmlt
  have hmcur : m < (gs p).high (gs p).cur := by
    obtain rfl | hne := Nat.eq_or_lt_of_le hs.1
    · exact hmlt
    · have := (hr.older k hne).2
      omega
  obtain ⟨hb, hin', -⟩ := looked_live hr hlive
  have hkey := (hr.keys m (by omega) (by omega) hmcur).1
  have hvalid : ((s.queue.producers p).index.entries ((gs p).entryOf m)).key ≠ INVALID_BLOCK_BASE := by
    intro hinvalid
    rw [hinvalid] at hkey
    have hone : INVALID_BLOCK_BASE.toNat = 1 := rfl
    omega
  have hsmall := high_small ha hn hr
  have hplace := Nat.mod_lt (m - (gs p).base k) hw.pos
  refine ⟨hs, ?_⟩
  simp only [IndexedQueue.access, IndexedQueue.slot, if_pos hplace, hslot, Option.bind_some, if_neg hvalid]
  rw [hw.lookup (by omega) hkey hbase hle]

theorem access_loadTailKey (hn : n < 2 ^ 62) {k tail : Nat} (hp : s.pc t = .loadTailKey p i k tail)
    (h : s.queue.access t (s.pc t) = some (q, r)) : s.Follows maps t q r := by
  obtain ⟨hs, heq⟩ := loadTailKey_eq hi ha hn hp
  rw [hp, heq] at h
  cases h
  refine follows_none rfl (by rw [hp]; rfl) (hi.goes (fun _ => rfl) (fun _ _ => rfl)
    ((hi t).owned.steps rfl rfl (by rw [hp]; rfl) rfl) ?_)
  rintro p' rfl
  exact ⟨hs, rfl⟩

/-- The entry there is that of the block, and has what the map says. -/
theorem loadEntry_eq {k idx : Nat} (hp : s.pc t = .loadEntry p i k idx) :
    s.queue.access t (.loadEntry p i k idx) = (maps p (blockBase i)).map fun b =>
      (s.queue, .inl (.moveElement p i b ((gs p).entryOf (i.toNat / 32)))) := by
  have hread : (s.pc t).reading = some (p, i) := by rw [hp]; rfl
  have hr := hi.looked ha hread
  obtain ⟨hlive, hlt⟩ := reading_live ha hread
  have hok := (hi p).readers t
  rw [hp] at hok
  obtain ⟨hs, rfl⟩ := hok rfl
  obtain ⟨hbase, htop, hin⟩ := IndexedPc.seen_window hr hs hlive hlt
  have hw := hr.windows k hs.1
  have hslot := hw.slots _ hbase hin (Nat.lt_of_lt_of_le htop hw.top_le)
  obtain ⟨hb, hin', hlt'⟩ := looked_live hr hlive
  obtain ⟨hkey, hvalue⟩ := hr.keys _ hb hin' hlt'
  rw [BlockIndex.blockKey_div] at hvalue
  have hkey' : ((s.queue.producers p).index.entries ((gs p).entryOf (i.toNat / 32))).key = blockBase i := by
    apply BitVec.eq_of_toNat_eq
    rw [hkey, blockBase_toNat, Nat.mul_comm]
  have hplace := Nat.mod_lt (i.toNat / 32 - (gs p).base k) hw.pos
  simp only [IndexedQueue.access, IndexedQueue.slot, if_pos hplace, hslot, Option.bind_some, if_pos hkey', hvalue]

theorem access_loadEntry {k idx : Nat} (hp : s.pc t = .loadEntry p i k idx)
    (h : s.queue.access t (s.pc t) = some (q, r)) : s.Follows maps t q r := by
  rw [hp, loadEntry_eq hi ha hp] at h
  obtain ⟨b, hmap, heq⟩ := Option.map_eq_some_iff.mp h
  cases heq
  refine follows_next ?_ (hi.goes (fun _ => rfl) (fun _ _ => rfl)
    ((hi t).owned.steps rfl rfl (by rw [hp]; rfl) rfl) ?_)
  · rw [hp]
    show ((maps p) (blockBase i)).map _ = _
    rw [hmap]
    rfl
  · rintro p' rfl
    rfl

theorem access_clearEntry (hn : n < 2 ^ 62) {b e : Nat} {x : α} (hp : s.pc t = .clearEntry p i b e x)
    (h : s.queue.access t (s.pc t) = some (q, r)) : s.Follows maps t q r := by
  have hread : (s.pc t).reading = some (p, i) := by rw [hp]; rfl
  have hr := hi.looked ha hread
  obtain ⟨hlive, hlt⟩ := reading_live ha hread
  have hok := (hi p).readers t
  rw [hp] at h hok
  obtain rfl := hok rfl
  obtain ⟨hb, hin', hlt'⟩ := looked_live hr hlive
  have hr' := hr.setValue hb hin' hlt' (by have := high_small ha hn hr; omega) none
  rw [BlockIndex.blockKey_div] at hr'
  have hbuilt : (s.queue.producers p).index.blockIndex ≠ none := by
    rw [hr.current]
    simp
  have howned := (hi p).owned
  cases h
  refine follows_next ?_ (hi.stores (p := p)
    ⟨fun hnone => absurd hnone hbuilt, fun _ => hr', fun _ => ?_, fun _ => ?_⟩
    (fun _ => (hi t).owned.steps rfl rfl (by rw [hp]; rfl) rfl) (fun u _ => readers_setValue u)
    fun _ _ _ => trivial)
  · rw [hp, IndexedQueue.setIndex, IndexedQueue.abs_setProducer]
    rfl
  · by_cases hpt : p = t
    · subst hpt
      rw [Function.update_self]
      have htop := howned.top hbuilt
      rwa [hp] at htop
    · rw [Function.update_of_ne hpt]
      exact howned.top hbuilt
  · by_cases hpt : p = t
    · subst hpt
      rw [Function.update_self]
      exact trivial
    · rw [Function.update_of_ne hpt]
      exact ownOk_clear (howned.own hbuilt)

end Consumer

/-! ## Accesses that have nothing to do with the index -/

theorem field_setProducer {β : Type} (f : IndexedProducer → β) {P : IndexedProducer}
    (h : f P = f (s.queue.producers p)) (p' : Nat) :
    f ((s.queue.setProducer p P).producers p') = f (s.queue.producers p') :=
  (Function.forall_update_iff s.queue.producers fun p' P' => f P' = f (s.queue.producers p')).mpr
    ⟨h, fun _ _ => rfl⟩ p'

/-- The thread prepares no entry and has no place in an index. -/
theorem follows_quiet (hi : Indexed s.queue s.pc maps gs)
    (hindex : ∀ p, (q.producers p).index = (s.queue.producers p).index)
    (htail : ∀ p, (q.producers p).tailIndex = (s.queue.producers p).tailIndex)
    (habs : (s.queue.abs maps).access t (s.pc t).abs = some (q.abs maps, absRes r))
    (hpublished : (after r).published = (s.pc t).published) (hindexed : (after r).indexed = false)
    (hread : ∀ p, (after r).ReadOk p (s.queue.producers p).index (gs p)) : s.Follows maps t q r :=
  follows_next habs (hi.goes hindex (fun p _ => htail p)
    ((hi t).owned.steps (hindex t) (htail t) hpublished hindexed) hread)

section Quiet

variable (hi : Indexed s.queue s.pc maps gs)

include hi

theorem access_loadTail {x : α} (hp : s.pc t = .loadTail x) (h : s.queue.access t (s.pc t) = some (q, r)) :
    s.Follows maps t q r := by
  rw [hp] at h
  cases h
  by_cases hstart : blockOffset (s.queue.producers t).tailIndex = 0
  · rw [if_pos hstart]
    refine follows_quiet hi (fun _ => rfl) (fun _ => rfl) ?_ (by rw [hp]; rfl) rfl fun _ => trivial
    rw [hp]
    exact congrArg some (congrArg (Prod.mk _) (congrArg Sum.inl (if_pos hstart)))
  · rw [if_neg hstart]
    refine follows_next ?_ (hi.goes (fun _ => rfl) (fun _ _ => rfl)
      ((hi t).owned.goes rfl rfl (fun _ _ => rfl) (fun _ => ?_) fun _ => trivial) fun _ => trivial)
    · rw [hp]
      exact congrArg some (congrArg (Prod.mk _) (congrArg Sum.inl (if_neg hstart)))
    · rw [blockOffset_eq_zero] at hstart
      rw [hp]
      show (s.queue.producers t).tailIndex.toNat / 32 + 1 = begun _
      unfold begun
      omega

theorem access_loadHead {x : α} {cur : Index} (hp : s.pc t = .loadHead x cur)
    (h : s.queue.access t (s.pc t) = some (q, r)) : s.Follows maps t q r := by
  rw [hp] at h
  simp only [IndexedQueue.access] at h
  split at h
  · next hless =>
    cases h
    refine follows_quiet hi (fun _ => rfl) (fun _ => rfl) ?_ (by rw [hp]; rfl) rfl fun _ => trivial
    rw [hp]
    exact if_pos hless
  · next hless =>
    cases h
    refine follows_quiet hi (fun _ => rfl) (fun _ => rfl) ?_ (by rw [hp]; rfl) rfl fun _ => trivial
    rw [hp]
    exact if_neg hless

theorem access_resetEmpty {x : α} {cur : Index} {b e : Nat} (hp : s.pc t = .resetEmpty x cur b e)
    (h : s.queue.access t (s.pc t) = some (q, r)) : s.Follows maps t q r := by
  rw [hp] at h
  obtain ⟨B, hB, heq⟩ := Option.map_eq_some_iff.mp h
  cases heq
  have howned := (hi t).owned
  rw [hp] at howned
  refine follows_next ?_ (hi.goes (fun _ => rfl) (fun _ _ => rfl)
    (howned.goes rfl rfl (fun _ => id) (fun _ => rfl) howned.own) fun _ => trivial)
  rw [hp]
  simp only [IndexedPc.abs, ConcurrentQueue.access, IndexedQueue.abs_deref, hB, Option.map_some]
  rfl

theorem access_construct {x : α} {cur : Index} (hp : s.pc t = .construct x cur)
    (h : s.queue.access t (s.pc t) = some (q, r)) : s.Follows maps t q r := by
  rw [hp] at h
  obtain ⟨b, hb, h⟩ := Option.bind_eq_some_iff.mp h
  obtain ⟨B, hB, heq⟩ := Option.map_eq_some_iff.mp h
  cases heq
  refine follows_quiet hi (fun _ => rfl) (fun _ => rfl) ?_ (by rw [hp]; rfl) rfl fun _ => trivial
  rw [hp]
  have hb' : ((s.queue.abs maps).producers t).tailBlock = some b := hb
  simp only [IndexedPc.abs, ConcurrentQueue.access, hb', Option.bind_some, IndexedQueue.abs_deref, hB,
    Option.map_some]
  rfl

theorem access_storeTail (ha : (s.abs maps).Inv gh n) (hn : n < 2 ^ 62) {x : α} {cur : Index}
    (hp : s.pc t = .storeTail x cur) (h : s.queue.access t (s.pc t) = some (q, r)) : s.Follows maps t q r := by
  have hok : (s.pc t).abs.target t = some t → (s.pc t).abs.Ok _ _ _ := (ha.producer t).threads t
  rw [hp] at h hok
  have hcur : cur = (s.queue.producers t).tailIndex := (hok rfl).1
  have htail : (s.queue.producers t).tailIndex.toNat = (gh t).hist.length := (ha.producer t).tail
  have hsmall := (ha.small t).1
  have hnext : (1 + cur).toNat = cur.toNat + 1 := by
    rw [BitVec.toNat_add, hcur]
    show (1 + _) % _ = _
    omega
  have hbegun : begun (1 + cur) = cur.toNat / 32 + 1 := by
    unfold begun
    omega
  have howned := (hi t).owned
  rw [hp] at howned
  cases h
  refine follows_next ?_ (hi.goes (fun p => ?_) (fun p hpt => ?_) ?_ fun _ => trivial)
  · rw [hp, IndexedQueue.abs_setProducer_same]
    rfl
  · refine field_setProducer IndexedProducer.index ?_ p
    rfl
  · simp only [IndexedQueue.setProducer, Function.update_of_ne hpt]
  · simp only [IndexedQueue.setProducer, Function.update_self]
    refine ⟨fun hnone => ⟨(howned.absent hnone).1, rfl⟩, fun hbuilt => ?_, fun hbuilt => ?_, fun _ => trivial⟩
    · have htop : (gs t).top (gs t).cur = cur.toNat / 32 + 1 := by
        rw [hcur]
        exact howned.top hbuilt
      show IndexRing (s.queue.producers t).index (maps t) (begun (1 + cur)) (gs t)
      refine (howned.ring hbuilt).begin_block ?_ (by rw [hbegun, htop])
      rw [hbegun, ← hcur]
      unfold begun
      omega
    · show (gs t).top (gs t).cur = begun (1 + cur)
      rw [hbegun, hcur]
      exact howned.top hbuilt

theorem access_readOptimistic {tail overcommit : Index} (hp : s.pc t = .readOptimistic p tail overcommit)
    (h : s.queue.access t (s.pc t) = some (q, r)) : s.Follows maps t q r := by
  rw [hp] at h
  simp only [IndexedQueue.access] at h
  split at h
  · next hless =>
    cases h
    refine follows_quiet hi (fun _ => rfl) (fun _ => rfl) ?_ (by rw [hp]; rfl) rfl fun _ => trivial
    rw [hp]
    exact if_pos hless
  · next hless =>
    cases h
    refine follows_quiet hi (fun _ => rfl) (fun _ => rfl) ?_ (by rw [hp]; rfl) rfl fun _ => trivial
    rw [hp]
    exact if_neg hless

theorem access_rereadTail {overcommit my : Index} (hp : s.pc t = .rereadTail p overcommit my)
    (h : s.queue.access t (s.pc t) = some (q, r)) : s.Follows maps t q r := by
  rw [hp] at h
  cases h
  by_cases hless : circularLessThan (my - overcommit) (s.queue.producers p).tailIndex = true
  · rw [if_pos hless]
    refine follows_quiet hi (fun _ => rfl) (fun _ => rfl) ?_ (by rw [hp]; rfl) rfl fun _ => trivial
    rw [hp]
    exact congrArg some (congrArg (Prod.mk _) (congrArg Sum.inl (if_pos hless)))
  · rw [if_neg hless]
    refine follows_quiet hi (fun _ => rfl) (fun _ => rfl) ?_ (by rw [hp]; rfl) rfl fun _ => trivial
    rw [hp]
    exact congrArg some (congrArg (Prod.mk _) (congrArg Sum.inl (if_neg hless)))

/-- A counter of the producer goes up. -/
theorem follows_counter {P : IndexedProducer} (hindex : P.index = (s.queue.producers p).index)
    (htail : P.tailIndex = (s.queue.producers p).tailIndex)
    (habs : (s.queue.abs maps).access t (s.pc t).abs =
      some ((s.queue.abs maps).setProducer p (P.abs (maps p)), absRes r))
    (hpublished : (after r).published = (s.pc t).published) (hindexed : (after r).indexed = false)
    (hread : ∀ p, (after r).ReadOk p (s.queue.producers p).index (gs p)) :
    s.Follows maps t (s.queue.setProducer p P) r :=
  follows_quiet hi (field_setProducer IndexedProducer.index hindex)
    (field_setProducer IndexedProducer.tailIndex htail)
    (by rw [habs, IndexedQueue.abs_setProducer_same]) hpublished hindexed hread

theorem access_counter (hp : (∃ overcommit, s.pc t = .addOptimistic p overcommit) ∨
    (∃ my, s.pc t = .addHead p my) ∨ ∃ my, s.pc t = .addOvercommit p my)
    (h : s.queue.access t (s.pc t) = some (q, r)) : s.Follows maps t q r := by
  obtain ⟨overcommit, hp⟩ | ⟨my, hp⟩ | ⟨my, hp⟩ := hp
  · rw [hp] at h
    cases h
    exact follows_counter hi rfl rfl (by rw [hp]; rfl) (by rw [hp]; rfl) rfl fun _ => trivial
  · rw [hp] at h
    cases h
    exact follows_counter hi rfl rfl (by rw [hp]; rfl) (by rw [hp]; rfl) rfl fun _ => trivial
  · rw [hp] at h
    cases h
    exact follows_counter hi rfl rfl (by rw [hp]; rfl) (by rw [hp]; rfl) rfl fun _ => trivial

theorem access_moveElement {i : Index} {b e : Nat} (hp : s.pc t = .moveElement p i b e)
    (h : s.queue.access t (s.pc t) = some (q, r)) : s.Follows maps t q r := by
  have hread := fun p => (hi p).readers t
  rw [hp] at h hread
  obtain ⟨B, hB, h⟩ := Option.bind_eq_some_iff.mp h
  obtain ⟨x, hx, heq⟩ := Option.map_eq_some_iff.mp h
  cases heq
  refine follows_quiet hi (fun _ => rfl) (fun _ => rfl) ?_ (by rw [hp]; rfl) rfl hread
  rw [hp]
  simp only [IndexedPc.abs, ConcurrentQueue.access, IndexedQueue.abs_deref, hB, Option.bind_some, hx,
    Option.map_some]
  rfl

theorem access_setEmpty {i : Index} {b e : Nat} {x : α} (hp : s.pc t = .setEmpty p i b e x)
    (h : s.queue.access t (s.pc t) = some (q, r)) : s.Follows maps t q r := by
  have hread := fun p => (hi p).readers t
  rw [hp] at h hread
  obtain ⟨B, hB, heq⟩ := Option.map_eq_some_iff.mp h
  by_cases hlast : B.elementsCompletelyDequeued = BLOCK_SIZE - 1
  · rw [if_pos hlast] at heq
    cases heq
    refine follows_quiet hi (fun _ => rfl) (fun _ => rfl) ?_ (by rw [hp]; rfl) rfl hread
    rw [hp]
    simp only [IndexedPc.abs, ConcurrentQueue.access, IndexedQueue.abs_deref, hB, Option.map_some, if_pos hlast]
    rfl
  · rw [if_neg hlast] at heq
    cases heq
    refine follows_quiet hi (fun _ => rfl) (fun _ => rfl) ?_ (by rw [hp]; rfl) rfl fun _ => trivial
    rw [hp]
    simp only [IndexedPc.abs, ConcurrentQueue.access, IndexedQueue.abs_deref, hB, Option.map_some, if_neg hlast]
    rfl

theorem access_giveBlock {b : Nat} {x : α} (hp : s.pc t = .giveBlock b x)
    (h : s.queue.access t (s.pc t) = some (q, r)) : s.Follows maps t q r := by
  rw [hp] at h
  cases h
  have hproducers : (s.queue.addBlockToFreeList b).producers = s.queue.producers := by
    unfold IndexedQueue.addBlockToFreeList
    split <;> rfl
  refine follows_quiet hi (fun p => by rw [hproducers]) (fun p => by rw [hproducers]) ?_ (by rw [hp]; rfl) rfl
    fun _ => trivial
  rw [hp, IndexedQueue.abs_addBlockToFreeList]
  rfl

/-- The reads of `tailIndex` and `dequeueOvercommit`. -/
theorem access_read (hp : s.pc t = .readTail p ∨ ∃ tail, s.pc t = .readOvercommit p tail)
    (h : s.queue.access t (s.pc t) = some (q, r)) : s.Follows maps t q r := by
  obtain hp | ⟨tail, hp⟩ := hp
  · rw [hp] at h
    cases h
    exact follows_quiet hi (fun _ => rfl) (fun _ => rfl) (by rw [hp]; rfl) (by rw [hp]; rfl) rfl fun _ => trivial
  · rw [hp] at h
    cases h
    exact follows_quiet hi (fun _ => rfl) (fun _ => rfl) (by rw [hp]; rfl) (by rw [hp]; rfl) rfl fun _ => trivial

end Quiet

end IndexedThreads

end Us2d
