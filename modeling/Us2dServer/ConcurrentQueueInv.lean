import Us2dServer.ConcurrentQueue
import Us2dServer.Lib.Tickets
import Mathlib.Data.Finset.Card
import Mathlib.Order.Interval.Finset.Nat

/-!
# What every access of the queue keeps

`ProducerInv` ties a producer to the elements that were ever enqueued at it: the counters count the
tickets (`Lib.Tickets`), an element whose index has not been moved out stands in its slot, and the
count of a block is the number of its indexes that are done.  There is one lemma for each access of
a thread whose target is the producer, and `ProducerInv.frame` for all others.
-/

namespace Us2d

open Transition AtomicObject

/-! ## Indexes -/

theorem circularLessThan_iff {a b : Index} (ha : a.toNat < 2 ^ 63) (hb : b.toNat < 2 ^ 63) :
    circularLessThan a b = true ↔ a.toNat < b.toNat := by
  unfold circularLessThan
  have h63 : (1#64 <<< 63).toNat = 2 ^ 63 := by decide
  rw [decide_eq_true_eq, BitVec.lt_def, h63, BitVec.toNat_sub]
  omega

theorem blockOffset_toNat (i : Index) : (blockOffset i).toNat = i.toNat % 32 := by
  have h31 : (BitVec.ofNat 64 (BLOCK_SIZE - 1)).toNat = 2 ^ 5 - 1 := by decide
  rw [blockOffset, BitVec.toNat_and, h31, Nat.and_two_pow_sub_one_eq_mod]

theorem blockBase_eq (i : Index) : blockBase i = i >>> 5 <<< 5 := by
  apply BitVec.eq_of_getLsbD_eq
  intro j hj
  have hmask : ∀ j, j < 64 → (~~~(BitVec.ofNat 64 (BLOCK_SIZE - 1))).getLsbD j = decide (5 ≤ j) := by
    decide
  rw [blockBase, BitVec.getLsbD_and, hmask j hj, BitVec.getLsbD_shiftLeft, BitVec.getLsbD_ushiftRight]
  by_cases h5 : 5 ≤ j
  · simp [h5, hj, Nat.not_lt.mpr h5]
  · simp [h5, Nat.lt_of_not_le h5]

theorem blockBase_toNat (i : Index) : (blockBase i).toNat = i.toNat / 32 * 32 := by
  rw [blockBase_eq, BitVec.toNat_shiftLeft, BitVec.toNat_ushiftRight, Nat.shiftLeft_eq,
    Nat.shiftRight_eq_div_pow]
  have := i.isLt
  omega

/-- An index is its block and its place there. -/
theorem eq_of_base_offset {i j : Index} (hb : blockBase i = blockBase j)
    (ho : blockOffset i = blockOffset j) : i = j := by
  have h1 := congrArg BitVec.toNat hb
  have h2 := congrArg BitVec.toNat ho
  rw [blockBase_toNat, blockBase_toNat] at h1
  rw [blockOffset_toNat, blockOffset_toNat] at h2
  apply BitVec.eq_of_toNat_eq
  omega

theorem blockBase_eq_of_mem {i key : Index} (hkey : key.toNat % 32 = 0) (hle : key.toNat ≤ i.toNat)
    (hlt : i.toNat < key.toNat + 32) : blockBase i = key := by
  apply BitVec.eq_of_toNat_eq
  rw [blockBase_toNat]
  omega

theorem blockOffset_eq_zero {i : Index} : blockOffset i = 0 ↔ i.toNat % 32 = 0 := by
  rw [← blockOffset_toNat, ← BitVec.toNat_inj]
  rfl

theorem blockBase_of_mod {i : Index} (h : i.toNat % 32 = 0) : blockBase i = i := by
  apply BitVec.eq_of_toNat_eq
  rw [blockBase_toNat]
  omega

theorem toNat_succ {i : Index} {n : Nat} (h : i.toNat < n) (hn : n ≤ 2 ^ 63) :
    (i + 1).toNat = i.toNat + 1 := by
  rw [BitVec.toNat_add]
  show (i.toNat + 1) % 2 ^ 64 = _
  omega

/-! ## What the threads know -/

/-- What the counters do not tell: the elements that were enqueued, the fates of the tickets, and
the indexes whose element has been moved out, and those that are counted as dequeued. -/
structure QueueGhost (α : Type) where
  hist : List α
  fates : List Tickets.Fate
  moved : Finset Nat
  done : Finset Nat

namespace QueuePc

variable {α : Type}

/-- What a thread knows of the tickets of the producer `p`. -/
def ticketView (p : Nat) : QueuePc α → Tickets.View
  | .readOptimistic p' _ overcommit => if p' = p then .saw overcommit.toNat else .out
  | .addOptimistic p' overcommit => if p' = p then .saw overcommit.toNat else .out
  | .rereadTail p' overcommit my => if p' = p then .deciding overcommit.toNat my.toNat else .out
  | .addHead p' my => if p' = p then .granted my.toNat else .out
  | .addOvercommit p' my => if p' = p then .failed my.toNat else .out
  | _ => .out

/-- The producer whose state matters to the thread. -/
def target (thread : Nat) : QueuePc α → Option Nat
  | .idle => none
  | .giveBlock _ _ => none
  | .readTail p => some p
  | .readOvercommit p _ => some p
  | .readOptimistic p _ _ => some p
  | .addOptimistic p _ => some p
  | .rereadTail p _ _ => some p
  | .addHead p _ => some p
  | .addOvercommit p _ => some p
  | .loadEntry p _ => some p
  | .moveElement p _ _ => some p
  | .setEmpty p _ _ _ => some p
  | .clearEntry p _ _ _ => some p
  | _ => some thread

/-- The producer has published the block that its tail is in, even at the start of the block. -/
def building : QueuePc α → Bool
  | .construct _ _ => true
  | .storeTail _ _ => true
  | _ => false

/-- The index that a consumer has taken and not yet counted as dequeued. -/
def holding : QueuePc α → Option Index
  | .loadEntry _ i => some i
  | .moveElement _ i _ => some i
  | .setEmpty _ i _ _ => some i
  | _ => none

/-- The block that a consumer is about to take out of the index. -/
def clearing : QueuePc α → Option Index
  | .clearEntry _ i _ _ => some (blockBase i)
  | _ => none

/-- The block that a thread holds outside the index. -/
def inHand : QueuePc α → Option Nat
  | .resetEmpty _ _ b => some b
  | .storeEntry _ _ b => some b
  | .giveBlock b _ => some b
  | _ => none

/-- The thread is in `dequeue`. -/
def consuming : QueuePc α → Bool
  | .idle => false
  | .loadTail _ => false
  | .loadHead _ _ => false
  | .insertEntry _ _ => false
  | .requisition _ _ => false
  | .resetEmpty _ _ _ => false
  | .storeEntry _ _ _ => false
  | .construct _ _ => false
  | .storeTail _ _ => false
  | _ => true

/-- What a thread whose target is the producer knows of it. -/
def Ok (P : ImplicitProducer) (blocks : Nat → Block α) (g : QueueGhost α) : QueuePc α → Prop
  | .loadHead _ cur => cur = P.tailIndex ∧ cur.toNat % 32 = 0
  | .insertEntry _ cur => cur = P.tailIndex ∧ cur.toNat % 32 = 0
  | .requisition _ cur => cur = P.tailIndex ∧ cur.toNat % 32 = 0
  | .resetEmpty _ cur _ => cur = P.tailIndex ∧ cur.toNat % 32 = 0
  | .storeEntry _ cur b =>
    (cur = P.tailIndex ∧ cur.toNat % 32 = 0) ∧ (blocks b).elementsCompletelyDequeued = 0
  | .construct _ cur => cur = P.tailIndex
  | .storeTail x cur => cur = P.tailIndex ∧
    ∀ b, P.blockIndex (blockBase cur) = some b → (blocks b).elements (blockOffset cur) = some x
  | .loadEntry _ i => i.toNat < P.headIndex.toNat ∧ i.toNat ∉ g.moved
  | .moveElement _ i b => (i.toNat < P.headIndex.toNat ∧ i.toNat ∉ g.moved) ∧
    P.blockIndex (blockBase i) = some b
  | .setEmpty _ i b x => (i.toNat ∈ g.moved ∧ i.toNat ∉ g.done) ∧
    P.blockIndex (blockBase i) = some b ∧ g.hist[i.toNat]? = some x
  | .clearEntry _ i b _ => P.blockIndex (blockBase i) = some b ∧
    ∀ i', blockBase i' = blockBase i → i'.toNat ∈ g.done
  | _ => True

end QueuePc

/-- The indexes of a block that are counted as dequeued. -/
def QueueGhost.doneIn {α : Type} (g : QueueGhost α) (key : Index) : Finset Nat :=
  g.done.filter fun k => k / 32 * 32 = key.toNat

namespace QueueGhost

variable {α : Type} {g : QueueGhost α} {i key : Index}

theorem doneIn_insert (h : i.toNat ∉ g.done) :
    (QueueGhost.doneIn { g with done := insert i.toNat g.done } key).card =
      (g.doneIn key).card + if key = blockBase i then 1 else 0 := by
  unfold doneIn
  rw [Finset.filter_insert]
  by_cases hkey : key = blockBase i
  · rw [if_pos (by rw [hkey, blockBase_toNat]), if_pos hkey, Finset.card_insert_of_notMem]
    intro hm
    exact h (Finset.mem_filter.mp hm).1
  · rw [if_neg (fun heq => hkey (BitVec.eq_of_toNat_eq (by rw [blockBase_toNat, heq]))), if_neg hkey]
    rfl

/-- A block with 32 indexes counted is done. -/
theorem mem_of_card_doneIn (h : (g.doneIn (blockBase i)).card = BLOCK_SIZE) {i' : Index}
    (hi' : blockBase i' = blockBase i) : i'.toNat ∈ g.done := by
  have hsub : g.doneIn (blockBase i) ⊆
      Finset.Ico (blockBase i).toNat ((blockBase i).toNat + BLOCK_SIZE) := by
    intro k hk
    have hk' := (Finset.mem_filter.mp hk).2
    rw [Finset.mem_Ico]
    unfold BLOCK_SIZE
    omega
  have hall := Finset.eq_of_subset_of_card_le hsub (by rw [h, Nat.card_Ico]; omega)
  have hmem : i'.toNat ∈ g.doneIn (blockBase i) := by
    rw [hall, Finset.mem_Ico, ← hi', blockBase_toNat]
    unfold BLOCK_SIZE
    omega
  exact (Finset.mem_filter.mp hmem).1

/-- A block whose indexes are all done has 32 of them counted. -/
theorem card_doneIn (hkey : key.toNat % 32 = 0)
    (h : ∀ k, key.toNat ≤ k → k < key.toNat + BLOCK_SIZE → k ∈ g.done) :
    (g.doneIn key).card = BLOCK_SIZE := by
  have hall : g.doneIn key = Finset.Ico key.toNat (key.toNat + BLOCK_SIZE) := by
    ext k
    rw [doneIn, Finset.mem_filter, Finset.mem_Ico]
    constructor
    · rintro ⟨-, hk⟩
      unfold BLOCK_SIZE
      omega
    · rintro ⟨hle, hlt⟩
      refine ⟨h k hle hlt, ?_⟩
      unfold BLOCK_SIZE at hlt
      omega
  rw [hall, Nat.card_Ico]
  omega

end QueueGhost

/-- The producer `p`, and what the threads know of it. -/
structure ProducerInv {α : Type} (p : Nat) (P : ImplicitProducer) (blocks : Nat → Block α)
    (pc : Nat → QueuePc α) (g : QueueGhost α) : Prop where
  tail : P.tailIndex.toNat = g.hist.length
  head : P.headIndex.toNat = g.fates.count .claimed
  optimistic : P.dequeueOptimisticCount.toNat = g.fates.length
  overcommit : P.dequeueOvercommit.toNat = g.fates.count .repaid
  tickets : Tickets.Inv g.hist.length g.fates fun t => (pc t).ticketView p
  done_sub : g.done ⊆ g.moved
  moved_lt : ∀ k ∈ g.moved, k < P.headIndex.toNat
  keys : ∀ key b, P.blockIndex key = some b → key.toNat % 32 = 0 ∧
    (key.toNat < g.hist.length ∨ key.toNat = g.hist.length ∧ (pc p).building = true)
  entry : ∀ i : Index, i.toNat < g.hist.length → i.toNat ∉ g.done →
    ∃ b, P.blockIndex (blockBase i) = some b
  slot : ∀ (i : Index) (x : α) (b : Nat), g.hist[i.toNat]? = some x → i.toNat ∉ g.moved →
    P.blockIndex (blockBase i) = some b → (blocks b).elements (blockOffset i) = some x
  count : ∀ key b, P.blockIndex key = some b →
    (blocks b).elementsCompletelyDequeued = (g.doneIn key).card
  tailBlock : P.tailIndex.toNat % 32 ≠ 0 ∨ (pc p).building = true →
    ∃ b, P.tailBlock = some b ∧ P.blockIndex (blockBase P.tailIndex) = some b
  threads : ∀ t, (pc t).target t = some p → (pc t).Ok P blocks g
  holdingUnique : ∀ t u i, (pc t).target t = some p → (pc u).target u = some p →
    (pc t).holding = some i → (pc u).holding = some i → t = u
  clearingUnique : ∀ t u key, (pc t).target t = some p → (pc u).target u = some p →
    (pc t).clearing = some key → (pc u).clearing = some key → t = u
  held : ∀ i : Index, i.toNat < P.headIndex.toNat → i.toNat ∉ g.done →
    ∃ t, (pc t).target t = some p ∧ (pc t).holding = some i
  cleared : ∀ key b, P.blockIndex key = some b → (g.doneIn key).card = BLOCK_SIZE →
    ∃ t, (pc t).target t = some p ∧ (pc t).clearing = some key

/-- Where a block is. -/
inductive BlockPlace
  | free
  | destroyed
  | hand (thread : Nat)
  | entry (producer : Nat) (key : Index)
deriving DecidableEq

namespace QueueThreads

variable {α : Type}

def Holds (s : QueueThreads α) : BlockPlace → Nat → Prop
  | .free, b => b ∈ s.queue.freeList
  | .destroyed, b => b ∈ s.queue.destroyed
  | .hand t, b => (s.pc t).inHand = some b
  | .entry p key, b => (s.queue.producers p).blockIndex key = some b

structure Custody (s : QueueThreads α) : Prop where
  lt : ∀ pl b, s.Holds pl b → b < s.queue.created
  unique : ∀ pl pl' b, s.Holds pl b → s.Holds pl' b → pl = pl'
  nodup : s.queue.freeList.Nodup ∧ s.queue.destroyed.Nodup
  somewhere : ∀ b, b < s.queue.created → ∃ pl, s.Holds pl b

/-- `n` accesses at most have been made so far. -/
structure Inv (s : QueueThreads α) (gh : Nat → QueueGhost α) (n : Nat) : Prop where
  producer : ∀ p, ProducerInv p (s.queue.producers p) s.queue.blocks s.pc (gh p)
  custody : s.Custody
  small : ∀ p, (gh p).hist.length ≤ n ∧ (gh p).fates.length ≤ n

end QueueThreads

/-! ## One producer -/

namespace QueuePc

variable {α : Type} {p t : Nat} {P P' : ImplicitProducer} {blocks blocks' : Nat → Block α}
  {c : QueuePc α} {g g' : QueueGhost α}

theorem ticketView_of_target (h : c.target t ≠ some p) : c.ticketView p = .out := by
  cases c <;> simp_all [ticketView, target]

theorem target_of_building (h : c.building = true) : c.target t = some t := by
  cases c <;> first | rfl | cases h

theorem clearing_eq_some {key : Index} (h : c.clearing = some key) :
    ∃ p' i b x, c = .clearEntry p' i b x ∧ blockBase i = key := by
  cases c with
  | clearEntry p' i b x => exact ⟨p', i, b, x, rfl, Option.some.inj h⟩
  | _ => cases h

/-- What a thread knows stays true when the producer goes on, except for the index that it holds,
the block that it clears or has in its hand, and its own slot. -/
theorem Ok.mono (h : c.Ok P blocks g) (htarget : c.target t = some p)
    (htail : t = p → P'.tailIndex = P.tailIndex) (hhead : P.headIndex.toNat ≤ P'.headIndex.toNat)
    (hmoved : g.moved ⊆ g'.moved)
    (hmoved' : ∀ i, c.holding = some i → i.toNat ∉ g.moved → i.toNat ∉ g'.moved)
    (hdone : g.done ⊆ g'.done)
    (hdone' : ∀ i, c.holding = some i → i.toNat ∉ g.done → i.toNat ∉ g'.done)
    (hhist : ∀ (k : Nat) (x : α), g.hist[k]? = some x → g'.hist[k]? = some x)
    (hentry : ∀ i b, c.holding = some i ∨ c.clearing = some (blockBase i) →
      P.blockIndex (blockBase i) = some b → P'.blockIndex (blockBase i) = some b)
    (hhand : ∀ b, c.inHand = some b →
      (blocks' b).elementsCompletelyDequeued = (blocks b).elementsCompletelyDequeued)
    (hslot : t = p → ∀ b, P'.blockIndex (blockBase P.tailIndex) = some b →
      P.blockIndex (blockBase P.tailIndex) = some b ∧
        (blocks' b).elements (blockOffset P.tailIndex) = (blocks b).elements (blockOffset P.tailIndex)) :
    c.Ok P' blocks' g' := by
  cases c with
  | loadHead x cur => exact ⟨h.1.trans (htail (Option.some.inj htarget)).symm, h.2⟩
  | insertEntry x cur => exact ⟨h.1.trans (htail (Option.some.inj htarget)).symm, h.2⟩
  | requisition x cur => exact ⟨h.1.trans (htail (Option.some.inj htarget)).symm, h.2⟩
  | resetEmpty x cur b => exact ⟨h.1.trans (htail (Option.some.inj htarget)).symm, h.2⟩
  | storeEntry x cur b =>
    exact ⟨⟨h.1.1.trans (htail (Option.some.inj htarget)).symm, h.1.2⟩, (hhand b rfl).trans h.2⟩
  | construct x cur => exact h.trans (htail (Option.some.inj htarget)).symm
  | storeTail x cur =>
    have htp := Option.some.inj htarget
    obtain ⟨rfl, hx⟩ := h
    refine ⟨(htail htp).symm, fun b hb => ?_⟩
    obtain ⟨hb', hsame⟩ := hslot htp b hb
    rw [hsame]
    exact hx b hb'
  | loadEntry p' i => exact ⟨Nat.lt_of_lt_of_le h.1 hhead, hmoved' i rfl h.2⟩
  | moveElement p' i b =>
    exact ⟨⟨Nat.lt_of_lt_of_le h.1.1 hhead, hmoved' i rfl h.1.2⟩, hentry i b (.inl rfl) h.2⟩
  | setEmpty p' i b x =>
    exact ⟨⟨hmoved h.1.1, hdone' i rfl h.1.2⟩, hentry i b (.inl rfl) h.2.1, hhist _ _ h.2.2⟩
  | clearEntry p' i b x => exact ⟨hentry i b (.inr rfl) h.1, fun i' hi' => hdone (h.2 i' hi')⟩
  | _ => trivial

end QueuePc

namespace ProducerInv

open Tickets

variable {α : Type} {p t : Nat} {P P' : ImplicitProducer} {blocks blocks' : Nat → Block α}
  {pc : Nat → QueuePc α} {c : QueuePc α} {g g' : QueueGhost α} {n : Nat}

theorem head_le (hi : ProducerInv p P blocks pc g) : P.headIndex.toNat ≤ g.hist.length := by
  rw [hi.head]
  exact hi.tickets.claimed_le

/-- Only the thread `p` has the places of `enqueue` at the producer `p`. -/
theorem building_update (h : (pc t).target t ≠ some p) (h' : c.target t ≠ some p) :
    (Function.update pc t c p).building = (pc p).building := by
  by_cases htp : p = t
  · subst htp
    have hfalse : ∀ c : QueuePc α, c.target p ≠ some p → c.building = false := by
      intro c hc
      by_contra hb
      exact hc (QueuePc.target_of_building (by simpa using hb))
    rw [Function.update_self, hfalse c h', hfalse _ h]
  · rw [Function.update_of_ne htp]

theorem unique_update {β : Type} {f : QueuePc α → Option β}
    (hu : ∀ t u k, (pc t).target t = some p → (pc u).target u = some p → f (pc t) = some k →
      f (pc u) = some k → t = u)
    (hnew : ∀ k, c.target t = some p → f c = some k →
      ((pc t).target t = some p ∧ f (pc t) = some k) ∨
        ∀ u, u ≠ t → (pc u).target u = some p → f (pc u) ≠ some k) :
    ∀ v u k, (Function.update pc t c v).target v = some p → (Function.update pc t c u).target u = some p →
      f (Function.update pc t c v) = some k → f (Function.update pc t c u) = some k → v = u := by
  have hone : ∀ u k, u ≠ t → (pc u).target u = some p → f (pc u) = some k → c.target t = some p →
      f c = some k → u = t := by
    intro u k hut hpu hku hpt hkt
    rcases hnew k hpt hkt with ⟨hpt', hkt'⟩ | hnone
    · exact hu u t k hpu hpt' hku hkt'
    · exact absurd hku (hnone u hut hpu)
  intro v u k hpv hpu hkv hku
  by_cases hv : v = t <;> by_cases hu' : u = t
  · rw [hv, hu']
  · subst hv
    rw [Function.update_self] at hpv hkv
    rw [Function.update_of_ne hu'] at hpu hku
    exact (hone u k hu' hpu hku hpv hkv).symm
  · subst hu'
    rw [Function.update_self] at hpu hku
    rw [Function.update_of_ne hv] at hpv hkv
    exact hone v k hv hpv hkv hpu hku
  · rw [Function.update_of_ne hv] at hpv hkv
    rw [Function.update_of_ne hu'] at hpu hku
    exact hu v u k hpv hpu hkv hku

theorem exists_update {β : Type} {f : QueuePc α → Option β} {k : β}
    (h : ∃ u, (pc u).target u = some p ∧ f (pc u) = some k)
    (hkeep : (pc t).target t = some p → f (pc t) = some k → c.target t = some p ∧ f c = some k) :
    ∃ u, (Function.update pc t c u).target u = some p ∧ f (Function.update pc t c u) = some k := by
  obtain ⟨u, hu, hk⟩ := h
  refine ⟨u, ?_⟩
  by_cases hut : u = t
  · subst hut
    rw [Function.update_self]
    exact hkeep hu hk
  · rw [Function.update_of_ne hut]
    exact ⟨hu, hk⟩

/-- It is another thread that has `k`, and it keeps it. -/
theorem exists_update_of_none {β : Type} {f : QueuePc α → Option β} {k : β}
    (h : ∃ u, (pc u).target u = some p ∧ f (pc u) = some k) (hnone : f (pc t) = none) :
    ∃ u, (Function.update pc t c u).target u = some p ∧ f (Function.update pc t c u) = some k := by
  refine exists_update h fun _ hk => ?_
  rw [hnone] at hk
  cases hk

/-- The other threads, when the producer and its blocks stay as they are. -/
theorem threads_update (hi : ProducerInv p P blocks pc g)
    (hentry : ∀ key b, P.blockIndex key = some b → blocks' b = blocks b)
    (hhand : ∀ u b, u ≠ t → (pc u).inHand = some b → blocks' b = blocks b)
    (hok : c.target t = some p → c.Ok P blocks' g) :
    ∀ u, (Function.update pc t c u).target u = some p → (Function.update pc t c u).Ok P blocks' g := by
  intro u hu
  by_cases hut : u = t
  · subst hut
    rw [Function.update_self] at hu ⊢
    exact hok hu
  · rw [Function.update_of_ne hut] at hu ⊢
    refine (hi.threads u hu).mono hu (fun _ => rfl) (Nat.le_refl _) (Finset.Subset.refl _)
      (fun _ _ h => h) (Finset.Subset.refl _) (fun _ _ h => h) (fun _ _ h => h) (fun _ _ _ h => h)
      (fun b hb => by rw [hhand u b hut hb]) (fun _ b hb => ⟨hb, by rw [hentry _ b hb]⟩)

/-- **Frame.**  A step of a thread whose target is another producer. -/
theorem frame (hi : ProducerInv p P blocks pc g) (h : (pc t).target t ≠ some p)
    (h' : c.target t ≠ some p)
    (hentry : ∀ key b, P.blockIndex key = some b → blocks' b = blocks b)
    (hhand : ∀ u b, u ≠ t → (pc u).inHand = some b → blocks' b = blocks b) :
    ProducerInv p P blocks' (Function.update pc t c) g where
  tail := hi.tail
  head := hi.head
  optimistic := hi.optimistic
  overcommit := hi.overcommit
  tickets := by
    have hview : (fun u => (Function.update pc t c u).ticketView p) = fun u => (pc u).ticketView p := by
      funext u
      by_cases hu : u = t
      · subst hu
        rw [Function.update_self, QueuePc.ticketView_of_target h', QueuePc.ticketView_of_target h]
      · rw [Function.update_of_ne hu]
    rw [hview]
    exact hi.tickets
  done_sub := hi.done_sub
  moved_lt := hi.moved_lt
  keys := by
    rw [building_update h h']
    exact hi.keys
  entry := hi.entry
  slot := by
    intro i x b hx hm hb
    rw [hentry _ b hb]
    exact hi.slot i x b hx hm hb
  count := by
    intro key b hb
    rw [hentry key b hb]
    exact hi.count key b hb
  tailBlock := by
    rw [building_update h h']
    exact hi.tailBlock
  threads := hi.threads_update hentry hhand fun hk => absurd hk h'
  holdingUnique := unique_update hi.holdingUnique fun k hk => absurd hk h'
  clearingUnique := unique_update hi.clearingUnique fun k hk => absurd hk h'
  held := fun i hlt hm => exists_update (hi.held i hlt hm) fun hk => absurd hk h
  cleared := fun key b hb hfull => exists_update (hi.cleared key b hb hfull) fun hk => absurd hk h

/-! ### The accesses of a thread whose target is the producer -/

theorem view_update (c : QueuePc α) : (fun u => (Function.update pc t c u).ticketView p) =
    Function.update (fun u => (pc u).ticketView p) t (c.ticketView p) := by
  funext u
  by_cases hu : u = t
  · subst hu
    rw [Function.update_self, Function.update_self]
  · rw [Function.update_of_ne hu, Function.update_of_ne hu]

/-- The thread reads, decides or returns. -/
theorem goes (hi : ProducerInv p P blocks pc g)
    (hentry : ∀ key b, P.blockIndex key = some b → blocks' b = blocks b)
    (hhand : ∀ u b, u ≠ t → (pc u).inHand = some b → blocks' b = blocks b)
    (hview : c.ticketView p = (pc t).ticketView p ∨
      (c.ticketView p).Ok g.fates ∧ (c.ticketView p).ticket = none)
    (hbuilding : t = p → (pc t).building = true → c.building = true)
    (hbuilding' : t = p → c.building = true → (pc t).building = true ∨ P.tailIndex.toNat % 32 ≠ 0)
    (hok : c.target t = some p → c.Ok P blocks' g)
    (hholding : ∀ i, c.target t = some p → c.holding = some i →
      (pc t).target t = some p ∧ (pc t).holding = some i)
    (hclearing : ∀ key, c.target t = some p → c.clearing ≠ some key)
    (hheld : ∀ i, (pc t).target t = some p → (pc t).holding = some i →
      c.target t = some p ∧ c.holding = some i) (hcleared : (pc t).clearing = none) :
    ProducerInv p P blocks' (Function.update pc t c) g where
  tail := hi.tail
  head := hi.head
  optimistic := hi.optimistic
  overcommit := hi.overcommit
  tickets := by
    rw [view_update]
    rcases hview with hsame | ⟨hok', hnone⟩
    · rw [hsame, Function.update_eq_self]
      exact hi.tickets
    · exact hi.tickets.look hok' hnone
  done_sub := hi.done_sub
  moved_lt := hi.moved_lt
  keys := by
    intro key b hb
    obtain ⟨hkey, hlt | ⟨heq, hbuild⟩⟩ := hi.keys key b hb
    · exact ⟨hkey, .inl hlt⟩
    · refine ⟨hkey, .inr ⟨heq, ?_⟩⟩
      by_cases htp : p = t
      · subst htp
        rw [Function.update_self]
        exact hbuilding rfl hbuild
      · rwa [Function.update_of_ne htp]
  entry := hi.entry
  slot := by
    intro i x b hx hm hb
    rw [hentry _ b hb]
    exact hi.slot i x b hx hm hb
  count := by
    intro key b hb
    rw [hentry key b hb]
    exact hi.count key b hb
  tailBlock := by
    intro h
    apply hi.tailBlock
    rcases h with h | h
    · exact .inl h
    · by_cases htp : p = t
      · subst htp
        rw [Function.update_self] at h
        rcases hbuilding' rfl h with hb | hne
        · exact .inr hb
        · exact .inl hne
      · rw [Function.update_of_ne htp] at h
        exact .inr h
  threads := hi.threads_update hentry hhand hok
  holdingUnique := unique_update hi.holdingUnique fun i hc hk => .inl (hholding i hc hk)
  clearingUnique := unique_update hi.clearingUnique fun key hc hk => absurd hk (hclearing key hc)
  held := fun i hlt hm => exists_update (hi.held i hlt hm) (hheld i)
  cleared := fun key b hb hfull => exists_update_of_none (hi.cleared key b hb hfull) hcleared

theorem same_building (h : c.building = (pc t).building) (u : Nat) :
    (Function.update pc t c u).building = (pc u).building := by
  by_cases hu : u = t
  · subst hu
    rw [Function.update_self, h]
  · rw [Function.update_of_ne hu]

/-- A step that leaves the elements, the blocks and the block index alone: the counters and the
tickets. -/
theorem counts (hi : ProducerInv p P blocks pc g) {fates' : List Fate}
    (htailIndex : P'.tailIndex = P.tailIndex) (htailBlock : P'.tailBlock = P.tailBlock)
    (hindex : P'.blockIndex = P.blockIndex) (hheadIndex : P.headIndex.toNat ≤ P'.headIndex.toNat)
    (hhead : P'.headIndex.toNat = fates'.count .claimed)
    (hoptimistic : P'.dequeueOptimisticCount.toNat = fates'.length)
    (hovercommit : P'.dequeueOvercommit.toNat = fates'.count .repaid)
    (htickets : Tickets.Inv g.hist.length fates'
      (Function.update (fun u => (pc u).ticketView p) t (c.ticketView p)))
    (hbuild : (pc t).building = false) (hbuild' : c.building = false)
    (hok : c.target t = some p → c.Ok P' blocks { g with fates := fates' })
    (hholding : ∀ i, c.holding = some i → ∀ u, u ≠ t → (pc u).target u = some p →
      (pc u).holding ≠ some i) (hclearing : c.clearing = none)
    (hheld : ∀ i : Index, i.toNat < P'.headIndex.toNat →
      i.toNat < P.headIndex.toNat ∨ c.target t = some p ∧ c.holding = some i)
    (hnone : (pc t).holding = none ∧ (pc t).clearing = none) :
    ProducerInv p P' blocks (Function.update pc t c) { g with fates := fates' } where
  tail := by rw [htailIndex]; exact hi.tail
  head := hhead
  optimistic := hoptimistic
  overcommit := hovercommit
  tickets := by
    rw [view_update]
    exact htickets
  done_sub := hi.done_sub
  moved_lt := fun k hk => Nat.lt_of_lt_of_le (hi.moved_lt k hk) hheadIndex
  keys := by
    rw [same_building (hbuild'.trans hbuild.symm), hindex]
    exact hi.keys
  entry := by rw [hindex]; exact hi.entry
  slot := by rw [hindex]; exact hi.slot
  count := by rw [hindex]; exact hi.count
  tailBlock := by
    rw [same_building (hbuild'.trans hbuild.symm), hindex, htailIndex, htailBlock]
    exact hi.tailBlock
  threads := by
    intro u hu
    by_cases hut : u = t
    · subst hut
      rw [Function.update_self] at hu ⊢
      exact hok hu
    · rw [Function.update_of_ne hut] at hu ⊢
      refine (hi.threads u hu).mono hu (fun _ => htailIndex) hheadIndex (Finset.Subset.refl _)
        (fun _ _ h => h) (Finset.Subset.refl _) (fun _ _ h => h) (fun _ _ h => h)
        (fun i b _ h => by rwa [hindex]) (fun _ _ => rfl) (fun _ b hb => ⟨by rwa [hindex] at hb, rfl⟩)
  holdingUnique := unique_update hi.holdingUnique fun i _ hk => .inr (hholding i hk)
  clearingUnique := unique_update hi.clearingUnique fun key _ hk => by
    rw [hclearing] at hk
    cases hk
  held := by
    intro i hlt hm
    rcases hheld i hlt with hlt | hc
    · exact exists_update_of_none (hi.held i hlt hm) hnone.1
    · exact ⟨t, by rw [Function.update_self]; exact hc⟩
  cleared := by
    intro key b hb hfull
    rw [hindex] at hb
    exact exists_update_of_none (hi.cleared key b hb hfull) hnone.2

theorem addOptimistic {overcommit : Index} (hi : ProducerInv p P blocks pc g)
    (hp : pc t = .addOptimistic p overcommit) (hsmall : g.fates.length < 2 ^ 62) :
    ProducerInv p { P with dequeueOptimisticCount := P.dequeueOptimisticCount + 1 } blocks
      (Function.update pc t (.rereadTail p overcommit P.dequeueOptimisticCount))
      { g with fates := g.fates ++ [.pending] } := by
  have hv := hi.tickets.views t
  rw [hp] at hv
  simp only [QueuePc.ticketView, if_true] at hv
  have hview : (QueuePc.rereadTail p overcommit P.dequeueOptimisticCount : QueuePc α).ticketView p =
      .deciding overcommit.toNat g.fates.length := by
    simp [QueuePc.ticketView, hi.optimistic]
  refine hi.counts rfl rfl rfl (Nat.le_refl _) ?_ ?_ ?_ ?_ (by rw [hp]; rfl) rfl (fun _ => trivial)
    (fun i hk => by cases hk) rfl (fun _ => .inl) (by rw [hp]; exact ⟨rfl, rfl⟩)
  · rw [List.count_append]
    exact hi.head
  · rw [List.length_append, ← hi.optimistic]
    exact toNat_succ (n := 2 ^ 62) (by rw [hi.optimistic]; exact hsmall) (by decide)
  · rw [List.count_append]
    exact hi.overcommit
  · rw [hview]
    exact hi.tickets.draw hv

theorem rereadTail {overcommit my : Index} (hi : ProducerInv p P blocks pc g)
    (hp : pc t = .rereadTail p overcommit my) (hsmall : g.fates.length < 2 ^ 62)
    (hsmall' : g.hist.length < 2 ^ 62) :
    ∃ fates', ProducerInv p P blocks (Function.update pc t
      (if circularLessThan (my - overcommit) P.tailIndex then .addHead p my else .addOvercommit p my))
      { g with fates := fates' } ∧ fates'.length = g.fates.length := by
  have hview : (pc t).ticketView p = .deciding overcommit.toNat my.toNat := by
    rw [hp]
    simp [QueuePc.ticketView]
  have hv := hi.tickets.views t
  simp only [hview] at hv
  have hmy : my.toNat < g.fates.length := (List.getElem?_eq_some_iff.mp hv.1).1
  have hle : overcommit.toNat ≤ my.toNat := Nat.le_trans hv.2 (failedBelow_le _ _)
  have hcount : ∀ {f f' : Fate}, g.fates[my.toNat]? = some .pending → f ≠ .pending → f' ≠ f →
      (g.fates.set my.toNat f').count f = g.fates.count f := by
    intro f f' hpend hf hff'
    have := count_set_fate (c := f) (g := f') hpend
    rw [if_neg (Ne.symm hf), if_neg hff'] at this
    omega
  have hbuild : (pc t).building = false := by rw [hp]; rfl
  by_cases hless : circularLessThan (my - overcommit) P.tailIndex = true
  · rw [if_pos hless]
    have hsub : (my - overcommit).toNat = my.toNat - overcommit.toNat := BitVec.toNat_sub_of_le hle
    have htail := hi.tail
    rw [circularLessThan_iff (by omega) (by omega), hsub, htail] at hless
    refine ⟨g.fates.set my.toNat .granted, ?_, List.length_set⟩
    have hview' : (QueuePc.addHead p my : QueuePc α).ticketView p = .granted my.toNat := by
      simp [QueuePc.ticketView]
    refine hi.counts rfl rfl rfl (Nat.le_refl _) ?_ ?_ ?_ ?_ hbuild rfl (fun _ => trivial)
      (fun i hk => by cases hk) rfl (fun _ => .inl) (by rw [hp]; exact ⟨rfl, rfl⟩)
    · rw [hcount hv.1 (by simp) (by simp)]
      exact hi.head
    · rw [List.length_set]
      exact hi.optimistic
    · rw [hcount hv.1 (by simp) (by simp)]
      exact hi.overcommit
    · rw [hview']
      exact hi.tickets.grant hview (by omega)
  · rw [if_neg hless]
    refine ⟨g.fates.set my.toNat .failed, ?_, List.length_set⟩
    have hview' : (QueuePc.addOvercommit p my : QueuePc α).ticketView p = .failed my.toNat := by
      simp [QueuePc.ticketView]
    refine hi.counts rfl rfl rfl (Nat.le_refl _) ?_ ?_ ?_ ?_ hbuild rfl (fun _ => trivial)
      (fun i hk => by cases hk) rfl (fun _ => .inl) (by rw [hp]; exact ⟨rfl, rfl⟩)
    · rw [hcount hv.1 (by simp) (by simp)]
      exact hi.head
    · rw [List.length_set]
      exact hi.optimistic
    · rw [hcount hv.1 (by simp) (by simp)]
      exact hi.overcommit
    · rw [hview']
      exact hi.tickets.fail hview

/-- Every index that a thread holds has been handed out. -/
theorem holding_lt (hi : ProducerInv p P blocks pc g) {u : Nat} {i : Index}
    (hu : (pc u).target u = some p) (h : (pc u).holding = some i) : i.toNat < P.headIndex.toNat := by
  have hok := hi.threads u hu
  cases hc : pc u <;> rw [hc] at h hok <;> cases h
  · exact hok.1
  · exact hok.1.1
  · exact hi.moved_lt _ hok.1.1

theorem addHead {my : Index} (hi : ProducerInv p P blocks pc g) (hp : pc t = .addHead p my)
    (hsmall : g.hist.length < 2 ^ 62) :
    P.headIndex.toNat < g.hist.length ∧ ∃ fates',
      ProducerInv p { P with headIndex := P.headIndex + 1 } blocks
        (Function.update pc t (.loadEntry p P.headIndex)) { g with fates := fates' } ∧
        fates'.length = g.fates.length := by
  have hview : (pc t).ticketView p = .granted my.toNat := by
    rw [hp]
    simp [QueuePc.ticketView]
  have hv := hi.tickets.views t
  simp only [hview] at hv
  have hlt : P.headIndex.toNat < g.hist.length := by
    rw [hi.head]
    exact hi.tickets.claim_lt hview
  have hsucc : (P.headIndex + 1).toNat = P.headIndex.toNat + 1 :=
    toNat_succ (n := 2 ^ 62) (by omega) (by decide)
  refine ⟨hlt, g.fates.set my.toNat .claimed, ?_, List.length_set⟩
  have hclaimed := count_set_fate (c := .claimed) (g := .claimed) hv
  have hrepaid := count_set_fate (c := .repaid) (g := .claimed) hv
  simp only [reduceCtorEq, if_false, if_true] at hclaimed hrepaid
  have hle : P.headIndex.toNat ≤ (P.headIndex + 1).toNat := by omega
  refine hi.counts rfl rfl rfl hle ?_ ?_ ?_ ?_ (by rw [hp]; rfl) rfl (fun _ => ⟨?_, ?_⟩)
    (fun i hk u _ hu hku => ?_) rfl (fun i hlt' => ?_) (by rw [hp]; exact ⟨rfl, rfl⟩)
  · show (P.headIndex + 1).toNat = _
    rw [hsucc, hi.head]
    omega
  · rw [List.length_set]
    exact hi.optimistic
  · show P.dequeueOvercommit.toNat = _
    rw [hi.overcommit]
    omega
  · exact hi.tickets.claim hview
  · show _ < (P.headIndex + 1).toNat
    omega
  · intro hm
    exact Nat.lt_irrefl _ (hi.moved_lt _ hm)
  · cases hk
    exact Nat.lt_irrefl _ (hi.holding_lt hu hku)
  · change i.toNat < (P.headIndex + 1).toNat at hlt'
    by_cases hlast : i.toNat < P.headIndex.toNat
    · exact .inl hlast
    · have hi' : i = P.headIndex := BitVec.eq_of_toNat_eq (by omega)
      rw [hi']
      exact .inr ⟨rfl, rfl⟩

theorem addOvercommit {my : Index} (hi : ProducerInv p P blocks pc g)
    (hp : pc t = .addOvercommit p my) (hsmall : g.fates.length < 2 ^ 62) :
    ∃ fates', ProducerInv p { P with dequeueOvercommit := P.dequeueOvercommit + 1 } blocks
      (Function.update pc t .idle) { g with fates := fates' } ∧ fates'.length = g.fates.length := by
  have hview : (pc t).ticketView p = .failed my.toNat := by
    rw [hp]
    simp [QueuePc.ticketView]
  have hv := hi.tickets.views t
  simp only [hview] at hv
  have hle : g.fates.count .repaid ≤ g.fates.length := List.count_le_length
  have hsucc : (P.dequeueOvercommit + 1).toNat = P.dequeueOvercommit.toNat + 1 := by
    refine toNat_succ (n := 2 ^ 62) ?_ (by decide)
    rw [hi.overcommit]
    omega
  refine ⟨g.fates.set my.toNat .repaid, ?_, List.length_set⟩
  have hclaimed := count_set_fate (c := .claimed) (g := .repaid) hv
  have hrepaid := count_set_fate (c := .repaid) (g := .repaid) hv
  simp only [reduceCtorEq, if_false, if_true] at hclaimed hrepaid
  refine hi.counts rfl rfl rfl (Nat.le_refl _) ?_ ?_ ?_ ?_ (by rw [hp]; rfl) rfl (fun _ => trivial)
    (fun i hk => by cases hk) rfl (fun _ => .inl) (by rw [hp]; exact ⟨rfl, rfl⟩)
  · show P.headIndex.toNat = _
    rw [hi.head]
    omega
  · rw [List.length_set]
    exact hi.optimistic
  · show (P.dequeueOvercommit + 1).toNat = _
    rw [hsucc, hi.overcommit]
    omega
  · exact hi.tickets.repay hview

/-- The places of a consumer that has its index are no places of a ticket, and no places of
`enqueue`. -/
theorem same_tickets (hi : ProducerInv p P blocks pc g) (h : c.ticketView p = (pc t).ticketView p) :
    Tickets.Inv g.hist.length g.fates fun u => (Function.update pc t c u).ticketView p := by
  rw [view_update, h, Function.update_eq_self]
  exact hi.tickets

/-- The elements of one block do not lie in another entry. -/
def Apart (P : ImplicitProducer) (pc : Nat → QueuePc α) : Prop :=
  (∀ key key' b, P.blockIndex key = some b → P.blockIndex key' = some b → key = key') ∧
    ∀ key b u, P.blockIndex key = some b → (pc u).inHand ≠ some b

theorem count_set (blocks : Nat → Block α) (b : Nat) (i : Index) (e : Option α) (b' : Nat) :
    (Function.update blocks b ((blocks b).set i e) b').elementsCompletelyDequeued =
      (blocks b').elementsCompletelyDequeued := by
  by_cases hb : b' = b
  · subst hb
    rw [Function.update_self]
    rfl
  · rw [Function.update_of_ne hb]

/-- Writing the slot of an index leaves the slot of another one alone. -/
theorem slot_set {i i' : Index} {b b' : Nat} (hapart : Apart P pc)
    (hb : P.blockIndex (blockBase i) = some b) (hb' : P.blockIndex (blockBase i') = some b') (hne : i' ≠ i)
    (e : Option α) :
    (Function.update blocks b ((blocks b).set i e) b').elements (blockOffset i') =
      (blocks b').elements (blockOffset i') := by
  by_cases hbb : b' = b
  · subst hbb
    rw [Function.update_self]
    have hoff : blockOffset i' ≠ blockOffset i := fun ho =>
      hne (eq_of_base_offset (hapart.1 _ _ _ hb' hb) ho)
    exact Function.update_of_ne hoff _ _
  · rw [Function.update_of_ne hbb]

theorem moveElement {i : Index} {b : Nat} {x : α} (hi : ProducerInv p P blocks pc g)
    (hapart : Apart P pc) (hp : pc t = .moveElement p i b)
    (hx : (blocks b).elements (blockOffset i) = some x) :
    g.hist[i.toNat]? = some x ∧
    ProducerInv p P (Function.update blocks b ((blocks b).set i none))
      (Function.update pc t (.setEmpty p i b x)) { g with moved := insert i.toNat g.moved } := by
  have htarget : (pc t).target t = some p := by rw [hp]; rfl
  have hok := hi.threads t htarget
  rw [hp] at hok
  obtain ⟨⟨hlt, hnot⟩, hb⟩ := hok
  have hlen := hi.head_le
  have hget : g.hist[i.toNat]? = some x := by
    have hsome : i.toNat < g.hist.length := by omega
    have hslot := hi.slot i _ b (List.getElem?_eq_getElem hsome) hnot hb
    rw [hx] at hslot
    rw [List.getElem?_eq_getElem hsome, hslot]
  have hbuild : (QueuePc.setEmpty p i b x).building = (pc t).building := by rw [hp]; rfl
  refine ⟨hget, { hi with
    tickets := hi.same_tickets (by rw [hp]; rfl)
    done_sub := fun k hk => Finset.mem_insert_of_mem (hi.done_sub hk)
    moved_lt := ?_
    keys := ?_
    slot := ?_
    count := fun key b' hb' => (count_set blocks b i none b').trans (hi.count key b' hb')
    tailBlock := ?_
    threads := ?_
    holdingUnique := ?_
    clearingUnique := ?_
    held := ?_
    cleared := ?_ }⟩
  · intro k hk
    rcases Finset.mem_insert.mp hk with rfl | hk
    · exact hlt
    · exact hi.moved_lt k hk
  · rw [same_building hbuild]
    exact hi.keys
  · intro i' y b' hy hm hb'
    have hne : i' ≠ i := by
      rintro rfl
      exact hm (Finset.mem_insert_self _ _)
    rw [slot_set hapart hb hb' hne]
    exact hi.slot i' y b' hy (fun h => hm (Finset.mem_insert_of_mem h)) hb'
  · rw [same_building hbuild]
    exact hi.tailBlock
  · intro u hu
    by_cases hut : u = t
    · subst hut
      rw [Function.update_self] at hu ⊢
      exact ⟨⟨Finset.mem_insert_self _ _, fun hd => hnot (hi.done_sub hd)⟩, hb, hget⟩
    · rw [Function.update_of_ne hut] at hu ⊢
      refine (hi.threads u hu).mono hu (fun _ => rfl) (Nat.le_refl _) (Finset.subset_insert _ _)
        (fun i' hh hm hm' => ?_) (Finset.Subset.refl _) (fun _ _ h => h) (fun _ _ h => h)
        (fun _ _ _ h => h) (fun b' _ => count_set blocks b i none b') (fun _ b' hb' => ⟨hb', ?_⟩)
      · rcases Finset.mem_insert.mp hm' with heq | hm'
        · have hii : i' = i := BitVec.eq_of_toNat_eq heq
          subst hii
          exact hut (hi.holdingUnique u t i' hu htarget hh (by rw [hp]; rfl))
        · exact hm hm'
      · refine slot_set hapart hb hb' ?_ none
        intro heq
        rw [← heq, hi.tail] at hlt
        omega
  · exact unique_update hi.holdingUnique fun i' _ hh => .inl ⟨htarget, by rw [hp]; exact hh⟩
  · exact unique_update hi.clearingUnique fun key _ hk => by cases hk
  · refine fun i' hlt' hm => exists_update (hi.held i' hlt' hm) fun _ hh => ⟨rfl, ?_⟩
    rw [hp] at hh
    exact hh
  · exact fun key b' hb' hfull => exists_update_of_none (hi.cleared key b' hb' hfull) (by rw [hp]; rfl)

theorem setEmpty {i : Index} {b : Nat} {x : α} (hi : ProducerInv p P blocks pc g)
    (hapart : Apart P pc) (hp : pc t = .setEmpty p i b x)
    (hc : c = if (blocks b).elementsCompletelyDequeued = BLOCK_SIZE - 1 then .clearEntry p i b x
      else .idle) :
    ProducerInv p P (Function.update blocks b
        { blocks b with elementsCompletelyDequeued := (blocks b).elementsCompletelyDequeued + 1 })
      (Function.update pc t c) { g with done := insert i.toNat g.done } := by
  have htarget : (pc t).target t = some p := by rw [hp]; rfl
  have hok := hi.threads t htarget
  rw [hp] at hok
  obtain ⟨⟨hmoved, hnot⟩, hb, hget⟩ := hok
  have hplain : c.ticketView p = .out ∧ c.building = false ∧ c.holding = none := by
    rw [hc]
    split <;> exact ⟨rfl, rfl, rfl⟩
  have helements : ∀ b', (Function.update blocks b
      { blocks b with elementsCompletelyDequeued := (blocks b).elementsCompletelyDequeued + 1 }
      b').elements = (blocks b').elements := by
    intro b'
    by_cases hbb : b' = b
    · subst hbb
      rw [Function.update_self]
    · rw [Function.update_of_ne hbb]
  have hbuild : c.building = (pc t).building := by rw [hp, hplain.2.1]; rfl
  exact { hi with
    tickets := hi.same_tickets (by rw [hp, hplain.1]; rfl)
    done_sub := by
      intro k hk
      rcases Finset.mem_insert.mp hk with rfl | hk
      · exact hmoved
      · exact hi.done_sub hk
    keys := by
      rw [same_building hbuild]
      exact hi.keys
    entry := fun i' hlt hm => hi.entry i' hlt fun h => hm (Finset.mem_insert_of_mem h)
    slot := by
      intro i' y b' hy hm hb'
      rw [helements]
      exact hi.slot i' y b' hy hm hb'
    count := by
      intro key b' hb'
      rw [QueueGhost.doneIn_insert hnot, ← hi.count key b' hb']
      by_cases hkey : key = blockBase i
      · subst hkey
        rw [hb] at hb'
        cases hb'
        rw [Function.update_self, if_pos rfl]
      · have hbb : b' ≠ b := by
          rintro rfl
          exact hkey (hapart.1 _ _ _ hb' hb)
        rw [Function.update_of_ne hbb, if_neg hkey]
        rfl
    tailBlock := by
      rw [same_building hbuild]
      exact hi.tailBlock
    threads := by
      intro u hu
      by_cases hut : u = t
      · subst hut
        rw [Function.update_self] at hu ⊢
        rw [hc]
        split
        · next hfull =>
          refine ⟨hb, fun i' hi' => QueueGhost.mem_of_card_doneIn ?_ hi'⟩
          rw [QueueGhost.doneIn_insert hnot, if_pos rfl, ← hi.count _ b hb, hfull]
          rfl
        · trivial
      · rw [Function.update_of_ne hut] at hu ⊢
        refine (hi.threads u hu).mono hu (fun _ => rfl) (Nat.le_refl _) (Finset.Subset.refl _)
          (fun _ _ h => h) (Finset.subset_insert _ _) (fun i' hh hm hm' => ?_) (fun _ _ h => h)
          (fun _ _ _ h => h) (fun b' hb' => ?_) (fun _ b' hb' => ⟨hb', by rw [helements]⟩)
        · rcases Finset.mem_insert.mp hm' with heq | hm'
          · have hii : i' = i := BitVec.eq_of_toNat_eq heq
            subst hii
            exact hut (hi.holdingUnique u t i' hu htarget hh (by rw [hp]; rfl))
          · exact hm hm'
        · have hbb : b' ≠ b := by
            rintro rfl
            exact hapart.2 _ _ u hb hb'
          rw [Function.update_of_ne hbb]
    holdingUnique := unique_update hi.holdingUnique fun i' _ hh => by
      rw [hplain.2.2] at hh
      cases hh
    clearingUnique := unique_update hi.clearingUnique fun key _ hk => .inr fun u _ hu hku => by
      have hkey : blockBase i = key := by
        rw [hc] at hk
        split at hk
        · exact Option.some.inj hk
        · cases hk
      -- who clears the block knows that `i` is done
      obtain ⟨p', i', b', x', hcu, hi'⟩ := QueuePc.clearing_eq_some hku
      have hok := hi.threads u hu
      rw [hcu] at hok
      exact hnot (hok.2 i (hkey.trans hi'.symm))
    held := by
      intro i' hlt hm
      refine exists_update (hi.held i' hlt fun h => hm (Finset.mem_insert_of_mem h)) fun _ hh => ?_
      rw [hp] at hh
      cases hh
      exact absurd (Finset.mem_insert_self _ _) hm
    cleared := by
      intro key b' hb' hfull
      rw [QueueGhost.doneIn_insert hnot] at hfull
      by_cases hkey : key = blockBase i
      · -- the last index of the block: the thread goes on to clear it
        rw [if_pos hkey, hkey, ← hi.count _ b hb] at hfull
        have hlast : (blocks b).elementsCompletelyDequeued = BLOCK_SIZE - 1 := by omega
        refine ⟨t, ?_⟩
        rw [Function.update_self, hc, if_pos hlast, hkey]
        exact ⟨rfl, rfl⟩
      · rw [if_neg hkey] at hfull
        exact exists_update_of_none (hi.cleared key b' hb' hfull) (by rw [hp]; rfl) }

theorem clearEntry {i : Index} {b : Nat} {x : α} (hi : ProducerInv p P blocks pc g)
    (hp : pc t = .clearEntry p i b x) :
    ProducerInv p { P with blockIndex := Function.update P.blockIndex (blockBase i) none } blocks
      (Function.update pc t (.giveBlock b x)) g := by
  have htarget : (pc t).target t = some p := by rw [hp]; rfl
  have hok := hi.threads t htarget
  rw [hp] at hok
  obtain ⟨hb, hall⟩ := hok
  have hbuild : (QueuePc.giveBlock b x).building = (pc t).building := by rw [hp]; rfl
  have hlen := hi.head_le
  -- an entry that is left, and an entry that is looked for
  have hold : ∀ {key b'}, Function.update P.blockIndex (blockBase i) none key = some b' →
      P.blockIndex key = some b' := by
    intro key b' h
    by_cases hkey : key = blockBase i
    · rw [hkey, Function.update_self] at h
      cases h
    · rwa [Function.update_of_ne hkey] at h
  have hkeep : ∀ {i' : Index} {b'}, i'.toNat ∉ g.done → P.blockIndex (blockBase i') = some b' →
      Function.update P.blockIndex (blockBase i) none (blockBase i') = some b' := by
    intro i' b' hnot h
    rw [Function.update_of_ne fun hkey => hnot (hall i' hkey)]
    exact h
  exact { hi with
    tickets := hi.same_tickets (by rw [hp]; rfl)
    keys := by
      rw [same_building hbuild]
      exact fun key b' hb' => hi.keys key b' (hold hb')
    entry := by
      intro i' hlt hm
      obtain ⟨b', hb'⟩ := hi.entry i' hlt hm
      exact ⟨b', hkeep hm hb'⟩
    slot := fun i' y b' hy hm hb' => hi.slot i' y b' hy hm (hold hb')
    count := fun key b' hb' => hi.count key b' (hold hb')
    tailBlock := by
      rw [same_building hbuild]
      intro h
      obtain ⟨b', htail, hb'⟩ := hi.tailBlock h
      refine ⟨b', htail, hkeep (fun hd => ?_) hb'⟩
      have hlt : P.tailIndex.toNat < P.headIndex.toNat := hi.moved_lt _ (hi.done_sub hd)
      have htail := hi.tail
      omega
    threads := by
      intro u hu
      by_cases hut : u = t
      · subst hut
        rw [Function.update_self]
        trivial
      · rw [Function.update_of_ne hut] at hu ⊢
        have hoku := hi.threads u hu
        refine hoku.mono hu (fun _ => rfl) (Nat.le_refl _) (Finset.Subset.refl _)
          (fun _ _ h => h) (Finset.Subset.refl _) (fun _ _ h => h) (fun _ _ h => h)
          (fun i' b' hh hb' => ?_) (fun _ _ => rfl) (fun _ b' hb' => ⟨hold hb', rfl⟩)
        rcases hh with hh | hh
        · refine hkeep ?_ hb'
          cases hcu : pc u <;> rw [hcu] at hh hoku <;> cases hh
          · exact fun hd => hoku.2 (hi.done_sub hd)
          · exact fun hd => hoku.1.2 (hi.done_sub hd)
          · exact hoku.1.2
        · have hkey : blockBase i' ≠ blockBase i := by
            intro heq
            rw [heq] at hh
            exact hut (hi.clearingUnique u t _ hu htarget hh (by rw [hp]; rfl))
          show Function.update P.blockIndex (blockBase i) none (blockBase i') = some b'
          rw [Function.update_of_ne hkey]
          exact hb'
    holdingUnique := unique_update hi.holdingUnique fun i' _ hh => by cases hh
    clearingUnique := unique_update hi.clearingUnique fun key _ hk => by cases hk
    held := fun i' hlt hm => exists_update_of_none (hi.held i' hlt hm) (by rw [hp]; rfl)
    cleared := by
      intro key b' hb' hfull
      refine exists_update (hi.cleared key b' (hold hb') hfull) fun _ hk => ?_
      -- the entry that the thread has cleared is gone
      rw [hp] at hk
      cases hk
      change Function.update P.blockIndex (blockBase i) none (blockBase i) = some b' at hb'
      rw [Function.update_self] at hb'
      cases hb' }

/-! ### The accesses of the producer's own thread -/

/-- The block of a tail that is at the start of a block is not in the index before the thread
publishes it. -/
theorem index_tail_none (hi : ProducerInv p P blocks pc g) (hbuild : (pc p).building = false) {cur : Index}
    (hcur : cur = P.tailIndex) : P.blockIndex cur = none := by
  cases hb : P.blockIndex cur with
  | none => rfl
  | some b =>
    have htail := hi.tail
    obtain ⟨-, hlt | ⟨-, htrue⟩⟩ := hi.keys cur b hb
    · rw [hcur] at hlt
      omega
    · rw [hbuild] at htrue
      cases htrue

theorem storeEntry {x : α} {cur : Index} {b : Nat} (hi : ProducerInv p P blocks pc g)
    (hp : pc p = .storeEntry x cur b) :
    ProducerInv p { P with blockIndex := Function.update P.blockIndex cur (some b), tailBlock := some b }
      blocks (Function.update pc p (.construct x cur)) g := by
  have hok := hi.threads p (by rw [hp]; rfl)
  rw [hp] at hok
  obtain ⟨⟨hcur, hmod⟩, hzero⟩ := hok
  have hlen : cur.toNat = g.hist.length := by rw [hcur, hi.tail]
  have hhead := hi.head_le
  have hnone := hi.index_tail_none (by rw [hp]; rfl) hcur
  have hempty : g.doneIn cur = ∅ := by
    rw [Finset.eq_empty_iff_forall_notMem]
    intro k hk
    obtain ⟨hd, hk'⟩ := Finset.mem_filter.mp hk
    have := hi.moved_lt k (hi.done_sub hd)
    omega
  have hkeep : ∀ {key b'}, P.blockIndex key = some b' →
      Function.update P.blockIndex cur (some b) key = some b' := by
    intro key b' h
    have hne : key ≠ cur := by
      rintro rfl
      rw [hnone] at h
      cases h
    rwa [Function.update_of_ne hne]
  have hold : ∀ {key b'}, Function.update P.blockIndex cur (some b) key = some b' → key ≠ cur →
      P.blockIndex key = some b' := by
    intro key b' h hne
    rwa [Function.update_of_ne hne] at h
  exact { hi with
    tickets := hi.same_tickets (by rw [hp]; rfl)
    keys := by
      intro key b' hb'
      rw [Function.update_self]
      by_cases hkey : key = cur
      · subst hkey
        exact ⟨hmod, .inr ⟨hlen, rfl⟩⟩
      · obtain ⟨hk, hlt | ⟨-, htrue⟩⟩ := hi.keys key b' (hold hb' hkey)
        · exact ⟨hk, .inl hlt⟩
        · rw [hp] at htrue
          cases htrue
    entry := by
      intro i hlt hm
      obtain ⟨b', hb'⟩ := hi.entry i hlt hm
      exact ⟨b', hkeep hb'⟩
    slot := by
      intro i y b' hy hm hb'
      refine hi.slot i y b' hy hm (hold hb' fun heq => ?_)
      have hlt := (List.getElem?_eq_some_iff.mp hy).1
      have hbase := blockBase_toNat i
      rw [heq, hlen] at hbase
      omega
    count := by
      intro key b' hb'
      by_cases hkey : key = cur
      · subst hkey
        change Function.update P.blockIndex key (some b) key = some b' at hb'
        rw [Function.update_self] at hb'
        cases hb'
        rw [hempty, hzero]
        rfl
      · exact hi.count key b' (hold hb' hkey)
    tailBlock := by
      intro _
      refine ⟨b, rfl, ?_⟩
      show Function.update P.blockIndex cur (some b) (blockBase P.tailIndex) = some b
      rw [← hcur, blockBase_of_mod hmod, Function.update_self]
    threads := by
      intro u hu
      by_cases hup : u = p
      · subst hup
        rw [Function.update_self]
        exact hcur
      · rw [Function.update_of_ne hup] at hu ⊢
        exact (hi.threads u hu).mono hu (fun _ => rfl) (Nat.le_refl _) (Finset.Subset.refl _)
          (fun _ _ h => h) (Finset.Subset.refl _) (fun _ _ h => h) (fun _ _ h => h)
          (fun _ _ _ hb' => hkeep hb') (fun _ _ => rfl) (fun h => absurd h hup)
    holdingUnique := unique_update hi.holdingUnique fun i' _ hh => by cases hh
    clearingUnique := unique_update hi.clearingUnique fun key _ hk => by cases hk
    held := fun i hlt hm => exists_update_of_none (hi.held i hlt hm) (by rw [hp]; rfl)
    cleared := by
      intro key b' hb' hfull
      by_cases hkey : key = cur
      · rw [hkey, hempty] at hfull
        cases hfull
      · exact exists_update_of_none (hi.cleared key b' (hold hb' hkey) hfull) (by rw [hp]; rfl) }

theorem construct {x : α} {cur : Index} {b : Nat} (hi : ProducerInv p P blocks pc g)
    (hapart : Apart P pc) (hp : pc p = .construct x cur) (hb : P.tailBlock = some b) :
    ProducerInv p P (Function.update blocks b ((blocks b).set cur (some x)))
      (Function.update pc p (.storeTail x cur)) g := by
  have hcur : cur = P.tailIndex := by
    have hok := hi.threads p (by rw [hp]; rfl)
    rwa [hp] at hok
  have hlen : cur.toNat = g.hist.length := by rw [hcur, hi.tail]
  obtain ⟨b', hb', hentry⟩ := hi.tailBlock (.inr (by rw [hp]; rfl))
  rw [hb] at hb'
  cases hb'
  rw [← hcur] at hentry
  have hbuild : (QueuePc.storeTail x cur).building = (pc p).building := by rw [hp]; rfl
  exact { hi with
    tickets := hi.same_tickets (by rw [hp]; rfl)
    keys := by
      rw [same_building hbuild]
      exact hi.keys
    slot := by
      intro i y b' hy hm hb'
      have hne : i ≠ cur := by
        rintro rfl
        have := (List.getElem?_eq_some_iff.mp hy).1
        omega
      rw [slot_set hapart hentry hb' hne]
      exact hi.slot i y b' hy hm hb'
    count := fun key b' hb' => (count_set blocks b cur (some x) b').trans (hi.count key b' hb')
    tailBlock := by
      rw [same_building hbuild]
      exact hi.tailBlock
    threads := by
      intro u hu
      by_cases hup : u = p
      · subst hup
        rw [Function.update_self]
        refine ⟨hcur, fun b' hb' => ?_⟩
        rw [hentry] at hb'
        cases hb'
        rw [Function.update_self]
        exact Function.update_self _ _ _
      · rw [Function.update_of_ne hup] at hu ⊢
        exact (hi.threads u hu).mono hu (fun _ => rfl) (Nat.le_refl _) (Finset.Subset.refl _)
          (fun _ _ h => h) (Finset.Subset.refl _) (fun _ _ h => h) (fun _ _ h => h)
          (fun _ _ _ hb' => hb') (fun b' _ => count_set blocks b cur (some x) b')
          (fun h => absurd h hup)
    holdingUnique := unique_update hi.holdingUnique fun i' _ hh => by cases hh
    clearingUnique := unique_update hi.clearingUnique fun key _ hk => by cases hk
    held := fun i hlt hm => exists_update_of_none (hi.held i hlt hm) (by rw [hp]; rfl)
    cleared := fun key b' hb' hfull => exists_update_of_none (hi.cleared key b' hb' hfull) (by rw [hp]; rfl) }

theorem storeTail {x : α} {cur : Index} (hi : ProducerInv p P blocks pc g)
    (hp : pc p = .storeTail x cur) (hsmall : g.hist.length < 2 ^ 62) :
    ProducerInv p { P with tailIndex := 1 + cur } blocks (Function.update pc p .idle)
      { g with hist := g.hist ++ [x] } := by
  have hok := hi.threads p (by rw [hp]; rfl)
  rw [hp] at hok
  obtain ⟨hcur, hx⟩ := hok
  have hlen : cur.toNat = g.hist.length := by rw [hcur, hi.tail]
  have hsucc : (1 + cur).toNat = cur.toNat + 1 := by
    rw [BitVec.add_comm]
    exact toNat_succ (n := 2 ^ 62) (by omega) (by decide)
  obtain ⟨b, hb, hentry⟩ := hi.tailBlock (.inr (by rw [hp]; rfl))
  rw [← hcur] at hentry
  exact { hi with
    tail := by
      show (1 + cur).toNat = _
      rw [hsucc, hlen, List.length_append]
      rfl
    tickets := by
      refine Tickets.Inv.grow (hi.same_tickets (by rw [hp]; rfl)) ?_
      rw [List.length_append]
      exact Nat.le_add_right _ _
    keys := by
      intro key b' hb'
      rw [List.length_append]
      obtain ⟨hk, hlt | ⟨heq, -⟩⟩ := hi.keys key b' hb'
      · exact ⟨hk, .inl (Nat.lt_add_right _ hlt)⟩
      · exact ⟨hk, .inl (by rw [heq]; exact Nat.lt_succ_self _)⟩
    entry := by
      intro i hlt hm
      rw [List.length_append, List.length_singleton] at hlt
      by_cases hilt : i.toNat < g.hist.length
      · exact hi.entry i hilt hm
      · have hic : i = cur := BitVec.eq_of_toNat_eq (by omega)
        subst hic
        exact ⟨b, hentry⟩
    slot := by
      intro i y b' hy hm hb'
      by_cases hilt : i.toNat < g.hist.length
      · rw [List.getElem?_append_left hilt] at hy
        exact hi.slot i y b' hy hm hb'
      · have hi' : i.toNat < (g.hist ++ [x]).length := (List.getElem?_eq_some_iff.mp hy).1
        rw [List.length_append, List.length_singleton] at hi'
        have hic : i = cur := BitVec.eq_of_toNat_eq (by omega)
        subst hic
        rw [hlen, List.getElem?_concat_length] at hy
        cases hy
        exact hx b' hb'
    tailBlock := by
      intro h
      rw [Function.update_self] at h
      rcases h with h | h
      · refine ⟨b, hb, ?_⟩
        show P.blockIndex (blockBase (1 + cur)) = some b
        have hbase : blockBase (1 + cur) = blockBase cur := by
          have h' : (1 + cur).toNat % 32 ≠ 0 := h
          apply BitVec.eq_of_toNat_eq
          rw [blockBase_toNat, blockBase_toNat]
          omega
        rw [hbase]
        exact hentry
      · cases h
    threads := by
      intro u hu
      by_cases hup : u = p
      · subst hup
        rw [Function.update_self]
        trivial
      · rw [Function.update_of_ne hup] at hu ⊢
        refine (hi.threads u hu).mono hu (fun h => absurd h hup) (Nat.le_refl _) (Finset.Subset.refl _)
          (fun _ _ h => h) (Finset.Subset.refl _) (fun _ _ h => h) (fun k y hy => ?_)
          (fun _ _ _ hb' => hb') (fun _ _ => rfl) (fun h => absurd h hup)
        show (g.hist ++ [x])[k]? = some y
        rw [List.getElem?_append_left (List.getElem?_eq_some_iff.mp hy).1]
        exact hy
    holdingUnique := unique_update hi.holdingUnique fun i' _ hh => by cases hh
    clearingUnique := unique_update hi.clearingUnique fun key _ hk => by cases hk
    held := fun i hlt hm => exists_update_of_none (hi.held i hlt hm) (by rw [hp]; rfl)
    cleared := fun key b' hb' hfull => exists_update_of_none (hi.cleared key b' hb' hfull) (by rw [hp]; rfl) }

end ProducerInv

end Us2d
