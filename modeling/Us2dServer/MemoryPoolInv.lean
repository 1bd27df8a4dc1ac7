import Us2dServer.MemoryPool
import Mathlib.Algebra.Ring.Nat
import Mathlib.Tactic.Common

/-!
# What every pool operation preserves

`Inv`: each allocated block is on one stack, in one rental group or deleted, once, and every
pointer on a stack has the type of the stack.  `Refs`: the use counts are the numbers of
`shared_ptr`s in existence.  Each operation of the pool has one lemma for each of the two.
-/

namespace Us2d

namespace TsMemoryPool

open Custody

variable {p p' : TsMemoryPool} {t : BlockType} {sp : SharedPtr} {refs : Multiset SharedPtr}

/-! ## The class that `rent` chooses -/

/-- It is the smallest that fits. -/
theorem classOf_eq_some {size : Nat} (h : classOf size = some t) :
    size ≤ t.size ∧ ∀ u : BlockType, size ≤ u.size → t.size ≤ u.size := by
  unfold classOf at h
  repeat' split at h
  all_goals cases h
  all_goals
    refine ⟨by simp only [BlockType.size]; omega, fun u hu => ?_⟩
    cases u <;> simp only [BlockType.size] at hu ⊢ <;> omega

theorem classOf_eq_none {size : Nat} : classOf size = none ↔ 4096 < size := by
  unfold classOf
  constructor
  · intro h
    repeat' split at h
    all_goals cases h
    omega
  · intro h
    repeat rw [if_neg (by omega)]

/-! ## Effect of the operations on the places -/

theorem held_share (b : Nat) (q : Place) (a : Nat) :
    (share b t p).2.held q a =
      if q = .rental p.ctrls.length then (if b = a then 1 else 0) else p.held q a := by
  cases q with
  | stack u => rfl
  | deleted => rfl
  | rental g =>
    simp only [held, share, Place.rental.injEq]
    rcases Nat.lt_trichotomy g p.ctrls.length with h | h | h
    · rw [List.getElem?_append_left h, if_neg (by omega)]
    · subst h; simp
    · rw [List.getElem?_eq_none (by simp; omega), if_neg (by omega), List.getElem?_eq_none (by omega)]

theorem held_giveBack (b : Nat) (ok : Bool) (q : Place) (a : Nat) :
    (p.giveBack b t ok).held q a =
      p.held q a + if q = (if ok then .stack t else .deleted) ∧ b = a then 1 else 0 := by
  cases ok <;> cases q with
  | stack u =>
    by_cases hu : u = t
    · subst hu; simp [giveBack, held, List.count_cons]
    · simp [giveBack, held, hu]
  | rental g => simp [giveBack, held]
  | deleted => simp [giveBack, held, List.count_cons]

@[simp] theorem giveBack_heap (b : Nat) (ok : Bool) : (p.giveBack b t ok).heap = p.heap := by
  cases ok <;> rfl

@[simp] theorem giveBack_ctrls (b : Nat) (ok : Bool) : (p.giveBack b t ok).ctrls = p.ctrls := by
  cases ok <;> rfl

theorem mem_giveBack_pools {b a : Nat} {ok : Bool} {u : BlockType}
    (h : a ∈ (p.giveBack b t ok).pools u) : a = b ∧ u = t ∨ a ∈ p.pools u := by
  cases ok with
  | false => exact Or.inr h
  | true =>
    by_cases hu : u = t
    · subst hu
      have : a = b ∨ a ∈ p.pools u := by simpa [giveBack] using h
      exact this.imp_left fun ha => ⟨ha, rfl⟩
    · exact Or.inr (by simpa [giveBack, hu] using h)

/-- Replacing control block `g` changes what its rental group holds and nothing else. -/
theorem held_setCtrl {g : Nat} {c : ControlBlock} (hg : g < p.ctrls.length) (q : Place) (a : Nat) :
    (p.setCtrl g c).held q a =
      if q = .rental g then (if 0 < c.useCount ∧ c.ptr = a then 1 else 0) else p.held q a := by
  cases q with
  | stack u => rfl
  | deleted => rfl
  | rental g' =>
    simp only [held, setCtrl, Place.rental.injEq]
    by_cases h : g' = g
    · subst h; simp [hg]
    · rw [List.getElem?_set_ne (Ne.symm h), if_neg h]

theorem rentPopped_eq_some (h : p.rentPopped t = some (sp, p')) :
    ∃ rest, p.pools t = sp.ptr :: rest ∧
      p' = (share sp.ptr t { p with pools := Function.update p.pools t rest }).2 ∧
      sp.ctrl = p.ctrls.length := by
  unfold rentPopped at h
  split at h
  · cases h
  · next b rest hb =>
    simp only [share, Option.some.injEq, Prod.mk.injEq] at h
    obtain ⟨rfl, rfl⟩ := h
    exact ⟨rest, hb, rfl, rfl⟩

theorem rentPopped_eq_none : p.rentPopped t = none ↔ p.pools t = [] := by
  unfold rentPopped
  split <;> simp [*]

/-! ## `Inv` is preserved -/

theorem inv_empty : empty.Inv where
  custody := fun b hb => absurd hb (Nat.not_lt_zero b)
  absent := fun b _ q => by cases q <;> simp [held, empty]
  stackType := fun t b hb => by simp [empty] at hb
  ctrlType := fun g c hc => by simp [empty] at hc

theorem Inv.at_of_held (hi : p.Inv) {q : Place} {b : Nat} (h : 0 < p.held q b) :
    b < p.heap.length ∧ At p.held b q := by
  have hb : b < p.heap.length := by
    apply Classical.byContradiction
    intro hb
    rw [hi.absent b (by omega) q] at h
    omega
  exact ⟨hb, (hi.custody b hb).at_of_held h⟩

/-- An operation that moves the one block `m` and leaves the counts of all others alone. -/
theorem Inv.move (hi : p.Inv) {m : Nat} {w : Place}
    (hlen : ∀ b, b ≠ m → (b < p'.heap.length ↔ b < p.heap.length)) (hm : m < p'.heap.length)
    (hat : At p'.held m w) (hother : ∀ q b, b ≠ m → p'.held q b = p.held q b)
    (hst : ∀ t b, b ∈ p'.pools t → p'.heap[b]? = some t)
    (hct : ∀ (g : Nat) (c : ControlBlock), p'.ctrls[g]? = some c → p'.heap[c.ptr]? = some c.stack) :
    p'.Inv where
  custody := by
    intro b hb
    by_cases hbm : b = m
    · exact ⟨w, hbm ▸ hat⟩
    · exact (hi.custody b ((hlen b hbm).mp hb)).congr fun q => hother q b hbm
  absent := by
    intro b hb q
    have hbm : b ≠ m := by omega
    rw [hother q b hbm]
    exact hi.absent b (by have := (hlen b hbm).mpr; omega) q
  stackType := hst
  ctrlType := hct

/-- The control blocks after `share` keep the type of their block. -/
theorem ctrlType_share {b : Nat} (hi : ∀ (g : Nat) (c : ControlBlock),
    p.ctrls[g]? = some c → p.heap[c.ptr]? = some c.stack) (hb : p.heap[b]? = some t)
    (g : Nat) (c : ControlBlock) (hc : (share b t p).2.ctrls[g]? = some c) :
    p.heap[c.ptr]? = some c.stack := by
  simp only [share, List.getElem?_append] at hc
  split at hc
  · exact hi g c hc
  · obtain ⟨-, rfl⟩ := List.getElem?_eq_some_iff.mp hc
    simpa using hb

theorem Inv.rentPopped (hi : p.Inv) (h : p.rentPopped t = some (sp, p')) : p'.Inv := by
  obtain ⟨rest, hb, rfl, -⟩ := rentPopped_eq_some h
  obtain ⟨hlt, hat⟩ : sp.ptr < p.heap.length ∧ At p.held sp.ptr (.stack t) :=
    hi.at_of_held (by simp [held, hb])
  have hcount : rest.count sp.ptr = 0 := by
    have := hat.self
    simpa [held, hb] using this
  refine hi.move (m := sp.ptr) (w := .rental p.ctrls.length) (fun _ _ => Iff.rfl) hlt
    (fun q => ?_) (fun q b hbm => ?_) (fun u b hm => ?_) ?_
  · rw [held_share, if_pos rfl]
    split
    · rfl
    · cases q with
      | rental g => exact hat.other (q := .rental g) (by simp)
      | deleted => exact hat.other (q := .deleted) (by simp)
      | stack u =>
        by_cases hu : u = t
        · subst hu; simpa [held] using hcount
        · have := hat.other (q := .stack u) (by simpa using hu)
          simpa [held, hu] using this
  · rw [held_share, if_neg (Ne.symm hbm)]
    split
    · next hq => rw [hq]; simp [held]
    · cases q with
      | rental g => rfl
      | deleted => rfl
      | stack u =>
        by_cases hu : u = t
        · subst hu; simp [held, hb, Ne.symm hbm]
        · simp [held, hu]
  · by_cases hu : u = t
    · subst hu
      have hr : b ∈ rest := by simpa [share] using hm
      exact hi.stackType u b (by rw [hb]; exact List.mem_cons_of_mem _ hr)
    · exact hi.stackType u b (by simpa [share, hu] using hm)
  · exact ctrlType_share hi.ctrlType (hi.stackType t _ (by rw [hb]; exact List.mem_cons_self))

/-- A block in nobody's hands. -/
theorem Inv.newBlock_facts (hi : p.Inv) :
    (∀ b, b ≠ p.heap.length → (b < (p.newBlock t).2.heap.length ↔ b < p.heap.length)) ∧
      (∀ (g : Nat) (c : ControlBlock), p.ctrls[g]? = some c →
        (p.newBlock t).2.heap[c.ptr]? = some c.stack) ∧
      ∀ u b, b ∈ p.pools u → (p.newBlock t).2.heap[b]? = some u := by
  have hgrow : ∀ {b : Nat} {u : BlockType}, p.heap[b]? = some u → (p.heap ++ [t])[b]? = some u := by
    intro b u h
    obtain ⟨hlt, -⟩ := List.getElem?_eq_some_iff.mp h
    rw [List.getElem?_append_left hlt, h]
  refine ⟨fun b hb => ?_, fun g c hc => hgrow (hi.ctrlType g c hc),
    fun u b hb => hgrow (hi.stackType u b hb)⟩
  simp only [newBlock, List.length_append, List.length_singleton]
  omega

theorem Inv.rentFresh (hi : p.Inv) : (p.rentFresh t).2.Inv := by
  obtain ⟨hlen, hct, hst⟩ := hi.newBlock_facts (t := t)
  have habs := hi.absent p.heap.length (Nat.le_refl _)
  refine hi.move (m := p.heap.length) (w := .rental p.ctrls.length) hlen
    (show p.heap.length < (p.heap ++ [t]).length by simp) (fun q => ?_) (fun q b hbm => ?_) hst ?_
  · show held (share p.heap.length t (p.newBlock t).2).2 q _ = _
    rw [held_share, if_pos rfl, show (p.newBlock t).2.held q p.heap.length = 0 from habs q]
    rfl
  · show held (share p.heap.length t (p.newBlock t).2).2 q _ = _
    rw [held_share, if_neg (Ne.symm hbm)]
    split
    · next hq => rw [hq]; simp [held, newBlock]
    · rfl
  · exact ctrlType_share hct (by simp [newBlock])

/-- One round of `initialize_pool`. -/
theorem Inv.newBlock_giveBack (hi : p.Inv) (ok : Bool) :
    ((p.newBlock t).2.giveBack p.heap.length t ok).Inv := by
  obtain ⟨hlen, hct, hst⟩ := hi.newBlock_facts (t := t)
  have habs := hi.absent p.heap.length (Nat.le_refl _)
  refine hi.move (m := p.heap.length) (w := if ok then .stack t else .deleted)
    (by simpa using hlen) (by simp [newBlock]) (fun q => ?_) (fun q b hbm => ?_)
    (fun u b hm => ?_) (by rw [giveBack_heap, giveBack_ctrls]; exact hct)
  · rw [held_giveBack, show (p.newBlock t).2.held q p.heap.length = 0 from habs q]
    simp
  · rw [held_giveBack, if_neg (fun h => hbm h.2.symm)]
    rfl
  · rw [giveBack_heap]
    rcases mem_giveBack_pools hm with ⟨rfl, rfl⟩ | hm
    · simp [newBlock]
    · exact hst u b hm

theorem Inv.initializePool (pushed : Nat → Bool) : ∀ (n : Nat) {p : TsMemoryPool}, p.Inv →
    (p.initializePool t pushed n).Inv := by
  intro n
  induction n with
  | zero => exact fun hi => hi
  | succ n ih => exact fun hi => ih (hi.newBlock_giveBack _)

theorem inv_create (pushed : Nat → Bool) : (create pushed).Inv := by
  have hfold : ∀ (l : List BlockType) (p : TsMemoryPool), p.Inv →
      (l.foldl (fun p t => p.initializePool t pushed t.poolCount) p).Inv := by
    intro l
    induction l with
    | nil => exact fun p hi => hi
    | cons t l ih => exact fun p hi => ih _ (hi.initializePool pushed _)
  exact hfold stackOrder empty inv_empty

/-- The control blocks keep the types of their blocks when a use count changes. -/
theorem ctrlType_setCtrl {g n : Nat} {c : ControlBlock} (hi : p.Inv) (hc : p.ctrls[g]? = some c)
    (g' : Nat) (c' : ControlBlock)
    (hc' : (p.setCtrl g { c with useCount := n }).ctrls[g']? = some c') :
    p.heap[c'.ptr]? = some c'.stack := by
  have hg : g < p.ctrls.length := (List.getElem?_eq_some_iff.mp hc).1
  simp only [setCtrl, List.getElem?_set, if_pos hg] at hc'
  split at hc'
  · obtain rfl := Option.some.inj hc'
    exact hi.ctrlType g c hc
  · exact hi.ctrlType g' c' hc'

/-- A use count that stays on its side of zero moves no block. -/
theorem Inv.setCtrl (hi : p.Inv) {g n : Nat} {c : ControlBlock} (hc : p.ctrls[g]? = some c)
    (hn : 0 < n ↔ 0 < c.useCount) : (p.setCtrl g { c with useCount := n }).Inv := by
  have hg : g < p.ctrls.length := (List.getElem?_eq_some_iff.mp hc).1
  have hheld : ∀ q b, (p.setCtrl g { c with useCount := n }).held q b = p.held q b := by
    intro q b
    rw [held_setCtrl hg]
    split
    · next hq => simp [hq, held, hc, hn]
    · rfl
  exact ⟨fun b hb => (hi.custody b hb).congr fun q => hheld q b,
    fun b hb q => (hheld q b).trans (hi.absent b hb q), hi.stackType, ctrlType_setCtrl hi hc⟩

/-- The deleter moves its block from the rental group to the stack, or deletes it. -/
theorem Inv.release (hi : p.Inv) {g : Nat} {c : ControlBlock} (hc : p.ctrls[g]? = some c)
    (hone : c.useCount = 1) (ok : Bool) :
    ((p.setCtrl g { c with useCount := 0 }).giveBack c.ptr c.stack ok).Inv := by
  have hg : g < p.ctrls.length := (List.getElem?_eq_some_iff.mp hc).1
  obtain ⟨hlt, hat⟩ : c.ptr < p.heap.length ∧ At p.held c.ptr (.rental g) :=
    hi.at_of_held (by simp [held, hc, hone])
  have hset : ∀ q b, (p.setCtrl g { c with useCount := 0 }).held q b =
      if q = .rental g then 0 else p.held q b := by
    intro q b
    rw [held_setCtrl hg]
    simp
  refine hi.move (m := c.ptr) (w := if ok then .stack c.stack else .deleted)
    (fun b _ => by rw [giveBack_heap]; exact Iff.rfl) (by rw [giveBack_heap]; exact hlt)
    (fun q => ?_) (fun q b hbm => ?_) (fun u b hm => ?_) (fun g' c' hc' => ?_)
  · rw [held_giveBack, hset]
    by_cases hq : q = .rental g
    · cases ok <;> simp [hq]
    · rw [if_neg hq, hat.other hq, Nat.zero_add]
      simp
  · rw [held_giveBack, hset, if_neg (c := _ ∧ _) (fun h => hbm h.2.symm), Nat.add_zero]
    split
    · next hq => simp [hq, held, hc, Ne.symm hbm]
    · rfl
  · rw [giveBack_heap]
    rcases mem_giveBack_pools hm with ⟨rfl, rfl⟩ | hm
    · exact hi.ctrlType g c hc
    · exact hi.stackType u b hm
  · rw [giveBack_ctrls] at hc'
    rw [giveBack_heap]
    exact ctrlType_setCtrl hi hc g' c' hc'

theorem Inv.copy (hi : p.Inv) (hsp : 0 < p.useCount sp.ctrl) : (p.copy sp).Inv := by
  unfold TsMemoryPool.copy
  unfold useCount at hsp
  split
  · exact hi
  · next c hc =>
    rw [hc] at hsp
    exact hi.setCtrl hc ⟨fun _ => hsp, fun _ => Nat.succ_pos _⟩

theorem Inv.drop (hi : p.Inv) (ok : Bool) : (p.drop sp ok).Inv := by
  unfold TsMemoryPool.drop
  split
  · exact hi
  · next c hc =>
    split
    · next hone => exact hi.release hc hone ok
    · next hone => exact hi.setCtrl hc (by omega)

/-! ## `Refs` is preserved -/

theorem useCount_setCtrl {g : Nat} {c : ControlBlock} (hg : g < p.ctrls.length) (g' : Nat) :
    (p.setCtrl g c).useCount g' = if g' = g then c.useCount else p.useCount g' := by
  unfold useCount setCtrl
  by_cases h : g' = g
  · subst h; simp [hg]
  · simp only [List.getElem?_set_ne (Ne.symm h), if_neg h]

theorem useCount_share (b g : Nat) :
    useCount (share b t p).2 g = if g = p.ctrls.length then 1 else p.useCount g := by
  unfold useCount share
  rcases Nat.lt_trichotomy g p.ctrls.length with h | h | h
  · simp only [List.getElem?_append_left h]
    rw [if_neg (by omega)]
  · subst h; simp
  · rw [List.getElem?_eq_none (by simp; omega), List.getElem?_eq_none (by omega), if_neg (by omega)]

theorem refs_create_zero (pushed : Nat → Bool) : (create pushed).Refs 0 := by
  have hctrls : ∀ (t : BlockType) (n : Nat) (p : TsMemoryPool), p.ctrls = [] →
      (p.initializePool t pushed n).ctrls = [] := by
    intro t n
    induction n with
    | zero => exact fun p h => h
    | succ n ih =>
      intro p h
      apply ih
      unfold giveBack
      split <;> exact h
  have hnil : (create pushed).ctrls = [] := by
    unfold create stackOrder
    simp only [List.foldl_cons, List.foldl_nil]
    repeat apply hctrls
    rfl
  refine ⟨fun g => ?_, fun sp hsp => absurd hsp (Multiset.notMem_zero sp)⟩
  simp [TsMemoryPool.useCount, hnil]

theorem Refs.useCount_pos (hr : p.Refs refs) (h : sp ∈ refs) : 0 < p.useCount sp.ctrl := by
  rw [hr.useCount]
  exact Multiset.count_pos.mpr (Multiset.mem_map_of_mem _ h)

theorem Refs.share (hr : p.Refs refs) (b : Nat) :
    (share b t p).2.Refs ((share b t p).1 ::ₘ refs) := by
  constructor
  · intro g
    rw [useCount_share, Multiset.map_cons, Multiset.count_cons, ← hr.useCount g]
    by_cases hg : g = p.ctrls.length
    · subst hg; simp [TsMemoryPool.share, TsMemoryPool.useCount]
    · simp [hg, TsMemoryPool.share]
  · intro sp hsp
    rcases Multiset.mem_cons.mp hsp with rfl | hsp
    · exact ⟨⟨b, t, 1⟩, by simp [TsMemoryPool.share], rfl⟩
    · obtain ⟨c, hc, hp⟩ := hr.ptr sp hsp
      refine ⟨c, ?_, hp⟩
      simp only [TsMemoryPool.share]
      rw [List.getElem?_append_left (List.getElem?_eq_some_iff.mp hc).1, hc]

theorem Refs.rentPopped (hr : p.Refs refs) (h : p.rentPopped t = some (sp, p')) :
    p'.Refs (sp ::ₘ refs) := by
  obtain ⟨rest, -, rfl, hctrl⟩ := rentPopped_eq_some h
  have hsame : TsMemoryPool.Refs { p with pools := Function.update p.pools t rest } refs :=
    ⟨hr.useCount, hr.ptr⟩
  have hsp : (TsMemoryPool.share sp.ptr t { p with pools := Function.update p.pools t rest }).1 = sp := by
    rw [show sp = ⟨sp.ptr, sp.ctrl⟩ from rfl, hctrl]
    rfl
  have := hsame.share (t := t) sp.ptr
  rwa [hsp] at this

theorem Refs.rentFresh (hr : p.Refs refs) :
    (p.rentFresh t).2.Refs ((p.rentFresh t).1 ::ₘ refs) := by
  have hsame : (p.newBlock t).2.Refs refs := ⟨hr.useCount, hr.ptr⟩
  exact hsame.share _

/-- A pointer keeps its control block's pointer when use counts change. -/
theorem Refs.ptr_setCtrl (hr : p.Refs refs) {g n : Nat} {c : ControlBlock}
    (hc : p.ctrls[g]? = some c) (h : sp ∈ refs) : ∃ d : ControlBlock,
      (p.setCtrl g { c with useCount := n }).ctrls[sp.ctrl]? = some d ∧ d.ptr = sp.ptr := by
  obtain ⟨d, hd, hp⟩ := hr.ptr sp h
  have hg : g < p.ctrls.length := (List.getElem?_eq_some_iff.mp hc).1
  by_cases hgs : g = sp.ctrl
  · subst hgs
    rw [hc] at hd
    obtain rfl := Option.some.inj hd
    exact ⟨{ c with useCount := n }, by simp [setCtrl, hg], hp⟩
  · exact ⟨d, by rw [setCtrl, List.getElem?_set_ne hgs, hd], hp⟩

theorem Refs.copy (hr : p.Refs refs) (h : sp ∈ refs) : (p.copy sp).Refs (sp ::ₘ refs) := by
  obtain ⟨c, hc, -⟩ := hr.ptr sp h
  have hg : sp.ctrl < p.ctrls.length := (List.getElem?_eq_some_iff.mp hc).1
  have heq : p.copy sp = p.setCtrl sp.ctrl { c with useCount := c.useCount + 1 } := by
    simp [TsMemoryPool.copy, hc]
  rw [heq]
  constructor
  · intro g
    rw [useCount_setCtrl hg, Multiset.map_cons, Multiset.count_cons, ← hr.useCount g]
    by_cases hgs : g = sp.ctrl
    · subst hgs; simp [TsMemoryPool.useCount, hc]
    · simp [hgs]
  · intro sp' hsp'
    rcases Multiset.mem_cons.mp hsp' with rfl | hsp'
    · exact hr.ptr_setCtrl hc h
    · exact hr.ptr_setCtrl hc hsp'

theorem Refs.drop (hr : p.Refs (sp ::ₘ refs)) (ok : Bool) : (p.drop sp ok).Refs refs := by
  obtain ⟨c, hc, -⟩ := hr.ptr sp (Multiset.mem_cons_self _ _)
  have hg : sp.ctrl < p.ctrls.length := (List.getElem?_eq_some_iff.mp hc).1
  have hctrls : (p.drop sp ok).ctrls = (p.setCtrl sp.ctrl { c with useCount := c.useCount - 1 }).ctrls := by
    simp only [TsMemoryPool.drop, hc]
    split
    · next hone => simp [setCtrl, hone]
    · rfl
  have huse : ∀ g, (p.drop sp ok).useCount g = if g = sp.ctrl then c.useCount - 1 else p.useCount g := by
    intro g
    rw [← useCount_setCtrl (p := p) (c := { c with useCount := c.useCount - 1 }) hg g]
    simp only [TsMemoryPool.useCount, hctrls]
  constructor
  · intro g
    have hcount := hr.useCount g
    rw [Multiset.map_cons, Multiset.count_cons] at hcount
    rw [huse]
    by_cases hgs : g = sp.ctrl
    · subst hgs
      simp only [TsMemoryPool.useCount, hc, if_true] at hcount ⊢
      omega
    · simpa [hgs] using hcount
  · intro sp' hsp'
    rw [hctrls]
    exact hr.ptr_setCtrl hc (Multiset.mem_cons_of_mem hsp')

/-! ## What an outstanding `shared_ptr` may rely on -/

theorem Refs.at_rental (hr : p.Refs refs) (hi : p.Inv) (h : sp ∈ refs) :
    sp.ptr < p.heap.length ∧ At p.held sp.ptr (.rental sp.ctrl) := by
  obtain ⟨c, hc, hp⟩ := hr.ptr sp h
  have hpos := hr.useCount_pos h
  simp only [TsMemoryPool.useCount, hc] at hpos
  exact hi.at_of_held (by simp [held, hc, hpos, hp])

theorem copy_heap : (p.copy sp).heap = p.heap := by
  unfold TsMemoryPool.copy
  split <;> rfl

theorem drop_heap (ok : Bool) : (p.drop sp ok).heap = p.heap := by
  unfold TsMemoryPool.drop
  split
  · rfl
  · split
    · rw [giveBack_heap]; rfl
    · rfl

/-- Nothing is deleted but by a drop whose push is refused. -/
theorem copy_deleted : (p.copy sp).deleted = p.deleted := by
  unfold TsMemoryPool.copy
  split <;> rfl

theorem drop_deleted : (p.drop sp true).deleted = p.deleted := by
  unfold TsMemoryPool.drop
  split
  · rfl
  · split <;> rfl

/-- The block that `rent` returns comes from the stack, or is new, and has the chosen type. -/
theorem rentPopped_heap (hi : p.Inv) (h : p.rentPopped t = some (sp, p')) :
    p'.heap = p.heap ∧ sp.ptr ∈ p.pools t ∧ p'.heap[sp.ptr]? = some t := by
  obtain ⟨rest, hb, rfl, -⟩ := rentPopped_eq_some h
  have hm : sp.ptr ∈ p.pools t := by rw [hb]; exact List.mem_cons_self
  exact ⟨rfl, hm, hi.stackType t _ hm⟩

theorem rentFresh_heap : (p.rentFresh t).2.heap = p.heap ++ [t] ∧
    (p.rentFresh t).1.ptr = p.heap.length ∧
    (p.rentFresh t).2.heap[(p.rentFresh t).1.ptr]? = some t := by
  refine ⟨rfl, rfl, ?_⟩
  simp [TsMemoryPool.rentFresh, newBlock, TsMemoryPool.share]

/-- The last `shared_ptr` of a group gives the block back to the stack of its type, or deletes it. -/
theorem Refs.drop_last (hr : p.Refs refs) (hi : p.Inv) (h : sp ∈ refs) (hone : p.useCount sp.ctrl = 1)
    (pushed : Bool) : ∃ t, p.heap[sp.ptr]? = some t ∧
      At (p.drop sp pushed).held sp.ptr (if pushed then .stack t else .deleted) := by
  obtain ⟨c, hc, hp⟩ := hr.ptr sp h
  simp only [TsMemoryPool.useCount, hc] at hone
  refine ⟨c.stack, hp ▸ hi.ctrlType _ c hc, ((hi.drop pushed).at_of_held ?_).2⟩
  have hdrop : p.drop sp pushed =
      (p.setCtrl sp.ctrl { c with useCount := 0 }).giveBack c.ptr c.stack pushed := by
    simp [TsMemoryPool.drop, hc, hone]
  rw [hdrop, held_giveBack]
  simp [hp]

/-- Two rental groups never share a block. -/
theorem Refs.ctrl_eq_of_ptr_eq (hr : p.Refs refs) (hi : p.Inv) {sp' : SharedPtr} (h : sp ∈ refs)
    (h' : sp' ∈ refs) (hp : sp.ptr = sp'.ptr) : sp.ctrl = sp'.ctrl := by
  have h1 := (hr.at_rental hi h).2
  rw [hp] at h1
  simpa using h1.unique (hr.at_rental hi h').2

/-- A lent block is on no stack. -/
theorem Refs.notMem_pools (hr : p.Refs refs) (hi : p.Inv) (h : sp ∈ refs) (t : BlockType) :
    sp.ptr ∉ p.pools t := by
  intro hm
  have hz : p.held (.stack t) sp.ptr = 0 := (hr.at_rental hi h).2.other (by simp)
  exact List.count_eq_zero.mp hz hm

theorem Refs.notMem_deleted (hr : p.Refs refs) (hi : p.Inv) (h : sp ∈ refs) : sp.ptr ∉ p.deleted := by
  intro hm
  have hz : p.held .deleted sp.ptr = 0 := (hr.at_rental hi h).2.other (by simp)
  exact List.count_eq_zero.mp hz hm

/-! ## Where a block is -/

theorem mem_of_at_stack {b : Nat} (h : At p.held b (.stack t)) : b ∈ p.pools t := by
  have hcount : (p.pools t).count b = 1 := h.self
  exact List.count_pos_iff.mp (by omega)

theorem mem_of_at_deleted {b : Nat} (h : At p.held b .deleted) : b ∈ p.deleted := by
  have hcount : p.deleted.count b = 1 := h.self
  exact List.count_pos_iff.mp (by omega)

/-- A rental group holds its block on behalf of a `shared_ptr` in existence. -/
theorem Refs.exists_of_rental (hr : p.Refs refs) {g b : Nat} (h : p.held (.rental g) b = 1) :
    ∃ sp ∈ refs, sp.ctrl = g ∧ sp.ptr = b := by
  simp only [held] at h
  split at h
  · cases h
  · next c hc =>
    split at h
    · next hcond =>
      have hcount := hr.useCount g
      simp only [TsMemoryPool.useCount, hc] at hcount
      obtain ⟨sp, hsp, rfl⟩ := Multiset.mem_map.mp (Multiset.count_pos.mp (hcount ▸ hcond.1))
      obtain ⟨d, hd, hptr⟩ := hr.ptr sp hsp
      obtain rfl := Option.some.inj (hc.symm.trans hd)
      exact ⟨sp, hsp, rfl, hptr.symm.trans hcond.2⟩
    · cases h

/-- A block that no `shared_ptr` refers to is on the stack of its type, or deleted. -/
theorem Refs.block_free (hr : p.Refs refs) (hi : p.Inv) {b : Nat} (hb : b < p.heap.length)
    (hfree : ∀ sp ∈ refs, sp.ptr ≠ b) :
    (∃ t, p.heap[b]? = some t ∧ At p.held b (.stack t)) ∨ At p.held b .deleted := by
  obtain ⟨q, hq⟩ := hi.custody b hb
  cases q with
  | stack t => exact Or.inl ⟨t, hi.stackType t b (mem_of_at_stack hq), hq⟩
  | deleted => exact Or.inr hq
  | rental g =>
    obtain ⟨sp, hsp, -, hptr⟩ := hr.exists_of_rental hq.self
    exact absurd hptr (hfree sp hsp)

/-! ## The destructor -/

theorem foldl_destroyStack (l : List BlockType) (hl : l.Nodup) (p : TsMemoryPool) (b : Nat) :
    (l.foldl destroyStack p).heap = p.heap ∧
      (l.foldl destroyStack p).deleted.count b =
        p.deleted.count b + (l.map fun t => (p.pools t).count b).sum := by
  induction l generalizing p with
  | nil => exact ⟨rfl, rfl⟩
  | cons t l ih =>
    obtain ⟨ht, hl⟩ := List.nodup_cons.mp hl
    obtain ⟨hheap, hcount⟩ := ih hl (p.destroyStack t)
    have hrest : (l.map fun u => ((p.destroyStack t).pools u).count b) =
        l.map fun u => (p.pools u).count b := by
      refine List.map_congr_left fun u hu => ?_
      have hut : u ≠ t := by rintro rfl; exact ht hu
      simp only [destroyStack, Function.update_of_ne hut]
    refine ⟨hheap, ?_⟩
    rw [List.foldl_cons, hcount, hrest, List.map_cons, List.sum_cons]
    simp only [destroyStack, List.count_append, List.count_reverse]
    omega

theorem destroy_heap : p.destroy.heap = p.heap :=
  (foldl_destroyStack stackOrder (by decide) p 0).1

/-- When nothing is on loan the destructor deletes all blocks that are not deleted yet. -/
theorem Inv.destroy (hi : p.Inv) (hr : p.Refs 0) {b : Nat} (hb : b < p.heap.length) :
    p.destroy.deleted.count b = 1 := by
  obtain ⟨q, hq⟩ := hi.custody b hb
  have hstack : ∀ t, (p.pools t).count b = if Place.stack t = q then 1 else 0 := fun t => hq (.stack t)
  have hdeleted : p.deleted.count b = if Place.deleted = q then 1 else 0 := hq .deleted
  show (stackOrder.foldl destroyStack p).deleted.count b = 1
  rw [(foldl_destroyStack stackOrder (by decide) p b).2]
  simp only [stackOrder, List.map_cons, List.map_nil, List.sum_cons, List.sum_nil, hstack, hdeleted]
  cases q with
  | stack t => cases t <;> simp
  | deleted => simp
  | rental g =>
    obtain ⟨sp, hsp, -⟩ := hr.exists_of_rental hq.self
    exact absurd hsp (Multiset.notMem_zero sp)

/-- `shared_ptr`s are left as long as a control block has a use count. -/
theorem Refs.eq_zero (hr : p.Refs refs) : refs = 0 ↔ p.ctrls.filter (0 < ·.useCount) = [] := by
  constructor
  · rintro rfl
    refine List.filter_eq_nil_iff.mpr fun c hc => ?_
    obtain ⟨g, hg⟩ := List.mem_iff_getElem?.mp hc
    have hzero := hr.useCount g
    simp only [TsMemoryPool.useCount, hg, Multiset.map_zero, Multiset.count_zero] at hzero
    simp [hzero]
  · intro hnil
    rw [Multiset.eq_zero_iff_forall_notMem]
    intro sp hsp
    obtain ⟨c, hc, -⟩ := hr.ptr sp hsp
    have hpos := hr.useCount_pos hsp
    simp only [TsMemoryPool.useCount, hc] at hpos
    exact List.filter_eq_nil_iff.mp hnil c (List.mem_of_getElem? hc) (by simpa using hpos)

end TsMemoryPool

end Us2d
