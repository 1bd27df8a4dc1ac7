import Us2dServer.PoolThreads
import Us2dServer.Lib.Parties
import Mathlib.Tactic.Common

/-!
# How far the block pool grows

`rent` allocates when its `pop` finds the stack of its class empty, and it may do so after
another thread has given a block back.  Nevertheless the pool never holds more memory than was
needed at one moment: the live blocks of a type are at most the blocks of the constructor or the
peak demand, that is, the blocks lent and the calls that wait for one.

    live blocks = blocks on the stack + blocks lent                    (Inv.live_perm)
    live + waiting ≤ max poolCount (peak of lent + waiting)            (growth_bounded)
-/

namespace Us2d

namespace TsMemoryPool

open Custody

variable {p p' : TsMemoryPool} {t u : BlockType} {sp : SharedPtr} {refs : Multiset SharedPtr}

/-- The blocks of a type that are allocated and not deleted. -/
def liveBlocks (t : BlockType) (p : TsMemoryPool) : List Nat :=
  (List.range p.heap.length).filter fun b => p.heap[b]? = some t ∧ b ∉ p.deleted

def ControlBlock.lends (t : BlockType) (c : ControlBlock) : Bool := 0 < c.useCount ∧ c.stack = t

/-- The blocks of a type that `shared_ptr`s hold. -/
def lentBlocks (t : BlockType) (p : TsMemoryPool) : List Nat :=
  (p.ctrls.filter (ControlBlock.lends t)).map ControlBlock.ptr

/-! ## Where the live blocks are -/

theorem mem_lentBlocks {b : Nat} : b ∈ p.lentBlocks t ↔
    ∃ (g : Nat) (c : ControlBlock), p.ctrls[g]? = some c ∧ 0 < c.useCount ∧ c.stack = t ∧ c.ptr = b := by
  simp only [lentBlocks, List.mem_map, List.mem_filter, ControlBlock.lends, decide_eq_true_eq]
  constructor
  · rintro ⟨c, ⟨hc, hpos, ht⟩, hb⟩
    obtain ⟨g, hg⟩ := List.mem_iff_getElem?.mp hc
    exact ⟨g, c, hg, hpos, ht, hb⟩
  · rintro ⟨g, c, hg, hpos, ht, hb⟩
    exact ⟨c, ⟨List.mem_of_getElem? hg, hpos, ht⟩, hb⟩

theorem Inv.lentBlocks_nodup (hi : p.Inv) (t : BlockType) : (p.lentBlocks t).Nodup := by
  rw [lentBlocks, List.nodup_iff_pairwise_ne, List.pairwise_map, List.pairwise_filter,
    List.pairwise_iff_getElem]
  intro i j hil hjl hij hci hcj hptr
  simp only [ControlBlock.lends, decide_eq_true_eq] at hci hcj
  -- two groups do not hold one block
  have hat : ∀ (g : Nat) (hg : g < p.ctrls.length), 0 < p.ctrls[g].useCount →
      At p.held p.ctrls[g].ptr (.rental g) := by
    intro g hg hpos
    refine (hi.at_of_held (q := .rental g) ?_).2
    simp [held, hg, hpos]
  have hi' := hat i hil hci.1
  rw [hptr] at hi'
  have hplace := hi'.unique (hat j hjl hcj.1)
  simp only [Place.rental.injEq] at hplace
  omega

theorem Inv.pools_nodup (hi : p.Inv) (t : BlockType) : (p.pools t).Nodup := by
  rw [List.nodup_iff_count_le_one]
  intro b
  by_cases hb : b ∈ p.pools t
  · have hpos : 0 < p.held (.stack t) b := List.count_pos_iff.mpr hb
    exact (hi.at_of_held hpos).2.self.le
  · rw [List.count_eq_zero.mpr hb]
    omega

/-- Every live block of a type is on its stack or lent, once. -/
theorem Inv.live_perm (hi : p.Inv) (t : BlockType) :
    (p.liveBlocks t).Perm (p.pools t ++ p.lentBlocks t) := by
  have hstack : ∀ b, b ∈ p.pools t → At p.held b (.stack t) := fun b hb =>
    (hi.at_of_held (q := .stack t) (List.count_pos_iff.mpr hb)).2
  have hlent : ∀ b, b ∈ p.lentBlocks t → ∃ g, At p.held b (.rental g) ∧ p.heap[b]? = some t := by
    intro b hb
    obtain ⟨g, c, hg, hpos, rfl, rfl⟩ := mem_lentBlocks.mp hb
    exact ⟨g, (hi.at_of_held (q := .rental g) (by simp [held, hg, hpos])).2, hi.ctrlType g c hg⟩
  have hnot : ∀ b q, At p.held b q → q ≠ .deleted → b ∉ p.deleted := by
    intro b q hat hq
    have hzero : p.held .deleted b = 0 := hat.other (Ne.symm hq)
    exact List.count_eq_zero.mp hzero
  rw [liveBlocks, List.perm_ext_iff_of_nodup (List.nodup_range.filter _)]
  · intro b
    simp only [List.mem_filter, List.mem_range, decide_eq_true_eq, List.mem_append]
    constructor
    · rintro ⟨hlt, hb, hdel⟩
      obtain ⟨q, hq⟩ := hi.custody b hlt
      cases q with
      | stack u =>
        have hm : b ∈ p.pools u := List.count_pos_iff.mp (by rw [show (p.pools u).count b = 1 from hq.self]; omega)
        have hu := hi.stackType u b hm
        rw [hb] at hu
        cases hu
        exact .inl hm
      | rental g =>
        have hself := hq.self
        simp only [held] at hself
        split at hself
        · cases hself
        · next c hg =>
          split at hself
          · next hc =>
            have hu := hi.ctrlType g c hg
            rw [hc.2, hb] at hu
            exact .inr (mem_lentBlocks.mpr ⟨g, c, hg, hc.1, (Option.some.inj hu).symm, hc.2⟩)
          · cases hself
      | deleted =>
        exact absurd (List.count_pos_iff.mp (by rw [show p.deleted.count b = 1 from hq.self]; omega)) hdel
    · rintro (hb | hb)
      · have hat := hstack b hb
        refine ⟨(hi.at_of_held (q := .stack t) (List.count_pos_iff.mpr hb)).1, hi.stackType t b hb,
          hnot b _ hat (by simp)⟩
      · obtain ⟨g, hat, hb'⟩ := hlent b hb
        exact ⟨(List.getElem?_eq_some_iff.mp hb').1, hb', hnot b _ hat (by simp)⟩
  · refine List.nodup_append'.mpr ⟨hi.pools_nodup t, hi.lentBlocks_nodup t, ?_⟩
    intro b hb hb'
    obtain ⟨g, hat, -⟩ := hlent b hb'
    cases (hstack b hb).unique hat

/-! ## What the operations do to the numbers -/

/-- The blocks of a type on the stack and lent. -/
def size (t : BlockType) (p : TsMemoryPool) : Nat := (p.pools t).length + (p.lentBlocks t).length

theorem Inv.length_live (hi : p.Inv) (t : BlockType) : (p.liveBlocks t).length = p.size t := by
  rw [(hi.live_perm t).length_eq, List.length_append]
  rfl

theorem length_lentBlocks : (p.lentBlocks t).length = p.ctrls.countP (ControlBlock.lends t) := by
  rw [lentBlocks, List.length_map, List.countP_eq_length_filter]

theorem lentBlocks_share (b : Nat) : ((share b u p).2.lentBlocks t).length =
    (p.lentBlocks t).length + if u = t then 1 else 0 := by
  rw [length_lentBlocks, length_lentBlocks, share, List.countP_append]
  congr 1
  by_cases hu : u = t <;> simp [ControlBlock.lends, hu]

theorem size_rentPopped (h : p.rentPopped u = some (sp, p')) : p'.size t = p.size t := by
  obtain ⟨rest, hb, rfl, -⟩ := rentPopped_eq_some h
  have hlent := lentBlocks_share (t := t) (u := u)
    (p := { p with pools := Function.update p.pools u rest }) sp.ptr
  unfold size
  rw [hlent]
  show (Function.update p.pools u rest t).length + ((p.lentBlocks t).length + _) = _
  by_cases hu : u = t
  · subst hu
    rw [Function.update_self, hb, if_pos rfl, List.length_cons]
    omega
  · rw [Function.update_of_ne (Ne.symm hu), if_neg hu]
    omega

theorem size_rentFresh : (p.rentFresh u).2.size t = p.size t + if u = t then 1 else 0 := by
  unfold size rentFresh
  rw [lentBlocks_share]
  show (p.pools t).length + ((p.lentBlocks t).length + _) = _
  omega

theorem lentBlocks_setCtrl {g n : Nat} {c : ControlBlock} (hc : p.ctrls[g]? = some c) :
    ((p.setCtrl g { c with useCount := n }).lentBlocks t).length +
      (if 0 < c.useCount ∧ c.stack = t then 1 else 0) =
        (p.lentBlocks t).length + if 0 < n ∧ c.stack = t then 1 else 0 := by
  obtain ⟨hg, hget⟩ := List.getElem?_eq_some_iff.mp hc
  have hpos : 0 < c.useCount ∧ c.stack = t → 0 < p.ctrls.countP (ControlBlock.lends t) := by
    intro h
    rw [List.countP_pos_iff]
    exact ⟨c, List.mem_of_getElem? hc, by simpa [ControlBlock.lends] using h⟩
  rw [length_lentBlocks, length_lentBlocks, setCtrl, List.countP_set hg, hget]
  simp only [ControlBlock.lends, decide_eq_true_eq]
  split
  · next h =>
    have := hpos h
    omega
  · omega

theorem size_copy (h : 0 < p.useCount sp.ctrl) : (p.copy sp).size t = p.size t := by
  unfold TsMemoryPool.copy
  split
  · rfl
  · next c hc =>
    have huse : 0 < c.useCount := by simpa [useCount, hc] using h
    have hset := lentBlocks_setCtrl (t := t) (n := c.useCount + 1) hc
    unfold size
    show (p.pools t).length + _ = _
    simp only [huse, Nat.succ_pos, true_and] at hset
    omega

/-- To drop a `shared_ptr` gives the block back, and deletes it at most. -/
theorem size_drop (ok : Bool) : (p.drop sp ok).size t ≤ p.size t := by
  unfold TsMemoryPool.drop
  split
  · exact Nat.le_refl _
  · next c hc =>
    split
    · next hone =>
      have hset := lentBlocks_setCtrl (t := t) (n := 0) hc
      simp only [hone, Nat.zero_lt_one, true_and, Nat.lt_irrefl, false_and, if_false] at hset
      have hpools : ((p.setCtrl sp.ctrl { c with useCount := 0 }).giveBack c.ptr c.stack ok).pools t =
          if ok ∧ c.stack = t then c.ptr :: p.pools t else p.pools t := by
        cases ok <;> by_cases ht : t = c.stack <;> simp [giveBack, setCtrl, ht, eq_comm]
      unfold size
      rw [hpools, length_lentBlocks, giveBack_ctrls, ← length_lentBlocks]
      split
      · next h =>
        rw [if_pos h.2] at hset
        rw [List.length_cons]
        omega
      · omega
    · next hone =>
      have hset := lentBlocks_setCtrl (t := t) (n := c.useCount - 1) hc
      unfold size
      show (p.pools t).length + _ ≤ _
      have hle : (if 0 < c.useCount - 1 ∧ c.stack = t then 1 else 0) ≤
          if 0 < c.useCount ∧ c.stack = t then 1 else 0 := by
        split
        · next h => rw [if_pos ⟨by omega, h.2⟩]
        · exact Nat.zero_le _
      omega

/-! ## The constructor -/

theorem initializePool_pools (pushed : Nat → Bool) (n : Nat) :
    ((p.initializePool u pushed n).pools t).length ≤ (p.pools t).length + if u = t then n else 0 := by
  induction n generalizing p with
  | zero => simp [initializePool]
  | succ n ih =>
    refine Nat.le_trans ih ?_
    have hround : (((p.newBlock u).2.giveBack p.heap.length u (pushed p.heap.length)).pools t).length ≤
        (p.pools t).length + if u = t then 1 else 0 := by
      cases pushed p.heap.length with
      | false => exact Nat.le_add_right _ _
      | true =>
        by_cases hu : u = t
        · subst hu
          simp [giveBack, newBlock]
        · simp [giveBack, newBlock, hu, Ne.symm hu]
    show (((p.newBlock u).2.giveBack p.heap.length u (pushed p.heap.length)).pools t).length + _ ≤ _
    by_cases hu : u = t
    · rw [if_pos hu] at hround ⊢
      rw [if_pos hu]
      omega
    · rw [if_neg hu] at hround ⊢
      rw [if_neg hu]
      omega

theorem create_pools (pushed : Nat → Bool) (t : BlockType) :
    ((create pushed).pools t).length ≤ t.poolCount := by
  have hfold : ∀ (l : List BlockType) (p : TsMemoryPool),
      ((l.foldl (fun p t => p.initializePool t pushed t.poolCount) p).pools t).length ≤
        (p.pools t).length + l.count t * t.poolCount := by
    intro l
    induction l with
    | nil => exact fun p => Nat.le_add_right _ _
    | cons u l ih =>
      intro p
      have h1 := ih (p.initializePool u pushed u.poolCount)
      have h2 := initializePool_pools (p := p) (u := u) (t := t) pushed u.poolCount
      rw [List.foldl_cons, List.count_cons]
      by_cases hu : u = t
      · subst hu
        simp only [BEq.rfl, if_true] at h2 ⊢
        rw [Nat.succ_mul]
        omega
      · simp only [beq_iff_eq, hu, if_false, Nat.add_zero] at h2 ⊢
        omega
  have hcount : stackOrder.count t = 1 := by cases t <;> decide
  have h := hfold stackOrder empty
  rw [hcount, Nat.one_mul] at h
  simpa [create, empty] using h

theorem lentBlocks_create (pushed : Nat → Bool) (t : BlockType) : (create pushed).lentBlocks t = [] := by
  rw [List.eq_nil_iff_forall_not_mem]
  intro b hb
  obtain ⟨g, c, hg, hpos, -⟩ := mem_lentBlocks.mp hb
  have huse := (refs_create_zero pushed).useCount g
  simp only [useCount, hg, Multiset.map_zero, Multiset.count_zero] at huse
  omega

end TsMemoryPool

/-! ## The threads -/

namespace PoolThreads

open TsMemoryPool Transition

variable {s s' : PoolThreads} {t u : BlockType} {N B : Nat} {a : Action}

/-- The calls of threads below `N` are all there are. -/
def Action.Below (N : Nat) : Action → Prop
  | .rent thread _ => thread < N
  | .allocate thread _ => thread < N
  | _ => True

instance decidableBelow (N : Nat) : (a : Action) → Decidable (a.Below N)
  | .rent thread _ => inferInstanceAs (Decidable (thread < N))
  | .allocate thread _ => inferInstanceAs (Decidable (thread < N))
  | .copy _ => isTrue trivial
  | .drop _ _ => isTrue trivial

/-- Whether a thread waits for a block of a type. -/
def wants (t : BlockType) : Option Nat → Nat
  | none => 0
  | some size => if classOf size = some t then 1 else 0

/-- The calls that found the stack of a type empty and are still under way. -/
def waitingFor (N : Nat) (t : BlockType) (s : PoolThreads) : Nat :=
  Parties.total N fun th => wants t (s.waiting th)

/-- What the callers have of a type or are about to get. -/
def demand (N : Nat) (t : BlockType) (s : PoolThreads) : Nat :=
  (s.pool.lentBlocks t).length + s.waitingFor N t

/-- The step leads to a demand of at most `B`. -/
def Within (N B : Nat) (t : BlockType) (s : PoolThreads) (a : Action) : Prop :=
  ∀ s' ∈ step s a, s'.demand N t ≤ B

instance (N B : Nat) (t : BlockType) (s : PoolThreads) (a : Action) : Decidable (Within N B t s a) :=
  inferInstanceAs (Decidable (∀ s' ∈ step s a, s'.demand N t ≤ B))

theorem waitingFor_update {thread : Nat} {w : Option Nat} (hth : thread < N)
    (h : s'.waiting = Function.update s.waiting thread w) :
    s'.waitingFor N t + wants t (s.waiting thread) = s.waitingFor N t + wants t w := by
  unfold waitingFor
  rw [h]
  exact Parties.total_update hth

/-- The bound is reached only where the stack is empty, and then it is the demand. -/
theorem size_step (hi : s.Inv) (ha : a.Below N) (hB : Within N B t s a) (h : step s a = some s')
    (hle : s.pool.size t + s.waitingFor N t ≤ max t.poolCount B) :
    s'.pool.size t + s'.waitingFor N t ≤ max t.poolCount B := by
  have hdemand := hB s' h
  obtain ⟨⟨s1, r⟩, hact, hs1⟩ := Option.map_eq_some_iff.mp h
  change s1 = s' at hs1
  subst hs1
  cases a with
  | rent thread size =>
    rcases act_rent hact with ⟨-, rfl, -⟩ | ⟨u, sp, p, -, hp, rfl, -⟩ | ⟨u, hc, hnil, rfl, -⟩
    · exact hle
    · show p.size t + s.waitingFor N t ≤ _
      rwa [size_rentPopped hp]
    · have hwait : waitingFor N t { s with waiting := Function.update s.waiting thread (some size) } +
          wants t (s.waiting thread) = s.waitingFor N t + wants t (some size) :=
        waitingFor_update ha rfl
      by_cases hu : u = t
      · subst hu
        refine Nat.le_trans ?_ (Nat.le_trans hdemand (Nat.le_max_right _ _))
        show (s.pool.pools u).length + (s.pool.lentBlocks u).length + _ ≤ _
        rw [hnil, List.length_nil, Nat.zero_add]
        exact Nat.le_refl _
      · have hzero : wants t (some size) = 0 := by simp [wants, hc, hu]
        show s.pool.size t + waitingFor N t _ ≤ _
        omega
  | allocate thread can =>
    obtain ⟨size, u, hw, hc, hs⟩ := act_allocate hact
    have hwait : s1.waitingFor N t + wants t (some size) = s.waitingFor N t := by
      rw [← hw]
      apply waitingFor_update ha (w := none)
      rcases hs with ⟨-, -, rfl⟩ | ⟨-, -, rfl⟩ <;> rfl
    rcases hs with ⟨-, -, rfl⟩ | ⟨-, -, rfl⟩
    · have hfresh := size_rentFresh (p := s.pool) (u := u) (t := t)
      simp only [wants, hc, Option.some.injEq] at hwait
      show (s.pool.rentFresh u).2.size t + waitingFor N t _ ≤ _
      omega
    · show s.pool.size t + waitingFor N t _ ≤ _
      omega
  | copy sp =>
    simp only [act] at hact
    split at hact
    · next hm =>
      cases hact
      show (s.pool.copy sp).size t + s.waitingFor N t ≤ _
      rwa [size_copy (hi.refs.useCount_pos (Multiset.mem_coe.mpr hm))]
    · cases hact
  | drop sp ok =>
    simp only [act] at hact
    split at hact
    · next hm =>
      cases hact
      have hdrop : (s.pool.drop sp ok).size t ≤ s.pool.size t := size_drop ok
      show (s.pool.drop sp ok).size t + s.waitingFor N t ≤ _
      omega
    · cases hact

/-- **Bounded growth.**  In every history of `N` threads in which the demand for a type never
exceeds `B`, its live blocks, and the calls that may still add one, never exceed the larger of
`B` and the blocks of the constructor. -/
theorem growth_bounded (pushed : Nat → Bool) (as : List Action) (s : PoolThreads) (N B : Nat)
    (t : BlockType) (h : run step (init pushed) as = some s) (hN : ∀ a ∈ as, a.Below N)
    (hB : Along step (Within N B t) (init pushed) as) :
    (s.pool.liveBlocks t).length + s.waitingFor N t ≤ max t.poolCount B := by
  have hinv : s.Inv ∧ s.pool.size t + s.waitingFor N t ≤ max t.poolCount B := by
    refine run_invariant_along
      (I := fun s : PoolThreads => s.Inv ∧ s.pool.size t + s.waitingFor N t ≤ max t.poolCount B) ?_ h
      (hB.and (along_of_actions fun a ha _ => hN a ha)) ⟨inv_init pushed, ?_⟩
    · rintro s a s' ⟨hi, hle⟩ ⟨hwithin, hbelow⟩ hs
      exact ⟨hi.step hs, size_step hi hbelow hwithin hs hle⟩
    · have hpools := create_pools pushed t
      have hwait : (init pushed).waitingFor N t = 0 := Parties.total_eq_zero fun _ _ => rfl
      show ((create pushed).pools t).length + ((create pushed).lentBlocks t).length + _ ≤ _
      rw [lentBlocks_create, List.length_nil]
      omega
  rw [hinv.1.pool.length_live]
  exact hinv.2

/-- The third `rent` finds the stack of two blocks empty, and allocates after one of them has been
given back. -/
def lateRun : List Action :=
  [.rent 0 4000, .rent 1 4000, .rent 2 4000, .drop ⟨469, 0⟩ true, .allocate 2 true]

theorem growth_bounded_late : ∃ s, run step (init fun _ => true) lateRun = some s ∧
    s.pool.pools .block4096 = [469] ∧
      (s.pool.liveBlocks .block4096).length + s.waitingFor 3 .block4096 ≤ 3 := by
  have hrun : (run step (init fun _ => true) lateRun).map (fun s => s.pool.pools .block4096) =
      some [469] := by
    decide +kernel
  obtain ⟨s, hs, hpools⟩ := Option.map_eq_some_iff.mp hrun
  exact ⟨s, hs, hpools, growth_bounded (fun _ => true) lateRun s 3 3 .block4096 hs (by decide)
    (by decide +kernel)⟩

end PoolThreads

end Us2d
