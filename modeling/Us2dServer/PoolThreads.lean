import Us2dServer.Lib.Transition
import Us2dServer.MemoryPoolInv

/-!
# Threads over the block pool

Any number of threads call `rent`, copy the `shared_ptr`s they got and drop them, in any
order.  `rent` is two steps when its `pop` finds the stack empty: other threads may act before
`can_allocate_dynamic()` answers and the block is allocated.

    Reachable step (init pushed) s →
      every block allocated is at one place, once; a pointer on the stack of `t` is a `t`;
      what `rent` returns, and when it returns null           (pool_ownership)
-/

namespace Us2d

open TsMemoryPool

/-- The pool, the `shared_ptr`s in existence, and the threads whose `pop` found the chosen
stack empty, with the size they are renting. -/
structure PoolThreads where
  pool : TsMemoryPool
  refs : List SharedPtr
  waiting : Nat → Option Nat

namespace PoolThreads

inductive Action
  /-- `rent(size)` on a thread, up to the result of `stack.pop` -/
  | rent (thread size : Nat)
  /-- the rest of that call, with the answer of `can_allocate_dynamic()` -/
  | allocate (thread : Nat) (can : Bool)
  | copy (sp : SharedPtr)
  | drop (sp : SharedPtr) (pushed : Bool)

/-- What a thread sees of its action. -/
inductive Response
  | done
  | popFailed
  | returned (size : Nat) (result : Option SharedPtr)

def act (s : PoolThreads) : Action → Option (PoolThreads × Response)
  | .rent thread size =>
    if s.waiting thread ≠ none then none
    else
      match classOf size with
      | none => some (s, .returned size none)
      | some t =>
        match s.pool.rentPopped t with
        | some (sp, p) => some ({ s with pool := p, refs := sp :: s.refs }, .returned size (some sp))
        | none => some ({ s with waiting := Function.update s.waiting thread (some size) }, .popFailed)
  | .allocate thread can =>
    match s.waiting thread with
    | none => none
    | some size =>
      match classOf size with
      | none => none
      | some t =>
        let s' := { s with waiting := Function.update s.waiting thread none }
        if can then
          some ({ s' with pool := (s.pool.rentFresh t).2, refs := (s.pool.rentFresh t).1 :: s.refs },
            .returned size (some (s.pool.rentFresh t).1))
        else some (s', .returned size none)
  | .copy sp =>
    if sp ∈ s.refs then some ({ s with pool := s.pool.copy sp, refs := sp :: s.refs }, .done) else none
  | .drop sp pushed =>
    if sp ∈ s.refs then
      some ({ s with pool := s.pool.drop sp pushed, refs := s.refs.erase sp }, .done)
    else none

def step (s : PoolThreads) (a : Action) : Option PoolThreads := (s.act a).map Prod.fst

/-- The constructed pool, before any call. -/
def init (pushed : Nat → Bool) : PoolThreads := ⟨create pushed, [], fun _ => none⟩

/-! ## Lemmas -/

structure Inv (s : PoolThreads) : Prop where
  pool : s.pool.Inv
  refs : s.pool.Refs s.refs
  waiting : ∀ thread size, s.waiting thread = some size → size ≤ 4096

theorem inv_init (pushed : Nat → Bool) : (init pushed).Inv where
  pool := inv_create pushed
  refs := refs_create_zero pushed
  waiting := fun _ _ h => by cases h

/-- Inversion of `act`: what each action can do. -/
theorem act_rent {s s' : PoolThreads} {thread size : Nat} {r : Response}
    (h : s.act (.rent thread size) = some (s', r)) :
    (classOf size = none ∧ s' = s ∧ r = .returned size none) ∨
    (∃ t sp p, classOf size = some t ∧ s.pool.rentPopped t = some (sp, p) ∧
      s' = { s with pool := p, refs := sp :: s.refs } ∧ r = .returned size (some sp)) ∨
    (∃ t, classOf size = some t ∧ s.pool.pools t = [] ∧
      s' = { s with waiting := Function.update s.waiting thread (some size) } ∧ r = .popFailed) := by
  simp only [act] at h
  split at h
  · cases h
  · split at h
    · next hc =>
      simp only [Option.some.injEq, Prod.mk.injEq] at h
      exact Or.inl ⟨hc, h.1.symm, h.2.symm⟩
    · next t hc =>
      split at h
      · next sp p hp =>
        simp only [Option.some.injEq, Prod.mk.injEq] at h
        exact Or.inr (Or.inl ⟨t, sp, p, hc, hp, h.1.symm, h.2.symm⟩)
      · next hp =>
        simp only [Option.some.injEq, Prod.mk.injEq] at h
        exact Or.inr (Or.inr ⟨t, hc, rentPopped_eq_none.mp hp, h.1.symm, h.2.symm⟩)

theorem act_allocate {s s' : PoolThreads} {thread : Nat} {can : Bool} {r : Response}
    (h : s.act (.allocate thread can) = some (s', r)) :
    ∃ size t, s.waiting thread = some size ∧ classOf size = some t ∧
      (can = true ∧ r = .returned size (some (s.pool.rentFresh t).1) ∧
        s' = { pool := (s.pool.rentFresh t).2, refs := (s.pool.rentFresh t).1 :: s.refs,
               waiting := Function.update s.waiting thread none } ∨
       can = false ∧ r = .returned size none ∧
        s' = { s with waiting := Function.update s.waiting thread none }) := by
  simp only [act] at h
  split at h
  · cases h
  · next size hw =>
    split at h
    · cases h
    · next t hc =>
      refine ⟨size, t, hw, hc, ?_⟩
      split at h
      · next hcan =>
        simp only [Option.some.injEq, Prod.mk.injEq] at h
        exact Or.inl ⟨hcan, h.2.symm, h.1.symm⟩
      · next hcan =>
        simp only [Option.some.injEq, Prod.mk.injEq] at h
        exact Or.inr ⟨by simpa using hcan, h.2.symm, h.1.symm⟩

theorem Inv.step {s s' : PoolThreads} {a : Action} (hi : s.Inv) (h : step s a = some s') :
    s'.Inv := by
  obtain ⟨⟨s1, r⟩, ha, rfl⟩ := Option.map_eq_some_iff.mp h
  cases a with
  | rent thread size =>
    rcases act_rent ha with ⟨-, rfl, -⟩ | ⟨t, sp, p, -, hp, rfl, -⟩ | ⟨t, hc, -, rfl, -⟩
    · exact hi
    · exact ⟨hi.pool.rentPopped hp, hi.refs.rentPopped hp, hi.waiting⟩
    · refine ⟨hi.pool, hi.refs, fun th n hn => ?_⟩
      have hsize : size ≤ 4096 := by
        apply Classical.byContradiction
        intro hlt
        rw [classOf_eq_none.mpr (by omega)] at hc
        cases hc
      by_cases hth : th = thread
      · subst hth
        simp only [Function.update_self, Option.some.injEq] at hn
        omega
      · exact hi.waiting th n (by simpa [hth] using hn)
  | allocate thread can =>
    obtain ⟨size, t, -, -, ⟨-, -, rfl⟩ | ⟨-, -, rfl⟩⟩ := act_allocate ha
    all_goals
      have hw : ∀ th n, Function.update s.waiting thread none th = some n → n ≤ 4096 := by
        intro th n hn
        by_cases hth : th = thread
        · simp [hth] at hn
        · exact hi.waiting th n (by simpa [hth] using hn)
    · exact ⟨hi.pool.rentFresh, hi.refs.rentFresh, hw⟩
    · exact ⟨hi.pool, hi.refs, hw⟩
  | copy sp =>
    simp only [act] at ha
    split at ha
    · next hm =>
      simp only [Option.some.injEq, Prod.mk.injEq] at ha
      obtain ⟨rfl, -⟩ := ha
      exact ⟨hi.pool.copy (hi.refs.useCount_pos (Multiset.mem_coe.mpr hm)),
        hi.refs.copy (Multiset.mem_coe.mpr hm), hi.waiting⟩
    · cases ha
  | drop sp pushed =>
    simp only [act] at ha
    split at ha
    · next hm =>
      simp only [Option.some.injEq, Prod.mk.injEq] at ha
      obtain ⟨rfl, -⟩ := ha
      have hrefs : s.pool.Refs (sp ::ₘ ↑(s.refs.erase sp)) := by
        rw [Multiset.cons_coe, ← Multiset.coe_eq_coe.mpr (List.perm_cons_erase hm)]
        exact hi.refs
      exact ⟨hi.pool.drop pushed, hrefs.drop pushed, hi.waiting⟩
    · cases ha

theorem inv_of_reachable {pushed : Nat → Bool} {s : PoolThreads}
    (h : Transition.Reachable step (init pushed) s) : s.Inv :=
  h.invariant (inv_init pushed) fun _ _ _ hi hs => hi.step hs

/-- A call that returns a block returns one of the smallest class that fits. -/
theorem Inv.returned_some {s s' : PoolThreads} (hi : s.Inv) {a : Action} {size : Nat} {sp : SharedPtr}
    (h : s.act a = some (s', .returned size (some sp))) :
    ∃ t, s'.pool.heap[sp.ptr]? = some t ∧ size ≤ t.size ∧
      ∀ u : BlockType, size ≤ u.size → t.size ≤ u.size := by
  cases a with
  | rent thread size' =>
    rcases act_rent h with ⟨-, -, hr⟩ | ⟨t, sp', p, hc, hp, rfl, hr⟩ | ⟨t, -, -, -, hr⟩
    · cases hr
    · cases hr
      exact ⟨t, (rentPopped_heap hi.pool hp).2.2, classOf_eq_some hc⟩
    · cases hr
  | allocate thread can =>
    obtain ⟨size', t, -, hc, ⟨-, hr, rfl⟩ | ⟨-, hr, -⟩⟩ := act_allocate h
    · cases hr
      exact ⟨t, rentFresh_heap.2.2, classOf_eq_some hc⟩
    · cases hr
  | copy sp => simp [act] at h
  | drop sp pushed => simp [act] at h

/-- When a call returns null. -/
theorem returned_none {s s' : PoolThreads} {a : Action} {size : Nat} {r : Option SharedPtr}
    (h : s.act a = some (s', .returned size r)) :
    (r = none ↔ 4096 < size ∨ ∃ thread, s.waiting thread = some size ∧ a = .allocate thread false) ∧
      (r = none → s'.pool = s.pool ∧ s'.refs = s.refs) := by
  cases a with
  | rent thread size' =>
    rcases act_rent h with ⟨hc, rfl, hr⟩ | ⟨t, sp', p, hc, hp, rfl, hr⟩ | ⟨t, -, -, -, hr⟩
    · cases hr
      exact ⟨⟨fun _ => Or.inl (classOf_eq_none.mp hc), fun _ => rfl⟩, fun _ => ⟨rfl, rfl⟩⟩
    · cases hr
      refine ⟨⟨fun hn => (nomatch hn), ?_⟩, fun hn => (nomatch hn)⟩
      rintro (hlt | ⟨th, -, ha⟩)
      · rw [classOf_eq_none.mpr hlt] at hc; cases hc
      · cases ha
    · cases hr
  | allocate thread can =>
    obtain ⟨size', t, hw, hc, ⟨hcan, hr, rfl⟩ | ⟨hcan, hr, rfl⟩⟩ := act_allocate h
    · cases hr
      refine ⟨⟨fun hn => (nomatch hn), ?_⟩, fun hn => (nomatch hn)⟩
      rintro (hlt | ⟨th, -, ha⟩)
      · rw [classOf_eq_none.mpr hlt] at hc; cases hc
      · injection ha with _ hf; rw [hcan] at hf; cases hf
    · cases hr
      exact ⟨⟨fun _ => Or.inr ⟨thread, hw, by rw [hcan]⟩, fun _ => rfl⟩, fun _ => ⟨rfl, rfl⟩⟩
  | copy sp => simp [act] at h
  | drop sp pushed => simp [act] at h

/-- `rent` without interruption. -/
theorem rent_eq_none {p : TsMemoryPool} {size : Nat} {can : Bool} :
    ((p.rent size can).1 = none ↔
      4096 < size ∨ ∃ t, classOf size = some t ∧ p.pools t = [] ∧ can = false) ∧
      ((p.rent size can).1 = none → (p.rent size can).2 = p) := by
  unfold rent
  split
  · next t hc =>
    have hle : ¬ 4096 < size := by rw [← classOf_eq_none, hc]; simp
    unfold rentBlock
    split
    · next sp p' hp =>
      have hne : p.pools t ≠ [] := by rw [Ne, ← rentPopped_eq_none, hp]; simp
      simp [hle, hc, hne]
    · next hp =>
      have hnil := rentPopped_eq_none.mp hp
      cases can <;> simp [hle, hc, hnil]
  · next hc => simp [classOf_eq_none.mp hc]

/-! ## The ownership theorem -/

/-- **Ownership.**  In every history, block custody is exclusive, a rental group is held by
existing `shared_ptr`s, the stacks are typed, `rent` returns a block of the smallest fitting
class, and returns null just when the size is too large or its `pop` found the stack empty and
allocation is refused, leaving everything as it was. -/
theorem pool_ownership (pushed : Nat → Bool) (s : PoolThreads)
    (h : Transition.Reachable step (init pushed) s) :
    (∀ b, b < s.pool.heap.length → Custody.Exclusive s.pool.held b) ∧
    (∀ g b, s.pool.held (.rental g) b = 1 → ∃ sp ∈ s.refs, sp.ctrl = g ∧ sp.ptr = b) ∧
    (∀ t b, b ∈ s.pool.pools t → s.pool.heap[b]? = some t) ∧
    (∀ a s' size sp, s.act a = some (s', .returned size (some sp)) →
      ∃ t, s'.pool.heap[sp.ptr]? = some t ∧ size ≤ t.size ∧
        ∀ u : BlockType, size ≤ u.size → t.size ≤ u.size) ∧
    (∀ a s' size r, s.act a = some (s', .returned size r) →
      (r = none ↔
        4096 < size ∨ ∃ thread, s.waiting thread = some size ∧ a = .allocate thread false) ∧
      (r = none → s'.pool = s.pool ∧ s'.refs = s.refs)) ∧
    (∀ thread size s', s.act (.rent thread size) = some (s', .popFailed) →
      s'.pool = s.pool ∧ s'.refs = s.refs ∧ s'.waiting thread = some size ∧
        ∃ t, classOf size = some t ∧ s.pool.pools t = []) ∧
    (∀ size can, ((s.pool.rent size can).1 = none ↔
        4096 < size ∨ ∃ t, classOf size = some t ∧ s.pool.pools t = [] ∧ can = false) ∧
      ((s.pool.rent size can).1 = none → (s.pool.rent size can).2 = s.pool)) := by
  have hi := inv_of_reachable h
  refine ⟨hi.pool.custody, fun g b hb => hi.refs.exists_of_rental hb, hi.pool.stackType,
    fun a s' size sp ha => hi.returned_some ha, fun a s' size r ha => returned_none ha,
    fun thread size s' ha => ?_, fun size can => rent_eq_none⟩
  rcases act_rent ha with ⟨-, -, hr⟩ | ⟨t, sp', p, -, -, -, hr⟩ | ⟨t, hc, hnil, rfl, -⟩
  · cases hr
  · cases hr
  · exact ⟨rfl, rfl, by simp, t, hc, hnil⟩

/-- Two rentals, a copy, and every `shared_ptr` dropped again, the last push being refused:
one block is deleted. -/
theorem pool_ownership_two_rentals : ∃ s,
    Transition.Reachable step (init fun _ => true) s ∧ s.pool.deleted = [255] ∧
      Custody.Exclusive s.pool.held 255 := by
  have hrun : (Transition.run step (init fun _ => true)
      [.rent 1 20, .rent 2 84, .copy ⟨127, 0⟩, .drop ⟨127, 0⟩ true, .drop ⟨127, 0⟩ true,
        .drop ⟨255, 1⟩ false]).map (fun s => (s.pool.deleted, decide (255 < s.pool.heap.length))) =
      some ([255], true) := by decide +kernel
  obtain ⟨s, hs, hd⟩ := Option.map_eq_some_iff.mp hrun
  simp only [Prod.mk.injEq, decide_eq_true_eq] at hd
  exact ⟨s, ⟨_, hs⟩, hd.1, (pool_ownership (fun _ => true) s ⟨_, hs⟩).1 255 hd.2⟩

end PoolThreads

end Us2d
