import Us2dServer.SemaphoreLaw
import Us2dServer.RequestQueue

/-!
# The semaphore of the request queue is an atomic count

The server calls `tryWait` and `signal` only.  Then the count never goes below zero, `m_sema` is
never used, and each call takes effect in one access: the semaphore is the `Nat` that
`BlockingConcurrentQueue` has for it.
-/

namespace Us2d

open Transition AtomicObject

/-- The methods that may wait. -/
def SemaOp.blocks : SemaOp → Bool
  | .wait _ => true
  | .waitMany _ _ => true
  | _ => false

/-- The methods on an atomic count, where `wait` and `waitMany` do not wait. -/
def counter (n : Nat) : SemaOp → Nat × SemaRes
  | .tryWait => (n - 1, .success (0 < n))
  | .wait _ => (n - 1, .success (0 < n))
  | .tryWaitMany max => (n - max, .acquired (min n max : Nat))
  | .waitMany max _ => (n - max, .acquired (min n max : Nat))
  | .signal count => (n + count, .signalled)
  | .availableApprox => (n, .available n)

/-- The semaphore of the request queue is such a count. -/
theorem counter_tryWait {α : Type} (q : BlockingConcurrentQueue α) :
    counter q.sema .tryWait =
      match q.tryWait with
      | some q' => (q'.sema, .success true)
      | none => (q.sema, .success false) := by
  unfold BlockingConcurrentQueue.tryWait
  by_cases h : 0 < q.sema
  · simp [counter, h]
  · have hz : q.sema = 0 := by omega
    simp [counter, hz]

theorem counter_signal {α : Type} (q : BlockingConcurrentQueue α) :
    counter q.sema (.signal 1) = (q.signal.sema, .signalled) := rfl

namespace SemaThreads

open LightweightSemaphore SemaPc

variable {s s' : SemaThreads} {os o : List (Observed SemaOp SemaRes)} {a : Action} {t n n' : Nat}
  {q : LightweightSemaphore} {op : SemaOp} {p : SemaPc} {r : SemaRes} {k : Amount}
  {b : AtomicObject.State Nat SemaOp SemaRes}

def tryOp : Amount → SemaOp
  | .one => .tryWait
  | .many max => .tryWaitMany max

/-- The call that a thread is in, if it is in a method that does not wait. -/
def callOf : SemaPc → Option (Call SemaOp SemaRes)
  | .idle => some .idle
  | .load k .ret => some (.pending (tryOp k))
  | .cas k .ret _ => some (.pending (tryOp k))
  | .fetchAdd count => some (.pending (.signal count))
  | .approx => some (.pending .availableApprox)
  | _ => none

structure Sim (s : SemaThreads) (b : AtomicObject.State Nat SemaOp SemaRes) : Prop where
  count : s.sema.mCount = b.obj
  call : ∀ t, callOf (s.pc t) = some (b.call t)

theorem counter_taken (hpos : 0 < n) : counter n (tryOp k) =
    ((k.newCount n).toNat, k.res (n - k.newCount n)) := by
  cases k with
  | one =>
    have htook : (n : Int) - ((n : Int) - 1) = 1 := by omega
    simp only [counter, tryOp, Amount.newCount, Amount.res, htook, Prod.mk.injEq]
    exact ⟨by omega, by simp [hpos]⟩
  | many max =>
    simp only [counter, tryOp, Amount.newCount, Amount.res, Prod.mk.injEq, SemaRes.acquired.injEq]
    split <;> omega

theorem counter_zero (k : Amount) : counter 0 (tryOp k) = (0, k.res 0) := by
  cases k <;> simp [counter, tryOp, Amount.res]

/-- A thread comes to another access of its method. -/
theorem Sim.stay (h : Sim s b) (hp : callOf p = callOf (s.pc t)) :
    Sim ⟨s.sema, Function.update s.pc t p⟩ b := by
  refine ⟨h.count, fun u => ?_⟩
  by_cases hut : u = t
  · subst hut
    rw [← h.call u, ← hp]
    simp
  · simpa [hut] using h.call u

/-- The access with which a method takes effect is its last. -/
theorem Sim.ret (h : Sim s b) (hp : callOf (s.pc t) = some (.pending op))
    (hc : counter b.obj op = (n', r)) (hq : q.mCount = n') :
    ∃ bs b', trace (AtomicObject.act counter) b bs = some (b', [.returned t r]) ∧
      Sim ⟨q, Function.update s.pc t .idle⟩ b' := by
  have hpending : b.call t = .pending op := by
    have := h.call t
    rw [hp] at this
    exact (Option.some.inj this).symm
  have hdone : AtomicObject.State.call
      { b.set t (.done (counter b.obj op).2) with obj := (counter b.obj op).1 } t = .done r := by
    simp [State.set, hc]
  refine ⟨[.effect t, .ret t], _,
    trace_cons.mpr ⟨_, _, _, act_effect hpending, trace_singleton (act_ret hdone), rfl⟩, ?_, ?_⟩
  · show q.mCount = ((counter b.obj op).1 : Nat)
    rw [hc, hq]
  · intro u
    show callOf (Function.update s.pc t .idle u) = some (Function.update (Function.update b.call t _) t _ u)
    by_cases hut : u = t
    · subst hut
      simp [callOf]
    · simpa [hut] using h.call u

theorem Sim.tryLoop (h : Sim s b) (hp : callOf (s.pc t) = some (.pending (tryOp k)))
    (hs : s.goto t s.sema (s.sema.tryLoop k .ret s.sema.mCount) = (s', o)) :
    ∃ bs b', trace (AtomicObject.act counter) b bs = some (b', o) ∧ Sim s' b' := by
  unfold LightweightSemaphore.tryLoop at hs
  split at hs
  · cases hs
    exact ⟨[], b, rfl, h.stay (by rw [hp]; rfl)⟩
  · next hnone =>
    cases hs
    have hzero : b.obj = 0 := by
      have := h.count
      omega
    exact h.ret hp (by rw [hzero]; exact counter_zero k) (by rw [h.count, hzero])

theorem Sim.step (h : Sim s b) (ha : ∀ t op, a = .call t op → op.blocks = false)
    (hok : ∀ t, (s.pc t).Ok) (hfits : ∀ t, s.sema.mCount + (s.pc t).carried < 2 ^ 63)
    (hs : act s a = some (s', o)) :
    ∃ bs b', trace (AtomicObject.act counter) b bs = some (b', o) ∧ Sim s' b' := by
  have hnonneg : 0 ≤ s.sema.mCount := by
    rw [h.count]
    omega
  cases a with
  | call t op =>
    simp only [act] at hs
    split at hs
    · next hp =>
      cases hs
      have hidle : b.call t = .idle := by
        have := h.call t
        rw [hp] at this
        exact (Option.some.inj this).symm
      refine ⟨[.call t op], _, trace_singleton (act_call hidle), h.count, fun u => ?_⟩
      by_cases hut : u = t
      · subst hut
        have := ha u op rfl
        cases op with
        | wait timeout => cases this
        | waitMany max timeout => cases this
        | tryWait => simp [start, callOf, tryOp]
        | tryWaitMany max => simp [start, callOf, tryOp]
        | signal count => simp [start, callOf]
        | availableApprox => simp [start, callOf]
      · simpa [hut] using h.call u
    · cases hs
  | next t =>
    have hcall := h.call t
    have hokt := hok t
    have hfit := hfits t
    simp only [act] at hs
    cases hp : s.pc t with
    | idle =>
      rw [hp] at hs
      cases hs
    | load k next =>
      cases next with
      | ret =>
        rw [hp] at hs
        exact h.tryLoop (k := k) (by rw [hp]; rfl) (Option.some.inj hs)
      | spin timeout => rw [hp] at hcall; cases hcall
      | plusOne => rw [hp] at hcall; cases hcall
    | cas k next old =>
      cases next with
      | ret =>
        rw [hp] at hs hokt
        simp only [access] at hs
        split at hs
        · next heq =>
          cases hs
          have hpos : 0 < b.obj := by
            have := h.count
            have : 0 < old := hokt
            omega
          have hobj : (old : Int) = b.obj := by rw [← heq, h.count]
          have hnew : 0 ≤ k.newCount old := (newCount_bounds hokt).1
          have hcall' : callOf (s.pc t) = some (.pending (tryOp k)) := by rw [hp]; rfl
          refine h.ret hcall' ?_ (Int.toNat_of_nonneg hnew).symm
          rw [counter_taken hpos, hobj]
        · exact h.tryLoop (k := k) (by rw [hp]; rfl) (Option.some.inj hs)
      | spin timeout => rw [hp] at hcall; cases hcall
      | plusOne => rw [hp] at hcall; cases hcall
    | fetchAdd count =>
      rw [hp] at hs hfit
      have hcarried : (SemaPc.fetchAdd count).carried = count := rfl
      rw [hcarried] at hfit
      simp only [access, Option.map_some, Option.some.injEq] at hs
      rw [ssize_of_lt (by omega) (by omega), if_neg (by split <;> omega)] at hs
      cases hs
      have hcall' : callOf (s.pc t) = some (.pending (.signal count)) := by rw [hp]; rfl
      refine h.ret hcall' rfl ?_
      show s.sema.mCount + count = ((b.obj + count : Nat) : Int)
      rw [h.count]
      omega
    | approx =>
      rw [hp] at hs
      cases hs
      have hcall' : callOf (s.pc t) = some (.pending .availableApprox) := by rw [hp]; rfl
      refine h.ret hcall' ?_ h.count
      simp only [counter, h.count, Prod.mk.injEq, SemaRes.available.injEq, true_and]
      split <;> omega
    | _ => rw [hp] at hcall; cases hcall
  | spurious t =>
    have hcall := h.call t
    simp only [act] at hs
    split at hs
    · next k next old hp =>
      cases next with
      | ret =>
        exact h.tryLoop (k := k) (by rw [hp]; rfl) (Option.some.inj hs)
      | spin timeout => rw [hp] at hcall; cases hcall
      | plusOne => rw [hp] at hcall; cases hcall
    · cases hs
  | giveUp t =>
    have hcall := h.call t
    simp only [act] at hs
    split at hs
    · next k timeout hp =>
      rw [hp] at hcall
      cases hcall
    · cases hs

/-- **The queue's use.**  As long as no call waits, whatever is observed of the semaphore is
observed of an atomic count, which is the one that `BlockingConcurrentQueue` has in its place. -/
theorem semaphore_linearizable (α : Type) (initialCount maxSpins N : Nat) (as : List Action) (s : SemaThreads)
    (os : List (Observed SemaOp SemaRes))
    (h : trace act (init initialCount maxSpins) as = some (s, os)) (hN : ∀ a ∈ as, a.thread < N)
    (hlt : N < 2 ^ 31) (hlim : initialCount + signalledIn os < 2 ^ 63)
    (htry : ∀ t op, .call t op ∈ as → op.blocks = false) :
    (∃ bs b, trace (AtomicObject.act counter) (AtomicObject.idle initialCount) bs = some (b, os) ∧
      s.sema.mCount = b.obj) ∧
    (∀ q : BlockingConcurrentQueue α, counter q.sema .tryWait =
      match q.tryWait with
      | some q' => (q'.sema, .success true)
      | none => (q.sema, .success false)) ∧
    ∀ q : BlockingConcurrentQueue α, counter q.sema (.signal 1) = (q.signal.sema, .signalled) := by
  have hrun : Inv N initialCount s os ∧
      ∃ bs b, trace (AtomicObject.act counter) (AtomicObject.idle initialCount) bs = some (b, os) ∧
        Sim s b := by
    refine trace_invariant (I := fun _ s os => initialCount + signalledIn os < 2 ^ 63 →
      Inv N initialCount s os ∧ ∃ bs b,
        trace (AtomicObject.act counter) (AtomicObject.idle initialCount) bs = some (b, os) ∧
          Sim s b) ?_ h ?_ hlim
    · intro _ s os a s' o _ ha hI hs hlim'
      rw [signalledIn_append] at hlim'
      have hlim : initialCount + signalledIn os < 2 ^ 63 := by omega
      obtain ⟨hi, bs, b, hbs, hsim⟩ := hI hlim
      obtain ⟨cs, c, hcs, hsim'⟩ := hsim.step (fun t op he => htry t op (he ▸ ha)) hi.ok
        (fun t => (hi.bounds hlt hlim t).2) hs
      exact ⟨hi.step hlt hlim (hN a ha) hs, bs ++ cs, c, trace_append hbs hcs, hsim'⟩
    · intro _
      exact ⟨inv_init N initialCount maxSpins, [], _, rfl, rfl, fun _ => rfl⟩
  obtain ⟨-, bs, b, hbs, hsim⟩ := hrun
  exact ⟨⟨bs, b, hbs, hsim.count⟩, counter_tryWait, counter_signal⟩

/-- Both threads see the one permit, and one of them gets it. -/
def permitRace : List Action :=
  [.call 0 .tryWait, .call 1 .tryWait, .call 2 (.signal 1), .next 2, .next 0, .next 1, .spurious 0,
    .next 1, .next 0]

theorem semaphore_linearizable_race : ∃ bs b,
    trace (AtomicObject.act counter) (AtomicObject.idle 0) bs =
      some (b, [.called 0 .tryWait, .called 1 .tryWait, .called 2 (.signal 1),
        .returned 2 .signalled, .returned 1 (.success true), .returned 0 (.success false)]) := by
  have hrun : (trace act (init 0 10000) permitRace).map Prod.snd =
      some [.called 0 .tryWait, .called 1 .tryWait, .called 2 (.signal 1),
        .returned 2 .signalled, .returned 1 (.success true), .returned 0 (.success false)] := by
    decide +kernel
  obtain ⟨⟨s, os⟩, hs, rfl⟩ := Option.map_eq_some_iff.mp hrun
  obtain ⟨⟨bs, b, hbs, -⟩, -⟩ := semaphore_linearizable Nat 0 10000 3 permitRace s _ hs (by decide) (by decide)
    (by decide) (by
      intro t op hm
      simp only [permitRace, List.mem_cons, Action.call.injEq, reduceCtorEq, List.not_mem_nil,
        or_false] at hm
      rcases hm with ⟨-, rfl⟩ | ⟨-, rfl⟩ | ⟨-, rfl⟩ <;> rfl)
  exact ⟨bs, b, hbs⟩

end SemaThreads

end Us2d
