import Us2dServer.LightweightSemaphore

/-!
# What `LightweightSemaphore` guarantees

The permits that waiters can find in `m_sema`, or that a `signal` is about to release there, are
as many as there are permits, but no more than waiters: `posted`.  So a thread waits in vain only
while every permit ever signalled is taken.

    every access keeps the permits and what is posted            (access_law)
    signalled = taken + available + on the way                   (permits_conserved)
-/

namespace Us2d

open Transition AtomicObject

/-- Small results fit a 64-bit counter. -/
theorem ssize_of_lt {x : Int} (h : -2 ^ 63 ≤ x) (h' : x < 2 ^ 63) : ssize x = x := by
  apply Int.bmod_eq_of_le <;> omega

theorem toInt32_of_lt {x : Int} (h : 0 ≤ x) (h' : x < 2 ^ 31) : toInt32 x = x := by
  apply Int.bmod_eq_of_le <;> omega

/-! ## What a thread holds -/

/-- The permits that the result says were taken. -/
def SemaRes.amount : SemaRes → Int
  | .success b => if b then 1 else 0
  | .acquired n => n
  | .signalled => 0
  | .available _ => 0

/-- The one that `1 + tryWaitMany(max - 1)` has taken already. -/
def AfterTry.carried : AfterTry → Nat
  | .plusOne => 1
  | _ => 0

namespace SemaPc

/-- The count is decremented for a waiter. -/
def waits : SemaPc → Nat
  | .park _ _ => 1
  | .recheck _ => 1
  | .semaTryWait _ => 1
  | .backOut _ _ => 1
  | _ => 0

def releasing : SemaPc → Nat
  | .release n => n.toNat
  | _ => 0

/-- Permits that the count does not have yet, or that are taken and not yet returned. -/
def carried : SemaPc → Nat
  | .fetchAdd count => count
  | .load _ next => next.carried
  | .cas _ next _ => next.carried
  | _ => 0

/-- What a thread knows from the branch it is in. -/
def Ok : SemaPc → Prop
  | .cas _ _ oldCount => 0 < oldCount
  | .spinCas _ _ _ oldCount => 0 < oldCount
  | .backOut _ oldCount => oldCount < 0
  | .release n => 0 < n
  | _ => True

/-- A measure of a thread's place, after an access. -/
def after (f : SemaPc → Nat) : SemaPc ⊕ SemaRes → Nat
  | .inl p => f p
  | .inr _ => 0

def amountOf : SemaPc ⊕ SemaRes → Int
  | .inl _ => 0
  | .inr r => r.amount

def OutOk : SemaPc ⊕ SemaRes → Prop
  | .inl p => p.Ok
  | .inr _ => True

end SemaPc

/-- The permits in `m_sema` and about to be released there, when the count is `c` and `w` threads
wait. -/
def posted (c w : Int) : Int := if c < 0 then c + w else w

/-! ## The accesses -/

namespace LightweightSemaphore

open SemaPc

variable {q q' : LightweightSemaphore} {p : SemaPc} {out : SemaPc ⊕ SemaRes} {k : Amount}
  {timeout old n : Int}

theorem newCount_bounds (h : 0 < old) : 0 ≤ k.newCount old ∧ k.newCount old ≤ old := by
  cases k with
  | one =>
    simp only [Amount.newCount]
    omega
  | many max =>
    simp only [Amount.newCount]
    split <;> omega

/-- What the result says was taken is what was taken. -/
theorem amount_res (h : k = .one → n = 0 ∨ n = 1) : (k.res n).amount = n := by
  cases k with
  | one => rcases h rfl with rfl | rfl <;> rfl
  | many max => rfl

theorem one_newCount (h : k = .one) : old - k.newCount old = 0 ∨ old - k.newCount old = 1 := by
  subst h
  simp only [Amount.newCount]
  omega

/-- A thread that only looked at the semaphore. -/
structure Looks (q : LightweightSemaphore) (out : SemaPc ⊕ SemaRes) (w c : Nat) (n : Int) : Prop where
  ok : OutOk out
  waits : after waits out = w
  releasing : after releasing out = 0
  carried : (after carried out : Int) + amountOf out = c + n
  nonneg : 0 ≤ amountOf out

theorem looks_spinning (q : LightweightSemaphore) (k : Amount) (timeout : Int) (m : Nat) :
    Looks q (.inl (spinning k timeout m)) 0 0 0 := by
  cases m <;> exact ⟨trivial, rfl, rfl, rfl, Int.le_refl 0⟩

theorem looks_res (q : LightweightSemaphore) (hn : 0 ≤ n) (h : k = .one → n = 0 ∨ n = 1) :
    Looks q (.inr (k.res n)) 0 0 n := by
  refine ⟨trivial, rfl, rfl, ?_, ?_⟩
  · simp [after, amountOf, amount_res h]
  · simpa [amountOf, amount_res h] using hn

theorem looks_afterTry (next : AfterTry) (hn : 0 ≤ n) (h : k = .one → n = 0 ∨ n = 1) :
    Looks q (q.afterTry k n next) 0 next.carried n := by
  cases next with
  | ret => exact looks_res q hn h
  | spin timeout =>
    cases k with
    | one =>
      simp only [afterTry]
      split
      · next hz =>
        subst hz
        exact looks_spinning q _ _ _
      · exact looks_res q hn h
    | many max =>
      simp only [afterTry]
      split
      · next hz =>
        obtain ⟨rfl, -⟩ := hz
        exact looks_spinning q _ _ _
      · exact looks_res q hn h
  | plusOne =>
    refine ⟨trivial, rfl, rfl, ?_, ?_⟩
    · simp [afterTry, after, amountOf, SemaRes.amount, AfterTry.carried]
    · simp only [afterTry, amountOf, SemaRes.amount]
      omega

theorem looks_tryLoop (next : AfterTry) (old : Int) :
    Looks q (q.tryLoop k next old) 0 next.carried 0 := by
  unfold tryLoop
  split
  · next hpos => exact ⟨hpos, rfl, rfl, rfl, Int.le_refl 0⟩
  · exact looks_afterTry next (Int.le_refl 0) fun _ => .inl rfl

theorem looks_tookOne (q : LightweightSemaphore) (k : Amount) : Looks q (tookOne k) 0 0 1 := by
  cases k with
  | one => exact ⟨trivial, rfl, rfl, rfl, by decide⟩
  | many max =>
    simp only [tookOne]
    split
    · exact ⟨trivial, rfl, rfl, rfl, Int.le_refl 0⟩
    · exact ⟨trivial, rfl, rfl, rfl, by decide⟩

/-- **What an access does** to the permits and to what is posted: as long as the numbers fit, no
permit is lost or made, and `m_sema` and the releases keep what is posted. -/
structure Law (q q' : LightweightSemaphore) (p : SemaPc) (out : SemaPc ⊕ SemaRes) : Prop where
  ok : OutOk out
  nonneg : 0 ≤ amountOf out
  permits : q'.mCount + after waits out + after carried out + amountOf out =
    q.mCount + p.waits + p.carried
  posted : ∀ w : Int, p.waits ≤ w → (q'.mSema : Int) + after releasing out + posted q.mCount w =
    q.mSema + p.releasing + posted q'.mCount (w - p.waits + after waits out)

/-- An access that leaves the semaphore as it is. -/
theorem Looks.law (h : Looks q out p.waits p.carried 0) (hr : p.releasing = 0) : Law q q p out where
  ok := h.ok
  nonneg := h.nonneg
  permits := by
    rw [h.waits]
    have := h.carried
    omega
  posted := by
    intro w _
    rw [h.waits, h.releasing, hr, show w - p.waits + p.waits = w by omega]

/-- An access that takes `n` from the count. -/
theorem Looks.law_take (h : Looks q out 0 p.carried (q.mCount - n)) (hw : p.waits = 0)
    (hr : p.releasing = 0) (hpos : 0 < q.mCount) (hn : 0 ≤ n) :
    Law q { q with mCount := n } p out where
  ok := h.ok
  nonneg := h.nonneg
  permits := by
    rw [h.waits, hw]
    have := h.carried
    show n + _ + _ + _ = _
    omega
  posted := by
    intro w _
    rw [h.waits, h.releasing, hr, hw]
    simp only [Us2d.posted]
    rw [if_neg (by omega), if_neg (by omega)]
    omega

/-- A waiter takes what is posted. -/
theorem Looks.law_wake (h : Looks q out 0 0 1) (hw : p.waits = 1) (hc : p.carried = 0)
    (hr : p.releasing = 0) (hpos : 0 < q.mSema) :
    Law q { q with mSema := q.mSema - 1 } p out where
  ok := h.ok
  nonneg := h.nonneg
  permits := by
    rw [h.waits, hw, hc]
    have := h.carried
    show q.mCount + _ + _ + _ = _
    omega
  posted := by
    intro w _
    rw [h.waits, h.releasing, hr, hw]
    simp only [Us2d.posted]
    split <;> omega

/-- A thread that finds no permit joins the waiters. -/
theorem Looks.law_join (h : Looks q out 1 0 0) (hw : p.waits = 0) (hc : p.carried = 0)
    (hr : p.releasing = 0) (hneg : ¬ 0 < q.mCount) :
    Law q { q with mCount := q.mCount - 1 } p out where
  ok := h.ok
  nonneg := h.nonneg
  permits := by
    rw [h.waits, hw, hc]
    have := h.carried
    show q.mCount - 1 + _ + _ + _ = _
    omega
  posted := by
    intro w _
    rw [h.waits, h.releasing, hr, hw]
    simp only [Us2d.posted]
    split <;> split <;> omega

/-- A waiter gives up while more wait than permits are posted. -/
theorem Looks.law_leave (h : Looks q out 0 0 0) (hw : p.waits = 1) (hc : p.carried = 0)
    (hr : p.releasing = 0) (hneg : q.mCount < 0) :
    Law q { q with mCount := q.mCount + 1 } p out where
  ok := h.ok
  nonneg := h.nonneg
  permits := by
    rw [h.waits, hw, hc]
    have := h.carried
    show q.mCount + 1 + _ + _ + _ = _
    omega
  posted := by
    intro w _
    rw [h.waits, h.releasing, hr, hw]
    simp only [Us2d.posted]
    split <;> split <;> omega

theorem law_cas {next : AfterTry} {old : Int} (hok : (SemaPc.cas k next old).Ok)
    (h : q.access (.cas k next old) = some (q', out)) : Law q q' (.cas k next old) out := by
  simp only [access] at h
  split at h
  · next heq =>
    subst heq
    cases h
    obtain ⟨hnew, hle⟩ := newCount_bounds (k := k) hok
    exact (looks_afterTry next (Int.sub_nonneg_of_le hle) one_newCount).law_take rfl rfl hok hnew
  · cases h
    exact (looks_tryLoop next _).law rfl

theorem law_spinLoad {timeout : Int} {n : Nat}
    (h : q.access (.spinLoad k timeout n) = some (q', out)) : Law q q' (.spinLoad k timeout n) out := by
  simp only [access] at h
  split at h
  · next hpos =>
    cases h
    exact Looks.law ⟨hpos, rfl, rfl, rfl, Int.le_refl 0⟩ rfl
  · cases h
    exact (looks_spinning q k timeout n).law rfl

theorem law_spinCas {timeout : Int} {n : Nat} {old : Int} (hok : (SemaPc.spinCas k timeout n old).Ok)
    (h : q.access (.spinCas k timeout n old) = some (q', out)) : Law q q' (.spinCas k timeout n old) out := by
  simp only [access] at h
  split at h
  · next heq =>
    subst heq
    cases h
    obtain ⟨hnew, hle⟩ := newCount_bounds (k := k) hok
    exact (looks_res q (Int.sub_nonneg_of_le hle) one_newCount).law_take rfl rfl hok hnew
  · cases h
    exact (looks_spinning q k timeout n).law rfl

theorem law_fetchSub {timeout : Int} (hlow : -2 ^ 31 < q.mCount)
    (hhigh : q.mCount + (SemaPc.fetchSub k timeout).carried < 2 ^ 63)
    (h : q.access (.fetchSub k timeout) = some (q', out)) : Law q q' (.fetchSub k timeout) out := by
  simp only [access, Option.some.injEq, Prod.mk.injEq] at h
  obtain ⟨rfl, rfl⟩ := h
  rw [ssize_of_lt (by omega) (by omega)]
  split
  · next hpos =>
    refine Looks.law_take ?_ rfl rfl hpos (by omega)
    rw [show q.mCount - (q.mCount - 1) = 1 by omega]
    exact looks_tookOne q k
  · next hneg =>
    have hlooks : Looks q (if timeout = 0 then .inl (.recheck k) else .inl (.park k timeout)) 1 0 0 := by
      split <;> exact ⟨trivial, rfl, rfl, rfl, Int.le_refl 0⟩
    exact hlooks.law_join rfl rfl rfl hneg

theorem law_park {timeout : Int}
    (h : q.access (.park k timeout) = some (q', out)) : Law q q' (.park k timeout) out := by
  simp only [access] at h
  split at h
  · next hpos =>
    cases h
    exact (looks_tookOne q k).law_wake rfl rfl rfl hpos
  · cases h

theorem law_recheck (h : q.access (.recheck k) = some (q', out)) : Law q q' (.recheck k) out := by
  simp only [access] at h
  cases h
  refine Looks.law ?_ rfl
  split
  · exact ⟨trivial, rfl, rfl, rfl, Int.le_refl 0⟩
  · next hneg => exact ⟨show q.mCount < 0 by omega, rfl, rfl, rfl, Int.le_refl 0⟩

theorem law_semaTryWait (h : q.access (.semaTryWait k) = some (q', out)) : Law q q' (.semaTryWait k) out := by
  simp only [access] at h
  split at h
  · next hpos =>
    cases h
    exact (looks_tookOne q k).law_wake rfl rfl rfl hpos
  · cases h
    exact Looks.law ⟨trivial, rfl, rfl, rfl, Int.le_refl 0⟩ rfl

theorem law_backOut {old : Int} (hok : (SemaPc.backOut k old).Ok) (hlow : -2 ^ 31 < q.mCount)
    (hhigh : q.mCount + (SemaPc.backOut k old).carried < 2 ^ 63)
    (h : q.access (.backOut k old) = some (q', out)) : Law q q' (.backOut k old) out := by
  simp only [access] at h
  split at h
  · next heq =>
    subst heq
    cases h
    have hneg : q.mCount < 0 := hok
    rw [ssize_of_lt (by omega) (by omega)]
    exact (looks_res q (Int.le_refl 0) fun _ => .inl rfl).law_leave rfl rfl rfl hneg
  · cases h
    exact Looks.law ⟨trivial, rfl, rfl, rfl, Int.le_refl 0⟩ rfl

theorem law_fetchAdd {count : Nat} (hlow : -2 ^ 31 < q.mCount)
    (hhigh : q.mCount + (SemaPc.fetchAdd count).carried < 2 ^ 63)
    (h : q.access (.fetchAdd count) = some (q', out)) : Law q q' (.fetchAdd count) out := by
  have hcarried : (SemaPc.fetchAdd count).carried = count := rfl
  rw [hcarried] at hhigh
  simp only [access, Option.some.injEq, Prod.mk.injEq] at h
  obtain ⟨rfl, rfl⟩ := h
  rw [ssize_of_lt (by omega) (by omega)]
  -- as many are released as waiters get a permit
  generalize hr : (if -q.mCount < count then -q.mCount else (count : Int)) = r
  split
  · next hpos =>
    rw [toInt32_of_lt (by omega) (by split at hr <;> omega)]
    refine ⟨hpos, Int.le_refl 0, ?_, fun w _ => ?_⟩
    · simp only [after, amountOf, waits, carried]
      omega
    · simp only [after, waits, releasing, posted]
      split at hr <;> split <;> split <;> omega
  · next hnone =>
    refine ⟨trivial, Int.le_refl 0, ?_, fun w _ => ?_⟩
    · simp only [after, amountOf, SemaRes.amount, waits, carried]
      omega
    · simp only [after, waits, releasing, posted]
      split at hr <;> split <;> split <;> omega

theorem law_release {n : Int} (hok : (SemaPc.release n).Ok)
    (h : q.access (.release n) = some (q', out)) : Law q q' (.release n) out := by
  simp only [access] at h
  split at h
  · next hfits =>
    cases h
    refine ⟨trivial, Int.le_refl 0, ?_, fun w _ => ?_⟩
    · simp [after, amountOf, SemaRes.amount, waits, carried]
    · simp only [after, waits, releasing]
      rw [show w - ((0 : Nat) : Int) + ((0 : Nat) : Int) = w by omega]
      omega
  · cases h
    refine ⟨hok, Int.le_refl 0, ?_, fun w _ => ?_⟩
    · simp only [after, amountOf, Int.add_zero]
    · rw [show w - ((SemaPc.release n).waits : Int) + after SemaPc.waits (.inl (.release n)) = w from
        Int.sub_add_cancel _ _]
      rfl

theorem access_law (hok : p.Ok) (hlow : -2 ^ 31 < q.mCount) (hhigh : q.mCount + p.carried < 2 ^ 63)
    (h : q.access p = some (q', out)) : Law q q' p out := by
  cases p with
  | idle => cases h
  | load k next =>
    cases h
    exact (looks_tryLoop next _).law rfl
  | cas k next old => exact law_cas hok h
  | spinLoad k timeout n => exact law_spinLoad h
  | spinCas k timeout n old => exact law_spinCas hok h
  | fetchSub k timeout => exact law_fetchSub hlow hhigh h
  | park k timeout => exact law_park h
  | recheck k => exact law_recheck h
  | semaTryWait k => exact law_semaTryWait h
  | backOut k old => exact law_backOut hok hlow hhigh h
  | fetchAdd count => exact law_fetchAdd hlow hhigh h
  | release n => exact law_release hok h
  | approx =>
    cases h
    exact Looks.law ⟨trivial, rfl, rfl, rfl, Int.le_refl 0⟩ rfl

end LightweightSemaphore

/-! ## The threads -/

/-- The permits that a call of `signal` brings. -/
def signalArg : Observed SemaOp SemaRes → Nat
  | .called _ (.signal count) => count
  | _ => 0

def taken : Observed SemaOp SemaRes → Int
  | .returned _ r => r.amount
  | _ => 0

namespace SemaThreads

open LightweightSemaphore SemaPc

variable {s s' : SemaThreads} {os o : List (Observed SemaOp SemaRes)} {a : Action} {N initialCount t : Nat}
  {q : LightweightSemaphore} {out : SemaPc ⊕ SemaRes} {op : SemaOp}

/-- Over the first `N` threads. -/
def sum (f : SemaPc → Nat) (N : Nat) (s : SemaThreads) : Nat := Parties.total N fun t => f (s.pc t)

/-- The permits of the calls of `signal` so far. -/
def signalledIn : List (Observed SemaOp SemaRes) → Nat
  | [] => 0
  | o :: os => signalArg o + signalledIn os

/-- The permits that the calls so far have returned. -/
def takenIn : List (Observed SemaOp SemaRes) → Int
  | [] => 0
  | o :: os => taken o + takenIn os

/-- The permits a thread could take. -/
def available (s : SemaThreads) : Int := (if 0 < s.sema.mCount then s.sema.mCount else 0) + s.sema.mSema

structure Inv (N initialCount : Nat) (s : SemaThreads) (os : List (Observed SemaOp SemaRes)) : Prop where
  ok : ∀ t, (s.pc t).Ok
  outside : ∀ t, N ≤ t → s.pc t = .idle
  posted : (s.sema.mSema : Int) + s.sum releasing N = posted s.sema.mCount (s.sum waits N)
  permits : (initialCount : Int) + signalledIn os =
    takenIn os + s.sema.mCount + s.sum waits N + s.sum carried N
  nonneg : 0 ≤ takenIn os

theorem inv_init (N initialCount maxSpins : Nat) : Inv N initialCount (init initialCount maxSpins) [] := by
  have hsum : ∀ f : SemaPc → Nat, f .idle = 0 → (init initialCount maxSpins).sum f N = 0 :=
    fun f hf => Parties.total_eq_zero fun _ _ => hf
  refine ⟨fun _ => trivial, fun _ _ => rfl, ?_, ?_, Int.le_refl 0⟩
  · rw [hsum _ rfl, hsum _ rfl]
    show (0 : Int) + 0 = Us2d.posted (initialCount : Int) 0
    simp only [Us2d.posted]
    split <;> omega
  · rw [hsum _ rfl, hsum _ rfl]
    show (initialCount : Int) + 0 = 0 + initialCount + 0 + 0
    omega

theorem sum_update (f : SemaPc → Nat) (ht : t < N) {p : SemaPc}
    (h : s'.pc = Function.update s.pc t p) : s'.sum f N + f (s.pc t) = s.sum f N + f p := by
  unfold sum
  rw [h]
  exact Parties.total_update ht

/-- At most all threads wait. -/
theorem sum_waits_le (s : SemaThreads) (N : Nat) : s.sum waits N ≤ N := by
  induction N with
  | zero => exact Nat.le_refl 0
  | succ N ih =>
    have hone : waits (s.pc N) ≤ 1 := by cases s.pc N <;> simp [waits]
    unfold sum at ih ⊢
    rw [Parties.total_succ]
    omega

theorem le_sum (f : SemaPc → Nat) (s : SemaThreads) (ht : t < N) : f (s.pc t) ≤ s.sum f N := by
  unfold sum
  rw [Parties.total_eq ht]
  exact Nat.le_add_right _ _

theorem signalledIn_append : signalledIn (os ++ o) = signalledIn os + signalledIn o := by
  induction os with
  | nil => exact (Nat.zero_add _).symm
  | cons e os ih =>
    show signalArg e + signalledIn (os ++ o) = signalArg e + signalledIn os + signalledIn o
    omega

theorem takenIn_append : takenIn (os ++ o) = takenIn os + takenIn o := by
  induction os with
  | nil => exact (Int.zero_add _).symm
  | cons e os ih =>
    show taken e + takenIn (os ++ o) = taken e + takenIn os + takenIn o
    omega

/-- **Step.**  An access of thread `t`, or what takes its place. -/
theorem Inv.goto (hi : Inv N initialCount s os) (ht : t < N) (hlaw : Law s.sema q (s.pc t) out)
    (h : s.goto t q out = (s', o)) : Inv N initialCount s' (os ++ o) := by
  obtain ⟨rfl, rfl⟩ : (s.goto t q out).1 = s' ∧ (s.goto t q out).2 = o := by rw [h]; exact ⟨rfl, rfl⟩
  obtain ⟨p, hp, hmeasure, hok, hobs⟩ : ∃ p, (s.goto t q out).1 = ⟨q, Function.update s.pc t p⟩ ∧
      (∀ f : SemaPc → Nat, f .idle = 0 → after f out = f p) ∧ p.Ok ∧
        signalledIn (s.goto t q out).2 = 0 ∧ takenIn (s.goto t q out).2 = amountOf out := by
    cases out with
    | inl p => exact ⟨p, rfl, fun f _ => rfl, hlaw.ok, rfl, rfl⟩
    | inr r =>
      exact ⟨.idle, rfl, fun f hf => hf.symm, trivial, rfl, by simp [SemaThreads.goto, takenIn, taken, amountOf]⟩
  have hsum : ∀ f : SemaPc → Nat, f .idle = 0 →
      (s.goto t q out).1.sum f N + f (s.pc t) = s.sum f N + after f out := by
    intro f hf
    rw [hmeasure f hf]
    exact sum_update f ht (by rw [hp])
  have hw := hsum waits rfl
  have hr := hsum releasing rfl
  have hc := hsum carried rfl
  have hle := le_sum waits s ht
  refine ⟨fun u => ?_, fun u hu => ?_, ?_, ?_, ?_⟩
  · rw [hp]
    by_cases hut : u = t
    · subst hut
      simpa using hok
    · simpa [hut] using hi.ok u
  · rw [hp]
    have hut : u ≠ t := by omega
    simpa [hut] using hi.outside u hu
  · have hpost := hlaw.posted (s.sum waits N) (by omega)
    have hposted := hi.posted
    rw [show ((s.sum waits N : Nat) : Int) - (s.pc t).waits + after waits out =
      ((s.goto t q out).1.sum waits N : Nat) by omega] at hpost
    rw [show (s.goto t q out).1.sema = q by rw [hp]]
    omega
  · have hpermits := hi.permits
    have hlawp := hlaw.permits
    rw [signalledIn_append, takenIn_append, hobs.1, hobs.2, show (s.goto t q out).1.sema = q by rw [hp]]
    omega
  · have h1 := hi.nonneg
    have h2 := hlaw.nonneg
    rw [takenIn_append, hobs.2]
    omega

/-- The numbers fit. -/
theorem Inv.bounds (hi : Inv N initialCount s os) (hN : N < 2 ^ 31)
    (hlim : initialCount + signalledIn os < 2 ^ 63) (t : Nat) :
    -2 ^ 31 < s.sema.mCount ∧ s.sema.mCount + (s.pc t).carried < 2 ^ 63 := by
  have hposted := hi.posted
  have hpermits := hi.permits
  have hnonneg := hi.nonneg
  have hwaits := sum_waits_le s N
  have hcarried : (s.pc t).carried ≤ s.sum carried N := by
    by_cases ht : t < N
    · exact le_sum carried s ht
    · rw [hi.outside t (by omega)]
      exact Nat.zero_le _
  simp only [Us2d.posted] at hposted
  constructor
  · split at hposted <;> omega
  · omega

/-- A call starts: a `signal` carries its permits. -/
theorem Inv.call (hi : Inv N initialCount s os) (ht : t < N) (hp : s.pc t = .idle) (op : SemaOp) :
    Inv N initialCount ⟨s.sema, Function.update s.pc t (start op)⟩ (os ++ [.called t op]) := by
  obtain ⟨hok, hw, hr, hc⟩ : (start op).Ok ∧ waits (start op) = 0 ∧ releasing (start op) = 0 ∧
      carried (start op) = signalArg (.called t op) := by
    cases op <;> exact ⟨trivial, rfl, rfl, rfl⟩
  have hsum : ∀ f : SemaPc → Nat, f .idle = 0 →
      sum f N ⟨s.sema, Function.update s.pc t (start op)⟩ = s.sum f N + f (start op) := by
    intro f hf
    have hupdate : sum f N ⟨s.sema, Function.update s.pc t (start op)⟩ + f (s.pc t) =
        s.sum f N + f (start op) := sum_update f ht rfl
    rw [hp, hf] at hupdate
    omega
  refine ⟨fun u => ?_, fun u hu => ?_, ?_, ?_, ?_⟩
  · by_cases hut : u = t
    · subst hut
      simpa using hok
    · simpa [hut] using hi.ok u
  · have hut : u ≠ t := by omega
    simpa [hut] using hi.outside u hu
  · rw [hsum _ rfl, hsum _ rfl, hw, hr]
    exact hi.posted
  · rw [hsum _ rfl, hsum _ rfl, hw, hc, signalledIn_append, takenIn_append]
    have := hi.permits
    show (initialCount : Int) + ((signalledIn os + (signalArg (.called t op) + 0) : Nat) : Int) =
      takenIn os + 0 + s.sema.mCount + _ + _
    omega
  · rw [takenIn_append]
    have := hi.nonneg
    show 0 ≤ takenIn os + 0
    omega

theorem Inv.step (hi : Inv N initialCount s os) (hN : N < 2 ^ 31)
    (hlim : initialCount + signalledIn os < 2 ^ 63) (ha : a.thread < N)
    (h : act s a = some (s', o)) : Inv N initialCount s' (os ++ o) := by
  cases a with
  | call t op =>
    simp only [act] at h
    split at h
    · next hp =>
      cases h
      exact hi.call ha hp op
    · cases h
  | next t =>
    obtain ⟨⟨q, out⟩, hacc, heq⟩ := Option.map_eq_some_iff.mp h
    obtain ⟨hlow, hhigh⟩ := hi.bounds hN hlim t
    exact hi.goto ha (access_law (hi.ok t) hlow hhigh hacc) heq
  | spurious t =>
    simp only [act] at h
    split at h
    · next k next old hp =>
      have hlaw : Law s.sema s.sema (s.pc t) (s.sema.tryLoop k next s.sema.mCount) := by
        rw [hp]
        exact (looks_tryLoop next _).law rfl
      exact hi.goto ha hlaw (Option.some.inj h)
    · cases h
  | giveUp t =>
    simp only [act] at h
    split at h
    · next k timeout hp =>
      have hlaw : Law s.sema s.sema (s.pc t) (.inl (.recheck k)) := by
        rw [hp]
        exact Looks.law ⟨trivial, rfl, rfl, rfl, Int.le_refl 0⟩ rfl
      exact hi.goto ha hlaw (Option.some.inj h)
    · cases h

theorem inv_of_trace {as : List Action} {maxSpins : Nat}
    (h : trace act (init initialCount maxSpins) as = some (s, os)) (hN : ∀ a ∈ as, a.thread < N)
    (hlt : N < 2 ^ 31) (hlim : initialCount + signalledIn os < 2 ^ 63) : Inv N initialCount s os := by
  refine trace_invariant (I := fun _ s os => initialCount + signalledIn os < 2 ^ 63 →
    Inv N initialCount s os) ?_ h (fun _ => inv_init N initialCount maxSpins) hlim
  intro _ s os a s' o _ ha hI hs hlim'
  rw [signalledIn_append] at hlim'
  have hlim : initialCount + signalledIn os < 2 ^ 63 := by omega
  exact (hI hlim).step hlt hlim (hN a ha) hs

/-- Permits of a thread that are neither in the count nor returned. -/
def onTheWay (p : SemaPc) : Nat := p.carried + p.releasing

/-- **No permit is lost or doubled, and no thread waits in vain.**  In every interleaving of the
accesses of `N` threads: the permits of the constructor and of all calls of `signal` are those
that calls have returned, those available and those on the way; a thread waits in `m_sema` while
that is empty, and nobody is about to release, only when no permit is available; and no release
is refused by the operating system. -/
theorem permits_conserved (initialCount maxSpins N : Nat) (as : List Action) (s : SemaThreads)
    (os : List (Observed SemaOp SemaRes))
    (h : trace act (init initialCount maxSpins) as = some (s, os)) (hN : ∀ a ∈ as, a.thread < N)
    (hlt : N < 2 ^ 31) (hlim : initialCount + signalledIn os < 2 ^ 63) :
    (initialCount : Int) + signalledIn os = takenIn os + s.available + s.sum onTheWay N ∧
    (∀ t k timeout, s.pc t = .park k timeout → s.sema.mSema = 0 →
      (∀ u n, s.pc u ≠ .release n) → s.available = 0) ∧
    (∀ t n, s.pc t = .release n → 0 < n ∧ s.sema.mSema + n ≤ maxLong) := by
  have hi := inv_of_trace h hN hlt hlim
  have hposted := hi.posted
  have hpermits := hi.permits
  have hwaits := sum_waits_le s N
  have hlt' : ∀ t, s.pc t ≠ .idle → t < N := by
    intro t ht
    by_contra hge
    exact ht (hi.outside t (by omega))
  simp only [Us2d.posted] at hposted
  refine ⟨?_, fun t k timeout ht hempty hnone => ?_, fun t n ht => ?_⟩
  · have hsplit : s.sum onTheWay N = s.sum carried N + s.sum releasing N := by
      unfold sum onTheWay Parties.total
      exact Finset.sum_add_distrib
    rw [hsplit]
    unfold available
    split at hposted <;> split <;> omega
  · have hrel : s.sum releasing N = 0 := by
      apply Parties.total_eq_zero
      intro u _
      cases hu : s.pc u with
      | release n => exact absurd hu (hnone u n)
      | _ => rfl
    have hwait := le_sum waits s (hlt' t (by rw [ht]; simp))
    rw [ht] at hwait
    simp only [waits] at hwait
    unfold available
    split at hposted <;> split <;> omega
  · have hpos : 0 < n := by
      have := hi.ok t
      rwa [ht] at this
    have hrel := le_sum releasing s (hlt' t (by rw [ht]; simp))
    rw [ht] at hrel
    simp only [releasing] at hrel
    refine ⟨hpos, ?_⟩
    unfold maxLong
    split at hposted <;> omega

/-- Thread 0 waits, thread 1 signals twice, thread 2 finds a permit at once. -/
def wakeRun : List Action :=
  [.call 0 (.wait (-1)), .next 0, .next 0, .call 1 (.signal 2), .next 1, .call 2 .tryWait, .next 2,
    .next 2, .next 1, .next 0]

theorem permits_conserved_wake : ∃ s, trace act (init 0 0) wakeRun = some (s,
      [.called 0 (.wait (-1)), .called 1 (.signal 2), .called 2 .tryWait,
        .returned 2 (.success true), .returned 1 .signalled, .returned 0 (.success true)]) ∧
      (0 : Int) + 2 = 2 + s.available + s.sum onTheWay 3 := by
  have hrun : (trace act (init 0 0) wakeRun).map Prod.snd =
      some [.called 0 (.wait (-1)), .called 1 (.signal 2), .called 2 .tryWait,
        .returned 2 (.success true), .returned 1 .signalled, .returned 0 (.success true)] := by
    decide +kernel
  obtain ⟨⟨s, os⟩, hs, rfl⟩ := Option.map_eq_some_iff.mp hrun
  exact ⟨s, hs, (permits_conserved 0 0 3 wakeRun s _ hs (by decide) (by decide) (by decide)).1⟩

end SemaThreads

end Us2d
