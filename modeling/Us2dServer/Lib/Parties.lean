import Mathlib.Algebra.BigOperators.Group.Finset.Basic
import Mathlib.Algebra.Order.Group.Multiset

/-!
# Sums over numbered parties

Parties are numbered from 0, `f k` is what party `k` holds, and `total n f` what the first `n`
hold together.  A step of one party changes its own summand only: `total_eq` takes it out of
the sum and `others_congr` says that the rest stays.
-/

namespace Parties

variable {M : Type*} [AddCommMonoid M] {n k j : Nat} {f f' : Nat → M}

def total (n : Nat) (f : Nat → M) : M := ∑ k ∈ Finset.range n, f k

/-- What the first `n` parties but `k` hold. -/
def others (n k : Nat) (f : Nat → M) : M := ∑ j ∈ (Finset.range n).erase k, f j

theorem total_eq (hk : k < n) : total n f = f k + others n k f :=
  (Finset.add_sum_erase _ _ (Finset.mem_range.mpr hk)).symm

theorem others_congr (h : ∀ j, j ≠ k → f j = f' j) : others n k f = others n k f' :=
  Finset.sum_congr rfl fun j hj => h j (Finset.mem_erase.mp hj).1

theorem total_congr (h : ∀ j, j < n → f j = f' j) : total n f = total n f' :=
  Finset.sum_congr rfl fun j hj => h j (Finset.mem_range.mp hj)

theorem total_succ : total (n + 1) f = total n f + f n := Finset.sum_range_succ f n

/-- A new party, numbered `n`, joins the first `n`. -/
theorem total_update_succ {P : Type*} {g : P → M} {p : Nat → P} {x : P} :
    total (n + 1) (fun k => g (Function.update p n x k)) = total n (fun k => g (p k)) + g x := by
  rw [total_succ, Function.update_self]
  congr 1
  exact total_congr fun j hj => by rw [Function.update_of_ne (Nat.ne_of_lt hj)]

/-- Party `k` changes from `p k` to `x`. -/
theorem total_update {P : Type*} {g : P → M} {p : Nat → P} {x : P} (hk : k < n) :
    total n (fun j => g (Function.update p k x j)) + g (p k) = total n (fun j => g (p j)) + g x := by
  have hothers : others n k (fun j => g (Function.update p k x j)) = others n k fun j => g (p j) :=
    others_congr fun j hj => by rw [Function.update_of_ne hj]
  rw [total_eq hk, total_eq hk, hothers, Function.update_self]
  ac_rfl

theorem total_eq_zero (h : ∀ k, k < n → f k = 0) : total n f = 0 :=
  Finset.sum_eq_zero fun k hk => h k (Finset.mem_range.mp hk)

theorem le_total {α : Type*} {f : Nat → Multiset α} (hk : k < n) : f k ≤ total n f := by
  rw [total_eq hk]
  exact Multiset.le_add_right _ _

end Parties
