import Mathlib.Data.List.Nodup
import Mathlib.Logic.Function.Basic

/-!
# Linked lists in a node memory

`next n` is the link stored in the node `n`.  `Linked next p l` says that the pointer `p` heads
the null-terminated list `l`.  A write to a node outside of `l` leaves the list alone, so the
lists of a memory stay apart as long as every node written belongs to the writer.
-/

namespace Chain

variable {N : Type}

/-- Following `next` from `p` visits the nodes `l` and ends at null. -/
def Linked (next : N → Option N) (p : Option N) : List N → Prop
  | [] => p = none
  | n :: l => p = some n ∧ Linked next (next n) l

variable {next next' : N → Option N} {p : Option N} {n : N} {l l' : List N}

@[simp] theorem linked_nil : Linked next p [] ↔ p = none := Iff.rfl

@[simp] theorem linked_cons : Linked next p (n :: l) ↔ p = some n ∧ Linked next (next n) l := Iff.rfl

theorem linked_none : Linked next none l ↔ l = [] := by
  cases l with
  | nil => simp
  | cons n l => simp

theorem Linked.some (h : Linked next (some n) l) : ∃ l', l = n :: l' ∧ Linked next (next n) l' := by
  cases l with
  | nil => simp at h
  | cons m l' =>
    obtain ⟨hm, hl⟩ := h
    obtain rfl := Option.some.inj hm
    exact ⟨l', rfl, hl⟩

/-- What is written outside of a list does not change it. -/
theorem Linked.congr (h : Linked next p l) (hn : ∀ m ∈ l, next' m = next m) : Linked next' p l := by
  induction l generalizing p with
  | nil => exact h
  | cons m l ih =>
    refine ⟨h.1, ?_⟩
    rw [hn m List.mem_cons_self]
    exact ih h.2 fun k hk => hn k (List.mem_cons_of_mem _ hk)

theorem Linked.update [DecidableEq N] (h : Linked next p l) (hn : n ∉ l) (w : Option N) :
    Linked (Function.update next n w) p l :=
  h.congr fun _ hm => Function.update_of_ne (ne_of_mem_of_not_mem hm hn) _ _

/-- A pointer heads one list. -/
theorem Linked.unique (h : Linked next p l) (h' : Linked next p l') : l = l' := by
  induction l generalizing p l' with
  | nil => rw [linked_nil.mp h] at h'; exact (linked_none.mp h').symm
  | cons n l ih =>
    obtain ⟨rfl, hl⟩ := h
    obtain ⟨l1, rfl, hl1⟩ := h'.some
    rw [ih hl hl1]

end Chain

/-!
## Counters of which the low bits are kept

A tag counts modulo `m`.  Two tags read of a counter are equal without the counter having moved
only if it has gone round; `eq_of_window` is the reading of an equal tag inside a window.
-/

namespace Wrapping

variable {m seen count : Nat}

theorem eq_of_window (hle : seen ≤ count) (hlt : count < seen + m) (h : count % m = seen % m) :
    count = seen := by
  have hdvd : m ∣ count - seen := Nat.dvd_of_mod_eq_zero (Nat.sub_mod_eq_zero_of_mod_eq h)
  have hzero : count - seen = 0 := Nat.eq_zero_of_dvd_of_lt hdvd (by omega)
  omega

end Wrapping
