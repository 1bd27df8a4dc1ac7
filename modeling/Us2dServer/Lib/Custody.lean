import Mathlib.Logic.Basic

/-!
# Exclusive custody

Tokens of a type `α` lie at places of a type `P`; `held p a` counts how often the place `p`
holds the token `a`.  `At held a p` says that `a` lies at `p`, once, and nowhere else.  A token
with exclusive custody is neither lost (it is somewhere), nor doubled (once), nor shared (at
one place).  An operation on a concrete structure keeps custody if it leaves the counts of the
other tokens alone and moves its own token from one place to another.
-/

namespace Custody

variable {P α : Type} [DecidableEq P]

/-- `a` lies at `p`, once, and at no other place. -/
def At (held : P → α → Nat) (a : α) (p : P) : Prop := ∀ q, held q a = if q = p then 1 else 0

def Exclusive (held : P → α → Nat) (a : α) : Prop := ∃ p, At held a p

/-- No place holds `a`. -/
def Absent (held : P → α → Nat) (a : α) : Prop := ∀ q, held q a = 0

variable {held held' : P → α → Nat} {a : α} {p q : P}

theorem At.self (h : At held a p) : held p a = 1 := by rw [h p, if_pos rfl]

theorem At.other (h : At held a p) (hq : q ≠ p) : held q a = 0 := by rw [h q, if_neg hq]

theorem At.congr (h : At held a p) (hc : ∀ q, held' q a = held q a) : At held' a p :=
  fun q => (hc q).trans (h q)

theorem Exclusive.congr (h : Exclusive held a) (hc : ∀ q, held' q a = held q a) :
    Exclusive held' a := by
  obtain ⟨p, hp⟩ := h
  exact ⟨p, hp.congr hc⟩

/-- The place that is seen to hold a token is its only place. -/
theorem Exclusive.at_of_held (h : Exclusive held a) (hp : 0 < held p a) : At held a p := by
  obtain ⟨p0, h0⟩ := h
  by_cases hpp : p = p0
  · rwa [hpp]
  · rw [h0.other hpp] at hp; omega

theorem At.unique (h : At held a p) (h' : At held a q) : p = q := by
  apply Classical.byContradiction
  intro hne
  have h1 := h.self
  rw [h'.other hne] at h1
  omega

end Custody
