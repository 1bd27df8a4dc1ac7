import Mathlib.Data.List.Basic

/-!
# Prefix codes

Words none of which begins another one.  A stream of such words can be cut in one way only, so
two cuts of the same bytes agree as far as both go.
-/

/-- The words are not empty, and no word begins another one. -/
structure PrefixCode {α : Type} (Word : List α → Prop) : Prop where
  ne_nil : ∀ w, Word w → w ≠ []
  eq_of_prefix : ∀ w w', Word w → Word w' → w <+: w' → w = w'

namespace PrefixCode

variable {α : Type} {Word : List α → Prop} {ws vs : List (List α)}

/-- Words that begin the same stream are equal. -/
theorem eq_of_stream (hc : PrefixCode Word) {w v stream : List α} (hw : Word w) (hv : Word v)
    (hws : w <+: stream) (hvs : v <+: stream) : w = v := by
  rcases Nat.le_total w.length v.length with hle | hle
  · exact hc.eq_of_prefix w v hw hv (List.prefix_of_prefix_length_le hws hvs hle)
  · exact (hc.eq_of_prefix v w hv hw (List.prefix_of_prefix_length_le hvs hws hle)).symm

/-- **Unique cutting.**  Words cut from the front of a stream of words are the first of them. -/
theorem prefix_of_flatten (hc : PrefixCode Word) (hws : ∀ w ∈ ws, Word w) (hvs : ∀ v ∈ vs, Word v)
    (rest : List α) (h : ws.flatten ++ rest <+: vs.flatten) : ws <+: vs := by
  induction ws generalizing vs with
  | nil => exact List.nil_prefix
  | cons w ws ih =>
    have hw := hws w List.mem_cons_self
    rw [List.flatten_cons, List.append_assoc] at h
    cases vs with
    | nil => exact absurd (List.append_eq_nil_iff.mp (List.prefix_nil.mp h)).1 (hc.ne_nil w hw)
    | cons v vs =>
      obtain rfl : w = v := hc.eq_of_stream hw (hvs v List.mem_cons_self)
        ((List.prefix_append w _).trans h) (List.prefix_append v _)
      refine List.cons_prefix_cons.mpr ⟨rfl, ih (fun u hu => hws u (List.mem_cons_of_mem _ hu))
        (fun u hu => hvs u (List.mem_cons_of_mem _ hu)) ?_⟩
      exact (List.prefix_append_right_inj w).mp h

end PrefixCode
