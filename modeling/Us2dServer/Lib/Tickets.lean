import Mathlib.Data.List.Count
import Mathlib.Data.List.Induction
import Mathlib.Logic.Function.Basic

/-!
# Claims by optimistic tickets

Any number of parties claim items of which `T` have been made so far.  A party draws the next
ticket; it is granted if its number, less the number of failures that it saw before it drew, is
below `T`, and otherwise it fails.  Who is granted claims, who failed repays, each in a later
step.  Nobody knows how many tickets before its own will fail, yet the claims never exceed the
items:

    granted ≤ T                                    (granted_le)
    a claim is the claim of an item that is there  (Inv.claim_lt)
-/

namespace Tickets

/-- What has become of a ticket. -/
inductive Fate
  | pending | granted | claimed | failed | repaid
deriving DecidableEq, Repr

def Fate.isGranted : Fate → Bool
  | .granted => true
  | .claimed => true
  | _ => false

def Fate.isFailed : Fate → Bool
  | .failed => true
  | .repaid => true
  | _ => false

/-- The failures among the first `k` tickets. -/
def failedBelow (fates : List Fate) (k : Nat) : Nat := (fates.take k).countP Fate.isFailed

/-- What a party knows. -/
inductive View
  | out
  /-- `v` failures have been repaid -/
  | saw (v : Nat)
  /-- the ticket `my` has been drawn after that -/
  | deciding (v my : Nat)
  | granted (my : Nat)
  | failed (my : Nat)

def View.ticket : View → Option Nat
  | .deciding _ my => some my
  | .granted my => some my
  | .failed my => some my
  | _ => none

def View.Ok (fates : List Fate) : View → Prop
  | .out => True
  | .saw v => v ≤ fates.count .repaid
  | .deciding v my => fates[my]? = some .pending ∧ v ≤ failedBelow fates my
  | .granted my => fates[my]? = some .granted
  | .failed my => fates[my]? = some .failed

structure Inv (T : Nat) (fates : List Fate) (view : Nat → View) : Prop where
  bound : ∀ (k : Nat) (f : Fate), fates[k]? = some f → f.isGranted = true → k < T + failedBelow fates k
  views : ∀ t, (view t).Ok fates
  unique : ∀ t u my, (view t).ticket = some my → (view u).ticket = some my → t = u

/-! ## Counting -/

variable {T T' : Nat} {fates : List Fate} {view : Nat → View} {t k v my : Nat} {f : Fate} {w : View}

theorem granted_add_failed_le (fates : List Fate) :
    fates.countP Fate.isGranted + fates.countP Fate.isFailed ≤ fates.length := by
  induction fates with
  | nil => exact Nat.le_refl 0
  | cons f fates ih =>
    rw [List.countP_cons, List.countP_cons, List.length_cons]
    cases f <;> simp only [Fate.isGranted, Fate.isFailed, Bool.false_eq_true, if_false, if_true] <;> omega

/-- Every grant is below `T`, less the failures before it; so the last one is, and the others are
before it. -/
theorem granted_le (h : ∀ (k : Nat) (f : Fate), fates[k]? = some f → f.isGranted = true →
    k < T + failedBelow fates k) : fates.countP Fate.isGranted ≤ T := by
  induction fates using List.reverseRecOn with
  | nil => exact Nat.zero_le T
  | append_singleton fates f ih =>
    have htake : ∀ k, k ≤ fates.length → failedBelow (fates ++ [f]) k = failedBelow fates k := by
      intro k hk
      simp [failedBelow, List.take_append_of_le_length hk]
    rw [List.countP_append]
    by_cases hf : f.isGranted = true
    · have hlast := h fates.length f (by simp) hf
      rw [htake _ (Nat.le_refl _)] at hlast
      have hcount := granted_add_failed_le fates
      simp only [failedBelow, List.take_length] at hlast
      simp only [List.countP_singleton, hf, if_true]
      omega
    · have hprefix := ih fun k g hk hg => by
        have hlt : k < fates.length := (List.getElem?_eq_some_iff.mp hk).1
        have := h k g (by rw [List.getElem?_append_left hlt, hk]) hg
        rwa [htake k (Nat.le_of_lt hlt)] at this
      simpa [List.countP_singleton, hf] using hprefix

theorem failedBelow_append_le (fates : List Fate) (f : Fate) (k : Nat) :
    failedBelow fates k ≤ failedBelow (fates ++ [f]) k := by
  rw [failedBelow, failedBelow, List.take_append, List.countP_append]
  exact Nat.le_add_right _ _

theorem count_repaid_le (fates : List Fate) : fates.count .repaid ≤ failedBelow fates fates.length := by
  rw [failedBelow, List.take_length]
  exact List.countP_mono_left fun f _ hf => by
    rw [eq_of_beq hf]
    rfl

theorem failedBelow_le (fates : List Fate) (k : Nat) : failedBelow fates k ≤ k := by
  refine Nat.le_trans List.countP_le_length ?_
  rw [List.length_take]
  exact Nat.min_le_left _ _

/-- A fate that does not undo a failure. -/
theorem failedBelow_set_le (hk : fates[k]? = some f) {g : Fate}
    (hfg : f.isFailed = true → g.isFailed = true) (j : Nat) :
    failedBelow fates j ≤ failedBelow (fates.set k g) j := by
  unfold failedBelow
  obtain ⟨hlt, hget⟩ := List.getElem?_eq_some_iff.mp hk
  by_cases hkj : k < j
  · have hlt' : k < (fates.take j).length := by
      rw [List.length_take]
      omega
    rw [List.take_set, List.countP_set hlt', List.getElem_take, hget]
    have hpos : f.isFailed = true → 0 < (fates.take j).countP Fate.isFailed := by
      intro hf
      refine List.countP_pos_iff.mpr ⟨f, ?_, hf⟩
      rw [← hget, ← List.getElem_take]
      exact List.getElem_mem hlt'
    cases hf : f.isFailed with
    | false => simp
    | true =>
      have := hpos hf
      simp [hfg hf]
      omega
  · exact Nat.le_of_eq (by rw [List.take_set_of_le (by omega)])

theorem count_set_fate (hk : fates[k]? = some f) {g c : Fate} :
    (fates.set k g).count c + (if f = c then 1 else 0) = fates.count c + if g = c then 1 else 0 := by
  obtain ⟨hlt, hget⟩ := List.getElem?_eq_some_iff.mp hk
  rw [List.count_set hlt, hget]
  have hpos : f = c → 0 < fates.count c := by
    rintro rfl
    exact List.count_pos_iff.mpr (List.mem_of_getElem? hk)
  by_cases hf : f = c
  · have := hpos hf
    simp only [hf, beq_self_eq_true, if_true, beq_iff_eq]
    omega
  · simp only [beq_iff_eq, hf, if_false]
    omega

/-! ## The steps -/

/-- What a party knows stays true when the failures grow and its own ticket is left alone. -/
theorem View.Ok.congr {fates' : List Fate} (h : w.Ok fates)
    (hrepaid : fates.count .repaid ≤ fates'.count .repaid)
    (hfailed : ∀ j, failedBelow fates j ≤ failedBelow fates' j)
    (hown : ∀ my f, w.ticket = some my → fates[my]? = some f → fates'[my]? = some f) : w.Ok fates' := by
  cases w with
  | out => trivial
  | saw v => exact Nat.le_trans h hrepaid
  | deciding v my => exact ⟨hown my _ rfl h.1, Nat.le_trans h.2 (hfailed my)⟩
  | granted my => exact hown my _ rfl h
  | failed my => exact hown my _ rfl h

theorem Inv.unique_update (hi : Inv T fates view)
    (hw : ∀ my, w.ticket = some my → (view t).ticket = some my ∨ ∀ u, (view u).ticket ≠ some my)
    (u u' my : Nat) (h : (Function.update view t w u).ticket = some my)
    (h' : (Function.update view t w u').ticket = some my) : u = u' := by
  have hother : ∀ u, u ≠ t → (Function.update view t w u).ticket = some my →
      w.ticket = some my → u = t := by
    intro u hu hm hwm
    rw [Function.update_of_ne hu] at hm
    rcases hw my hwm with ht | hnone
    · exact hi.unique u t my hm ht
    · exact absurd hm (hnone u)
  by_cases hu : u = t <;> by_cases hu' : u' = t
  · rw [hu, hu']
  · subst hu
    rw [Function.update_self] at h
    exact (hother u' hu' h' h).symm
  · subst hu'
    rw [Function.update_self] at h'
    exact hother u hu h h'
  · rw [Function.update_of_ne hu] at h
    rw [Function.update_of_ne hu'] at h'
    exact hi.unique u u' my h h'

/-- A party only looks. -/
theorem Inv.look (hi : Inv T fates view) (hw : w.Ok fates) (hnone : w.ticket = none) :
    Inv T fates (Function.update view t w) where
  bound := hi.bound
  views := by
    intro u
    by_cases hu : u = t
    · subst hu
      simpa using hw
    · simpa [hu] using hi.views u
  unique := hi.unique_update fun my hmy => by
    rw [hnone] at hmy
    cases hmy

/-- The next ticket is drawn. -/
theorem Inv.draw (hi : Inv T fates view) (hv : v ≤ fates.count .repaid) :
    Inv T (fates ++ [.pending]) (Function.update view t (.deciding v fates.length)) where
  bound := by
    intro k f hk hf
    have hlt : k < fates.length := by
      by_contra hge
      rw [List.getElem?_append_right (by omega)] at hk
      rw [List.mem_singleton.mp (List.mem_of_getElem? hk)] at hf
      cases hf
    rw [List.getElem?_append_left hlt] at hk
    exact Nat.lt_of_lt_of_le (hi.bound k f hk hf)
      (Nat.add_le_add_left (failedBelow_append_le fates _ k) T)
  views := by
    intro u
    by_cases hu : u = t
    · subst hu
      rw [Function.update_self]
      refine ⟨by simp, Nat.le_trans hv (Nat.le_trans (count_repaid_le fates) ?_)⟩
      exact failedBelow_append_le fates _ _
    · rw [Function.update_of_ne hu]
      refine (hi.views u).congr ?_ (failedBelow_append_le fates _) ?_
      · rw [List.count_append]
        exact Nat.le_add_right _ _
      · intro my f _ hf
        rw [List.getElem?_append_left (List.getElem?_eq_some_iff.mp hf).1, hf]
  unique := by
    refine hi.unique_update fun my hmy => .inr fun u hu => ?_
    -- the number is new
    cases hmy
    have hlt : ∀ f, fates[fates.length]? ≠ some f := by simp
    have hok := hi.views u
    cases hw : view u with
    | out => rw [hw] at hu; cases hu
    | saw v => rw [hw] at hu; cases hu
    | deciding v my =>
      rw [hw] at hu hok
      cases hu
      exact hlt _ hok.1
    | granted my =>
      rw [hw] at hu hok
      cases hu
      exact hlt _ hok
    | failed my =>
      rw [hw] at hu hok
      cases hu
      exact hlt _ hok

/-- The fate of the ticket of `t` changes. -/
theorem Inv.decide {g : Fate} (hi : Inv T fates view) (ht : (view t).ticket = some my)
    (hmy : fates[my]? = some f) (hfg : f.isFailed = true → g.isFailed = true)
    (hgrant : g.isGranted = true → f.isGranted = true ∨ my < T + failedBelow fates my)
    (hrepaid : f ≠ .repaid) (hw : w.Ok (fates.set my g)) (htw : w.ticket = some my ∨ w.ticket = none) :
    Inv T (fates.set my g) (Function.update view t w) where
  bound := by
    intro k f' hk hf'
    have hle := failedBelow_set_le hmy hfg k
    rw [List.getElem?_set] at hk
    split at hk
    · next hmk =>
      subst hmk
      split at hk
      · cases hk
        rcases hgrant hf' with hf | hlt
        · have := hi.bound _ f hmy hf
          omega
        · omega
      · cases hk
    · have := hi.bound k f' hk hf'
      omega
  views := by
    intro u
    by_cases hu : u = t
    · subst hu
      simpa using hw
    · rw [Function.update_of_ne hu]
      refine (hi.views u).congr ?_ (failedBelow_set_le hmy hfg) ?_
      · have := count_set_fate (c := .repaid) (g := g) hmy
        rw [if_neg hrepaid] at this
        omega
      · intro my' f' hmy' hf'
        have hne : my ≠ my' := by
          rintro rfl
          exact hu (hi.unique u t my hmy' ht)
        rw [List.getElem?_set_ne hne, hf']
  unique := hi.unique_update fun my' hmy' => by
    rcases htw with htw | htw
    · rw [htw] at hmy'
      cases hmy'
      exact .inl ht
    · rw [htw] at hmy'
      cases hmy'

theorem getElem?_set_fate (hk : fates[k]? = some f) (g : Fate) : (fates.set k g)[k]? = some g := by
  have hlt := (List.getElem?_eq_some_iff.mp hk).1
  simp [hlt]

theorem Inv.grant (hi : Inv T fates view) (ht : view t = .deciding v my) (hlt : my < T + v) :
    Inv T (fates.set my .granted) (Function.update view t (.granted my)) := by
  have hok := hi.views t
  rw [ht] at hok
  refine hi.decide (by rw [ht]; rfl) hok.1 (by simp [Fate.isFailed]) (fun _ => .inr ?_) (by simp)
    (getElem?_set_fate hok.1 _) (.inl rfl)
  exact Nat.lt_of_lt_of_le hlt (Nat.add_le_add_left hok.2 T)

theorem Inv.fail (hi : Inv T fates view) (ht : view t = .deciding v my) :
    Inv T (fates.set my .failed) (Function.update view t (.failed my)) := by
  have hok := hi.views t
  rw [ht] at hok
  exact hi.decide (by rw [ht]; rfl) hok.1 (by simp [Fate.isFailed]) (by simp [Fate.isGranted]) (by simp)
    (getElem?_set_fate hok.1 _) (.inl rfl)

theorem Inv.claim (hi : Inv T fates view) (ht : view t = .granted my) :
    Inv T (fates.set my .claimed) (Function.update view t .out) := by
  have hok := hi.views t
  rw [ht] at hok
  exact hi.decide (by rw [ht]; rfl) hok (by simp [Fate.isFailed]) (fun _ => .inl rfl) (by simp) trivial
    (.inr rfl)

theorem Inv.repay (hi : Inv T fates view) (ht : view t = .failed my) :
    Inv T (fates.set my .repaid) (Function.update view t .out) := by
  have hok := hi.views t
  rw [ht] at hok
  exact hi.decide (by rw [ht]; rfl) hok (fun _ => rfl) (by simp [Fate.isGranted]) (by simp) trivial
    (.inr rfl)

/-- More items. -/
theorem Inv.grow (hi : Inv T fates view) (h : T ≤ T') : Inv T' fates view where
  bound := fun k f hk hf => by
    have := hi.bound k f hk hf
    omega
  views := hi.views
  unique := hi.unique

theorem Inv.claimed_le (hi : Inv T fates view) : fates.count .claimed ≤ T := by
  refine Nat.le_trans (List.countP_mono_left fun f _ hf => ?_) (granted_le hi.bound)
  rw [eq_of_beq hf]
  rfl

/-- **A claim is good.** -/
theorem Inv.claim_lt (hi : Inv T fates view) (ht : view t = .granted my) :
    fates.count .claimed < T := by
  have hok := hi.views t
  rw [ht] at hok
  have hclaim := (hi.claim ht).claimed_le
  have hcount := count_set_fate (c := .claimed) (g := .claimed) hok
  simp only [reduceCtorEq, if_false, if_true] at hcount
  omega

end Tickets
