import Mathlib.Logic.Basic

/-!
# Runs of a labelled transition system

A system is a partial step function `step : σ → α → Option σ`: `step s a = none` says that
the action `a` is not enabled in `s`.  A run plays a list of actions.

    run step s as = some s'     the actions `as` lead from `s` to `s'`
    Along step C s as           every step of that run is taken under the condition `C`

An interleaving of several parties is a run over the sum of their actions, so a property of
every interleaving is a property of every run.  `run_invariant` and `run_invariant_along` are
the induction over a run; all later safety results go through one of them.
-/

namespace Transition

variable {σ α : Type}

/-- Play the actions in order; `none` as soon as one of them is not enabled. -/
def run (step : σ → α → Option σ) : σ → List α → Option σ
  | s, [] => some s
  | s, a :: as => (step s a).bind (run step · as)

/-- Every step of the run from `s` along `as` meets `C` in the state it starts from. -/
def Along (step : σ → α → Option σ) (C : σ → α → Prop) : σ → List α → Prop
  | _, [] => True
  | s, a :: as => C s a ∧ ∀ s', step s a = some s' → Along step C s' as

/-- Some run leads from `init` to `s`. -/
def Reachable (step : σ → α → Option σ) (init s : σ) : Prop := ∃ as, run step init as = some s

variable {step : σ → α → Option σ} {s s' s'' : σ} {a : α} {as bs : List α}

@[simp] theorem run_nil : run step s [] = some s := rfl

theorem run_cons : run step s (a :: as) = some s'' ↔
    ∃ s', step s a = some s' ∧ run step s' as = some s'' := by
  simp [run, Option.bind_eq_some_iff]

theorem run_singleton : run step s [a] = step s a := by
  cases h : step s a <;> simp [run, h]

theorem run_append : run step s (as ++ bs) = some s'' ↔
    ∃ s', run step s as = some s' ∧ run step s' bs = some s'' := by
  induction as generalizing s with
  | nil => simp
  | cons a as ih =>
    rw [List.cons_append, run_cons]
    constructor
    · rintro ⟨s1, h1, h2⟩
      obtain ⟨s2, h3, h4⟩ := ih.mp h2
      exact ⟨s2, run_cons.mpr ⟨s1, h1, h3⟩, h4⟩
    · rintro ⟨s2, h1, h2⟩
      obtain ⟨s1, h3, h4⟩ := run_cons.mp h1
      exact ⟨s1, h3, ih.mpr ⟨s2, h4, h2⟩⟩

/-- **Invariant rule.**  What every step preserves, every run preserves. -/
theorem run_invariant {I : σ → Prop} (hstep : ∀ s a s', I s → step s a = some s' → I s')
    (h : run step s as = some s') (hI : I s) : I s' := by
  induction as generalizing s with
  | nil => exact Option.some.inj h ▸ hI
  | cons a as ih =>
    obtain ⟨s1, h1, h2⟩ := run_cons.mp h
    exact ih h2 (hstep s a s1 hI h1)

/-- The invariant rule for runs whose steps all meet a condition. -/
theorem run_invariant_along {I : σ → Prop} {C : σ → α → Prop}
    (hstep : ∀ s a s', I s → C s a → step s a = some s' → I s')
    (h : run step s as = some s') (hC : Along step C s as) (hI : I s) : I s' := by
  induction as generalizing s with
  | nil => exact Option.some.inj h ▸ hI
  | cons a as ih =>
    obtain ⟨s1, h1, h2⟩ := run_cons.mp h
    exact ih h2 (hC.2 s1 h1) (hstep s a s1 hI hC.1 h1)

theorem along_append {C : σ → α → Prop} : Along step C s (as ++ bs) ↔
    Along step C s as ∧ ∀ s', run step s as = some s' → Along step C s' bs := by
  induction as generalizing s with
  | nil => simp [Along]
  | cons a as ih =>
    simp only [List.cons_append, Along, ih, run_cons]
    constructor
    · rintro ⟨hC, hrest⟩
      exact ⟨⟨hC, fun s1 h1 => (hrest s1 h1).1⟩, fun s2 ⟨s1, h1, h2⟩ => (hrest s1 h1).2 s2 h2⟩
    · rintro ⟨⟨hC, has⟩, hbs⟩
      exact ⟨hC, fun s1 h1 => ⟨has s1 h1, fun s2 h2 => hbs s2 ⟨s1, h1, h2⟩⟩⟩

/-- Whether a condition holds along a run is computed with the run. -/
instance decidableAlong {C : σ → α → Prop} [∀ s a, Decidable (C s a)] :
    (s : σ) → (as : List α) → Decidable (Along step C s as)
  | _, [] => .isTrue trivial
  | s, a :: as =>
    have : DecidablePred fun s' => Along step C s' as := fun s' => decidableAlong s' as
    inferInstanceAs (Decidable (C s a ∧ ∀ s', s' ∈ step s a → Along step C s' as))

theorem Along.mono {C C' : σ → α → Prop} (hC : ∀ s a, C s a → C' s a) (h : Along step C s as) :
    Along step C' s as := by
  induction as generalizing s with
  | nil => trivial
  | cons a as ih => exact ⟨hC s a h.1, fun s' hs => ih (h.2 s' hs)⟩

theorem Along.and {C C' : σ → α → Prop} (h : Along step C s as) (h' : Along step C' s as) :
    Along step (fun s a => C s a ∧ C' s a) s as := by
  induction as generalizing s with
  | nil => trivial
  | cons a as ih => exact ⟨⟨h.1, h'.1⟩, fun s' hs => ih (h.2 s' hs) (h'.2 s' hs)⟩

/-- Conditions that are equivalent along a run hold along it together. -/
theorem along_congr {C C' : σ → α → Prop} (h : Along step (fun s a => C s a ↔ C' s a) s as) :
    Along step C s as ↔ Along step C' s as := by
  induction as generalizing s with
  | nil => exact Iff.rfl
  | cons a as ih =>
    exact and_congr h.1 (forall_congr' fun s' => forall_congr' fun hs => ih (h.2 s' hs))

/-- A condition that holds of the actions alone holds along every run of them. -/
theorem along_of_actions {C : σ → α → Prop} (h : ∀ a ∈ as, ∀ s, C s a) : Along step C s as := by
  induction as generalizing s with
  | nil => trivial
  | cons a as ih =>
    exact ⟨h a List.mem_cons_self s, fun s' _ => ih fun b hb => h b (List.mem_cons_of_mem _ hb)⟩

theorem Reachable.invariant {I : σ → Prop} {init : σ} (h : Reachable step init s)
    (hinit : I init) (hstep : ∀ s a s', I s → step s a = some s' → I s') : I s := by
  obtain ⟨as, has⟩ := h
  exact run_invariant hstep has hinit

theorem Reachable.next {init : σ} (h : Reachable step init s) (hs : step s a = some s') :
    Reachable step init s' := by
  obtain ⟨as, has⟩ := h
  exact ⟨as ++ [a], run_append.mpr ⟨s, has, run_singleton.trans hs⟩⟩

/-- A condition that an invariant gives for every enabled step holds along every run. -/
theorem along_of_run {I : σ → Prop} {C : σ → α → Prop}
    (hstep : ∀ s a s', I s → step s a = some s' → I s' ∧ C s a) (h : run step s as = some s')
    (hI : I s) : Along step C s as := by
  induction as generalizing s with
  | nil => trivial
  | cons a as ih =>
    obtain ⟨s1, h1, h2⟩ := run_cons.mp h
    refine ⟨(hstep s a s1 hI h1).2, fun s2 hs2 => ?_⟩
    obtain rfl : s1 = s2 := Option.some.inj (h1.symm.trans hs2)
    exact ih h2 (hstep s a s1 hI h1).1

end Transition
