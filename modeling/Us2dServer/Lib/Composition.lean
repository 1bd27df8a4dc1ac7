import Us2dServer.Lib.Linearization

/-!
# A client over objects

A client works with a family of objects.  Its part in their steps is what is observed of them:
`observe k i o` is the client's next state when `o` is observed of the object `i`, and `none` if
the client does not take part in that.  Besides, it has steps of its own.

Since the client meets an object through its observations alone, an object that is simulated by
another one can be replaced by it: `run_simulated`.
-/

namespace Composition

open Transition

variable {κ γ ι σ τ α β ω : Type}

structure Client (κ γ ι ω : Type) where
  step : κ → γ → Option κ
  observe : κ → ι → ω → Option κ

structure State (κ ι σ : Type) where
  client : κ
  obj : ι → σ

inductive Action (γ ι α : Type)
  | client (g : γ)
  | obj (i : ι) (a : α)

namespace Client

/-- The client takes part in a list of observations of the object `i`. -/
def observeAll (C : Client κ γ ι ω) (i : ι) : κ → List ω → Option κ
  | k, [] => some k
  | k, o :: os => (C.observe k i o).bind fun k' => C.observeAll i k' os

@[simp] theorem observeAll_nil (C : Client κ γ ι ω) (i : ι) (k : κ) :
    C.observeAll i k [] = some k := rfl

theorem observeAll_singleton (C : Client κ γ ι ω) (i : ι) (k : κ) (o : ω) :
    C.observeAll i k [o] = C.observe k i o := by
  cases h : C.observe k i o <;> simp [observeAll, h]

theorem observeAll_append {C : Client κ γ ι ω} {i : ι} {k k' : κ} {os os' : List ω}
    (h : C.observeAll i k (os ++ os') = some k') :
    ∃ k1, C.observeAll i k os = some k1 ∧ C.observeAll i k1 os' = some k' := by
  induction os generalizing k with
  | nil => exact ⟨k, rfl, h⟩
  | cons o os ih =>
    obtain ⟨k2, ho, hos⟩ := Option.bind_eq_some_iff.mp h
    obtain ⟨k1, h1, h2⟩ := ih hos
    exact ⟨k1, Option.bind_eq_some_iff.mpr ⟨k2, ho, h1⟩, h2⟩

end Client

variable [DecidableEq ι]

/-- The client and its objects, the objects stepping by `act`. -/
def step (C : Client κ γ ι ω) (act : σ → α → Option (σ × List ω)) (s : State κ ι σ) :
    Action γ ι α → Option (State κ ι σ)
  | .client g => (C.step s.client g).map fun k => { s with client := k }
  | .obj i a => (act (s.obj i) a).bind fun r =>
    (C.observeAll i s.client r.2).map fun k => ⟨k, Function.update s.obj i r.1⟩

variable {C : Client κ γ ι ω} {act : σ → α → Option (σ × List ω)}
  {act' : τ → β → Option (τ × List ω)} {s s' : State κ ι σ} {t : State κ ι τ}

theorem step_client {g : γ} : step C act s (.client g) = some s' ↔
    ∃ k, C.step s.client g = some k ∧ s' = { s with client := k } := by
  constructor
  · intro h
    obtain ⟨k, hk, rfl⟩ := Option.map_eq_some_iff.mp h
    exact ⟨k, hk, rfl⟩
  · rintro ⟨k, hk, rfl⟩
    simp [step, hk]

theorem step_obj {i : ι} {a : α} : step C act s (.obj i a) = some s' ↔
    ∃ x os k, act (s.obj i) a = some (x, os) ∧ C.observeAll i s.client os = some k ∧
      s' = ⟨k, Function.update s.obj i x⟩ := by
  constructor
  · intro h
    obtain ⟨⟨x, os⟩, ha, hk⟩ := Option.bind_eq_some_iff.mp h
    obtain ⟨k, hos, rfl⟩ := Option.map_eq_some_iff.mp hk
    exact ⟨x, os, k, ha, hos, rfl⟩
  · rintro ⟨x, os, k, ha, hos, rfl⟩
    simp [step, ha, hos]

/-- A run of one object is a run of the whole, if the client takes part in what is observed. -/
theorem run_of_trace {i : ι} {x : τ} {as : List β} {os : List ω} {k : κ}
    (h : trace act' (t.obj i) as = some (x, os)) (hk : C.observeAll i t.client os = some k) :
    run (step C act') t (as.map (.obj i)) = some ⟨k, Function.update t.obj i x⟩ := by
  induction as generalizing t os with
  | nil =>
    cases h
    cases hk
    simp
  | cons a as ih =>
    obtain ⟨x1, o1, o2, ha, has, rfl⟩ := trace_cons.mp h
    obtain ⟨k1, h1, h2⟩ := Client.observeAll_append hk
    refine run_cons.mpr ⟨⟨k1, Function.update t.obj i x1⟩, step_obj.mpr ⟨x1, o1, k1, ha, h1, rfl⟩, ?_⟩
    have hrest := ih (t := ⟨k1, Function.update t.obj i x1⟩) (by simpa using has) h2
    simpa using hrest

/-- The clients are in the same state, the objects in related ones. -/
def Related (R : σ → τ → Prop) (s : State κ ι σ) (t : State κ ι τ) : Prop :=
  s.client = t.client ∧ ∀ i, R (s.obj i) (t.obj i)

/-- The condition `D` on the steps of the objects. -/
def OnObjects (D : σ → α → Prop) (s : State κ ι σ) : Action γ ι α → Prop
  | .client _ => True
  | .obj i a => D (s.obj i) a

instance decidableOnObjects {D : σ → α → Prop} [∀ x a, Decidable (D x a)] (s : State κ ι σ) :
    (a : Action γ ι α) → Decidable (OnObjects D s a)
  | .client _ => .isTrue trivial
  | .obj i a => inferInstanceAs (Decidable (D (s.obj i) a))

/-- **Replacement rule.**  What a client does over objects it does, by the same steps of its own,
over any objects that they are simulated by. -/
theorem run_simulated {R : σ → τ → Prop} {D : σ → α → Prop}
    (hsim : ∀ s t a s' o, R s t → D s a → act s a = some (s', o) →
      ∃ bs t', trace act' t bs = some (t', o) ∧ R s' t')
    {as : List (Action γ ι α)} (h : run (step C act) s as = some s')
    (hD : Along (step C act) (OnObjects D) s as) (hR : Related R s t) :
    ∃ bs t', run (step C act') t bs = some t' ∧ Related R s' t' ∧
      ∀ g, Action.client g ∈ bs → Action.client g ∈ as := by
  induction as generalizing s t with
  | nil =>
    cases h
    exact ⟨[], t, rfl, hR, fun _ hg => absurd hg List.not_mem_nil⟩
  | cons a as ih =>
    obtain ⟨s1, ha, has⟩ := run_cons.mp h
    have hrest := hD.2 s1 ha
    suffices hone : ∃ bs t1, run (step C act') t bs = some t1 ∧ Related R s1 t1 ∧
        ∀ g, Action.client g ∈ bs → Action.client g = a by
      obtain ⟨bs, t1, hbs, hR1, hown⟩ := hone
      obtain ⟨bs', t', hbs', hR', hown'⟩ := ih has hrest hR1
      refine ⟨bs ++ bs', t', run_append.mpr ⟨t1, hbs, hbs'⟩, hR', fun g hg => ?_⟩
      rcases List.mem_append.mp hg with hg | hg
      · exact List.mem_cons.mpr (Or.inl (hown g hg))
      · exact List.mem_cons_of_mem _ (hown' g hg)
    cases a with
    | client g =>
      obtain ⟨k, hk, rfl⟩ := step_client.mp ha
      rw [hR.1] at hk
      refine ⟨[.client g], { t with client := k }, by simp [run, step, hk], ⟨rfl, hR.2⟩, ?_⟩
      exact fun g' hg' => by simpa using hg'
    | obj i a =>
      obtain ⟨x, os, k, hact, hk, rfl⟩ := step_obj.mp ha
      obtain ⟨bs, y, hbs, hRi⟩ := hsim _ _ _ _ _ (hR.2 i) hD.1 hact
      rw [hR.1] at hk
      refine ⟨bs.map (.obj i), _, run_of_trace hbs hk, ⟨rfl, fun j => ?_⟩, by simp⟩
      by_cases hj : j = i
      · subst hj
        simpa using hRi
      · simpa [hj] using hR.2 j

end Composition
