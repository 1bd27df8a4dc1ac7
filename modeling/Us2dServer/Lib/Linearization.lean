import Us2dServer.Lib.Transition
import Mathlib.Logic.Function.Basic

/-!
# Linearizability as inclusion of observed runs

`act s a = some (s', os)` is a step at which the list `os` is observed; `trace` plays a list of
actions and collects what is observed.  A system is linearizable if whatever is observed of it
can be observed of the atomic object: there a call takes effect in one step, somewhere between
the step at which it is made and the step at which it returns.

    trace act s as = some (s', os)                      observed of the code
    trace (AtomicObject.act apply) t bs = some (t', os)  observed of the object

`trace_simulated` reduces the inclusion to single steps.
-/

namespace Transition

variable {σ τ α β ω : Type}

/-- The step function under a step that also says what is observed. -/
def stepOf (act : σ → α → Option (σ × List ω)) (s : σ) (a : α) : Option σ := (act s a).map Prod.fst

/-- Play the actions in order and collect what is observed. -/
def trace (act : σ → α → Option (σ × List ω)) : σ → List α → Option (σ × List ω)
  | s, [] => some (s, [])
  | s, a :: as =>
    (act s a).bind fun r => (trace act r.1 as).map fun r' => (r'.1, r.2 ++ r'.2)

variable {act : σ → α → Option (σ × List ω)} {act' : τ → β → Option (τ × List ω)}
  {s s' : σ} {t : τ} {a : α} {as bs : List α} {os os' : List ω}

@[simp] theorem trace_nil : trace act s [] = some (s, []) := rfl

theorem trace_cons : trace act s (a :: as) = some (s', os) ↔
    ∃ s1 o1 o2, act s a = some (s1, o1) ∧ trace act s1 as = some (s', o2) ∧ os = o1 ++ o2 := by
  constructor
  · intro h
    obtain ⟨⟨s1, o1⟩, h1, h2⟩ := Option.bind_eq_some_iff.mp h
    obtain ⟨⟨s2, o2⟩, h3, h4⟩ := Option.map_eq_some_iff.mp h2
    cases h4
    exact ⟨s1, o1, o2, h1, h3, rfl⟩
  · rintro ⟨s1, o1, o2, h1, h2, rfl⟩
    simp [trace, h1, h2]

theorem trace_singleton (h : act s a = some (s', os)) : trace act s [a] = some (s', os) := by
  simp [trace, h]

theorem trace_append {s1 : σ} (h1 : trace act s as = some (s1, os))
    (h2 : trace act s1 bs = some (s', os')) : trace act s (as ++ bs) = some (s', os ++ os') := by
  induction as generalizing s os with
  | nil =>
    cases h1
    exact h2
  | cons a as ih =>
    obtain ⟨s2, o1, o2, ha, has, rfl⟩ := trace_cons.mp h1
    rw [List.cons_append, List.append_assoc]
    exact trace_cons.mpr ⟨s2, o1, o2 ++ os', ha, ih has, rfl⟩

theorem run_of_trace (h : trace act s as = some (s', os)) : run (stepOf act) s as = some s' := by
  induction as generalizing s os with
  | nil =>
    cases h
    rfl
  | cons a as ih =>
    obtain ⟨s1, o1, o2, ha, has, rfl⟩ := trace_cons.mp h
    exact run_cons.mpr ⟨s1, by simp [stepOf, ha], ih has⟩

/-- **Invariant rule** for a property of the state, of what has been observed so far and of the
number of steps. -/
theorem trace_invariant {I : Nat → σ → List ω → Prop}
    (hstep : ∀ n s os a s' o, n < as.length → a ∈ as → I n s os → act s a = some (s', o) →
      I (n + 1) s' (os ++ o))
    (h : trace act s as = some (s', os)) (hI : I 0 s []) : I as.length s' os := by
  have hgen : ∀ (bs pre : List α) (s : σ) (os1 os2 : List ω), as = pre ++ bs → I pre.length s os1 →
      trace act s bs = some (s', os2) → I as.length s' (os1 ++ os2) := by
    intro bs
    induction bs with
    | nil =>
      intro pre s os1 os2 has hpre hs
      cases hs
      rwa [has, List.append_nil, List.append_nil]
    | cons b bs ih =>
      intro pre s os1 os2 has hpre hs
      obtain ⟨s1, o1, o2, hb, hbs, rfl⟩ := trace_cons.mp hs
      rw [← List.append_assoc]
      refine ih (pre ++ [b]) s1 (os1 ++ o1) o2 (by rw [has]; simp) ?_ hbs
      rw [List.length_append]
      exact hstep pre.length s os1 b s1 o1 (by rw [has]; simp) (by rw [has]; simp) hpre hb
  exact hgen as [] s [] os rfl hI h

/-- **Simulation rule.**  If every step under `C` is observed of the second system too, by some
actions that lead to a related state, then so is every run whose steps meet `C`. -/
theorem trace_simulated {R : σ → τ → Prop} {C : σ → α → Prop}
    (hstep : ∀ s t a s' o, R s t → C s a → act s a = some (s', o) →
      ∃ bs t', trace act' t bs = some (t', o) ∧ R s' t')
    (h : trace act s as = some (s', os)) (hC : Along (stepOf act) C s as) (hR : R s t) :
    ∃ bs t', trace act' t bs = some (t', os) ∧ R s' t' := by
  induction as generalizing s t os with
  | nil =>
    cases h
    exact ⟨[], t, rfl, hR⟩
  | cons a as ih =>
    obtain ⟨s1, o1, o2, ha, has, rfl⟩ := trace_cons.mp h
    obtain ⟨bs1, t1, hb1, hR1⟩ := hstep s t a s1 o1 hR hC.1 ha
    obtain ⟨bs2, t2, hb2, hR2⟩ := ih has (hC.2 s1 (by simp [stepOf, ha])) hR1
    exact ⟨bs1 ++ bs2, t2, trace_append hb1 hb2, hR2⟩

end Transition

namespace AtomicObject

open Transition

variable {σ Op Res : Type}

/-- What is observed of an object: a thread calls an operation, or has its result. -/
inductive Observed (Op Res : Type)
  | called (thread : Nat) (op : Op)
  | returned (thread : Nat) (r : Res)
deriving DecidableEq, Repr

/-- A thread's call: none, one that has not taken effect, one that has. -/
inductive Call (Op Res : Type)
  | idle
  | pending (op : Op)
  | done (r : Res)
deriving DecidableEq, Repr

structure State (σ Op Res : Type) where
  obj : σ
  call : Nat → Call Op Res

inductive Action (Op : Type)
  | call (thread : Nat) (op : Op)
  | effect (thread : Nat)
  | ret (thread : Nat)

/-- No thread is in a call. -/
def idle (obj : σ) : State σ Op Res := ⟨obj, fun _ => .idle⟩

def State.set (s : State σ Op Res) (thread : Nat) (c : Call Op Res) : State σ Op Res :=
  { s with call := Function.update s.call thread c }

/-- `apply` is the sequential object: the state after the operation, and its result. -/
def act (apply : σ → Op → σ × Res) (s : State σ Op Res) :
    Action Op → Option (State σ Op Res × List (Observed Op Res))
  | .call thread op =>
    match s.call thread with
    | .idle => some (s.set thread (.pending op), [.called thread op])
    | _ => none
  | .effect thread =>
    match s.call thread with
    | .pending op =>
      some ({ s.set thread (.done (apply s.obj op).2) with obj := (apply s.obj op).1 }, [])
    | _ => none
  | .ret thread =>
    match s.call thread with
    | .done r => some (s.set thread .idle, [.returned thread r])
    | _ => none

@[simp] theorem State.set_obj (s : State σ Op Res) (thread : Nat) (c : Call Op Res) :
    (s.set thread c).obj = s.obj := rfl

@[simp] theorem State.set_call (s : State σ Op Res) (thread : Nat) (c : Call Op Res) (u : Nat) :
    (s.set thread c).call u = if u = thread then c else s.call u := by
  simp [State.set, Function.update_apply]

variable {apply : σ → Op → σ × Res} {s : State σ Op Res} {thread : Nat} {op : Op} {r : Res}

theorem act_call (h : s.call thread = .idle) :
    act apply s (.call thread op) = some (s.set thread (.pending op), [.called thread op]) := by
  simp [act, h]

theorem act_effect (h : s.call thread = .pending op) :
    act apply s (.effect thread) =
      some ({ s.set thread (.done (apply s.obj op).2) with obj := (apply s.obj op).1 }, []) := by
  simp [act, h]

theorem act_ret (h : s.call thread = .done r) :
    act apply s (.ret thread) = some (s.set thread .idle, [.returned thread r]) := by
  simp [act, h]

end AtomicObject

/-! ## Objects with a choice of results -/

namespace RelationalObject

open Transition AtomicObject

variable {σ Op Res : Type}

inductive Action (σ Op Res : Type)
  | call (thread : Nat) (op : Op)
  | effect (thread : Nat) (r : Res) (x : σ)
  | ret (thread : Nat)

open Classical in
/-- `allows thread op x r y`: called by the thread in the state `x`, the operation may have the
result `r` and leave the state `y`. -/
noncomputable def act (allows : Nat → Op → σ → Res → σ → Prop) (s : AtomicObject.State σ Op Res) :
    Action σ Op Res → Option (AtomicObject.State σ Op Res × List (Observed Op Res))
  | .call thread op =>
    match s.call thread with
    | .idle => some (s.set thread (.pending op), [.called thread op])
    | _ => none
  | .effect thread r x =>
    match s.call thread with
    | .pending op =>
      if allows thread op s.obj r x then some ({ s.set thread (.done r) with obj := x }, []) else none
    | _ => none
  | .ret thread =>
    match s.call thread with
    | .done r => some (s.set thread .idle, [.returned thread r])
    | _ => none

variable {allows : Nat → Op → σ → Res → σ → Prop} {s : AtomicObject.State σ Op Res} {thread : Nat}
  {op : Op} {r : Res} {x : σ}

theorem act_call (h : s.call thread = .idle) :
    act allows s (.call thread op) = some (s.set thread (.pending op), [.called thread op]) := by
  simp [act, h]

theorem act_effect (h : s.call thread = .pending op) (hx : allows thread op s.obj r x) :
    act allows s (.effect thread r x) = some ({ s.set thread (.done r) with obj := x }, []) := by
  simp [act, h, hx]

theorem act_ret (h : s.call thread = .done r) :
    act allows s (.ret thread) = some (s.set thread .idle, [.returned thread r]) := by
  simp [act, h]

/-- An operation that takes effect and returns at once. -/
theorem trace_return (h : s.call thread = .pending op) (hx : allows thread op s.obj r x) :
    trace (act allows) s [.effect thread r x, .ret thread] =
      some ({ s.set thread .idle with obj := x }, [.returned thread r]) := by
  have hdone : AtomicObject.State.call { s.set thread (.done r) with obj := x } thread = .done r := by
    simp [State.set]
  refine trace_cons.mpr ⟨_, _, _, act_effect h hx, ?_, rfl⟩
  rw [trace_singleton (act_ret hdone)]
  simp [State.set]

end RelationalObject
