import Us2dServer.Lib.Linearization

/-!
# An object under a readers-writer lock

An operation takes the lock, shared if it only reads and exclusive if it writes, runs its body on
the object, and releases the lock.  The body is a program of several steps, which may leave the
object in a state that no operation leaves behind, and may be undefined where another thread
interferes.

    a writer is in its body alone                                           (Inv.alone)
    what is observed of the operations is observed of the atomic object     (trace_atomic)
    some thread that is in an operation can step, if there is one           (exists_enabled)
-/

namespace SharedLock

open Transition AtomicObject

variable {σ Op L Res : Type}

/-- The bodies of the operations: the local state at the start, and one step, which goes on or
has the result; `none` is undefined behaviour. -/
structure Body (σ Op L Res : Type) where
  writes : Op → Bool
  start : Op → L
  micro : L → σ → Option (σ × (L ⊕ Res))

/-- How far a thread is in its operation. -/
inductive Phase (Op L Res : Type)
  | idle
  | waiting (op : Op)
  | inside (op : Op) (l : L)
  | leaving (op : Op) (r : Res)
deriving DecidableEq, Repr

/-- The operation for which the thread holds the lock. -/
def Phase.held : Phase Op L Res → Option Op
  | .inside op _ => some op
  | .leaving op _ => some op
  | _ => none

structure State (σ Op L Res : Type) where
  obj : σ
  writer : Option Nat
  readers : List Nat
  phase : Nat → Phase Op L Res

inductive Action (Op : Type)
  | call (thread : Nat) (op : Op)
  | lock (thread : Nat)
  | work (thread : Nat)
  | unlock (thread : Nat)
deriving DecidableEq, Repr

def State.goto (s : State σ Op L Res) (thread : Nat) (p : Phase Op L Res) : State σ Op L Res :=
  { s with phase := Function.update s.phase thread p }

def act (B : Body σ Op L Res) (s : State σ Op L Res) :
    Action Op → Option (State σ Op L Res × List (Observed Op Res))
  | .call thread op =>
    match s.phase thread with
    | .idle => some (s.goto thread (.waiting op), [.called thread op])
    | _ => none
  | .lock thread =>
    match s.phase thread with
    | .waiting op =>
      if s.writer = none then
        if B.writes op then
          if s.readers = [] then
            some ({ s.goto thread (.inside op (B.start op)) with writer := some thread }, [])
          else none
        else
          some ({ s.goto thread (.inside op (B.start op)) with
                  readers := thread :: s.readers }, [])
      else none
    | _ => none
  | .work thread =>
    match s.phase thread with
    | .inside op l =>
      match B.micro l s.obj with
      | some (x, .inl l') => some ({ s.goto thread (.inside op l') with obj := x }, [])
      | some (x, .inr r) => some ({ s.goto thread (.leaving op r) with obj := x }, [])
      | none => none
    | _ => none
  | .unlock thread =>
    match s.phase thread with
    | .leaving op r =>
      if B.writes op then
        some ({ s.goto thread .idle with writer := none }, [.returned thread r])
      else
        some ({ s.goto thread .idle with readers := s.readers.erase thread }, [.returned thread r])
    | _ => none

/-- The lock is free and no thread is in an operation. -/
def init (obj : σ) : State σ Op L Res := ⟨obj, none, [], fun _ => .idle⟩

/-- Alone with the object since it was `x`, the body of `op` comes to the local state and the
object given. -/
inductive After (B : Body σ Op L Res) (op : Op) (x : σ) : L → σ → Prop
  | start : After B op x (B.start op) x
  | step {l l' : L} {y z : σ} (h : After B op x l y) (hm : B.micro l y = some (z, .inl l')) :
      After B op x l' z

/-- Alone with the object, the bodies are defined and do what the operations of the sequential
object do; those that take the shared lock leave the object unchanged throughout. -/
structure Implements (B : Body σ Op L Res) (apply : σ → Op → σ × Res) : Prop where
  defined : ∀ {op x l y}, After B op x l y → ∃ z k, B.micro l y = some (z, k)
  result : ∀ {op x l y z r}, After B op x l y → B.micro l y = some (z, .inr r) →
    apply x op = (z, r)
  reads : ∀ {op x l y z k}, B.writes op = false → After B op x l y → B.micro l y = some (z, k) →
    z = y

/-! ## The lock -/

variable {B : Body σ Op L Res} {apply : σ → Op → σ × Res} {s s' : State σ Op L Res} {t u : Nat}
  {op op' : Op} {p : Phase Op L Res} {o : List (Observed Op Res)} {a : Action Op}

@[simp] theorem goto_obj (s : State σ Op L Res) (t : Nat) (p : Phase Op L Res) :
    (s.goto t p).obj = s.obj := rfl

@[simp] theorem goto_writer (s : State σ Op L Res) (t : Nat) (p : Phase Op L Res) :
    (s.goto t p).writer = s.writer := rfl

@[simp] theorem goto_readers (s : State σ Op L Res) (t : Nat) (p : Phase Op L Res) :
    (s.goto t p).readers = s.readers := rfl

@[simp] theorem goto_phase (s : State σ Op L Res) (t : Nat) (p : Phase Op L Res) (u : Nat) :
    (s.goto t p).phase u = if u = t then p else s.phase u := by
  simp [State.goto, Function.update_apply]

/-- **What a step can do**, by the phase it starts from. -/
inductive Step (B : Body σ Op L Res) (s : State σ Op L Res) (t : Nat) :
    State σ Op L Res → List (Observed Op Res) → Prop
  | call {op : Op} (hp : s.phase t = .idle) : Step B s t (s.goto t (.waiting op)) [.called t op]
  | lockExclusive {op : Op} (hp : s.phase t = .waiting op) (hw : B.writes op = true)
      (hfree : s.writer = none) (hnone : s.readers = []) :
      Step B s t { s.goto t (.inside op (B.start op)) with writer := some t } []
  | lockShared {op : Op} (hp : s.phase t = .waiting op) (hw : B.writes op = false)
      (hfree : s.writer = none) :
      Step B s t { s.goto t (.inside op (B.start op)) with readers := t :: s.readers } []
  | goOn {op : Op} {l l' : L} {x : σ} (hp : s.phase t = .inside op l) (hm : B.micro l s.obj = some (x, .inl l')) :
      Step B s t { s.goto t (.inside op l') with obj := x } []
  | finish {op : Op} {l : L} {r : Res} {x : σ} (hp : s.phase t = .inside op l) (hm : B.micro l s.obj = some (x, .inr r)) :
      Step B s t { s.goto t (.leaving op r) with obj := x } []
  | unlockExclusive {op : Op} {r : Res} (hp : s.phase t = .leaving op r) (hw : B.writes op = true) :
      Step B s t { s.goto t .idle with writer := none } [.returned t r]
  | unlockShared {op : Op} {r : Res} (hp : s.phase t = .leaving op r) (hw : B.writes op = false) :
      Step B s t { s.goto t .idle with readers := s.readers.erase t } [.returned t r]

theorem step_cases (h : act B s a = some (s', o)) : ∃ t, Step B s t s' o := by
  cases a with
  | call t op =>
    simp only [act] at h
    split at h
    · next hp =>
      cases h
      exact ⟨t, .call hp⟩
    · cases h
  | lock t =>
    simp only [act] at h
    split at h
    · next op hp =>
      split at h
      · next hfree =>
        split at h
        · next hw =>
          split at h
          · next hnone =>
            cases h
            exact ⟨t, .lockExclusive hp hw hfree hnone⟩
          · cases h
        · next hw =>
          cases h
          exact ⟨t, .lockShared hp (by simpa using hw) hfree⟩
      · cases h
    · cases h
  | work t =>
    simp only [act] at h
    split at h
    · next op l hp =>
      split at h
      · next x l' hm =>
        cases h
        exact ⟨t, .goOn hp hm⟩
      · next x r hm =>
        cases h
        exact ⟨t, .finish hp hm⟩
      · cases h
    · cases h
  | unlock t =>
    simp only [act] at h
    split at h
    · next op r hp =>
      split at h
      · next hw =>
        cases h
        exact ⟨t, .unlockExclusive hp hw⟩
      · next hw =>
        cases h
        exact ⟨t, .unlockShared hp (by simpa using hw)⟩
    · cases h

/-- The lock says who holds it. -/
structure Inv (writes : Op → Bool) (s : State σ Op L Res) : Prop where
  writer : ∀ t, s.writer = some t ↔ ∃ op, (s.phase t).held = some op ∧ writes op = true
  readers : ∀ t, t ∈ s.readers ↔ ∃ op, (s.phase t).held = some op ∧ writes op = false
  nodup : s.readers.Nodup
  exclusive : s.writer ≠ none → s.readers = []

theorem inv_init (writes : Op → Bool) (obj : σ) : Inv writes (init obj : State σ Op L Res) where
  writer := fun t => by simp [init, Phase.held]
  readers := fun t => by simp [init, Phase.held]
  nodup := List.nodup_nil
  exclusive := fun h => absurd rfl h

/-- A writer holds the lock alone. -/
theorem Inv.alone {writes : Op → Bool} (hi : Inv writes s) (ht : (s.phase t).held = some op)
    (hw : writes op = true) (hu : (s.phase u).held = some op') : u = t := by
  have hwriter := (hi.writer t).mpr ⟨op, ht, hw⟩
  cases hw' : writes op' with
  | true =>
    have hu' := (hi.writer u).mpr ⟨op', hu, hw'⟩
    rw [hwriter] at hu'
    exact (Option.some.inj hu').symm
  | false =>
    have hmem := (hi.readers u).mpr ⟨op', hu, hw'⟩
    rw [hi.exclusive (by simp [hwriter])] at hmem
    cases hmem

theorem Inv.free {writes : Op → Bool} (hi : Inv writes s) (hfree : s.writer = none)
    (hu : (s.phase u).held = some op) : writes op = false := by
  cases hw : writes op with
  | false => rfl
  | true =>
    have h := (hi.writer u).mpr ⟨op, hu, hw⟩
    rw [hfree] at h
    cases h

/-- Steps of `t` in which it neither takes nor releases the lock. -/
theorem Inv.goto {writes : Op → Bool} (hi : Inv writes s) (hp : p.held = (s.phase t).held) (x : σ) :
    Inv writes { s.goto t p with obj := x } := by
  have hheld : ∀ u, ((s.goto t p).phase u).held = (s.phase u).held := by
    intro u
    by_cases hu : u = t
    · subst hu
      simpa using hp
    · simp [hu]
  refine ⟨fun u => ?_, fun u => ?_, hi.nodup, hi.exclusive⟩
  · show s.writer = some u ↔ ∃ op, ((s.goto t p).phase u).held = some op ∧ writes op = true
    rw [hheld]
    exact hi.writer u
  · show u ∈ s.readers ↔ ∃ op, ((s.goto t p).phase u).held = some op ∧ writes op = false
    rw [hheld]
    exact hi.readers u

/-- Steps of `t` in which it takes or releases the lock: what the lock says of the others is
unchanged, and it says the truth of `t`. -/
theorem Inv.change {writes : Op → Bool} (hi : Inv writes s) {w : Option Nat} {rs : List Nat}
    (hwriter : ∀ v, v ≠ t → (w = some v ↔ s.writer = some v))
    (hreaders : ∀ v, v ≠ t → (v ∈ rs ↔ v ∈ s.readers))
    (hself : w = some t ↔ ∃ op, p.held = some op ∧ writes op = true)
    (hself' : t ∈ rs ↔ ∃ op, p.held = some op ∧ writes op = false)
    (hnd : rs.Nodup) (hex : w ≠ none → rs = []) :
    Inv writes { s.goto t p with writer := w, readers := rs } := by
  refine ⟨fun v => ?_, fun v => ?_, hnd, hex⟩
  · by_cases hv : v = t
    · subst hv
      simpa using hself
    · rw [show ((({ s.goto t p with writer := w, readers := rs } : State σ Op L Res)).phase v)
        = s.phase v by simp [hv], ← hi.writer v]
      exact hwriter v hv
  · by_cases hv : v = t
    · subst hv
      simpa using hself'
    · rw [show ((({ s.goto t p with writer := w, readers := rs } : State σ Op L Res)).phase v)
        = s.phase v by simp [hv], ← hi.readers v]
      exact hreaders v hv

theorem Inv.step (hi : Inv B.writes s) (h : Step B s t s' o) : Inv B.writes s' := by
  cases h with
  | call hp => exact hi.goto (by rw [hp]; rfl) s.obj
  | lockExclusive hp hw hfree hnone =>
    refine hi.change (fun v hv => ?_) (fun v hv => Iff.rfl) ?_ ?_ hi.nodup fun _ => hnone
    · simp [hfree, Ne.symm hv]
    · simp [Phase.held, hw]
    · simp [hnone, Phase.held, hw]
  | lockShared hp hw hfree =>
    have hnot : t ∉ s.readers := by
      intro hmem
      obtain ⟨op', hop', -⟩ := (hi.readers t).mp hmem
      rw [hp] at hop'
      cases hop'
    refine hi.change (fun v hv => Iff.rfl) (fun v hv => ?_) ?_ ?_
      (List.nodup_cons.mpr ⟨hnot, hi.nodup⟩) fun hne => absurd hfree hne
    · simp [hv]
    · simp [hfree, Phase.held, hw]
    · simp [Phase.held, hw]
  | goOn hp hm => exact hi.goto (by rw [hp]; rfl) _
  | finish hp hm => exact hi.goto (by rw [hp]; rfl) _
  | @unlockExclusive op r hp hw =>
    have hwriter := (hi.writer t).mpr ⟨op, by rw [hp]; rfl, hw⟩
    have hnil : s.readers = [] := hi.exclusive (by simp [hwriter])
    refine hi.change (fun v hv => ?_) (fun v hv => Iff.rfl) ?_ ?_ hi.nodup fun hne => absurd rfl hne
    · simp [hwriter, Ne.symm hv]
    · simp [Phase.held]
    · simp [hnil, Phase.held]
  | @unlockShared op r hp hw =>
    have hnot : s.writer ≠ some t := by
      intro hv
      obtain ⟨op', hop', hw'⟩ := (hi.writer t).mp hv
      rw [hp] at hop'
      cases hop'
      rw [hw] at hw'
      cases hw'
    refine hi.change (fun v hv => Iff.rfl) (fun v hv => ?_) ?_ ?_ (hi.nodup.erase t) fun hne => ?_
    · simp [hi.nodup.mem_erase_iff, hv]
    · simp [hnot, Phase.held]
    · simp [hi.nodup.mem_erase_iff, Phase.held]
    · rw [hi.exclusive hne]
      rfl

/-! ## Atomicity -/

/-- How far the call is at the atomic object: the operation takes effect at the last step of
its body. -/
def Phase.call : Phase Op L Res → Call Op Res
  | .idle => .idle
  | .waiting op => .pending op
  | .inside op _ => .pending op
  | .leaving _ r => .done r

/-- The atomic object is what the object was when the writer that is in its body entered it. -/
structure Sim (B : Body σ Op L Res) (s : State σ Op L Res) (a : AtomicObject.State σ Op Res) :
    Prop where
  lock : Inv B.writes s
  obj : (∀ t op l, s.phase t = .inside op l → B.writes op = false) → a.obj = s.obj
  inside : ∀ t op l, s.phase t = .inside op l → After B op a.obj l s.obj
  call : ∀ t, a.call t = (s.phase t).call

theorem sim_init (B : Body σ Op L Res) (x : σ) : Sim B (init x) (AtomicObject.idle x) where
  lock := inv_init B.writes x
  obj := fun _ => rfl
  inside := fun t op l h => by cases h
  call := fun t => rfl

variable {x : σ} {b : AtomicObject.State σ Op Res}

/-- The part of `Sim` that is about the calls, after a step of `t`. -/
theorem call_goto (hcall : ∀ v, b.call v = (s.phase v).call) {c : Call Op Res} (hc : c = p.call) :
    ∀ v, (b.set t c).call v = ((s.goto t p).phase v).call := by
  intro v
  by_cases hv : v = t
  · simp [hv, hc]
  · simp [hv, hcall v]

/-- Taking the lock: the object is as it was left. -/
theorem Sim.enter (h : Sim B s b) (hp : s.phase t = .waiting op) (hfree : s.writer = none)
    {w : Option Nat} {rs : List Nat}
    (hi : Inv B.writes { s.goto t (.inside op (B.start op)) with writer := w, readers := rs }) :
    Sim B { s.goto t (.inside op (B.start op)) with writer := w, readers := rs } b := by
  have hobj : b.obj = s.obj := by
    apply h.obj
    intro v op' l hv
    exact h.lock.free hfree (u := v) (by rw [hv]; rfl)
  refine ⟨hi, fun _ => hobj, fun v op' l hv => ?_, fun v => ?_⟩
  · by_cases hvt : v = t
    · subst hvt
      simp only [goto_phase, if_pos] at hv
      cases hv
      rw [hobj]
      exact .start
    · exact h.inside v op' l (by simpa [hvt] using hv)
  · by_cases hvt : v = t
    · subst hvt
      simp [h.call, hp, Phase.call]
    · simp [hvt, h.call]

/-- Releasing the lock: the body has been run. -/
theorem Sim.exit {r : Res} (h : Sim B s b) (hp : s.phase t = .leaving op r) {w : Option Nat}
    {rs : List Nat} (hi : Inv B.writes { s.goto t .idle with writer := w, readers := rs }) :
    Sim B { s.goto t .idle with writer := w, readers := rs } (b.set t .idle) := by
  have hinside : ∀ v op' l, (s.goto t .idle).phase v = .inside op' l →
      s.phase v = .inside op' l := by
    intro v op' l hv
    by_cases hvt : v = t
    · subst hvt
      simp at hv
    · simpa [hvt] using hv
  refine ⟨hi, fun hall => h.obj fun v op' l hv => hall v op' l ?_, fun v op' l hv => ?_,
    call_goto h.call rfl⟩
  · have hvt : v ≠ t := by
      rintro rfl
      rw [hp] at hv
      cases hv
    simpa [hvt] using hv
  · exact h.inside v op' l (hinside v op' l hv)

theorem Sim.step (hB : Implements B apply) (h : Sim B s b) (hs : Step B s t s' o) :
    ∃ bs b', trace (AtomicObject.act apply) b bs = some (b', o) ∧ Sim B s' b' := by
  have hi' := h.lock.step hs
  cases hs with
  | @call op hp =>
    have hidle : b.call t = .idle := by rw [h.call, hp]; rfl
    refine ⟨[.call t op], _, trace_singleton (act_call hidle), hi', fun hall => ?_,
      fun v op' l hv => ?_, call_goto h.call rfl⟩
    · refine h.obj fun v op' l hv => hall v op' l ?_
      have hvt : v ≠ t := by
        rintro rfl
        rw [hp] at hv
        cases hv
      simpa [hvt] using hv
    · have hvt : v ≠ t := by
        rintro rfl
        simp at hv
      exact h.inside v op' l (by simpa [hvt] using hv)
  | lockExclusive hp hw hfree hnone => exact ⟨[], b, rfl, h.enter hp hfree hi'⟩
  | lockShared hp hw hfree => exact ⟨[], b, rfl, h.enter hp hfree hi'⟩
  | @goOn op l l' y hp hm =>
    have hafter := h.inside t op l hp
    refine ⟨[], b, rfl, hi', fun hall => ?_, fun v op' k hv => ?_, fun v => ?_⟩
    · -- a body that goes on under the shared lock has written nothing
      have hw : B.writes op = false := hall t op l' (by simp)
      show b.obj = y
      rw [hB.reads hw hafter hm]
      refine h.obj fun v op' k hv => ?_
      by_cases hvt : v = t
      · subst hvt
        rw [hp] at hv
        cases hv
        exact hw
      · exact hall v op' k (by simpa [hvt] using hv)
    · show After B op' b.obj k y
      by_cases hvt : v = t
      · subst hvt
        simp only [goto_phase, if_pos] at hv
        cases hv
        exact hafter.step hm
      · have hv' : s.phase v = .inside op' k := by simpa [hvt] using hv
        have hw : B.writes op = false := by
          by_contra hne
          exact hvt (h.lock.alone (by rw [hp]; rfl) (by simpa using hne)
            (show (s.phase v).held = some op' by rw [hv']; rfl))
        rw [hB.reads hw hafter hm]
        exact h.inside v op' k hv'
    · by_cases hvt : v = t
      · subst hvt
        simp [h.call, hp, Phase.call]
      · simp [hvt, h.call]
  | @finish op l r y hp hm =>
    have hafter := h.inside t op l hp
    have hpending : b.call t = .pending op := by rw [h.call, hp]; rfl
    have happly := hB.result hafter hm
    refine ⟨[.effect t], _, trace_singleton (act_effect hpending), hi', fun _ => ?_,
      fun v op' k hv => ?_, ?_⟩
    · show (apply b.obj op).1 = y
      rw [happly]
    · show After B op' (apply b.obj op).1 k y
      have hvt : v ≠ t := by
        rintro rfl
        simp at hv
      have hv' : s.phase v = .inside op' k := by simpa [hvt] using hv
      have hw : B.writes op = false := by
        by_contra hne
        exact hvt (h.lock.alone (by rw [hp]; rfl) (by simpa using hne)
          (show (s.phase v).held = some op' by rw [hv']; rfl))
      -- no writer is inside: it would be alone with `t`
      have hobj : b.obj = s.obj := by
        refine h.obj fun u op2 k2 hu => ?_
        by_contra hne
        have htu : t = u := h.lock.alone (show (s.phase u).held = some op2 by rw [hu]; rfl)
          (by simpa using hne) (show (s.phase t).held = some op by rw [hp]; rfl)
        subst htu
        rw [hp] at hu
        cases hu
        exact hne hw
      rw [happly, hB.reads hw hafter hm]
      have hin := h.inside v op' k hv'
      rwa [hobj] at hin
    · show ∀ v, (b.set t (.done (apply b.obj op).2)).call v = ((s.goto t (.leaving op r)).phase v).call
      exact call_goto h.call (by rw [happly]; rfl)
  | @unlockExclusive op r hp hw =>
    have hdone : b.call t = .done r := by rw [h.call, hp]; rfl
    exact ⟨[.ret t], _, trace_singleton (act_ret hdone), h.exit hp hi'⟩
  | @unlockShared op r hp hw =>
    have hdone : b.call t = .done r := by rw [h.call, hp]; rfl
    exact ⟨[.ret t], _, trace_singleton (act_ret hdone), h.exit hp hi'⟩

/-- **Atomicity.**  Whatever is observed of the operations in a run is observed of the atomic
object in some run of its own. -/
theorem trace_atomic (hB : Implements B apply) {as : List (Action Op)}
    {os : List (Observed Op Res)} (h : trace (act B) (init x) as = some (s, os)) :
    ∃ bs b, trace (AtomicObject.act apply) (AtomicObject.idle x) bs = some (b, os) ∧ Sim B s b := by
  refine trace_simulated (R := Sim B) (C := fun _ _ => True) ?_ h
    (along_of_actions fun _ _ _ => trivial) (sim_init B x)
  intro s b a s' o hR _ ha
  obtain ⟨t, hs⟩ := step_cases ha
  exact hR.step hB hs

/-- **No undefined behaviour.**  The next access of a thread that is inside is defined. -/
theorem work_defined (hB : Implements B apply) (h : Sim B s b) {op : Op} {l : L}
    (hp : s.phase t = .inside op l) : act B s (.work t) ≠ none := by
  obtain ⟨z, k, hm⟩ := hB.defined (h.inside t op l hp)
  cases k <;> simp [act, hp, hm]

/-- **No deadlock.** -/
theorem exists_enabled (hB : Implements B apply) (h : Sim B s b) (ht : s.phase t ≠ .idle) :
    ∃ u, s.phase u ≠ .idle ∧
      (act B s (.lock u) ≠ none ∨ act B s (.work u) ≠ none ∨ act B s (.unlock u) ≠ none) := by
  -- who holds the lock can go on
  have hholder : ∀ u op, (s.phase u).held = some op → s.phase u ≠ .idle ∧
      (act B s (.lock u) ≠ none ∨ act B s (.work u) ≠ none ∨ act B s (.unlock u) ≠ none) := by
    intro u op hu
    cases hp : s.phase u with
    | idle => rw [hp] at hu; cases hu
    | waiting _ => rw [hp] at hu; cases hu
    | inside op l => exact ⟨by simp, .inr (.inl (work_defined hB h hp))⟩
    | leaving op r =>
      refine ⟨by simp, .inr (.inr ?_)⟩
      simp only [act, hp]
      split <;> simp
  cases hp : s.phase t with
  | idle => exact absurd hp ht
  | inside op l => exact ⟨t, hholder t op (by rw [hp]; rfl)⟩
  | leaving op r => exact ⟨t, hholder t op (by rw [hp]; rfl)⟩
  | waiting op =>
    cases hwr : s.writer with
    | some u =>
      obtain ⟨op', hu, -⟩ := (h.lock.writer u).mp hwr
      exact ⟨u, hholder u op' hu⟩
    | none =>
      cases hrs : s.readers with
      | cons u rs =>
        obtain ⟨op', hu, -⟩ := (h.lock.readers u).mp (by simp [hrs])
        exact ⟨u, hholder u op' hu⟩
      | nil =>
        refine ⟨t, ht, .inl ?_⟩
        simp only [act, hp, hwr, hrs]
        cases B.writes op <;> simp

end SharedLock
