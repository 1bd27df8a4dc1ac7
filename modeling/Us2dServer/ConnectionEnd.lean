import Us2dServer.Registry
import Us2dServer.ServerPool

/-!
# The end of a connection

A started connection has one outstanding read, until it reports its end.  All ways of ending
report once; afterwards the connection starts no read and enqueues nothing, and the block of
its unfinished packet goes back to the pool.

    Reachable (step cfg) (init mem) s, between the handlers of a started connection:
      outstanding reads + reports = 1, and is_running ↔ a read is outstanding
                                                        (connection_ends_once)
-/

namespace Us2d

namespace Server

variable {cfg : Config} {s s' : Server} {k : Nat} {x : Session}

/-- Only the handler of a payload read enqueues, and only a request of its own connection. -/
theorem SessionEffect.enqueued_eq {a : SessionAction} (h : SessionEffect s k x a s') :
    s'.enqueued = s.enqueued ∨ x.conn.read ≠ none ∧ ∃ item, item.source = k ∧
      s'.enqueued = s.enqueued ++ [item] := by
  cases h with
  | enqueued w owner n hread hpc item hitem =>
    exact Or.inr ⟨by simp [hread], item, by rw [hitem], rfl⟩
  | _ => exact Or.inl rfl

theorem MainEffect.enqueued_eq {a : MainAction} (h : MainEffect cfg s a s') : s'.enqueued = s.enqueued := by
  cases h <;> rfl

/-- A step of any connection leaves the requests of an ended one alone, and its end. -/
theorem SessionEffect.silent {j : Nat} {a : SessionAction} (hc : s.Control) (hc' : s'.Control)
    (hk : k < s.created) (hj : j < s.created) (hrep : (s.sessions k).reports = 1)
    (h : SessionEffect s j (s.sessions j) a s') :
    (s'.sessions k).reports = 1 ∧ (s'.sessions k).conn.outstanding = 0 ∧
      s'.enqueued.filter (·.source = k) = s.enqueued.filter (·.source = k) := by
  have hend := (hc.session k hk).ended (by omega)
  by_cases hjk : j = k
  · subst hjk
    have hpos : 0 < (s'.sessions j).reports := by
      rcases h.registry with ⟨-, hr, -⟩ | ⟨-, -, -, hr, -⟩ | ⟨-, -, hr, -⟩ <;> omega
    have hend' := (hc'.session j (h.created.symm ▸ hj)).ended hpos
    refine ⟨hend'.2.1, hend'.2.2.1, ?_⟩
    rcases h.enqueued_eq with heq | ⟨hread, -⟩
    · rw [heq]
    · exact absurd hend.2.2.2.2 hread
  · rw [h.other (Ne.symm hjk)]
    refine ⟨hrep, hend.2.2.1, ?_⟩
    rcases h.enqueued_eq with heq | ⟨-, item, hsource, heq⟩
    · rw [heq]
    · rw [heq, List.filter_append]
      simp [hsource, hjk]

/-- Every step does. -/
theorem Effect.silent {a : Action} (hc : s.Control) (hc' : s'.Control) (hk : k < s.created)
    (hrep : (s.sessions k).reports = 1) (h : Effect cfg s a s') :
    (s'.sessions k).reports = 1 ∧ (s'.sessions k).conn.outstanding = 0 ∧
      s'.enqueued.filter (·.source = k) = s.enqueued.filter (·.source = k) := by
  have hend := (hc.session k hk).ended (by omega)
  cases h with
  | accept w error s' hready hout h =>
    cases h with
    | created hrun =>
      have hne : k ≠ s.created := by omega
      simp only [setSession, Function.update_of_ne hne]
      exact ⟨hrep, hend.2.2.1, trivial⟩
    | _ => exact ⟨hrep, hend.2.2.1, rfl⟩
  | session j b s' hj ha h => exact h.silent hc hc' hk hj hrep
  | header j w s' hj h =>
    have := h.silent (k := k) hc.getInstance hc' (by simpa using hk) hj (by simpa using hrep)
    rwa [getInstance_enqueued] at this
  | main b s' h =>
    rw [h.sessions, h.enqueued_eq]
    exact ⟨hrep, hend.2.2.1, rfl⟩

/-- The actions that end a connection report its end, for the first time. -/
theorem SessionEffect.ends {b : SessionAction} (hc : x.Control) (hend : x.EndsBy b)
    (h : SessionEffect s k x b s') : x.reports = 0 ∧ (s'.sessions k).reports = 1 := by
  have hends : (s'.sessions k).reports = x.reports + 1 ∧ x.reports = 0 := by
    cases h with
    | failed w e op hread hpc hgot =>
      exact ⟨by simp [report, setSession], (hc.reading hread).2.2.2⟩
    | refused w hread hpc hclass =>
      exact ⟨by simp [report, setSession], (hc.reading hread).2.2.2⟩
    | notGrown w size hpc =>
      exact ⟨by simp [report, setSession], (hc.ofBetween hpc (by simp [Session.between, hpc])).2.2.2⟩
    | popped w t owner p hread hpc hclass hpop => rw [hend] at hclass; cases hclass
    | emptyStack w t hread hpc hclass => rw [hend] at hclass; cases hclass
    | _ => exact absurd hend (by simp [Session.EndsBy])
  omega

/-- **A connection ends exactly once and is silent afterwards.** -/
theorem connection_ends_once (cfg : Config) (mem : Memory) (s : Server)
    (h : Transition.Reachable (step cfg) (init mem) s) (k : Nat) (hk : k < s.created)
    (hs : (s.sessions k).Started) :
    ((s.sessions k).handler = none →
      (s.sessions k).conn.outstanding + (s.sessions k).reports = 1 ∧
        ((s.sessions k).conn.isRunning = true ↔ (s.sessions k).conn.outstanding = 1)) ∧
    (∀ op, (s.sessions k).conn.read = some op → (s.sessions k).conn.isRunning = true) ∧
    (∀ b s', step cfg s (.session k b) = some s' → (s.sessions k).EndsBy b →
      (s.sessions k).reports = 0 ∧ (s'.sessions k).reports = 1) ∧
    ((s.sessions k).reports = 1 → ∀ a s', step cfg s a = some s' →
      (s'.sessions k).reports = 1 ∧ (s'.sessions k).conn.outstanding = 0 ∧
        s'.enqueued.filter (·.source = k) = s.enqueued.filter (·.source = k)) ∧
    ((s.sessions k).reports = 1 → (s.sessions k).handler = none → (s.sessions k).owners = 0) ∧
    (∀ w owner pushed s', (s.sessions k).reports = 1 →
      (s.sessions k).handler = some (.leaving w owner) →
      step cfg s (.session k (.leave pushed)) = some s' →
      ∃ t, s.pool.heap[owner.ptr]? = some t ∧
        Custody.At s'.pool.held owner.ptr (if pushed then .stack t else .deleted)) := by
  have hc := control_of_reachable h
  have hi := owned_of_reachable h
  have hx := hc.session k hk
  have hone := hx.one hs
  refine ⟨fun hpc => ?_, fun op hop => (hx.reading hop).1, fun b s' hstep hend => ?_,
    fun hrep a s' hstep => ?_, fun hrep hpc => ?_, fun w owner pushed s' hrep hpc hstep => ?_⟩
  · have hrun := hx.running hs
    simp only [Session.between, hpc] at hone
    exact ⟨by omega, hrun.trans (by omega)⟩
  · cases step_effect hc hstep with
    | session k b s' hk ha heff => exact heff.ends hx hend
    | header k w s' hk heff =>
      have := heff.ends (by simpa using hx) (by simpa using hend)
      simpa using this
  · have heff := step_effect hc hstep
    exact heff.silent hc (hc.step heff) hk hrep
  · have hread := (hx.ended (by omega)).2.2.2.2
    simp [Session.owners, hread, hpc]
  · have hunf : (s.sessions k).Unfinished owner := Or.inr ⟨w, hpc, hrep⟩
    have hmem : owner ∈ s.refs := by
      rw [refs_eq hk]
      exact Multiset.mem_add.mpr (Or.inl hunf.mem)
    have hcount : s.pool.useCount owner.ctrl = 1 := by
      rw [hi.refs.useCount]
      exact hi.sole k owner hk hunf
    have hpool : s'.pool = s.pool.drop owner pushed := by
      simp only [step, sessionStep, leaveHandler, hpc] at hstep
      rw [← Option.some.inj hstep]
    rw [hpool]
    exact hi.refs.drop_last hi.pool hmem hcount pushed

/-- A payload read fails: the connection ends, and the block goes back to its stack. -/
theorem connection_ends_in_payload : ∃ s s', Transition.run (step twoWorkers) (init fun _ _ => 0)
    [.accept 0 none, .session 0 .start, .session 0 .insert, .session 0 .rearm,
      .session 0 (.receive (List.replicate 14 0 ++ [1, 0, 0, 0, 0, 0])), .session 0 (.header 0 none),
      .session 0 (.payload 1 (some (.other 2)))] = some s ∧
    step twoWorkers s (.session 0 (.leave true)) = some s' ∧
    Custody.At s'.pool.held 127 (.stack .block64) := by
  have hrun : (Transition.run (step twoWorkers) (init fun _ _ => 0)
      [.accept 0 none, .session 0 .start, .session 0 .insert, .session 0 .rearm,
        .session 0 (.receive (List.replicate 14 0 ++ [1, 0, 0, 0, 0, 0])), .session 0 (.header 0 none),
        .session 0 (.payload 1 (some (.other 2)))]).map
        (fun s => (s.created, (s.sessions 0).accept, (s.sessions 0).reports, (s.sessions 0).handler,
          s.pool.heap[127]?)) =
      some (1, .returned, 1, some (.leaving 1 ⟨127, 0⟩), some .block64) := by decide +kernel
  obtain ⟨s, hs, hfin⟩ := Option.map_eq_some_iff.mp hrun
  simp only [Prod.mk.injEq] at hfin
  obtain ⟨hcreated, hret, hrep, hpc, hheap⟩ := hfin
  have hstep : ∃ s', step twoWorkers s (.session 0 (.leave true)) = some s' := by
    simp [step, sessionStep, leaveHandler, hpc]
  obtain ⟨s', hs'⟩ := hstep
  obtain ⟨t, ht, hat⟩ := (connection_ends_once twoWorkers _ s ⟨_, hs⟩ 0 (by omega)
    (fun w hw => by rw [hret] at hw; cases hw)).2.2.2.2.2 1 ⟨127, 0⟩ true s' hrep hpc hs'
  obtain rfl : BlockType.block64 = t := Option.some.inj (hheap.symm.trans ht)
  exact ⟨s, s', hs, hs', hat⟩

end Server

end Us2d
