import Us2dServer.ServerEffects

/-!
# The chain of accepts

While the server runs there is one outstanding accept, or one accept handler in progress that
will start the next.  An accept that completes with an error other than `operation_aborted` and
`connection_aborted` ends the chain, and nothing starts it again.

    run without stop(), no accept handler in progress:
      one accept is outstanding  ↔  no accept has so failed       (accepting_iff_no_accept_error)
-/

namespace Us2d

namespace Server

/-- An accept completes with an error that `on_accept_error` gets. -/
def AcceptError (a : Action) : Prop := ∃ w v, a = .accept w (some (.other v))

/-- The chain goes on: an accept is outstanding, or the handler of the last one is in progress. -/
structure Accepting (s : Server) : Prop where
  isRunning : s.tcp.isRunning = true
  outstanding : s.tcp.accepts = 1 ∧ (∀ k, (s.sessions k).accept = .returned) ∨
    s.tcp.accepts = 0 ∧ 0 < s.created ∧ (s.sessions (s.created - 1)).accept ≠ .returned ∧
      ∀ k, k + 1 ≠ s.created → (s.sessions k).accept = .returned

/-- The chain has ended. -/
structure Deaf (s : Server) : Prop where
  isRunning : s.tcp.isRunning = true
  outstanding : s.tcp.accepts = 0
  returned : ∀ k, (s.sessions k).accept = .returned

variable {cfg : Config} {s s' : Server} {k : Nat} {x : Session} {a : Action}

/-- A read handler does not touch the accept chain; a part of the accept handler needs one in
progress. -/
theorem SessionEffect.acceptChain {b : SessionAction} (h : SessionEffect s k x b s') :
    (s'.tcp.accepts = s.tcp.accepts ∧ (s'.sessions k).accept = x.accept) ∨
    (s'.tcp.accepts = s.tcp.accepts ∧ x.accept ≠ .returned ∧ (s'.sessions k).accept ≠ .returned) ∨
    (s'.tcp.accepts = s.tcp.accepts + 1 ∧ x.accept ≠ .returned ∧ (s'.sessions k).accept = .returned) := by
  cases h with
  | started w hpc => exact Or.inr (Or.inl ⟨rfl, by simp [hpc], by simp [setSession]⟩)
  | inserted w hpc => exact Or.inr (Or.inl ⟨rfl, by simp [hpc], by simp [setSession]⟩)
  | rearmed w hpc => exact Or.inr (Or.inr ⟨rfl, by simp [hpc], by simp [setSession]⟩)
  | _ => exact Or.inl ⟨rfl, by simp [report, rented, setSession]⟩

/-- A step of connection `k` keeps the chain going. -/
theorem Accepting.session {b : SessionAction} (hi : s.Accepting) (hk : k < s.created)
    (h : SessionEffect s k (s.sessions k) b s') : s'.Accepting := by
  have hother : ∀ j, j ≠ k → (s'.sessions j).accept = (s.sessions j).accept :=
    fun j hj => by rw [h.other hj]
  refine ⟨h.isRunning.trans hi.isRunning, ?_⟩
  rw [h.created]
  rcases h.acceptChain with ⟨hacc, hsame⟩ | ⟨hacc, hold, hnew⟩ | ⟨hacc, hold, hnew⟩
  · have hall : ∀ j, (s'.sessions j).accept = (s.sessions j).accept := by
      intro j
      by_cases hj : j = k
      · exact hj ▸ hsame
      · exact hother j hj
    simpa only [hacc, hall] using hi.outstanding
  · rcases hi.outstanding with ⟨-, hret⟩ | ⟨h0, hpos, -, hret⟩
    · exact absurd (hret k) hold
    · obtain rfl : k = s.created - 1 := by
        apply Classical.byContradiction
        intro hne
        exact hold (hret k (by omega))
      exact Or.inr ⟨hacc.trans h0, hpos, hnew, fun j hj => (hother j (by omega)).trans (hret j hj)⟩
  · rcases hi.outstanding with ⟨-, hret⟩ | ⟨h0, hpos, -, hret⟩
    · exact absurd (hret k) hold
    · refine Or.inl ⟨by omega, fun j => ?_⟩
      by_cases hj : j = k
      · exact hj ▸ hnew
      · rw [hother j hj]
        refine hret j (fun hj' => hold (hret k (by omega)))

/-- Every step but a failing accept and `stop()` keeps the chain going. -/
theorem Accepting.step (hi : s.Accepting) (hstop : a ≠ .main .stop)
    (herr : ¬ AcceptError a) (h : Effect cfg s a s') : s'.Accepting := by
  cases h with
  | accept w error s' hready hout h =>
    have hidle : s.tcp.accepts = 1 ∧ ∀ k, (s.sessions k).accept = .returned := by
      rcases hi.outstanding with h1 | ⟨h0, -⟩
      · exact h1
      · omega
    cases h with
    | aborted e he => exact ⟨hi.isRunning, Or.inl ⟨by simp only; omega, hidle.2⟩⟩
    | failed v => exact absurd ⟨w, v, rfl⟩ herr
    | notRunning hrun => rw [hi.isRunning] at hrun; cases hrun
    | created hrun =>
      refine ⟨hi.isRunning, Or.inr ⟨by simp only; omega, Nat.succ_pos _, ?_, fun j hj => ?_⟩⟩
      · simp [setSession, Session.new]
      · simp only [setSession] at hj ⊢
        rw [Function.update_of_ne (by omega)]
        exact hidle.2 j
  | session k b s' hk ha h => exact hi.session hk h
  | header k w s' hk h =>
    have hi' : (s.getInstance cfg).Accepting :=
      ⟨by simpa using hi.isRunning, by simpa using hi.outstanding⟩
    exact hi'.session hk h
  | main b s' h =>
    refine ⟨?_, by rw [h.accepts, h.sessions, h.created]; exact hi.outstanding⟩
    cases h with
    | stopped hpc hs => exact absurd rfl hstop
    | _ => exact hi.isRunning

/-- A failing accept ends the chain. -/
theorem Accepting.acceptError (hi : s.Accepting) (herr : AcceptError a) (h : Effect cfg s a s') :
    s'.Deaf := by
  obtain ⟨w, v, rfl⟩ := herr
  cases h with
  | accept w error s' hready hout h =>
    cases h with
    | aborted e he => exact absurd rfl (he v)
    | failed v =>
      rcases hi.outstanding with ⟨h1, hret⟩ | ⟨h0, -⟩
      · exact ⟨hi.isRunning, by simp only; omega, hret⟩
      · omega

/-- A read handler does not start it again. -/
theorem Deaf.session {b : SessionAction} (hi : s.Deaf) (h : SessionEffect s k (s.sessions k) b s') :
    s'.Deaf := by
  rcases h.acceptChain with ⟨hacc, hsame⟩ | ⟨-, hold, -⟩ | ⟨-, hold, -⟩
  · refine ⟨h.isRunning.trans hi.isRunning, hacc.trans hi.outstanding, fun j => ?_⟩
    by_cases hj : j = k
    · rw [hj, hsame]; exact hi.returned k
    · rw [h.other hj]; exact hi.returned j
  · exact absurd (hi.returned k) hold
  · exact absurd (hi.returned k) hold

/-- Nor does any other step. -/
theorem Deaf.step (hi : s.Deaf) (hstop : a ≠ .main .stop) (h : Effect cfg s a s') : s'.Deaf := by
  cases h with
  | accept w error s' hready hout h =>
    rw [hi.outstanding] at hout
    omega
  | session k b s' hk ha h => exact hi.session h
  | header k w s' hk h =>
    have hi' : (s.getInstance cfg).Deaf :=
      ⟨by simpa using hi.isRunning, by simpa using hi.outstanding, by simpa using hi.returned⟩
    exact hi'.session h
  | main b s' h =>
    refine ⟨?_, h.accepts.trans hi.outstanding, by rw [h.sessions]; exact hi.returned⟩
    cases h with
    | stopped hpc hs => exact absurd rfl hstop
    | _ => exact hi.isRunning

/-! ## Whole runs -/

theorem accepting_init (mem : Memory) : (init mem).Accepting :=
  ⟨rfl, Or.inl ⟨rfl, fun _ => rfl⟩⟩

theorem Deaf.run {as : List Action} (hi : s.Deaf) (hc : s.Control) (hstop : .main .stop ∉ as)
    (h : Transition.run (Server.step cfg) s as = some s') : s'.Deaf := by
  induction as generalizing s with
  | nil => exact Option.some.inj h ▸ hi
  | cons a as ih =>
    obtain ⟨s1, h1, h2⟩ := Transition.run_cons.mp h
    have heff := step_effect hc h1
    simp only [List.mem_cons, not_or] at hstop
    exact ih (hi.step (Ne.symm hstop.1) heff) (hc.step heff) hstop.2 h2

/-- A run without `stop()` keeps the chain going until an accept fails. -/
theorem Accepting.run {as : List Action} (hi : s.Accepting) (hc : s.Control)
    (hstop : .main .stop ∉ as) (h : Transition.run (Server.step cfg) s as = some s') :
    (∀ a ∈ as, ¬ AcceptError a) ∧ s'.Accepting ∨ (∃ a ∈ as, AcceptError a) ∧ s'.Deaf := by
  induction as generalizing s with
  | nil => exact Or.inl ⟨fun _ ha => absurd ha List.not_mem_nil, Option.some.inj h ▸ hi⟩
  | cons a as ih =>
    obtain ⟨s1, h1, h2⟩ := Transition.run_cons.mp h
    have heff := step_effect hc h1
    simp only [List.mem_cons, not_or] at hstop
    by_cases herr : AcceptError a
    · exact Or.inr ⟨⟨a, List.mem_cons_self, herr⟩,
        (hi.acceptError herr heff).run (hc.step heff) hstop.2 h2⟩
    · have hnext := hi.step (Ne.symm hstop.1) herr heff
      rcases ih hnext (hc.step heff) hstop.2 h2 with ⟨hno, hs'⟩ | ⟨⟨b, hb, hb'⟩, hs'⟩
      · refine Or.inl ⟨fun b hb => ?_, hs'⟩
        rcases List.mem_cons.mp hb with rfl | hb
        · exact herr
        · exact hno b hb
      · exact Or.inr ⟨⟨b, List.mem_cons_of_mem _ hb, hb'⟩, hs'⟩

/-- **The chain of accepts.**  In a run without `stop()` the server says that it runs; when no
accept handler is in progress, one accept is outstanding if and only if no accept has completed
with an error other than the two aborts, and none otherwise. -/
theorem accepting_iff_no_accept_error (cfg : Config) (mem : Memory) (as : List Action) (s : Server)
    (h : Transition.run (step cfg) (init mem) as = some s) (hstop : .main .stop ∉ as)
    (hreturned : ∀ k, (s.sessions k).accept = .returned) :
    s.tcp.isRunning = true ∧ s.tcp.accepts ≤ 1 ∧
      (s.tcp.accepts = 1 ↔ ∀ w v, Action.accept w (some (.other v)) ∉ as) := by
  rcases (accepting_init mem).run (control_init mem) hstop h with ⟨hno, hs⟩ | ⟨⟨a, ha, w, v, rfl⟩, hs⟩
  · rcases hs.outstanding with ⟨h1, -⟩ | ⟨-, -, hlast, -⟩
    · exact ⟨hs.isRunning, by omega, fun _ w v ha => hno _ ha ⟨w, v, rfl⟩, fun _ => h1⟩
    · exact absurd (hreturned _) hlast
  · have h0 := hs.outstanding
    exact ⟨hs.isRunning, by omega, fun h1 => by omega, fun hno => absurd ha (hno w v)⟩

/-- Two workers and no packet handlers. -/
def twoWorkers : Config := ⟨2, fun _ => none, fun _ => true⟩

/-- A client is accepted, the next accept is aborted by its client, and one more is accepted. -/
theorem accepting_two_clients : ∃ s, Transition.run (step twoWorkers) (init fun _ _ => 0)
    [.accept 0 none, .session 0 .start, .session 0 .insert, .session 0 .rearm,
      .accept 1 (some .connectionAborted), .accept 1 none, .session 1 .start, .session 1 .insert,
      .session 1 .rearm] = some s ∧ s.tcp.accepts = 1 := by
  have hrun : (Transition.run (step twoWorkers) (init fun _ _ => 0)
      [.accept 0 none, .session 0 .start, .session 0 .insert, .session 0 .rearm,
        .accept 1 (some .connectionAborted), .accept 1 none, .session 1 .start, .session 1 .insert,
        .session 1 .rearm]).map (fun s => (s.created, (s.sessions 0).accept, (s.sessions 1).accept)) =
      some (2, .returned, .returned) := by decide +kernel
  obtain ⟨s, hs, hfin⟩ := Option.map_eq_some_iff.mp hrun
  simp only [Prod.mk.injEq] at hfin
  have hc := control_of_reachable ⟨_, hs⟩
  have hreturned : ∀ k, (s.sessions k).accept = .returned := by
    intro k
    rcases Nat.lt_trichotomy k 1 with hk | rfl | hk
    · obtain rfl : k = 0 := by omega
      exact hfin.2.1
    · exact hfin.2.2
    · rw [hc.unused k (by omega)]
      rfl
  refine ⟨s, hs, ((accepting_iff_no_accept_error twoWorkers _ _ s hs ?_ hreturned).2.2).mpr ?_⟩
  · simp
  · simp

/-- An accept fails for want of handles: the server runs on and accepts nobody. -/
theorem accept_error_ends_chain : ¬ ∀ (cfg : Config) (mem : Memory) (as : List Action) (s : Server),
    Transition.run (step cfg) (init mem) as = some s → .main .stop ∉ as →
      (∀ k, (s.sessions k).accept = .returned) → s.tcp.accepts = 1 := by
  intro hall
  have hrun : (Transition.run (step twoWorkers) (init fun _ _ => 0)
      [.accept 0 (some (.other 24))]).map (fun s => (s.created, s.tcp.accepts)) = some (0, 0) := by
    decide +kernel
  obtain ⟨s, hs, hfin⟩ := Option.map_eq_some_iff.mp hrun
  simp only [Prod.mk.injEq] at hfin
  have hc := control_of_reachable ⟨_, hs⟩
  have h1 := hall twoWorkers _ _ s hs (by simp) fun k => by
    rw [hc.unused k (by omega)]
    rfl
  omega

end Server

end Us2d
