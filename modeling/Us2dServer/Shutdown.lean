import Us2dServer.RequestFlow

/-!
# Shutdown

`main` returns when its loop has ended, and the singletons are destroyed in the reverse order of
their construction.  The pool is constructed by the first header handler, so after `tcp` and
before it in the order of destruction: what `tcp` then still holds, queued requests and payload
reads, is released to a pool that is gone.

    run (init mem) as = some s, workers joined;  run s bs = some s', main has returned →
      CleanExit s' ↔ in s no payload is awaited and dispatch_request takes all queued requests,
                     and no packet handler's copy is left               (clean_exit_iff)
-/

namespace Us2d

open TsMemoryPool

/-- The process after the return of `main`. -/
structure Exit where
  pool : TsMemoryPool
  /-- `~ts_memory_pool` has run -/
  destroyed : Bool
  /-- history: the rentals outstanding at that time -/
  outstanding : List ControlBlock
  /-- history: the blocks whose deleters ran later -/
  late : List Nat

/-- A `shared_ptr` is destroyed.  When the pool is gone the deleter pushes to a stack that does
not exist any more: nothing is promised of that, and it is only recorded. -/
def Exit.release (pushed : Bool) (e : Exit) (sp : SharedPtr) : Exit :=
  if e.destroyed then
    match e.pool.ctrls[sp.ctrl]? with
    | none => e
    | some c =>
      { e with pool := e.pool.setCtrl sp.ctrl { c with useCount := c.useCount - 1 },
               late := if c.useCount = 1 then c.ptr :: e.late else e.late }
  else { e with pool := e.pool.drop sp pushed }

/-- The `packet_owner` captured by the handler of the outstanding read. -/
def Session.payloadOwner (x : Session) : Option SharedPtr := x.conn.read.bind AsyncRead.owner

/-- Between `inner.enqueue` and `sema->signal()`. -/
def Session.unsignalled (x : Session) : Nat :=
  match x.handler with
  | some (.enqueued _ _) => 1
  | _ => 0

/-- Between `tryWait` and the inner `try_dequeue`. -/
def MainPc.waited : MainPc → Nat
  | .spinning _ => 1
  | _ => 0

/-- How many more requests the call of `dispatch_request` takes at most. -/
def MainPc.budget : MainPc → Nat
  | .dequeue n | .spinning n => maxPacketDispatchThreshold - n
  | .assigning n _ | .dispatching n | .handling n _ => maxPacketDispatchThreshold - (n + 1)
  | .idle | .returning => 0

namespace Server

variable {cfg : Config} {s s' : Server} {k : Nat} {x : Session} {pushed : Bool}

/-! ## The destructors -/

/-- What `~tcp` releases, its `stop()` having nothing left to do: the requests in the queue, then
the handlers of the outstanding reads. -/
def tcpOwners (s : Server) : List SharedPtr :=
  (s.requests.inner.producers.flatMap s.requests.inner.items).map Queued.owner ++
    (List.range s.created).filterMap fun k => (s.sessions k).payloadOwner

/-- The destructor of a singleton. -/
def destroySingleton (pushed : Bool) (s : Server) (e : Exit) : Singleton → Exit
  | .tsMemoryPool =>
    { e with pool := e.pool.destroy, destroyed := true,
             outstanding := e.pool.ctrls.filter (0 < ·.useCount) }
  | .tcp => s.tcpOwners.foldl (Exit.release pushed) e
  | .log | .time | .gameEngine => e

/-- The destruction of the singletons. -/
def exit (pushed : Bool) (s : Server) : Exit :=
  s.constructed.reverse.foldl (s.destroySingleton pushed) ⟨s.pool, false, [], []⟩

/-- The loop of `main` has ended. -/
def Returned (s : Server) : Prop := s.main = .idle ∧ s.stop = none ∧ s.tcp.isRunning = false

/-- When the pool is destroyed nothing is on loan, no deleter runs later, and every block ever
allocated is deleted once. -/
structure CleanExit (pushed : Bool) (s : Server) : Prop where
  outstanding : (s.exit pushed).outstanding = []
  late : (s.exit pushed).late = []
  deleted : ∀ b, b < (s.exit pushed).pool.heap.length → (s.exit pushed).pool.deleted.count b = 1

/-! ## The course of `stop()` -/

/-- What `stop()` has brought about, and the locals of `dispatch_request` between its calls. -/
structure Stopping (s : Server) : Prop where
  running : s.stop ≠ none → s.tcp.isRunning = false
  context : s.stop = some .joining → s.tcp.contextStopped = true
  returned : s.tcp.isRunning = false → s.stop = none → s.joined = true
  joined : s.joined = true → s.tcp.isRunning = false ∧ s.tcp.contextStopped = true ∧
    ∀ k, (s.sessions k).quiet = true
  idle : s.main = .idle → s.request = none
  constructed : s.constructed = [.log, .time, .tcp, .gameEngine] ∨
    s.constructed = [.log, .time, .tcp, .gameEngine, .tsMemoryPool]

theorem stopping_init (mem : Memory) : (init mem).Stopping where
  running := fun h => absurd rfl h
  context := fun h => nomatch h
  returned := fun h => nomatch h
  joined := fun h => nomatch h
  idle := fun _ => rfl
  constructed := Or.inl rfl

/-- No worker acts any more once they have been joined; bytes may still arrive. -/
theorem Stopping.step_of_joined {a : Action} (hs : s.Stopping) (hj : s.joined = true)
    (hc : s.Control) (h : step cfg s a = some s') :
    (∃ k b, k < s.created ∧ SessionEffect s k (s.sessions k) b s' ∧
      (s'.sessions k).quiet = true ∧
      (s'.sessions k).payloadOwner = (s.sessions k).payloadOwner ∧ s'.requests = s.requests) ∨
      ∃ b, MainEffect cfg s b s' := by
  obtain ⟨-, hcontext, hquiet⟩ := hs.joined hj
  have htaken : a.takenBy = none := by
    cases hw : a.takenBy with
    | none => rfl
    | some w =>
      have hready := (lt_workers_of_ready (ready_of_step h hw)).2
      rw [hcontext] at hready
      cases hready
  cases step_effect hc h with
  | accept w error => cases htaken
  | session k b s' hk ha heff =>
    have hq := hquiet k
    simp only [Session.quiet, decide_eq_true_eq] at hq
    have heff' := heff
    cases heff with
    | started w hpc => rw [hq.1] at hpc; cases hpc
    | inserted w hpc => rw [hq.1] at hpc; cases hpc
    | rearmed w hpc => rw [hq.1] at hpc; cases hpc
    | received op bs hread hfit =>
      refine Or.inl ⟨k, _, hk, heff', ?_, ?_, rfl⟩
      · simpa [setSession, Session.quiet] using hq
      · cases op <;> simp [setSession, Session.payloadOwner, Connection.receive, hread, AsyncRead.owner]
    | failed w e op hread hpc hgot => cases op <;> cases htaken
    | refused => cases htaken
    | popped => cases htaken
    | emptyStack => cases htaken
    | enqueued => cases htaken
    | grown w size t hpc => rw [hq.2] at hpc; cases hpc
    | notGrown w size hpc => rw [hq.2] at hpc; cases hpc
    | signalled w owner hpc => rw [hq.2] at hpc; cases hpc
    | left w owner pushed hpc => rw [hq.2] at hpc; cases hpc
  | header k w => cases htaken
  | main b s' heff => exact Or.inr ⟨b, heff⟩

theorem SessionEffect.stop_eq {a : SessionAction} (h : SessionEffect s k x a s') :
    s'.stop = s.stop ∧ s'.joined = s.joined ∧ s'.tcp.contextStopped = s.tcp.contextStopped := by
  cases h <;> exact ⟨rfl, rfl, rfl⟩

theorem Stopping.session_effect {a : SessionAction} (hs : s.Stopping)
    (hquiet : s.joined = true → (s'.sessions k).quiet = true)
    (h : SessionEffect s k (s.sessions k) a s') : s'.Stopping := by
  obtain ⟨hstop, hjoined, hcontext⟩ := h.stop_eq
  obtain ⟨hreq, hmain, -, -⟩ := h.others
  refine ⟨?_, ?_, ?_, fun hj => ?_, ?_, ?_⟩
  · rw [hstop, h.isRunning]; exact hs.running
  · rw [hstop, hcontext]; exact hs.context
  · rw [hstop, h.isRunning, hjoined]; exact hs.returned
  · rw [hjoined] at hj
    obtain ⟨hrun, hcon, hq⟩ := hs.joined hj
    refine ⟨h.isRunning.trans hrun, hcontext.trans hcon, fun j => ?_⟩
    by_cases hjk : j = k
    · rw [hjk]; exact hquiet hj
    · rw [h.other hjk]; exact hq j
  · rw [hmain, hreq]; exact hs.idle
  · rw [h.constructed]; exact hs.constructed

theorem quiet_all (hc : s.Control) (h : s.quiet = true) (k : Nat) : (s.sessions k).quiet = true := by
  by_cases hk : k < s.created
  · exact List.all_eq_true.mp h k (List.mem_range.mpr hk)
  · rw [hc.unused k (by omega)]
    rfl

theorem Stopping.main_effect {a : MainAction} (hs : s.Stopping) (hc : s.Control)
    (h : MainEffect cfg s a s') : s'.Stopping := by
  cases h with
  | returned pushed hpc =>
    exact ⟨hs.running, hs.context, hs.returned, hs.joined, fun _ => rfl, hs.constructed⟩
  | kept | released =>
    exact ⟨hs.running, hs.context, hs.returned, hs.joined, hs.idle, hs.constructed⟩
  | stopped hpc hstop =>
    exact ⟨fun _ => rfl, fun h => (nomatch h), fun _ h => (nomatch h),
      fun hj => ⟨rfl, (hs.joined hj).2⟩, hs.idle, hs.constructed⟩
  | contextStopped hstop =>
    have hrun := hs.running (by rw [hstop]; simp)
    exact ⟨fun _ => hrun, fun _ => rfl, fun _ h => (nomatch h),
      fun hj => ⟨hrun, rfl, (hs.joined hj).2.2⟩, hs.idle, hs.constructed⟩
  | joined hstop hquiet =>
    have hrun := hs.running (by rw [hstop]; simp)
    exact ⟨fun h => absurd rfl h, fun h => (nomatch h), fun _ _ => rfl,
      fun _ => ⟨hrun, hs.context hstop, fun k => quiet_all (s := s) hc hquiet k⟩, hs.idle, hs.constructed⟩
  | _ => exact ⟨hs.running, hs.context, hs.returned, hs.joined, fun h => (nomatch h), hs.constructed⟩

theorem Stopping.getInstance (hs : s.Stopping) : (s.getInstance cfg).Stopping := by
  unfold Server.getInstance
  split
  · exact hs
  · next hbuilt =>
    refine ⟨hs.running, hs.context, hs.returned, hs.joined, hs.idle, Or.inr ?_⟩
    rcases hs.constructed with h | h
    · simp [h]
    · simp [h] at hbuilt

theorem Stopping.step {a : Action} (hs : s.Stopping) (hc : s.Control)
    (h : Server.step cfg s a = some s') : s'.Stopping := by
  by_cases hj : s.joined = true
  · rcases hs.step_of_joined hj hc h with ⟨k, b, -, heff, hquiet, -⟩ | ⟨b, heff⟩
    · exact hs.session_effect (fun _ => hquiet) heff
    · exact hs.main_effect hc heff
  · cases step_effect hc h with
    | accept w error s' hready hout h =>
      cases h <;> exact ⟨hs.running, hs.context, hs.returned, fun h => absurd h hj, hs.idle, hs.constructed⟩
    | session k b s' hk ha h => exact hs.session_effect (fun h => absurd h hj) h
    | header k w s' hk h =>
      have hj' : ¬ (s.getInstance cfg).joined = true := by
        unfold Server.getInstance
        split <;> exact hj
      exact hs.getInstance.session_effect (fun h => absurd h hj') h
    | main b s' h => exact hs.main_effect hc h

/-! ## The semaphore -/

/-- The semaphore and the threads on their way to and from it count the waiting requests. -/
structure Balanced (s : Server) : Prop where
  card : s.requests.inner.contents.card =
    s.requests.sema + Parties.total s.created (fun k => (s.sessions k).unsignalled) + s.main.waited
  spinning : ∀ n, s.main = .spinning n → n < maxPacketDispatchThreshold

theorem SessionEffect.balanced {a : SessionAction} (h : SessionEffect s k x a s') :
    s'.requests.inner.contents.card + s.requests.sema + x.unsignalled =
      s.requests.inner.contents.card + s'.requests.sema + (s'.sessions k).unsignalled := by
  cases h with
  | started | inserted | rearmed | received => simp [setSession, Session.unsignalled]
  | failed w e op hread hpc hgot =>
    cases op <;> simp [report, setSession, Session.unsignalled, hpc, AsyncRead.owner]
  | refused w hread hpc hclass => simp [report, setSession, Session.unsignalled, hpc]
  | popped w t owner p hread hpc hclass hpop => simp [rented, setSession, Session.unsignalled, hpc]
  | emptyStack w t hread hpc hclass => simp [setSession, Session.unsignalled, hpc]
  | grown w size t hpc hclass => simp [rented, setSession, Session.unsignalled, hpc]
  | notGrown w size hpc => simp [report, setSession, Session.unsignalled, hpc]
  | enqueued w owner n hread hpc item hitem =>
    simp [setSession, Session.unsignalled, hpc, BlockingConcurrentQueue.enqueue,
      SubQueues.contents_push]
    omega
  | signalled w owner hpc =>
    simp [setSession, Session.unsignalled, hpc, BlockingConcurrentQueue.signal]
    omega
  | left w owner pushed hpc => simp [setSession, Session.unsignalled, hpc]

theorem Balanced.session_effect {a : SessionAction} (hb : s.Balanced) (hk : k < s.created)
    (h : SessionEffect s k (s.sessions k) a s') : s'.Balanced := by
  have hcard := hb.card
  have hstep := h.balanced
  have hk' : k < s'.created := h.created.symm ▸ hk
  refine ⟨?_, by rw [h.others.2.1]; exact hb.spinning⟩
  rw [Parties.total_eq hk] at hcard
  rw [Parties.total_eq hk', h.others_eq, h.others.2.1]
  omega

theorem Balanced.main_effect {a : MainAction} (hb : s.Balanced) (h : MainEffect cfg s a s') :
    s'.Balanced := by
  have hcard := hb.card
  cases h with
  | waited n hpc hn hsema =>
    refine ⟨?_, fun m hm => by cases hm; exact hn⟩
    simp only [hpc, MainPc.waited] at hcard ⊢
    omega
  | popped sizeApprox n ptr item q hpc hpop =>
    refine ⟨?_, fun m hm => (nomatch hm)⟩
    rw [SubQueues.contents_removeHead hpop, Multiset.card_cons] at hcard
    simp only [hpc, MainPc.waited] at hcard ⊢
    omega
  | frameBegun hpc | ended n hpc | assigned n old pushed hpc | dispatched n item hpc
  | handled n called hpc | returned pushed hpc =>
    refine ⟨?_, fun m hm => (nomatch hm)⟩
    simpa only [hpc, MainPc.waited] using hcard
  | _ => exact ⟨hcard, hb.spinning⟩

theorem Balanced.step {a : Action} (hb : s.Balanced) (h : Effect cfg s a s') : s'.Balanced := by
  cases h with
  | accept w error s' hready hout h =>
    have htotal := h.total_eq (g := Session.unsignalled) fun _ _ => rfl
    refine ⟨?_, ?_⟩
    · rw [htotal]
      cases h <;> exact hb.card
    · cases h <;> exact hb.spinning
  | session k b s' hk ha h => exact hb.session_effect hk h
  | header k w s' hk h =>
    have hb' : (s.getInstance cfg).Balanced := by
      unfold Server.getInstance
      split
      · exact hb
      · exact ⟨hb.card, hb.spinning⟩
    exact hb'.session_effect hk h
  | main b s' h => exact hb.main_effect h

/-! ## From the join to the end of `main` -/

/-- What the run after the join leaves as it was in `s`: the payloads awaited, and the number of
requests that wait in vain for `dispatch_request`. -/
structure Settled (s s' : Server) : Prop where
  awaited : ∀ k, (s'.sessions k).payloadOwner = (s.sessions k).payloadOwner
  excess : s'.requests.inner.contents.card - s'.main.budget =
    s.requests.inner.contents.card - s.main.budget

/-- When all workers are out of their handlers the semaphore alone counts the requests. -/
theorem Stopping.unsignalled (hs : s.Stopping) (hj : s.joined = true) :
    Parties.total s.created (fun k => (s.sessions k).unsignalled) = 0 := by
  refine Parties.total_eq_zero fun k _ => ?_
  have hq := (hs.joined hj).2.2 k
  simp only [Session.quiet, decide_eq_true_eq] at hq
  simp [Session.unsignalled, hq.2]

theorem MainEffect.excess {a : MainAction} (hs : s.Stopping) (hb : s.Balanced)
    (hj : s.joined = true) (h : MainEffect cfg s a s') :
    s'.requests.inner.contents.card - s'.main.budget =
      s.requests.inner.contents.card - s.main.budget := by
  have hcard := hb.card
  rw [hs.unsignalled hj] at hcard
  cases h with
  | frameBegun hpc hrun =>
    rw [(hs.joined hj).1] at hrun
    cases hrun
  | ended n hpc hend =>
    simp only [hpc, MainPc.waited, MainPc.budget] at hcard ⊢
    omega
  | popped sizeApprox n ptr item q hpc hpop =>
    have hn := hb.spinning n hpc
    rw [SubQueues.contents_removeHead hpop, Multiset.card_cons]
    simp only [hpc, MainPc.budget]
    omega
  | waited n hpc | assigned n old pushed hpc | dispatched n item hpc | handled n called hpc
  | returned pushed hpc => simp only [hpc, MainPc.budget]
  | _ => rfl

theorem MainEffect.joined_of_joined {a : MainAction} (hj : s.joined = true)
    (h : MainEffect cfg s a s') : s'.joined = true := by
  cases h with
  | joined => rfl
  | _ => exact hj

theorem settled_of_run {as : List Action} (hc : s.Control) (hs : s.Stopping) (hb : s.Balanced)
    (hj : s.joined = true) (h : Transition.run (step cfg) s as = some s') :
    s'.joined = true ∧ Settled s s' := by
  have hinv := Transition.run_invariant
    (I := fun s1 => s1.Control ∧ s1.Stopping ∧ s1.Balanced ∧ s1.joined = true ∧ Settled s s1)
    (fun s1 a s2 hi hstep => ?_) h ⟨hc, hs, hb, hj, fun _ => rfl, rfl⟩
  · exact hinv.2.2.2
  · obtain ⟨hc, hs, hb, hj, hsettled⟩ := hi
    have heff := step_effect hc hstep
    refine ⟨hc.step heff, hs.step hc hstep, hb.step heff, ?_⟩
    rcases hs.step_of_joined hj hc hstep with ⟨k, b, -, hses, -, howner, hreq⟩ | ⟨b, hmain⟩
    · refine ⟨hses.stop_eq.2.1.trans hj, fun j => ?_, ?_⟩
      · by_cases hjk : j = k
        · rw [hjk, howner, hsettled.awaited]
        · rw [hses.other hjk, hsettled.awaited]
      · rw [hreq, hses.others.2.1, hsettled.excess]
    · refine ⟨hmain.joined_of_joined hj, fun j => ?_, ?_⟩
      · rw [hmain.sessions, hsettled.awaited]
      · rw [hmain.excess hs hb hj, hsettled.excess]

/-- After `main` has returned the references left are those of awaited payloads, of queued
requests, and of copies kept by packet handlers. -/
theorem Stopping.refs_eq_zero (hs : s.Stopping) (hc : s.Control) (hj : s.joined = true)
    (hidle : s.main = .idle) : s.refs = 0 ↔
      (∀ k, (s.sessions k).payloadOwner = none) ∧ s.requests.inner.contents = 0 ∧ s.kept = [] := by
  have howners : ∀ k, (s.sessions k).owners = ((s.sessions k).payloadOwner.toList : Multiset SharedPtr) := by
    intro k
    have hq := (hs.joined hj).2.2 k
    simp only [Session.quiet, decide_eq_true_eq] at hq
    simp [Session.owners, Session.payloadOwner, hq.2]
  have hmain : s.mainOwners = s.kept := by
    simp [mainOwners, hs.idle hidle, hidle, MainPc.old]
  have hsum : s.refs = 0 ↔ Parties.total s.created (fun k => (s.sessions k).owners) = 0 ∧
      s.requests.inner.contents = 0 ∧ s.kept = [] := by
    rw [refs, queueOwners, hmain, ← Multiset.card_eq_zero, Multiset.card_add, Multiset.card_add,
      Nat.add_eq_zero_iff, Nat.add_eq_zero_iff, Multiset.card_map, Multiset.coe_card,
      Multiset.card_eq_zero, Multiset.card_eq_zero, List.length_eq_zero_iff]
  rw [hsum]
  refine and_congr_left fun _ => ⟨fun htotal k => ?_, fun hnone => Parties.total_eq_zero fun k _ => ?_⟩
  · by_cases hk : k < s.created
    · have hle : (s.sessions k).owners ≤ 0 := htotal ▸ Parties.le_total hk
      rw [howners, Multiset.le_zero, Multiset.coe_eq_zero] at hle
      simpa using hle
    · rw [hc.unused k (by omega)]
      rfl
  · rw [howners, hnone]
    rfl

/-! ## The exit -/

theorem exit_of_built (h : s.constructed = [.log, .time, .tcp, .gameEngine, .tsMemoryPool]) :
    s.exit pushed = s.tcpOwners.foldl (Exit.release pushed)
      ⟨s.pool.destroy, true, s.pool.ctrls.filter (0 < ·.useCount), []⟩ := by
  simp [exit, h, destroySingleton]

theorem exit_of_unbuilt (h : s.constructed = [.log, .time, .tcp, .gameEngine]) :
    s.exit pushed = s.tcpOwners.foldl (Exit.release pushed) ⟨s.pool, false, [], []⟩ := by
  simp [exit, h, destroySingleton]

theorem release_outstanding (owners : List SharedPtr) (e : Exit) :
    (owners.foldl (Exit.release pushed) e).outstanding = e.outstanding := by
  induction owners generalizing e with
  | nil => rfl
  | cons sp owners ih =>
    rw [List.foldl_cons, ih, Exit.release]
    split
    · split <;> rfl
    · rfl

theorem tcpOwners_eq_nil (howner : ∀ k, (s.sessions k).payloadOwner = none)
    (hqueue : s.requests.inner.contents = 0) : s.tcpOwners = [] := by
  have hnil : s.requests.inner.producers.flatMap s.requests.inner.items = [] :=
    Multiset.coe_eq_zero _ |>.mp hqueue
  simp [tcpOwners, hnil, howner]

/-- The exit is clean when nobody holds a block any more, and only then. -/
theorem cleanExit_iff_refs (hs : s.Stopping) (hi : s.Owned) (hc : s.Control) (hj : s.joined = true)
    (hidle : s.main = .idle) : CleanExit pushed s ↔ s.refs = 0 := by
  constructor
  · intro hclean
    rcases hs.constructed with h | h
    · exact hi.refs_eq_zero (by simp [h])
    · have hout := hclean.outstanding
      rw [exit_of_built h, release_outstanding] at hout
      exact hi.refs.eq_zero.mpr hout
  · intro hzero
    obtain ⟨howner, hqueue, -⟩ := (hs.refs_eq_zero hc hj hidle).mp hzero
    have hnil := tcpOwners_eq_nil howner hqueue
    have hrefs := hi.refs
    rw [hzero] at hrefs
    rcases hs.constructed with h | h
    · have hexit : s.exit pushed = _ := exit_of_unbuilt h
      rw [hnil, (hi.unbuilt (by simp [h])).1] at hexit
      refine ⟨by rw [hexit]; rfl, by rw [hexit]; rfl, fun b hb => ?_⟩
      rw [hexit] at hb
      exact absurd hb (Nat.not_lt_zero b)
    · have hexit : s.exit pushed = _ := exit_of_built h
      rw [hnil, hi.refs.eq_zero.mp hzero] at hexit
      refine ⟨by rw [hexit]; rfl, by rw [hexit]; rfl, fun b hb => ?_⟩
      rw [hexit] at hb ⊢
      exact hi.pool.destroy hrefs (destroy_heap (p := s.pool) ▸ hb)

theorem stopping_of_reachable {mem : Memory} (h : Transition.Reachable (step cfg) (init mem) s) :
    s.Stopping :=
  (h.invariant (I := fun s => s.Control ∧ s.Stopping) ⟨control_init mem, stopping_init mem⟩
    fun _ _ _ hi hstep => ⟨hi.1.step (step_effect hi.1 hstep), hi.2.step hi.1 hstep⟩).2

theorem balanced_of_reachable {mem : Memory} (h : Transition.Reachable (step cfg) (init mem) s) :
    s.Balanced :=
  reachable_induction h ⟨rfl, fun _ hn => nomatch hn⟩ fun _ _ _ _ hb h => hb.step h

/-- **When the exit is clean.**  Take any state `s` of a run of `main` after the workers have
been joined.  The exit leaves nothing on loan, runs no deleter late and deletes every block once
if and only if in `s` no connection waits for a payload and no more requests are queued than the
current call of `dispatch_request` takes, and no copy kept by a packet handler is left at the
end. -/
theorem clean_exit_iff (cfg : Config) (mem : Memory) (as bs : List Action) (s s' : Server)
    (pushed : Bool) (hs : Transition.run (step cfg) (init mem) as = some s) (hj : s.joined = true)
    (hs' : Transition.run (step cfg) s bs = some s') (hret : s'.Returned) :
    CleanExit pushed s' ↔ (∀ k, (s.sessions k).payloadOwner = none) ∧
      s.requests.inner.contents.card ≤ s.main.budget ∧ s'.kept = [] := by
  have hreach : Transition.Reachable (step cfg) (init mem) s := ⟨as, hs⟩
  have hreach' : Transition.Reachable (step cfg) (init mem) s' :=
    ⟨as ++ bs, Transition.run_append.mpr ⟨s, hs, hs'⟩⟩
  have hc := control_of_reachable hreach'
  have hstop := stopping_of_reachable hreach'
  obtain ⟨hj', hawaited, hexcess⟩ := settled_of_run (control_of_reachable hreach)
    (stopping_of_reachable hreach) (balanced_of_reachable hreach) hj hs'
  have hqueue : s'.requests.inner.contents = 0 ↔ s.requests.inner.contents.card ≤ s.main.budget := by
    have hbudget : s'.main.budget = 0 := by rw [hret.1]; rfl
    rw [← Multiset.card_eq_zero]
    omega
  rw [cleanExit_iff_refs hstop (owned_of_reachable hreach') hc hj' hret.1,
    hstop.refs_eq_zero hc hj' hret.1, hqueue]
  simp only [hawaited]

/-- A packet handler calls `stop()`, and the workers are joined. -/
def stops : List Action := [.main .stop, .main .stopContext, .main .join]

/-- The handler ends, nothing more is queued, and `main` returns. -/
def returns : List Action := [.main .endDispatch, .main .wait, .main (.return true)]

/-- The handler of the only packet stops the server. -/
theorem clean_exit_one_packet : ∃ s, Transition.run (step oneHandler) (init fun _ _ => 255)
    (connects 0 ++ arrives 0 1 oneByteHeader [7] ++ dispatches 1 ++ stops ++ returns) = some s ∧
    CleanExit true s := by
  have hjoin : (Transition.run (step oneHandler) (init fun _ _ => 255)
      (connects 0 ++ arrives 0 1 oneByteHeader [7] ++ dispatches 1 ++ stops)).map
        (fun s => (s.joined, s.created, (s.sessions 0).payloadOwner, s.requests.inner.contents)) =
      some (true, 1, none, 0) := by
    decide +kernel
  have hreturn : (Transition.run (step oneHandler) (init fun _ _ => 255)
      (connects 0 ++ arrives 0 1 oneByteHeader [7] ++ dispatches 1 ++ stops ++ returns)).map
        (fun s => (s.main, s.stop, s.tcp.isRunning, s.kept)) = some (.idle, none, false, []) := by
    decide +kernel
  obtain ⟨s, hs, hfin⟩ := Option.map_eq_some_iff.mp hjoin
  simp only [Prod.mk.injEq] at hfin
  obtain ⟨hj, hcreated, howner, hqueue⟩ := hfin
  obtain ⟨s', hrun', hfin'⟩ := Option.map_eq_some_iff.mp hreturn
  simp only [Prod.mk.injEq] at hfin'
  obtain ⟨hidle, hstop, hrun, hkept⟩ := hfin'
  obtain ⟨s1, hs1, hs'⟩ := Transition.run_append.mp hrun'
  obtain rfl : s = s1 := Option.some.inj (hs.symm.trans hs1)
  refine ⟨s', hrun', (clean_exit_iff oneHandler _ _ _ s s' true hs hj
    hs' ⟨hidle, hstop, hrun⟩).mpr ⟨fun k => ?_, ?_, hkept⟩⟩
  · by_cases hk : k = 0
    · rw [hk, howner]
    · rw [(control_of_reachable ⟨_, hs⟩).unused k (by omega)]
      rfl
  · rw [hqueue]
    exact Nat.zero_le _

/-- A second client has sent a header and not yet the payload: its block is on loan when the
pool is destroyed, and given back when `tcp` is. -/
theorem exit_with_payload_awaited : ¬ ∀ (cfg : Config) (mem : Memory) (s : Server) (pushed : Bool),
    Transition.Reachable (step cfg) (init mem) s → s.Returned → CleanExit pushed s := by
  intro hall
  have hrun : (Transition.run (step oneHandler) (init fun _ _ => 255)
      (connects 0 ++ connects 1 ++ [.session 1 (.receive oneByteHeader), .session 1 (.header 1 none)] ++
        arrives 0 1 oneByteHeader [7] ++ dispatches 1 ++ stops ++ returns)).map
        (fun s => (s.main, s.stop, s.tcp.isRunning, (s.exit true).late)) =
      some (.idle, none, false, [127]) := by
    decide +kernel
  obtain ⟨s, hs, hfin⟩ := Option.map_eq_some_iff.mp hrun
  simp only [Prod.mk.injEq] at hfin
  obtain ⟨hidle, hstop, hrun, hlate⟩ := hfin
  have hclean := hall oneHandler _ s true ⟨_, hs⟩ ⟨hidle, hstop, hrun⟩
  have hnil := hclean.late
  rw [hlate] at hnil
  cases hnil

end Server

end Us2d
