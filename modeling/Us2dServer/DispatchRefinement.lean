import Us2dServer.DispatchLaw
import Us2dServer.RequestFlow

/-!
# The server runs the dispatch loop

What a run of the server shows of `dispatch_request` is a run of `DispatchLoop`: the workers, the
connections and `tcp` are its other threads.  A step of theirs is one or two actions of these or
changes nothing but memory, and a step of the main thread is the step of the loop.  So the law of
the loop holds in the server.

    Reachable (step cfg) (init mem) s →
      ∃ as g, run (DispatchLoop.step cfg.handlers) (start (setting cfg mem)) as = some (s.loop cfg g)
                                                                           (runs_loop)
-/

namespace Us2d

open TsMemoryPool

namespace Server

variable {cfg : Config} {s s' : Server} {k : Nat}

/-! ## What the loop sees of the server -/

/-- The pool, or what it will be when it is constructed. -/
def builtPool (cfg : Config) (s : Server) : TsMemoryPool :=
  if .tsMemoryPool ∈ s.constructed then s.pool else TsMemoryPool.create cfg.pushed

/-- The `shared_ptr`s outside of the queue and the loop. -/
def elsewhere (s : Server) : Multiset SharedPtr :=
  Parties.total s.created (fun k => (s.sessions k).owners) + s.kept

/-- The history is that of `g`. -/
def loop (cfg : Config) (s : Server) (g : DispatchLoop) : DispatchLoop :=
  { g with
    requests := s.requests
    unsignalled := Parties.total s.created fun k => (s.sessions k).unsignalled
    pool := s.builtPool cfg
    mem := s.mem
    main := s.main
    request := s.request
    others := s.elsewhere
    dispatched := s.dispatched }

theorem builtPool_of_mem (h : .tsMemoryPool ∈ s.constructed) : s.builtPool cfg = s.pool := if_pos h

theorem builtPool_getInstance : (s.getInstance cfg).builtPool cfg = s.builtPool cfg := by
  unfold builtPool Server.getInstance
  split <;> simp [*]

theorem loop_getInstance (g : DispatchLoop) : (s.getInstance cfg).loop cfg g = s.loop cfg g := by
  unfold loop elsewhere
  rw [builtPool_getInstance]
  unfold Server.getInstance
  split <;> rfl

/-- A block is lent only when the pool is constructed. -/
theorem Owned.built {sp : SharedPtr} (hi : s.Owned) (h : sp ∈ s.refs) : .tsMemoryPool ∈ s.constructed := by
  by_contra hn
  rw [hi.refs_eq_zero hn] at h
  exact Multiset.notMem_zero sp h

/-- The `shared_ptr`s of connection `k`, and the others. -/
theorem elsewhere_eq (hk : k < s.created) : s.elsewhere = (s.sessions k).owners +
    (Parties.others s.created k (fun k => (s.sessions k).owners) + s.kept) := by
  rw [elsewhere, Parties.total_eq hk, add_assoc]

theorem mem_refs_of_elsewhere {sp : SharedPtr} (h : sp ∈ s.elsewhere) : sp ∈ s.refs := by
  unfold elsewhere at h
  unfold refs mainOwners
  simp only [Multiset.mem_add] at h ⊢
  rcases h with h | h
  · exact Or.inl h
  · exact Or.inr (Or.inr (Or.inr h))

theorem elsewhere_keep {sp : SharedPtr} (p : TsMemoryPool) :
    elsewhere { s with pool := p, kept := sp :: s.kept } = sp ::ₘ s.elsewhere := by
  unfold elsewhere
  rw [← Multiset.cons_coe, Multiset.add_cons]

theorem elsewhere_release {sp : SharedPtr} (p : TsMemoryPool) (h : sp ∈ s.kept) :
    elsewhere { s with pool := p, kept := s.kept.erase sp } = s.elsewhere.erase sp := by
  unfold elsewhere
  rw [← Multiset.coe_erase, Multiset.erase_add_right_pos _ (Multiset.mem_coe.mpr h)]

/-- The main thread copies or drops a `shared_ptr` kept. -/
theorem loop_kept (hbuilt : .tsMemoryPool ∈ s.constructed) (p : TsMemoryPool) (kept : List SharedPtr)
    (g : DispatchLoop) : loop cfg { s with pool := p, kept := kept } g =
      { s.loop cfg g with pool := p, others := elsewhere { s with pool := p, kept := kept } } := by
  have hpool : builtPool cfg { s with pool := p, kept := kept } = p := if_pos hbuilt
  unfold loop
  rw [hpool]

/-- The release of a `shared_ptr` of the main thread. -/
theorem Owned.builtPool_drop (hi : s.Owned) (cfg : Config) (owner : Option SharedPtr) (pushed : Bool)
    (howner : ∀ sp, owner = some sp → sp ∈ s.refs) : dropOwner owner pushed (s.builtPool cfg) =
      builtPool cfg { s with pool := dropOwner owner pushed s.pool } := by
  cases owner with
  | none => rfl
  | some sp =>
    have hbuilt := hi.built (howner sp rfl)
    rw [builtPool_of_mem hbuilt]
    exact (if_pos hbuilt).symm

theorem mem_refs_of_main {sp : SharedPtr} (h : sp ∈ s.mainOwners) : sp ∈ s.refs :=
  Multiset.mem_add.mpr (Or.inr (Multiset.mem_add.mpr (Or.inr h)))

/-! ## The steps of the connections -/

/-- The loop after a step of connection `k`. -/
theorem SessionEffect.loop_eq {a : SessionAction} (hk : k < s.created)
    (h : SessionEffect s k (s.sessions k) a s') (g : DispatchLoop) :
    s'.loop cfg g = { s.loop cfg g with
      requests := s'.requests
      unsignalled := (s'.sessions k).unsignalled +
        Parties.others s.created k fun k => (s.sessions k).unsignalled
      pool := s'.builtPool cfg
      mem := s'.mem
      others := (s'.sessions k).owners +
        (Parties.others s.created k (fun k => (s.sessions k).owners) + s.kept) } := by
  obtain ⟨hrequest, hmain, hkept, hcreated⟩ := h.others
  have hk' : k < s'.created := hcreated ▸ hk
  unfold loop elsewhere
  rw [Parties.total_eq hk', Parties.total_eq hk', h.others_eq, h.others_eq, add_assoc, hrequest,
    hmain, hkept, h.dispatched]

theorem SessionEffect.builtPool_eq {a : SessionAction} (h : SessionEffect s k (s.sessions k) a s')
    (hpool : s'.pool = s.pool) : s'.builtPool cfg = s.builtPool cfg := by
  unfold builtPool
  rw [h.constructed, hpool]

/-- A step that leaves the queue alone neither enqueues nor signals. -/
theorem SessionEffect.unsignalled_eq {a : SessionAction} (h : SessionEffect s k (s.sessions k) a s')
    (hrequests : s'.requests = s.requests) :
    (s'.sessions k).unsignalled = (s.sessions k).unsignalled := by
  have hbalanced := h.balanced
  rw [hrequests] at hbalanced
  omega

theorem loop_eq_self (hk : k < s.created) (g : DispatchLoop) :
    s.loop cfg g = { s.loop cfg g with
      unsignalled := (s.sessions k).unsignalled +
        Parties.others s.created k fun k => (s.sessions k).unsignalled
      others := (s.sessions k).owners +
        (Parties.others s.created k (fun k => (s.sessions k).owners) + s.kept) } := by
  unfold loop
  rw [Parties.total_eq hk, elsewhere_eq hk]

/-- A step that only moves things within the connection is no more to the loop than a write. -/
theorem SessionEffect.loop_write {a : SessionAction} (hk : k < s.created)
    (h : SessionEffect s k (s.sessions k) a s') (hrequests : s'.requests = s.requests)
    (hpool : s'.pool = s.pool) (howners : (s'.sessions k).owners = (s.sessions k).owners)
    (g : DispatchLoop) : Transition.run (DispatchLoop.step cfg.handlers) (s.loop cfg g) [.write s'.mem] =
      some (s'.loop cfg g) := by
  rw [h.loop_eq hk, h.unsignalled_eq hrequests, h.builtPool_eq hpool, howners, hrequests]
  conv_lhs => rw [loop_eq_self hk]
  rfl

/-- A block is lent to the connection, and its header written. -/
theorem SessionEffect.loop_rent {a : SessionAction} (hk : k < s.created)
    (h : SessionEffect s k (s.sessions k) a s') (hbuilt : .tsMemoryPool ∈ s.constructed)
    (hrequests : s'.requests = s.requests) (b : BlockType) (fresh : Bool) {sp : SharedPtr}
    (hpool : (if fresh then some (s.pool.rentFresh b) else s.pool.rentPopped b) = some (sp, s'.pool))
    (hx : (s.sessions k).owners = 0) (howners : (s'.sessions k).owners = {sp}) (g : DispatchLoop) :
    Transition.run (DispatchLoop.step cfg.handlers) (s.loop cfg g) [.rent b fresh, .write s'.mem] =
      some (s'.loop cfg g) := by
  have hpool' : (s.loop cfg g).pool = s.pool := builtPool_of_mem hbuilt
  have hbuilt' : s'.builtPool cfg = s'.pool := builtPool_of_mem (h.constructed ▸ hbuilt)
  have hrent : DispatchLoop.step cfg.handlers (s.loop cfg g) (.rent b fresh) =
      some { s.loop cfg g with pool := s'.pool, others := sp ::ₘ s.elsewhere } := by
    simp only [DispatchLoop.step, DispatchLoop.rent, hpool']
    cases fresh with
    | true =>
      rw [if_pos rfl] at hpool ⊢
      rw [Option.some.inj hpool]
      rfl
    | false =>
      rw [if_neg Bool.false_ne_true] at hpool ⊢
      rw [hpool]
      rfl
  refine Transition.run_cons.mpr ⟨_, hrent, ?_⟩
  rw [h.loop_eq hk, h.unsignalled_eq hrequests, hbuilt', howners, hrequests, Multiset.singleton_add]
  have helsewhere : s.elsewhere =
      Parties.others s.created k (fun k => (s.sessions k).owners) + s.kept := by
    rw [elsewhere_eq hk, hx, zero_add]
  conv_lhs => rw [loop_eq_self hk, helsewhere]
  rfl

/-- The payload handler enqueues its request, with a copy of its `packet_owner`. -/
theorem SessionEffect.loop_enqueue {a : SessionAction} (hk : k < s.created) (hi : s.Owned)
    (h : SessionEffect s k (s.sessions k) a s') {w : Nat} {item : Queued}
    (hrequests : s'.requests = s.requests.enqueue w item) (hpool : s'.pool = s.pool.copy item.owner)
    (hmem : s'.mem = s.mem) (hx : (s.sessions k).owners = {item.owner})
    (howners : (s'.sessions k).owners = {item.owner}) (g : DispatchLoop) :
    Transition.run (DispatchLoop.step cfg.handlers) (s.loop cfg g) [.copy item.owner, .enqueue w item] =
      some (s'.loop cfg g) := by
  have helsewhere : s.elsewhere = (s'.sessions k).owners +
      (Parties.others s.created k (fun k => (s.sessions k).owners) + s.kept) := by
    rw [elsewhere_eq hk, hx, howners]
  have hsp : item.owner ∈ s.elsewhere := by
    rw [helsewhere, howners]
    exact Multiset.mem_add.mpr (Or.inl (Multiset.mem_singleton_self _))
  have hbuilt := hi.built (mem_refs_of_elsewhere hsp)
  have hunsignalled : (Parties.total s.created fun k => (s.sessions k).unsignalled) + 1 =
      (s'.sessions k).unsignalled + Parties.others s.created k fun k => (s.sessions k).unsignalled := by
    have hb := h.balanced
    simp only [hrequests, BlockingConcurrentQueue.enqueue, SubQueues.contents_push, Multiset.card_cons] at hb
    rw [Parties.total_eq hk]
    omega
  have hpool' : s.builtPool cfg = s.pool := builtPool_of_mem hbuilt
  have hcopy : DispatchLoop.step cfg.handlers (s.loop cfg g) (.copy item.owner) =
      some { s.loop cfg g with pool := s.pool.copy item.owner, others := item.owner ::ₘ s.elsewhere } := by
    rw [← hpool']
    exact if_pos hsp
  refine Transition.run_cons.mpr ⟨_, hcopy, Transition.run_singleton.trans ?_⟩
  refine (if_pos (Multiset.mem_cons_self item.owner _)).trans ?_
  rw [h.loop_eq hk, builtPool_of_mem (h.constructed ▸ hbuilt), hrequests, hpool, hmem, ← hunsignalled,
    ← helsewhere, Multiset.erase_cons_head]
  rfl

theorem SessionEffect.loop_signal {a : SessionAction} (hk : k < s.created)
    (h : SessionEffect s k (s.sessions k) a s') (hrequests : s'.requests = s.requests.signal)
    (hpool : s'.pool = s.pool) (hmem : s'.mem = s.mem) (hx : (s.sessions k).unsignalled = 1)
    (howners : (s'.sessions k).owners = (s.sessions k).owners) (g : DispatchLoop) :
    Transition.run (DispatchLoop.step cfg.handlers) (s.loop cfg g) [.signal] = some (s'.loop cfg g) := by
  have helsewhere : s.elsewhere = (s'.sessions k).owners +
      (Parties.others s.created k (fun k => (s.sessions k).owners) + s.kept) := by
    rw [elsewhere_eq hk, howners]
  have htotal : (Parties.total s.created fun k => (s.sessions k).unsignalled) =
      1 + Parties.others s.created k fun k => (s.sessions k).unsignalled := by
    rw [Parties.total_eq hk, hx]
  have hunsignalled : (Parties.total s.created fun k => (s.sessions k).unsignalled) - 1 =
      (s'.sessions k).unsignalled + Parties.others s.created k fun k => (s.sessions k).unsignalled := by
    have hb := h.balanced
    simp only [hrequests, BlockingConcurrentQueue.signal] at hb
    omega
  refine Transition.run_singleton.trans ?_
  have hpos : 0 < (s.loop cfg g).unsignalled := by
    show 0 < Parties.total s.created fun k => (s.sessions k).unsignalled
    omega
  refine (if_pos hpos).trans ?_
  rw [h.loop_eq hk, h.builtPool_eq hpool, hrequests, hmem, ← hunsignalled, ← helsewhere]
  rfl

/-- The payload handler gives its `packet_owner` up. -/
theorem SessionEffect.loop_drop {a : SessionAction} (hk : k < s.created) (hi : s.Owned)
    (h : SessionEffect s k (s.sessions k) a s') (hrequests : s'.requests = s.requests)
    (hmem : s'.mem = s.mem) {sp : SharedPtr} {pushed : Bool} (hpool : s'.pool = s.pool.drop sp pushed)
    (hx : (s.sessions k).owners = sp ::ₘ (s'.sessions k).owners) (g : DispatchLoop) :
    Transition.run (DispatchLoop.step cfg.handlers) (s.loop cfg g) [.drop sp pushed] =
      some (s'.loop cfg g) := by
  have helsewhere : s.elsewhere = sp ::ₘ ((s'.sessions k).owners +
      (Parties.others s.created k (fun k => (s.sessions k).owners) + s.kept)) := by
    rw [elsewhere_eq hk, hx, Multiset.cons_add]
  have hsp : sp ∈ s.elsewhere := helsewhere ▸ Multiset.mem_cons_self sp _
  have hbuilt := hi.built (mem_refs_of_elsewhere hsp)
  have hunsignalled : (Parties.total s.created fun k => (s.sessions k).unsignalled) =
      (s'.sessions k).unsignalled + Parties.others s.created k fun k => (s.sessions k).unsignalled := by
    rw [Parties.total_eq hk, h.unsignalled_eq hrequests]
  have herase : s.elsewhere.erase sp = (s'.sessions k).owners +
      (Parties.others s.created k (fun k => (s.sessions k).owners) + s.kept) := by
    rw [helsewhere, Multiset.erase_cons_head]
  have hpool' : s.builtPool cfg = s.pool := builtPool_of_mem hbuilt
  refine Transition.run_singleton.trans ?_
  refine (if_pos hsp).trans ?_
  rw [h.loop_eq hk, builtPool_of_mem (h.constructed ▸ hbuilt), hrequests, hmem, hpool, ← hunsignalled,
    ← herase, ← hpool']
  rfl

/-- **What a step of a connection is to the loop.** -/
theorem SessionEffect.loop {a : SessionAction} (hk : k < s.created) (hc : (s.sessions k).Control)
    (hi : s.Owned) (hbuilt : ∀ w, a = .header w none → .tsMemoryPool ∈ s.constructed)
    (h : SessionEffect s k (s.sessions k) a s') (g : DispatchLoop) :
    ∃ as, Transition.run (DispatchLoop.step cfg.handlers) (s.loop cfg g) as = some (s'.loop cfg g) := by
  have hself := h
  cases h with
  | started w hpc =>
    obtain ⟨hread, hhandler, -⟩ := hc.fresh w hpc
    exact ⟨_, hself.loop_write hk rfl rfl (by simp [setSession, Session.owners, Connection.start,
      Connection.asyncReadHeader, hread, hhandler, AsyncRead.owner]) g⟩
  | inserted w hpc => exact ⟨_, hself.loop_write hk rfl rfl (by simp [setSession, Session.owners]) g⟩
  | rearmed w hpc => exact ⟨_, hself.loop_write hk rfl rfl (by simp [setSession, Session.owners]) g⟩
  | received op bs hread hfit =>
    refine ⟨_, hself.loop_write hk rfl rfl ?_ g⟩
    cases op <;> simp [setSession, Session.owners, Connection.receive, hread, AsyncRead.owner]
  | failed w e op hread hpc hgot =>
    refine ⟨_, hself.loop_write hk rfl rfl ?_ g⟩
    cases op <;> simp [report, setSession, Session.owners, Connection.close, Connection.stop,
      Connection.completed, hread, hpc, AsyncRead.owner, HandlerPc.owner]
  | refused w hread hpc hclass =>
    exact ⟨_, hself.loop_write hk rfl rfl (by simp [report, setSession, Session.owners, Connection.stop,
      Connection.completed, hread, hpc, AsyncRead.owner]) g⟩
  | popped w b owner p hread hpc hclass hpop =>
    refine ⟨_, hself.loop_rent hk (hbuilt w rfl) rfl b false hpop ?_ ?_ g⟩
    · simp [Session.owners, hread, hpc, AsyncRead.owner]
    · simp [rented, setSession, Session.owners, Connection.asyncReadPayload, AsyncRead.owner]
  | emptyStack w b hread hpc hclass =>
    exact ⟨_, hself.loop_write hk rfl rfl (by simp [setSession, Session.owners, Connection.completed,
      hread, hpc, AsyncRead.owner, HandlerPc.owner]) g⟩
  | grown w size b hpc hclass =>
    have hread := (hc.ofBetween hpc (by simp [Session.between, hpc])).1
    have hbuilt : .tsMemoryPool ∈ s.constructed := by
      by_contra hn
      exact (hi.unbuilt hn).2 k w size hpc
    refine ⟨_, hself.loop_rent hk hbuilt rfl b true rfl ?_ ?_ g⟩
    · simp [Session.owners, hread, hpc, HandlerPc.owner]
    · simp [rented, setSession, Session.owners, Connection.asyncReadPayload, AsyncRead.owner]
      rfl
  | notGrown w size hpc =>
    have hread := (hc.ofBetween hpc (by simp [Session.between, hpc])).1
    exact ⟨_, hself.loop_write hk rfl rfl (by simp [report, setSession, Session.owners, Connection.stop,
      hread, hpc, HandlerPc.owner]) g⟩
  | enqueued w owner n hread hpc item hitem =>
    have howner : item.owner = owner := by rw [hitem]; rfl
    refine ⟨_, hself.loop_enqueue hk hi rfl (by rw [howner]) rfl ?_ ?_ g⟩
    · simp [Session.owners, hread, hpc, howner, AsyncRead.owner]
    · simp [setSession, Session.owners, Connection.completed, howner, HandlerPc.owner]
  | signalled w owner hpc =>
    obtain ⟨hread, -⟩ := hc.ofBetween hpc (by simp [Session.between, hpc])
    refine ⟨_, hself.loop_signal hk rfl rfl rfl (by simp [Session.unsignalled, hpc]) ?_ g⟩
    simp [setSession, Session.owners, Connection.asyncReadHeader, hread, hpc, AsyncRead.owner,
      HandlerPc.owner]
  | left w owner pushed hpc =>
    refine ⟨_, hself.loop_drop hk hi rfl rfl rfl ?_ g⟩
    simp only [setSession, Session.owners, hpc, HandlerPc.owner, Function.update_self, Option.bind_some,
      Option.bind_none, Option.toList_some, Option.toList_none, Multiset.coe_singleton,
      Multiset.coe_nil, add_zero]
    rw [add_comm, Multiset.singleton_add]

/-! ## The steps of the others -/

theorem AcceptEffect.loop_eq {w : Nat} {error : Option ErrorCode} (h : AcceptEffect s w error s')
    (g : DispatchLoop) : s'.loop cfg g = s.loop cfg g := by
  have hunsignalled := h.total_eq (g := Session.unsignalled) fun _ _ => rfl
  have howners := h.total_eq (g := Session.owners) fun _ _ => rfl
  unfold loop elsewhere
  rw [hunsignalled, howners]
  cases h <;> rfl

/-- The loop gets from what it sees of `s` to what it sees of `s'`. -/
def Loops (s : Server) (cfg : Config) (g : DispatchLoop) (s' : Server) : Prop :=
  ∃ as g', Transition.run (DispatchLoop.step cfg.handlers) (s.loop cfg g) as = some (s'.loop cfg g')

theorem loop_beginFrame (g : DispatchLoop)
    (h : s.mainStep cfg .beginFrame = some s') : s.Loops cfg g s' := by
  simp only [mainStep, beginFrame] at h
  split at h
  · next hguard =>
    cases h
    exact ⟨[.call], { g with calls := g.calls + 1, before := g.removed.length },
      Transition.run_singleton.trans (if_pos hguard.1)⟩
  · cases h

theorem loop_waitRequest (g : DispatchLoop)
    (h : s.mainStep cfg .wait = some s') : s.Loops cfg g s' := by
  simp only [mainStep, waitRequest] at h
  split at h
  · next n hpc =>
    split at h
    · next hn =>
      split at h
      · next q hq =>
        cases h
        refine ⟨[.tryWait], { g with lastTry := s.requests.sema },
          Transition.run_singleton.trans ?_⟩
        simp only [DispatchLoop.step, DispatchLoop.tryWait, loop, hpc, hq, if_pos hn]
        rfl
      · next hq =>
        cases h
        refine ⟨[.tryWait], { g with lastTry := s.requests.sema },
          Transition.run_singleton.trans ?_⟩
        simp only [DispatchLoop.step, DispatchLoop.tryWait, loop, hpc, hq, if_pos hn]
        rfl
    · next hn =>
      cases h
      refine ⟨[.tryWait], g, Transition.run_singleton.trans ?_⟩
      simp only [DispatchLoop.step, DispatchLoop.tryWait, loop, hpc, if_neg hn]
      rfl
  · cases h

theorem loop_popRequest (sizeApprox : Nat → Nat) (g : DispatchLoop)
    (h : s.mainStep cfg (.pop sizeApprox) = some s') : s.Loops cfg g s' := by
  simp only [mainStep, popRequest] at h
  split at h
  · next n hpc =>
    split at h
    · next hall =>
      split at h
      · next item q htry =>
        cases h
        refine ⟨[.tryDequeue sizeApprox], { g with removed := g.removed ++ [item] },
          Transition.run_singleton.trans ?_⟩
        simp only [DispatchLoop.step, DispatchLoop.tryDequeue, loop, hpc, htry, if_pos hall]
        rfl
      · cases h
    · cases h
  · cases h

theorem loop_assignRequest (hi : s.Owned) (pushed : Bool) (g : DispatchLoop)
    (h : s.mainStep cfg (.assign pushed) = some s') : s.Loops cfg g s' := by
  simp only [mainStep, assignRequest] at h
  split at h
  · next n old hpc =>
    cases h
    refine ⟨[.assign pushed], g, Transition.run_singleton.trans ?_⟩
    have hpool := hi.builtPool_drop cfg old pushed fun sp hsp =>
      mem_refs_of_main (by simp [mainOwners, hpc, hsp, MainPc.old])
    simp only [DispatchLoop.step, DispatchLoop.assign, loop, hpc, hpool]
    rfl
  · cases h

theorem loop_dispatchRequest (g : DispatchLoop)
    (h : s.mainStep cfg .dispatch = some s') : s.Loops cfg g s' := by
  simp only [mainStep, dispatchRequest] at h
  split at h
  · next n item hpc hreq =>
    cases h
    refine ⟨[.dispatch], g, Transition.run_singleton.trans ?_⟩
    simp only [DispatchLoop.step, DispatchLoop.dispatch, loop, hpc, hreq]
    rfl
  · cases h

theorem loop_keepOwner (hi : s.Owned) (g : DispatchLoop)
    (h : s.mainStep cfg .keep = some s') : s.Loops cfg g s' := by
  simp only [mainStep, keepOwner] at h
  split at h
  · next n f item hpc hreq =>
    split at h
    · cases h
      have hbuilt := hi.built (mem_refs_of_main (mem_mainOwners_of_request hreq))
      refine ⟨[.keep], g, Transition.run_singleton.trans ?_⟩
      rw [loop_kept hbuilt (s.pool.copy item.request.packetOwner) (item.request.packetOwner :: s.kept),
        elsewhere_keep]
      simp only [DispatchLoop.step, DispatchLoop.keep, loop, hpc, hreq, builtPool_of_mem hbuilt]
      rfl
    · cases h
  · cases h

theorem loop_endDispatch (g : DispatchLoop) (hs : (s.loop cfg g).Sound)
    (h : s.mainStep cfg .endDispatch = some s') : s.Loops cfg g s' := by
  simp only [mainStep, endDispatch] at h
  split at h
  · next n called hpc =>
    split at h
    · cases h
      obtain ⟨item, hreq⟩ : ∃ item, s.request = some item := by
        have hlocals := hs.locals
        simp only [DispatchLoop.Locals, loop, hpc] at hlocals
        exact Option.ne_none_iff_exists'.mp hlocals
      refine ⟨[.endDispatch (.ok ())], g, Transition.run_singleton.trans ?_⟩
      simp only [DispatchLoop.step, DispatchLoop.endDispatch, loop, hpc, hreq]
      rfl
    · cases h
  · cases h

theorem loop_endDispatchRequest (hi : s.Owned) (pushed : Bool) (g : DispatchLoop)
    (h : s.mainStep cfg (.return pushed) = some s') : s.Loops cfg g s' := by
  simp only [mainStep, endDispatchRequest] at h
  split at h
  · next hpc =>
    cases h
    refine ⟨[.return pushed], g, Transition.run_singleton.trans ?_⟩
    have hpool := hi.builtPool_drop cfg (s.request.map Queued.owner) pushed fun sp hsp => by
      obtain ⟨item, hreq, rfl⟩ := Option.map_eq_some_iff.mp hsp
      exact mem_refs_of_main (mem_mainOwners_of_request hreq)
    simp only [DispatchLoop.step, DispatchLoop.endDispatchRequest, loop, hpc, hpool]
    rfl
  · cases h

theorem loop_releaseKept (hi : s.Owned) (sp : SharedPtr) (pushed : Bool) (g : DispatchLoop)
    (h : s.mainStep cfg (.release sp pushed) = some s') : s.Loops cfg g s' := by
  simp only [mainStep, releaseKept] at h
  split at h
  · next hkept =>
    cases h
    have hsp : sp ∈ s.elsewhere := Multiset.mem_add.mpr (Or.inr hkept)
    have hbuilt := hi.built (mem_refs_of_elsewhere hsp)
    refine ⟨[.drop sp pushed], g, Transition.run_singleton.trans ((if_pos hsp).trans ?_)⟩
    rw [loop_kept hbuilt (s.pool.drop sp pushed) (s.kept.erase sp), elsewhere_release _ hkept,
      ← builtPool_of_mem hbuilt]
    rfl
  · cases h

/-- **What a step of the main thread is to the loop**, which has a request while it handles one. -/
theorem mainStep_loop {a : MainAction} (hi : s.Owned) (g : DispatchLoop) (hs : (s.loop cfg g).Sound)
    (h : s.mainStep cfg a = some s') : ∃ as g',
      Transition.run (DispatchLoop.step cfg.handlers) (s.loop cfg g) as = some (s'.loop cfg g') := by
  cases a with
  | beginFrame => exact loop_beginFrame g h
  | wait => exact loop_waitRequest g h
  | pop sizeApprox => exact loop_popRequest sizeApprox g h
  | assign pushed => exact loop_assignRequest hi pushed g h
  | dispatch => exact loop_dispatchRequest g h
  | keep => exact loop_keepOwner hi g h
  | endDispatch => exact loop_endDispatch g hs h
  | «return» pushed => exact loop_endDispatchRequest hi pushed g h
  | release sp pushed => exact loop_releaseKept hi sp pushed g h
  | stop =>
    simp only [mainStep, stopTcp] at h
    split at h
    · split at h <;> cases h
      exact ⟨[], g, rfl⟩
    · split at h <;> cases h
      exact ⟨[], g, rfl⟩
    · cases h
  | stopContext =>
    simp only [mainStep, stopContext] at h
    split at h <;> cases h
    exact ⟨[], g, rfl⟩
  | join =>
    simp only [mainStep, joinWorkers] at h
    split at h <;> cases h
    exact ⟨[], g, rfl⟩

/-- **What a step of the server is to the loop.** -/
theorem step_loop {a : Action} (hc : s.Control) (hi : s.Owned) (g : DispatchLoop)
    (hs : (s.loop cfg g).Sound) (h : step cfg s a = some s') : ∃ as g',
      Transition.run (DispatchLoop.step cfg.handlers) (s.loop cfg g) as = some (s'.loop cfg g') := by
  have heff := step_effect hc h
  cases heff with
  | accept w error s' hready hout h => exact ⟨[], g, congrArg some (h.loop_eq g).symm⟩
  | session k b s' hk ha h =>
    obtain ⟨as, has⟩ := h.loop hk (hc.session k hk) hi (fun w hb => absurd hb (ha w)) g
    exact ⟨as, g, has⟩
  | header k w s' hk h =>
    obtain ⟨as, has⟩ := h.loop hk (hc.getInstance.session k hk) hi.getInstance
      (fun _ _ => mem_getInstance_constructed) g
    rw [loop_getInstance] at has
    exact ⟨as, g, has⟩
  | main b s' hmain => exact mainStep_loop hi g hs h

/-! ## Runs -/

/-- What the first call of `dispatch_request` finds, as far as the loop is concerned. -/
def setting (cfg : Config) (mem : Memory) : DispatchLoop.Setting where
  requests := BlockingConcurrentQueue.empty
  unsignalled := 0
  pool := TsMemoryPool.create cfg.pushed
  mem := mem
  others := 0
  card := BlockingConcurrentQueue.card_empty
  inv := inv_create cfg.pushed
  refs := refs_create_zero cfg.pushed

/-- **The server runs the dispatch loop.** -/
theorem runs_loop {mem : Memory} (h : Transition.Reachable (step cfg) (init mem) s) : ∃ as g,
    Transition.run (DispatchLoop.step cfg.handlers) (DispatchLoop.start (setting cfg mem)) as =
      some (s.loop cfg g) := by
  refine (h.invariant (I := fun s => s.Control ∧ s.Owned ∧ ∃ as g,
    Transition.run (DispatchLoop.step cfg.handlers) (DispatchLoop.start (setting cfg mem)) as =
      some (s.loop cfg g)) ⟨control_init mem, owned_init mem, [],
      DispatchLoop.start (setting cfg mem), rfl⟩ ?_).2.2
  rintro s a s' ⟨hc, hi, as, g, has⟩ hstep
  have heff := step_effect hc hstep
  have hs := DispatchLoop.sound_of_run (DispatchLoop.sound_start _) has
  obtain ⟨bs, g', hbs⟩ := step_loop hc hi g hs hstep
  exact ⟨hc.step heff, hi.step hc heff, as ++ bs, g', Transition.run_append.mpr ⟨_, has, hbs⟩⟩

theorem mem_refs_of_loop {g : DispatchLoop} {sp : SharedPtr} (h : sp ∈ (s.loop cfg g).refs) : sp ∈ s.refs := by
  rcases Multiset.mem_add.mp h with h | h
  · exact mem_refs_of_elsewhere h
  · rcases Multiset.mem_add.mp h with h | h
    · exact Multiset.mem_add.mpr (Or.inr (Multiset.mem_add.mpr (Or.inl h)))
    · exact mem_refs_of_main (Multiset.mem_add.mpr (Or.inl h))

/-- The block of a packet dispatched to which nobody refers any more is on the stack of its type,
once, or deleted. -/
theorem dispatched_block_free {mem : Memory} (h : Transition.Reachable (step cfg) (init mem) s)
    {d : Dispatched} (hd : d ∈ s.dispatched) (hfree : ∀ sp ∈ s.refs, sp.ptr ≠ d.item.owner.ptr) :
    (∃ b, (s.builtPool cfg).heap[d.item.owner.ptr]? = some b ∧
      Custody.At (s.builtPool cfg).held d.item.owner.ptr (.stack b)) ∨
    Custody.At (s.builtPool cfg).held d.item.owner.ptr .deleted := by
  obtain ⟨as, g, has⟩ := runs_loop h
  have hs := DispatchLoop.sound_of_run (DispatchLoop.sound_start _) has
  have hremoved : d.item ∈ (s.loop cfg g).removed := by
    rw [← hs.log]
    exact List.mem_append_left _ (List.mem_map_of_mem hd)
  exact hs.refs.block_free hs.inv (hs.removed d.item hremoved) fun sp hsp => hfree sp (mem_refs_of_loop hsp)

/-- A packet is dispatched and the call returns: its block is back on its stack. -/
theorem dispatched_block_free_one_packet : ∃ s d, Transition.run (step oneHandler) (init fun _ _ => 255)
    (connects 0 ++ arrives 0 1 oneByteHeader [7] ++ dispatches 1 ++
      [.main .endDispatch, .main .wait, .main (.return true)]) = some s ∧ d ∈ s.dispatched ∧
    ∃ b, (s.builtPool oneHandler).heap[d.item.owner.ptr]? = some b ∧
      Custody.At (s.builtPool oneHandler).held d.item.owner.ptr (.stack b) := by
  have hrun : (Transition.run (step oneHandler) (init fun _ _ => 255)
      (connects 0 ++ arrives 0 1 oneByteHeader [7] ++ dispatches 1 ++
        [.main .endDispatch, .main .wait, .main (.return true)])).map
        (fun s => (s.refs.card, s.dispatched.length, (s.builtPool oneHandler).deleted)) =
      some (0, 1, []) := by
    decide +kernel
  obtain ⟨s, hs, hfin⟩ := Option.map_eq_some_iff.mp hrun
  simp only [Prod.mk.injEq] at hfin
  obtain ⟨hrefs, hdispatched, hdeleted⟩ := hfin
  obtain ⟨d, hd⟩ := List.exists_mem_of_length_pos (by omega : 0 < s.dispatched.length)
  have hnone : ∀ sp ∈ s.refs, sp.ptr ≠ d.item.owner.ptr := by
    intro sp hsp
    rw [Multiset.card_eq_zero.mp hrefs] at hsp
    exact absurd hsp (Multiset.notMem_zero sp)
  refine ⟨s, d, hs, hd, ?_⟩
  rcases dispatched_block_free ⟨_, hs⟩ hd hnone with hstack | hgone
  · exact hstack
  · have hcount := hgone.self
    simp [TsMemoryPool.held, hdeleted] at hcount

end Server

end Us2d
