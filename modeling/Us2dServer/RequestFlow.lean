import Us2dServer.ServerPackets

/-!
# Requests from enqueue to dispatch

Two results on what the main thread takes out of the queue.  As a bag, nothing is lost and
nothing is made twice: what has been dispatched, what is being dispatched and what waits are
together the frames received, each with the id of its connection.  As a sequence, the frames
of a connection that one worker has enqueued come out in their order, and no more: `try_dequeue`
may serve a later frame of another worker first.

    Reachable (step cfg) (init mem) s →
      dispatched + being dispatched + queued = frames received      (requests_conserved)
      dispatched requests of one connection and one worker are in wire order, and
      of one connection if no two workers' sub-queues hold them at once
                                                                    (dispatched_in_order)
-/

namespace Us2d

open ByteStore

/-- What a request tells its handler: the session, the type and the packet. -/
structure Content where
  sessionId : UInt32
  packetId : UInt16
  bytes : List UInt8
deriving DecidableEq

/-- The same, read from the request and its block. -/
def PacketRequest.content (m : Memory) (request : PacketRequest) : Content :=
  ⟨request.sessionId, request.packetId, packetBytes m request⟩

/-- What a call of `dispatch` was told. -/
def Dispatched.content (d : Dispatched) : Content :=
  ⟨d.item.request.sessionId, d.item.request.packetId, d.bytes⟩

/-- A request with the frame that it was made for. -/
def Queued.content (item : Queued) : Content :=
  ⟨item.request.sessionId, item.request.packetId, item.frame⟩

/-- A frame received on a connection, stamped with the id that the server gave to it. -/
def Session.stamp (x : Session) (frame : List UInt8) : Content :=
  ⟨x.conn.connectionId, u16At frame 2, frame⟩

/-- The frames whose payload read has completed without error, each stamped. -/
def Session.stamps (x : Session) : Multiset Content := x.frames.map x.stamp

namespace Server

variable {cfg : Config} {s s' : Server} {k : Nat} {x : Session} {item : Queued}

/-- The stamped frames of all connections. -/
def received (s : Server) : Multiset Content :=
  Parties.total s.created fun k => (s.sessions k).stamps

/-- The request taken out of the queue and not dispatched yet. -/
def held (s : Server) : List Queued :=
  match s.main with
  | .assigning _ _ | .dispatching _ => s.request.toList
  | _ => []

/-- The requests taken out of the queue so far, in order. -/
def taken (s : Server) : List Queued := s.dispatched.map Dispatched.item ++ s.held

theorem mem_held (h : item ∈ s.held) : s.request = some item := by
  unfold held at h
  split at h
  · simpa using h
  · simpa using h
  · cases h

/-! ## What a step does to the requests -/

theorem SessionEffect.dispatched {a : SessionAction} (h : SessionEffect s k x a s') :
    s'.dispatched = s.dispatched := by
  cases h <;> rfl

theorem SessionEffect.held {a : SessionAction} (h : SessionEffect s k x a s') : s'.held = s.held := by
  unfold Server.held
  rw [h.others.1, h.others.2.1]

/-- A step of the main thread takes nothing out of the queue, or the head of a sub-queue. -/
theorem MainEffect.taken {a : MainAction} (h : MainEffect cfg s a s') :
    (s'.taken = s.taken ∧ s'.requests.inner = s.requests.inner) ∨
      ∃ ptr item, s.requests.inner.removeHead ptr = some (item, s'.requests.inner) ∧
        s'.taken = s.taken ++ [item] := by
  cases h with
  | frameBegun hpc hrun hstop => exact Or.inl ⟨by simp [Server.taken, held, hpc], rfl⟩
  | waited n hpc hn hsema => exact Or.inl ⟨by simp [Server.taken, held, hpc], rfl⟩
  | ended n hpc hend => exact Or.inl ⟨by simp [Server.taken, held, hpc], rfl⟩
  | popped sizeApprox n ptr item q hpc hpop =>
    exact Or.inr ⟨ptr, item, hpop, by simp [Server.taken, held, hpc]⟩
  | assigned n old pushed hpc => exact Or.inl ⟨by simp [Server.taken, held, hpc], rfl⟩
  | dispatched n item hpc hreq => exact Or.inl ⟨by simp [Server.taken, held, hpc, hreq], rfl⟩
  | handled n called hpc hstop => exact Or.inl ⟨by simp [Server.taken, held, hpc], rfl⟩
  | returned pushed hpc => exact Or.inl ⟨by simp [Server.taken, held, hpc], rfl⟩
  | _ => exact Or.inl ⟨rfl, rfl⟩

/-- A step of the main thread makes no call, or one for the request that it holds. -/
theorem MainEffect.dispatched_eq {a : MainAction} (h : MainEffect cfg s a s') :
    s'.dispatched = s.dispatched ∨ ∃ item, s.request = some item ∧
      s'.dispatched = s.dispatched ++ [⟨item, packetBytes s.mem item.request,
        dispatch cfg.handlers s.mem item.request⟩] := by
  cases h with
  | dispatched n item hpc hreq => exact Or.inr ⟨item, hreq, rfl⟩
  | _ => exact Or.inl rfl

/-- The frames received on the other connections stay; those of connection `k` may grow. -/
theorem SessionEffect.received_eq {a : SessionAction} (hk : k < s.created)
    (h : SessionEffect s k (s.sessions k) a s') {new : List (List UInt8)}
    (hframes : (s'.sessions k).frames = (s.sessions k).frames ++ new) :
    s'.received = (new.map (s.sessions k).stamp : Multiset Content) + s.received := by
  have hstamps : (s'.sessions k).stamps =
      (new.map (s.sessions k).stamp : Multiset Content) + (s.sessions k).stamps := by
    have hstamp : (s'.sessions k).stamp = (s.sessions k).stamp := by
      funext f
      simp only [Session.stamp, h.connectionId]
    rw [Session.stamps, hframes, hstamp, List.map_append, ← Multiset.coe_add, add_comm]
    rfl
  have hk' : k < s'.created := h.created.symm ▸ hk
  unfold Server.received
  rw [Parties.total_eq hk, Parties.total_eq hk', h.others_eq, hstamps, add_assoc]

theorem AcceptEffect.received_eq {w : Nat} {error : Option ErrorCode} (h : AcceptEffect s w error s') :
    s'.received = s.received :=
  h.total_eq fun _ _ => rfl

/-! ## Conservation -/

/-- The requests with the frames they were made for, and what the calls of `dispatch` did. -/
structure Logged (cfg : Config) (s : Server) : Prop where
  accounted : (s.taken.map Queued.content : Multiset Content) +
    s.requests.inner.contents.map Queued.content = s.received
  dispatched : ∀ d ∈ s.dispatched, d.bytes = d.item.frame ∧
    d.item.request.packetId = u16At d.bytes 2 ∧ d.called = handlerOf cfg.handlers d.bytes

theorem Logged.session_effect {a : SessionAction} (hl : s.Logged cfg) (hd : s.Data)
    (hk : k < s.created) (h : SessionEffect s k (s.sessions k) a s') : s'.Logged cfg := by
  have htaken : s'.taken = s.taken := by
    unfold taken
    rw [h.dispatched, h.held]
  refine ⟨?_, h.dispatched ▸ hl.dispatched⟩
  rw [htaken]
  rcases h.log with ⟨-, hq, hframes⟩ | ⟨w, owner, m, new, -, hread, hnew, -, hq, hframes, -⟩
  · have hnone : (s'.sessions k).frames = (s.sessions k).frames ++ [] := by
      rw [hframes, List.append_nil]
    rw [h.received_eq hk hnone, hq, hl.accounted]
    simp
  · have hst := ((hd.session k hk).stamped (h.created.symm ▸ hk) hread hnew h.connectionId hframes).1
    have hcontent : new.content = (s.sessions k).stamp (s.sessions k).pending := by
      have hpacket : new.request.packetId = u16At (s.sessions k).pending 2 := by
        rw [hst.packetId, hnew]
      rw [Queued.content, hpacket, hnew]
      rfl
    rw [h.received_eq hk hframes, hq, SubQueues.contents_push, Multiset.map_cons, hcontent,
      Multiset.add_cons, hl.accounted]
    rfl

theorem Logged.main_effect {a : MainAction} (hl : s.Logged cfg) (hd : s.Data)
    (h : MainEffect cfg s a s') : s'.Logged cfg := by
  have hreceived : s'.received = s.received := by
    unfold received
    rw [h.sessions, h.created]
  refine ⟨?_, fun d hdd => ?_⟩
  · rw [hreceived, ← hl.accounted]
    rcases h.taken with ⟨htaken, hq⟩ | ⟨ptr, item, hpop, htaken⟩
    · rw [htaken, hq]
    · rw [htaken, SubQueues.contents_removeHead hpop, List.map_append, ← Multiset.coe_add, add_assoc,
        Multiset.map_cons]
      rfl
  · rcases h.dispatched_eq with hsame | ⟨item, hreq, hnew⟩
    · exact hl.dispatched d (hsame ▸ hdd)
    · rw [hnew, List.mem_append, List.mem_singleton] at hdd
      rcases hdd with hdd | rfl
      · exact hl.dispatched d hdd
      · have hw : s.Waiting item := Or.inr hreq
        have hbytes := (hd.packetBytes_eq hw).1
        have hid : item.request.packetId = u16At (packetBytes s.mem item.request) 2 := by
          rw [hbytes]
          exact (hd.stamped item hw).packetId
        exact ⟨hbytes, hid, dispatch_eq_handlerOf hid rfl⟩

theorem Logged.step {a : Action} (hl : s.Logged cfg) (hi : s.Owned) (hd : s.Data)
    (h : Effect cfg s a s') : s'.Logged cfg := by
  cases h with
  | accept w error s' hready hout h =>
    have hreceived := h.received_eq
    cases h <;> exact ⟨hreceived.symm ▸ hl.accounted, hl.dispatched⟩
  | session k b s' hk ha h => exact hl.session_effect hd hk h
  | header k w s' hk h =>
    have hl' : (s.getInstance cfg).Logged cfg := by
      unfold getInstance
      split
      · exact hl
      · exact ⟨hl.accounted, hl.dispatched⟩
    exact hl'.session_effect (hd.getInstance hi) hk h
  | main b s' h => exact hl.main_effect hd h

theorem logged_of_reachable {mem : Memory} (h : Transition.Reachable (step cfg) (init mem) s) :
    s.Logged cfg := by
  have hinit : (init mem).Logged cfg := ⟨rfl, fun d hd => absurd hd List.not_mem_nil⟩
  exact (reachable_induction (I := fun s => s.Owned ∧ s.Data ∧ s.Logged cfg) h
    ⟨owned_init mem, data_init mem, hinit⟩ fun _ _ _ hc hi h =>
      ⟨hi.1.step hc h, hi.2.1.step hi.1 hc h, hi.2.2.step hi.1 hi.2.1 h⟩).2.2

/-- A report of the end of a connection leaves the queue alone. -/
theorem SessionEffect.requests_of_report {a : SessionAction} (h : SessionEffect s k x a s')
    (hrep : (s'.sessions k).reports ≠ x.reports) : s'.requests = s.requests := by
  cases h with
  | failed | refused | notGrown => rfl
  | _ => exact absurd (by simp [setSession, rented]) hrep

/-- **No request is lost, made twice or given to another session.**  What the calls of
`dispatch` were told, what the request in hand and the waiting ones tell, are together the
frames received, each stamped with the id that the server gave to its connection.  Every call
of `dispatch` calls the handler of the packet's type when there is one and its verifier accepts
the payload, and none otherwise.  The end of a connection changes none of the three. -/
theorem requests_conserved (cfg : Config) (mem : Memory) (s : Server)
    (h : Transition.Reachable (step cfg) (init mem) s) :
    (s.dispatched.map Dispatched.content : Multiset Content) +
        (s.held.map fun item => item.request.content s.mem : Multiset Content) +
        s.requests.inner.contents.map (fun item => item.request.content s.mem) = s.received ∧
    (∀ d ∈ s.dispatched, d.called = handlerOf cfg.handlers d.bytes) ∧
    (∀ k b s', step cfg s (.session k b) = some s' → (s'.sessions k).reports ≠ (s.sessions k).reports →
      s'.requests = s.requests ∧ s'.held = s.held ∧ s'.dispatched = s.dispatched) := by
  have hc := control_of_reachable h
  have hd := data_of_reachable h
  have hl := logged_of_reachable h
  have hcontent : ∀ item, s.Waiting item → item.request.content s.mem = item.content := by
    intro item hw
    rw [PacketRequest.content, (hd.packetBytes_eq hw).1]
    rfl
  refine ⟨?_, fun d hdd => (hl.dispatched d hdd).2.2, fun k b s' hstep hrep => ?_⟩
  · have hdisp : s.dispatched.map Dispatched.content =
        (s.dispatched.map Dispatched.item).map Queued.content := by
      rw [List.map_map]
      refine List.map_congr_left fun d hdd => ?_
      rw [Dispatched.content, (hl.dispatched d hdd).1]
      rfl
    have hheld : s.held.map (fun item => item.request.content s.mem) = s.held.map Queued.content :=
      List.map_congr_left fun item hitem => hcontent item (Or.inr (mem_held hitem))
    have hqueue : s.requests.inner.contents.map (fun item => item.request.content s.mem) =
        s.requests.inner.contents.map Queued.content :=
      Multiset.map_congr rfl fun item hitem => hcontent item (Or.inl hitem)
    rw [hdisp, hheld, hqueue, Multiset.coe_add, ← List.map_append]
    exact hl.accounted
  · cases step_effect hc hstep with
    | session k b s' hk ha heff => exact ⟨heff.requests_of_report hrep, heff.held, heff.dispatched⟩
    | header k w s' hk heff =>
      have hsame : (s.getInstance cfg).requests = s.requests ∧ (s.getInstance cfg).held = s.held ∧
          (s.getInstance cfg).dispatched = s.dispatched := by
        unfold getInstance
        split <;> exact ⟨rfl, rfl, rfl⟩
      have hreq := heff.requests_of_report (by simpa using hrep)
      exact ⟨hreq.trans hsame.1, heff.held.trans hsame.2.1, heff.dispatched.trans hsame.2.2⟩

/-- Two workers, and a handler for the packets of type 0 that accepts any payload. -/
def oneHandler : Config := ⟨2, Handlers.map 0 ⟨1, fun _ => true⟩ fun _ => none, fun _ => true⟩

/-- The main thread takes a request that worker `w` alone has enqueued, and dispatches it. -/
def dispatches (w : Nat) : List Action :=
  [.main .beginFrame, .main .wait, .main (.pop fun t => if t = w then 1 else 0),
    .main (.assign true), .main .dispatch]

/-- A packet arrives and is dispatched. -/
theorem requests_conserved_one_packet : ∃ s, Transition.run (step oneHandler) (init fun _ _ => 255)
    (connects 0 ++ arrives 0 1 oneByteHeader [7] ++ dispatches 1) = some s ∧
    s.received = {⟨10000, 0, oneByteHeader ++ [7]⟩} := by
  have hrun : (Transition.run (step oneHandler) (init fun _ _ => 255)
      (connects 0 ++ arrives 0 1 oneByteHeader [7] ++ dispatches 1)).map
        (fun s => (s.dispatched.map Dispatched.content, s.main, s.requests.inner.producers,
          s.requests.inner.items 1)) =
      some ([⟨10000, 0, oneByteHeader ++ [7]⟩], .handling 0 (some 1), [1], []) := by
    decide +kernel
  obtain ⟨s, hs, hfin⟩ := Option.map_eq_some_iff.mp hrun
  simp only [Prod.mk.injEq] at hfin
  obtain ⟨hdisp, hmain, hproducers, hitems⟩ := hfin
  have hheld : s.held = [] := by simp [held, hmain]
  have hqueue : s.requests.inner.contents = 0 := by
    simp [SubQueues.contents, hproducers, hitems]
  refine ⟨s, hs, ?_⟩
  rw [← (requests_conserved oneHandler _ s ⟨_, hs⟩).1, hdisp, hheld, hqueue]
  rfl

/-! ## Order -/

/-- What a step does to the queue, to what has gone in and come out, and to the frames. -/
inductive QueueEffect (s : Server) (a : Action) (s' : Server) : Prop
  | same (hq : s'.requests.inner = s.requests.inner) (henq : s'.enqueued = s.enqueued)
      (htaken : s'.taken = s.taken) (hframes : ∀ j, (s'.sessions j).frames = (s.sessions j).frames)
  | pushed (k w : Nat) (item : Queued) (ha : a = .session k (.payload w none))
      (hsource : item.source = k) (hworker : item.worker = w)
      (hseq : item.seq = (s.sessions k).frames.length)
      (hq : s'.requests.inner = s.requests.inner.push w item)
      (henq : s'.enqueued = s.enqueued ++ [item]) (htaken : s'.taken = s.taken)
      (hframes : ∀ j, (s'.sessions j).frames =
        (s.sessions j).frames ++ if j = k then [item.frame] else [])
  | removed (ptr : Nat) (item : Queued)
      (hq : s.requests.inner.removeHead ptr = some (item, s'.requests.inner))
      (henq : s'.enqueued = s.enqueued) (htaken : s'.taken = s.taken ++ [item])
      (hframes : ∀ j, (s'.sessions j).frames = (s.sessions j).frames)

theorem SessionEffect.queue {a : SessionAction} (h : SessionEffect s k (s.sessions k) a s') :
    QueueEffect s (.session k a) s' := by
  have htaken : s'.taken = s.taken := by
    unfold taken
    rw [h.dispatched, h.held]
  rcases h.log with ⟨henq, hq, hframes⟩ | ⟨w, owner, m, new, ha, -, hnew, henq, hq, hframes, -⟩
  · refine .same hq henq htaken fun j => ?_
    by_cases hj : j = k
    · rw [hj, hframes]
    · rw [h.other hj]
  · refine .pushed k w new (by rw [ha]) (by rw [hnew]) (by rw [hnew]) (by rw [hnew]) hq henq htaken ?_
    intro j
    by_cases hj : j = k
    · rw [hj, if_pos rfl, hframes, hnew]
    · rw [h.other hj, if_neg hj, List.append_nil]

theorem Effect.queue {a : Action} (hc : s.Control) (h : Effect cfg s a s') : QueueEffect s a s' := by
  cases h with
  | accept w error s' hready hout h =>
    cases h with
    | created hrun =>
      refine .same rfl rfl rfl fun j => ?_
      by_cases hj : j = s.created
      · rw [hj, hc.unused s.created (le_refl _)]
        simp [setSession, Session.new, Session.unused]
      · simp [setSession, hj]
    | _ => exact .same rfl rfl rfl fun _ => rfl
  | session k b s' hk ha h => exact h.queue
  | header k w s' hk h =>
    have hsame : (s.getInstance cfg).requests = s.requests ∧ (s.getInstance cfg).taken = s.taken := by
      unfold getInstance
      split <;> exact ⟨rfl, rfl⟩
    cases h.queue with
    | same hq henq htaken hframes =>
      exact .same (by rw [hq, hsame.1]) (by simpa using henq) (htaken.trans hsame.2)
        (by simpa using hframes)
    | pushed j v item ha => cases ha
    | removed ptr item hq henq htaken hframes =>
      rw [hsame.1] at hq
      exact .removed ptr item hq (by simpa using henq) (by rw [htaken, hsame.2]) (by simpa using hframes)
  | main b s' h =>
    have hframes : ∀ j, (s'.sessions j).frames = (s.sessions j).frames := fun j => by rw [h.sessions]
    rcases h.taken with ⟨htaken, hq⟩ | ⟨ptr, item, hpop, htaken⟩
    · exact .same hq h.enqueued_eq htaken hframes
    · exact .removed ptr item hpop h.enqueued_eq htaken hframes

/-- The sub-queue of a worker holds what the worker has enqueued, and the requests enqueued
for a connection are its frames, numbered. -/
structure Sequenced (s : Server) : Prop where
  worker : ∀ w, ∀ item ∈ s.requests.inner.items w, item.worker = w
  seqs : ∀ k, (s.enqueued.filter (·.source = k)).map Queued.seq =
    List.range (s.sessions k).frames.length
  frames : ∀ k, (s.enqueued.filter (·.source = k)).map Queued.frame = (s.sessions k).frames

theorem Sequenced.step {a : Action} (hs : s.Sequenced) (h : QueueEffect s a s') : s'.Sequenced := by
  cases h with
  | same hq henq htaken hframes =>
    refine ⟨by rw [hq]; exact hs.worker, fun j => ?_, fun j => ?_⟩
    · rw [henq, hframes]; exact hs.seqs j
    · rw [henq, hframes]; exact hs.frames j
  | pushed k w item ha hsource hworker hseq hq henq htaken hframes =>
    refine ⟨fun v i hi => ?_, fun j => ?_, fun j => ?_⟩
    · rw [hq, SubQueues.push_items] at hi
      by_cases hv : v = w
      · subst hv
        rw [Function.update_self, List.mem_append, List.mem_singleton] at hi
        rcases hi with hi | rfl
        · exact hs.worker v i hi
        · exact hworker
      · rw [Function.update_of_ne hv] at hi
        exact hs.worker v i hi
    · rw [henq, hframes, List.filter_append, List.map_append, hs.seqs]
      by_cases hj : j = k
      · subst hj
        simp [hsource, hseq, List.range_succ]
      · simp [hsource, hj, Ne.symm hj]
    · rw [henq, hframes, List.filter_append, List.map_append, hs.frames]
      by_cases hj : j = k
      · subst hj
        simp [hsource]
      · simp [hsource, hj, Ne.symm hj]
  | removed ptr item hq henq htaken hframes =>
    obtain ⟨rest, hold, hnew, -⟩ := SubQueues.removeHead_eq_some hq
    refine ⟨fun v i hi => ?_, fun j => ?_, fun j => ?_⟩
    · by_cases hv : v = ptr
      · subst hv
        rw [hnew, Function.update_self] at hi
        exact hs.worker v i (by rw [hold]; exact List.mem_cons_of_mem _ hi)
      · rw [hnew, Function.update_of_ne hv] at hi
        exact hs.worker v i hi
    · rw [henq, hframes]; exact hs.seqs j
    · rw [henq, hframes]; exact hs.frames j

theorem sequenced_init (mem : Memory) : (init mem).Sequenced :=
  ⟨fun _ _ hi => absurd hi List.not_mem_nil, fun _ => rfl, fun _ => rfl⟩

/-- The requests of the kind `p` come out of the queue in the order in which they went in. -/
def InOrder (s : Server) (p : Queued → Bool) : Prop :=
  SubQueues.Ordered p s.requests.inner s.enqueued s.taken

/-- They do if no request of the kind is pushed while another sub-queue holds one. -/
theorem InOrder.step {p : Queued → Bool} {a : Action} (ho : s.InOrder p) (h : QueueEffect s a s')
    (hp : ∀ w item, a = .session item.source (.payload w none) → item.worker = w → p item = true →
      SubQueues.OnlyAt p s.requests.inner w) : s'.InOrder p := by
  unfold InOrder
  cases h with
  | same hq henq htaken hframes =>
    rw [hq, henq, htaken]
    exact ho
  | pushed k w item ha hsource hworker hseq hq henq htaken hframes =>
    rw [hq, henq, htaken]
    exact SubQueues.Ordered.push ho (hp w item (by rw [ha, hsource]) hworker)
  | removed ptr item hq henq htaken hframes =>
    rw [henq, htaken]
    exact SubQueues.Ordered.removeHead ho hq

/-- The requests of connection `k`. -/
def ofSession (k : Nat) (item : Queued) : Bool := item.source = k

/-- Those that worker `w` has enqueued. -/
def ofWorker (k w : Nat) (item : Queued) : Bool := item.source = k ∧ item.worker = w

/-- No request of connection `k` is enqueued while one waits in the sub-queue of another
worker. -/
def InTurn (k : Nat) (s : Server) (a : Action) : Prop :=
  ∀ w, a = .session k (.payload w none) →
    ∀ u, u ≠ w → ∀ item ∈ s.requests.inner.items u, item.source ≠ k

theorem sequenced_of_reachable {mem : Memory} (h : Transition.Reachable (step cfg) (init mem) s) :
    s.Sequenced :=
  reachable_induction h (sequenced_init mem) fun _ _ _ hc hi h => hi.step (h.queue hc)

theorem inOrder_ofWorker {mem : Memory} (h : Transition.Reachable (step cfg) (init mem) s) (k w : Nat) :
    s.InOrder (ofWorker k w) := by
  refine (reachable_induction (I := fun s => s.Sequenced ∧ s.InOrder (ofWorker k w)) h
    ⟨sequenced_init mem, SubQueues.ordered_empty⟩ fun s a s' hc hi h =>
      ⟨hi.1.step (h.queue hc), hi.2.step (h.queue hc) fun v item ha hv hp => ?_⟩).2
  intro u hu
  rw [List.filter_eq_nil_iff]
  intro i hmem hpi
  simp only [ofWorker, decide_eq_true_eq] at hp hpi
  have hui := hi.1.worker u i hmem
  omega

theorem inOrder_ofSession {mem : Memory} {as : List Action}
    (h : Transition.run (step cfg) (init mem) as = some s)
    (hturn : Transition.Along (step cfg) (InTurn k) (init mem) as) : s.InOrder (ofSession k) := by
  refine run_induction_along (I := fun s => s.InOrder (ofSession k)) h hturn SubQueues.ordered_empty
    fun s a s' hc hi hC h => hi.step (h.queue hc) fun v item ha hv hp => ?_
  intro u hu
  rw [List.filter_eq_nil_iff]
  intro i hmem hpi
  simp only [ofSession, decide_eq_true_eq] at hp hpi
  exact hC v (by rw [ha, hp]) u hu i hmem hpi

/-- With one worker there is one sub-queue, and so the condition holds in every run. -/
theorem inTurn_of_one_worker {mem : Memory} {as : List Action} (hw : cfg.workers ≤ 1)
    (h : Transition.run (step cfg) (init mem) as = some s) :
    Transition.Along (step cfg) (InTurn k) (init mem) as := by
  refine Transition.along_of_run
    (I := fun s => s.Control ∧ ∀ u, 0 < u → s.requests.inner.items u = [])
    (fun s a s' hi hstep => ?_) h ⟨control_init mem, fun _ _ => rfl⟩
  obtain ⟨hc, hempty⟩ := hi
  have heff := step_effect hc hstep
  refine ⟨⟨hc.step heff, fun u hu => ?_⟩, fun w ha u huw item hitem => ?_⟩
  · cases heff.queue hc with
    | same hq => rw [hq, hempty u hu]
    | pushed j w item ha hsource hworker hseq hq =>
      have hlt := (lt_workers_of_ready (ready_of_step (ha ▸ hstep) rfl)).1
      rw [hq, SubQueues.push_items, Function.update_of_ne (by omega), hempty u hu]
    | removed ptr item hq =>
      obtain ⟨rest, hold, hnew, -⟩ := SubQueues.removeHead_eq_some hq
      by_cases hup : u = ptr
      · rw [← hup, hempty u hu] at hold
        cases hold
      · rw [hnew, Function.update_of_ne hup, hempty u hu]
  · have hlt := (lt_workers_of_ready (ready_of_step (ha ▸ hstep) rfl)).1
    rw [hempty u (by omega)] at hitem
    cases hitem

/-- The dispatched requests of a kind that is in order are the first ones enqueued. -/
theorem InOrder.dispatched {p : Queued → Bool} (ho : s.InOrder p) :
    (s.dispatched.filter fun d => p d.item).map Dispatched.item <+: s.enqueued.filter p := by
  have hmap : (s.dispatched.filter fun d => p d.item).map Dispatched.item =
      (s.dispatched.map Dispatched.item).filter p := by
    rw [List.filter_map]
    rfl
  have htaken : (s.dispatched.map Dispatched.item).filter p <+: s.taken.filter p := by
    unfold taken
    rw [List.filter_append]
    exact List.prefix_append _ _
  rw [hmap]
  exact htaken.trans (SubQueues.Ordered.isPrefix ho)

/-- The requests enqueued for a connection are numbered upwards. -/
theorem Sequenced.pairwise (hs : s.Sequenced) (k : Nat) :
    (s.enqueued.filter (ofSession k)).Pairwise fun i j => i.seq < j.seq := by
  have hrange := List.pairwise_lt_range (n := (s.sessions k).frames.length)
  rw [← hs.seqs k, List.pairwise_map] at hrange
  exact hrange

/-- The number of a request is the place of its frame in the stream of its connection. -/
theorem Sequenced.getElem_frames (hs : s.Sequenced) (h : item ∈ s.enqueued) :
    (s.sessions item.source).frames[item.seq]? = some item.frame := by
  have hmem : item ∈ s.enqueued.filter (·.source = item.source) :=
    List.mem_filter.mpr ⟨h, by simp⟩
  obtain ⟨i, hi⟩ := List.mem_iff_getElem?.mp hmem
  have hseq : i = item.seq := by
    have := congrArg (fun l => l[i]?) (hs.seqs item.source)
    simp only [List.getElem?_map, hi, Option.map_some] at this
    have hlt := List.getElem?_eq_some_iff.mp this.symm
    simpa using hlt.2
  rw [← hs.frames, ← hseq, List.getElem?_map, hi]
  rfl

/-- **The order of the requests of a connection.**  A dispatched request is the frame at its
number in the stream of its connection.  The requests that one worker has enqueued for a
connection are dispatched in the order of their frames.  All requests of a connection are, the
first of them first and none left out, if there is one worker, or if none is enqueued while
another waits in the sub-queue of a different worker. -/
theorem dispatched_in_order (cfg : Config) (mem : Memory) (as : List Action) (s : Server)
    (h : Transition.run (step cfg) (init mem) as = some s) (k : Nat) :
    (∀ d ∈ s.dispatched, (s.sessions d.item.source).frames[d.item.seq]? = some d.bytes) ∧
    (∀ w, (s.dispatched.filter fun d => ofWorker k w d.item).Pairwise
      fun d e => d.item.seq < e.item.seq) ∧
    (cfg.workers ≤ 1 ∨ Transition.Along (step cfg) (InTurn k) (init mem) as →
      (s.dispatched.filter fun d => ofSession k d.item).map Dispatched.bytes <+:
        (s.sessions k).frames) := by
  have hs := sequenced_of_reachable ⟨as, h⟩
  have hl := logged_of_reachable ⟨as, h⟩
  refine ⟨fun d hd => ?_, fun w => ?_, fun hturn => ?_⟩
  · have hpre := (inOrder_ofWorker ⟨as, h⟩ d.item.source d.item.worker).dispatched
    have hmem : d.item ∈ s.enqueued.filter (ofWorker d.item.source d.item.worker) := by
      refine hpre.subset (List.mem_map_of_mem (List.mem_filter.mpr ⟨hd, ?_⟩))
      simp [ofWorker]
    rw [hs.getElem_frames (List.mem_filter.mp hmem).1, (hl.dispatched d hd).1]
  · have hpre := (inOrder_ofWorker ⟨as, h⟩ k w).dispatched
    have hsub : (s.enqueued.filter (ofWorker k w)).Sublist (s.enqueued.filter (ofSession k)) := by
      refine List.monotone_filter_right _ fun item hp => ?_
      simp only [ofWorker, ofSession, decide_eq_true_eq] at hp ⊢
      exact hp.1
    have hpair := (hs.pairwise k).sublist (hpre.sublist.trans hsub)
    rw [List.pairwise_map] at hpair
    exact hpair
  · have hC : Transition.Along (step cfg) (InTurn k) (init mem) as := by
      rcases hturn with hw | hC
      · exact inTurn_of_one_worker hw h
      · exact hC
    have hpre := (inOrder_ofSession h hC).dispatched
    have hbytes : (s.dispatched.filter fun d => ofSession k d.item).map Dispatched.bytes =
        ((s.dispatched.filter fun d => ofSession k d.item).map Dispatched.item).map Queued.frame := by
      rw [List.map_map]
      exact List.map_congr_left fun d hd => (hl.dispatched d (List.mem_filter.mp hd).1).1
    rw [hbytes, ← hs.frames k]
    exact hpre.map Queued.frame

/-- The main thread ends a call and makes the next, for a request of worker `w` alone. -/
def dispatchesNext (w : Nat) : List Action :=
  [.main .endDispatch, .main .wait, .main (.pop fun t => if t = w then 1 else 0),
    .main (.assign true), .main .dispatch]

/-- The action is a payload handler that enqueues. -/
def Action.enqueues : Action → Bool
  | .session _ (.payload _ none) => true
  | _ => false

/-- A request is enqueued into an empty queue. -/
def EnqueuesAlone (s : Server) (a : Action) : Prop := a.enqueues = true → s.requests.inner.contents = 0

instance (s : Server) (a : Action) : Decidable (EnqueuesAlone s a) :=
  inferInstanceAs (Decidable (a.enqueues = true → s.requests.inner.contents = 0))

theorem EnqueuesAlone.inTurn {a : Action} (h : EnqueuesAlone s a) : InTurn k s a := by
  rintro w rfl u - item hitem
  have hmem : item ∈ s.requests.inner.contents := SubQueues.mem_contents.mpr ⟨u, hitem⟩
  rw [h rfl] at hmem
  cases hmem

/-- Two packets handled by two workers, the second after the first has been dispatched. -/
theorem dispatched_in_order_two_workers : ∃ s, Transition.run (step twoWorkers) (init fun _ _ => 255)
    (connects 0 ++ arrives 0 0 oneByteHeader [7] ++ dispatches 0 ++
      arrives 0 1 oneByteHeader [8] ++ dispatchesNext 1) = some s ∧
    (s.dispatched.filter fun d => ofSession 0 d.item).map Dispatched.bytes <+: (s.sessions 0).frames := by
  have hrun : (Transition.run (step twoWorkers) (init fun _ _ => 255)
      (connects 0 ++ arrives 0 0 oneByteHeader [7] ++ dispatches 0 ++
        arrives 0 1 oneByteHeader [8] ++ dispatchesNext 1)).isSome := by
    decide +kernel
  have halone : Transition.Along (step twoWorkers) EnqueuesAlone (init fun _ _ => 255)
      (connects 0 ++ arrives 0 0 oneByteHeader [7] ++ dispatches 0 ++
        arrives 0 1 oneByteHeader [8] ++ dispatchesNext 1) := by
    decide +kernel
  obtain ⟨s, hs⟩ := Option.isSome_iff_exists.mp hrun
  exact ⟨s, hs, (dispatched_in_order twoWorkers _ _ s hs 0).2.2
    (Or.inr (halone.mono fun _ _ => EnqueuesAlone.inTurn))⟩

/-- Two packets of one connection, handled by two workers, wait in sub-queues of one item each;
`try_dequeue` serves the later producer, and so the later packet, first. -/
theorem later_packet_dispatched_first : ¬ ∀ (cfg : Config) (mem : Memory) (s : Server),
    Transition.Reachable (step cfg) (init mem) s → ∀ k,
      (s.dispatched.filter fun d => d.item.source = k).Pairwise fun d e => d.item.seq < e.item.seq := by
  intro hall
  have hrun : (Transition.run (step twoWorkers) (init fun _ _ => 255)
      (connects 0 ++ arrives 0 0 oneByteHeader [7] ++ arrives 0 1 oneByteHeader [8] ++
        [.main .beginFrame, .main .wait, .main (.pop fun _ => 1), .main (.assign true),
          .main .dispatch] ++ dispatchesNext 0)).map
        (fun s => (s.dispatched.filter fun d => d.item.source = 0).map fun d => d.item.seq) =
      some [1, 0] := by
    decide +kernel
  obtain ⟨s, hs, hseqs⟩ := Option.map_eq_some_iff.mp hrun
  have hpair := List.pairwise_map.mpr (hall twoWorkers _ s ⟨_, hs⟩ 0)
  rw [hseqs] at hpair
  exact absurd hpair (by decide)

end Server

end Us2d
