import Us2dServer.Server

/-!
# What a step of the server can do

The functions of the model follow the source; the relations here say the same by cases, one
constructor for each way through a function, with its guard and the state it leads to.  Later
proofs split a step by these cases and do not unfold the functions.  `Control` is the part of
the invariant that rules out one way, the exit of a read handler on `!is_running`.

    Control s → step cfg s a = some s' → Effect cfg s a s'       (step_effect)
-/

namespace Us2d

open ByteStore

/-- The `packet_owner` that the handler of a read captures. -/
def AsyncRead.owner : AsyncRead → Option SharedPtr
  | .header _ => none
  | .payload packetOwner _ _ => some packetOwner

/-- The call of the handler of a read. -/
def AsyncRead.completion (worker : Nat) (error : Option ErrorCode) : AsyncRead → Server.SessionAction
  | .header _ => .header worker error
  | .payload _ _ _ => .payload worker error

namespace Session

/-- The accept handler has called `start()`. -/
def Started (x : Session) : Prop := ∀ w, x.accept ≠ .created w

/-- One between a completed read and what follows it: the next read, or the report. -/
def between (x : Session) : Nat :=
  match x.handler with
  | some (.allocating _ _) | some (.enqueued _ _) => 1
  | _ => 0

/-- Control of one connection: an outstanding read, a handler on its way to the next read, and
the report of the end exclude one another. -/
structure Control (x : Session) : Prop where
  outstanding : x.conn.outstanding = if x.conn.read.isSome then 1 else 0
  fresh : ∀ w, x.accept = .created w → x.conn.read = none ∧ x.handler = none ∧ x.reports = 0
  one : x.Started → x.conn.outstanding + x.between + x.reports = 1
  running : x.Started → (x.conn.isRunning = true ↔ x.reports = 0)

theorem Control.started_of_read {x : Session} (hc : x.Control) {op : AsyncRead}
    (h : x.conn.read = some op) : x.Started := by
  intro w hw
  rw [(hc.fresh w hw).1] at h
  cases h

theorem Control.started_of_handler {x : Session} (hc : x.Control) {pc : HandlerPc}
    (h : x.handler = some pc) : x.Started := by
  intro w hw
  rw [(hc.fresh w hw).2.1] at h
  cases h

/-- While a read is outstanding the connection is running, and has not reported. -/
theorem Control.reading {x : Session} (hc : x.Control) {op : AsyncRead} (h : x.conn.read = some op) :
    x.conn.isRunning = true ∧ x.conn.outstanding = 1 ∧ x.between = 0 ∧ x.reports = 0 := by
  have hs := hc.started_of_read h
  have ho : x.conn.outstanding = 1 := by rw [hc.outstanding, h]; rfl
  have h1 := hc.one hs
  exact ⟨(hc.running hs).mpr (by omega), ho, by omega, by omega⟩

theorem Control.ofStarted {x : Session} (hs : x.Started)
    (hout : x.conn.outstanding = if x.conn.read.isSome then 1 else 0)
    (hone : x.conn.outstanding + x.between + x.reports = 1)
    (hrun : x.conn.isRunning = true ↔ x.reports = 0) : x.Control :=
  ⟨hout, fun w hw => absurd hw (hs w), fun _ => hone, fun _ => hrun⟩

/-- A handler on its way to the next read. -/
theorem Control.ofBetween {x : Session} (hc : x.Control) {pc : HandlerPc} (h : x.handler = some pc)
    (hb : x.between = 1) : x.conn.read = none ∧ x.conn.outstanding = 0 ∧
      x.conn.isRunning = true ∧ x.reports = 0 := by
  have hs := hc.started_of_handler h
  have h1 := hc.one hs
  have ho : x.conn.outstanding = 0 := by omega
  have hread := hc.outstanding
  rw [ho] at hread
  refine ⟨?_, ho, (hc.running hs).mpr (by omega), by omega⟩
  cases hr : x.conn.read with
  | none => rfl
  | some op => rw [hr] at hread; cases hread

/-- A connection that has reported has been started, reads nothing, and reports no more. -/
theorem Control.ended {x : Session} (hc : x.Control) (h : 0 < x.reports) :
    x.Started ∧ x.reports = 1 ∧ x.conn.outstanding = 0 ∧ x.between = 0 ∧ x.conn.read = none := by
  have hs : x.Started := by
    intro w hw
    have := (hc.fresh w hw).2.2
    omega
  have hone := hc.one hs
  have hout := hc.outstanding
  refine ⟨hs, by omega, by omega, by omega, ?_⟩
  cases hread : x.conn.read with
  | none => rfl
  | some op =>
    rw [hread, Option.isSome_some, if_pos rfl] at hout
    omega

end Session

namespace Server

/-- Control of all connections, made and to come. -/
structure Control (s : Server) : Prop where
  session : ∀ k, k < s.created → (s.sessions k).Control
  unused : ∀ k, s.created ≤ k → s.sessions k = Session.unused

/-- The connection reports its end, in the state `x`. -/
def report (k : Nat) (x : Session) (s : Server) : Server :=
  { s.setSession k { x with reports := x.reports + 1 } with
    tcp := s.tcp.disconnect x.conn.connectionId }

/-- The block is lent: it gets the header, and the payload is awaited. -/
def rented (k : Nat) (x : Session) (c : Connection) (owner : SharedPtr) (s : Server) : Server :=
  { s.setSession k { x with conn := c.asyncReadPayload owner (PacketHeader.payloadSize c.headerReadBuffer),
                            handler := none } with
    mem := s.mem.write owner.ptr 0 (slice c.headerReadBuffer 0 sizeofPacketHeader) }

/-! ## The cases -/

/-- The steps of connection `k`, whose state before the step is `x`. -/
inductive SessionEffect (s : Server) (k : Nat) (x : Session) : SessionAction → Server → Prop
  | started (w : Nat) (hpc : x.accept = .created w) :
      SessionEffect s k x .start
        (s.setSession k { x with conn := x.conn.start, accept := .started w })
  | inserted (w : Nat) (hpc : x.accept = .started w) :
      SessionEffect s k x .insert
        { s.setSession k { x with accept := .inserted w } with
          tcp := { s.tcp with connections := s.tcp.connections.insert x.conn.connectionId k } }
  | rearmed (w : Nat) (hpc : x.accept = .inserted w) :
      SessionEffect s k x .rearm
        { s.setSession k { x with accept := .returned } with tcp := s.tcp.asyncAccept }
  | received (op : AsyncRead) (bs : List UInt8) (hread : x.conn.read = some op)
      (hfit : op.got + bs.length ≤ op.length) :
      SessionEffect s k x (.receive bs)
        { s.setSession k { x with conn := (x.conn.receive bs s.mem).1, pending := x.pending ++ bs } with
          mem := (x.conn.receive bs s.mem).2 }
  | failed (w : Nat) (e : ErrorCode) (op : AsyncRead) (hread : x.conn.read = some op)
      (hpc : x.handler = none) (hgot : op.got ≠ op.length) :
      SessionEffect s k x (op.completion w (some e))
        (s.report k { x with conn := x.conn.completed.stop.close,
                             handler := op.owner.map (HandlerPc.leaving w) })
  | refused (w : Nat) (hread : x.conn.read = some (.header sizeofPacketHeader))
      (hpc : x.handler = none) (hclass : TsMemoryPool.classOf x.conn.rentSize = none) :
      SessionEffect s k x (.header w none)
        (s.report k { x with conn := x.conn.completed.stop, handler := none })
  | popped (w : Nat) (t : BlockType) (owner : SharedPtr) (p : TsMemoryPool)
      (hread : x.conn.read = some (.header sizeofPacketHeader)) (hpc : x.handler = none)
      (hclass : TsMemoryPool.classOf x.conn.rentSize = some t)
      (hpop : s.pool.rentPopped t = some (owner, p)) :
      SessionEffect s k x (.header w none)
        (rented k x x.conn.completed owner { s with pool := p })
  | emptyStack (w : Nat) (t : BlockType)
      (hread : x.conn.read = some (.header sizeofPacketHeader)) (hpc : x.handler = none)
      (hclass : TsMemoryPool.classOf x.conn.rentSize = some t) :
      SessionEffect s k x (.header w none)
        (s.setSession k { x with conn := x.conn.completed,
                                 handler := some (.allocating w x.conn.rentSize) })
  | grown (w size : Nat) (t : BlockType) (hpc : x.handler = some (.allocating w size))
      (hclass : TsMemoryPool.classOf size = some t) :
      SessionEffect s k x (.allocate true)
        (rented k x x.conn (s.pool.rentFresh t).1 { s with pool := (s.pool.rentFresh t).2 })
  | notGrown (w size : Nat) (hpc : x.handler = some (.allocating w size)) :
      SessionEffect s k x (.allocate false)
        (s.report k { x with conn := x.conn.stop, handler := none })
  | enqueued (w : Nat) (owner : SharedPtr) (n : UInt16)
      (hread : x.conn.read = some (.payload owner n n.toNat)) (hpc : x.handler = none)
      (item : Queued) (hitem : item = ⟨⟨x.conn.connectionId, PacketHeader.typeId (s.mem owner.ptr), owner⟩,
        k, x.frames.length, x.pending, w⟩) :
      SessionEffect s k x (.payload w none)
        { s.setSession k { x with conn := x.conn.completed, handler := some (.enqueued w owner),
                                  frames := x.frames ++ [x.pending], pending := [] } with
          pool := s.pool.copy owner
          requests := s.requests.enqueue w item
          enqueued := s.enqueued ++ [item] }
  | signalled (w : Nat) (owner : SharedPtr) (hpc : x.handler = some (.enqueued w owner)) :
      SessionEffect s k x .rearmRead
        { s.setSession k { x with conn := x.conn.asyncReadHeader, handler := some (.leaving w owner) } with
          requests := s.requests.signal }
  | left (w : Nat) (owner : SharedPtr) (pushed : Bool) (hpc : x.handler = some (.leaving w owner)) :
      SessionEffect s k x (.leave pushed)
        { s.setSession k { x with handler := none } with pool := s.pool.drop owner pushed }

/-- The steps of the main thread. -/
inductive MainEffect (cfg : Config) (s : Server) : MainAction → Server → Prop
  | frameBegun (hpc : s.main = .idle) (hrun : s.tcp.isRunning = true) (hstop : s.stop = none) :
      MainEffect cfg s .beginFrame { s with main := .dequeue 0 }
  | waited (n : Nat) (hpc : s.main = .dequeue n) (hn : n < maxPacketDispatchThreshold)
      (hsema : 0 < s.requests.sema) :
      MainEffect cfg s .wait
        { s with requests := { s.requests with sema := s.requests.sema - 1 }, main := .spinning n }
  | ended (n : Nat) (hpc : s.main = .dequeue n)
      (hend : maxPacketDispatchThreshold ≤ n ∨ s.requests.sema = 0) :
      MainEffect cfg s .wait { s with main := .returning }
  | popped (sizeApprox : Nat → Nat) (n ptr : Nat) (item : Queued) (q : SubQueues Queued)
      (hpc : s.main = .spinning n) (hpop : s.requests.inner.removeHead ptr = some (item, q)) :
      MainEffect cfg s (.pop sizeApprox)
        { s with requests := { s.requests with inner := q }, request := some item,
                 main := .assigning n (s.request.map fun r => r.request.packetOwner) }
  | assigned (n : Nat) (old : Option SharedPtr) (pushed : Bool) (hpc : s.main = .assigning n old) :
      MainEffect cfg s (.assign pushed)
        { s with pool := dropOwner old pushed s.pool, main := .dispatching n }
  | dispatched (n : Nat) (item : Queued) (hpc : s.main = .dispatching n) (hreq : s.request = some item) :
      MainEffect cfg s .dispatch
        { s with main := .handling n (dispatch cfg.handlers s.mem item.request),
                 dispatched := s.dispatched ++ [⟨item, packetBytes s.mem item.request,
                   dispatch cfg.handlers s.mem item.request⟩] }
  | kept (n f : Nat) (item : Queued) (hpc : s.main = .handling n (some f))
      (hreq : s.request = some item) :
      MainEffect cfg s .keep
        { s with pool := s.pool.copy item.request.packetOwner,
                 kept := item.request.packetOwner :: s.kept }
  | handled (n : Nat) (called : Option Nat) (hpc : s.main = .handling n called) (hstop : s.stop = none) :
      MainEffect cfg s .endDispatch { s with main := .dequeue (n + 1) }
  | returned (pushed : Bool) (hpc : s.main = .returning) :
      MainEffect cfg s (.return pushed)
        { s with pool := dropOwner (s.request.map fun r => r.request.packetOwner) pushed s.pool,
                 request := none, main := .idle }
  | released (sp : SharedPtr) (pushed : Bool) (hkept : sp ∈ s.kept) :
      MainEffect cfg s (.release sp pushed)
        { s with pool := s.pool.drop sp pushed, kept := s.kept.erase sp }
  | stopped (hpc : s.main = .idle ∨ ∃ n f, s.main = .handling n (some f)) (hstop : s.stop = none) :
      MainEffect cfg s .stop
        { s with tcp := { s.tcp with isRunning := false }, stop := some .stopping }
  | contextStopped (hstop : s.stop = some .stopping) :
      MainEffect cfg s .stopContext
        { s with tcp := { s.tcp with contextStopped := true }, stop := some .joining }
  | joined (hstop : s.stop = some .joining) (hquiet : s.quiet = true) :
      MainEffect cfg s .join { s with joined := true, stop := none }

/-- The outcomes of an accept. -/
inductive AcceptEffect (s : Server) (w : Nat) : Option ErrorCode → Server → Prop
  | aborted (e : ErrorCode) (he : ∀ v, e ≠ .other v) :
      AcceptEffect s w (some e) { s with tcp := { s.tcp with accepts := s.tcp.accepts - 1 + 1 } }
  | failed (v : Nat) :
      AcceptEffect s w (some (.other v)) { s with tcp := { s.tcp with accepts := s.tcp.accepts - 1 } }
  | notRunning (hrun : s.tcp.isRunning = false) :
      AcceptEffect s w none { s with tcp := { s.tcp with accepts := s.tcp.accepts - 1 } }
  | created (hrun : s.tcp.isRunning = true) :
      AcceptEffect s w none { s.setSession s.created (Session.new s.tcp.connectionIdCounter w) with
        tcp := { s.tcp with accepts := s.tcp.accepts - 1,
                            connectionIdCounter := s.tcp.connectionIdCounter + 1 },
        created := s.created + 1 }

/-- What the action `a` can do; the header handler may first construct the pool. -/
inductive Effect (cfg : Config) (s : Server) : Action → Server → Prop
  | accept (w : Nat) (error : Option ErrorCode) (s' : Server) (hready : s.ready cfg w = true)
      (hout : 0 < s.tcp.accepts) (h : AcceptEffect s w error s') : Effect cfg s (.accept w error) s'
  | session (k : Nat) (a : SessionAction) (s' : Server) (hk : k < s.created)
      (ha : ∀ w, a ≠ .header w none) (h : SessionEffect s k (s.sessions k) a s') :
      Effect cfg s (.session k a) s'
  | header (k w : Nat) (s' : Server) (hk : k < (s.getInstance cfg).created)
      (h : SessionEffect (s.getInstance cfg) k ((s.getInstance cfg).sessions k) (.header w none) s') :
      Effect cfg s (.session k (.header w none)) s'
  | main (a : MainAction) (s' : Server) (h : MainEffect cfg s a s') : Effect cfg s (.main a) s'

/-! ## Every step is one of the cases -/

variable {cfg : Config} {s s' : Server} {k : Nat}

@[simp] theorem getInstance_sessions : (s.getInstance cfg).sessions = s.sessions := by
  unfold getInstance
  split <;> rfl

@[simp] theorem getInstance_created : (s.getInstance cfg).created = s.created := by
  unfold getInstance
  split <;> rfl

@[simp] theorem getInstance_enqueued : (s.getInstance cfg).enqueued = s.enqueued := by
  unfold getInstance
  split <;> rfl

@[simp] theorem getInstance_tcp : (s.getInstance cfg).tcp = s.tcp := by
  unfold getInstance
  split <;> rfl

/-- The worker that takes a handler from `context.run()`. -/
def Action.takenBy : Action → Option Nat
  | .accept w _ | .session _ (.header w _) | .session _ (.payload w _) => some w
  | _ => none

theorem ready_of_step {a : Action} {w : Nat} (h : step cfg s a = some s') (ha : a.takenBy = some w) :
    s.ready cfg w = true := by
  cases a with
  | accept v error =>
    obtain rfl : v = w := Option.some.inj ha
    simp only [step, accept] at h
    split at h
    · next hguard => exact hguard.1
    · cases h
  | session k b =>
    cases b with
    | header v error =>
      obtain rfl : v = w := Option.some.inj ha
      simp only [step, sessionStep, completeHeader] at h
      split at h
      · split at h
        · next hguard => exact hguard.1
        · cases h
      · cases h
    | payload v error =>
      obtain rfl : v = w := Option.some.inj ha
      simp only [step, sessionStep, completePayload] at h
      split at h
      · split at h
        · next hguard => exact hguard.1
        · cases h
      · cases h
    | _ => cases ha
  | main b => cases ha

theorem lt_workers_of_ready {w : Nat} (h : s.ready cfg w = true) :
    w < cfg.workers ∧ s.tcp.contextStopped = false := by
  simp only [ready, decide_eq_true_eq] at h
  exact ⟨h.1, h.2.1⟩

/-- A step on connection `k` is enabled only if there is such a connection. -/
theorem Control.lt_of_ne (hc : s.Control) (h : s.sessions k ≠ Session.unused) : k < s.created := by
  apply Classical.byContradiction
  intro hk
  exact h (hc.unused k (by omega))

theorem completeHeader_effect {w : Nat} {error : Option ErrorCode}
    (hc : (s.sessions k).Control) (h : s.completeHeader cfg k w error = some s') :
    error ≠ none ∧ SessionEffect s k (s.sessions k) (.header w error) s' ∨
      error = none ∧ SessionEffect (s.getInstance cfg) k (s.sessions k) (.header w none) s' := by
  simp only [completeHeader] at h
  split at h
  · next got hread =>
    split at h
    · next hguard =>
      obtain ⟨-, hpc, hgot⟩ := hguard
      cases error with
      | some e =>
        rw [Connection.asyncReadHeaderHandler_error] at h
        obtain rfl := Option.some.inj h
        have hne : (AsyncRead.header got).got ≠ (AsyncRead.header got).length :=
          fun hf => nomatch hgot.mpr hf
        have hx : { s.sessions k with conn := (s.sessions k).conn.completed.stop.close } =
            { s.sessions k with conn := (s.sessions k).conn.completed.stop.close, handler := none } := by
          rw [← hpc]
        rw [hx]
        exact Or.inl ⟨by simp, .failed w e _ hread hpc hne⟩
      | none =>
        obtain rfl : got = sizeofPacketHeader := hgot.mp rfl
        rw [Connection.asyncReadHeaderHandler_running (hc.reading hread).1] at h
        obtain rfl := Option.some.inj h
        refine Or.inr ⟨rfl, ?_⟩
        unfold rent
        split
        · next hclass => exact .refused w hread hpc hclass
        · next t hclass =>
          split
          · next owner p hpop => exact .popped w t owner p hread hpc hclass hpop
          · exact .emptyStack w t hread hpc hclass
    · cases h
  · cases h

theorem completePayload_effect {w : Nat} {error : Option ErrorCode}
    (hc : (s.sessions k).Control) (h : s.completePayload cfg k w error = some s') :
    SessionEffect s k (s.sessions k) (.payload w error) s' := by
  simp only [completePayload] at h
  split at h
  · next owner n got hread =>
    split at h
    · next hguard =>
      obtain ⟨-, hpc, hgot⟩ := hguard
      cases error with
      | some e =>
        rw [Connection.asyncReadPayloadHandler_error] at h
        obtain rfl := Option.some.inj h
        have hne : (AsyncRead.payload owner n got).got ≠ (AsyncRead.payload owner n got).length :=
          fun hf => nomatch hgot.mpr hf
        exact SessionEffect.failed w e _ hread hpc hne
      | none =>
        obtain rfl : got = n.toNat := hgot.mp rfl
        rw [Connection.asyncReadPayloadHandler_running (hc.reading hread).1] at h
        obtain rfl := Option.some.inj h
        exact .enqueued w owner n hread hpc _ rfl
    · cases h
  · cases h

theorem sessionStep_effect {a : SessionAction} (hc : (s.sessions k).Control)
    (h : s.sessionStep cfg k a = some s') :
    (∀ w, a ≠ .header w none) ∧ SessionEffect s k (s.sessions k) a s' ∨
      ∃ w, a = .header w none ∧ SessionEffect (s.getInstance cfg) k (s.sessions k) (.header w none) s' := by
  cases a with
  | start =>
    simp only [sessionStep, startSession] at h
    split at h
    · next w hpc =>
      obtain rfl := Option.some.inj h
      exact Or.inl ⟨by simp, .started w hpc⟩
    · cases h
  | insert =>
    simp only [sessionStep, insertSession] at h
    split at h
    · next w hpc =>
      obtain rfl := Option.some.inj h
      exact Or.inl ⟨by simp, .inserted w hpc⟩
    · cases h
  | rearm =>
    simp only [sessionStep, rearmAccept] at h
    split at h
    · next w hpc =>
      obtain rfl := Option.some.inj h
      exact Or.inl ⟨by simp, .rearmed w hpc⟩
    · cases h
  | receive bs =>
    simp only [sessionStep, receive] at h
    split at h
    · cases h
    · next op hread =>
      split at h
      · next hfit =>
        obtain rfl := Option.some.inj h
        exact Or.inl ⟨by simp, .received op bs hread hfit⟩
      · cases h
  | header w error =>
    rcases completeHeader_effect hc h with he | ⟨rfl, he⟩
    · exact Or.inl ⟨fun v hv => he.1 (by cases hv; rfl), he.2⟩
    · exact Or.inr ⟨w, rfl, he⟩
  | allocate can =>
    simp only [sessionStep, allocate] at h
    split at h
    · next w size hpc =>
      split at h
      · cases h
      · next t hclass =>
        cases can with
        | true =>
          obtain rfl := Option.some.inj h
          exact Or.inl ⟨by simp, .grown w size t hpc hclass⟩
        | false =>
          obtain rfl := Option.some.inj h
          exact Or.inl ⟨by simp, .notGrown w size hpc⟩
    · cases h
  | payload w error => exact Or.inl ⟨by simp, completePayload_effect hc h⟩
  | rearmRead =>
    simp only [sessionStep, Server.rearmRead] at h
    split at h
    · next w owner hpc =>
      obtain rfl := Option.some.inj h
      exact Or.inl ⟨by simp, .signalled w owner hpc⟩
    · cases h
  | leave pushed =>
    simp only [sessionStep, leaveHandler] at h
    split at h
    · next w owner hpc =>
      obtain rfl := Option.some.inj h
      exact Or.inl ⟨by simp, .left w owner pushed hpc⟩
    · cases h

/-- Nothing happens to a connection that has not been made. -/
theorem sessionStep_unused {a : SessionAction} (hu : s.sessions k = Session.unused) :
    s.sessionStep cfg k a = none := by
  cases a <;> simp [sessionStep, startSession, insertSession, rearmAccept, receive, completeHeader,
    allocate, completePayload, Server.rearmRead, leaveHandler, hu, Session.unused, Connection.new]

theorem mainStep_effect {a : MainAction} (h : s.mainStep cfg a = some s') : MainEffect cfg s a s' := by
  cases a with
  | beginFrame =>
    simp only [mainStep, beginFrame] at h
    split at h
    · next hguard =>
      obtain rfl := Option.some.inj h
      exact .frameBegun hguard.1 hguard.2.2 hguard.2.1
    · cases h
  | wait =>
    simp only [mainStep, waitRequest, BlockingConcurrentQueue.tryWait] at h
    split at h
    · next n hpc =>
      split at h
      · next hn =>
        by_cases hs : 0 < s.requests.sema
        · rw [if_pos hs] at h
          obtain rfl := Option.some.inj h
          exact .waited n hpc hn hs
        · rw [if_neg hs] at h
          obtain rfl := Option.some.inj h
          exact .ended n hpc (Or.inr (by omega))
      · next hn =>
        obtain rfl := Option.some.inj h
        exact .ended n hpc (Or.inl (by omega))
    · cases h
  | pop sizeApprox =>
    simp only [mainStep, popRequest] at h
    split at h
    · next n hpc =>
      split at h
      · split at h
        · next item q hq =>
          obtain rfl := Option.some.inj h
          obtain ⟨ptr, hptr⟩ := BlockingConcurrentQueue.tryDequeue_eq_some hq
          exact .popped sizeApprox n ptr item q hpc hptr
        · cases h
      · cases h
    · cases h
  | assign pushed =>
    simp only [mainStep, assignRequest] at h
    split at h
    · next n old hpc =>
      obtain rfl := Option.some.inj h
      exact .assigned n old pushed hpc
    · cases h
  | dispatch =>
    simp only [mainStep, dispatchRequest] at h
    split at h
    · next n item hpc hreq =>
      obtain rfl := Option.some.inj h
      exact .dispatched n item hpc hreq
    · cases h
  | keep =>
    simp only [mainStep, keepOwner] at h
    split at h
    · next n f item hpc hreq =>
      split at h
      · obtain rfl := Option.some.inj h
        exact .kept n f item hpc hreq
      · cases h
    · cases h
  | endDispatch =>
    simp only [mainStep, Server.endDispatch] at h
    split at h
    · next n called hpc =>
      split at h
      · next hstop =>
        obtain rfl := Option.some.inj h
        exact .handled n called hpc hstop
      · cases h
    · cases h
  | «return» pushed =>
    simp only [mainStep, endDispatchRequest] at h
    split at h
    · next hpc =>
      obtain rfl := Option.some.inj h
      exact .returned pushed hpc
    · cases h
  | release sp pushed =>
    simp only [mainStep, releaseKept] at h
    split at h
    · next hkept =>
      obtain rfl := Option.some.inj h
      exact .released sp pushed hkept
    · cases h
  | stop =>
    simp only [mainStep, stopTcp] at h
    split at h
    · next hpc =>
      split at h
      · next hstop =>
        obtain rfl := Option.some.inj h
        exact .stopped (Or.inl hpc) hstop
      · cases h
    · next n f hpc =>
      split at h
      · next hstop =>
        obtain rfl := Option.some.inj h
        exact .stopped (Or.inr ⟨n, f, hpc⟩) hstop
      · cases h
    · cases h
  | stopContext =>
    simp only [mainStep, Server.stopContext] at h
    split at h
    · next hstop =>
      obtain rfl := Option.some.inj h
      exact .contextStopped hstop
    · cases h
  | join =>
    simp only [mainStep, joinWorkers] at h
    split at h
    · next hguard =>
      obtain rfl := Option.some.inj h
      exact .joined hguard.1 hguard.2
    · cases h

theorem accept_effect {w : Nat} {error : Option ErrorCode} (h : s.accept cfg w error = some s') :
    s.ready cfg w = true ∧ 0 < s.tcp.accepts ∧ AcceptEffect s w error s' := by
  unfold accept at h
  split at h
  · next hguard =>
    refine ⟨hguard.1, hguard.2, ?_⟩
    cases error with
    | none =>
      cases hrun : s.tcp.isRunning with
      | false =>
        rw [Tcp.acceptHandler_notRunning hrun] at h
        obtain rfl := Option.some.inj h
        exact .notRunning hrun
      | true =>
        rw [Tcp.acceptHandler_running hrun] at h
        obtain rfl := Option.some.inj h
        exact .created hrun
    | some e =>
      cases e with
      | operationAborted =>
        obtain rfl := Option.some.inj h
        exact .aborted _ (fun v hv => nomatch hv)
      | connectionAborted =>
        obtain rfl := Option.some.inj h
        exact .aborted _ (fun v hv => nomatch hv)
      | other v =>
        obtain rfl := Option.some.inj h
        exact .failed v
  · cases h

theorem step_effect {a : Action} (hc : s.Control) (h : step cfg s a = some s') :
    Effect cfg s a s' := by
  cases a with
  | accept w error =>
    obtain ⟨hready, hout, heff⟩ := accept_effect h
    exact .accept w error s' hready hout heff
  | session k a =>
    have hk : k < s.created := hc.lt_of_ne fun hu => by
      rw [step, sessionStep_unused hu] at h
      cases h
    rcases sessionStep_effect (hc.session k hk) h with ⟨ha, heff⟩ | ⟨w, rfl, heff⟩
    · exact .session k a s' hk ha heff
    · exact .header k w s' (by simpa using hk) (by simpa using heff)
  | main a => exact .main a s' (mainStep_effect h)

/-! ## What the cases leave alone -/

section Frames

variable {x : Session} {a : SessionAction} {b : MainAction}

theorem SessionEffect.sessions (h : SessionEffect s k x a s') :
    s'.sessions = Function.update s.sessions k (s'.sessions k) := by
  cases h <;> simp [report, rented, setSession]

theorem SessionEffect.other (h : SessionEffect s k x a s') {j : Nat} (hj : j ≠ k) :
    s'.sessions j = s.sessions j := by
  rw [h.sessions, Function.update_of_ne hj]

theorem SessionEffect.created (h : SessionEffect s k x a s') : s'.created = s.created := by
  cases h <;> rfl

theorem SessionEffect.counter (h : SessionEffect s k x a s') :
    s'.tcp.connectionIdCounter = s.tcp.connectionIdCounter := by
  cases h <;> rfl

theorem SessionEffect.isRunning (h : SessionEffect s k x a s') :
    s'.tcp.isRunning = s.tcp.isRunning := by
  cases h <;> rfl

/-- A connection keeps its id. -/
theorem SessionEffect.connectionId (h : SessionEffect s k x a s') :
    (s'.sessions k).conn.connectionId = x.conn.connectionId := by
  cases h with
  | received op bs hread hfit =>
    cases op <;> simp [setSession, Connection.receive, hread]
  | _ => simp [report, rented, setSession, Connection.start, Connection.stop, Connection.close,
      Connection.completed, Connection.asyncReadHeader, Connection.asyncReadPayload]

theorem MainEffect.sessions (h : MainEffect cfg s b s') : s'.sessions = s.sessions := by
  cases h <;> rfl

theorem MainEffect.created (h : MainEffect cfg s b s') : s'.created = s.created := by
  cases h <;> rfl

theorem MainEffect.connections (h : MainEffect cfg s b s') :
    s'.tcp.connections = s.tcp.connections := by
  cases h <;> rfl

theorem MainEffect.accepts (h : MainEffect cfg s b s') : s'.tcp.accepts = s.tcp.accepts := by
  cases h <;> rfl

theorem MainEffect.counter (h : MainEffect cfg s b s') :
    s'.tcp.connectionIdCounter = s.tcp.connectionIdCounter := by
  cases h <;> rfl

end Frames

/-! ## Control is invariant -/

theorem SessionEffect.control {x : Session} {a : SessionAction} (hc : x.Control)
    (h : SessionEffect s k x a s') : (s'.sessions k).Control := by
  cases h with
  | started w hpc =>
    obtain ⟨hread, hhandler, hreports⟩ := hc.fresh w hpc
    have hout : x.conn.outstanding = 0 := by rw [hc.outstanding, hread]; rfl
    refine .ofStarted ?_ ?_ ?_ ?_ <;> simp [setSession, Connection.start, Connection.asyncReadHeader,
      Session.between, Session.Started, hhandler, hreports, hout]
  | inserted w hpc =>
    have hs : x.Started := fun v hv => by rw [hpc] at hv; cases hv
    refine .ofStarted ?_ ?_ ?_ ?_ <;> simp only [setSession, Function.update_self]
    · intro v hv; cases hv
    · exact hc.outstanding
    · exact hc.one hs
    · exact hc.running hs
  | rearmed w hpc =>
    have hs : x.Started := fun v hv => by rw [hpc] at hv; cases hv
    refine .ofStarted ?_ ?_ ?_ ?_ <;> simp only [setSession, Function.update_self]
    · intro v hv; cases hv
    · exact hc.outstanding
    · exact hc.one hs
    · exact hc.running hs
  | received op bs hread hfit =>
    obtain ⟨hrun, hout, hbetween, hreports⟩ := hc.reading hread
    have hs := hc.started_of_read hread
    have hone := hc.one hs
    cases op <;>
    · simp only [setSession, Connection.receive, hread, Function.update_self]
      exact .ofStarted hs hout hone (hc.running hs)
  | failed w e op hread hpc hgot =>
    obtain ⟨-, hout, -, hreports⟩ := hc.reading hread
    have hs := hc.started_of_read hread
    simp only [report, setSession, Function.update_self]
    refine .ofStarted hs ?_ ?_ ?_
    · simp [Connection.close, Connection.stop, Connection.completed, hout]
    · cases op <;> simp [Connection.close, Connection.stop, Connection.completed, hout, hreports,
        Session.between, AsyncRead.owner]
    · simp [Connection.close, Connection.stop]
  | refused w hread hpc hclass =>
    obtain ⟨-, hout, -, hreports⟩ := hc.reading hread
    have hs := hc.started_of_read hread
    simp only [report, setSession, Function.update_self]
    refine .ofStarted hs ?_ ?_ ?_ <;>
      simp [Connection.stop, Connection.completed, hout, hreports, Session.between]
  | popped w t owner p hread hpc hclass hpop =>
    obtain ⟨hrun, hout, -, hreports⟩ := hc.reading hread
    have hs := hc.started_of_read hread
    simp only [rented, setSession, Function.update_self]
    refine .ofStarted hs ?_ ?_ ?_ <;>
      simp [Connection.asyncReadPayload, Connection.completed, hout, hreports, hrun, Session.between]
  | emptyStack w t hread hpc hclass =>
    obtain ⟨hrun, hout, -, hreports⟩ := hc.reading hread
    have hs := hc.started_of_read hread
    simp only [setSession, Function.update_self]
    refine .ofStarted hs ?_ ?_ ?_ <;>
      simp [Connection.completed, hout, hreports, hrun, Session.between]
  | grown w size t hpc hclass =>
    obtain ⟨hread, hout, hrun, hreports⟩ := hc.ofBetween hpc (by simp [Session.between, hpc])
    have hs := hc.started_of_handler hpc
    simp only [rented, setSession, Function.update_self]
    refine .ofStarted hs ?_ ?_ ?_ <;>
      simp [Connection.asyncReadPayload, hout, hreports, hrun, Session.between]
  | notGrown w size hpc =>
    obtain ⟨hread, hout, -, hreports⟩ := hc.ofBetween hpc (by simp [Session.between, hpc])
    have hs := hc.started_of_handler hpc
    simp only [report, setSession, Function.update_self]
    refine .ofStarted hs ?_ ?_ ?_ <;>
      simp [Connection.stop, hread, hout, hreports, Session.between]
  | enqueued w owner n hread hpc item hitem =>
    obtain ⟨hrun, hout, -, hreports⟩ := hc.reading hread
    have hs := hc.started_of_read hread
    simp only [setSession, Function.update_self]
    refine .ofStarted hs ?_ ?_ ?_ <;>
      simp [Connection.completed, hout, hreports, hrun, Session.between]
  | signalled w owner hpc =>
    obtain ⟨-, hout, hrun, hreports⟩ := hc.ofBetween hpc (by simp [Session.between, hpc])
    have hs := hc.started_of_handler hpc
    simp only [setSession, Function.update_self]
    refine .ofStarted hs ?_ ?_ ?_ <;>
      simp [Connection.asyncReadHeader, hout, hreports, hrun, Session.between]
  | left w owner pushed hpc =>
    have hs := hc.started_of_handler hpc
    have hone := hc.one hs
    simp only [Session.between, hpc] at hone
    simp only [setSession, Function.update_self]
    exact .ofStarted hs hc.outstanding hone (hc.running hs)

theorem control_new (id : UInt32) (w : Nat) : (Session.new id w).Control where
  outstanding := rfl
  fresh := fun _ _ => ⟨rfl, rfl, rfl⟩
  one := fun hs => absurd rfl (hs w)
  running := fun hs => absurd rfl (hs w)

theorem control_init (mem : Memory) : (init mem).Control where
  session := fun k hk => absurd hk (Nat.not_lt_zero k)
  unused := fun _ _ => rfl

theorem Control.session_effect {a : SessionAction} (hc : s.Control) (hk : k < s.created)
    (h : SessionEffect s k (s.sessions k) a s') : s'.Control where
  session := by
    intro j hj
    by_cases hjk : j = k
    · exact hjk ▸ h.control (hc.session k hk)
    · rw [h.other hjk]
      exact hc.session j (h.created ▸ hj)
  unused := by
    intro j hj
    rw [h.created] at hj
    rw [h.other (by omega)]
    exact hc.unused j hj

theorem Control.getInstance (hc : s.Control) : (s.getInstance cfg).Control where
  session := fun k hk => by
    rw [getInstance_sessions]
    exact hc.session k (by simpa using hk)
  unused := fun k hk => by
    rw [getInstance_sessions]
    exact hc.unused k (by simpa using hk)

theorem Control.step {a : Action} (hc : s.Control) (h : Effect cfg s a s') : s'.Control := by
  cases h with
  | accept w error s' hready hout h =>
    cases h with
    | created hrun =>
      refine ⟨fun j hj => ?_, fun j hj => ?_⟩
      · by_cases hjk : j = s.created
        · subst hjk
          simp only [setSession, Function.update_self]
          exact control_new _ _
        · simp only [setSession, Function.update_of_ne hjk]
          exact hc.session j (by simp only at hj; omega)
      · simp only at hj
        simp only [setSession]
        rw [Function.update_of_ne (by omega)]
        exact hc.unused j (by omega)
    | _ => exact ⟨hc.session, hc.unused⟩
  | session k a s' hk ha h => exact hc.session_effect hk h
  | header k w s' hk h => exact hc.getInstance.session_effect hk h
  | main a s' h =>
    refine ⟨fun j hj => ?_, fun j hj => ?_⟩
    · rw [h.sessions]
      exact hc.session j (h.created ▸ hj)
    · rw [h.sessions]
      exact hc.unused j (h.created ▸ hj)

theorem control_of_reachable {mem : Memory} (h : Transition.Reachable (step cfg) (init mem) s) :
    s.Control :=
  h.invariant (control_init mem) fun _ _ _ hc hs => hc.step (step_effect hc hs)

/-- **Induction over the runs of the server**, by the cases of a step. -/
theorem reachable_induction {mem : Memory} {I : Server → Prop}
    (h : Transition.Reachable (step cfg) (init mem) s) (hinit : I (init mem))
    (hstep : ∀ s a s', s.Control → I s → Effect cfg s a s' → I s') : I s := by
  have hboth := h.invariant (I := fun s => s.Control ∧ I s) ⟨control_init mem, hinit⟩
    fun s a s' hi hs => ⟨hi.1.step (step_effect hi.1 hs), hstep s a s' hi.1 hi.2 (step_effect hi.1 hs)⟩
  exact hboth.2

/-- The same for the runs whose steps all meet a condition. -/
theorem run_induction_along {mem : Memory} {I : Server → Prop} {C : Server → Action → Prop}
    {as : List Action} (h : Transition.run (step cfg) (init mem) as = some s)
    (hC : Transition.Along (step cfg) C (init mem) as) (hinit : I (init mem))
    (hstep : ∀ s a s', s.Control → I s → C s a → Effect cfg s a s' → I s') : I s := by
  have hboth := Transition.run_invariant_along (I := fun s => s.Control ∧ I s)
    (fun s a s' hi hc hs => ⟨hi.1.step (step_effect hi.1 hs),
      hstep s a s' hi.1 hi.2 hc (step_effect hi.1 hs)⟩) h hC ⟨control_init mem, hinit⟩
  exact hboth.2

end Server

end Us2d
