import Us2dServer.Dispatcher
import Us2dServer.Lib.Transition
import Us2dServer.RequestQueue
import Us2dServer.Tcp

/-!
# The server

The whole process as one transition system: the accept handler, the read handlers of any number
of connections on any number of worker threads, the transport, and the main loop with
`dispatch_request` and a `tcp::stop()` called from it.  Every action has at most one effect on
what threads share, so a run is an interleaving of the threads.  Where a thread stands between
two of its actions is part of the state: `AcceptPc` and `HandlerPc` for the workers, `MainPc`
and `StopPc` for the main thread.

A connection is named by its number in the order of acceptance.  Some fields are history: they
record what has happened and are read by no action.
-/

namespace Us2d

open ByteStore

/-- Where the accept handler that created a connection stands. -/
inductive AcceptPc
  | created (worker : Nat)
  | started (worker : Nat)
  | inserted (worker : Nat)
  | returned
deriving DecidableEq, Repr

/-- Where a read handler in progress stands: in `rent`, after a failed `pop`; after
`inner.enqueue`; or at the end, where it still holds the captured `packet_owner`. -/
inductive HandlerPc
  | allocating (worker size : Nat)
  | enqueued (worker : Nat) (packetOwner : SharedPtr)
  | leaving (worker : Nat) (packetOwner : SharedPtr)
deriving DecidableEq, Repr

structure Session where
  conn : Connection
  accept : AcceptPc
  handler : Option HandlerPc
  /-- history: the bytes received since the last whole frame -/
  pending : List UInt8
  /-- history: the frames whose payload read has completed without error -/
  frames : List (List UInt8)
  /-- history: calls of `on_disconnected` -/
  reports : Nat

/-- A request in the queue, with history: its connection, the number and the bytes of its frame
there, and the worker that enqueued it. -/
structure Queued where
  request : PacketRequest
  source : Nat
  seq : Nat
  frame : List UInt8
  worker : Nat
deriving DecidableEq

/-- History of one call of `dispatch`: the request, the frame that then was in its block, and
the handler function called. -/
structure Dispatched where
  item : Queued
  bytes : List UInt8
  called : Option Nat
deriving DecidableEq

/-- Where the main thread stands; `n` is `processed_count`.  `assigning` holds the owner that
the assignment to `request` replaces. -/
inductive MainPc
  | idle
  | dequeue (n : Nat)
  | spinning (n : Nat)
  | assigning (n : Nat) (old : Option SharedPtr)
  | dispatching (n : Nat)
  | handling (n : Nat) (called : Option Nat)
  | returning
deriving DecidableEq, Repr

/-- Where the main thread stands in `tcp::stop()`. -/
inductive StopPc
  | stopping | joining
deriving DecidableEq, Repr

/-- The function-local statics of the `singleton`s. -/
inductive Singleton
  | log | time | tcp | gameEngine | tsMemoryPool
deriving DecidableEq, Repr

structure Server where
  tcp : Tcp
  /-- `context_workers` have been joined -/
  joined : Bool
  sessions : Nat → Session
  /-- connections made so far -/
  created : Nat
  /-- singletons in the order of the completion of their construction -/
  constructed : List Singleton
  pool : TsMemoryPool
  mem : Memory
  requests : BlockingConcurrentQueue Queued
  main : MainPc
  stop : Option StopPc
  /-- the local `request` of `dispatch_request` -/
  request : Option Queued
  /-- copies of `packet_owner` that packet handlers have kept -/
  kept : List SharedPtr
  /-- history: the requests in the order of their `enqueue` -/
  enqueued : List Queued
  /-- history: the calls of `dispatch` in order -/
  dispatched : List Dispatched

/-- `hardware_concurrency() - 1`, the registered handlers, and the answers of the stacks to the
pushes of the pool's constructor. -/
structure Config where
  workers : Nat
  handlers : Handlers
  pushed : Nat → Bool

/-! ## Sessions -/

def AcceptPc.worker : AcceptPc → Option Nat
  | .created w | .started w | .inserted w => some w
  | .returned => none

def HandlerPc.worker : HandlerPc → Nat
  | .allocating w _ | .enqueued w _ | .leaving w _ => w

namespace Session

/-- A number that no connection has yet. -/
def unused : Session where
  conn := Connection.new 0
  accept := .returned
  handler := none
  pending := []
  frames := []
  reports := 0

/-- The connection made by the accept handler on a worker. -/
def new (connectionId : UInt32) (worker : Nat) : Session :=
  { unused with conn := Connection.new connectionId, accept := .created worker }

/-- The worker is in the accept handler or in a read handler of the connection. -/
def runsOn (x : Session) (w : Nat) : Bool :=
  x.accept.worker = some w ∨ x.handler.map HandlerPc.worker = some w

/-- No worker is. -/
def quiet (x : Session) : Bool := x.accept = .returned ∧ x.handler = none

/-- History of the completion of a payload read. -/
def completePayload (error : Option ErrorCode) (x : Session) : Session :=
  match error with
  | none => { x with frames := x.frames ++ [x.pending], pending := [] }
  | some _ => x

end Session

namespace Server

/-- `main` after `tcp.start()`; the memory holds anything. -/
def init (mem : Memory) : Server where
  tcp := Tcp.init.start
  joined := false
  sessions := fun _ => Session.unused
  created := 0
  constructed := [.log, .time, .tcp, .gameEngine]
  pool := TsMemoryPool.empty
  mem := mem
  requests := BlockingConcurrentQueue.empty
  main := .idle
  stop := none
  request := none
  kept := []
  enqueued := []
  dispatched := []

def setSession (k : Nat) (x : Session) (s : Server) : Server :=
  { s with sessions := Function.update s.sessions k x }

/-- The worker is in `context.run()` and may take a handler. -/
def ready (cfg : Config) (s : Server) (w : Nat) : Bool :=
  w < cfg.workers ∧ s.tcp.contextStopped = false ∧
    (List.range s.created).all fun k => !(s.sessions k).runsOn w

/-- No worker is in a handler. -/
def quiet (s : Server) : Bool := (List.range s.created).all fun k => (s.sessions k).quiet

/-! ## The accept handler -/

/-- The accept handler up to the creation of the connection. -/
def accept (cfg : Config) (w : Nat) (error : Option ErrorCode) (s : Server) : Option Server :=
  if s.ready cfg w ∧ 0 < s.tcp.accepts then
    match s.tcp.acceptHandler error with
    | (tcp, none) => some { s with tcp := tcp }
    | (tcp, some id) =>
      some { s.setSession s.created (Session.new id w) with tcp := tcp, created := s.created + 1 }
  else none

/-- `new_session->start()`. -/
def startSession (k : Nat) (s : Server) : Option Server :=
  let x := s.sessions k
  match x.accept with
  | .created w => some (s.setSession k { x with conn := x.conn.start, accept := .started w })
  | _ => none

/-- `connections.insert(new_session_id, new_session)`. -/
def insertSession (k : Nat) (s : Server) : Option Server :=
  let x := s.sessions k
  match x.accept with
  | .started w =>
    some { s.setSession k { x with accept := .inserted w } with
           tcp := { s.tcp with connections := s.tcp.connections.insert x.conn.connectionId k } }
  | _ => none

/-- `async_accept()` at the end of the accept handler. -/
def rearmAccept (k : Nat) (s : Server) : Option Server :=
  let x := s.sessions k
  match x.accept with
  | .inserted _ => some { s.setSession k { x with accept := .returned } with tcp := s.tcp.asyncAccept }
  | _ => none

/-! ## The read handlers -/

/-- The transport stores received bytes in the buffer of the outstanding read. -/
def receive (k : Nat) (bs : List UInt8) (s : Server) : Option Server :=
  let x := s.sessions k
  match x.conn.read with
  | none => none
  | some op =>
    if op.got + bs.length ≤ op.length then
      let out := x.conn.receive bs s.mem
      some { s.setSession k { x with conn := out.1, pending := x.pending ++ bs } with mem := out.2 }
    else none

/-- The call that ends a part of a handler: `on_disconnected`, or none. -/
def endPart (k : Nat) (x : Session) (out : Outcome) (s : Server) : Server :=
  match out with
  | .disconnected id =>
    { s.setSession k { x with reports := x.reports + 1 } with tcp := s.tcp.disconnect id }
  | _ => s.setSession k x

/-- `ts_memory_pool::get_instance()`. -/
def getInstance (cfg : Config) (s : Server) : Server :=
  if .tsMemoryPool ∈ s.constructed then s
  else { s with constructed := s.constructed ++ [.tsMemoryPool], pool := TsMemoryPool.create cfg.pushed }

/-- The rest of the header handler once `rent` has returned. -/
def headerRented (k : Nat) (x : Session) (packetOwner : Option SharedPtr) (s : Server) : Server :=
  let out := x.conn.headerRented packetOwner s.mem
  endPart k { x with conn := out.1, handler := none } out.2.2 { s with mem := out.2.1 }

/-- `rent(size)` in the header handler, up to the result of `stack.pop`, and the rest of the
handler if that decides it. -/
def rent (k w size : Nat) (x : Session) (s : Server) : Server :=
  match TsMemoryPool.classOf size with
  | none => s.headerRented k x none
  | some t =>
    match s.pool.rentPopped t with
    | some (owner, p) => headerRented k x (some owner) { s with pool := p }
    | none => s.setSession k { x with handler := some (.allocating w size) }

/-- A worker calls the handler of the header read, which has got all or has failed. -/
def completeHeader (cfg : Config) (k w : Nat) (error : Option ErrorCode) (s : Server) : Option Server :=
  let x := s.sessions k
  match x.conn.read with
  | some (.header got) =>
    if s.ready cfg w ∧ x.handler = none ∧ (error = none ↔ got = sizeofPacketHeader) then
      match x.conn.asyncReadHeaderHandler error with
      | (c, .rent size) => some ((s.getInstance cfg).rent k w size { x with conn := c })
      | (c, out) => some (s.endPart k { x with conn := c } out)
    else none
  | _ => none

/-- The rest of `rent_block` after a failed `pop`, with the answer of `can_allocate_dynamic()`. -/
def allocate (k : Nat) (can : Bool) (s : Server) : Option Server :=
  let x := s.sessions k
  match x.handler with
  | some (.allocating _ size) =>
    match TsMemoryPool.classOf size with
    | none => none
    | some t =>
      if can then
        some (headerRented k x (some (s.pool.rentFresh t).1) { s with pool := (s.pool.rentFresh t).2 })
      else some (s.headerRented k x none)
  | _ => none

/-- A worker calls the handler of the payload read, up to `inner.enqueue`. -/
def completePayload (cfg : Config) (k w : Nat) (error : Option ErrorCode) (s : Server) : Option Server :=
  let x := s.sessions k
  match x.conn.read with
  | some (.payload owner n got) =>
    if s.ready cfg w ∧ x.handler = none ∧ (error = none ↔ got = n.toNat) then
      match x.conn.asyncReadPayloadHandler owner error s.mem with
      | (c, .enqueue request) =>
        let item : Queued := ⟨request, k, x.frames.length, x.pending, w⟩
        let x' := { x.completePayload error with conn := c, handler := some (.enqueued w owner) }
        some { s.setSession k x' with pool := s.pool.copy owner,
                                      requests := s.requests.enqueue w item,
                                      enqueued := s.enqueued ++ [item] }
      | (c, out) =>
        some (s.endPart k { x.completePayload error with conn := c, handler := some (.leaving w owner) } out)
    else none
  | _ => none

/-- `sema->signal()` at the end of `enqueue`, and `async_read_header()`. -/
def rearmRead (k : Nat) (s : Server) : Option Server :=
  let x := s.sessions k
  match x.handler with
  | some (.enqueued w owner) =>
    some { s.setSession k { x with conn := x.conn.asyncReadHeader, handler := some (.leaving w owner) } with
           requests := s.requests.signal }
  | _ => none

/-- The payload handler is destroyed, and with it its `packet_owner`. -/
def leaveHandler (k : Nat) (pushed : Bool) (s : Server) : Option Server :=
  let x := s.sessions k
  match x.handler with
  | some (.leaving _ owner) =>
    some { s.setSession k { x with handler := none } with pool := s.pool.drop owner pushed }
  | _ => none

/-! ## The main thread -/

/-- One turn of the main loop begins: `update` calls `dispatch_request`. -/
def beginFrame (s : Server) : Option Server :=
  if s.main = .idle ∧ s.stop = none ∧ s.tcp.isRunning then some { s with main := .dequeue 0 } else none

/-- The condition of the loop, up to `tryWait`. -/
def waitRequest (s : Server) : Option Server :=
  match s.main with
  | .dequeue n =>
    if n < maxPacketDispatchThreshold then
      match s.requests.tryWait with
      | some q => some { s with requests := q, main := .spinning n }
      | none => some { s with main := .returning }
    else some { s with main := .returning }
  | _ => none

/-- The inner `try_dequeue` that succeeds.  A size that it sees is the present one or, when
workers have enqueued since, a smaller one. -/
def popRequest (sizeApprox : Nat → Nat) (s : Server) : Option Server :=
  match s.main with
  | .spinning n =>
    if s.requests.inner.producers.all fun t => sizeApprox t ≤ (s.requests.inner.items t).length then
      match BlockingConcurrentQueue.tryDequeue sizeApprox s.requests.inner with
      | some (item, q) =>
        some { s with requests := { s.requests with inner := q }, request := some item,
                      main := .assigning n (s.request.map fun r => r.request.packetOwner) }
      | none => none
    else none
  | _ => none

def dropOwner (owner : Option SharedPtr) (pushed : Bool) (p : TsMemoryPool) : TsMemoryPool :=
  match owner with
  | some sp => p.drop sp pushed
  | none => p

/-- The assignment to `request` releases the previous packet. -/
def assignRequest (pushed : Bool) (s : Server) : Option Server :=
  match s.main with
  | .assigning n old => some { s with pool := dropOwner old pushed s.pool, main := .dispatching n }
  | _ => none

/-- `packet_dispatcher::dispatch(&request)`, up to the call of the handler function. -/
def dispatchRequest (cfg : Config) (s : Server) : Option Server :=
  match s.main, s.request with
  | .dispatching n, some item =>
    let called := dispatch cfg.handlers s.mem item.request
    some { s with main := .handling n called,
                  dispatched := s.dispatched ++ [⟨item, packetBytes s.mem item.request, called⟩] }
  | _, _ => none

/-- A handler function copies the `packet_owner` of its request. -/
def keepOwner (s : Server) : Option Server :=
  match s.main, s.request with
  | .handling _ (some _), some item =>
    if s.stop = none then
      some { s with pool := s.pool.copy item.request.packetOwner,
                    kept := item.request.packetOwner :: s.kept }
    else none
  | _, _ => none

/-- `dispatch` returns, or throws an exception that is caught. -/
def endDispatch (s : Server) : Option Server :=
  match s.main with
  | .handling n _ => if s.stop = none then some { s with main := .dequeue (n + 1) } else none
  | _ => none

/-- `dispatch_request` returns. -/
def endDispatchRequest (pushed : Bool) (s : Server) : Option Server :=
  match s.main with
  | .returning =>
    some { s with pool := dropOwner (s.request.map fun r => r.request.packetOwner) pushed s.pool,
                  request := none, main := .idle }
  | _ => none

/-- A kept copy is destroyed. -/
def releaseKept (sp : SharedPtr) (pushed : Bool) (s : Server) : Option Server :=
  if sp ∈ s.kept then some { s with pool := s.pool.drop sp pushed, kept := s.kept.erase sp } else none

/-- `tcp::stop()` is called, by a handler function or between two calls of `dispatch_request`. -/
def stopTcp (s : Server) : Option Server :=
  match s.main with
  | .idle | .handling _ (some _) =>
    if s.stop = none then
      some { s with tcp := { s.tcp with isRunning := false }, stop := some .stopping }
    else none
  | _ => none

/-- `context.stop()` in it. -/
def stopContext (s : Server) : Option Server :=
  if s.stop = some .stopping then
    some { s with tcp := { s.tcp with contextStopped := true }, stop := some .joining }
  else none

/-- The workers have returned from `context.run()` and are joined. -/
def joinWorkers (s : Server) : Option Server :=
  if s.stop = some .joining ∧ s.quiet then some { s with joined := true, stop := none } else none

/-! ## The step function -/

inductive SessionAction
  | start | insert | rearm
  | receive (bytes : List UInt8)
  | header (worker : Nat) (error : Option ErrorCode)
  | allocate (can : Bool)
  | payload (worker : Nat) (error : Option ErrorCode)
  | rearmRead
  | leave (pushed : Bool)

inductive MainAction
  | beginFrame | wait
  | pop (sizeApprox : Nat → Nat)
  | assign (pushed : Bool)
  | dispatch | keep | endDispatch
  | return (pushed : Bool)
  | release (sp : SharedPtr) (pushed : Bool)
  | stop | stopContext | join

inductive Action
  | accept (worker : Nat) (error : Option ErrorCode)
  | session (k : Nat) (a : SessionAction)
  | main (a : MainAction)

def sessionStep (cfg : Config) (k : Nat) (s : Server) : SessionAction → Option Server
  | .start => s.startSession k
  | .insert => s.insertSession k
  | .rearm => s.rearmAccept k
  | .receive bytes => s.receive k bytes
  | .header w error => s.completeHeader cfg k w error
  | .allocate can => s.allocate k can
  | .payload w error => s.completePayload cfg k w error
  | .rearmRead => s.rearmRead k
  | .leave pushed => s.leaveHandler k pushed

def mainStep (cfg : Config) (s : Server) : MainAction → Option Server
  | .beginFrame => s.beginFrame
  | .wait => s.waitRequest
  | .pop sizeApprox => s.popRequest sizeApprox
  | .assign pushed => s.assignRequest pushed
  | .dispatch => s.dispatchRequest cfg
  | .keep => s.keepOwner
  | .endDispatch => s.endDispatch
  | .return pushed => s.endDispatchRequest pushed
  | .release sp pushed => s.releaseKept sp pushed
  | .stop => s.stopTcp
  | .stopContext => s.stopContext
  | .join => s.joinWorkers

def step (cfg : Config) (s : Server) : Action → Option Server
  | .accept w error => s.accept cfg w error
  | .session k a => s.sessionStep cfg k a
  | .main a => s.mainStep cfg a

end Server

end Us2d
