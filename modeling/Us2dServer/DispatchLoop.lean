import Us2dServer.Shutdown

/-!
# The loop of `dispatch_request`

The main thread in `game_engine::dispatch_request`, called again and again, among any other
threads.  Between two of its steps they, and the packet handlers that it calls, may enqueue
requests, rent blocks, copy and drop `shared_ptr`s and write to memory as they like.  A packet
handler returns or throws.  `Effect` says by cases what a step does.

    step handlers s a = some s' → Effect handlers s a s'          (effect_of_step)
-/

namespace Us2d

/-- An exception derived from `std::exception`, by its `what()`. -/
structure StdException where
  what : String
deriving DecidableEq, Repr

structure DispatchLoop where
  requests : BlockingConcurrentQueue Queued
  /-- the calls of `enqueue` that have yet to signal -/
  unsignalled : Nat
  pool : TsMemoryPool
  mem : Memory
  main : MainPc
  /-- the local `request` -/
  request : Option Queued
  /-- the `shared_ptr`s elsewhere: in other threads, and copies that packet handlers have kept -/
  others : Multiset SharedPtr
  /-- history: calls of `dispatch_request` -/
  calls : Nat
  /-- history: the requests removed from the queue, in order -/
  removed : List Queued
  /-- history: how many of them before the present or last call -/
  before : Nat
  /-- history: the semaphore at the last `try_dequeue` -/
  lastTry : Nat
  /-- history: the calls of `dispatch` in order -/
  dispatched : List Dispatched
  /-- history: the session ids and messages of the dispatch errors logged -/
  errors : List (UInt32 × String)

namespace DispatchLoop

/-! ## The main thread -/

/-- `dispatch_request` is called: `processed_count` is 0 and `request` empty. -/
def call (s : DispatchLoop) : Option DispatchLoop :=
  if s.main = .idle then
    some { s with main := .dequeue 0, calls := s.calls + 1, before := s.removed.length }
  else none

/-- The condition of the loop, up to the `tryWait` in `try_dequeue`. -/
def tryWait (s : DispatchLoop) : Option DispatchLoop :=
  match s.main with
  | .dequeue n =>
    if n < maxPacketDispatchThreshold then
      match s.requests.tryWait with
      | some q => some { s with requests := q, main := .spinning n, lastTry := s.requests.sema }
      | none => some { s with main := .returning, lastTry := s.requests.sema }
    else some { s with main := .returning }
  | _ => none

/-- The rest of `try_dequeue`: the inner `try_dequeue` that succeeds, which moves the item into
`request`. -/
def tryDequeue (sizeApprox : Nat → Nat) (s : DispatchLoop) : Option DispatchLoop :=
  match s.main with
  | .spinning n =>
    if s.requests.inner.producers.all fun t => sizeApprox t ≤ (s.requests.inner.items t).length then
      match BlockingConcurrentQueue.tryDequeue sizeApprox s.requests.inner with
      | some (item, q) =>
        some { s with requests := { s.requests with inner := q }, request := some item,
                      main := .assigning n (s.request.map Queued.owner),
                      removed := s.removed ++ [item] }
      | none => none
    else none
  | _ => none

/-- The `packet_owner` that `request` had is released. -/
def assign (pushed : Bool) (s : DispatchLoop) : Option DispatchLoop :=
  match s.main with
  | .assigning n old => some { s with pool := Server.dropOwner old pushed s.pool, main := .dispatching n }
  | _ => none

/-- `packet_dispatcher::dispatch(&request)`, up to the call of the handler function. -/
def dispatch (handlers : Handlers) (s : DispatchLoop) : Option DispatchLoop :=
  match s.main, s.request with
  | .dispatching n, some item =>
    let called := Us2d.dispatch handlers s.mem item.request
    some { s with main := .handling n called,
                  dispatched := s.dispatched ++ [⟨item, packetBytes s.mem item.request, called⟩] }
  | _, _ => none

/-- The end of `dispatch` and of the `try` block, the `catch` clause, and `processed_count++`. -/
def endDispatch (outcome : Except StdException Unit) (s : DispatchLoop) : Option DispatchLoop :=
  match s.main, s.request with
  | .handling n _, some item =>
    let s := match outcome with
      | .ok () => s
      | .error e => { s with errors := s.errors ++ [(item.request.sessionId, e.what)] }
    some { s with main := .dequeue (n + 1) }
  | _, _ => none

/-- `dispatch_request` returns, and `request` is destroyed. -/
def endDispatchRequest (pushed : Bool) (s : DispatchLoop) : Option DispatchLoop :=
  match s.main with
  | .returning =>
    some { s with pool := Server.dropOwner (s.request.map Queued.owner) pushed s.pool,
                  request := none, main := .idle }
  | _ => none

/-! ## Packet handlers and other threads -/

/-- A handler function keeps a copy of its request's `packet_owner`. -/
def keep (s : DispatchLoop) : Option DispatchLoop :=
  match s.main, s.request with
  | .handling _ (some _), some item =>
    some { s with pool := s.pool.copy item.owner, others := item.owner ::ₘ s.others }
  | _, _ => none

/-- A thread, or a packet handler, moves a request into the queue: `enqueue`, up to its `signal`. -/
def enqueue (thread : Nat) (item : Queued) (s : DispatchLoop) : Option DispatchLoop :=
  if item.owner ∈ s.others then
    some { s with requests := s.requests.enqueue thread item, unsignalled := s.unsignalled + 1,
                  others := s.others.erase item.owner }
  else none

def signal (s : DispatchLoop) : Option DispatchLoop :=
  if 0 < s.unsignalled then
    some { s with requests := s.requests.signal, unsignalled := s.unsignalled - 1 }
  else none

/-- A thread rents a block, from the stack or newly allocated. -/
def rent (t : BlockType) (fresh : Bool) (s : DispatchLoop) : Option DispatchLoop :=
  if fresh then
    some { s with pool := (s.pool.rentFresh t).2, others := (s.pool.rentFresh t).1 ::ₘ s.others }
  else
    (s.pool.rentPopped t).map fun out => { s with pool := out.2, others := out.1 ::ₘ s.others }

def copy (sp : SharedPtr) (s : DispatchLoop) : Option DispatchLoop :=
  if sp ∈ s.others then some { s with pool := s.pool.copy sp, others := sp ::ₘ s.others } else none

def drop (sp : SharedPtr) (pushed : Bool) (s : DispatchLoop) : Option DispatchLoop :=
  if sp ∈ s.others then some { s with pool := s.pool.drop sp pushed, others := s.others.erase sp }
  else none

/-! ## The step function -/

inductive Action
  | call
  | tryWait
  | tryDequeue (sizeApprox : Nat → Nat)
  | assign (pushed : Bool)
  | dispatch
  | endDispatch (outcome : Except StdException Unit)
  | return (pushed : Bool)
  | keep
  | enqueue (thread : Nat) (item : Queued)
  | signal
  | rent (t : BlockType) (fresh : Bool)
  | copy (sp : SharedPtr)
  | drop (sp : SharedPtr) (pushed : Bool)
  /-- memory has changed to `mem` -/
  | write (mem : Memory)

def step (handlers : Handlers) (s : DispatchLoop) : Action → Option DispatchLoop
  | .call => s.call
  | .tryWait => s.tryWait
  | .tryDequeue sizeApprox => s.tryDequeue sizeApprox
  | .assign pushed => s.assign pushed
  | .dispatch => s.dispatch handlers
  | .endDispatch outcome => s.endDispatch outcome
  | .return pushed => s.endDispatchRequest pushed
  | .keep => s.keep
  | .enqueue thread item => s.enqueue thread item
  | .signal => s.signal
  | .rent t fresh => s.rent t fresh
  | .copy sp => s.copy sp
  | .drop sp pushed => s.drop sp pushed
  | .write mem => some { s with mem := mem }

/-! ## The references -/

def queueOwners (s : DispatchLoop) : Multiset SharedPtr := s.requests.inner.contents.map Queued.owner

/-- Those of `request` and of its value before the assignment in progress. -/
def localOwners (s : DispatchLoop) : Multiset SharedPtr :=
  (s.request.map Queued.owner).toList + s.main.old.toList

/-- All `shared_ptr`s in existence. -/
def refs (s : DispatchLoop) : Multiset SharedPtr := s.others + (s.queueOwners + s.localOwners)

/-! ## The start -/

/-- What `dispatch_request` may find: any queue, memory and pool, and the `shared_ptr`s outside
of the queue. -/
structure Setting where
  requests : BlockingConcurrentQueue Queued
  unsignalled : Nat
  pool : TsMemoryPool
  mem : Memory
  others : Multiset SharedPtr
  /-- the semaphore counts the items that have been signalled -/
  card : requests.inner.contents.card = requests.sema + unsignalled
  inv : pool.Inv
  refs : pool.Refs (others + requests.inner.contents.map Queued.owner)

def start (c : Setting) : DispatchLoop where
  requests := c.requests
  unsignalled := c.unsignalled
  pool := c.pool
  mem := c.mem
  main := .idle
  request := none
  others := c.others
  calls := 0
  removed := []
  before := 0
  lastTry := 0
  dispatched := []
  errors := []

/-! ## The ways through a step -/

variable {handlers : Handlers} {s s' : DispatchLoop} {a : Action}

inductive Effect (handlers : Handlers) (s : DispatchLoop) : Action → DispatchLoop → Prop
  | called (hpc : s.main = .idle) :
      Effect handlers s .call
        { s with main := .dequeue 0, calls := s.calls + 1, before := s.removed.length }
  | waited (n : Nat) (hpc : s.main = .dequeue n) (hn : n < maxPacketDispatchThreshold)
      (hsema : 0 < s.requests.sema) :
      Effect handlers s .tryWait
        { s with requests := { s.requests with sema := s.requests.sema - 1 }, main := .spinning n,
                 lastTry := s.requests.sema }
  | empty (n : Nat) (hpc : s.main = .dequeue n) (hn : n < maxPacketDispatchThreshold)
      (hsema : s.requests.sema = 0) :
      Effect handlers s .tryWait { s with main := .returning, lastTry := 0 }
  | full (n : Nat) (hpc : s.main = .dequeue n) (hn : maxPacketDispatchThreshold ≤ n) :
      Effect handlers s .tryWait { s with main := .returning }
  | popped (sizeApprox : Nat → Nat) (n ptr : Nat) (item : Queued) (q : SubQueues Queued)
      (hpc : s.main = .spinning n)
      (hle : ∀ t ∈ s.requests.inner.producers, sizeApprox t ≤ (s.requests.inner.items t).length)
      (htry : BlockingConcurrentQueue.tryDequeue sizeApprox s.requests.inner = some (item, q))
      (hpop : s.requests.inner.removeHead ptr = some (item, q)) :
      Effect handlers s (.tryDequeue sizeApprox)
        { s with requests := { s.requests with inner := q }, request := some item,
                 main := .assigning n (s.request.map Queued.owner), removed := s.removed ++ [item] }
  | assigned (n : Nat) (old : Option SharedPtr) (pushed : Bool) (hpc : s.main = .assigning n old) :
      Effect handlers s (.assign pushed)
        { s with pool := Server.dropOwner old pushed s.pool, main := .dispatching n }
  | dispatched (n : Nat) (item : Queued) (called : Option Nat) (bytes : List UInt8)
      (hpc : s.main = .dispatching n) (hreq : s.request = some item) :
      Effect handlers s .dispatch
        { s with main := .handling n called, dispatched := s.dispatched ++ [⟨item, bytes, called⟩] }
  | handled (n : Nat) (called : Option Nat) (outcome : Except StdException Unit)
      (errors : List (UInt32 × String)) (hpc : s.main = .handling n called) :
      Effect handlers s (.endDispatch outcome) { s with main := .dequeue (n + 1), errors := errors }
  | returned (pushed : Bool) (hpc : s.main = .returning) :
      Effect handlers s (.return pushed)
        { s with pool := Server.dropOwner (s.request.map Queued.owner) pushed s.pool,
                 request := none, main := .idle }
  | kept (n h : Nat) (item : Queued) (hpc : s.main = .handling n (some h))
      (hreq : s.request = some item) :
      Effect handlers s .keep
        { s with pool := s.pool.copy item.owner, others := item.owner ::ₘ s.others }
  | enqueued (thread : Nat) (item : Queued) (others : Multiset SharedPtr)
      (hothers : s.others = item.owner ::ₘ others) :
      Effect handlers s (.enqueue thread item)
        { s with requests := s.requests.enqueue thread item, unsignalled := s.unsignalled + 1,
                 others := others }
  | signalled (hpos : 0 < s.unsignalled) :
      Effect handlers s .signal
        { s with requests := s.requests.signal, unsignalled := s.unsignalled - 1 }
  | rented (t : BlockType) (fresh : Bool) (sp : SharedPtr) (p : TsMemoryPool)
      (hpool : s.pool.rentPopped t = some (sp, p) ∨ (sp, p) = s.pool.rentFresh t) :
      Effect handlers s (.rent t fresh) { s with pool := p, others := sp ::ₘ s.others }
  | copied (sp : SharedPtr) (hsp : sp ∈ s.others) :
      Effect handlers s (.copy sp) { s with pool := s.pool.copy sp, others := sp ::ₘ s.others }
  | dropped (sp : SharedPtr) (pushed : Bool) (others : Multiset SharedPtr)
      (hothers : s.others = sp ::ₘ others) :
      Effect handlers s (.drop sp pushed) { s with pool := s.pool.drop sp pushed, others := others }
  | written (mem : Memory) : Effect handlers s (.write mem) { s with mem := mem }

theorem effect_of_step (h : step handlers s a = some s') : Effect handlers s a s' := by
  cases a with
  | call =>
    simp only [step, call] at h
    split at h <;> cases h
    exact .called ‹_›
  | tryWait =>
    simp only [step, tryWait] at h
    split at h
    · next n hpc =>
      split at h
      · next hn =>
        unfold BlockingConcurrentQueue.tryWait at h
        split at h
        · next q hq =>
          split at hq <;> cases hq
          cases h
          exact .waited n hpc hn ‹_›
        · next hq =>
          split at hq <;> cases hq
          cases h
          have hsema : s.requests.sema = 0 := Nat.eq_zero_of_not_pos ‹_›
          rw [hsema]
          exact .empty n hpc hn hsema
      · next hn =>
        cases h
        exact .full n hpc (Nat.le_of_not_lt hn)
    · cases h
  | tryDequeue sizeApprox =>
    simp only [step, tryDequeue] at h
    split at h
    · next n hpc =>
      split at h
      · next hall =>
        split at h
        · next item q htry =>
          cases h
          obtain ⟨ptr, hpop⟩ := BlockingConcurrentQueue.tryDequeue_eq_some htry
          exact .popped sizeApprox n ptr item q hpc (by simpa using hall) htry hpop
        · cases h
      · cases h
    · cases h
  | assign pushed =>
    simp only [step, assign] at h
    split at h
    · next n old hpc => cases h; exact .assigned n old pushed hpc
    · cases h
  | dispatch =>
    simp only [step, dispatch] at h
    split at h
    · next n item hpc hreq => cases h; exact .dispatched n item _ _ hpc hreq
    · cases h
  | endDispatch outcome =>
    simp only [step, endDispatch] at h
    split at h
    · next n called item hpc hreq =>
      cases outcome with
      | ok => cases h; exact .handled n called _ _ hpc
      | error e => cases h; exact .handled n called _ _ hpc
    · cases h
  | «return» pushed =>
    simp only [step, endDispatchRequest] at h
    split at h
    · next hpc => cases h; exact .returned pushed hpc
    · cases h
  | keep =>
    simp only [step, keep] at h
    split at h
    · next n h' item hpc hreq => cases h; exact .kept n h' item hpc hreq
    · cases h
  | enqueue thread item =>
    simp only [step, enqueue] at h
    split at h <;> cases h
    exact .enqueued thread item _ (Multiset.cons_erase ‹_›).symm
  | signal =>
    simp only [step, signal] at h
    split at h <;> cases h
    exact .signalled ‹_›
  | rent t fresh =>
    simp only [step, rent] at h
    split at h
    · cases h
      exact .rented t fresh _ _ (Or.inr rfl)
    · obtain ⟨⟨sp, p⟩, hpop, rfl⟩ := Option.map_eq_some_iff.mp h
      exact .rented t fresh sp p (Or.inl hpop)
  | copy sp =>
    simp only [step, copy] at h
    split at h <;> cases h
    exact .copied sp ‹_›
  | drop sp pushed =>
    simp only [step, drop] at h
    split at h <;> cases h
    exact .dropped sp pushed _ (Multiset.cons_erase ‹_›).symm
  | write mem =>
    cases h
    exact .written mem

end DispatchLoop

end Us2d
