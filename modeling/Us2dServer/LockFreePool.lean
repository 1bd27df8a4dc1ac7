import Us2dServer.Lib.Composition
import Us2dServer.LockFreeStackLaw
import Us2dServer.PoolThreads

/-!
# The block pool over its seven lock-free stacks

`ts_memory_pool` again, its stacks now being `boost::lockfree::stack`s that take an atomic access
at a time.  `rent_block` calls `pop` and the deleter calls `push`; between the call and the return
other threads act, on the same stack too.  The pool is a client of the stacks (`poolClient`), so by
the replacement rule it does nothing that it does not do over atomic stacks (`lifo`), and there

    the blocks on a stack, in calls of it, and about to be pushed are the blocks that the pool of
    `MemoryPool` has on that stack, in some order     (`Rep`)

so that its invariant carries over: `pool_custody`.  A `push` is never refused, and the deleter
never deletes.
-/

namespace Us2d

open AtomicObject Transition TsMemoryPool

/-- Where a thread is in `rent_block`, in the deleter of a `shared_ptr`, or in a round of
`initialize_pool`. -/
inductive PoolPc
  | idle
  /-- `stack.pop(block)` is next -/
  | rent (size : Nat) (t : BlockType)
  | popping (size : Nat) (t : BlockType)
  /-- `can_allocate_dynamic()` is next -/
  | popFailed (size : Nat) (t : BlockType)
  /-- `push(p, stack)` is next -/
  | give (b : Nat) (t : BlockType)
  | pushing (b : Nat) (t : BlockType)
deriving DecidableEq, Repr

/-- The pool without its stacks, and the `shared_ptr`s in existence. -/
structure PoolClient where
  heap : List BlockType
  ctrls : List ControlBlock
  deleted : List Nat
  refs : List SharedPtr
  pc : Nat → PoolPc

namespace PoolClient

inductive Action
  /-- `rent(size)`, up to the call of `stack.pop` -/
  | rent (thread size : Nat)
  /-- the rest of that call after a failed `pop`, with the answer of `can_allocate_dynamic()` -/
  | allocate (thread : Nat) (can : Bool)
  | copy (sp : SharedPtr)
  /-- the thread destroys a `shared_ptr`; the last one runs the deleter, up to the call of `push` -/
  | drop (thread : Nat) (sp : SharedPtr)
  /-- a round of `initialize_pool`, up to the call of `push` -/
  | fill (thread : Nat) (t : BlockType)

/-- A bound on the numbers of the threads that act. -/
def Action.Below (N : Nat) : Action → Prop
  | .rent thread _ => thread < N
  | .allocate thread _ => thread < N
  | .copy _ => True
  | .drop thread _ => thread < N
  | .fill thread _ => thread < N

def goto (thread : Nat) (p : PoolPc) (k : PoolClient) : PoolClient :=
  { k with pc := Function.update k.pc thread p }

/-- The `shared_ptr` constructed from a block and the deleter for the stack of `t`. -/
def share (b : Nat) (t : BlockType) (k : PoolClient) : PoolClient :=
  { k with ctrls := k.ctrls ++ [⟨b, t, 1⟩], refs := ⟨b, k.ctrls.length⟩ :: k.refs }

def newBlock (t : BlockType) (k : PoolClient) : PoolClient := { k with heap := k.heap ++ [t] }

def step (k : PoolClient) : Action → Option PoolClient
  | .rent thread size =>
    match k.pc thread, classOf size with
    | .idle, some t => some (k.goto thread (.rent size t))
    | .idle, none => some k
    | _, _ => none
  | .allocate thread can =>
    match k.pc thread with
    | .popFailed _ t =>
      if can then some (((k.newBlock t).share k.heap.length t).goto thread .idle)
      else some (k.goto thread .idle)
    | _ => none
  | .copy sp =>
    match k.ctrls[sp.ctrl]? with
    | some c =>
      if sp ∈ k.refs then
        some { k with ctrls := k.ctrls.set sp.ctrl { c with useCount := c.useCount + 1 },
                      refs := sp :: k.refs }
      else none
    | none => none
  | .drop thread sp =>
    match k.pc thread, k.ctrls[sp.ctrl]? with
    | .idle, some c =>
      if sp ∈ k.refs then
        if c.useCount = 1 then
          some (goto thread (.give c.ptr c.stack)
            { k with ctrls := k.ctrls.set sp.ctrl { c with useCount := 0 }, refs := k.refs.erase sp })
        else
          some { k with ctrls := k.ctrls.set sp.ctrl { c with useCount := c.useCount - 1 },
                        refs := k.refs.erase sp }
      else none
    | _, _ => none
  | .fill thread t =>
    match k.pc thread with
    | .idle => some ((k.newBlock t).goto thread (.give k.heap.length t))
    | _ => none

/-- The pool's part in what happens on the stack of `t`: its calls, and what it does when they
return. -/
def observe (k : PoolClient) (t : BlockType) :
    Observed (StackOp Nat) (StackRes Nat) → Option PoolClient
  | .called thread op =>
    match k.pc thread, op with
    | .rent size u, .pop => if u = t then some (k.goto thread (.popping size u)) else none
    | .give b u, .push b' => if u = t ∧ b' = b then some (k.goto thread (.pushing b u)) else none
    | _, _ => none
  | .returned thread r =>
    match k.pc thread, r with
    | .popping size u, .popped block =>
      if u = t then
        match block with
        | some b => some ((k.share b u).goto thread .idle)
        | none => some (k.goto thread (.popFailed size u))
      else none
    | .pushing b u, .pushed ok =>
      if u = t then
        if ok then some (k.goto thread .idle)
        else some (goto thread .idle { k with deleted := b :: k.deleted })
      else none
    | _, _ => none

/-- Before the constructor has filled the stacks. -/
def empty : PoolClient := ⟨[], [], [], [], fun _ => .idle⟩

end PoolClient

/-- `ts_memory_pool` as a client of its stacks. -/
def poolClient : Composition.Client PoolClient PoolClient.Action BlockType
    (Observed (StackOp Nat) (StackRes Nat)) := ⟨PoolClient.step, PoolClient.observe⟩

namespace LockFreePool

open StackThreads Composition

/-- The pool over seven stacks of block numbers, each with its clock. -/
def step : Composition.State PoolClient BlockType (Timed Nat Nat) →
    Composition.Action PoolClient.Action BlockType (StackThreads.Action Nat Nat) →
      Option (Composition.State PoolClient BlockType (Timed Nat Nat)) :=
  Composition.step poolClient Timed.act

/-- The pool over atomic stacks. -/
def atomicStep : Composition.State PoolClient BlockType
      (AtomicObject.State (List Nat) (StackOp Nat) (StackRes Nat)) →
    Composition.Action PoolClient.Action BlockType (AtomicObject.Action (StackOp Nat)) →
      Option (Composition.State PoolClient BlockType
        (AtomicObject.State (List Nat) (StackOp Nat) (StackRes Nat))) :=
  Composition.step poolClient (AtomicObject.act lifo)

/-! ## The blocks of a stack -/

/-- The block a thread is about to push to the stack of `t`. -/
def giving (t : BlockType) : PoolPc → Multiset Nat
  | .give b u => if u = t then {b} else 0
  | _ => 0

def given (N : Nat) (k : PoolClient) (t : BlockType) : Multiset Nat :=
  Parties.total N fun th => giving t (k.pc th)

variable {N th : Nat} {k k' : PoolClient} {t u : BlockType} {q : PoolPc} {p : TsMemoryPool}
  {objs : BlockType → AtomicObject.State (List Nat) (StackOp Nat) (StackRes Nat)}

theorem given_goto (hth : th < N) :
    given N (k.goto th q) t + giving t (k.pc th) = given N k t + giving t q := by
  unfold given
  exact Parties.total_update hth

/-- A thread that is not about to push, before and after. -/
theorem given_goto_of_zero (hth : th < N) (h : giving t (k.pc th) = 0) (h' : giving t q = 0) :
    given N (k.goto th q) t = given N k t := by
  have := given_goto (k := k) (q := q) (t := t) hth
  rwa [h, h', add_zero, add_zero] at this

/-! ## The pool represented -/

end LockFreePool

/-- The order of the blocks on a stack does not matter to the invariant. -/
theorem TsMemoryPool.Inv.reorder {p : TsMemoryPool} (hi : p.Inv) {pools : BlockType → List Nat}
    (h : ∀ t, (p.pools t).Perm (pools t)) : TsMemoryPool.Inv { p with pools := pools } := by
  have hheld : ∀ q b, TsMemoryPool.held { p with pools := pools } q b = p.held q b := by
    intro q b
    cases q with
    | stack t => exact ((h t).count_eq b).symm
    | rental g => rfl
    | deleted => rfl
  refine ⟨fun b hb => (hi.custody b hb).congr fun q => hheld q b, fun b hb q => ?_, fun t b hb => ?_,
    hi.ctrlType⟩
  · rw [hheld]
    exact hi.absent b hb q
  · exact hi.stackType t b ((h t).mem_iff.mpr hb)

namespace LockFreePool

open StackThreads Composition

variable {N th : Nat} {k k' : PoolClient} {t u : BlockType} {q : PoolPc} {p : TsMemoryPool}
  {objs : BlockType → AtomicObject.State (List Nat) (StackOp Nat) (StackRes Nat)}

/-- The pool `p` of `MemoryPool` is what the client and its atomic stacks amount to: on the stack
of `t` it has the blocks that are there, in calls of that stack, or about to be pushed to it. -/
structure Rep (N : Nat) (k : PoolClient)
    (objs : BlockType → AtomicObject.State (List Nat) (StackOp Nat) (StackRes Nat))
    (p : TsMemoryPool) : Prop where
  heap : p.heap = k.heap
  ctrls : p.ctrls = k.ctrls
  deleted : p.deleted = [] ∧ k.deleted = []
  pools : ∀ t, (p.pools t : Multiset Nat) = Lifo.content N (objs t) + given N k t
  inv : p.Inv
  refs : p.Refs ↑k.refs
  idle : ∀ th, N ≤ th → k.pc th = .idle ∧ ∀ t, (objs t).call th = .idle
  pushed : ∀ t th ok, (objs t).call th = .done (.pushed ok) → ok = true

theorem Rep.lt (hr : Rep N k objs p) (h : k.pc th ≠ .idle) : th < N :=
  Nat.lt_of_not_le fun hle => h (hr.idle th hle).1

theorem Rep.idle_goto (hr : Rep N k objs p) (hth : th < N) (j : Nat) (hj : N ≤ j) :
    (k.goto th q).pc j = .idle := by
  have hne : j ≠ th := by omega
  simpa [PoolClient.goto, hne] using (hr.idle j hj).1

/-- The thread goes on without a block in its hands. -/
theorem Rep.goto (hr : Rep N k objs p) (hth : th < N) (h : ∀ t, giving t (k.pc th) = 0)
    (h' : ∀ t, giving t q = 0) : Rep N (k.goto th q) objs p where
  heap := hr.heap
  ctrls := hr.ctrls
  deleted := hr.deleted
  pools := by
    intro t
    rw [given_goto_of_zero hth (h t) (h' t)]
    exact hr.pools t
  inv := hr.inv
  refs := hr.refs
  idle := fun j hj => ⟨hr.idle_goto hth j hj, (hr.idle j hj).2⟩
  pushed := hr.pushed

theorem Rep.allocate (hr : Rep N k objs p) :
    Rep N ((k.newBlock t).share k.heap.length t) objs (p.rentFresh t).2 where
  heap := by
    show p.heap ++ [t] = k.heap ++ [t]
    rw [hr.heap]
  ctrls := by
    show p.ctrls ++ [⟨p.heap.length, t, 1⟩] = k.ctrls ++ [⟨k.heap.length, t, 1⟩]
    rw [hr.ctrls, hr.heap]
  deleted := hr.deleted
  pools := hr.pools
  inv := hr.inv.rentFresh
  refs := by
    have hrefs := hr.refs.rentFresh (t := t)
    have hsp : (p.rentFresh t).1 = ⟨k.heap.length, k.ctrls.length⟩ := by
      show (⟨p.heap.length, p.ctrls.length⟩ : SharedPtr) = _
      rw [hr.heap, hr.ctrls]
    rwa [hsp, Multiset.cons_coe] at hrefs
  idle := hr.idle
  pushed := hr.pushed

theorem Rep.copy (hr : Rep N k objs p) {sp : SharedPtr} {c : ControlBlock}
    (hc : k.ctrls[sp.ctrl]? = some c) (hsp : sp ∈ k.refs) :
    Rep N { k with ctrls := k.ctrls.set sp.ctrl { c with useCount := c.useCount + 1 },
                   refs := sp :: k.refs } objs (p.copy sp) := by
  have hmem : sp ∈ (↑k.refs : Multiset SharedPtr) := hsp
  have hrefs := hr.refs.copy hmem
  have hinv := hr.inv.copy (hr.refs.useCount_pos hmem)
  have heq : p.copy sp = p.setCtrl sp.ctrl { c with useCount := c.useCount + 1 } := by
    simp [TsMemoryPool.copy, hr.ctrls, hc]
  rw [heq] at hrefs hinv ⊢
  refine ⟨hr.heap, ?_, hr.deleted, hr.pools, hinv, ?_, hr.idle, hr.pushed⟩
  · show p.ctrls.set _ _ = k.ctrls.set _ _
    rw [hr.ctrls]
  · rwa [Multiset.cons_coe] at hrefs

/-- Another `shared_ptr` of the group is left. -/
theorem Rep.drop (hr : Rep N k objs p) {sp : SharedPtr} {c : ControlBlock}
    (hc : k.ctrls[sp.ctrl]? = some c) (hsp : sp ∈ k.refs) (hone : c.useCount ≠ 1) :
    Rep N { k with ctrls := k.ctrls.set sp.ctrl { c with useCount := c.useCount - 1 },
                   refs := k.refs.erase sp } objs (p.drop sp true) := by
  have hperm : (↑k.refs : Multiset SharedPtr) = sp ::ₘ ↑(k.refs.erase sp) :=
    Multiset.coe_eq_coe.mpr (List.perm_cons_erase hsp)
  have hrefs := (hperm ▸ hr.refs).drop true
  have hinv : (p.drop sp true).Inv := hr.inv.drop true
  have heq : p.drop sp true = p.setCtrl sp.ctrl { c with useCount := c.useCount - 1 } := by
    simp [TsMemoryPool.drop, hr.ctrls, hc, hone]
  rw [heq] at hrefs hinv ⊢
  refine ⟨hr.heap, ?_, hr.deleted, hr.pools, hinv, hrefs, hr.idle, hr.pushed⟩
  show p.ctrls.set _ _ = k.ctrls.set _ _
  rw [hr.ctrls]

/-- The last `shared_ptr`: the deleter has the block. -/
theorem Rep.drop_last (hr : Rep N k objs p) {sp : SharedPtr} {c : ControlBlock} (hth : th < N)
    (hpc : k.pc th = .idle) (hc : k.ctrls[sp.ctrl]? = some c) (hsp : sp ∈ k.refs)
    (hone : c.useCount = 1) :
    Rep N (PoolClient.goto th (.give c.ptr c.stack)
      { k with ctrls := k.ctrls.set sp.ctrl { c with useCount := 0 }, refs := k.refs.erase sp })
      objs (p.drop sp true) := by
  have hperm : (↑k.refs : Multiset SharedPtr) = sp ::ₘ ↑(k.refs.erase sp) :=
    Multiset.coe_eq_coe.mpr (List.perm_cons_erase hsp)
  have hrefs := (hperm ▸ hr.refs).drop true
  have hinv : (p.drop sp true).Inv := hr.inv.drop true
  have heq : p.drop sp true =
      (p.setCtrl sp.ctrl { c with useCount := 0 }).giveBack c.ptr c.stack true := by
    simp [TsMemoryPool.drop, hr.ctrls, hc, hone]
  rw [heq] at hrefs hinv ⊢
  refine ⟨hr.heap, ?_, hr.deleted, ?_, hinv, hrefs,
    fun j hj => ⟨hr.idle_goto hth j hj, (hr.idle j hj).2⟩, hr.pushed⟩
  · show p.ctrls.set _ _ = k.ctrls.set _ _
    rw [hr.ctrls]
  · intro t
    have hgiven := given_goto (k := k) (q := .give c.ptr c.stack) (t := t) hth
    rw [hpc, show giving t .idle = 0 from rfl, add_zero] at hgiven
    show (↑((p.setCtrl sp.ctrl { c with useCount := 0 }).giveBack c.ptr c.stack true |>.pools t) :
      Multiset Nat) = Lifo.content N (objs t) + given N (k.goto th (.give c.ptr c.stack)) t
    rw [hgiven, ← add_assoc, ← hr.pools t]
    by_cases ht : c.stack = t
    · subst ht
      simp [giveBack, TsMemoryPool.setCtrl, giving, Lifo.cons_eq_add]
    · simp [giveBack, TsMemoryPool.setCtrl, giving, ht, Ne.symm ht]

/-- A round of `initialize_pool`. -/
theorem Rep.fill (hr : Rep N k objs p) (hth : th < N) (hpc : k.pc th = .idle) :
    Rep N ((k.newBlock t).goto th (.give k.heap.length t)) objs
      ((p.newBlock t).2.giveBack p.heap.length t true) := by
  refine ⟨?_, hr.ctrls, hr.deleted, ?_, hr.inv.newBlock_giveBack true, ⟨hr.refs.useCount, hr.refs.ptr⟩,
    fun j hj => ⟨hr.idle_goto hth j hj, (hr.idle j hj).2⟩, hr.pushed⟩
  · show p.heap ++ [t] = k.heap ++ [t]
    rw [hr.heap]
  · intro u
    have hgiven := given_goto (k := k) (q := .give k.heap.length t) (t := u) hth
    rw [hpc, show giving u .idle = 0 from rfl, add_zero] at hgiven
    show (↑((p.newBlock t).2.giveBack p.heap.length t true |>.pools u) : Multiset Nat) =
      Lifo.content N (objs u) + given N (k.goto th (.give k.heap.length t)) u
    rw [hgiven, ← add_assoc, ← hr.pools u]
    by_cases ht : t = u
    · subst ht
      simp [giveBack, TsMemoryPool.newBlock, giving, Lifo.cons_eq_add, hr.heap]
    · simp [giveBack, TsMemoryPool.newBlock, giving, ht, Ne.symm ht]

/-- The pool's own steps keep the representation. -/
theorem Rep.client (hr : Rep N k objs p) {g : PoolClient.Action} (hg : g.Below N)
    (h : k.step g = some k') : ∃ p', Rep N k' objs p' := by
  cases g with
  | rent th size =>
    simp only [PoolClient.step] at h
    split at h
    · next hpc _ =>
      cases h
      exact ⟨p, hr.goto hg (fun t => by rw [hpc]; rfl) fun _ => rfl⟩
    · cases h
      exact ⟨p, hr⟩
    · cases h
  | allocate th can =>
    simp only [PoolClient.step] at h
    split at h
    · next hpc =>
      split at h
      · cases h
        refine ⟨_, hr.allocate.goto hg (fun t => ?_) fun _ => rfl⟩
        show giving t (k.pc th) = 0
        rw [hpc]
        rfl
      · cases h
        exact ⟨p, hr.goto hg (fun t => by rw [hpc]; rfl) fun _ => rfl⟩
    · cases h
  | copy sp =>
    simp only [PoolClient.step] at h
    split at h
    · next c hc =>
      split at h
      · next hsp =>
        cases h
        exact ⟨_, hr.copy hc hsp⟩
      · cases h
    · cases h
  | drop th sp =>
    simp only [PoolClient.step] at h
    split at h
    · next c hpc hc =>
      split at h
      · next hsp =>
        split at h
        · next hone =>
          cases h
          exact ⟨_, hr.drop_last hg hpc hc hsp hone⟩
        · next hone =>
          cases h
          exact ⟨_, hr.drop hc hsp hone⟩
      · cases h
    · cases h
  | fill th t =>
    simp only [PoolClient.step] at h
    split at h
    · next hpc =>
      cases h
      exact ⟨_, hr.fill hg hpc⟩
    · cases h

theorem Rep.idle_update {a : AtomicObject.State (List Nat) (StackOp Nat) (StackRes Nat)}
    (hr : Rep N k objs p) (hidle : ∀ j, N ≤ j → a.call j = .idle) (j : Nat) (hj : N ≤ j) :
    ∀ u, (Function.update objs t a u).call j = .idle :=
  (Function.forall_update_iff objs fun _ o => o.call j = .idle).mpr
    ⟨hidle j hj, fun u _ => (hr.idle j hj).2 u⟩

theorem Rep.pushed_update {a : AtomicObject.State (List Nat) (StackOp Nat) (StackRes Nat)}
    (hr : Rep N k objs p) (hpushed : ∀ j ok, a.call j = .done (.pushed ok) → ok = true) :
    ∀ u j ok, (Function.update objs t a u).call j = .done (.pushed ok) → ok = true :=
  (Function.forall_update_iff objs fun _ o => ∀ j ok, o.call j = .done (.pushed ok) → ok = true).mpr
    ⟨hpushed, fun u _ => hr.pushed u⟩

/-- A step of the stack of `t` in which the pool's memory stays. -/
theorem Rep.object {a : AtomicObject.State (List Nat) (StackOp Nat) (StackRes Nat)}
    (hr : Rep N k objs p) (hk : k' = { k with pc := k'.pc }) (hpc : ∀ j, N ≤ j → k'.pc j = .idle)
    (hbal : Lifo.content N a + given N k' t = Lifo.content N (objs t) + given N k t)
    (hother : ∀ u, u ≠ t → given N k' u = given N k u)
    (hidle : ∀ j, N ≤ j → a.call j = .idle)
    (hpushed : ∀ j ok, a.call j = .done (.pushed ok) → ok = true) :
    Rep N k' (Function.update objs t a) p := by
  have hheap : k'.heap = k.heap := by rw [hk]
  have hctrls : k'.ctrls = k.ctrls := by rw [hk]
  have hdeleted : k'.deleted = k.deleted := by rw [hk]
  have hrefs : k'.refs = k.refs := by rw [hk]
  refine ⟨hr.heap.trans hheap.symm, hr.ctrls.trans hctrls.symm, ⟨hr.deleted.1, hdeleted.trans hr.deleted.2⟩,
    fun u => ?_, hr.inv, by rw [hrefs]; exact hr.refs, fun j hj => ?_, fun u j ok => ?_⟩
  · by_cases hu : u = t
    · subst hu
      rw [Function.update_self, hbal]
      exact hr.pools u
    · rw [Function.update_of_ne hu, hother u hu]
      exact hr.pools u
  · exact ⟨hpc j hj, hr.idle_update hidle j hj⟩
  · exact hr.pushed_update hpushed u j ok

/-- A push is never refused. -/
theorem pushed_step {a a' : AtomicObject.State (List Nat) (StackOp Nat) (StackRes Nat)}
    {b : AtomicObject.Action (StackOp Nat)} {o : List (Observed (StackOp Nat) (StackRes Nat))}
    (h : AtomicObject.act lifo a b = some (a', o))
    (ha : ∀ j ok, a.call j = .done (.pushed ok) → ok = true) :
    ∀ j ok, a'.call j = .done (.pushed ok) → ok = true := by
  intro j ok hj
  cases b with
  | call th op =>
    simp only [AtomicObject.act] at h
    split at h
    · cases h
      rw [State.set_call] at hj
      split at hj
      · cases hj
      · exact ha j ok hj
    · cases h
  | effect th =>
    simp only [AtomicObject.act] at h
    split at h
    · next op _ =>
      cases h
      have hj' : (if j = th then Call.done (lifo a.obj op).2 else a.call j) = .done (.pushed ok) := by
        rw [← State.set_call]
        exact hj
      split at hj'
      · cases op with
        | push x =>
          cases hj'
          rfl
        | pop =>
          cases hobj : a.obj with
          | nil => simp [lifo, hobj] at hj'
          | cons x l => simp [lifo, hobj] at hj'
      · exact ha j ok hj'
    · cases h
  | ret th =>
    simp only [AtomicObject.act] at h
    split at h
    · cases h
      rw [State.set_call] at hj
      split at hj
      · cases hj
      · exact ha j ok hj
    · cases h

/-- A popped block is wrapped. -/
theorem Rep.popped {a : AtomicObject.State (List Nat) (StackOp Nat) (StackRes Nat)} {b size : Nat}
    (hr : Rep N k objs p) (hpc : k.pc th = .popping size t)
    (hbal : Lifo.content N (objs t) = {b} + Lifo.content N a)
    (hidle : ∀ j, N ≤ j → a.call j = .idle)
    (hpushed : ∀ j ok, a.call j = .done (.pushed ok) → ok = true) :
    ∃ p', Rep N ((k.share b t).goto th .idle) (Function.update objs t a) p' := by
  have hth : th < N := hr.lt (by rw [hpc]; simp)
  have hgiven : ∀ u, given N ((k.share b t).goto th .idle) u = given N k u := fun u =>
    given_goto_of_zero (k := k.share b t) hth
      (by rw [show (k.share b t).pc th = k.pc th from rfl, hpc]; rfl) rfl
  have hsum : (↑(p.pools t) : Multiset Nat) = {b} + (Lifo.content N a + given N k t) := by
    rw [hr.pools t, hbal, add_assoc]
  have hmem : b ∈ p.pools t := by
    have : b ∈ (↑(p.pools t) : Multiset Nat) := by
      rw [hsum]
      exact Multiset.mem_add.mpr (Or.inl (Multiset.mem_singleton_self b))
    exact this
  have hrest : (↑((p.pools t).erase b) : Multiset Nat) = Lifo.content N a + given N k t := by
    have hcons : (↑(p.pools t) : Multiset Nat) = {b} + ↑((p.pools t).erase b) := by
      rw [Multiset.singleton_add, Multiset.cons_coe]
      exact Multiset.coe_eq_coe.mpr (List.perm_cons_erase hmem)
    exact add_left_cancel (hcons.symm.trans hsum)
  -- the block is brought to the top of the represented stack, and popped
  have htop : TsMemoryPool.Inv
      { p with pools := Function.update p.pools t (b :: (p.pools t).erase b) } := by
    refine hr.inv.reorder fun u => ?_
    by_cases hu : u = t
    · subst hu
      rw [Function.update_self]
      exact List.perm_cons_erase hmem
    · rw [Function.update_of_ne hu]
  have hrefs : TsMemoryPool.Refs
      { p with pools := Function.update p.pools t (b :: (p.pools t).erase b) } ↑k.refs :=
    ⟨hr.refs.useCount, hr.refs.ptr⟩
  have hpop : TsMemoryPool.rentPopped t
      { p with pools := Function.update p.pools t (b :: (p.pools t).erase b) } =
        some (TsMemoryPool.share b t { p with pools := Function.update p.pools t ((p.pools t).erase b) }) := by
    simp [TsMemoryPool.rentPopped]
  refine ⟨(TsMemoryPool.share b t
      { p with pools := Function.update p.pools t ((p.pools t).erase b) }).2,
    hr.heap, ?_, hr.deleted, fun u => ?_, htop.rentPopped hpop, ?_, fun j hj => ?_, ?_⟩
  · show p.ctrls ++ [⟨b, t, 1⟩] = k.ctrls ++ [⟨b, t, 1⟩]
    rw [hr.ctrls]
  · rw [hgiven u]
    show (↑(Function.update p.pools t ((p.pools t).erase b) u) : Multiset Nat) = _
    by_cases hu : u = t
    · subst hu
      rw [Function.update_self, Function.update_self, hrest]
    · rw [Function.update_of_ne hu, Function.update_of_ne hu]
      exact hr.pools u
  · have hshared := hrefs.rentPopped hpop
    rw [Multiset.cons_coe] at hshared
    show TsMemoryPool.Refs _ ↑((⟨b, k.ctrls.length⟩ : SharedPtr) :: k.refs)
    rwa [← hr.ctrls]
  · have hne : j ≠ th := by omega
    exact ⟨by simpa [PoolClient.goto, PoolClient.share, hne] using (hr.idle j hj).1,
      hr.idle_update hidle j hj⟩
  · exact hr.pushed_update hpushed

/-- A thread goes on that has no block to give, before or after; the stack keeps its blocks. -/
theorem Rep.object_goto {a : AtomicObject.State (List Nat) (StackOp Nat) (StackRes Nat)}
    (hr : Rep N k objs p) (hth : th < N) (hgive : ∀ v, giving v (k.pc th) = 0) (hgive' : ∀ v, giving v q = 0)
    (hbal : Lifo.content N (objs t) = Lifo.content N a) (hidle : ∀ j, N ≤ j → a.call j = .idle)
    (hpushed : ∀ j ok, a.call j = .done (.pushed ok) → ok = true) :
    Rep N (k.goto th q) (Function.update objs t a) p := by
  have hzero : ∀ v, given N (k.goto th q) v = given N k v := fun v =>
    given_goto_of_zero hth (hgive v) (hgive' v)
  refine hr.object rfl (fun j hj => hr.idle_goto hth j hj) ?_ (fun v _ => hzero v) hidle hpushed
  rw [hzero, hbal]

/-- A block goes from the hands of a thread into its call of `push`. -/
theorem Rep.object_push {a : AtomicObject.State (List Nat) (StackOp Nat) (StackRes Nat)} {b : Nat}
    (hr : Rep N k objs p) (hth : th < N) (hpc : k.pc th = .give b t)
    (hbal : {b} + Lifo.content N (objs t) = Lifo.content N a) (hidle : ∀ j, N ≤ j → a.call j = .idle)
    (hpushed : ∀ j ok, a.call j = .done (.pushed ok) → ok = true) :
    Rep N (k.goto th (.pushing b t)) (Function.update objs t a) p := by
  have hgiven := fun v => given_goto (k := k) (q := .pushing b t) (t := v) hth
  refine hr.object rfl (fun j hj => hr.idle_goto hth j hj) ?_ (fun v hv => ?_) hidle hpushed
  · have hself := hgiven t
    rw [hpc, show giving t (.give b t) = {b} by simp [giving],
      show giving t (.pushing b t) = 0 from rfl, add_zero] at hself
    rw [← hself, ← hbal]
    ac_rfl
  · have hv' := hgiven v
    rwa [hpc, show giving v (.give b t) = 0 by simp [giving, Ne.symm hv],
      show giving v (.pushing b t) = 0 from rfl, add_zero, add_zero] at hv'

/-- Who is observed is in a call of the pool. -/
theorem Rep.lt_of_observe {o : Observed (StackOp Nat) (StackRes Nat)} (hr : Rep N k objs p)
    (hobs : k.observe t o = some k') (ho : (∃ op, o = .called th op) ∨ ∃ r, o = .returned th r) : th < N := by
  refine hr.lt fun hpc => ?_
  rcases ho with ⟨op, rfl⟩ | ⟨r, rfl⟩
  · simp [PoolClient.observe, hpc] at hobs
  · simp [PoolClient.observe, hpc] at hobs

theorem Rep.observed_call {a : AtomicObject.State (List Nat) (StackOp Nat) (StackRes Nat)} {op : StackOp Nat}
    (hr : Rep N k objs p) (h : AtomicObject.act lifo (objs t) (.call th op) = some (a, [.called th op]))
    (hobs : k.observe t (.called th op) = some k') :
    ∃ p', Rep N k' (Function.update objs t a) p' := by
  have hpushed := pushed_step h (hr.pushed t)
  have hth := hr.lt_of_observe hobs (.inl ⟨op, rfl⟩)
  obtain ⟨hbal, hidle⟩ := Lifo.balance_step h (fun j op' hm => by
    cases List.mem_singleton.mp hm
    exact hth) fun j hj => (hr.idle j hj).2 t
  simp only [PoolClient.observe] at hobs
  split at hobs
  · next size u hpc =>
    split at hobs
    · next hu =>
      subst hu
      cases hobs
      exact ⟨p, hr.object_goto hth (fun v => by rw [hpc]; rfl) (fun _ => rfl)
        (by simpa [List.filterMap_cons] using hbal) hidle hpushed⟩
    · cases hobs
  · next b u b' hpc =>
    split at hobs
    · next hu =>
      obtain ⟨rfl, rfl⟩ := hu
      cases hobs
      exact ⟨p, hr.object_push hth hpc (by simpa [List.filterMap_cons] using hbal) hidle hpushed⟩
    · cases hobs
  · cases hobs

theorem Rep.observed_return {a : AtomicObject.State (List Nat) (StackOp Nat) (StackRes Nat)}
    {r : StackRes Nat} (hr : Rep N k objs p)
    (h : AtomicObject.act lifo (objs t) (.ret th) = some (a, [.returned th r]))
    (hcall : (objs t).call th = .done r) (hobs : k.observe t (.returned th r) = some k') :
    ∃ p', Rep N k' (Function.update objs t a) p' := by
  have hpushed := pushed_step h (hr.pushed t)
  have hth := hr.lt_of_observe hobs (.inr ⟨r, rfl⟩)
  obtain ⟨hbal, hidle⟩ := Lifo.balance_step h (fun j op' hm => by
    cases List.mem_singleton.mp hm) fun j hj => (hr.idle j hj).2 t
  simp only [PoolClient.observe] at hobs
  split at hobs
  · next size u block hpc =>
    split at hobs
    · next hu =>
      subst hu
      split at hobs
      · next b =>
        cases hobs
        exact hr.popped hpc (by simpa [List.filterMap_cons] using hbal) hidle hpushed
      · cases hobs
        exact ⟨p, hr.object_goto hth (fun v => by rw [hpc]; rfl) (fun _ => rfl)
          (by simpa [List.filterMap_cons] using hbal) hidle hpushed⟩
    · cases hobs
  · next b u ok hpc =>
    split at hobs
    · next hu =>
      subst hu
      obtain rfl := hr.pushed u th ok hcall
      cases hobs
      exact ⟨p, hr.object_goto hth (fun v => by rw [hpc]; rfl) (fun _ => rfl)
        (by simpa [List.filterMap_cons] using hbal) hidle hpushed⟩
    · cases hobs
  · cases hobs

/-- A step of the stack of `t`, and what the pool does with what is observed of it. -/
theorem Rep.observed {a : AtomicObject.State (List Nat) (StackOp Nat) (StackRes Nat)}
    {b : AtomicObject.Action (StackOp Nat)} {o : List (Observed (StackOp Nat) (StackRes Nat))}
    (hr : Rep N k objs p) (h : AtomicObject.act lifo (objs t) b = some (a, o))
    (hk : poolClient.observeAll t k o = some k') :
    ∃ p', Rep N k' (Function.update objs t a) p' := by
  have hact := h
  cases b with
  | call th op =>
    have ho : o = [.called th op] := by
      simp only [AtomicObject.act] at h
      split at h
      · cases h
        rfl
      · cases h
    subst ho
    rw [Composition.Client.observeAll_singleton] at hk
    exact hr.observed_call hact hk
  | effect th =>
    have ho : o = [] := by
      simp only [AtomicObject.act] at h
      split at h
      · cases h
        rfl
      · cases h
    subst ho
    cases hk
    obtain ⟨hbal, hidle⟩ := Lifo.balance_step hact (fun _ _ hm => absurd hm List.not_mem_nil)
      fun j hj => (hr.idle j hj).2 t
    refine ⟨p, hr.object rfl (fun j hj => (hr.idle j hj).1) ?_ (fun _ _ => rfl) hidle
      (pushed_step hact (hr.pushed t))⟩
    rw [show Lifo.content N a = Lifo.content N (objs t) by simpa using hbal.symm]
  | ret th =>
    have ho : ∃ r, (objs t).call th = .done r ∧ o = [.returned th r] := by
      simp only [AtomicObject.act] at h
      split at h
      · next r hcall =>
        cases h
        exact ⟨r, hcall, rfl⟩
      · cases h
    obtain ⟨r, hcall, rfl⟩ := ho
    rw [Composition.Client.observeAll_singleton] at hk
    exact hr.observed_return hact hcall hk

/-! ## Runs -/

theorem rep_empty (N : Nat) :
    Rep N PoolClient.empty (fun _ => AtomicObject.idle []) TsMemoryPool.empty where
  heap := rfl
  ctrls := rfl
  deleted := ⟨rfl, rfl⟩
  pools := by
    intro t
    have hcalls : Parties.total N (fun th => inFlight
        ((AtomicObject.idle [] : AtomicObject.State (List Nat) (StackOp Nat) (StackRes Nat)).call th)) = 0 :=
      Parties.total_eq_zero fun _ _ => rfl
    have hgiven : given N PoolClient.empty t = 0 := Parties.total_eq_zero fun _ _ => rfl
    rw [Lifo.content, hcalls, hgiven]
    rfl
  inv := inv_empty
  refs := by
    refine ⟨fun g => ?_, fun sp hsp => absurd hsp List.not_mem_nil⟩
    simp [TsMemoryPool.useCount, TsMemoryPool.empty, PoolClient.empty]
  idle := fun _ _ => ⟨rfl, fun _ => rfl⟩
  pushed := by
    intro t th ok h
    cases h

/-- Every state of the pool over atomic stacks represents a pool. -/
theorem rep_of_run {as : List (Composition.Action PoolClient.Action BlockType
      (AtomicObject.Action (StackOp Nat)))}
    {s s' : Composition.State PoolClient BlockType
      (AtomicObject.State (List Nat) (StackOp Nat) (StackRes Nat))}
    (h : run atomicStep s as = some s') (hN : ∀ g, .client g ∈ as → PoolClient.Action.Below N g)
    (hs : ∃ p, Rep N s.client s.obj p) : ∃ p, Rep N s'.client s'.obj p := by
  refine run_invariant_along (I := fun s => ∃ p, Rep N s.client s.obj p)
    (C := fun _ a => ∀ g, a = .client g → g.Below N) ?_ h
    (along_of_actions fun a ha _ g hg => hN g (hg ▸ ha)) hs
  rintro s a s' ⟨p, hr⟩ hbelow hstep
  cases a with
  | client g =>
    obtain ⟨k, hk, rfl⟩ := step_client.mp hstep
    exact hr.client (hbelow g rfl) hk
  | obj t b =>
    obtain ⟨x, os, k, hact, hk, rfl⟩ := step_obj.mp hstep
    exact hr.observed hact hk

/-- Before the constructor has filled the stacks, the free list of the stack of `t` having
`nodes t`. -/
def start (nodes : BlockType → List Nat) : Composition.State PoolClient BlockType (Timed Nat Nat) :=
  ⟨PoolClient.empty, fun t => Timed.init (nodes t)⟩

/-- The blocks of the stack of `t`: in the nodes `l` linked from its `tos`, in calls of it, and in
the hands of threads about to push. -/
def blocks (N : Nat) (s : Composition.State PoolClient BlockType (Timed Nat Nat)) (t : BlockType)
    (l : List Nat) : Multiset Nat :=
  ↑(l.map (s.obj t).threads.stack.v) + Parties.total N (fun th =>
    inFlight (((s.obj t).threads.pc th).call (s.obj t).threads.stack.v)) + given N s.client t

/-- How often a place holds a block. -/
def held (N : Nat) (s : Composition.State PoolClient BlockType (Timed Nat Nat))
    (l : BlockType → List Nat) : TsMemoryPool.Place → Nat → Nat
  | .stack t, b => (blocks N s t (l t)).count b
  | .rental g, b =>
    match s.client.ctrls[g]? with
    | none => 0
    | some c => if 0 < c.useCount ∧ c.ptr = b then 1 else 0
  | .deleted, b => s.client.deleted.count b

/-- **Custody.**  At every access of every interleaving that keeps the window, each block that has
been allocated is with one stack, once, or rented, and none is deleted; what is with the stack of
`t` is a `t`; and a `shared_ptr` refers to a rented block whose deleter has the stack of its type. -/
theorem pool_custody (nodes : BlockType → List Nat) (hnodup : ∀ t, (nodes t).Nodup) (N : Nat)
    (as : List (Composition.Action PoolClient.Action BlockType (StackThreads.Action Nat Nat)))
    (s : Composition.State PoolClient BlockType (Timed Nat Nat))
    (h : run step (start nodes) as = some s)
    (hw : Along step (OnObjects Timed.Windowed) (start nodes) as)
    (hN : ∀ g, .client g ∈ as → PoolClient.Action.Below N g) :
    ∃ l : BlockType → List Nat,
      (∀ t, Chain.Linked (s.obj t).threads.stack.next ((s.obj t).threads.stack.head .tos).ptr (l t)) ∧
      (∀ b, b < s.client.heap.length → Custody.Exclusive (held N s l) b) ∧
      (∀ t b, 0 < held N s l (.stack t) b → s.client.heap[b]? = some t) ∧
      (∀ sp ∈ s.client.refs, ∃ c : ControlBlock, s.client.ctrls[sp.ctrl]? = some c ∧ c.ptr = sp.ptr ∧
        0 < c.useCount ∧ s.client.heap[sp.ptr]? = some c.stack) ∧
      s.client.deleted = [] := by
  have hsteps : ∀ (x : Timed Nat Nat) (a : AtomicObject.State (List Nat) (StackOp Nat) (StackRes Nat))
      b x' o, Sim x a → x.Windowed b → x.act b = some (x', o) →
        ∃ bs a', trace (AtomicObject.act lifo) a bs = some (a', o) ∧ Sim x' a' :=
    fun _ _ _ _ _ hR hD ha => hR.step hD ha
  obtain ⟨bs, a, hbs, ⟨hclient, hsim⟩, hown⟩ := run_simulated
    (t := ⟨PoolClient.empty, fun _ => AtomicObject.idle []⟩) hsteps h hw
    ⟨rfl, fun t => sim_init (nodes t) (hnodup t)⟩
  obtain ⟨p, hr⟩ := rep_of_run hbs (fun g hg => hN g (hown g hg)) ⟨_, rep_empty N⟩
  choose l hi ha using hsim
  have hblocks : ∀ t, (p.pools t : Multiset Nat) = blocks N s t (l t .tos) := by
    intro t
    rw [hr.pools t, blocks, Lifo.content, (ha t).obj, hclient]
    congr 2
    exact Parties.total_congr fun th _ => congrArg inFlight ((ha t).call th)
  rw [← hclient] at hr
  have hheld : ∀ q b, held N s (fun t => l t .tos) q b = p.held q b := by
    intro q b
    cases q with
    | stack t =>
      show (blocks N s t (l t .tos)).count b = (p.pools t).count b
      rw [← hblocks t, Multiset.coe_count]
    | rental g =>
      show (match s.client.ctrls[g]? with
        | none => 0
        | some c => if 0 < c.useCount ∧ c.ptr = b then 1 else 0) = _
      rw [← hr.ctrls]
      rfl
    | deleted =>
      show s.client.deleted.count b = p.deleted.count b
      rw [hr.deleted.1, hr.deleted.2]
  refine ⟨fun t => l t .tos, fun t => (hi t).lists.linked .tos, fun b hb => ?_, fun t b hb => ?_,
    fun sp hsp => ?_, hr.deleted.2⟩
  · rw [← hr.heap] at hb
    exact (hr.inv.custody b hb).congr fun q => hheld q b
  · rw [hheld] at hb
    rw [← hr.heap]
    exact hr.inv.stackType t b (List.count_pos_iff.mp hb)
  · obtain ⟨c, hc, hptr⟩ := hr.refs.ptr sp hsp
    have hpos := hr.refs.useCount_pos (show sp ∈ (↑s.client.refs : Multiset SharedPtr) from hsp)
    rw [hr.ctrls] at hc
    refine ⟨c, hc, hptr, ?_, ?_⟩
    · simpa [TsMemoryPool.useCount, hr.ctrls, hc] using hpos
    · rw [← hr.heap, ← hptr]
      exact hr.inv.ctrlType sp.ctrl c (by rw [hr.ctrls]; exact hc)

/-- The next `n` accesses of a thread to the stack of 64-byte blocks. -/
def accesses (thread n : Nat) :
    List (Composition.Action PoolClient.Action BlockType (StackThreads.Action Nat Nat)) :=
  List.replicate n (.obj .block64 (.next thread))

/-- Block 0 is made and pushed.  Thread 1 has popped it when thread 2 finds the stack empty and
makes block 1; then thread 2 drops its block, and is about to put it on the stack. -/
def rentRun : List (Composition.Action PoolClient.Action BlockType (StackThreads.Action Nat Nat)) :=
  [.client (.fill 0 .block64), .obj .block64 (.call 0 (.push 0))] ++ accesses 0 7 ++
  [.client (.rent 1 20), .obj .block64 (.call 1 .pop)] ++ accesses 1 3 ++
  [.client (.rent 2 30), .obj .block64 (.call 2 .pop)] ++ accesses 2 2 ++
  [.client (.allocate 2 true)] ++ accesses 1 4 ++
  [.client (.drop 2 ⟨1, 0⟩), .obj .block64 (.call 2 (.push 1))] ++ accesses 2 3

theorem pool_custody_rent : ∃ s l, run step (start fun _ => [0]) rentRun = some s ∧
    s.client.refs = [⟨0, 1⟩] ∧ Custody.Exclusive (held 3 s l) 0 ∧ Custody.Exclusive (held 3 s l) 1 := by
  have hrun : (run step (start fun _ => [0]) rentRun).map
      (fun s => (s.client.refs, s.client.heap.length)) = some ([⟨0, 1⟩], 2) := by decide +kernel
  obtain ⟨s, hs, hfields⟩ := Option.map_eq_some_iff.mp hrun
  obtain ⟨hrefs, hlen⟩ := Prod.mk.inj hfields
  obtain ⟨l, -, hcustody, -⟩ := pool_custody (fun _ => [0]) (fun _ => by decide) 3 rentRun s hs
    (by decide +kernel) (by
      intro g hg
      simp only [rentRun, accesses, List.mem_append, List.mem_cons, List.mem_replicate,
        List.not_mem_nil, reduceCtorEq, Composition.Action.client.injEq, and_false,
        or_false] at hg
      rcases hg with (((rfl | rfl) | rfl) | rfl) | rfl
      all_goals simp [PoolClient.Action.Below])
  exact ⟨s, l, hs, hrefs, hcustody 0 (by omega), hcustody 1 (by omega)⟩

end LockFreePool

end Us2d
