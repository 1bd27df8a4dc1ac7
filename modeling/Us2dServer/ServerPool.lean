import Mathlib.Tactic.Abel
import Us2dServer.Lib.Parties
import Us2dServer.MemoryPoolInv
import Us2dServer.ServerEffects

/-!
# Who holds the blocks

Every `shared_ptr` to a packet is held by a read or a read handler of a connection, by a
request in the queue, by the main thread, or as a copy that a packet handler has kept; `refs`
counts them all.  The pool's use counts agree with `refs` in every reachable state, and the
block of an unfinished packet has one reference, so no other holder sees it.
-/

namespace Us2d

open TsMemoryPool

def HandlerPc.owner : HandlerPc → Option SharedPtr
  | .allocating _ _ => none
  | .enqueued _ owner | .leaving _ owner => some owner

/-- The owner that the assignment to `request` is about to release. -/
def MainPc.old : MainPc → Option SharedPtr
  | .assigning _ old => old
  | _ => none

def Queued.owner (item : Queued) : SharedPtr := item.request.packetOwner

namespace Session

/-- The `shared_ptr`s captured by the read and by the read handler of a connection. -/
def owners (x : Session) : Multiset SharedPtr :=
  ((x.conn.read.bind AsyncRead.owner).toList : Multiset SharedPtr) +
    ((x.handler.bind HandlerPc.owner).toList : Multiset SharedPtr)

/-- `owner` is the block of a packet that the connection has not received, or will not. -/
def Unfinished (x : Session) (owner : SharedPtr) : Prop :=
  (∃ n got, x.conn.read = some (.payload owner n got)) ∨
    ∃ w, x.handler = some (.leaving w owner) ∧ x.reports = 1

theorem Unfinished.mem {x : Session} {owner : SharedPtr} (h : x.Unfinished owner) :
    owner ∈ x.owners := by
  rcases h with ⟨n, got, hread⟩ | ⟨w, hpc, -⟩
  · simp [owners, hread, AsyncRead.owner]
  · simp [owners, hpc, HandlerPc.owner]

end Session

namespace Server

variable {cfg : Config} {s s' : Server} {k : Nat} {x : Session} {sp : SharedPtr}

/-! ## Sums over the connections -/

section Sums

variable {M : Type*} [AddCommMonoid M] {g : Session → M}

/-- A step of connection `k` changes its own summand only. -/
theorem SessionEffect.others_eq {a : SessionAction} (h : SessionEffect s k x a s') :
    Parties.others s'.created k (fun k => g (s'.sessions k)) =
      Parties.others s.created k (fun k => g (s.sessions k)) := by
  rw [h.created]
  exact Parties.others_congr fun j hj => by rw [h.other hj]

/-- An accept changes no sum in which a new connection counts nothing. -/
theorem AcceptEffect.total_eq {w : Nat} {error : Option ErrorCode} (h : AcceptEffect s w error s')
    (hnew : ∀ id w, g (Session.new id w) = 0) :
    Parties.total s'.created (fun k => g (s'.sessions k)) =
      Parties.total s.created (fun k => g (s.sessions k)) := by
  cases h with
  | created hrun =>
    refine (Parties.total_update_succ (g := g)).trans ?_
    rw [hnew, add_zero]
  | _ => rfl

end Sums

/-! ## The references -/

/-- The `shared_ptr`s that the main thread holds. -/
def mainOwners (s : Server) : Multiset SharedPtr :=
  (s.request.map Queued.owner).toList + s.main.old.toList + s.kept

def queueOwners (s : Server) : Multiset SharedPtr := s.requests.inner.contents.map Queued.owner

/-- All of them. -/
def refs (s : Server) : Multiset SharedPtr :=
  Parties.total s.created (fun k => (s.sessions k).owners) + (s.queueOwners + s.mainOwners)

/-- The references besides those of connection `k`. -/
def refsBut (s : Server) (k : Nat) : Multiset SharedPtr :=
  Parties.others s.created k (fun k => (s.sessions k).owners) + (s.queueOwners + s.mainOwners)

theorem refs_eq (hk : k < s.created) : s.refs = (s.sessions k).owners + s.refsBut k := by
  unfold refs refsBut
  rw [Parties.total_eq hk, add_assoc]

/-! ## What a step does to the references -/

/-- The references and the pool change together; the unfinished packets are old ones but for a
block just rented, and no other reference to one is made. -/
inductive RefsEffect (s s' : Server) : Prop
  | same (hpool : s'.pool = s.pool) (hrefs : s'.refs = s.refs)
      (hunf : ∀ j o, (s'.sessions j).Unfinished o → (s.sessions j).Unfinished o)
  | rented (t : BlockType) (sp : SharedPtr)
      (hpool : s.pool.rentPopped t = some (sp, s'.pool) ∨ (sp, s'.pool) = s.pool.rentFresh t)
      (hrefs : s'.refs = sp ::ₘ s.refs)
      (hunf : ∀ j o, (s'.sessions j).Unfinished o → (s.sessions j).Unfinished o ∨ o = sp)
  | copied (sp : SharedPtr) (hsp : sp ∈ s.refs) (hpool : s'.pool = s.pool.copy sp)
      (hrefs : s'.refs = sp ::ₘ s.refs)
      (hunf : ∀ j o, (s'.sessions j).Unfinished o → (s.sessions j).Unfinished o)
      (hbeside : ∀ j o, j < s.created → (s'.sessions j).Unfinished o → {o} + {sp} ≤ s.refs)
  | dropped (sp : SharedPtr) (pushed : Bool) (hpool : s'.pool = s.pool.drop sp pushed)
      (hrefs : s.refs = sp ::ₘ s'.refs)
      (hunf : ∀ j o, (s'.sessions j).Unfinished o → (s.sessions j).Unfinished o)

/-- What a connection holds after its step, and what the queue does. -/
inductive OwnersEffect (s : Server) (k : Nat) (x : Session) (s' : Server) : Prop
  | same (hpool : s'.pool = s.pool) (hqueue : s'.queueOwners = s.queueOwners)
      (howners : (s'.sessions k).owners = x.owners)
      (hunfinished : ∀ sp, (s'.sessions k).Unfinished sp → x.Unfinished sp)
  | rented (t : BlockType) (sp : SharedPtr)
      (hpool : s.pool.rentPopped t = some (sp, s'.pool) ∨ (sp, s'.pool) = s.pool.rentFresh t)
      (hqueue : s'.queueOwners = s.queueOwners) (hx : x.owners = 0)
      (howners : (s'.sessions k).owners = {sp})
  | enqueued (sp : SharedPtr) (hpool : s'.pool = s.pool.copy sp)
      (hqueue : s'.queueOwners = sp ::ₘ s.queueOwners) (hx : x.owners = {sp})
      (howners : (s'.sessions k).owners = {sp})
      (hunfinished : ∀ sp, ¬ (s'.sessions k).Unfinished sp)
  | dropped (sp : SharedPtr) (pushed : Bool) (hpool : s'.pool = s.pool.drop sp pushed)
      (hqueue : s'.queueOwners = s.queueOwners)
      (howners : x.owners = sp ::ₘ (s'.sessions k).owners)
      (hunfinished : ∀ sp, (s'.sessions k).Unfinished sp → x.Unfinished sp)

theorem SessionEffect.owners {a : SessionAction} (hc : x.Control) (h : SessionEffect s k x a s') :
    OwnersEffect s k x s' := by
  cases h with
  | started w hpc =>
    obtain ⟨hread, hhandler, hreports⟩ := hc.fresh w hpc
    refine .same rfl rfl ?_ fun sp hsp => ?_
    · simp [setSession, Session.owners, Connection.start, Connection.asyncReadHeader, hread, hhandler,
        AsyncRead.owner]
    · simp [setSession, Session.Unfinished, Connection.start, Connection.asyncReadHeader, hhandler] at hsp
  | inserted w hpc =>
    exact .same rfl rfl (by simp [setSession, Session.owners]) (by simp [setSession, Session.Unfinished])
  | rearmed w hpc =>
    exact .same rfl rfl (by simp [setSession, Session.owners]) (by simp [setSession, Session.Unfinished])
  | received op bs hread hfit =>
    refine .same rfl rfl ?_ fun sp hsp => ?_
    · cases op <;> simp [setSession, Session.owners, Connection.receive, hread, AsyncRead.owner]
    · cases op <;> simp_all [setSession, Session.Unfinished, Connection.receive]
  | failed w e op hread hpc hgot =>
    have hreports := (hc.reading hread).2.2.2
    cases op with
    | header got =>
      refine .same rfl rfl ?_ fun sp hsp => ?_
      · simp [report, setSession, Session.owners, Connection.close, Connection.stop,
          Connection.completed, hread, hpc, AsyncRead.owner]
      · simp [report, setSession, Session.Unfinished, Connection.close, Connection.stop,
          Connection.completed, AsyncRead.owner] at hsp
    | payload owner n got =>
      refine .same rfl rfl ?_ fun sp hsp => ?_
      · simp [report, setSession, Session.owners, Connection.close, Connection.stop,
          Connection.completed, hread, hpc, AsyncRead.owner, HandlerPc.owner]
      · simp only [report, setSession, Session.Unfinished, Connection.close, Connection.stop,
          Connection.completed, AsyncRead.owner, Function.update_self, Option.map_some,
          Option.some.injEq, HandlerPc.leaving.injEq, reduceCtorEq, exists_false, false_or] at hsp
        obtain ⟨-, ⟨-, rfl⟩, -⟩ := hsp
        exact Or.inl ⟨n, got, hread⟩
  | refused w hread hpc hclass =>
    refine .same rfl rfl ?_ fun sp hsp => ?_
    · simp [report, setSession, Session.owners, Connection.stop, Connection.completed, hread, hpc,
        AsyncRead.owner]
    · simp [report, setSession, Session.Unfinished, Connection.stop, Connection.completed] at hsp
  | popped w t owner p hread hpc hclass hpop =>
    refine .rented t owner (Or.inl hpop) rfl ?_ ?_
    · simp [Session.owners, hread, hpc, AsyncRead.owner]
    · simp [rented, setSession, Session.owners, Connection.asyncReadPayload, AsyncRead.owner]
  | emptyStack w t hread hpc hclass =>
    refine .same rfl rfl ?_ fun sp hsp => ?_
    · simp [setSession, Session.owners, Connection.completed, hread, hpc, AsyncRead.owner,
        HandlerPc.owner]
    · simp [setSession, Session.Unfinished, Connection.completed] at hsp
  | grown w size t hpc hclass =>
    have hread := (hc.ofBetween hpc (by simp [Session.between, hpc])).1
    refine .rented t (s.pool.rentFresh t).1 (Or.inr rfl) rfl ?_ ?_
    · simp [Session.owners, hread, hpc, HandlerPc.owner]
    · simp [rented, setSession, Session.owners, Connection.asyncReadPayload, AsyncRead.owner]
  | notGrown w size hpc =>
    have hread := (hc.ofBetween hpc (by simp [Session.between, hpc])).1
    refine .same rfl rfl ?_ fun sp hsp => ?_
    · simp [report, setSession, Session.owners, Connection.stop, hread, hpc, HandlerPc.owner]
    · simp [report, setSession, Session.Unfinished, Connection.stop, hread] at hsp
  | enqueued w owner n hread hpc item hitem =>
    have hreports := (hc.reading hread).2.2.2
    refine .enqueued owner rfl ?_ ?_ ?_ fun sp hsp => ?_
    · subst hitem
      simp [queueOwners, BlockingConcurrentQueue.enqueue, SubQueues.contents_push, Queued.owner]
    · simp [Session.owners, hread, hpc, AsyncRead.owner]
    · simp [setSession, Session.owners, Connection.completed, HandlerPc.owner]
    · simp [setSession, Session.Unfinished, Connection.completed] at hsp
  | signalled w owner hpc =>
    obtain ⟨hread, -, -, hreports⟩ := hc.ofBetween hpc (by simp [Session.between, hpc])
    refine .same rfl rfl ?_ fun sp hsp => ?_
    · simp [setSession, Session.owners, Connection.asyncReadHeader, hread, hpc, AsyncRead.owner,
        HandlerPc.owner]
    · simp [setSession, Session.Unfinished, Connection.asyncReadHeader, hreports] at hsp
  | left w owner pushed hpc =>
    refine .dropped owner pushed rfl rfl ?_ fun sp hsp => ?_
    · simp only [setSession, Session.owners, hpc, HandlerPc.owner, Function.update_self,
        Option.bind_some, Option.bind_none, Option.toList_some, Option.toList_none,
        Multiset.coe_singleton, Multiset.coe_nil, add_zero]
      rw [add_comm, Multiset.singleton_add]
    · simp only [setSession, Session.Unfinished, Function.update_self, reduceCtorEq, false_and,
        exists_false, or_false] at hsp
      exact Or.inl hsp

theorem SessionEffect.others {a : SessionAction} (h : SessionEffect s k x a s') :
    s'.request = s.request ∧ s'.main = s.main ∧ s'.kept = s.kept ∧ s'.created = s.created := by
  cases h <;> exact ⟨rfl, rfl, rfl, rfl⟩

/-- A step of connection `k` changes what it holds and what the queue holds. -/
theorem SessionEffect.refsBut_eq {a : SessionAction} (h : SessionEffect s k x a s')
    {q : Multiset SharedPtr} (hqueue : s'.queueOwners = q + s.queueOwners) :
    s'.refsBut k = q + s.refsBut k := by
  obtain ⟨hreq, hmain, hkept, -⟩ := h.others
  unfold refsBut mainOwners
  rw [h.others_eq, hqueue, hreq, hmain, hkept, add_assoc, add_left_comm]

/-- Two connections hold two references. -/
theorem pair_le_refs {j : Nat} {o : SharedPtr} (hj : j < s.created) (ho : o ∈ (s.sessions j).owners)
    (hsp : sp ∈ s.refsBut j) : {o} + {sp} ≤ s.refs := by
  rw [refs_eq hj]
  exact add_le_add (Multiset.singleton_le.mpr ho) (Multiset.singleton_le.mpr hsp)

theorem mem_refsBut_of_owner {j : Nat} (hk : k < s.created) (hkj : k ≠ j)
    (hsp : sp ∈ (s.sessions k).owners) : sp ∈ s.refsBut j := by
  unfold refsBut
  refine Multiset.mem_add.mpr (Or.inl ?_)
  simp only [Parties.others, Multiset.mem_sum]
  exact ⟨k, Finset.mem_erase.mpr ⟨hkj, Finset.mem_range.mpr hk⟩, hsp⟩

theorem mem_refsBut_of_main {j : Nat} (hsp : sp ∈ s.queueOwners + s.mainOwners) : sp ∈ s.refsBut j :=
  Multiset.mem_add.mpr (Or.inr hsp)

theorem SessionEffect.refs {a : SessionAction} (hk : k < s.created)
    (hc : (s.sessions k).Control) (h : SessionEffect s k (s.sessions k) a s') : RefsEffect s s' := by
  have hk' : k < s'.created := h.created.symm ▸ hk
  have hunf : (∀ o, (s'.sessions k).Unfinished o → (s.sessions k).Unfinished o) →
      ∀ j o, (s'.sessions j).Unfinished o → (s.sessions j).Unfinished o := by
    intro hx j o ho
    by_cases hjk : j = k
    · exact hjk ▸ hx o (hjk ▸ ho)
    · rwa [h.other hjk] at ho
  cases h.owners hc with
  | same hpool hqueue howners hunfinished =>
    have hbut := h.refsBut_eq (q := 0) (by rw [hqueue, zero_add])
    refine .same hpool ?_ (hunf hunfinished)
    rw [refs_eq hk, refs_eq hk', howners, hbut, zero_add]
  | rented t sp hpool hqueue hx howners =>
    have hbut := h.refsBut_eq (q := 0) (by rw [hqueue, zero_add])
    refine .rented t sp hpool ?_ fun j o ho => ?_
    · rw [refs_eq hk, refs_eq hk', howners, hbut, hx, zero_add, Multiset.singleton_add]
    · by_cases hjk : j = k
      · have hm := (hjk ▸ ho : (s'.sessions k).Unfinished o).mem
        rw [howners] at hm
        exact Or.inr (Multiset.mem_singleton.mp hm)
      · rw [h.other hjk] at ho
        exact Or.inl ho
  | enqueued sp hpool hqueue hx howners hunfinished =>
    have hbut := h.refsBut_eq (q := {sp}) (by rw [hqueue, Multiset.singleton_add])
    have hmem : sp ∈ (s.sessions k).owners := by rw [hx]; exact Multiset.mem_singleton_self sp
    refine .copied sp ?_ hpool ?_ (hunf fun o ho => absurd ho (hunfinished o)) fun j o hj ho => ?_
    · rw [refs_eq hk]
      exact Multiset.mem_add.mpr (Or.inl hmem)
    · rw [refs_eq hk, refs_eq hk', howners, hbut, hx, Multiset.singleton_add, Multiset.singleton_add]
    · have hjk : j ≠ k := by rintro rfl; exact hunfinished o ho
      rw [h.other hjk] at ho
      exact pair_le_refs hj ho.mem (mem_refsBut_of_owner hk (Ne.symm hjk) hmem)
  | dropped sp pushed hpool hqueue howners hunfinished =>
    have hbut := h.refsBut_eq (q := 0) (by rw [hqueue, zero_add])
    refine .dropped sp pushed hpool ?_ (hunf hunfinished)
    rw [refs_eq hk, refs_eq hk', howners, hbut, zero_add, Multiset.cons_add]

theorem mem_mainOwners_of_request {item : Queued} (h : s.request = some item) :
    item.owner ∈ s.mainOwners := by
  simp [mainOwners, h]

/-- The main thread moves references between the queue, `request`, and what it keeps. -/
theorem MainEffect.refs {a : MainAction} (h : MainEffect cfg s a s') : RefsEffect s s' := by
  have hsame : s'.queueOwners + s'.mainOwners = s.queueOwners + s.mainOwners → s'.refs = s.refs := by
    intro hq
    unfold Server.refs
    rw [hq, h.created, h.sessions]
  have hmore : ∀ sp, s'.queueOwners + s'.mainOwners = {sp} + (s.queueOwners + s.mainOwners) →
      s'.refs = sp ::ₘ s.refs := by
    intro sp hq
    unfold Server.refs
    rw [hq, h.created, h.sessions, add_left_comm, Multiset.singleton_add]
  have hless : ∀ sp, s.queueOwners + s.mainOwners = {sp} + (s'.queueOwners + s'.mainOwners) →
      s.refs = sp ::ₘ s'.refs := by
    intro sp hq
    unfold Server.refs
    rw [hq, h.created, h.sessions, add_left_comm, Multiset.singleton_add]
  have hunf : ∀ j o, (s'.sessions j).Unfinished o → (s.sessions j).Unfinished o := by
    intro j o ho
    rwa [h.sessions] at ho
  cases h with
  | popped sizeApprox n ptr item q hpc hpop =>
    refine .same rfl (hsame ?_) hunf
    have hqueue : s.queueOwners = {item.owner} + q.contents.map Queued.owner := by
      rw [queueOwners, SubQueues.contents_removeHead hpop, Multiset.map_cons, Multiset.singleton_add]
    rw [hqueue]
    simp only [queueOwners, mainOwners, hpc, MainPc.old, Option.map_some, Option.toList_some,
      Option.toList_none, Multiset.coe_singleton, Multiset.coe_nil]
    unfold Queued.owner
    abel
  | assigned n old pushed hpc =>
    cases old with
    | none => exact .same rfl (hsame (by simp [queueOwners, mainOwners, hpc, MainPc.old])) hunf
    | some sp =>
      refine .dropped sp pushed rfl (hless sp ?_) hunf
      simp only [queueOwners, mainOwners, hpc, MainPc.old, Option.toList_some, Option.toList_none,
        Multiset.coe_singleton, Multiset.coe_nil]
      abel
  | kept n f item hpc hreq =>
    have hmem : item.owner ∈ s.queueOwners + s.mainOwners :=
      Multiset.mem_add.mpr (Or.inr (mem_mainOwners_of_request hreq))
    refine .copied item.owner (Multiset.mem_add.mpr (Or.inr hmem)) rfl (hmore item.owner ?_) hunf
      fun j o hj ho => pair_le_refs hj ho.mem (mem_refsBut_of_main hmem)
    simp only [queueOwners, mainOwners, Queued.owner, ← Multiset.cons_coe, ← Multiset.singleton_add]
    abel
  | returned pushed hpc =>
    cases hreq : s.request with
    | none => exact .same rfl (hsame (by simp [queueOwners, mainOwners, hpc, hreq, MainPc.old])) hunf
    | some item =>
      refine .dropped item.owner pushed rfl (hless item.owner ?_) hunf
      simp only [queueOwners, mainOwners, hpc, hreq, MainPc.old, Option.map_some, Option.map_none,
        Option.toList_some, Option.toList_none, Multiset.coe_singleton, Multiset.coe_nil]
      abel
  | released sp pushed hkept =>
    refine .dropped sp pushed rfl (hless sp ?_) hunf
    have hperm : (s.kept : Multiset SharedPtr) = {sp} + (s.kept.erase sp : List SharedPtr) := by
      rw [Multiset.singleton_add, Multiset.cons_coe, Multiset.coe_eq_coe]
      exact List.perm_cons_erase hkept
    simp only [queueOwners, mainOwners, hperm]
    abel
  | _ => exact .same rfl (hsame (by simp [queueOwners, mainOwners, MainPc.old, *])) hunf

/-! ## The pool and its references -/

/-- No other reference shares the control block of `sp`. -/
def Sole (s : Server) (sp : SharedPtr) : Prop := (s.refs.map SharedPtr.ctrl).count sp.ctrl = 1

/-- The pool's own invariant, the agreement of its use counts with `refs`, the sole references to
unfinished packets, and the pool before its construction. -/
structure Owned (s : Server) : Prop where
  pool : s.pool.Inv
  refs : s.pool.Refs s.refs
  sole : ∀ k o, k < s.created → (s.sessions k).Unfinished o → s.Sole o
  unbuilt : .tsMemoryPool ∉ s.constructed → s.pool = TsMemoryPool.empty ∧
    ∀ k w size, (s.sessions k).handler ≠ some (.allocating w size)

/-- A second reference has another control block, and points to another block. -/
theorem Owned.ne_of_sole {o : SharedPtr} (hi : s.Owned) (ho : s.Sole o) (hle : {o} + {sp} ≤ s.refs) :
    sp.ctrl ≠ o.ctrl ∧ sp.ptr ≠ o.ptr := by
  have hctrl : sp.ctrl ≠ o.ctrl := by
    intro heq
    have hcount := Multiset.count_le_of_le o.ctrl (Multiset.map_le_map (f := SharedPtr.ctrl) hle)
    rw [show (s.refs.map SharedPtr.ctrl).count o.ctrl = 1 from ho] at hcount
    simp [heq] at hcount
  have hmem : o ∈ s.refs ∧ sp ∈ s.refs :=
    ⟨Multiset.mem_of_le hle (by simp), Multiset.mem_of_le hle (by simp)⟩
  exact ⟨hctrl, fun hp => hctrl (hi.refs.ctrl_eq_of_ptr_eq hi.pool hmem.2 hmem.1 hp)⟩

/-- A block just rented has a new control block, and is in nobody's hands. -/
theorem Owned.rented_new {p : TsMemoryPool} {t : BlockType} (hi : s.Owned)
    (h : s.pool.rentPopped t = some (sp, p) ∨ (sp, p) = s.pool.rentFresh t) :
    sp.ctrl = s.pool.ctrls.length ∧ ∀ o ∈ s.refs, o.ctrl ≠ sp.ctrl ∧ o.ptr ≠ sp.ptr := by
  have hctrl : sp.ctrl = s.pool.ctrls.length := by
    rcases h with h | h
    · obtain ⟨-, -, -, hctrl⟩ := rentPopped_eq_some h
      exact hctrl
    · rw [show sp = (s.pool.rentFresh t).1 from congrArg Prod.fst h]
      rfl
  refine ⟨hctrl, fun o ho => ⟨fun heq => ?_, fun heq => ?_⟩⟩
  · obtain ⟨c, hc, -⟩ := hi.refs.ptr o ho
    have := (List.getElem?_eq_some_iff.mp hc).1
    omega
  · rcases h with h | h
    · exact hi.refs.notMem_pools hi.pool ho t (heq ▸ (rentPopped_heap hi.pool h).2.1)
    · have hlt := (hi.refs.at_rental hi.pool ho).1
      rw [heq, show sp = (s.pool.rentFresh t).1 from congrArg Prod.fst h, rentFresh_heap.2.1] at hlt
      omega

theorem Owned.of_refs (hi : s.Owned) (hcreated : s'.created = s.created) (h : RefsEffect s s')
    (hunbuilt : .tsMemoryPool ∉ s'.constructed → s'.pool = TsMemoryPool.empty ∧
      ∀ k w size, (s'.sessions k).handler ≠ some (.allocating w size)) : s'.Owned := by
  have hmem : ∀ k o, k < s'.created → (s'.sessions k).Unfinished o → o ∈ s'.refs := by
    intro k o hk ho
    rw [refs_eq hk]
    exact Multiset.mem_add.mpr (Or.inl ho.mem)
  cases h with
  | same hpool hrefs hunf =>
    refine ⟨hpool ▸ hi.pool, by rw [hpool, hrefs]; exact hi.refs, fun k o hk ho => ?_, hunbuilt⟩
    rw [Sole, hrefs]
    exact hi.sole k o (hcreated ▸ hk) (hunf k o ho)
  | rented t sp hpool hrefs hunf =>
    obtain ⟨hctrl, hnew⟩ := hi.rented_new hpool
    refine ⟨?_, ?_, fun k o hk ho => ?_, hunbuilt⟩
    · rcases hpool with hp | hp
      · exact hi.pool.rentPopped hp
      · rw [show s'.pool = (s.pool.rentFresh t).2 from congrArg Prod.snd hp]
        exact hi.pool.rentFresh
    · rw [hrefs]
      rcases hpool with hp | hp
      · exact hi.refs.rentPopped hp
      · rw [show s'.pool = (s.pool.rentFresh t).2 from congrArg Prod.snd hp,
          show sp = (s.pool.rentFresh t).1 from congrArg Prod.fst hp]
        exact hi.refs.rentFresh
    · rw [Sole, hrefs, Multiset.map_cons]
      rcases hunf k o ho with ho | rfl
      · have hmem : o ∈ s.refs := by
          rw [refs_eq (hcreated ▸ hk)]
          exact Multiset.mem_add.mpr (Or.inl ho.mem)
        rw [Multiset.count_cons_of_ne (hnew o hmem).1]
        exact hi.sole k o (hcreated ▸ hk) ho
      · rw [Multiset.count_cons_self, Multiset.count_eq_zero_of_notMem]
        intro hm
        obtain ⟨o', ho', heq⟩ := Multiset.mem_map.mp hm
        exact (hnew o' ho').1 heq
  | copied sp hsp hpool hrefs hunf hbeside =>
    refine ⟨?_, ?_, fun k o hk ho => ?_, hunbuilt⟩
    · rw [hpool]; exact hi.pool.copy (hi.refs.useCount_pos hsp)
    · rw [hpool, hrefs]; exact hi.refs.copy hsp
    · have hsole := hi.sole k o (hcreated ▸ hk) (hunf k o ho)
      have hne := (hi.ne_of_sole hsole (hbeside k o (hcreated ▸ hk) ho)).1
      rw [Sole, hrefs, Multiset.map_cons, Multiset.count_cons_of_ne (Ne.symm hne)]
      exact hsole
  | dropped sp pushed hpool hrefs hunf =>
    refine ⟨?_, ?_, fun k o hk ho => ?_, hunbuilt⟩
    · rw [hpool]; exact hi.pool.drop pushed
    · rw [hpool]
      exact (hrefs ▸ hi.refs : s.pool.Refs (sp ::ₘ s'.refs)).drop pushed
    · have hsole := hi.sole k o (hcreated ▸ hk) (hunf k o ho)
      have hpos := Multiset.count_pos.mpr (Multiset.mem_map_of_mem SharedPtr.ctrl (hmem k o hk ho))
      rw [Sole, hrefs, Multiset.map_cons, Multiset.count_cons] at hsole
      unfold Sole
      omega

/-! ## Every step -/

theorem SessionEffect.constructed {a : SessionAction} (h : SessionEffect s k x a s') :
    s'.constructed = s.constructed := by
  cases h <;> rfl

theorem MainEffect.constructed {a : MainAction} (h : MainEffect cfg s a s') :
    s'.constructed = s.constructed := by
  cases h <;> rfl

theorem copy_of_empty {p : TsMemoryPool} (h : p = TsMemoryPool.empty) : p.copy sp = TsMemoryPool.empty := by
  subst h; rfl

theorem drop_of_empty {p : TsMemoryPool} {pushed : Bool} (h : p = TsMemoryPool.empty) :
    p.drop sp pushed = TsMemoryPool.empty := by
  subst h; rfl

theorem dropOwner_of_empty {p : TsMemoryPool} {o : Option SharedPtr} {pushed : Bool}
    (h : p = TsMemoryPool.empty) : dropOwner o pushed p = TsMemoryPool.empty := by
  subst h; cases o <;> rfl

/-- Before the pool is constructed no step of a connection but the header handler touches it. -/
theorem SessionEffect.unbuilt {a : SessionAction} (ha : ∀ w, a ≠ .header w none)
    (hpool : s.pool = TsMemoryPool.empty) (hpc : ∀ w size, x.handler ≠ some (.allocating w size))
    (h : SessionEffect s k x a s') : s'.pool = TsMemoryPool.empty ∧
      ∀ w size, (s'.sessions k).handler ≠ some (.allocating w size) := by
  cases h with
  | failed w e op hread hhandler hgot =>
    exact ⟨hpool, by cases op <;> simp [report, setSession, AsyncRead.owner]⟩
  | refused w => exact absurd rfl (ha w)
  | popped w => exact absurd rfl (ha w)
  | emptyStack w => exact absurd rfl (ha w)
  | grown w size t hhandler => exact absurd hhandler (hpc w size)
  | notGrown w size hhandler => exact absurd hhandler (hpc w size)
  | enqueued w owner => exact ⟨copy_of_empty hpool, by simp [setSession]⟩
  | signalled w owner => exact ⟨hpool, by simp [setSession]⟩
  | left w owner pushed => exact ⟨drop_of_empty hpool, by simp [setSession]⟩
  | _ => exact ⟨hpool, by simpa [setSession] using hpc⟩

theorem MainEffect.unbuilt {a : MainAction} (hpool : s.pool = TsMemoryPool.empty)
    (h : MainEffect cfg s a s') : s'.pool = TsMemoryPool.empty := by
  cases h with
  | assigned => exact dropOwner_of_empty hpool
  | kept => exact copy_of_empty hpool
  | returned => exact dropOwner_of_empty hpool
  | released => exact drop_of_empty hpool
  | _ => exact hpool

@[simp] theorem getInstance_refs : (s.getInstance cfg).refs = s.refs := by
  unfold getInstance
  split <;> rfl

theorem mem_getInstance_constructed : .tsMemoryPool ∈ (s.getInstance cfg).constructed := by
  unfold getInstance
  split
  · assumption
  · simp

/-- When the pool is not constructed nobody holds a block. -/
theorem Owned.refs_eq_zero (hi : s.Owned) (h : .tsMemoryPool ∉ s.constructed) : s.refs = 0 := by
  rw [Multiset.eq_zero_iff_forall_notMem]
  intro o ho
  obtain ⟨c, hc, -⟩ := hi.refs.ptr o ho
  rw [(hi.unbuilt h).1] at hc
  cases hc

theorem Owned.getInstance (hi : s.Owned) : (s.getInstance cfg).Owned := by
  by_cases hbuilt : Singleton.tsMemoryPool ∈ s.constructed
  · simpa [Server.getInstance, hbuilt] using hi
  · have hpool : (s.getInstance cfg).pool = TsMemoryPool.create cfg.pushed := by
      simp [Server.getInstance, hbuilt]
    have hzero := hi.refs_eq_zero hbuilt
    refine ⟨hpool ▸ inv_create _, ?_, fun k o hk ho => ?_, fun hn => absurd mem_getInstance_constructed hn⟩
    · rw [hpool, getInstance_refs, hzero]
      exact refs_create_zero _
    · rw [getInstance_sessions] at ho
      have hmem : o ∈ s.refs := by
        rw [refs_eq (by simpa using hk)]
        exact Multiset.mem_add.mpr (Or.inl ho.mem)
      rw [hzero] at hmem
      exact absurd hmem (Multiset.notMem_zero o)

theorem Owned.step {a : Action} (hi : s.Owned) (hc : s.Control) (h : Effect cfg s a s') : s'.Owned := by
  cases h with
  | accept w error s' hready hout h =>
    cases h with
    | created hrun =>
      have hold : ∀ j, j ≠ s.created → Function.update s.sessions s.created
          (Session.new s.tcp.connectionIdCounter w) j = s.sessions j :=
        fun j hj => Function.update_of_ne hj _ _
      have hrefs : Server.refs { s.setSession s.created (Session.new s.tcp.connectionIdCounter w) with
          tcp := { s.tcp with accepts := s.tcp.accepts - 1,
                              connectionIdCounter := s.tcp.connectionIdCounter + 1 }
          created := s.created + 1 } = s.refs := by
        refine congrArg (· + (s.queueOwners + s.mainOwners))
          (AcceptEffect.total_eq (g := Session.owners) (.created (w := w) hrun) fun _ _ => rfl)
      refine ⟨hi.pool, by rw [hrefs]; exact hi.refs, fun k o hk ho => ?_, fun hn => ⟨(hi.unbuilt hn).1,
        fun k v size => ?_⟩⟩
      · by_cases hkc : k = s.created
        · simp [setSession, hkc, Session.new, Session.unused, Session.Unfinished, Connection.new] at ho
        · simp only [setSession, hold k hkc] at ho
          rw [Sole, hrefs]
          exact hi.sole k o (by simp only at hk; omega) ho
      · by_cases hkc : k = s.created
        · simp [setSession, hkc, Session.new, Session.unused]
        · simp only [setSession, hold k hkc]
          exact (hi.unbuilt hn).2 k v size
    | _ => exact ⟨hi.pool, hi.refs, hi.sole, hi.unbuilt⟩
  | session k b s' hk ha h =>
    refine hi.of_refs h.created (h.refs hk (hc.session k hk)) fun hn => ?_
    rw [h.constructed] at hn
    obtain ⟨hpool, hpc⟩ := hi.unbuilt hn
    obtain ⟨hpool', hpc'⟩ := h.unbuilt ha hpool (hpc k)
    refine ⟨hpool', fun j => ?_⟩
    by_cases hjk : j = k
    · exact hjk ▸ hpc'
    · rw [h.other hjk]; exact hpc j
  | header k w s' hk h =>
    refine hi.getInstance.of_refs h.created (h.refs hk (hc.getInstance.session k hk)) fun hn => ?_
    rw [h.constructed] at hn
    exact absurd mem_getInstance_constructed hn
  | main b s' h =>
    refine hi.of_refs h.created h.refs fun hn => ?_
    rw [h.constructed] at hn
    obtain ⟨hpool, hpc⟩ := hi.unbuilt hn
    exact ⟨h.unbuilt hpool, by rw [h.sessions]; exact hpc⟩

theorem owned_init (mem : Memory) : (init mem).Owned where
  pool := inv_empty
  refs := ⟨fun _ => rfl, fun sp hsp => absurd hsp (Multiset.notMem_zero sp)⟩
  sole := fun k _ hk => absurd hk (Nat.not_lt_zero k)
  unbuilt := fun _ => ⟨rfl, fun _ _ _ h => nomatch h⟩

theorem owned_of_reachable {mem : Memory} (h : Transition.Reachable (step cfg) (init mem) s) :
    s.Owned :=
  reachable_induction h (owned_init mem) fun _ _ _ hc hi h => hi.step hc h

end Server

end Us2d
