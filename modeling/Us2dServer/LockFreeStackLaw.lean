import Us2dServer.LockFreeStackInv
import Us2dServer.Lib.Parties

/-!
# The lock-free stack is a stack

The abstract object is a list with two operations, each of them one step (`lifo`).  A push takes
effect at its successful CAS of `tos`, a pop at its own, and a pop that finds nothing at the
load of `tos` that gave null.

    run step (init nodes) as = some s, as Windowed →
      the calls and results observed of `as` are observed of the atomic stack   (linearizable)
-/

namespace Us2d

open AtomicObject Transition

variable {Node α : Type}

/-- The sequential stack. -/
def lifo : List α → StackOp α → List α × StackRes α
  | l, .push x => (x :: l, .pushed true)
  | [], .pop => ([], .popped none)
  | x :: l, .pop => (l, .popped (some x))

/-- How far a thread's call has come, seen from outside: pending until it takes effect. -/
def Pc.call (v : Node → α) : Pc Node α → Call (StackOp α) (StackRes α)
  | .idle => .idle
  | .allocating x _ => .pending (.push x)
  | .constructing x _ => .pending (.push x)
  | .linking n _ => .pending (.push (v n))
  | .consuming (.loaded ⟨none, _⟩) => .done (.popped none)
  | .consuming _ => .pending .pop
  | .moving n => .done (.popped (some (v n)))
  | .deallocating _ x _ => .done (.popped (some x))

/-- A thread's call depends on the node that belongs to the thread. -/
theorem Pc.call_congr {v v' : Node → α} {p : Pc Node α} (h : ∀ n, p.owned = some n → v' n = v n) :
    p.call v' = p.call v := by
  cases p with
  | linking n at' => simp only [Pc.call, h n rfl]
  | moving n => simp only [Pc.call, h n rfl]
  | consuming at' =>
    cases at' with
    | loaded old =>
      obtain ⟨ptr, tag⟩ := old
      cases ptr <;> rfl
    | _ => rfl
  | _ => rfl

namespace LockFreeStack

variable [DecidableEq Node]

/-- What a step of the popping loop can do. -/
theorem takeTop_cases (s : LockFreeStack Node α) (h : Head) (at' : Take Node) :
    ((at' = .start ∨ ∃ top tag link, at' = .read top tag link ∧ s.head h ≠ ⟨some top, tag⟩) ∧
      s.takeTop h at' = (s, .again (.loaded (s.head h)))) ∨
    (∃ tag, at' = .loaded ⟨none, tag⟩ ∧ s.takeTop h at' = (s, .empty)) ∨
    (∃ top tag, at' = .loaded ⟨some top, tag⟩ ∧
      s.takeTop h at' = (s, .again (.read top tag (s.next top)))) ∨
    (∃ top tag link, at' = .read top tag link ∧ s.head h = ⟨some top, tag⟩ ∧
      s.takeTop h at' = (s.setHead h ⟨link, TaggedPtr.getNextTag ⟨some top, tag⟩⟩, .node top)) := by
  cases at' with
  | start => exact Or.inl ⟨Or.inl rfl, rfl⟩
  | loaded old =>
    obtain ⟨ptr, tag⟩ := old
    cases ptr with
    | none => exact Or.inr (Or.inl ⟨tag, rfl, rfl⟩)
    | some top => exact Or.inr (Or.inr (Or.inl ⟨top, tag, rfl, rfl⟩))
  | read top tag link =>
    by_cases hh : s.head h = ⟨some top, tag⟩
    · exact Or.inr (Or.inr (Or.inr ⟨top, tag, link, rfl, hh, if_pos hh⟩))
    · exact Or.inl ⟨Or.inr ⟨top, tag, link, rfl, hh⟩, if_neg hh⟩

/-- What a step of the pushing loop can do. -/
theorem putTop_cases (s : LockFreeStack Node α) (h : Head) (n : Node) (at' : Put Node) :
    ((at' = .start ∨ ∃ old, at' = .linked old ∧ s.head h ≠ old) ∧
      s.putTop h n at' = (s, some (.loaded (s.head h)))) ∨
    (∃ old, at' = .loaded old ∧ s.putTop h n at' = (s.setNext n old.ptr, some (.linked old))) ∨
    (∃ old, at' = .linked old ∧ s.head h = old ∧
      s.putTop h n at' = (s.setHead h ⟨some n, old.tag⟩, none)) := by
  cases at' with
  | start => exact Or.inl ⟨Or.inl rfl, rfl⟩
  | loaded old => exact Or.inr (Or.inl ⟨old, rfl, rfl⟩)
  | linked old =>
    by_cases hh : s.head h = old
    · exact Or.inr (Or.inr ⟨old, rfl, hh, if_pos hh⟩)
    · exact Or.inl ⟨Or.inr ⟨old, rfl, hh⟩, if_neg hh⟩

end LockFreeStack

namespace StackThreads

variable [DecidableEq Node]

/-! ## The simulation -/

/-- The elements of the list under `tos` are the abstract stack, and each thread's call has come
as far as the abstract one. -/
structure Abs (x : Timed Node α) (c : Head → List Node)
    (a : AtomicObject.State (List α) (StackOp α) (StackRes α)) : Prop where
  obj : a.obj = (c .tos).map x.threads.stack.v
  call : ∀ t, a.call t = (x.threads.pc t).call x.threads.stack.v

/-- The simulation relation. -/
def Sim (x : Timed Node α) (a : AtomicObject.State (List α) (StackOp α) (StackRes α)) : Prop :=
  ∃ c, Inv x c ∧ Abs x c a

namespace Abs

variable {x : Timed Node α} {c c' : Head → List Node} {m : LockFreeStack Node α} {clock : Clock}
  {a a' : AtomicObject.State (List α) (StackOp α) (StackRes α)} {t : Nat} {p : Pc Node α}

omit [DecidableEq Node] in
/-- A step of the thread `t` that leaves the elements of the nodes alone. -/
theorem goto (ha : Abs x c a) (hv : m.v = x.threads.stack.v)
    (hobj : a'.obj = (c' .tos).map x.threads.stack.v)
    (hself : a'.call t = p.call x.threads.stack.v) (hother : ∀ u, u ≠ t → a'.call u = a.call u) :
    Abs ⟨StackThreads.goto ⟨m, x.threads.pc⟩ t p, clock⟩ c' a' where
  obj := by
    show a'.obj = (c' .tos).map m.v
    rw [hv]
    exact hobj
  call := by
    intro u
    show a'.call u = _
    simp only [goto_stack, hv]
    by_cases hu : u = t
    · subst hu
      rw [goto_pc_self]
      exact hself
    · rw [goto_pc_of_ne _ _ hu, hother u hu]
      exact ha.call u

omit [DecidableEq Node] in
/-- A step that is not seen from outside. -/
theorem stay (ha : Abs x c a) (hv : m.v = x.threads.stack.v) (hc : c' .tos = c .tos)
    (hp : p.call x.threads.stack.v = (x.threads.pc t).call x.threads.stack.v) :
    Abs ⟨StackThreads.goto ⟨m, x.threads.pc⟩ t p, clock⟩ c' a :=
  ha.goto hv (by rw [hc]; exact ha.obj) (by rw [hp]; exact ha.call t) fun _ _ => rfl

/-- The thread writes to a node that is on no list and belongs to no other thread. -/
theorem write {n : Node} {y : α} (ha : Abs x c a) (hv : m.v = Function.update x.threads.stack.v n y)
    (hn : n ∉ c .tos) (hother : ∀ u, u ≠ t → x.threads.owner u ≠ some n)
    (hp : p.call m.v = (x.threads.pc t).call x.threads.stack.v) :
    Abs ⟨StackThreads.goto ⟨m, x.threads.pc⟩ t p, clock⟩ c a where
  obj := by
    show a.obj = (c .tos).map m.v
    rw [ha.obj, hv]
    refine List.map_congr_left fun k hk => ?_
    exact (Function.update_of_ne (ne_of_mem_of_not_mem hk hn) _ _).symm
  call := by
    intro u
    by_cases hu : u = t
    · subst hu
      rw [goto_pc_self]
      exact (ha.call u).trans hp.symm
    · rw [goto_pc_of_ne _ _ hu, ha.call u]
      refine (Pc.call_congr fun k hk => ?_).symm
      show m.v k = x.threads.stack.v k
      rw [hv]
      refine Function.update_of_ne ?_ _ _
      rintro rfl
      exact hother u hu hk

end Abs

/-- The atomic stack can be observed to do `o`, and comes to a state related to `x`. -/
def Follows (a : AtomicObject.State (List α) (StackOp α) (StackRes α)) (x : Timed Node α)
    (o : List (Observed (StackOp α) (StackRes α))) : Prop :=
  ∃ bs a', trace (AtomicObject.act lifo) a bs = some (a', o) ∧ Sim x a'

section

variable {x : Timed Node α} {c : Head → List Node}
  {a : AtomicObject.State (List α) (StackOp α) (StackRes α)} {t : Nat}

/-- The atomic stack does nothing. -/
theorem Follows.stay {y : Timed Node α} (hi : Inv y c) (ha : Abs y c a) : Follows a y [] :=
  ⟨[], a, rfl, c, hi, ha⟩

/-- A pop loads `tos`; if it gives null, the stack is empty now, and the pop takes effect. -/
theorem consuming_load {at' : Take Node} (hi : Inv x c) (ha : Abs x c a)
    (hpc : x.threads.pc t = .consuming at')
    (hcall : (x.threads.pc t).call x.threads.stack.v = .pending .pop) :
    Follows a ⟨goto ⟨x.threads.stack, x.threads.pc⟩ t (.consuming (.loaded (x.threads.stack.head .tos))),
      x.clock.see t .tos⟩ [] := by
  have hinv := hi.load (t := t) (h := .tos)
    (p := .consuming (.loaded (x.threads.stack.head .tos))) (by simp [owner, hpc, Pc.owned]) rfl rfl
  rcases hhead : x.threads.stack.head .tos with ⟨ptr, tag⟩
  rw [hhead] at hinv
  cases ptr with
  | some top =>
    refine .stay hinv (ha.stay rfl rfl ?_)
    rw [hcall]
    rfl
  | none =>
    have hnil : c .tos = [] := by
      have hlink := hi.lists.linked .tos
      rw [hhead] at hlink
      exact Chain.linked_none.mp hlink
    have hobj : a.obj = [] := by
      rw [ha.obj, hnil]
      rfl
    refine ⟨[.effect t], _, trace_singleton (act_effect ((ha.call t).trans hcall)), c, hinv, ?_⟩
    refine ha.goto rfl ?_ ?_ ?_
    · simp [hobj, hnil, lifo]
    · simp [hobj, lifo, Pc.call]
    · intro u hu
      simp [hu]

/-- The CAS of a pop: it takes effect. -/
theorem consuming_took {top : Node} {tag : BitVec 16} {link : Option Node} (hi : Inv x c)
    (ha : Abs x c a) (hpc : x.threads.pc t = .consuming (.read top tag link))
    (hhead : x.threads.stack.head .tos = ⟨some top, tag⟩)
    (hw : x.clock.pops .tos < x.clock.seen t + 2 ^ 16) :
    Follows a ⟨goto ⟨x.threads.stack.setHead .tos ⟨link, TaggedPtr.getNextTag ⟨some top, tag⟩⟩,
      x.threads.pc⟩ t (.moving top), x.clock.pop .tos⟩ [] := by
  have hq : (x.threads.pc t).taking = some (.tos, .read top tag link) := by rw [hpc]; rfl
  obtain ⟨rest, hc, hinv⟩ := hi.took (p := .moving top) hq hhead hw rfl
    (fun _ _ _ hput => by cases hput)
  have hobj : a.obj = x.threads.stack.v top :: rest.map x.threads.stack.v := by
    rw [ha.obj, hc]
    rfl
  have hcall : a.call t = .pending .pop := by
    rw [ha.call t, hpc]
    rfl
  refine ⟨[.effect t], _, trace_singleton (act_effect hcall), _, hinv, ?_⟩
  refine ha.goto rfl ?_ ?_ ?_
  · simp [hobj, lifo]
  · simp [hobj, lifo, Pc.call]
  · intro u hu
    simp [hu]

/-- The CAS of a push: it takes effect, and the call returns. -/
theorem linking_done {n : Node} {old : TaggedPtr Node} (hi : Inv x c) (ha : Abs x c a)
    (hpc : x.threads.pc t = .linking n (.linked old)) (hhead : x.threads.stack.head .tos = old) :
    Follows a ⟨goto ⟨x.threads.stack.setHead .tos ⟨some n, old.tag⟩, x.threads.pc⟩ t .idle, x.clock⟩
      [.returned t (.pushed true)] := by
  have hq : (x.threads.pc t).putting = some (.tos, n, .linked old) := by rw [hpc]; rfl
  have hinv := hi.put_cas (p := .idle) hq hhead rfl rfl
  have hcall : a.call t = .pending (.push (x.threads.stack.v n)) := by
    rw [ha.call t, hpc]
    rfl
  refine ⟨[.effect t, .ret t], _,
    trace_append (trace_singleton (act_effect hcall)) (trace_singleton (act_ret (r := StackRes.pushed true) ?_)),
    _, hinv, ha.goto rfl ?_ ?_ ?_⟩
  · simp [lifo]
  · simp [lifo, ha.obj]
  · simp [Pc.call]
  · intro u hu
    simp [hu]

/-- The next access of a thread that allocates a node. -/
theorem next_allocating {y : α} {at' : Take Node} {s' : StackThreads Node α}
    {o : List (Observed (StackOp α) (StackRes α))} (hi : Inv x c) (ha : Abs x c a)
    (hpc : x.threads.pc t = .allocating y at') (hw : x.Windowed (.next t))
    (h : x.threads.next t = some (s', o)) :
    Follows a ⟨s', x.clock.after x.threads (.next t)⟩ o := by
  have htk : (x.threads.pc t).taking = some (.pool, at') := by rw [hpc]; rfl
  have hown : x.threads.owner t = none := Pc.owned_of_taking htk
  simp only [StackThreads.next, hpc, LockFreeStack.allocateImpl] at h
  rcases x.threads.stack.takeTop_cases .pool at' with
    ⟨hat, htop⟩ | ⟨tag, rfl, htop⟩ | ⟨top, tag, rfl, htop⟩ | ⟨top, tag, link, rfl, hhead, htop⟩
  · rw [htop] at h
    cases h
    have hclock : x.clock.after x.threads (.next t) = x.clock.see t .pool := by
      rcases hat with rfl | ⟨top, tag, link, rfl, hne⟩
      · simp only [Clock.after, htk]
      · simp only [Clock.after, htk, if_neg hne]
    rw [hclock]
    exact .stay (hi.load hown rfl rfl) (ha.stay rfl rfl (by rw [hpc]; rfl))
  · rw [htop] at h
    cases h
  · rw [htop] at h
    cases h
    simp only [Clock.after, htk]
    exact .stay (hi.read htk rfl rfl) (ha.stay rfl rfl (by rw [hpc]; rfl))
  · rw [htop] at h
    cases h
    simp only [Timed.Windowed, htk] at hw
    simp only [Clock.after, htk, if_pos hhead]
    obtain ⟨rest, -, hinv⟩ := hi.took (p := .constructing y top) htk hhead hw rfl
      (fun _ _ _ hput => by cases hput)
    exact .stay hinv (ha.stay rfl rfl (by rw [hpc]; rfl))

/-- The next access of a thread that pops. -/
theorem next_consuming {at' : Take Node} {s' : StackThreads Node α}
    {o : List (Observed (StackOp α) (StackRes α))} (hi : Inv x c) (ha : Abs x c a)
    (hpc : x.threads.pc t = .consuming at') (hw : x.Windowed (.next t))
    (h : x.threads.next t = some (s', o)) :
    Follows a ⟨s', x.clock.after x.threads (.next t)⟩ o := by
  have htk : (x.threads.pc t).taking = some (.tos, at') := by rw [hpc]; rfl
  have hown : x.threads.owner t = none := Pc.owned_of_taking htk
  simp only [StackThreads.next, hpc, LockFreeStack.consumeOne] at h
  rcases x.threads.stack.takeTop_cases .tos at' with
    ⟨hat, htop⟩ | ⟨tag, rfl, htop⟩ | ⟨top, tag, rfl, htop⟩ | ⟨top, tag, link, rfl, hhead, htop⟩
  · rw [htop] at h
    cases h
    have hclock : x.clock.after x.threads (.next t) = x.clock.see t .tos ∧
        (x.threads.pc t).call x.threads.stack.v = .pending .pop := by
      rcases hat with rfl | ⟨top, tag, link, rfl, hne⟩
      · exact ⟨by simp only [Clock.after, htk], by rw [hpc]; rfl⟩
      · exact ⟨by simp only [Clock.after, htk, if_neg hne], by rw [hpc]; rfl⟩
    rw [hclock.1]
    exact consuming_load hi ha hpc hclock.2
  · rw [htop] at h
    cases h
    simp only [Clock.after, htk]
    have hcall : a.call t = .done (.popped none) := by
      rw [ha.call t, hpc]
      rfl
    refine ⟨[.ret t], _, trace_singleton (act_ret hcall), c, hi.quiet hown.symm rfl
      (fun _ _ => rfl) (fun _ _ hq => by cases hq) (fun _ _ _ hq => by cases hq), ?_⟩
    refine ha.goto rfl (by simpa using ha.obj) ?_ ?_
    · simp [Pc.call]
    · intro u hu
      simp [hu]
  · rw [htop] at h
    cases h
    simp only [Clock.after, htk]
    exact .stay (hi.read htk rfl rfl) (ha.stay rfl rfl (by rw [hpc]; rfl))
  · rw [htop] at h
    cases h
    simp only [Timed.Windowed, htk] at hw
    simp only [Clock.after, htk, if_pos hhead]
    exact consuming_took hi ha hpc hhead hw

/-- The next access of a thread that puts its node on the stack. -/
theorem next_linking {n : Node} {at' : Put Node} {s' : StackThreads Node α}
    {o : List (Observed (StackOp α) (StackRes α))} (hi : Inv x c) (ha : Abs x c a)
    (hpc : x.threads.pc t = .linking n at') (h : x.threads.next t = some (s', o)) :
    Follows a ⟨s', x.clock.after x.threads (.next t)⟩ o := by
  have hown : x.threads.owner t = some n := by rw [owner, hpc]; rfl
  have hclock : x.clock.after x.threads (.next t) = x.clock := by
    simp only [Clock.after, hpc, Pc.taking]
  rw [hclock]
  simp only [StackThreads.next, hpc, LockFreeStack.linkNodesAtomic] at h
  rcases x.threads.stack.putTop_cases .tos n at' with
    ⟨-, htop⟩ | ⟨old, rfl, htop⟩ | ⟨old, rfl, hhead, htop⟩
  · rw [htop] at h
    cases h
    refine .stay (hi.quiet hown.symm rfl (fun _ _ => rfl) (fun _ _ hq => by cases hq)
      (fun _ _ _ hq => by cases hq)) (ha.stay rfl rfl (by rw [hpc]; rfl))
  · rw [htop] at h
    cases h
    exact .stay (hi.link hown rfl) (ha.stay rfl rfl (by rw [hpc]; rfl))
  · rw [htop] at h
    cases h
    exact linking_done hi ha hpc hhead

/-- The next access of a thread that puts its node on the free list. -/
theorem next_deallocating {n : Node} {y : α} {at' : Put Node} {s' : StackThreads Node α}
    {o : List (Observed (StackOp α) (StackRes α))} (hi : Inv x c) (ha : Abs x c a)
    (hpc : x.threads.pc t = .deallocating n y at') (h : x.threads.next t = some (s', o)) :
    Follows a ⟨s', x.clock.after x.threads (.next t)⟩ o := by
  have hown : x.threads.owner t = some n := by rw [owner, hpc]; rfl
  have hclock : x.clock.after x.threads (.next t) = x.clock := by
    simp only [Clock.after, hpc, Pc.taking]
  rw [hclock]
  simp only [StackThreads.next, hpc, LockFreeStack.deallocateImpl] at h
  rcases x.threads.stack.putTop_cases .pool n at' with
    ⟨-, htop⟩ | ⟨old, rfl, htop⟩ | ⟨old, rfl, hhead, htop⟩
  · rw [htop] at h
    cases h
    refine .stay (hi.quiet hown.symm rfl (fun _ _ => rfl) (fun _ _ hq => by cases hq)
      (fun _ _ _ hq => by cases hq)) (ha.stay rfl rfl (by rw [hpc]; rfl))
  · rw [htop] at h
    cases h
    exact .stay (hi.link hown rfl) (ha.stay rfl rfl (by rw [hpc]; rfl))
  · rw [htop] at h
    cases h
    have hq : (x.threads.pc t).putting = some (.pool, n, .linked old) := by rw [hpc]; rfl
    have hcall : a.call t = .done (.popped (some y)) := by
      rw [ha.call t, hpc]
      rfl
    refine ⟨[.ret t], _, trace_singleton (act_ret hcall), _, hi.put_cas hq hhead rfl rfl, ?_⟩
    refine ha.goto rfl (by simpa using ha.obj) ?_ ?_
    · simp [Pc.call]
    · intro u hu
      simp [hu]

/-- `new (n) node(y)`, and the move of the popped element: accesses to the thread's own node. -/
theorem next_own {s' : StackThreads Node α} {o : List (Observed (StackOp α) (StackRes α))}
    (hi : Inv x c) (ha : Abs x c a)
    (hpc : (∃ y n, x.threads.pc t = .constructing y n) ∨ ∃ n, x.threads.pc t = .moving n)
    (h : x.threads.next t = some (s', o)) :
    Follows a ⟨s', x.clock.after x.threads (.next t)⟩ o := by
  rcases hpc with ⟨y, n, hpc⟩ | ⟨n, hpc⟩
  all_goals
    have hown : x.threads.owner t = some n := by rw [owner, hpc]; rfl
    have hclock : x.clock.after x.threads (.next t) = x.clock := by
      simp only [Clock.after, hpc, Pc.taking]
    rw [hclock]
    simp only [StackThreads.next, hpc] at h
    cases h
  · refine .stay (hi.setV y hown.symm rfl fun _ _ _ hq => by cases hq)
      (ha.write rfl (hi.lists.not_mem hown .tos) ?_ ?_)
    · intro u hu hu'
      exact hu (hi.lists.owner_unique hu' hown)
    · rw [hpc]
      simp [Pc.call, LockFreeStack.setV]
  · exact .stay (hi.quiet hown.symm rfl (fun _ _ => rfl) (fun _ _ hq => by cases hq)
      fun _ _ _ hq => by cases hq) (ha.stay rfl rfl (by rw [hpc]; rfl))

/-- A CAS fails spuriously. -/
theorem weak_follows {s' : StackThreads Node α} (hi : Inv x c) (ha : Abs x c a)
    (h : x.threads.weak t = some s') :
    Follows a ⟨s', x.clock.after x.threads (.weak t)⟩ [] := by
  cases hpc : x.threads.pc t with
  | allocating y at' =>
    have htk : (x.threads.pc t).taking = some (.pool, at') := by rw [hpc]; rfl
    simp only [StackThreads.weak, hpc] at h
    obtain ⟨at1, hat, rfl⟩ := Option.map_eq_some_iff.mp h
    cases at' with
    | read top tag link =>
      cases hat
      simp only [Clock.after, htk]
      exact .stay (hi.load (Pc.owned_of_taking htk) rfl rfl) (ha.stay rfl rfl (by rw [hpc]; rfl))
    | _ => cases hat
  | consuming at' =>
    have htk : (x.threads.pc t).taking = some (.tos, at') := by rw [hpc]; rfl
    simp only [StackThreads.weak, hpc] at h
    obtain ⟨at1, hat, rfl⟩ := Option.map_eq_some_iff.mp h
    cases at' with
    | read top tag link =>
      cases hat
      simp only [Clock.after, htk]
      exact consuming_load hi ha hpc (by rw [hpc]; rfl)
    | _ => cases hat
  | linking n at' =>
    have hown : x.threads.owner t = some n := by rw [owner, hpc]; rfl
    simp only [StackThreads.weak, hpc] at h
    obtain ⟨at1, hat, rfl⟩ := Option.map_eq_some_iff.mp h
    cases at' with
    | linked old =>
      cases hat
      simp only [Clock.after, hpc, Pc.taking]
      exact .stay (hi.quiet hown.symm rfl (fun _ _ => rfl) (fun _ _ hq => by cases hq)
        fun _ _ _ hq => by cases hq) (ha.stay rfl rfl (by rw [hpc]; rfl))
    | _ => cases hat
  | deallocating n y at' =>
    have hown : x.threads.owner t = some n := by rw [owner, hpc]; rfl
    simp only [StackThreads.weak, hpc] at h
    obtain ⟨at1, hat, rfl⟩ := Option.map_eq_some_iff.mp h
    cases at' with
    | linked old =>
      cases hat
      simp only [Clock.after, hpc, Pc.taking]
      exact .stay (hi.quiet hown.symm rfl (fun _ _ => rfl) (fun _ _ hq => by cases hq)
        fun _ _ _ hq => by cases hq) (ha.stay rfl rfl (by rw [hpc]; rfl))
    | _ => cases hat
  | _ => simp [StackThreads.weak, hpc] at h

end

/-- **Step of the simulation.** -/
theorem Sim.step [Inhabited α] {x x' : Timed Node α} {b : Action Node α}
    {a : AtomicObject.State (List α) (StackOp α) (StackRes α)}
    {o : List (Observed (StackOp α) (StackRes α))} (hs : Sim x a) (hw : x.Windowed b)
    (h : x.act b = some (x', o)) : Follows a x' o := by
  obtain ⟨c, hi, ha⟩ := hs
  obtain ⟨⟨s', o'⟩, hact, heq⟩ := Option.map_eq_some_iff.mp h
  cases heq
  cases b with
  | call t op =>
    simp only [act] at hact
    split at hact
    · next hpc =>
      cases hact
      have hcall : a.call t = .idle := by
        rw [ha.call t, hpc]
        rfl
      refine ⟨[.call t op], _, trace_singleton (act_call hcall), c, ?_, ?_⟩
      · refine hi.quiet ?_ rfl (fun _ _ => rfl) ?_ ?_
        · rw [owner, hpc]
          cases op <;> rfl
        · intro h q hq
          cases op <;> cases hq <;> trivial
        · intro h n old hq
          cases op <;> cases hq
      · refine ha.goto rfl (by simpa using ha.obj) ?_ ?_
        · cases op <;> simp [enter, Pc.call]
        · intro u hu
          simp [hu]
    · cases hact
  | next t =>
    cases hpc : x.threads.pc t with
    | idle => simp [act, StackThreads.next, hpc] at hact
    | allocating y at' => exact next_allocating hi ha hpc hw hact
    | constructing y n => exact next_own hi ha (.inl ⟨y, n, hpc⟩) hact
    | linking n at' => exact next_linking hi ha hpc hact
    | consuming at' => exact next_consuming hi ha hpc hw hact
    | moving n => exact next_own hi ha (.inr ⟨n, hpc⟩) hact
    | deallocating n y at' => exact next_deallocating hi ha hpc hact
  | weak t =>
    obtain ⟨s1, hweak, heq⟩ := Option.map_eq_some_iff.mp hact
    cases heq
    exact weak_follows hi ha hweak
  | allocate t n =>
    simp only [act] at hact
    split at hact
    · next y tag hpc =>
      split at hact
      · cases hact
      · next hn =>
        cases hact
        have hown : x.threads.owner t = none := by
          rw [owner, hpc]
          rfl
        have hnot : ∀ p, ¬ Custody.At (held x.threads.owner c) n p :=
          fun p hp => hn (hi.lists.mem_heap hp)
        refine .stay (hi.newNode hn hown rfl fun _ _ _ hq => by cases hq) (ha.write rfl ?_ ?_ ?_)
        · exact fun hmem => hnot _ (hi.lists.at_list hmem)
        · exact fun u _ hu => hnot _ (hi.lists.at_thread hu)
        · rw [hpc]
          rfl
    · cases hact

/-! ## Runs -/

section

variable [Inhabited α]

/-- The clock runs beside every run of the threads. -/
theorem Timed.trace_of_trace {s s' : StackThreads Node α} {as : List (Action Node α)}
    {os : List (Observed (StackOp α) (StackRes α))} (h : trace StackThreads.act s as = some (s', os))
    (clock : Clock) : ∃ clock', trace Timed.act ⟨s, clock⟩ as = some (⟨s', clock'⟩, os) := by
  induction as generalizing s os clock with
  | nil =>
    cases h
    exact ⟨clock, rfl⟩
  | cons b as ih =>
    obtain ⟨s1, o1, o2, hb, has, rfl⟩ := trace_cons.mp h
    obtain ⟨clock', htrace⟩ := ih has (clock.after s b)
    exact ⟨clock', trace_cons.mpr ⟨_, o1, o2, by simp [Timed.act, hb], htrace, rfl⟩⟩

theorem sim_init (nodes : List Node) (hnodup : nodes.Nodup) :
    Sim (Timed.init nodes : Timed Node α) (AtomicObject.idle []) := by
  obtain ⟨c, hi, htos⟩ := inv_init (α := α) nodes hnodup
  refine ⟨c, hi, ?_, fun _ => rfl⟩
  rw [htos]
  rfl

/-- What is observed of a run of the threads is observed of the atomic stack. -/
theorem sim_of_trace {nodes : List Node} (hnodup : nodes.Nodup) {as : List (Action Node α)}
    {s : StackThreads Node α} {os : List (Observed (StackOp α) (StackRes α))}
    (h : trace act (init nodes) as = some (s, os))
    (hw : Along Timed.step Timed.Windowed (Timed.init nodes) as) :
    ∃ clock bs a, trace (AtomicObject.act lifo) (AtomicObject.idle []) bs = some (a, os) ∧
      Sim ⟨s, clock⟩ a := by
  obtain ⟨clock, htimed⟩ := Timed.trace_of_trace h .zero
  obtain ⟨bs, a, hbs, hsim⟩ := trace_simulated (R := Sim) (C := Timed.Windowed)
    (fun (_ : Timed Node α) _ _ _ _ hR hC ha => hR.step hC ha) htimed hw (sim_init nodes hnodup)
  exact ⟨clock, bs, a, hbs, hsim⟩

/-- **Linearizability.**  In every interleaving in which fewer than `2 ^ 16` pops fall between a
pop's load and its CAS, the calls and results are those of a stack whose operations are atomic;
its contents are the elements linked from `tos`, top first. -/
theorem linearizable (nodes : List Node) (hnodup : nodes.Nodup) (as : List (Action Node α))
    (s : StackThreads Node α) (os : List (Observed (StackOp α) (StackRes α)))
    (h : trace act (init nodes) as = some (s, os))
    (hw : Along Timed.step Timed.Windowed (Timed.init nodes) as) :
    ∃ bs a l, trace (AtomicObject.act lifo) (AtomicObject.idle []) bs = some (a, os) ∧
      Chain.Linked s.stack.next (s.stack.head .tos).ptr l ∧ a.obj = l.map s.stack.v ∧
      ∀ t, a.call t = (s.pc t).call s.stack.v := by
  obtain ⟨clock, bs, a, hbs, c, hi, ha⟩ := sim_of_trace hnodup h hw
  exact ⟨bs, a, c .tos, hbs, hi.lists.linked .tos, ha.obj, ha.call⟩

end

/-- Two threads push while the free list has one node: the second one's CAS fails, and it
allocates; then the first one's CAS of `tos` fails.  A third thread pops. -/
def raceRun : List (Action Nat Nat) :=
  [.call 1 (.push 5), .call 2 (.push 6), .next 1, .next 2, .next 1, .next 1, .next 2, .next 2,
    .allocate 2 1, .next 1, .next 1, .next 1, .next 2, .next 2, .next 2, .next 2, .next 1, .next 1,
    .next 1, .call 3 .pop, .next 3, .next 3, .next 3, .next 3, .next 3, .next 3, .next 3]

theorem raceRun_observed : (trace act (init [0]) raceRun).map Prod.snd =
    some [.called 1 (.push 5), .called 2 (.push 6), .returned 2 (.pushed true),
      .returned 1 (.pushed true), .called 3 .pop, .returned 3 (.popped (some 5))] := by
  decide +kernel

/-- The push that was called second takes effect first. -/
theorem linearizable_race : ∃ bs a, trace (AtomicObject.act lifo) (AtomicObject.idle []) bs =
    some (a, [.called 1 (.push 5), .called 2 (.push 6), .returned 2 (.pushed true),
      .returned 1 (.pushed true), .called 3 .pop, .returned 3 (.popped (some 5))]) := by
  obtain ⟨⟨s, os⟩, hs, rfl⟩ := Option.map_eq_some_iff.mp raceRun_observed
  obtain ⟨bs, a, l, hbs, -⟩ := linearizable [0] (by decide) raceRun s _ hs (by decide +kernel)
  exact ⟨bs, a, hbs⟩

end StackThreads

/-! ## Nothing is lost and nothing doubled -/

/-- The element that an observed call pushes. -/
def pushArg : Observed (StackOp α) (StackRes α) → Option α
  | .called _ (.push x) => some x
  | _ => none

/-- The element that an observed return has popped. -/
def popResult : Observed (StackOp α) (StackRes α) → Option α
  | .returned _ (.popped (some x)) => some x
  | _ => none

section

variable {t : Nat} {x : α} {op : StackOp α} {r : StackRes α}

@[simp] theorem pushArg_push : pushArg (.called t (.push x)) = some x := rfl

@[simp] theorem pushArg_pop : pushArg (.called t (.pop : StackOp α)) = none := rfl

@[simp] theorem pushArg_returned : pushArg (.returned t r) = none := rfl

@[simp] theorem popResult_called : popResult (.called t op) = none := rfl

@[simp] theorem popResult_popped {x : Option α} : popResult (.returned t (.popped x)) = x := by
  cases x <;> rfl

@[simp] theorem popResult_pushed {ok : Bool} :
    popResult (.returned t (.pushed ok : StackRes α)) = none := rfl

end

/-- The element that a call has taken over and not yet handed on. -/
def inFlight : Call (StackOp α) (StackRes α) → Multiset α
  | .pending (.push x) => {x}
  | .done (.popped (some x)) => {x}
  | _ => 0

namespace Lifo

variable {a a' : AtomicObject.State (List α) (StackOp α) (StackRes α)} {b : AtomicObject.Action (StackOp α)}
  {bs : List (AtomicObject.Action (StackOp α))} {o os : List (Observed (StackOp α) (StackRes α))}
  {t n : Nat} {N : Nat}

/-- The elements on the stack and in the calls of the first `N` threads. -/
def content (N : Nat) (a : AtomicObject.State (List α) (StackOp α) (StackRes α)) : Multiset α :=
  ↑a.obj + Parties.total N fun t => inFlight (a.call t)

theorem content_set {l : List α} {k : Call (StackOp α) (StackRes α)} (ht : t < N) :
    content N { a.set t k with obj := l } =
      ↑l + (inFlight k + Parties.others N t fun t => inFlight (a.call t)) := by
  unfold content
  rw [Parties.total_eq ht]
  congr 2
  · simp
  · exact Parties.others_congr fun j hj => by simp [hj]

theorem content_eq (ht : t < N) :
    content N a = ↑a.obj + (inFlight (a.call t) + Parties.others N t fun t => inFlight (a.call t)) := by
  unfold content
  rw [Parties.total_eq ht]

theorem cons_eq_add (x : α) (l : List α) : (↑(x :: l) : Multiset α) = ↑l + {x} := by
  rw [add_comm, Multiset.singleton_add, Multiset.cons_coe]

/-- An operation moves its element between the stack and the call. -/
theorem inFlight_lifo (l : List α) (op : StackOp α) :
    (↑(lifo l op).1 : Multiset α) + inFlight (.done (lifo l op).2) = ↑l + inFlight (.pending op) := by
  cases op with
  | push x => simp [lifo, inFlight, cons_eq_add]
  | pop =>
    cases l with
    | nil => simp [lifo, inFlight]
    | cons x l => simp [lifo, inFlight, cons_eq_add]

/-- A step keeps the balance. -/
theorem balance_step (h : AtomicObject.act lifo a b = some (a', o))
    (hN : ∀ t op, Observed.called t op ∈ o → t < N) (hidle : ∀ t, N ≤ t → a.call t = .idle) :
    (↑(o.filterMap pushArg) + content N a = ↑(o.filterMap popResult) + content N a') ∧
      ∀ t, N ≤ t → a'.call t = .idle := by
  have hlt : ∀ t, a.call t ≠ .idle → t < N := fun t ht => Nat.lt_of_not_le fun hle => ht (hidle t hle)
  have hother : ∀ t k l, t < N → ∀ u, N ≤ u →
      ({ a.set t k with obj := l } : AtomicObject.State (List α) _ _).call u = .idle := by
    intro t k l ht u hu
    have hut : u ≠ t := by omega
    simpa [hut] using hidle u hu
  cases b with
  | call t op =>
    simp only [AtomicObject.act] at h
    split at h
    · next hc =>
      cases h
      have ht : t < N := hN t op List.mem_cons_self
      refine ⟨?_, hother t _ a.obj ht⟩
      have hset : content N (a.set t (.pending op)) = _ := content_set (l := a.obj) ht
      rw [hset, content_eq ht, hc]
      cases op with
      | push x =>
        simp only [List.filterMap, pushArg, popResult, inFlight, Multiset.coe_nil, Multiset.coe_singleton,
          zero_add]
        exact add_left_comm _ _ _
      | pop => rfl
    · cases h
  | effect t =>
    simp only [AtomicObject.act] at h
    split at h
    · next op hc =>
      cases h
      have ht : t < N := hlt t (by rw [hc]; simp)
      refine ⟨?_, hother t _ _ ht⟩
      rw [content_set ht, content_eq ht, hc]
      simp only [← add_assoc, inFlight_lifo]
      rfl
    · cases h
  | ret t =>
    simp only [AtomicObject.act] at h
    split at h
    · next r hc =>
      cases h
      have ht : t < N := hlt t (by rw [hc]; simp)
      refine ⟨?_, hother t _ a.obj ht⟩
      have hset : content N (a.set t .idle) = _ := content_set (l := a.obj) ht
      rw [hset, content_eq ht, hc]
      cases r with
      | pushed ok => rfl
      | popped x =>
        cases x with
        | none => rfl
        | some x =>
          simp only [List.filterMap, pushArg, popResult, inFlight, Multiset.coe_nil,
            Multiset.coe_singleton, zero_add]
          exact add_left_comm _ _ _
    · cases h

/-- A run keeps the balance. -/
theorem balance (h : trace (AtomicObject.act lifo) a bs = some (a', os))
    (hN : ∀ t op, Observed.called t op ∈ os → t < N) (hidle : ∀ t, N ≤ t → a.call t = .idle) :
    ↑(os.filterMap pushArg) + content N a = ↑(os.filterMap popResult) + content N a' := by
  induction bs generalizing a os with
  | nil =>
    cases h
    rfl
  | cons b bs ih =>
    obtain ⟨a1, o1, o2, hb, hbs, rfl⟩ := trace_cons.mp h
    obtain ⟨h1, hidle1⟩ := balance_step hb (fun t op hm => hN t op (List.mem_append_left _ hm)) hidle
    have h2 := ih hbs (fun t op hm => hN t op (List.mem_append_right _ hm)) hidle1
    simp only [List.filterMap_append, ← Multiset.coe_add]
    calc (↑(o1.filterMap pushArg) : Multiset α) + ↑(o2.filterMap pushArg) + content N a
        = ↑(o1.filterMap pushArg) + content N a + ↑(o2.filterMap pushArg) := add_right_comm _ _ _
      _ = ↑(o1.filterMap popResult) + content N a1 + ↑(o2.filterMap pushArg) := by rw [h1]
      _ = ↑(o1.filterMap popResult) + (↑(o2.filterMap pushArg) + content N a1) := by
        rw [add_right_comm, add_assoc]
      _ = ↑(o1.filterMap popResult) + (↑(o2.filterMap popResult) + content N a') := by rw [h2]
      _ = ↑(o1.filterMap popResult) + ↑(o2.filterMap popResult) + content N a' := (add_assoc _ _ _).symm

end Lifo

namespace StackThreads

variable [DecidableEq Node] [Inhabited α]

/-- **Conservation.**  In every such interleaving, what has been pushed is what has been popped,
with what is linked from `tos` and what is in a call under way; each element as often as it was
pushed. -/
theorem conservation (nodes : List Node) (hnodup : nodes.Nodup) (as : List (Action Node α))
    (s : StackThreads Node α) (os : List (Observed (StackOp α) (StackRes α))) (N : Nat)
    (h : trace act (init nodes) as = some (s, os))
    (hw : Along Timed.step Timed.Windowed (Timed.init nodes) as)
    (hN : ∀ t op, Observed.called t op ∈ os → t < N) :
    ∃ l, Chain.Linked s.stack.next (s.stack.head .tos).ptr l ∧
      (↑(os.filterMap pushArg) : Multiset α) = ↑(os.filterMap popResult) +
        (↑(l.map s.stack.v) + Parties.total N fun t => inFlight ((s.pc t).call s.stack.v)) := by
  obtain ⟨clock, bs, a, hbs, c, hi, ha⟩ := sim_of_trace hnodup h hw
  refine ⟨c .tos, hi.lists.linked .tos, ?_⟩
  have hbal := Lifo.balance hbs hN fun _ _ => rfl
  have hzero : Lifo.content N (AtomicObject.idle [] : AtomicObject.State (List α) _ _) = 0 := by
    simp only [Lifo.content, AtomicObject.idle, Multiset.coe_nil, zero_add]
    exact Parties.total_eq_zero fun _ _ => rfl
  rw [hzero, add_zero] at hbal
  rw [hbal, Lifo.content, ha.obj]
  congr 2
  exact Parties.total_congr fun t _ => congrArg inFlight (ha.call t)

/-- Of 5 and 6, the 5 has been popped. -/
theorem conservation_race : ∃ (s : StackThreads Nat Nat) (l : List Nat),
    Chain.Linked s.stack.next (s.stack.head .tos).ptr l ∧
      (↑[5, 6] : Multiset Nat) = ↑[5] +
        (↑(l.map s.stack.v) + Parties.total 4 fun t => inFlight ((s.pc t).call s.stack.v)) := by
  obtain ⟨⟨s, os⟩, hs, rfl⟩ := Option.map_eq_some_iff.mp raceRun_observed
  obtain ⟨l, hl, hbal⟩ := conservation [0] (by decide) raceRun s _ 4 hs (by decide +kernel) (by
    intro t op hm
    simp only [List.mem_cons, Observed.called.injEq, List.not_mem_nil, reduceCtorEq, or_false,
      false_or] at hm
    omega)
  exact ⟨s, l, hl, hbal⟩

end StackThreads

end Us2d
