import Us2dServer.LockFreeStack
import Mathlib.Algebra.Group.Nat.Defs

/-!
# The lists and the handles of the lock-free stack

Every node is on one of the two lists, once, or belongs to one thread (`Lists`).  Only the owner
of a node writes to it, so a list changes at its head alone.

A thread that pops holds a pointer, a tag and a link it read some time ago.  As long as no node
has been popped off the list since, these are still in the list (`Take.Valid`): pushes lengthen
the list in front of them.  The tag counts the pops, but with 16 bits only: `Clock` counts them
in full beside the run, and `Windowed` asks that fewer than `2 ^ 16` pops fall between the load
of a handle and a CAS on it.  The code neither has this counter nor checks this condition.
-/

namespace Us2d

open AtomicObject

variable {Node α : Type}

/-! ## What a thread holds -/

namespace Pc

def taking : Pc Node α → Option (Head × Take Node)
  | .allocating _ at' => some (.pool, at')
  | .consuming at' => some (.tos, at')
  | _ => none

def putting : Pc Node α → Option (Head × Node × Put Node)
  | .linking n at' => some (.tos, n, at')
  | .deallocating n _ at' => some (.pool, n, at')
  | _ => none

/-- The node that belongs to the thread. -/
def owned : Pc Node α → Option Node
  | .constructing _ n => some n
  | .linking n _ => some n
  | .moving n => some n
  | .deallocating n _ _ => some n
  | _ => none

end Pc

namespace StackThreads

variable [DecidableEq Node]

def owner (s : StackThreads Node α) (thread : Nat) : Option Node := (s.pc thread).owned

/-! ## The clock -/

/-- How many nodes have been popped off each list, and, for a thread that is popping, how many
had been when it loaded its handle. -/
structure Clock where
  pops : Head → Nat
  seen : Nat → Nat

namespace Clock

def zero : Clock := ⟨fun _ => 0, fun _ => 0⟩

def see (thread : Nat) (h : Head) (c : Clock) : Clock :=
  { c with seen := Function.update c.seen thread (c.pops h) }

def pop (h : Head) (c : Clock) : Clock :=
  { c with pops := Function.update c.pops h (c.pops h + 1) }

/-- The clock after the action `a` in `s`. -/
def after (s : StackThreads Node α) (c : Clock) : Action Node α → Clock
  | .next thread =>
    match (s.pc thread).taking with
    | some (h, .start) => c.see thread h
    | some (h, .read top tag _) =>
      if s.stack.head h = ⟨some top, tag⟩ then c.pop h else c.see thread h
    | _ => c
  | .weak thread =>
    match (s.pc thread).taking with
    | some (h, _) => c.see thread h
    | none => c
  | _ => c

end Clock

/-- A run of the threads with the clock beside it. -/
structure Timed (Node α : Type) where
  threads : StackThreads Node α
  clock : Clock

namespace Timed

def act [Inhabited α] (x : Timed Node α) (a : Action Node α) :
    Option (Timed Node α × List (Observed (StackOp α) (StackRes α))) :=
  (x.threads.act a).map fun r => (⟨r.1, x.clock.after x.threads a⟩, r.2)

def step [Inhabited α] : Timed Node α → Action Node α → Option (Timed Node α) :=
  Transition.stepOf act

def init [Inhabited α] (nodes : List Node) : Timed Node α := ⟨StackThreads.init nodes, .zero⟩

/-- At the CAS of a pop, fewer than `2 ^ 16` pops of the list since the handle was loaded. -/
def Windowed (x : Timed Node α) : Action Node α → Prop
  | .next thread =>
    match (x.threads.pc thread).taking with
    | some (h, .read _ _ _) => x.clock.pops h < x.clock.seen thread + 2 ^ 16
    | _ => True
  | _ => True

instance decidableWindowed (x : Timed Node α) : (a : Action Node α) → Decidable (x.Windowed a)
  | .next thread =>
    match h : (x.threads.pc thread).taking with
    | some (hd, .read _ _ _) =>
      decidable_of_iff (x.clock.pops hd < x.clock.seen thread + 2 ^ 16) (by simp only [Windowed, h])
    | some (_, .start) => .isTrue (by simp only [Windowed, h])
    | some (_, .loaded _) => .isTrue (by simp only [Windowed, h])
    | none => .isTrue (by simp only [Windowed, h])
  | .call _ _ => .isTrue trivial
  | .weak _ => .isTrue trivial
  | .allocate _ _ => .isTrue trivial

end Timed

/-! ## The lists -/

inductive Place
  | list (h : Head)
  | thread (t : Nat)
deriving DecidableEq

/-- How often a place holds a node. -/
def held (own : Nat → Option Node) (c : Head → List Node) : Place → Node → Nat
  | .list h, n => (c h).count n
  | .thread t, n => if own t = some n then 1 else 0

/-- `c h` is the list under the head `h`, and every node is on one list or has one owner. -/
structure Lists (m : LockFreeStack Node α) (own : Nat → Option Node) (c : Head → List Node) :
    Prop where
  linked : ∀ h, Chain.Linked m.next (m.head h).ptr (c h)
  custody : ∀ n ∈ m.heap, Custody.Exclusive (held own c) n
  absent : ∀ n, n ∉ m.heap → Custody.Absent (held own c) n

namespace Lists

variable {m : LockFreeStack Node α} {own : Nat → Option Node} {c : Head → List Node}
  {t u : Nat} {h : Head} {n top : Node} {tag : BitVec 16} {rest : List Node}

theorem exclusive_of_held (hl : Lists m own c) {p : Place} (hp : 0 < held own c p n) :
    Custody.Exclusive (held own c) n := by
  by_cases hn : n ∈ m.heap
  · exact hl.custody n hn
  · rw [hl.absent n hn p] at hp
    omega

theorem at_thread (hl : Lists m own c) (ho : own t = some n) :
    Custody.At (held own c) n (.thread t) := by
  have hp : 0 < held own c (.thread t) n := by simp [held, ho]
  exact (hl.exclusive_of_held hp).at_of_held hp

theorem at_list (hl : Lists m own c) (hn : n ∈ c h) : Custody.At (held own c) n (.list h) := by
  have hp : 0 < held own c (.list h) n := List.count_pos_iff.mpr hn
  exact (hl.exclusive_of_held hp).at_of_held hp

theorem mem_heap (hl : Lists m own c) {p : Place} (hp : Custody.At (held own c) n p) :
    n ∈ m.heap := by
  apply Classical.byContradiction
  intro hn
  have h1 := hp.self
  rw [hl.absent n hn p] at h1
  omega

/-- An owned node is on no list. -/
theorem not_mem (hl : Lists m own c) (ho : own t = some n) (h : Head) : n ∉ c h := by
  intro hn
  cases (hl.at_thread ho).unique (hl.at_list hn)

/-- An owned node has one owner. -/
theorem owner_unique (hl : Lists m own c) (ho : own t = some n) (ho' : own u = some n) : t = u :=
  Place.thread.inj ((hl.at_thread ho).unique (hl.at_thread ho'))

theorem count_other_list (hl : Lists m own c) (hn : n ∈ c h) {k : Head} (hk : k ≠ h) : n ∉ c k := by
  intro hn'
  exact hk (Place.list.inj ((hl.at_list hn').unique (hl.at_list hn)))

/-- The owner writes to its node. -/
theorem setNext (hl : Lists m own c) (ho : own t = some n) (w : Option Node) :
    Lists (m.setNext n w) own c where
  linked := fun h => (hl.linked h).update (hl.not_mem ho h) w
  custody := hl.custody
  absent := hl.absent

theorem setV (hl : Lists m own c) (n : Node) (x : α) : Lists (m.setV n x) own c :=
  ⟨hl.linked, hl.custody, hl.absent⟩

/-- A node moves between a list and a thread: the other nodes are where they were. -/
theorem held_moved {own' : Nat → Option Node} {c' : Head → List Node}
    (hown : ∀ u k, k ≠ n → (own' u = some k ↔ own u = some k))
    (hc : ∀ h k, k ≠ n → (c' h).count k = (c h).count k) {k : Node} (hk : k ≠ n) (q : Place) :
    held own' c' q k = held own c q k := by
  cases q with
  | list h => exact hc h k hk
  | thread u => simp only [held, hown u k hk]

omit [DecidableEq Node] in
theorem update_eq_some {o o' : Option Node} (ho : own t = o) {k : Node} (h : o ≠ some k)
    (h' : o' ≠ some k) (u : Nat) : Function.update own t o' u = some k ↔ own u = some k := by
  by_cases hu : u = t
  · subst hu
    simp [ho, h, h']
  · simp [hu]

/-- What is left to show of a CAS that moves the node `n` to the place `p`. -/
theorem of_moved {m' : LockFreeStack Node α} {own' : Nat → Option Node} {c' : Head → List Node}
    {p : Place} (hl : Lists m own c) (hheap : m'.heap = m.heap) (hn : n ∈ m.heap)
    (hlinked : ∀ h, Chain.Linked m'.next (m'.head h).ptr (c' h))
    (hother : ∀ k, k ≠ n → ∀ q, held own' c' q k = held own c q k)
    (hat : Custody.At (held own' c') n p) : Lists m' own' c' := by
  refine ⟨hlinked, fun k hk => ?_, fun k hk => ?_⟩
  · by_cases hkn : k = n
    · subst hkn
      exact ⟨p, hat⟩
    · rw [hheap] at hk
      exact (hl.custody k hk).congr (hother k hkn)
  · rw [hheap] at hk
    have hkn : k ≠ n := by
      intro he
      rw [he] at hk
      exact hk hn
    intro q
    rw [hother k hkn q]
    exact hl.absent k hk q

/-- The owner's CAS puts its node on a list. -/
theorem push (hl : Lists m own c) (ho : own t = some n) (hn : m.next n = (m.head h).ptr) :
    Lists (m.setHead h ⟨some n, tag⟩) (Function.update own t none)
      (Function.update c h (n :: c h)) := by
  refine hl.of_moved (p := .list h) rfl (hl.mem_heap (hl.at_thread ho)) ?_ ?_ ?_
  · intro h'
    by_cases hh : h' = h
    · subst hh
      have hnext := hl.linked h'
      rw [← hn] at hnext
      simpa [LockFreeStack.setHead] using hnext
    · simpa [LockFreeStack.setHead, hh] using hl.linked h'
  · intro k hk
    refine held_moved (fun u j hj => update_eq_some ho (by simpa using Ne.symm hj) (by simp) u) ?_ hk
    intro h' j hj
    by_cases hh : h' = h
    · subst hh
      simp [Ne.symm hj]
    · simp [hh]
  · intro q
    cases q with
    | list h' =>
      by_cases hh : h' = h
      · subst hh
        simp [held, List.count_eq_zero.mpr (hl.not_mem ho h')]
      · simp [held, hh, List.count_eq_zero.mpr (hl.not_mem ho h')]
    | thread u =>
      have hu : Function.update own t none u ≠ some n := by
        by_cases hut : u = t
        · simp [hut]
        · rw [Function.update_of_ne hut]
          exact fun hown => hut (hl.owner_unique hown ho)
      simp [held, hu]

/-- The CAS of a pop takes the top of the list. -/
theorem pop (hl : Lists m own c) (ho : own t = none) (hc : c h = top :: rest) :
    Lists (m.setHead h ⟨m.next top, tag⟩) (Function.update own t (some top))
      (Function.update c h rest) := by
  have hmem : top ∈ c h := by rw [hc]; exact List.mem_cons_self
  have hcount : (c h).count top = 1 := (hl.at_list hmem).self
  have hrest : rest.count top = 0 := by
    rw [hc, List.count_cons_self] at hcount
    omega
  refine hl.of_moved (p := .thread t) rfl (hl.mem_heap (hl.at_list hmem)) ?_ ?_ ?_
  · intro h'
    by_cases hh : h' = h
    · subst hh
      have hlink := hl.linked h'
      rw [hc] at hlink
      simpa [LockFreeStack.setHead] using hlink.2
    · simpa [LockFreeStack.setHead, hh] using hl.linked h'
  · intro k hk
    refine held_moved (fun u j hj => update_eq_some ho (by simp) (by simpa using Ne.symm hj) u) ?_ hk
    intro h' j hj
    by_cases hh : h' = h
    · subst hh
      simp [hc, Ne.symm hj]
    · simp [hh]
  · intro q
    cases q with
    | list h' =>
      by_cases hh : h' = h
      · subst hh
        simp [held, hrest]
      · simp [held, hh, List.count_eq_zero.mpr (hl.count_other_list hmem hh)]
    | thread u =>
      by_cases hut : u = t
      · simp [held, hut]
      · have hu : own u ≠ some top := fun hown => hl.not_mem hown h hmem
        simp [held, hut, hu]

/-- The allocator's node belongs to the thread that asked for it. -/
theorem newNode [Inhabited α] (hl : Lists m own c) (ho : own t = none) (hn : n ∉ m.heap) :
    Lists (m.newNode n) (Function.update own t (some n)) c := by
  have hnot : ∀ h, n ∉ c h := fun h hmem => hn (hl.mem_heap (hl.at_list hmem))
  have hnown : ∀ u, own u ≠ some n := fun u hown => hn (hl.mem_heap (hl.at_thread hown))
  have hother : ∀ k, k ≠ n → ∀ q, held (Function.update own t (some n)) c q k = held own c q k := by
    intro k hk
    exact held_moved (fun u j hj => update_eq_some ho (by simp) (by simpa using Ne.symm hj) u)
      (fun _ _ _ => rfl) hk
  refine ⟨fun h => (hl.linked h).update (hnot h) none, fun k hk => ?_, fun k hk => ?_⟩
  · by_cases hkn : k = n
    · subst hkn
      refine ⟨.thread t, fun q => ?_⟩
      cases q with
      | list h => simp [held, List.count_eq_zero.mpr (hnot h)]
      | thread u =>
        by_cases hut : u = t
        · simp [held, hut]
        · simp [held, hut, hnown u]
    · exact (hl.custody k ((List.mem_cons.mp hk).resolve_left hkn)).congr (hother k hkn)
  · obtain ⟨hkn, hkm⟩ := not_or.mp (fun hk' => hk (List.mem_cons.mpr hk'))
    intro q
    rw [hother k hkn q]
    exact hl.absent k hkm q

end Lists

/-! ## The handles -/

/-- What a popping thread holds, when `pops` nodes have been popped off the list `l`, and `seen`
when it loaded its handle. -/
def Valid (next : Node → Option Node) (l : List Node) (pops seen : Nat) : Take Node → Prop
  | .start => True
  | .loaded old =>
    seen ≤ pops ∧ old.tag.toNat = seen % 2 ^ 16 ∧
      (pops = seen → ∀ top, old.ptr = some top → top ∈ l)
  | .read top tag link =>
    seen ≤ pops ∧ tag.toNat = seen % 2 ^ 16 ∧ (pops = seen → top ∈ l ∧ next top = link)

omit [DecidableEq Node] in
/-- The list changes by pushes only as long as nothing is popped off it. -/
theorem Valid.mono {next next' : Node → Option Node} {l l' : List Node} {pops pops' seen : Nat}
    {at' : Take Node} (hv : Valid next l pops seen at') (hle : pops ≤ pops')
    (hsame : pops' = pops → ∀ n ∈ l, n ∈ l' ∧ next' n = next n) : Valid next' l' pops' seen at' := by
  cases at' with
  | start => trivial
  | loaded old =>
    obtain ⟨hseen, htag, hmem⟩ := hv
    refine ⟨by omega, htag, fun heq top htop => ?_⟩
    exact (hsame (by omega) top (hmem (by omega) top htop)).1
  | read top tag link =>
    obtain ⟨hseen, htag, hmem⟩ := hv
    refine ⟨by omega, htag, fun heq => ?_⟩
    obtain ⟨htop, hlink⟩ := hmem (by omega)
    obtain ⟨htop', hnext⟩ := hsame (by omega) top htop
    exact ⟨htop', hnext.trans hlink⟩

omit [DecidableEq Node] in
/-- An equal tag inside the window: the link read is still the link of the top. -/
theorem Valid.link {next : Node → Option Node} {l : List Node} {pops seen : Nat} {top : Node}
    {tag : BitVec 16} {link : Option Node} (hv : Valid next l pops seen (.read top tag link))
    (hw : pops < seen + 2 ^ 16) (htag : tag.toNat = pops % 2 ^ 16) : next top = link := by
  obtain ⟨hseen, hold, hmem⟩ := hv
  have heq : pops = seen := Wrapping.eq_of_window hseen hw (htag.symm.trans hold)
  exact (hmem heq).2

/-- The invariant; `c h` is the list under `h`. -/
structure Inv (x : Timed Node α) (c : Head → List Node) : Prop where
  lists : Lists x.threads.stack x.threads.owner c
  tag : ∀ h, (x.threads.stack.head h).tag.toNat = x.clock.pops h % 2 ^ 16
  take : ∀ t h p, (x.threads.pc t).taking = some (h, p) →
    Valid x.threads.stack.next (c h) (x.clock.pops h) (x.clock.seen t) p
  put : ∀ t h n old, (x.threads.pc t).putting = some (h, n, .linked old) →
    x.threads.stack.next n = old.ptr

end StackThreads

theorem Pc.owned_of_putting {p : Pc Node α} {h : Head} {n : Node} {at' : Put Node}
    (hp : p.putting = some (h, n, at')) : p.owned = some n := by
  cases p <;> simp_all [Pc.putting, Pc.owned]

theorem Pc.owned_of_taking {p : Pc Node α} {h : Head} {at' : Take Node}
    (hp : p.taking = some (h, at')) : p.owned = none := by
  cases p <;> simp_all [Pc.taking, Pc.owned]

namespace StackThreads

@[simp] theorem goto_pc_self (s : StackThreads Node α) (t : Nat) (p : Pc Node α) :
    (s.goto t p).pc t = p := by simp [goto]

theorem goto_pc_of_ne (s : StackThreads Node α) {t u : Nat} (p : Pc Node α) (hu : u ≠ t) :
    (s.goto t p).pc u = s.pc u := by simp [goto, hu]

@[simp] theorem goto_stack (s : StackThreads Node α) (t : Nat) (p : Pc Node α) :
    (s.goto t p).stack = s.stack := rfl

theorem owner_goto (s : StackThreads Node α) (t : Nat) (p : Pc Node α) :
    (s.goto t p).owner = Function.update s.owner t p.owned := by
  funext u
  by_cases hu : u = t
  · subst hu
    simp [owner]
  · simp [owner, goto_pc_of_ne _ _ hu, hu]

namespace Inv

variable [DecidableEq Node] {x : Timed Node α} {c c' : Head → List Node} {m : LockFreeStack Node α} {clock : Clock}
  {t : Nat} {h : Head} {n top : Node} {p : Pc Node α}

/-- What a step of the thread `t` has to keep. -/
theorem goto (hi : Inv x c) (hlists : Lists m (Function.update x.threads.owner t p.owned) c')
    (htag : ∀ h, (m.head h).tag.toNat = clock.pops h % 2 ^ 16)
    (hpops : ∀ h, x.clock.pops h ≤ clock.pops h)
    (hsame : ∀ h, clock.pops h = x.clock.pops h → ∀ n ∈ c h,
      n ∈ c' h ∧ m.next n = x.threads.stack.next n)
    (hseen : ∀ u, u ≠ t → clock.seen u = x.clock.seen u)
    (hnext : ∀ u n, u ≠ t → x.threads.owner u = some n → m.next n = x.threads.stack.next n)
    (htake : ∀ h q, p.taking = some (h, q) → Valid m.next (c' h) (clock.pops h) (clock.seen t) q)
    (hput : ∀ h n old, p.putting = some (h, n, .linked old) → m.next n = old.ptr) :
    Inv ⟨StackThreads.goto ⟨m, x.threads.pc⟩ t p, clock⟩ c' where
  lists := by
    rw [owner_goto]
    exact hlists
  tag := htag
  take := by
    intro u h q hq
    by_cases hu : u = t
    · subst hu
      rw [goto_pc_self] at hq
      exact htake h q hq
    · rw [goto_pc_of_ne _ _ hu] at hq
      show Valid m.next (c' h) (clock.pops h) (clock.seen u) q
      rw [hseen u hu]
      exact (hi.take u h q hq).mono (hpops h) (hsame h)
  put := by
    intro u h n old hq
    by_cases hu : u = t
    · subst hu
      rw [goto_pc_self] at hq
      exact hput h n old hq
    · rw [goto_pc_of_ne _ _ hu] at hq
      exact (hnext u n hu (Pc.owned_of_putting hq)).trans (hi.put u h n old hq)

/-- A step that reads shared memory, or none. -/
theorem quiet (hi : Inv x c) (hown : p.owned = x.threads.owner t) (hpops : clock.pops = x.clock.pops)
    (hseen : ∀ u, u ≠ t → clock.seen u = x.clock.seen u)
    (htake : ∀ h q, p.taking = some (h, q) →
      Valid x.threads.stack.next (c h) (x.clock.pops h) (clock.seen t) q)
    (hput : ∀ h n old, p.putting = some (h, n, .linked old) → x.threads.stack.next n = old.ptr) :
    Inv ⟨StackThreads.goto ⟨x.threads.stack, x.threads.pc⟩ t p, clock⟩ c := by
  refine hi.goto ?_ ?_ ?_ ?_ hseen (fun _ _ _ _ => rfl) ?_ hput
  · rw [hown, Function.update_eq_self]
    exact hi.lists
  · rw [hpops]
    exact hi.tag
  · rw [hpops]
    exact fun h => Nat.le_refl _
  · exact fun _ _ n hn => ⟨hn, rfl⟩
  · rw [hpops]
    exact htake

/-- A thread loads the head of the list it pops off. -/
theorem load (hi : Inv x c) (hown : x.threads.owner t = none)
    (hp : p.taking = some (h, .loaded (x.threads.stack.head h))) (hput : p.putting = none) :
    Inv ⟨StackThreads.goto ⟨x.threads.stack, x.threads.pc⟩ t p, x.clock.see t h⟩ c := by
  refine hi.quiet ((Pc.owned_of_taking hp).trans hown.symm) rfl ?_ ?_ ?_
  · intro u hu
    simp [Clock.see, hu]
  · intro h' q hq
    rw [hp] at hq
    obtain ⟨rfl, rfl⟩ := Prod.mk.inj (Option.some.inj hq)
    refine ⟨by simp [Clock.see], by simpa [Clock.see] using hi.tag h, fun _ top htop => ?_⟩
    have hlink := hi.lists.linked h
    rw [htop] at hlink
    obtain ⟨rest, hc, -⟩ := hlink.some
    rw [hc]
    exact List.mem_cons_self
  · intro h' n old hq
    rw [hput] at hq
    cases hq

/-- The thread reads the link of the node it loaded. -/
theorem read {tag : BitVec 16} (hi : Inv x c)
    (hq : (x.threads.pc t).taking = some (h, .loaded ⟨some top, tag⟩))
    (hp : p.taking = some (h, .read top tag (x.threads.stack.next top))) (hput : p.putting = none) :
    Inv ⟨StackThreads.goto ⟨x.threads.stack, x.threads.pc⟩ t p, x.clock⟩ c := by
  obtain ⟨hseen, htag, hmem⟩ := hi.take t h _ hq
  refine hi.quiet ((Pc.owned_of_taking hp).trans (Pc.owned_of_taking hq).symm) rfl
    (fun _ _ => rfl) ?_ ?_
  · intro h' q' hq'
    rw [hp] at hq'
    obtain ⟨rfl, rfl⟩ := Prod.mk.inj (Option.some.inj hq')
    exact ⟨hseen, htag, fun heq => ⟨hmem heq top rfl, rfl⟩⟩
  · intro h' n old hq'
    rw [hput] at hq'
    cases hq'

/-- The CAS of a pop, inside the window: the head moves to the rest of the list. -/
theorem took {tag : BitVec 16} {link : Option Node} (hi : Inv x c)
    (hq : (x.threads.pc t).taking = some (h, .read top tag link))
    (hhead : x.threads.stack.head h = ⟨some top, tag⟩)
    (hw : x.clock.pops h < x.clock.seen t + 2 ^ 16) (hown : p.owned = some top)
    (hput : ∀ h n old, p.putting ≠ some (h, n, .linked old)) :
    ∃ rest, c h = top :: rest ∧
      Inv ⟨StackThreads.goto ⟨x.threads.stack.setHead h ⟨link, TaggedPtr.getNextTag ⟨some top, tag⟩⟩,
        x.threads.pc⟩ t p, x.clock.pop h⟩ (Function.update c h rest) := by
  have htag : tag.toNat = x.clock.pops h % 2 ^ 16 := by
    have := hi.tag h
    rwa [hhead] at this
  have hlink := (hi.take t h _ hq).link hw htag
  have hlist := hi.lists.linked h
  rw [hhead] at hlist
  obtain ⟨rest, hc, -⟩ := hlist.some
  have hnext : TaggedPtr.getNextTag ⟨some top, tag⟩ = BitVec.ofNat 16 (x.clock.pops h + 1) := by
    apply BitVec.eq_of_toNat_eq
    show ((tag.toNat + 1) &&& (2 ^ 16 - 1)) % 2 ^ 16 = (x.clock.pops h + 1) % 2 ^ 16
    rw [Nat.and_two_pow_sub_one_eq_mod, htag]
    omega
  refine ⟨rest, hc, hi.goto ?_ ?_ ?_ ?_ (fun _ _ => rfl) (fun _ _ _ _ => rfl) ?_ ?_⟩
  · rw [hown, ← hlink]
    exact hi.lists.pop (Pc.owned_of_taking hq) hc
  · intro h'
    by_cases hh : h' = h
    · subst hh
      simp only [LockFreeStack.setHead, Clock.pop, Function.update_self, hnext, BitVec.toNat_ofNat]
    · simpa [LockFreeStack.setHead, Clock.pop, hh] using hi.tag h'
  · intro h'
    by_cases hh : h' = h
    · subst hh
      simp [Clock.pop]
    · simp [Clock.pop, hh]
  · intro h' heq k hk
    by_cases hh : h' = h
    · subst hh
      simp [Clock.pop] at heq
    · exact ⟨by simpa [hh] using hk, rfl⟩
  · intro h' q' hq'
    rw [Pc.owned_of_taking hq'] at hown
    cases hown
  · intro h' k old hq'
    exact absurd hq' (hput h' k old)

/-- The owner of a node writes its link. -/
theorem link {h : Head} {old : TaggedPtr Node} (hi : Inv x c) (hown : x.threads.owner t = some n)
    (hp : p.putting = some (h, n, .linked old)) :
    Inv ⟨StackThreads.goto ⟨x.threads.stack.setNext n old.ptr, x.threads.pc⟩ t p, x.clock⟩ c := by
  have hpown := Pc.owned_of_putting hp
  refine hi.goto ?_ hi.tag (fun _ => Nat.le_refl _) ?_ (fun _ _ => rfl) ?_ ?_ ?_
  · rw [hpown, ← hown, Function.update_eq_self]
    exact hi.lists.setNext hown _
  · intro h' _ k hk
    exact ⟨hk, Function.update_of_ne (ne_of_mem_of_not_mem hk (hi.lists.not_mem hown h')) _ _⟩
  · intro u k hu hk
    refine Function.update_of_ne ?_ _ _
    rintro rfl
    exact hu (hi.lists.owner_unique hk hown)
  · intro h' q hq
    rw [Pc.owned_of_taking hq] at hpown
    cases hpown
  · intro h' k old' hq
    rw [hp] at hq
    cases hq
    exact Function.update_self _ _ _

/-- The CAS that puts a node on a list. -/
theorem put_cas {old : TaggedPtr Node} (hi : Inv x c)
    (hq : (x.threads.pc t).putting = some (h, n, .linked old)) (hhead : x.threads.stack.head h = old)
    (hown : p.owned = none) (htake : p.taking = none) :
    Inv ⟨StackThreads.goto ⟨x.threads.stack.setHead h ⟨some n, old.tag⟩, x.threads.pc⟩ t p, x.clock⟩
      (Function.update c h (n :: c h)) := by
  have hnext : x.threads.stack.next n = (x.threads.stack.head h).ptr := by
    rw [hhead]
    exact hi.put t h n old hq
  refine hi.goto ?_ ?_ (fun _ => Nat.le_refl _) ?_ (fun _ _ => rfl) (fun _ _ _ _ => rfl) ?_ ?_
  · rw [hown]
    exact hi.lists.push (Pc.owned_of_putting hq) hnext
  · intro h'
    by_cases hh : h' = h
    · subst hh
      have := hi.tag h'
      rw [hhead] at this
      simpa [LockFreeStack.setHead] using this
    · simpa [LockFreeStack.setHead, hh] using hi.tag h'
  · intro h' _ k hk
    refine ⟨?_, rfl⟩
    by_cases hh : h' = h
    · subst hh
      simpa using Or.inr hk
    · simpa [hh] using hk
  · intro h' q hq'
    rw [htake] at hq'
    cases hq'
  · intro h' k old' hq'
    rw [Pc.owned_of_putting hq'] at hown
    cases hown

/-- The element is written to the thread's node. -/
theorem setV (hi : Inv x c) (a : α) (hown : p.owned = x.threads.owner t) (htake : p.taking = none)
    (hput : ∀ h n old, p.putting ≠ some (h, n, .linked old)) :
    Inv ⟨StackThreads.goto ⟨x.threads.stack.setV n a, x.threads.pc⟩ t p, x.clock⟩ c := by
  refine hi.goto ?_ hi.tag (fun _ => Nat.le_refl _) (fun _ _ k hk => ⟨hk, rfl⟩) (fun _ _ => rfl)
    (fun _ _ _ _ => rfl) ?_ ?_
  · rw [hown, Function.update_eq_self]
    exact hi.lists.setV n a
  · intro h q hq
    rw [htake] at hq
    cases hq
  · intro h k old hq
    exact absurd hq (hput h k old)

/-- The allocator returns a node. -/
theorem newNode [Inhabited α] (hi : Inv x c) (hn : n ∉ x.threads.stack.heap)
    (hown : x.threads.owner t = none) (hp : p.owned = some n)
    (hput : ∀ h n old, p.putting ≠ some (h, n, .linked old)) :
    Inv ⟨StackThreads.goto ⟨x.threads.stack.newNode n, x.threads.pc⟩ t p, x.clock⟩ c := by
  refine hi.goto ?_ hi.tag (fun _ => Nat.le_refl _) ?_ (fun _ _ => rfl) ?_ ?_ ?_
  · rw [hp]
    exact hi.lists.newNode hown hn
  · intro h _ k hk
    refine ⟨hk, Function.update_of_ne ?_ _ _⟩
    exact ne_of_mem_of_not_mem (hi.lists.mem_heap (hi.lists.at_list hk)) hn
  · intro u k _ hk
    refine Function.update_of_ne ?_ _ _
    exact ne_of_mem_of_not_mem (hi.lists.mem_heap (hi.lists.at_thread hk)) hn
  · intro h q hq
    rw [Pc.owned_of_taking hq] at hp
    cases hp
  · intro h k old hq
    exact absurd hq (hput h k old)

end Inv

/-! ## The constructed stack -/

variable [DecidableEq Node]

/-- A fresh node is put on the free list. -/
theorem Lists.fill [Inhabited α] {m : LockFreeStack Node α} {c : Head → List Node} {n : Node}
    (hl : Lists m (fun _ => none) c) (hn : n ∉ m.heap) :
    Lists ((m.newNode n).deallocateImplUnsafe n) (fun _ => none)
      (Function.update c .pool (n :: c .pool)) := by
  have hown : Function.update (fun _ : Nat => (none : Option Node)) 0 (some n) 0 = some n :=
    Function.update_self _ _ _
  have hlink := (hl.newNode (t := 0) rfl hn).setNext hown ((m.newNode n).head .pool).ptr
  have hput : Lists ((m.newNode n).deallocateImplUnsafe n) _ _ :=
    hlink.push hown (Function.update_self _ _ _)
  rwa [Function.update_idem, Function.update_eq_self] at hput

theorem create_lists [Inhabited α] (nodes : List Node) (hnodup : nodes.Nodup) :
    ∃ c, Lists (LockFreeStack.create nodes : LockFreeStack Node α) (fun _ => none) c ∧
      c .tos = [] ∧
      (∀ h, ((LockFreeStack.create nodes : LockFreeStack Node α).head h).tag = 0) ∧
      ∀ n, n ∈ (LockFreeStack.create nodes : LockFreeStack Node α).heap ↔ n ∈ nodes := by
  suffices hfill : ∀ (m : LockFreeStack Node α) (c : Head → List Node),
      Lists m (fun _ => none) c → c .tos = [] → (∀ h, (m.head h).tag = 0) →
      (∀ n ∈ nodes, n ∉ m.heap) →
      ∃ c', Lists (nodes.foldl (fun s n => (s.newNode n).deallocateImplUnsafe n) m) (fun _ => none) c' ∧
        c' .tos = [] ∧
        (∀ h, ((nodes.foldl (fun s n => (s.newNode n).deallocateImplUnsafe n) m).head h).tag = 0) ∧
        ∀ n, n ∈ (nodes.foldl (fun s n => (s.newNode n).deallocateImplUnsafe n) m).heap ↔
          n ∈ nodes ∨ n ∈ m.heap by
    have hnone : Lists (⟨[], fun _ => none, fun _ => default, fun _ => ⟨none, 0⟩⟩ : LockFreeStack Node α)
        (fun _ => none) (fun _ => []) := by
      refine ⟨fun h => rfl, fun n hn => absurd hn List.not_mem_nil, fun n _ q => ?_⟩
      cases q <;> simp [held]
    obtain ⟨c', hl, htos, htag, hheap⟩ := hfill _ _ hnone rfl (fun _ => rfl)
      fun n _ => List.not_mem_nil
    refine ⟨c', hl, htos, htag, fun n => ?_⟩
    have := hheap n
    simpa [LockFreeStack.create] using this
  induction nodes with
  | nil =>
    intro m c hl htos htag _
    exact ⟨c, hl, htos, htag, fun n => by simp⟩
  | cons n nodes ih =>
    intro m c hl htos htag hfresh
    obtain ⟨hn, hnodes⟩ := List.nodup_cons.mp hnodup
    have htag1 : ∀ h, (((m.newNode n).deallocateImplUnsafe n).head h).tag = 0 := by
      intro h
      cases h with
      | tos => exact htag .tos
      | pool => exact htag .pool
    have hfresh1 : ∀ k ∈ nodes, k ∉ ((m.newNode n).deallocateImplUnsafe n).heap := by
      intro k hk hmem
      rcases List.mem_cons.mp hmem with rfl | hmem
      · exact hn hk
      · exact hfresh k (List.mem_cons_of_mem _ hk) hmem
    obtain ⟨c', hl', htos', htag', hheap'⟩ := ih hnodes ((m.newNode n).deallocateImplUnsafe n) _
      (hl.fill (hfresh n List.mem_cons_self)) (by simpa using htos) htag1 hfresh1
    refine ⟨c', hl', htos', htag', fun k => ?_⟩
    rw [List.foldl_cons, hheap' k]
    show k ∈ nodes ∨ k ∈ n :: m.heap ↔ _
    rw [List.mem_cons, List.mem_cons]
    tauto

theorem inv_init [Inhabited α] (nodes : List Node) (hnodup : nodes.Nodup) :
    ∃ c, Inv (Timed.init nodes : Timed Node α) c ∧ c .tos = [] := by
  obtain ⟨c, hl, htos, htag, -⟩ := create_lists (α := α) nodes hnodup
  refine ⟨c, ⟨hl, fun h => ?_, fun t h p hp => ?_, fun t h n old hp => ?_⟩, htos⟩
  · show ((LockFreeStack.create nodes : LockFreeStack Node α).head h).tag.toNat = 0 % 2 ^ 16
    rw [htag h]
    rfl
  · cases hp
  · cases hp

end StackThreads

end Us2d
