import Us2dServer.Tcp
import Us2dServer.Lib.SharedLock

/-!
# The methods of `ts_map` under its lock

`TsMap.body` has the accesses of the methods to `map_data`: `map_data[key] = value` makes an
entry with the default value before it assigns, and what `find` returns is read through an
iterator.  Under `map_mutex` no other thread sees the default entry or takes the entry of an
iterator away, and each method is one step of the map of `TsMap.apply`.
-/

namespace Us2d

open Transition AtomicObject SharedLock

inductive MapOp (κ ν : Type)
  | insert (key : κ) (value : ν)
  | get (key : κ)
  | find (key : κ)
  | erase (key : κ)
  | contains (key : κ)
deriving DecidableEq, Repr

inductive MapRes (ν : Type)
  | done
  /-- of `get`: `out_value`, if it returns `true` -/
  | got (outValue : Option ν)
  | found (value : ν)
  | contained (b : Bool)
deriving DecidableEq, Repr

/-- The next access of a method to `map_data`. -/
inductive MapPc (κ ν : Type)
  | subscript (key : κ) (value : ν)
  | assign (key : κ) (value : ν)
  | getFind (key : κ)
  | getSecond (key : κ)
  | findFind (key : κ)
  | findSecond (key : κ)
  | erase (key : κ)
  | containsFind (key : κ)
deriving DecidableEq, Repr

namespace TsMap

variable {κ ν : Type} [DecidableEq κ]

/-- `map_data[key]`. -/
def subscript [Inhabited ν] (key : κ) (m : TsMap κ ν) : TsMap κ ν :=
  match m.find key with
  | some _ => m
  | none => m.insert key default

/-- One access.  To use a reference or an iterator whose entry is gone is undefined. -/
def access [Inhabited ν] : MapPc κ ν → TsMap κ ν → Option (TsMap κ ν × (MapPc κ ν ⊕ MapRes ν))
  | .subscript key value, m => some (m.subscript key, .inl (.assign key value))
  | .assign key value, m => (m.find key).map fun _ => (m.insert key value, .inr .done)
  | .getFind key, m =>
    match m.find key with
    | some _ => some (m, .inl (.getSecond key))
    | none => some (m, .inr (.got none))
  | .getSecond key, m => (m.find key).map fun value => (m, .inr (.got (some value)))
  | .findFind key, m =>
    match m.find key with
    | some _ => some (m, .inl (.findSecond key))
    | none => some (m, .inr (.found default))
  | .findSecond key, m => (m.find key).map fun value => (m, .inr (.found value))
  | .erase key, m => some (m.erase key, .inr .done)
  | .containsFind key, m => some (m, .inr (.contained (m.find key).isSome))

/-- `unique_lock` and `scoped_lock` lock exclusively, `shared_lock` does not. -/
def body [Inhabited ν] : SharedLock.Body (TsMap κ ν) (MapOp κ ν) (MapPc κ ν) (MapRes ν) where
  writes
    | .insert _ _ => true
    | .erase _ => true
    | _ => false
  start
    | .insert key value => .subscript key value
    | .get key => .getFind key
    | .find key => .findFind key
    | .erase key => .erase key
    | .contains key => .containsFind key
  micro := access

/-- The methods as operations on the map. -/
def apply [Inhabited ν] (m : TsMap κ ν) : MapOp κ ν → TsMap κ ν × MapRes ν
  | .insert key value => (m.insert key value, .done)
  | .get key => (m, .got (m.find key))
  | .find key => (m, .found ((m.find key).getD default))
  | .erase key => (m.erase key, .done)
  | .contains key => (m, .contained (m.find key).isSome)

variable [Inhabited ν] {m y : TsMap κ ν} {op : MapOp κ ν} {pc : MapPc κ ν} {key : κ} {value : ν}

theorem find_subscript (key : κ) (m : TsMap κ ν) : (m.subscript key).find key ≠ none := by
  unfold subscript
  split
  · next v hv => simp [hv]
  · simp [find_insert]

/-- The default entry is overwritten. -/
theorem insert_subscript (key : κ) (value : ν) (m : TsMap κ ν) :
    (m.subscript key).insert key value = m.insert key value := by
  unfold subscript
  split
  · rfl
  · simp [insert]

/-- Where a method is, and the map there, alone with the map since it was `m`. -/
inductive Reached (m : TsMap κ ν) : MapOp κ ν → MapPc κ ν → TsMap κ ν → Prop
  | start (op : MapOp κ ν) : Reached m op (body.start op) m
  | assign (key : κ) (value : ν) :
      Reached m (.insert key value) (.assign key value) (m.subscript key)
  | getSecond (key : κ) (h : m.find key ≠ none) : Reached m (.get key) (.getSecond key) m
  | findSecond (key : κ) (h : m.find key ≠ none) : Reached m (.find key) (.findSecond key) m

/-- An access goes on to the next one, or it is the last and the method has done its work. -/
theorem Reached.access (h : Reached m op pc y) : ∃ z k, access pc y = some (z, k) ∧
    (body.writes op = false → z = y) ∧
    match k with
    | .inl pc' => Reached m op pc' z
    | .inr r => apply m op = (z, r) := by
  cases h with
  | start op =>
    cases op with
    | insert key value => exact ⟨_, _, rfl, fun hw => (by cases hw), .assign key value⟩
    | get key =>
      cases hf : m.find key with
      | none =>
        exact ⟨m, .inr (.got none), by simp [body, TsMap.access, hf], fun _ => rfl,
          by simp [apply, hf]⟩
      | some v =>
        exact ⟨m, .inl (.getSecond key), by simp [body, TsMap.access, hf], fun _ => rfl,
          .getSecond key (by simp [hf])⟩
    | find key =>
      cases hf : m.find key with
      | none =>
        exact ⟨m, .inr (.found default), by simp [body, TsMap.access, hf], fun _ => rfl,
          by simp [apply, hf]⟩
      | some v =>
        exact ⟨m, .inl (.findSecond key), by simp [body, TsMap.access, hf], fun _ => rfl,
          .findSecond key (by simp [hf])⟩
    | erase key => exact ⟨_, _, rfl, fun hw => (by cases hw), rfl⟩
    | contains key => exact ⟨_, _, rfl, fun _ => rfl, rfl⟩
  | assign key value =>
    obtain ⟨v, hv⟩ := Option.ne_none_iff_exists'.mp (find_subscript key m)
    refine ⟨m.insert key value, .inr .done, ?_, fun hw => (by cases hw), rfl⟩
    simp [TsMap.access, hv, insert_subscript]
  | getSecond key hk =>
    obtain ⟨v, hv⟩ := Option.ne_none_iff_exists'.mp hk
    exact ⟨m, .inr (.got (some v)), by simp [TsMap.access, hv], fun _ => rfl, by simp [apply, hv]⟩
  | findSecond key hk =>
    obtain ⟨v, hv⟩ := Option.ne_none_iff_exists'.mp hk
    exact ⟨m, .inr (.found v), by simp [TsMap.access, hv], fun _ => rfl, by simp [apply, hv]⟩

theorem reached_of_after (h : After body op m pc y) : Reached m op pc y := by
  induction h with
  | start => exact .start op
  | step h hm ih =>
    obtain ⟨z, k, hz, -, hk⟩ := ih.access
    rw [show body.micro _ _ = some (z, k) from hz] at hm
    cases hm
    exact hk

theorem body_implements : Implements (body (κ := κ) (ν := ν)) apply where
  defined := by
    intro op m pc y h
    obtain ⟨z, k, hz, -⟩ := (reached_of_after h).access
    exact ⟨z, k, hz⟩
  result := by
    intro op m pc y z r h hm
    obtain ⟨z', k, hz, -, hk⟩ := (reached_of_after h).access
    rw [show body.micro pc y = some (z', k) from hz] at hm
    cases hm
    exact hk
  reads := by
    intro op m pc y z k hw h hm
    obtain ⟨z', k', hz, hread, -⟩ := (reached_of_after h).access
    rw [show body.micro pc y = some (z', k') from hz] at hm
    cases hm
    exact hread hw

/-- **The methods are atomic.**  In every run of any number of threads: what is observed is
observed of the atomic map, whose entries are those of the map whenever no writer is at work;
a writer is at work alone; no thread that is inside finds the entry of its iterator or reference
gone; and as long as a thread is in a method, some thread that is in one can step. -/
theorem map_atomic (m : TsMap κ ν) (as : List (SharedLock.Action (MapOp κ ν)))
    (s : SharedLock.State (TsMap κ ν) (MapOp κ ν) (MapPc κ ν) (MapRes ν))
    (os : List (Observed (MapOp κ ν) (MapRes ν)))
    (h : trace (SharedLock.act body) (SharedLock.init m) as = some (s, os)) :
    (∃ bs b, trace (AtomicObject.act apply) (AtomicObject.idle m) bs = some (b, os) ∧
      ((∀ t op pc, s.phase t = .inside op pc → body.writes op = false) → s.obj = b.obj)) ∧
    (∀ t u op op' pc pc', s.phase t = .inside op pc → s.phase u = .inside op' pc' → t ≠ u →
      body.writes op = false ∧ body.writes op' = false) ∧
    (∀ t op pc, s.phase t = .inside op pc → SharedLock.act body s (.work t) ≠ none) ∧
    (∀ t, s.phase t ≠ .idle → ∃ u, s.phase u ≠ .idle ∧ (SharedLock.act body s (.lock u) ≠ none ∨
      SharedLock.act body s (.work u) ≠ none ∨ SharedLock.act body s (.unlock u) ≠ none)) := by
  obtain ⟨bs, b, hbs, hsim⟩ := trace_atomic body_implements h
  refine ⟨⟨bs, b, hbs, fun hall => (hsim.obj hall).symm⟩, fun t u op op' pc pc' ht hu htu => ?_,
    fun t op pc hp => work_defined body_implements hsim hp,
    fun t ht => exists_enabled body_implements hsim ht⟩
  have hheld : (s.phase t).held = some op := by rw [ht]; rfl
  have hheld' : (s.phase u).held = some op' := by rw [hu]; rfl
  constructor
  · by_contra hw
    exact htu (hsim.lock.alone hheld (by simpa using hw) hheld').symm
  · by_contra hw
    exact htu (hsim.lock.alone hheld' (by simpa using hw) hheld)

/-- Thread 2 waits with its `get` while thread 1 has made the default entry. -/
def overlapRun : List (SharedLock.Action (MapOp UInt32 Nat)) :=
  [.call 1 (.insert 7 9), .call 2 (.get 7), .lock 1, .work 1, .work 1, .unlock 1, .lock 2, .work 2,
    .work 2, .unlock 2]

theorem map_atomic_overlap : ∃ bs b,
    trace (AtomicObject.act apply) (AtomicObject.idle (TsMap.empty (κ := UInt32) (ν := Nat))) bs =
      some (b, [.called 1 (.insert 7 9), .called 2 (.get 7), .returned 1 .done,
        .returned 2 (.got (some 9))]) := by
  have hrun : (trace (SharedLock.act body) (SharedLock.init (TsMap.empty)) overlapRun).map Prod.snd =
      some [.called 1 (.insert 7 9), .called 2 (.get 7), .returned 1 .done,
        .returned 2 (.got (some 9))] := by
    decide +kernel
  obtain ⟨⟨s, os⟩, hs, rfl⟩ := Option.map_eq_some_iff.mp hrun
  obtain ⟨⟨bs, b, hbs, -⟩, -⟩ := map_atomic TsMap.empty overlapRun s _ hs
  exact ⟨bs, b, hbs⟩

end TsMap

end Us2d
