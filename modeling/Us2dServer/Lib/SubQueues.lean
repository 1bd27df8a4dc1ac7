import Mathlib.Data.Multiset.AddSub
import Mathlib.Data.List.Perm.Basic
import Mathlib.Logic.Function.Basic

/-!
# Queues made of one FIFO sub-queue for each producer

A producer appends to its own sub-queue; a consumer removes the head of a sub-queue of its
choice.  The bag of waiting items only ever gains a pushed item and loses a removed one
(`contents_push`, `contents_removeHead`).  Order is kept inside a sub-queue and nowhere else:
the items that satisfy `p` leave in the order in which they came as long as, at every push of
such an item, no other sub-queue holds one (`Ordered`, `Ordered.push`, `Ordered.removeHead`).
-/

/-- Sub-queues by producer; `producers` lists those that ever pushed, latest first. -/
structure SubQueues (α : Type) where
  producers : List Nat
  items : Nat → List α
  nodup : producers.Nodup
  closed : ∀ t, t ∉ producers → items t = []

namespace SubQueues

variable {α : Type}

def empty : SubQueues α := ⟨[], fun _ => [], List.nodup_nil, fun _ _ => rfl⟩

/-- Append to the sub-queue of `t`, which joins the list on its first push. -/
def push (q : SubQueues α) (t : Nat) (a : α) : SubQueues α where
  producers := if t ∈ q.producers then q.producers else t :: q.producers
  items := Function.update q.items t (q.items t ++ [a])
  nodup := by
    split
    · exact q.nodup
    · exact List.nodup_cons.mpr ⟨‹_›, q.nodup⟩
  closed := by
    intro u hu
    have hut : u ≠ t ∧ u ∉ q.producers := by
      split at hu
      · exact ⟨fun h => hu (h ▸ ‹_›), hu⟩
      · exact ⟨fun h => hu (h ▸ List.mem_cons_self), fun h => hu (List.mem_cons_of_mem _ h)⟩
    rw [Function.update_of_ne hut.1, q.closed u hut.2]

/-- Remove the head of the sub-queue of `t`. -/
def removeHead (q : SubQueues α) (t : Nat) : Option (α × SubQueues α) :=
  match h : q.items t with
  | [] => none
  | a :: rest => some (a, {
      producers := q.producers
      items := Function.update q.items t rest
      nodup := q.nodup
      closed := by
        intro u hu
        by_cases hut : u = t
        · rw [← hut, q.closed u hu] at h; cases h
        · rw [Function.update_of_ne hut, q.closed u hu] })

@[simp] theorem push_items (q : SubQueues α) (t : Nat) (a : α) :
    (q.push t a).items = Function.update q.items t (q.items t ++ [a]) := rfl

theorem removeHead_eq_some {q q' : SubQueues α} {t : Nat} {a : α} (h : q.removeHead t = some (a, q')) :
    ∃ rest, q.items t = a :: rest ∧ q'.items = Function.update q.items t rest ∧
      q'.producers = q.producers := by
  unfold removeHead at h
  split at h
  · cases h
  · next b rest hb =>
    simp only [Option.some.injEq, Prod.mk.injEq] at h
    obtain ⟨rfl, rfl⟩ := h
    exact ⟨rest, hb, rfl, rfl⟩

theorem removeHead_isSome {q : SubQueues α} {t : Nat} (h : q.items t ≠ []) :
    (q.removeHead t).isSome := by
  unfold removeHead
  split
  · exact absurd ‹_› h
  · rfl

/-! ## The bag of waiting items -/

/-- All waiting items, without their order. -/
def contents (q : SubQueues α) : Multiset α := q.producers.flatMap q.items

/-- The items that wait outside the sub-queue of `t`. -/
def others (q : SubQueues α) (t : Nat) : Multiset α := (q.producers.erase t).flatMap q.items

theorem contents_eq (q : SubQueues α) (t : Nat) : q.contents = (q.items t : Multiset α) + q.others t := by
  unfold contents others
  rw [Multiset.coe_add, Multiset.coe_eq_coe]
  by_cases ht : t ∈ q.producers
  · exact (List.perm_cons_erase ht).flatMap_right q.items
  · rw [List.erase_of_not_mem ht, q.closed t ht, List.nil_append]

theorem flatMap_update_of_notMem {l : List Nat} {f : Nat → List α} {t : Nat} (v : List α)
    (h : t ∉ l) : l.flatMap (Function.update f t v) = l.flatMap f := by
  apply List.flatMap_congr
  intro u hu
  have hut : u ≠ t := by rintro rfl; exact h hu
  exact Function.update_of_ne hut _ _

theorem others_push (q : SubQueues α) (t : Nat) (a : α) : (q.push t a).others t = q.others t := by
  have ht : t ∉ q.producers.erase t := fun h => (q.nodup.mem_erase_iff.mp h).1 rfl
  have hp : (q.push t a).producers.erase t = q.producers.erase t := by
    show (if t ∈ q.producers then _ else _ : List Nat).erase t = _
    split
    · rfl
    · next hn => rw [List.erase_cons_head, List.erase_of_not_mem hn]
  unfold others
  rw [hp, push_items, flatMap_update_of_notMem _ ht]

theorem contents_push (q : SubQueues α) (t : Nat) (a : α) :
    (q.push t a).contents = a ::ₘ q.contents := by
  rw [contents_eq _ t, contents_eq q t, others_push, push_items, Function.update_self,
    ← Multiset.coe_add, ← Multiset.cons_add]
  congr 1
  rw [Multiset.coe_add, Multiset.cons_coe, Multiset.coe_eq_coe]
  exact List.perm_append_singleton a (q.items t)

theorem contents_removeHead {q q' : SubQueues α} {t : Nat} {a : α}
    (h : q.removeHead t = some (a, q')) : q.contents = a ::ₘ q'.contents := by
  obtain ⟨rest, hi, hi', hp⟩ := removeHead_eq_some h
  have ht : t ∉ q.producers.erase t := fun h => (q.nodup.mem_erase_iff.mp h).1 rfl
  have ho : q'.others t = q.others t := by
    unfold others
    rw [hp, hi', flatMap_update_of_notMem _ ht]
  rw [contents_eq q t, contents_eq q' t, ho, hi, hi', Function.update_self, ← Multiset.cons_coe,
    Multiset.cons_add]

theorem mem_contents {q : SubQueues α} {a : α} : a ∈ q.contents ↔ ∃ t, a ∈ q.items t := by
  constructor
  · intro h
    obtain ⟨t, -, ha⟩ := List.mem_flatMap.mp (Multiset.mem_coe.mp h)
    exact ⟨t, ha⟩
  · rintro ⟨t, h⟩
    rw [contents_eq q t]
    exact Multiset.mem_add.mpr (Or.inl h)

/-! ## Order of the items of one kind -/

/-- No sub-queue but that of `t` holds an item of the kind `p`. -/
def OnlyAt (p : α → Bool) (q : SubQueues α) (t : Nat) : Prop :=
  ∀ u, u ≠ t → (q.items u).filter p = []

/-- `out` and then the one sub-queue that holds items of the kind `p` list these items in the
order of `inp`. -/
def Ordered (p : α → Bool) (q : SubQueues α) (inp out : List α) : Prop :=
  ∃ t, OnlyAt p q t ∧ inp.filter p = out.filter p ++ (q.items t).filter p

variable {p : α → Bool} {q q' : SubQueues α} {inp out : List α} {t : Nat} {a : α}

theorem ordered_empty : Ordered p (empty : SubQueues α) [] [] := ⟨0, fun _ _ => rfl, rfl⟩

theorem Ordered.push (h : Ordered p q inp out) (hp : p a = true → OnlyAt p q t) :
    Ordered p (q.push t a) (inp ++ [a]) out := by
  obtain ⟨u, hu, ho⟩ := h
  by_cases hpa : p a = true
  · -- an item of the kind: the pushing producer holds all of them from now on
    have hall : inp.filter p = out.filter p ++ (q.items t).filter p := by
      by_cases htu : t = u
      · rw [htu, ho]
      · rw [hu t htu, ho, hp hpa u (Ne.symm htu)]
    refine ⟨t, fun v hv => ?_, ?_⟩
    · rw [push_items, Function.update_of_ne hv]; exact hp hpa v hv
    · simp [hall, hpa]
  · have hfilter : ∀ v, ((q.push t a).items v).filter p = (q.items v).filter p := by
      intro v
      by_cases hv : v = t
      · subst hv; simp [hpa]
      · rw [push_items, Function.update_of_ne hv]
    refine ⟨u, fun v hv => (hfilter v).trans (hu v hv), ?_⟩
    rw [hfilter u, ← ho]
    simp [hpa]

theorem Ordered.removeHead (h : Ordered p q inp out) (hr : q.removeHead t = some (a, q')) :
    Ordered p q' inp (out ++ [a]) := by
  obtain ⟨u, hu, ho⟩ := h
  obtain ⟨rest, hi, hi', -⟩ := removeHead_eq_some hr
  have hkeep : ∀ v, v ≠ t → (q'.items v).filter p = (q.items v).filter p := by
    intro v hv
    rw [hi', Function.update_of_ne hv]
  have hhead : (q'.items t).filter p = rest.filter p := by rw [hi', Function.update_self]
  by_cases htu : t = u
  · subst htu
    refine ⟨t, fun v hv => (hkeep v hv).trans (hu v hv), ?_⟩
    rw [ho, hi, hhead, ← List.filter_append, ← List.filter_append, List.append_assoc,
      List.singleton_append]
  · -- the sub-queue served holds no item of the kind
    have hnil := hu t htu
    rw [hi, List.filter_eq_nil_iff] at hnil
    refine ⟨u, fun v hv => ?_, ?_⟩
    · by_cases hvt : v = t
      · subst hvt
        rw [hhead, List.filter_eq_nil_iff]
        exact fun b hb => hnil b (List.mem_cons_of_mem _ hb)
      · rw [hkeep v hvt, hu v hv]
    · rw [hkeep u (Ne.symm htu), ho, List.filter_append]
      simp [hnil a List.mem_cons_self]

/-- The items of the kind that have left are the first ones that came. -/
theorem Ordered.isPrefix (h : Ordered p q inp out) : out.filter p <+: inp.filter p := by
  obtain ⟨t, -, ho⟩ := h
  exact ⟨_, ho.symm⟩

end SubQueues
