import Mathlib.Logic.Basic

/-!
# Computations that log what they read

`Reads α` gives a value together with the scalars read on the way to it; `OptionT Reads α` may
also fail, and then the log says what was read up to the failure.  `Spec x P Q` says that all
reads of `x` satisfy `P`, whether it fails or not, and its value, if there is one, satisfies `Q`.
-/

namespace Us2d

/-- A read of a scalar: where it starts, and its bytes. -/
structure Read where
  offset : Nat
  size : Nat
deriving DecidableEq, Repr

structure Reads (α : Type) where
  value : α
  reads : List Read
deriving DecidableEq, Repr

namespace Reads

variable {α β : Type} {P : Read → Prop}

instance : Monad Reads where
  pure a := ⟨a, []⟩
  bind x f := ⟨(f x.value).value, x.reads ++ (f x.value).reads⟩

@[simp] theorem pure_value (a : α) : (pure a : Reads α).value = a := rfl

@[simp] theorem pure_reads (a : α) : (pure a : Reads α).reads = [] := rfl

@[simp] theorem bind_value (x : Reads α) (f : α → Reads β) :
    (x >>= f).value = (f x.value).value := rfl

@[simp] theorem bind_reads (x : Reads α) (f : α → Reads β) :
    (x >>= f).reads = x.reads ++ (f x.value).reads := rfl

@[simp] theorem discard_reads (x : Reads α) : (discard x : Reads PUnit).reads = x.reads :=
  List.append_nil x.reads

/-- All reads satisfy `P`. -/
def All (x : Reads α) (P : Read → Prop) : Prop := ∀ r ∈ x.reads, P r

theorem all_pure (a : α) : (pure a : Reads α).All P := fun _ h => absurd h List.not_mem_nil

theorem all_bind {x : Reads α} {f : α → Reads β} :
    (x >>= f).All P ↔ x.All P ∧ (f x.value).All P := by
  simp only [All, bind_reads, List.mem_append]
  exact ⟨fun h => ⟨fun r hr => h r (Or.inl hr), fun r hr => h r (Or.inr hr)⟩,
    fun h r hr => hr.elim (h.1 r) (h.2 r)⟩

/-! ## With failure -/

/-- Goes on only if `b`. -/
def check (b : Bool) : OptionT Reads Unit := if b then pure () else failure

def Spec (x : OptionT Reads α) (P : Read → Prop) (Q : α → Prop) : Prop :=
  x.run.All P ∧ ∀ a, x.run.value = some a → Q a

variable {Q Q' : α → Prop} {R : β → Prop}

theorem spec_pure {a : α} (h : Q a) : Spec (pure a) P Q := by
  refine ⟨all_pure _, fun b hb => ?_⟩
  cases hb
  exact h

theorem spec_bind {x : OptionT Reads α} {f : α → OptionT Reads β} (hx : Spec x P Q)
    (hf : ∀ a, Q a → Spec (f a) P R) : Spec (x >>= f) P R := by
  unfold Spec
  rw [OptionT.run_bind, Option.elimM, all_bind, bind_value]
  cases hv : x.run.value with
  | none => exact ⟨⟨hx.1, all_pure _⟩, fun b hb => by cases hb⟩
  | some a => exact ⟨⟨hx.1, (hf a (hx.2 a hv)).1⟩, (hf a (hx.2 a hv)).2⟩

theorem spec_lift {x : Reads α} (h : x.All P) : Spec (liftM x : OptionT Reads α) P (· = x.value) := by
  refine ⟨all_bind.mpr ⟨h, all_pure _⟩, fun a ha => ?_⟩
  exact (Option.some.inj ha).symm

theorem spec_check (b : Bool) : Spec (check b) P fun _ => b = true := by
  cases b with
  | true => exact spec_pure rfl
  | false => exact ⟨all_pure none, fun _ h => by cases h⟩

theorem Spec.mono {x : OptionT Reads α} (h : Spec x P Q) (hq : ∀ a, Q a → Q' a) : Spec x P Q' :=
  ⟨h.1, fun a ha => hq a (h.2 a ha)⟩

/-! ### Success -/

/-- `x` succeeds with `a`. -/
def Gives (x : OptionT Reads α) (a : α) : Prop := x.run.value = some a

theorem gives_pure {a b : α} : Gives (pure a) b ↔ a = b := Option.some_inj

theorem gives_bind {x : OptionT Reads α} {f : α → OptionT Reads β} {b : β} :
    Gives (x >>= f) b ↔ ∃ a, Gives x a ∧ Gives (f a) b := by
  unfold Gives
  rw [OptionT.run_bind, Option.elimM, bind_value]
  cases hv : x.run.value with
  | none => exact ⟨(nomatch ·), fun ⟨_, h, _⟩ => nomatch h⟩
  | some a => exact ⟨fun h => ⟨a, rfl, h⟩, fun ⟨_, ha, h⟩ => Option.some.inj ha ▸ h⟩

theorem gives_lift {x : Reads α} {a : α} : Gives (liftM x : OptionT Reads α) a ↔ x.value = a :=
  Option.some_inj

theorem gives_check {b : Bool} {u : Unit} : Gives (check b) u ↔ b = true := by
  cases b with
  | true => exact iff_of_true rfl rfl
  | false => exact iff_of_false (nomatch ·) (nomatch ·)

theorem gives_check_decide {p : Prop} [Decidable p] {u : Unit} : Gives (check (decide p)) u ↔ p :=
  gives_check.trans decide_eq_true_iff

/-- A step without a value of its own. -/
theorem gives_bind_unit {x : OptionT Reads Unit} {f : Unit → OptionT Reads β} {b : β} :
    Gives (x >>= f) b ↔ Gives x () ∧ Gives (f ()) b :=
  gives_bind.trans ⟨fun ⟨_, h⟩ => h, fun h => ⟨(), h⟩⟩

theorem gives_bind_lift {x : Reads α} {f : α → OptionT Reads β} {b : β} :
    Gives ((liftM x : OptionT Reads α) >>= f) b ↔ Gives (f x.value) b :=
  gives_bind.trans ⟨fun ⟨_, ha, h⟩ => gives_lift.mp ha ▸ h, fun h => ⟨_, gives_lift.mpr rfl, h⟩⟩

end Reads

end Us2d
