import Mathlib.Logic.Basic

variable {ε σ α β τ : Type}

namespace Except

theorem bind_eq_ok_iff {x : Except ε α} {f : α → Except ε β} {b : β} :
    x >>= f = .ok b ↔ ∃ a, x = .ok a ∧ f a = .ok b := by
  cases x <;> simp [bind, Except.bind]

theorem ite_eq_ok_iff {p : Prop} [Decidable p] {a b : α} {e : ε} :
    (if p then .ok a else .error e) = Except.ok b ↔ p ∧ a = b := by
  by_cases h : p <;> simp [h]

end Except

-- Stateful code which can throw. What it has done to the state before an exception is not undone.
abbrev Throwing (ε σ : Type) := ExceptT ε (StateM σ)

namespace Throwing

variable {x : Throwing ε σ α} {s : σ} {P : α → σ → Prop}

-- The code returns, with a value and a state in `P`. The rules are equivalences, so that they decide
-- whether code meets a specification.
def Returns (x : Throwing ε σ α) (s : σ) (P : α → σ → Prop) : Prop :=
  match x.run.run s with
  | (.ok a, s')   => P a s'
  | (.error _, _) => False

theorem run_bind {f : α → Throwing ε σ β} : (x >>= f).run.run s =
    match x.run.run s with
    | (.ok a, s')    => (f a).run.run s'
    | (.error e, s') => (.error e, s') := by
  simp only [ExceptT.run_bind, StateT.run_bind]
  match x.run.run s with
  | (.ok _, _)    => rfl
  | (.error _, _) => rfl

namespace Returns

@[simp]
theorem pure_iff {a : α} : Returns (pure a : Throwing ε σ α) s P ↔ P a s :=
  Iff.rfl

@[simp]
theorem get_iff {P : σ → σ → Prop} : Returns (get : Throwing ε σ σ) s P ↔ P s s :=
  Iff.rfl

@[simp]
theorem modify_iff {f : σ → σ} {P : PUnit → σ → Prop} :
    Returns (modify f : Throwing ε σ PUnit) s P ↔ P ⟨⟩ (f s) :=
  Iff.rfl

@[simp]
theorem bind_iff {f : α → Throwing ε σ β} {P : β → σ → Prop} :
    Returns (x >>= f) s P ↔ Returns x s fun a s' => Returns (f a) s' P := by
  unfold Returns
  rw [run_bind]
  match x.run.run s with
  | (.ok _, _)    => rfl
  | (.error _, _) => rfl

@[simp]
theorem map_iff {f : α → β} {P : β → σ → Prop} :
    Returns (f <$> x) s P ↔ Returns x s fun a s' => P (f a) s' := by
  rw [← bind_pure_comp, bind_iff]
  rfl

-- The value of a computation which only can throw.
theorem lift_iff {y : Except ε α} :
    Returns (liftM y : Throwing ε σ α) s P ↔ ∃ a, y = .ok a ∧ P a s := by
  match y with
  | .ok a    => exact ⟨fun h => ⟨a, rfl, h⟩, fun ⟨_, rfl, h⟩ => h⟩
  | .error _ => exact ⟨False.elim, nofun⟩

-- An update which is left out where it changes nothing.
theorem ite_modify_iff {p : Prop} [Decidable p] {f : σ → σ} {P : PUnit → σ → Prop} (h : p → f s = s) :
    Returns (if p then pure ⟨⟩ else modify f : Throwing ε σ PUnit) s P ↔ P ⟨⟩ (f s) := by
  split
  case isTrue hp => rw [pure_iff, h hp]
  case isFalse => exact modify_iff

end Returns

-- However the code ends, it leaves `v` of the state as it was.
def Keeps (v : σ → τ) (x : Throwing ε σ α) : Prop :=
  ∀ s, v (x.run.run s).2 = v s

namespace Keeps

variable {v : σ → τ}

theorem pure (a : α) : Keeps v (pure a : Throwing ε σ α) :=
  fun _ => rfl

theorem lift (y : Except ε α) : Keeps v (liftM y : Throwing ε σ α) := by
  cases y <;> exact fun _ => rfl

theorem modify {f : σ → σ} (h : ∀ s, v (f s) = v s) : Keeps v (modify f : Throwing ε σ PUnit) :=
  h

theorem bind {f : α → Throwing ε σ β} (hx : Keeps v x) (hf : ∀ a, Keeps v (f a)) :
    Keeps v (x >>= f) := by
  intro s
  rw [run_bind, ← hx s]
  match x.run.run s with
  | (.ok a, s')   => exact hf a s'
  | (.error _, _) => rfl

end Keeps

end Throwing
