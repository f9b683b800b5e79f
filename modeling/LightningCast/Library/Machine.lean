import Mathlib.Data.List.Infix
import Mathlib.Data.Option.Basic

-- A machine is a guarded, executable step function: `step s a` is `some s'` if action `a` is enabled
-- in `s`, and `none` otherwise. All nondeterminism is resolved by the action.
structure Machine (σ α : Type*) where
  init : σ
  step : σ → α → Option σ

namespace Machine

variable {σ τ α β : Type*} {m : Machine σ α} {n : Machine τ β}

def exec (m : Machine σ α) (s : σ) : List α → Option σ
  | []      => some s
  | a :: as => (m.step s a).bind (m.exec · as)

@[simp]
theorem exec_nil (s : σ) : m.exec s [] = some s := rfl

theorem exec_append (s : σ) (as bs : List α) :
    m.exec s (as ++ bs) = (m.exec s as).bind (m.exec · bs) := by
  induction as generalizing s
  case nil => rfl
  case cons a as hi =>
    simp only [List.cons_append, exec]
    cases m.step s a
    case none => rfl
    case some s' => exact hi s'

theorem exec_concat (s : σ) (as : List α) (a : α) :
    m.exec s (as ++ [a]) = (m.exec s as).bind (m.step · a) := by
  rw [exec_append]
  congr 1
  funext s'
  cases h : m.step s' a <;> simp [exec, h]

theorem exec_concat_some {s s' : σ} {as : List α} {a : α} :
    m.exec s (as ++ [a]) = some s' ↔ ∃ s₁, m.exec s as = some s₁ ∧ m.step s₁ a = some s' := by
  rw [exec_concat, Option.bind_eq_some_iff]

def Reachable (m : Machine σ α) (s : σ) : Prop :=
  ∃ as, m.exec m.init as = some s

theorem exec_prefix {s s' : σ} {as bs : List α} (h : m.exec s bs = some s') (hp : as <+: bs) :
    ∃ s₁, m.exec s as = some s₁ := by
  obtain ⟨cs, rfl⟩ := hp
  rw [exec_append, Option.bind_eq_some_iff] at h
  obtain ⟨s₁, h, _⟩ := h
  exact ⟨s₁, h⟩

-- A run which has been evaluated reaches a state.
theorem exec_of_any (m : Machine σ α) (as : List α) (p : σ → Bool) (h : (m.exec m.init as).any p) :
    ∃ s, m.exec m.init as = some s ∧ p s := by
  cases he : m.exec m.init as <;> rw [he] at h
  case none   => cases h
  case some s => exact ⟨s, rfl, h⟩

-- Every step of the run `as` is taken in a state which satisfies `C` for that step.
def Meets (m : Machine σ α) (C : σ → α → Prop) (as : List α) : Prop :=
  ∀ bs a s, bs ++ [a] <+: as → m.exec m.init bs = some s → C s a

-- Every state of the run `as`, first and last included, satisfies `P`.
def Always (m : Machine σ α) (P : σ → Prop) (as : List α) : Prop :=
  ∀ bs s, bs <+: as → m.exec m.init bs = some s → P s

-- The same, evaluated from the state `s` on.
def Allows (m : Machine σ α) (C : σ → α → Prop) (s : σ) : List α → Prop
  | []      => True
  | a :: as => C s a ∧ ∀ s' ∈ m.step s a, m.Allows C s' as

instance (m : Machine σ α) (C : σ → α → Prop) [∀ s a, Decidable (C s a)] :
    (s : σ) → (as : List α) → Decidable (m.Allows C s as)
  | _, []      => inferInstanceAs (Decidable True)
  | s, a :: as =>
    have (s' : σ) : Decidable (m.Allows C s' as) := instDecidableAllows m C s' as
    inferInstanceAs (Decidable (C s a ∧ ∀ s' ∈ m.step s a, m.Allows C s' as))

theorem allows_iff {C : σ → α → Prop} {s : σ} {as : List α} :
    m.Allows C s as ↔ ∀ bs a s', bs ++ [a] <+: as → m.exec s bs = some s' → C s' a := by
  induction as generalizing s
  case nil => simp [Allows]
  case cons b as hi =>
    simp only [Allows, hi]
    constructor
    case mp =>
      rintro ⟨hc, h⟩ (_ | ⟨b', bs⟩) a s' hp he
      case nil =>
        obtain ⟨rfl, _⟩ := List.cons_prefix_cons.mp hp
        cases he
        exact hc
      case cons =>
        obtain ⟨rfl, hp'⟩ := List.cons_prefix_cons.mp hp
        have ⟨s₁, hs, he⟩ := Option.bind_eq_some_iff.mp he
        exact h s₁ hs bs a s' hp' he
    case mpr =>
      intro h
      refine ⟨h [] b s (by simp) rfl, fun s₁ hs bs a s' hp he => ?_⟩
      exact h (b :: bs) a s' (List.cons_prefix_cons.mpr ⟨rfl, hp⟩)
        (Option.bind_eq_some_iff.mpr ⟨s₁, hs, he⟩)

instance (m : Machine σ α) (C : σ → α → Prop) [∀ s a, Decidable (C s a)] (as : List α) :
    Decidable (m.Meets C as) :=
  decidable_of_iff (m.Allows C m.init as) allows_iff

namespace Meets

variable {C : σ → α → Prop} {P : σ → Prop} {as : List α}

theorem nil : m.Meets C [] := by
  intro bs a s h
  simp at h

theorem trivial : m.Meets (fun _ _ => True) as :=
  fun _ _ _ _ _ => True.intro

theorem of_forall {C : α → Prop} (h : ∀ a ∈ as, C a) : m.Meets (fun _ => C) as :=
  fun _ a _ hp _ => h a (hp.subset (by simp))

theorem and {D : σ → α → Prop} (hC : m.Meets C as) (hD : m.Meets D as) :
    m.Meets (fun s a => C s a ∧ D s a) as :=
  fun bs a s hp he => ⟨hC bs a s hp he, hD bs a s hp he⟩

theorem mono {D : σ → α → Prop} (hC : m.Meets C as) (h : ∀ s a, C s a → D s a) : m.Meets D as :=
  fun bs a s hp he => h s a (hC bs a s hp he)

-- Every step of a run which reaches a state is taken.
theorem executed {s : σ} (he : m.exec m.init as = some s) :
    m.Meets (fun s a => ∃ s', m.step s a = some s') as := by
  intro bs a s₁ hp h₁
  have ⟨s₂, h₂⟩ := exec_prefix he hp
  have ⟨_, h₁', h⟩ := exec_concat_some.mp h₂
  cases h₁.symm.trans h₁'
  exact ⟨s₂, h⟩

theorem of_prefix {bs : List α} (h : m.Meets C as) (hp : bs <+: as) : m.Meets C bs :=
  fun cs a s hc he => h cs a s (hc.trans hp) he

theorem last {a : α} {s : σ} (h : m.Meets C (as ++ [a])) (he : m.exec m.init as = some s) : C s a :=
  h as a s (List.prefix_refl _) he

theorem concat_iff {a : α} {s : σ} (he : m.exec m.init as = some s) :
    m.Meets C (as ++ [a]) ↔ m.Meets C as ∧ C s a := by
  constructor
  case mp => exact fun h => ⟨h.of_prefix (List.prefix_append ..), h.last he⟩
  case mpr =>
    intro ⟨h, hc⟩ bs b s' hp hb
    cases List.prefix_concat_iff.mp hp
    case inl hp =>
      obtain ⟨rfl, rfl⟩ := List.append_inj' hp rfl |>.imp_right List.singleton_inj.mp
      cases he.symm.trans hb
      exact hc
    case inr hp => exact h bs b s' hp hb

-- The invariant rule for runs whose steps all meet a condition: what holds first and is preserved by
-- every step that meets the condition holds last.
theorem invariant {s : σ} (hC : m.Meets C as) (he : m.exec m.init as = some s) (hinit : P m.init)
    (hstep : ∀ {s a s'}, m.Reachable s → P s → C s a → m.step s a = some s' → P s') : P s := by
  induction as using List.reverseRecOn generalizing s
  case nil =>
    cases he
    exact hinit
  case append_singleton as a hi =>
    have ⟨s₁, he, hs⟩ := exec_concat_some.mp he
    have ⟨hC, hc⟩ := (concat_iff he).mp hC
    exact hstep ⟨as, he⟩ (hi hC he) hc hs

theorem always (hC : m.Meets C as) (hinit : P m.init)
    (hstep : ∀ {s a s'}, m.Reachable s → P s → C s a → m.step s a = some s' → P s') : m.Always P as :=
  fun _ _ hp he => (hC.of_prefix hp).invariant he hinit hstep

end Meets

-- If all states of a run satisfy `P`, so does the state after each step.
theorem Always.next {P : σ → Prop} {s : σ} {as : List α} (h : m.Always P as)
    (he : m.exec m.init as = some s) : m.Meets (fun s a => ∃ s', m.step s a = some s' ∧ P s') as := by
  intro bs a s₁ hp h₁
  have ⟨s₂, h₂⟩ := Meets.executed he bs a s₁ hp h₁
  exact ⟨s₂, h₂, h (bs ++ [a]) s₂ hp (exec_concat_some.mpr ⟨s₁, h₁, h₂⟩)⟩

-- If `C` says of a step that it leads to `P` whatever happens, and `D` says when it does, then `D` is what a
-- run has to meet.
theorem always_and_meets_iff {C D : σ → α → Prop} {P : σ → Prop} {s : σ} {as : List α}
    (he : m.exec m.init as = some s) (hinit : P m.init)
    (hnext : ∀ {s a s'}, C s a → m.step s a = some s' → P s')
    (hiff : ∀ {s a s'}, m.Reachable s → P s → m.step s a = some s' → (C s a ↔ D s a)) :
    (m.Always P as ∧ m.Meets C as) ↔ m.Meets D as := by
  have hmono (ha : m.Always P as) : m.Meets C as ↔ m.Meets D as := by
    refine forall₅_congr fun bs a s₁ hp h₁ => ?_
    have ⟨_, h⟩ := Meets.executed he bs a s₁ hp h₁
    exact hiff ⟨bs, h₁⟩ (ha bs s₁ ((List.prefix_append ..).trans hp) h₁) h
  constructor
  case mp => exact fun ⟨ha, hc⟩ => (hmono ha).mp hc
  case mpr =>
    intro hd
    have ha : m.Always P as := hd.always hinit fun hr i hd h => hnext ((hiff hr i h).mpr hd) h
    exact ⟨ha, (hmono ha).mpr hd⟩

-- The same, where `D` says of each step whether it leads to `P`.
theorem always_iff {D : σ → α → Prop} {P : σ → Prop} {s : σ} {as : List α} (he : m.exec m.init as = some s)
    (hinit : P m.init)
    (hiff : ∀ {s a s'}, m.Reachable s → P s → m.step s a = some s' → (P s' ↔ D s a)) :
    m.Always P as ↔ m.Meets D as := by
  have h : (m.Always P as ∧ m.Meets (fun s a => ∀ s', m.step s a = some s' → P s') as) ↔ m.Meets D as :=
    always_and_meets_iff he hinit (fun hc h => hc _ h) fun hr i h => by simp [h, hiff hr i h]
  refine .trans (and_iff_left_of_imp fun ha bs a s₁ hp h₁ s₂ h₂ => ?_).symm h
  exact ha (bs ++ [a]) s₂ hp (exec_concat_some.mpr ⟨s₁, h₁, h₂⟩)

-- The plain invariant rule.
theorem Reachable.invariant {P : σ → Prop} {s : σ} (h : m.Reachable s) (hinit : P m.init)
    (hstep : ∀ {s a s'}, P s → m.step s a = some s' → P s') : P s :=
  have ⟨_, he⟩ := h
  Meets.trivial.invariant he hinit fun _ hp _ => hstep hp

-- `n` goes from `t` to `t'` by the given action, or stands still if there is none.
def Follows (n : Machine τ β) (t t' : τ) : Option β → Prop
  | none   => t' = t
  | some b => n.step t b = some t'

-- Each step of `m` is a run of `n`, and so is each run.
theorem exec_flatMap {f : σ → τ} {g : α → List β}
    (h : ∀ {s a s'}, m.step s a = some s' → n.exec (f s) (g a) = some (f s')) {s s' : σ} {as : List α}
    (he : m.exec s as = some s') : n.exec (f s) (as.flatMap g) = some (f s') := by
  induction as generalizing s
  case nil =>
    cases he
    rfl
  case cons a as hi =>
    have ⟨s₁, hs, he⟩ := Option.bind_eq_some_iff.mp he
    rw [List.flatMap_cons, exec_append, h hs]
    exact hi he

-- A simulation maps each step of `m` from a reachable state to one step of `n` or to none.
structure Simulation (m : Machine σ α) (n : Machine τ β) where
  state : σ → τ
  act   : σ → α → Option β
  init  : state m.init = n.init
  step  : ∀ {s a s'}, m.Reachable s → m.step s a = some s' → n.Follows (state s) (state s') (act s a)

namespace Simulation

variable (f : Simulation m n)

theorem exec {as : List α} {s : σ} (he : m.exec m.init as = some s) {C : σ → α → Prop}
    {D : τ → β → Prop} (hC : m.Meets C as) (hD : ∀ {s a b}, C s a → f.act s a = some b → D (f.state s) b) :
    ∃ bs, n.exec n.init bs = some (f.state s) ∧ n.Meets D bs := by
  induction as using List.reverseRecOn generalizing s
  case nil =>
    cases he
    exact ⟨[], by simp [f.init], .nil⟩
  case append_singleton as a hi =>
    have ⟨s₁, he, hs⟩ := exec_concat_some.mp he
    have ⟨hC, hc⟩ := (Meets.concat_iff he).mp hC
    have ⟨bs, hb, hm⟩ := hi he hC
    have hf := f.step ⟨as, he⟩ hs
    cases ha : f.act s₁ a <;> rw [ha] at hf
    case none   => exact ⟨bs, hb.trans (congrArg some hf.symm), hm⟩
    case some b =>
      exact ⟨bs ++ [b], exec_concat_some.mpr ⟨_, hb, hf⟩, (Meets.concat_iff hb).mpr ⟨hm, hD hc ha⟩⟩

theorem reachable {s : σ} : m.Reachable s → n.Reachable (f.state s)
  | ⟨_, he⟩ =>
    have ⟨bs, hb, _⟩ := f.exec he (D := fun _ _ => True) Meets.trivial fun _ _ => True.intro
    ⟨bs, hb⟩

end Simulation

-- `m` beside a record of its run, which is kept by `note` and does not interfere.
def observe {γ : Type*} (m : Machine σ α) (g : γ) (note : σ → α → γ → γ) : Machine (σ × γ) α where
  init   := (m.init, g)
  step s a := (m.step s.1 a).map (·, note s.1 a s.2)

section

variable {γ : Type*} {g : γ} {note : σ → α → γ → γ}

theorem step_observe {s s' : σ × γ} {a : α} : (m.observe g note).step s a = some s' ↔
    m.step s.1 a = some s'.1 ∧ note s.1 a s.2 = s'.2 := by
  cases s'
  simp [observe]

-- What is observed is a run of `m`, and every run of `m` can be observed.
theorem exec_observe {s : σ} {as : List α} : m.exec m.init as = some s ↔
    ∃ g', (m.observe g note).exec (m.observe g note).init as = some (s, g') := by
  induction as using List.reverseRecOn generalizing s
  case nil => simp [exec, observe]
  case append_singleton as a hi =>
    simp only [exec_concat_some, Prod.exists, step_observe, hi]
    constructor
    case mp  => exact fun ⟨s₁, ⟨g₁, he⟩, hs⟩ => ⟨note s₁ a g₁, s₁, g₁, he, hs, rfl⟩
    case mpr => exact fun ⟨_, s₁, g₁, he, hs, _⟩ => ⟨s₁, ⟨g₁, he⟩, hs⟩

-- A simulation carries the record of the one machine over to the other.
def Simulation.observe (f : Simulation m n) (g : γ) (note : τ → β → γ → γ) :
    Simulation (m.observe g fun s a g' => (f.act s a).elim g' (note (f.state s) · g')) (n.observe g note) where
  state s := (f.state s.1, s.2)
  act s   := f.act s.1
  init    := Prod.ext f.init rfl
  step {s a s'} hr h := by
    obtain ⟨as, he⟩ := hr
    obtain ⟨h, hn⟩ := step_observe.mp h
    have hf := f.step ⟨as, exec_observe.mpr ⟨s.2, he⟩⟩ h
    cases ha : f.act s.1 a <;> rw [ha] at hf hn
    case none   => exact Prod.ext hf hn.symm
    case some b => exact step_observe.mpr ⟨hf, hn⟩

end

end Machine
