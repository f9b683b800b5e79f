import Mathlib.Data.Finset.Card
import Mathlib.Data.List.Infix
import Mathlib.Logic.Relation

-- Lists without repetitions which grow at the end, also while a loop goes through them.
namespace Worklist

section

variable {α : Type} [DecidableEq α]

def add (l : List α) (a : α) : List α :=
  if a ∈ l then l else l ++ [a]

def addAll (l as : List α) : List α :=
  as.foldl add l

-- A loop over the list from the index `i` on, which adds what `f` gives for each element to the same list.
-- It tests its condition no more than `n` times.
def run (f : α → List α) : Nat → Nat → List α → Option (List α)
  | 0, _, _     => none
  | n + 1, i, l =>
    match l[i]? with
    | none   => some l
    | some a => run f n (i + 1) (addAll l (f a))

-- `b` is in `l`, or there is a chain from an element of `l` to it.
def Reaches (f : α → List α) (l : List α) (b : α) : Prop :=
  ∃ a ∈ l, Relation.ReflTransGen (fun a b => b ∈ f a) a b

end

variable {α : Type} [DecidableEq α] {f : α → List α} {l l' as bs : List α} {a b : α} {n i : Nat}

theorem add_of_notMem (h : a ∉ l) : add l a = l ++ [a] :=
  if_neg h

theorem mem_add : b ∈ add l a ↔ b ∈ l ∨ b = a := by
  unfold add
  split
  case isTrue ha =>
    refine (or_iff_left_of_imp ?_).symm
    rintro rfl
    exact ha
  case isFalse => simp

theorem add_nodup (h : l.Nodup) : (add l a).Nodup := by
  unfold add
  split
  case isTrue     => exact h
  case isFalse ha => simpa [List.nodup_append] using ⟨h, fun b hb he => ha (he ▸ hb)⟩

theorem prefix_add : l <+: add l a := by
  unfold add
  split
  case isTrue  => exact List.prefix_refl l
  case isFalse => exact List.prefix_append ..

@[simp]
theorem addAll_nil : addAll l [] = l :=
  rfl

@[simp]
theorem addAll_cons : addAll l (a :: as) = addAll (add l a) as :=
  rfl

theorem addAll_append : addAll l (as ++ bs) = addAll (addAll l as) bs :=
  List.foldl_append

theorem mem_addAll : b ∈ addAll l as ↔ b ∈ l ∨ b ∈ as := by
  induction as generalizing l
  case nil            => simp
  case cons a as hi => rw [addAll_cons, hi, mem_add, or_assoc, List.mem_cons]

theorem addAll_nodup (h : l.Nodup) : (addAll l as).Nodup := by
  induction as generalizing l
  case nil          => exact h
  case cons a as hi => exact hi (add_nodup h)

theorem prefix_addAll : l <+: addAll l as := by
  induction as generalizing l
  case nil          => exact List.prefix_refl l
  case cons a as hi => exact prefix_add.trans hi

theorem addAll_of_disjoint (h : as.Nodup) (hd : ∀ a ∈ as, a ∉ l) : addAll l as = l ++ as := by
  induction as generalizing l
  case nil => simp
  case cons a as hi =>
    obtain ⟨ha, h⟩ := List.nodup_cons.mp h
    obtain ⟨hl, hd⟩ := List.forall_mem_cons.mp hd
    rw [addAll_cons, add_of_notMem hl, hi h, List.append_assoc, List.singleton_append]
    simp only [List.mem_append, List.mem_singleton, not_or]
    exact fun b hb => ⟨hd b hb, fun he => ha (he ▸ hb)⟩

-- The loop handles every element from `i` on, those included which it adds itself.
theorem run_closed (h : run f n i l = some l') :
    l <+: l' ∧ ∀ j a, i ≤ j → l'[j]? = some a → ∀ b ∈ f a, b ∈ l' := by
  induction n generalizing i l
  case zero => cases h
  case succ n hi =>
    unfold run at h
    split at h
    case h_1 hl =>
      cases h
      refine ⟨List.prefix_refl _, fun j a hij hj => ?_⟩
      simp [List.getElem?_eq_none ((List.getElem?_eq_none_iff.mp hl).trans hij)] at hj
    case h_2 a ha =>
      obtain ⟨hp, hc⟩ := hi h
      refine ⟨prefix_addAll.trans hp, fun j b hij hj => ?_⟩
      rcases Nat.eq_or_lt_of_le hij with rfl | hlt
      · obtain ⟨t, rfl⟩ := prefix_addAll.trans hp
        rw [List.getElem?_append_left (List.getElem?_eq_some_iff.mp ha).1, ha] at hj
        cases hj
        exact fun c hc => hp.subset (mem_addAll.mpr (.inr hc))
      · exact hc j b hlt hj

theorem run_nodup (h : run f n i l = some l') (hl : l.Nodup) : l'.Nodup := by
  induction n generalizing i l
  case zero => cases h
  case succ n hi =>
    unfold run at h
    split at h
    case h_1 => exact Option.some.inj h ▸ hl
    case h_2 => exact hi h (addAll_nodup hl)

-- Nothing is added which is not reached.
theorem run_invariant {P : α → Prop} (hf : ∀ a, P a → ∀ b ∈ f a, P b) (h : run f n i l = some l')
    (hl : ∀ a ∈ l, P a) : ∀ a ∈ l', P a := by
  induction n generalizing i l
  case zero => cases h
  case succ n hi =>
    unfold run at h
    split at h
    case h_1 => exact Option.some.inj h ▸ hl
    case h_2 a ha =>
      refine hi h fun b hb => ?_
      rcases mem_addAll.mp hb with hb | hb
      · exact hl b hb
      · exact hf a (hl a (List.mem_of_getElem? ha)) b hb

theorem mem_run_iff (h : run f n 0 l = some l') : b ∈ l' ↔ Reaches f l b := by
  constructor
  case mp =>
    refine run_invariant (P := Reaches f l) ?_ h (fun a ha => ⟨a, ha, .refl⟩) b
    exact fun a ⟨c, hc, hr⟩ b hb => ⟨c, hc, hr.tail hb⟩
  case mpr =>
    rintro ⟨a, ha, hr⟩
    obtain ⟨hp, hc⟩ := run_closed h
    induction hr
    case refl => exact hp.subset ha
    case tail c d _ hd hi =>
      obtain ⟨j, hj⟩ := List.mem_iff_getElem?.mp hi
      exact hc j c (Nat.zero_le j) hj d hd

-- If all elements come from a finite set, the loop ends.
theorem run_ne_none {s : Finset α} (hf : ∀ a ∈ s, ∀ b ∈ f a, b ∈ s) (hl : ∀ a ∈ l, a ∈ s) (hn : l.Nodup)
    (hi : i ≤ l.length) (h : s.card < n + i) : run f n i l ≠ none := by
  have hlen {l : List α} (hl : ∀ a ∈ l, a ∈ s) (hn : l.Nodup) : l.length ≤ s.card := by
    rw [← List.toFinset_card_of_nodup hn]
    exact Finset.card_le_card fun a ha => hl a (List.mem_toFinset.mp ha)
  induction n generalizing i l
  case zero =>
    have := hlen hl hn
    omega
  case succ n ih =>
    unfold run
    split
    case h_1 => exact Option.some_ne_none l
    case h_2 a ha =>
      have hlt := (List.getElem?_eq_some_iff.mp ha).1
      refine ih (fun b hb => ?_) (addAll_nodup hn) (hlt.trans_le prefix_addAll.length_le) (by omega)
      rcases mem_addAll.mp hb with hb | hb
      · exact hl b hb
      · exact hf a (hl a (List.mem_of_getElem? ha)) b hb

end Worklist
