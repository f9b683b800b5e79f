import Mathlib.Data.Finset.Card

-- A loop which goes from place to place and puts something out at each of them.
namespace Walk

section

variable {α β : Type} (next : α → Option (β × α))

-- The place after `n` rounds, if there are as many.
def place : Nat → α → Option α
  | 0, a     => some a
  | n + 1, a => (next a).bind fun s => place n s.2

-- What the loop puts out, if its condition is tested no more than `n` times.
def run : Nat → α → Option (List β)
  | 0, _     => none
  | n + 1, a =>
    match next a with
    | none        => some []
    | some (b, a) => (run n a).map (b :: ·)

end

variable {α β : Type} {next : α → Option (β × α)} {a b : α} {n m : Nat}

theorem run_of_next {c : β} (h : next a = some (c, b)) : run next (n + 1) a = (run next n b).map (c :: ·) := by
  rw [run, h]

theorem run_eq_none_iff : run next n a = none ↔ place next n a ≠ none := by
  induction n generalizing a
  case zero => simp [run, place]
  case succ n hi => cases h : next a <;> simp [run, place, h, hi]

theorem place_add : place next (n + m) a = (place next n a).bind (place next m) := by
  induction n generalizing a
  case zero => simp [place]
  case succ n hi =>
    rw [Nat.add_right_comm]
    cases h : next a <;> simp [place, h, hi]

theorem place_le (h : n ≤ m) (hm : place next m a ≠ none) : place next n a ≠ none := by
  obtain ⟨k, rfl⟩ := Nat.exists_eq_add_of_le h
  intro hn
  simp [place_add, hn] at hm

theorem run_of_le (h : n ≤ m) {bs : List β} (hn : run next n a = some bs) : run next m a = some bs := by
  induction n generalizing m a bs
  case zero => cases hn
  case succ n hi =>
    obtain ⟨m, rfl⟩ := Nat.exists_eq_add_of_le' (Nat.one_le_of_lt h)
    unfold run at hn ⊢
    split at hn
    case h_1 => exact hn
    case h_2 b a ha =>
      obtain ⟨cs, hr, rfl⟩ := Option.map_eq_some_iff.mp hn
      rw [hi (Nat.le_of_succ_le_succ h) hr, Option.map_some]

-- A loop which comes back to a place does so again and again.
theorem forever_of_revisit {i j : Nat} (hij : i < j) (hp : place next i a = place next j a)
    (hj : place next j a ≠ none) (n : Nat) : place next n a ≠ none := by
  induction n using Nat.strongRecOn
  case ind n hi =>
    by_cases hn : n ≤ j
    case pos => exact place_le hn hj
    case neg =>
      -- The round `n` is as the one which is `j - i` rounds earlier.
      have hb : place next n a = place next (i + (n - j)) a := by
        rw [place_add, hp, ← place_add]
        congr
        omega
      exact hb ▸ hi _ (by omega)

-- If it can go on from finitely many places only, it ends before it has been to all of them and to one of
-- them again, or it never ends.
theorem revisit_of_card_lt [DecidableEq α] {s : Finset α} (hs : ∀ b, next b ≠ none → b ∈ s)
    (h : place next (s.card + 1) a ≠ none) :
    ∃ i j, i < j ∧ place next i a = place next j a ∧ place next j a ≠ none := by
  have hp : ∀ i ∈ Finset.range (s.card + 1), place next i a ∈ s.image some := by
    intro i hi
    have hi : i + 1 ≤ s.card + 1 := Finset.mem_range.mp hi
    obtain ⟨b, hb⟩ := Option.ne_none_iff_exists'.mp (place_le (Nat.le_of_succ_le hi) h)
    refine hb ▸ Finset.mem_image_of_mem some (hs b fun hn => place_le hi h ?_)
    rw [place_add, hb, Option.bind_some, place, hn, Option.bind_none]
  have hc : (s.image some).card < (Finset.range (s.card + 1)).card := by
    rw [Finset.card_range]
    exact Nat.lt_succ_of_le Finset.card_image_le
  have hsome {i : Nat} (hi : i ∈ Finset.range (s.card + 1)) : place next i a ≠ none :=
    place_le (Nat.le_of_lt (Finset.mem_range.mp hi)) h
  obtain ⟨i, hi, j, hj, hne, he⟩ := Finset.exists_ne_map_eq_of_card_lt_of_maps_to hc hp
  rcases Nat.lt_or_gt_of_ne hne with hlt | hlt
  · exact ⟨i, j, hlt, he, hsome hj⟩
  · exact ⟨j, i, hlt, he.symm, hsome hi⟩

theorem run_card_eq_none_iff [DecidableEq α] {s : Finset α} (hs : ∀ b, next b ≠ none → b ∈ s) :
    run next (s.card + 1) a = none ↔ ∀ n, run next n a = none := by
  simp only [run_eq_none_iff]
  constructor
  case mp =>
    intro h
    obtain ⟨i, j, hij, hp, hj⟩ := revisit_of_card_lt hs h
    exact forever_of_revisit hij hp hj
  case mpr => exact fun h => h _

theorem forever_iff_revisit [DecidableEq α] {s : Finset α} (hs : ∀ b, next b ≠ none → b ∈ s) :
    (∀ n, run next n a = none) ↔
      ∃ i j, i < j ∧ place next i a = place next j a ∧ place next j a ≠ none := by
  simp only [run_eq_none_iff]
  constructor
  case mp  => exact fun h => revisit_of_card_lt hs (h _)
  case mpr => exact fun ⟨_, _, hij, hp, hj⟩ => forever_of_revisit hij hp hj

end Walk
