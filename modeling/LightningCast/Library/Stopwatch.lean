import Mathlib.Data.List.Infix

-- A stopwatch over a sequence of timed events. It restarts at those which are marked.
namespace Stopwatch

section

variable {α : Type} (time : α → Int) (marks : α → Bool)

-- The time of the last event, or `t` if there is none.
def finish (t : Int) (as : List α) : Int :=
  as.foldl (fun _ a => time a) t

-- The time of the last marked event, or `t` if there is none.
def last (t : Int) (as : List α) : Int :=
  as.foldl (fun t a => if marks a then time a else t) t

-- Time does not run backwards.
def Ordered (t : Int) (as : List α) : Prop :=
  ∀ bs a, bs ++ [a] <+: as → finish time t bs ≤ time a

end

variable {α : Type} {time : α → Int} {marks : α → Bool} {t : Int} {as bs : List α} {a : α}

@[simp]
theorem finish_concat : finish time t (as ++ [a]) = time a := by
  simp [finish]

@[simp]
theorem last_concat : last time marks t (as ++ [a]) = if marks a then time a else last time marks t as := by
  simp [last]

theorem Ordered.of_prefix (h : Ordered time t as) (hp : bs <+: as) : Ordered time t bs :=
  fun cs a hc => h cs a (hc.trans hp)

theorem last_append (h : ∀ b ∈ bs, ¬marks b) : last time marks t (as ++ bs) = last time marks t as := by
  induction bs using List.reverseRecOn
  case nil => simp
  case append_singleton bs b hi =>
    have hb : ¬marks b := h b (by simp)
    rw [← List.append_assoc, last_concat, if_neg hb]
    exact hi fun c hc => h c (by simp [hc])

theorem last_le_finish (h : Ordered time t as) : last time marks t as ≤ finish time t as := by
  induction as using List.reverseRecOn
  case nil => exact Int.le_refl t
  case append_singleton as a hi =>
    have hl := hi (h.of_prefix (List.prefix_append ..))
    have ht := h as a (List.prefix_refl _)
    rw [last_concat, finish_concat]
    split <;> omega

-- The last restart, and the events since.
theorem last_eq_finish (as : List α) :
    ∃ bs cs, as = bs ++ cs ∧ (∀ c ∈ cs, ¬marks c) ∧ last time marks t as = finish time t bs := by
  induction as using List.reverseRecOn
  case nil => exact ⟨[], [], rfl, by simp, rfl⟩
  case append_singleton as a hi =>
    by_cases ha : marks a
    case pos => exact ⟨as ++ [a], [], by simp, by simp, by simp [ha]⟩
    case neg =>
      obtain ⟨bs, cs, rfl, hc, hl⟩ := hi
      refine ⟨bs, cs ++ [a], by simp, ?_, by rw [last_concat, if_neg ha, hl]⟩
      exact List.forall_mem_append.mpr ⟨hc, List.forall_mem_singleton.mpr ha⟩

-- The stopwatch never shows more than `d` if and only if no series of unmarked events takes longer than
-- that, together with the event which ends it.
theorem within_iff {d : Int} (h : Ordered time t as) :
    (∀ bs a, bs ++ [a] <+: as → time a - last time marks t bs ≤ d) ↔
      ∀ bs cs a, bs ++ cs ++ [a] <+: as → (∀ c ∈ cs, ¬marks c) → time a - finish time t bs ≤ d := by
  constructor
  case mp =>
    intro hl bs cs a hp hc
    have hb : bs <+: as := (List.prefix_append bs (cs ++ [a])).trans (by simpa using hp)
    have hle : last time marks t bs ≤ finish time t bs := last_le_finish (h.of_prefix hb)
    have hd := hl (bs ++ cs) a hp
    rw [last_append hc] at hd
    omega
  case mpr =>
    intro hf ds a hp
    have ⟨bs, cs, hds, hc, hl⟩ : ∃ bs cs, ds = bs ++ cs ∧ (∀ c ∈ cs, ¬marks c) ∧
        last time marks t ds = finish time t bs := last_eq_finish ds
    subst hds
    rw [hl]
    exact hf bs cs a hp hc

end Stopwatch
