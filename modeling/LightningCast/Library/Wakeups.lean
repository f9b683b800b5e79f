import LightningCast.Library.Mailbox
import Mathlib.Data.Finset.Card

-- Which notifications reach the threads for which they are meant.
namespace Mailbox

variable {T : Type} [DecidableEq T] {h t : T} {w : Option T} {ws : Finset T} {m : Mailbox T} {c : Cmd}

theorem woken_subset : woken ws w ⊆ ws := by
  cases w
  case none   => exact subset_rfl
  case some t => exact Finset.erase_subset t ws

theorem woken_eq_empty (hw : Wakes ws w) : woken ws w = ∅ ↔ ws.card ≤ 1 := by
  cases w
  case none   => simp [woken, show ws = ∅ from hw]
  case some t =>
    have ht : 0 < ws.card := Finset.card_pos.mpr ⟨t, hw⟩
    rw [woken, ← Finset.card_eq_zero, Finset.card_erase_of_mem hw]
    omega

-- The threads which are blocked on `condSync` are at places where a thread waits for the handler.
def CallersWait {C : Type} (Waits : C → Prop) (places : T → C) (m : Mailbox T) : Prop :=
  ∀ t ∈ m.condSync, Waits (places t)

namespace CallersWait

variable {C : Type} {Waits : C → Prop} {places places' : T → C} {c : C} {m' : Mailbox T}

omit [DecidableEq T] in
theorem mono (i : m.CallersWait Waits places) (hp : places' = places) (hs : m'.condSync ⊆ m.condSync) :
    m'.CallersWait Waits places' :=
  fun t ht => hp ▸ i t (hs ht)

omit [DecidableEq T] in
-- A thread elsewhere is not blocked.
theorem free (i : m.CallersWait Waits places) (hc : places t = c) (hn : ¬Waits c) : t ∉ m.condSync :=
  fun ht => hn (hc ▸ i t ht)

-- The thread `t`, which is not blocked, goes to the place `c`. It may block only there.
theorem goto (i : m.CallersWait Waits places) (hn : t ∉ m.condSync) (hp : places' = Function.update places t c)
    (hs : m'.condSync ⊆ m.condSync ∨ m'.condSync ⊆ insert t m.condSync ∧ Waits c) :
    m'.CallersWait Waits places' := by
  intro u hu
  rw [hp, Function.update_apply]
  split
  case isTrue he =>
    rcases hs with hs | ⟨_, hc⟩
    · exact absurd (he ▸ hs hu) hn
    · exact hc
  case isFalse hne =>
    rcases hs with hs | ⟨hs, _⟩
    · exact i u (hs hu)
    · exact i u ((Finset.mem_insert.mp (hs hu)).resolve_left hne)

end CallersWait

-- A thread which is sure to be woken is the only one which is blocked.
theorem not_mem_woken_iff : (∀ w, Wakes ws w → h ∉ woken ws w) ↔ (h ∈ ws → ws.card ≤ 1) := by
  constructor
  case mp =>
    intro hw hm
    have hall : ∀ t ∈ ws, h = t := by
      intro t ht
      by_contra hne
      exact hw (some t) ht (Finset.mem_erase.mpr ⟨hne, hm⟩)
    exact Finset.card_le_one.mpr fun t ht u hu => (hall t ht).symm.trans (hall u hu)
  case mpr =>
    intro hc w hw hm
    have hh := woken_subset hm
    cases w
    case none   => simp [show ws = ∅ from hw] at hh
    case some t =>
      have ht : h = t := Finset.card_le_one.mp (hc hh) h hh t hw
      simp [ht, woken] at hm

-- Nobody stays blocked for sure if and only if at most one thread is.
theorem woken_eq_empty_iff : (∀ w, Wakes ws w → woken ws w = ∅) ↔ ws.card ≤ 1 := by
  constructor
  case mp =>
    intro hw
    by_contra hc
    obtain ⟨h, hm⟩ := Finset.card_pos.mp (by omega : 0 < ws.card)
    exact hc <| (woken_eq_empty (w := some h) hm).mp (hw (some h) hm)
  case mpr => exact fun hc w hw => (woken_eq_empty hw).mpr hc

-- No thread is blocked while what it waits for is there, the handler `h` for `ready` and the others for
-- `readySync`.
structure AllWoken (h : T) (m : Mailbox T) : Prop where
  ready     : m.ready → h ∉ m.cond
  readySync : m.readySync → m.condSync = ∅

-- The command in the slot is one of which the handler's region finishes the call.
def Finishes (m : Mailbox T) : Prop :=
  m.cmd = .CLOSE ∨ m.cmd = .EXIT

instance (m : Mailbox T) : Decidable m.Finishes :=
  inferInstanceAs (Decidable (_ ∨ _))

theorem AllWoken.spurious (i : m.AllWoken h) : (m.spurious t).AllWoken h where
  ready hr hm    := i.ready hr (Finset.mem_of_mem_erase hm)
  readySync hr   := by simp [Mailbox.spurious, i.readySync hr]

theorem AllWoken.await (i : m.AllWoken h) (hr : ¬m.readySync) : (m.await t).AllWoken h where
  ready       := i.ready
  readySync h := absurd h hr

theorem AllWoken.sleep (i : m.AllWoken h) : (m.sleep h).AllWoken h where
  ready hr  := by simp [Mailbox.sleep] at hr
  readySync := i.readySync

theorem allWoken_post_iff :
    (∀ w, Wakes m.cond w → (m.post c w).AllWoken h) ↔ (h ∈ m.cond → m.cond.card ≤ 1) := by
  rw [← not_mem_woken_iff]
  refine forall₂_congr fun w _ => ⟨fun i => i.ready rfl, fun hm => ⟨fun _ => hm, ?_⟩⟩
  simp

theorem AllWoken.finishCmd_iff (i : m.AllWoken h) :
    (∀ w, Wakes m.condSync w → (m.finishCmd w).AllWoken h) ↔ m.condSync.card ≤ 1 := by
  rw [← woken_eq_empty_iff]
  exact forall₂_congr fun w _ => ⟨fun i => i.readySync rfl, fun he => ⟨i.ready, fun _ => he⟩⟩

theorem AllWoken.handle_iff (i : m.AllWoken h) :
    (∀ w, m.HandleWakes w → (m.handle h w).1.AllWoken h) ↔ (m.Finishes → m.condSync.card ≤ 1) := by
  cases hc : m.cmd <;> simp only [HandleWakes, Finishes, handle, hc, reduceCtorEq, or_self, or_true, true_or,
    if_true, if_false, false_imp_iff, true_imp_iff, iff_true]
  case NONE => exact fun _ _ => i.sleep
  case OPEN => exact fun _ _ => i
  case EXIT => exact i.finishCmd_iff
  case CLOSE =>
    rw [← i.finishCmd_iff]
    refine forall₂_congr fun w _ => ⟨fun j => ?_, AllWoken.sleep⟩
    exact ⟨i.ready, j.readySync⟩

theorem AllWoken.resume_iff (i : m.AllWoken h) :
    (∀ w, m.ResumeWakes w → (m.resume h w).1.AllWoken h) ↔
      (m.ready → m.Finishes → m.condSync.card ≤ 1) := by
  cases hr : m.ready <;> simp only [ResumeWakes, resume, hr, Bool.false_eq_true, if_true, if_false,
    false_imp_iff, true_imp_iff, iff_true]
  case false =>
    intro _ _
    exact ⟨fun hr' => by simp at hr', i.readySync⟩
  case true =>
    have i' : ({ m with ready := false } : Mailbox T).AllWoken h := ⟨fun hr => by simp at hr, i.readySync⟩
    exact i'.handle_iff

-- What the region does in which the handler leaves.
structure Exits (m : Mailbox T) (r : Mailbox T × Turn) : Prop where
  turn     : r.2 = .exit
  finished : r.1.Finished
  woken    : ∃ w, Wakes m.condSync w ∧ r.1.condSync = Mailbox.woken m.condSync w

theorem handle_exits (hc : m.cmd = .EXIT) (hw : m.HandleWakes w) : Exits m (m.handle h w) := by
  have hw : Wakes m.condSync w := by simpa [HandleWakes, hc] using hw
  rw [handle, hc]
  exact ⟨rfl, ⟨rfl, rfl⟩, w, hw, rfl⟩

theorem resume_exits (hr : m.ready) (hc : m.cmd = .EXIT) (hw : m.ResumeWakes w) : Exits m (m.resume h w) := by
  rw [resume, if_pos hr]
  rw [ResumeWakes, if_pos hr] at hw
  have he : Exits { m with ready := false } (Mailbox.handle h w { m with ready := false }) := handle_exits hc hw
  exact ⟨he.turn, he.finished, he.woken⟩

-- What a region of the handler `h` can do to the blocked threads: only `h` itself can block in it.
structure Blocks (h : T) (m : Mailbox T) (r : Mailbox T × Turn) : Prop where
  cond     : r.1.cond ⊆ insert h m.cond
  condSync : r.1.condSync ⊆ m.condSync
  handler  : h ∈ r.1.cond → h ∈ m.cond ∨ r.2 = .wait

theorem handle_blocks : Blocks h m (m.handle h w) := by
  cases hc : m.cmd <;> simp only [handle, hc]
  case NONE  => exact ⟨subset_rfl, subset_rfl, fun _ => .inr rfl⟩
  case OPEN  => exact ⟨Finset.subset_insert .., subset_rfl, .inl⟩
  case CLOSE => exact ⟨subset_rfl, woken_subset, fun _ => .inr rfl⟩
  case EXIT  => exact ⟨Finset.subset_insert .., woken_subset, .inl⟩

theorem resume_blocks : Blocks h m (m.resume h w) := by
  cases hr : m.ready <;> simp only [resume, hr, Bool.false_eq_true, if_true, if_false]
  case false => exact ⟨subset_rfl, subset_rfl, fun _ => .inr rfl⟩
  case true =>
    have hb : Blocks h { m with ready := false } (Mailbox.handle h w { m with ready := false }) :=
      handle_blocks
    exact ⟨hb.cond, hb.condSync, hb.handler⟩

end Mailbox
