import LightningCast.LightningCastClient.Theorems.Commands
import LightningCast.LightningCastClient.Theorems.Wakeups

namespace LightningCastClient

open Mailbox (Wakes)

theorem HandlerPc.ofTurn_eq_returned : {t : Mailbox.Turn} → (ofTurn t = .returned ↔ t = .exit)
  | .doOpen | .wait | .exit => by simp [ofTurn]

-- `handle` finds `EXIT` in the slot, and returns.
def Act.takesExit (s : State) : Act → Bool
  | .handle _ => s.cast.cmd = .EXIT
  | .resume _ => s.cast.ready ∧ s.cast.cmd = .EXIT
  | _         => false

-- The server thread enters `Open`.
def Act.begins : Act → Bool
  | .openCall _ => true
  | _           => false

-- `Open` is not entered after `handle` has returned, and when it returns, the server thread is not on its
-- way to a command in `Open`.
def Timely (s : State) (a : Act) : Prop :=
  (a.begins → s.handler ≠ .returned) ∧ (a.takesExit s → ∀ c ∈ s.call .server, c = .wait)

instance (s : State) (a : Act) : Decidable (Timely s a) :=
  inferInstanceAs (Decidable ((_ → _) ∧ (_ → ∀ _ ∈ _, _)))

namespace State

-- When `handle` has returned, every thread in `Open`, `Close` or `Exit` has been told that its command is
-- finished, and posts no other.
def StrandsNobody (s : State) : Prop :=
  s.handler = .returned → ∀ t c, s.call t = some c → c = .wait ∧ t ∉ s.cast.condSync ∧ s.cast.Finished

-- `EXIT` is in the slot, or has been taken from it.
def Exiting (s : State) : Prop :=
  s.cast.cmd = .EXIT ∨ s.handler = .returned

variable {s s' : State} {a : Act}

theorem turn_exiting {r : Mailbox Thread × Mailbox.Turn} (h : Mailbox.Handles s.cast.toMailbox r.1 r.2)
    (he : (s.turn r).Exiting) : s.cast.cmd = .EXIT :=
  h.exiting (he.imp_right HandlerPc.ofTurn_eq_returned.mp)

-- Only `Exit` leads to `EXIT`.
theorem exiting_step (h : LightningCastClient.step s a = some s') (he : s'.Exiting) :
    s.Exiting ∨ ∃ w, a = .exit w := by
  cases a <;> simp only [LightningCastClient.step, Option.ite_none_right_eq_some, Option.some.injEq] at h <;>
    obtain ⟨hg, rfl⟩ := h
  case exit w   => exact .inr ⟨w, rfl⟩
  case handle w => exact .inl <| .inl <| turn_exiting (Mailbox.handle_handles ..) he
  case resume w => exact .inl <| .inl <| turn_exiting (Mailbox.resume_handles ..) he
  case socket | resolve | connect => split at he <;> simp_all [Exiting, fail]
  case loop | timeout | checkWake => split at he <;> simp_all [Exiting]
  case doRead wake msg => cases msg <;> simp_all [Exiting]
  all_goals simp_all [Exiting, openCmd, close, lockFinishCmd, setIsOpen]

-- Until the main thread has left `Exit`, the handler runs, and has no `EXIT` to find.
def ExitedFirst (s : State) : Prop :=
  s.Exiting → s.main.Exited

theorem main_step (h : LightningCastClient.step s a = some s') (he : s.main.Exited) : s'.main.Exited := by
  cases a <;> simp only [LightningCastClient.step, Option.ite_none_right_eq_some, Option.some.injEq] at h <;>
    obtain ⟨hg, rfl⟩ := h
  case exitCall => simp [hg, MainPc.Exited] at he
  case exit | snapcastExit | serverExit => trivial
  case socket | resolve | connect => split <;> exact he
  all_goals exact he

theorem ExitedFirst.step (i : s.ExitedFirst) (h : LightningCastClient.step s a = some s') :
    s'.ExitedFirst := by
  intro he
  rcases exiting_step h he with he | ⟨w, rfl⟩
  · exact main_step h (i he)
  · simp only [LightningCastClient.step, Option.ite_none_right_eq_some, Option.some.injEq] at h
    obtain ⟨_, rfl⟩ := h
    trivial

-- The step at which `handle` returns.
theorem takesExit_step (h : LightningCastClient.step s a = some s') (ht : a.takesExit s) :
    s.cast.cmd = .EXIT ∧ s.handler ≠ .returned ∧ s'.handler = .returned ∧ s'.call = s.call ∧
      s'.cast.Finished ∧
      ∃ w, Wakes s.cast.condSync w ∧ s'.cast.condSync = Mailbox.woken s.cast.condSync w := by
  cases a <;> simp only [Act.takesExit, decide_eq_true_eq, Bool.false_eq_true] at ht <;>
    simp only [LightningCastClient.step, Option.ite_none_right_eq_some, Option.some.injEq] at h <;>
    obtain ⟨hg, rfl⟩ := h
  case handle w =>
    obtain ⟨ht', hf, hw⟩ := Mailbox.handle_exits ht hg.right
    exact ⟨ht, by simp [hg], HandlerPc.ofTurn_eq_returned.mpr ht', rfl, hf, hw⟩
  case resume w =>
    obtain ⟨ht', hf, hw⟩ := Mailbox.resume_exits ht.left ht.right hg.right.right
    exact ⟨ht.right, by simp [hg], HandlerPc.ofTurn_eq_returned.mpr ht', rfl, hf, hw⟩

theorem returned_of_step (h : LightningCastClient.step s a = some s') (hd : s'.handler = .returned) :
    s.handler = .returned ∨ a.takesExit s := by
  cases a <;> simp only [LightningCastClient.step, Option.ite_none_right_eq_some, Option.some.injEq] at h <;>
    obtain ⟨hg, rfl⟩ := h
  case handle w =>
    exact .inr <| decide_eq_true <| Mailbox.handle_exit_iff.mp <| HandlerPc.ofTurn_eq_returned.mp hd
  case resume w =>
    exact .inr <| decide_eq_true <| Mailbox.resume_exit_iff.mp <| HandlerPc.ofTurn_eq_returned.mp hd
  case socket | resolve | connect => split at hd <;> simp_all [fail]
  case loop | timeout | checkWake => split at hd <;> simp_all
  case doRead wake msg => cases msg <;> simp_all
  all_goals simp_all

-- After `handle` has returned, the threads in `Open` leave it, and nobody else enters.
theorem StrandsNobody.step (x : s.ExitedFirst) (i : s.StrandsNobody) (hd : s.handler = .returned)
    (hb : ¬a.begins) (h : LightningCastClient.step s a = some s') : s'.StrandsNobody := by
  intro _ t c hc
  replace i := i hd
  cases a <;> simp only [LightningCastClient.step, Option.ite_none_right_eq_some, Option.some.injEq] at h <;>
    obtain ⟨hg, rfl⟩ := h
  case openCall => exact absurd rfl hb
  case exitCall => simpa [hg, MainPc.Exited] using x (.inr hd)
  case getIsOpen | doStop | stopped => simpa using (i _ _ hg).left
  case close | openCmd | exit => simpa using (i _ _ hg.left).left
  case closed => simpa using (i _ _ hg.left.left).left
  case rewait t =>
    rcases hg.left with ht | ht <;> exact absurd (i _ _ ht.left).right.right.left hg.right
  case opened =>
    simp only [done_call, Function.update_apply] at hc
    split at hc
    case isTrue => cases hc
    case isFalse => exact i t c hc
  case spurious u =>
    obtain ⟨hw, hn, hf⟩ := i t c hc
    exact ⟨hw, fun hm => hn (Finset.mem_of_mem_erase hm), hf⟩
  all_goals first | exact i t c hc | simp [hd] at hg

end State

theorem strandsNobody_iff {s s' : State} {a : Act} (p : s.Placed) (b : s.Blocked) (x : s.ExitedFirst)
    (i : s.StrandsNobody) (h : step s a = some s') : s'.StrandsNobody ↔ Timely s a := by
  by_cases ht : a.takesExit s
  case neg =>
    by_cases hd : s.handler = .returned
    case neg =>
      refine iff_of_true (fun hd' => ?_) ⟨fun _ => hd, fun h => absurd h ht⟩
      exact absurd (State.returned_of_step h hd') (not_or.mpr ⟨hd, ht⟩)
    case pos =>
      by_cases hb : a.begins
      case neg => exact iff_of_true (i.step x hd hb h) ⟨fun h => absurd h hb, fun h => absurd h ht⟩
      case pos =>
        refine iff_of_false (fun j => ?_) fun hc => hc.left hb hd
        cases a <;> simp only [Act.begins, Bool.false_eq_true] at hb
        case openCall ip =>
          simp only [step, Option.ite_none_right_eq_some, Option.some.injEq] at h
          obtain ⟨_, rfl⟩ := h
          simpa using (j hd .server .check (by simp)).left
  case pos =>
    -- `main` has left `Exit`, so only the server thread can wait, and it is woken.
    obtain ⟨hc, hn, hd, hcall, hf, w, hw, hs⟩ := State.takesExit_step h ht
    have hserver : ∀ t c, s.call t = some c → t = .server := by
      intro t c hc'
      refine (p t c hc').resolve_right fun hm => ?_
      simpa [hm, MainPc.Exited] using x (.inl hc)
    have he : s'.cast.condSync = ∅ := by
      rw [hs, Mailbox.woken_eq_empty hw]
      have hm : ∀ t ∈ s.cast.condSync, t = .server :=
        fun t ht => (b.sync t ht).elim (hserver t _) (hserver t _)
      exact Finset.card_le_one.mpr fun t ht u hu => (hm t ht).trans (hm u hu).symm
    constructor
    case mp  => exact fun j => ⟨fun _ => hn, fun _ c hc => (j hd .server c (hcall ▸ hc)).left⟩
    case mpr =>
      intro hc _ t c ht'
      rw [hcall] at ht'
      cases hserver t c ht'
      exact ⟨hc.right ht c ht', by simp [he], hf⟩

theorem exitedFirst {s : State} (h : machine.Reachable s) : s.ExitedFirst :=
  h.invariant (by simp [State.ExitedFirst, State.Exiting, machine]) State.ExitedFirst.step

-- The main thread has called `SnapcastComm::Exit`.
def MainPc.SnapcastExited : MainPc → Prop
  | .serverExit | .joining              => True
  | .running | .exiting | .snapcastExit => False

instance : (p : MainPc) → Decidable p.SnapcastExited
  | .serverExit | .joining              => inferInstanceAs (Decidable True)
  | .running | .exiting | .snapcastExit => inferInstanceAs (Decidable False)

theorem snapcastExited_iff {s s' : State} {a : Act} (p : s.Placed) (h : step s a = some s')
    (ha : a ≠ .snapcastExit) : s'.main.SnapcastExited ↔ s.main.SnapcastExited := by
  cases a <;> simp only [step, Option.ite_none_right_eq_some, Option.some.injEq] at h <;>
    obtain ⟨hg, rfl⟩ := h
  case snapcastExit => exact absurd rfl ha
  case exitCall | serverExit => simp [hg, MainPc.SnapcastExited]
  case exit =>
    have hm : s.main = .exiting := by simpa using p .main _ hg.left
    simp [hm, MainPc.SnapcastExited]
  case socket | resolve | connect => split <;> rfl
  all_goals rfl

end LightningCastClient
