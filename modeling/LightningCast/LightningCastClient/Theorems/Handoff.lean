import LightningCast.Library.Handoff
import LightningCast.LightningCastClient.Basic

namespace LightningCastClient

open Mailbox (Cmd)

def HandlerPc.phase : HandlerPc → Handoff.Phase
  | .handle | .wait | .returned                                            => .outside
  | .socket | .resolve | .connect _ | .failFlag | .failFinish | .flag | .finish => .serving
  | _                                                                      => .session

def Call.opener : Option Call → Handoff.Opener
  | some .wait      => .opening
  | some .closeWait => .closing
  | _               => .idle

-- The server thread is the one which posts `OPEN`.
def State.handoff (s : State) : Handoff.State :=
  Handoff.view s.cast.toMailbox s.handler.phase (Call.opener (s.call .server))

def handoffAct (s : State) : Act → Option Handoff.Act
  | .openCmd _    => some .postOpen
  | .close t _    => some (if t = .server then .postClose else .post .CLOSE)
  | .exit _       => some (.post .EXIT)
  | .opened       => some .return
  | .closed t     => if t = .server then some .return else none
  | .handle w     => Handoff.Act.ofTurn s.cast.toMailbox (s.cast.toMailbox.handle .client w)
  | .resume w     => Handoff.Act.ofTurn s.cast.toMailbox (s.cast.toMailbox.resume .client w)
  | .failFinish _ => some (.finish false)
  | .finish _     => some (.finish true)
  | .teardown     => some .leave
  | _             => none

section

variable {t : Thread} {c : Option Call} {s s' : State}

-- A caller moves between places where it waits for no command.
theorem handoff_caller (hc : s'.call = Function.update s.call t c)
    (h : t = .server → Call.opener (s.call t) = .idle ∧ Call.opener c = .idle)
    (hcmd : s'.cast.cmd = s.cast.cmd) (hready : s'.cast.readySync = s.cast.readySync)
    (hp : s'.handler.phase = s.handler.phase) : s'.handoff = s.handoff :=
  Handoff.view_congr hcmd hready hp (hc ▸ Handoff.opener_update h)

-- The handler moves within a phase.
theorem handoff_handler (hc : s'.call = s.call) (hcmd : s'.cast.cmd = s.cast.cmd)
    (hready : s'.cast.readySync = s.cast.readySync) (hp : s'.handler.phase = s.handler.phase) :
    s'.handoff = s.handoff :=
  Handoff.view_congr hcmd hready hp (by rw [hc])

theorem handoff_turn {m : Mailbox Thread × Mailbox.Turn} (hp : s.handler.phase = .outside)
    (h : Mailbox.Handles s.cast.toMailbox m.1 m.2) :
    Handoff.machine.Follows s.handoff (s.turn m).handoff (Handoff.Act.ofTurn s.cast.toMailbox m) := by
  have ht : (s.turn m).handler.phase = .ofTurn m.2 := by
    cases hm : m.2 <;> simp [State.turn, hm, HandlerPc.ofTurn, HandlerPc.phase, Handoff.Phase.ofTurn]
  simp only [State.handoff, ht, hp]
  exact Handoff.view_turn h _

end

theorem handoff_step {s s' : State} {a : Act} (h : step s a = some s') :
    Handoff.machine.Follows s.handoff s'.handoff (handoffAct s a) := by
  cases a <;> simp only [step, Option.ite_none_right_eq_some, Option.some.injEq] at h <;>
    obtain ⟨hg, rfl⟩ := h <;> simp only [handoffAct]
  case openCmd w =>
    simp [Handoff.follows_some, Handoff.step, State.handoff, Handoff.view, openCmd, hg, Call.opener]
  case close t w =>
    by_cases ht : t = .server
    case pos =>
      subst ht
      simp [Handoff.follows_some, Handoff.step, State.handoff, Handoff.view, close, hg, Call.opener]
    case neg =>
      simp [Handoff.follows_some, Handoff.step, State.handoff, Handoff.view, close, ht, Ne.symm ht]
  case opened =>
    obtain ⟨⟨ht, _⟩, hf, hn⟩ := hg
    simp [Handoff.follows_some, Handoff.step, State.handoff, Handoff.view, ht, Call.opener, hf, hn]
  case closed t =>
    obtain ⟨⟨ht, _⟩, hf, hn⟩ := hg
    by_cases hc : t = .server
    case pos =>
      subst hc
      simp [Handoff.follows_some, Handoff.step, State.handoff, Handoff.view, setIsOpen, ht, Call.opener, hf,
        hn]
    case neg =>
      rw [if_neg hc]
      exact handoff_caller rfl (absurd · hc) rfl rfl rfl
  case exit w   => simp [Handoff.follows_some, Handoff.step, State.handoff, Handoff.view, exit]
  case handle w => exact handoff_turn (s := s) (by rw [hg.left]; rfl) (Mailbox.handle_handles ..)
  case resume w => exact handoff_turn (s := s) (by rw [hg.left]; rfl) (Mailbox.resume_handles ..)
  case finish w | failFinish w =>
    simp [Handoff.follows_some, Handoff.step, State.handoff, Handoff.view, lockFinishCmd, hg,
      HandlerPc.phase]
  case teardown =>
    simp [Handoff.follows_some, Handoff.step, State.handoff, Handoff.view, hg, HandlerPc.phase]
  -- the steps within a phase
  case openCall ip => exact handoff_caller rfl (by simp [hg, Call.opener]) rfl rfl rfl
  case exitCall    => exact handoff_caller rfl (by simp) rfl rfl rfl
  case getIsOpen t =>
    refine handoff_caller rfl (fun _ => ⟨by rw [hg]; rfl, ?_⟩) rfl rfl rfl
    split <;> rfl
  case doStop t | stopped t => exact handoff_caller rfl (by simp [hg, Call.opener]) rfl rfl rfl
  case rewait | snapcastExit | serverExit | serverReturn => exact handoff_handler rfl rfl rfl rfl
  case doRead wake msg =>
    cases msg <;> exact handoff_handler rfl rfl rfl (by simp [hg, HandlerPc.phase])
  case socket ok | resolve ok | connect ok ip =>
    cases ok <;> exact handoff_handler rfl rfl rfl (by simp [State.fail, hg, HandlerPc.phase])
  case loop | checkWake | timeout =>
    split <;> exact handoff_handler rfl rfl rfl (by simp [hg, HandlerPc.phase])
  all_goals exact handoff_handler rfl rfl rfl (by simp [hg, HandlerPc.phase])

def simulation : Machine.Simulation machine Handoff.machine where
  state  := State.handoff
  act    := handoffAct
  init   := rfl
  step _ := handoff_step

theorem handoff_inv {s : State} (h : machine.Reachable s) : Handoff.Inv s.handoff :=
  Handoff.inv <| simulation.reachable h

end LightningCastClient
