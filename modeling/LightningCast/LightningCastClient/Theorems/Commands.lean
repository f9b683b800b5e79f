import LightningCast.LightningCastClient.Theorems.Handoff

namespace LightningCastClient

open Mailbox (Cmd)

-- The command which an action writes to `cmd`.
def Act.posts : Act → Option Cmd
  | .openCmd _ => some .OPEN
  | .close ..  => some .CLOSE
  | .exit _    => some .EXIT
  | _          => none

-- The command whose branch of `handle` an action executes.
def Act.branch (s : State) : Act → Option Cmd
  | .handle _ | .resume _     => some s.cast.cmd
  | .finish _ | .failFinish _ => some .OPEN
  | _                         => none

-- The command in the slot stays there, or its own branch is executed.
def Kept (s : State) (a : Act) : Prop :=
  ∀ s' ∈ step s a, s.cast.cmd = .NONE ∨ s'.cast.cmd = s.cast.cmd ∨ a.branch s = some s.cast.cmd

-- Every command is posted to an empty slot, or to one which holds the same command.
def PostFindsRoom (s : State) (a : Act) : Prop :=
  ∀ c ∈ a.posts, s.cast.cmd = .NONE ∨ s.cast.cmd = c

instance (s : State) (a : Act) : Decidable (PostFindsRoom s a) :=
  inferInstanceAs (Decidable (∀ _ ∈ _, _))

-- The main thread has stored `EXIT`.
def MainPc.Exited : MainPc → Prop
  | .snapcastExit | .serverExit | .joining => True
  | .running | .exiting                    => False

namespace State

-- Once the main thread has stored `EXIT`, it is in the slot until `handle` has returned.
def ExitStands (s : State) : Prop :=
  s.main.Exited → s.cast.cmd = .EXIT ∨ s.handler = .returned

variable {s s' : State} {a : Act}

theorem cmd_step (h : LightningCastClient.step s a = some s') :
    (a.posts = none ∧ s'.cast.cmd = s.cast.cmd) ∨ (a.posts = some s'.cast.cmd ∧ a.branch s = none) ∨
      ∃ c, a.branch s = some c := by
  cases a <;> simp only [LightningCastClient.step, Option.ite_none_right_eq_some, Option.some.injEq] at h <;>
    obtain ⟨hg, rfl⟩ := h <;> simp [Act.posts, Act.branch, setIsOpen, fail, openCmd, close, exit]
  case socket | resolve | connect => split <;> rfl

-- `EXIT` leaves the slot only when `handle` returns.
theorem exit_step (h : LightningCastClient.step s a = some s') (hb : a.branch s = some .EXIT)
    (hc : s.cast.cmd = .EXIT) : s'.cast.cmd = .EXIT ∨ s'.handler = .returned := by
  cases a <;> simp only [Act.branch, reduceCtorEq, Option.some.injEq] at hb <;>
    simp only [LightningCastClient.step, Option.ite_none_right_eq_some, Option.some.injEq] at h <;>
    obtain ⟨hg, rfl⟩ := h
  case handle w => simp [turn, Mailbox.handle, hc, HandlerPc.ofTurn]
  case resume w =>
    simp only [turn, Mailbox.resume, Mailbox.handle, hc]
    split <;> simp [HandlerPc.ofTurn]

theorem returned_step (h : LightningCastClient.step s a = some s') (hs : s.handler = .returned) :
    s'.handler = .returned := by
  cases a <;> simp only [LightningCastClient.step, Option.ite_none_right_eq_some, Option.some.injEq] at h <;>
    obtain ⟨hg, rfl⟩ := h <;> simp_all

theorem exited_step (h : LightningCastClient.step s a = some s') (hs : s'.main.Exited) :
    s.main.Exited ∨ s'.cast.cmd = .EXIT := by
  cases a <;> simp only [LightningCastClient.step, Option.ite_none_right_eq_some, Option.some.injEq] at h <;>
    obtain ⟨hg, rfl⟩ := h
  case exit w => exact .inr rfl
  case exitCall => cases hs
  case snapcastExit | serverExit => exact .inl (by rw [hg]; trivial)
  case socket | resolve | connect => split at hs <;> exact .inl hs
  all_goals exact .inl hs

end State

variable {s s' : State} {a : Act}

theorem Kept.findsRoom (hk : Kept s a) (h : step s a = some s') : PostFindsRoom s a := by
  intro c hc
  rcases State.cmd_step h with ⟨hp, _⟩ | ⟨hp, hb⟩ | ⟨c', hb⟩
  · simp [hp] at hc
  · cases hp.symm.trans hc
    simpa [hb, eq_comm] using hk s' h
  · cases a <;> simp [Act.posts, Act.branch] at hc hb

theorem PostFindsRoom.kept (hr : PostFindsRoom s a) (hs : s.handler.phase = .serving → s.cast.cmd = .OPEN) :
    Kept s a := by
  intro s' (h : step s a = some s')
  rcases State.cmd_step h with ⟨_, hc⟩ | ⟨hp, _⟩ | ⟨c, hb⟩
  · exact .inr <| .inl hc
  · exact (hr _ hp).imp_right fun h => .inl h.symm
  · refine .inr <| .inr ?_
    cases a <;> simp only [Act.branch, reduceCtorEq] at hb
    case handle | resume => rfl
    case finish | failFinish =>
      simp only [step, Option.ite_none_right_eq_some] at h
      simp [Act.branch, hs (by rw [h.left.left]; rfl)]

theorem State.ExitStands.step (i : s.ExitStands) (hk : Kept s a)
    (h : LightningCastClient.step s a = some s') :
    s'.ExitStands := by
  intro hx
  cases exited_step h hx
  case inr hc => exact .inl hc
  case inl hx =>
    cases i hx
    case inr hd => exact .inr <| returned_step h hd
    case inl hc =>
      rcases hk s' h with hn | hc' | hb
      · cases hn.symm.trans hc
      · exact .inl <| hc'.trans hc
      · exact exit_step h (hc ▸ hb) hc

-- In a run in which every command finds room, an `OPEN` is served with `OPEN` in the slot.
theorem served {as : List Act} (hr : machine.Meets PostFindsRoom as)
    (he : machine.exec machine.init as = some s)
    (hp : s.handler.phase = .serving) : s.cast.cmd = .OPEN := by
  have ⟨bs, hb, hm⟩ := simulation.exec (D := Handoff.FindsRoom) he hr ?_
  · exact (Handoff.room_inv hm hb).served hp
  · intro s a b hr hb
    cases a <;> simp only [simulation, handoffAct, reduceCtorEq, Option.some.injEq] at hb
    case openCmd | exit  => cases hb; exact hr _ rfl
    case close           => cases hb; split <;> exact hr _ rfl
    case closed          => split at hb <;> cases hb; trivial
    case handle | resume => exact .ofTurn hb
    all_goals cases hb; trivial

theorem commands_kept_iff {as : List Act} (he : machine.exec machine.init as = some s) :
    (machine.Meets Kept as ∧ machine.Always State.ExitStands as) ↔ machine.Meets PostFindsRoom as := by
  constructor
  case mp => exact fun ⟨hk, _⟩ => (hk.and (.executed he)).mono fun _ _ ⟨hk, _, h⟩ => hk.findsRoom h
  case mpr =>
    intro hr
    have hk : machine.Meets Kept as := fun bs a s hp he =>
      PostFindsRoom.kept (hr bs a s hp he) <| served (hr.of_prefix <| (List.prefix_append ..).trans hp) he
    exact ⟨hk, hk.always nofun fun _ i hk h => i.step hk h⟩

-- The main thread exits while a session is open, and closes it first.
def exitFromSession : List Act :=
  [.handle none, .openCall [49], .getIsOpen .server, .openCmd (some .client), .resume none, .socket true,
   .resolve true, .connect true [49], .flag, .finish (some .server), .opened, .exitCall, .getIsOpen .main,
   .doStop .main, .stopped .main, .close .main none, .loop, .unflag, .sessionStop, .sessionStopped,
   .teardown, .handle (some .main), .closed .main, .exit (some .client), .snapcastExit, .resume none]

theorem exitFromSession_kept :
    machine.Meets Kept exitFromSession ∧ machine.Always State.ExitStands exitFromSession :=
  have ⟨_, he, _⟩ := machine.exec_of_any exitFromSession (fun _ => true) (by decide)
  (commands_kept_iff he).mpr (by decide)

-- The main thread exits while the handler is in `connect`. The flag is down, so it does not close first.
def exitDuringConnect : List Act :=
  [.handle none, .openCall [49], .getIsOpen .server, .openCmd (some .client), .resume none, .socket true,
   .resolve true, .exitCall, .getIsOpen .main, .exit none, .snapcastExit, .serverExit, .connect true [49],
   .flag, .finish (some .server), .opened, .serverReturn, .loop]

-- `LockfinishCmd` takes `EXIT` for its own `OPEN`: the handler is in a session, the main thread in `join`.
theorem exitDuringConnect_lost : ∃ s, machine.exec machine.init exitDuringConnect = some s ∧
    s.main = .joining ∧ s.cast.cmd = .NONE ∧ s.handler = .select ∧ ¬s.ExitStands := by
  have ⟨s, he, hs⟩ := machine.exec_of_any exitDuringConnect
    (fun s => s.main = .joining ∧ s.cast.cmd = .NONE ∧ s.handler = .select) (by decide)
  have ⟨hm, hc, hh⟩ := of_decide_eq_true hs
  exact ⟨s, he, hm, hc, hh, fun h => by simpa [hc, hh] using h (by rw [hm]; trivial)⟩

end LightningCastClient
