import LightningCast.Library.Mailbox

-- What a mailbox is for, seen from the one thread which posts `OPEN`: a hand-off of commands to the
-- handler, which serves an `OPEN` with the mutex released, clears the slot halfway through (`finish`)
-- and is then in a session until it leaves. Other threads may post `CLOSE` and `EXIT` at any time.
namespace Handoff

open Mailbox (Cmd)

inductive Phase
  | outside
  | serving
  | session
deriving DecidableEq

inductive Opener
  | idle
  | opening
  | closing
deriving DecidableEq

structure State where
  cmd       : Cmd    := .NONE
  readySync : Bool   := false
  phase     : Phase  := .outside
  opener    : Opener := .idle

inductive Act
  | postOpen
  | postClose
  | post (c : Cmd)
  | return
  | serve
  | clear
  | finish (session : Bool)
  | leave

def step (s : State) : Act → Option State
  | .postOpen =>
    if s.opener = .idle
    then some { s with cmd := .OPEN, readySync := false, opener := .opening } else none
  | .postClose =>
    if s.opener = .idle
    then some { s with cmd := .CLOSE, readySync := false, opener := .closing } else none
  | .post c =>
    if c = .CLOSE ∨ c = .EXIT then some { s with cmd := c, readySync := false } else none
  | .return =>
    if s.opener ≠ .idle ∧ s.readySync ∧ s.cmd = .NONE then some { s with opener := .idle } else none
  | .serve =>
    if s.phase = .outside ∧ s.cmd = .OPEN then some { s with phase := .serving } else none
  | .clear =>
    if s.phase = .outside ∧ (s.cmd = .CLOSE ∨ s.cmd = .EXIT)
    then some { s with cmd := .NONE, readySync := true } else none
  | .finish session =>
    if s.phase = .serving
    then some { s with cmd := .NONE, readySync := true, phase := if session then .session else .outside }
    else none
  | .leave =>
    if s.phase = .session then some { s with phase := .outside } else none

def machine : Machine State Act where
  init := {}
  step := step

theorem follows_some {s s' : State} {a : Act} : machine.Follows s s' (some a) ↔ step s a = some s' :=
  .rfl

-- `OPEN` stands in the slot, and is served, only while its poster waits; and while the opener waits
-- for a `CLOSE`, a session cannot lose the command which ends it.
structure Inv (s : State) : Prop where
  ready   : s.readySync → s.cmd = .NONE
  opening : s.cmd = .OPEN → s.opener = .opening
  serving : s.phase = .serving → s.cmd ≠ .NONE ∧ s.opener = .opening
  closing : s.opener = .closing → s.phase = .session → s.cmd ≠ .NONE

theorem Inv.init : Inv machine.init := by
  constructor <;> simp [machine]

theorem Inv.step {s s' : State} {a : Act} (i : Inv s) (h : step s a = some s') : Inv s' := by
  obtain ⟨ready, opening, serving, closing⟩ := i
  cases a <;> simp only [Handoff.step, Option.ite_none_right_eq_some, Option.some.injEq] at h <;>
    obtain ⟨hg, rfl⟩ := h
  case postOpen  => constructor <;> simp_all
  case postClose => constructor <;> simp_all
  case post c    => constructor <;> grind
  case «return»  => constructor <;> simp_all
  case serve     => constructor <;> simp_all
  case clear     => constructor <;> simp_all
  case finish b  => cases b <;> constructor <;> simp_all
  case leave     => constructor <;> simp_all

theorem inv {s : State} (h : machine.Reachable s) : Inv s :=
  h.invariant .init fun i h => i.step h

-- The handler serves no `OPEN`, and will not before the next one is posted.
def Quiet (s : State) : Prop :=
  s.phase = .outside ∧ s.cmd ≠ .OPEN

theorem Quiet.step {s s' : State} {a : Act} (hq : Quiet s) (ha : a ≠ .postOpen)
    (h : Handoff.step s a = some s') : Quiet s' := by
  obtain ⟨hp, hc⟩ := hq
  cases a <;> simp only [Handoff.step, Option.ite_none_right_eq_some, Option.some.injEq] at h <;>
    obtain ⟨hg, rfl⟩ := h
  case postOpen => exact absurd rfl ha
  case post c   => rcases hg with rfl | rfl <;> simp [Quiet, hp]
  all_goals simp_all [Quiet]

theorem Quiet.follows {s s' : State} {a : Option Act} (hq : Quiet s) (ha : a ≠ some .postOpen)
    (h : machine.Follows s s' a) : Quiet s' := by
  cases a
  case none   => exact (h : s' = s) ▸ hq
  case some a => exact hq.step (by simpa using ha) h

-- When a wait for `CLOSE` ends, the handler is quiet.
theorem Inv.quiet_of_closed {s : State} (i : Inv s) (ho : s.opener = .closing) (hc : s.cmd = .NONE) :
    Quiet s := by
  refine ⟨?_, by simp [hc]⟩
  cases hp : s.phase
  case outside => rfl
  case serving => exact absurd hc (i.serving hp).left
  case session => exact absurd hc (i.closing ho hp)

-- No post replaces another command.
def FindsRoom (s : State) : Act → Prop
  | .postOpen  => s.cmd = .NONE ∨ s.cmd = .OPEN
  | .postClose => s.cmd = .NONE ∨ s.cmd = .CLOSE
  | .post c    => s.cmd = .NONE ∨ s.cmd = c
  | _          => True

structure RoomInv (s : State) : Prop extends Inv s where
  served : s.phase = .serving → s.cmd = .OPEN

theorem RoomInv.served_step {s s' : State} {a : Act} (i : RoomInv s) (hr : FindsRoom s a)
    (h : Handoff.step s a = some s') : s'.phase = .serving → s'.cmd = .OPEN := by
  have served := i.served
  have serving := i.serving
  clear i
  cases a <;> simp only [Handoff.step, Option.ite_none_right_eq_some, Option.some.injEq] at h <;>
    obtain ⟨hg, rfl⟩ := h <;> simp only [FindsRoom] at hr
  case post c => grind
  case finish session => cases session <;> simp
  all_goals simp_all

theorem RoomInv.step {s s' : State} {a : Act} (i : RoomInv s) (hr : FindsRoom s a)
    (h : Handoff.step s a = some s') : RoomInv s' :=
  { toInv := i.toInv.step h, served := i.served_step hr h }

-- In a run in which no post replaces another command, the slot still holds the `OPEN` which is served.
theorem room_inv {s : State} {as : List Act} (hr : machine.Meets FindsRoom as)
    (he : machine.exec machine.init as = some s) : RoomInv s :=
  hr.invariant he { toInv := .init, served := by simp [machine] } fun _ i hr h => i.step hr h

-- The hand-off which a mailbox shows to a handler in phase `p` and an opener at `o`.
section

variable {T : Type}

def view (m : Mailbox T) (p : Phase) (o : Opener) : State where
  cmd       := m.cmd
  readySync := m.readySync
  phase     := p
  opener    := o

theorem view_congr {m m' : Mailbox T} {p p' : Phase} {o o' : Opener} (hc : m'.cmd = m.cmd)
    (hr : m'.readySync = m.readySync) (hp : p' = p) (ho : o' = o) : view m' p' o' = view m p o := by
  simp [view, hc, hr, hp, ho]

-- A thread `u` which moves between places where it waits for no command does not change what the opener
-- `t` waits for.
theorem opener_update {C : Type} [DecidableEq T] {f : T → C} {opener : C → Opener} {c : C} {t u : T}
    (h : u = t → opener (f u) = .idle ∧ opener c = .idle) :
    opener (Function.update f u c t) = opener (f t) := by
  by_cases hu : u = t
  case pos =>
    obtain ⟨h₁, h₂⟩ := h hu
    simp [← hu, h₁, h₂]
  case neg => rw [Function.update_of_ne (Ne.symm hu)]

open Mailbox (Turn Handles)

def Phase.ofTurn : Turn → Phase
  | .doOpen        => .serving
  | .wait | .exit  => .outside

-- What a region of the handler is to the hand-off, when it turns the mailbox `m` into `r.1`.
def Act.ofTurn (m : Mailbox T) (r : Mailbox T × Turn) : Option Act :=
  match r.2 with
  | .doOpen => some .serve
  | .wait   => if r.1.cmd = m.cmd then none else some .clear
  | .exit   => some .clear

theorem FindsRoom.ofTurn {m : Mailbox T} {r : Mailbox T × Turn} {s : State} {a : Act}
    (h : Act.ofTurn m r = some a) : FindsRoom s a := by
  unfold Act.ofTurn at h
  split at h
  case h_2 => split at h <;> cases h; trivial
  all_goals cases h; trivial

theorem view_turn {m : Mailbox T} {r : Mailbox T × Turn} (h : Handles m r.1 r.2) (o : Opener) :
    machine.Follows (view m .outside o) (view r.1 (.ofTurn r.2) o) (Act.ofTurn m r) := by
  obtain ⟨m', turn⟩ := r
  cases h
  case doOpen h₁ h₂ h₃ => simp_all [Machine.Follows, machine, Act.ofTurn, Phase.ofTurn, view, step]
  case close h₁ h₂ h₃  => simp_all [Machine.Follows, machine, Act.ofTurn, Phase.ofTurn, view, step]
  case wait h₁ h₂      => simp_all [Machine.Follows, Act.ofTurn, Phase.ofTurn, view]
  case exit h₁ h₂ h₃   => simp_all [Machine.Follows, machine, Act.ofTurn, Phase.ofTurn, view, step]

end

end Handoff
