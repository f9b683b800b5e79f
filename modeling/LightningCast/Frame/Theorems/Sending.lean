import LightningCast.Frame.Basic
import Mathlib.Data.List.Infix

namespace ProcessSend

variable {T : Type} {s s' : State T} {a : Act T} {as : List (Act T)}

-- A write outcome which ends the loop before the frame is whole.
def Write.cuts : Write → Bool
  | .accept 0 | .fail  => true
  | .accept _ | .again => false

def Act.cuts : Act T → Bool
  | .write w => w.cuts
  | _        => false

-- A write which puts something on the connection.
def Act.writes : Act T → Bool
  | .write (.accept (_ + 1)) => true
  | _                        => false

theorem not_writes_of_cuts (h : a.cuts) : ¬a.writes := by
  rcases a with _ | _ | ((_ | _) | _ | _) | _ <;> simp_all [Act.cuts, Write.cuts, Act.writes]

-- What the call which holds the mutex has still to write.
def State.left (s : State T) : Bytes :=
  s.current.elim [] Current.left

-- What a step can do to the connection.
inductive Moved (s s' : State T) : Act T → Prop
  | stay {b : Act T} : ¬b.cuts → ¬b.writes → s'.out = s.out → s'.sent = s.sent → s'.left = s.left →
    s'.returned = s.returned → Moved s s' b
  | refuse {t : T} {str : Bytes} : s'.out = s.out → s'.sent = s.sent → s'.left = s.left →
    s'.returned = s.returned ++ [{ str, complete := false, result := false }] → Moved s s' (.lock t)
  | begin {t : T} {str : Bytes} : s'.out = s.out → s'.sent = s.sent ++ [str] → s.left = [] →
    s'.left = frame str →
    s'.returned = s.returned → Moved s s' (.lock t)
  | cut {w : Write} {str : Bytes} : w.cuts → s'.out = s.out → s'.sent = s.sent → s'.left = [] →
    s'.returned = s.returned ++ [{ str, complete := false, result := true }] → Moved s s' (.write w)
  | accept {n : Nat} {bs : Bytes} : bs ≠ [] → s'.out = s.out ++ bs → s'.sent = s.sent →
    s.left = bs ++ s'.left →
    (s'.returned = s.returned ∨
      ∃ str, s'.returned = s.returned ++ [{ str, complete := true, result := true }]) →
    Moved s s' (.write (.accept (n + 1)))

theorem moved_write {c : Current T} {w : Write} (hc : s.current = some c) (h : s.write c w = some s') :
    Moved s s' (.write w) := by
  have hl : s.left = c.left := by simp [State.left, hc]
  cases w
  case again =>
    cases h
    exact .stay nofun nofun rfl rfl rfl rfl
  case fail =>
    cases h
    exact .cut rfl rfl rfl rfl (by simp [State.leave, c.ne]; rfl)
  case accept n =>
    cases n
    case zero =>
      cases h
      exact .cut rfl rfl rfl rfl (by simp [State.leave, c.ne]; rfl)
    case succ n =>
      simp only [State.write, Option.ite_none_right_eq_some] at h
      obtain ⟨hn, h⟩ := h
      have ht : c.left.take (n + 1) ≠ [] := by simp [c.ne]
      split at h <;> cases h
      case isTrue hd =>
        refine .accept ht rfl rfl ?_ (.inr ⟨c.str, by simp [State.leave]⟩)
        rw [hl]
        simpa [State.leave, State.left] using hd
      case isFalse hd =>
        exact .accept ht rfl rfl (by rw [hl]; simp [State.left]) (.inl rfl)

-- The bytes on the connection and those which are still to come are the frames, in order.
def State.Whole (s : State T) : Prop :=
  s.out ++ s.left = s.sent.flatMap frame

theorem State.Whole.step (hw : s.Whole) (ha : ¬a.cuts) : Moved s s' a → s'.Whole
  | .stay _ _ ho hs hl _ | .refuse ho hs hl _ => by
    unfold Whole
    rwa [ho, hs, hl]
  | .begin ho hs hl hl' _ => by
    unfold Whole at hw ⊢
    simp_all
  | .cut hc _ _ _ _ => absurd hc ha
  | .accept _ ho hs hl _ => by
    unfold Whole
    rwa [ho, hs, List.append_assoc, ← hl]

-- A frame has been cut short.
def State.Cut (s : State T) : Prop :=
  ∃ r ∈ s.returned, r.result ∧ ¬r.complete

-- The bytes on the connection begin the frames, in the order of the calls.
def State.Intact (s : State T) : Prop :=
  s.out <+: s.sent.flatMap frame

-- What `SnapcastComm::processSend` has returned says whether the frame was written whole.
def State.Reported (s : State T) : Prop :=
  ∀ r ∈ s.returned, r.result = r.complete

-- No `write` on the connection accepts anything after one has failed or has returned 0.
def ErrorsPermanent (s : State T) (a : Act T) : Prop :=
  s.Cut → ¬a.writes

theorem State.Whole.intact (hw : s.Whole) : s.Intact :=
  ⟨s.left, hw⟩

theorem State.Reported.not_cut (hr : s.Reported) : ¬s.Cut
  | ⟨r, hm, ht, hc⟩ => hc (hr r hm ▸ ht)

-- The connection changes exactly if something is written.
theorem Moved.out_eq_iff : Moved s s' a → (s'.out = s.out ↔ ¬a.writes)
  | .stay _ hw ho _ _ _                       => by simp [ho, hw]
  | .refuse ho _ _ _   | .begin ho _ _ _ _    => by simp [ho, Act.writes]
  | .cut hc ho _ _ _                          => by simpa [ho] using not_writes_of_cuts (a := .write _) hc
  | .accept hb ho _ _ _                       => by simp [ho, hb, Act.writes]

theorem Moved.cut_of_cut (h : Moved s s' a) (hc : s.Cut) : s'.Cut := by
  have ⟨r, hr, hc⟩ := hc
  refine ⟨r, ?_, hc⟩
  cases h <;> grind

theorem Moved.cut_of_cuts (ha : a.cuts) : Moved s s' a → s'.Cut ∧ ¬s'.Reported
  | .stay hn _ _ _ _ _         => absurd ha hn
  | .cut _ _ _ _ hr            => by simp [State.Cut, State.Reported, hr]

theorem State.Intact.step (hi : s.Intact) (ha : ¬a.writes) : Moved s s' a → s'.Intact
  | .stay _ _ ho hs _ _ | .refuse ho hs _ _ | .cut _ ho hs _ _ => by
    unfold Intact
    rwa [ho, hs]
  | .begin ho hs _ _ _ => by
    unfold Intact
    rw [ho, hs, List.flatMap_append]
    exact hi.trans (List.prefix_append ..)
  | .accept _ _ _ _ _ => absurd rfl ha

-- As long as errors are permanent, the connection holds whole frames or is cut for good.
theorem intact_step (hi : s.Whole ∨ s.Cut ∧ s.Intact) (he : ErrorsPermanent s a) (h : Moved s s' a) :
    s'.Whole ∨ s'.Cut ∧ s'.Intact := by
  by_cases ha : a.cuts
  case pos =>
    have hi : s.Intact := hi.elim State.Whole.intact And.right
    exact .inr ⟨(h.cut_of_cuts ha).left, hi.step (not_writes_of_cuts ha) h⟩
  case neg =>
    cases hi
    case inl hw => exact .inl <| hw.step ha h
    case inr hi => exact .inr ⟨h.cut_of_cut hi.left, hi.right.step (he hi.left) h⟩

theorem State.Reported.step (hr : s.Reported) (ha : ¬a.cuts) : Moved s s' a → s'.Reported
  | .stay _ _ _ _ _ h | .begin _ _ _ _ h | .accept _ _ _ _ (.inl h) => by
    unfold Reported
    rwa [h]
  | .refuse _ _ _ h | .accept _ _ _ _ (.inr ⟨_, h⟩) => by
    unfold Reported
    rw [h]
    exact List.forall_mem_append.mpr ⟨hr, by simp⟩
  | .cut hc _ _ _ _ => absurd hc ha

section

variable [DecidableEq T]

theorem moved_begin {t : T} {str : Bytes} (hc : s.current = none) : Moved s (s.begin t str) (.lock t) := by
  have hl : s.left = [] := by simp [State.left, hc]
  unfold State.begin
  split
  case isTrue  => exact .refuse rfl rfl rfl rfl
  case isFalse => exact .begin rfl rfl hl rfl rfl

theorem step_moved (h : step s a = some s') : Moved s s' a := by
  cases a <;> simp only [step, Option.ite_none_right_eq_some, Option.bind_eq_some_iff, Option.map_eq_some_iff,
    Option.some.injEq] at h
  case call t str =>
    obtain ⟨_, rfl⟩ := h
    exact .stay nofun nofun rfl rfl rfl rfl
  case lock t =>
    obtain ⟨hc, str, _, rfl⟩ := h
    exact moved_begin (Option.isNone_iff_eq_none.mp hc)
  case write w =>
    obtain ⟨c, hc, h⟩ := h
    exact moved_write hc h
  case close =>
    obtain ⟨_, rfl⟩ := h
    exact .stay nofun nofun rfl rfl rfl rfl

theorem whole (hc : machine.Meets (fun _ a => ¬a.cuts) as) (he : machine.exec machine.init as = some s) :
    s.Whole :=
  hc.invariant he rfl fun _ hw ha h => hw.step ha (step_moved h)

-- No call writes after a frame has been cut short.
def Silent (s : State T) (a : Act T) : Prop :=
  s.Cut → ∀ s' ∈ step s a, s'.out = s.out

theorem silent_iff (h : step s a = some s') : Silent s a ↔ ErrorsPermanent s a := by
  simp only [Silent, ErrorsPermanent, h, Option.mem_def, Option.some.injEq, forall_eq',
    (step_moved h).out_eq_iff]

-- The connection carries a prefix of the frames, and is silent after one which was cut short, exactly if
-- its errors are permanent. What `SnapcastComm::processSend` returns is right as well exactly if no
-- frame is cut short.
theorem failed_send_iff (he : machine.exec machine.init as = some s) :
    ((machine.Always State.Intact as ∧ machine.Meets Silent as) ↔ machine.Meets ErrorsPermanent as) ∧
    ((machine.Always State.Intact as ∧ machine.Meets Silent as ∧ machine.Always State.Reported as) ↔
      machine.Meets (fun _ a => ¬a.cuts) as) := by
  have hp : (machine.Always State.Intact as ∧ machine.Meets Silent as) ↔
      machine.Meets ErrorsPermanent as := by
    constructor
    case mp =>
      exact fun ⟨_, hs⟩ => (hs.and (.executed he)).mono fun _ _ ⟨hs, _, h⟩ => (silent_iff h).mp hs
    case mpr =>
      intro hp
      constructor
      case left =>
        have hi := hp.always (P := fun s => s.Whole ∨ s.Cut ∧ s.Intact) (.inl rfl)
          fun _ hi he h => intact_step hi he (step_moved h)
        exact fun bs s hp he => (hi bs s hp he).elim State.Whole.intact And.right
      case right =>
        exact (hp.and (.executed he)).mono fun _ _ ⟨hp, _, h⟩ => (silent_iff h).mpr hp
  refine ⟨hp, ?_⟩
  rw [← and_assoc, hp]
  constructor
  case mp =>
    intro ⟨_, hr⟩
    exact (hr.next he).mono fun _ _ ⟨_, h, hr⟩ hc => ((step_moved h).cut_of_cuts hc).right hr
  case mpr =>
    intro hc
    have hr : machine.Always State.Reported as :=
      hc.always (by simp [State.Reported, machine]) fun _ hr ha h => hr.step ha (step_moved h)
    refine ⟨?_, hr⟩
    exact fun bs a s hp he hcut => absurd hcut (hr bs s ((List.prefix_append ..).trans hp) he).not_cut

end

-- A frame which is written in two pieces.
def twoPieces : List (Act Unit) :=
  [.call () [1], .lock (), .write (.accept 5), .write .again, .write (.accept 4)]

theorem twoPieces_intact : machine.Always State.Intact twoPieces ∧ machine.Meets Silent twoPieces ∧
    machine.Always State.Reported twoPieces :=
  have ⟨_, he, _⟩ := machine.exec_of_any twoPieces (fun _ => true) (by decide)
  (failed_send_iff he).right.mpr (by decide)

-- A `write` fails within a frame, by a signal for instance, and the next call writes its own.
def cutShort : List (Act Unit) :=
  [.call () [1], .lock (), .write (.accept 5), .write .fail, .call () [2], .lock (), .write (.accept 9)]

theorem cutShort_not_intact :
    ∃ s, machine.exec machine.init cutShort = some s ∧ ¬s.Intact ∧ ¬s.Reported := by
  have ⟨s, he, hs⟩ := machine.exec_of_any cutShort
    (fun s => ¬s.out <+: s.sent.flatMap frame ∧ ¬∀ r ∈ s.returned, r.result = r.complete) (by decide)
  have ⟨hi, hr⟩ := of_decide_eq_true hs
  exact ⟨s, he, hi, hr⟩

end ProcessSend
