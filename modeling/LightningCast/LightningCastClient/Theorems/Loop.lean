import LightningCast.Library.Stopwatch
import LightningCast.LightningCastClient.Loop
import LightningCast.LightningCastClient.Theorems.Parse

open Throwing (Returns)
open Json (Lib)

namespace LightningCastClient

-- The normalised time.
def Timespec.ofNs (ns : Int) : Timespec :=
  { sec := ns / 1000000000, nsec := ns % 1000000000 }

theorem Timespec.ns_ofNs {ns : Int} : (Timespec.ofNs ns).ns = ns := by
  simp only [Timespec.ns, Timespec.ofNs]
  omega

-- The borrow of `diff_in_us` makes no difference to the time which it stands for.
theorem diffInUs_eq (t₁ t₂ : Timespec) : diffInUs t₁ t₂ = ((t₂.ns - t₁.ns).tdiv 1000).toNat := by
  unfold diffInUs
  split <;> simp only [Timespec.ns] <;> congr 2 <;> omega

theorem checkCastServerAlive_iff (t₁ t₂ : Timespec) :
    checkCastServerAlive t₁ t₂ ↔ t₂.ns - t₁.ns < 5001000000 := by
  simp only [checkCastServerAlive, diffInUs_eq, decide_eq_true_eq]
  cases Int.le_total 0 (t₂.ns - t₁.ns)
  case inl h =>
    rw [Int.tdiv_eq_ediv_of_nonneg h]
    omega
  case inr h =>
    have hn := Int.tdiv_nonneg (a := -(t₂.ns - t₁.ns)) (b := 1000) (by omega) (by decide)
    rw [Int.neg_tdiv] at hn
    omega

-- The messages on which `doParse` sends a `NOTIFY_ALIVE`.
def Message.announces : Message → Bool
  | .metadata .. | .volume _ | .stepVolume _ => true
  | _                                        => false

-- The `NOTIFY_ALIVE` of the tablet.
def Message.isAlive : Message → Bool
  | .alive => true
  | _      => false

-- `doParse` accepts the payload as the message `m`.
def Accepts (lib : Lib) (payload : Bytes) (m : Message) : Prop :=
  WellTyped lib payload ∧ payloadMessage lib payload = some m

namespace SessionLoop

def Act.announces (lib : Lib) : Act → Bool
  | .timeout _           => true
  | .message _ _ payload => (payloadMessage lib payload).any Message.announces

variable {lib : Lib} {env : Env} {s s' : State} {a : Act} {payload : Bytes} {m : Message}

theorem alives_apply (s : Session) (m : Message) :
    alives s < alives (s.apply env m) ↔ m.announces := by
  cases m <;> simp [alives, Session.apply, Session.request, Message.announces]

theorem aliveTime_apply (s : Session) (m : Message) :
    (s.apply env m).aliveTime = if m.isAlive then env.now else s.aliveTime := by
  cases m <;> rfl

theorem read_of_accepts (h : Accepts env.toLib payload m) : s.read env payload =
    { session := s.session.apply env m
      now     := env.now
      sent    := if m.announces then env.now else s.sent } := by
  obtain ⟨ht, hm⟩ := h
  have hr : Returns (doParse env payload) s.session fun b s' => b = true ∧ s' = s.session.apply env m :=
    doParse_returns.mpr ⟨ht, by simp [hm]⟩
  unfold Returns at hr
  unfold State.read
  split at hr
  case h_1 b s' he =>
    obtain ⟨rfl, rfl⟩ := hr
    simp only [he, alives_apply]
  case h_2 => cases hr

-- A payload which is not accepted ends the loop.
theorem read_ended (h : ∀ m, ¬Accepts env.toLib payload m) :
    (s.read env payload).ended = some .rejected ∨ (s.read env payload).ended = some .threw := by
  unfold State.read
  cases he : (doParse env payload).run.run s.session
  case mk r s' =>
    cases r
    case error e => exact .inr rfl
    case ok b =>
      have hr : Returns (doParse env payload) s.session fun b' _ => b' = b := by simp [Returns, he]
      obtain ⟨ht, hb⟩ := doParse_returns.mp hr
      split at hb
      case h_1 m hm => exact absurd ⟨ht, hm⟩ (h m)
      case h_2 =>
        cases hb
        exact .inl rfl

theorem step_clock (h : step lib s a = some s') : s.ended = none ∧ s.now.ns ≤ a.now.ns := by
  cases a <;> simp only [step, Option.ite_none_right_eq_some] at h
  case timeout now => exact ⟨h.left.left, by simp only [Act.now]; omega⟩
  case message now started payload => exact ⟨h.left.left, h.left.right.left⟩

-- `select` waits for no longer than 500 ms.
theorem step_within (h : step lib s a = some s') : s.ended = none ∧ a.now.ns ≤ s.now.ns + 500000000 := by
  cases a <;> simp only [step, Option.ite_none_right_eq_some] at h
  case timeout now => exact ⟨h.left.left, Int.le_of_eq h.left.right⟩
  case message now started payload => exact ⟨h.left.left, h.left.right.right⟩

theorem step_timeout {now : Timespec} (h : step lib s (.timeout now) = some s') :
    s'.now = now ∧ s'.sent = now ∧ s'.session.aliveTime = s.session.aliveTime ∧
      s'.ended = if checkCastServerAlive s.session.aliveTime now then none else some .notAlive := by
  simp only [step, Option.ite_none_right_eq_some, Option.some.injEq] at h
  obtain ⟨_, rfl⟩ := h
  exact ⟨rfl, rfl, rfl, rfl⟩

-- A message is accepted, or ends the loop.
theorem step_message {now : Timespec} {started : Bool}
    (h : step lib s (.message now started payload) = some s') :
    (∃ m, Accepts lib payload m ∧ s' =
      { session := s.session.apply { toLib := lib, now, started } m
        now
        sent    := if m.announces then now else s.sent }) ∨
    (∀ m, ¬Accepts lib payload m) ∧ (s'.ended = some .rejected ∨ s'.ended = some .threw) := by
  simp only [step, Option.ite_none_right_eq_some, Option.some.injEq] at h
  obtain ⟨_, rfl⟩ := h
  by_cases hm : ∃ m, Accepts lib payload m
  case pos =>
    obtain ⟨m, hm⟩ := hm
    exact .inl ⟨m, hm, read_of_accepts hm⟩
  case neg => exact .inr ⟨not_exists.mp hm, read_ended (not_exists.mp hm)⟩

-- An iteration after which the loop goes on.
theorem step_running (h : step lib s a = some s') (he : s'.ended = none) :
    s'.now = a.now ∧ s'.sent = if a.announces lib then a.now else s.sent := by
  cases a
  case timeout now =>
    obtain ⟨hn, hs, _⟩ := step_timeout h
    exact ⟨hn, hs⟩
  case message now started payload =>
    rcases step_message h with ⟨m, hm, rfl⟩ | ⟨_, he' | he'⟩
    case inl => simp [Act.now, Act.announces, hm.right]
    all_goals simp [he'] at he

section

variable {session : Session} {start : Timespec} {as : List Act}

-- In a run which has not ended, the clock and the two time stamps are those of stopwatches.
theorem times (he : (machine lib session start).exec (machine lib session start).init as = some s)
    (hs : s.ended = none) : Stopwatch.Ordered (·.now.ns) start.ns as ∧
      s.now.ns = Stopwatch.finish (·.now.ns) start.ns as ∧
      s.sent.ns = Stopwatch.last (·.now.ns) (·.announces lib) start.ns as := by
  induction as using List.reverseRecOn generalizing s
  case nil =>
    cases he
    exact ⟨fun bs a h => by simp at h, rfl, rfl⟩
  case append_singleton as a hi =>
    have ⟨s₁, he, h⟩ := Machine.exec_concat_some.mp he
    obtain ⟨hn, hsent⟩ := step_running h hs
    obtain ⟨hs, hle⟩ := step_clock h
    obtain ⟨ho, hf, hl⟩ := hi he hs
    refine ⟨fun bs b hp => ?_, by simp [hn], ?_⟩
    · cases List.prefix_concat_iff.mp hp
      case inl hp =>
        obtain ⟨rfl, rfl⟩ := List.append_inj' hp rfl |>.imp_right List.singleton_inj.mp
        exact hf ▸ hle
      case inr hp => exact ho bs b hp
    · rw [Stopwatch.last_concat, hsent, ← hl]
      split <;> rfl

theorem ordered (he : (machine lib session start).exec (machine lib session start).init as = some s) :
    Stopwatch.Ordered (·.now.ns) start.ns as := by
  intro bs a hp
  obtain ⟨s', h'⟩ := Machine.exec_prefix he hp
  have ⟨s, he, h⟩ := Machine.exec_concat_some.mp h'
  obtain ⟨hs, hle⟩ := step_clock h
  exact (times he hs).right.left ▸ hle

end

-- When `select` returns, the last `NOTIFY_ALIVE` has been sent no longer than 5000 ms ago.
def HeartbeatInTime (s : State) (a : Act) : Prop :=
  a.now.ns - s.sent.ns ≤ 5000000000

-- `checkCastServerAlive` does not end the loop within 5000 ms of the latest `NOTIFY_ALIVE`.
def CheckFair (lib : Lib) (s : State) (a : Act) : Prop :=
  ∀ s' ∈ step lib s a, s'.ended = some .notAlive → 5000000000 < a.now.ns - s.session.aliveTime.ns

-- When `select` returns, the latest `NOTIFY_ALIVE` has been processed no longer than 5500 ms ago.
def IterationInTime (s : State) (a : Act) : Prop :=
  a.now.ns - s.session.aliveTime.ns ≤ 5500000000

-- The next iteration is in time, whatever `select` reports.
def State.InTime (lib : Lib) (s : State) : Prop :=
  ∀ a s', step lib s a = some s' → IterationInTime s a

-- More than 5000 ms after the latest `NOTIFY_ALIVE` there is no message which `doParse` accepts, except the next
-- `NOTIFY_ALIVE`, and no timeout within the millisecond which the check cuts off.
def Timely (lib : Lib) (s : State) : Act → Prop
  | .timeout now           => now.ns - s.session.aliveTime.ns ≤ 5000000000 ∨
      5001000000 ≤ now.ns - s.session.aliveTime.ns
  | .message now _ payload => now.ns - s.session.aliveTime.ns ≤ 5000000000 ∨
      ∀ m, Accepts lib payload m → m.isAlive

instance (s : State) (a : Act) : Decidable (HeartbeatInTime s a) :=
  inferInstanceAs (Decidable (_ ≤ _))

instance (s : State) (a : Act) : Decidable (IterationInTime s a) :=
  inferInstanceAs (Decidable (_ ≤ _))

-- The heartbeat is in time if and only if no series of messages which send none takes longer than 5000 ms,
-- together with the iteration which ends it.
theorem heartbeat_iff {session : Session} {start : Timespec} {as : List Act}
    (he : (machine lib session start).exec (machine lib session start).init as = some s) :
    (machine lib session start).Meets HeartbeatInTime as ↔
      ∀ bs cs a, bs ++ cs ++ [a] <+: as → (∀ c ∈ cs, ¬c.announces lib) →
        a.now.ns - Stopwatch.finish (·.now.ns) start.ns bs ≤ 5000000000 := by
  rw [← Stopwatch.within_iff (ordered he)]
  refine forall₂_congr fun bs a => ⟨fun h hp => ?_, fun h s₁ hp h₁ => ?_⟩
  case refine_1 =>
    obtain ⟨s', h'⟩ := Machine.exec_prefix he hp
    have ⟨s₁, h₁, hstep⟩ := Machine.exec_concat_some.mp h'
    exact (times h₁ (step_clock hstep).left).right.right ▸ h s₁ hp h₁
  case refine_2 =>
    obtain ⟨s', hstep⟩ := Machine.Meets.executed he bs a s₁ hp h₁
    have hl := (times h₁ (step_clock hstep).left).right.right
    have := h hp
    rwa [← hl] at this

theorem checkFair : CheckFair lib s a := by
  intro s' (h : step lib s a = some s') he
  cases a
  case timeout now =>
    obtain ⟨_, _, _, hc⟩ := step_timeout h
    have hc : ¬checkCastServerAlive s.session.aliveTime now := by simpa [he] using hc
    rw [checkCastServerAlive_iff] at hc
    simp only [Act.now]
    omega
  case message now started payload =>
    rcases step_message h with ⟨m, _, rfl⟩ | ⟨_, he' | he'⟩
    case inl => cases he
    all_goals simp [he'] at he

-- The next timeout is the latest iteration there can be.
theorem State.inTime_iff :
    s.InTime lib ↔ (s.ended = none → s.now.ns - s.session.aliveTime.ns ≤ 5000000000) := by
  constructor
  case mp =>
    intro h hs
    have hn : (Timespec.ofNs (s.now.ns + 500000000)).ns = s.now.ns + 500000000 := Timespec.ns_ofNs
    have h := h (.timeout (.ofNs (s.now.ns + 500000000))) _ (if_pos ⟨hs, hn⟩)
    simp only [IterationInTime, Act.now, hn] at h
    omega
  case mpr =>
    intro h a s' hs
    obtain ⟨he, hle⟩ := step_within hs
    have := h he
    simp only [IterationInTime]
    omega

-- The check lets a timeout pass for 5001 ms, a `NOTIFY_ALIVE` restarts the count, and any other message which
-- is accepted makes the loop go on.
theorem inTime_step (h : step lib s a = some s') : s'.InTime lib ↔ Timely lib s a := by
  rw [State.inTime_iff]
  cases a
  case timeout now =>
    obtain ⟨hn, _, ha, hc⟩ := step_timeout h
    rw [hn, ha, hc]
    simp only [Timely, ite_eq_left_iff, reduceCtorEq, imp_false, not_not, checkCastServerAlive_iff]
    omega
  case message now started payload =>
    rcases step_message h with ⟨m, hm, rfl⟩ | ⟨hn, he⟩
    case inr =>
      refine iff_of_true (fun he' => ?_) (.inr fun m hm => absurd hm (hn m))
      rcases he with he | he <;> simp [he'] at he
    case inl =>
      have ht : Timely lib s (.message now started payload) ↔
          now.ns - s.session.aliveTime.ns ≤ 5000000000 ∨ m.isAlive := by
        refine or_congr_right ⟨fun ht => ht m hm, fun ht m' hm' => ?_⟩
        cases hm.right.symm.trans hm'.right
        exact ht
      rw [ht]
      by_cases ha : m.isAlive <;> simp [aliveTime_apply, ha]

-- No iteration is late, in the run or after it, if and only if what `select` reports is timely. That a live
-- tablet is not dropped is always so.
theorem liveness_iff {session : Session} {start : Timespec} {as : List Act}
    (he : (machine lib session start).exec (machine lib session start).init as = some s) :
    ((machine lib session start).Meets IterationInTime as ∧
        (machine lib session start).Always (State.InTime lib) as ∧
        (machine lib session start).Meets (CheckFair lib) as) ↔
      (machine lib session start).Meets (Timely lib) as := by
  have hi : (machine lib session start).Always (State.InTime lib) as ↔
      (machine lib session start).Meets (Timely lib) as :=
    Machine.always_iff he (State.inTime_iff.mpr fun _ => by simp [machine]) fun _ _ h => inTime_step h
  constructor
  case mp => exact fun h => hi.mp h.right.left
  case mpr =>
    intro ht
    have ha := hi.mpr ht
    refine ⟨fun bs a s₁ hp h₁ => ?_, ha, fun _ _ _ _ _ => checkFair⟩
    have ⟨s₂, h⟩ := Machine.Meets.executed he bs a s₁ hp h₁
    exact ha bs s₁ ((List.prefix_append ..).trans hp) h₁ a s₂ h

-- A jsoncpp which knows two texts, a playback position and a heartbeat of the tablet.
def position : Bytes :=
  ascii "\x7b\"Cmd\":6,\"Position\":1\x7d"

def alive : Bytes :=
  ascii "\x7b\"Cmd\":103\x7d"

def positionLib : Lib where
  parse p          :=
    if p = position
    then .ok (some (.object [(ascii "Cmd", .int 6), (ascii "Position", .int 1)]))
    else if p = alive
    then .ok (some (.object [(ascii "Cmd", .int 103)]))
    else .ok none
  doubleToString _ := []

-- The clock of a session, in milliseconds from its beginning.
def after (ms : Nat) : Timespec :=
  { sec := ms / 1000, nsec := ms % 1000 * 1000000 }

-- A playback position every 400 ms.
def positions (n : Nat) : List Act :=
  (List.range n).map fun i => .message (after (400 * (i + 1))) true position

-- A few messages between timeouts.
def quiet : List Act :=
  [.timeout (after 500), .message (after 700) true alive, .message (after 1100) true position,
   .timeout (after 1600)]

theorem quiet_heartbeat : ∃ s, (machine positionLib {} (after 0)).exec
      (machine positionLib {} (after 0)).init quiet = some s ∧
    ∀ bs cs a, bs ++ cs ++ [a] <+: quiet → (∀ c ∈ cs, ¬c.announces positionLib) →
      a.now.ns - Stopwatch.finish (·.now.ns) (after 0).ns bs ≤ 5000000000 :=
  have ⟨s, he, _⟩ := (machine positionLib {} (after 0)).exec_of_any quiet (fun _ => true) (by decide)
  ⟨s, he, (heartbeat_iff he).mp (by decide)⟩

theorem quiet_liveness : ∃ s, (machine positionLib {} (after 0)).exec
      (machine positionLib {} (after 0)).init quiet = some s ∧
    (machine positionLib {} (after 0)).Meets IterationInTime quiet ∧
    (machine positionLib {} (after 0)).Always (State.InTime positionLib) quiet ∧
    (machine positionLib {} (after 0)).Meets (CheckFair positionLib) quiet := by
  have ⟨s, he, _⟩ := (machine positionLib {} (after 0)).exec_of_any quiet (fun _ => true) (by decide)
  refine ⟨s, he, (liveness_iff he).mpr ?_⟩
  have hm : (machine positionLib {} (after 0)).Meets
      (fun s a => a.now.ns - s.session.aliveTime.ns ≤ 5000000000) quiet := by decide
  refine hm.mono fun s a h => ?_
  cases a <;> exact .inl h

-- Thirteen positions leave no time for a heartbeat.
theorem positions_silent : ∃ s, (machine positionLib {} (after 0)).exec
      (machine positionLib {} (after 0)).init (positions 13) = some s ∧ s.ended = none ∧
    s.now.ns - s.sent.ns = 5200000000 ∧
    ¬(machine positionLib {} (after 0)).Meets HeartbeatInTime (positions 13) := by
  have ⟨s, he, hs⟩ := (machine positionLib {} (after 0)).exec_of_any (positions 13)
    (fun s => s.ended = none ∧ s.now.ns - s.sent.ns = 5200000000) (by decide)
  have ⟨hn, hs⟩ := of_decide_eq_true hs
  exact ⟨s, he, hn, hs, by decide⟩

-- Nor does the loop ask whether the tablet is alive: the fourteenth is read 5600 ms after the beginning.
theorem positions_undetected : ∃ s, (machine positionLib {} (after 0)).exec
      (machine positionLib {} (after 0)).init (positions 14) = some s ∧ s.ended = none ∧
    s.now.ns - s.session.aliveTime.ns = 5600000000 ∧
    ¬(machine positionLib {} (after 0)).Meets IterationInTime (positions 14) := by
  have ⟨s, he, hs⟩ := (machine positionLib {} (after 0)).exec_of_any (positions 14)
    (fun s => s.ended = none ∧ s.now.ns - s.session.aliveTime.ns = 5600000000) (by decide)
  have ⟨hn, hs⟩ := of_decide_eq_true hs
  exact ⟨s, he, hn, hs, by decide⟩

end SessionLoop

end LightningCastClient
