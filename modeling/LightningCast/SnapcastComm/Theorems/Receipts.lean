import LightningCast.SnapcastComm.Theorems.Connection
import Mathlib.Data.List.Perm.Basic

def Request.key (r : Request) : Nat × PlayerCmd :=
  (r.id, r.cmd)

def Receipt.key (c : Receipt) : Nat × PlayerCmd :=
  (c.id, c.cmd)

def PlayerMsg.keys : PlayerMsg → List (Nat × PlayerCmd)
  | .receipt c => [c.key]
  | .malformed => []

-- The requests on a connection which the player has not answered, and its receipts which have not been
-- read.
def PlayerFd.flight : PlayerFd → List (Nat × PlayerCmd)
  | .conn k         => k.requests.map Request.key ++ k.inbox.flatMap PlayerMsg.keys
  | .none | .socket => []

@[simp]
theorem PlayerFd.flight_cutShort {part : Bool} : (fd : PlayerFd) → (fd.cutShort part).flight = fd.flight
  | .conn _ | .none | .socket => rfl

theorem PlayerFd.flight_answer {k : PlayerConn} {r : Request} {result : Bool}
    (h : k.requests.head? = some r) :
    (PlayerFd.conn { k with
      requests := k.requests.tail
      inbox    := k.inbox ++ [.receipt { id := r.id, cmd := r.cmd, result }] }).flight.Perm
    (PlayerFd.conn k).flight := by
  obtain ⟨rs, hk⟩ := List.head?_eq_some_iff.mp h
  simp only [flight, hk, List.tail_cons, List.flatMap_append, List.map_cons, List.cons_append,
    ← List.append_assoc]
  exact List.perm_append_singleton ..

namespace SnapcastComm

def HandlerPc.held : HandlerPc → List Receipt
  | .parse c _ | .signal c _ => [c]
  | _                        => []

@[simp]
theorem HandlerPc.held_ofTurn : (t : Mailbox.Turn) → (ofTurn t).held = []
  | .doOpen | .wait | .exit => rfl

-- All requests and receipts on the way, from `processSend` to the consumption of `pending`.
def State.flight (s : State) : List (Nat × PlayerCmd) :=
  s.comm.serverFd.flight ++ s.handler.held.map Receipt.key ++ s.history.signals.map Receipt.key

-- The request of a caller in `LockWait`.
def Call.awaits : Call → Option Request
  | .lockWait r | .blocked r => some r
  | _                        => none

-- The request of a caller between its `processSend` and its return.
def Call.engaged : Call → Option Request
  | .lockWait r | .blocked r | .result r => some r
  | _                                    => none

-- The thread which sends a request with an action.
def Act.sender : Act → Option Thread
  | .send t .. | .cut t .. => some t
  | _                      => none

-- The steps at which something can leave the flight.
def Act.drops : Act → Bool
  | .consume .. | .teardown => true
  | _                       => false

-- The steps which change the history.
def Act.records : Act → Bool
  | .lockSignal .. | .consume .. | .started .. => true
  | _                                          => false

namespace State

def awaits (s : State) (t : Thread) : Option Request :=
  (s.call t).bind Call.awaits

def engaged (s : State) (t : Thread) : Option Request :=
  (s.call t).bind Call.engaged

variable {s s' : State} {a : Act} {t : Thread} {r : Request}

theorem engaged_of_awaits (h : s.awaits t = some r) : s.engaged t = some r := by
  obtain ⟨c, hc, hr⟩ := Option.bind_eq_some_iff.mp h
  cases c <;> simp_all [engaged, Call.awaits, Call.engaged]

theorem TestsPending.awaits (h : s.TestsPending t r) : s.awaits t = some r := by
  rcases h with h | ⟨h, _⟩ <;> simp [State.awaits, h, Call.awaits]

theorem engaged_step (h : SnapcastComm.step s a = some s') (he : s'.engaged t = some r) :
    s.engaged t = some r ∨ a.sender = some t ∧ r.id = s.requests := by
  unfold engaged at he ⊢
  cases a <;> simp only [SnapcastComm.step, Option.ite_none_right_eq_some, Option.some.injEq] at h <;>
    obtain ⟨hg, rfl⟩ := h <;>
    simp only [goto_call, done_call, read_call, consumed_call, startedWith_call,
      turn_call, Function.update_apply] at he
  all_goals grind [Call.engaged, TestsReady, TestsPending, request, Call.after, Act.sender]

theorem awaits_step (h : SnapcastComm.step s a = some s') (hr : s.awaits t = some r) :
    s'.awaits t = some r ∨ a = .consume t r := by
  unfold awaits at hr ⊢
  cases a <;> simp only [SnapcastComm.step, Option.ite_none_right_eq_some, Option.some.injEq] at h <;>
    obtain ⟨hg, rfl⟩ := h <;>
    simp only [goto_call, done_call, read_call, consumed_call, startedWith_call,
      turn_call, Function.update_apply]
  all_goals grind [Call.awaits, TestsReady, TestsPending]

theorem awaits_of_step (h : SnapcastComm.step s a = some s') (hr : s'.awaits t = some r) :
    s.awaits t = some r ∨ a.sender = some t ∧ r.id = s.requests := by
  unfold awaits at hr ⊢
  cases a <;> simp only [SnapcastComm.step, Option.ite_none_right_eq_some, Option.some.injEq] at h <;>
    obtain ⟨hg, rfl⟩ := h <;>
    simp only [goto_call, done_call, read_call, consumed_call, startedWith_call,
      turn_call, Function.update_apply] at hr
  all_goals grind [Call.awaits, TestsReady, TestsPending, Call.after, request, Act.sender]

theorem requests_step (h : SnapcastComm.step s a = some s') :
    s'.requests = if a.sender = none then s.requests else s.requests + 1 := by
  cases a <;> simp only [SnapcastComm.step, Option.ite_none_right_eq_some, Option.some.injEq] at h <;>
    obtain ⟨hg, rfl⟩ := h <;> simp [Act.sender, turn, consumed, startedWith]

theorem history_step (h : SnapcastComm.step s a = some s') (ha : ¬a.records) :
    s'.history = s.history ∧ s'.comm.pending = s.comm.pending := by
  cases a <;> simp only [SnapcastComm.step, Option.ite_none_right_eq_some, Option.some.injEq] at h <;>
    obtain ⟨hg, rfl⟩ := h
  case lockSignal | consume | started => simp [Act.records] at ha
  case doRead wake k => simp
  all_goals exact ⟨rfl, rfl⟩

theorem flight_step (hf : s.HoldsFd) (h : SnapcastComm.step s a = some s') (hs : a.sender = none)
    (hd : ¬a.drops) : s'.flight.Perm s.flight := by
  unfold HoldsFd at hf
  cases a <;> simp only [SnapcastComm.step, Option.ite_none_right_eq_some, Option.some.injEq] at h <;>
    obtain ⟨hg, rfl⟩ := h
  case send | cut         => simp [Act.sender] at hs
  case consume | teardown => simp [Act.drops] at hd
  case answer k r result =>
    simp only [flight, hg]
    exact (PlayerFd.flight_answer hg.right.right).append_right _ |>.append_right _
  case doRead wake k =>
    rcases s.read_cases wake k with ⟨c, msgs, hk, h⟩ | ⟨msgs, hk, h⟩ | ⟨hk, h⟩ <;> rw [h] <;>
      simp [flight, HandlerPc.held, PlayerFd.flight, PlayerMsg.keys, hg, hk]
    exact .append_left _ <| List.perm_middle
  case lockSignal c wake =>
    simp only [flight, HandlerPc.held, hg, List.append_assoc, List.map_append, List.map_nil,
      List.nil_append]
    exact .append_left _ <| List.perm_append_comm
  case handle | resume =>
    have hh : s.handler.held = [] := by rw [hg.left]; rfl
    simp [flight, turn, hh]
  case socket | connect => simp_all [flight, HandlerPc.held, PlayerFd.flight, HandlerPc.Holds]
  case loop | checkWake => split <;> simp [flight, hg, HandlerPc.held]
  case babble | hangUp => simp [flight, hg, PlayerFd.flight, PlayerMsg.keys]
  all_goals simp [flight, startedWith, openCmd, close, exit, setResult, lockFinishCmd, hg, HandlerPc.held]

-- What the history says in every run.
structure Recorded (s : State) : Prop where
  pending   : s.comm.pending ↔ s.history.signals ≠ []
  processed : s.history.processed = s.history.released.flatMap Prod.snd ++ s.history.signals
  released  : ∀ p ∈ s.history.released, p.1.id < s.requests
  engaged   : ∀ t, ∀ r ∈ s.engaged t, r.id < s.requests

theorem Recorded.step (i : s.Recorded) (h : SnapcastComm.step s a = some s') : s'.Recorded := by
  have hr := requests_step h
  have he (t r) (hr' : r ∈ s'.engaged t) : r.id < s'.requests := by
    cases engaged_step h hr'
    case inl he =>
      have := i.engaged t r he
      grind
    case inr => grind
  by_cases ha : a.records
  case neg =>
    obtain ⟨hh, hp⟩ := history_step h ha
    refine ⟨by rw [hh, hp]; exact i.pending, by rw [hh]; exact i.processed, fun p hp => ?_, he⟩
    have := i.released p (hh ▸ hp)
    grind
  case pos =>
    cases a <;> simp only [Act.records, Bool.false_eq_true] at ha <;>
      simp only [SnapcastComm.step, Option.ite_none_right_eq_some, Option.some.injEq] at h <;>
      obtain ⟨hg, rfl⟩ := h
    case lockSignal c wake => exact ⟨by simp, by simp [i.processed], i.released, he⟩
    case started t r       => exact ⟨i.pending, i.processed, i.released, he⟩
    case consume t r =>
      refine ⟨by simp [consumed], by simp [consumed, i.processed], ?_, he⟩
      simp only [consumed, List.forall_mem_append, List.forall_mem_singleton]
      exact ⟨i.released, i.engaged t r <| engaged_of_awaits hg.left.awaits⟩

end State

theorem recorded {s : State} (h : machine.Reachable s) : s.Recorded :=
  h.invariant ⟨by simp [machine], rfl, by simp [machine], by simp [machine, State.engaged]⟩
    State.Recorded.step

-- A request is sent only while no other call is between its `processSend` and its return.
def NoOverlap (s : State) (a : Act) : Prop :=
  a.sender ≠ none → ∀ t, s.engaged t = none

instance (s : State) (a : Act) : Decidable (NoOverlap s a) :=
  inferInstanceAs (Decidable (_ → _))

namespace State

variable {s s' : State} {a : Act} {t : Thread} {r : Request}

-- At most one call is engaged, and only its request is on the way.
structure Matched (s : State) : Prop where
  alone  : ∀ {t t' r r'}, s.engaged t = some r → s.engaged t' = some r' → t = t'
  flight : s.flight = [] ∨ ∃ t r, s.awaits t = some r ∧ s.flight = [r.key]
  own    : ∀ p ∈ s.history.released, p.2.map Receipt.key = [p.1.key]
  fresh  : ∀ {t r}, s.awaits t = some r → ∀ p ∈ s.history.released, p.1.id ≠ r.id
  nodup  : (s.history.released.map (·.1.id)).Nodup

theorem Matched.init : machine.init.Matched where
  alone  := by simp [machine, engaged]
  flight := .inl rfl
  own    := by simp [machine]
  fresh  := by simp [machine, awaits]
  nodup  := .nil

theorem Matched.flight_nil (i : s.Matched) (hn : NoOverlap s a) (ha : a.sender ≠ none) : s.flight = [] := by
  cases i.flight
  case inl hf => exact hf
  case inr hw =>
    obtain ⟨t, r, hw, _⟩ := hw
    have := engaged_of_awaits hw
    simp [hn ha t] at this

-- A receipt which sets `pending` is that of the waiting call.
theorem Matched.consume (i : s.Matched) (hr : s.Recorded) (hw : s.awaits t = some r) (hp : s.comm.pending) :
    s.history.signals.map Receipt.key = [r.key] ∧ (s.consumed t r).flight = [] := by
  have hf : s.flight = (s.consumed t r).flight ++ s.history.signals.map Receipt.key := by
    simp [State.flight, consumed]
  have hs : s.history.signals.map Receipt.key ≠ [] := by simpa using hr.pending.mp hp
  rcases i.flight with h | ⟨t', r', hw', h⟩ <;> rw [hf] at h
  case inl => exact absurd (List.append_eq_nil_iff.mp h).right hs
  case inr =>
    cases i.alone (engaged_of_awaits hw) (engaged_of_awaits hw')
    cases hw.symm.trans hw'
    cases List.append_eq_singleton_iff.mp h
    case inl h => exact ⟨h.right, h.left⟩
    case inr h => exact absurd h.right hs

theorem Matched.alone_step (i : s.Matched) (hn : NoOverlap s a) (h : SnapcastComm.step s a = some s')
    {t t' : Thread} {r r' : Request} (ht : s'.engaged t = some r) (ht' : s'.engaged t' = some r') :
    t = t' := by
  rcases engaged_step h ht with ht | ⟨ht, _⟩ <;> rcases engaged_step h ht' with ht' | ⟨ht', _⟩
  · exact i.alone ht ht'
  · simp [hn (by simp [ht']) t] at ht
  · simp [hn (by simp [ht]) t'] at ht'
  · exact Option.some_inj.mp (ht.symm.trans ht')

theorem Matched.flight_step (i : s.Matched) (hfd : s.HoldsFd) (hr : s.Recorded) (hn : NoOverlap s a)
    (h : SnapcastComm.step s a = some s') :
    s'.flight = [] ∨ ∃ t r, s'.awaits t = some r ∧ s'.flight = [r.key] := by
  by_cases hs : a.sender = none
  case neg =>
    have hf := i.flight_nil hn hs
    cases a <;> simp only [Act.sender, not_true] at hs <;>
      simp only [SnapcastComm.step, Option.ite_none_right_eq_some, Option.some.injEq] at h <;>
      obtain ⟨hg, rfl⟩ := h
    case cut   => exact .inl <| by simpa [State.flight] using hf
    case send t c k =>
      simp only [State.flight, hg, PlayerFd.flight, List.append_eq_nil_iff, List.map_eq_nil_iff] at hf
      simp only [State.flight, hf, PlayerFd.flight, PlayerConn.accept]
      split
      case isTrue  => simp [hf]
      case isFalse => exact .inr ⟨t, s.request c (some k.id), by simp [awaits, Call.awaits], by simp [hf]⟩
  case pos =>
    by_cases hd : a.drops
    case neg =>
      have hp := State.flight_step hfd h hs hd
      cases i.flight
      case inl hf =>
        rw [hf] at hp
        exact .inl hp.eq_nil
      case inr hf =>
        obtain ⟨t, r, hw, hf⟩ := hf
        rw [hf] at hp
        cases awaits_step h hw
        case inl hw => exact .inr ⟨t, r, hw, List.perm_singleton.mp hp⟩
        case inr ha => simp [ha, Act.drops] at hd
    case pos =>
      cases a <;> simp only [Act.drops, Bool.false_eq_true] at hd
      case consume t r =>
        simp only [SnapcastComm.step, Option.ite_none_right_eq_some, Option.some.injEq] at h
        obtain ⟨⟨hw, hp⟩, rfl⟩ := h
        exact .inl (i.consume hr hw.awaits hp).right
      case teardown =>
        simp only [SnapcastComm.step, Option.ite_none_right_eq_some, Option.some.injEq] at h
        obtain ⟨hg, rfl⟩ := h
        rcases i.flight with hf | ⟨t, r, hw, hf⟩ <;>
          simp only [State.flight, hg, HandlerPc.held, PlayerFd.flight, List.map_nil, List.append_nil,
            List.nil_append] at hf ⊢
        case inl => exact .inl (List.append_eq_nil_iff.mp hf).right
        case inr =>
          cases List.append_eq_singleton_iff.mp hf
          case inl hf => exact .inr ⟨t, r, hw, hf.right⟩
          case inr hf => exact .inl hf.right

theorem Matched.fresh_step (i : s.Matched) (hr : s.Recorded) (h : SnapcastComm.step s a = some s')
    (hw : s'.awaits t = some r) : ∀ p ∈ s.history.released, p.1.id ≠ r.id := by
  cases awaits_of_step h hw
  case inl hw => exact i.fresh hw
  case inr he => exact fun p hp => he.right ▸ (hr.released p hp).ne

theorem Matched.fresh_consume (i : s.Matched) (hw : s.awaits t = some r) {t' : Thread} {r' : Request} :
    (s.consumed t r).awaits t' ≠ some r' := by
  intro hw'
  by_cases ht : t' = t
  case pos => cases hc : r.cmd <;> simp [ht, awaits, Call.after, hc, Call.awaits] at hw'
  case neg =>
    have hw' : s.awaits t' = some r' := by simpa [awaits, ht] using hw'
    exact ht <| i.alone (engaged_of_awaits hw') (engaged_of_awaits hw)

theorem Matched.step (i : s.Matched) (hfd : s.HoldsFd) (hr : s.Recorded) (hn : NoOverlap s a)
    (h : SnapcastComm.step s a = some s') : s'.Matched := by
  have alone {t t' r r'} : s'.engaged t = some r → s'.engaged t' = some r' → t = t' := i.alone_step hn h
  have flight := i.flight_step hfd hr hn h
  have fresh {t r} := i.fresh_step hr h (t := t) (r := r)
  by_cases ha : a.records
  case neg =>
    have hh := (history_step h ha).left
    exact ⟨alone, flight, hh ▸ i.own, hh ▸ fresh, hh ▸ i.nodup⟩
  case pos =>
    cases a <;> simp only [Act.records, Bool.false_eq_true] at ha <;>
      simp only [SnapcastComm.step, Option.ite_none_right_eq_some, Option.some.injEq] at h <;>
      obtain ⟨hg, rfl⟩ := h
    case lockSignal c wake => exact ⟨alone, flight, i.own, fresh, i.nodup⟩
    case started t r       => exact ⟨alone, flight, i.own, fresh, i.nodup⟩
    case consume t r =>
      have hw := hg.left.awaits
      have hs := (i.consume hr hw hg.right).left
      refine ⟨alone, flight, ?_, fun hw' => absurd hw' (i.fresh_consume hw), ?_⟩
      · simpa only [consumed, List.forall_mem_append, List.forall_mem_singleton] using ⟨i.own, hs⟩
      · simpa only [consumed, List.map_append, List.map_singleton, List.nodup_append_comm,
          List.singleton_append, List.nodup_cons, List.mem_map, not_exists, not_and]
          using ⟨i.fresh hw, i.nodup⟩

end State
-- The receipts which have taken effect and have not released a call.
def HandlerPc.signals : HandlerPc → List Receipt
  | .signal c _ => [c]
  | _           => []

theorem HandlerPc.signals_ofTurn : (t : Mailbox.Turn) → (ofTurn t).signals = []
  | .doOpen | .wait | .exit => rfl

-- The steps which write `send_start_result`.
def Act.setsResult : Act → Bool
  | .reset .. | .parse .. => true
  | _                     => false

namespace State

variable {s s' : State} {a : Act} {t : Thread} {r : Request} {c : Receipt}

def effective (s : State) : List Receipt :=
  s.handler.signals ++ s.history.signals

structure Started (s : State) : Prop where
  effective : ∀ c ∈ s.effective, c.cmd = .START → s.comm.sendStartResult = c.result
  result    : ∀ t r, s.call t = some (.result r) →
    ∃ c ∈ s.history.processed, c.key = r.key ∧ c.result = s.comm.sendStartResult
  started   : ∀ p ∈ s.history.started, ∃ c ∈ s.history.processed, c.key = p.1.key ∧ c.result = p.2

theorem effective_step (h : SnapcastComm.step s a = some s') (ha : ∀ c wake, a ≠ .parse c wake)
    (hc : c ∈ s'.effective) : c ∈ s.effective := by
  unfold effective at hc ⊢
  cases a <;> simp only [SnapcastComm.step, Option.ite_none_right_eq_some, Option.some.injEq] at h <;>
    obtain ⟨hg, rfl⟩ := h
  case parse c wake => exact absurd rfl (ha c wake)
  case doRead wake k =>
    rcases s.read_cases wake k with ⟨_, _, _, h⟩ | ⟨_, _, h⟩ | ⟨_, h⟩ <;> rw [h] at hc <;>
      exact List.mem_append_right _ hc
  case handle | resume =>
    simp only [turn, HandlerPc.signals_ofTurn] at hc
    exact List.mem_append_right _ hc
  case loop | checkWake =>
    apply List.mem_append_right
    split at hc <;> exact hc
  case lockSignal c' wake =>
    rw [hg]
    simpa [HandlerPc.signals, or_comm] using hc
  case consume t r => exact List.mem_append_left _ (by simpa [consumed] using hc)
  case send | cut | refuse | reset | openCmd | close | exit | rewait | opened | closed | spurious =>
    exact hc
  case doPlay | doPause | doStop | block | started | answer | babble | hangUp => exact hc
  all_goals exact List.mem_append_right _ hc

theorem sendStartResult_step (h : SnapcastComm.step s a = some s') (ha : ¬a.setsResult) :
    s'.comm.sendStartResult = s.comm.sendStartResult := by
  cases a <;> simp only [SnapcastComm.step, Option.ite_none_right_eq_some, Option.some.injEq] at h <;>
    obtain ⟨hg, rfl⟩ := h
  case reset | parse => simp [Act.setsResult] at ha
  case doRead wake k => simp
  all_goals rfl

theorem result_step (h : SnapcastComm.step s a = some s') (hr : s'.call t = some (.result r)) :
    s.call t = some (.result r) ∨ a = .consume t r ∧ r.cmd = .START := by
  cases a <;> simp only [SnapcastComm.step, Option.ite_none_right_eq_some, Option.some.injEq] at h <;>
    obtain ⟨hg, rfl⟩ := h <;>
    simp only [goto_call, done_call, read_call, consumed_call, startedWith_call,
      turn_call, Function.update_apply] at hr
  all_goals grind [Call.after]

theorem started_step (h : SnapcastComm.step s a = some s') {p : Request × Bool}
    (hp : p ∈ s'.history.started) :
    p ∈ s.history.started ∨ ∃ t, s.call t = some (.result p.1) ∧ p.2 = s.comm.sendStartResult := by
  by_cases ha : a.records
  case neg => exact .inl <| (history_step h ha).left ▸ hp
  case pos =>
    cases a <;> simp only [Act.records, Bool.false_eq_true] at ha <;>
      simp only [SnapcastComm.step, Option.ite_none_right_eq_some, Option.some.injEq] at h <;>
      obtain ⟨hg, rfl⟩ := h
    case lockSignal | consume => exact .inl hp
    case started t r =>
      cases List.mem_append.mp hp
      case inl hp => exact .inl hp
      case inr hp =>
        cases List.mem_singleton.mp hp
        exact .inr ⟨t, hg, rfl⟩

theorem processed_step (h : SnapcastComm.step s a = some s') (hc : c ∈ s.history.processed) :
    c ∈ s'.history.processed := by
  by_cases ha : a.records
  case neg => rwa [(history_step h ha).left]
  case pos =>
    cases a <;> simp only [Act.records, Bool.false_eq_true] at ha <;>
      simp only [SnapcastComm.step, Option.ite_none_right_eq_some, Option.some.injEq] at h <;>
      obtain ⟨hg, rfl⟩ := h
    case lockSignal => exact List.mem_append_left _ hc
    all_goals exact hc

theorem mem_flight_of_effective (hc : c ∈ s.effective) : c.key ∈ s.flight := by
  cases List.mem_append.mp hc
  case inr hc => exact List.mem_append_right _ <| List.mem_map_of_mem hc
  case inl hc =>
    apply List.mem_append_left
    apply List.mem_append_right
    apply List.mem_map_of_mem
    cases hs : s.handler <;> simp_all [HandlerPc.signals, HandlerPc.held]

-- Only the client thread waits for a `START` which is on the way.
theorem Matched.client_awaits (i : s.Matched) (hp : s.ClientPlays) (hf : c.key ∈ s.flight)
    (hc : c.cmd = .START) : ∃ r, s.awaits .client = some r := by
  rcases i.flight with h | ⟨t, r, hw, h⟩ <;> rw [h] at hf
  case inl => cases hf
  case inr =>
    have hk : r.cmd = .START := (congrArg Prod.snd (List.mem_singleton.mp hf)).symm.trans hc
    obtain ⟨k, hk', hr⟩ := Option.bind_eq_some_iff.mp hw
    have hpl : k.Plays := by cases k <;> simp_all [Call.awaits, Call.Plays]
    exact ⟨r, hp t k hk' hpl ▸ hw⟩

theorem Matched.of_parse (i : s.Matched) {wake : Bool} (h : s.handler = .parse c wake) :
    s.history.signals = [] ∧ ∃ t r, s.awaits t = some r := by
  have hf : s.flight = s.comm.serverFd.flight ++ [c.key] ++ s.history.signals.map Receipt.key := by
    simp [State.flight, h, HandlerPc.held]
  rcases i.flight with h | ⟨t, r, hw, h⟩ <;> rw [hf] at h
  case inl => simp at h
  case inr =>
    have := congrArg List.length h
    simp at this
    exact ⟨List.eq_nil_of_length_eq_zero (by omega), t, r, hw⟩

theorem Started.effect_step (i : s.Started) (hm : s.Matched) (hp : s.ClientPlays)
    (h : SnapcastComm.step s a = some s') :
    ∀ c ∈ s'.effective, c.cmd = .START → s'.comm.sendStartResult = c.result := by
  intro c hc hs
  by_cases ha : a.setsResult
  case neg =>
    rw [sendStartResult_step h ha]
    refine i.effective c (State.effective_step h ?_ hc) hs
    rintro c wake rfl
    simp [Act.setsResult] at ha
  case pos =>
    cases a <;> simp only [Act.setsResult, Bool.false_eq_true] at ha <;>
      simp only [SnapcastComm.step, Option.ite_none_right_eq_some, Option.some.injEq] at h <;>
      obtain ⟨hg, rfl⟩ := h
    -- `sendStart` does not begin while its thread waits.
    case reset t =>
      obtain ⟨r, hw⟩ := hm.client_awaits hp (mem_flight_of_effective (s := s) hc) hs
      cases hp t _ hg trivial
      simp [awaits, hg, Call.awaits] at hw
    case parse c' wake =>
      have hn := (hm.of_parse hg).left
      simp only [State.effective, HandlerPc.signals, hn, List.append_nil, List.mem_singleton] at hc
      simp [setResult, ← hc, hs]

theorem Started.result_step (i : s.Started) (hm : s.Matched) (hp : s.ClientPlays) (hr : s.Recorded)
    (h : SnapcastComm.step s a = some s') (ht : s'.call t = some (.result r)) :
    ∃ c ∈ s'.history.processed, c.key = r.key ∧ c.result = s'.comm.sendStartResult := by
  rcases State.result_step h ht with hc | ⟨rfl, hs⟩
  case inl =>
    obtain ⟨c, hm', hk, hv⟩ := i.result t r hc
    refine ⟨c, processed_step h hm', hk, ?_⟩
    by_cases ha : a.setsResult
    case neg => rw [hv, sendStartResult_step h ha]
    case pos =>
      cases a <;> simp only [Act.setsResult, Bool.false_eq_true] at ha <;>
        simp only [SnapcastComm.step, Option.ite_none_right_eq_some, Option.some.injEq] at h <;>
        obtain ⟨hg, rfl⟩ := h
      case reset t' =>
        cases hp t _ hc trivial
        cases hp t' _ hg trivial
        cases hc.symm.trans hg
      case parse c' wake =>
        obtain ⟨_, t', r', hw⟩ := hm.of_parse hg
        have he : s.engaged t = some r := by simp [engaged, hc, Call.engaged]
        cases hm.alone (engaged_of_awaits hw) he
        simp [awaits, hc, Call.awaits] at hw
  case inr =>
    simp only [SnapcastComm.step, Option.ite_none_right_eq_some, Option.some.injEq] at h
    obtain ⟨hg, rfl⟩ := h
    have hk := (hm.consume hr hg.left.awaits hg.right).left
    obtain ⟨c, hc, hk⟩ := List.map_eq_singleton_iff.mp hk
    have hmem : c ∈ s.history.signals := by simp [hc]
    refine ⟨c, ?_, hk, ?_⟩
    · simp [consumed, hr.processed, hmem]
    · have hs' : c.cmd = .START := (congrArg Prod.snd hk).trans hs
      exact (i.effective c (List.mem_append_right _ hmem) hs').symm

theorem Started.step (i : s.Started) (hm : s.Matched) (hp : s.ClientPlays) (hr : s.Recorded)
    (h : SnapcastComm.step s a = some s') : s'.Started where
  effective   := i.effect_step hm hp h
  result _ _  := i.result_step hm hp hr h
  started p hs := by
    cases State.started_step h hs
    case inl hs =>
      have ⟨c, hc, hk⟩ := i.started p hs
      exact ⟨c, processed_step h hc, hk⟩
    case inr hs =>
      have ⟨t, hs, hv⟩ := hs
      have ⟨c, hc, hk⟩ := i.result t p.1 hs
      exact ⟨c, processed_step h hc, hv ▸ hk⟩

-- Each call which has returned from `LockWait` was released by its own receipt and by no other, no
-- receipt has released two calls, none has been merged with another one, and `sendStart` has returned
-- the result in its own receipt.
structure ReceiptsMatch (s : State) : Prop where
  own    : ∀ p ∈ s.history.released, p.2.map Receipt.key = [p.1.key]
  once   : ((s.history.released.flatMap Prod.snd).map Receipt.id).Nodup
  merged : s.history.signals.length ≤ 1
  result : ∀ p ∈ s.history.started, ∃ c ∈ s.history.processed, c.key = p.1.key ∧ c.result = p.2

theorem released_ids {l : List (Request × List Receipt)} (h : ∀ p ∈ l, p.2.map Receipt.key = [p.1.key]) :
    (l.flatMap Prod.snd).map Receipt.id = l.map (·.1.id) := by
  induction l
  case nil => rfl
  case cons p l hi =>
    simp only [List.forall_mem_cons] at h
    obtain ⟨c, hc, hk⟩ := List.map_eq_singleton_iff.mp h.left
    simp [hc, hi h.right, ← show c.id = p.1.id from congrArg Prod.fst hk]

theorem Matched.receiptsMatch (i : s.Matched) (hs : s.Started) : s.ReceiptsMatch where
  own    := i.own
  once   := released_ids i.own ▸ i.nodup
  merged := by
    have hf : s.flight.length ≤ 1 := by rcases i.flight with hf | ⟨_, _, _, hf⟩ <;> simp [hf]
    simp only [State.flight, List.length_append, List.length_map] at hf
    omega
  result := hs.started

end State

theorem matched {as : List Act} {s : State} (hn : machine.Meets NoOverlap as)
    (he : machine.exec machine.init as = some s) : s.Matched ∧ s.Started := by
  have hs : machine.init.Started := by constructor <;> simp [machine, State.effective, HandlerPc.signals]
  refine hn.invariant he (P := fun s => s.Matched ∧ s.Started) ⟨.init, hs⟩ ?_
  rintro s a s' hr ⟨i, j⟩ hn h
  exact ⟨i.step (holdsFd hr) (recorded hr) hn h, j.step i (client_plays hr) (recorded hr) h⟩

end SnapcastComm
