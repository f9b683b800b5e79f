import LightningCast.Tinysvcmdns.Theorems.Announce

open Machine (Reachable)
open ServicePublisher (Call)

namespace Mdns.Daemon

-- Actions of `main_loop`, and not of its callers.
def Act.IsLoop : Act → Prop
  | .call _ | .notify | .stop | .wake | .destroy => False
  | _                                            => True

-- Past the loop.
def Pc.IsPast : Pc → Prop
  | .terminating | .goodbye _ | .returned => True
  | _                                     => False

structure Inv (s : State) : Prop where
  svr       : s.svr.Announceable
  running   : s.stopper = .outside → s.stopFlag = 0 ∧ ¬s.pc.IsPast
  stopping  : s.stopper ≠ .outside → (s.stopFlag = 2 ↔ s.pc = .returned) ∧ s.stopFlag ≠ 0
  destroyed : s.stopper = .destroyed → s.pc = .returned
  announce  : s.pc = .loop ∨ s.pc = .select → s.svr.announce ≠ [] → s.notifying ∨ s.notifyPipe > 0
  stop      : s.pc = .select → s.stopFlag ≠ 0 → s.stopper = .flagged ∨ s.notifyPipe > 0
  goodbye   : ∀ reply, s.pc = .goodbye reply → reply.numQn = 0

section

variable {rr : Ptr → RrEntry} {s s' : State} {a : Act}

theorem inv_init : Inv (machine rr).init where
  svr       := ⟨.start rr, fun _ h => absurd h List.not_mem_nil, List.nodup_nil⟩
  running   := fun _ => ⟨rfl, id⟩
  stopping  := fun h => absurd rfl h
  destroyed := fun h => by cases h
  announce  := fun _ h => absurd rfl h
  stop      := fun h => by cases h
  goodbye   := fun _ h => by cases h

theorem inv_step (i : Inv s) (h : step s a = some s') : Inv s' := by
  have hsvr := i.svr
  cases a
  case call c =>
    obtain ⟨⟨hn, hd⟩, svr, hc, rfl⟩ := step_call.mp h
    obtain ⟨hs, l, ha, -, hr⟩ := call_lists i.svr hc
    refine ⟨hs, i.running, i.stopping, i.destroyed, fun hp hne => ?_, i.stop, i.goodbye⟩
    have := i.announce hp
    cases hreg : IsRegisterSvc c
    case true  => exact .inl rfl
    case false => simp_all
  case notify =>
    obtain ⟨hn, rfl⟩ := step_notify.mp h
    exact ⟨hsvr, i.running, i.stopping, i.destroyed, fun _ _ => .inr (Nat.succ_pos _), fun _ _ => .inr (Nat.succ_pos _),
      i.goodbye⟩
  case stop =>
    obtain ⟨ho, rfl⟩ := step_stop.mp h
    have := i.running ho
    have := i.announce
    have := i.goodbye
    refine ⟨hsvr, ?_, ?_, ?_, ?_, ?_, ?_⟩ <;> grind [Pc.IsPast]
  case wake =>
    obtain ⟨hf, rfl⟩ := step_wake.mp h
    have := i.stopping
    have := i.announce
    have := i.goodbye
    refine ⟨hsvr, ?_, ?_, ?_, ?_, ?_, ?_⟩ <;> grind
  case destroy =>
    obtain ⟨⟨hw, hf⟩, rfl⟩ := step_destroy.mp h
    have := i.stopping
    have := i.announce
    have := i.goodbye
    refine ⟨hsvr, ?_, ?_, ?_, ?_, ?_, ?_⟩ <;> grind
  case test =>
    obtain ⟨hp, rfl⟩ := step_test.mp h
    obtain ⟨-, hrun, hstop, hdes, hann, hst, hgb⟩ := i
    refine ⟨hsvr, ?_, ?_, ?_, ?_, ?_, ?_⟩ <;> grind [Pc.IsPast]
  case readPipe =>
    obtain ⟨⟨hp, hn⟩, rfl⟩ := step_readPipe.mp h
    obtain ⟨-, hrun, hstop, hdes, hann, hst, hgb⟩ := i
    refine ⟨hsvr, ?_, ?_, ?_, ?_, ?_, ?_⟩ <;> grind [Pc.IsPast]
  case receive =>
    obtain ⟨⟨hp, hn⟩, ⟨f, hf, rfl⟩ | ⟨packet, hr, rfl⟩⟩ := step_receive.mp h
    all_goals
      obtain ⟨-, hrun, hstop, hdes, hann, hst, hgb⟩ := i
      refine ⟨hsvr, ?_, ?_, ?_, ?_, ?_, ?_⟩ <;> grind [Pc.IsPast]
  case extract =>
    obtain ⟨hp, ⟨ha, rfl⟩ | ⟨annE, announce, ha, rfl⟩⟩ := step_extract.mp h
    all_goals obtain ⟨-, hrun, hstop, hdes, hann, hst, hgb⟩ := i
    · refine ⟨hsvr, ?_, ?_, ?_, ?_, ?_, ?_⟩ <;> grind [Pc.IsPast]
    · have hsvr' : Mdnsd.Announceable { s.svr with announce } :=
        ⟨⟨hsvr.names, hsvr.group, fun p hp => hsvr.announce p (ha ▸ List.mem_cons_of_mem _ hp), hsvr.services⟩,
          hsvr.pointers, hsvr.nodup⟩
      refine ⟨hsvr', ?_, ?_, ?_, ?_, ?_, ?_⟩ <;> grind [Pc.IsPast]
  case announce =>
    obtain ⟨annE, hp, ⟨f, hf, rfl⟩ | ⟨reply, hr, rfl⟩⟩ := step_announce.mp h
    all_goals
      obtain ⟨-, hrun, hstop, hdes, hann, hst, hgb⟩ := i
      refine ⟨hsvr, ?_, ?_, ?_, ?_, ?_, ?_⟩ <;> grind [Pc.IsPast]
  case collect =>
    obtain ⟨hp, rfl⟩ := step_collect.mp h
    obtain ⟨-, hrun, hstop, hdes, hann, hst, hgb⟩ := i
    rw [collect_eq hsvr.nodup]
    refine ⟨hsvr.expire _, ?_, ?_, ?_, ?_, ?_, ?_⟩ <;> grind [Pc.IsPast, mdnsInitReply, MdnsPkt.withAns]
  case goodbye =>
    obtain ⟨reply, hp, ⟨f, hf, rfl⟩ | ⟨packet, hs, rfl⟩⟩ := step_goodbye.mp h
    all_goals
      obtain ⟨-, hrun, hstop, hdes, hann, hst, hgb⟩ := i
      refine ⟨hsvr, ?_, ?_, ?_, ?_, ?_, ?_⟩ <;> grind [Pc.IsPast]

theorem inv (h : (machine rr).Reachable s) : Inv s :=
  h.invariant inv_init inv_step

-- `main_loop` does not wait while there is something to announce, or while it is to stop, unless the one who
-- wants it is about to write to the pipe.
theorem select_ready (h : (machine rr).Reachable s) (hp : s.pc = .select) :
    (s.svr.announce ≠ [] → s.notifying ∨ ∃ s', step s .readPipe = some s') ∧
    (s.stopFlag ≠ 0 → s.stopper = .flagged ∨ ∃ s', step s .readPipe = some s') := by
  have i := inv h
  have hr (hn : s.notifyPipe > 0) : ∃ s', step s .readPipe = some s' := ⟨_, step_readPipe.mpr ⟨⟨hp, hn⟩, rfl⟩⟩
  exact ⟨fun ha => (i.announce (.inr hp) ha).imp_right hr, fun hf => (i.stop hp hf).imp_right hr⟩

-- A service is registered.
def registered : List Act :=
  [.call (.setHostname (ascii "a") 5), .call (.registerSvc (ascii "b") (ascii "c") 7700 none []), .notify]

theorem select_ready_registered : ∃ s, (machine blank).exec (machine blank).init
    (registered ++ [.test]) = some s ∧ s.svr.announce ≠ [] ∧ ∃ s', step s .readPipe = some s' := by
  obtain ⟨s, he, hs⟩ := (machine blank).exec_of_any (registered ++ [.test])
    (fun s => s.pc = .select ∧ s.svr.announce ≠ [] ∧ s.notifying = false) (by decide +kernel)
  obtain ⟨hp, ha, hn⟩ := of_decide_eq_true hs
  exact ⟨s, he, ha, ((select_ready ⟨_, he⟩ hp).left ha).resolve_left (by simp [hn])⟩

-- For what there has been an announcement, in order, and what has been taken from the list to be announced.
def announced (sent : List Sent) : List Ptr :=
  sent.filterMap fun
    | .announce annE _ => some annE
    | _                => none

def Pc.extracted : Pc → List Ptr
  | .announce annE => [annE]
  | _              => []

-- The packet has the record at `p` among its answers, whatever its TTL is by now.
structure Announces (svr : Mdnsd) (p : Ptr) (pkt : MdnsPkt RrEntry) : Prop where
  fresh : p < svr.fresh
  count : pkt.numAnsRr.toNat = pkt.rrAns.length
  ans   : ∃ r ∈ pkt.rrAns, { r with ttl := 0 } = { svr.rr p with ttl := 0 }

-- As long as nothing goes wrong, everything which has been registered has been announced or is going to be.
structure InOrder (s : State) : Prop where
  order   : (∀ f, s.pc ≠ .failed f) → announced s.sent ++ s.pc.extracted ++ s.svr.announce = s.svr.services
  content : ∀ p bytes, .announce p bytes ∈ s.sent →
    ∃ pkt, Announces s.svr p pkt ∧ mdnsEncodePkt pkt PACKET_SIZE = .ok bytes

theorem announced_append (sent sent' : List Sent) : announced (sent ++ sent') = announced sent ++ announced sent' :=
  List.filterMap_append

-- A step of `main_loop` which neither takes something from the list nor announces it.
theorem InOrder.next (o : InOrder s) (hp : ∀ f, s.pc ≠ .failed f) (hs : s.pc.extracted = [])
    (hs' : s'.pc.extracted = []) (hsvr : s'.svr = s.svr) {l : List Sent} (hsent : s'.sent = s.sent ++ l)
    (hl : announced l = []) : InOrder s' where
  order _ := by
    have h := o.order hp
    rw [hs] at h
    rw [hs', hsvr, hsent, announced_append, hl, List.append_nil]
    exact h
  content p bytes hm := by
    rw [hsent] at hm
    rw [hsvr]
    rcases List.mem_append.mp hm with hm | hm
    · exact o.content p bytes hm
    · have hp : p ∈ announced l := List.mem_filterMap.mpr ⟨_, hm, rfl⟩
      rw [hl] at hp
      exact absurd hp List.not_mem_nil

-- A step with which it fails.
theorem InOrder.fail (o : InOrder s) (f : Fault) : InOrder { s with pc := .failed f } where
  order h := absurd rfl (h f)
  content := o.content

theorem sendReply_eq_ok {svr : Mdnsd} {reply : MdnsPkt Ptr} {packet : Option Bytes}
    (h : sendReply svr reply = .ok packet) (hn : reply.numAnsRr > 0) :
    mdnsEncodePkt (reply.map svr.rr) PACKET_SIZE = .ok packet :=
  (if_pos hn).symm.trans h

theorem inOrder_step (i : Inv s) (o : InOrder s) (hf : s.svr.fresh < 2 ^ 16) (h : step s a = some s') :
    InOrder s' := by
  have hnil : announced [] = [] := rfl
  cases a
  case call c =>
    obtain ⟨-, svr, hc, rfl⟩ := step_call.mp h
    obtain ⟨-, l, ha, hs, -⟩ := call_lists i.svr hc
    obtain ⟨hle, hrr⟩ := call_extends hc
    constructor
    case order => exact fun hp => by simp only [ha, hs, ← o.order hp, List.append_assoc]
    case content =>
      intro p bytes hm
      obtain ⟨pkt, ⟨hp, hn, hr⟩, he⟩ := o.content p bytes hm
      exact ⟨pkt, ⟨hp.trans_le hle, hn, hrr p hp ▸ hr⟩, he⟩
  case notify =>
    obtain ⟨-, rfl⟩ := step_notify.mp h
    exact ⟨o.order, o.content⟩
  case stop =>
    obtain ⟨-, rfl⟩ := step_stop.mp h
    exact ⟨o.order, o.content⟩
  case wake =>
    obtain ⟨-, rfl⟩ := step_wake.mp h
    exact ⟨o.order, o.content⟩
  case destroy =>
    obtain ⟨-, rfl⟩ := step_destroy.mp h
    exact ⟨o.order, o.content⟩
  case test =>
    obtain ⟨hp, rfl⟩ := step_test.mp h
    refine o.next (by simp [hp]) (hp ▸ rfl) ?_ rfl (List.append_nil _).symm hnil
    simp only
    split <;> rfl
  case readPipe =>
    obtain ⟨⟨hp, -⟩, rfl⟩ := step_readPipe.mp h
    exact o.next (by simp [hp]) (hp ▸ rfl) rfl rfl (List.append_nil _).symm hnil
  case receive =>
    obtain ⟨⟨hp, -⟩, ⟨f, -, rfl⟩ | ⟨packet, -, rfl⟩⟩ := step_receive.mp h
    · exact o.fail f
    · refine o.next (by simp [hp]) (hp ▸ rfl) rfl rfl rfl ?_
      cases packet <;> rfl
  case extract =>
    obtain ⟨hp, ⟨ha, rfl⟩ | ⟨annE, announce, ha, rfl⟩⟩ := step_extract.mp h
    · exact o.next (by simp [hp]) (hp ▸ rfl) rfl rfl (List.append_nil _).symm hnil
    · have ho := o.order (by simp [hp])
      rw [hp, ha] at ho
      refine ⟨fun _ => by simpa [Pc.extracted] using ho, fun p bytes hm => ?_⟩
      obtain ⟨pkt, ⟨hlt, hn, hr⟩, he⟩ := o.content p bytes hm
      exact ⟨pkt, ⟨hlt, hn, hr⟩, he⟩
  case announce =>
    obtain ⟨annE, hp, ⟨f, -, rfl⟩ | ⟨packet, hs, rfl⟩⟩ := step_announce.mp h
    · exact o.fail f
    · obtain ⟨reply, hok, -, hn, hnd, hans, -⟩ := announceSrv_ok i.svr (s.svr.rr annE).name
      rw [hok] at hs
      have hs : sendReply s.svr reply = .ok packet := hs
      have ho := o.order (by simp [hp])
      rw [hp] at ho
      have hm : annE ∈ s.svr.services := ho ▸ by simp [Pc.extracted]
      have hin : annE ∈ reply.rrAns :=
        (hans annE).mpr ⟨i.svr.services annE hm, .inl ⟨rfl, .inl (i.svr.pointers annE hm).symm⟩⟩
      have hlen := length_le_fresh hnd fun p hp => ((hans p).mp hp).left
      have hcount : reply.numAnsRr.toNat = reply.rrAns.length := by
        rw [hn, UInt16.toNat_ofNat', Nat.mod_eq_of_lt (hlen.trans_lt hf)]
      have hpos : reply.numAnsRr > 0 := by
        rw [gt_iff_lt, UInt16.lt_iff_toNat_lt, hcount]
        exact List.length_pos_of_mem hin
      constructor
      case order => exact fun _ => by simp [announced, Pc.extracted, ← ho]
      case content =>
        intro p bytes hm'
        rcases List.mem_append.mp hm' with hm' | hm'
        · exact o.content p bytes hm'
        · obtain ⟨rfl, rfl⟩ := Sent.announce.inj (List.mem_singleton.mp hm')
          refine ⟨reply.map s.svr.rr, ⟨i.svr.services p hm, ?_, s.svr.rr p, List.mem_map_of_mem hin, rfl⟩,
            sendReply_eq_ok hs hpos⟩
          simpa [MdnsPkt.map] using hcount
  case collect =>
    obtain ⟨hp, rfl⟩ := step_collect.mp h
    rw [collect_eq i.svr.nodup]
    have ho := o.order (by simp [hp])
    rw [hp] at ho
    refine ⟨fun _ => ho, fun p bytes hm => ?_⟩
    obtain ⟨pkt, ⟨hlt, hn, r, hr, he⟩, hb⟩ := o.content p bytes hm
    refine ⟨pkt, ⟨hlt, hn, r, hr, he.trans ?_⟩, hb⟩
    simp only [Mdnsd.expire]
    split <;> rfl
  case goodbye =>
    obtain ⟨reply, hp, ⟨f, -, rfl⟩ | ⟨packet, -, rfl⟩⟩ := step_goodbye.mp h
    · exact o.fail f
    · exact o.next (by simp [hp]) (hp ▸ rfl) rfl rfl rfl rfl

theorem fresh_le (i : Inv s) (h : step s a = some s') : s.svr.fresh ≤ s'.svr.fresh := by
  cases a
  case call =>
    obtain ⟨-, svr, hc, rfl⟩ := step_call.mp h
    exact (call_extends hc).left
  case collect =>
    obtain ⟨-, rfl⟩ := step_collect.mp h
    rw [collect_eq i.svr.nodup]
    exact le_refl _
  case receive =>
    obtain ⟨-, ⟨_, -, rfl⟩ | ⟨_, -, rfl⟩⟩ := step_receive.mp h
    all_goals exact le_refl _
  case extract =>
    obtain ⟨-, ⟨-, rfl⟩ | ⟨_, _, -, rfl⟩⟩ := step_extract.mp h
    all_goals exact le_refl _
  case announce =>
    obtain ⟨_, -, ⟨_, -, rfl⟩ | ⟨_, -, rfl⟩⟩ := step_announce.mp h
    all_goals exact le_refl _
  case goodbye =>
    obtain ⟨_, -, ⟨_, -, rfl⟩ | ⟨_, -, rfl⟩⟩ := step_goodbye.mp h
    all_goals exact le_refl _
  all_goals
    simp only [step_notify, step_stop, step_wake, step_destroy, step_test, step_readPipe] at h
    obtain ⟨-, rfl⟩ := h
    exact le_refl _

-- As long as nothing goes wrong, each service is announced once, in the order in which the services have been
-- registered, or it is still in the list. What is announced is a packet which has its record among the answers.
theorem announced_once (h : (machine rr).Reachable s) (hf : s.svr.fresh < 2 ^ 16) (hp : ∀ f, s.pc ≠ .failed f) :
    announced s.sent ++ s.pc.extracted ++ s.svr.announce = s.svr.services ∧ s.svr.services.Nodup ∧
      ∀ p bytes, .announce p bytes ∈ s.sent →
        ∃ pkt, Announces s.svr p pkt ∧ mdnsEncodePkt pkt PACKET_SIZE = .ok bytes := by
  have hinit : (machine rr).init.svr.fresh < 2 ^ 16 → InOrder (machine rr).init :=
    fun _ => ⟨fun _ => rfl, fun _ _ hm => absurd hm List.not_mem_nil⟩
  have hi : Inv s ∧ (s.svr.fresh < 2 ^ 16 → InOrder s) := by
    refine h.invariant (P := fun s => Inv s ∧ (s.svr.fresh < 2 ^ 16 → InOrder s)) ⟨inv_init, hinit⟩ ?_
    intro s a s' ⟨i, o⟩ h
    refine ⟨inv_step i h, fun hf => ?_⟩
    have hf := (fresh_le i h).trans_lt hf
    exact inOrder_step i (o hf) hf h
  obtain ⟨i, o⟩ := hi
  exact ⟨(o hf).order hp, i.svr.nodup, (o hf).content⟩

-- An announcement which fits into the buffer.
def Sent.announces : Sent → Bool
  | .announce _ (some _) => true
  | _                    => false

theorem announced_once_registered : ∃ s, (machine blank).exec (machine blank).init
    (registered ++ [.test, .readPipe, .extract, .announce]) = some s ∧ s.svr.services ≠ [] ∧
      announced s.sent = s.svr.services ∧ ∃ p bytes, .announce p (some bytes) ∈ s.sent ∧
        ∃ pkt, Announces s.svr p pkt ∧ mdnsEncodePkt pkt PACKET_SIZE = .ok (some bytes) := by
  obtain ⟨s, he, hs⟩ := (machine blank).exec_of_any
    (registered ++ [.test, .readPipe, .extract, .announce])
    (fun s => s.pc = .announces ∧ s.svr.announce = [] ∧ s.svr.services ≠ [] ∧ s.svr.fresh < 2 ^ 16 ∧
      s.sent.any Sent.announces) (by decide +kernel)
  obtain ⟨hp, ha, hn, hf, hs⟩ := of_decide_eq_true hs
  obtain ⟨ho, -, hc⟩ := announced_once ⟨_, he⟩ hf (by simp [hp])
  rw [hp, ha] at ho
  refine ⟨s, he, hn, by simpa [Pc.extracted] using ho, ?_⟩
  obtain ⟨_ | ⟨p, _ | bytes⟩ | _, hm, hs⟩ := List.any_eq_true.mp hs
  case announce.some => exact ⟨p, bytes, hm, hc p _ hm⟩
  all_goals cases hs

-- How many steps `main_loop` has left if it is to stop and nothing is registered any more.
def rank (s : State) : Nat :=
  match s.pc with
  | .select      => 2 * s.svr.announce.length + 5
  | .announces   => 2 * s.svr.announce.length + 4
  | .announce _  => 2 * s.svr.announce.length + 5
  | .loop        => 3
  | .terminating => 2
  | .goodbye _   => 1
  | .returned    => 0
  | .failed _    => 0

-- `mdnsd_stop` has set the flag and written to the pipe, and waits for `main_loop`, which has not been caught
-- by a packet.
structure Stopping (s : State) : Prop extends Inv s where
  waiting : s.stopper = .waiting
  fault   : ∀ f, s.pc = .failed f → f = .nullDereference ∨ f = .overflow

theorem stopping_step (w : Stopping s) (ha : a.IsLoop) (h : step s a = some s') :
    Stopping s' ∧ rank s' < rank s := by
  have i' := inv_step w.toInv h
  have hf : s.stopFlag ≠ 0 := (w.stopping (by rw [w.waiting]; exact Stopper.noConfusion)).right
  have failed {reply : MdnsPkt Ptr} {f : Fault} (hq : reply.numQn = 0) (he : sendReply s.svr reply = .error f) :
      ∀ f', Pc.failed f = .failed f' → f' = .nullDereference ∨ f' = .overflow :=
    fun f' hf => Pc.failed.inj hf ▸ ((sendReply_error_iff hq).mp he).right.fault
  cases a
  case test =>
    obtain ⟨hp, rfl⟩ := step_test.mp h
    refine ⟨⟨i', w.waiting, ?_⟩, ?_⟩ <;> simp [hf, rank, hp]
  case readPipe =>
    obtain ⟨⟨hp, -⟩, rfl⟩ := step_readPipe.mp h
    exact ⟨⟨i', w.waiting, by simp⟩, by simp [rank, hp]⟩
  case receive =>
    -- The pipe has something to read, and comes first.
    obtain ⟨⟨hp, hn⟩, -⟩ := step_receive.mp h
    have hs := w.stop hp hf
    simp [w.waiting, hn] at hs
  case extract =>
    obtain ⟨hp, ⟨-, rfl⟩ | ⟨_, _, ha, rfl⟩⟩ := step_extract.mp h
    · refine ⟨⟨i', w.waiting, by simp⟩, ?_⟩
      simp only [rank, hp]
      omega
    · exact ⟨⟨i', w.waiting, by simp⟩, by simp [rank, hp, ha]; omega⟩
  case announce =>
    obtain ⟨annE, hp, ⟨f, he, rfl⟩ | ⟨_, -, rfl⟩⟩ := step_announce.mp h
    · obtain ⟨reply, hok, hq, -⟩ := announceSrv_ok w.svr (s.svr.rr annE).name
      rw [hok] at he
      exact ⟨⟨i', w.waiting, failed hq he⟩, by simp [rank, hp]⟩
    · exact ⟨⟨i', w.waiting, by simp⟩, by simp [rank, hp]⟩
  case collect =>
    obtain ⟨hp, rfl⟩ := step_collect.mp h
    exact ⟨⟨i', w.waiting, by simp⟩, by simp [rank, hp]⟩
  case goodbye =>
    obtain ⟨reply, hp, ⟨f, he, rfl⟩ | ⟨_, -, rfl⟩⟩ := step_goodbye.mp h
    · exact ⟨⟨i', w.waiting, failed (w.goodbye reply hp) he⟩, by simp [rank, hp]⟩
    · exact ⟨⟨i', w.waiting, by simp⟩, by simp [rank, hp]⟩
  all_goals cases ha

theorem stopping_progress (w : Stopping s) : s.pc = .returned ∨
    (∃ a, a.IsLoop ∧ ∃ s', step s a = some s') ∨ s.pc = .failed .nullDereference ∨ s.pc = .failed .overflow := by
  have hf : s.stopFlag ≠ 0 := (w.stopping (by rw [w.waiting]; exact Stopper.noConfusion)).right
  cases hp : s.pc
  case loop => exact .inr (.inl ⟨.test, trivial, _, step_test.mpr ⟨hp, rfl⟩⟩)
  case select =>
    have hn := (w.stop hp hf).resolve_left (by rw [w.waiting]; exact Stopper.noConfusion)
    exact .inr (.inl ⟨.readPipe, trivial, _, step_readPipe.mpr ⟨⟨hp, hn⟩, rfl⟩⟩)
  case announces =>
    cases ha : s.svr.announce
    case nil  => exact .inr (.inl ⟨.extract, trivial, _, step_extract.mpr ⟨hp, .inl ⟨ha, rfl⟩⟩⟩)
    case cons => exact .inr (.inl ⟨.extract, trivial, _, step_extract.mpr ⟨hp, .inr ⟨_, _, ha, rfl⟩⟩⟩)
  case announce annE =>
    refine .inr (.inl ⟨.announce, trivial, ?_⟩)
    cases hs : announceSrv s.svr (s.svr.rr annE).name >>= sendReply s.svr
    case error f   => exact ⟨_, step_announce.mpr ⟨annE, hp, .inl ⟨f, hs, rfl⟩⟩⟩
    case ok packet => exact ⟨_, step_announce.mpr ⟨annE, hp, .inr ⟨packet, hs, rfl⟩⟩⟩
  case terminating => exact .inr (.inl ⟨.collect, trivial, _, step_collect.mpr ⟨hp, rfl⟩⟩)
  case goodbye reply =>
    refine .inr (.inl ⟨.goodbye, trivial, ?_⟩)
    cases hs : sendReply s.svr reply
    case error f   => exact ⟨_, step_goodbye.mpr ⟨reply, hp, .inl ⟨f, hs, rfl⟩⟩⟩
    case ok packet => exact ⟨_, step_goodbye.mpr ⟨reply, hp, .inr ⟨packet, hs, rfl⟩⟩⟩
  case returned => exact .inl rfl
  case failed f => exact .inr (.inr ((w.fault f hp).imp (congrArg Pc.failed) (congrArg Pc.failed)))

theorem stopping_exec {as : List Act} (w : Stopping s) (ha : ∀ a ∈ as, a.IsLoop)
    (he : (machine rr).exec s as = some s') : Stopping s' ∧ as.length + rank s' ≤ rank s := by
  induction as generalizing s
  case nil =>
    cases he
    exact ⟨w, by simp⟩
  case cons a as hi =>
    obtain ⟨s₁, h, he⟩ := Option.bind_eq_some_iff.mp he
    obtain ⟨ha', ha⟩ := List.forall_mem_cons.mp ha
    obtain ⟨w₁, hr⟩ := stopping_step w ha' h
    obtain ⟨w', hl⟩ := hi w₁ ha he
    refine ⟨w', ?_⟩
    rw [List.length_cons]
    omega

-- Once `mdnsd_stop` waits and nothing is registered any more, `main_loop` cannot go on forever, and it cannot
-- get stuck before it has returned, unless an announcement or the goodbye packet cannot be encoded. Then `mdnsd_stop`
-- can go on.
theorem stop_returns (h : (machine rr).Reachable s) (hw : s.stopper = .waiting) (hh : ∀ f, s.pc ≠ .failed f)
    {as : List Act} (ha : ∀ a ∈ as, a.IsLoop) (he : (machine rr).exec s as = some s') :
    as.length ≤ rank s ∧
      ((∃ s'', step s' .destroy = some s'') ∨ (∃ a, a.IsLoop ∧ ∃ s'', step s' a = some s'') ∨
        s'.pc = .failed .nullDereference ∨ s'.pc = .failed .overflow) := by
  obtain ⟨w, hl⟩ := stopping_exec ⟨inv h, hw, fun f hf => absurd hf (hh f)⟩ ha he
  refine ⟨by omega, (stopping_progress w).imp_left fun hp => ⟨_, step_destroy.mpr ⟨⟨w.waiting, ?_⟩, rfl⟩⟩⟩
  exact ((w.stopping (by rw [w.waiting]; exact Stopper.noConfusion)).left).mpr hp

theorem stop_returns_flagged : ∃ s s', (machine blank).exec (machine blank).init
    [.stop, .wake] = some s ∧ (machine blank).exec s [.test] = some s' ∧
      ((∃ s'', step s' .destroy = some s'') ∨ (∃ a, a.IsLoop ∧ ∃ s'', step s' a = some s'') ∨
        s'.pc = .failed .nullDereference ∨ s'.pc = .failed .overflow) := by
  obtain ⟨s, he, hs⟩ := (machine blank).exec_of_any [.stop, .wake]
    (fun s => s.stopper = .waiting ∧ s.pc = .loop) (by decide)
  obtain ⟨hw, hp⟩ := of_decide_eq_true hs
  have ht : (machine blank).exec s [.test] = some _ :=
    Option.bind_eq_some_iff.mpr ⟨_, step_test.mpr ⟨hp, rfl⟩, rfl⟩
  exact ⟨s, _, he, ht, (stop_returns ⟨_, he⟩ hw (by simp [hp]) (by simp [Act.IsLoop]) ht).right⟩

-- After `mdnsd_stop` has freed everything, `main_loop` does nothing.
theorem destroyed_step (h : (machine rr).Reachable s) (hd : s.stopper = .destroyed) (ha : a.IsLoop) :
    step s a = none := by
  have hp := (inv h).destroyed hd
  cases a
  case call | notify | stop | wake | destroy => cases ha
  all_goals simp [step, hp]

theorem destroyed_step_stopped : ∃ s, (machine blank).exec (machine blank).init
    [.stop, .wake, .test, .collect, .goodbye, .destroy] = some s ∧ step s .test = none := by
  obtain ⟨s, he, hs⟩ := (machine blank).exec_of_any
    [.stop, .wake, .test, .collect, .goodbye, .destroy] (fun s => s.stopper = .destroyed) (by decide)
  exact ⟨s, he, destroyed_step ⟨_, he⟩ (of_decide_eq_true hs) trivial⟩

-- The goodbye packet for the services `l`, whose records are those of `svr` with a TTL of zero.
def IsGoodbye (svr : Mdnsd) (l : List Ptr) (pkt : MdnsPkt RrEntry) : Prop :=
  pkt.numAnsRr.toNat = l.length ∧ pkt.rrAns = l.map fun p => { svr.rr p with ttl := 0 }

-- A state past the collection of the services `l` of `svr`, when `sent` had been sent.
structure Leaving (svr : Mdnsd) (l : List Ptr) (sent : List Sent) (s : State) : Prop where
  expired (p) : p ∈ l → p < s.svr.fresh ∧ s.svr.rr p = { svr.rr p with ttl := 0 }
  place       : s.pc = .goodbye ((mdnsInitReply 0).withAns l) ∧ s.sent = sent ∨ (∃ f, s.pc = .failed f) ∨
    s.pc = .returned ∧ ∃ pkt bytes, IsGoodbye svr l pkt ∧ mdnsEncodePkt pkt PACKET_SIZE = .ok bytes ∧
      s.sent = sent ++ [.goodbye bytes]

theorem leaving_step {svr : Mdnsd} {l : List Ptr} {sent : List Sent} (hl : l ≠ []) (hn : l.length < 2 ^ 16)
    (w : Leaving svr l sent s) (h : step s a = some s') : Leaving svr l sent s' := by
  have hpc : s.pc = .goodbye ((mdnsInitReply 0).withAns l) ∨ (∃ f, s.pc = .failed f) ∨ s.pc = .returned :=
    w.place.imp And.left (Or.imp_right And.left)
  cases a
  case call =>
    obtain ⟨-, svr', hc, rfl⟩ := step_call.mp h
    obtain ⟨hle, hrr⟩ := call_extends hc
    refine ⟨fun p hp => ?_, w.place⟩
    obtain ⟨hlt, he⟩ := w.expired p hp
    exact ⟨hlt.trans_le hle, (hrr p hlt).trans he⟩
  case goodbye =>
    obtain ⟨reply, hp, ⟨f, -, rfl⟩ | ⟨packet, hs, rfl⟩⟩ := step_goodbye.mp h
    · exact ⟨w.expired, .inr (.inl ⟨f, rfl⟩)⟩
    · refine ⟨w.expired, .inr (.inr ⟨rfl, ?_⟩)⟩
      obtain ⟨hg, hsent⟩ | ⟨_, hr⟩ | ⟨hr, -⟩ := w.place
      · cases hp.symm.trans hg
        have hcount : (UInt16.ofNat l.length).toNat = l.length := by
          rw [UInt16.toNat_ofNat', Nat.mod_eq_of_lt hn]
        have hpos : UInt16.ofNat l.length > 0 := by
          rw [gt_iff_lt, UInt16.lt_iff_toNat_lt, hcount]
          exact List.length_pos_iff.mpr hl
        refine ⟨((mdnsInitReply 0).withAns l).map s.svr.rr, packet, ⟨hcount, ?_⟩, sendReply_eq_ok hs hpos, ?_⟩
        · exact List.map_congr_left fun p hp => (w.expired p hp).right
        · simp only [hsent]
      · simp [hp] at hr
      · simp [hp] at hr
  case notify | stop | wake | destroy =>
    simp only [step_notify, step_stop, step_wake, step_destroy] at h
    obtain ⟨-, rfl⟩ := h
    exact ⟨w.expired, w.place⟩
  all_goals
    rcases hpc with hp | ⟨_, hp⟩ | hp
    all_goals simp [step, hp] at h

-- When `main_loop` returns, what it has done last is to take back all services which were registered when it left
-- the loop, with one packet.
theorem goodbye_last {as bs : List Act} {s₁ : State} (he : (machine rr).exec (machine rr).init as = some s)
    (hc : (machine rr).step s .collect = some s₁) (hb : (machine rr).exec s₁ bs = some s') (hr : s'.pc = .returned)
    (hl : s.svr.services ≠ []) (hn : s.svr.services.length < 2 ^ 16) :
    ∃ pkt bytes, IsGoodbye s.svr s.svr.services pkt ∧ mdnsEncodePkt pkt PACKET_SIZE = .ok bytes ∧
      s'.sent = s.sent ++ [.goodbye bytes] := by
  have i := inv ⟨as, he⟩
  obtain ⟨-, hs₁⟩ := step_collect.mp hc
  rw [collect_eq i.svr.nodup] at hs₁
  have w : Leaving s.svr s.svr.services s.sent s₁ := by
    subst hs₁
    refine ⟨fun p hp => ⟨i.svr.services p hp, ?_⟩, .inl ⟨rfl, rfl⟩⟩
    simp only [Mdnsd.expire, if_pos hp]
  have hw : Leaving s.svr s.svr.services s.sent s' := by
    clear hs₁ hc
    induction bs generalizing s₁
    case nil =>
      cases hb
      exact w
    case cons b bs hi =>
      obtain ⟨s₂, hs, hb⟩ := Option.bind_eq_some_iff.mp hb
      exact hi hb (leaving_step hl hn w hs)
  obtain ⟨hp, -⟩ | ⟨_, hp⟩ | ⟨-, h⟩ := hw.place
  · simp [hr] at hp
  · simp [hr] at hp
  · exact h

theorem goodbye_last_registered : ∃ s s' pkt bytes, (machine blank).exec (machine blank).init
    (registered ++ [.stop, .test]) = some s ∧ (machine blank).exec s [.collect, .goodbye] = some s' ∧
      IsGoodbye s.svr s.svr.services pkt ∧ mdnsEncodePkt pkt PACKET_SIZE = .ok bytes ∧
      s'.sent = s.sent ++ [.goodbye bytes] := by
  obtain ⟨s, he, hs⟩ := (machine blank).exec_of_any (registered ++ [.stop, .test])
    (fun s => s.svr.services ≠ [] ∧ s.svr.services.length < 2 ^ 16 ∧
      ((machine blank).exec s [.collect, .goodbye]).any (·.pc = .returned)) (by decide +kernel)
  obtain ⟨hl, hn, hs⟩ := of_decide_eq_true hs
  cases he' : (machine blank).exec s [.collect, .goodbye]
  case none    => simp [he'] at hs
  case some s' =>
    have hr : s'.pc = .returned := by simpa [he'] using hs
    obtain ⟨s₁, hc, hb⟩ := Option.bind_eq_some_iff.mp he'
    obtain ⟨pkt, bytes, hg, hp, hs⟩ := goodbye_last he hc hb hr hl hn
    exact ⟨s, s', pkt, bytes, he, he', hg, hp, hs⟩

end

end Mdns.Daemon
