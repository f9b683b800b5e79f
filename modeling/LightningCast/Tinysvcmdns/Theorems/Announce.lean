import LightningCast.Tinysvcmdns.Daemon
import LightningCast.Tinysvcmdns.Theorems.Respond

open ServicePublisher (Call)
open Worklist (add addAll)

namespace Mdns

open RrType

section

variable {svr svr' : Mdnsd} {name : NLabel} {p : Ptr} {service : Service}

-- The records which announce services are pointers, and are there once.
structure Mdnsd.Announceable (svr : Mdnsd) : Prop extends svr.Indexed where
  pointers : ∀ p ∈ svr.services, (svr.rr p).type = RR_PTR
  nodup    : svr.services.Nodup

theorem Mdnsd.Announceable.mdnsdAddRr (h : svr.Announceable) {rr : RrEntry}
    (ha : Mdns.mdnsdAddRr svr rr = .ok svr') :
    svr'.Announceable ∧ svr'.announce = svr.announce ∧ svr'.services = svr.services := by
  have i := h.toIndexed.mdnsdAddRr ha
  cases mdnsdAddRr_eq_ok ha
  refine ⟨⟨i, fun p hp => ?_, h.nodup⟩, rfl, rfl⟩
  rw [rr_push (h.services p hp)]
  exact h.pointers p hp

theorem Mdnsd.Announceable.txtE (h : svr.Announceable)
    (hs : service.txtE.elim (pure svr) (Mdns.mdnsdAddRr svr) = .ok svr') :
    svr'.Announceable ∧ svr'.announce = svr.announce ∧ svr'.services = svr.services := by
  cases ht : service.txtE
  all_goals rw [ht] at hs
  case none    => exact Except.ok.inj hs ▸ ⟨h, rfl, rfl⟩
  case some rr => exact h.mdnsdAddRr hs

theorem Mdnsd.Announceable.addService (h : svr.Announceable) (hp : service.ptrE.type = RR_PTR)
    (hs : Mdns.addService svr service = .ok svr') :
    svr'.Announceable ∧ ∃ p, svr'.announce = svr.announce ++ [p] ∧ svr'.services = svr.services ++ [p] := by
  have i := h.toIndexed.addService hs
  obtain ⟨svr₁, svr₂, svr₃, svr₄, h₁, h₂, h₃, h₄, rfl⟩ := addService_eq_ok hs
  -- The lists are as before when the pointer is appended to them.
  obtain ⟨w₁, ha₁, hs₁⟩ := h.txtE h₁
  obtain ⟨w₂, ha₂, hs₂⟩ := w₁.mdnsdAddRr h₂
  cases mdnsdAddRr_eq_ok h₃
  cases mdnsdAddRr_eq_ok h₄
  have hna : svr₂.fresh ∉ svr₂.announce := fun hm => lt_irrefl _ (w₂.announce _ hm)
  have hns : svr₂.fresh ∉ svr₂.services := fun hm => lt_irrefl _ (w₂.services _ hm)
  have hann : (rrListAppend svr₂.announce svr₂.fresh).1 = svr₂.announce ++ [svr₂.fresh] :=
    (rrListAppend_fst ..).trans (Worklist.add_of_notMem hna)
  have hser : (rrListAppend svr₂.services svr₂.fresh).1 = svr₂.services ++ [svr₂.fresh] :=
    (rrListAppend_fst ..).trans (Worklist.add_of_notMem hns)
  refine ⟨⟨i, fun p hm => ?_, ?_⟩, svr₂.fresh, ?_, ?_⟩
  case refine_1 =>
    have hm : p ∈ (rrListAppend svr₂.services svr₂.fresh).1 := hm
    rw [hser] at hm
    show (((svr₂.push service.ptrE).push service.bptrE).rr p).type = RR_PTR
    rcases List.mem_append.mp hm with hm | hm
    · have hlt := w₂.services p hm
      rw [rr_push (Nat.lt_succ_of_lt hlt), rr_push hlt]
      exact w₂.pointers p hm
    · rw [List.mem_singleton.mp hm, rr_push (Nat.lt_succ_self _), rr_fresh_push]
      exact hp
  case refine_2 =>
    have hn : (rrListAppend svr₂.services svr₂.fresh).1.Nodup := by
      rw [hser]
      exact List.nodup_append.mpr ⟨w₂.nodup, List.nodup_singleton _, fun a ha b hb hab =>
        hns (List.mem_singleton.mp hb ▸ hab ▸ ha)⟩
    exact hn
  case refine_3 => exact hann.trans (by rw [ha₂, ha₁])
  case refine_4 => exact hser.trans (by rw [hs₂, hs₁])

-- How a call changes the two lists: both have the same new records at their ends.
theorem call_lists {c : Call} (h : svr.Announceable) (hc : call svr c = .ok svr') :
    svr'.Announceable ∧ ∃ l, svr'.announce = svr.announce ++ l ∧ svr'.services = svr.services ++ l ∧
      (Daemon.IsRegisterSvc c = false → l = []) := by
  cases c
  case setHostname hostname ip =>
    have hc : setHostname svr hostname (rrCreateA · ip) RR_A = .ok svr' := hc
    obtain ⟨-, svr₁, h₁, h₂⟩ := setHostname_eq_ok hc
    have h' : Mdnsd.Announceable { svr with hostname := some (createNlabel hostname) } :=
      ⟨⟨h.names, h.group, h.announce, h.services⟩, h.pointers, h.nodup⟩
    obtain ⟨w₁, ha₁, hs₁⟩ := h'.mdnsdAddRr h₁
    obtain ⟨w₂, ha₂, hs₂⟩ := w₁.mdnsdAddRr h₂
    exact ⟨w₂, [], by simp [ha₂, ha₁], by simp [hs₂, hs₁], fun _ => rfl⟩
  case addRr =>
    obtain ⟨w, ha, hs⟩ := h.mdnsdAddRr hc
    exact ⟨w, [], by simp [ha], by simp [hs], fun _ => rfl⟩
  case registerSvc =>
    obtain ⟨service, hs, hc⟩ := Except.bind_eq_ok_iff.mp hc
    obtain ⟨_, _, _, _, -, -, -, -, rfl⟩ := serviceRecords_eq_ok hs
    obtain ⟨w, p, ha, hs⟩ := h.addService (show _ = RR_PTR from rfl) hc
    exact ⟨w, [p], ha, hs, fun hr => by cases hr⟩

-- The records which are there stay where and what they are.
def Mdnsd.Extends (svr svr' : Mdnsd) : Prop :=
  svr.fresh ≤ svr'.fresh ∧ ∀ p < svr.fresh, svr'.rr p = svr.rr p

theorem Mdnsd.Extends.mdnsdAddRr {svr₁ : Mdnsd} (h : svr.Extends svr₁) {rr : RrEntry}
    (ha : Mdns.mdnsdAddRr svr₁ rr = .ok svr') : svr.Extends svr' := by
  cases mdnsdAddRr_eq_ok ha
  exact ⟨Nat.le_succ_of_le h.left, fun p hp => (rr_push (hp.trans_le h.left)).trans (h.right p hp)⟩

theorem call_extends {c : Call} (hc : call svr c = .ok svr') : svr.Extends svr' := by
  have hrefl : svr.Extends svr := ⟨le_refl _, fun _ _ => rfl⟩
  cases c
  case setHostname hostname ip =>
    have hc : setHostname svr hostname (rrCreateA · ip) RR_A = .ok svr' := hc
    obtain ⟨-, svr₁, h₁, h₂⟩ := setHostname_eq_ok hc
    have h : svr.Extends { svr with hostname := some (createNlabel hostname) } := hrefl
    exact (h.mdnsdAddRr h₁).mdnsdAddRr h₂
  case addRr => exact hrefl.mdnsdAddRr hc
  case registerSvc =>
    obtain ⟨service, _, hc⟩ := Except.bind_eq_ok_iff.mp hc
    obtain ⟨svr₁, svr₂, svr₃, svr₄, h₁, h₂, h₃, h₄, rfl⟩ := addService_eq_ok hc
    have h : svr.Extends svr₁ := by
      cases ht : service.txtE
      all_goals rw [ht] at h₁
      case none    => exact Except.ok.inj h₁ ▸ hrefl
      case some rr => exact hrefl.mdnsdAddRr h₁
    have h₄ := ((h.mdnsdAddRr h₂).mdnsdAddRr h₃).mdnsdAddRr h₄
    exact ⟨h₄.left, h₄.right⟩

-- What is announced for a record which is a pointer: the record itself among the answers.
theorem announceSrv_ok (h : svr.Announceable) (name : NLabel) : ∃ reply, announceSrv svr name = .ok reply ∧
    reply.numQn = 0 ∧ reply.numAnsRr = .ofNat reply.rrAns.length ∧ reply.rrAns.Nodup ∧
    (∀ p, p ∈ reply.rrAns ↔ p < svr.fresh ∧
      (IsAnswer name RR_PTR (svr.rr p) ∨ IsAnswer SERVICES_DNS_SD_NLABEL RR_PTR (svr.rr p))) ∧
    ∀ q, q ∈ reply.rrAdd ↔ ∃ p ∈ reply.rrAns, Relation.TransGen svr.Leads p q := by
  have hi := h.toIndexed
  have hfst : populateAns svr ((mdnsInitReply 0).withAns []) name RR_PTR = _ := populateAns_withAns hi
  have hsnd : populateAns svr ((mdnsInitReply 0).withAns (addAll [] (svr.answers name RR_PTR))) SERVICES_DNS_SD_NLABEL
    RR_PTR = _ := populateAns_withAns hi
  generalize hl : addAll (addAll [] (svr.answers name RR_PTR)) (svr.answers SERVICES_DNS_SD_NLABEL RR_PTR) = l at hsnd
  have hnd : l.Nodup := hl ▸ Worklist.addAll_nodup (Worklist.addAll_nodup List.nodup_nil)
  have hmem (p : Ptr) : p ∈ l ↔ p < svr.fresh ∧
      (IsAnswer name RR_PTR (svr.rr p) ∨ IsAnswer SERVICES_DNS_SD_NLABEL RR_PTR (svr.rr p)) := by
    rw [← hl, Worklist.mem_addAll, Worklist.mem_addAll, mem_answers, mem_answers]
    simp only [List.not_mem_nil, false_or, ← and_or_left]
  have hadd : ∃ add, addRelatedRrs svr (((mdnsInitReply 0).withAns l).withAdd []) = _ ∧ _ :=
    addRelatedRrs_withAdd hi hnd fun p hp => ((hmem p).mp hp).left
  obtain ⟨add, hadd, hnd', hmem'⟩ := hadd
  refine ⟨((mdnsInitReply 0).withAns l).withAdd add, ?_, rfl, rfl, hnd, hmem, hmem'⟩
  have hfst : populateAns svr (mdnsInitReply 0) name RR_PTR = _ := hfst
  have hadd : addRelatedRrs svr ((mdnsInitReply 0).withAns l) = _ := hadd
  rw [announceSrv, hfst, hsnd, hadd]

-- The records of services when they are taken back.
def Mdnsd.expire (svr : Mdnsd) (l : List Ptr) : Mdnsd :=
  { svr with rr := fun p => if p ∈ l then { svr.rr p with ttl := 0 } else svr.rr p }

theorem collectService_withAns (reply : MdnsPkt Ptr) (l : List Ptr) (e : Ptr) :
    Daemon.collectService (svr, reply.withAns l) e = (svr.expire [e], reply.withAns (add l e)) := by
  have hn := rrListAppend_length l e
  refine Prod.ext ?_ ?_
  · simp only [Daemon.collectService, Mdnsd.expire, List.mem_singleton]
    congr 1
    funext p
    rw [Function.update_apply]
    split
    case isTrue h => rw [h]
    case isFalse => rfl
  · simp only [Daemon.collectService, MdnsPkt.withAns, ← rrListAppend_fst, hn, UInt16.ofNat_add]

theorem expire_expire (e : Ptr) (l : List Ptr) : (svr.expire [e]).expire l = svr.expire (e :: l) := by
  simp only [Mdnsd.expire, List.mem_cons]
  congr 1
  funext p
  by_cases hp : p = e <;> by_cases hl : p ∈ l <;> simp [hp, hl]

theorem foldl_collectService (l : List Ptr) (reply : MdnsPkt Ptr) (l' : List Ptr) :
    l.foldl Daemon.collectService (svr, reply.withAns l') = (svr.expire l, reply.withAns (addAll l' l)) := by
  induction l generalizing svr l'
  case nil          => simp [Mdnsd.expire]
  case cons e l hi => rw [List.foldl_cons, collectService_withAns, hi, expire_expire, Worklist.addAll_cons]

theorem collect_eq (hn : svr.services.Nodup) :
    Daemon.collect svr = (svr.expire svr.services, (mdnsInitReply 0).withAns svr.services) := by
  have h : svr.services.foldl Daemon.collectService (svr, (mdnsInitReply 0).withAns []) = _ :=
    foldl_collectService svr.services (mdnsInitReply 0) []
  rw [Worklist.addAll_of_disjoint hn (by simp), List.nil_append] at h
  exact h

theorem expire_name (l : List Ptr) (p : Ptr) : ((svr.expire l).rr p).name = (svr.rr p).name := by
  simp only [Mdnsd.expire]
  split <;> rfl

theorem expire_type (l : List Ptr) (p : Ptr) : ((svr.expire l).rr p).type = (svr.rr p).type := by
  simp only [Mdnsd.expire]
  split <;> rfl

theorem Mdnsd.Announceable.expire (h : svr.Announceable) (l : List Ptr) : (svr.expire l).Announceable where
  names        := h.names
  group name := by
    simp only [expire_name]
    exact h.group name
  announce     := h.announce
  services     := h.services
  pointers p hp := by
    rw [expire_type]
    exact h.pointers p hp
  nodup        := h.nodup

end

end Mdns
