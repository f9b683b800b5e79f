import LightningCast.Tinysvcmdns.Theorems.Encode
import LightningCast.Tinysvcmdns.Theorems.Registry

open Worklist (add addAll)

namespace Mdns

open RrType

-- What is looked for when additional records for a record are collected.
def lookups (rr : RrEntry) : List (NLabel × RrType) :=
  match rr.data with
  | .ptr target       => [(target, RR_ANY)]
  | .srv _ _ _ target => [(target, RR_ANY), (rr.name, RR_TXT)]
  | .a _ | .aaaa _    => [(rr.name, RR_NSEC)]
  | _                 => []

def Mdnsd.related (svr : Mdnsd) (p : Ptr) : List Ptr :=
  (lookups (svr.rr p)).flatMap fun q => svr.answers q.1 q.2

-- The record at `q` is an additional one for the record at `p`.
def Mdnsd.Leads (svr : Mdnsd) (p q : Ptr) : Prop :=
  q < svr.fresh ∧ ∃ l ∈ lookups (svr.rr p), IsAnswer l.1 l.2 (svr.rr q)

namespace MdnsPkt

variable {ρ : Type}

-- A packet with other answers or additional records, which are counted.
def withAns (pkt : MdnsPkt ρ) (l : List ρ) : MdnsPkt ρ :=
  { pkt with rrAns := l, numAnsRr := .ofNat l.length }

def withAdd (pkt : MdnsPkt ρ) (l : List ρ) : MdnsPkt ρ :=
  { pkt with rrAdd := l, numAddRr := .ofNat l.length }

end MdnsPkt

section

variable {svr : Mdnsd} {reply : MdnsPkt Ptr} {name : NLabel} {type : RrType} {l l' : List Ptr} {p q : Ptr}

theorem mem_related : q ∈ svr.related p ↔ svr.Leads p q := by
  simp only [Mdnsd.related, List.mem_flatMap, mem_answers]
  constructor
  case mp  => exact fun ⟨l, hl, hq, ha⟩ => ⟨hq, l, hl, ha⟩
  case mpr => exact fun ⟨hq, l, hl, ha⟩ => ⟨l, hl, hq, ha⟩

theorem populateAns_withAns (h : svr.Indexed) :
    populateAns svr (reply.withAns l) name type = reply.withAns (addAll l (svr.answers name type)) := by
  obtain ⟨ha, hn⟩ := populateAnswers_eq h l name type
  simp only [populateAns, MdnsPkt.withAns, ← ha, hn, UInt16.ofNat_add]

theorem populateAdd_withAdd (h : svr.Indexed) :
    populateAdd svr (reply.withAdd l) name type = reply.withAdd (addAll l (svr.answers name type)) := by
  obtain ⟨ha, hn⟩ := populateAnswers_eq h l name type
  simp only [populateAdd, MdnsPkt.withAdd, ← ha, hn, UInt16.ofNat_add]

theorem addRelated_withAdd (h : svr.Indexed) :
    addRelated svr (reply.withAdd l) p = reply.withAdd (addAll l (svr.related p)) := by
  cases hd : (svr.rr p).data <;>
    simp [addRelated, Mdnsd.related, lookups, hd, populateAdd_withAdd h, Worklist.addAll_append]

-- The loop over the answers, which do not change.
theorem addRelatedRr_rrAns (h : svr.Indexed) (n i : Nat) (hn : reply.rrAns.length < n + i)
    (hle : i ≤ reply.rrAns.length) : addRelatedRr svr MdnsPkt.rrAns n i (reply.withAdd l) =
      .ok (reply.withAdd (addAll l ((reply.rrAns.drop i).flatMap svr.related))) := by
  induction n generalizing i l
  case zero => omega
  case succ n hi =>
    have hl : (reply.withAdd l).rrAns = reply.rrAns := rfl
    unfold addRelatedRr
    rw [hl]
    rcases Nat.eq_or_lt_of_le hle with rfl | hlt
    · simp
    · rw [List.getElem?_eq_getElem hlt, List.drop_eq_getElem_cons hlt, List.flatMap_cons, Worklist.addAll_append]
      simp only
      rw [addRelated_withAdd h, hi (i + 1) (by omega) hlt]

-- The loop over the additional records, to which it adds others.
theorem addRelatedRr_rrAdd (h : svr.Indexed) (n i : Nat) :
    addRelatedRr svr MdnsPkt.rrAdd n i (reply.withAdd l) =
      match Worklist.run svr.related n i l with
      | none    => .error .hang
      | some l' => .ok (reply.withAdd l') := by
  induction n generalizing i l
  case zero => rfl
  case succ n hi =>
    unfold addRelatedRr Worklist.run
    have hl : (reply.withAdd l).rrAdd = l := rfl
    rw [hl]
    cases l[i]?
    case none => rfl
    case some p =>
      simp only
      rw [addRelated_withAdd h, hi]

theorem length_le_fresh (hn : l.Nodup) (hl : ∀ p ∈ l, p < svr.fresh) : l.length ≤ svr.fresh := by
  rw [← List.toFinset_card_of_nodup hn, ← Finset.card_range svr.fresh]
  exact Finset.card_le_card fun p hp => Finset.mem_range.mpr (hl p (List.mem_toFinset.mp hp))

-- The loops end, and the additional records are those to which a chain leads from an answer.
theorem addRelatedRrs_withAdd (h : svr.Indexed) (hn : reply.rrAns.Nodup) (hl : ∀ p ∈ reply.rrAns, p < svr.fresh) :
    ∃ l, addRelatedRrs svr (reply.withAdd []) = .ok (reply.withAdd l) ∧ l.Nodup ∧
      ∀ q, q ∈ l ↔ ∃ p ∈ reply.rrAns, Relation.TransGen svr.Leads p q := by
  have hlen := length_le_fresh hn hl
  have hlt {p q : Ptr} (hq : q ∈ svr.related p) : q < svr.fresh := (mem_related.mp hq).left
  have hans : addRelatedRr svr MdnsPkt.rrAns (svr.fresh + 1) 0 (reply.withAdd []) = _ :=
    addRelatedRr_rrAns h (svr.fresh + 1) 0 (by omega) (Nat.zero_le _)
  rw [List.drop_zero] at hans
  have hnd : (addAll [] (reply.rrAns.flatMap svr.related)).Nodup := Worklist.addAll_nodup List.nodup_nil
  cases hr : Worklist.run svr.related (svr.fresh + 1) 0 (addAll [] (reply.rrAns.flatMap svr.related))
  case none =>
    refine absurd hr (Worklist.run_ne_none (s := Finset.range svr.fresh) ?_ ?_ hnd (Nat.zero_le _) ?_)
    · exact fun p _ q hq => Finset.mem_range.mpr (hlt hq)
    · intro q hq
      obtain ⟨p, _, hq⟩ := List.mem_flatMap.mp ((Worklist.mem_addAll.mp hq).resolve_left List.not_mem_nil)
      exact Finset.mem_range.mpr (hlt hq)
    · rw [Finset.card_range]
      omega
  case some l =>
    refine ⟨l, ?_, Worklist.run_nodup hr hnd, fun q => ?_⟩
    · have hadd : addRelatedRr svr MdnsPkt.rrAdd (svr.fresh + 1) 0
        (reply.withAdd (addAll [] (reply.rrAns.flatMap svr.related))) = _ := addRelatedRr_rrAdd h (svr.fresh + 1) 0
      rw [hr] at hadd
      rw [addRelatedRrs, hans]
      exact hadd
    · have hrel : (fun p q => q ∈ svr.related p) = svr.Leads := by
        funext p q
        exact propext mem_related
      rw [Worklist.mem_run_iff hr, Worklist.Reaches, hrel]
      simp only [Worklist.mem_addAll, List.not_mem_nil, false_or, List.mem_flatMap, mem_related]
      constructor
      case mp  => exact fun ⟨a, ⟨p, hp, ha⟩, hq⟩ => ⟨p, hp, Relation.TransGen.head' ha hq⟩
      case mpr =>
        intro ⟨p, hp, hq⟩
        obtain ⟨a, ha, hq⟩ := Relation.TransGen.head'_iff.mp hq
        exact ⟨a, ⟨p, hp, ha⟩, hq⟩

end

section

variable {svr : Mdnsd} {reply : MdnsPkt Ptr} {pkt : MdnsPkt RrEntry} {qnl known : List RrEntry} {l : List Ptr}

-- Which answers a question adds.
def Mdnsd.replies (svr : Mdnsd) (qn : RrEntry) : List Ptr :=
  if qn.unicastQuery then [] else svr.answers qn.name qn.type

theorem mem_flatMap_replies {p : Ptr} : p ∈ qnl.flatMap svr.replies ↔
    p < svr.fresh ∧ ∃ qn ∈ qnl, ¬qn.unicastQuery ∧ IsAnswer qn.name qn.type (svr.rr p) := by
  have h (qn : RrEntry) : p ∈ svr.replies qn ↔
      p < svr.fresh ∧ ¬qn.unicastQuery ∧ IsAnswer qn.name qn.type (svr.rr p) := by
    unfold Mdnsd.replies
    by_cases hu : qn.unicastQuery <;> simp [hu, mem_answers]
  simp only [List.mem_flatMap, h]
  constructor
  case mp  => exact fun ⟨qn, hm, hp, hq⟩ => ⟨hp, qn, hm, hq⟩
  case mpr => exact fun ⟨hp, qn, hm, hq⟩ => ⟨qn, hm, hp, hq⟩

theorem answerQuestions_withAns (h : svr.Indexed) :
    answerQuestions svr qnl.length qnl (reply.withAns l) =
      .ok (reply.withAns (addAll l (qnl.flatMap svr.replies))) := by
  induction qnl generalizing l
  case nil => rfl
  case cons qn qnl hi =>
    rw [List.length_cons, answerQuestions, List.flatMap_cons, Worklist.addAll_append, ← hi]
    by_cases hu : qn.unicastQuery
    case pos => simp [hu, Mdnsd.replies]
    case neg => simp [hu, Mdnsd.replies, populateAns_withAns h]

theorem removeKnown_withAns : removeKnown svr known (reply.withAns l) =
    reply.withAns (l.filter fun p => ¬IsKnown known (svr.rr p)) := by
  have hl : l.length = l.countP (fun p => IsKnown known (svr.rr p)) +
      (l.filter fun p => ¬IsKnown known (svr.rr p)).length := by
    rw [List.length_eq_countP_add_countP fun p => IsKnown known (svr.rr p), ← List.countP_eq_length_filter]
  have hn : UInt16.ofNat l.length - .ofNat (l.countP fun p => IsKnown known (svr.rr p)) =
      .ofNat (l.filter fun p => ¬IsKnown known (svr.rr p)).length := by
    rw [hl, UInt16.ofNat_add, UInt16.add_comm, UInt16.add_sub_cancel]
  simp only [removeKnown, MdnsPkt.withAns, hn]

-- What a reply to the query `pkt` consists of.
structure IsReply (svr : Mdnsd) (pkt : MdnsPkt RrEntry) (reply : MdnsPkt Ptr) : Prop where
  header   : { reply with rrAns := [], numAnsRr := 0, rrAdd := [], numAddRr := 0 } = mdnsInitReply pkt.id
  numAnsRr : reply.numAnsRr = .ofNat reply.rrAns.length
  numAddRr : reply.numAddRr = .ofNat reply.rrAdd.length
  ansNodup : reply.rrAns.Nodup
  addNodup : reply.rrAdd.Nodup
  ans (p)  : p ∈ reply.rrAns ↔ p < svr.fresh ∧ ¬IsKnown pkt.rrAns (svr.rr p) ∧
    ∃ qn ∈ pkt.rrQn, ¬qn.unicastQuery ∧ IsAnswer qn.name qn.type (svr.rr p)
  add (q)  : q ∈ reply.rrAdd ↔ ∃ p ∈ reply.rrAns, Relation.TransGen svr.Leads p q

-- A query is answered with the registered records which match one of its questions and are not known to the
-- one who asks, each of them once, and with all records to which these lead.
theorem processMdnsPkt_query (h : svr.Indexed) (hq : IsQuery pkt) (hn : pkt.rrQn.length = pkt.numQn.toNat) :
    ∃ reply, processMdnsPkt svr pkt = .ok (some reply) ∧ IsReply svr pkt reply := by
  have hans : answerQuestions svr pkt.numQn.toNat pkt.rrQn ((mdnsInitReply pkt.id).withAns []) = _ :=
    hn ▸ answerQuestions_withAns h
  generalize hl : addAll [] (pkt.rrQn.flatMap svr.replies) = l at hans
  have hnd : l.Nodup := hl ▸ Worklist.addAll_nodup List.nodup_nil
  have hmem (p : Ptr) : p ∈ l.filter (fun p => ¬IsKnown pkt.rrAns (svr.rr p)) ↔ p < svr.fresh ∧
      ¬IsKnown pkt.rrAns (svr.rr p) ∧ ∃ qn ∈ pkt.rrQn, ¬qn.unicastQuery ∧ IsAnswer qn.name qn.type (svr.rr p) := by
    rw [List.mem_filter, decide_eq_true_iff, ← hl, Worklist.mem_addAll, mem_flatMap_replies]
    simp only [List.not_mem_nil, false_or]
    tauto
  have hknown : removeKnown svr pkt.rrAns ((mdnsInitReply pkt.id).withAns l) = _ := removeKnown_withAns
  replace hnd : (l.filter fun p => ¬IsKnown pkt.rrAns (svr.rr p)).Nodup := hnd.filter _
  generalize (l.filter fun p => ¬IsKnown pkt.rrAns (svr.rr p)) = ans at hknown hmem hnd
  have hadd : ∃ add, addRelatedRrs svr (((mdnsInitReply pkt.id).withAns ans).withAdd []) = _ ∧ _ :=
    addRelatedRrs_withAdd h hnd fun p hp => ((hmem p).mp hp).left
  obtain ⟨add, hadd, hnd', hmem'⟩ := hadd
  refine ⟨((mdnsInitReply pkt.id).withAns ans).withAdd add, ?_, rfl, rfl, rfl, hnd, hnd', hmem, hmem'⟩
  have hans : answerQuestions svr pkt.numQn.toNat pkt.rrQn (mdnsInitReply pkt.id) = _ := hans
  have hadd : addRelatedRrs svr ((mdnsInitReply pkt.id).withAns ans) = _ := hadd
  rw [processMdnsPkt, if_pos hq, hans]
  show some <$> addRelatedRrs svr (removeKnown svr pkt.rrAns ((mdnsInitReply pkt.id).withAns l)) = _
  rw [hknown, hadd]
  rfl

-- Parsed packets.

-- The only fault of the code.
def OnlyHangs {α : Type} (x : ParseM α) : Prop :=
  ∀ f, x = .mk (.error f) → f = .hang

namespace OnlyHangs

variable {α β : Type} {m : Buffer} {n : Nat}

theorem ok (x : Option α) : OnlyHangs (.mk (.ok x)) :=
  fun _ h => by cases h

theorem bind {x : ParseM α} {f : α → ParseM β} (hx : OnlyHangs x) (hf : ∀ a, OnlyHangs (f a)) :
    OnlyHangs (x >>= f) := by
  intro g h
  match x with
  | .ok (some a) => exact hf a g h
  | .ok none     => cases h
  | .error g'    =>
    cases h
    exact hx g rfl

theorem ite {p : Prop} [Decidable p] {x y : ParseM α} (hx : OnlyHangs x) (hy : OnlyHangs y) :
    OnlyHangs (if p then x else y) := by
  split
  · exact hx
  · exact hy

theorem uncompressNlabel (off : Nat) : OnlyHangs (Mdns.uncompressNlabel m n off) := by
  intro f h
  unfold Mdns.uncompressNlabel at h
  split at h
  case isTrue  => cases h
  case isFalse =>
    split at h
    all_goals cases h
    rfl

theorem mdnsParseQn (off : Nat) : OnlyHangs (Mdns.mdnsParseQn m n off) :=
  (uncompressNlabel off).bind fun _ => ok _

theorem parseData (type : RrType) (len p : Nat) : OnlyHangs (Mdns.parseData m n type len p) := by
  unfold Mdns.parseData
  refine ite (ite (ok _) (ok _)) (ite (ite (ok _) (ok _)) ?_)
  refine ite ((uncompressNlabel p).bind fun _ => ok _) (ite ?_ (ok _))
  refine ite (ok _) ?_
  cases parseTxts m n (p + len) p <;> exact ok _

theorem mdnsParseRr (off : Nat) : OnlyHangs (Mdns.mdnsParseRr m n off) := by
  refine ite ((ok none).bind fun _ => ?_) ?_
  all_goals
    refine (uncompressNlabel off).bind fun _ => ite ((ok none).bind fun _ => ?_) ?_
    all_goals exact (parseData _ _ _).bind fun _ => ok _

theorem parseMany {parse : Nat → ParseM (RrEntry × Nat)} (hp : ∀ off, OnlyHangs (parse off)) (k off : Nat) :
    OnlyHangs (Mdns.parseMany parse k off) := by
  induction k generalizing off
  case zero => exact ok _
  case succ k hi => exact (hp off).bind fun _ => (hi _).bind fun _ => ok _

theorem mdnsParsePkt (m : Buffer) (n : Nat) : OnlyHangs (Mdns.mdnsParsePkt m n) := by
  refine ite ((ok none).bind fun _ => ?_) ?_
  all_goals exact (parseMany mdnsParseQn _ _).bind fun _ => (parseMany mdnsParseRr _ _).bind fun _ => ok _

end OnlyHangs

theorem IsReply.numQn (h : IsReply svr pkt reply) : reply.numQn = 0 :=
  congrArg MdnsPkt.numQn h.header

theorem IsReply.rrAuth (h : IsReply svr pkt reply) : reply.rrAuth = [] :=
  congrArg MdnsPkt.rrAuth h.header

theorem sendReply_error_iff {f : Fault} (hq : reply.numQn = 0) : sendReply svr reply = .error f ↔
    reply.numAnsRr > 0 ∧ EncodingFails (reply.map svr.rr) PACKET_SIZE f := by
  unfold sendReply
  split
  case isTrue h  => rw [mdnsEncodePkt_error_iff (by decide) hq, and_iff_right h]
  case isFalse h => exact iff_of_false (fun he => by cases he) fun he => h he.left

end

end Mdns
