import LightningCast.Tinysvcmdns.Theorems.Respond
import LightningCast.Tinysvcmdns.Theorems.RoundTrip
import LightningCast.ServicePublisher.Theorems.Register

open DomainName (wire text)
open ServicePublisher (announcement extendedregtype)

namespace Mdns

open RrType

def label (s : String) (h : ascii s ≠ [] ∧ (ascii s).length ≤ 63 ∧ 0 ∉ ascii s) : Label where
  bytes     := ascii s
  ne_nil    := h.left
  length_le := h.right.left
  nonzero   := h.right.right

-- The names which the program publishes.
def host : DomainName :=
  [label "LightningCastDeviceSample" (by decide), label "local" (by decide)]

def service : DomainName :=
  [label "_lightningcast" (by decide), label "_tcp" (by decide), label "local" (by decide)]

def services : DomainName :=
  [label "_services" (by decide), label "_dns-sd" (by decide), label "_udp" (by decide), label "local" (by decide)]

theorem createNlabel_hostname : createNlabel ServicePublisher.hostname = wire host := by
  have ht : ServicePublisher.hostname = text host := by decide
  rw [ht, createNlabel_text (by decide) (by decide)]

theorem createNlabel_extendedregtype : createNlabel extendedregtype = wire service := by
  have ht : extendedregtype = text service := by decide
  rw [ht, createNlabel_text (by decide) (by decide)]

theorem services_eq : SERVICES_DNS_SD_NLABEL = wire services := by
  decide

theorem createLabel_bytes (l : Label) : createLabel l.bytes = some l.wire :=
  if_neg (Nat.not_lt.mpr l.length_le)

theorem headD_wire_le (n : DomainName) : (wire n).headD 0 ≤ 63 := by
  cases n
  case nil => decide
  case cons l n =>
    rw [DomainName.wire_cons, Label.wire, List.cons_append, List.headD_cons, UInt8.le_iff_toNat_le, l.toNat_length]
    exact l.length_le

theorem joinNlabel_wire (l : Label) (n : DomainName) : joinNlabel l.wire (wire n) = .ok (wire (l :: n)) := by
  have hl : l.wire.headD 0 ≤ 63 := headD_wire_le [l]
  rw [joinNlabel, if_pos ⟨hl, headD_wire_le n⟩, cString_eq_self l.zero_notMem_wire, cString_wire, DomainName.wire_cons]

theorem dupNlabel_wire (n : DomainName) : dupNlabel (wire n) = .ok (wire n) := by
  rw [dupNlabel, if_pos (headD_wire_le n), cString_wire]

-- The records of an instance of the service.
def version : Bytes :=
  ascii "ver=1.0"

def published (l : Label) (port : UInt16) : Service where
  txtE  := some (rrCreateTxt (wire (l :: service)) [version])
  srvE  := rrCreateSrv (wire (l :: service)) port (wire host)
  ptrE  := rrCreatePtr (wire service) (rrCreateSrv (wire (l :: service)) port (wire host))
  bptrE := rrCreatePtr (wire services) (rrCreatePtr (wire service) (rrCreateSrv (wire (l :: service)) port (wire host)))

theorem serviceRecords_eq (l : Label) (port : UInt16) :
    serviceRecords (some (wire host)) l.bytes extendedregtype port none [version] = .ok (published l port) := by
  have hn : (createLabel l.bytes).mapM (joinNlabel · (wire service)) = .ok (some (wire (l :: service))) := by
    rw [createLabel_bytes, Option.mapM_some, joinNlabel_wire]
    rfl
  have ht : serviceTarget none (some (wire host)) = .ok (wire host) := dupNlabel_wire host
  simp only [serviceRecords, hn, ht, createNlabel_extendedregtype, services_eq, dupNlabel_wire, bind, Except.bind]
  rfl

-- The records which are there after the calls of the publisher.
def publishedRecords (l : Label) (port : UInt16) (ip : UInt32) (ips : List UInt32) : List RrEntry :=
  [rrCreateA (wire host) ip, rrCreateNsec (wire host) 120 RR_A] ++ ips.map (rrCreateA (wire host)) ++
    (published l port).records

section

variable {l : Label} {ip : UInt32} {ips : List UInt32} {svr : Mdnsd}

theorem add_of_wire {db : Database} {rrs : List RrEntry} (h : ∀ rr ∈ rrs, ∃ n, rr.name = wire n) :
    db.add rrs = .ok { db with records := db.records ++ rrs } := by
  refine Database.add_of_le fun rr hr => ?_
  obtain ⟨n, hn⟩ := h rr hr
  exact hn ▸ headD_wire_le n

theorem foldlM_addRr (db : Database) (ips : List UInt32) :
    (ips.map (ServicePublisher.Call.addRr ServicePublisher.hostname ·)).foldlM Database.call db =
      .ok { db with records := db.records ++ ips.map (rrCreateA (wire host)) } := by
  induction ips generalizing db
  case nil => simp [pure, Except.pure]
  case cons ip ips hi =>
    have ha : db.call (.addRr ServicePublisher.hostname ip) =
        .ok { db with records := db.records ++ [rrCreateA (wire host) ip] } := by
      simp only [Database.call, createNlabel_hostname]
      exact add_of_wire (List.forall_mem_singleton.mpr ⟨host, rfl⟩)
    rw [List.map_cons, List.foldlM_cons, ha]
    refine (hi _).trans ?_
    simp

theorem database_announcement (l : Label) (port : Int32) (ip : UInt32) (ips : List UInt32) :
    (announcement l.bytes port (ip :: ips)).foldlM Database.call {} = .ok {
      records  := publishedRecords l port.toUInt32.toUInt16 ip ips
      hostname := some (wire host) } := by
  have hh : Database.call {} (.setHostname ServicePublisher.hostname ip) = .ok {
      records  := [rrCreateA (wire host) ip, rrCreateNsec (wire host) 120 RR_A]
      hostname := some (wire host) } := by
    simp only [Database.call, createNlabel_hostname, if_true]
    exact add_of_wire (List.forall_mem_cons.mpr ⟨⟨host, rfl⟩, List.forall_mem_singleton.mpr ⟨host, rfl⟩⟩)
  have hr (db : Database) (hh : db.hostname = some (wire host)) :
      db.call (.registerSvc l.bytes extendedregtype port.toUInt32.toUInt16 none [version]) =
        .ok { db with records := db.records ++ (published l port.toUInt32.toUInt16).records } := by
    have hs : serviceRecords db.hostname l.bytes extendedregtype port.toUInt32.toUInt16 none [version] = _ :=
      hh ▸ serviceRecords_eq l _
    rw [Database.call, hs]
    refine add_of_wire fun rr hr => ?_
    simp only [Service.records, published, Option.toList_some, List.mem_append, List.mem_cons, List.not_mem_nil,
      or_false] at hr
    rcases hr with rfl | rfl | rfl | rfl
    all_goals exact ⟨_, rfl⟩
  rw [announcement, List.cons_append, List.foldlM_cons, hh]
  refine (List.foldlM_append ..).trans ?_
  rw [foldlM_addRr]
  refine (bind_pure (Database.call _ _)).trans ((hr _ rfl).trans (congrArg Except.ok ?_))
  simp [publishedRecords]

-- If there is an address to publish, nothing aborts, and the records are there.
theorem calls_announcement (rr : Ptr → RrEntry) (l : Label) (port : Int32) (ip : UInt32) (ips : List UInt32) :
    ∃ svr, calls (mdnsdStart rr) (announcement l.bytes port (ip :: ips)) = .ok svr ∧ svr.Indexed ∧
      svr.records = publishedRecords l port.toUInt32.toUInt16 ip ips := by
  have hd := database_calls (.start rr) (announcement l.bytes port (ip :: ips))
  have hs : (mdnsdStart rr).database = {} := rfl
  rw [hs, database_announcement] at hd
  cases hc : calls (mdnsdStart rr) (announcement l.bytes port (ip :: ips))
  case error => simp [hc] at hd
  case ok svr =>
    rw [hc] at hd
    exact ⟨svr, rfl, (Mdnsd.Indexed.start rr).calls hc, congrArg Database.records (Except.ok.inj hd)⟩

theorem isAnswer_wire {n n' : DomainName} {type : RrType} {r : RrEntry} (hr : r.name = wire n') :
    IsAnswer (wire n) type r ↔ n = n' ∧ (type = r.type ∨ type = RR_ANY ∧ r.type ≠ RR_NSEC) := by
  rw [IsAnswer, hr, cString_wire, cString_wire, DomainName.wire_inj]

-- What is asked when someone looks for instances of the service, and when someone looks for the addresses of
-- the host.
structure Asks (pkt : MdnsPkt RrEntry) (name : NLabel) (type : RrType) : Prop where
  query : IsQuery pkt
  numQn : pkt.numQn = 1
  qn    : ∃ qn, pkt.rrQn = [qn] ∧ qn.unicastQuery = false ∧ qn.name = name ∧ qn.type = type
  rrAns : pkt.rrAns = []

theorem Asks.length {pkt : MdnsPkt RrEntry} {name : NLabel} {type : RrType} (h : Asks pkt name type) :
    pkt.rrQn.length = pkt.numQn.toNat := by
  obtain ⟨qn, hq, -⟩ := h.qn
  rw [hq, h.numQn]
  rfl

theorem Asks.answers {pkt : MdnsPkt RrEntry} {reply : MdnsPkt Ptr} {name : NLabel} {type : RrType}
    (h : Asks pkt name type) (hr : IsReply svr pkt reply) :
    (reply.rrAns.map svr.rr).Perm (svr.records.filter (IsAnswer name type ·)) := by
  obtain ⟨-, -, ⟨qn, hq, hu, rfl, rfl⟩, ha⟩ := h
  have hk (r : RrEntry) : IsKnown [] r = false := rfl
  have hp : reply.rrAns.Perm (svr.answers qn.name qn.type) := by
    refine (List.perm_ext_iff_of_nodup hr.ansNodup answers_nodup).mpr fun p => ?_
    rw [hr.ans, mem_answers, hq, ha]
    simp [hk, hu]
  have hm := hp.map svr.rr
  rwa [map_answers] at hm

-- Which of the records satisfy a condition which is the same for all address records.
theorem filter_publishedRecords {port : UInt16} {P : RrEntry → Bool} {a : Bool}
    (ha : ∀ ip, P (rrCreateA (wire host) ip) = a) : (publishedRecords l port ip ips).filter P =
      (if a then [rrCreateA (wire host) ip] else []) ++ [rrCreateNsec (wire host) 120 RR_A].filter P ++
        (if a then ips.map (rrCreateA (wire host)) else []) ++ (published l port).records.filter P := by
  have hips : (ips.map (rrCreateA (wire host))).filter P = if a then ips.map (rrCreateA (wire host)) else [] := by
    cases a <;> simp [ha]
  rw [publishedRecords, List.filter_append, List.filter_append, hips, ← List.singleton_append, List.filter_append,
    List.filter_singleton, ha]
  simp [List.append_assoc, cond_eq_ite]

theorem filter_host {port : UInt16} : (publishedRecords l port ip ips).filter (IsAnswer (wire host) RR_A ·) =
    (ip :: ips).map (rrCreateA (wire host)) := by
  have hA (ip : UInt32) : IsAnswer (wire host) RR_A (rrCreateA (wire host) ip) :=
    (isAnswer_wire rfl).mpr ⟨rfl, .inl rfl⟩
  have hother {r : RrEntry} (hr : r.type ≠ RR_A) : decide (IsAnswer (wire host) RR_A r) = false :=
    decide_eq_false fun h => h.right.elim (fun ht => hr ht.symm) fun ht => absurd ht.left (by decide)
  have hs : (published l port).records.filter (IsAnswer (wire host) RR_A ·) = [] := by
    refine List.filter_eq_nil_iff.mpr fun r hr => Bool.eq_false_iff.mp (hother ?_)
    have hr : r ∈ [rrCreateTxt (wire (l :: service)) [version], (published l port).srvE, (published l port).ptrE,
      (published l port).bptrE] := hr
    simp only [List.mem_cons, List.not_mem_nil, or_false] at hr
    rcases hr with rfl | rfl | rfl | rfl
    · exact show RR_TXT ≠ RR_A by decide
    · exact show RR_SRV ≠ RR_A by decide
    · exact show RR_PTR ≠ RR_A by decide
    · exact show RR_PTR ≠ RR_A by decide
  have hn := hother (r := rrCreateNsec (wire host) 120 RR_A) (show RR_NSEC ≠ RR_A by decide)
  rw [filter_publishedRecords fun ip => decide_eq_true (hA ip), hs, List.filter_singleton, hn]
  simp

-- Someone who looks for the host is given all its addresses.
theorem resolve (rr : Ptr → RrEntry) (l : Label) (port : Int32) (ip : UInt32) (ips : List UInt32) :
    ∃ svr, calls (mdnsdStart rr) (announcement l.bytes port (ip :: ips)) = .ok svr ∧
      ∀ pkt, Asks pkt (wire host) RR_A → ∃ reply, processMdnsPkt svr pkt = .ok (some reply) ∧
        (reply.rrAns.map svr.rr).Perm ((ip :: ips).map (rrCreateA (wire host))) := by
  obtain ⟨svr, hc, hi, hs⟩ := calls_announcement rr l port ip ips
  refine ⟨svr, hc, fun pkt ha => ?_⟩
  obtain ⟨reply, hp, hr⟩ := processMdnsPkt_query hi ha.query ha.length
  have h := ha.answers hr
  rw [hs, filter_host] at h
  exact ⟨reply, hp, h⟩

theorem resolve_answered : ∃ svr reply,
    calls (mdnsdStart blank) (announcement [97] 7700 [5, 6]) = .ok svr ∧
      processMdnsPkt svr { numQn := 1, rrQn := [{ name := wire host, data := .none RR_A }] } = .ok (some reply) ∧
      (reply.rrAns.map svr.rr).Perm [rrCreateA (wire host) 5, rrCreateA (wire host) 6] := by
  obtain ⟨svr, hc, h⟩ := resolve blank ⟨[97], by decide, by decide, by decide⟩ 7700 5 [6]
  have hq : Asks { numQn := 1, rrQn := [{ name := wire host, data := .none RR_A }] } (wire host) RR_A :=
    ⟨by decide, rfl, ⟨_, rfl, rfl, rfl, rfl⟩, rfl⟩
  obtain ⟨reply, hr, ha⟩ := h _ hq
  exact ⟨svr, reply, hc, hr, ha⟩

end

end Mdns
