import LightningCast.Tinysvcmdns.Theorems.Discover

open DomainName (Holds wire text)
open ServicePublisher (Call)

namespace Mdns

-- A text which is a name, and calls whose texts are names.
def IsName (h : Bytes) : Prop :=
  ∃ n : DomainName, n ≠ [] ∧ n.Dotless ∧ h = text n

def Named : Call → Prop
  | .setHostname hostname _                       => IsName hostname
  | .addRr name _                                 => IsName name
  | .registerSvc instanceName type _ hostname txt =>
    (∃ l : Label, instanceName = l.bytes) ∧ IsName type ∧ (∀ h ∈ hostname, IsName h) ∧
      ∀ t ∈ txt, t.length ≤ 62 ∧ 0 ∉ t

-- All records can be encoded, and so could those of a service on the host.
structure Database.Encodable (db : Database) : Prop where
  records  : ∀ rr ∈ db.records, rr.Encodable
  hostname : ∀ h ∈ db.hostname, ∃ n, h = wire n

section

variable {db db' : Database} {svr : Mdnsd} {n : DomainName}

theorem createNlabel_of_isName {h : Bytes} (hn : IsName h) : ∃ n, createNlabel h = wire n := by
  obtain ⟨n, hn, hd, rfl⟩ := hn
  exact ⟨n, createNlabel_text hn hd⟩

theorem encodable_a (n : DomainName) (ip : UInt32) : (rrCreateA (wire n) ip).Encodable :=
  ⟨⟨n, rfl⟩, trivial⟩

theorem encodable_nsec (n : DomainName) (ttl : UInt32) (type : RrType) : (rrCreateNsec (wire n) ttl type).Encodable :=
  ⟨⟨n, rfl⟩, trivial⟩

theorem encodable_txt (n : DomainName) {txt : List Bytes} (hn : txt ≠ []) (ht : ∀ t ∈ txt, t.length ≤ 62 ∧ 0 ∉ t) :
    (rrCreateTxt (wire n) txt).Encodable := by
  refine ⟨⟨n, rfl⟩, ?_⟩
  rw [rrCreateTxt_data hn fun t hm => (ht t hm).left.trans (by decide)]
  refine ⟨txt.map fun t => .ofNat t.length :: t, ?_, by simpa using hn, ?_⟩
  · rw [List.map_map]
    refine List.map_congr_left fun t hm => if_neg (Nat.not_lt.mpr ?_)
    exact (ht t hm).left.trans (by decide)
  · intro t' hm
    obtain ⟨t, hm', rfl⟩ := List.mem_map.mp hm
    exact ⟨t, (ht t hm').left, (ht t hm').right, rfl⟩

theorem Database.Encodable.add (h : db.Encodable) {rrs : List RrEntry} (ha : db.add rrs = .ok db')
    (hr : ∀ rr ∈ rrs, rr.Encodable) : db'.Encodable := by
  obtain ⟨-, rfl⟩ := Except.ite_eq_ok_iff.mp ha
  exact ⟨List.forall_mem_append.mpr ⟨h.records, hr⟩, h.hostname⟩

-- Whatever the target of a service is, it is a name.
theorem serviceTarget_name {hostname : Option Bytes} {svrHostname : Option NLabel} {target : NLabel}
    (hs : ∀ h ∈ svrHostname, ∃ n, h = wire n) (hh : ∀ h ∈ hostname, IsName h)
    (h : serviceTarget hostname svrHostname = .ok target) : ∃ n, target = wire n := by
  cases hostname
  case some hostname =>
    obtain ⟨n, hn⟩ := createNlabel_of_isName (hh hostname rfl)
    exact ⟨n, hn ▸ (Except.ok.inj h).symm⟩
  case none =>
    cases svrHostname
    case none      => cases h
    case some host =>
      obtain ⟨n, rfl⟩ := hs host rfl
      exact ⟨n, (Except.ok.inj ((dupNlabel_wire n).symm.trans h)).symm⟩

theorem serviceRecords_encodable {instanceName type : Bytes} {port : UInt16} {hostname : Option Bytes}
    {txt : List Bytes} {svrHostname : Option NLabel} {s : Service} (hs : ∀ h ∈ svrHostname, ∃ n, h = wire n)
    (hn : Named (.registerSvc instanceName type port hostname txt))
    (h : serviceRecords svrHostname instanceName type port hostname txt = .ok s) : ∀ rr ∈ s.records, rr.Encodable := by
  obtain ⟨⟨l, rfl⟩, htype, hhost, htxt⟩ := hn
  obtain ⟨n, htype⟩ := createNlabel_of_isName htype
  obtain ⟨nlabel, target, name, services', hj, ht, hname, hservices, rfl⟩ := serviceRecords_eq_ok h
  obtain ⟨t, rfl⟩ := serviceTarget_name hs hhost ht
  -- The name of the service is that of the instance and its type.
  have hj' : (createLabel l.bytes).mapM (joinNlabel · (createNlabel type)) = .ok (some (wire (l :: n))) := by
    rw [createLabel_bytes, htype, Option.mapM_some, joinNlabel_wire]
    rfl
  cases hj.symm.trans hj'
  cases hname.symm.trans (dupNlabel_wire (l :: n))
  rw [services_eq] at hservices
  cases hservices.symm.trans (dupNlabel_wire services)
  simp only [Service.records, List.mem_append, List.mem_cons, List.not_mem_nil, or_false]
  rintro rr (hm | rfl | rfl | rfl)
  case inl =>
    split at hm
    case isTrue => cases hm
    case isFalse hn =>
      rw [Option.toList_some, List.mem_singleton] at hm
      exact hm ▸ encodable_txt (l :: n) hn htxt
  case inr.inl     => exact ⟨⟨_, rfl⟩, t, rfl⟩
  case inr.inr.inl => exact ⟨⟨n, htype⟩, l :: n, rfl⟩
  case inr.inr.inr => exact ⟨⟨services, rfl⟩, n, htype⟩

theorem Database.Encodable.call {c : Call} (h : db.Encodable) (hn : Named c) (hc : db.call c = .ok db') :
    db'.Encodable := by
  cases c
  case setHostname hostname ip =>
    obtain ⟨n, hn⟩ := createNlabel_of_isName hn
    simp only [Database.call, hn] at hc
    split at hc
    case isFalse => cases hc
    case isTrue =>
      have h' : Encodable { db with hostname := some (wire n) } :=
        ⟨h.records, fun _ hh => ⟨n, (Option.some_inj.mp hh).symm⟩⟩
      exact h'.add hc (by simp [encodable_a, encodable_nsec])
  case addRr name ip =>
    obtain ⟨n, hn⟩ := createNlabel_of_isName hn
    simp only [Database.call, hn] at hc
    exact h.add hc (by simp [encodable_a])
  case registerSvc =>
    obtain ⟨s, hs, hc⟩ := Except.bind_eq_ok_iff.mp hc
    exact h.add hc (serviceRecords_encodable h.hostname hn hs)

theorem Database.Encodable.calls {cs : List Call} (h : db.Encodable) (hn : ∀ c ∈ cs, Named c)
    (hc : cs.foldlM Database.call db = .ok db') : db'.Encodable := by
  induction cs generalizing db
  case nil =>
    cases hc
    exact h
  case cons c cs hi =>
    obtain ⟨hn', hn⟩ := List.forall_mem_cons.mp hn
    obtain ⟨db₁, hc', hc⟩ := Except.bind_eq_ok_iff.mp hc
    exact hi (h.call hn' hc') hn hc

end

section

variable {rrs : List RrEntry} {out bytes : Bytes} {comp : List NameComp} {pktLen : Nat}

end

section

variable {svr : Mdnsd} {m m' : Buffer} {n : Nat} {bytes : Bytes}

end

end Mdns
