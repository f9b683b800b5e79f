import LightningCast.Tinysvcmdns.Parse

namespace Mdns

open RrType

-- The records of `struct mdnsd`. `rr` is the memory in which they are, and which is free from `fresh` on.
structure Mdnsd where
  rr       : Ptr → RrEntry
  fresh    : Ptr           := 0
  group    : List RrGroup  := []
  announce : List Ptr      := []
  services : List Ptr      := []
  hostname : Option NLabel := none

-- The list, and how many items have been added.
def rrListAppend (rrHead : List Ptr) (rr : Ptr) : List Ptr × Nat :=
  if rr ∈ rrHead then (rrHead, 0) else (rrHead ++ [rr], 1)

def rrGroupFind (g : List RrGroup) (name : NLabel) : Option RrGroup :=
  g.find? (cmpNlabel ·.name name)

-- `MDNS_RR_GET_PTR_NAME`
def getPtrName (rr : RrEntry) : NLabel :=
  match rr.data with
  | .ptr target => target
  | _           => []

def rrEntryMatch (rrList : List RrEntry) (entry : RrEntry) : Option RrEntry :=
  rrList.find? fun rr =>
    rr.type = entry.type ∧ cmpNlabel rr.name entry.name ∧
      (entry.type ≠ RR_PTR ∨ cmpNlabel (getPtrName entry) (getPtrName rr))

section

variable (svr : Mdnsd)

-- The body of the loop of `populate_answers`.
def populateAnswer (name : NLabel) (type : RrType) : List Ptr × Nat → Ptr → List Ptr × Nat
  | (rrHead, numAns), n =>
    if type = RR_ANY ∧ (svr.rr n).type = RR_NSEC
    then (rrHead, numAns)
    else if (type = (svr.rr n).type ∨ type = RR_ANY) ∧ cmpNlabel name (svr.rr n).name
    then
      let (rrHead, added) := rrListAppend rrHead n
      (rrHead, numAns + added)
    else (rrHead, numAns)

def populateAnswers (rrHead : List Ptr) (name : NLabel) (type : RrType) : List Ptr × Nat :=
  match rrGroupFind svr.group name with
  | none        => (rrHead, 0)
  | some ansGrp => ansGrp.rr.foldl (populateAnswer svr name type) (rrHead, 0)

def populateAdd (reply : MdnsPkt Ptr) (name : NLabel) (type : RrType) : MdnsPkt Ptr :=
  let (rrAdd, numAns) := populateAnswers svr reply.rrAdd name type
  { reply with rrAdd, numAddRr := reply.numAddRr + .ofNat numAns }

-- The body of the loop of `add_related_rr`.
def addRelated (reply : MdnsPkt Ptr) (ans : Ptr) : MdnsPkt Ptr :=
  match (svr.rr ans).data with
  | .ptr target       => populateAdd svr reply target RR_ANY
  | .srv _ _ _ target => populateAdd svr (populateAdd svr reply target RR_ANY) (svr.rr ans).name RR_TXT
  | .a _ | .aaaa _    => populateAdd svr reply (svr.rr ans).name RR_NSEC
  | _                 => reply

-- The loop over a list of the reply, from its place `i` on. The list may grow in the meantime.
def addRelatedRr (list : MdnsPkt Ptr → List Ptr) : Nat → Nat → MdnsPkt Ptr → Except Fault (MdnsPkt Ptr)
  | 0, _, _         => .error .hang
  | n + 1, i, reply =>
    match (list reply)[i]? with
    | none     => .ok reply
    | some ans => addRelatedRr list n (i + 1) (addRelated svr reply ans)

-- The records for the answers, and for the additional records. A loop which has not ended after a round for
-- each record would not end.
def addRelatedRrs (reply : MdnsPkt Ptr) : Except Fault (MdnsPkt Ptr) := do
  let reply ← addRelatedRr svr MdnsPkt.rrAns (svr.fresh + 1) 0 reply
  addRelatedRr svr MdnsPkt.rrAdd (svr.fresh + 1) 0 reply

end

def MDNS_FLAG_RESP : UInt16 := 0x8000
def MDNS_FLAG_AA : UInt16 := 0x0400

def MDNS_FLAG_GET_OPCODE (x : UInt16) : UInt16 :=
  (x >>> 11) &&& 0x0F

-- It clears the packet it is given.
def mdnsInitReply (id : UInt16) : MdnsPkt Ptr where
  id    := id
  flags := MDNS_FLAG_RESP ||| MDNS_FLAG_AA

-- The name of the record by which services are found: `_services._dns-sd._udp.local`.
def SERVICES_DNS_SD_NLABEL : NLabel :=
  9 :: ascii "_services" ++ 7 :: ascii "_dns-sd" ++ 4 :: ascii "_udp" ++ 5 :: ascii "local"

section

variable (svr : Mdnsd)

def populateAns (reply : MdnsPkt Ptr) (name : NLabel) (type : RrType) : MdnsPkt Ptr :=
  let (rrAns, numAns) := populateAnswers svr reply.rrAns name type
  { reply with rrAns, numAnsRr := reply.numAnsRr + .ofNat numAns }

def announceSrv (name : NLabel) : Except Fault (MdnsPkt Ptr) :=
  addRelatedRrs svr <|
    populateAns svr (populateAns svr (mdnsInitReply 0) name RR_PTR) SERVICES_DNS_SD_NLABEL RR_PTR

-- The loop through `num_qn` questions.
def answerQuestions : Nat → List RrEntry → MdnsPkt Ptr → Except Fault (MdnsPkt Ptr)
  | 0, _, reply             => .ok reply
  | _ + 1, [], _            => .error .nullDereference
  | n + 1, qn :: qnl, reply =>
    answerQuestions n qnl <| if qn.unicastQuery then reply else populateAns svr reply qn.name qn.type

-- The answer is among the known ones, with at least half of its TTL.
def IsKnown (rrAns : List RrEntry) (ans : RrEntry) : Bool :=
  match rrEntryMatch rrAns ans with
  | none          => false
  | some knownAns => knownAns.ttl ≥ ans.ttl / 2

def removeKnown (rrAns : List RrEntry) (reply : MdnsPkt Ptr) : MdnsPkt Ptr :=
  { reply with
    rrAns    := reply.rrAns.filter fun ans => ¬IsKnown rrAns (svr.rr ans)
    numAnsRr := reply.numAnsRr - .ofNat (reply.rrAns.countP fun ans => IsKnown rrAns (svr.rr ans)) }

def IsQuery (pkt : MdnsPkt RrEntry) : Prop :=
  pkt.flags &&& MDNS_FLAG_RESP = 0 ∧ MDNS_FLAG_GET_OPCODE pkt.flags = 0

instance (pkt : MdnsPkt RrEntry) : Decidable (IsQuery pkt) :=
  inferInstanceAs (Decidable (_ ∧ _))

-- The reply to the packet, if it is a query. What the function returns is the number of answers.
def processMdnsPkt (pkt : MdnsPkt RrEntry) : Except Fault (Option (MdnsPkt Ptr)) :=
  if IsQuery pkt
  then do
    let reply ← answerQuestions svr pkt.numQn.toNat pkt.rrQn (mdnsInitReply pkt.id)
    some <$> addRelatedRrs svr (removeKnown svr pkt.rrAns reply)
  else return none

def PACKET_SIZE : Nat := 65536

-- What `main_loop` sends of a reply. A packet which is too large is not sent: its length is given as -1.
def sendReply (reply : MdnsPkt Ptr) : Except Fault (Option Bytes) :=
  if reply.numAnsRr > 0 then mdnsEncodePkt (reply.map svr.rr) PACKET_SIZE else return none

-- What it sends when it has received a packet of `recvsize` bytes.
def respond (pktBuffer : Buffer) (recvsize : Nat) : Except Fault (Option Bytes) := do
  let some mdns ← (mdnsParsePkt pktBuffer recvsize).run | return none
  let some reply ← processMdnsPkt svr mdns | return none
  sendReply svr reply

end

end Mdns
