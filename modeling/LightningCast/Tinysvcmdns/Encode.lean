import LightningCast.Tinysvcmdns.Record

namespace Mdns

open RrType

def mdnsWriteU16 (v : UInt16) : Bytes :=
  [(v >>> 8).toUInt8, v.toUInt8]

def mdnsWriteU32 (v : UInt32) : Bytes :=
  [(v >>> 24).toUInt8, (v >>> 16).toUInt8, (v >>> 8).toUInt8, v.toUInt8]

-- `htonl` and `ntohl` of a number, on a machine whose byte order is not the one of the network.
def swap (v : UInt32) : UInt32 :=
  (v.toUInt8.toUInt32 <<< 24) ||| ((v >>> 8).toUInt8.toUInt32 <<< 16) |||
    ((v >>> 16).toUInt8.toUInt32 <<< 8) ||| (v >>> 24).toUInt8.toUInt32

-- `struct name_comp`
structure NameComp where
  label : NLabel
  pos   : Nat
deriving DecidableEq

-- What is written at `off`, and the compression list after it, which has its head left out: it is the empty
-- label, which is never looked for.
def mdnsEncodeName (off : Nat) (name : NLabel) (comp : List NameComp) : Bytes × List NameComp :=
  match name with
  | []          => ([0], comp)
  | len :: tail =>
    let name := len :: tail
    if len = 0
    then ([0], comp)
    else
      match comp.find? (cmpNlabel name ·.label) with
      | some c => (mdnsWriteU16 (0xC000 ||| (.ofNat c.pos &&& ~~~0xC000)), comp)
      | none   =>
        let segmentLen := len.toNat + 1
        let (rest, comp) :=
          mdnsEncodeName (off + segmentLen) (name.drop segmentLen) (comp ++ [{ label := name, pos := off }])
        (strncpy name segmentLen ++ rest, comp)
termination_by name.length
decreasing_by
  simp only [List.length_drop, List.length_cons]
  omega

-- The texts, one after the other. The first byte of each is read.
def encodeTxts : List (Option Bytes) → Except Fault Bytes
  | []               => .ok []
  | none :: _        => .error .nullDereference
  | some txt :: txts => (strncpy txt ((txt.headD 0).toNat + 1) ++ ·) <$> encodeTxts txts

-- The data of a record, which begin at `off`.
def encodeData (off : Nat) (rr : RrEntry) (comp : List NameComp) : Except Fault (Bytes × List NameComp) :=
  match rr.data with
  | .none _    => .ok ([], comp)
  | .a addr    => .ok (mdnsWriteU32 (swap addr), comp)
  | .aaaa addr => .ok (addr, comp)
  | .ptr label => .ok (mdnsEncodeName off label comp)
  | .txt txts  => (·, comp) <$> encodeTxts txts
  | .srv priority weight port target =>
    let numbers := mdnsWriteU16 priority ++ mdnsWriteU16 weight ++ mdnsWriteU16 port
    let (name, comp) := mdnsEncodeName (off + numbers.length) target comp
    .ok (numbers ++ name, comp)
  | .nsec bitmap =>
    let (name, comp) := mdnsEncodeName off rr.name comp
    .ok (name ++ [0, 5] ++ bitmap.val, comp)

-- The fields between the name of a record and the length of its data.
def encodeFields (rr : RrEntry) : Bytes :=
  mdnsWriteU16 rr.type ++
  mdnsWriteU16 ((rr.rrClass &&& ~~~(0x8000 : UInt16)) ||| (rr.cacheFlush.toUInt16 <<< 15)) ++
  mdnsWriteU32 rr.ttl

-- It is asserted that a record begins within the buffer, and that its name has a length.
def mdnsEncodeRr (pktLen off : Nat) (rr : RrEntry) (comp : List NameComp) : Except Fault (Bytes × List NameComp) :=
  let (name, comp) := mdnsEncodeName off rr.name comp
  if off < pktLen ∧ name ≠ []
  then do
    let fields := encodeFields rr
    let (data, comp) ← encodeData (off + name.length + fields.length + 2) rr comp
    return (name ++ fields ++ mdnsWriteU16 (.ofNat data.length) ++ data, comp)
  else throw .abort

-- The records of the three sections, one after the other. After each of them it is tested whether the packet
-- has become too large, but nothing keeps the record itself from being written behind the end of the buffer.
def encodeRrs (pktLen : Nat) (pkt : Bytes) (comp : List NameComp) :
    List RrEntry → Except Fault (Option (Bytes × List NameComp))
  | []        => return some (pkt, comp)
  | rr :: rrs => do
    let (bs, comp) ← mdnsEncodeRr pktLen pkt.length rr comp
    if (pkt ++ bs).length > pktLen
    then throw .overflow
    else if (pkt ++ bs).length = pktLen
    then return none
    else encodeRrs pktLen (pkt ++ bs) comp rrs

def encodeHeader (answer : MdnsPkt RrEntry) : Bytes :=
  mdnsWriteU16 answer.id ++ mdnsWriteU16 answer.flags ++ mdnsWriteU16 answer.numQn ++
  mdnsWriteU16 answer.numAnsRr ++ mdnsWriteU16 answer.numAuthRr ++ mdnsWriteU16 answer.numAddRr

-- It is asserted that an answer has no questions. What is returned for a packet which is too large is -1.
def mdnsEncodePkt (answer : MdnsPkt RrEntry) (pktLen : Nat) : Except Fault (Option Bytes) :=
  if pktLen ≥ 12 ∧ answer.numQn = 0
  then (·.map Prod.fst) <$> encodeRrs pktLen (encodeHeader answer) [] (answer.rrAns ++ answer.rrAuth ++ answer.rrAdd)
  else throw .abort

end Mdns
