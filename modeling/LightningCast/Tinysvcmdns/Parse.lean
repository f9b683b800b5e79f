import LightningCast.Tinysvcmdns.Encode

namespace Mdns

open RrType

def mdnsReadU16 (ptr : Buffer) (p : Nat) : UInt16 :=
  ((ptr p).toUInt16 <<< 8) ||| (ptr (p + 1)).toUInt16

def mdnsReadU32 (ptr : Buffer) (p : Nat) : UInt32 :=
  ((ptr p).toUInt32 <<< 24) ||| ((ptr (p + 1)).toUInt32 <<< 16) ||| ((ptr (p + 2)).toUInt32 <<< 8) |||
    (ptr (p + 3)).toUInt32

-- A function which returns null or zero if it cannot parse.
abbrev ParseM := OptionT (Except Fault)

section

variable (pktBuf : Buffer) (pktLen : Nat)

-- Each function returns what it has parsed, and the place behind it.
def mdnsParseQn (off : Nat) : ParseM (RrEntry × Nat) := do
  let name ← uncompressNlabel pktBuf pktLen off
  let p := off + labelLen pktBuf pktLen off
  return ({
    name
    ttl          := 0
    unicastQuery := pktBuf (p + 2) &&& 0x80 = 0x80
    cacheFlush   := false
    rrClass      := mdnsReadU16 pktBuf (p + 2) &&& ~~~0x80
    data         := .none (mdnsReadU16 pktBuf p) }, p + 4)

-- The texts of a record whose data end at `e`.
def parseTxts (e p : Nat) : Option (List Bytes × Nat) :=
  match copyLabel pktBuf pktLen p with
  | none     => none
  | some txt =>
    let p' := p + ((txt.headD 0).toNat + 1)
    if p' ≥ e then some ([txt], p') else (parseTxts e p').map fun (txts, p) => (txt :: txts, p)
termination_by e - p

-- The data of a record, which begin at `p`.
def parseData (type : RrType) (rrDataLen p : Nat) : ParseM (RrData × Nat) :=
  if type = RR_A then
    if rrDataLen < 4 then failure else return (.a (swap (mdnsReadU32 pktBuf p)), p + 4)
  else if type = RR_AAAA then
    if rrDataLen < 16
    then failure
    else return (.aaaa ⟨pktBuf.bytes p 16, by simp [Buffer.bytes]⟩, p + 16)
  else if type = RR_PTR then do
    let name ← uncompressNlabel pktBuf pktLen p
    return (.ptr name, p + rrDataLen)
  else if type = RR_TXT then
    if rrDataLen = 0
    then return (.txt [some [0]], p)
    else do
      let some (txts, p) := parseTxts pktBuf pktLen (p + rrDataLen) p | failure
      return (.txt (txts.map some), p)
  else return (.none type, p + rrDataLen)

def mdnsParseRr (off : Nat) : ParseM (RrEntry × Nat) := do
  if off > pktLen then failure
  let name ← uncompressNlabel pktBuf pktLen off
  let p := off + labelLen pktBuf pktLen off
  let rrDataLen := (mdnsReadU16 pktBuf (p + 8)).toNat
  if p + 10 + rrDataLen > pktLen then failure
  let (data, e) ← parseData pktBuf pktLen (mdnsReadU16 pktBuf p) rrDataLen (p + 10)
  return ({
    name
    ttl          := mdnsReadU32 pktBuf (p + 4)
    unicastQuery := false
    cacheFlush   := pktBuf (p + 2) &&& 0x80 = 0x80
    rrClass      := mdnsReadU16 pktBuf (p + 2) &&& ~~~0x80
    data }, e)

end

-- The loops of `mdns_parse_pkt`. A function which parses nothing ends the loop.
def parseMany (parse : Nat → ParseM (RrEntry × Nat)) : Nat → Nat → ParseM (List RrEntry × Nat)
  | 0, off     => return ([], off)
  | n + 1, off => do
    let (rr, off) ← parse off
    let (rrs, off) ← parseMany parse n off
    return (rr :: rrs, off)

def mdnsParsePkt (pktBuf : Buffer) (pktLen : Nat) : ParseM (MdnsPkt RrEntry) := do
  if pktLen < 12 then failure
  let numQn := mdnsReadU16 pktBuf 4
  let numAnsRr := mdnsReadU16 pktBuf 6
  let (rrQn, off) ← parseMany (mdnsParseQn pktBuf pktLen) numQn.toNat 12
  let (rrAns, _) ← parseMany (mdnsParseRr pktBuf pktLen) numAnsRr.toNat off
  return {
    id        := mdnsReadU16 pktBuf 0
    flags     := mdnsReadU16 pktBuf 2
    numQn
    numAnsRr
    numAuthRr := mdnsReadU16 pktBuf 8
    numAddRr  := mdnsReadU16 pktBuf 10
    rrQn
    rrAns }

end Mdns
