import LightningCast.Common
import LightningCast.Library.Walk

namespace Mdns

-- A packet buffer, which can hold anything beyond its packet.
abbrev Buffer := Nat → UInt8

def Buffer.bytes (buf : Buffer) (off len : Nat) : Bytes :=
  (List.range' off len).map buf

-- A name label, which is a sequence of labels. It is given by the bytes of its block before the last zero. No
-- label is longer than what is left of the block, unless `create_nlabel` is given one of more than 255 bytes.
abbrev NLabel := Bytes

-- `abort` is an assertion which does not hold, and `overflow` a write behind the end of the packet buffer.
-- `die` does nothing: it is an empty macro.
inductive Fault
  | hang
  | nullDereference
  | abort
  | overflow
deriving DecidableEq

-- What a function on strings sees of a block.
def cString (bs : Bytes) : Bytes :=
  bs.takeWhile (· ≠ 0)

-- What `strncpy` writes. It pads with zeros.
def strncpy (src : Bytes) (n : Nat) : Bytes :=
  let s := cString (src.take n)
  s ++ List.replicate (n - s.length) 0

def cmpNlabel (L1 L2 : NLabel) : Bool :=
  cString L1 = cString L2

def dupNlabel (n : NLabel) : Except Fault NLabel :=
  if n.headD 0 ≤ 63 then .ok (cString n) else .error .abort

def joinNlabel (n1 n2 : NLabel) : Except Fault NLabel :=
  if n1.headD 0 ≤ 63 ∧ n2.headD 0 ≤ 63 then .ok (cString n1 ++ cString n2) else .error .abort

-- A label is given by its block, the length included.
def dupLabel (label : Bytes) : Option Bytes :=
  let len := (label.headD 0).toNat + 1
  if len > 63 then none else some (strncpy label len)

def createLabel (txt : Bytes) : Option Bytes :=
  if txt.length > 63 then none else some (.ofNat txt.length :: txt)

-- The loop takes one label in each round. Its `memchr` does not look at the last byte. For the empty name there is
-- no round, and the first byte of the block, which nothing has been written to, is taken to be zero.
def createNlabel (name : Bytes) : NLabel :=
  let dot := name.dropLast.idxOf 46
  if dot < name.dropLast.length
  then .ofNat dot :: name.take dot ++ createNlabel (name.drop (dot + 1))
  else .ofNat name.length :: name
termination_by name.length
decreasing_by
  simp only [List.length_dropLast, List.length_drop] at *
  omega

namespace nlabelToStr

-- What the loop writes, and how much of the buffer it leaves.
def loop (bufLen : Nat) (p : Bytes) : Bytes × Nat :=
  match p with
  | []             => ([], bufLen)
  | labelLen :: p' =>
    if labelLen = 0 ∨ bufLen ≤ labelLen.toNat
    then ([], bufLen)
    else
      let (s, left) := loop (bufLen - (labelLen.toNat + 1)) (p'.drop labelLen.toNat)
      (strncpy p' labelLen.toNat ++ 46 :: s, left)
termination_by p.length
decreasing_by
  simp only [List.length_drop, List.length_cons]
  omega

end nlabelToStr

def nlabelToStr (name : NLabel) : Bytes :=
  let (label, bufLen) := nlabelToStr.loop 256 name
  if bufLen = 0 then label.dropLast else label

-- The length of a name in a packet, which is not uncompressed.
def labelLen (pktBuf : Buffer) (pktLen p : Nat) : Nat :=
  if p < pktLen
  then
    if pktBuf p = 0
    then 1
    else if pktBuf p &&& 0xC0 = 0xC0
    then 2
    else (pktBuf p).toNat + 1 + labelLen pktBuf pktLen (p + ((pktBuf p).toNat + 1))
  else 0
termination_by pktLen - p

def copyLabel (pktBuf : Buffer) (pktLen off : Nat) : Option Bytes :=
  let len := (pktBuf off).toNat + 1
  if off > pktLen ∨ off + len > pktLen then none else dupLabel (pktBuf.bytes off len)

-- A round of the loops of `uncompress_nlabel`: what it copies, and where it goes. After a pointer the loop
-- goes on behind the label to which it points.
def segment (pktBuf : Buffer) (pktLen p : Nat) : Option (Bytes × Nat) :=
  if pktBuf p ≠ 0 ∧ p < pktLen
  then
    let p2 :=
      if pktBuf p &&& 0xC0 = 0xC0
      then ((pktBuf p &&& ~~~0xC0).toNat <<< 8) ||| (pktBuf (p + 1)).toNat
      else p
    let llen := (pktBuf p2).toNat + 1
    some (strncpy (pktBuf.bytes p2 llen) llen, p2 + llen)
  else none

-- If the loops have not ended after a round from each place of the packet, they never end.
def uncompressNlabel (pktBuf : Buffer) (pktLen off : Nat) : Except Fault (Option NLabel) :=
  if off ≥ pktLen
  then .ok none
  else
    match Walk.run (segment pktBuf pktLen) (pktLen + 1) off with
    | none      => .error .hang
    | some segs => .ok (some segs.flatten)

end Mdns
