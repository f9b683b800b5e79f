import LightningCast.Tinysvcmdns.Label
import LightningCast.Library.Worklist
import Mathlib.Logic.Function.Basic

namespace Mdns

-- `enum rr_type`. A type which has been parsed can be any number.
abbrev RrType := UInt16

namespace RrType

def RR_A : RrType := 0x01
def RR_PTR : RrType := 0x0C
def RR_TXT : RrType := 0x10
def RR_AAAA : RrType := 0x1C
def RR_SRV : RrType := 0x21
def RR_NSEC : RrType := 0x2F
def RR_ANY : RrType := 0xFF

end RrType

open RrType

-- The data of a record, which say what its type is. `none` is a record without data. A text which is too long for
-- a label is a null pointer.
inductive RrData
  | none (type : RrType)
  | a (addr : UInt32)
  | aaaa (addr : { addr : Bytes // addr.length = 16 })
  | ptr (target : NLabel)
  | txt (txts : List (Option Bytes))
  | srv (priority weight port : UInt16) (target : NLabel)
  | nsec (bitmap : { bitmap : Bytes // bitmap.length = 5 })
deriving DecidableEq

def RrData.type : RrData → RrType
  | none type => type
  | a _       => RR_A
  | aaaa _    => RR_AAAA
  | ptr _     => RR_PTR
  | txt _     => RR_TXT
  | srv ..    => RR_SRV
  | nsec _    => RR_NSEC

structure RrEntry where
  name         : NLabel
  ttl          : UInt32 := 4500
  unicastQuery : Bool   := false
  cacheFlush   : Bool   := true
  rrClass      : UInt16 := 1
  data         : RrData
deriving DecidableEq

def RrEntry.type (rr : RrEntry) : RrType :=
  rr.data.type

def rrCreateA (name : NLabel) (addr : UInt32) : RrEntry :=
  { name, ttl := 120, data := .a addr }

def rrCreateAaaa (name : NLabel) (addr : { addr : Bytes // addr.length = 16 }) : RrEntry :=
  { name, ttl := 120, data := .aaaa addr }

def rrCreateSrv (name : NLabel) (port : UInt16) (target : NLabel) : RrEntry :=
  { name, data := .srv 0 0 port target }

-- `MDNS_RR_GET_PTR_NAME` is the name of the entry to which a record points, and names do not change.
def rrCreatePtr (name : NLabel) (dRr : RrEntry) : RrEntry :=
  { name, cacheFlush := false, data := .ptr dRr.name }

-- The first text is part of the record. It is filled again if it is null.
def rrAddTxt (txts : List (Option Bytes)) (txt : Bytes) : List (Option Bytes) :=
  match txts with
  | none :: next => createLabel txt :: next
  | _            => txts ++ [createLabel txt]

-- `rr_create` and `rr_add_txt` for each of the texts.
def rrCreateTxt (name : NLabel) (txts : List Bytes) : RrEntry :=
  { name, data := .txt (txts.foldl rrAddTxt [none]) }

-- `rr_create` and `rr_set_nsec`, which sets the one bit.
def rrCreateNsec (name : NLabel) (ttl : UInt32) (type : RrType) : RrEntry where
  name := name
  ttl  := ttl
  data := .nsec ⟨(List.replicate 5 0).set (type.toNat / 8) (1 <<< UInt8.ofNat (7 - type.toNat % 8)), by simp⟩

-- A record is known by its place in memory. Lists of records have no place twice.
abbrev Ptr := Nat

structure RrGroup where
  name : NLabel
  rr   : List Ptr
deriving DecidableEq

-- `struct mdns_pkt`, with records of some kind.
structure MdnsPkt (ρ : Type) where
  id        : UInt16 := 0
  flags     : UInt16 := 0
  numQn     : UInt16 := 0
  numAnsRr  : UInt16 := 0
  numAuthRr : UInt16 := 0
  numAddRr  : UInt16 := 0
  rrQn      : List ρ := []
  rrAns     : List ρ := []
  rrAuth    : List ρ := []
  rrAdd     : List ρ := []
deriving DecidableEq

def MdnsPkt.map {ρ ρ' : Type} (f : ρ → ρ') (pkt : MdnsPkt ρ) : MdnsPkt ρ' :=
  { pkt with
    rrQn   := pkt.rrQn.map f
    rrAns  := pkt.rrAns.map f
    rrAuth := pkt.rrAuth.map f
    rrAdd  := pkt.rrAdd.map f }

end Mdns
