import LightningCast.Library.Throwing
import LightningCast.Common

-- `struct sockaddr`, with what a `sockaddr_in` has in `sin_addr`.
structure SockAddr where
  saFamily : UInt16
  sinAddr  : UInt32
deriving DecidableEq

def SockAddr.afInet : UInt16 := 2

-- An entry of the list of `getifaddrs`. `ifa_addr` may be null.
structure IfAddrs where
  ifaFlags : UInt32
  ifaAddr  : Option SockAddr
deriving DecidableEq

namespace IfAddrs

def iffLoopback : UInt32 := 0x8

def IsLoopback (ifa : IfAddrs) : Prop :=
  ifa.ifaFlags &&& iffLoopback ≠ 0

instance (ifa : IfAddrs) : Decidable ifa.IsLoopback :=
  inferInstanceAs (Decidable (_ ≠ _))

end IfAddrs

namespace ServicePublisher

-- The calls which publish something: `rr` is the address record which `rr_create_a` makes for `name`.
inductive Call
  | setHostname (hostname : Bytes) (ip : UInt32)
  | addRr (name : Bytes) (ip : UInt32)
  | registerSvc (instanceName type : Bytes) (port : UInt16) (hostname : Option Bytes) (txt : List Bytes)
deriving DecidableEq

inductive Fault
  | nullDereference
deriving DecidableEq

-- The state is the calls which have been made with `svr`.
abbrev PublishM := Throwing Fault (List Call)

-- `*ifa->ifa_addr`
def deref (ifa : IfAddrs) : Except Fault SockAddr :=
  match ifa.ifaAddr with
  | none      => .error .nullDereference
  | some addr => .ok addr

def mdnsdSetHostname (hostname : Bytes) (ip : UInt32) : PublishM Unit :=
  modify (· ++ [.setHostname hostname ip])

def mdnsdAddRr (name : Bytes) (ip : UInt32) : PublishM Unit :=
  modify (· ++ [.addRr name ip])

def mdnsdRegisterSvc (instanceName type : Bytes) (port : UInt16) (hostname : Option Bytes) (txt : List Bytes) :
    PublishM Unit :=
  modify (· ++ [.registerSvc instanceName type port hostname txt])

-- `strncpy` of 99 bytes, and `.local` if the name does not end with it.
def hostname : Bytes :=
  let hostname := (ascii "LightningCastDeviceSample").take 99
  let hostend := hostname.drop (hostname.length - 6)
  if hostname.length < (ascii ".local").length ∨ hostend ≠ ascii ".local"
  then hostname ++ ascii ".local"
  else hostname

def extendedregtype : Bytes :=
  ascii "_lightningcast._tcp" ++ ascii ".local"

-- The first loop. It returns `ifa`, which is null if there is no entry left.
def lookForMain (hostname : Bytes) : List IfAddrs → PublishM (List IfAddrs)
  | []          => return []
  | ifa :: next => do
    if ¬ifa.IsLoopback ∧ ifa.ifaAddr ≠ none then
      let addr ← deref ifa
      if addr.saFamily = SockAddr.afInet then
        mdnsdSetHostname hostname addr.sinAddr
        return ifa :: next
    lookForMain hostname next

-- The second loop. It does not ask whether `ifa_addr` is null.
def addOthers (hostname : Bytes) : List IfAddrs → PublishM Unit
  | []          => return
  | ifa :: next => do
    if ¬ifa.IsLoopback then
      let addr ← deref ifa
      if addr.saFamily = SockAddr.afInet then
        mdnsdAddRr hostname addr.sinAddr
    addOthers hostname next

-- `started` says whether `mdnsd_start` succeeds, and `ifalist` is what `getifaddrs` finds, if it does.
def mdnsTinysvcmdnsRegister (started : Bool) (ifalist : Option (List IfAddrs)) (ap1name : Bytes)
    (port : Int32) : PublishM Int32 := do
  if ¬started then return -1
  let some ifalist := ifalist | return -1
  match ← lookForMain hostname ifalist with
  | []        => return -1
  | _ :: next =>
    addOthers hostname next
    mdnsdRegisterSvc ap1name extendedregtype port.toUInt32.toUInt16 none [ascii "ver=1.0"]
    return 0

def serviceName : Bytes :=
  ascii "LightningCastDeviceSample"

def lightningcastTcpPort : Int32 := 7700

-- `handle`, up to its loop.
def handle (started : Bool) (ifalist : Option (List IfAddrs)) : PublishM Unit :=
  discard <| mdnsTinysvcmdnsRegister started ifalist serviceName lightningcastTcpPort

end ServicePublisher
