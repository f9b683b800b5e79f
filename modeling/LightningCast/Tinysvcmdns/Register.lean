import LightningCast.Tinysvcmdns.Respond
import LightningCast.ServicePublisher.Basic

namespace Mdns

open RrType

-- The groups, where `f` has been applied to the one with the name.
def rrGroupUpdate (name : NLabel) (f : RrGroup → RrGroup) : List RrGroup → Option (List RrGroup)
  | []      => none
  | g :: gs => if cmpNlabel g.name name then some (f g :: gs) else (rrGroupUpdate name f gs).map (g :: ·)

def rrGroupAdd (group : List RrGroup) (name : NLabel) (rr : Ptr) : Except Fault (List RrGroup) :=
  match rrGroupUpdate name (fun g => { g with rr := (rrListAppend g.rr rr).1 }) group with
  | some group => return group
  | none       => return { name := ← dupNlabel name, rr := [rr] } :: group

structure Service where
  txtE  : Option RrEntry
  srvE  : RrEntry
  ptrE  : RrEntry
  bptrE : RrEntry
deriving DecidableEq

-- Where a service is. One of the two has to be given.
def serviceTarget (hostname : Option Bytes) (svrHostname : Option NLabel) : Except Fault NLabel :=
  match hostname, svrHostname with
  | some hostname, _    => return createNlabel hostname
  | none, some hostname => dupNlabel hostname
  | none, none          => throw .abort

-- The records of a service. For an instance name which is too long for a label there is no name, and the first
-- thing which looks at it is the comparison with the groups.
def serviceRecords (svrHostname : Option NLabel) (instanceName type : Bytes) (port : UInt16) (hostname : Option Bytes)
    (txt : List Bytes) : Except Fault Service := do
  let typeNlabel := createNlabel type
  let nlabel ← (createLabel instanceName).mapM (joinNlabel · typeNlabel)
  let target ← serviceTarget hostname svrHostname
  let some nlabel := nlabel | throw .nullDereference
  let name ← dupNlabel nlabel
  let services ← dupNlabel SERVICES_DNS_SD_NLABEL
  let srvE := rrCreateSrv name port target
  let ptrE := rrCreatePtr typeNlabel srvE
  return {
    txtE  := if txt = [] then none else some (rrCreateTxt name txt)
    srvE
    ptrE
    bptrE := rrCreatePtr services ptrE }

-- `mdnsd_start`, up to its thread.
def mdnsdStart (rr : Ptr → RrEntry) : Mdnsd :=
  { rr }

section

variable (svr : Mdnsd)

-- A record is put in memory when it is added.
def mdnsdAddRr (rr : RrEntry) : Except Fault Mdnsd := do
  return { svr with
    rr    := Function.update svr.rr svr.fresh rr
    fresh := svr.fresh + 1
    group := ← rrGroupAdd svr.group rr.name svr.fresh }

-- `mdnsd_set_hostname` and `mdnsd_set_hostname_v6`, whose address records are `e`.
def setHostname (hostname : Bytes) (e : NLabel → RrEntry) (type : RrType) : Except Fault Mdnsd :=
  if svr.hostname = none
  then do
    let svr := { svr with hostname := some (createNlabel hostname) }
    let svr ← mdnsdAddRr svr (e (createNlabel hostname))
    mdnsdAddRr svr (rrCreateNsec (createNlabel hostname) 120 type)
  else throw .abort

def mdnsdSetHostname (hostname : Bytes) (ip : UInt32) : Except Fault Mdnsd :=
  setHostname svr hostname (rrCreateA · ip) RR_A

def mdnsdSetHostnameV6 (hostname : Bytes) (addr : { addr : Bytes // addr.length = 16 }) : Except Fault Mdnsd :=
  setHostname svr hostname (rrCreateAaaa · addr) RR_AAAA

-- What is done with the records of a service under the lock.
def addService (service : Service) : Except Fault Mdnsd := do
  let svr ← service.txtE.elim (pure svr) (mdnsdAddRr svr)
  let svr ← mdnsdAddRr svr service.srvE
  let ptr := svr.fresh
  let svr ← mdnsdAddRr svr service.ptrE
  let svr ← mdnsdAddRr svr service.bptrE
  return { svr with
    announce := (rrListAppend svr.announce ptr).1
    services := (rrListAppend svr.services ptr).1 }

def mdnsdRegisterSvc (instanceName type : Bytes) (port : UInt16) (hostname : Option Bytes) (txt : List Bytes) :
    Except Fault Mdnsd := do
  let service ← serviceRecords svr.hostname instanceName type port hostname txt
  addService svr service

-- The calls of the publisher.
def call : ServicePublisher.Call → Except Fault Mdnsd
  | .setHostname hostname ip                          => mdnsdSetHostname svr hostname ip
  | .addRr name ip                                    => mdnsdAddRr svr (rrCreateA (createNlabel name) ip)
  | .registerSvc instanceName type port hostname txt  => mdnsdRegisterSvc svr instanceName type port hostname txt

end

def calls (svr : Mdnsd) (cs : List ServicePublisher.Call) : Except Fault Mdnsd :=
  cs.foldlM call svr

end Mdns
