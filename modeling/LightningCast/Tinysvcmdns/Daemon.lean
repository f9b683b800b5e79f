import LightningCast.Library.Machine
import LightningCast.Tinysvcmdns.Register

open ServicePublisher (Call)

-- The thread of `main_loop`, beside the threads which register records and which stop it.
namespace Mdns.Daemon

-- Where `main_loop` is.
inductive Pc
  | loop                          -- before the test of `stop_flag`
  | select                        -- before `select`, or blocked in it
  | announces                     -- before the head of the announce list is extracted
  | announce (annE : Ptr)         -- before `announce_srv`
  | terminating                   -- past the loop
  | goodbye (reply : MdnsPkt Ptr) -- before the goodbye packet is sent
  | returned
  | failed (fault : Fault)        -- it does not go on
deriving DecidableEq

-- Where `mdnsd_stop` is.
inductive Stopper
  | outside
  | flagged                       -- `stop_flag` has been set
  | waiting                       -- and the pipe has been written to
  | destroyed
deriving DecidableEq

-- What is handed over to be sent. There is nothing of an announcement or of the goodbye packet if the packet is
-- too large.
inductive Sent
  | reply (bytes : Bytes)
  | announce (annE : Ptr) (bytes : Option Bytes)
  | goodbye (bytes : Option Bytes)
deriving DecidableEq

-- `notifying` says that a service has been registered, and that the pipe has not been written to yet.
structure State where
  svr        : Mdnsd
  stopFlag   : Nat       := 0
  notifyPipe : Nat       := 0
  pc         : Pc        := .loop
  notifying  : Bool      := false
  stopper    : Stopper   := .outside
  sent       : List Sent := []

-- The actions of those who register, of the one who stops, and of `main_loop`.
inductive Act
  | call (c : Call)
  | notify
  | stop
  | wake
  | destroy
  | test
  | readPipe
  | receive (pktBuffer : Buffer) (recvsize : Nat)
  | extract
  | announce
  | collect
  | goodbye

def IsRegisterSvc : Call → Bool
  | .registerSvc .. => true
  | _               => false

-- The body of the loop which collects the services for the goodbye packet: the TTL is set to zero.
def collectService : Mdnsd × MdnsPkt Ptr → Ptr → Mdnsd × MdnsPkt Ptr
  | (svr, reply), e =>
    let (rrAns, added) := rrListAppend reply.rrAns e
    ({ svr with rr := Function.update svr.rr e { svr.rr e with ttl := 0 } },
      { reply with rrAns, numAnsRr := reply.numAnsRr + .ofNat added })

def collect (svr : Mdnsd) : Mdnsd × MdnsPkt Ptr :=
  svr.services.foldl collectService (svr, mdnsInitReply 0)

def step (s : State) : Act → Option State
  | .call c =>
    if s.notifying = false ∧ s.stopper ≠ .destroyed
    then
      -- A fault ends the process, and the run with it.
      match Mdns.call s.svr c with
      | .error _ => none
      | .ok svr  => some { s with svr, notifying := IsRegisterSvc c }
    else none
  | .notify =>
    if s.notifying then some { s with notifying := false, notifyPipe := s.notifyPipe + 1 } else none
  | .stop => if s.stopper = .outside then some { s with stopper := .flagged, stopFlag := 1 } else none
  | .wake =>
    if s.stopper = .flagged then some { s with stopper := .waiting, notifyPipe := s.notifyPipe + 1 } else none
  | .destroy => if s.stopper = .waiting ∧ s.stopFlag = 2 then some { s with stopper := .destroyed } else none
  | .test =>
    if s.pc = .loop then some { s with pc := if s.stopFlag = 0 then .select else .terminating } else none
  | .readPipe =>
    if s.pc = .select ∧ s.notifyPipe > 0
    then some { s with notifyPipe := s.notifyPipe - 1, pc := .announces } else none
  | .receive pktBuffer recvsize =>
    -- The pipe comes first.
    if s.pc = .select ∧ s.notifyPipe = 0
    then
      match respond s.svr pktBuffer recvsize with
      | .error f   => some { s with pc := .failed f }
      | .ok packet => some { s with sent := s.sent ++ (packet.map Sent.reply).toList, pc := .announces }
    else none
  | .extract =>
    if s.pc = .announces
    then
      match s.svr.announce with
      | []               => some { s with pc := .loop }
      | annE :: announce => some { s with svr := { s.svr with announce }, pc := .announce annE }
    else none
  | .announce =>
    match s.pc with
    | .announce annE =>
      match announceSrv s.svr (s.svr.rr annE).name >>= sendReply s.svr with
      | .error f   => some { s with pc := .failed f }
      | .ok packet => some { s with sent := s.sent ++ [.announce annE packet], pc := .announces }
    | _ => none
  | .collect =>
    if s.pc = .terminating
    then
      let (svr, reply) := collect s.svr
      some { s with svr, pc := .goodbye reply }
    else none
  | .goodbye =>
    match s.pc with
    | .goodbye reply =>
      match sendReply s.svr reply with
      | .error f   => some { s with pc := .failed f }
      | .ok packet => some { s with sent := s.sent ++ [.goodbye packet], stopFlag := 2, pc := .returned }
    | _ => none

def machine (rr : Ptr → RrEntry) : Machine State Act where
  init := { svr := mdnsdStart rr }
  step := step

section

variable {s s' : State}

theorem step_call {c : Call} : step s (.call c) = some s' ↔ (s.notifying = false ∧ s.stopper ≠ .destroyed) ∧
    ∃ svr, Mdns.call s.svr c = .ok svr ∧ { s with svr, notifying := IsRegisterSvc c } = s' := by
  simp only [step]
  split
  case isTrue h  => cases Mdns.call s.svr c <;> simp [h]
  case isFalse h => simp [h]

theorem step_notify : step s .notify = some s' ↔
    s.notifying ∧ { s with notifying := false, notifyPipe := s.notifyPipe + 1 } = s' := by
  simp [step]

theorem step_stop : step s .stop = some s' ↔
    s.stopper = .outside ∧ { s with stopper := .flagged, stopFlag := 1 } = s' := by
  simp [step]

theorem step_wake : step s .wake = some s' ↔
    s.stopper = .flagged ∧ { s with stopper := .waiting, notifyPipe := s.notifyPipe + 1 } = s' := by
  simp [step]

theorem step_destroy : step s .destroy = some s' ↔
    (s.stopper = .waiting ∧ s.stopFlag = 2) ∧ { s with stopper := .destroyed } = s' := by
  simp [step]

theorem step_test : step s .test = some s' ↔
    s.pc = .loop ∧ { s with pc := if s.stopFlag = 0 then .select else .terminating } = s' := by
  simp [step]

theorem step_readPipe : step s .readPipe = some s' ↔
    (s.pc = .select ∧ s.notifyPipe > 0) ∧ { s with notifyPipe := s.notifyPipe - 1, pc := .announces } = s' := by
  simp [step]

theorem step_receive {m : Buffer} {n : Nat} : step s (.receive m n) = some s' ↔ (s.pc = .select ∧ s.notifyPipe = 0) ∧
    ((∃ f, respond s.svr m n = .error f ∧ { s with pc := .failed f } = s') ∨
      ∃ packet, respond s.svr m n = .ok packet ∧
        { s with sent := s.sent ++ (packet.map Sent.reply).toList, pc := .announces } = s') := by
  simp only [step]
  split
  case isTrue h  => cases respond s.svr m n <;> simp [h]
  case isFalse h => simp [h]

theorem step_extract : step s .extract = some s' ↔ s.pc = .announces ∧
    (s.svr.announce = [] ∧ { s with pc := .loop } = s' ∨
      ∃ annE announce, s.svr.announce = annE :: announce ∧
        { s with svr := { s.svr with announce }, pc := .announce annE } = s') := by
  simp only [step]
  split
  case isTrue h  => cases s.svr.announce <;> simp [h]
  case isFalse h => simp [h]

theorem step_announce : step s .announce = some s' ↔ ∃ annE, s.pc = .announce annE ∧
    ((∃ f, announceSrv s.svr (s.svr.rr annE).name >>= sendReply s.svr = .error f ∧
        { s with pc := .failed f } = s') ∨
      ∃ packet, announceSrv s.svr (s.svr.rr annE).name >>= sendReply s.svr = .ok packet ∧
        { s with sent := s.sent ++ [.announce annE packet], pc := .announces } = s') := by
  simp only [step]
  cases hp : s.pc
  case announce annE =>
    cases ha : announceSrv s.svr (s.svr.rr annE).name >>= sendReply s.svr <;> simp [ha]
  all_goals simp

theorem step_collect : step s .collect = some s' ↔ s.pc = .terminating ∧
    { s with svr := (collect s.svr).1, pc := .goodbye (collect s.svr).2 } = s' := by
  simp [step]

theorem step_goodbye : step s .goodbye = some s' ↔ ∃ reply, s.pc = .goodbye reply ∧
    ((∃ f, sendReply s.svr reply = .error f ∧ { s with pc := .failed f } = s') ∨
      ∃ packet, sendReply s.svr reply = .ok packet ∧
        { s with sent := s.sent ++ [.goodbye packet], stopFlag := 2, pc := .returned } = s') := by
  simp only [step]
  cases hp : s.pc
  case goodbye reply => cases ha : sendReply s.svr reply <;> simp [ha]
  all_goals simp

end

end Mdns.Daemon
