import LightningCast.Device.Theorems.Playback
import LightningCast.SnapcastComm.Theorems.Waiting

namespace Device

open Thread

-- No request is sent while another one is between its `processSend` and the return of its call.
def NoOverlap (s : State) (a : Act) : Prop :=
  ∀ b ∈ a.linkPart, SnapcastComm.NoOverlap s.link b

-- Nothing keeps the receipt of a request from coming.
def Undisturbed (s : State) (a : Act) : Prop :=
  ∀ b ∈ a.linkPart, SnapcastComm.Undisturbed s.link b

instance (s : State) (a : Act) : Decidable (NoOverlap s a) :=
  inferInstanceAs (Decidable (∀ _ ∈ _, _))

instance (s : State) (a : Act) : Decidable (Undisturbed s a) :=
  inferInstanceAs (Decidable (∀ _ ∈ _, _))

-- In a run without overlapping requests, receipts match requests.
theorem receipts_match {as : List Act} {s : State} (hn : machine.Meets NoOverlap as)
    (he : machine.exec machine.init as = some s) : s.link.ReceiptsMatch := by
  have ⟨_, hl, hm⟩ := linkSimulation.exec he hn (D := SnapcastComm.NoOverlap) fun h ha => h _ ha
  have ⟨i, j⟩ := SnapcastComm.matched hm hl
  exact i.receiptsMatch j

-- In a run which is also undisturbed, a thread which waits in `LockWait` waits for a receipt which can
-- come.
theorem receipt_can_come {as : List Act} {s : State} (hn : machine.Meets NoOverlap as)
    (hu : machine.Meets Undisturbed as) (he : machine.exec machine.init as = some s) (t : Thread)
    (r : Request) (hw : s.link.awaits t = some r) (hp : ¬s.link.comm.pending) : s.link.CanCome r := by
  have ⟨_, hl, hm⟩ := linkSimulation.exec he (hn.and hu)
    (D := fun s b => SnapcastComm.NoOverlap s b ∧ SnapcastComm.Undisturbed s b)
    fun h ha => ⟨h.left _ ha, h.right _ ha⟩
  exact SnapcastComm.can_come (fun bs b s hp he => (hm bs b s hp he).left)
    (fun bs b s hp he => (hm bs b s hp he).right) hl hw hp

-- The client thread waits for the receipt of its `START`.
def waiting : List Act :=
  beforePlay ++ (SnapcastComm.play.take 8).map .link

set_option maxRecDepth 4000 in
theorem hangUp_receipts_match : ∃ s, machine.exec machine.init hangUp = some s ∧
    s.link.history.released.length = 2 ∧ s.link.ReceiptsMatch := by
  have ⟨s, he, hs⟩ := machine.exec_of_any hangUp
    (fun s => s.link.history.released.length = 2) (by decide)
  exact ⟨s, he, of_decide_eq_true hs, receipts_match (by decide) he⟩

set_option maxRecDepth 4000 in
theorem waiting_can_come : ∃ s, machine.exec machine.init waiting = some s ∧
    s.link.CanCome { id := 0, cmd := .START, conn := some 0 } := by
  have ⟨s, he, hs⟩ := machine.exec_of_any waiting
    (fun s => s.link.awaits client = some { id := 0, cmd := .START, conn := some 0 } ∧
      ¬s.link.comm.pending) (by decide)
  have ⟨hw, hp⟩ := of_decide_eq_true hs
  exact ⟨s, he, receipt_can_come (by decide) (by decide) he client _ hw hp⟩

-- While the player plays, the server thread begins an `Open` and the main thread its `Exit`. Both send
-- `STOP`, and the player answers both before one of the two threads gets to `LockWait`.
def stopTwice : List Act :=
  let r₁ : Request := { id := 1, cmd := .STOP, conn := some 0 }
  let r₂ : Request := { id := 2, cmd := .STOP, conn := some 0 }
  let c₁ : Receipt := { id := 1, cmd := .STOP, result := true }
  let c₂ : Receipt := { id := 2, cmd := .STOP, result := true }
  playing ++
  [.cast (.openCall [50]), .cast (.getIsOpen server), .call (.doStop server) (.doStop server),
   .cast .exitCall, .cast (.getIsOpen main), .call (.doStop main) (.doStop main)] ++
  ([.send server .STOP { id := 0 }, .send main .STOP { id := 0, requests := [r₁] },
    .answer { id := 0, requests := [r₁, r₂] } r₁ true,
    .answer { id := 0, requests := [r₂], inbox := [.receipt c₁] } r₂ true,
    .select, .doRead false { id := 0, inbox := [.receipt c₁, .receipt c₂] }, .parse c₁ false,
    .lockSignal c₁ false, .notify false none, .scanned, .loop,
    .select, .doRead false { id := 0, inbox := [.receipt c₂] }, .parse c₂ false,
    .lockSignal c₂ false, .notify false none, .consume server r₁].map .link)

-- The one flag stands for both receipts: it has released the server thread, and the main thread waits.
set_option maxRecDepth 4000 in
theorem stopTwice_merged : ∃ s, machine.exec machine.init stopTwice = some s ∧
    s.link.awaits main = some { id := 2, cmd := .STOP, conn := some 0 } ∧ ¬s.link.comm.pending ∧
    ¬s.link.ReceiptsMatch := by
  have ⟨s, he, hs⟩ := machine.exec_of_any stopTwice
    (fun s => s.link.awaits main = some { id := 2, cmd := .STOP, conn := some 0 } ∧
      ¬s.link.comm.pending ∧ s.link.history.released.any (·.2.length = 2)) (by decide)
  have ⟨hw, hp, hr⟩ := of_decide_eq_true hs
  refine ⟨s, he, hw, hp, fun hm => ?_⟩
  obtain ⟨p, hp, hl⟩ := List.any_eq_true.mp hr
  have hk := congrArg List.length (hm.own p hp)
  simp [of_decide_eq_true hl] at hk

-- The player hangs up before it has answered.
def hangUpUnanswered : List Act :=
  let r : Request := { id := 0, cmd := .START, conn := some 0 }
  waiting ++
  ([.hangUp { id := 0, requests := [r] }, .loop, .select,
    .doRead false { id := 0, requests := [r], gone := true },
    .teardown, .handle none, .block client r].map .link)

-- The handler gives the connection up, and the client thread waits in `LockWait`.
set_option maxRecDepth 4000 in
theorem hangUpUnanswered_waits : ∃ s, machine.exec machine.init hangUpUnanswered = some s ∧
    s.link.call client = some (.blocked { id := 0, cmd := .START, conn := some 0 }) ∧
    ¬s.link.comm.pending ∧ ¬s.link.CanCome { id := 0, cmd := .START, conn := some 0 } := by
  have ⟨s, he, hs⟩ := machine.exec_of_any hangUpUnanswered
    (fun s => s.link.call client = some (.blocked { id := 0, cmd := .START, conn := some 0 }) ∧
      ¬s.link.comm.pending ∧ s.link.comm.serverFd = .none) (by decide)
  have ⟨hw, hp, hf⟩ := of_decide_eq_true hs
  exact ⟨s, he, hw, hp, fun ⟨⟨_, hk, _⟩, _⟩ => nomatch hf.symm.trans hk⟩

end Device
