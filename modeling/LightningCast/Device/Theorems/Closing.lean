import LightningCast.Device.Theorems.Playback
import LightningCast.SnapcastComm.Theorems.Closing

namespace Device

open Thread
open SnapcastComm (Posts)

-- The device with the posts of its `SnapcastComm`.
def posting : Machine (State × Posts) Act :=
  machine.observe {} fun s a g => a.linkPart.elim g (Posts.note s.link · g)

def postingSimulation : Machine.Simulation posting SnapcastComm.posting :=
  linkSimulation.observe ({} : Posts) Posts.note

-- `SnapcastComm::Close` is not posted while the handler serves an `Open`.
def ClosesAside (s : State × Posts) (a : Act) : Prop :=
  ∀ b ∈ a.linkPart, SnapcastComm.ClosesAside s.1.link b

instance (s : State × Posts) (a : Act) : Decidable (ClosesAside s a) :=
  inferInstanceAs (Decidable (∀ _ ∈ _, _))

-- In a run in which every `Close` is posted aside from `do_open`, every `Close` keeps its promise, to
-- whichever thread.
theorem close_keeps_promise {as : List Act} {s : State × Posts} (hc : posting.Meets ClosesAside as)
    (he : posting.exec posting.init as = some s) : s.1.link.KeepsPromise s.2 := by
  have ⟨_, hl, hm⟩ := postingSimulation.exec he hc (D := fun s => SnapcastComm.ClosesAside s.1)
    fun h ha => h _ ha
  exact SnapcastComm.close_keeps hm hl

set_option maxRecDepth 4000 in
theorem hangUp_keeps_promise : ∃ s, posting.exec posting.init hangUp = some s ∧ s.2.served = 1 ∧
    s.1.link.KeepsPromise s.2 := by
  have ⟨s, he, hs⟩ := posting.exec_of_any hangUp (fun s => s.2.served = 1) (by decide)
  exact ⟨s, he, of_decide_eq_true hs, close_keeps_promise (by decide) he⟩

-- The server thread begins an `Open`, and has found no connection to the player to stop, when the client
-- thread begins to play. It posts `CLOSE` while the handler connects.
def closeWhileConnecting : List Act :=
  beforePlay ++
  [.cast (.openCall [50]), .cast (.getIsOpen server), .call (.doStop server) (.doStop server),
   .link (.refuse server .STOP)] ++
  ([.openCmd client (some snapcast), .resume none, .socket, .close server none, .connect,
    .finish (some server)].map .link)

-- `LockfinishCmd` takes `CLOSE` for the `OPEN` which it has served: `Close` is about to return, and the
-- connection is open.
set_option maxRecDepth 4000 in
theorem closeWhileConnecting_broken : ∃ s, posting.exec posting.init closeWhileConnecting = some s ∧
    s.1.link.TestsReady server .closeWait ∧ s.1.link.comm.Finished ∧
    s.1.link.comm.serverFd = .conn { id := 0 } ∧ ¬s.1.link.KeepsPromise s.2 := by
  have ⟨s, he, hs⟩ := posting.exec_of_any closeWhileConnecting
    (fun s => s.1.link.TestsReady server .closeWait ∧ s.1.link.comm.Finished ∧
      s.1.link.comm.serverFd = .conn { id := 0 } ∧ s.2.closeAt server = s.2.served) (by decide)
  have ⟨ht, hf, hk, hn⟩ := of_decide_eq_true hs
  exact ⟨s, he, ht, hf, hk, fun h => absurd (h server _ ht hf hk) (by simp [hn])⟩

end Device
