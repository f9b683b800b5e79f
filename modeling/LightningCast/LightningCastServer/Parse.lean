import LightningCast.LightningCastClient.Parse

open LightningCastClient (Env ParseM Session)

namespace LightningCastServer

inductive LightningCastHandshakeCmd
  | OPEN
  | CLOSE
deriving DecidableEq

def LightningCastHandshakeCmd.ofInt (n : Int32) : Option LightningCastHandshakeCmd :=
  match n.toInt with
  | 1 => some OPEN
  | 2 => some CLOSE
  | _ => none

variable (env : Env)

-- `Open`, up to what `LightningCastClient::Open` does in it.
def openSession (ip : Bytes) : ParseM Unit :=
  modify (·.request (.openSession ip))

def doParse (payload : Bytes) : ParseM Bool := do
  let some root ← env.parse payload | return false
  let (cmd, root) ← root.resolveReference "Cmd"
  match LightningCastHandshakeCmd.ofInt (← cmd.asInt) with
  | some .OPEN =>
    let (ip, _) ← root.resolveReference "IpAddr"
    openSession (← ip.asString env.toLib)
    return true
  | _ => return false

end LightningCastServer
