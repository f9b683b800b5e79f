import LightningCast.Library.Machine
import LightningCast.Library.Mailbox
import LightningCast.Library.Handoff
import LightningCast.Library.Wakeups
import LightningCast.Library.Stream
import LightningCast.Library.Throwing
import LightningCast.Library.Stopwatch
import LightningCast.Library.Walk
import LightningCast.Library.Worklist
import LightningCast.Library.DomainName
import LightningCast.Frame.Basic
import LightningCast.Frame.Theorems.Sending
import LightningCast.Frame.Theorems.RoundTrip
import LightningCast.Json.Basic
import LightningCast.Json.Reader
import LightningCast.Json.Writer
import LightningCast.Json.Grammar
import LightningCast.Json.Theorems.Convert
import LightningCast.Json.Theorems.Strings
import LightningCast.Json.Theorems.Numbers
import LightningCast.Json.Theorems.Reader
import LightningCast.Json.Theorems.Escape
import LightningCast.Json.Theorems.RoundTrip
import LightningCast.Json.Theorems.Canonical
import LightningCast.Json.Theorems.Limit
import LightningCast.Json.Theorems.Line
import LightningCast.SnapcastComm.Basic
import LightningCast.SnapcastComm.Parse
import LightningCast.SnapcastComm.Theorems.Handoff
import LightningCast.SnapcastComm.Theorems.Connection
import LightningCast.SnapcastComm.Theorems.Closing
import LightningCast.SnapcastComm.Theorems.Deadlock
import LightningCast.SnapcastComm.Theorems.Wakeups
import LightningCast.SnapcastComm.Theorems.Shutdown
import LightningCast.SnapcastComm.Theorems.Receipts
import LightningCast.SnapcastComm.Theorems.Waiting
import LightningCast.SnapcastComm.Theorems.Parse
import LightningCast.LightningCastClient.Basic
import LightningCast.LightningCastClient.Parse
import LightningCast.LightningCastClient.Loop
import LightningCast.LightningCastClient.Remote
import LightningCast.LightningCastClient.Theorems.Handoff
import LightningCast.LightningCastClient.Theorems.Session
import LightningCast.LightningCastClient.Theorems.Commands
import LightningCast.LightningCastClient.Theorems.Wakeups
import LightningCast.LightningCastClient.Theorems.Shutdown
import LightningCast.LightningCastClient.Theorems.Parse
import LightningCast.LightningCastClient.Theorems.CoverUrl
import LightningCast.LightningCastClient.Theorems.Loop
import LightningCast.LightningCastClient.Theorems.Remote
import LightningCast.LightningCastServer.Parse
import LightningCast.LightningCastServer.Handle
import LightningCast.LightningCastServer.Theorems.Parse
import LightningCast.LightningCastServer.Theorems.Handle
import LightningCast.LightningCastServer.Theorems.Stalled
import LightningCast.Messages.Basic
import LightningCast.Messages.Theorems.RoundTrip
import LightningCast.Messages.Theorems.Session
import LightningCast.Messages.Theorems.Relay
import LightningCast.ServerFd.Basic
import LightningCast.ServerFd.Theorems.Guarded
import LightningCast.ServerFd.Theorems.Views
import LightningCast.Device.Basic
import LightningCast.Device.Theorems.Playback
import LightningCast.Device.Theorems.Receipts
import LightningCast.Device.Theorems.Closing
import LightningCast.Device.Theorems.Wakeups
import LightningCast.Device.Theorems.Shutdown
import LightningCast.ServicePublisher.Basic
import LightningCast.ServicePublisher.Theorems.Register
import LightningCast.Tinysvcmdns.Label
import LightningCast.Tinysvcmdns.Record
import LightningCast.Tinysvcmdns.Encode
import LightningCast.Tinysvcmdns.Parse
import LightningCast.Tinysvcmdns.Respond
import LightningCast.Tinysvcmdns.Register
import LightningCast.Tinysvcmdns.Daemon
import LightningCast.Tinysvcmdns.Theorems.Label
import LightningCast.Tinysvcmdns.Theorems.Encode
import LightningCast.Tinysvcmdns.Theorems.RoundTrip
import LightningCast.Tinysvcmdns.Theorems.Registry
import LightningCast.Tinysvcmdns.Theorems.Respond
import LightningCast.Tinysvcmdns.Theorems.Discover
import LightningCast.Tinysvcmdns.Theorems.Exchange
import LightningCast.Tinysvcmdns.Theorems.Announce
import LightningCast.Tinysvcmdns.Theorems.Daemon
