import Ircu.Match.Exec
import Ircu.Gline.System
import Ircu.Base64
import Ircu.Batch.Nested
import Ircu.Msgq.Wire
import Ircu.Nick.Collide
import Ircu.Packet.Bounds
import Ircu.Parse.Leftover
import Ircu.Send.FanOut
import Ircu.Dbuf.Flood
import Ircu.Gline.Modify
import Ircu.Ipcheck.Balance
import Ircu.Ipcheck.Clock
import Ircu.Netconf.Basic
import Ircu.Ban.Mode
import Ircu.Events.Timers
import Ircu.Http.Routes
import Ircu.Msgid
import Ircu.Numnick.Slots
import Ircu.Parse.Commands
import Ircu.Send.Flush
import Ircu.Sentalong
import Ircu.Hash
import Ircu.Timeouts
import Ircu.Worker.Account
import Ircu.Ipmask.Grammar
import Ircu.Ipmask.Length
import Ircu.Ipmask.RoundTrip
import Ircu.Modhost
import Ircu.Modsync.Commit
import Ircu.Numnick.Decode
import Ircu.Sline.Hold
import Ircu.Ipcheck.Entries
import Ircu.Target
import Ircu.Vhost
import Ircu.Websocket.Outgoing
import Ircu.Websocket.Read
import Ircu.Netride
import Ircu.Sdk.Split
