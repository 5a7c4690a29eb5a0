import FreeSwitch.EventSocket.Authorization
import FreeSwitch.EventSocket.ListenerRun
import FreeSwitch.Rtp.Protection
import FreeSwitch.Rtp.ExactlyOnce
import FreeSwitch.Rtp.EndToEnd
import FreeSwitch.Channel.Lifecycle
import FreeSwitch.Expand.Permission
import FreeSwitch.Expand.Substring
import FreeSwitch.EventSocket.ReadPacket
import FreeSwitch.Event.Json
import FreeSwitch.Buffer.Limit
import FreeSwitch.Port.Range
import FreeSwitch.Jitter.Playout
import FreeSwitch.Acl.LongestPrefix
import FreeSwitch.Acl.Input
import FreeSwitch.Stun.MappedAddress
import FreeSwitch.Esl.Robust
import FreeSwitch.Codec.Selection
import FreeSwitch.Conference.Enforced
import FreeSwitch.Limit.Backends
import FreeSwitch.MediaBug.Discipline
import FreeSwitch.Sqldb.Chunked
import FreeSwitch.Utils.ShellArg
import FreeSwitch.MediaBug.Pruning
import FreeSwitch.MediaBug.Read
import FreeSwitch.MediaBug.TapOnly
import FreeSwitch.Rtp.Byteswap
import FreeSwitch.Sqldb.PoolAccounting
import FreeSwitch.Sqldb.QueueOrder
import FreeSwitch.Valet.Parking
import FreeSwitch.Dialplan.Buffers
import FreeSwitch.Xml.AmpEncode
import FreeSwitch.EventSocket.Filters
import FreeSwitch.Jitter.Sizes
import FreeSwitch.Rtp.Rtcp
import FreeSwitch.Xml.DateTime
import FreeSwitch.Port.Progress
import FreeSwitch.Utils.Base64
import FreeSwitch.Utils.Rewriting
import FreeSwitch.Utils.UrlCoding
import FreeSwitch.Conference.Announcements
import FreeSwitch.Conference.Recorders
