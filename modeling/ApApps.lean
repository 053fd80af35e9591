import ApApps.Lua.Basic
import ApApps.Lua.Number
import ApApps.Lib.Scan
import ApApps.Lib.Machine
import ApApps.Lib.Assign
import ApApps.Lib.Election
import ApApps.Lib.Uci
import ApApps.Lib.Retention
import ApApps.Lib.Frames
import ApApps.Lib.Channel
import ApApps.Lib.Bus
import ApApps.Lib.Pieces
import ApApps.Lib.Shell
import ApApps.Redis.Parser
import ApApps.Redis.Ready
import ApApps.Redis.Frame
import ApApps.Redis.Agree
import ApApps.Redis.Index
import ApApps.Redis.Query
import ApApps.Sand.Util
import ApApps.Sand.Broker
import ApApps.Sand.Cascade
import ApApps.Sand.Commands
import ApApps.Sand.Moves
import ApApps.Sand.Runs
import ApApps.Sand.Settled
import ApApps.Sand.Subscriptions
import ApApps.Sand.ClientIds
import ApApps.Sand.Calm
import ApApps.Sand.CalmTurn
import ApApps.Sand.Tidy
import ApApps.Sand.Abort
import ApApps.Sand.LockStep
import ApApps.Sand.Strangers
import ApApps.Sand.Bus
import ApApps.Sand.Exact
import ApApps.Sand.AfterClose
import ApApps.Sand.Period
import ApApps.Sand.Keepalive
import ApApps.Sand.Acts
import ApApps.Sand.Stream
import ApApps.Sand.Origin
import ApApps.Cjson.Encode
import ApApps.Cjson.Decode
import ApApps.Cjson.RoundTrip
import ApApps.Cjson.Nested
import ApApps.Cjson.Arrays
import ApApps.Cjson.Table
import ApApps.Cjson.Copy
import ApApps.Cfg.Key
import ApApps.Cfg.Store
import ApApps.Cfg.Crash
import ApApps.Cfg.Text
import ApApps.Cfg.Survive
import ApApps.Cfg.Apmgr
import ApApps.Cfg.Agree
import ApApps.Cfg.Sync
import ApApps.Cfg.Cfgclient
import ApApps.Beacon.Watch
import ApApps.Beacon.Converge
import ApApps.Setconf.Wireless
import ApApps.Setconf.Quoting
import ApApps.Setconf.Documented
import ApApps.Setconf.Commit
import ApApps.Setconf.Outcome
import ApApps.Setconf.Suitable
import ApApps.Setconf.Memfile
import ApApps.Setconf.Stored
import ApApps.Setconf.Unchanged
import ApApps.Compare.Chk
import ApApps.Compare.Polls
import ApApps.Network.Main
import ApApps.Network.Newest
import ApApps.Network.Resolv
import ApApps.Logserver.Main
import ApApps.Logserver.Names
import ApApps.Logserver.Retained
import ApApps.Myinit.Memfile
import ApApps.Myinit.Coherent
import ApApps.Report.Uploadlog
import ApApps.Se.Core
import ApApps.Se.Accounts
import ApApps.Se.Schedule
import ApApps.Se.Wakeups
import ApApps.Se.Rounds
import ApApps.Sandc.Client
import ApApps.Sandc.Receive
import ApApps.Sandc.Teardown
import ApApps.Sandc.Writers
import ApApps.Sandc.Reader
import ApApps.Bufio.Reader
import ApApps.Bufio.Stream
import ApApps.Bufio.Alike
import ApApps.Nredis.Reply
import ApApps.Nredis.RoundTrip
import ApApps.Nredis.Replies
import ApApps.Mredis.Queue
import ApApps.Mredis.Served
import ApApps.System.Wire
import ApApps.System.Net
import ApApps.System.Delivery
