import NetForensics.Util.Run
import NetForensics.Util.Ring
import NetForensics.Util.DropQueue
import NetForensics.Util.Scan
import NetForensics.Util.CountTable
import NetForensics.Util.GroupBy
import NetForensics.Util.Text
import NetForensics.Util.Utf8
import NetForensics.Util.Reads
import NetForensics.Util.Recent
import NetForensics.Util.Loop
import NetForensics.Util.Lines
import NetForensics.Json.Reader
import NetForensics.Json.Print
import NetForensics.Json.Raw
import NetForensics.Json.Line
import NetForensics.Json.Pieces
import NetForensics.Inet.Addr
import NetForensics.Agent.Clock
import NetForensics.Agent.Config
import NetForensics.Agent.State
import NetForensics.Agent.Spool
import NetForensics.Agent.Apply
import NetForensics.Agent.Atomicity
import NetForensics.Agent.Collectors
import NetForensics.Spool.Refinement
import NetForensics.Spool.Accounting
import NetForensics.Flow.Entry
import NetForensics.Flow.Table
import NetForensics.Flow.Apply
import NetForensics.Flow.History
import NetForensics.Flow.Frame
import NetForensics.Flow.Identity
import NetForensics.Flow.Liveness
import NetForensics.Flow.DestroyLine
import NetForensics.Tcp.Packet
import NetForensics.Tcp.Stats
import NetForensics.Tcp.Tables
import NetForensics.Tcp.GroupBy
import NetForensics.Tcp.Line
import NetForensics.Tcp.Grammar
import NetForensics.Tcp.Fragment
import NetForensics.Tcp.Retrans
import NetForensics.Egress.Http
import NetForensics.Agent.Yaml
import NetForensics.Egress.Transport
import NetForensics.Egress.Verify
import NetForensics.Agent.Reach
import NetForensics.Agent.History
import NetForensics.Agent.Provide
import NetForensics.Perf.Sample
import NetForensics.Agent.Lines
import NetForensics.Ipc.Server
import NetForensics.Ipc.Framing
import NetForensics.Flow.Tick
import NetForensics.Tcp.Poll
import NetForensics.Ipc.Request
import NetForensics.Ipc.Handler
import NetForensics.Ipc.Reach
import NetForensics.Correlate.Ipfix
import NetForensics.Correlate.NatLine
import NetForensics.Correlate.Match
import NetForensics.Correlate.FiveTuple
import NetForensics.Ipc.Render
import NetForensics.Ipc.Lists
import NetForensics.Nflog.Walk
import NetForensics.Nflog.Bounds
import NetForensics.Nflog.Message
import NetForensics.Nflog.Deliver
import NetForensics.Tcp.Feed
import NetForensics.Util.Top
import NetForensics.Tcp.Emit
import NetForensics.Wifi.Family
import NetForensics.Util.Writes
import NetForensics.Spool.Batch
import NetForensics.Egress.Segments
import NetForensics.Query.Response
import NetForensics.Query.Dechunk
import NetForensics.Query.Head
import NetForensics.Query.Decode
import NetForensics.Util.Sql
import NetForensics.Query.Flows
import NetForensics.Query.Statement
import NetForensics.Ipc.Buffer
import NetForensics.Json.Flat
import NetForensics.Ipc.Lookup
import NetForensics.Ipc.Numerals
import NetForensics.Netlink.Batch
import NetForensics.Correlate.Feed
import NetForensics.Flow.Samples
import NetForensics.Flow.Audit
import NetForensics.Flow.Width
import NetForensics.Flow.Announce
import NetForensics.Correlate.Bmp
import NetForensics.Correlate.ObsWidth
import NetForensics.Perf.Icmp
import NetForensics.Util.Summary
import NetForensics.Perf.Trace
import NetForensics.Perf.Erase
import NetForensics.Egress.Url
import NetForensics.Util.Base64
import NetForensics.Egress.BasicAuth
import NetForensics.Flow.Slots
import NetForensics.Util.EndAround
import NetForensics.Perf.Checksum
import NetForensics.Ctl.Decode
import NetForensics.Ctl.Brackets
import NetForensics.Ctl.Fields
import NetForensics.Ctl.Layout
import NetForensics.Ctl.Outcome
import NetForensics.Ctl.Weight
import NetForensics.Ctl.Answer
import NetForensics.Ctl.Kept
import NetForensics.Ctl.Agree
import NetForensics.Ctl.Replies
import NetForensics.Ctl.Gaps
import NetForensics.Ctl.ReadsBack
import NetForensics.Ipc.OneLine
import NetForensics.Ipc.Respond
import NetForensics.Ipc.Serial
import NetForensics.Ctl.Request
import NetForensics.Ctl.Client
import NetForensics.Daemon.Loop
import NetForensics.Daemon.Signals
import NetForensics.Daemon.Settings
import NetForensics.Daemon.Pace
import NetForensics.Egress.Gateway
import NetForensics.Util.Budget
import NetForensics.Perf.Arping
import NetForensics.Daemon.Schedule
import NetForensics.Daemon.Lines
import NetForensics.Util.Exchange
import NetForensics.Forensicsd.Lines
import NetForensics.Forensicsd.Loop
