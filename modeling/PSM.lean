import PSM.Lib.EventMachine
import PSM.Lib.ByteStr
import PSM.Lib.Framing
import PSM.RecvProcess
import PSM.FrameStream
import PSM.LogicHandle
import PSM.SocketPool
import PSM.AgentProtocol
import PSM.Sender
import PSM.Lib.Prog
import PSM.Lib.Redis
import PSM.RedisManager
import PSM.AgentNumbers
import PSM.AgentServer
import PSM.AgentState
import PSM.CounterNames
import PSM.AgentClient
import PSM.AgentLink
import PSM.ListReplication
import PSM.CounterReplication
import PSM.PacketPool
import PSM.Registration
import PSM.Recorder
import PSM.MessageAgreement
import PSM.AgentData
import PSM.Lib.Interleave
import PSM.RecordUpdates
import PSM.Lib.SampleHold
import PSM.RedisJob
import PSM.StoreSteps
import PSM.ProcessSnapshot
import PSM.CounterSeries
import PSM.DeletedMembers
import PSM.ReadableCounters
import PSM.Heartbeat
import PSM.PsmNet
import PSM.InitAgentErrors
import PSM.RecentValue
import PSM.TotalSeries
import PSM.CounterEntries
import PSM.RecordCall
import PSM.RecordSimulation
import PSM.ProcessKeys
import PSM.HostAddress
import PSM.DrawChart
import PSM.LiveChart
import PSM.ProcessPage
import PSM.Lib.Dialogue
import PSM.Handshake
import PSM.Channel
import PSM.ByteLink
import PSM.Lib.NestedReader
import PSM.RedisParser
import PSM.Lib.Resp
import PSM.RedisClient
import PSM.RedisWire
import PSM.WebCommand
import PSM.Lib.Calendar
import PSM.AgentListPage
import PSM.DataPath
