import Remora.Basis.Burst
import Remora.Basis.Crc
import Remora.Basis.Lines
import Remora.Basis.Memory
import Remora.Basis.Nor
import Remora.Basis.Octets
import Remora.Basis.Phase
import Remora.Basis.PingPong
import Remora.Basis.Program
import Remora.Basis.Records
import Remora.Basis.Ring
import Remora.Basis.Run
import Remora.Basis.Simulation
import Remora.Basis.TestThenSet
import Remora.Config.BaseFrequency
import Remora.Config.LoadModules
import Remora.Config.PinNames
import Remora.Config.Repeatable
import Remora.Config.SafeLoading
import Remora.Configuration
import Remora.Ethernet.Exchange
import Remora.Ethernet.FrameCrc
import Remora.Ethernet.Framing
import Remora.Ethernet.Receive
import Remora.Ethernet.Transmit
import Remora.Ethernet.W5500
import Remora.Json.Accepts
import Remora.Json.Boot
import Remora.Json.Bounds
import Remora.Json.Commissioned
import Remora.Json.Deserializer
import Remora.Json.Document
import Remora.Json.Machine
import Remora.Json.Number
import Remora.Json.Serializer
import Remora.Json.Text
import Remora.Motion.Buffers
import Remora.Motion.CommandInForce
import Remora.Motion.CommsStatus
import Remora.Motion.Controller
import Remora.Motion.Cores
import Remora.Motion.Dds
import Remora.Motion.Feedback
import Remora.Motion.FirstPacket
import Remora.Motion.InputSnapshot
import Remora.Motion.LateReset
import Remora.Motion.LostData
import Remora.Motion.OnePacket
import Remora.Motion.Outputs
import Remora.Motion.PartlyCleared
import Remora.Motion.Position
import Remora.Motion.PruThread
import Remora.Motion.RemoraComms
import Remora.Motion.RxMemory
import Remora.Motion.Servo
import Remora.Motion.Silence
import Remora.Motion.StartUp
import Remora.Motion.Stepgen
import Remora.Motion.StoppedCore
import Remora.Motion.Watchdog
import Remora.Motion.Wired
import Remora.Upload.Announce
import Remora.Upload.Bounds
import Remora.Upload.BurstErrors
import Remora.Upload.CheckJson
import Remora.Upload.FailedUpload
import Remora.Upload.MoveJson
import Remora.Upload.Network
import Remora.Upload.Reconfigure
import Remora.Upload.Region
import Remora.Upload.Resources
import Remora.Upload.Tftp
import Remora.Upload.Transfers
import Remora.Upload.Uploader
