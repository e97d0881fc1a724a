import EspBode.Firmware.AwgFy
import EspBode.Firmware.Debug
import EspBode.Firmware.Device
import EspBode.Firmware.NetCompat
import EspBode.Firmware.RpcBindServer
import EspBode.Firmware.RpcEnums
import EspBode.Firmware.RpcPackets
import EspBode.Firmware.Scpi
import EspBode.Firmware.System
import EspBode.Firmware.TelnetServer
import EspBode.Firmware.Utilities
import EspBode.Firmware.VxiServer
import EspBode.Firmware.WaveTables
import EspBode.Foundations.Binary64
import EspBode.Foundations.ByteBuffer
import EspBode.Foundations.CString
import EspBode.Foundations.Decimal
import EspBode.Foundations.DecimalRounding
import EspBode.Foundations.Dialogue
import EspBode.Foundations.Fairness
import EspBode.Foundations.Fallible
import EspBode.Foundations.LineDiscipline
import EspBode.Foundations.LineFairness
import EspBode.Foundations.LineProgress
import EspBode.Foundations.LineReplay
import EspBode.Foundations.LineTriples
import EspBode.Foundations.Machine
import EspBode.Foundations.RecordStream
import EspBode.Foundations.Rounding
import EspBode.Foundations.Runs
import EspBode.Foundations.Scanf
import EspBode.Foundations.SerialLine
import EspBode.Foundations.Simulation
import EspBode.Foundations.Word
import EspBode.Foundations.Xdr
import EspBode.Verification.Addressing
import EspBode.Verification.Answers
import EspBode.Verification.AppliedNumbers
import EspBode.Verification.BindReplies
import EspBode.Verification.BindTransports
import EspBode.Verification.BufferBounds
import EspBode.Verification.ChannelLines
import EspBode.Verification.CyclicCounter
import EspBode.Verification.DebugBuffer
import EspBode.Verification.DeviceDriver
import EspBode.Verification.DeviceLines
import EspBode.Verification.DeviceLiveness
import EspBode.Verification.DeviceSerial
import EspBode.Verification.DeviceServers
import EspBode.Verification.DeviceSteps
import EspBode.Verification.DriverNumbers
import EspBode.Verification.DriverRuns
import EspBode.Verification.Faults
import EspBode.Verification.Framing
import EspBode.Verification.HexDump
import EspBode.Verification.Histories
import EspBode.Verification.Instrument
import EspBode.Verification.Knobs
import EspBode.Verification.LeftBehind
import EspBode.Verification.Links
import EspBode.Verification.NullTokens
import EspBode.Verification.Outputs
import EspBode.Verification.OwnBytes
import EspBode.Verification.Packets
import EspBode.Verification.Panel
import EspBode.Verification.ParameterLists
import EspBode.Verification.PassThrough
import EspBode.Verification.PortGrants
import EspBode.Verification.Precision
import EspBode.Verification.ReadBack
import EspBode.Verification.ReadReplies
import EspBode.Verification.Readings
import EspBode.Verification.RemoteCalls
import EspBode.Verification.RequestRecords
import EspBode.Verification.Requests
import EspBode.Verification.Retries
import EspBode.Verification.ScpiSettings
import EspBode.Verification.ScpiText
import EspBode.Verification.SerialDialogue
import EspBode.Verification.ServedClients
import EspBode.Verification.ServerObjects
import EspBode.Verification.Service
import EspBode.Verification.Sessions
import EspBode.Verification.SilentAwg
import EspBode.Verification.StaleBytes
import EspBode.Verification.TableGuards
import EspBode.Verification.TelnetLines
import EspBode.Verification.Unreadable
import EspBode.Verification.WaveTranslation
