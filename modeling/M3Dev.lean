import M3Dev.RswdpProtocol
import M3Dev.WhileLoop
import M3Dev.RswdpFirmware
import M3Dev.RswdpRequest
import M3Dev.RswdpServe
import M3Dev.RswdpEncode
import M3Dev.RswdpQueue
import M3Dev.RswdpAnswer
import M3Dev.RswdpAsync
import M3Dev.BulkTransfer
import M3Dev.RswdpExec
import M3Dev.RswdpFraming
import M3Dev.SwoDecoder
import M3Dev.GdbPacket
import M3Dev.SwoPackets
import M3Dev.GdbRecv
import M3Dev.GdbRoundTrip
import M3Dev.RswdpStale
import M3Dev.RswdpMessages
import M3Dev.RswdpRoundTrip
import M3Dev.RswdpAhb32
import M3Dev.RswdpBatches
import M3Dev.MemAp
import M3Dev.RswdpProbe
import M3Dev.RswdpBulk
import M3Dev.RswdpPlain
import M3Dev.RswdpBulkAgree
import M3Dev.EventSystem
import M3Dev.SwdThreads
import M3Dev.SwdSlot
import M3Dev.GdbChecksum
import M3Dev.GdbPacketSize
import M3Dev.CallTree
import M3Dev.HostCalls
import M3Dev.GdbBreakpoints
import M3Dev.GdbMemory
import M3Dev.LkThreads
import M3Dev.GdbCommand
import M3Dev.HostBench
import M3Dev.GdbReadMemory
import M3Dev.GdbHexData
import M3Dev.GdbWriteMemory
import M3Dev.GdbFailures
import M3Dev.GdbServer
import M3Dev.GdbOrderly
import M3Dev.GdbAnswers
import M3Dev.GdbServed
import M3Dev.GdbRuns
import M3Dev.DebugUnits
import M3Dev.GdbPoints
import M3Dev.GdbPointRuns
import M3Dev.LinkedRing
import M3Dev.LkMemory
import M3Dev.LkThreadList
import M3Dev.CallTriple
import M3Dev.FlashTarget
import M3Dev.AgentStm32
import M3Dev.AgentIap
import M3Dev.AgentSpifi
import M3Dev.SwoResync
import M3Dev.LkThreadWalk
import M3Dev.FlashSectors
import M3Dev.SerialBits
import M3Dev.SwdWire
import M3Dev.WordFolds
import M3Dev.SwdFrames
import M3Dev.SwdPins
import M3Dev.SwdWireAgree
import M3Dev.CountedRing
import M3Dev.UsbConsole
import M3Dev.UsbConsoleRuns
import M3Dev.SwdHandles
import M3Dev.Buffer
import M3Dev.UsbEndpoint
import M3Dev.BootStatus
import M3Dev.Interleaving
import M3Dev.UsbReceive
import M3Dev.UsbReceiveAgree
import M3Dev.UsbReceiveRuns
import M3Dev.BootLink
import M3Dev.BootFlash
import M3Dev.FlashHost
import M3Dev.FlashStation
import M3Dev.FlashRuns
import M3Dev.FlashImages
import M3Dev.SwoConsole
import M3Dev.CoreControl
import M3Dev.SerialForward
import M3Dev.UsbControl
import M3Dev.DumpBytes
import M3Dev.DebuggerState
import M3Dev.DebuggerOperand
import M3Dev.MaximalRuns
import M3Dev.DebuggerLine
import M3Dev.DebuggerScript
import M3Dev.DebuggerCalls
import M3Dev.RswdpAccesses
import M3Dev.RswdpModeRestore
import M3Dev.Numerals
import M3Dev.Print
import M3Dev.PrintNumbers
import M3Dev.Stm32Boot
import M3Dev.RswdpStores
import M3Dev.GdbHexInPlace
import M3Dev.CoreRegisters
import M3Dev.GdbRegisters
import M3Dev.TextCursor
import M3Dev.Linenoise
import M3Dev.LinenoiseEdits
import M3Dev.TerminalScreen
import M3Dev.LinenoiseScreen
import M3Dev.LinenoiseRuns
import M3Dev.LinenoiseThreads
import M3Dev.DebuggerLanguage
import M3Dev.DebuggerMain
import M3Dev.DebuggerDefinitions
import M3Dev.HostMemory
import M3Dev.SwdPort
import M3Dev.SwdPortRuns
import M3Dev.GdbSession
import M3Dev.Pieces
import M3Dev.RemotePrint
import M3Dev.CString
import M3Dev.CTokens
import M3Dev.Builtins
