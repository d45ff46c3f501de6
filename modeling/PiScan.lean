import PiScan.Lib.Run
import PiScan.Lib.TwosComplement
import PiScan.Lib.Carousel
import PiScan.Lib.Avoids
import PiScan.Lib.PropertyTree
import PiScan.Lib.Decimal
import PiScan.Lib.FloatText
import PiScan.Lib.SpelledNumber
import PiScan.Lib.Wire
import PiScan.Lib.WireSize
import PiScan.Lib.SlotTable
import PiScan.Lib.Grouping
import PiScan.Lib.KeySet
import PiScan.Lib.Delimited
import PiScan.Lib.Pipe
import PiScan.Lib.Changes
import PiScan.Lib.FlagCell
import PiScan.Lib.Monitor
import PiScan.Common.Configuration
import PiScan.Scan.Entry
import PiScan.Scan.MergeSort
import PiScan.Scan.SystemList
import PiScan.Scan.Bins
import PiScan.Scan.Partition
import PiScan.Scan.SortRange
import PiScan.Scan.Center
import PiScan.Scan.Cursor
import PiScan.Scan.Fairness
import PiScan.Scan.Database
import PiScan.Scan.Reload
import PiScan.Scan.Loading
import PiScan.Scan.Stock
import PiScan.Scan.LockCount
import PiScan.Scan.Bounds
import PiScan.Scan.Rewind
import PiScan.Scan.SentinelFile
import PiScan.Scan.SentinelLine
import PiScan.Scan.Conversion
import PiScan.Scan.SentinelText
import PiScan.Sigproc.TunerManager
import PiScan.Sigproc.TunerChoice
import PiScan.Sigproc.Demodulator
import PiScan.Sigproc.Modem
import PiScan.Sigproc.Retune
import PiScan.Sigproc.Audio
import PiScan.Server.Messages
import PiScan.Server.SocketConnection
import PiScan.Server.Replies
import PiScan.Server.WriteBuffer
import PiScan.Server.BufferBound
import PiScan.Server.Connections
import PiScan.Server.Connecting
import PiScan.Server.QueueThread
import PiScan.Machine.StateMachine
import PiScan.Machine.ScannerSM
import PiScan.Machine.Handlers
import PiScan.Machine.Receiver
import PiScan.Machine.World
import PiScan.Machine.Moves
import PiScan.Machine.Control
import PiScan.Machine.Invariant
import PiScan.Machine.Inventory
import PiScan.Machine.Atomic
import PiScan.Machine.Context
import PiScan.Machine.Hold
import PiScan.Machine.Squelch
import PiScan.Machine.Decisions
import PiScan.Machine.Delay
import PiScan.Machine.Audio
import PiScan.Machine.Manual
import PiScan.Machine.ManualMode
import PiScan.Machine.SavedState
import PiScan.Machine.Restart
import PiScan.Machine.StaleHold
import PiScan.Machine.Resume
import PiScan.Machine.ManualHold
import PiScan.Machine.NullEntry
import PiScan.Machine.Idle
import PiScan.Machine.Stop
import PiScan.Server.ContextUpdates
import PiScan.Server.Requests
import PiScan.Server.ManualRequest
import PiScan.Server.DebugConsole
import PiScan.Server.LocalPCMSource
import PiScan.Util.IntervalTimer
import PiScan.Cubic.ThreadBlockingQueue
import PiScan.Cubic.SDRThread
import PiScan.Cubic.SDRPostThread
import PiScan.Cubic.ReBuffer
import PiScan.Cubic.AudioThread
import PiScan.Cubic.DemodulatorPreThread
import PiScan.Cubic.ModemHandover
import PiScan.Cubic.ModemWorker
import PiScan.Cubic.FrequencyHandover
import PiScan.Cubic.TunerHandshake
import PiScan.Client.SquelchExchange
import PiScan.Client.Messages
import PiScan.Client.Window
