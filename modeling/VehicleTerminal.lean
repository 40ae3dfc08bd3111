import VehicleTerminal.Library.Memory
import VehicleTerminal.Library.Ring
import VehicleTerminal.Library.Simulation
import VehicleTerminal.Library.Fifo
import VehicleTerminal.Library.Debounce
import VehicleTerminal.Library.MachineInt
import VehicleTerminal.Queue.CirQueue
import VehicleTerminal.Queue.CirQueueRefinement
import VehicleTerminal.Queue.NodeQueue
import VehicleTerminal.Queue.NodeQueueBoundaries
import VehicleTerminal.Queue.LzmQueue
import VehicleTerminal.Queue.LzmQueueRefinement
import VehicleTerminal.Queue.QueueBackup
import VehicleTerminal.Queue.LzmStack
import VehicleTerminal.Comm.Port
import VehicleTerminal.Comm.Transmit
import VehicleTerminal.Comm.Interrupt
import VehicleTerminal.Library.ByteStore
import VehicleTerminal.Eeprom.Layout
import VehicleTerminal.Eeprom.Pram
import VehicleTerminal.Eeprom.RoundTrip
import VehicleTerminal.Library.Iteration
import VehicleTerminal.Param.Convert
import VehicleTerminal.Param.Time
import VehicleTerminal.Param.Bcd
import VehicleTerminal.Param.TimeCalendar
import VehicleTerminal.Library.InputPrefix
import VehicleTerminal.Storage.Fram
import VehicleTerminal.Storage.FramRoundTrip
import VehicleTerminal.Storage.FramMemory
import VehicleTerminal.Param.Special
import VehicleTerminal.Param.TimeRoundTrip
import VehicleTerminal.Param.Write
import VehicleTerminal.Param.Stored
import VehicleTerminal.Param.SpecialRoundTrip
import VehicleTerminal.Param.Bounds
import VehicleTerminal.Param.Message
import VehicleTerminal.Param.Acknowledge
import VehicleTerminal.Library.Collecting
import VehicleTerminal.Param.Independence
import VehicleTerminal.Param.Read
import VehicleTerminal.Param.Reply
import VehicleTerminal.Timer.LzmTimer
import VehicleTerminal.Timer.LzmTimerRuns
import VehicleTerminal.Timer.ApiTimer
import VehicleTerminal.Timer.ApiTimerAlone
import VehicleTerminal.Timer.ApiTimerRuns
import VehicleTerminal.Timer.ApiTimerLaws
import VehicleTerminal.Timer.ApiTimerStop
import VehicleTerminal.Timer.ApiTimerRearm
import VehicleTerminal.Schedule.TaskSchedule
import VehicleTerminal.Schedule.Cleared
import VehicleTerminal.Schedule.Expiries
import VehicleTerminal.Schedule.EventTask
import VehicleTerminal.Storage.Flash
import VehicleTerminal.Storage.FlashUpdate
import VehicleTerminal.Storage.MediaSearch
import VehicleTerminal.Library.PartialSums
import VehicleTerminal.Library.Calendar
import VehicleTerminal.Clock.Rtc
import VehicleTerminal.Clock.RtcCalendar
import VehicleTerminal.Clock.RtcRoundTrip
import VehicleTerminal.Library.MixedRadix
import VehicleTerminal.Clock.TimeKey
import VehicleTerminal.Clock.TimeWindow
import VehicleTerminal.Io.Words
import VehicleTerminal.Io.Control
import VehicleTerminal.Io.Detect
import VehicleTerminal.Io.MainPower
import VehicleTerminal.Comm.CommParam
import VehicleTerminal.Comm.VdrUsart
import VehicleTerminal.Comm.EventDispatch
import VehicleTerminal.Comm.Receive
import VehicleTerminal.Library.CString
import VehicleTerminal.Fct.Gnss
import VehicleTerminal.Fct.DebugFrame
import VehicleTerminal.Fct.DebugCommands
import VehicleTerminal.Queue.CirQueueDrain
import VehicleTerminal.Storage.MediaIndex
import VehicleTerminal.Fct.CommandScan
import VehicleTerminal.Tts.VoicePacket
import VehicleTerminal.Tts.Segments
import VehicleTerminal.Gdi.CopyArea
import VehicleTerminal.Gdi.Rect
import VehicleTerminal.Gdi.Text
import VehicleTerminal.Gdi.Picture
import VehicleTerminal.Gdi.Caption
import VehicleTerminal.Library.Checksum
import VehicleTerminal.Eeprom.Corruption
import VehicleTerminal.Storage.Corruption
import VehicleTerminal.Eeprom.Aliases
import VehicleTerminal.Clock.RtcOrder
import VehicleTerminal.Library.BlockLoop
import VehicleTerminal.Library.Printf
import VehicleTerminal.Public.Nibbles
import VehicleTerminal.Public.HexText
import VehicleTerminal.Public.Decimal
import VehicleTerminal.Public.TimeText
import VehicleTerminal.Storage.FatTime
import VehicleTerminal.Clock.NumStr
import VehicleTerminal.Library.BitLayout
import VehicleTerminal.Gdi.GlyphFormat
import VehicleTerminal.Library.Wakeup
import VehicleTerminal.Kernel.SuspendList
import VehicleTerminal.Kernel.Mailbox
import VehicleTerminal.Kernel.MailboxRefinement
import VehicleTerminal.Kernel.MailboxWakeups
import VehicleTerminal.Schedule.KernelMailbox
import VehicleTerminal.Kernel.Waiting
import VehicleTerminal.Library.BitFlags
import VehicleTerminal.Kernel.Event
import VehicleTerminal.Kernel.EventDelivery
import VehicleTerminal.Schedule.Watchdog
import VehicleTerminal.Schedule.WatchdogFeeds
import VehicleTerminal.Library.Chain
import VehicleTerminal.Library.Ownership
import VehicleTerminal.Kernel.MessageQueue
import VehicleTerminal.Kernel.MessageQueueBlocks
import VehicleTerminal.Kernel.MessageQueueDelivery
import VehicleTerminal.Kernel.Semaphore
import VehicleTerminal.Library.Tiling
import VehicleTerminal.Kernel.Heap
import VehicleTerminal.Kernel.HeapBlocks
import VehicleTerminal.Kernel.HeapOperations
import VehicleTerminal.Kernel.HeapCalls
import VehicleTerminal.Kernel.HeapCallers
import VehicleTerminal.Kernel.HeapRuns
import VehicleTerminal.Library.SkipList
import VehicleTerminal.Kernel.Timer
import VehicleTerminal.Kernel.TimerRuns
