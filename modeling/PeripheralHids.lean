import PeripheralHids.Lib.Machine
import PeripheralHids.Lib.Proc
import PeripheralHids.Lib.Guarantee
import PeripheralHids.Lib.Threads
import PeripheralHids.Lib.Follows
import PeripheralHids.Lib.Solo
import PeripheralHids.Lib.Synchronise
import PeripheralHids.Lib.ShiftRegister
import PeripheralHids.Lib.RingBuffer
import PeripheralHids.Lib.Fifo
import PeripheralHids.Lib.Slots
import PeripheralHids.Lib.Pulses
import PeripheralHids.Lib.History
import PeripheralHids.Lib.Mask
import PeripheralHids.Lib.Secrecy
import PeripheralHids.Lib.HidDescriptor
import PeripheralHids.Lib.Tearing
import PeripheralHids.Keys
import PeripheralHids.Drivers.Gpio
import PeripheralHids.Kernel.MsgQueue
import PeripheralHids.Kernel.Funs
import PeripheralHids.Kernel.Calls
import PeripheralHids.Kernel.Linear
import PeripheralHids.Kernel.Plain
import PeripheralHids.Connector.Funs
import PeripheralHids.Connector.Window
import PeripheralHids.Connector.Frame
import PeripheralHids.Connector.RoundTrip
import PeripheralHids.Connector.Corrupt
import PeripheralHids.Connector.Ascent
import PeripheralHids.Connector.Realign
import PeripheralHids.Connector.Send
import PeripheralHids.Connector.Transmit
import PeripheralHids.Connector.SendThread
import PeripheralHids.Hog.Funs
import PeripheralHids.Hog.ReportMap
import PeripheralHids.Hog.Subscription
import PeripheralHids.Hog.Service
import PeripheralHids.Hog.HostView
import PeripheralHids.Hog.Preempt
import PeripheralHids.Gatt.Funs
import PeripheralHids.Gatt.Table
import PeripheralHids.Gatt.Steps
import PeripheralHids.Gatt.Authenticated
import PeripheralHids.Gatt.Delivery
import PeripheralHids.Gatt.Observer
import PeripheralHids.Gatt.LongRead
import PeripheralHids.Translator.Funs
import PeripheralHids.Translator.Scan
import PeripheralHids.Translator.Alone
import PeripheralHids.Translator.Grammar
import PeripheralHids.Translator.Report
import PeripheralHids.Translator.Rollover
import PeripheralHids.Translator.Sequence
import PeripheralHids.Translator.Pressed
import PeripheralHids.Translator.Independent
import PeripheralHids.Translator.Modifier
import PeripheralHids.Translator.FakeShift
import PeripheralHids.Translator.Calls
import PeripheralHids.Translator.Bounds
import PeripheralHids.Translator.Atomic
import PeripheralHids.Translator.Invariant
import PeripheralHids.Translator.Published
import PeripheralHids.Translator.Resync
import PeripheralHids.HidTools.Funs
import PeripheralHids.HidTools.Print
import PeripheralHids.HidTools.Layout
import PeripheralHids.HidTools.Supported
import PeripheralHids.Main.Writers
import PeripheralHids.Main.Adapter
import PeripheralHids.Main.Alone
import PeripheralHids.Main.Drain
import PeripheralHids.Main.EndToEnd
import PeripheralHids.Main.Host
