import FalastinOS.Foundation.Memory
import FalastinOS.Foundation.Execution
import FalastinOS.Foundation.Ring
import FalastinOS.Foundation.KeyTable
import FalastinOS.Foundation.Forest
import FalastinOS.Foundation.CString
import FalastinOS.Foundation.Arena
import FalastinOS.Foundation.Placement
import FalastinOS.Foundation.Wire
import FalastinOS.Foundation.TextCursor
import FalastinOS.Foundation.SeekFile
import FalastinOS.Foundation.Sink
import FalastinOS.Foundation.Latch
import FalastinOS.Foundation.PortIo
import FalastinOS.Foundation.Framing
import FalastinOS.Foundation.Layers
import FalastinOS.Foundation.Device
import FalastinOS.Libc.Memory
import FalastinOS.Libc.Strings
import FalastinOS.Libc.Format
import FalastinOS.Libc.Vsnprintf
import FalastinOS.Libc.Numbers
import FalastinOS.Libc.Itoa
import FalastinOS.Libc.Padding
import FalastinOS.Heap.Malloc
import FalastinOS.Heap.Layout
import FalastinOS.Heap.Calls
import FalastinOS.Heap.History
import FalastinOS.Heap.Blocks
import FalastinOS.Heap.FirstFit
import FalastinOS.Heap.Sizes
import FalastinOS.Heap.Borrow
import FalastinOS.Drivers.Ata
import FalastinOS.Drivers.AtaPorts
import FalastinOS.Drivers.Keyboard
import FalastinOS.Drivers.Rtl8139
import FalastinOS.Drivers.RingReads
import FalastinOS.Drivers.Transmit
import FalastinOS.Drivers.Timer
import FalastinOS.Drivers.Interrupts
import FalastinOS.Drivers.Mouse
import FalastinOS.DiskFs.Table
import FalastinOS.DiskFs.Lookup
import FalastinOS.DiskFs.Image
import FalastinOS.DiskFs.Ops
import FalastinOS.DiskFs.Names
import FalastinOS.DiskFs.Tree
import FalastinOS.DiskFs.Failures
import FalastinOS.DiskFs.Persistence
import FalastinOS.DiskFs.Contents
import FalastinOS.DiskFs.Torn
import FalastinOS.DiskFs.OnPorts
import FalastinOS.Net.Arp
import FalastinOS.Net.ArpCache
import FalastinOS.Net.Address
import FalastinOS.Net.Icmp
import FalastinOS.Net.ByteOrder
import FalastinOS.Net.Checksum
import FalastinOS.Net.EchoReply
import FalastinOS.Net.Segment
import FalastinOS.Net.LwipPort
import FalastinOS.Net.Dns
import FalastinOS.Net.DnsAnswers
import FalastinOS.Net.Http
import FalastinOS.Net.Output
import FalastinOS.Shell.Commands
import FalastinOS.Shell.Tokens
import FalastinOS.Shell.Words
import FalastinOS.Shell.Session
import FalastinOS.Shell.History
import FalastinOS.Editor.Buffer
import FalastinOS.Editor.Document
import FalastinOS.Editor.Refine
import FalastinOS.Editor.Erase
import FalastinOS.Editor.Insert
import FalastinOS.Editor.Files
import FalastinOS.Editor.RoundTrip
import FalastinOS.Editor.Session
import FalastinOS.Gui.Panel
import FalastinOS.Gui.Console
import FalastinOS.Gui.Grid
import FalastinOS.Gui.Windows
import FalastinOS.Gui.Titles
import FalastinOS.Gui.Stacking
import FalastinOS.Gui.Cursor
import FalastinOS.Gui.Pixels
import FalastinOS.Gui.Screen
import FalastinOS.Gui.Icons
import FalastinOS.Gui.Terminal
import FalastinOS.Gui.GameMode
import FalastinOS.Editor.Display
import FalastinOS.Gui.FileManager
import FalastinOS.Gui.FileList
import FalastinOS.Gui.Rename
import FalastinOS.Doom.Files
import FalastinOS.Doom.Canvas
import FalastinOS.Doom.Player
import FalastinOS.Doom.Scene
import FalastinOS.Games.Snake
import FalastinOS.Games.Steering
import FalastinOS.Games.Board
