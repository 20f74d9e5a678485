import Camkes.Data.CArray
import Camkes.Data.Demux
import Camkes.Data.ReadBuffer
import Camkes.Data.Ring
import Camkes.Data.BitField
import Camkes.Data.BoundedFifo
import Camkes.Data.Heap
import Camkes.Data.History
import Camkes.Data.Stack
import Camkes.Data.Leases
import Camkes.Data.Sentinel
import Camkes.Data.CString
import Camkes.Data.WrapCounter
import Camkes.Data.PrefixWords
import Camkes.Data.Page
import Camkes.Data.Loops
import Camkes.Data.Grid
import Camkes.Data.CountLoop
import Camkes.Data.Printf
import Camkes.Data.BigEndian
import Camkes.Data.WhileLoop
import Camkes.Data.Block
import Camkes.Data.Polling
import Camkes.Machine.Basic
import Camkes.Machine.Unwinding
import Camkes.Machine.Locking
import Camkes.Machine.Progress
import Camkes.Machine.Prog
import Camkes.Machine.Threads
import Camkes.Data.Reversal
import Camkes.Machine.Buffer
import Camkes.ReverseString.Basic
import Camkes.ReverseString.Equiv.Parties
import Camkes.ReverseString.Equiv.Reverse
import Camkes.ReverseString.Process
import Camkes.ReverseString.Equiv.Process
import Camkes.ReverseString.Pipeline
import Camkes.ReverseString.Equiv.Pipeline
import Camkes.ReverseString.Handshake
import Camkes.ReverseString.Equiv.Phases
import Camkes.ReverseString.Equiv.Handshake
import Camkes.ReverseString.TcpServer
import Camkes.ReverseString.Equiv.TcpServer
import Camkes.ReverseString.Equiv.Exchange
import Camkes.ReverseString.Equiv.Replies
import Camkes.EthdriverUboot.Basic
import Camkes.EthdriverUboot.ClientRx
import Camkes.EthdriverUboot.System
import Camkes.EthdriverUboot.Equiv.ClientRx
import Camkes.EthdriverUboot.Equiv.Queue
import Camkes.EthdriverUboot.Equiv.Isolation
import Camkes.EthdriverUboot.Dataports
import Camkes.EthdriverUboot.Equiv.Dataports
import Camkes.EthdriverUboot.Wakeup
import Camkes.EthdriverUboot.Equiv.Wakeup
import Camkes.EthdriverUboot.Equiv.Drain
import Camkes.EthdriverUboot.Equiv.Classify
import Camkes.EthdriverUboot.Equiv.Macs
import Camkes.PicotcpSingle.Basic
import Camkes.PicotcpSingle.UdpEcho
import Camkes.PicotcpSingle.Equiv.UdpEcho
import Camkes.PicotcpSingle.TcpEcho
import Camkes.PicotcpSingle.TcpEchoErrors
import Camkes.PicotcpSingle.Equiv.TcpEchoStep
import Camkes.PicotcpSingle.Equiv.TcpEcho
import Camkes.PicotcpSingle.Equiv.TcpEchoErrors
import Camkes.PicotcpSingle.TcpEchoWakeup
import Camkes.PicotcpSingle.Equiv.TcpEchoWakeup
import Camkes.PicotcpSingle.TcpEchoIndex
import Camkes.PicotcpSingle.Equiv.TcpEchoIndex
import Camkes.PicotcpSingle.EthBuf
import Camkes.PicotcpSingle.EthRx
import Camkes.PicotcpSingle.Equiv.EthBuf
import Camkes.PicotcpSingle.Equiv.EthRx
import Camkes.PicotcpSingle.SetupEth0
import Camkes.PicotcpSingle.Equiv.SetupEth0
import Camkes.PicotcpSingle.EthTx
import Camkes.PicotcpSingle.Equiv.EthTx
import Camkes.PicotcpSingle.Utilization
import Camkes.PicotcpSingle.Equiv.Utilization
import Camkes.PicotcpSingle.UtilizationReads
import Camkes.PicotcpSingle.Equiv.UtilizationReads
import Camkes.PicotcpTcpEcho.Basic
import Camkes.PicotcpTcpEcho.Handlers
import Camkes.PicotcpTcpEcho.Dispatch
import Camkes.PicotcpTcpEcho.Equiv.Dispatch
import Camkes.PicotcpTcpEcho.Async
import Camkes.PicotcpTcpEcho.Equiv.Async
import Camkes.PicotcpTcpEcho.Payload
import Camkes.PicotcpTcpEcho.Equiv.Payload
import Camkes.PicotcpTcpEcho.Cleanup
import Camkes.PicotcpTcpEcho.Equiv.Cleanup
import Camkes.SecurityDemo.Dataport
import Camkes.SecurityDemo.Crypto
import Camkes.SecurityDemo.Transmitter
import Camkes.SecurityDemo.System
import Camkes.SecurityDemo.Equiv.Dataport
import Camkes.SecurityDemo.LogFile
import Camkes.SecurityDemo.Equiv.LogFile
import Camkes.SecurityDemo.Notify
import Camkes.SecurityDemo.Equiv.Notify
import Camkes.SecurityDemo.EthSend
import Camkes.SecurityDemo.Equiv.EthSend
import Camkes.SecurityDemo.Stream
import Camkes.SecurityDemo.Equiv.Stream
import Camkes.SecurityDemo.Connections
import Camkes.SecurityDemo.Equiv.Connections
import Camkes.Dhcp.Server
import Camkes.Dhcp.Equiv.Discover
import Camkes.Dhcp.Equiv.Leases
import Camkes.Dhcp.Equiv.Offers
import Camkes.Dhcp.Equiv.Hosts
import Camkes.Dhcp.Client
import Camkes.Dhcp.Equiv.Clients
import Camkes.Serialserver.Client
import Camkes.Serialserver.Equiv.Client
import Camkes.Serialserver.Loopback
import Camkes.Serialserver.Equiv.Loopback
import Camkes.CakemlRegex.Filter
import Camkes.CakemlRegex.NullTerminated
import Camkes.CakemlRegex.Equiv.NullTerminated
import Camkes.CakemlRegex.Equiv.Filter
import Camkes.Aeroplage.Basic
import Camkes.Aeroplage.Equiv.Separation
import Camkes.Aeroplage.System
import Camkes.Aeroplage.Chars
import Camkes.Aeroplage.VesaDriver
import Camkes.Aeroplage.Equiv.Windows
import Camkes.Aeroplage.Equiv.Scancodes
import Camkes.McsScheduling.Task
import Camkes.McsScheduling.Equiv.Task
import Camkes.Mutex.Connector
import Camkes.Mutex.Equiv.Connector
import Camkes.Socket.Equiv.Relay
import Camkes.Socket.Relay
import Camkes.Terminal.Equiv.PutChar
import Camkes.Terminal.Equiv.Manager
import Camkes.Terminal.Equiv.Borders
import Camkes.Terminal.Manager
import Camkes.Picoserver.Echo
import Camkes.Picoserver.Equiv.Echo
import Camkes.Picoserver.Listener
import Camkes.Picoserver.Equiv.Listener
import Camkes.UartCogent.Serial
import Camkes.UartCogent.Equiv.Baud
import Camkes.UartCogent.Equiv.Frame
import Camkes.UartCogent.Chars
import Camkes.UartCogent.Equiv.Chars
import Camkes.Uart.Driver
import Camkes.Uart.Equiv.Driver
import Camkes.Vgatest.VgaDriver
import Camkes.Vgatest.Equiv.VgaDriver
import Camkes.Multiplier.Calculate
import Camkes.Multiplier.Equiv.Calculate
import Camkes.SecurityDemo.UbootCmd
import Camkes.SecurityDemo.Equiv.UbootCmd
import Camkes.Dhcp.MakeMac
import Camkes.Dhcp.Equiv.MakeMac
import Camkes.Dhcp.Strings
import Camkes.Dhcp.Equiv.Strings
import Camkes.Fdtgen.Basic
import Camkes.Fdtgen.Tree
import Camkes.Fdtgen.Equiv.Values
import Camkes.Fdtgen.Equiv.Header
import Camkes.Fdtgen.Equiv.Dump
import Camkes.Fdtgen.Equiv.Tree
import Camkes.RumprunPthreads.Basic
import Camkes.RumprunPthreads.Equiv.Steps
import Camkes.RumprunPthreads.Equiv.Counter
import Camkes.RumprunPthreads.Equiv.Main
import Camkes.RumprunPthreads.Equiv.Log
import Camkes.RumprunPthreads.Equiv.Progress
import Camkes.DataportMux.Basic
import Camkes.DataportMux.Equiv.Turns
import Camkes.DataportMux.Equiv.End
import Camkes.GlobalAsync.Basic
import Camkes.GlobalAsync.Equiv.Strings
import Camkes.Multiclient.Basic
import Camkes.Multiclient.Equiv.Steps
import Camkes.Multiclient.Equiv.Clients
import Camkes.Multiclient.Equiv.End
