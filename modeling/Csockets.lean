import Csockets.Blocks
import Csockets.Chain
import Csockets.Bytes
import Csockets.NetModel
import Csockets.UsersModel
import Csockets.UsersList
import Csockets.UsersRefine
import Csockets.Runs
import Csockets.UsersTable
import Csockets.UsersCall
import Csockets.UsersFrame
import Csockets.FormatterModel
import Csockets.UserIds
import Csockets.ServerLog
import Csockets.ServerList
import Csockets.ServerFormatter
import Csockets.ServerTable
import Csockets.ServerSends
import Csockets.ServerLines
import Csockets.ServerTimeouts
import Csockets.ServerSpam
import Csockets.PollModel
import Csockets.PollSlots
import Csockets.PollEcho
import Csockets.Loops
import Csockets.EchoModel
import Csockets.EchoHandler
import Csockets.EchoReads
import Csockets.AddrModel
import Csockets.AddrList
import Csockets.UdpmsgModel
import Csockets.UdpmsgNewlines
import Csockets.Files
import Csockets.MainModel
import Csockets.MainSockets
import Csockets.Threads
import Csockets.ServerSockets
import Csockets.MasterModel
import Csockets.MasterThreads
import Csockets.MasterRuns
import Csockets.UdpechoModel
import Csockets.UdpechoThreads
import Csockets.UdpechoRuns
import Csockets.Sections
import Csockets.LogLines
import Csockets.NetOrder
import Csockets.ServerReads
import Csockets.PollAccount
import Csockets.UdpmsgServer
import Csockets.UdpmsgMain
import Csockets.EchoMemory
import Csockets.ChatRoom
import Csockets.Rooms
import Csockets.Rosters
