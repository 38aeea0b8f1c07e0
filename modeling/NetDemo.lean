import NetDemo.Lib.Transition
import NetDemo.Lib.SlotAllocator
import NetDemo.Libhv.Accepted
import NetDemo.IoServicePool.Refinement
import NetDemo.IoServicePool.Stop
import NetDemo.IoServicePool.Growth
import NetDemo.Session.Outgoing
import NetDemo.Session.Terminal
import NetDemo.Session.Buffer
import NetDemo.Session.Acknowledge
import NetDemo.Session.Complete
import NetDemo.Session.Transfer
import NetDemo.Server.Accept
import NetDemo.Server.Broadcast
import NetDemo.Server.Leak
import NetDemo.Array.Failure
import NetDemo.Array.Lemmas
import NetDemo.Array.Refinement
import NetDemo.Libhv.EventLoop.CustomEvents
import NetDemo.Libhv.EventLoop.TimerIDs
import NetDemo.Libhv.TcpClient.Schedule
import NetDemo.Libhv.TcpClient.Start
import NetDemo.Libhv.TcpServer.Limit
import NetDemo.Libhv.TcpServer.ConnectionNum
import NetDemo.Libhv.TcpServer.DictChannel
import NetDemo.Libhv.TcpServer.Broadcast
import NetDemo.Libhv.TcpServer.LoadBalance
import NetDemo.Libhv.TcpServer.Start.Progress
import NetDemo.Lib.Backoff
import NetDemo.Libhv.ReconnSetting
