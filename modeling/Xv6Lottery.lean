import Xv6Lottery.Log.Crash
import Xv6Lottery.Log.Reservation
import Xv6Lottery.Lottery.Share
import Xv6Lottery.Lottery.Scheduler
import Xv6Lottery.Proc.Reap
import Xv6Lottery.Fs.Dangling
import Xv6Lottery.Fs.LinkCount
import Xv6Lottery.Fs.Orphans
import Xv6Lottery.Inode.References
import Xv6Lottery.Log.Waiters
import Xv6Lottery.Bio.Recycle
import Xv6Lottery.Sleep.Sleeplock
import Xv6Lottery.Pipe.Wakeups
import Xv6Lottery.Kill.Gap
import Xv6Lottery.Virtio.Requests
import Xv6Lottery.Vm.UserCopy
import Xv6Lottery.Proc.Pids
import Xv6Lottery.Proc.RoundRobin
import Xv6Lottery.Interrupt.Preserved
import Xv6Lottery.Disk.Contents
import Xv6Lottery.Mkfs.ReadBack
import Xv6Lottery.Mkfs.WellFormed
import Xv6Lottery.File.Read
import Xv6Lottery.Vm.Fork
import Xv6Lottery.User.Memmove
import Xv6Lottery.User.Grep
import Xv6Lottery.User.Printf
import Xv6Lottery.Shell.Tokens
import Xv6Lottery.Uart.Transmit
