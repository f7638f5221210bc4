import Xv6.Bcache.Structure
import Xv6.Console.Draw
import Xv6.Console.Lines
import Xv6.Fs.Chunks
import Xv6.Fs.Namex
import Xv6.Grep.Lines
import Xv6.Ide.Queue
import Xv6.Log.Recovery
import Xv6.Log.Reserve
import Xv6.Mp.Madt
import Xv6.Net.Rings
import Xv6.Net.Tcp
import Xv6.Proc.Args
import Xv6.Proc.Fault
import Xv6.Proc.Fork
import Xv6.Proc.Isolation
import Xv6.Proc.Pid
import Xv6.Proc.Shrink
import Xv6.Sched.Fair
import Xv6.Str.Memmove
import Xv6.Sync.Interrupt
import Xv6.Sync.Release
import Xv6.Umalloc.Request
import Xv6.Uthread.Join
import Xv6.Uthread.Preempt
import Xv6.Uthread.Suspend
import Xv6.Vm.Return
import Xv6.Vm.Words
