import Xv6.Spinlock
import Xv6.Sched.Exclusive
import Xv6.Lock.Exclusion
import Xv6.Lock.Stranded
import Xv6.Wait.Handshake
import Xv6.Wait.Reuse
import Xv6.Wait.Times
import Xv6.Log.Crash
import Xv6.Log.Reserve
import Xv6.Bio.Commit
import Xv6.Vm.Teardown
import Xv6.Vm.Placed
import Xv6.Vm.Sv39
import Xv6.Vm.Records
import Xv6.Vm.Keys
import Xv6.Vm.Segments
import Xv6.Vm.Outcomes
import Xv6.Fs.Exact
import Xv6.Fs.Interleave
import Xv6.Fs.Fits
import Xv6.Fs.Partial
import Xv6.Pipe.Fifo
import Xv6.Pipe.Woken
import Xv6.Uart
import Xv6.Console
import Xv6.Virtio.Correct
import Xv6.Mkfs.Agree
import Xv6.Umalloc.Sbrk
import Xv6.Sh.Correct
import Xv6.Commands.Shell
import Xv6.Grep
import Xv6.Memmove
import Xv6.Printint
