import EduOS.Mm.HeapRuns
import EduOS.Mm.PageReclaim
import EduOS.Mm.PageCacheLists
import EduOS.Mm.Swap
import EduOS.Process.Priority
import EduOS.Process.Cfs
import EduOS.Net.Skbuff
import EduOS.Exec.LazyLoader
import EduOS.Fs.Fat32Lfn
import EduOS.Ipc.PipeCall
import EduOS.Syscall.Seek
import EduOS.Process.Signal
import EduOS.Sync.Mutex
import EduOS.Ipc.Sem
import EduOS.Sync.WaitQueue
import EduOS.Ipc.Shm
import EduOS.Fs.Devfs
import EduOS.Process.Wait
import EduOS.Fs.Fat32Consistency
import EduOS.Process.FrameOwnership
import EduOS.Process.RtPick
import EduOS.Ipc.MqueueManager
import EduOS.Ipc.SemIds
import EduOS.Process.FdSlots
import EduOS.Fs.Fat32Scan
import EduOS.Mm.Kmap
import EduOS.Drivers.Rtl8139
import EduOS.Syscall.Select
import EduOS.User.Stdlib
