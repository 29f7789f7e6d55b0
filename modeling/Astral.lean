import Astral.Proof.RingQueue
import Astral.Proof.Scatter
import Astral.Proof.Rollback
import Astral.Proof.Guard
import Astral.Proof.Stream
import Astral.Proof.Allocation
import Astral.Proof.Directory
import Astral.Proof.Timer
import Astral.Proof.Semaphore
import Astral.Proof.Descriptors
import Astral.Proof.Ipv4
import Astral.Proof.Signal
import Astral.Proof.Pipe
import Astral.Proof.Udp
import Astral.Proof.Backlog
import Astral.Proof.PageCache
import Astral.Proof.Syncvnode
import Astral.Proof.VfsBalance
import Astral.Proof.FileIo
import Astral.Proof.SizeLock
import Astral.Proof.Hashtable
import Astral.Proof.Slab
import Astral.Proof.Heap
import Astral.Proof.PmmThreads
import Astral.Proof.PageIndex
import Astral.Proof.Jobctl
import Astral.Proof.KillSleep
import Astral.Proof.ProcessTree
import Astral.Proof.Futex
import Astral.Proof.PipeWait
import Astral.Proof.Fifo
import Astral.Proof.FdTable
import Astral.Proof.TmpfsTree
import Astral.Proof.Poll
import Astral.Proof.Cred
import Astral.Proof.FreeRange
import Astral.Proof.Options
import Astral.Proof.TcpInput
import Astral.Proof.Timeout
