import IanOS.Mm.PmmRun
import IanOS.Mm.HeapRun
import IanOS.Interrupts.StubsSpec
import IanOS.Interrupts.Dispatch
import IanOS.Fs.Tree
import IanOS.Fs.Listing
import IanOS.Fs.Accounting
import IanOS.Fs.RamRefinement
import IanOS.Fs.FatMounting
import IanOS.Mm.VmmLargePages
import IanOS.Block.Coherence
import IanOS.Block.DiskReads
import IanOS.Userspace.Selection
import IanOS.Sched.Fairness
import IanOS.Fs.ReadOnly
import IanOS.Fs.Refusals
import IanOS.Fs.Sizes
import IanOS.Syscall.PathCalls
import IanOS.Userspace.PreemptionGate
import IanOS.Loader.IdentityView
import IanOS.Lifecycle.RoundTrip
import IanOS.Smp.Shootdown
import IanOS.Terminal.Raw
import IanOS.Console.Coherence
import IanOS.Userland.Editing
import IanOS.Userland.JobTable
import IanOS.Userland.Status
import IanOS.Drivers.E1000
import IanOS.Drivers.Pci
import IanOS.Userland.History
import IanOS.Userland.Filters
import IanOS.Userland.CommandList
import IanOS.Userland.Expansion
import IanOS.Console.KernelLog
import IanOS.Tools.FatImage
import IanOS.Tools.ShortNames
import IanOS.Userland.Cksum
import IanOS.Sync.SpinLock
