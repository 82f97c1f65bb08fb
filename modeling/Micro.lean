import Micro.Kern.Acpi
import Micro.Kern.List
import Micro.Kern.Part
import Micro.Kern.Printk
import Micro.Kern.Clock
import Micro.Kern.Semaphore
import Micro.Heap.Coalescing
import Micro.Heap.Extent
import Micro.Libc.Sizes
import Micro.Libc.Realpath
import Micro.Libc.Qsort
import Micro.Fs.Offsets
import Micro.Fs.Pipe
import Micro.Fs.WritePermission
import Micro.Fs.RenameOne
import Micro.Fs.WorkingDirectory
import Micro.Dev.Ahci
import Micro.Dev.Tty
import Micro.Term.Screens
import Micro.Term.Colours
import Micro.Ext2.Groups
import Micro.Ext2.Mount
import Micro.Ext2.Symlink
import Micro.Fat.Chains
import Micro.Fat.Names
import Micro.Fs.Enumerate
import Micro.Fs.Reported
import Micro.Mm.DemandPaging
import Micro.Mm.NoRoom
import Micro.Mm.UserHalf
import Micro.Mm.Mappings
import Micro.Proc.Fork
import Micro.Proc.Tree
import Micro.Proc.Reap
import Micro.Proc.Except
import Micro.Proc.Sessions
import Micro.Proc.Groups
import Micro.Proc.SignalSafety
