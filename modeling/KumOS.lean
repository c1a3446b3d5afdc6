import KumOS.X86.Isr128
import KumOS.Heap.Coalescing
import KumOS.Paging.Identity
import KumOS.Paging.Swapping
import KumOS.Fat12.Mount
import KumOS.Fat12.Names
import KumOS.Pipes.Instances
import KumOS.Fs.Bounded
import KumOS.Vfs.Contents
import KumOS.Vfs.MemFiles
import KumOS.Vfs.Resolve
import KumOS.Procfs.Numerals
import KumOS.Procfs.Dmesg
import KumOS.Procfs.Reads
import KumOS.Syscall.Abi
import KumOS.Syscall.Sbrk
import KumOS.Syscall.Sizes
import KumOS.Signals.Disposition
import KumOS.Spawn.Memory
import KumOS.Elf.Contents
import KumOS.Elf.Failure
import KumOS.Net.Window
import KumOS.Net.Datagrams
import KumOS.Net.Dhcp
import KumOS.Net.Dns
import KumOS.Sched.Contexts
import KumOS.Sched.Children
import KumOS.Sched.Sleep
import KumOS.Ext2.Directories
import KumOS.User.Memory
import KumOS.User.Editors
