import KernelStudy.Chardev.Removal
import KernelStudy.HomeHack.Load
import KernelStudy.HomeHack.Shared
import KernelStudy.Proc.Hiding
import KernelStudy.Syscall.Stacking
import KernelStudy.Proc.Nodes
import KernelStudy.Chardev.Faults
import KernelStudy.HomeHack.Faults
import KernelStudy.HomeHack.Nodes
import KernelStudy.HomeHack.Confine
import KernelStudy.Proc.References
import KernelStudy.Syscall.Spy
import KernelStudy.Syscall.Kmap
import KernelStudy.ObjectList
import KernelStudy.Proc.Threads
import KernelStudy.Proc.Descriptors
import KernelStudy.Proc.Lookup
import KernelStudy.Proc.Flush
import KernelStudy.Proc.Memory
import KernelStudy.Lineage
import KernelStudy.Proc.ExeFile
import KernelStudy.Proc.Info
import KernelStudy.Proc.Mounts
