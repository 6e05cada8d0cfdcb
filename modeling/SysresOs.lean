import SysresOs.Lib.Outcome
import SysresOs.Lib.Ring
import SysresOs.Lib.Trace
import SysresOs.Proc.State
import SysresOs.Proc.Scheduler
import SysresOs.Proc.Syscall
import SysresOs.Proc.Machine
import SysresOs.Proc.Effect
import SysresOs.Proc.RunQueue
import SysresOs.Proc.View
import SysresOs.Proc.Move
import SysresOs.Proc.Channel
import SysresOs.Proc.Pending
import SysresOs.Proc.Stops
import SysresOs.Proc.Exchange
import SysresOs.Proc.Server
import SysresOs.Proc.Payload
import SysresOs.Proc.Family
import SysresOs.Proc.Tree
import SysresOs.Proc.Reaping
import SysresOs.Lib.Bits
import SysresOs.Lib.BitField
import SysresOs.Lib.Loop
import SysresOs.Lib.ByteMemory
import SysresOs.Memory.Alloc
import SysresOs.Memory.Heap
import SysresOs.Proc.Ancestry
import SysresOs.Proc.Orphan
import SysresOs.Proc.Core
import SysresOs.Proc.Suspended
import SysresOs.Proc.Priority
import SysresOs.Proc.Choice
import SysresOs.Memory.Mmu
import SysresOs.Memory.Descriptor
import SysresOs.Memory.Tables
import SysresOs.Memory.Translation
import SysresOs.Memory.Zone
import SysresOs.Memory.Encoding
import SysresOs.Memory.Binding
import SysresOs.Memory.PagePool
import SysresOs.Memory.Conservation
import SysresOs.Memory.Paging
import SysresOs.Memory.ZoneTables
import SysresOs.Memory.Copying
import SysresOs.Memory.ForkedPage
import SysresOs.Memory.BootPool
import SysresOs.Memory.Release
import SysresOs.Proc.KernelHeap
import SysresOs.Memory.SharedWrite
import SysresOs.Memory.Identity
import SysresOs.Memory.Boot
import SysresOs.Memory.Fork
import SysresOs.Memory.Forkable
import SysresOs.Memory.Stray
import SysresOs.Memory.Footprint
import SysresOs.Memory.Exit
import SysresOs.Memory.Undo
import SysresOs.Memory.Bystander
import SysresOs.Memory.Restore
import SysresOs.Memory.Inherit
import SysresOs.Memory.Tiling
import SysresOs.Memory.Calls
import SysresOs.Memory.Session
import SysresOs.Memory.Requests
import SysresOs.Memory.Shrink
import SysresOs.Files.Filesystem
import SysresOs.Files.Words
import SysresOs.Files.FreeList
import SysresOs.Files.Image
import SysresOs.Files.Transfer
import SysresOs.Files.Reading
import SysresOs.Files.Walk
import SysresOs.Files.Lookup
import SysresOs.Files.Malformed
import SysresOs.Files.Through
import SysresOs.Files.Descriptors
import SysresOs.Files.HeapUse
import SysresOs.Files.Remote
import SysresOs.Files.Manager
import SysresOs.Lib.AArch64
import SysresOs.Lib.AddressSpace
import SysresOs.Lib.FlatMemory
import SysresOs.Trap.Vectors
import SysresOs.Trap.Fault
import SysresOs.Proc.Context
import SysresOs.Trap.Switch
import SysresOs.Trap.Resume
import SysresOs.Memory.UserCopy
import SysresOs.Trap.Dispatch
import SysresOs.Trap.Delivery
import SysresOs.Text.Strings
import SysresOs.Lib.Numeral
import SysresOs.Text.Uart
import SysresOs.Text.LineInput
import SysresOs.Text.Printf
import SysresOs.Text.UartPrintf
import SysresOs.Text.IoPrintf
import SysresOs.Trap.Nested
import SysresOs.Memory.TableRoot
import SysresOs.Proc.Roots
import SysresOs.Memory.Messages
import SysresOs.Memory.Running
import SysresOs.Memory.Resolution
import SysresOs.Memory.Leak
import SysresOs.Lib.Sharing
import SysresOs.Memory.Spaces
import SysresOs.Memory.SpaceFork
import SysresOs.Memory.SpaceBoot
import SysresOs.Memory.Users
import SysresOs.Memory.Isolation
import SysresOs.Memory.Guarantees
import SysresOs.Lib.FileStore
import SysresOs.Lib.Forest
import SysresOs.Files.Sessions
import SysresOs.Files.Growth
import SysresOs.Files.Coherence
import SysresOs.Files.Listing
import SysresOs.Lib.Rotation
import SysresOs.Proc.Turns
import SysresOs.Proc.Numbering
import SysresOs.Text.Shell
