import PagedKernel.Image.Builder
import PagedKernel.Lock
import PagedKernel.Thread
import PagedKernel.User.Bench
import PagedKernel.Proofs.Ensures
import PagedKernel.Proofs.Memory.Ledger
import PagedKernel.Proofs.Memory.Mapping
import PagedKernel.Proofs.Memory.View
import PagedKernel.Proofs.Memory.Copy
import PagedKernel.Proofs.Memory.Checked
import PagedKernel.Proofs.Memory.Edited
import PagedKernel.Proofs.Memory.Pages
import PagedKernel.Proofs.Memory.Spaces
import PagedKernel.Proofs.Image
import PagedKernel.Proofs.Loader.Fill
import PagedKernel.Proofs.Loader.Arguments
import PagedKernel.Proofs.Loader.Loaded
import PagedKernel.Proofs.Loader.Load
import PagedKernel.Proofs.Files
import PagedKernel.Proofs.Registers
import PagedKernel.Proofs.Pid
import PagedKernel.Proofs.Kernel.Sound
import PagedKernel.Proofs.Kernel.Spawn
import PagedKernel.Proofs.Kernel.Serves
import PagedKernel.Proofs.Kernel.FileCalls
import PagedKernel.Proofs.Kernel.Lifecycle
import PagedKernel.Proofs.Kernel.Ends
import PagedKernel.Proofs.Kernel.Dispatch
import PagedKernel.Proofs.Kernel.Moves
import PagedKernel.Proofs.Kernel.World
import PagedKernel.Proofs.Kernel.Isolation
import PagedKernel.Proofs.Kernel.Syscall
import PagedKernel.Proofs.User.Moves
import PagedKernel.Proofs.User.Schedule
import PagedKernel.Proofs.Loader.Obstacle
import PagedKernel.Proofs.Loader.Refusal
import PagedKernel.Proofs.Kernel.HistoryMatches
import PagedKernel.Proofs.Kernel.Family
import PagedKernel.Proofs.Kernel.Joins
import PagedKernel.Proofs.User.GivenBack
import PagedKernel.Proofs.Kernel.Counts
import PagedKernel.Proofs.Kernel.Exec
import PagedKernel.Proofs.Kernel.Power
import PagedKernel.Proofs.Kernel.DeskWork
import PagedKernel.Proofs.Kernel.FreeDescriptors
import PagedKernel.Proofs.Kernel.Handles
import PagedKernel.Proofs.Kernel.AddressSpaces
import PagedKernel.Proofs.Image.Acceptance
import PagedKernel.Proofs.Loader.Built
import PagedKernel.Proofs.Kernel.Arguments
import PagedKernel.Proofs.Agree
import PagedKernel.Proofs.Memory.Twin
import PagedKernel.Proofs.User.Paths
import PagedKernel.Proofs.Loader.Reports
import PagedKernel.Proofs.Loader.Twin
import PagedKernel.Proofs.Kernel.Placement
import PagedKernel.Proofs.Kernel.Lives
import PagedKernel.Proofs.Kernel.Marks
import PagedKernel.Proofs.Files.Footprint
import PagedKernel.Proofs.Files.Renumber
import PagedKernel.Proofs.Kernel.SameChange
import PagedKernel.Proofs.Kernel.Commute
import PagedKernel.Proofs.Files.Stream
import PagedKernel.Proofs.Kernel.Transfers
import PagedKernel.Proofs.Kernel.Reading
import PagedKernel.Proofs.Kernel.Wiring
import PagedKernel.Proofs.Kernel.Streams
import PagedKernel.Proofs.Kernel.Sessions
import PagedKernel.Proofs.Kernel.Writing
import PagedKernel.Proofs.Kernel.Outage
import PagedKernel.Proofs.Memory.Spelling
import PagedKernel.Proofs.Kernel.Accessors
import PagedKernel.Proofs.User.Strings
import PagedKernel.Proofs.Kernel.Decoding
import PagedKernel.Proofs.Kernel.Wraparound
import PagedKernel.Proofs.Kernel.Growth
import PagedKernel.Proofs.Memory.FrameQueue
import PagedKernel.Proofs.Image.Limited
import PagedKernel.Proofs.Files.Store
import PagedKernel.Proofs.Config
import PagedKernel.Proofs.Kernel.ArgumentArea
