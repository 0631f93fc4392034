import Egos.Lib.Words
import Egos.Lib.Bits
import Egos.Lib.Ones
import Egos.Lib.Rounds
import Egos.Lib.Forest
import Egos.Lib.Outcome
import Egos.Lib.Strings
import Egos.Lib.Ring
import Egos.Treedisk.Ops
import Egos.Treedisk.FreeList
import Egos.Treedisk.Walk
import Egos.Treedisk.Grow
import Egos.Treedisk.Files
import Egos.Treedisk.Write
import Egos.Treedisk.Create
import Egos.Treedisk.Runs
import Egos.Treedisk.Exhaust
import Egos.Treedisk.Sizes
import Egos.Treedisk.Full
import Egos.Grass.Kernel
import Egos.Grass.Step
import Egos.Lib.Runs
import Egos.Earth.Memory
import Egos.Earth.Copies
import Egos.Earth.Machine
import Egos.Earth.Accounts
import Egos.Earth.Allocator
import Egos.Earth.Identity
import Egos.Earth.Traps
import Egos.Earth.Sound
import Egos.Earth.Tables
import Egos.Earth.Spaces
import Egos.Earth.Isolation
import Egos.Grass.Effects
import Egos.Grass.Failures
import Egos.Grass.Rendezvous
import Egos.Grass.Stacks
import Egos.Lib.Turns
import Egos.Grass.Fairness
import Egos.Grass.Delivery
import Egos.Grass.Once
import Egos.Apps.System
import Egos.Apps.Moves
import Egos.Apps.Standing
import Egos.Apps.DeadWaits
import Egos.Apps.Queries
import Egos.Apps.Rounds
import Egos.Apps.Replies
import Egos.Apps.Directory
import Egos.Apps.Shell
import Egos.Elf.Load
import Egos.Elf.Image
import Egos.Elf.Pages
import Egos.Elf.Segment
import Egos.Apps.Process
import Egos.Apps.Commands
import Egos.Apps.Lines
import Egos.Apps.Scan
import Egos.Earth.Tty
import Egos.Earth.Timer
import Egos.Macb.Transmit
import Egos.Macb.Serve
import Egos.Macb.Receive
import Egos.Macb.Hops
import Egos.Macb.Frames
import Egos.Macb.Fifo
import Egos.Uip.Httpd
import Egos.Uip.Calls
import Egos.Uip.Arp
import Egos.Uip.Packet
import Egos.Uip.Tcp
import Egos.Uip.Progress
import Egos.Uip.Stack
import Egos.Uip.Segments
import Egos.Uip.Steps
import Egos.Uip.Endless
import Egos.Uip.Ping
import Egos.Uip.Patience
import Egos.Uip.Contract
import Egos.Uip.Delivery
import Egos.Uip.Sending
import Egos.Uip.Receipts
import Egos.Uip.Closings
import Egos.Uip.Link
import Egos.Uip.Agreement
import Egos.Apps.WorkDir
import Egos.Apps.Service
import Egos.Apps.Parties
import Egos.Apps.Notices
import Egos.Apps.Prompts
import Egos.Apps.Spawning
import Egos.Apps.Endings
import Egos.Apps.Lasting
