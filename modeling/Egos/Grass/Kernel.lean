import Egos.Lib.Words
import Mathlib.Data.Fin.Basic
import Mathlib.Logic.Function.Basic

/-! The grass kernel: the process table, message passing and the default scheduler. -/

namespace Egos.Grass

/-- The size of the process table. -/
abbrev maxNprocess : Nat := 16

/-- The process table is not empty. -/
instance : @NeZero Nat Zero.ofOfNat0 maxNprocess := ⟨by decide⟩

/-- An index into the process table. -/
abbrev Slot := Fin maxNprocess

/-- Bytes in the content of a message. -/
abbrev syscallMsgLen : Nat := 1024

/-- The content of a message. -/
abbrev Content := Buffer syscallMsgLen

/-- The pid of the process server. -/
abbrev gpidProcess : Int := 1

/-- The pid of the shell. -/
abbrev gpidShell : Int := 5

/-- The first pid of user applications. -/
abbrev gpidUserStart : Int := 6

/-- The status of a process. -/
inductive Status where
  | unused
  -- Allocated and waiting for its executable to be loaded.
  | loading
  -- Loaded and waiting to run for the first time.
  | ready
  | running
  | runnable
  | waitToSend
  | waitToRecv
  | sleeping
  deriving DecidableEq, Repr

/-- The entry of a process in the process table. -/
structure Process where
  pid : Int
  status : Status
  -- Used when waiting to receive a message.
  fromSenderPid : Int
  -- Used when waiting to send a message.
  toReceiverPid : Int
  deriving DecidableEq, Repr

/-- A message together with both of its ends. -/
structure SysMsg where
  sender : Int
  receiver : Int
  content : Content
  deriving DecidableEq

/-- The type of a system call. -/
inductive SyscallType where
  | unused
  | recv
  | send
  | yield
  deriving DecidableEq, Repr

/-- The system call page, of which every process owns a private copy. -/
structure Syscall where
  type : SyscallType
  msg : SysMsg
  retval : Int
  deriving DecidableEq

/-- Where a process continues when the scheduler resumes it. -/
inductive Context where
  | user
  | sending
  -- Inside a receive that named an expected sender, or zero for any sender.
  | receiving (expected : Int)
  deriving DecidableEq, Repr

/-- The kernel's state and the memory it reads and writes for the processes. -/
structure Kernel where
  procSet : Slot → Process
  procCurrIdx : Slot
  page : Slot → Syscall
  context : Slot → Context

/-- A system call page of null bytes. -/
def Syscall.zero : Syscall := ⟨.unused, ⟨0, 0, Buffer.zero _⟩, 0⟩

/-- Kernel code either finishes or halts the machine with the message of a fatal error. -/
abbrev Fallible := Except String

/-- Halts the machine unless a condition holds, with a message or the place of the assertion. -/
def assert (condition : Prop) [Decidable condition] (message : String) : Fallible Unit :=
  if condition then pure () else throw ("[ASSERT FAILED]" ++ message)

/-- Translates a pid to an index in the process table. -/
def pid2idx (pid : Int) : Fallible Slot :=
  if inside : 1 ≤ pid ∧ pid ≤ maxNprocess then
    pure ⟨(pid - 1).toNat, by simp only [maxNprocess] at inside ⊢; omega⟩
  else throw "pid2idx: invalid pid"

/-- Translates an index in the process table to a pid. -/
def idx2pid (idx : Slot) : Int := idx.val + 1

namespace Kernel

/-- The table entry of the current process. -/
def curr (kernel : Kernel) : Process := kernel.procSet kernel.procCurrIdx

/-- The pid of the current process. -/
def currPid (kernel : Kernel) : Int := kernel.curr.pid

/-- Replaces one entry of the process table. -/
def setProc (kernel : Kernel) (idx : Slot) (process : Process) : Kernel :=
  { kernel with procSet := Function.update kernel.procSet idx process }

/-- Replaces the status of one entry of the process table. -/
def setStatus (kernel : Kernel) (idx : Slot) (status : Status) : Kernel :=
  kernel.setProc idx { kernel.procSet idx with status := status }

/-- Replaces the system call page of one process. -/
def setPage (kernel : Kernel) (idx : Slot) (page : Syscall) : Kernel :=
  { kernel with page := Function.update kernel.page idx page }

/-- Replaces the message in the system call page of one process. -/
def setMsg (kernel : Kernel) (idx : Slot) (msg : SysMsg) : Kernel :=
  kernel.setPage idx { kernel.page idx with msg := msg }

/-- Replaces the point where one process continues. -/
def setContext (kernel : Kernel) (idx : Slot) (context : Context) : Kernel :=
  { kernel with context := Function.update kernel.context idx context }

end Kernel

/-- Sets the status of the process with a pid. -/
def procSetStatus (kernel : Kernel) (pid : Int) (status : Status) : Fallible Kernel := do
  let idx ← pid2idx pid
  assert (pid = (kernel.procSet idx).pid) "[file:grass/process.c, line:18]"
  return kernel.setStatus idx status

/-- Lets a loaded process run for the first time. -/
def procSetReady (kernel : Kernel) (pid : Int) : Fallible Kernel := procSetStatus kernel pid .ready

/-- Marks a process as running. -/
def procSetRunning (kernel : Kernel) (pid : Int) : Fallible Kernel :=
  procSetStatus kernel pid .running

/-- Marks a process as runnable. -/
def procSetRunnable (kernel : Kernel) (pid : Int) : Fallible Kernel :=
  procSetStatus kernel pid .runnable

/-- Allocates the first unused slot, whose process will start with fresh memory. -/
def procAlloc (kernel : Kernel) : Fallible (Int × Kernel) :=
  match (List.finRange maxNprocess).find? fun i => (kernel.procSet i).status = .unused with
  | some i =>
    -- The stale fields of the slot's last process stay behind.
    let process := { kernel.procSet i with pid := idx2pid i, status := .loading }
    pure (idx2pid i, ((kernel.setProc i process).setPage i .zero).setContext i .user)
  | none => throw "proc_alloc: reach the limit of 16 processes"

/-- Frees the slot of one process, or those of all user applications. -/
def procFree (kernel : Kernel) (pid : Int) : Fallible Kernel :=
  if pid ≠ -1 then procSetStatus kernel pid .unused
  else pure { kernel with procSet := fun i =>
    if (kernel.procSet i).pid ≥ gpidUserStart ∧ (kernel.procSet i).status ≠ .unused
    then { kernel.procSet i with status := .unused } else kernel.procSet i }

/-- The scheduler picks processes with one of these statuses. -/
def Status.active : Status → Bool
  | .ready | .running | .runnable => true
  | _ => false

/-- The slot some steps after the current one, around the table. -/
def Kernel.slotAfter (kernel : Kernel) (i : Nat) : Slot :=
  ⟨(kernel.procCurrIdx.val + i) % maxNprocess, Nat.mod_lt _ (by decide)⟩

/-- The next slot with an active process, looking at the current one last. -/
def Kernel.nextIdx (kernel : Kernel) : Option Slot :=
  ((List.range' 1 maxNprocess).map kernel.slotAfter).find? fun i =>
    (kernel.procSet i).status.active

/-- Makes the current process runnable if it has been running. -/
def Kernel.pause (kernel : Kernel) : Fallible Kernel :=
  if kernel.curr.status = .running then procSetRunnable kernel kernel.currPid else pure kernel

/-- Schedules the next process. -/
def procYield (kernel : Kernel) : Fallible Kernel := do
  let some nextIdx := kernel.nextIdx | throw "proc_yield: no runnable process"
  let kernel := { (← kernel.pause) with procCurrIdx := nextIdx }
  assert (kernel.currPid > 0 ∧ kernel.currPid ≤ (maxNprocess : Int))
    "proc_yield: invalid pid to switch"
  -- A process that is ready enters its code, any other one returns from its own yield.
  procSetRunning kernel kernel.currPid

/-- The slot whose private pages belong to a pid. -/
def mmuSlot (pid : Int) : Fallible Slot := do
  assert (pid > 0 ∧ pid ≤ (maxNprocess : Int)) "pid is unexpected"
  pid2idx pid

/-- Copies the message in one process's system call page to that of another. -/
def msgcpy (kernel : Kernel) (srcPid dstPid : Int) : Fallible Kernel := do
  let src ← mmuSlot srcPid
  let dst ← mmuSlot dstPid
  return kernel.setMsg dst (kernel.page src).msg

/-- Delivers the current process's message, or blocks it until the receiver takes it. -/
def procSend (kernel : Kernel) : Fallible Kernel := do
  let currIdx := kernel.procCurrIdx
  let currPid := kernel.currPid
  let kernel := kernel.setMsg currIdx { (kernel.page currIdx).msg with sender := currPid }
  let receiver := (kernel.page currIdx).msg.receiver
  let recvIdx ← pid2idx receiver
  assert ((kernel.procSet recvIdx).pid = receiver) "[file:grass/syscall.c, line:181]"
  if (kernel.procSet recvIdx).status ≠ .waitToRecv ∨
      ((kernel.procSet recvIdx).fromSenderPid ≠ currPid ∧
        (kernel.procSet recvIdx).fromSenderPid ≠ 0) then
    let blocked := { kernel.curr with status := .waitToSend, toReceiverPid := receiver }
    procYield (kernel.setProc currIdx blocked)
  else do
    let kernel ← msgcpy kernel currPid receiver
    let kernel ← procSetRunnable kernel receiver
    procYield kernel

/-- A slot's process is blocked on sending to a pid. -/
def Kernel.offers (kernel : Kernel) (idx : Slot) (receiver : Int) : Bool :=
  (kernel.procSet idx).status = .waitToSend ∧ (kernel.procSet idx).toReceiverPid = receiver

/-- The last process in the table that is blocked on sending to a pid, or `-1`. -/
def Kernel.anySender (kernel : Kernel) (receiver : Int) : Int :=
  (List.finRange maxNprocess).foldl
    (fun sender i => if kernel.offers i receiver then (kernel.procSet i).pid else sender) (-1)

/-- The blocked sender that a receive takes its message from, or `-1`. -/
def Kernel.findSender (kernel : Kernel) (expSender receiver : Int) : Fallible Int :=
  -- Zero stands for any sender.
  if expSender = 0 then pure (kernel.anySender receiver)
  else do
    let expIdx ← pid2idx expSender
    pure (if kernel.offers expIdx receiver then expSender else -1)

/-- Takes the message of a blocked sender, or blocks the current process until there is one. -/
def procRecv (kernel : Kernel) : Fallible Kernel := do
  let currIdx := kernel.procCurrIdx
  let currPid := kernel.currPid
  let expSender := (kernel.page currIdx).msg.sender
  assert (expSender ≥ 0 ∧ expSender < (maxNprocess : Int)) "[file:grass/syscall.c, line:206]"
  let kernel := kernel.setProc currIdx { kernel.curr with fromSenderPid := expSender }
  let sender ← kernel.findSender expSender currPid
  if sender = -1 then procYield (kernel.setStatus currIdx .waitToRecv)
  else do
    let kernel ← msgcpy kernel sender currPid
    let kernel ← procSetRunnable kernel sender
    procYield kernel

/-- Handles the system call that the current process left in its page. -/
def procSyscall (kernel : Kernel) : Fallible Kernel :=
  let page := kernel.page kernel.procCurrIdx
  let kernel := kernel.setPage kernel.procCurrIdx { page with retval := 0, type := .unused }
  match page.type with
  | .recv => procRecv kernel
  | .send => procSend kernel
  | .yield => procYield kernel
  | .unused => throw "proc_syscall: got unknown syscall type=0"

/-- The kinds of interrupts that reach the kernel. -/
inductive Interrupt where
  | soft
  | timer
  deriving DecidableEq, Repr

/-- Handles an interrupt, and says whether Ctrl+C sends the current process to its exit. -/
def intrEntry (kernel : Kernel) (id : Interrupt) (ttyIntr : Bool) : Fallible (Kernel × Bool) :=
  -- Kernel processes are not interrupted since their input and output can be stateful.
  if id = .timer ∧ kernel.currPid < gpidShell then pure (kernel, false)
  else if kernel.currPid ≥ gpidUserStart ∧ ttyIntr then pure (kernel, true)
  else match id with
    | .soft => do return (← procSyscall kernel, false)
    | .timer => do return (← procYield kernel, false)

end Egos.Grass
