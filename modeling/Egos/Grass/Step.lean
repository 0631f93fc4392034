import Egos.Grass.Kernel

/-! The steps of the whole machine as the kernel sees them, with the messages they pass. -/

namespace Egos.Grass

/-- Copies bytes over the beginning of a message's content. -/
def Content.load (content : Content) (bytes : List UInt8) : Content :=
  Vector.ofFn fun k : Fin syscallMsgLen => bytes[k.val]?.getD content[k]

/-- The user-space half of a send, which does not trap when the message is too long. -/
def sysSend (page : Syscall) (receiver : Int) (msg : List UInt8) : Option Syscall :=
  if msg.length > syscallMsgLen then none
  else some { page with
    type := .send
    msg := { page.msg with receiver := receiver, content := Content.load page.msg.content msg } }

/-- The user-space half of a receive, where no positive pid stands for any sender. -/
def sysRecv (page : Syscall) (sender : Int) : Fallible Syscall := do
  if sender > 0 then
    assert (sender < (maxNprocess : Int)) "[file:grass/syscall.c, line:83]"
    return { page with type := .recv, msg := { page.msg with sender := sender } }
  else return { page with type := .recv, msg := { page.msg with sender := 0 } }

/-- The user-space half of a yield. -/
def sysYield (page : Syscall) : Syscall := { page with type := .yield }

/-- What makes the machine take a step. -/
inductive Label where
  -- System calls of the current process.
  | send (receiver : Int) (msg : List UInt8)
  | recv (sender : Int)
  | yield
  -- A timer interrupt, where the flag says that Ctrl+C has been typed.
  | timer (ttyIntr : Bool)
  -- Functions of the kernel that the process server calls.
  | alloc
  | setReady (pid : Int)
  | free (pid : Int)

/-- What a step shows of the messages that pass through the machine. -/
inductive Event where
  -- A process issued a send with this message in its page.
  | sent (process : Int) (message : SysMsg)
  -- A receive of a process returned with this message in its page.
  | received (process expected : Int) (message : SysMsg)
  -- Ctrl+C sent a process to its exit.
  | killed (process : Int)
  deriving DecidableEq

/-- Lets the process that was switched to return to user space. -/
def resume (kernel : Kernel) : Kernel × List Event :=
  let idx := kernel.procCurrIdx
  match kernel.context idx with
  | .receiving expected =>
    (kernel.setContext idx .user, [.received kernel.currPid expected (kernel.page idx).msg])
  | _ => (kernel.setContext idx .user, [])

/-- A software interrupt of the current process, which has filled its system call page. -/
def trap (kernel : Kernel) (page : Syscall) (context : Context) :
    Fallible (Kernel × List Event) := do
  let idx := kernel.procCurrIdx
  -- Ctrl+C at this interrupt leaves it pending, so the call is handled all the same.
  let (kernel, _) ← intrEntry ((kernel.setPage idx page).setContext idx context) .soft false
  return resume kernel

/-- One step of the machine. -/
def step (kernel : Kernel) : Label → Fallible (Kernel × List Event)
  | .send receiver msg =>
    match sysSend (kernel.page kernel.procCurrIdx) receiver msg with
    | none => pure (kernel, [])
    | some page => do
      let (after, events) ← trap kernel page .sending
      return (after, .sent kernel.currPid { page.msg with sender := kernel.currPid } :: events)
  | .recv sender => do
    let page ← sysRecv (kernel.page kernel.procCurrIdx) sender
    trap kernel page (.receiving page.msg.sender)
  | .yield => trap kernel (sysYield (kernel.page kernel.procCurrIdx)) .user
  | .timer ttyIntr => do
    let (after, killed) ← intrEntry kernel .timer ttyIntr
    if killed then return (after, [.killed kernel.currPid]) else return resume after
  | .alloc => do return ((← procAlloc kernel).2, [])
  | .setReady pid => do return (← procSetReady kernel pid, [])
  | .free pid => do return (← procFree kernel pid, [])

end Egos.Grass
