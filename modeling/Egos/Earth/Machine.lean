import Egos.Earth.Memory
import Egos.Grass.Step

/-! The kernel, the memory and the loader of the process server as one machine. -/

namespace Egos.Earth

open Egos.Grass

/-- Where the loader maps the pages of a process, in the order in which it maps them. -/
def execAddrOf (i : Nat) : Nat :=
  if i < appsSize / pageSize then appsEntry + i * pageSize
  else appsArg + (i - appsSize / pageSize) * pageSize

/-- How far the process server has come in loading a program. -/
inductive Job where
  | idle
  -- A slot is allocated, some pages are mapped, and a page that is not yet mapped may be in hand.
  | loading (pid : Int) (mapped : Nat) (hand : Option Nat)
  deriving DecidableEq

namespace Job

/-- The page that has been allocated and is not yet mapped. -/
def hand : Job → Option Nat
  | .idle => none
  | .loading _ _ hand => hand

/-- The number of pages that have been mapped. -/
def mapped : Job → Nat
  | .idle => 0
  | .loading _ mapped _ => mapped

/-- The loader makes system calls only where it reads the executable. -/
def calls : Job → Bool
  | .idle => true
  | .loading _ mapped hand => hand = none ∧ (mapped = 0 ∨ mapped = appsSize / pageSize)

/-- The loader is about to allocate a page. -/
def wantsPage : Job → Bool
  | .loading _ mapped none => mapped < appsNpages
  | _ => false

/-- The loader is about to map a page. -/
def holdsPage : Job → Bool
  | .loading _ _ (some _) => true
  | _ => false

/-- The loader has mapped all pages. -/
def finished : Job → Bool
  | .loading _ mapped none => mapped = appsNpages
  | _ => false

end Job

/-- The machine as the process server uses it. -/
structure Machine where
  kernel : Kernel
  memory : Memory
  job : Job
  -- The rows of the table of saved stacks that have been used so far.
  stackRows : List Nat

/-- What makes the machine take a step. -/
inductive Call where
  -- A system call or a timer interrupt.
  | trap (label : Label)
  -- The current process changes a page of memory.
  | store (addr : Nat) (page : Page)
  -- Functions that the process server calls.
  | procAlloc
  | mmuAlloc
  | mmuMap
  | procSetReady
  | procFree (pid : Int)

/-- Runs a function of the memory. -/
def onMemory {α : Type} (program : MemM α) (memory : Memory) : Fallible (α × Memory) :=
  match program memory with
  | .ok value after => pure (value, after)
  | .error message _ => throw message

/-- The processes whose pages a message is copied between. -/
def copiedBetween (kernel : Kernel) : Label → List Int
  | .send receiver _ =>
    match pid2idx receiver with
    | .ok idx =>
      if (kernel.procSet idx).status = .waitToRecv ∧
          ((kernel.procSet idx).fromSenderPid = kernel.currPid ∨
            (kernel.procSet idx).fromSenderPid = 0) then [kernel.currPid, receiver] else []
    | .error _ => []
  | .recv sender =>
    match kernel.findSender (max sender 0) kernel.currPid with
    | .ok found => if found = -1 then [] else [found, kernel.currPid]
    | .error _ => []
  | _ => []

/-- An interrupt that the kernel does nothing about. -/
def ignored (kernel : Kernel) : Label → Bool
  | .timer ttyIntr =>
    kernel.currPid < gpidShell ∨ (kernel.currPid ≥ gpidUserStart ∧ ttyIntr)
  | _ => false

/-- The processes that a trap switches to, one after the other. -/
def switches (kernel after : Kernel) (label : Label) : List Int :=
  if ignored kernel label then [] else copiedBetween kernel label ++ [after.currPid]

/-- The processes whose pages are freed along with a pid. -/
def freedPids (kernel : Kernel) (pid : Int) : List Int :=
  if pid ≠ -1 then [pid]
  else ((List.finRange maxNprocess).filter fun i =>
    (kernel.procSet i).pid ≥ gpidUserStart ∧ (kernel.procSet i).status ≠ .unused).map fun i =>
      (kernel.procSet i).pid

namespace Machine

/-- One step of the machine. -/
def step (machine : Machine) : Call → Fallible (Machine × List Event)
  | .trap label => do
    let (kernel, events) ← Grass.step machine.kernel label
    let (_, memory) ← onMemory ((switches machine.kernel kernel label).forM softTlbSwitch)
      machine.memory
    -- The stacks are saved under the pid at the entry and restored under the pid at the exit,
    -- unless the scheduler enters the code of a process that runs for the first time.
    let entered := (machine.kernel.procSet kernel.procCurrIdx).status = .ready
    let restored := if entered then [] else [kernel.currPid.toNat]
    let stackRows := restored ++ machine.kernel.currPid.toNat :: machine.stackRows
    return ({ machine with kernel, memory, stackRows }, events)
  | .store addr page =>
    return ({ machine with
      memory := { machine.memory with ram := Function.update machine.memory.ram addr page } }, [])
  | .procAlloc => do
    let (pid, kernel) ← procAlloc machine.kernel
    return ({ machine with kernel, job := .loading pid 0 none }, [])
  | .mmuAlloc =>
    match machine.job with
    | .loading pid mapped none => do
      let (addr, memory) ← onMemory mmuAlloc machine.memory
      return ({ machine with memory, job := .loading pid mapped (some addr) }, [])
    | _ => throw "the loader has no page to allocate"
  | .mmuMap =>
    match machine.job with
    | .loading pid mapped (some addr) => do
      let (_, memory) ← onMemory (softTlbMap pid (execAddrOf mapped) addr) machine.memory
      return ({ machine with memory, job := .loading pid (mapped + 1) none }, [])
    | _ => throw "the loader has no page to map"
  | .procSetReady =>
    match machine.job with
    | .loading pid _ _ => do
      let kernel ← procSetReady machine.kernel pid
      return ({ machine with kernel, job := .idle }, [])
    | .idle => throw "the loader has no process to start"
  | .procFree pid => do
    let (_, memory) ← onMemory ((freedPids machine.kernel pid).forM softTlbFree) machine.memory
    let kernel ← procFree machine.kernel pid
    return ({ machine with kernel, memory }, [])

/-- The process server is the current process. -/
abbrev serves (machine : Machine) : Prop := machine.kernel.currPid = gpidProcess

/-- What the processes do: the process server spawns and frees the others, as its code does. -/
def Permitted (machine : Machine) : Call → Prop
  -- A message that is too long does not reach the kernel.
  | .trap (.send _ msg) => msg.length ≤ syscallMsgLen ∧ (machine.serves → machine.job.calls)
  | .trap (.recv _) | .trap .yield => machine.serves → machine.job.calls
  | .trap (.timer _) => True
  | .trap _ => False
  | .store _ _ => True
  | .procAlloc => machine.serves ∧ machine.job = .idle
  | .mmuAlloc => machine.serves ∧ machine.job.wantsPage
  | .mmuMap => machine.serves ∧ machine.job.holdsPage
  | .procSetReady => machine.serves ∧ machine.job.finished
  -- A process exits while it is live, and the process server itself never does.
  | .procFree pid => machine.serves ∧ machine.job = .idle ∧ pid ≠ gpidProcess ∧
    (pid = -1 ∨ ∃ idx, pid = idx2pid idx ∧ (machine.kernel.procSet idx).status ≠ .unused)

/-- Whether the processes do something can be decided. -/
instance (machine : Machine) : (call : Call) → Decidable (machine.Permitted call)
  | .trap (.send _ _) | .trap (.recv _) | .trap .yield | .procAlloc | .mmuAlloc | .mmuMap
  | .procSetReady | .procFree _ => by unfold Permitted; infer_instance
  | .trap (.timer _) | .store _ _ => isTrue trivial
  | .trap .alloc | .trap (.setReady _) | .trap (.free _) => isFalse id

/-- The memory when the kernel enters the process server, whose six pages come first. -/
def bootMemory (ram : Nat → Page) : Memory where
  bitmap := (Buffer.zero _).setIfInBounds 0 63
  ram := ram
  appPages row i :=
    if row = 1 then ⟨freeMemStart + i * pageSize, execAddrOf i⟩ else .null
  currVmPid := gpidProcess
  rows := []

end Machine

end Egos.Earth
