import Egos.Apps.Process
import Egos.Apps.System

/-! The process server and the shell as programs, on top of the whole machine. -/

namespace Egos.Apps

open Egos.Grass
open Egos.Treedisk (signed)

/-- The type of a request of a process that ends. -/
abbrev procExit : Nat := 1

/-- The type of a request to sleep. -/
abbrev procSleep : Nat := 2

/-- The type of a request to end all user applications. -/
abbrev procKillall : Nat := 3

/-- The types of the requests that user applications make. -/
def Modest (type : Nat) : Prop := type = procExit ∨ type = procSleep

/-- The type of the reply to a command that has been spawned. -/
abbrev cmdOk : Nat := 0

/-- The type of the reply to a command that has not been spawned. -/
abbrev cmdError : Nat := 1

/-- The status of a successful reply of the directory server. -/
abbrev dirOk : Nat := 0

/-- The result of a directory query, given the content of its reply. -/
def dirResult (reply : Content) : Int := if reply.word 0 = dirOk then signed (reply.word 1) else -1

/-- A request asks for a program in the foreground, where a request without arguments finds
whatever lies in front of them. -/
def foreground (request : Content) (stale : UInt8) : Bool :=
  argvByte request stale (reqArgc request - 1) ≠ ampersand

/-- How far the process server has come in spawning a program. -/
inductive Stage where
  -- The first directory query is under way, and then has been answered.
  | askedBin
  | gotBin
  -- The second one, for the program itself.
  | askedApp
  | gotApp
  -- The program has a process and is being loaded.
  | loading
  | started
  deriving DecidableEq

/-- What the process server has just done. -/
inductive Desk where
  -- It is about to receive at the top of its main loop.
  | top
  -- It has issued that receive and handles the request next.
  | handling
  | spawning (number : Nat) (stage : Stage)
  -- It has freed the sender of an exit request.
  | freed (pid : Int)
  deriving DecidableEq

/-- What the shell has just done. -/
inductive Shell where
  | prompt
  -- It has sent a request for a program in the foreground or in the background.
  | asked (foreground : Bool)
  -- It has issued the receive of the reply.
  | answered (foreground : Bool)
  -- It has issued the receive of the termination notice.
  | waiting
  deriving DecidableEq

/-- What a message is about, which its bytes do not say. Requests are numbered by the shell. -/
inductive Letter where
  | request (number : Nat)
  | reply (number : Nat)
  | notice (pid : Int)
  | other
  deriving DecidableEq

/-- The whole machine with the variables of the process server and the shell. -/
structure Service where
  system : System
  appPid : Int
  shellWaiting : Bool
  desk : Desk
  shell : Shell
  -- How many requests the shell has sent.
  requests : Nat
  -- What the message in each slot's page is about.
  letter : Slot → Letter

/-- What the current program does next. -/
inductive Deed where
  -- The shell runs a command, and finds a byte in front of its arguments.
  | command (cmd : List UInt8) (stale : UInt8)
  -- The shell runs its own command, with whatever else is in the request.
  | killall (rest : List UInt8)
  -- The process server replies to a request, and finds a byte in front of its arguments.
  | answer (stale : UInt8)
  -- The process server tells the shell that a process has ended.
  | notify
  | act (act : Act)

/-- What a run shows of the programs that the shell has started. -/
inductive Note where
  -- The process server replied that a program runs, which the shell takes for one in the foreground
  -- or in the background.
  | spawned (pid : Int) (foreground : Bool)
  -- The process server freed a process, with or without a notice to the shell.
  | ended (pid : Int) (noticed : Bool)
  deriving DecidableEq

/-- The foreground program that was spawned last, as long as its end has not been reported. -/
def awaited (history : List Note) : Option Int :=
  history.foldl (fun awaited note =>
    match note with
    | .spawned pid true => some pid
    | .spawned _ false => awaited
    | .ended pid noticed => if noticed ∧ awaited = some pid then none else awaited) none

namespace Service

/-- The content of the message in the page of the current process. -/
def content (service : Service) : Content :=
  (service.system.kernel.page service.system.curr).msg.content

/-- The message that the shell sends for a command. -/
def message (cmd : List UInt8) : List UInt8 :=
  requestBytes procSpawn ((parseRequest cmd).2.getD 0) (parseRequest cmd).1

/-- The type of the reply to the request for a program. -/
def outcome (service : Service) : Nat :=
  match service.desk with
  | .spawning _ .started => cmdOk
  | _ => cmdError

/-- What the current program does in terms of the machine. -/
def actOf (service : Service) : Deed → Act
  | .command cmd _ => .tell processSlot (message cmd)
  | .killall rest => .tell processSlot (littleEndian procKillall ++ rest)
  | .answer _ => .tell shellSlot (littleEndian service.outcome)
  -- The buffer is that of the request, so the type of the reply is still that of the request.
  | .notify => .tell shellSlot (littleEndian procExit)
  | .act act => act

/-- What the message of the current program is about. -/
def letterOf (service : Service) : Deed → Letter
  | .command _ _ => .request (service.requests + 1)
  | .answer _ =>
    match service.desk with
    | .spawning number _ => .reply number
    | _ => .other
  | .notify => .notice service.appPid
  | .killall _ | .act (.tell _ _) | .act (.query _ _) | .act (.reply _) => .other
  | .act _ => service.letter service.system.curr

/-- What the messages in all pages are about after a step. -/
def carry (service : Service) (deed : Deed) (after : Kernel) : Slot → Letter :=
  let letter := Function.update service.letter service.system.curr (service.letterOf deed)
  match (service.system.label (service.actOf deed)).bind (service.system.copiedTo after) with
  | some idx =>
    match pid2idx (after.page idx).msg.sender with
    | .ok sender => Function.update letter idx (letter sender)
    | .error _ => letter
  | none => letter

/-- The number of the request whose message is in the page of the current process. -/
def number (service : Service) : Nat :=
  match service.letter service.system.curr with
  | .request number => number
  | _ => 0

/-- The process server handles a request that it has received. -/
def dispatch (service : Service) (accepted : Accepted) : Act → Option Service
  | .query server _ =>
    if accepted.request.word 0 = procSpawn ∧ server = dirSlot then
      some { service with desk := .spawning service.number .askedBin }
    else none
  | .free pid =>
    if accepted.request.word 0 = procExit ∧ pid = accepted.client then
      some { service with desk := .freed pid }
    else if accepted.request.word 0 = procKillall ∧ pid = -1 then
      some { service with desk := .top }
    else none
  -- Putting a process to sleep is left to be written, so the next round of the main loop comes.
  | .listen =>
    if accepted.request.word 0 = procSleep ∧ reqArgc accepted.request = 1 ∧
        gpidUserStart ≤ accepted.client then
      some { service with desk := .handling }
    else none
  | _ => none

/-- The process server replies to the request that it has taken. -/
def reply (service : Service) (stale : UInt8) : Option Service :=
  service.system.currThread.hold.map fun accepted =>
    { service with desk := .top, shellWaiting := foreground accepted.request stale }

/-- The process server goes on with spawning a program. -/
def spawn (service : Service) (number : Nat) : Stage → Deed → Option Service
  | .askedBin, .act .await => some { service with desk := .spawning number .gotBin }
  -- The inode of the directory is passed on whether it has been found or not.
  | .gotBin, .act (.query server _) =>
    if server = dirSlot then some { service with desk := .spawning number .askedApp } else none
  | .askedApp, .act .await => some { service with desk := .spawning number .gotApp }
  | .gotApp, .answer stale => if dirResult service.content < 0 then service.reply stale else none
  | .gotApp, .act .alloc =>
    if dirResult service.content < 0 then none
    else match procAlloc service.system.kernel with
      | .ok (pid, _) => some { service with desk := .spawning number .loading, appPid := pid }
      | .error _ => none
  -- Loading reads the blocks of the program one after the other.
  | .loading, .act (.query server _) => if server = fileSlot then some service else none
  | .loading, .act .await => some service
  | .loading, .act (.setReady pid) =>
    if pid = service.appPid then some { service with desk := .spawning number .started } else none
  | .started, .answer stale => service.reply stale
  | _, _ => none

/-- The process server tells the shell about the end of this process. -/
def notifies (service : Service) (pid : Int) : Bool :=
  service.shellWaiting ∧ service.appPid = pid

/-- The program of the process server. -/
def serve (service : Service) (deed : Deed) : Option Service :=
  match service.desk, deed with
  | _, .act (.timer _) => some service
  | .top, .act .listen => some { service with desk := .handling }
  | .handling, .act act =>
    match service.system.currThread with
    | ⟨some accepted, .quiet⟩ => service.dispatch accepted act
    | _ => none
  | .spawning number stage, deed => service.spawn number stage deed
  | .freed pid, .notify => if service.notifies pid then some { service with desk := .top } else none
  | .freed pid, .act .listen =>
    if service.notifies pid then none else some { service with desk := .handling }
  | _, _ => none

/-- The type of the reply in the page of the shell. -/
def replyType (service : Service) : Nat :=
  (service.system.kernel.page shellSlot).msg.content.word 0

/-- The shell is done with its last command, as far as its receives have returned. -/
def prompts (service : Service) : Bool :=
  match service.shell with
  | .prompt | .waiting => true
  | .asked _ => false
  | .answered foreground => ¬ (service.replyType = cmdOk ∧ foreground)

/-- The program of the shell. -/
def runShell (service : Service) : Deed → Option Service
  | .command cmd stale =>
    if service.prompts ∧ (parseRequest cmd).2.isSome then
      some { service with
        shell := .asked (foreground (service.system.content (message cmd)) stale)
        requests := service.requests + 1 }
    else none
  | .killall _ => if service.prompts then some { service with shell := .prompt } else none
  | .act (.heed _) =>
    match service.shell with
    | .asked foreground => some { service with shell := .answered foreground }
    | .answered _ => if service.prompts then none else some { service with shell := .waiting }
    | _ => none
  | .act (.timer _) => some service
  | _ => none

/-- The programs of the other servers and of user applications, which tell the process server that
they sleep or end. -/
def runOther (service : Service) : Deed → Option Service
  | .act (.tell receiver msg) =>
    if receiver = processSlot ∧
        (msg.take 4 = littleEndian procExit ∨ msg.take 4 = littleEndian procSleep) then some service
    else none
  | .act _ => some service
  | _ => none

/-- The variables of the programs once the current one has done something. -/
def program (service : Service) (deed : Deed) : Option Service :=
  if service.system.curr = processSlot then service.serve deed
  else if service.system.curr = shellSlot then service.runShell deed
  else service.runOther deed

/-- The shell takes the program it has asked for last for one in the foreground. -/
def Shell.isForeground : Shell → Bool
  | .asked foreground | .answered foreground => foreground
  | _ => false

/-- What a step shows of the programs that the shell has started. -/
def notes (service : Service) (deed : Deed) : List Note :=
  match service.desk, deed with
  | .spawning _ .started, .answer _ => [.spawned service.appPid (Shell.isForeground service.shell)]
  | .freed pid, .notify => [.ended pid true]
  | .freed pid, .act .listen =>
    if service.system.curr = processSlot then [.ended pid false] else []
  | _, _ => []

/-- One step of the machine and of the program that is current. -/
def step (service : Service) (deed : Deed) : Fallible (Service × List Note) :=
  match service.program deed with
  | none => throw "the program does not do this"
  | some planned => do
    let (system, _) ← service.system.step (service.actOf deed)
    return ({ planned with system := system, letter := service.carry deed system.kernel },
      service.notes deed)

/-- The programs when all servers have started, where the process server has not yet set whether
the shell is waiting. -/
def booted (shellWaiting : Bool) : Service where
  system := .booted
  appPid := 0
  shellWaiting := shellWaiting
  desk := .top
  shell := .prompt
  requests := 0
  letter := fun _ => .other

/-- A pid belongs to a process that has not been freed. -/
def Alive (service : Service) (pid : Int) : Prop :=
  ∃ idx, idx2pid idx = pid ∧ service.system.status idx ≠ .unused

/-- Whether a process is alive can be decided. -/
instance (service : Service) (pid : Int) : Decidable (service.Alive pid) :=
  inferInstanceAs (Decidable (∃ idx, idx2pid idx = pid ∧ service.system.status idx ≠ .unused))

/-- Steps in which the programs do what they are allowed to do. -/
def Steps (permits : Service → Deed → Prop) (service : Service) (deed : Deed) (next : Service)
    (shown : List Note) : Prop :=
  (service.system.Allowed (service.actOf deed) ∧ permits service deed) ∧
    service.step deed = .ok (next, shown)

/-- The states that the programs reach once the servers have started. -/
abbrev Reaches (permits : Service → Deed → Prop) (shellWaiting : Bool) :
    Service → List Note → Prop :=
  Run (Steps permits) (booted shellWaiting)

end Service

end Egos.Apps
