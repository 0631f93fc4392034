import Egos.Grass.Rendezvous

/-! The whole machine: the kernel together with the servers and the programs that use them. -/

namespace Egos.Apps

open Egos.Grass

/-- The slot of the process server. -/
abbrev processSlot : Slot := 0

/-- The slot of the file server. -/
abbrev fileSlot : Slot := 1

/-- The slot of the directory server. -/
abbrev dirSlot : Slot := 2

/-- The slot of the network server. -/
abbrev netSlot : Slot := 3

/-- The slot of the shell. -/
abbrev shellSlot : Slot := 4

/-- The file, directory and network servers answer requests in their main loops. -/
def serves (idx : Slot) : Bool := idx = fileSlot ∨ idx = dirSlot ∨ idx = netSlot

/-- System processes never end. -/
def permanent (idx : Slot) : Bool := idx.val < 5

/-- A request that a server has taken from a client and keeps in its buffer. -/
structure Accepted where
  client : Int
  request : Content
  -- Which of the processes that have used the client's slot made the request.
  life : Nat
  deriving DecidableEq

/-- How far a process has come in talking to another one. -/
inductive Talk where
  | quiet
  -- A request has been sent, and the receive of its reply comes next.
  | asked (server : Slot) (request : Content)
  -- The receive of the reply has been issued.
  | waiting (server : Slot) (request : Content)
  -- A receive of any message has been issued at the top of a main loop.
  | listening
  -- A receive of an announcement has been issued.
  | heeding (sender : Slot)
  -- A reply has been sent, and the next round of the main loop comes next.
  | replied
  -- The process is on its way out, and only tells the process server so.
  | leaving
  deriving DecidableEq

/-- The control state of a process's program. -/
structure Thread where
  hold : Option Accepted
  talk : Talk
  deriving DecidableEq

/-- A program that has just been loaded. -/
def Thread.fresh : Thread := ⟨none, .quiet⟩

/-- The machine and the programs on it. -/
structure System where
  kernel : Kernel
  thread : Slot → Thread
  -- How many processes have used each slot.
  birth : Slot → Nat
  -- Which process of its sender's slot sent the message in each slot's page.
  mail : Slot → Nat
  -- Which process of its receiver's slot each slot's last message was meant for.
  aim : Slot → Nat

/-- What a program does next. -/
inductive Act where
  -- The two calls of a query, as in the functions of the servers' user interface.
  | query (server : Slot) (msg : List UInt8)
  | await
  -- The two calls of a round of a server's main loop.
  | listen
  | reply (msg : List UInt8)
  -- Messages to the process server and the shell that take no part in a query.
  | tell (receiver : Slot) (msg : List UInt8)
  | heed (sender : Slot)
  -- The program ends.
  | exit
  | yield
  | timer (ttyIntr : Bool)
  -- The process server manages the process table.
  | alloc
  | setReady (pid : Int)
  | free (pid : Int)

/-- What a run shows of queries. -/
inductive Exchange where
  | asked (client server : Slot) (request : Content)
  | replied (server : Slot) (client : Int) (request : Content) (msg : List UInt8)
  | answered (client server : Slot) (reply : Content)
  deriving DecidableEq

namespace System

/-- The slot of the current process. -/
abbrev curr (system : System) : Slot := system.kernel.procCurrIdx

/-- The control state of the current process. -/
abbrev currThread (system : System) : Thread := system.thread system.curr

/-- The status of a slot. -/
abbrev status (system : System) (idx : Slot) : Status := (system.kernel.procSet idx).status

/-- The system call or kernel function behind what the current program does. -/
def label (system : System) : Act → Option Label
  | .query server msg => some (.send (idx2pid server) msg)
  | .await =>
    match system.currThread.talk with
    | .asked server _ => some (.recv (idx2pid server))
    | _ => none
  | .listen => some (.recv 0)
  | .reply msg => system.currThread.hold.map fun accepted => .send accepted.client msg
  | .tell receiver msg => some (.send (idx2pid receiver) msg)
  | .heed sender => some (.recv (idx2pid sender))
  -- Entering the exit function is not yet a step of the kernel.
  | .exit => none
  | .yield => some .yield
  | .timer ttyIntr => some (.timer ttyIntr)
  | .alloc => some .alloc
  | .setReady pid => some (.setReady pid)
  | .free pid => some (.free pid)

/-- The content that a send of the current process leaves in its page. -/
def content (system : System) (msg : List UInt8) : Content :=
  Content.load (system.kernel.page system.curr).msg.content msg

/-- The control state of the current program once it has issued its call. -/
def issue (system : System) : Act → Thread
  | .query server msg =>
    { system.currThread with talk := .asked server (system.content msg) }
  | .await =>
    match system.currThread.talk with
    | .asked server request => { system.currThread with talk := .waiting server request }
    | _ => system.currThread
  | .listen => ⟨none, .listening⟩
  | .reply _ => { system.currThread with talk := .replied }
  | .heed sender => { system.currThread with talk := .heeding sender }
  | .exit => { system.currThread with talk := .leaving }
  | _ => system.currThread

/-- How many processes have used the slot of a pid. -/
def birthOf (system : System) (pid : Int) : Nat :=
  match pid2idx pid with
  | .ok idx => system.birth idx
  | .error _ => 0

/-- Which life of its receiver a message of the current program is meant for. -/
def aimOf (system : System) : Act → Nat
  | .query server _ => system.birth server
  -- A reply is meant for the process that made the request.
  | .reply _ => (system.currThread.hold.map Accepted.life).getD 0
  | .tell receiver _ => system.birth receiver
  | _ => system.aim system.curr

/-- The slot into whose page a step has copied a message. -/
def copiedTo (system : System) (after : Kernel) : Label → Option Slot
  | .send receiver _ =>
    match pid2idx receiver with
    | .ok idx =>
      if system.status idx = .waitToRecv ∧
          ((system.kernel.procSet idx).fromSenderPid = system.kernel.currPid ∨
            (system.kernel.procSet idx).fromSenderPid = 0) then some idx else none
    | .error _ => none
  | .recv _ =>
    if (after.procSet system.curr).status = .waitToRecv then none else some system.curr
  | _ => none

/-- The machine once the current program has issued its call and before anybody returns. -/
def issued (system : System) (act : Act) (label : Label) (after : Kernel) : System where
  kernel := after
  thread idx :=
    -- A slot that has come to life runs a new program.
    if system.status idx = .unused ∧ (after.procSet idx).status ≠ .unused then .fresh
    else if idx = system.curr then system.issue act else system.thread idx
  birth idx :=
    if system.status idx = .unused ∧ (after.procSet idx).status ≠ .unused
    then system.birth idx + 1 else system.birth idx
  mail :=
    match system.copiedTo after label with
    | some idx => Function.update system.mail idx (system.birthOf (after.page idx).msg.sender)
    | none => system.mail
  aim := Function.update system.aim system.curr (system.aimOf act)

/-- The control state of a program whose receive returns a message. -/
def deliver (system : System) (idx : Slot) (message : SysMsg) : Thread :=
  match (system.thread idx).talk with
  | .listening => ⟨some ⟨message.sender, message.content, system.mail idx⟩, .quiet⟩
  | .waiting _ _ | .heeding _ => { system.thread idx with talk := .quiet }
  | _ => system.thread idx

/-- What the return of a receive shows. -/
def shows (system : System) (idx : Slot) (message : SysMsg) : List Exchange :=
  match (system.thread idx).talk with
  | .waiting server _ => [.answered idx server message.content]
  | _ => []

/-- Passes on to a program what the kernel shows of a step. -/
def observe (system : System) : Event → System × List Exchange
  | .received _ _ message =>
    ({ system with thread :=
        Function.update system.thread system.curr (system.deliver system.curr message) },
      system.shows system.curr message)
  | .killed _ =>
    -- Ctrl+C sends the program to its exit, whatever it was doing.
    ({ system with thread :=
        Function.update system.thread system.curr ⟨system.currThread.hold, .leaving⟩ }, [])
  | .sent _ _ => (system, [])

/-- Passes on everything that the kernel shows of a step. -/
def observeAll (system : System) : List Event → System × List Exchange
  | [] => (system, [])
  | event :: events =>
    let (system, first) := system.observe event
    let (system, rest) := system.observeAll events
    (system, first ++ rest)

/-- What issuing a call shows. -/
def announces (system : System) : Act → List Exchange
  | .query server msg => [.asked system.curr server (system.content msg)]
  | .reply msg =>
    match system.currThread.hold with
    | some accepted => [.replied system.curr accepted.client accepted.request msg]
    | none => []
  | _ => []

/-- One step of the machine and of the program that is current. -/
def step (system : System) (act : Act) : Fallible (System × List Exchange) :=
  match act with
  | .exit =>
    pure ({ system with thread := Function.update system.thread system.curr (system.issue act) },
      [])
  | _ =>
    match system.label act with
    | none => throw "the program has no such call to make"
    | some label => do
      let (after, events) ← Grass.step system.kernel label
      let (final, shown) := (system.issued act label after).observeAll events
      return (final, system.announces act ++ shown)

/-- A program has finished what it was saying. -/
abbrev isQuiet (system : System) : Prop := system.currThread.talk = .quiet

/-- What the programs of the repository do, slot by slot. -/
def Allowed (system : System) : Act → Prop
  -- Every process but a server asks servers, and the directory server asks the file server.
  | .query server msg => system.isQuiet ∧ msg.length ≤ syscallMsgLen ∧ serves server ∧
    (¬ serves system.curr ∨
      system.curr = dirSlot ∧ server = fileSlot ∧ system.currThread.hold ≠ none)
  | .await => True
  -- The main loops of the servers and of the process server.
  | .listen => (serves system.curr ∧ (system.currThread.talk = .replied ∨
      system.isQuiet ∧ system.currThread.hold = none)) ∨
    (system.curr = processSlot ∧ system.isQuiet)
  | .reply msg => system.isQuiet ∧ msg.length ≤ syscallMsgLen ∧ serves system.curr ∧
    system.currThread.hold ≠ none
  -- The shell and user applications tell the process server, which tells the shell.
  | .tell receiver msg => msg.length ≤ syscallMsgLen ∧ ¬ serves system.curr ∧
    (receiver = processSlot ∨ receiver = shellSlot) ∧
    (system.isQuiet ∨ system.currThread.talk = .leaving)
  | .heed sender => system.curr = shellSlot ∧ sender = processSlot ∧ system.isQuiet
  | .exit => ¬ permanent system.curr ∧ system.isQuiet
  | .yield => True
  | .timer _ => True
  | .alloc => system.curr = processSlot
  | .setReady pid => system.curr = processSlot ∧
    ∀ idx, pid = idx2pid idx → system.status idx = .loading
  -- System processes do not exit, so only user applications are freed.
  | .free pid => system.curr = processSlot ∧ (pid = -1 ∨ gpidUserStart ≤ pid)

/-- Whether a program does something can be decided. -/
instance (system : System) : (act : Act) → Decidable (system.Allowed act)
  | .query _ _ | .listen | .reply _ | .tell _ _ | .heed _ | .exit | .alloc | .setReady _
  | .free _ => by unfold Allowed; infer_instance
  | .await | .yield | .timer _ => isTrue trivial

/-- The machine when all servers have started and enter their main loops. -/
def booted : System where
  kernel :=
    { procSet := fun idx =>
        if idx = processSlot then ⟨idx2pid idx, .running, 0, 0⟩
        else if permanent idx then ⟨idx2pid idx, .runnable, 0, 0⟩ else ⟨0, .unused, 0, 0⟩
      procCurrIdx := processSlot
      page := fun _ => .zero
      context := fun _ => .user }
  thread _ := .fresh
  birth _ := 0
  mail _ := 0
  aim _ := 0

end System

end Egos.Apps
