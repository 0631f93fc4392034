import Egos.Apps.Parties

/-! When the process server tells the shell that a program has ended. -/

namespace Egos.Apps

open Egos.Grass

namespace Service

/-- The request that the process server has taken last. -/
def hand (service : Service) : Option Accepted := service.system.engaged processSlot

/-- The process server waits to send to the shell. -/
def Speaks (service : Service) : Prop :=
  service.system.status processSlot = .waitToSend ∧
    (service.system.kernel.procSet processSlot).toReceiverPid = idx2pid shellSlot

/-- The process server has just taken a request of this type. -/
def Takes (service : Service) (type : Nat) : Prop :=
  service.desk = .handling ∧
    ∃ accepted, service.hand = some accepted ∧ accepted.request.word 0 = type

/-- The process server handles a request for a program. -/
def Busy (service : Service) : Prop :=
  (∃ number stage, service.desk = .spawning number stage) ∨ service.Takes procSpawn

/-- The process server handles neither a request for a program nor that to end all programs. -/
def Spared (service : Service) : Prop := ¬ service.Busy ∧ ¬ service.Takes procKillall

/-- The process server handles the last request of the shell, which is for a program in the
foreground or in the background. -/
def Holds (service : Service) (isForeground : Bool) : Prop :=
  ∃ accepted, service.hand = some accepted ∧
    (∀ stale, foreground accepted.request stale = isForeground) ∧
    ((∃ stage, service.desk = .spawning service.requests stage) ∨
      service.desk = .handling ∧ accepted.request.word 0 = procSpawn ∧
        service.letter processSlot = .request service.requests)

/-- A reply makes the shell wait for a foreground program, and only for that. -/
def Agrees (service : Service) (isForeground : Bool) (type : Nat) (pid : Option Int) : Prop :=
  if type = cmdOk ∧ isForeground then pid = some service.appPid ∧ service.shellWaiting
  else pid = none

/-- How far the process server and the shell have come with the last command, with the foreground
program whose end has not been reported. -/
inductive Link (service : Service) : Option Int → Prop
  -- The shell is done with its last command, but the process server may not have taken the request
  -- to end all programs.
  | apart (prompts : service.prompts) (free : ¬ service.Busy) (silent : ¬ service.Speaks)
      (deaf : service.system.status shellSlot ≠ .waitToRecv)
      (kills : service.system.status shellSlot = .waitToSend →
        (service.system.kernel.procSet shellSlot).toReceiverPid = idx2pid processSlot ∧
          (service.system.kernel.page shellSlot).msg.content.word 0 = procKillall)
      (letter : ∀ isForeground, service.shell = .answered isForeground →
        service.letter shellSlot = .reply service.requests) : Link service none
  -- The process server has not taken the request.
  | asking {isForeground : Bool} (asked : service.shell = .asked isForeground)
      (free : ¬ service.Busy) (silent : ¬ service.Speaks)
      (sends : service.system.status shellSlot = .waitToSend)
      (receiver : (service.system.kernel.procSet shellSlot).toReceiverPid = idx2pid processSlot)
      (type : (service.system.kernel.page shellSlot).msg.content.word 0 = procSpawn)
      (flag : ∀ stale, foreground (service.system.kernel.page shellSlot).msg.content stale =
        isForeground)
      (letter : service.letter shellSlot = .request service.requests) : Link service none
  -- The process server handles the request.
  | serving {isForeground : Bool} (holds : service.Holds isForeground)
      (silent : ¬ service.Speaks)
      (waits : service.shell = .asked isForeground ∧ (service.system.status shellSlot).active ∨
        service.shell = .answered isForeground ∧
          service.system.status shellSlot = .waitToRecv ∧
          (service.system.kernel.procSet shellSlot).fromSenderPid = idx2pid processSlot) :
      Link service none
  -- The shell has not taken the reply.
  | replying {isForeground : Bool} {pid : Option Int}
      (asked : service.shell = .asked isForeground)
      (active : (service.system.status shellSlot).active) (free : service.Spared)
      (speaks : service.Speaks) (letter : service.letter processSlot = .reply service.requests)
      (agrees : service.Agrees isForeground
        ((service.system.kernel.page processSlot).msg.content.word 0) pid) : Link service pid
  -- The program runs in the foreground.
  | running (flag : service.shellWaiting) (free : service.Spared) (silent : ¬ service.Speaks)
      (waits : service.shell = .answered true ∧ (service.system.status shellSlot).active ∧
          service.replyType = cmdOk ∧ service.letter shellSlot = .reply service.requests ∨
        service.shell = .waiting ∧ service.system.status shellSlot = .waitToRecv ∧
          (service.system.kernel.procSet shellSlot).fromSenderPid = idx2pid processSlot) :
      Link service (some service.appPid)
  -- The shell has not taken the notice that the program has ended.
  | reporting (answered : service.shell = .answered true)
      (active : (service.system.status shellSlot).active) (free : ¬ service.Busy)
      (speaks : service.Speaks) (ok : service.replyType = cmdOk)
      (letter : service.letter shellSlot = .reply service.requests) : Link service none

section Links

variable {service next : Service} {pid : Option Int}

/-- A request in hand keeps the process server busy. -/
theorem Holds.busy {isForeground : Bool} (holds : service.Holds isForeground) : service.Busy := by
  obtain ⟨accepted, taken, -, ⟨stage, desk⟩ | ⟨desk, type, -⟩⟩ := holds
  · exact Or.inl ⟨_, stage, desk⟩
  · exact Or.inr ⟨desk, accepted, taken, type⟩

/-- A busy process server handles the last request of the shell. -/
theorem Link.of_busy (link : service.Link pid) (busy : service.Busy) :
    pid = none ∧ ∃ isForeground, service.Holds isForeground ∧
      (service.shell = .asked isForeground ∧ (service.system.status shellSlot).active ∨
        service.shell = .answered isForeground ∧
          service.system.status shellSlot = .waitToRecv ∧
          (service.system.kernel.procSet shellSlot).fromSenderPid = idx2pid processSlot) := by
  cases link with
  | apart _ free => exact absurd busy free
  | asking _ free => exact absurd busy free
  | serving holds _ waits => exact ⟨rfl, _, holds, waits⟩
  | replying _ _ free => exact absurd busy free.1
  | running _ free => exact absurd busy free.1
  | reporting _ _ free => exact absurd busy free

/-- The shell only waits for messages of the process server. -/
theorem Link.hears (link : service.Link pid)
    (receives : service.system.status shellSlot = .waitToRecv) :
    (service.system.kernel.procSet shellSlot).fromSenderPid = idx2pid processSlot := by
  -- The shell waits in two of the stages only, and in both for the process server.
  have inactive : ¬ (service.system.status shellSlot).active := by
    rw [receives]
    decide
  cases link with
  | apart _ _ _ deaf => exact absurd receives deaf
  | asking _ _ _ sends =>
    rw [receives] at sends
    cases sends
  | serving _ _ waits =>
    rcases waits with ⟨-, active⟩ | ⟨-, -, expected⟩
    · exact absurd active inactive
    · exact expected
  | replying _ active => exact absurd active inactive
  | running _ _ _ waits =>
    rcases waits with ⟨-, active, -⟩ | ⟨-, -, expected⟩
    · exact absurd active inactive
    · exact expected
  | reporting _ active => exact absurd active inactive

/-- The shell only sends to the process server. -/
theorem Link.tells (link : service.Link pid)
    (sends : service.system.status shellSlot = .waitToSend) :
    (service.system.kernel.procSet shellSlot).toReceiverPid = idx2pid processSlot := by
  -- In most stages the shell runs or receives, so that it is not blocked on a send.
  have inactive : ¬ (service.system.status shellSlot).active := by
    rw [sends]
    decide
  cases link with
  | apart _ _ _ _ kills => exact (kills sends).1
  | asking _ _ _ _ receiver => exact receiver
  | serving _ _ waits =>
    rcases waits with ⟨-, active⟩ | ⟨-, receives, -⟩
    · exact absurd active inactive
    · rw [sends] at receives
      cases receives
  | replying _ active => exact absurd active inactive
  | running _ _ _ waits =>
    rcases waits with ⟨-, active, -⟩ | ⟨-, receives, -⟩
    · exact absurd active inactive
    · rw [sends] at receives
      cases receives
  | reporting _ active => exact absurd active inactive

/-- The shell and the process server do not wait to send to each other. -/
theorem Link.not_both (link : service.Link pid) (speaks : service.Speaks) :
    service.system.status shellSlot ≠ .waitToSend := by
  intro sends
  have inactive : ¬ (service.system.status shellSlot).active := by
    rw [sends]
    decide
  cases link with
  | apart _ _ silent => exact silent speaks
  | asking _ _ silent => exact silent speaks
  | serving _ silent => exact silent speaks
  | replying _ active => exact inactive active
  | running _ _ silent => exact silent speaks
  | reporting _ active => exact inactive active

/-- A shell whose first receive has returned has the reply to its last request. -/
theorem Link.letter (link : service.Link pid) {isForeground : Bool}
    (answered : service.shell = .answered isForeground)
    (returned : service.system.status shellSlot ≠ .waitToRecv) :
    service.letter shellSlot = .reply service.requests := by
  -- The stages in which the shell has been answered say what the letter is.
  cases link with
  | apart _ _ _ _ _ letter => exact letter _ answered
  | asking asked =>
    rw [answered] at asked
    cases asked
  | serving _ _ waits =>
    rcases waits with ⟨asked, -⟩ | ⟨-, receives, -⟩
    · rw [answered] at asked
      cases asked
    · exact absurd receives returned
  | replying asked =>
    rw [answered] at asked
    cases asked
  | running _ _ _ waits =>
    rcases waits with ⟨-, -, -, letter⟩ | ⟨waiting, -⟩
    · exact letter
    · rw [answered] at waiting
      cases waiting
  | reporting _ _ _ _ _ letter => exact letter

/-- What the shell is about to do depends on its own slot only. -/
theorem prompts_congr (shell : next.shell = service.shell)
    (reply : next.replyType = service.replyType) : next.prompts = service.prompts := by
  unfold prompts
  rw [shell]
  cases service.shell <;> simp only [reply]

/-- A command stays where it is if nothing happens to it on either side. -/
theorem Link.transfer (link : service.Link pid)
    (steady : System.Steady service.system next.system shellSlot)
    (shell : next.shell = service.shell) (requests : next.requests = service.requests)
    (letter : next.letter shellSlot = service.letter shellSlot)
    (free : next.Busy → service.Busy)
    (kills : next.Takes procKillall → service.Takes procKillall)
    (holds : ∀ isForeground, service.Holds isForeground → next.Holds isForeground)
    (speaks : next.Speaks ↔ service.Speaks)
    (spoken : service.Speaks → next.letter processSlot = service.letter processSlot ∧
      (next.system.kernel.page processSlot).msg.content =
        (service.system.kernel.page processSlot).msg.content)
    (vars : pid ≠ none → next.appPid = service.appPid ∧ next.shellWaiting = service.shellWaiting) :
    next.Link pid := by
  -- Each case of the link names statuses and pages that the step leaves alone.
  have idle : ∀ status : Status, status.active = false →
      (next.system.status shellSlot = status ↔ service.system.status shellSlot = status) :=
    fun status idle => steady.idle_iff idle
  have reply : next.replyType = service.replyType := by
    simp only [replyType, steady.content]
  have spared : service.Spared → next.Spared := fun before =>
    ⟨fun busy => before.1 (free busy), fun takes => before.2 (kills takes)⟩
  cases link with
  | apart prompts before silent deaf ends said =>
    refine .apart ?_ (fun busy => before (free busy)) (fun speak => silent (speaks.mp speak))
      (fun receives => deaf ((idle _ rfl).mp receives)) (fun sends => ?_) fun isForeground answered => ?_
    · rw [prompts_congr shell reply]
      exact prompts
    · rw [steady.receiver, steady.content]
      exact ends ((idle _ rfl).mp sends)
    · rw [letter, requests]
      exact said isForeground (shell ▸ answered)
  | asking asked before silent sends receiver type flag said =>
    refine .asking (shell.trans asked) (fun busy => before (free busy))
      (fun speak => silent (speaks.mp speak)) ((idle _ rfl).mpr sends)
      (steady.receiver.trans receiver) ?_ ?_ ?_
    · rw [steady.content]
      exact type
    · rw [steady.content]
      exact flag
    · rw [letter, requests]
      exact said
  | serving held silent waits =>
    refine .serving (holds _ held) (fun speak => silent (speaks.mp speak)) ?_
    rw [shell, steady.expected]
    rcases waits with ⟨asked, active⟩ | ⟨answered, receives, expected⟩
    · exact Or.inl ⟨asked, steady.active active⟩
    · exact Or.inr ⟨answered, (idle _ rfl).mpr receives, expected⟩
  | replying asked active before speak said agrees =>
    obtain ⟨same, content⟩ := spoken speak
    refine .replying (shell.trans asked) (steady.active active) (spared before)
      (speaks.mpr speak) ?_ ?_
    · rw [same, requests]
      exact said
    · rw [content]
      unfold Agrees at agrees ⊢
      split at agrees
      · obtain ⟨named, waits⟩ := agrees
        obtain ⟨pids, flags⟩ := vars (by rw [named]; exact Option.some_ne_none _)
        rw [if_pos ‹_›, pids, flags]
        exact ⟨named, waits⟩
      · rw [if_neg ‹_›]
        exact agrees
  | running flag before silent waits =>
    obtain ⟨pids, flags⟩ := vars (Option.some_ne_none _)
    rw [← pids]
    refine .running (by rw [flags]; exact flag) (spared before)
      (fun speak => silent (speaks.mp speak)) ?_
    rw [shell, steady.expected, reply, letter, requests]
    rcases waits with ⟨answered, active, ok, said⟩ | ⟨waiting, receives, expected⟩
    · exact Or.inl ⟨answered, steady.active active, ok, said⟩
    · exact Or.inr ⟨waiting, (idle _ rfl).mpr receives, expected⟩
  | reporting answered active before speak ok said =>
    exact .reporting (shell.trans answered) (steady.active active) (fun busy => before (free busy))
      (speaks.mpr speak) (reply.trans ok) (by rw [letter, requests]; exact said)

end Links

/-- The process server queries others only to spawn a program, and listens to all only at the top of
its main loop. -/
def Seated (service : Service) : Prop :=
  match (service.system.thread processSlot).talk with
  | .quiet => True
  | .listening => service.desk = .handling
  | .asked _ _ | .waiting _ _ => ∃ number stage, service.desk = .spawning number stage
  | _ => False

/-- Unless a new program is being loaded, the end of the last one is reported only if it runs in the
foreground. -/
def Due (service : Service) (pid : Option Int) : Prop :=
  (∀ number stage, service.desk = .spawning number stage → Stage.launched stage = false) →
    service.shellWaiting → service.Alive service.appPid ∨ service.desk = .freed service.appPid →
    pid = some service.appPid

/-- The end of a process has been reported exactly if the shell has been waiting for it. -/
def Judged (history : List Note) : Prop :=
  ∀ before pid noticed after, history = before ++ .ended pid noticed :: after →
    (noticed = true ↔ awaited before = some pid)

/-- What holds of the process server and the shell in all states that a careful run reaches. -/
structure Sound (service : Service) (history : List Note) : Prop where
  seated : service.Seated
  -- User applications only tell the process server that they end or sleep.
  users : ∀ idx, ¬ permanent idx → service.system.status idx = .waitToSend →
    (service.system.kernel.procSet idx).toReceiverPid = idx2pid processSlot →
    Modest ((service.system.kernel.page idx).msg.content.word 0)
  clients : service.desk = .handling → ∀ accepted, service.hand = some accepted →
    service.Alive accepted.client
  link : service.Link (awaited history)
  due : service.Due (awaited history)
  buried : ∀ pid, service.desk = .freed pid → ¬ service.Alive pid
  judged : Judged history

section Frames

variable {service next : Service} {history : List Note} {pid : Int}

/-- A process stays dead if no slot comes to life. -/
theorem Alive.mono (alive : next.Alive pid)
    (unused : ∀ idx, service.system.status idx = .unused → next.system.status idx = .unused) :
    service.Alive pid := by
  obtain ⟨idx, named, used⟩ := alive
  exact ⟨idx, named, fun free => used (unused idx free)⟩

/-- Nothing is due that was not due before if no slot comes to life. -/
theorem Due.mono {waits : Option Int} (due : service.Due waits) (desk : next.desk = service.desk)
    (appPid : next.appPid = service.appPid) (flag : next.shellWaiting = service.shellWaiting)
    (unused : ∀ idx, service.system.status idx = .unused → next.system.status idx = .unused) :
    next.Due waits := by
  intro early waiting ends
  rw [desk] at early ends
  rw [flag] at waiting
  rw [appPid] at ends ⊢
  exact due early waiting (ends.imp_left fun alive => alive.mono unused)

/-- A step that leaves the variables of the process server alone keeps everything sound, given what
becomes of the last command and of the requests in the server's hand. -/
theorem Sound.relink (sound : service.Sound history) (desk : next.desk = service.desk)
    (appPid : next.appPid = service.appPid) (flag : next.shellWaiting = service.shellWaiting)
    (talk : (next.system.thread processSlot).talk = (service.system.thread processSlot).talk)
    (users : ∀ idx, ¬ permanent idx → next.system.status idx = .waitToSend →
      (next.system.kernel.procSet idx).toReceiverPid = idx2pid processSlot →
      Modest ((next.system.kernel.page idx).msg.content.word 0))
    (taken : ∀ accepted, next.hand = some accepted →
      service.hand = some accepted ∨ next.Alive accepted.client)
    (unused : ∀ idx, service.system.status idx = .unused ↔ next.system.status idx = .unused)
    (link : next.Link (awaited history)) : next.Sound history := by
  -- Everything but the link is a matter of the desk, the requests taken and the slots in use.
  refine ⟨?_, users, fun handling accepted held => ?_, link, ?_, fun pid freed alive => ?_,
    sound.judged⟩
  · simpa only [Seated, talk, desk] using sound.seated
  · rcases taken accepted held with before | alive
    · obtain ⟨idx, named, used⟩ := sound.clients (desk ▸ handling) accepted before
      exact ⟨idx, named, fun free => used ((unused idx).mpr free)⟩
    · exact alive
  · exact sound.due.mono desk appPid flag fun idx free => (unused idx).mp free
  · exact sound.buried pid (desk ▸ freed) (alive.mono fun idx free => (unused idx).mp free)

/-- Resuming a process changes nothing between the process server and the shell. -/
theorem Sound.resumed (sound : service.Sound history) {after : Kernel} {events : List Event}
    (switched : Switched service.system.kernel after events) :
    ({ service with system := service.system.resumed after events } : Service).Sound history := by
  -- The switch touches no thread of the two, and a permanent process is used all along.
  obtain ⟨kernel, -, -, -, others, current⟩ := System.resumed_fields switched
  have unused : ∀ idx, (service.system.resumed after events).status idx = .unused ↔
      service.system.status idx = .unused :=
    fun idx => (System.steady_resumed switched idx).idle_iff rfl
  have hand : ({ service with system := service.system.resumed after events } : Service).hand =
      service.hand := System.engaged_resumed switched processSlot
  have process := System.steady_resumed switched processSlot
  refine ⟨?_, fun idx mortal sends receiver => ?_, fun desk accepted taken => ?_, ?_, ?_,
    fun pid desk alive => ?_, sound.judged⟩
  · have same : (service.system.resumed after events).thread processSlot =
        service.system.thread processSlot →
        ({ service with system := service.system.resumed after events } : Service).Seated := by
      intro thread
      have seated := sound.seated
      unfold Seated at seated ⊢
      rw [thread]
      exact seated
    by_cases here : processSlot = after.procCurrIdx
    · rcases current with ⟨unchanged, -⟩ | ⟨delivered, -⟩
      · exact same (here ▸ unchanged)
      · rcases service.system.deliver_cases after.procCurrIdx
          (service.system.kernel.page after.procCurrIdx).msg with ⟨unchanged, -⟩ | ⟨quiet, -⟩
        · exact same (here ▸ delivered.trans unchanged)
        · have returned : ((service.system.resumed after events).thread processSlot).talk =
              .quiet := by
            rw [here, delivered]
            exact quiet
          simp only [Seated, returned]
    · exact same (others processSlot here)
  · have untouched := System.untouched_resumed switched sends rfl
    rw [untouched.msg]
    exact sound.users idx mortal (untouched.status ▸ sends) (untouched.receiver ▸ receiver)
  · rw [hand] at taken
    obtain ⟨idx, named, used⟩ := sound.clients desk accepted taken
    exact ⟨idx, named, fun free => used ((unused idx).mp free)⟩
  · refine sound.link.transfer (System.steady_resumed switched shellSlot) rfl rfl rfl ?_ ?_
      (fun isForeground holds => ?_) ?_ (fun _ => ⟨rfl, process.content⟩) fun _ => ⟨rfl, rfl⟩
    · simp only [Busy, Takes, hand]
      exact id
    · simp only [Takes, hand]
      exact id
    · simpa only [Holds, hand] using holds
    · exact and_congr (process.idle_iff rfl) (by rw [process.receiver])
  · exact sound.due.mono rfl rfl rfl fun idx free => (unused idx).mpr free
  · exact sound.buried pid desk (alive.mono fun idx free => (unused idx).mpr free)

end Frames

section Others

variable {service : Service} {history : List Note} {middle : System} {act : Act}
variable {queries : List Exchange}

/-- User applications go on telling the process server only that they end or sleep. -/
theorem Sound.users_after (sound : service.Sound history)
    (formed : WellFormed service.system.kernel) (allowed : service.system.Allowed act)
    (harmless : ¬ permanent service.system.curr → ∀ receiver msg, act = .tell receiver msg →
      ∀ content, Modest ((Content.load content msg).word 0))
    (move : System.Move service.system act middle) (idx : Slot) (mortal : ¬ permanent idx)
    (sends : middle.status idx = .waitToSend)
    (receiver : (middle.kernel.procSet idx).toReceiverPid = idx2pid processSlot) :
    Modest ((middle.kernel.page idx).msg.content.word 0) := by
  -- A message of a user application is an old one, or the one that it has just sent.
  rcases move.sender_cases formed sends with untouched | ⟨rfl, target, msg, calls, rfl⟩
  · rw [untouched.msg]
    exact sound.users idx mortal (untouched.status ▸ sends) (untouched.receiver ▸ receiver)
  · rw [System.sendBlocked_receiver, idx2pid_inj] at receiver
    subst receiver
    rcases System.send_acts allowed calls with
      ⟨-, isServer, -⟩ | ⟨accepted, -, isServer, -⟩ | ⟨rfl, -⟩
    · cases isServer
    · exact absurd (System.permanent_of_serves isServer) mortal
    · rw [System.sendBlocked_msg]
      exact harmless mortal _ _ rfl _

/-- A process that waits for the reply to a query keeps the request in its hand. -/
theorem hand_of_querier {letter : Slot → Letter}
    (querier : System.Querier service.system middle processSlot) :
    ({ service with system := middle, letter := letter } : Service).hand = service.hand := by
  obtain ⟨server, request, asked | waiting⟩ := querier.querying
  · simp [hand, System.engaged, querier.thread, asked]
  · simp [hand, System.engaged, querier.thread, waiting]

/-- What others do changes nothing between the process server and the shell. -/
theorem Sound.others (sound : service.Sound history) (standing : service.system.Standing)
    (conversing : service.system.Conversing (fun idx => permanent idx) True queries)
    (allowed : service.system.Allowed act) (notServer : service.system.curr ≠ processSlot)
    (notShell : service.system.curr ≠ shellSlot)
    (harmless : ∀ receiver msg, act = .tell receiver msg →
      ∀ content, Modest ((Content.load content msg).word 0))
    (move : System.Move service.system act middle) :
    ({ service with system := middle, letter := service.carry (.act act) middle.kernel } :
      Service).Sound history := by
  have formed := standing.formed
  have unused : ∀ idx, service.system.status idx = .unused → middle.status idx = .unused := by
    intro idx free
    refine move.unused formed allowed ?_ free
    rintro rfl
    exact notServer allowed
  have shell := move.shell_untouched standing allowed notServer notShell sound.link.hears
    sound.link.tells
  have shellLetter : service.carry (.act act) middle.kernel shellSlot =
      service.letter shellSlot := by
    refine carry_of_ne (Ne.symm notShell) ?_
    intro copied
    obtain ⟨msg, -, receives, from_⟩ := System.copiedTo_eq_some copied (Ne.symm notShell)
    rw [sound.link.hears receives] at from_
    rcases from_ with named | any
    · rw [formed.curr, idx2pid_inj] at named
      exact notServer named.symm
    · cases any
  have users := sound.users_after formed allowed (fun _ => harmless) move
  have due : ({ service with
      system := middle, letter := service.carry (.act act) middle.kernel } : Service).Due
        (awaited history) := sound.due.mono rfl rfl rfl unused
  have buried : ∀ pid, service.desk = .freed pid → ¬ ({ service with
      system := middle, letter := service.carry (.act act) middle.kernel } : Service).Alive pid :=
    fun pid desk alive => sound.buried pid desk (alive.mono unused)
  have alive : ∀ idx, service.system.status idx ≠ .unused → middle.status idx ≠ .unused :=
    fun idx used => move.used (fun pid same => notServer (same ▸ allowed).1) used
  rcases move.process_beside standing conversing allowed notServer notShell with
    untouched | ⟨msg, rfl, listens, receives, rfl⟩ | querier
  · have processLetter : service.carry (.act act) middle.kernel processSlot =
        service.letter processSlot := by
      refine carry_of_ne (Ne.symm notServer) ?_
      intro copied
      obtain ⟨msg, calls, awaits⟩ := System.copiedTo_eq_some copied (Ne.symm notServer)
      rcases move.of_send calls with ⟨busy, -⟩ | ⟨-, rfl⟩
      · exact busy awaits
      · have receives : service.system.status processSlot = .waitToRecv := awaits.1
        have runs := untouched.status
        rw [System.sendDelivered_status_idx, receives] at runs
        cases runs
    have hand : ({ service with
        system := middle, letter := service.carry (.act act) middle.kernel } : Service).hand =
        service.hand := untouched.engaged
    refine ⟨?_, users, fun desk accepted taken => ?_, sound.link.transfer shell.steady rfl rfl
      shellLetter ?_ ?_ (fun isForeground holds => ?_) ?_ (fun _ => ⟨processLetter, ?_⟩)
      fun _ => ⟨rfl, rfl⟩, due, buried, sound.judged⟩
    · simpa only [Seated, untouched.thread] using sound.seated
    · rw [hand] at taken
      obtain ⟨idx, named, used⟩ := sound.clients desk accepted taken
      exact ⟨idx, named, alive idx used⟩
    · simp only [Busy, Takes, hand]
      exact id
    · simp only [Takes, hand]
      exact id
    · simpa only [Holds, hand, processLetter] using holds
    · simp only [Speaks, untouched.status, untouched.receiver]
    · rw [untouched.msg]
  · -- The process server has been listening, and gets a request that is not for a program.
    have apart := Ne.symm notServer
    have seated : service.desk = .handling := by
      have seated := sound.seated
      simpa only [Seated, listens] using seated
    have idle : service.hand = none := by
      simp [hand, System.engaged, listens, receives, Status.active]
    have taken : ({ service with
        system := service.system.sendDelivered (.tell processSlot msg) processSlot msg
        letter := service.carry (.act (.tell processSlot msg))
          (service.system.sendDelivered (.tell processSlot msg) processSlot msg).kernel } :
        Service).hand = some ⟨idx2pid service.system.curr,
          Content.load (service.system.kernel.page service.system.curr).msg.content msg,
          service.system.birth service.system.curr⟩ := by
      simp [hand, System.engaged, System.sendDelivered_thread_idx apart, listens, Status.active,
        Kernel.outgoing, formed.curr]
    have silent : ¬ service.Speaks := by
      intro speaks
      cases receives.symm.trans speaks.1
    refine ⟨?_, users, fun _ accepted held => ?_, sound.link.transfer shell.steady rfl rfl
      shellLetter (fun busy => ?_) (fun kills => ?_) (fun isForeground holds => ?_) ?_
      (fun speaks => absurd speaks silent) fun _ => ⟨rfl, rfl⟩, due, buried, sound.judged⟩
    · simpa only [Seated, System.sendDelivered_thread_idx apart] using sound.seated
    · obtain rfl := Option.some.inj (held.symm.trans taken)
      exact ⟨service.system.curr, rfl, alive _ (System.curr_used formed)⟩
    · rcases busy with spawning | ⟨-, accepted, held, type⟩
      · exact Or.inl spawning
      · obtain rfl := Option.some.inj (held.symm.trans taken)
        exact absurd type (harmless _ _ rfl _).not_spawn
    · obtain ⟨-, accepted, held, type⟩ := kills
      obtain rfl := Option.some.inj (held.symm.trans taken)
      exact absurd type (harmless _ _ rfl _).not_killall
    · obtain ⟨accepted, held, -⟩ := holds
      rw [idle] at held
      cases held
    · refine iff_of_false (fun speaks => ?_) silent
      cases speaks.1.symm.trans System.sendDelivered_status_idx
  · have hand : ({ service with
        system := middle, letter := service.carry (.act act) middle.kernel } : Service).hand =
        service.hand := hand_of_querier querier
    have spawning : ∃ number stage, service.desk = .spawning number stage := by
      have seated := sound.seated
      obtain ⟨server, request, asked | waiting⟩ := querier.querying
      · simpa only [Seated, asked] using seated
      · simpa only [Seated, waiting] using seated
    have silent : ¬ service.Speaks := by
      intro speaks
      rcases querier.before with receives | ⟨-, elsewhere⟩
      · cases receives.symm.trans speaks.1
      · exact elsewhere speaks.2
    refine ⟨?_, users, fun desk => ?_, sound.link.transfer shell.steady rfl rfl shellLetter
      (fun _ => Or.inl spawning) (fun kills => ?_) (fun isForeground holds => ?_) ?_
      (fun speaks => absurd speaks silent) fun _ => ⟨rfl, rfl⟩, due, buried, sound.judged⟩
    · simpa only [Seated, querier.thread] using sound.seated
    · obtain ⟨number, stage, other⟩ := spawning
      rw [other] at desk
      cases desk
    · obtain ⟨number, stage, other⟩ := spawning
      cases other.symm.trans kills.1
    · obtain ⟨accepted, held, flag, ⟨stage, desk⟩ | ⟨desk, -⟩⟩ := holds
      · exact ⟨accepted, hand.trans held, flag, Or.inl ⟨stage, desk⟩⟩
      · obtain ⟨number, stage, other⟩ := spawning
        rw [other] at desk
        cases desk
    · refine iff_of_false (fun speaks => ?_) silent
      cases speaks.1.symm.trans querier.after

end Others

end Service

end Egos.Apps
