import Egos.Apps.Notices

/-! What the shell does while the process server handles its commands. -/

namespace Egos.Apps

open Egos.Grass

namespace Service

/-- The commands of careful users have a word, and none of them fails to start in the foreground
while the program that was started last is alive. -/
def Careful (service : Service) : Deed → Prop
  | .command cmd _ => (parseRequest cmd).2 ≠ some 0
  | .answer stale => service.outcome = cmdOk ∨ ¬ service.Alive service.appPid ∨
      ∀ accepted ∈ service.system.currThread.hold, foreground accepted.request stale = false
  | _ => True

section OfShell

variable {service planned : Service} {history : List Note} {middle : System} {deed : Deed}
variable {queries : List Exchange} {pid : Option Int}

/-- The process server speaks to the shell if it is blocked on sending to it. -/
theorem speaks_iff :
    service.Speaks ↔ service.system.kernel.offers processSlot (idx2pid shellSlot) = true := by
  simp [Speaks, Kernel.offers]

/-- A shell that has just sent a request for a program receives its reply first. -/
theorem not_prompts_of_asked {isForeground : Bool} (asked : service.shell = .asked isForeground) :
    ¬ service.prompts := by
  simp [prompts, asked]

/-- A shell that can run a command is done with the last one. -/
theorem Link.of_prompts (link : service.Link pid) (prompts : service.prompts)
    (active : (service.system.status shellSlot).active) :
    pid = none ∧ ¬ service.Busy ∧ ¬ service.Speaks := by
  -- In every other stage the shell waits for a reply or for a notice.
  have awake : service.system.status shellSlot ≠ .waitToRecv := by
    intro receives
    rw [receives] at active
    cases active
  cases link with
  | apart _ free silent => exact ⟨rfl, free, silent⟩
  | asking asked => exact absurd prompts (not_prompts_of_asked asked)
  | serving _ _ waits =>
    rcases waits with ⟨asked, -⟩ | ⟨-, receives, -⟩
    · exact absurd prompts (not_prompts_of_asked asked)
    · exact absurd receives awake
  | replying asked => exact absurd prompts (not_prompts_of_asked asked)
  | running _ _ _ waits =>
    rcases waits with ⟨answered, -, ok, -⟩ | ⟨-, receives, -⟩
    · simp [Service.prompts, answered, ok] at prompts
    · exact absurd receives awake
  | reporting answered _ _ _ ok => simp [Service.prompts, answered, ok] at prompts

/-- A timer interrupt of a system process changes nothing. -/
theorem Sound.interrupted (sound : service.Sound history)
    (formed : WellFormed service.system.kernel) (stays : permanent service.system.curr)
    {ttyIntr : Bool} (move : System.Move service.system (.timer ttyIntr) middle) :
    ({ service with
      system := middle, letter := service.carry (.act (.timer ttyIntr)) middle.kernel } :
      Service).Sound history := by
  have carried : service.carry (.act (.timer ttyIntr)) middle.kernel = service.letter := by
    rw [carry_silent rfl]
    exact Function.update_eq_self _ _
  rw [carried, move.of_timer formed stays]
  exact sound

/-- A message of a system process keeps everything sound, given what becomes of the last command and
of the requests in the hand of the process server. -/
theorem Sound.messaged (sound : service.Sound history) (deed : Deed) (standing : service.system.Standing)
    (stays : permanent service.system.curr) (allowed : service.system.Allowed (service.actOf deed))
    (move : System.Move service.system (service.actOf deed) middle)
    (quiet : service.actOf deed ≠ .alloc ∧ ∀ pid, service.actOf deed ≠ .free pid) {next : Service}
    (system : next.system = middle) (desk : next.desk = service.desk)
    (appPid : next.appPid = service.appPid) (flag : next.shellWaiting = service.shellWaiting)
    (talk : (middle.thread processSlot).talk = (service.system.thread processSlot).talk)
    (taken : ∀ accepted, next.hand = some accepted →
      service.hand = some accepted ∨ next.Alive accepted.client)
    (link : next.Link (awaited history)) : next.Sound history := by
  subst system
  refine sound.relink desk appPid flag talk ?_ taken (fun idx => ⟨fun free => ?_, fun free => ?_⟩)
    link
  · exact sound.users_after standing.formed allowed (fun mortal => absurd stays mortal) move
  · exact move.unused standing.formed allowed quiet.1 free
  · by_contra used
    exact move.used quiet.2 used free

/-- What the shell tells the process server waits for it or is in its hand. -/
theorem Sound.told (sound : service.Sound history) (standing : service.system.Standing)
    (conversing : service.system.Conversing (fun idx => permanent idx) True queries)
    (shell : service.system.curr = shellSlot) {msg : List UInt8}
    (told : service.actOf deed = .tell processSlot msg)
    (move : System.Move service.system (service.actOf deed) middle) :
    (middle.thread processSlot).talk = (service.system.thread processSlot).talk ∧
    ((middle.engaged processSlot = service.hand ∧
        middle.status processSlot = service.system.status processSlot ∧
        (middle.kernel.procSet processSlot).toReceiverPid =
          (service.system.kernel.procSet processSlot).toReceiverPid ∧
        middle.status shellSlot = .waitToSend ∧
        (middle.kernel.procSet shellSlot).toReceiverPid = idx2pid processSlot ∧
        (middle.kernel.page shellSlot).msg.content = service.system.content msg ∧
        service.carry deed middle.kernel shellSlot = service.letterOf deed) ∨
      (∃ life, middle.engaged processSlot =
          some ⟨idx2pid shellSlot, service.system.content msg, life⟩) ∧
        service.desk = .handling ∧ middle.status processSlot = .runnable ∧
        (middle.status shellSlot).active ∧
        service.carry deed middle.kernel processSlot = service.letterOf deed) := by
  -- The message is copied into the waiting server's page, or the shell blocks with it.
  have formed := standing.formed
  have apart : processSlot ≠ service.system.curr := by
    rw [shell]
    decide
  have calls : service.system.label (service.actOf deed) =
      some (.send (idx2pid processSlot) msg) := by
    rw [told]
    rfl
  have issued : service.system.issue (service.actOf deed) = service.system.currThread := by
    rw [told]
    rfl
  rcases move.of_send calls with ⟨busy, rfl⟩ | ⟨awaits, rfl⟩
  · have untouched : System.Untouched service.system
        (service.system.sendBlocked (service.actOf deed) processSlot msg) processSlot :=
      System.untouched_sendBlocked apart
    refine ⟨congrArg Thread.talk untouched.thread, Or.inl ⟨untouched.engaged, untouched.status,
      untouched.receiver, ?_⟩⟩
    rw [← shell]
    refine ⟨by simp, by simp, ?_, ?_⟩
    · rw [System.sendBlocked_msg]
      rfl
    · rw [carry_sendBlocked calls busy, Function.update_self]
  · have isClient : ¬ serves service.system.curr := by
      rw [shell]
      decide
    have listens := System.listens_of_awaits conversing formed isClient awaits
    have thread : (service.system.sendDelivered (service.actOf deed) processSlot msg).thread
        processSlot = service.system.thread processSlot := System.sendDelivered_thread_idx apart
    refine ⟨congrArg Thread.talk thread, Or.inr ⟨⟨service.system.birth service.system.curr, ?_⟩,
      ?_, by simp, ?_, ?_⟩⟩
    · rw [← shell]
      simp [System.engaged, thread, listens, Status.active, Kernel.outgoing, System.content,
        formed.curr]
    · have seated := sound.seated
      simpa only [Seated, listens] using seated
    · rw [← shell, System.sendDelivered_status apart]
      exact formed.active
    · rw [carry_sendDelivered calls awaits, Function.update_self]
      simp [Kernel.outgoing, formed.curr]

/-- A process server that has nothing new in its hand stays free. -/
theorem not_busy_of_hand {next : Service} (free : ¬ service.Busy) (desk : next.desk = service.desk)
    (hand : next.hand = service.hand) : ¬ next.Busy := by
  simpa only [Busy, Takes, desk, hand] using free

/-- A process server that has nothing new in its hand spares the programs. -/
theorem spared_of_hand {next : Service} (free : service.Spared) (desk : next.desk = service.desk)
    (hand : next.hand = service.hand) : next.Spared := by
  simpa only [Spared, Busy, Takes, desk, hand] using free

/-- A process server that does not wait to send does not speak to the shell. -/
theorem not_speaks_of_status {status : Status} (waits : service.system.status processSlot = status)
    (other : status ≠ .waitToSend) : ¬ service.Speaks :=
  fun speaks => other (waits.symm.trans speaks.1)

/-- A process that may run is alive. -/
theorem alive_of_active {idx : Slot} (active : (service.system.status idx).active) :
    service.Alive (idx2pid idx) := by
  refine ⟨idx, rfl, fun free => ?_⟩
  rw [free] at active
  cases active

/-- A command is asked for, and the process server may have the request in its hand. -/
theorem Sound.commands (sound : service.Sound history) (standing : service.system.Standing)
    (conversing : service.system.Conversing (fun idx => permanent idx) True queries)
    (shell : service.system.curr = shellSlot) {cmd : List UInt8} {stale : UInt8}
    (careful : service.Careful (.command cmd stale))
    (allowed : service.system.Allowed (service.actOf (.command cmd stale)))
    (prompts : service.prompts) (accepted : (parseRequest cmd).2.isSome)
    (move : System.Move service.system (service.actOf (.command cmd stale)) middle) :
    ({ service with
      shell := .asked (foreground (service.system.content (message cmd)) stale)
      requests := service.requests + 1
      system := middle, letter := service.carry (.command cmd stale) middle.kernel } :
      Service).Sound history := by
  -- The request is new, so nothing of an earlier one is under way.
  have stays : permanent service.system.curr := by
    rw [shell]
    rfl
  have active : (service.system.status shellSlot).active := by
    rw [← shell]
    exact standing.formed.active
  obtain ⟨none, free, silent⟩ := sound.link.of_prompts prompts active
  have type : (service.system.content (message cmd)).word 0 = procSpawn := spawn_word cmd
  have flag : ∀ other, foreground (service.system.content (message cmd)) other =
      foreground (service.system.content (message cmd)) stale :=
    fun other => foreground_command accepted careful other stale
  obtain ⟨talk, waits⟩ := sound.told standing conversing shell rfl move
  refine sound.messaged _ standing stays allowed move ⟨by simp [actOf], by simp [actOf]⟩ rfl rfl rfl
    rfl talk ?_ ?_
  · intro held taken
    rcases waits with ⟨same, -⟩ | ⟨⟨life, given⟩, -, -, awake, -⟩
    · exact Or.inl (same.symm.trans taken)
    · obtain rfl := Option.some.inj (taken.symm.trans given)
      exact Or.inr (alive_of_active awake)
  · rw [none]
    rcases waits with
      ⟨same, status, receiver, sends, aim, content, letter⟩ | ⟨⟨life, given⟩, desk, runs, awake, letter⟩
    · refine .asking rfl (not_busy_of_hand free rfl same) ?_ sends aim ?_ ?_ letter
      · rintro ⟨speaks, target⟩
        exact silent ⟨status.symm.trans speaks, receiver.symm.trans target⟩
      · rw [content]
        exact type
      · rw [content]
        exact flag
    · exact .serving ⟨_, given, flag, Or.inr ⟨desk, type, letter⟩⟩
        (not_speaks_of_status runs (by decide)) (Or.inl ⟨rfl, awake⟩)

/-- The request to end all programs leaves the shell at its prompt. -/
theorem Sound.kills (sound : service.Sound history) (standing : service.system.Standing)
    (conversing : service.system.Conversing (fun idx => permanent idx) True queries)
    (shell : service.system.curr = shellSlot) {rest : List UInt8}
    (allowed : service.system.Allowed (service.actOf (.killall rest)))
    (prompts : service.prompts)
    (move : System.Move service.system (service.actOf (.killall rest)) middle) :
    ({ service with
      shell := .prompt
      system := middle, letter := service.carry (.killall rest) middle.kernel } :
      Service).Sound history := by
  -- No answer is expected, and what the killed programs leave behind concerns nobody.
  have stays : permanent service.system.curr := by
    rw [shell]
    rfl
  have active : (service.system.status shellSlot).active := by
    rw [← shell]
    exact standing.formed.active
  obtain ⟨none, free, silent⟩ := sound.link.of_prompts prompts active
  have type : (service.system.content (littleEndian procKillall ++ rest)).word 0 = procKillall :=
    load_word_zero (by decide) (List.take_left' (by simp [littleEndian]))
  obtain ⟨talk, waits⟩ := sound.told standing conversing shell rfl move
  refine sound.messaged _ standing stays allowed move ⟨by simp [actOf], by simp [actOf]⟩ rfl rfl rfl
    rfl talk ?_ ?_
  · intro held taken
    rcases waits with ⟨same, -⟩ | ⟨⟨life, given⟩, -, -, awake, -⟩
    · exact Or.inl (same.symm.trans taken)
    · obtain rfl := Option.some.inj (taken.symm.trans given)
      exact Or.inr (alive_of_active awake)
  · rw [none]
    rcases waits with
      ⟨same, status, receiver, sends, aim, content, -⟩ | ⟨⟨life, given⟩, -, runs, awake, -⟩
    · refine .apart rfl (not_busy_of_hand free rfl same) ?_ ?_ (fun _ => ⟨aim, ?_⟩) (by simp)
      · rintro ⟨speaks, target⟩
        exact silent ⟨status.symm.trans speaks, receiver.symm.trans target⟩
      · rw [sends]
        decide
      · rw [content]
        exact type
    · refine .apart rfl ?_ (not_speaks_of_status runs (by decide)) ?_ ?_ (by simp)
      · rintro (spawning | ⟨-, held, taken, spawns⟩)
        · exact free (Or.inl spawning)
        · obtain rfl := Option.some.inj (taken.symm.trans given)
          cases type.symm.trans spawns
      · rintro receives
        rw [receives] at awake
        cases awake
      · intro sends
        rw [sends] at awake
        cases awake

/-- A shell that receives from the process server waits for it to send, or takes what it sends. -/
theorem heard_cases (standing : service.system.Standing)
    (conversing : service.system.Conversing (fun idx => permanent idx) True queries)
    (shell : service.system.curr = shellSlot) {sender : Slot}
    (allowed : service.system.Allowed (.heed sender))
    (move : System.Move service.system (.heed sender) middle) :
    middle.engaged processSlot = service.hand ∧
    (middle.thread processSlot).talk = (service.system.thread processSlot).talk ∧
    service.carry (.act (.heed sender)) middle.kernel processSlot = service.letter processSlot ∧
    (¬ service.Speaks ∧ middle.status processSlot = service.system.status processSlot ∧
        (middle.kernel.procSet processSlot).toReceiverPid =
          (service.system.kernel.procSet processSlot).toReceiverPid ∧
        middle.status shellSlot = .waitToRecv ∧
        (middle.kernel.procSet shellSlot).fromSenderPid = idx2pid processSlot ∨
      service.Speaks ∧ middle.status processSlot = .runnable ∧
        (middle.status shellSlot).active ∧
        (middle.kernel.page shellSlot).msg.content =
          (service.system.kernel.page processSlot).msg.content ∧
        service.carry (.act (.heed sender)) middle.kernel shellSlot =
          service.letter processSlot) := by
  have formed := standing.formed
  have apart : processSlot ≠ service.system.curr := by
    rw [shell]
    decide
  have own : service.system.kernel.currPid = idx2pid shellSlot :=
    formed.curr.trans (congrArg idx2pid shell)
  obtain ⟨-, rfl, -⟩ := allowed
  have calls : service.system.label (service.actOf (.act (.heed processSlot))) =
      some (.recv (idx2pid processSlot)) := rfl
  rcases move.of_recv calls (by decide) with ⟨nobody, rfl⟩ | ⟨target, offers, named, rfl⟩
  · have untouched : System.Untouched service.system
        (service.system.recvBlocked (.heed processSlot) (idx2pid processSlot)) processSlot :=
      System.untouched_recvBlocked apart
    have letter : service.carry (.act (.heed processSlot)) (service.system.recvBlocked
        (.heed processSlot) (idx2pid processSlot)).kernel processSlot =
        service.letter processSlot := by
      rw [carry_recvBlocked calls System.recvBlocked_status, Function.update_of_ne apart]
    refine ⟨untouched.engaged, congrArg Thread.talk untouched.thread, letter,
      Or.inl ⟨fun speaks => ?_, untouched.status, untouched.receiver, ?_, ?_⟩⟩
    · refine (nobody processSlot ?_).2 rfl
      rw [own]
      exact speaks_iff.mp speaks
    · rw [← shell]
      simp
    · rw [← shell]
      simp
  · have same : processSlot = target := idx2pid_inj.mp (named.resolve_left (by decide))
    subst same
    have speaks : service.Speaks := by
      rw [own] at offers
      exact speaks_iff.mpr offers
    have thread : (service.system.recvTaken (.heed processSlot) (idx2pid processSlot)
        processSlot).thread processSlot = service.system.thread processSlot :=
      System.recvTaken_thread_idx apart
    -- The process server has been chatting, so what it holds stays in its hand.
    have chats : (service.system.thread processSlot).talk = .quiet ∨
        (service.system.thread processSlot).talk = .leaving := by
      rw [formed.curr] at offers
      rcases conversing.offers_cases offers with
        ⟨request, -, isServer, -⟩ | ⟨accepted, isServer, -⟩ | ⟨-, -, talk, -⟩
      · have isServer : serves service.system.curr := isServer
        rw [shell] at isServer
        cases isServer
      · cases isServer
      · exact talk
    have awake : ((service.system.recvTaken (.heed processSlot) (idx2pid processSlot)
        processSlot).status service.system.curr).active := by
      rw [System.recvTaken_status apart]
      exact formed.active
    have stamp : ((service.system.recvTaken (.heed processSlot) (idx2pid processSlot)
        processSlot).kernel.page service.system.curr).msg.sender = idx2pid processSlot := by
      rw [System.recvTaken_msg]
      exact standing.stamped processSlot speaks.1
    have carried := carry_recvTaken calls (fun receives => by
      have receives : (service.system.recvTaken (.heed processSlot) (idx2pid processSlot)
        processSlot).status service.system.curr = .waitToRecv := receives
      rw [receives] at awake
      cases awake) stamp apart
    refine ⟨?_, congrArg Thread.talk thread, ?_, Or.inr ⟨speaks, by simp, ?_, ?_, ?_⟩⟩
    · rcases chats with quiet | leaving
      · simp [hand, System.engaged, thread, quiet]
      · simp [hand, System.engaged, thread, leaving]
    · rw [carried, Function.update_of_ne apart, Function.update_of_ne apart]
    · rw [← shell]
      exact awake
    · rw [← shell, System.recvTaken_msg]
    · rw [carried, ← shell, Function.update_self]

/-- The shell receives the reply to its request. -/
theorem Sound.hears (sound : service.Sound history) (standing : service.system.Standing)
    (conversing : service.system.Conversing (fun idx => permanent idx) True queries)
    (shell : service.system.curr = shellSlot) {sender : Slot} {isForeground : Bool}
    (allowed : service.system.Allowed (.heed sender))
    (asked : service.shell = .asked isForeground)
    (move : System.Move service.system (.heed sender) middle) :
    ({ service with
      shell := .answered isForeground
      system := middle, letter := service.carry (.act (.heed sender)) middle.kernel } :
      Service).Sound history := by
  have stays : permanent service.system.curr := by
    rw [shell]
    rfl
  have active : (service.system.status shellSlot).active := by
    rw [← shell]
    exact standing.formed.active
  obtain ⟨same, talk, letter, turn⟩ := heard_cases standing conversing shell allowed move
  refine sound.messaged (.act (.heed sender)) standing stays allowed move
    ⟨by simp [actOf], by simp [actOf]⟩ rfl rfl rfl rfl talk
    (fun accepted taken => Or.inl (same.symm.trans taken)) ?_
  have free : service.Spared → ({ service with
      shell := .answered isForeground
      system := middle, letter := service.carry (.act (.heed sender)) middle.kernel } :
      Service).Spared := fun free => spared_of_hand free rfl same
  have link := sound.link
  generalize awaited history = pid at link ⊢
  cases link with
  | apart prompts =>
    exact absurd prompts (not_prompts_of_asked asked)
  | asking _ _ _ sends =>
    rw [sends] at active
    cases active
  | @serving flag holds silent waits =>
    obtain ⟨-, status, receiver, receives, expected⟩ := turn.resolve_right fun ⟨speaks, _⟩ =>
      silent speaks
    have matching : flag = isForeground := by
      rcases waits with ⟨other, -⟩ | ⟨other, -⟩ <;> rw [asked] at other
      · exact (Shell.asked.inj other).symm
      · cases other
    subst matching
    refine .serving ?_ ?_ (Or.inr ⟨rfl, receives, expected⟩)
    · obtain ⟨accepted, taken, alike, place⟩ := holds
      refine ⟨accepted, same.trans taken, alike, place.imp_right ?_⟩
      rintro ⟨handling, type, numbered⟩
      exact ⟨handling, type, letter.trans numbered⟩
    · rintro ⟨speaks, target⟩
      exact silent ⟨status.symm.trans speaks, receiver.symm.trans target⟩
  | @replying flag _ other _ idle speaks said agrees =>
    obtain ⟨-, runs, awake, content, told⟩ := turn.resolve_left fun ⟨silent, _⟩ => silent speaks
    rw [asked] at other
    obtain rfl := Shell.asked.inj other
    have silent : ¬ ({ service with
        shell := .answered isForeground
        system := middle, letter := service.carry (.act (.heed sender)) middle.kernel } :
        Service).Speaks := not_speaks_of_status runs (by decide)
    have type : (middle.kernel.page shellSlot).msg.content.word 0 =
        (service.system.kernel.page processSlot).msg.content.word 0 := by rw [content]
    unfold Agrees at agrees
    split at agrees
    · -- The program runs in the foreground, so the shell goes on to wait for its end.
      rename_i runs
      obtain ⟨ok, rfl⟩ := runs
      obtain ⟨rfl, flag⟩ := agrees
      exact .running flag (free idle) silent (Or.inl ⟨rfl, awake, type.trans ok, told.trans said⟩)
    · rename_i ends
      subst agrees
      refine .apart ?_ (free idle).1 silent ?_ (fun sends => ?_) fun _ _ => told.trans said
      · simpa only [prompts, replyType, type, decide_eq_true_eq] using ends
      · intro receives
        rw [receives] at awake
        cases awake
      · rw [sends] at awake
        cases awake
  | running _ _ _ waits =>
    rcases waits with ⟨other, -⟩ | ⟨other, -⟩ <;> rw [asked] at other <;> cases other
  | reporting answered =>
    rw [asked] at answered
    cases answered

/-- The shell receives the notice that its foreground program has ended. -/
theorem Sound.waits (sound : service.Sound history) (standing : service.system.Standing)
    (conversing : service.system.Conversing (fun idx => permanent idx) True queries)
    (shell : service.system.curr = shellSlot) {sender : Slot} {isForeground : Bool}
    (allowed : service.system.Allowed (.heed sender))
    (answered : service.shell = .answered isForeground) (more : service.prompts = false)
    (move : System.Move service.system (.heed sender) middle) :
    ({ service with
      shell := .waiting
      system := middle, letter := service.carry (.act (.heed sender)) middle.kernel } :
      Service).Sound history := by
  -- The notice that the shell takes is the one that its program's end has caused.
  have stays : permanent service.system.curr := by
    rw [shell]
    rfl
  have active : (service.system.status shellSlot).active := by
    rw [← shell]
    exact standing.formed.active
  have awake : service.system.status shellSlot ≠ .waitToRecv := by
    intro receives
    rw [receives] at active
    cases active
  obtain ⟨same, talk, letter, turn⟩ := heard_cases standing conversing shell allowed move
  refine sound.messaged (.act (.heed sender)) standing stays allowed move
    ⟨by simp [actOf], by simp [actOf]⟩ rfl rfl rfl rfl talk
    (fun accepted taken => Or.inl (same.symm.trans taken)) ?_
  have free : service.Spared → ({ service with
      shell := .waiting
      system := middle, letter := service.carry (.act (.heed sender)) middle.kernel } :
      Service).Spared := fun free => spared_of_hand free rfl same
  have link := sound.link
  generalize awaited history = pid at link ⊢
  cases link with
  | apart prompts =>
    rw [more] at prompts
    cases prompts
  | asking asked =>
    rw [answered] at asked
    cases asked
  | serving _ _ waits =>
    rcases waits with ⟨asked, -⟩ | ⟨-, receives, -⟩
    · rw [answered] at asked
      cases asked
    · exact absurd receives awake
  | replying asked =>
    rw [answered] at asked
    cases asked
  | running flag idle silent waits =>
    obtain ⟨-, status, receiver, receives, expected⟩ := turn.resolve_right fun ⟨speaks, _⟩ =>
      silent speaks
    refine .running flag (free idle) ?_ (Or.inr ⟨rfl, receives, expected⟩)
    rintro ⟨speaks, target⟩
    exact silent ⟨status.symm.trans speaks, receiver.symm.trans target⟩
  | reporting _ _ idle speaks =>
    obtain ⟨-, runs, awake, -⟩ := turn.resolve_left fun ⟨silent, _⟩ => silent speaks
    refine .apart rfl (not_busy_of_hand idle rfl same) (not_speaks_of_status runs (by decide)) ?_
      (fun sends => ?_)
      (by simp)
    · intro receives
      rw [receives] at awake
      cases awake
    · rw [sends] at awake
      cases awake

/-- What the shell does leaves the command and the process server in step. -/
theorem Sound.works (sound : service.Sound history) (standing : service.system.Standing)
    (conversing : service.system.Conversing (fun idx => permanent idx) True queries)
    (shell : service.system.curr = shellSlot) (careful : service.Careful deed)
    (allowed : service.system.Allowed (service.actOf deed)) (works : Works service deed planned)
    (move : System.Move service.system (service.actOf deed) middle) :
    ({ planned with system := middle, letter := service.carry deed middle.kernel } :
      Service).Sound history := by
  have stays : permanent service.system.curr := by
    rw [shell]
    rfl
  cases works with
  | interrupted => exact sound.interrupted standing.formed stays move
  | commands prompts accepted =>
    exact sound.commands standing conversing shell careful allowed prompts accepted move
  | kills prompts => exact sound.kills standing conversing shell allowed prompts move
  | hears asked => exact sound.hears standing conversing shell allowed asked move
  | waits answered more => exact sound.waits standing conversing shell allowed answered more move

end OfShell

end Service

end Egos.Apps
