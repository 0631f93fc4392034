import Egos.Apps.Spawning

/-! What the process server tells the shell, and when it tells it that a program has ended. -/

namespace Egos.Apps

open Egos.Grass

namespace Service

section Telling

variable {service planned : Service} {history : List Note} {middle : System} {deed : Deed}
variable {queries : List Exchange} {pid : Option Int} {isForeground : Bool}

/-- What the process server tells the shell waits in its page or has arrived in that of the shell. -/
theorem said_cases (standing : service.system.Standing) (server : service.system.curr = processSlot)
    {msg : List UInt8} (told : service.actOf deed = .tell shellSlot msg)
    (move : System.Move service.system (service.actOf deed) middle) :
    middle.thread processSlot = service.system.thread processSlot ∧
    ((¬ service.system.kernel.awaits shellSlot (idx2pid processSlot) ∧
        System.Untouched service.system middle shellSlot ∧
        middle.status processSlot = .waitToSend ∧
        (middle.kernel.procSet processSlot).toReceiverPid = idx2pid shellSlot ∧
        (middle.kernel.page processSlot).msg.content = service.system.content msg ∧
        service.carry deed middle.kernel processSlot = service.letterOf deed ∧
        service.carry deed middle.kernel shellSlot = service.letter shellSlot) ∨
      service.system.kernel.awaits shellSlot (idx2pid processSlot) ∧
        (middle.status processSlot).active ∧ middle.status shellSlot = .runnable ∧
        (middle.kernel.page shellSlot).msg.content = service.system.content msg ∧
        service.carry deed middle.kernel shellSlot = service.letterOf deed) := by
  -- The notice either is copied at once or leaves the process server blocked on it.
  have formed := standing.formed
  have apart : shellSlot ≠ service.system.curr := by
    rw [server]
    decide
  have own : service.system.kernel.currPid = idx2pid processSlot :=
    formed.curr.trans (congrArg idx2pid server)
  have calls : service.system.label (service.actOf deed) = some (.send (idx2pid shellSlot) msg) := by
    rw [told]
    rfl
  have issued : service.system.issue (service.actOf deed) =
      service.system.thread processSlot := by
    rw [told, ← server]
    rfl
  rw [← own]
  rcases move.of_send calls with ⟨busy, rfl⟩ | ⟨awaits, rfl⟩
  · have carried : service.carry deed (service.system.sendBlocked (service.actOf deed) shellSlot
        msg).kernel = Function.update service.letter service.system.curr (service.letterOf deed) :=
      carry_sendBlocked calls busy
    refine ⟨?_, Or.inl ⟨busy, System.untouched_sendBlocked apart, ?_⟩⟩
    · rw [← issued, ← server, System.sendBlocked_thread]
    · rw [← server]
      refine ⟨by simp, by simp, ?_, ?_, ?_⟩
      · rw [System.sendBlocked_msg]
        rfl
      · rw [carried, Function.update_self]
      · rw [carried, Function.update_of_ne apart]
  · have stamp : ((service.system.sendDelivered (service.actOf deed) shellSlot msg).kernel.page
        shellSlot).msg.sender = idx2pid service.system.curr := by
      rw [System.sendDelivered_msg]
      exact formed.curr
    refine ⟨?_, Or.inr ⟨awaits, ?_, by simp, ?_, ?_⟩⟩
    · rw [← issued, ← server, System.sendDelivered_thread]
    · rw [← server, System.sendDelivered_status apart]
      exact formed.active
    · rw [System.sendDelivered_msg]
      rfl
    · rw [carry_sendDelivered calls awaits stamp, Function.update_self]

/-- A process server at the top of its main loop handles no request. -/
theorem spared_of_top (desk : service.desk = .top) : service.Spared := by
  refine ⟨?_, fun kills => ?_⟩
  · rintro (⟨number, stage, spawning⟩ | ⟨handling, -⟩)
    · cases desk.symm.trans spawning
    · cases desk.symm.trans handling
  · cases desk.symm.trans kills.1

/-- A process server that may run does not speak to the shell. -/
theorem not_speaks_of_active (active : (service.system.status processSlot).active) :
    ¬ service.Speaks := by
  intro speaks
  rw [speaks.1] at active
  cases active

/-- A process server in the middle of its main loop tells the shell things only when it is quiet. -/
theorem Sound.quiet (sound : service.Sound history) (server : service.system.curr = processSlot)
    {msg : List UInt8} (allowed : service.system.Allowed (.tell shellSlot msg)) :
    (service.system.thread processSlot).talk = .quiet := by
  have seated := sound.seated
  rcases allowed.2.2.2 with quiet | leaving
  · exact server ▸ quiet
  · rw [System.currThread, server] at leaving
    simp [Seated, leaving] at seated

/-- The shell knows whether the program it has asked for runs in the foreground. -/
theorem foreground_of_waits {active receives : Prop}
    (waits : service.shell = .asked isForeground ∧ active ∨
      service.shell = .answered isForeground ∧ receives) :
    Shell.isForeground service.shell = isForeground := by
  rcases waits with ⟨asked, -⟩ | ⟨answered, -⟩
  · rw [asked]
    rfl
  · rw [answered]
    rfl

/-- A reply makes the shell wait for the program that it names, or for none. -/
theorem awaited_replied {number : Nat} {stage : Stage} {stale : UInt8}
    (desk : service.desk = .spawning number stage) (ends : stage = .gotApp ∨ stage = .started)
    (none : awaited history = none) (flag : Shell.isForeground service.shell = isForeground) :
    awaited (history ++ service.notes (.answer stale)) =
      if service.outcome = cmdOk ∧ isForeground then some service.appPid else Option.none := by
  rcases ends with rfl | rfl
  · have failed : service.outcome = cmdError := by simp only [outcome, desk]
    have nothing : service.notes (.answer stale) = [] := by simp only [notes, desk]
    rw [nothing, List.append_nil, none, failed, if_neg (by simp)]
  · have done : service.outcome = cmdOk := by simp only [outcome, desk]
    have shown : service.notes (.answer stale) = [.spawned service.appPid isForeground] := by
      simp only [notes, desk, flag]
    rw [shown, awaited_spawned, none, done]
    simp

/-- The reply to a request ends its handling, and the shell waits for a foreground program. -/
theorem Sound.answers (sound : service.Sound history) (standing : service.system.Standing)
    (server : service.system.curr = processSlot) {stale : UInt8}
    (careful : service.Careful (.answer stale))
    (allowed : service.system.Allowed (service.actOf (.answer stale)))
    (move : System.Move service.system (service.actOf (.answer stale)) middle)
    {number : Nat} {stage : Stage} {accepted : Accepted}
    (desk : service.desk = .spawning number stage) (ends : stage = .gotApp ∨ stage = .started)
    (held : service.system.currThread.hold = some accepted) :
    ({ service with
      desk := .top
      shellWaiting := foreground accepted.request stale
      system := middle, letter := service.carry (.answer stale) middle.kernel } :
      Service).Sound (history ++ service.notes (.answer stale)) := by
  have formed := standing.formed
  have quiet := sound.quiet server allowed
  have busy : service.Busy := Or.inl ⟨number, stage, desk⟩
  -- The request in the hand of the server is the last one of the shell.
  obtain ⟨none, isForeground, ⟨taken, given, alike, -⟩, waits⟩ := sound.link.of_busy busy
  have same : taken = accepted := by
    have own : service.hand = some accepted := by
      rw [System.currThread, server] at held
      simp [hand, System.engaged, quiet, held]
    exact Option.some.inj (given.symm.trans own)
  subst same
  obtain rfl := sound.link.number desk
  have replied : awaited (history ++ service.notes (.answer stale)) =
      if service.outcome = cmdOk ∧ isForeground then some service.appPid else Option.none :=
    awaited_replied desk ends none (foreground_of_waits waits)
  have type : (service.system.content (littleEndian service.outcome)).word 0 = service.outcome := by
    refine load_word_zero ?_ (List.take_of_length_le ?_)
    · unfold outcome
      split <;> decide
    · simp [littleEndian]
  have numbered : service.letterOf (.answer stale) = .reply service.requests := by
    simp only [letterOf, desk]
  have idle : ({ service with
      desk := .top
      shellWaiting := foreground taken.request stale
      system := middle, letter := service.carry (.answer stale) middle.kernel } :
      Service).Spared := spared_of_top rfl
  have agrees : ({ service with
      desk := .top
      shellWaiting := foreground taken.request stale
      system := middle, letter := service.carry (.answer stale) middle.kernel } :
      Service).Agrees isForeground service.outcome
        (awaited (history ++ service.notes (.answer stale))) := by
    rw [replied]
    unfold Agrees
    split
    · exact ⟨rfl, (alike stale).trans (‹_ ∧ _› : _ ∧ _).2⟩
    · rfl
  obtain ⟨thread, turn⟩ := said_cases standing server rfl move
  refine ⟨?_, ?_, fun handling => ?_, ?_, ?_, fun pid freed => ?_, ?_⟩
  · simp only [Seated, thread, quiet]
  · refine sound.users_after formed allowed (fun mortal => absurd ?_ mortal) move
    rw [server]
    rfl
  · cases handling
  · rcases turn with ⟨busy, untouched, sends, aim, content, letter, -⟩ |
      ⟨awaits, active, runs, content, letter⟩
    · -- The shell has not issued its receive.
      rcases waits with ⟨asked, runs⟩ | ⟨-, receives, expected⟩
      · refine .replying asked ?_ idle ⟨sends, aim⟩ (letter.trans numbered) ?_
        · exact untouched.status.symm ▸ runs
        · rw [content, type]
          exact agrees
      · exact absurd ⟨receives, Or.inl expected⟩ busy
    · rcases waits with ⟨-, runs⟩ | ⟨answered, -⟩
      · have receives : service.system.status shellSlot = .waitToRecv := awaits.1
        rw [receives] at runs
        cases runs
      have silent : ¬ ({ service with
          desk := .top
          shellWaiting := foreground taken.request stale
          system := middle, letter := service.carry (.answer stale) middle.kernel } :
          Service).Speaks := not_speaks_of_active active
      have reply : (middle.kernel.page shellSlot).msg.content.word 0 = service.outcome := by
        rw [content, type]
      unfold Agrees at agrees
      split at agrees
      · -- The shell goes on to wait for the end of the program.
        rename_i stays
        obtain ⟨ok, rfl⟩ := stays
        obtain ⟨named, flags⟩ := agrees
        rw [named]
        refine .running flags idle silent (Or.inl ⟨answered, ?_, reply.trans ok, ?_⟩)
        · exact runs.symm ▸ rfl
        · exact letter.trans numbered
      · rename_i leaves
        rw [agrees]
        refine .apart ?_ idle.1 silent ?_ (fun sends => ?_) fun _ _ => letter.trans numbered
        · simpa only [prompts, answered, replyType, reply, decide_eq_true_eq] using leaves
        · intro receives
          cases runs.symm.trans receives
        · cases runs.symm.trans sends
  · intro _ waiting remains
    have alive : service.Alive service.appPid := by
      refine (remains.resolve_right (by simp)).mono fun idx free => ?_
      exact move.unused formed allowed (by simp [actOf]) free
    have stays : isForeground = true := (alike stale).symm.trans waiting
    have ok : service.outcome = cmdOk := by
      -- A careful run does not fail to start a foreground program while the last one is alive.
      rcases careful with ok | dead | background
      · exact ok
      · exact absurd alive dead
      · cases (background taken held).symm.trans waiting
    rw [replied, if_pos ⟨ok, stays⟩]
  · cases freed
  · rcases ends with rfl | rfl
    · have nothing : service.notes (.answer stale) = [] := by simp only [notes, desk]
      rw [nothing, List.append_nil]
      exact sound.judged
    · have shown : service.notes (.answer stale) =
          [.spawned service.appPid (Shell.isForeground service.shell)] := by
        simp only [notes, desk]
      rw [shown]
      exact sound.judged.append (by simp)

/-- A notice is about the program that the shell waits for. -/
theorem Sound.expected (sound : service.Sound history) {pid : Int}
    (desk : service.desk = .freed pid) (notifies : service.notifies pid = true) :
    awaited history = some pid := by
  obtain ⟨flag, rfl⟩ : service.shellWaiting ∧ service.appPid = pid := by
    simpa only [Service.notifies, decide_eq_true_eq] using notifies
  refine sound.due (fun number stage spawning => ?_) flag (Or.inr desk)
  cases desk.symm.trans spawning

/-- The notice that the shell waits for ends its wait. -/
theorem Sound.notifies (sound : service.Sound history) (standing : service.system.Standing)
    (server : service.system.curr = processSlot)
    (allowed : service.system.Allowed (service.actOf .notify))
    (move : System.Move service.system (service.actOf .notify) middle) {pid : Int}
    (desk : service.desk = .freed pid) (notifies : service.notifies pid = true) :
    ({ service with
      desk := .top
      system := middle, letter := service.carry .notify middle.kernel } :
      Service).Sound (history ++ service.notes .notify) := by
  have formed := standing.formed
  have waits := sound.expected desk notifies
  obtain ⟨flag, rfl⟩ : service.shellWaiting ∧ service.appPid = pid := by
    simpa only [Service.notifies, decide_eq_true_eq] using notifies
  have shown : service.notes .notify = [.ended service.appPid true] := by
    simp only [notes, desk]
  have idle : ({ service with
      desk := .top
      system := middle, letter := service.carry .notify middle.kernel } :
      Service).Spared := spared_of_top rfl
  obtain ⟨thread, turn⟩ := said_cases standing server rfl move
  refine ⟨?_, ?_, fun handling => ?_, ?_, ?_, fun pid freed => ?_, ?_⟩
  · simp only [Seated, thread, sound.quiet server allowed]
  · refine sound.users_after formed allowed (fun mortal => absurd ?_ mortal) move
    rw [server]
    rfl
  · cases handling
  · rw [shown, awaited_noticed waits]
    have link := sound.link
    rw [waits] at link
    have silent := silent_of_curr formed server
    generalize named : some service.appPid = pid at link
    cases link with
    | apart => cases named
    | asking => cases named
    | serving => cases named
    | replying _ _ _ speaks => exact absurd speaks silent
    | running _ _ _ listens =>
      rcases turn with ⟨busy, untouched, sends, aim, -, -, letter⟩ | ⟨awaits, active, runs, -, -⟩
      · -- The shell has not issued its second receive.
        rcases listens with ⟨answered, awake, ok, said⟩ | ⟨-, receives, expected⟩
        · refine .reporting answered ?_ idle.1 ⟨sends, aim⟩ ?_ (letter.trans said)
          · exact untouched.status.symm ▸ awake
          · simpa only [replyType, untouched.msg] using ok
        · exact absurd ⟨receives, Or.inl expected⟩ busy
      · rcases listens with ⟨-, awake, -⟩ | ⟨waiting, -⟩
        · have receives : service.system.status shellSlot = .waitToRecv := awaits.1
          rw [receives] at awake
          cases awake
        · refine .apart (by simp only [prompts, waiting]) idle.1 (not_speaks_of_active active) ?_
            (fun sends => ?_) fun _ answered => ?_
          · intro receives
            cases runs.symm.trans receives
          · cases runs.symm.trans sends
          · cases waiting.symm.trans answered
    | reporting => cases named
  · intro _ _ remains
    have alive : service.Alive service.appPid := by
      refine (remains.resolve_right (by simp)).mono fun idx free => ?_
      exact move.unused formed allowed (by simp [actOf]) free
    exact absurd alive (sound.buried _ desk)
  · cases freed
  · rw [shown]
    refine sound.judged.append fun pid noticed same => ?_
    obtain ⟨rfl, rfl⟩ := Note.ended.inj same
    exact iff_of_true rfl waits

/-- A process that ends without a notice is not the one that the shell waits for. -/
theorem Sound.unnoticed (sound : service.Sound history) (standing : service.system.Standing)
    (server : service.system.curr = processSlot) {pid : Int} (desk : service.desk = .freed pid)
    (silent : service.notifies pid = false) : awaited history ≠ some pid := by
  intro waits
  have link := sound.link
  rw [waits] at link
  generalize named : some pid = other at link
  cases link with
  | apart => cases named
  | asking => cases named
  | serving => cases named
  | replying _ _ _ speaks => exact silent_of_curr standing.formed server speaks
  | running flag =>
    obtain rfl := Option.some.inj named
    simp [Service.notifies, flag] at silent
  | reporting => cases named

/-- Everything stays sound with the end of a process that the shell does not wait for. -/
theorem Sound.ended (sound : service.Sound history) {pid : Int}
    (other : awaited history ≠ some pid) : service.Sound (history ++ [.ended pid false]) := by
  refine ⟨sound.seated, sound.users, sound.clients, ?_, ?_, sound.buried, ?_⟩
  · rw [awaited_ended]
    exact sound.link
  · rw [awaited_ended]
    exact sound.due
  · refine sound.judged.append fun pid noticed same => ?_
    obtain ⟨rfl, rfl⟩ := Note.ended.inj same
    exact iff_of_false Bool.false_ne_true other

/-- Nothing but a receive shows anything of the system calls and kernel functions. -/
theorem notes_act {act : Act} (other : act ≠ .listen) : service.notes (.act act) = [] := by
  unfold notes
  split
  · rename_i same
    cases same
  · rename_i same
    cases same
  · rename_i same
    exact absurd (Deed.act.inj same) other
  · rfl

/-- What a quiet process server has in its hand. -/
theorem hand_of_thread {accepted : Accepted} (server : service.system.curr = processSlot)
    (thread : service.system.currThread = ⟨some accepted, .quiet⟩) :
    service.hand = some accepted := by
  rw [System.currThread, server] at thread
  simp [hand, System.engaged, thread]

/-- A process server that handles another request is not busy with one for a program. -/
theorem idle_of_type {accepted : Accepted} (desk : service.desk = .handling)
    (taken : service.hand = some accepted) (type : accepted.request.word 0 ≠ procSpawn) :
    ¬ service.Busy := by
  rintro (⟨number, stage, spawning⟩ | ⟨-, other, given, spawns⟩)
  · rw [desk] at spawning
    cases spawning
  · obtain rfl := Option.some.inj (given.symm.trans taken)
    exact type spawns

/-- What the process server does leaves everything sound. -/
theorem Sound.serves (sound : service.Sound history) (standing : service.system.Standing)
    (conversing : service.system.Conversing (fun idx => permanent idx) True queries)
    (server : service.system.curr = processSlot) (careful : service.Careful deed)
    (allowed : service.system.Allowed (service.actOf deed)) (serves : Serves service deed planned)
    (move : System.Move service.system (service.actOf deed) middle) :
    ({ planned with system := middle, letter := service.carry deed middle.kernel } :
      Service).Sound (history ++ service.notes deed) := by
  have formed := standing.formed
  have stays : permanent service.system.curr := by
    rw [server]
    rfl
  cases serves with
  | interrupted =>
    rw [notes_act (by simp), List.append_nil]
    exact sound.interrupted formed stays move
  | listens done =>
    rcases done with top | ⟨accepted, handling, thread, type⟩ | ⟨pid, freed, silent⟩
    · have nothing : service.notes (.act .listen) = [] := by simp only [notes, top]
      rw [nothing, List.append_nil]
      refine sound.listens standing conversing server allowed move (spared_of_top top).1 ?_
      simp [top]
    · have nothing : service.notes (.act .listen) = [] := by simp only [notes, handling]
      rw [nothing, List.append_nil]
      refine sound.listens standing conversing server allowed move
        (idle_of_type handling (hand_of_thread server thread) ?_) ?_
      · rw [type]
        decide
      · simp [handling]
    · have shown : service.notes (.act .listen) = [.ended pid false] := by
        simp only [notes, freed, server, if_true]
      rw [shown]
      refine Sound.ended ?_ (sound.unnoticed standing server freed silent)
      refine sound.listens standing conversing server allowed move ?_ ?_
      · rintro (⟨number, stage, spawning⟩ | ⟨handling, -⟩)
        · cases freed.symm.trans spawning
        · cases freed.symm.trans handling
      · simp [freed]
  | @begins accepted msg desk thread type =>
    have taken := hand_of_thread server thread
    have busy : service.Busy := Or.inr ⟨desk, accepted, taken, type⟩
    -- The message of the request tells its number.
    have number : service.number = service.requests := by
      obtain ⟨-, isForeground, ⟨-, -, -, ⟨stage, spawning⟩ | ⟨-, -, letter⟩⟩, -⟩ :=
        sound.link.of_busy busy
      · cases desk.symm.trans spawning
      · simp only [Service.number, server, letter]
    rw [notes_act (by simp), List.append_nil, number]
    refine sound.asks standing server allowed move busy fun _ number other spawning => ?_
    cases desk.symm.trans spawning
  | @asks number stage next target msg desk isServer same =>
    obtain rfl := sound.link.number desk
    rw [notes_act (by simp), List.append_nil]
    refine sound.asks standing server allowed move (Or.inl ⟨_, stage, desk⟩)
      fun early number other spawning => ?_
    obtain ⟨-, rfl⟩ := Desk.spawning.inj (desk.symm.trans spawning)
    exact same.symm.trans early
  | @awaits number stage next desk same =>
    obtain rfl := sound.link.number desk
    rw [notes_act (by simp), List.append_nil]
    refine sound.replies standing conversing server move (Or.inl ⟨_, stage, desk⟩)
      fun early number other spawning => ?_
    obtain ⟨-, rfl⟩ := Desk.spawning.inj (desk.symm.trans spawning)
    exact same.symm.trans early
  | allocates desk found =>
    obtain rfl := sound.link.number desk
    rw [notes_act (by simp), List.append_nil]
    obtain ⟨target, free, rfl⟩ := move.of_alloc
    have apart : ∀ idx, permanent idx → idx ≠ target := by
      rintro idx stays rfl
      exact standing.used idx stays free
    exact sound.prepares standing server allowed move desk
      (System.untouched_allocated (apart processSlot rfl))
      (System.untouched_allocated (apart shellSlot rfl)) rfl
  | readies desk =>
    obtain rfl := sound.link.number desk
    rw [notes_act (by simp), List.append_nil]
    obtain ⟨target, rfl, rfl⟩ := move.of_setReady
    have apart : ∀ idx, permanent idx → idx ≠ target := by
      rintro idx stays rfl
      exact (standing.permanents idx stays).2 (allowed.2 idx rfl)
    exact sound.prepares standing server allowed move desk
      (System.untouched_setStatus (apart processSlot rfl))
      (System.untouched_setStatus (apart shellSlot rfl)) rfl
  | answers desk ends held =>
    exact sound.answers standing server careful allowed move desk ends held
  | @frees accepted desk thread type =>
    have taken := hand_of_thread server thread
    rw [notes_act (by simp), List.append_nil]
    refine sound.frees standing server allowed move desk ?_ (idle_of_type desk taken ?_)
      (Or.inr ⟨rfl, sound.clients desk accepted taken⟩)
    · rw [← server]
      exact congrArg Thread.talk thread
    · rw [type]
      decide
  | @freesAll accepted desk thread type =>
    have taken := hand_of_thread server thread
    rw [notes_act (by simp), List.append_nil]
    refine sound.frees standing server allowed move desk ?_ (idle_of_type desk taken ?_)
      (Or.inl rfl)
    · rw [← server]
      exact congrArg Thread.talk thread
    · rw [type]
      decide
  | notifies desk notifies => exact sound.notifies standing server allowed move desk notifies

end Telling

section Careful

variable {service planned next : Service} {history shown : List Note} {middle : System}
variable {deed : Deed}

/-- The shell shows nothing of its programs. -/
theorem notes_works (works : Works service deed planned) : service.notes deed = [] := by
  cases works with
  | interrupted => exact notes_act (by simp)
  | commands prompts accepted => unfold notes; split <;> simp_all
  | kills prompts => unfold notes; split <;> simp_all
  | hears asked => exact notes_act (by simp)
  | waits answered more => exact notes_act (by simp)

/-- Other processes show nothing of their programs. -/
theorem notes_beside {act : Act} (notServer : service.system.curr ≠ processSlot) :
    service.notes (.act act) = [] := by
  by_cases listens : act = .listen
  · subst listens
    unfold notes
    split <;> simp_all
  · exact notes_act listens

/-- What holds of the whole machine in a careful run. -/
structure InOrder (service : Service) (history : List Note) : Prop where
  standing : service.system.Standing
  conversing : ∃ queries, service.system.Conversing (fun idx => permanent idx) True queries
  sound : service.Sound history

/-- What the current program does leaves everything sound before a process is resumed. -/
theorem Sound.moved (sound : service.Sound history) (standing : service.system.Standing)
    {queries : List Exchange}
    (conversing : service.system.Conversing (fun idx => permanent idx) True queries)
    (careful : service.Careful deed) (allowed : service.system.Allowed (service.actOf deed))
    (program : service.program deed = some planned)
    (move : System.Move service.system (service.actOf deed) middle) :
    ({ planned with system := middle, letter := service.carry deed middle.kernel } :
      Service).Sound (history ++ service.notes deed) := by
  -- The process server and the shell have programs of their own; all others do no harm.
  unfold Service.program at program
  split at program
  · rename_i server
    exact sound.serves standing conversing server careful allowed (serves_of_serve program) move
  · rename_i notServer
    split at program
    · rename_i shell
      have works := works_of_runShell program
      rw [notes_works works, List.append_nil]
      exact sound.works standing conversing shell careful allowed works move
    · rename_i notShell
      obtain ⟨rfl, act, rfl, harmless⟩ := of_runOther program
      rw [notes_beside notServer, List.append_nil]
      exact sound.others standing conversing allowed notServer notShell harmless move

/-- Every careful step leaves the machine in order. -/
theorem InOrder.step (order : service.InOrder history)
    (taken : Steps Careful service deed next shown) : next.InOrder (history ++ shown) := by
  obtain ⟨⟨allowed, careful⟩, stepped⟩ := taken
  obtain ⟨planned, system, exchanges, program, moved, rfl, rfl⟩ := step_eq_ok stepped
  obtain ⟨queries, conversing⟩ := order.conversing
  obtain ⟨standing, middle, move, -, ended⟩ := order.standing.moves allowed moved
  have gentle := System.gentle_of_allowed order.standing.formed allowed
  have talking := move.conversing conversing order.standing (fun _ stays => stays) allowed gentle
  have sound := order.sound.moved order.standing conversing careful allowed program move
  rcases ended with ⟨rfl, -⟩ | ⟨after, events, switched, rfl, -⟩
  · exact ⟨standing, ⟨_, talking⟩, sound⟩
  · refine ⟨standing, ⟨_, talking.resumed switched⟩, ?_⟩
    obtain ⟨kernel, -⟩ := System.resumed_fields switched
    rw [kernel, carry_switched switched]
    exact sound.resumed switched

/-- The machine starts in order. -/
theorem booted_inOrder (shellWaiting : Bool) : (booted shellWaiting).InOrder [] := by
  -- Nothing has been noted yet.
  have idle : ¬ (booted shellWaiting).Busy := (spared_of_top rfl).1
  have silent : ¬ (booted shellWaiting).Speaks := not_speaks_of_active rfl
  have dead : ¬ (booted shellWaiting).Alive 0 := by
    rintro ⟨idx, named, -⟩
    have := idx2pid_bounds idx
    omega
  have sends : ∀ idx, System.booted.status idx ≠ .waitToSend := by decide
  have deaf : System.booted.status shellSlot ≠ .waitToRecv := by decide
  refine ⟨System.booted_standing, ⟨[], System.booted_conversing _ _⟩, trivial,
    fun idx _ waits => absurd waits (sends idx), fun handling => ?_, ?_, fun _ _ ends => ?_,
    fun pid freed => ?_, ?_⟩
  · cases handling
  · exact .apart rfl idle silent deaf (fun waits => absurd waits (sends _)) (by simp [booted])
  · exact absurd (ends.resolve_right (by simp [booted])) dead
  · cases freed
  · intro before pid noticed after split
    simp at split

/-- The machine stays in order in careful runs. -/
theorem Reaches.inOrder {shellWaiting : Bool} (run : Reaches Careful shellWaiting service history) :
    service.InOrder history :=
  Run.invariant InOrder (booted_inOrder shellWaiting)
    (fun _ _ _ _ _ order taken => order.step taken) run

end Careful

end Service

end Egos.Apps
