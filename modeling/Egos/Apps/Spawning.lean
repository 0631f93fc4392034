import Egos.Apps.Prompts

/-! What the process server does from the receive of a request to its reply. -/

namespace Egos.Apps

open Egos.Grass

namespace Service

section Histories

variable {history : List Note} {pid : Int}

/-- A reply makes the shell wait for the program if it runs in the foreground. -/
theorem awaited_spawned (isForeground : Bool) :
    awaited (history ++ [.spawned pid isForeground]) =
      if isForeground then some pid else awaited history := by
  cases isForeground <;> simp [awaited, List.foldl_append]

/-- A process that ends without a notice leaves the shell waiting for the one it waits for. -/
theorem awaited_ended : awaited (history ++ [.ended pid false]) = awaited history := by
  simp [awaited, List.foldl_append]

/-- A notice about the process that the shell waits for ends the wait. -/
theorem awaited_noticed (waits : awaited history = some pid) :
    awaited (history ++ [.ended pid true]) = none := by
  have last : awaited (history ++ [.ended pid true]) =
      if (true = true) ∧ awaited history = some pid then none else awaited history := by
    simp [awaited, List.foldl_append]
  rw [last, if_pos ⟨rfl, waits⟩]

/-- All ends stay judged with one more note that is judged. -/
theorem Judged.append (judged : Judged history) {note : Note}
    (last : ∀ pid noticed, note = .ended pid noticed →
      (noticed = true ↔ awaited history = some pid)) : Judged (history ++ [note]) := by
  intro before pid noticed after split
  rcases append_singleton_split split with ⟨rfl, same⟩ | ⟨rest, earlier⟩
  · exact last pid noticed same
  · exact judged before pid noticed rest earlier

end Histories

section OfServer

variable {service planned next : Service} {history : List Note} {middle : System} {deed : Deed}
variable {queries : List Exchange} {pid : Option Int}

/-- A process server that runs does not speak to the shell. -/
theorem silent_of_curr (formed : WellFormed service.system.kernel)
    (server : service.system.curr = processSlot) : ¬ service.Speaks := by
  intro speaks
  have sends : service.system.status processSlot = .waitToSend := speaks.1
  rw [← server] at sends
  exact formed.not_waitToSend sends

/-- A process server that goes on with a request for a program keeps the shell waiting. -/
theorem Link.goOn (link : service.Link pid) (busy : service.Busy)
    (steady : System.Steady service.system next.system shellSlot)
    (shell : next.shell = service.shell) (requests : next.requests = service.requests)
    (hand : next.hand = service.hand) (silent : ¬ next.Speaks)
    (desk : ∃ stage, next.desk = .spawning service.requests stage) : next.Link pid := by
  obtain ⟨rfl, isForeground, ⟨accepted, taken, flag, -⟩, waits⟩ := link.of_busy busy
  refine .serving ⟨accepted, hand.trans taken, flag, Or.inl (requests ▸ desk)⟩ silent ?_
  rw [shell, steady.expected]
  rcases waits with ⟨asked, active⟩ | ⟨answered, receives, expected⟩
  · exact Or.inl ⟨asked, steady.active active⟩
  · exact Or.inr ⟨answered, (steady.idle_iff rfl).mpr receives, expected⟩

/-- The number of the request in the stages of spawning is that of the shell's last one. -/
theorem Link.number (link : service.Link pid) {number : Nat} {stage : Stage}
    (desk : service.desk = .spawning number stage) : number = service.requests := by
  obtain ⟨-, isForeground, ⟨accepted, -, -, ⟨other, same⟩ | ⟨same, -⟩⟩, -⟩ :=
    link.of_busy (Or.inl ⟨number, stage, desk⟩)
  · rw [desk] at same
    exact (Desk.spawning.inj same).1
  · rw [desk] at same
    cases same

/-- A process server that goes on with a request for a program leaves everything sound. -/
theorem Sound.spawns (sound : service.Sound history) (deed : Deed) (standing : service.system.Standing)
    (server : service.system.curr = processSlot)
    (allowed : service.system.Allowed (service.actOf deed))
    (move : System.Move service.system (service.actOf deed) middle) (busy : service.Busy)
    (system : next.system = middle) (shell : next.shell = service.shell)
    (requests : next.requests = service.requests) (hand : next.hand = service.hand)
    (untouched : System.Untouched service.system middle shellSlot) (silent : ¬ next.Speaks)
    (seated : next.Seated) {stage : Stage}
    (desk : next.desk = .spawning service.requests stage)
    (same : Stage.launched stage = false →
      (∀ number other, service.desk = .spawning number other → Stage.launched other = false) ∧
      service.actOf deed ≠ .alloc ∧ next.appPid = service.appPid ∧
      next.shellWaiting = service.shellWaiting) : next.Sound history := by
  -- A free slot is allocated, which none of the others refers to.
  subst system
  refine ⟨seated, ?_, fun handling => ?_, ?_, ?_, fun pid freed => ?_, sound.judged⟩
  · refine sound.users_after standing.formed allowed (fun mortal => absurd ?_ mortal) move
    rw [server]
    rfl
  · rw [desk] at handling
    cases handling
  · exact sound.link.goOn busy untouched.steady shell requests hand silent ⟨stage, desk⟩
  · intro early flag ends
    obtain ⟨unlaunched, other, appPid, flags⟩ := same (early _ _ desk)
    rw [flags] at flag
    rw [appPid, desk] at ends
    rw [appPid]
    have alive := ends.resolve_right (by simp)
    exact sound.due unlaunched flag (Or.inl (alive.mono fun idx free =>
      move.unused standing.formed allowed other free))
  · rw [desk] at freed
    cases freed

/-- A query of the process server keeps the request in its hand. -/
theorem Sound.asks (sound : service.Sound history) (standing : service.system.Standing)
    (server : service.system.curr = processSlot) {target : Slot} {msg : List UInt8}
    (allowed : service.system.Allowed (.query target msg))
    (move : System.Move service.system (.query target msg) middle) (busy : service.Busy)
    {stage : Stage}
    (same : Stage.launched stage = false →
      ∀ number other, service.desk = .spawning number other → Stage.launched other = false) :
    ({ service with
      desk := .spawning service.requests stage
      system := middle, letter := service.carry (.act (.query target msg)) middle.kernel } :
      Service).Sound history := by
  -- The request stays in the desk while the query goes to another server.
  have formed := standing.formed
  have calls : service.system.label (.query target msg) =
      some (.send (idx2pid target) msg) := rfl
  have quiet : (service.system.thread processSlot).talk = .quiet := server ▸ allowed.1
  have isServer : serves target := allowed.2.2.1
  have elsewhere : shellSlot ≠ service.system.curr := by
    rw [server]
    decide
  have notShell : shellSlot ≠ target := by
    rintro rfl
    cases isServer
  have notServer : target ≠ processSlot := by
    rintro rfl
    cases isServer
  have thread : middle.thread processSlot = service.system.issue (.query target msg) := by
    rcases move.of_send calls with ⟨-, rfl⟩ | ⟨-, rfl⟩
    · rw [← server, System.sendBlocked_thread]
    · rw [← server, System.sendDelivered_thread]
  have own : service.system.currThread = service.system.thread processSlot :=
    congrArg service.system.thread server
  refine sound.spawns (.act (.query target msg)) standing server allowed move busy rfl rfl
    rfl ?_ ?_ ?_ ?_ rfl fun early => ⟨same early, by simp [actOf], rfl, rfl⟩
  · simp [hand, System.engaged, thread, quiet, own, System.issue]
  · rcases move.of_send calls with ⟨-, rfl⟩ | ⟨-, rfl⟩
    · exact System.untouched_sendBlocked elsewhere
    · exact System.untouched_sendDelivered elsewhere notShell
  · rcases move.of_send calls with ⟨-, rfl⟩ | ⟨-, rfl⟩
    · rintro ⟨-, receiver⟩
      have receiver : ((service.system.sendBlocked (.query target msg) target msg).kernel.procSet
          processSlot).toReceiverPid = idx2pid shellSlot := receiver
      rw [← server, System.sendBlocked_receiver, idx2pid_inj] at receiver
      exact notShell receiver.symm
    · refine not_speaks_of_status (?_ : _ = service.system.status processSlot) ?_
      · show (service.system.sendDelivered _ target msg).status processSlot = _
        rw [← server, System.sendDelivered_status (server ▸ notServer)]
      · rw [← server]
        exact formed.not_waitToSend
  · simp [Seated, thread, System.issue]

/-- The receive of a reply keeps the request in the hand of the process server. -/
theorem Sound.replies (sound : service.Sound history) (standing : service.system.Standing)
    (conversing : service.system.Conversing (fun idx => permanent idx) True queries)
    (server : service.system.curr = processSlot)
    (move : System.Move service.system .await middle) (busy : service.Busy) {stage : Stage}
    (same : Stage.launched stage = false →
      ∀ number other, service.desk = .spawning number other → Stage.launched other = false) :
    ({ service with
      desk := .spawning service.requests stage
      system := middle, letter := service.carry (.act .await) middle.kernel } :
      Service).Sound history := by
  -- The reply changes the thread of the process server only.
  have formed := standing.formed
  have own : service.system.currThread = service.system.thread processSlot :=
    congrArg service.system.thread server
  have elsewhere : shellSlot ≠ service.system.curr := by
    rw [server]
    decide
  obtain ⟨target, request, asked, calls⟩ := move.of_await
  have isServer : serves target := by
    refine (conversing.clients processSlot target request rfl (Or.inl ?_)).1
    rw [← own]
    exact asked
  have notShell : shellSlot ≠ target := by
    rintro rfl
    cases isServer
  have issued : service.system.issue .await =
      { service.system.currThread with talk := .waiting target request } := by
    simp [System.issue, asked]
  have thread : middle.thread processSlot = service.system.issue .await := by
    rcases move.of_recv calls (idx2pid_bounds target).1.le with ⟨-, rfl⟩ | ⟨other, -, -, rfl⟩
    · rw [← server, System.recvBlocked_thread]
    · rw [← server, System.recvTaken_thread]
  rw [own] at asked issued
  refine sound.spawns (.act .await) standing server trivial move busy rfl rfl rfl ?_ ?_ ?_
    ?_ rfl fun early => ⟨same early, by simp [actOf], rfl, rfl⟩
  · simp [hand, System.engaged, thread, issued, asked]
  · rcases move.of_recv calls (idx2pid_bounds target).1.le with
      ⟨-, rfl⟩ | ⟨other, -, named, rfl⟩
    · exact System.untouched_recvBlocked elsewhere
    · have positive := (idx2pid_bounds target).1
      have taken : target = other := idx2pid_inj.mp (named.resolve_left (by omega))
      exact System.untouched_recvTaken elsewhere (taken ▸ notShell)
  · rcases move.of_recv calls (idx2pid_bounds target).1.le with
      ⟨-, rfl⟩ | ⟨other, offers, -, rfl⟩
    · refine not_speaks_of_status (?_ : _ = Status.waitToRecv) (by decide)
      show (service.system.recvBlocked _ _).status processSlot = _
      rw [← server, System.recvBlocked_status]
    · refine not_speaks_of_status (?_ : _ = service.system.status processSlot) ?_
      · show (service.system.recvTaken _ _ _).status processSlot = _
        rw [← server, System.recvTaken_status (formed.offers_ne offers)]
      · rw [← server]
        exact formed.not_waitToSend
  · simp [Seated, thread, issued]

/-- The process server stays seated when it spawns a program without saying anything. -/
theorem Seated.spawning (seated : service.Seated) {number : Nat} {stage other : Stage}
    (before : service.desk = .spawning number stage)
    (talk : (next.system.thread processSlot).talk = (service.system.thread processSlot).talk)
    (after : next.desk = .spawning service.requests other) : next.Seated := by
  unfold Seated at seated ⊢
  rw [talk]
  split at seated
  · trivial
  · rw [before] at seated
    cases seated
  · exact ⟨_, _, after⟩
  · exact ⟨_, _, after⟩
  · exact seated

/-- Allocating a process and making it ready keeps the request in the hand of the server. -/
theorem Sound.prepares (sound : service.Sound history) (standing : service.system.Standing)
    (server : service.system.curr = processSlot) {act : Act} {appPid : Int}
    (allowed : service.system.Allowed act) (move : System.Move service.system act middle)
    {number : Nat} {stage after : Stage} (desk : service.desk = .spawning number stage)
    (process : System.Untouched service.system middle processSlot)
    (shell : System.Untouched service.system middle shellSlot)
    (launched : Stage.launched after = true) :
    ({ service with
      appPid := appPid, desk := .spawning service.requests after
      system := middle, letter := service.carry (.act act) middle.kernel } :
      Service).Sound history := by
  -- Neither the shell nor the server is touched, and the desk has the same request.
  have silent := silent_of_curr standing.formed server
  refine sound.spawns (.act act) standing server allowed move (Or.inl ⟨number, stage, desk⟩)
    rfl rfl rfl process.engaged shell ?_ ?_ rfl fun early => ?_
  · simpa only [Speaks, process.status, process.receiver] using silent
  · exact sound.seated.spawning desk (congrArg Thread.talk process.thread) rfl
  · rw [launched] at early
    cases early

/-- Freeing user applications leaves the process server and the shell as they are, and what is
due remains due. -/
theorem Sound.frees (sound : service.Sound history) (standing : service.system.Standing)
    (server : service.system.curr = processSlot) {pid : Int} {desk : Desk}
    (allowed : service.system.Allowed (.free pid))
    (move : System.Move service.system (.free pid) middle) (handles : service.desk = .handling)
    (quiet : (service.system.thread processSlot).talk = .quiet) (idle : ¬ service.Busy)
    (after : desk = .top ∨ desk = .freed pid ∧ service.Alive pid) :
    ({ service with
      desk := desk
      system := middle, letter := service.carry (.act (.free pid)) middle.kernel } :
      Service).Sound history := by
  have formed := standing.formed
  have unused : ∀ idx, service.system.status idx = .unused → middle.status idx = .unused :=
    fun idx free => move.unused formed allowed (by simp) free
  -- Only user applications are freed.
  have others : ∀ idx, permanent idx → System.Untouched service.system middle idx := by
    intro idx stays
    rcases move.of_free with ⟨target, rfl, rfl⟩ | ⟨rfl, rfl⟩
    · refine System.untouched_setStatus ?_
      rintro rfl
      rcases allowed.2 with wildcard | high
      · have := idx2pid_bounds idx
        omega
      · exact System.not_permanent_iff.mpr high stays
    · exact System.untouched_killedAll (System.killedAll_permanent formed.pids stays)
  have process := others processSlot rfl
  have carried : service.carry (.act (.free pid)) middle.kernel = service.letter := by
    rw [carry_silent rfl]
    exact Function.update_eq_self _ _
  have free : ¬ ({ service with
      desk := desk
      system := middle, letter := service.carry (.act (.free pid)) middle.kernel } :
      Service).Busy := by
    rintro (⟨number, stage, spawning⟩ | ⟨handling, -⟩)
    · rcases after with rfl | ⟨rfl, -⟩ <;> cases spawning
    · rcases after with rfl | ⟨rfl, -⟩ <;> cases handling
  refine ⟨?_, ?_, fun handling => ?_, ?_, ?_, fun other freed alive => ?_, sound.judged⟩
  · simp only [Seated, process.thread, quiet]
  · refine sound.users_after formed allowed (fun mortal => absurd ?_ mortal) move
    rw [server]
    rfl
  · rcases after with rfl | ⟨rfl, -⟩ <;> cases handling
  · refine sound.link.transfer (others shellSlot rfl).steady rfl rfl (congrFun carried _)
      (fun busy => absurd busy free) (fun kills => ?_)
      (fun isForeground holds => absurd holds.busy idle) ?_
      (fun _ => ⟨congrFun carried _, congrArg SysMsg.content process.msg⟩) fun _ => ⟨rfl, rfl⟩
    · rcases after with rfl | ⟨rfl, -⟩ <;> cases kills.1
    · simp only [Speaks, process.status, process.receiver]
  · intro _ flag ends
    have unlaunched : ∀ number stage, service.desk = .spawning number stage →
        Stage.launched stage = false := by
      intro number stage spawning
      rw [handles] at spawning
      cases spawning
    refine sound.due unlaunched flag (Or.inl ?_)
    rcases ends with alive | freed
    · exact alive.mono unused
    · rcases after with rfl | ⟨rfl, alive⟩
      · cases freed
      · have same : pid = service.appPid := Desk.freed.inj freed
        exact same ▸ alive
  · rcases after with rfl | ⟨rfl, -⟩
    · cases freed
    · obtain rfl := Desk.freed.inj freed
      obtain ⟨idx, named, used⟩ := alive
      rcases move.of_free with ⟨target, same, rfl⟩ | ⟨rfl, -⟩
      · obtain rfl := idx2pid_inj.mp (named.trans same)
        exact used (by simp [System.status, Kernel.setStatus])
      · have := idx2pid_bounds idx
        omega

/-- Nobody but the shell offers a request for a program to a process server that asks nobody. -/
theorem Sound.modest_of_offers (sound : service.Sound history)
    (conversing : service.system.Conversing (fun idx => permanent idx) True queries)
    (quiet : (service.system.thread processSlot).talk = .quiet) {target : Slot}
    (notServer : target ≠ processSlot) (notShell : target ≠ shellSlot)
    (offers : service.system.kernel.offers target (idx2pid processSlot)) :
    Modest ((service.system.kernel.page target).msg.content.word 0) := by
  have system : ∀ idx : Slot, permanent idx → idx ≠ processSlot → idx ≠ shellSlot → serves idx := by
    decide
  obtain ⟨sends, receiver⟩ := of_decide_eq_true offers
  by_cases stays : permanent target
  · -- A server only sends to a process that waits for the reply to its query.
    have isServer := system target stays notServer notShell
    rcases conversing.offers_cases offers with
      ⟨request, -, serves_, -⟩ | ⟨accepted, -, -, -, -, querying⟩ | ⟨-, isClient, -⟩
    · cases serves_
    · exact absurd (querying rfl) (System.not_querying_of_quiet quiet _ _)
    · exact absurd isServer isClient
  · exact sound.users target stays sends receiver

/-- The process server begins a round of its main loop. -/
theorem Sound.listens (sound : service.Sound history) (standing : service.system.Standing)
    (conversing : service.system.Conversing (fun idx => permanent idx) True queries)
    (server : service.system.curr = processSlot)
    (allowed : service.system.Allowed .listen)
    (move : System.Move service.system .listen middle) (idle : ¬ service.Busy)
    (unlaunched : ∀ number stage, service.desk ≠ .spawning number stage) :
    ({ service with
      desk := .handling
      system := middle, letter := service.carry (.act .listen) middle.kernel } :
      Service).Sound history := by
  have formed := standing.formed
  have silent := silent_of_curr formed server
  have unused : ∀ idx, service.system.status idx = .unused → middle.status idx = .unused :=
    fun idx free => move.unused formed allowed (by simp) free
  have calls : service.system.label (service.actOf (.act .listen)) = some (.recv 0) := rfl
  have own : service.system.kernel.currPid = idx2pid processSlot :=
    formed.curr.trans (congrArg idx2pid server)
  have quiet : (service.system.thread processSlot).talk = .quiet := by
    rcases allowed with ⟨isServer, -⟩ | ⟨-, quiet⟩
    · rw [server] at isServer
      cases isServer
    · exact server ▸ quiet
  have elsewhere : shellSlot ≠ service.system.curr := by
    rw [server]
    decide
  have users : ∀ idx, ¬ permanent idx → middle.status idx = .waitToSend →
      (middle.kernel.procSet idx).toReceiverPid = idx2pid processSlot →
      Modest ((middle.kernel.page idx).msg.content.word 0) := by
    refine sound.users_after formed allowed (fun mortal => absurd ?_ mortal) move
    rw [server]
    rfl
  have due : ({ service with
      desk := .handling
      system := middle, letter := service.carry (.act .listen) middle.kernel } :
      Service).Due (awaited history) := by
    intro _ flag ends
    have alive := ends.resolve_right (by simp)
    refine sound.due (fun number stage desk => absurd desk (unlaunched number stage)) flag
      (Or.inl (alive.mono unused))
  rcases move.of_recv calls (Int.le_refl 0) with ⟨nobody, rfl⟩ | ⟨target, offers, -, rfl⟩
  · have thread : (service.system.recvBlocked .listen 0).thread processSlot =
        ⟨none, .listening⟩ := by
      rw [← server, System.recvBlocked_thread]
      rfl
    have status : (service.system.recvBlocked .listen 0).status processSlot = .waitToRecv := by
      rw [← server, System.recvBlocked_status]
    have empty : (service.system.recvBlocked .listen 0).engaged processSlot = none := by
      simp [System.engaged, thread, status, Status.active]
    have shell : System.Untouched service.system (service.system.recvBlocked .listen 0) shellSlot :=
      System.untouched_recvBlocked elsewhere
    have letter : service.carry (.act .listen) (service.system.recvBlocked .listen 0).kernel
        shellSlot = service.letter shellSlot := by
      rw [carry_recvBlocked calls System.recvBlocked_status, Function.update_of_ne elsewhere]
    refine ⟨by simp only [Seated, thread], users, fun _ accepted taken => ?_, ?_, due,
      fun pid freed => (by cases freed), sound.judged⟩
    · cases taken.symm.trans empty
    · refine sound.link.transfer shell.steady rfl rfl letter ?_ ?_
        (fun isForeground holds => absurd holds.busy idle) ?_ (fun speaks => absurd speaks silent)
        fun _ => ⟨rfl, rfl⟩
      · rintro (⟨number, stage, spawning⟩ | ⟨-, accepted, taken, -⟩)
        · cases spawning
        · cases taken.symm.trans empty
      · rintro ⟨-, accepted, taken, -⟩
        cases taken.symm.trans empty
      · exact iff_of_false (not_speaks_of_status status (by decide)) silent
  · have apart : target ≠ service.system.curr := formed.offers_ne offers
    have notServer : target ≠ processSlot := server ▸ apart
    have thread : (service.system.recvTaken .listen 0 target).thread processSlot =
        ⟨none, .listening⟩ := by
      rw [← server, System.recvTaken_thread]
      rfl
    have active : ((service.system.recvTaken .listen 0 target).status processSlot).active := by
      rw [← server, System.recvTaken_status apart]
      exact formed.active
    have msg : ((service.system.recvTaken .listen 0 target).kernel.page processSlot).msg =
        (service.system.kernel.page target).msg := by
      rw [← server, System.recvTaken_msg]
    have sends : service.system.status target = .waitToSend := (of_decide_eq_true offers).1
    have stamp := standing.stamped target sends
    have given : ∃ life, (service.system.recvTaken .listen 0 target).engaged processSlot =
        some ⟨idx2pid target, (service.system.kernel.page target).msg.content, life⟩ := by
      simp [System.engaged, thread, active, msg, stamp]
    obtain ⟨life, given⟩ := given
    have carried : service.carry (.act .listen)
        (service.system.recvTaken .listen 0 target).kernel =
        Function.update service.letter service.system.curr (service.letter target) := by
      rw [carry_recvTaken calls ?_ ?_ apart, Function.update_idem]
      · intro receives
        rw [server] at receives
        have receives : (service.system.recvTaken .listen 0 target).status processSlot =
            .waitToRecv := receives
        rw [receives] at active
        cases active
      · rw [server, msg, stamp]
    have silent' : ¬ ({ service with
        desk := .handling
        system := service.system.recvTaken .listen 0 target
        letter := service.carry (.act .listen)
          (service.system.recvTaken .listen 0 target).kernel } : Service).Speaks := by
      refine fun speaks => absurd active ?_
      rw [show (service.system.recvTaken .listen 0 target).status processSlot = _ from speaks.1]
      decide
    refine ⟨by simp only [Seated, thread], users, fun _ accepted taken => ?_, ?_, due,
      fun pid freed => (by cases freed), sound.judged⟩
    · obtain rfl := Option.some.inj (taken.symm.trans given)
      refine ⟨target, rfl, move.used (by simp) ?_⟩
      rw [sends]
      decide
    · by_cases isShell : target = shellSlot
      · subst isShell
        have runs : (service.system.recvTaken .listen 0 shellSlot).status shellSlot = .runnable :=
          System.recvTaken_status_idx
        have content : (service.system.recvTaken .listen 0 shellSlot).kernel.page shellSlot =
            service.system.kernel.page shellSlot := by
          simp [System.recvTaken, Kernel.recvTaken, Kernel.setStatus, Kernel.setMsg,
            Kernel.recvIssued, Kernel.issued, Function.update_of_ne elsewhere]
        have link := sound.link
        generalize awaited history = pid at link ⊢
        cases link with
        | apart prompts free _ _ kills letter =>
          refine .apart ?_ ?_ silent' ?_ ?_ ?_
          · refine Eq.trans (b := service.prompts) (prompts_congr rfl ?_) prompts
            simp only [replyType, content]
          · -- The request to end all programs leaves the server free.
            rintro (⟨number, stage, spawning⟩ | ⟨-, accepted, taken, type⟩)
            · cases spawning
            · obtain rfl := Option.some.inj (taken.symm.trans given)
              cases type.symm.trans (kills sends).2
          · intro receives
            cases runs.symm.trans receives
          · intro waits
            cases runs.symm.trans waits
          · intro isForeground answered
            show service.carry _ _ shellSlot = _
            rw [carried, Function.update_of_ne elsewhere]
            exact letter isForeground answered
        | asking asked _ _ _ _ type flag letter =>
          refine .serving ⟨_, given, flag, Or.inr ⟨rfl, type, ?_⟩⟩ silent' (Or.inl ⟨asked, ?_⟩)
          · show service.carry _ _ processSlot = _
            rw [carried, server, Function.update_self]
            exact letter
          · show ((service.system.recvTaken .listen 0 shellSlot).status shellSlot).active
            rw [runs]
            rfl
        | serving _ _ waits =>
          rcases waits with ⟨-, awake⟩ | ⟨-, receives, -⟩
          · rw [sends] at awake
            cases awake
          · rw [sends] at receives
            cases receives
        | replying _ awake =>
          rw [sends] at awake
          cases awake
        | running _ _ _ waits =>
          rcases waits with ⟨-, awake, -⟩ | ⟨-, receives, -⟩
          · rw [sends] at awake
            cases awake
          · rw [sends] at receives
            cases receives
        | reporting _ awake =>
          rw [sends] at awake
          cases awake
      · -- Others only say that they sleep or end.
        have harmless := sound.modest_of_offers conversing quiet notServer isShell (own ▸ offers)
        have shell : System.Untouched service.system (service.system.recvTaken .listen 0 target)
            shellSlot := System.untouched_recvTaken elsewhere (Ne.symm isShell)
        refine sound.link.transfer shell.steady rfl rfl ?_ ?_ ?_
          (fun isForeground holds => absurd holds.busy idle) (iff_of_false silent' silent)
          (fun speaks => absurd speaks silent) fun _ => ⟨rfl, rfl⟩
        · show service.carry _ _ shellSlot = _
          rw [carried, Function.update_of_ne elsewhere]
        · rintro (⟨number, stage, spawning⟩ | ⟨-, accepted, taken, type⟩)
          · cases spawning
          · obtain rfl := Option.some.inj (taken.symm.trans given)
            exact absurd type harmless.not_spawn
        · rintro ⟨-, accepted, taken, type⟩
          obtain rfl := Option.some.inj (taken.symm.trans given)
          exact absurd type harmless.not_killall

end OfServer

end Service

end Egos.Apps
