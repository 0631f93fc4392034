import Egos.Apps.Endings
import Egos.Lib.Eager

/-! A program whose end the shell waits for is alive until the process server reports it. -/

namespace Egos.Apps

open Egos.Grass

namespace System

variable {system final : System} {act : Act} {shown : List Exchange} {idx : Slot} {pid : Int}

/-- A process is used after a step if it is used before the next one is resumed. -/
theorem used_of_ended {middle : System} (ended : final = middle ∧ shown = system.announces act ∨
    ∃ after events, Switched middle.kernel after events ∧
      final = middle.resumed after events ∧ shown = system.announces act ++
        (({ middle with kernel := after } : System).observeAll events).2)
    (used : middle.status idx ≠ .unused) : final.status idx ≠ .unused := by
  rcases ended with ⟨rfl, -⟩ | ⟨after, events, switched, rfl, -⟩
  · exact used
  · exact fun free => used (((steady_resumed switched idx).idle_iff rfl).mp free)

/-- A step that frees nothing frees no process. -/
theorem Standing.stays_used (standing : system.Standing) (allowed : system.Allowed act)
    (stepped : system.step act = .ok (final, shown)) (calls : ∀ pid, act ≠ .free pid)
    (used : system.status idx ≠ .unused) : final.status idx ≠ .unused := by
  obtain ⟨-, middle, move, -, ended⟩ := standing.moves allowed stepped
  exact used_of_ended ended (move.used calls used)

/-- Freeing one process leaves all others. -/
theorem Standing.spares_others (standing : system.Standing) (allowed : system.Allowed (.free pid))
    (stepped : system.step (.free pid) = .ok (final, shown)) (single : pid ≠ -1)
    (other : idx2pid idx ≠ pid) (used : system.status idx ≠ .unused) :
    final.status idx ≠ .unused := by
  obtain ⟨-, middle, move, -, ended⟩ := standing.moves allowed stepped
  rcases move.of_free with ⟨target, rfl, rfl⟩ | ⟨rfl, -⟩
  · refine used_of_ended ended ?_
    have apart : idx ≠ target := fun same => other (congrArg idx2pid same)
    rwa [(untouched_setStatus apart).status]
  · exact absurd rfl single

/-- The slot of an allocated pid is used. -/
theorem used_allocated {kernel : Kernel} (found : procAlloc system.kernel = .ok (pid, kernel))
    (stepped : system.step .alloc = .ok (final, shown)) :
    ∃ idx, idx2pid idx = pid ∧ final.status idx ≠ .unused := by
  -- The entry of `proc_alloc` only changes the kernel, which has put the slot to use.
  have after : final.kernel = kernel := by
    simp only [System.step, label, Grass.step, found, bind_eq_ok, pure_eq_ok, Prod.mk.injEq]
      at stepped
    obtain ⟨_, ⟨_, same, rfl⟩, rfl, -⟩ := stepped
    obtain rfl := Except.ok.inj same
    rfl
  unfold procAlloc at found
  split at found
  · rename_i idx _
    simp only [pure_eq_ok, Prod.mk.injEq] at found
    obtain ⟨rfl, rfl⟩ := found
    refine ⟨idx, rfl, ?_⟩
    rw [System.status, after]
    simp
  · exact absurd found throw_ne_ok

end System

namespace Service

variable {service planned next : Service} {history shown : List Note} {deed : Deed} {pid : Int}

/-- A program that is loaded or that the shell waits for is alive, or has just been freed. -/
structure Lasting (service : Service) (history : List Note) : Prop where
  launched : ∀ number stage, service.desk = .spawning number stage →
    Stage.launched stage = true → service.Alive service.appPid
  waits : ∀ pid, awaited history = some pid → service.Alive pid ∨ service.desk = .freed pid

/-- A step that leaves the variables of the process server alone and frees nothing keeps all
programs alive. -/
theorem Lasting.beside (lasting : service.Lasting history) (desk : next.desk = service.desk)
    (appPid : next.appPid = service.appPid)
    (alive : ∀ pid, service.Alive pid → next.Alive pid) : next.Lasting history := by
  refine ⟨fun number stage spawning launched => ?_, fun pid waits => ?_⟩
  · rw [appPid]
    exact alive _ (lasting.launched number stage (desk ▸ spawning) launched)
  · rw [desk]
    exact (lasting.waits pid waits).imp_left (alive pid)

/-- The shell waits for nothing when the process server is asked to end all programs. -/
theorem InOrder.none_of_killall (order : service.InOrder history)
    (server : service.system.curr = processSlot) (kills : service.Takes procKillall) :
    awaited history = none := by
  have link := order.sound.link
  generalize awaited history = pid at link ⊢
  cases link with
  | apart => rfl
  | asking => rfl
  | serving => rfl
  | replying _ _ _ speaks =>
    exact absurd speaks (silent_of_curr order.standing.formed server)
  | running _ free => exact absurd kills free.2
  | reporting => rfl

/-- A step from another place than behind the end of a program keeps all programs alive. -/
theorem Lasting.goOn (lasting : service.Lasting history)
    (other : ∀ pid, service.desk ≠ .freed pid)
    (alive : ∀ pid, service.Alive pid → next.Alive pid)
    (launched : ∀ number stage, next.desk = .spawning number stage →
      Stage.launched stage = true → next.Alive next.appPid) : next.Lasting history :=
  ⟨launched, fun pid waits => Or.inl (alive pid ((lasting.waits pid waits).resolve_right (other pid)))⟩

/-- What the process server does keeps alive the programs that it loads and that the shell waits
for. -/
theorem Lasting.serves (lasting : service.Lasting history) (order : service.InOrder history)
    (server : service.system.curr = processSlot)
    (allowed : service.system.Allowed (service.actOf deed)) {final : System}
    {exchanges : List Exchange} (serves : Serves service deed planned)
    (stepped : service.system.step (service.actOf deed) = .ok (final, exchanges))
    {letter : Slot → Letter} :
    ({ planned with system := final, letter := letter } : Service).Lasting
      (history ++ service.notes deed) := by
  have standing := order.standing
  -- Only freeing ends processes.
  have alive : (∀ pid, service.actOf deed ≠ .free pid) → ∀ pid, service.Alive pid →
      ({ planned with system := final, letter := letter } : Service).Alive pid := by
    rintro calls pid ⟨idx, named, used⟩
    exact ⟨idx, named, standing.stays_used allowed stepped calls used⟩
  cases serves with
  | interrupted =>
    rw [notes_act (by simp), List.append_nil]
    exact lasting.beside rfl rfl (alive (by simp [actOf]))
  | listens done =>
    have alive := alive (by simp [actOf])
    rcases done with top | ⟨accepted, handling, -, -⟩ | ⟨pid, freed, silent⟩
    · have nothing : service.notes (.act .listen) = [] := by simp only [notes, top]
      rw [nothing, List.append_nil]
      exact lasting.goOn (by simp [top]) alive (by simp)
    · have nothing : service.notes (.act .listen) = [] := by simp only [notes, handling]
      rw [nothing, List.append_nil]
      exact lasting.goOn (by simp [handling]) alive (by simp)
    · have shown : service.notes (.act .listen) = [.ended pid false] := by
        simp only [notes, freed, server, if_true]
      rw [shown]
      refine ⟨by simp, fun other waits => Or.inl (alive other ?_)⟩
      -- The shell does not wait for the process that has just been freed.
      rw [awaited_ended] at waits
      refine (lasting.waits other waits).resolve_right fun same => ?_
      obtain rfl := Desk.freed.inj (freed.symm.trans same)
      exact order.sound.unnoticed standing server freed silent waits
  | begins desk thread type =>
    rw [notes_act (by simp), List.append_nil]
    refine lasting.goOn (by simp [desk]) (alive (by simp [actOf])) fun number stage spawning early => ?_
    obtain ⟨-, rfl⟩ := Desk.spawning.inj spawning
    cases early
  | @asks number stage after target msg desk isServer same =>
    rw [notes_act (by simp), List.append_nil]
    refine lasting.goOn (by simp [desk]) (alive (by simp [actOf])) fun other later spawning launched => ?_
    obtain ⟨-, rfl⟩ := Desk.spawning.inj spawning
    exact alive (by simp [actOf]) _ (lasting.launched number stage desk (same.symm.trans launched))
  | @awaits number stage after desk same =>
    rw [notes_act (by simp), List.append_nil]
    refine lasting.goOn (by simp [desk]) (alive (by simp [actOf])) fun other later spawning launched => ?_
    obtain ⟨-, rfl⟩ := Desk.spawning.inj spawning
    exact alive (by simp [actOf]) _ (lasting.launched number stage desk (same.symm.trans launched))
  | allocates desk found =>
    rw [notes_act (by simp), List.append_nil]
    refine lasting.goOn (by simp [desk]) (alive (by simp [actOf])) fun _ _ _ _ => ?_
    exact System.used_allocated found stepped
  | readies desk =>
    rw [notes_act (by simp), List.append_nil]
    refine lasting.goOn (by simp [desk]) (alive (by simp [actOf])) fun _ _ _ _ => ?_
    exact alive (by simp [actOf]) _ (lasting.launched _ _ desk rfl)
  | @answers number stage accepted stale desk ends held =>
    obtain ⟨none, isForeground, -, shell⟩ := order.sound.link.of_busy (Or.inl ⟨number, stage, desk⟩)
    refine ⟨by simp, fun pid waits => Or.inl ?_⟩
    rw [awaited_replied desk ends none (foreground_of_waits shell)] at waits
    obtain ⟨⟨ok, -⟩, named⟩ := Option.ite_none_right_eq_some.mp waits
    obtain rfl := Option.some.inj named
    refine alive (by simp [actOf]) _ (lasting.launched number stage desk ?_)
    rcases ends with rfl | rfl
    · simp [outcome, desk] at ok
    · rfl
  | @frees accepted desk thread type =>
    rw [notes_act (by simp), List.append_nil]
    refine ⟨by simp, fun pid waits => ?_⟩
    obtain ⟨idx, named, used⟩ := (lasting.waits pid waits).resolve_right (by simp [desk])
    by_cases same : pid = accepted.client
    · exact Or.inr (same ▸ rfl)
    · have single : accepted.client ≠ -1 := by
        obtain ⟨client, known, -⟩ :=
          order.sound.clients desk accepted (hand_of_thread server thread)
        have := idx2pid_bounds client
        omega
      exact Or.inl ⟨idx, named, standing.spares_others allowed stepped single
        (fun other => same (named.symm.trans other)) used⟩
  | @freesAll accepted desk thread type =>
    rw [notes_act (by simp), List.append_nil]
    have none := order.none_of_killall server ⟨desk, accepted, hand_of_thread server thread, type⟩
    exact ⟨by simp, fun pid waits => by simp [none] at waits⟩
  | @notifies pid desk notifies =>
    have shown : service.notes .notify = [.ended pid true] := by simp only [notes, desk]
    rw [shown]
    refine ⟨by simp, fun pid waits => ?_⟩
    rw [awaited_noticed (order.sound.expected desk notifies)] at waits
    cases waits

/-- Every careful step keeps alive the programs that are loaded and that the shell waits for. -/
theorem Lasting.step (lasting : service.Lasting history) (order : service.InOrder history)
    (taken : Steps Careful service deed next shown) : next.Lasting (history ++ shown) := by
  obtain ⟨⟨allowed, -⟩, stepped⟩ := taken
  obtain ⟨planned, final, exchanges, program, moved, rfl, rfl⟩ := step_eq_ok stepped
  unfold Service.program at program
  split at program
  · rename_i server
    exact lasting.serves order server allowed (serves_of_serve program) moved
  · rename_i notServer
    -- Only the process server frees processes.
    have calls : ∀ pid, service.actOf deed ≠ .free pid := by
      intro pid frees
      rw [frees] at allowed
      exact notServer allowed.1
    have alive : ∀ pid, service.Alive pid → ({ planned with
        system := final, letter := service.carry deed final.kernel } : Service).Alive pid := by
      rintro pid ⟨idx, named, used⟩
      exact ⟨idx, named, order.standing.stays_used allowed moved calls used⟩
    split at program
    · have works := works_of_runShell program
      rw [notes_works works, List.append_nil]
      cases works <;> exact lasting.beside rfl rfl alive
    · obtain ⟨rfl, act, rfl, -⟩ := of_runOther program
      rw [notes_beside notServer, List.append_nil]
      exact lasting.beside rfl rfl alive

/-- Programs that are loaded and that the shell waits for are alive in careful runs. -/
theorem Reaches.lasting {shellWaiting : Bool} (run : Reaches Careful shellWaiting service history) :
    service.InOrder history ∧ service.Lasting history := by
  refine Run.invariant (fun service history => service.InOrder history ∧ service.Lasting history)
    ⟨booted_inOrder shellWaiting, ?_⟩ (fun _ _ _ _ _ here taken => ?_) run
  · refine ⟨fun number stage spawning => ?_, fun pid waits => ?_⟩
    · cases spawning
    · cases waits
  · exact ⟨here.1.step taken, here.2.step here.1 taken⟩

/-- Whether a step is careful can be decided. -/
instance (service : Service) : (deed : Deed) → Decidable (service.Careful deed)
  | .command _ _ => by unfold Careful; infer_instance
  | .answer _ => by unfold Careful; infer_instance
  | .killall _ | .notify | .act _ => isTrue trivial

/-- Passes on an entry of the process table. -/
def passProcess {α : Type} (process : Grass.Process) (rest : Grass.Process → α) : α :=
  let pids : List Int := [0, 1, 2, 3, 4, 5, 6]
  let statuses : List Status :=
    [.unused, .runnable, .running, .waitToRecv, .waitToSend, .loading, .ready]
  passOn process.pid (fun pid => passOn process.status (fun status =>
    passOn process.fromSenderPid (fun sender => passOn process.toReceiverPid (fun receiver =>
      rest ⟨pid, status, sender, receiver⟩) pids) pids) statuses) pids

/-- Takes a step and passes on the process table, so that long runs can be evaluated. -/
def eagerStep (service : Service) (deed : Deed) : Fallible (Service × List Note) :=
  match service.step deed with
  | .ok (next, shown) =>
    passTable passProcess maxNprocess next.system.kernel.procSet fun procSet =>
      passOn next.system.kernel.procCurrIdx (fun procCurrIdx =>
        let kernel := { next.system.kernel with procSet := procSet, procCurrIdx := procCurrIdx }
        .ok ({ next with system := { next.system with kernel := kernel } }, shown))
        (List.finRange maxNprocess)
  | .error message => .error message

/-- Passing on the process table changes nothing. -/
theorem eagerStep_eq : eagerStep = step := by
  funext service deed
  have exact : ∀ process (rest : Grass.Process → Fallible (Service × List Note)),
      passProcess process rest = rest process := by
    simp [passProcess]
  unfold eagerStep
  split
  · rename_i next shown stepped
    rw [passTable_eq exact, passOn_eq, stepped]
  · rename_i message stepped
    rw [stepped]

/-- Deeds that are followed make a run. -/
theorem reaches_of_follow {permits : Service → Deed → Prop}
    [∀ service deed, Decidable (permits service deed)] {shellWaiting : Bool} {deeds : List Deed}
    (followed : follow (fun service deed => service.system.Allowed (service.actOf deed) ∧
      permits service deed) eagerStep (booted shellWaiting) deeds = some (service, history)) :
    Reaches permits shellWaiting service history := by
  rw [eagerStep_eq] at followed
  exact run_of_follow .start followed

section Results

variable {shellWaiting : Bool}

/-- A program is started in the foreground and ends. -/
def trial : List Deed :=
  [.act .listen, .act .listen, .act .listen, .act .listen, .command [98] 0,
    .act (.query dirSlot []), .act (.reply []), .act (.heed processSlot), .act .await,
    .act .listen, .act (.query dirSlot []), .act (.reply []), .act .await, .act .listen,
    .act .alloc, .act (.setReady 6), .answer 0, .act (.heed processSlot), .act .exit,
    .act (.tell processSlot [1, 0, 0, 0]), .act .listen, .act (.timer false), .act (.free 6),
    .notify]

/-- In careful runs the process server reports the end of a process to the shell exactly if the
process is the foreground program that the shell waits for. -/
theorem ends_noticed (run : Reaches Careful shellWaiting service history) {before after : List Note}
    {noticed : Bool} (split : history = before ++ .ended pid noticed :: after) :
    noticed = true ↔ awaited before = some pid :=
  run.inOrder.sound.judged before pid noticed after split

/-- The end of the program is reported. -/
theorem ends_noticed_trial : ∃ service,
    Reaches Careful true service ([.spawned 6 true] ++ .ended 6 true :: []) ∧
      (true = true ↔ awaited [.spawned 6 true] = some 6) := by
  have tried : (follow (fun service deed => service.system.Allowed (service.actOf deed) ∧
      service.Careful deed) eagerStep (booted true) trial).map (fun reached => reached.2) =
        some ([.spawned 6 true] ++ .ended 6 true :: []) := by
    decide +kernel
  obtain ⟨⟨service, history⟩, followed, rfl⟩ := Option.map_eq_some_iff.mp tried
  have run := reaches_of_follow followed
  exact ⟨service, run, ends_noticed run rfl⟩

/-- A program is started in the background, and a command fails in the foreground before it ends. -/
def careless : List Deed :=
  let turn := .act (.timer false)
  [.act .listen, .act .listen, .act .listen, .act .listen, .command [97, 32, 38] 0,
    .act (.query dirSlot []), .act (.reply []), .act (.heed processSlot), .act .await,
    .act .listen, .act (.query dirSlot []), .act (.reply []), .act .await, .act .listen,
    .act .alloc, .act (.setReady 6), .answer 0, .command [98] 0, turn, .act .listen,
    .act (.heed processSlot), turn, .act (.query dirSlot []), .act (.reply []), turn,
    .act .await, .act .listen, turn, .act (.query dirSlot []), .act (.reply [1]), turn,
    .act .await, .act .listen, turn, .answer 0, turn, .act .exit,
    .act (.tell processSlot [1, 0, 0, 0]), .act .listen, turn, turn, .act (.free 6), .notify]

/-- Without care the process server reports the end of a program that the shell does not wait for. -/
theorem unwanted_notice : ∃ service,
    Reaches (fun _ _ => True) true service [.spawned 6 false, .ended 6 true] ∧
      awaited [.spawned 6 false] = none := by
  have tried : (follow (fun service deed => service.system.Allowed (service.actOf deed) ∧ True)
      eagerStep (booted true) careless).map (fun reached => reached.2) =
        some [.spawned 6 false, .ended 6 true] := by
    decide +kernel
  obtain ⟨⟨service, history⟩, followed, rfl⟩ := Option.map_eq_some_iff.mp tried
  exact ⟨service, reaches_of_follow followed, rfl⟩

/-- In careful runs the process server and the shell never wait to send to each other, and a shell
that has received a reply has received that to its last request. -/
theorem talks_in_step (run : Reaches Careful shellWaiting service history) :
    ¬ (service.system.kernel.offers processSlot gpidShell ∧
        service.system.kernel.offers shellSlot gpidProcess) ∧
      ∀ isForeground, service.shell = .answered isForeground →
        service.system.status shellSlot ≠ .waitToRecv →
        service.letter shellSlot = .reply service.requests := by
  have link := run.inOrder.sound.link
  refine ⟨?_, fun isForeground answered returned => link.letter answered returned⟩
  rintro ⟨process, shell⟩
  exact link.not_both (speaks_iff.mpr process) (of_decide_eq_true shell).1

/-- The shell has received the reply to its request for the program. -/
theorem talks_in_step_trial : ∃ service, Reaches Careful true service [.spawned 6 true] ∧
    service.shell = .answered true ∧ service.letter shellSlot = .reply service.requests := by
  have tried : (follow (fun service deed => service.system.Allowed (service.actOf deed) ∧
      service.Careful deed) eagerStep (booted true) (trial.take 17)).map (fun reached =>
        (reached.1.shell, reached.1.system.status shellSlot, reached.2)) =
        some (.answered true, .running, [.spawned 6 true]) := by
    decide +kernel
  obtain ⟨⟨service, history⟩, followed, found⟩ := Option.map_eq_some_iff.mp tried
  simp only [Prod.mk.injEq] at found
  obtain ⟨answered, runs, rfl⟩ := found
  have run := reaches_of_follow followed
  refine ⟨service, run, answered, (talks_in_step run).2 true answered ?_⟩
  rw [runs]
  decide

/-- In careful runs a shell that waits for the end of its program waits for a live one, or for one
whose end the process server reports next. -/
theorem waits_for_live (run : Reaches Careful shellWaiting service history)
    (waits : service.shell = .waiting)
    (blocked : service.system.status shellSlot = .waitToRecv) :
    awaited history = some service.appPid ∧ service.notifies service.appPid = true ∧
      (service.Alive service.appPid ∨ service.desk = .freed service.appPid) := by
  -- Of all stages only that of a running program has the shell wait like this.
  obtain ⟨order, lasting⟩ := run.lasting
  have link := order.sound.link
  generalize named : awaited history = pid at link
  cases link with
  | apart _ _ _ deaf => exact absurd blocked deaf
  | asking asked => cases waits.symm.trans asked
  | serving _ _ state =>
    rcases state with ⟨asked, -⟩ | ⟨answered, -⟩
    · cases waits.symm.trans asked
    · cases waits.symm.trans answered
  | replying asked => cases waits.symm.trans asked
  | running flag =>
    refine ⟨rfl, ?_, lasting.waits _ named⟩
    simp [Service.notifies, flag]
  | reporting answered => cases waits.symm.trans answered

/-- The shell waits for the program while it runs. -/
theorem waits_for_live_trial : ∃ service, Reaches Careful true service [.spawned 6 true] ∧
    service.shell = .waiting ∧ awaited [.spawned 6 true] = some service.appPid ∧
    service.notifies service.appPid = true := by
  have tried : (follow (fun service deed => service.system.Allowed (service.actOf deed) ∧
      service.Careful deed) eagerStep (booted true) (trial.take 18)).map (fun reached =>
        (reached.1.shell, reached.1.system.status shellSlot, reached.2)) =
        some (.waiting, .waitToRecv, [.spawned 6 true]) := by
    decide +kernel
  obtain ⟨⟨service, history⟩, followed, found⟩ := Option.map_eq_some_iff.mp tried
  simp only [Prod.mk.injEq] at found
  obtain ⟨waits, blocked, rfl⟩ := found
  have run := reaches_of_follow followed
  obtain ⟨named, notified, -⟩ := waits_for_live run waits blocked
  exact ⟨service, run, waits, named, notified⟩

end Results

end Service

end Egos.Apps
