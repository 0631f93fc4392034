import Egos.Grass.Rendezvous

/-! The user stacks: all processes run on one area of memory, whose contents the kernel swaps. -/

namespace Egos.Grass.Stacks

/-- Bytes in a page, which no stack outgrows. -/
abbrev pageSize : Nat := 4096

/-- The end of the area on which all processes have their stacks. -/
abbrev appsStackTop : BitVec 32 := 0x80800000

/-- The first instruction of every process. -/
abbrev appsEntry : BitVec 32 := 0x80400000

/-- The kernel with what it saves of the processes while others run. -/
structure State where
  kernel : Kernel
  -- Fields of the process table.
  sp : Slot → BitVec 32
  mepc : Slot → BitVec 32
  memory : Nat → UInt8
  -- The rows belong to pids, not to slots.
  procStack : Fin maxNprocess → Nat → UInt8

/-- What a process finds when it goes on: its registers, and the memory with its stack. -/
structure Frame where
  sp : BitVec 32
  mepc : BitVec 32
  memory : Nat → UInt8

/-- What a step shows of the stacks. -/
inductive Event where
  -- The kernel was entered, and the flag says whether Ctrl+C sent the process to its exit.
  | trapped (pid : Int) (frame : Frame) (killed : Bool)
  -- The code of a new process was entered.
  | entered (pid : Int)
  | resumed (pid : Int) (frame : Frame)
  | allocated (pid : Int)

/-- The process that an event is about. -/
def Event.pid : Event → Int
  | .trapped pid _ _ | .entered pid | .resumed pid _ | .allocated pid => pid

/-- The last event of a process. -/
def lastOf (history : List Event) (pid : Int) : Option Event :=
  (history.filter fun event => event.pid = pid).getLast?

/-- Copies bytes from one memory into another one. -/
def memcpy (dst src : Nat → UInt8) (first source size : Nat) : Nat → UInt8 :=
  fun addr => if first ≤ addr ∧ addr < first + size then src (source + (addr - first)) else dst addr

/-- The row of a process in the table of saved stacks. -/
def stackRow (pid : Int) : Fallible (Fin maxNprocess) :=
  if inside : 0 ≤ pid ∧ pid < (maxNprocess : Int) then
    pure ⟨pid.toNat, by simp only [maxNprocess] at inside ⊢; omega⟩
  else throw "the row is outside of the table"

/-- The number of bytes on a stack. -/
def stackSize (sp : BitVec 32) : BitVec 32 := appsStackTop - sp

/-- Copies the stack of the current process to its row or back. -/
def copyStack (state : State) (save : Bool) (row : Fin maxNprocess) : State :=
  let sp := (state.sp state.kernel.procCurrIdx).toNat
  let size := (stackSize (state.sp state.kernel.procCurrIdx)).toNat
  if save then
    let saved := memcpy (state.procStack row) state.memory 0 sp size
    { state with procStack := Function.update state.procStack row saved }
  else { state with memory := memcpy state.memory (state.procStack row) sp 0 size }

/-- Saves the stack of the current process, or restores it. -/
def manageUserstack (state : State) (save : Bool) : Fallible State := do
  let size := stackSize (state.sp state.kernel.procCurrIdx)
  -- The size is compared as a signed number.
  assert (size.toInt ≤ (pageSize : Int)) "[file:grass/kernel.c, line:93]"
  let row ← stackRow state.kernel.currPid
  if size.toNat > pageSize then throw "the copy leaves the row" else return copyStack state save row

/-- Where a process continues after an interrupt with a system call in its page. -/
def contextOf (page : Syscall) : Interrupt → Context
  | .timer => .user
  | .soft =>
    match page.type with
    | .recv => .receiving page.msg.sender
    | .send => .sending
    | _ => .user

/-- The kernel as an interrupt finds it, after the current process has written to its page. -/
def interrupted (kernel : Kernel) (page : Syscall) (id : Interrupt) : Kernel :=
  (kernel.setPage kernel.procCurrIdx page).setContext kernel.procCurrIdx (contextOf page id)

/-- An interrupt for which the kernel does not call the scheduler. -/
def passedOver (kernel : Kernel) (id : Interrupt) (ttyIntr : Bool) : Bool :=
  (id = .timer ∧ kernel.currPid < gpidShell) ∨ (kernel.currPid ≥ gpidUserStart ∧ ttyIntr)

/-- The scheduler enters the code of the process that it has picked, and does not return. -/
def enters (kernel after : Kernel) (id : Interrupt) (ttyIntr : Bool) : Bool :=
  ¬ passedOver kernel id ttyIntr ∧ (kernel.procSet after.procCurrIdx).status = .ready

/-- Handles an interrupt of the current process, whose stack pointer `ctx_start` has saved. -/
def ctxEntry (state : State) (sp mepc : BitVec 32) (page : Syscall) (id : Interrupt)
    (ttyIntr : Bool) : Fallible (State × List Event) := do
  let idx := state.kernel.procCurrIdx
  let trapped : Frame := ⟨sp, mepc, state.memory⟩
  let state := { state with
    kernel := interrupted state.kernel page id
    sp := Function.update state.sp idx sp
    mepc := Function.update state.mepc idx mepc }
  let state ← manageUserstack state true
  let (kernel, killed) ← intrEntry state.kernel id ttyIntr
  let mepc := if killed then Function.update state.mepc idx (appsEntry + 0xC) else state.mepc
  let next := { state with kernel := (resume kernel).1, mepc }
  let first := .trapped state.kernel.currPid trapped killed
  if enters state.kernel kernel id ttyIntr then return (next, [first, .entered kernel.currPid])
  else do
    let next ← manageUserstack next false
    let idx := next.kernel.procCurrIdx
    let frame : Frame := ⟨next.sp idx, next.mepc idx, next.memory⟩
    return (next, [first, .resumed kernel.currPid frame])

/-- What makes the machine take a step. -/
inductive Label where
  -- The current process writes to the memory.
  | store (memory : Nat → UInt8)
  -- An interrupt, with the current process's stack pointer, program counter and page.
  | trap (sp mepc : BitVec 32) (page : Syscall) (id : Interrupt) (ttyIntr : Bool)
  -- Functions of the kernel that the process server calls.
  | alloc
  | setReady (pid : Int)
  | free (pid : Int)

/-- One step of the machine. -/
def step (state : State) : Label → Fallible (State × List Event)
  | .store memory => return ({ state with memory }, [])
  | .trap sp mepc page id ttyIntr => ctxEntry state sp mepc page id ttyIntr
  | .alloc => do
    let (pid, kernel) ← procAlloc state.kernel
    return ({ state with kernel }, [.allocated pid])
  | .setReady pid => do return ({ state with kernel := ← procSetReady state.kernel pid }, [])
  | .free pid => do return ({ state with kernel := ← procFree state.kernel pid }, [])

/-- A process does not free itself. -/
def Permitted (state : State) : Label → Prop
  | .free pid => Spares state.kernel (.free pid)
  | _ => True

/-- The machine as it enters the process server. -/
def Booted (state : State) : Prop := state.kernel = .initial

/-- The states that the machine reaches from its start. -/
abbrev Reaches (start : State) : State → List Event → Prop :=
  Run (fun state label after events => Permitted state label ∧
    step state label = .ok (after, events)) start

/-- A process that is resumed after a history has the stack, the stack pointer and the program
counter that it had when it trapped for the last time. -/
structure Restored (history : List Event) (pid : Int) (frame last : Frame) (killed : Bool) :
    Prop where
  trapped : lastOf history pid = some (.trapped pid last killed)
  stack : ∀ addr, last.sp.toNat ≤ addr → addr < appsStackTop.toNat →
    frame.memory addr = last.memory addr
  sp : frame.sp = last.sp
  mepc : frame.mepc = if killed then appsEntry + 0xC else last.mepc

section Copies

variable {state after : State} {save : Bool} {pid other : Int} {row : Fin maxNprocess}

/-- Different processes have different rows. -/
theorem stackRow_inj (first : stackRow pid = .ok row) (second : stackRow other = .ok row) :
    pid = other := by
  unfold stackRow at first second
  split at first
  · split at second
    · rename_i inside inside_
      cases first
      have same := congrArg Fin.val (pure_eq_ok.mp second)
      simp only at same
      omega
    · exact absurd second throw_ne_ok
  · exact absurd first throw_ne_ok

/-- The stack of the current process is copied if it fits into a row. -/
theorem manageUserstack_eq_ok : manageUserstack state save = .ok after ↔
    (stackSize (state.sp state.kernel.procCurrIdx)).toNat ≤ pageSize ∧
      ∃ row, stackRow state.kernel.currPid = .ok row ∧ after = copyStack state save row := by
  simp only [manageUserstack, bind_eq_ok, assert_eq_ok]
  generalize stackSize (state.sp state.kernel.procCurrIdx) = size
  constructor
  · rintro ⟨_, _, row, named, copied⟩
    split at copied
    · exact absurd copied throw_ne_ok
    · rename_i fits
      exact ⟨Nat.not_lt.mp fits, row, named, (pure_eq_ok.mp copied).symm⟩
  · rintro ⟨fits, row, named, rfl⟩
    -- A size that fits into a page is not negative.
    have signed : size.toInt ≤ (pageSize : Int) := by
      rw [BitVec.toInt_eq_toNat_cond]
      split <;> omega
    refine ⟨(), signed, row, named, ?_⟩
    rw [if_neg (Nat.not_lt.mpr fits)]
    rfl

/-- A stack that fits into a page ends where the area ends. -/
theorem stackSize_add {sp : BitVec 32} (fits : (stackSize sp).toNat ≤ pageSize) :
    sp.toNat + (stackSize sp).toNat = appsStackTop.toNat := by
  have top : appsStackTop.toNat = 2155872256 := rfl
  have size : (stackSize sp).toNat =
      (4294967296 - sp.toNat + appsStackTop.toNat) % 4294967296 := BitVec.toNat_sub ..
  have bound := sp.isLt
  rw [top] at size ⊢
  simp only [pageSize] at fits
  clear top
  generalize (stackSize sp).toNat = count at *
  generalize sp.toNat = first at *
  omega

/-- A stack pointer in the last page of the area makes a stack that fits. -/
theorem stackSize_fits {sp : BitVec 32} (area : appsStackTop.toNat - pageSize ≤ sp.toNat)
    (top : sp.toNat ≤ appsStackTop.toNat) : (stackSize sp).toNat ≤ pageSize := by
  have value : appsStackTop.toNat = 2155872256 := rfl
  have size : (stackSize sp).toNat =
      (4294967296 - sp.toNat + appsStackTop.toNat) % 4294967296 := BitVec.toNat_sub ..
  rw [value] at size area top
  simp only [pageSize] at area ⊢
  clear value
  generalize (stackSize sp).toNat = count at *
  generalize sp.toNat = first at *
  omega

/-- The latest event is the last one of its process. -/
theorem lastOf_concat (history : List Event) (event : Event) (pid : Int) :
    lastOf (history ++ [event]) pid =
      if event.pid = pid then some event else lastOf history pid := by
  unfold lastOf
  rw [List.filter_append]
  split
  · rename_i same
    have kept : [event].filter (fun event => event.pid = pid) = [event] := by simp [same]
    rw [kept, List.getLast?_concat]
  · rename_i different
    have dropped : [event].filter (fun event => event.pid = pid) = [] := by simp [different]
    rw [dropped, List.append_nil]

end Copies

section Switches

variable {kernel before after : Kernel} {page : Syscall} {id : Interrupt} {ttyIntr killed : Bool}

/-- A process with this status has been entered. -/
def begun : Status → Bool
  | .running | .runnable | .waitToSend | .waitToRecv | .sleeping => true
  | .unused | .loading | .ready => false

/-- What a system call does to the table before it calls the scheduler. -/
structure Prepared (kernel before : Kernel) : Prop where
  idx : before.procCurrIdx = kernel.procCurrIdx
  placed : before.Placed
  -- Only a process that is blocked is woken.
  others : ∀ i, i ≠ kernel.procCurrIdx →
    (before.procSet i).status = (kernel.procSet i).status ∨
      begun (kernel.procSet i).status ∧ (before.procSet i).status = .runnable
  -- The current process is blocked or goes on.
  curr : (before.procSet kernel.procCurrIdx).status = (kernel.procSet kernel.procCurrIdx).status ∨
    (before.procSet kernel.procCurrIdx).status.active = false

/-- The scheduler changes no entries but that of the current process and the one it picks. -/
theorem procYield_others (placed : before.Placed) (yielded : procYield before = .ok after) :
    (before.procSet after.procCurrIdx).status.active ∧
      ∀ i, i ≠ before.procCurrIdx → i ≠ after.procCurrIdx → after.procSet i = before.procSet i := by
  unfold procYield at yielded
  cases next : before.nextIdx with
  | none => simp [next, throw_ne_ok] at yielded
  | some idx =>
    have active := active_of_nextIdx next
    simp only [next, bind_eq_ok] at yielded
    obtain ⟨middle, paused, _, _, running⟩ := yielded
    obtain ⟨chosen, named, carried, rfl⟩ := procSetStatus_eq_ok.mp running
    have others : ∀ i, i ≠ before.procCurrIdx → middle.procSet i = before.procSet i := by
      intro i different
      rcases pause_eq_ok placed paused with ⟨-, rfl⟩ | ⟨-, rfl⟩
      · rfl
      · exact Function.update_of_ne different _ _
    have pids : ∀ i, (middle.procSet i).pid = (before.procSet i).pid := by
      intro i
      rcases pause_eq_ok placed paused with ⟨-, rfl⟩ | ⟨-, rfl⟩
      · rfl
      · by_cases same : i = before.procCurrIdx
        · subst same
          simp [Kernel.setStatus]
        · simp [Kernel.setStatus, Function.update_of_ne same]
    -- The pid of the picked process leads back to its slot.
    have live : (before.procSet idx).status ≠ .unused := by
      intro unused
      rw [unused] at active
      cases active
    have own : idx2pid idx = idx2pid chosen := by
      rw [← placed idx live, ← pids idx]
      exact named
    rw [idx2pid_inj] at own
    subst own
    refine ⟨active, fun i different other => ?_⟩
    have same : (({ middle with procCurrIdx := idx } : Kernel).setStatus idx .running).procSet i =
        middle.procSet i := Function.update_of_ne other _ _
    exact same.trans (others i different)

/-- A system call calls the scheduler after it has blocked the current process or woken another. -/
theorem procSyscall_prepared (formed : WellFormed kernel)
    (handled : procSyscall (interrupted kernel page .soft) = .ok after) :
    ∃ before, Prepared kernel before ∧ procYield before = .ok after := by
  -- A send that finds its receiver, or a receive that finds its sender, wakes it; else the caller
  -- blocks.
  rw [interrupted, procSyscall_issued] at handled
  have active : (kernel.procSet kernel.procCurrIdx).status.active := formed.active
  cases type : page.type with
  | unused =>
    rw [type] at handled
    exact absurd handled throw_ne_ok
  | yield =>
    rw [type] at handled
    refine ⟨_, ?_, handled⟩
    exact ⟨rfl, formed.pids.congr rfl, fun _ _ => Or.inl rfl, Or.inl rfl⟩
  | send =>
    simp only [type, contextOf] at handled
    obtain ⟨idx, named, carried, ⟨busy, yielded⟩ | ⟨awaits, yielded⟩⟩ :=
      procSend_cases formed handled
    · refine ⟨_, ?_, yielded⟩
      refine ⟨rfl, ?_, ?_, ?_⟩
      · exact (formed.pids.congr rfl).setProc formed.curr
      · intro i different
        exact Or.inl (congrArg Process.status (Function.update_of_ne different _ _))
      · right
        simp only [Kernel.setProc_procSet, Function.update_self]
        rfl
    · have other : idx ≠ kernel.procCurrIdx := by
        rintro rfl
        rw [awaits.1] at active
        cases active
      refine ⟨_, ?_, yielded⟩
      refine ⟨rfl, ?_, ?_, ?_⟩
      · exact (formed.pids.congr rfl).setProc carried
      · intro i different
        by_cases same : i = idx
        · subst same
          refine Or.inr ⟨?_, by simp [Kernel.setStatus]⟩
          rw [awaits.1]
          rfl
        · exact Or.inl (congrArg Process.status (Function.update_of_ne same _ _))
      · left
        exact congrArg Process.status (Function.update_of_ne (Ne.symm other) _ _)
  | recv =>
    simp only [type, contextOf] at handled
    have issued : ((kernel.issued (.receiving page.msg.sender) page.msg).setProc kernel.procCurrIdx
        { kernel.curr with fromSenderPid := page.msg.sender }).Placed :=
      (formed.pids.congr rfl).setProc formed.curr
    rcases procRecv_cases formed handled with ⟨nobody, yielded⟩ | ⟨idx, offers, matching, yielded⟩
    · refine ⟨_, ?_, yielded⟩
      refine ⟨rfl, ?_, ?_, ?_⟩
      · refine issued.setProc ?_
        simp only [Kernel.setProc_procSet, Function.update_self]
        exact formed.curr
      · intro i different
        left
        simp only [Kernel.setStatus, Kernel.setProc_procSet, Function.update_of_ne different]
        rfl
      · right
        simp only [Kernel.setStatus, Kernel.setProc_procSet, Function.update_self]
        rfl
    · have other := formed.offers_ne offers
      have waits : (kernel.procSet idx).status = .waitToSend := by
        simp only [Kernel.offers, decide_eq_true_eq] at offers
        exact offers.1
      refine ⟨_, ?_, yielded⟩
      refine ⟨rfl, ?_, ?_, ?_⟩
      · have table : (((kernel.issued (.receiving page.msg.sender) page.msg).setProc
            kernel.procCurrIdx { kernel.curr with fromSenderPid := page.msg.sender }).setMsg
              kernel.procCurrIdx (kernel.page idx).msg).Placed := issued.congr rfl
        refine table.setProc ?_
        have same : ((kernel.issued (.receiving page.msg.sender) page.msg).setProc
            kernel.procCurrIdx { kernel.curr with fromSenderPid := page.msg.sender }).procSet idx =
            kernel.procSet idx := Function.update_of_ne other _ _
        exact (congrArg Process.pid same).trans (formed.offers_pid offers)
      · intro i different
        by_cases same : i = idx
        · subst same
          refine Or.inr ⟨?_, by simp [Kernel.setStatus]⟩
          rw [waits]
          rfl
        · left
          refine (congrArg Process.status (Function.update_of_ne same _ _)).trans ?_
          exact congrArg Process.status (Function.update_of_ne different _ _)
      · left
        refine (congrArg Process.status (Function.update_of_ne (Ne.symm other) _ _)).trans ?_
        simp [Kernel.setMsg, Kernel.curr]

/-- An interrupt leaves the kernel as it is, or calls the scheduler at the end. -/
theorem intrEntry_cases (formed : WellFormed kernel)
    (handled : intrEntry (interrupted kernel page id) id ttyIntr = .ok (after, killed)) :
    passedOver kernel id ttyIntr ∧ after = interrupted kernel page id ∨
      ¬ passedOver kernel id ttyIntr ∧ killed = false ∧
        ∃ before, Prepared kernel before ∧ procYield before = .ok after := by
  -- Only an interrupt that is passed over returns before the scheduler.
  have pid : (interrupted kernel page id).currPid = kernel.currPid := rfl
  simp only [passedOver, decide_eq_true_eq]
  unfold intrEntry at handled
  rw [pid] at handled
  split at handled
  · rename_i low
    cases handled
    exact Or.inl ⟨Or.inl low, rfl⟩
  · rename_i high
    split at handled
    · rename_i interrupt
      cases handled
      exact Or.inl ⟨Or.inr interrupt, rfl⟩
    · rename_i calm
      refine Or.inr ⟨not_or.mpr ⟨high, calm⟩, ?_⟩
      cases id with
      | soft =>
        simp only [bind_eq_ok, pure_eq_ok, Prod.mk.injEq] at handled
        obtain ⟨middle, called, rfl, rfl⟩ := handled
        exact ⟨rfl, procSyscall_prepared formed called⟩
      | timer =>
        simp only [bind_eq_ok, pure_eq_ok, Prod.mk.injEq] at handled
        obtain ⟨middle, yielded, rfl, rfl⟩ := handled
        refine ⟨rfl, _, ?_, yielded⟩
        exact ⟨rfl, formed.pids.congr rfl, fun _ _ => Or.inl rfl, Or.inl rfl⟩

/-- The process that is picked is entered exactly if the scheduler finds it ready. -/
theorem enters_iff (prepared : Prepared kernel before)
    (calls : ¬ passedOver kernel id ttyIntr) (yielded : procYield before = .ok after) :
    enters kernel after id ttyIntr ↔ (before.procSet after.procCurrIdx).status = .ready := by
  have active := (procYield_others prepared.placed yielded).1
  simp only [enters, decide_eq_true_eq]
  rw [and_iff_right calls]
  by_cases same : after.procCurrIdx = kernel.procCurrIdx
  · rw [same] at active ⊢
    rcases prepared.curr with equal | idle
    · rw [equal]
    · rw [idle] at active
      cases active
  · rcases prepared.others _ same with equal | ⟨waits, woken⟩
    · rw [equal]
    · -- A process that is woken has been entered before.
      rw [woken]
      constructor
      · intro ready
        rw [ready] at waits
        cases waits
      · intro ready
        cases ready

/-- What an interrupt does to the table. -/
structure Turned (kernel after : Kernel) (id : Interrupt) (ttyIntr : Bool) : Prop where
  formed : WellFormed (resume after).1
  -- No process but the one that is picked begins.
  others : ∀ i, i ≠ after.procCurrIdx → begun (after.procSet i).status →
    i = kernel.procCurrIdx ∨ begun (kernel.procSet i).status
  chosen : ¬ enters kernel after id ttyIntr →
    after.procCurrIdx = kernel.procCurrIdx ∨ begun (kernel.procSet after.procCurrIdx).status

/-- Every interrupt that is handled turns to a process that may go on. -/
theorem intrEntry_turned (formed : WellFormed kernel)
    (handled : intrEntry (interrupted kernel page id) id ttyIntr = .ok (after, killed)) :
    Turned kernel after id ttyIntr := by
  rcases intrEntry_cases formed handled with ⟨passed, rfl⟩ | ⟨calls, -, before, prepared, yielded⟩
  · -- The current process goes on at once.
    refine ⟨?_, fun i _ begun => Or.inr begun, fun _ => Or.inl rfl⟩
    rw [resume_fst]
    exact ⟨formed.pids.congr rfl, formed.curr, formed.active, Function.update_self ..⟩
  · obtain ⟨active, others⟩ := procYield_others prepared.placed yielded
    refine ⟨(switched_of_yield prepared.placed yielded).wellFormed prepared.placed, ?_, ?_⟩
    · intro i different begins
      by_cases current : i = kernel.procCurrIdx
      · exact Or.inl current
      · right
        rw [others i (by rw [prepared.idx]; exact current) different] at begins
        rcases prepared.others i current with equal | ⟨waits, -⟩
        · rw [equal] at begins
          exact begins
        · exact waits
    · intro resumes
      rw [enters_iff prepared calls yielded] at resumes
      by_cases same : after.procCurrIdx = kernel.procCurrIdx
      · exact Or.inl same
      · right
        rcases prepared.others _ same with equal | ⟨waits, -⟩
        · -- An active process that is not ready runs or is runnable.
          rw [equal] at active resumes
          cases status : (kernel.procSet after.procCurrIdx).status with
          | running | runnable => rfl
          | ready => exact absurd status resumes
          | _ =>
            rw [status] at active
            cases active
        · exact waits

end Switches

section Runs

variable {state next after : State} {history events : List Event} {idx other : Slot}
variable {last : Frame} {killed : Bool} {row : Fin maxNprocess}

/-- The kernel holds the stack and the registers that a process had when it trapped last. -/
structure Saved (state : State) (history : List Event) (idx : Slot) (last : Frame) (killed : Bool)
    (row : Fin maxNprocess) : Prop where
  trapped : lastOf history (idx2pid idx) = some (.trapped (idx2pid idx) last killed)
  sp : state.sp idx = last.sp
  mepc : state.mepc idx = if killed then appsEntry + 0xC else last.mepc
  fits : (stackSize last.sp).toNat ≤ pageSize
  named : stackRow (idx2pid idx) = .ok row
  stack : ∀ k < (stackSize last.sp).toNat,
    state.procStack row k = last.memory (last.sp.toNat + k)

/-- What a process has saved stays as it is through events of other processes. -/
theorem Saved.concat (saved : Saved state history idx last killed row) {event : Event}
    (elsewhere : event.pid ≠ idx2pid idx) (sp : after.sp = state.sp)
    (mepc : after.mepc = state.mepc) (procStack : after.procStack = state.procStack) :
    Saved after (history ++ [event]) idx last killed row := by
  refine ⟨?_, ?_, ?_, saved.fits, saved.named, ?_⟩
  · rw [lastOf_concat, if_neg elsewhere]
    exact saved.trapped
  · rw [sp]
    exact saved.sp
  · rw [mepc]
    exact saved.mepc
  · rw [procStack]
    exact saved.stack

/-- The restored stack is the one that has been saved. -/
theorem Saved.restored (saved : Saved next history next.kernel.procCurrIdx last killed row)
    (pid : next.kernel.currPid = idx2pid next.kernel.procCurrIdx)
    (restores : manageUserstack next false = .ok after) :
    after.kernel = next.kernel ∧ after.sp = next.sp ∧ after.mepc = next.mepc ∧
      after.procStack = next.procStack ∧
      Restored history next.kernel.currPid ⟨after.sp next.kernel.procCurrIdx,
        after.mepc next.kernel.procCurrIdx, after.memory⟩ last killed := by
  -- The row has the bytes from the saved stack pointer on, and they go back to where they were.
  obtain ⟨-, row_, named, rfl⟩ := manageUserstack_eq_ok.mp restores
  rw [pid, saved.named] at named
  cases named
  refine ⟨rfl, rfl, rfl, rfl, ?_, ?_, saved.sp, saved.mepc⟩
  · rw [pid]
    exact saved.trapped
  · intro addr from_ below
    have top := stackSize_add saved.fits
    have inside : last.sp.toNat ≤ addr ∧
        addr < last.sp.toNat + (stackSize last.sp).toNat := ⟨from_, by omega⟩
    have value := saved.stack (addr - last.sp.toNat) (by omega)
    rw [Nat.add_sub_cancel' from_] at value
    simp only [copyStack, memcpy, Bool.false_eq_true, if_false, saved.sp, Nat.zero_add]
    rw [if_pos inside, value]

/-- The machine after an interrupt, before the stack of the chosen process is restored. -/
def State.turned (state : State) (sp mepc : BitVec 32) (row : Fin maxNprocess) (kernel : Kernel)
    (killed : Bool) : State where
  kernel := (resume kernel).1
  sp := Function.update state.sp state.kernel.procCurrIdx sp
  mepc := Function.update state.mepc state.kernel.procCurrIdx
    (if killed then appsEntry + 0xC else mepc)
  memory := state.memory
  procStack := Function.update state.procStack row
    (memcpy (state.procStack row) state.memory 0 sp.toNat (stackSize sp).toNat)

section Entry

variable {sp mepc : BitVec 32} {page : Syscall} {id : Interrupt} {ttyIntr : Bool} {kernel : Kernel}

/-- An interrupt saves the stack, turns to another process, and restores the stack of that one
unless it is new. -/
theorem ctxEntry_eq (fits : (stackSize sp).toNat ≤ pageSize)
    (named : stackRow state.kernel.currPid = .ok row)
    (turned : intrEntry (interrupted state.kernel page id) id ttyIntr = .ok (kernel, killed)) :
    ctxEntry state sp mepc page id ttyIntr = (do
      let next := state.turned sp mepc row kernel killed
      let first := .trapped state.kernel.currPid ⟨sp, mepc, state.memory⟩ killed
      if enters state.kernel kernel id ttyIntr then
        return (next, [first, .entered kernel.currPid])
      else do
        let next ← manageUserstack next false
        let idx := next.kernel.procCurrIdx
        let frame : Frame := ⟨next.sp idx, next.mepc idx, next.memory⟩
        return (next, [first, .resumed kernel.currPid frame])) := by
  have here : (interrupted state.kernel page id).procCurrIdx = state.kernel.procCurrIdx := rfl
  have saves : manageUserstack { state with
      kernel := interrupted state.kernel page id
      sp := Function.update state.sp state.kernel.procCurrIdx sp
      mepc := Function.update state.mepc state.kernel.procCurrIdx mepc } true =
      .ok { state with
        kernel := interrupted state.kernel page id
        sp := Function.update state.sp state.kernel.procCurrIdx sp
        mepc := Function.update state.mepc state.kernel.procCurrIdx mepc
        procStack := Function.update state.procStack row
          (memcpy (state.procStack row) state.memory 0 sp.toNat (stackSize sp).toNat) } := by
    apply manageUserstack_eq_ok.mpr
    simp only [here, Function.update_self]
    refine ⟨fits, row, named, ?_⟩
    simp only [copyStack, if_true, here, Function.update_self]
  -- The program counter of a process that Ctrl+C ends is replaced again.
  have redirect : ∀ table : Slot → BitVec 32,
      (if killed then Function.update (Function.update table state.kernel.procCurrIdx mepc)
        state.kernel.procCurrIdx (appsEntry + 0xC)
      else Function.update table state.kernel.procCurrIdx mepc) =
        Function.update table state.kernel.procCurrIdx
          (if killed then appsEntry + 0xC else mepc) := by
    intro table
    cases killed
    · rfl
    · exact Function.update_idem _ _ _
  have bind : ∀ {α β : Type} (value : α) (rest : α → Fallible β),
      (Except.ok value >>= rest) = rest value := fun _ _ => rfl
  unfold ctxEntry
  dsimp only
  rw [saves, bind]
  dsimp only
  rw [turned, bind]
  dsimp only
  rw [redirect]
  rfl

/-- Everything that an interrupt does when it does not halt the machine. -/
theorem ctxEntry_cases (entered : ctxEntry state sp mepc page id ttyIntr = .ok (after, events)) :
    ∃ row kernel killed, (stackSize sp).toNat ≤ pageSize ∧
      stackRow state.kernel.currPid = .ok row ∧
      intrEntry (interrupted state.kernel page id) id ttyIntr = .ok (kernel, killed) ∧
      (enters state.kernel kernel id ttyIntr ∧ after = state.turned sp mepc row kernel killed ∧
        events = [.trapped state.kernel.currPid ⟨sp, mepc, state.memory⟩ killed,
          .entered kernel.currPid] ∨
      ¬ enters state.kernel kernel id ttyIntr ∧
        manageUserstack (state.turned sp mepc row kernel killed) false = .ok after ∧
        events = [.trapped state.kernel.currPid ⟨sp, mepc, state.memory⟩ killed,
          .resumed kernel.currPid ⟨after.sp after.kernel.procCurrIdx,
            after.mepc after.kernel.procCurrIdx, after.memory⟩]) := by
  -- The steps of the entry succeed one after the other.
  have parts := entered
  simp only [ctxEntry, bind_eq_ok] at parts
  obtain ⟨middle, saves, ⟨kernel, killed⟩, turned, -⟩ := parts
  obtain ⟨fits, row, named, rfl⟩ := manageUserstack_eq_ok.mp saves
  have here : (interrupted state.kernel page id).procCurrIdx = state.kernel.procCurrIdx := rfl
  simp only [here, Function.update_self] at fits
  have named : stackRow state.kernel.currPid = .ok row := named
  have turned : intrEntry (interrupted state.kernel page id) id ttyIntr = .ok (kernel, killed) :=
    turned
  refine ⟨row, kernel, killed, fits, named, turned, ?_⟩
  rw [ctxEntry_eq fits named turned] at entered
  dsimp only at entered
  split at entered
  · rename_i first
    cases entered
    exact Or.inl ⟨first, rfl, rfl⟩
  · rename_i again
    obtain ⟨last, restores, ended⟩ := bind_eq_ok.mp entered
    cases ended
    exact Or.inr ⟨again, restores, rfl⟩

end Entry

/-- The process that traps has its stack and its registers saved. -/
theorem turned_self {sp mepc : BitVec 32} {kernel : Kernel}
    (formed : WellFormed state.kernel) (fits : (stackSize sp).toNat ≤ pageSize)
    (named : stackRow state.kernel.currPid = .ok row) :
    Saved (state.turned sp mepc row kernel killed)
      (history ++ [.trapped state.kernel.currPid ⟨sp, mepc, state.memory⟩ killed])
      state.kernel.procCurrIdx ⟨sp, mepc, state.memory⟩ killed row := by
  rw [formed.curr] at named ⊢
  refine ⟨?_, Function.update_self .., Function.update_self .., fits, named, ?_⟩
  · rw [lastOf_concat]
    exact if_pos rfl
  · intro k below
    have inside : 0 ≤ k ∧ k < 0 + (stackSize sp).toNat := by
      rw [Nat.zero_add]
      exact ⟨Nat.zero_le k, below⟩
    simp only [State.turned, Function.update_self, memcpy]
    rw [if_pos inside, Nat.sub_zero]

/-- What other processes have saved stays as it is when a process traps. -/
theorem turned_other {sp mepc : BitVec 32} {kernel : Kernel} {now : Bool} {place : Fin maxNprocess}
    (formed : WellFormed state.kernel) (named : stackRow state.kernel.currPid = .ok place)
    (saved : Saved state history idx last killed row) (different : idx ≠ state.kernel.procCurrIdx) :
    Saved (state.turned sp mepc place kernel now)
      (history ++ [.trapped state.kernel.currPid ⟨sp, mepc, state.memory⟩ now])
      idx last killed row := by
  rw [formed.curr] at named ⊢
  have apart : idx2pid state.kernel.procCurrIdx ≠ idx2pid idx := by
    rw [Ne, idx2pid_inj]
    exact Ne.symm different
  -- Rows of different processes are different.
  have rows : row ≠ place := by
    rintro rfl
    exact apart (stackRow_inj named saved.named)
  refine ⟨?_, ?_, ?_, saved.fits, saved.named, ?_⟩
  · rw [lastOf_concat]
    exact (if_neg apart).trans saved.trapped
  · exact (Function.update_of_ne different _ _).trans saved.sp
  · exact (Function.update_of_ne different _ _).trans saved.mepc
  · intro k below
    simp only [State.turned, Function.update_of_ne rows]
    exact saved.stack k below

/-- An event is one of two. -/
theorem split_pair {first second event : Event} {earlier later : List Event}
    (shape : [first, second] = earlier ++ event :: later) :
    first = event ∨ earlier = [first] ∧ second = event := by
  rcases earlier with _ | ⟨one, _ | ⟨two, rest⟩⟩
  · exact Or.inl (List.cons.inj shape).1
  · obtain ⟨rfl, tail⟩ := List.cons.inj shape
    exact Or.inr ⟨rfl, (List.cons.inj tail).1⟩
  · have long := congrArg List.length shape
    simp only [List.length_cons, List.length_append, List.length_nil] at long
    omega

/-- Every process that has begun and does not run has its stack and its registers saved. -/
structure Kept (state : State) (history : List Event) : Prop where
  formed : WellFormed state.kernel
  saved : ∀ idx, idx ≠ state.kernel.procCurrIdx → begun (state.kernel.procSet idx).status →
    ∃ last killed row, Saved state history idx last killed row

/-- The process that traps joins those that have been saved before. -/
theorem Kept.saves (kept : Kept state history) {sp mepc : BitVec 32} {kernel : Kernel}
    {killed : Bool} (fits : (stackSize sp).toNat ≤ pageSize)
    (named : stackRow state.kernel.currPid = .ok row) (idx : Slot)
    (either : idx = state.kernel.procCurrIdx ∨ begun (state.kernel.procSet idx).status) :
    ∃ last now place, Saved (state.turned sp mepc row kernel killed)
      (history ++ [.trapped state.kernel.currPid ⟨sp, mepc, state.memory⟩ killed])
      idx last now place := by
  by_cases same : idx = state.kernel.procCurrIdx
  · rw [same]
    exact ⟨_, _, _, turned_self kept.formed fits named⟩
  · obtain ⟨last, now, place, saved⟩ := kept.saved idx same (either.resolve_left same)
    exact ⟨last, now, place, turned_other kept.formed named saved same⟩

/-- An interrupt keeps what is saved, and restores what it resumes. -/
theorem Kept.trap {sp mepc : BitVec 32} {page : Syscall} {id : Interrupt} {ttyIntr : Bool}
    (kept : Kept state history)
    (handled : ctxEntry state sp mepc page id ttyIntr = .ok (after, events)) :
    Kept after (history ++ events) ∧ ∀ earlier pid frame later,
      events = earlier ++ .resumed pid frame :: later →
      ∃ last killed, Restored (history ++ earlier) pid frame last killed := by
  -- The trapped process is saved under its row, which no other live process has.
  obtain ⟨row, kernel, killed, fits, named, interrupt, cases_⟩ := ctxEntry_cases handled
  have formed := kept.formed
  have turned := intrEntry_turned formed interrupt
  have table : (state.turned sp mepc row kernel killed).kernel.procSet = kernel.procSet := by
    simp only [State.turned, resume_fst, Kernel.setContext_procSet]
  have here : (state.turned sp mepc row kernel killed).kernel.procCurrIdx =
      kernel.procCurrIdx := by
    simp only [State.turned, resume_fst, Kernel.setContext_procCurrIdx]
  have pid : kernel.currPid = idx2pid kernel.procCurrIdx := by
    have curr := turned.formed.curr
    simp only [resume_fst, Kernel.currPid, Kernel.curr] at curr
    exact curr
  have all := @Kept.saves _ _ row kept sp mepc kernel killed fits named
  have others : ∀ idx, idx ≠ kernel.procCurrIdx → begun (kernel.procSet idx).status →
      idx2pid kernel.procCurrIdx ≠ idx2pid idx ∧
      ∃ last now place, Saved (state.turned sp mepc row kernel killed)
        (history ++ [.trapped state.kernel.currPid ⟨sp, mepc, state.memory⟩ killed])
        idx last now place := by
    intro idx different begins
    refine ⟨?_, all idx (turned.others idx different begins)⟩
    rw [Ne, idx2pid_inj]
    exact Ne.symm different
  rcases cases_ with ⟨first, rfl, rfl⟩ | ⟨again, restores, rfl⟩
  · refine ⟨⟨turned.formed, ?_⟩, ?_⟩
    · intro idx different begins
      rw [table] at begins
      rw [here] at different
      obtain ⟨apart, last, now, place, saved⟩ := others idx different begins
      rw [← pid] at apart
      rw [List.append_cons history]
      exact ⟨last, now, place, saved.concat apart rfl rfl rfl⟩
    · intro earlier pid_ frame later shape
      rcases split_pair shape with same | ⟨-, same⟩
      · cases same
      · cases same
  · obtain ⟨last, now, place, saved⟩ := all kernel.procCurrIdx (turned.chosen again)
    rw [← here] at saved
    have curr : (state.turned sp mepc row kernel killed).kernel.currPid =
        idx2pid (state.turned sp mepc row kernel killed).kernel.procCurrIdx := turned.formed.curr
    obtain ⟨same, sp_, mepc_, rows, restored⟩ := saved.restored curr restores
    refine ⟨⟨?_, ?_⟩, ?_⟩
    · rw [same]
      exact turned.formed
    · intro idx different begins
      rw [same, table] at begins
      rw [same, here] at different
      obtain ⟨apart, last, now, place, saved⟩ := others idx different begins
      rw [← pid] at apart
      rw [List.append_cons history]
      exact ⟨last, now, place, saved.concat apart sp_ mepc_ rows⟩
    · intro earlier pid_ frame later shape
      rcases split_pair shape with other | ⟨rfl, other⟩
      · cases other
      · cases other
        rw [curr, here, ← pid] at restored
        rw [same, here]
        exact ⟨last, now, restored⟩

/-- Calls of the process server let no process begin. -/
theorem Kept.call {kernel : Kernel} (kept : Kept state history) (formed : WellFormed kernel)
    (curr : kernel.procCurrIdx = state.kernel.procCurrIdx)
    (begins : ∀ idx, begun (kernel.procSet idx).status → begun (state.kernel.procSet idx).status) :
    Kept { state with kernel } history := by
  refine ⟨formed, fun idx different begun => ?_⟩
  rw [curr] at different
  obtain ⟨last, killed, row, saved⟩ := kept.saved idx different (begins idx begun)
  exact ⟨last, killed, row, saved.trapped, saved.sp, saved.mepc, saved.fits, saved.named,
    saved.stack⟩

/-- A process with a status that is not one of those that have begun has not begun. -/
theorem begun_setStatus {kernel : Kernel} {status : Status} (fresh : begun status = false)
    (begins : begun ((kernel.setStatus idx status).procSet other).status) :
    begun (kernel.procSet other).status := by
  by_cases same : other = idx
  · rw [same] at begins
    simp only [Kernel.setStatus, Kernel.setProc_procSet, Function.update_self, fresh] at begins
    cases begins
  · simpa only [Kernel.setStatus, Kernel.setProc_procSet, Function.update_of_ne same] using begins

/-- Allocating a slot keeps what other processes have saved. -/
theorem Kept.alloc {kernel : Kernel} {pid : Int} (kept : Kept state history)
    (allocated : procAlloc state.kernel = .ok (pid, kernel)) :
    Kept { state with kernel } (history ++ [.allocated pid]) := by
  unfold procAlloc at allocated
  split at allocated
  · rename_i idx found
    have free : (state.kernel.procSet idx).status = .unused := by
      simpa using List.find?_some found
    cases allocated
    have outcome : Outcome state.kernel .alloc (state.kernel.allocated idx) [] := .allocated free
    refine ⟨outcome.wellFormed kept.formed trivial, fun other different begins => ?_⟩
    by_cases same : other = idx
    · -- The new process has not begun.
      rw [same] at begins
      simp [begun] at begins
    · have old : begun (state.kernel.procSet other).status := by
        simpa [Function.update_of_ne same] using begins
      obtain ⟨last, killed, row, saved⟩ := kept.saved other different old
      have apart : idx2pid idx ≠ idx2pid other := by
        rw [Ne, idx2pid_inj]
        exact Ne.symm same
      exact ⟨last, killed, row, saved.concat apart rfl rfl rfl⟩
  · exact absurd allocated throw_ne_ok

/-- Every step keeps what is saved, and restores what it resumes. -/
theorem Kept.step {label : Label} (kept : Kept state history) (permitted : Permitted state label)
    (stepped : step state label = .ok (after, events)) :
    Kept after (history ++ events) ∧ ∀ earlier pid frame later,
      events = earlier ++ .resumed pid frame :: later →
      ∃ last killed, Restored (history ++ earlier) pid frame last killed := by
  -- Stores, allocations and releases touch no saved stack of a process that can be resumed.
  cases label with
  | store memory =>
    cases stepped
    rw [List.append_nil]
    refine ⟨⟨kept.formed, fun idx different begins => ?_⟩, fun earlier _ _ _ shape => ?_⟩
    · obtain ⟨last, killed, row, saved⟩ := kept.saved idx different begins
      exact ⟨last, killed, row, saved.trapped, saved.sp, saved.mepc, saved.fits, saved.named,
        saved.stack⟩
    · simp at shape
  | trap sp mepc page id ttyIntr => exact kept.trap stepped
  | alloc =>
    simp only [Stacks.step, bind_eq_ok] at stepped
    obtain ⟨⟨pid, kernel⟩, allocated, ended⟩ := stepped
    cases ended
    refine ⟨kept.alloc allocated, fun earlier _ _ _ shape => ?_⟩
    rcases earlier with _ | ⟨one, rest⟩
    · cases shape
    · simp at shape
  | setReady pid =>
    simp only [Stacks.step, bind_eq_ok] at stepped
    obtain ⟨kernel, marked, ended⟩ := stepped
    cases ended
    rw [List.append_nil]
    refine ⟨?_, fun earlier _ _ _ shape => by simp at shape⟩
    obtain ⟨idx, rfl, known, rfl⟩ := procSetStatus_eq_ok.mp marked
    have outcome : Outcome state.kernel (.setReady (idx2pid idx))
        (state.kernel.setStatus idx .ready) [] := .madeReady known
    exact kept.call (outcome.wellFormed kept.formed trivial) rfl fun _ begins =>
      begun_setStatus rfl begins
  | free pid =>
    simp only [Stacks.step, bind_eq_ok] at stepped
    obtain ⟨kernel, freed, ended⟩ := stepped
    cases ended
    rw [List.append_nil]
    refine ⟨?_, fun earlier _ _ _ shape => by simp at shape⟩
    unfold procFree at freed
    split at freed
    · obtain ⟨idx, rfl, known, rfl⟩ := procSetStatus_eq_ok.mp freed
      have outcome : Outcome state.kernel (.free (idx2pid idx))
          (state.kernel.setStatus idx .unused) [] := .freed known
      exact kept.call (outcome.wellFormed kept.formed permitted) rfl fun _ begins =>
        begun_setStatus rfl begins
    · rename_i all
      cases freed
      have outcome : Outcome state.kernel (.free (-1)) state.kernel.killedAll [] := .freedAll
      rw [not_not.mp all] at permitted
      refine kept.call (outcome.wellFormed kept.formed permitted) rfl fun idx begins => ?_
      simp only at begins
      split at begins
      · cases begins
      · exact begins

/-- Nothing has been saved when the process server is entered. -/
theorem Booted.kept (booted : Booted state) : Kept state [] := by
  rw [Booted] at booted
  refine ⟨by rw [booted]; exact initial_wellFormed, fun idx different begins => ?_⟩
  rw [booted] at different begins
  simp only [Kernel.initial] at different begins
  rw [if_neg different] at begins
  cases begins

/-- What is saved is right in every reachable state. -/
theorem kept_of_reaches {start : State} (booted : Booted start)
    (reached : Reaches start state history) : Kept state history := by
  apply Run.invariant Kept booted.kept _ reached
  intro state label next history events kept taken
  exact (kept.step taken.1 taken.2).1

end Runs

/-- Processes with small pids have rows. -/
theorem stackRow_ok {idx : Slot} (small : idx2pid idx < (maxNprocess : Int)) :
    ∃ row, stackRow (idx2pid idx) = .ok row := by
  have bounds := idx2pid_bounds idx
  rw [stackRow, dif_pos ⟨by omega, small⟩]
  exact ⟨_, rfl⟩

/-- No assertion on the stacks fires while they stay in their area and the pids are small. -/
theorem ctxEntry_returns {state : State} {history : List Event} {sp mepc : BitVec 32}
    {page : Syscall} {id : Interrupt} {ttyIntr killed : Bool} {kernel : Kernel}
    (kept : Kept state history) (area : appsStackTop.toNat - pageSize ≤ sp.toNat)
    (top : sp.toNat ≤ appsStackTop.toNat) (small : state.kernel.currPid < (maxNprocess : Int))
    (handled : intrEntry (interrupted state.kernel page id) id ttyIntr = .ok (kernel, killed))
    (small_ : kernel.currPid < (maxNprocess : Int)) :
    ∃ after events, ctxEntry state sp mepc page id ttyIntr = .ok (after, events) ∧
      after.kernel = (resume kernel).1 := by
  have fits := stackSize_fits area top
  have formed := kept.formed
  have turned := intrEntry_turned formed handled
  have pid : kernel.currPid = idx2pid kernel.procCurrIdx := by
    have curr := turned.formed.curr
    simp only [resume_fst, Kernel.currPid, Kernel.curr] at curr
    exact curr
  rw [formed.curr] at small
  rw [pid] at small_
  obtain ⟨row, named⟩ := stackRow_ok small
  rw [← formed.curr] at named
  obtain ⟨place, known⟩ := stackRow_ok small_
  rw [ctxEntry_eq fits named handled]
  dsimp only
  by_cases first : enters state.kernel kernel id ttyIntr
  · rw [if_pos first]
    exact ⟨_, _, rfl, rfl⟩
  · rw [if_neg first]
    -- The stack of a process that is resumed has fitted when it was saved.
    obtain ⟨last, now, other, saved⟩ := @Kept.saves _ _ row kept sp mepc kernel killed fits named
      kernel.procCurrIdx (turned.chosen first)
    have curr : (state.turned sp mepc row kernel killed).kernel.procCurrIdx =
        kernel.procCurrIdx := by
      simp only [State.turned, resume_fst, Kernel.setContext_procCurrIdx]
    have own : (state.turned sp mepc row kernel killed).kernel.currPid =
        idx2pid kernel.procCurrIdx := by
      rw [← curr]
      exact turned.formed.curr
    have restores : manageUserstack (state.turned sp mepc row kernel killed) false =
        .ok (copyStack (state.turned sp mepc row kernel killed) false place) := by
      apply manageUserstack_eq_ok.mpr
      rw [own, curr, saved.sp]
      exact ⟨saved.fits, place, known, rfl⟩
    rw [restores]
    exact ⟨_, _, rfl, rfl⟩

/-- The system calls and the timer interrupts of the kernel are interrupts of this machine. -/
theorem interrupt_of_step {kernel after : Kernel} {label : Grass.Label}
    {events : List Grass.Event} (formed : WellFormed kernel)
    (traps : (∃ receiver msg, label = .send receiver msg ∧ msg.length ≤ syscallMsgLen) ∨
      (∃ sender, label = .recv sender) ∨ label = .yield ∨ ∃ ttyIntr, label = .timer ttyIntr)
    (stepped : Grass.step kernel label = .ok (after, events)) :
    ∃ page id ttyIntr middle killed,
      intrEntry (interrupted kernel page id) id ttyIntr = .ok (middle, killed) ∧
        (resume middle).1 = after := by
  -- A system call is a trap with its page.
  have call : ∀ {page : Syscall} {events : List Grass.Event},
      trap kernel page (contextOf page .soft) = .ok (after, events) →
      ∃ page id ttyIntr middle killed,
        intrEntry (interrupted kernel page id) id ttyIntr = .ok (middle, killed) ∧
          (resume middle).1 = after := by
    intro page events trapped
    simp only [trap, bind_eq_ok] at trapped
    obtain ⟨⟨middle, killed⟩, handled, ended⟩ := trapped
    exact ⟨page, .soft, false, middle, killed, handled, congrArg Prod.fst (pure_eq_ok.mp ended)⟩
  rcases traps with ⟨receiver, msg, rfl, short⟩ | ⟨sender, rfl⟩ | rfl | ⟨ttyIntr, rfl⟩
  · simp only [Grass.step, sysSend, if_neg (Nat.not_lt.mpr short), bind_eq_ok] at stepped
    obtain ⟨⟨last, rest⟩, trapped, ended⟩ := stepped
    cases ended
    exact call trapped
  · simp only [Grass.step, bind_eq_ok] at stepped
    obtain ⟨page, filled, trapped⟩ := stepped
    have type : page.type = .recv := by
      unfold sysRecv at filled
      split at filled
      · simp only [bind_eq_ok, pure_eq_ok] at filled
        obtain ⟨_, _, rfl⟩ := filled
        rfl
      · cases filled
        rfl
    have context : contextOf page .soft = .receiving page.msg.sender := by
      simp only [contextOf, type]
    rw [← context] at trapped
    exact call trapped
  · exact call stepped
  · -- At a timer interrupt the page is left alone.
    have same : interrupted kernel (kernel.page kernel.procCurrIdx) .timer = kernel := by
      have user := formed.user
      simp only [interrupted, contextOf, ← user, Kernel.setPage, Kernel.setContext,
        Function.update_eq_self]
    simp only [Grass.step, bind_eq_ok] at stepped
    obtain ⟨⟨middle, killed⟩, handled, ended⟩ := stepped
    rw [← same] at handled
    refine ⟨_, .timer, ttyIntr, middle, killed, handled, ?_⟩
    cases killed with
    | false => exact congrArg Prod.fst (pure_eq_ok.mp ended)
    | true =>
      -- A process that is sent to its exit goes on in user space at once.
      cases ended
      rcases intrEntry_cases formed handled with ⟨-, stays⟩ | ⟨-, calm, -⟩
      · rw [stays, same, resume_fst, ← formed.user, Kernel.setContext, Function.update_eq_self]
      · cases calm

/-- Whatever the kernel does at a system call or a timer interrupt, this machine does as well, and no
assertion on the stacks fires while they stay in their area and the pids have rows. -/
theorem trap_returns {state : State} {history : List Event} {label : Grass.Label}
    {kernel : Kernel} {events : List Grass.Event} {sp mepc : BitVec 32}
    (kept : Kept state history) (area : appsStackTop.toNat - pageSize ≤ sp.toNat)
    (top : sp.toNat ≤ appsStackTop.toNat) (small : state.kernel.currPid < (maxNprocess : Int))
    (traps : (∃ receiver msg, label = .send receiver msg ∧ msg.length ≤ syscallMsgLen) ∨
      (∃ sender, label = .recv sender) ∨ label = .yield ∨ ∃ ttyIntr, label = .timer ttyIntr)
    (stepped : Grass.step state.kernel label = .ok (kernel, events))
    (next : kernel.currPid < (maxNprocess : Int)) :
    ∃ page id ttyIntr after shown,
      step state (.trap sp mepc page id ttyIntr) = .ok (after, shown) ∧ after.kernel = kernel := by
  obtain ⟨page, id, ttyIntr, middle, killed, handled, rfl⟩ :=
    interrupt_of_step kept.formed traps stepped
  have low : middle.currPid < (maxNprocess : Int) := by
    simp only [resume_fst, Kernel.currPid, Kernel.curr] at next
    exact next
  obtain ⟨after, shown, returned, same⟩ := ctxEntry_returns kept area top small handled low
  exact ⟨page, id, ttyIntr, after, shown, returned, same⟩

/-- Every process that is resumed has its own stack, stack pointer and program counter back,
whatever other processes have done since it trapped. -/
theorem resumed_restored {start state after : State} {history earlier later : List Event}
    {label : Label} {pid : Int} {frame : Frame} (booted : Booted start)
    (reached : Reaches start state history) (permitted : Permitted state label)
    (stepped : step state label = .ok (after, earlier ++ .resumed pid frame :: later)) :
    ∃ last killed, Restored (history ++ earlier) pid frame last killed :=
  ((kept_of_reaches booted reached).step permitted stepped).2 earlier pid frame later rfl

/-- Whether a step is permitted can be decided. -/
instance (state : State) : (label : Label) → Decidable (Permitted state label)
  | .free pid => inferInstanceAs (Decidable (Spares state.kernel (.free pid)))
  | .store _ | .trap _ _ _ _ _ | .alloc | .setReady _ => isTrue trivial

/-- The machine with empty memory, as it enters the process server. -/
def bootState : State := ⟨.initial, fun _ => 0, fun _ => 0, fun _ => 0, fun _ _ => 0⟩

/-- The process server yields to a new process, which overwrites the stack. -/
def sharedStart : List Label :=
  [.alloc, .setReady 2, .store fun _ => 7,
    .trap 0x807FFFC0 0x80400100 (sysYield .zero) .soft false, .store fun _ => 9]

/-- The new process yields. -/
def sharedEnd : Label := .trap 0x807FFF80 0x80400200 (sysYield .zero) .soft false

/-- A byte of the stack with which the process server is resumed. -/
def resumedByte (addr : Nat) : Fallible (State × List Event) → Option UInt8
  | .ok (_, [_, .resumed 1 frame]) => some (frame.memory addr)
  | _ => none

/-- A byte is read only if the process server is resumed. -/
theorem resumed_of_byte {addr : Nat} {value : UInt8} {result : Fallible (State × List Event)}
    (read : resumedByte addr result = some value) : ∃ after second frame,
      result = .ok (after, [second] ++ .resumed 1 frame :: []) ∧ frame.memory addr = value := by
  unfold resumedByte at read
  split at read
  · rename_i after second frame
    exact ⟨after, second, frame, rfl, Option.some.inj read⟩
  · cases read

/-- The process server has its stack back after another process has used the area. -/
theorem resumed_restored_first : ∃ state history after second frame,
    Reaches bootState state history ∧
      step state sharedEnd = .ok (after, [second] ++ .resumed 1 frame :: []) ∧
      frame.memory 0x807FFFC0 = 7 ∧
      ∃ last killed, Restored (history ++ [second]) 1 frame last killed := by
  have booted : Booted bootState := rfl
  have shown : (follow Permitted step bootState sharedStart).map (fun reached =>
      resumedByte 0x807FFFC0 (step reached.1 sharedEnd)) = some (some 7) := by decide +kernel
  obtain ⟨⟨state, history⟩, followed, byte⟩ := Option.map_eq_some_iff.mp shown
  have reached : Reaches bootState state history := run_of_follow .start followed
  have permitted : Permitted state sharedEnd := trivial
  obtain ⟨after, second, frame, stepped, byte⟩ := resumed_of_byte byte
  exact ⟨state, history, after, second, frame, reached, stepped, byte,
    resumed_restored booted reached permitted stepped⟩

end Egos.Grass.Stacks
