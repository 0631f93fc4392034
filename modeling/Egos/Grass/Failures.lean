import Egos.Grass.Effects

/-! Everything that can make a step halt the machine. -/

namespace Egos.Grass

/-- A sequence fails exactly when its first part does, or its second part after it. -/
theorem bind_eq_error {α β : Type} {first : Fallible α} {second : α → Fallible β}
    {message : String} : (first >>= second) = .error message ↔
      first = .error message ∨ ∃ value, first = .ok value ∧ second value = .error message := by
  cases first with
  | error other => simp [Bind.bind, Except.bind]
  | ok value => simp [Bind.bind, Except.bind]

/-- Returning a value does not fail. -/
theorem pure_ne_error {α : Type} {value : α} {message : String} :
    (pure value : Fallible α) ≠ .error message := by
  simp [pure, Except.pure]

/-- A fatal error fails with its message. -/
theorem throw_eq_error {α : Type} {thrown message : String} :
    (throw thrown : Fallible α) = .error message ↔ thrown = message := by
  simp [throw, throwThe, MonadExceptOf.throw]

/-- An assertion fails with its message exactly when its condition does not hold. -/
theorem assert_eq_error {condition : Prop} [Decidable condition] {text message : String} :
    assert condition text = .error message ↔ ¬ condition ∧ "[ASSERT FAILED]" ++ text = message := by
  unfold assert
  split
  · simp [pure, Except.pure, *]
  · simp [throw_eq_error, *]

/-- Only a pid of no slot is not translated. -/
theorem pid2idx_eq_error {pid : Int} {message : String} (failed : pid2idx pid = .error message) :
    message = "pid2idx: invalid pid" ∧ ∀ idx, pid ≠ idx2pid idx := by
  refine ⟨?_, fun idx named => ?_⟩
  · unfold pid2idx at failed
    split at failed
    · exact absurd failed pure_ne_error
    · exact (throw_eq_error.mp failed).symm
  · rw [named, pid2idx_idx2pid] at failed
    cases failed

/-- Setting the status of a slot that carries its pid does not fail. -/
theorem procSetStatus_ne_error {kernel : Kernel} {idx : Slot} {status : Status}
    {message : String} (carried : (kernel.procSet idx).pid = idx2pid idx) :
    procSetStatus kernel (idx2pid idx) status ≠ .error message := by
  rw [procSetStatus_eq_ok.mpr ⟨idx, rfl, carried, rfl⟩]
  intro failed
  cases failed

/-- A copy between the pages of two slots does not fail. -/
theorem msgcpy_ne_error {kernel : Kernel} {src dst : Slot} {message : String} :
    msgcpy kernel (idx2pid src) (idx2pid dst) ≠ .error message := by
  intro failed
  simp only [msgcpy, bind_eq_error] at failed
  rcases failed with failed | ⟨_, -, failed⟩
  · rw [mmuSlot_eq_ok.mpr rfl] at failed
    cases failed
  · rcases failed with failed | ⟨_, -, failed⟩
    · rw [mmuSlot_eq_ok.mpr rfl] at failed
      cases failed
    · exact pure_ne_error failed

/-- The scheduler fails only when no process is active. -/
theorem procYield_eq_error {kernel : Kernel} {message : String} (pids : kernel.Placed)
    (failed : procYield kernel = .error message) : message = "proc_yield: no runnable process" := by
  unfold procYield at failed
  cases next : kernel.nextIdx with
  | none =>
    simp only [next] at failed
    exact (throw_eq_error.mp failed).symm
  | some idx =>
    exfalso
    have active := active_of_nextIdx next
    have own := pids idx fun unused => by
      rw [unused] at active
      cases active
    have bounds := idx2pid_bounds idx
    simp only [next, bind_eq_error, assert_eq_error] at failed
    rcases failed with paused | ⟨middle, paused, failed⟩
    · -- The current process carries its own pid if it runs.
      unfold Kernel.pause at paused
      split at paused
      · rename_i running
        have carried := pids kernel.procCurrIdx (by rw [← Kernel.curr, running]; decide)
        rw [Kernel.currPid, Kernel.curr, carried] at paused
        exact procSetStatus_ne_error carried paused
      · exact pure_ne_error paused
    · have kept : (middle.procSet idx).pid = idx2pid idx := by
        rcases pause_eq_ok pids paused with ⟨-, rfl⟩ | ⟨-, rfl⟩
        · exact own
        · by_cases same : idx = kernel.procCurrIdx
          · subst same
            simpa [Kernel.setStatus] using own
          · simpa [Kernel.setStatus, Function.update_of_ne same] using own
      have named : ({ middle with procCurrIdx := idx } : Kernel).currPid = idx2pid idx := kept
      rcases failed with ⟨outside, -⟩ | ⟨_, -, running⟩
      · rw [named] at outside
        simp only [maxNprocess] at outside
        omega
      · rw [named] at running
        have carried : (({ middle with procCurrIdx := idx } : Kernel).procSet idx).pid =
          idx2pid idx := kept
        exact procSetStatus_ne_error carried running

/-- The fatal errors that processes can cause with their system calls. -/
def faults : List String :=
  ["pid2idx: invalid pid", "[ASSERT FAILED][file:grass/syscall.c, line:83]",
    "[ASSERT FAILED][file:grass/syscall.c, line:181]", "proc_yield: no runnable process"]

/-- A failing scheduler is one of the faults. -/
theorem procYield_faults {kernel : Kernel} {message : String} (pids : kernel.Placed)
    (failed : procYield kernel = .error message) : message ∈ faults := by
  rw [procYield_eq_error pids failed]
  decide

/-- The kernel's half of a send fails for an unknown receiver or without an active process. -/
theorem procSend_eq_error {kernel : Kernel} (formed : WellFormed kernel) {msg : SysMsg}
    {message : String} (failed : procSend (kernel.issued .sending msg) = .error message) :
    message ∈ faults := by
  -- The pid is checked first, and all that can fail behind that is the scheduler.
  simp only [procSend, Kernel.issued_procCurrIdx, Kernel.issued_currPid, Kernel.issued_setMsg,
    Kernel.issued_page_self, Kernel.issued_procSet, Kernel.issued_curr, bind_eq_error,
    assert_eq_error] at failed
  rcases failed with unknown | ⟨idx, named, failed⟩
  · rw [(pid2idx_eq_error unknown).1]
    decide
  rw [pid2idx_eq_ok] at named
  obtain ⟨sender, receiver, content⟩ := msg
  simp only at named failed
  subst named
  rcases failed with ⟨-, rfl⟩ | ⟨_, carried, failed⟩
  · decide
  rw [assert_eq_ok] at carried
  split at failed
  · refine procYield_faults ?_ failed
    have table : (kernel.issued .sending
      ⟨kernel.currPid, idx2pid idx, content⟩).Placed := formed.pids.congr rfl
    exact table.setProc formed.curr
  · simp only [bind_eq_error] at failed
    rcases failed with failed | ⟨copied, copy, failed⟩
    · rw [formed.curr] at failed
      exact absurd failed msgcpy_ne_error
    have table := msgcpy_eq_ok formed.curr rfl copy
    have carries : (copied.procSet idx).pid = idx2pid idx := by
      rw [table]
      exact carried
    rcases failed with failed | ⟨marked, mark, failed⟩
    · exact absurd failed (procSetStatus_ne_error carries)
    · obtain ⟨other, same, -, rfl⟩ := procSetStatus_eq_ok.mp mark
      rw [idx2pid_inj] at same
      subst same
      refine procYield_faults ?_ failed
      have placed : copied.Placed := by
        rw [table]
        exact formed.pids.congr rfl
      exact placed.setStatus carries

/-- The kernel's half of a receive fails only without an active process. -/
theorem procRecv_eq_error {kernel : Kernel} (formed : WellFormed kernel) {context : Context}
    {msg : SysMsg} (bounded : msg.sender ≥ 0 ∧ msg.sender < (maxNprocess : Int))
    {message : String} (failed : procRecv (kernel.issued context msg) = .error message) :
    message ∈ faults := by
  -- Senders carry known pids, so that only the scheduler can fail.
  have placed : ((kernel.issued context msg).setProc kernel.procCurrIdx
      { kernel.curr with fromSenderPid := msg.sender }).Placed := by
    have table : (kernel.issued context msg).Placed := formed.pids.congr rfl
    exact table.setProc formed.curr
  simp only [procRecv, Kernel.issued_procCurrIdx, Kernel.issued_currPid, Kernel.issued_page_self,
    Kernel.issued_curr, bind_eq_error, assert_eq_error] at failed
  rcases failed with ⟨outside, -⟩ | ⟨_, -, failed⟩
  · exact absurd bounded outside
  rcases failed with failed | ⟨sender, found, failed⟩
  · unfold Kernel.findSender at failed
    split at failed
    · exact absurd failed pure_ne_error
    · rename_i targeted
      simp only [bind_eq_error] at failed
      rcases failed with unknown | ⟨_, -, failed⟩
      · rw [(pid2idx_eq_error unknown).1]
        decide
      · exact absurd failed pure_ne_error
  have carried : ∀ i, ((kernel.issued context msg).setProc kernel.procCurrIdx
      { kernel.curr with fromSenderPid := msg.sender }).offers i kernel.currPid →
      (((kernel.issued context msg).setProc kernel.procCurrIdx
        { kernel.curr with fromSenderPid := msg.sender }).procSet i).pid = idx2pid i := by
    intro i offers
    simp only [Kernel.offers, decide_eq_true_eq] at offers
    exact placed i (by rw [offers.1]; decide)
  rcases findSender_cases carried found with ⟨rfl, -⟩ | ⟨idx, offers, rfl, -⟩
  · rw [if_pos rfl] at failed
    have own : (((kernel.issued context msg).setProc kernel.procCurrIdx
        { kernel.curr with fromSenderPid := msg.sender }).procSet kernel.procCurrIdx).pid =
        idx2pid kernel.procCurrIdx := by
      rw [Kernel.setProc_procSet, Function.update_self]
      exact formed.curr
    exact procYield_faults (placed.setStatus own) failed
  · have present : idx2pid idx ≠ -1 := by
      have := idx2pid_bounds idx
      omega
    simp only [if_neg present, bind_eq_error] at failed
    rcases failed with failed | ⟨copied, copy, failed⟩
    · rw [formed.curr] at failed
      exact absurd failed msgcpy_ne_error
    have table := msgcpy_eq_ok rfl formed.curr copy
    have carries : (copied.procSet idx).pid = idx2pid idx := by
      rw [table]
      exact carried idx offers
    rcases failed with failed | ⟨marked, mark, failed⟩
    · exact absurd failed (procSetStatus_ne_error carries)
    · obtain ⟨other, same, -, rfl⟩ := procSetStatus_eq_ok.mp mark
      rw [idx2pid_inj] at same
      subst same
      have copiedPlaced : copied.Placed := by
        rw [table]
        exact placed.congr rfl
      exact procYield_faults (copiedPlaced.setStatus carries) failed

/-- A trap fails only if the kernel's half of the call does. -/
theorem trap_eq_error {kernel : Kernel} {page : Syscall} {context : Context} {message : String}
    (failed : trap kernel page context = .error message) :
    procSyscall ((kernel.setPage kernel.procCurrIdx page).setContext kernel.procCurrIdx context) =
      .error message := by
  simp only [trap, intrEntry, bind_eq_error, reduceCtorEq, false_and, if_false, Bool.false_eq_true,
    and_false] at failed
  rcases failed with (failed | ⟨_, -, failed⟩) | ⟨_, -, failed⟩
  · exact failed
  · exact absurd failed pure_ne_error
  · exact absurd failed pure_ne_error

/-- A system call or timer interrupt fails only with one of the faults. -/
theorem trap_faults {kernel : Kernel} (formed : WellFormed kernel) {label : Label}
    {message : String} (failed : step kernel label = .error message)
    (calls : match label with
      | .send _ _ | .recv _ | .yield | .timer _ => True
      | _ => False) : message ∈ faults := by
  -- Each system call has its own checks, and the scheduler is common to them.
  cases label with
  | send receiver msg =>
    simp only [step, sysSend] at failed
    by_cases long : msg.length > syscallMsgLen
    · simp only [if_pos long] at failed
      exact absurd failed pure_ne_error
    · simp only [if_neg long, bind_eq_error] at failed
      rcases failed with failed | ⟨_, -, failed⟩
      · have halted := trap_eq_error failed
        rw [procSyscall_issued] at halted
        exact procSend_eq_error formed halted
      · exact absurd failed pure_ne_error
  | recv sender =>
    simp only [step, sysRecv, bind_eq_error] at failed
    rcases failed with failed | ⟨page, filled, failed⟩
    · split at failed
      · simp only [bind_eq_error, assert_eq_error] at failed
        rcases failed with ⟨-, rfl⟩ | ⟨_, -, failed⟩
        · decide
        · exact absurd failed pure_ne_error
      · exact absurd failed pure_ne_error
    · have halted := trap_eq_error failed
      rw [procSyscall_issued] at halted
      split at filled
      · rename_i positive
        simp only [bind_eq_ok, assert_eq_ok, pure_eq_ok] at filled
        obtain ⟨_, below, rfl⟩ := filled
        exact procRecv_eq_error formed ⟨Int.le_of_lt positive, below⟩ halted
      · rw [pure_eq_ok] at filled
        subst filled
        exact procRecv_eq_error formed ⟨Int.le_refl 0, Int.ofNat_lt.mpr (by decide)⟩ halted
  | yield =>
    have halted := trap_eq_error failed
    rw [procSyscall_issued] at halted
    have halted : procYield (kernel.issued .user (kernel.page kernel.procCurrIdx).msg) =
      .error message := halted
    have placed : (kernel.issued .user (kernel.page kernel.procCurrIdx).msg).Placed :=
      formed.pids.congr rfl
    exact procYield_faults placed halted
  | timer ttyIntr =>
    simp only [step, intrEntry, true_and, bind_eq_error] at failed
    rcases failed with failed | ⟨_, -, failed⟩
    · split at failed
      · exact absurd failed pure_ne_error
      · split at failed
        · exact absurd failed pure_ne_error
        · simp only [bind_eq_error] at failed
          rcases failed with failed | ⟨_, -, failed⟩
          · exact procYield_faults formed.pids failed
          · exact absurd failed pure_ne_error
    · split at failed
      · exact absurd failed pure_ne_error
      · exact absurd failed pure_ne_error
  | alloc => exact calls.elim
  | setReady pid => exact calls.elim
  | free pid => exact calls.elim

end Egos.Grass
