import Egos.Earth.Accounts
import Egos.Earth.Traps
import Egos.Grass.Rendezvous

/-! The process table and the pages agree in every run of the machine. -/

namespace Egos.Earth

open Egos.Grass

namespace Machine

/-- The number of pages that a slot has mapped, as its status tells. -/
def mapped (machine : Machine) (idx : Slot) : Nat :=
  match (machine.kernel.procSet idx).status with
  | .unused => 0
  | .loading => machine.job.mapped
  | _ => appsNpages

/-- The mappings that are in use, as the statuses tell. -/
def maps (machine : Machine) (row : Nat) (i : Fin appsNpages) : Prop :=
  ∃ idx : Slot, row = idx.val + 1 ∧ i.val < machine.mapped idx

/-- The process table, the loader and the pages agree with each other, and no pid is above `top`. -/
structure Sound (machine : Machine) (top : Nat) : Prop where
  formed : WellFormed machine.kernel
  alone : machine.kernel.Alone
  vm : machine.memory.currVmPid = machine.kernel.currPid
  accounted : Accounted machine.memory machine.maps machine.job.hand
  -- The loader works on a slot of its own, and no other slot is being loaded.
  loads : ∀ pid mapped hand, machine.job = .loading pid mapped hand →
    ∃ idx, pid = idx2pid idx ∧ (machine.kernel.procSet idx).status = .loading ∧
      mapped ≤ appsNpages ∧ (hand ≠ none → mapped < appsNpages)
  loader : ∀ idx, (machine.kernel.procSet idx).status = .loading →
    ∃ mapped hand, machine.job = .loading (idx2pid idx) mapped hand
  -- The process server does not give up the processor with a page in its hand.
  busy : machine.job.hand ≠ none → machine.serves
  last : ∀ idx, machine.kernel.live idx → idx2pid idx ≤ top
  rows : ∀ row ∈ machine.memory.rows, row ≤ top
  stackRows : ∀ row ∈ machine.stackRows, row ≤ top

section Steps

variable {machine after : Machine} {events : List Event} {idx : Slot} {top : Nat}

/-- The row of a slot's pid comes right after the slot. -/
theorem toNat_idx2pid (idx : Slot) : (idx2pid idx).toNat = idx.val + 1 := by
  simp only [idx2pid]
  omega

/-- The row of a slot in use is not above the highest pid. -/
theorem Sound.row_le (sound : machine.Sound top) (live : machine.kernel.live idx) :
    (idx2pid idx).toNat ≤ top := by
  have below := sound.last idx live
  omega

/-- The pid of a slot passes the range checks. -/
theorem idx2pid_known (idx : Slot) : idx2pid idx > 0 ∧ idx2pid idx ≤ (maxNprocess : Int) := by
  have bounds := idx2pid_bounds idx
  simp only [maxNprocess]
  omega

/-- The mappings in use depend on the statuses and the loader only. -/
theorem maps_congr (same : ∀ idx, after.mapped idx = machine.mapped idx) (row : Nat)
    (i : Fin appsNpages) : after.maps row i ↔ machine.maps row i := by
  simp only [maps, same]

/-- The mappings of a slot's row are those of its first pages. -/
theorem maps_idx2pid (i : Fin appsNpages) :
    machine.maps (idx2pid idx).toNat i ↔ i.val < machine.mapped idx := by
  rw [toNat_idx2pid]
  constructor
  · rintro ⟨other, same, below⟩
    have equal : idx = other := Fin.ext (Nat.succ.inj same)
    rwa [← equal] at below
  · intro below
    exact ⟨idx, rfl, below⟩

/-- Slots with the same settled statuses have the same number of pages. -/
theorem mapped_congr (job : after.job.mapped = machine.job.mapped)
    (unused : (after.kernel.procSet idx).status = .unused ↔
      (machine.kernel.procSet idx).status = .unused)
    (loading : (after.kernel.procSet idx).status = .loading ↔
      (machine.kernel.procSet idx).status = .loading) : after.mapped idx = machine.mapped idx := by
  unfold mapped
  cases first : (after.kernel.procSet idx).status <;>
    cases second : (machine.kernel.procSet idx).status <;> simp_all

/-- What the loader does concerns the slot that is being loaded only. -/
theorem mapped_of_not_loading
    (same : (after.kernel.procSet idx).status = (machine.kernel.procSet idx).status)
    (other : (machine.kernel.procSet idx).status ≠ .loading) :
    after.mapped idx = machine.mapped idx := by
  unfold mapped
  rw [same]
  cases status : (machine.kernel.procSet idx).status <;> first | rfl | exact absurd status other

/-- A function of the memory that never halts the machine returns something. -/
theorem onMemory_eq {α : Type} {program : MemM α} {memory : Memory}
    {returns : α → Memory → Prop} (ends : Ends program returns (fun _ _ => False) memory) :
    ∃ value final, onMemory program memory = .ok (value, final) ∧ returns value final := by
  obtain ⟨value, final, run, held⟩ := ends.returned
  exact ⟨value, final, by simp only [onMemory, run]; rfl, held⟩

/-- Switching from process to process keeps the accounts and looks at their rows only. -/
theorem Sound.switches (sound : machine.Sound top) {pids : List Int}
    (live : ∀ pid ∈ pids, ∃ idx, pid = idx2pid idx ∧ machine.kernel.live idx) :
    Ends (pids.forM softTlbSwitch) (fun _ final =>
      Accounted final machine.maps machine.job.hand ∧
      final.currVmPid = pids.getLast?.getD machine.kernel.currPid ∧
      ∀ row ∈ final.rows, row ≤ top) (fun _ _ => False) machine.memory := by
  have current : ∃ idx, machine.kernel.currPid = idx2pid idx ∧ machine.kernel.live idx :=
    ⟨machine.kernel.procCurrIdx, sound.formed.curr, sound.formed.live_curr⟩
  refine Ends.forM (fun done final => Accounted final machine.maps machine.job.hand ∧
    final.currVmPid = done.getLast?.getD machine.kernel.currPid ∧
    ∀ row ∈ final.rows, row ≤ top) ⟨sound.accounted, sound.vm, sound.rows⟩ ?_
  rintro done pid rest middle split ⟨accounted, vm, rows⟩
  obtain ⟨idx, rfl, used⟩ := live pid (by rw [split]; simp)
  -- The process that ran so far is the last one that was switched to.
  have before : ∃ other, middle.currVmPid = idx2pid other ∧ machine.kernel.live other := by
    rw [vm]
    cases last : done.getLast? with
    | none => exact current
    | some pid => exact live pid (by rw [split]; simp [List.mem_of_getLast? last])
  obtain ⟨other, ran, usedOther⟩ := before
  have bound : middle.currVmPid ≤ (maxNprocess : Int) := by
    rw [ran]
    exact (idx2pid_known other).2
  refine (accounted.softTlbSwitch (idx2pid_known idx) bound).imp (fun _ final loaded => ?_)
    (fun _ _ => id)
  refine ⟨accounted.congr loaded.bitmap loaded.table fun _ _ => Iff.rfl, ?_, ?_⟩
  · simpa using loaded.vm
  · intro row member
    rcases loaded.rows row member with old | rfl | ⟨rfl, -⟩
    · exact rows row old
    · exact sound.row_le used
    · rw [ran]
      exact sound.row_le usedOther

/-- A function of the memory that returns keeps its promise. -/
theorem onMemory_ok {α : Type} {program : MemM α} {memory final : Memory} {value : α}
    {returns : α → Memory → Prop} (ends : Ends program returns (fun _ _ => False) memory)
    (ran : onMemory program memory = .ok (value, final)) : returns value final := by
  obtain ⟨other, last, run, held⟩ := onMemory_eq ends
  rw [run] at ran
  cases ran
  exact held

/-- Where the loader makes system calls it has no page in its hand. -/
theorem Job.hand_of_calls {job : Job} (calls : job.calls) : job.hand = none := by
  cases job with
  | idle => rfl
  | loading pid mapped hand =>
    simp only [Job.calls, decide_eq_true_eq] at calls
    exact calls.1

/-- Only system calls and timer interrupts trap. -/
theorem Permitted.traps {label : Label} (permitted : machine.Permitted (.trap label)) :
    label.traps := by
  cases label with
  | send _ _ | recv _ | yield | timer _ => rfl
  | alloc | setReady _ | free _ => exact permitted.elim

/-- Traps free no process. -/
theorem Permitted.spares {label : Label} (permitted : machine.Permitted (.trap label)) :
    Spares machine.kernel label := by
  cases label with
  | free _ => exact permitted.elim
  | _ => trivial

/-- Only a timer interrupt catches the process server with a page in its hand. -/
theorem Sound.hand_of_trap (sound : machine.Sound top) {label : Label}
    (permitted : machine.Permitted (.trap label)) :
    machine.job.hand = none ∨ machine.serves ∧ ∃ ttyIntr, label = .timer ttyIntr := by
  by_cases empty : machine.job.hand = none
  · exact Or.inl empty
  · have serves := sound.busy empty
    cases label with
    | send _ _ => exact Or.inl (Job.hand_of_calls (permitted.2 serves))
    | recv _ | yield => exact Or.inl (Job.hand_of_calls (permitted serves))
    | timer ttyIntr => exact Or.inr ⟨serves, ttyIntr, rfl⟩
    | alloc | setReady _ | free _ => exact permitted.elim

/-- Traps keep the machine sound. -/
theorem Sound.trap (sound : machine.Sound top) {label : Label}
    (permitted : machine.Permitted (.trap label))
    (stepped : machine.step (.trap label) = .ok (after, events)) : after.Sound top := by
  have traps := permitted.traps
  simp only [Machine.step, bind_eq_ok, pure_eq_ok] at stepped
  obtain ⟨⟨kernel, shown⟩, taken, ⟨_, memory⟩, switched, ended⟩ := stepped
  obtain ⟨rfl, rfl⟩ := Prod.mk.inj ended
  have outcome := step_outcome sound.formed taken
  have arrived := outcome.wellFormed sound.formed permitted.spares
  have unused := outcome.settled_iff sound.formed traps (show Status.unused.settled from rfl)
  have loading := outcome.settled_iff sound.formed traps (show Status.loading.settled from rfl)
  have used : ∀ idx, kernel.live idx → machine.kernel.live idx := fun idx live free =>
    live ((unused idx).mpr free)
  obtain ⟨accounted, vm, rows⟩ :=
    onMemory_ok (sound.switches (switches_live sound.formed arrived unused)) switched
  refine ⟨arrived, outcome.alone traps sound.alone, ?_, ?_, ?_, ?_, ?_, ?_, rows, ?_⟩
  · rw [vm]
    exact switches_last outcome
  · exact accounted.congr rfl rfl
      (maps_congr fun idx => mapped_congr rfl (unused idx) (loading idx))
  · intro pid mapped hand job
    obtain ⟨idx, named, status, rest⟩ := sound.loads pid mapped hand job
    exact ⟨idx, named, (loading idx).mpr status, rest⟩
  · intro idx status
    exact sound.loader idx ((loading idx).mp status)
  · intro holds
    -- The timer interrupt of the process server changes nothing.
    rcases sound.hand_of_trap permitted with empty | ⟨serves, ttyIntr, rfl⟩
    · exact absurd empty holds
    · have low : machine.kernel.currPid < gpidShell := by
        rw [show machine.kernel.currPid = gpidProcess from serves]
        decide
      cases outcome with
      | timerIgnored _ => exact serves
      | timerKilled _ => exact serves
      | timerYielded high _ _ => exact absurd low (Int.not_lt.mpr high)
  · intro idx live
    exact sound.last idx (used idx live)
  · intro row member
    simp only [List.mem_append, List.mem_cons] at member
    rcases member with restored | rfl | earlier
    · -- Only the stack of a process that goes on is restored.
      split at restored
      · cases restored
      · rw [List.mem_singleton.mp restored, arrived.curr]
        exact sound.row_le (used _ arrived.live_curr)
    · rw [sound.formed.curr]
      exact sound.row_le sound.formed.live_curr
    · exact sound.stackRows row earlier

/-- Changing the content of a page keeps the machine sound. -/
theorem Sound.store (sound : machine.Sound top) (addr : Nat) (page : Page) :
    ∃ after, machine.step (.store addr page) = .ok (after, []) ∧ after.Sound top := by
  refine ⟨_, rfl, ?_⟩
  obtain ⟨formed, alone, vm, accounted, loads, loader, busy, last, rows, stackRows⟩ := sound
  exact ⟨formed, alone, vm, accounted.congr rfl rfl fun _ _ => Iff.rfl, loads, loader, busy, last,
    rows, stackRows⟩

/-- While the loader is idle no slot is being loaded. -/
theorem Sound.not_loading (sound : machine.Sound top) (idle : machine.job = .idle) (idx : Slot) :
    (machine.kernel.procSet idx).status ≠ .loading := by
  intro loading
  obtain ⟨mapped, hand, job⟩ := sound.loader idx loading
  rw [idle] at job
  cases job

/-- Only the slot that the loader works on is being loaded. -/
theorem Sound.only_loading (sound : machine.Sound top) {count : Nat} {hand : Option Nat}
    (job : machine.job = .loading (idx2pid idx) count hand) {other : Slot}
    (different : other ≠ idx) : (machine.kernel.procSet other).status ≠ .loading := by
  intro loading
  obtain ⟨_, _, same⟩ := sound.loader other loading
  rw [job] at same
  injection same with same
  exact different (idx2pid_inj.mp same).symm

/-- The slot that is allocated is the first one that is not in use. -/
theorem procAlloc_eq {kernel : Kernel} {free : Slot}
    (unused : (kernel.procSet free).status = .unused) :
    ∃ idx ≤ free, (kernel.procSet idx).status = .unused ∧
      procAlloc kernel = .ok (idx2pid idx, kernel.allocated idx) := by
  unfold procAlloc
  cases found : (List.finRange maxNprocess).find? fun i => (kernel.procSet i).status = .unused with
  | none =>
    have missed := List.find?_eq_none.mp found free (List.mem_finRange free)
    simp [unused] at missed
  | some idx =>
    obtain ⟨hit, place, inside, here, earlier⟩ := List.find?_eq_some_iff_getElem.mp found
    refine ⟨idx, ?_, by simpa using hit, rfl⟩
    -- Every slot before the one that is found is in use.
    by_contra above
    have before : free.val < place := by
      rw [List.getElem_finRange] at here
      have same : idx.val = place := by rw [← here]; rfl
      rw [← same]
      exact not_le.mp above
    have skipped := earlier free.val before
    simp [unused] at skipped

/-- Allocating a slot keeps the machine sound. -/
theorem Sound.procAlloc (sound : machine.Sound top) (idle : machine.job = .idle) {free : Slot}
    (below : idx2pid free ≤ top)
    (unused : (machine.kernel.procSet free).status = .unused) :
    ∃ after, machine.step .procAlloc = .ok (after, []) ∧ after.Sound top := by
  -- The slot had no pages, and has none while it is being loaded.
  obtain ⟨idx, first, fresh, allocated⟩ := procAlloc_eq unused
  refine ⟨{ machine with
    kernel := machine.kernel.allocated idx, job := .loading (idx2pid idx) 0 none }, ?_, ?_⟩
  · simp only [Machine.step, allocated]
    rfl
  have table : ∀ other, (machine.kernel.allocated idx).procSet other =
      if other = idx then { machine.kernel.procSet idx with pid := idx2pid idx, status := .loading }
      else machine.kernel.procSet other := by
    intro other
    by_cases same : other = idx
    · subst same
      simp [Kernel.allocated]
    · simp [Kernel.allocated, same]
  have quiet := sound.not_loading idle
  have outcome : Outcome machine.kernel .alloc (machine.kernel.allocated idx) [] :=
    .allocated fresh
  refine ⟨outcome.wellFormed sound.formed trivial, ?_, ?_, ?_, ?_, ?_,
    fun holds => absurd rfl holds, ?_, sound.rows, sound.stackRows⟩
  · intro other
    rw [table]
    split
    · rename_i same
      subst same
      exact iff_of_false (by simp) (sound.formed.curr_ne fresh)
    · exact sound.alone other
  · have same : (machine.kernel.allocated idx).curr = machine.kernel.curr := by
      exact (table machine.kernel.procCurrIdx).trans (if_neg (sound.formed.curr_ne fresh).symm)
    exact sound.vm.trans (congrArg Process.pid same).symm
  · have hand : machine.job.hand = none := by rw [idle]; rfl
    have before := sound.accounted
    rw [hand] at before
    refine before.congr rfl rfl (maps_congr fun other => ?_)
    by_cases same : other = idx
    · subst same
      simp [mapped, table, fresh, Job.mapped]
    · refine mapped_of_not_loading ?_ (quiet other)
      simp [table, same]
  · rintro pid mapped hand ⟨rfl, rfl, rfl⟩
    exact ⟨idx, rfl, by simp [table], Nat.zero_le _, by simp⟩
  · intro other loading
    by_cases same : other = idx
    · subst same
      exact ⟨0, none, rfl⟩
    · simp only [table, if_neg same] at loading
      exact absurd loading (quiet other)
  · intro other live
    by_cases same : other = idx
    · subst same
      simp only [idx2pid] at below ⊢
      have lower : other.val ≤ free.val := first
      omega
    · simp only [Kernel.live, table, if_neg same] at live
      exact sound.last other live

/-- Allocating a page keeps the machine sound. -/
theorem Sound.mmuAlloc (sound : machine.Sound top) (serves : machine.serves)
    (wants : machine.job.wantsPage) :
    ∃ after, machine.step .mmuAlloc = .ok (after, []) ∧ after.Sound top := by
  -- The page goes into the loader's hand, and no mapping changes.
  cases job : machine.job with
  | idle =>
    rw [job] at wants
    cases wants
  | loading pid count hand =>
    cases hand with
    | some addr =>
      rw [job] at wants
      cases wants
    | none =>
      rw [job] at wants
      simp only [Job.wantsPage, decide_eq_true_eq] at wants
      have before := sound.accounted
      rw [job, Job.hand] at before
      obtain ⟨addr, memory, ran, accounted, -, vm, rows, -⟩ := onMemory_eq (before.pmalloc true)
      refine ⟨{ machine with memory, job := .loading pid count (some addr) }, ?_, ?_⟩
      · simp only [Machine.step, job, Earth.mmuAlloc, ran]
        rfl
      refine ⟨sound.formed, sound.alone, vm.trans sound.vm, ?_, ?_, ?_, fun _ => serves,
        sound.last, ?_, sound.stackRows⟩
      · refine accounted.congr rfl rfl (maps_congr fun idx => ?_)
        exact mapped_congr (by rw [job]; rfl) Iff.rfl Iff.rfl
      · rintro _ _ _ ⟨rfl, rfl, rfl⟩
        obtain ⟨idx, named, status, -, -⟩ := sound.loads pid count none job
        exact ⟨idx, named, status, Nat.le_of_lt wants, fun _ => wants⟩
      · intro idx status
        obtain ⟨_, _, same⟩ := sound.loader idx status
        rw [job] at same
        cases same
        exact ⟨count, some addr, rfl⟩
      · rw [rows]
        exact sound.rows

/-- Mapping the page that has been allocated keeps the machine sound. -/
theorem Sound.mmuMap (sound : machine.Sound top) (holds : machine.job.holdsPage) :
    ∃ after, machine.step .mmuMap = .ok (after, []) ∧ after.Sound top := by
  cases job : machine.job with
  | idle =>
    rw [job] at holds
    cases holds
  | loading pid count hand =>
    cases hand with
    | none =>
      rw [job] at holds
      cases holds
    | some addr =>
      obtain ⟨idx, rfl, status, -, room⟩ := sound.loads pid count (some addr) job
      have room := room (by simp)
      have before := sound.accounted
      rw [job, Job.hand] at before
      -- The slot that is being loaded has mapped its first pages in order.
      have number : machine.mapped idx = count := by simp [mapped, status, job, Job.mapped]
      have loaded : ∀ i : Fin appsNpages,
          machine.maps (idx2pid idx).toNat i ↔ i.val < count := by
        intro i
        rw [maps_idx2pid, number]
      obtain ⟨_, memory, ran, accounted, -, vm, rows, -⟩ :=
        onMemory_eq (before.softTlbMap (idx2pid_known idx) (i := ⟨count, room⟩)
          (fun j lower => (loaded j).mpr lower) (fun full => Nat.lt_irrefl _ ((loaded _).mp full)))
      refine ⟨{ machine with memory, job := .loading (idx2pid idx) (count + 1) none }, ?_, ?_⟩
      · simp only [Machine.step, job, ran]
        rfl
      have live : machine.kernel.live idx := by
        rw [Kernel.live, status]
        decide
      refine ⟨sound.formed, sound.alone, vm.trans sound.vm, ?_, ?_, ?_,
        fun holds => absurd rfl holds, sound.last, ?_, sound.stackRows⟩
      · refine accounted.congr rfl rfl fun row i => ?_
        have others : ∀ other, other ≠ idx → ({ machine with
            memory, job := .loading (idx2pid idx) (count + 1) none } : Machine).mapped other =
            machine.mapped other := by
          intro other different
          exact mapped_of_not_loading rfl (sound.only_loading job different)
        have here : ({ machine with
            memory, job := .loading (idx2pid idx) (count + 1) none } : Machine).mapped idx =
            count + 1 := by simp [mapped, status, Job.mapped]
        constructor
        · rintro ⟨other, rfl, below⟩
          by_cases same : other = idx
          · subst same
            rw [here] at below
            rcases Nat.lt_succ_iff_lt_or_eq.mp below with lower | last
            · exact Or.inl ⟨other, rfl, by rw [number]; exact lower⟩
            · exact Or.inr ⟨(toNat_idx2pid other).symm, Fin.ext last⟩
          · rw [others other same] at below
            exact Or.inl ⟨other, rfl, below⟩
        · rintro (⟨other, rfl, below⟩ | ⟨rfl, rfl⟩)
          · refine ⟨other, rfl, ?_⟩
            by_cases same : other = idx
            · subst same
              rw [number] at below
              rw [here]
              exact Nat.lt_succ_of_lt below
            · rw [others other same]
              exact below
          · exact ⟨idx, toNat_idx2pid idx, by rw [here]; exact Nat.lt_succ_self count⟩
      · rintro _ _ _ ⟨rfl, rfl, rfl⟩
        exact ⟨idx, rfl, status, room, by simp⟩
      · intro other loading
        by_cases same : other = idx
        · subst same
          exact ⟨count + 1, none, rfl⟩
        · exact absurd loading (sound.only_loading job same)
      · intro row member
        rw [rows, List.mem_cons] at member
        rcases member with rfl | earlier
        · exact sound.row_le live
        · exact sound.rows row earlier

/-- Starting a process that has been loaded keeps the machine sound. -/
theorem Sound.procSetReady (sound : machine.Sound top) (finished : machine.job.finished) :
    ∃ after, machine.step .procSetReady = .ok (after, []) ∧ after.Sound top := by
  -- All six pages are mapped, as a slot past loading has to have them.
  cases job : machine.job with
  | idle =>
    rw [job] at finished
    cases finished
  | loading pid count hand =>
    cases hand with
    | some addr =>
      rw [job] at finished
      cases finished
    | none =>
      rw [job] at finished
      simp only [Job.finished, decide_eq_true_eq] at finished
      obtain ⟨idx, rfl, status, -, -⟩ := sound.loads pid count none job
      have carried := sound.formed.pids idx (by rw [status]; decide)
      have ready : Grass.procSetReady machine.kernel (idx2pid idx) =
          .ok (machine.kernel.setStatus idx .ready) :=
        procSetStatus_eq_ok.mpr ⟨idx, rfl, carried, rfl⟩
      refine ⟨{ machine with kernel := machine.kernel.setStatus idx .ready, job := .idle }, ?_, ?_⟩
      · simp only [Machine.step, job, ready]
        rfl
      have other : idx ≠ machine.kernel.procCurrIdx := by
        intro same
        have runs := (sound.alone idx).mpr same
        rw [status] at runs
        cases runs
      have table : ∀ slot, ((machine.kernel.setStatus idx .ready).procSet slot).status =
          if slot = idx then .ready else (machine.kernel.procSet slot).status := by
        intro slot
        by_cases same : slot = idx
        · subst same
          simp [Kernel.setStatus]
        · simp [Kernel.setStatus, same]
      refine ⟨sound.formed.setProc carried other, ?_, ?_, ?_, ?_, ?_,
        fun holds => absurd rfl holds, ?_, sound.rows, sound.stackRows⟩
      · intro slot
        rw [table]
        split
        · rename_i same
          subst same
          exact iff_of_false (by decide) other
        · exact sound.alone slot
      · have same : (machine.kernel.setStatus idx .ready).curr = machine.kernel.curr :=
          Function.update_of_ne (Ne.symm other) _ _
        exact sound.vm.trans (congrArg Process.pid same).symm
      · have before := sound.accounted
        rw [job] at before
        refine before.congr rfl rfl (maps_congr fun slot => ?_)
        by_cases same : slot = idx
        · subst same
          simp [mapped, table, status, job, Job.mapped, finished]
        · refine mapped_of_not_loading ?_ (sound.only_loading job same)
          simp [table, same]
      · intro pid count hand impossible
        cases impossible
      · intro slot loading
        simp only [table] at loading
        split at loading
        · cases loading
        · rename_i different
          exact absurd loading (sound.only_loading job different)
      · intro slot live
        simp only [Kernel.live, table] at live
        split at live
        · rename_i same
          subst same
          exact sound.last slot (by rw [Kernel.live, status]; decide)
        · exact sound.last slot live

/-- Freeing some slots other than the current one keeps the machine sound. -/
theorem Sound.frees (sound : machine.Sound top) (idle : machine.job = .idle) {frees : Slot → Prop}
    {pids : List Int} {kernel : Kernel}
    (named : ∀ pid, pid ∈ pids ↔ ∃ idx, frees idx ∧ pid = idx2pid idx)
    (live : ∀ idx, frees idx → machine.kernel.live idx ∧ idx ≠ machine.kernel.procCurrIdx)
    (formed : WellFormed kernel) (curr : kernel.procCurrIdx = machine.kernel.procCurrIdx)
    (freed : ∀ idx, frees idx → (kernel.procSet idx).status = .unused)
    (kept : ∀ idx, ¬ frees idx → kernel.procSet idx = machine.kernel.procSet idx) :
    ∃ memory, onMemory (pids.forM softTlbFree) machine.memory = .ok ((), memory) ∧
      ({ machine with kernel, memory } : Machine).Sound top := by
  have quiet := sound.not_loading idle
  have before := sound.accounted
  rw [idle, Job.hand] at before
  -- The rows that the loop has come past are empty.
  have looped : Ends (pids.forM softTlbFree) (fun _ final =>
      Accounted final (fun row i => machine.maps row i ∧ row ∉ pids.map Int.toNat) none ∧
      final.currVmPid = machine.memory.currVmPid ∧ ∀ row ∈ final.rows, row ≤ top)
      (fun _ _ => False) machine.memory := by
    refine Ends.forM (fun done final =>
      Accounted final (fun row i => machine.maps row i ∧ row ∉ done.map Int.toNat) none ∧
      final.currVmPid = machine.memory.currVmPid ∧ ∀ row ∈ final.rows, row ≤ top)
      ⟨before.congr rfl rfl (by simp), rfl, sound.rows⟩ ?_
    rintro done pid rest middle split ⟨accounted, vm, rows⟩
    obtain ⟨idx, target, rfl⟩ := (named pid).mp (by rw [split]; simp)
    refine (accounted.softTlbFree (idx2pid_known idx)).imp (fun _ final emptied => ?_)
      (fun _ _ => id)
    obtain ⟨next, -, sameVm, sameRows, -⟩ := emptied
    refine ⟨next.congr rfl rfl fun row i => ?_, sameVm.trans vm, ?_⟩
    · simp only [List.map_append, List.map_cons, List.map_nil, List.mem_append,
        List.mem_singleton]
      tauto
    · intro row member
      rw [sameRows, List.mem_cons] at member
      rcases member with rfl | earlier
      · exact sound.row_le (live idx target).1
      · exact rows row earlier
  obtain ⟨_, memory, ran, accounted, vm, rows⟩ := onMemory_eq looped
  refine ⟨memory, ran, formed, ?_, ?_, ?_, ?_, ?_, ?_, ?_, rows, sound.stackRows⟩
  · intro idx
    rw [curr]
    by_cases target : frees idx
    · exact iff_of_false (by rw [freed idx target]; decide) (live idx target).2
    · rw [kept idx target]
      exact sound.alone idx
  · have same : kernel.curr = machine.kernel.curr := by
      rw [Kernel.curr, curr]
      exact kept _ fun target => (live _ target).2 rfl
    exact (vm.trans sound.vm).trans (congrArg Process.pid same).symm
  · simp only [idle, Job.hand]
    refine accounted.congr rfl rfl fun row i => ?_
    have gone : ∀ idx : Slot, idx.val + 1 ∈ pids.map Int.toNat ↔ frees idx := by
      intro idx
      simp only [List.mem_map, named]
      constructor
      · rintro ⟨pid, ⟨other, target, rfl⟩, same⟩
        rw [toNat_idx2pid] at same
        have equal : other = idx := Fin.ext (Nat.succ.inj same)
        rwa [equal] at target
      · intro target
        exact ⟨idx2pid idx, ⟨idx, target, rfl⟩, toNat_idx2pid idx⟩
    constructor
    · rintro ⟨idx, rfl, below⟩
      have stays : ¬ frees idx := by
        intro target
        simp [mapped, freed idx target] at below
      rw [mapped_of_not_loading (congrArg Process.status (kept idx stays)) (quiet idx)] at below
      exact ⟨⟨idx, rfl, below⟩, fun member => stays ((gone idx).mp member)⟩
    · rintro ⟨⟨idx, rfl, below⟩, stays⟩
      have spared : ¬ frees idx := fun target => stays ((gone idx).mpr target)
      refine ⟨idx, rfl, ?_⟩
      rw [mapped_of_not_loading (congrArg Process.status (kept idx spared)) (quiet idx)]
      exact below
  · intro pid count hand job
    rw [idle] at job
    cases job
  · intro idx loading
    by_cases target : frees idx
    · rw [freed idx target] at loading
      cases loading
    · rw [kept idx target] at loading
      exact absurd loading (quiet idx)
  · intro holds
    exact absurd (by rw [idle]; rfl) holds
  · intro idx used
    by_cases target : frees idx
    · exact absurd (freed idx target) used
    · rw [Kernel.live, kept idx target] at used
      exact sound.last idx used

/-- Freeing one process or all user applications keeps the machine sound. -/
theorem Sound.procFree (sound : machine.Sound top) {pid : Int}
    (permitted : machine.Permitted (.procFree pid)) :
    ∃ after, machine.step (.procFree pid) = .ok (after, []) ∧ after.Sound top := by
  -- Both kinds of release free a set of slots without the current one.
  obtain ⟨serves, idle, other, target⟩ := permitted
  have server : machine.kernel.currPid = gpidProcess := serves
  rcases target with rfl | ⟨idx, rfl, live⟩
  · have spares : Spares machine.kernel (.free (-1)) := by
      refine ⟨by rw [server]; exact other, fun _ => ?_⟩
      rw [server]
      decide
    have outcome : Outcome machine.kernel (.free (-1)) machine.kernel.killedAll [] := .freedAll
    obtain ⟨memory, ran, next⟩ := @Sound.frees machine top sound idle
      (fun idx => (machine.kernel.procSet idx).pid ≥ gpidUserStart ∧ machine.kernel.live idx)
      (freedPids machine.kernel (-1)) machine.kernel.killedAll
      (by
        intro pid
        simp only [freedPids, ne_eq, not_true_eq_false, if_false, List.mem_map, List.mem_filter,
          List.mem_finRange, true_and, decide_eq_true_eq]
        constructor
        · rintro ⟨idx, high, rfl⟩
          exact ⟨idx, high, sound.formed.pids idx high.2⟩
        · rintro ⟨idx, high, rfl⟩
          exact ⟨idx, high, sound.formed.pids idx high.2⟩)
      (by
        rintro idx ⟨high, live⟩
        refine ⟨live, ?_⟩
        rintro rfl
        have low : machine.kernel.currPid ≥ gpidUserStart := high
        rw [server] at low
        exact absurd low (by decide))
      (outcome.wellFormed sound.formed spares) rfl
      (by
        intro idx target
        simp only [Kernel.killedAll]
        rw [if_pos target])
      (by
        intro idx spared
        simp only [Kernel.killedAll]
        rw [if_neg spared])
    refine ⟨_, ?_, next⟩
    simp only [Machine.step, ran]
    rfl
  · have spares : Spares machine.kernel (.free (idx2pid idx)) := by
      have bounds := idx2pid_bounds idx
      exact ⟨by rw [server]; exact other, fun all => by omega⟩
    have carried := sound.formed.pids idx live
    have outcome : Outcome machine.kernel (.free (idx2pid idx))
        (machine.kernel.setStatus idx .unused) [] := .freed carried
    have single : idx2pid idx ≠ -1 := by
      have bounds := idx2pid_bounds idx
      omega
    obtain ⟨memory, ran, next⟩ := @Sound.frees machine top sound idle (fun slot => slot = idx)
      (freedPids machine.kernel (idx2pid idx)) (machine.kernel.setStatus idx .unused)
      (by
        intro pid
        simp [freedPids, single])
      (by
        rintro slot rfl
        refine ⟨live, ?_⟩
        rintro rfl
        exact other (sound.formed.curr.symm.trans server))
      (outcome.wellFormed sound.formed spares) rfl
      (by
        rintro slot rfl
        simp [Kernel.setStatus])
      (by
        intro slot different
        simp [Kernel.setStatus, different])
    have freed : Grass.procFree machine.kernel (idx2pid idx) =
        .ok (machine.kernel.setStatus idx .unused) := by
      unfold Grass.procFree
      rw [if_pos single]
      exact procSetStatus_eq_ok.mpr ⟨idx, rfl, carried, rfl⟩
    refine ⟨_, ?_, next⟩
    simp only [Machine.step, ran, freed]
    rfl

end Steps

end Machine

end Egos.Earth
