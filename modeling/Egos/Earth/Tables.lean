import Egos.Earth.Sound

/-! Per-process tables and page accounting over whole runs of the machine. -/

namespace Egos.Earth

open Egos.Grass

namespace Machine

/-- The machine when the kernel enters the process server, which spawns everything else. -/
def initial (ram : Nat → Page) : Machine where
  kernel := .initial
  memory := bootMemory ram
  job := .idle
  stackRows := []

/-- The steps of the machine, restricted to those that a condition permits. -/
def Steps (permits : Machine → Call → Prop) (machine : Machine) (call : Call) (after : Machine)
    (events : List Event) : Prop :=
  permits machine call ∧ machine.step call = .ok (after, events)

/-- The states that the machine reaches from its start through permitted steps. -/
abbrev Reaches (permits : Machine → Call → Prop) (ram : Nat → Page) :
    Machine → List Event → Prop :=
  Run (Steps permits) (.initial ram)

/-- A process is spawned only while a slot other than the last one is free. -/
def Roomy (machine : Machine) : Call → Prop
  | .procAlloc => ∃ idx : Slot, idx2pid idx < (maxNprocess : Int) ∧
    (machine.kernel.procSet idx).status = .unused
  | _ => True

/-- The number of live processes. -/
def liveCount (machine : Machine) : Nat :=
  (List.finRange maxNprocess).countP fun idx => (machine.kernel.procSet idx).status ≠ .unused

/-- A process is spawned only while it leaves at most fifteen live processes. -/
def Fewer (machine : Machine) : Call → Prop
  | .procAlloc => machine.liveCount < 15
  | _ => True

/-- A free slot other than the last one has a pid of at most fifteen. -/
theorem Roomy.below {machine : Machine} {call : Call} (roomy : machine.Roomy call)
    (spawns : call = .procAlloc) :
    ∃ idx, idx2pid idx ≤ ((15 : Nat) : Int) ∧ (machine.kernel.procSet idx).status = .unused := by
  subst spawns
  obtain ⟨idx, below, unused⟩ := roomy
  exact ⟨idx, Int.lt_add_one_iff.mp below, unused⟩

/-- With fewer than fifteen live processes one of the first fifteen slots is free. -/
theorem Fewer.roomy {machine : Machine} {call : Call} (fewer : machine.Fewer call) :
    machine.Roomy call := by
  cases call with
  | procAlloc =>
    by_contra full
    simp only [Roomy, not_exists, not_and] at full
    have all : (List.finRange maxNprocess).countP (fun idx => idx2pid idx < (maxNprocess : Int)) ≤
        machine.liveCount :=
      List.countP_mono_left fun idx _ below => by simpa using full idx (by simpa using below)
    have fifteen : (List.finRange maxNprocess).countP
        (fun idx => idx2pid idx < (maxNprocess : Int)) = 15 := by decide
    rw [fifteen] at all
    exact absurd fewer (Nat.not_lt.mpr all)
  | _ => trivial

/-- At first exactly the pages of the process server are marked. -/
theorem bitmapTest_boot (ram : Nat → Page) (page : Nat) :
    bitmapTest (bootMemory ram).bitmap page = decide (page < appsNpages) := by
  simp only [bitmapTest, bootMemory]
  rw [Buffer.testBit_eq, Buffer.byte_setIfInBounds _ _ _ _ (by decide)]
  by_cases first : 0 = page / 8
  · rw [if_pos first]
    have bits : ∀ n < 8, Nat.testBit 63 (n % 8) = decide (n < appsNpages) := by decide
    exact bits page (by omega)
  · rw [if_neg first, Buffer.byte_zero, Nat.zero_testBit]
    have high : ¬ page < appsNpages := by
      simp only [appsNpages, appsSize, pageSize]
      omega
    simp [high]

/-- At first the process server owns the first pages. -/
theorem initial_sound (ram : Nat → Page) {top : Nat} (positive : 1 ≤ top) :
    (initial ram).Sound top := by
  -- Only the first slot is in use, and its pages are the first six.
  have table : ∀ idx : Slot, idx ≠ 0 → (Kernel.initial.procSet idx).status = .unused := by
    intro idx later
    simp [Kernel.initial, later]
  have pages : ∀ row i, (initial ram).maps row i ↔ row = 1 := by
    intro row i
    constructor
    · rintro ⟨idx, rfl, below⟩
      by_cases first : idx = 0
      · rw [first]
        rfl
      · simp [mapped, initial, table idx first] at below
    · rintro rfl
      exact ⟨0, rfl, i.isLt⟩
  refine ⟨initial_wellFormed, ?_, rfl, ?_, ?_, ?_, fun holds => absurd rfl holds, ?_, by
    simp [initial, bootMemory], by simp [initial]⟩
  · intro idx
    by_cases first : idx = 0
    · subst first
      exact iff_of_true rfl rfl
    · exact iff_of_false (by rw [initial, table idx first]; decide) first
  · refine ⟨?_, ?_, ?_, ?_, by simp [initial, Job.hand], ?_⟩
    · intro row i mapped
      rw [pages] at mapped
      subst mapped
      refine ⟨rfl, i, Nat.lt_trans i.isLt (by decide), rfl, ?_⟩
      rw [initial, bitmapTest_boot]
      exact decide_eq_true i.isLt
    · intro row i unmapped
      rw [pages] at unmapped
      exact if_neg unmapped
    · intro row i other j first second same
      rw [pages] at first second
      subst first second
      refine ⟨rfl, Fin.ext (pageAddr_inj.mp ?_)⟩
      exact same
    · intro page below marked
      rw [initial, bitmapTest_boot, decide_eq_true_eq] at marked
      exact Or.inr ⟨1, ⟨page, marked⟩, (pages 1 _).mpr rfl, rfl⟩
    · intro row i mapped
      rw [pages] at mapped
      rw [mapped]
      decide
  · intro pid mapped hand job
    cases job
  · intro idx loading
    by_cases first : idx = 0
    · subst first
      cases loading
    · rw [initial, table idx first] at loading
      cases loading
  · intro idx live
    by_cases first : idx = 0
    · subst first
      exact Int.ofNat_le.mpr positive
    · exact absurd (table idx first) live

section Steps

variable {machine after : Machine} {call : Call} {events : List Event} {top : Nat}

/-- Everything but a trap succeeds and keeps the machine sound. -/
theorem Sound.succeeds (sound : machine.Sound top) (permitted : machine.Permitted call)
    (roomy : call = .procAlloc → ∃ idx, idx2pid idx ≤ top ∧
      (machine.kernel.procSet idx).status = .unused) :
    (∃ label, call = .trap label) ∨
      ∃ after, machine.step call = .ok (after, []) ∧ after.Sound top := by
  cases call with
  | trap label => exact Or.inl ⟨label, rfl⟩
  | store addr page => exact Or.inr (sound.store addr page)
  | procAlloc =>
    obtain ⟨free, below, unused⟩ := roomy rfl
    exact Or.inr (sound.procAlloc permitted.2 below unused)
  | mmuAlloc => exact Or.inr (sound.mmuAlloc permitted.1 permitted.2)
  | mmuMap => exact Or.inr (sound.mmuMap permitted.2)
  | procSetReady => exact Or.inr (sound.procSetReady permitted.2)
  | procFree pid => exact Or.inr (sound.procFree permitted)

/-- Steps keep the machine sound. -/
theorem Sound.step (sound : machine.Sound top) (permitted : machine.Permitted call)
    (roomy : call = .procAlloc → ∃ idx, idx2pid idx ≤ top ∧
      (machine.kernel.procSet idx).status = .unused)
    (stepped : machine.step call = .ok (after, events)) : after.Sound top := by
  rcases sound.succeeds permitted roomy with ⟨label, rfl⟩ | ⟨next, ran, held⟩
  · exact sound.trap permitted stepped
  · rw [ran] at stepped
    cases stepped
    exact held

/-- A step halts the machine only with a fault that a process causes with a system call. -/
theorem Sound.halts (sound : machine.Sound top) (permitted : machine.Permitted call)
    (roomy : call = .procAlloc → ∃ idx, idx2pid idx ≤ top ∧
      (machine.kernel.procSet idx).status = .unused) {message : String}
    (failed : machine.step call = .error message) : message ∈ faults := by
  rcases sound.succeeds permitted roomy with ⟨label, rfl⟩ | ⟨next, ran, -⟩
  · have traps := permitted.traps
    simp only [Machine.step, bind_eq_error] at failed
    rcases failed with failed | ⟨⟨kernel, shown⟩, taken, failed⟩
    · refine trap_faults sound.formed failed ?_
      cases label with
      | send _ _ | recv _ | yield | timer _ => trivial
      | alloc | setReady _ | free _ => cases traps
    · -- The switches of a trap that the kernel has handled do not fail.
      have outcome := step_outcome sound.formed taken
      have arrived := outcome.wellFormed sound.formed permitted.spares
      have unused := outcome.settled_iff sound.formed traps (show Status.unused.settled from rfl)
      obtain ⟨_, _, switched, -⟩ :=
        onMemory_eq (sound.switches (switches_live sound.formed arrived unused))
      rcases failed with failed | ⟨_, -, failed⟩
      · rw [switched] at failed
        cases failed
      · exact absurd failed pure_ne_error
  · rw [ran] at failed
    cases failed

end Steps

section Runs

variable {ram : Nat → Page} {machine : Machine} {history : List Event}

/-- The machine is sound in every run that leaves the last slot alone. -/
theorem reaches_sound (reached : Reaches (fun m call => m.Permitted call ∧ m.Roomy call) ram
    machine history) : machine.Sound 15 := by
  refine Run.invariant (fun machine _ => machine.Sound 15) (initial_sound ram (by decide)) ?_
    reached
  rintro machine call after _ events sound ⟨⟨permitted, roomy⟩, stepped⟩
  exact sound.step permitted roomy.below stepped

/-- As long as the last slot stays free, every table has a row for every process. -/
theorem rows_of_live_processes
    (reached : Reaches (fun m call => m.Permitted call ∧ m.Roomy call) ram machine history) :
    (∀ row ∈ machine.memory.rows, row < maxNprocess) ∧
      ∀ row ∈ machine.stackRows, row < maxNprocess := by
  have sound := reaches_sound reached
  exact ⟨fun row member => Nat.lt_succ_of_le (sound.rows row member),
    fun row member => Nat.lt_succ_of_le (sound.stackRows row member)⟩

/-- Whether a slot other than the last one is free can be decided. -/
instance (machine : Machine) : (call : Call) → Decidable (machine.Roomy call)
  | .procAlloc => by unfold Roomy; infer_instance
  | .trap _ | .store _ _ | .mmuAlloc | .mmuMap | .procSetReady | .procFree _ => isTrue trivial

/-- Loads a program into the next free slot. -/
def spawnCalls : List Call :=
  [.procAlloc] ++ (List.replicate appsNpages [.mmuAlloc, .mmuMap]).flatten ++ [.procSetReady]

/-- One process is spawned, runs, and yields. -/
theorem rows_of_first_process :
    ∃ machine history, Reaches (fun m call => m.Permitted call ∧ m.Roomy call)
        (fun _ => Buffer.zero _) machine history ∧
      2 ∈ machine.memory.rows ∧ 2 ∈ machine.stackRows ∧
      (∀ row ∈ machine.memory.rows, row < maxNprocess) ∧
        ∀ row ∈ machine.stackRows, row < maxNprocess := by
  have ran : (follow (fun m call => Permitted m call ∧ Roomy m call) step
      (.initial fun _ => Buffer.zero _) (spawnCalls ++ [.trap .yield, .trap .yield])).map (fun reached =>
        (decide (2 ∈ reached.1.memory.rows), decide (2 ∈ reached.1.stackRows))) =
      some (true, true) := by decide +kernel
  obtain ⟨⟨machine, history⟩, followed, facts⟩ := Option.map_eq_some_iff.mp ran
  have reached : Reaches (fun m call => m.Permitted call ∧ m.Roomy call)
    (fun _ => Buffer.zero _) machine history := run_of_follow .start followed
  obtain ⟨row, stackRow⟩ := Prod.mk.inj facts
  exact ⟨machine, history, reached, of_decide_eq_true row, of_decide_eq_true stackRow,
    rows_of_live_processes reached⟩

/-- Sixteen live processes use a row behind the end of both tables. -/
theorem rows_of_full_table :
    ∃ machine history, Reaches Permitted (fun _ => Buffer.zero _) machine history ∧
      maxNprocess ∈ machine.memory.rows ∧ maxNprocess ∈ machine.stackRows := by
  have ran : (follow Permitted step (.initial fun _ => Buffer.zero _)
      ((List.replicate 15 spawnCalls).flatten ++ List.replicate 16 (.trap .yield))).map
        (fun reached => (decide (maxNprocess ∈ reached.1.memory.rows),
          decide (maxNprocess ∈ reached.1.stackRows))) = some (true, true) := by decide +kernel
  obtain ⟨⟨machine, history⟩, followed, facts⟩ := Option.map_eq_some_iff.mp ran
  have reached : Reaches Permitted (fun _ => Buffer.zero _) machine history :=
    run_of_follow .start followed
  obtain ⟨row, stackRow⟩ := Prod.mk.inj facts
  exact ⟨machine, history, reached, of_decide_eq_true row, of_decide_eq_true stackRow⟩

/-- What the process table and the page tables say at the entry of a trap. -/
structure Consistent (machine : Machine) : Prop where
  running : ∀ idx, (machine.kernel.procSet idx).status = .running ↔
    idx = machine.kernel.procCurrIdx
  pids : ∀ idx, machine.kernel.live idx → (machine.kernel.procSet idx).pid = idx2pid idx
  -- The four pages for code and the two for arguments, once the process has been loaded.
  loaded : ∀ idx, machine.kernel.live idx → (machine.kernel.procSet idx).status ≠ .loading →
    ∀ i, (machine.memory.appPages (idx2pid idx).toNat i).execAddr = execAddrOf i ∧
      (machine.memory.appPages (idx2pid idx).toNat i).privateAddr ≠ 0
  empty : ∀ idx, (machine.kernel.procSet idx).status = .unused →
    ∀ i, machine.memory.appPages (idx2pid idx).toNat i = .null
  distinct : ∀ idx i other j, (machine.memory.appPages (idx2pid idx).toNat i).privateAddr ≠ 0 →
    (machine.memory.appPages (idx2pid idx).toNat i).privateAddr =
      (machine.memory.appPages (idx2pid other).toNat j).privateAddr → idx = other ∧ i = j
  managed : ∀ idx i, (machine.memory.appPages (idx2pid idx).toNat i).privateAddr ≠ 0 →
    ∃ page < npages, (machine.memory.appPages (idx2pid idx).toNat i).privateAddr = pageAddr page
  used : ∀ page < npages, bitmapTest machine.memory.bitmap page = true ↔
    ∃ idx i, (machine.memory.appPages (idx2pid idx).toNat i).privateAddr = pageAddr page

/-- A sound machine without a page in the loader's hand is consistent. -/
theorem Sound.consistent {top : Nat} (sound : machine.Sound top) (empty : machine.job.hand = none) :
    machine.Consistent := by
  -- The accounts say of every row what the statuses ask for.
  have accounted := sound.accounted
  rw [empty] at accounted
  refine ⟨sound.alone, sound.formed.pids, ?_, ?_, ?_, ?_, ?_⟩
  · intro idx live past i
    have full : machine.maps (idx2pid idx).toNat i := by
      rw [maps_idx2pid]
      have all : machine.mapped idx = appsNpages := by
        unfold mapped
        cases status : (machine.kernel.procSet idx).status <;>
          first | rfl | exact absurd status live | exact absurd status past
      rw [all]
      exact i.isLt
    exact ⟨(accounted.filled _ i full).1, accounted.private_ne full⟩
  · intro idx unused i
    refine accounted.empty _ i fun full => ?_
    rw [maps_idx2pid] at full
    simp [mapped, unused] at full
  · intro idx i other j filled same
    have left := (accounted.maps_iff (idx2pid idx).toNat i).mpr filled
    have right := (accounted.maps_iff (idx2pid other).toNat j).mpr (same ▸ filled)
    obtain ⟨rows, columns⟩ := accounted.apart _ i _ j left right same
    rw [toNat_idx2pid, toNat_idx2pid] at rows
    exact ⟨Fin.ext (Nat.succ.inj rows), columns⟩
  · intro idx i filled
    obtain ⟨-, page, below, own, -⟩ :=
      accounted.filled _ i ((accounted.maps_iff (idx2pid idx).toNat i).mpr filled)
    exact ⟨page, below, own⟩
  · intro page below
    constructor
    · intro marked
      rcases accounted.owned page below marked with held | ⟨row, i, ⟨idx, rfl, inside⟩, own⟩
      · cases held
      · exact ⟨idx, i, by rw [toNat_idx2pid]; exact own⟩
    · rintro ⟨idx, i, own⟩
      have filled := (accounted.maps_iff (idx2pid idx).toNat i).mpr
        (by rw [own]; exact pageAddr_ne_zero page)
      obtain ⟨-, other, -, same, marked⟩ := accounted.filled _ i filled
      rw [own, pageAddr_inj] at same
      rw [same]
      exact marked

/-- The fatal errors of page allocation, of mapping pages and of setting a status. -/
def tableErrors : List String :=
  ["pmalloc: no more available page", "soft_tlb_map: mapping more pages than expected",
    "[ASSERT FAILED][file:grass/process.c, line:18]"]

/-- With at most fifteen live processes the tables are consistent at every trap, unless a timer
interrupt that the kernel ignores catches the process server between allocating and mapping a page,
and no step ends in a fatal error about the tables. -/
theorem tables_stay_consistent
    (reached : Reaches (fun m call => m.Permitted call ∧ m.Fewer call) ram machine history) :
    (∀ label, machine.Permitted (.trap label) →
      (machine.serves → (∃ ttyIntr, label = .timer ttyIntr) → machine.job.hand = none) →
        machine.Consistent) ∧
    ∀ call message, machine.Permitted call → machine.Fewer call →
      machine.step call = .error message → message ∉ tableErrors := by
  have sound : machine.Sound 15 := by
    refine Run.invariant (fun machine _ => machine.Sound 15) (initial_sound ram (by decide)) ?_
      reached
    rintro machine call after _ events sound ⟨⟨permitted, fewer⟩, stepped⟩
    exact sound.step permitted fewer.roomy.below stepped
  constructor
  · intro label permitted spared
    rcases sound.hand_of_trap permitted with empty | ⟨serves, timer⟩
    · exact sound.consistent empty
    · exact sound.consistent (spared serves timer)
  · intro call message permitted fewer failed
    have others : ∀ fault ∈ faults, fault ∉ tableErrors := by decide
    exact others message (sound.halts permitted fewer.roomy.below failed)

/-- Whether a spawn leaves few enough live processes can be decided. -/
instance (machine : Machine) : (call : Call) → Decidable (machine.Fewer call)
  | .procAlloc => by unfold Fewer; infer_instance
  | .trap _ | .store _ _ | .mmuAlloc | .mmuMap | .procSetReady | .procFree _ => isTrue trivial

/-- The process server spawns the servers and the shell and waits for what the servers say. -/
def bootCalls : List Call :=
  spawnCalls ++ [.trap (.recv 2), .trap (.send 1 [])] ++
  spawnCalls ++ [.trap (.recv 3), .trap (.recv 0), .trap (.send 1 [])] ++
  spawnCalls ++ [.trap (.recv 4), .trap (.recv 0), .trap (.send 1 [])] ++ spawnCalls

/-- After booting, an application is spawned and the process server traps. -/
theorem tables_consistent_sixth_process :
    ∃ machine history, Reaches (fun m call => m.Permitted call ∧ m.Fewer call)
        (fun _ => Buffer.zero _) machine history ∧
      machine.liveCount = 6 ∧ machine.Permitted (.trap .yield) ∧ machine.Consistent ∧
      ∀ call message, machine.Permitted call → machine.Fewer call →
        machine.step call = .error message → message ∉ tableErrors := by
  have ran : (follow (fun m call => Permitted m call ∧ Fewer m call) step
      (.initial fun _ => Buffer.zero _) (bootCalls ++ spawnCalls)).map (fun reached =>
        (reached.1.liveCount, decide (reached.1.Permitted (.trap .yield)))) =
      some (6, true) := by decide +kernel
  obtain ⟨⟨machine, history⟩, followed, facts⟩ := Option.map_eq_some_iff.mp ran
  have reached : Reaches (fun m call => m.Permitted call ∧ m.Fewer call)
    (fun _ => Buffer.zero _) machine history := run_of_follow .start followed
  obtain ⟨count, permitted⟩ := Prod.mk.inj facts
  have permitted := of_decide_eq_true permitted
  obtain ⟨consistent, errors⟩ := tables_stay_consistent reached
  refine ⟨machine, history, reached, count, permitted, consistent .yield permitted ?_, errors⟩
  rintro - ⟨ttyIntr, impossible⟩
  cases impossible

/-- A timer interrupt can catch the process server between allocating and mapping a page, when
the page is marked as used and belongs to no process. -/
theorem tables_differ_at_ignored_timer :
    ∃ machine history, Reaches (fun m call => m.Permitted call ∧ m.Fewer call)
        (fun _ => Buffer.zero _) machine history ∧
      machine.Permitted (.trap (.timer false)) ∧ ¬ machine.Consistent := by
  have ran : (follow (fun m call => Permitted m call ∧ Fewer m call) step
      (.initial fun _ => Buffer.zero _) (bootCalls ++ [.procAlloc, .mmuAlloc])).map (fun reached =>
        (bitmapTest reached.1.memory.bitmap 30, decide (∀ (idx : Slot) (i : Fin appsNpages),
          (reached.1.memory.appPages (idx2pid idx).toNat i).privateAddr ≠ pageAddr 30))) =
      some (true, true) := by decide +kernel
  obtain ⟨⟨machine, history⟩, followed, facts⟩ := Option.map_eq_some_iff.mp ran
  have reached : Reaches (fun m call => m.Permitted call ∧ m.Fewer call)
    (fun _ => Buffer.zero _) machine history := run_of_follow .start followed
  obtain ⟨marked, unmapped⟩ := Prod.mk.inj facts
  refine ⟨machine, history, reached, trivial, fun consistent => ?_⟩
  obtain ⟨idx, i, own⟩ := (consistent.used 30 (by decide)).mp marked
  exact of_decide_eq_true unmapped idx i own

end Runs

end Machine

end Egos.Earth
