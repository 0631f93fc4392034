import Egos.Earth.Memory

/-! Copying the pages of processes to where they run, and back. -/

namespace Egos.Earth

open Egos.Grass

/-- A mapping of a row has a page. -/
def Memory.owns (memory : Memory) (row : Nat) (i : Fin appsNpages) : Prop :=
  (memory.appPages row i).privateAddr ≠ 0

/-- Mappings whose pages can be copied without getting in each other's way. -/
structure Memory.Laid (memory : Memory) : Prop where
  runs : ∀ row i, memory.owns row i → (memory.appPages row i).execAddr ≠ 0
  single : ∀ row i j, memory.owns row i → memory.owns row j →
    (memory.appPages row i).execAddr = (memory.appPages row j).execAddr → i = j
  apart : ∀ row i other j, memory.owns row i → memory.owns other j →
    (memory.appPages row i).privateAddr = (memory.appPages other j).privateAddr →
      row = other ∧ i = j
  outside : ∀ row i other j, memory.owns row i → memory.owns other j →
    (memory.appPages row i).execAddr ≠ (memory.appPages other j).privateAddr

/-- Where a copy of a mapping's page goes. -/
def PageMapping.target (mapping : PageMapping) (private2exec : Bool) : Nat :=
  if private2exec then mapping.execAddr else mapping.privateAddr

/-- Where a copy of a mapping's page comes from. -/
def PageMapping.source (mapping : PageMapping) (private2exec : Bool) : Nat :=
  if private2exec then mapping.privateAddr else mapping.execAddr

/-- What copying some mappings of a row does to memory. -/
structure Copied (memory after : Memory) (row : Nat) (private2exec : Bool)
    (copies : Fin appsNpages → Prop) : Prop where
  bitmap : after.bitmap = memory.bitmap
  table : after.appPages = memory.appPages
  vm : after.currVmPid = memory.currVmPid
  moved : ∀ i, copies i → after.ram ((memory.appPages row i).target private2exec) =
    memory.ram ((memory.appPages row i).source private2exec)
  kept : ∀ addr, (∀ i, copies i → addr ≠ (memory.appPages row i).target private2exec) →
    after.ram addr = memory.ram addr

section Copies

variable {memory : Memory} {returns : Unit → Memory → Prop} {stops : String → Memory → Prop}
variable {pid : Int}

/-- An assertion of the memory's functions passes or halts the machine. -/
@[simp] theorem ends_assert {condition : Prop} [Decidable condition] {message : String} :
    Ends (liftM (assert condition message) : MemM Unit) returns stops memory ↔
      if condition then returns () memory else stops ("[ASSERT FAILED]" ++ message) memory := by
  unfold assert
  split
  · exact Iff.rfl
  · exact Iff.rfl

/-- The row of a pid in the table is noted. -/
theorem ends_appRow {returns : Nat → Memory → Prop} {pid : Int}
    (known : pid > 0 ∧ pid ≤ (maxNprocess : Int)) :
    Ends (appRow pid) returns stops memory ↔
      returns pid.toNat { memory with rows := pid.toNat :: memory.rows } := by
  simp only [appRow, ends_bind, ends_assert, if_pos known, ends_modify, ends_pure]

/-- The layout is a matter of the table. -/
theorem Memory.Laid.congr (laid : memory.Laid) {after : Memory}
    (table : after.appPages = memory.appPages) : after.Laid := by
  obtain ⟨runs, single, apart, outside⟩ := laid
  simp only [Memory.owns] at runs single apart outside
  constructor <;> simp only [Memory.owns, table] <;> assumption

/-- Copies of different mappings do not get in each other's way. -/
theorem Memory.Laid.copies_apart (laid : memory.Laid) {row : Nat} {i j : Fin appsNpages}
    (first : memory.owns row i) (second : memory.owns row j) (private2exec : Bool) :
    ((memory.appPages row i).target private2exec = (memory.appPages row j).target private2exec →
      i = j) ∧
    (memory.appPages row i).target private2exec ≠
      (memory.appPages row j).source private2exec := by
  cases private2exec with
  | false =>
    simp only [PageMapping.target, PageMapping.source, Bool.false_eq_true, if_false]
    exact ⟨fun same => (laid.apart row i row j first second same).2,
      (laid.outside row j row i second first).symm⟩
  | true =>
    simp only [PageMapping.target, PageMapping.source, if_true]
    exact ⟨laid.single row i j first second, laid.outside row i row j first second⟩

/-- Copying one mapping copies its page if it has one. -/
theorem Memory.Laid.copyMapping (laid : memory.Laid) (row : Nat) (private2exec : Bool)
    (i : Fin appsNpages) :
    (¬ memory.owns row i → returns () memory) →
    (memory.owns row i → returns () { memory with
      ram := Function.update memory.ram ((memory.appPages row i).target private2exec)
        (memory.ram ((memory.appPages row i).source private2exec)) }) →
    Ends (copyMapping row private2exec i) returns stops memory := by
  -- The check of the addresses holds for every mapping that has a page.
  intro otherwise copied
  unfold Earth.copyMapping
  rw [ends_bind, ends_get]
  by_cases owned : memory.owns row i
  · have filled : (memory.appPages row i).privateAddr ≠ 0 := owned
    rw [if_pos filled]
    simp only [ends_bind, ends_assert, if_pos (laid.runs row i owned)]
    cases private2exec with
    | false => exact copied owned
    | true => exact copied owned
  · have spare : ¬ (memory.appPages row i).privateAddr ≠ 0 := owned
    rw [if_neg spare]
    exact otherwise owned

/-- The pages of a process are all copied to where it runs, or back. -/
theorem Memory.Laid.memcopyHelper (laid : memory.Laid)
    (known : pid > 0 ∧ pid ≤ (maxNprocess : Int)) (private2exec : Bool) :
    Ends (memcopyHelper pid private2exec) (fun _ after =>
      Copied memory after pid.toNat private2exec (memory.owns pid.toNat) ∧
      after.rows = pid.toNat :: memory.rows) (fun _ _ => False) memory := by
  unfold Earth.memcopyHelper
  rw [ends_bind, ends_appRow known]
  -- The mappings that the loop has come past are copied.
  refine (Ends.forM (fun done after =>
    Copied memory after pid.toNat private2exec (fun i => memory.owns pid.toNat i ∧ i ∈ done) ∧
    after.rows = pid.toNat :: memory.rows) ?_ ?_).imp (fun _ after held => ?_) (fun _ _ => id)
  · exact ⟨⟨rfl, rfl, rfl, by simp, fun _ _ => rfl⟩, rfl⟩
  · rintro done i rest middle split ⟨⟨bitmap, table, vm, moved, kept⟩, rows⟩
    have reached : middle.Laid := laid.congr table
    have owns : ∀ j, middle.owns pid.toNat j ↔ memory.owns pid.toNat j := by
      intro j
      rw [Memory.owns, Memory.owns, table]
    have unseen : i ∉ done := by
      have distinct := List.nodup_finRange appsNpages
      rw [split, List.nodup_append] at distinct
      intro seen
      exact distinct.2.2 i seen i (List.mem_cons_self ..) rfl
    refine reached.copyMapping pid.toNat private2exec i (fun spare => ?_) (fun owned => ?_)
    · refine ⟨⟨bitmap, table, vm, ?_, ?_⟩, rows⟩
      · rintro j ⟨other, member⟩
        rcases List.mem_append.mp member with earlier | same
        · exact moved j ⟨other, earlier⟩
        · rw [List.mem_singleton.mp same, ← owns] at other
          exact absurd other spare
      · intro addr different
        exact kept addr fun j copied =>
          different j ⟨copied.1, List.mem_append_left _ copied.2⟩
    · rw [owns] at owned
      refine ⟨⟨bitmap, table, vm, ?_, ?_⟩, rows⟩
      · rintro j ⟨other, member⟩
        simp only [table]
        by_cases same : j = i
        · subst same
          rw [Function.update_self]
          exact kept _ fun k copied => ((laid.copies_apart copied.1 owned private2exec).2).symm
        · have earlier : j ∈ done := by
            rcases List.mem_append.mp member with earlier | last
            · exact earlier
            · exact absurd (List.mem_singleton.mp last) same
          rw [Function.update_of_ne fun equal =>
            same ((laid.copies_apart other owned private2exec).1 equal)]
          exact moved j ⟨other, earlier⟩
      · intro addr different
        simp only [table]
        rw [Function.update_of_ne (different i ⟨owned, by simp⟩)]
        exact kept addr fun j copied =>
          different j ⟨copied.1, List.mem_append_left _ copied.2⟩
  · obtain ⟨⟨bitmap, table, vm, moved, kept⟩, rows⟩ := held
    refine ⟨⟨bitmap, table, vm, fun i owned => moved i ⟨owned, List.mem_finRange i⟩,
      fun addr different => kept addr fun i copied => different i copied.1⟩, rows⟩

/-- What switching to a process does to memory, wherever its pages run. -/
structure Swapped (memory after : Memory) (pid : Int) : Prop where
  bitmap : after.bitmap = memory.bitmap
  table : after.appPages = memory.appPages
  vm : after.currVmPid = pid
  rows : ∀ row ∈ after.rows, row ∈ memory.rows ∨ row = pid.toNat ∨
    row = memory.currVmPid.toNat ∧ memory.currVmPid > 0
  -- The process that ran so far gets its pages back.
  saved : pid ≠ memory.currVmPid → memory.currVmPid > 0 →
    ∀ i, memory.owns memory.currVmPid.toNat i →
      after.ram (memory.appPages memory.currVmPid.toNat i).privateAddr =
        memory.ram (memory.appPages memory.currVmPid.toNat i).execAddr
  brought : pid ≠ memory.currVmPid → ∀ i, memory.owns pid.toNat i →
    after.ram (memory.appPages pid.toNat i).execAddr =
      memory.ram (memory.appPages pid.toNat i).privateAddr
  kept : ∀ addr, (∀ i, memory.owns memory.currVmPid.toNat i → memory.currVmPid > 0 →
      addr ≠ (memory.appPages memory.currVmPid.toNat i).privateAddr) →
    (∀ i, memory.owns pid.toNat i → addr ≠ (memory.appPages pid.toNat i).execAddr) →
      after.ram addr = memory.ram addr
  stays : pid = memory.currVmPid → after = memory

/-- Bringing the pages of a process comes last, whatever has been saved before. -/
theorem Memory.Laid.brings (laid : memory.Laid) (known : pid > 0 ∧ pid ≤ (maxNprocess : Int))
    (other : pid ≠ memory.currVmPid) {middle : Memory} (bitmap : middle.bitmap = memory.bitmap)
    (table : middle.appPages = memory.appPages)
    (rows : ∀ row ∈ middle.rows, row ∈ memory.rows ∨
      row = memory.currVmPid.toNat ∧ memory.currVmPid > 0)
    (saved : memory.currVmPid > 0 → ∀ i, memory.owns memory.currVmPid.toNat i →
      middle.ram (memory.appPages memory.currVmPid.toNat i).privateAddr =
        memory.ram (memory.appPages memory.currVmPid.toNat i).execAddr)
    (kept : ∀ addr, (∀ i, memory.owns memory.currVmPid.toNat i → memory.currVmPid > 0 →
      addr ≠ (memory.appPages memory.currVmPid.toNat i).privateAddr) →
        middle.ram addr = memory.ram addr) :
    Ends (do Earth.memcopyHelper pid true; modify fun memory => { memory with currVmPid := pid })
      (fun _ after => Swapped memory after pid) (fun _ _ => False) middle := by
  have owns : ∀ i, middle.owns pid.toNat i ↔ memory.owns pid.toNat i := by
    intro i
    rw [Memory.owns, Memory.owns, table]
  rw [ends_bind]
  refine ((laid.congr table).memcopyHelper known true).imp (fun _ after copied => ?_)
    (fun _ _ => id)
  obtain ⟨⟨sameBitmap, sameTable, -, moved, rest⟩, noted⟩ := copied
  simp only [PageMapping.target, PageMapping.source, if_true, table, owns] at moved rest
  rw [ends_modify]
  refine ⟨sameBitmap.trans bitmap, sameTable.trans table, rfl, ?_, ?_, ?_, ?_,
    fun equal => absurd equal other⟩
  · intro row member
    simp only [noted, List.mem_cons] at member
    rcases member with rfl | earlier
    · exact Or.inr (Or.inl rfl)
    · rcases rows row earlier with old | current
      · exact Or.inl old
      · exact Or.inr (Or.inr current)
  · intro _ positive i owned
    refine Eq.trans (rest _ fun j brought => ?_) (saved positive i owned)
    exact (laid.outside pid.toNat j _ i brought owned).symm
  · intro _ i owned
    refine (moved i owned).trans (kept _ fun j running positive equal => ?_)
    -- Pages of different rows are different, and so are the two pids.
    have rows := (laid.apart pid.toNat i _ j owned running equal).1
    have := known.1
    omega
  · intro addr notSaved notBrought
    exact Eq.trans (rest addr notBrought) (kept addr notSaved)

/-- Switching to a process brings its pages to where it runs. -/
theorem Memory.Laid.softTlbSwitch (laid : memory.Laid)
    (known : pid > 0 ∧ pid ≤ (maxNprocess : Int))
    (ran : memory.currVmPid ≤ (maxNprocess : Int)) :
    Ends (softTlbSwitch pid) (fun _ after => Swapped memory after pid)
      (fun _ _ => False) memory := by
  -- The pages of the process that ran are copied out first, and those of the next one then in.
  unfold Earth.softTlbSwitch
  rw [ends_bind, ends_get]
  by_cases same : pid = memory.currVmPid
  · rw [if_neg (by simpa using same), ends_pure]
    exact ⟨rfl, rfl, same.symm, fun _ old => Or.inl old, fun apart => absurd same apart,
      fun apart => absurd same apart, fun _ _ _ => rfl, fun _ => rfl⟩
  · rw [if_pos same]
    by_cases positive : memory.currVmPid > 0
    · simp only [if_pos positive]
      rw [ends_bind]
      refine (laid.memcopyHelper ⟨positive, ran⟩ false).imp (fun _ middle copied => ?_)
        (fun _ _ => id)
      obtain ⟨⟨bitmap, table, -, moved, rest⟩, noted⟩ := copied
      refine laid.brings known same bitmap table ?_ ?_ ?_
      · intro row member
        rw [noted, List.mem_cons] at member
        rcases member with rfl | earlier
        · exact Or.inr ⟨rfl, positive⟩
        · exact Or.inl earlier
      · intro _ i owned
        exact moved i owned
      · intro addr different
        exact rest addr fun i owned => different i owned positive
    · simp only [if_neg positive]
      exact laid.brings known same rfl rfl (fun _ old => Or.inl old)
        (fun high => absurd high positive) fun _ _ => rfl

end Copies

end Egos.Earth
