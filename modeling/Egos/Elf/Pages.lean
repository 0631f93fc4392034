import Egos.Elf.Image

/-! What loading an executable leaves in the pages of a process. -/

namespace Egos.Elf

open Egos.Earth
open Egos.Apps (cmdNargs cmdArgLen)
open Egos.Grass (maxNprocess)
open Egos.Treedisk (blockSize Block)

/-- The pages that have been mapped for code are blank, and no other page has changed. -/
structure CodePages (memory after : Memory) (row count : Nat) (paddrs : List Nat) : Prop where
  length : paddrs.length = count
  own : ∀ i : Fin appsNpages, i.val < count →
    paddrs[i.val]? = some (after.appPages row i).privateAddr
  blank : ∀ addr ∈ paddrs, after.ram addr = Buffer.zero _
  kept : ∀ addr, addr ∉ paddrs → after.ram addr = memory.ram addr
  older : ∀ other j, ¬ (other = row ∧ j.val < count) →
    after.appPages other j = memory.appPages other j
  rows : ∀ other ∈ after.rows, other = row ∨ other ∈ memory.rows

/-- There is a page for arguments. -/
theorem argSlot_lt : appsSize / pageSize < appsNpages := by decide

/-- There is a page for the stack. -/
theorem stackSlot_lt : appsSize / pageSize + 1 < appsNpages := by decide

/-- The page for arguments comes behind those for code. -/
def argSlot : Fin appsNpages := ⟨appsSize / pageSize, argSlot_lt⟩

/-- The page for messages and the stack comes last. -/
def stackSlot : Fin appsNpages := ⟨appsSize / pageSize + 1, stackSlot_lt⟩

/-- The last two pages of a process have been mapped and filled, and no other page has changed. -/
structure ArgPages (memory after : Memory) (row : Nat) (args : Page) : Prop where
  arguments : after.ram (after.appPages row argSlot).privateAddr = args
  stack : after.ram (after.appPages row stackSlot).privateAddr = Buffer.zero _
  kept : ∀ addr, addr ≠ (after.appPages row argSlot).privateAddr →
    addr ≠ (after.appPages row stackSlot).privateAddr → after.ram addr = memory.ram addr
  older : ∀ other j, ¬ (other = row ∧ appsSize / pageSize ≤ j.val) →
    after.appPages other j = memory.appPages other j
  looked : row ∈ after.rows
  rows : ∀ other ∈ after.rows, other = row ∨ other ∈ memory.rows

/-- The first pages of a process were free before, and memory has changed in them only. -/
structure Allocates (memory after : Memory) (row count : Nat) : Prop where
  fresh : ∀ i : Fin appsNpages, i.val < count → ∃ page < npages,
    (after.appPages row i).privateAddr = pageAddr page ∧ bitmapTest memory.bitmap page = false
  kept : ∀ addr, (∀ i : Fin appsNpages, i.val < count →
    pageOf addr ≠ (after.appPages row i).privateAddr) →
      readByte after.ram addr = readByte memory.ram addr

section Loading

variable {memory : Memory} {maps : Nat → Fin appsNpages → Prop} {pid : Int}

/-- One more page for code comes behind the others. -/
theorem CodePages.snoc {first second third : Memory} {row count addr : Nat} {paddrs : List Nat}
    (pages : CodePages memory first row count paddrs) (room : count < appsNpages)
    (taken : second.ram = Function.update first.ram addr (Buffer.zero _))
    (stored : third.ram = Function.update second.ram addr (Buffer.zero _))
    (table : third.appPages = Function.update first.appPages row
      (Function.update (first.appPages row) ⟨count, room⟩ ⟨addr, execAddrOf count⟩))
    (looked : third.rows = row :: first.rows) :
    CodePages memory third row (count + 1) (paddrs ++ [addr]) := by
  -- The new page is different from the earlier ones, and its mapping comes behind theirs.
  obtain ⟨length, own, blank, kept, older, rows⟩ := pages
  refine ⟨by simp [length], ?_, ?_, ?_, ?_, ?_⟩
  · intro i below
    rcases Nat.lt_succ_iff_lt_or_eq.mp below with lower | same
    · rw [List.getElem?_append_left (by omega), table, update_mapping_of_ne]
      · exact own i lower
      · rintro ⟨-, equal⟩
        rw [equal] at lower
        exact Nat.lt_irrefl _ lower
    · have here : i = ⟨count, room⟩ := Fin.ext same
      subst here
      rw [List.getElem?_append_right (by omega), table]
      simp [length]
  · intro other member
    rw [stored, taken]
    by_cases same : other = addr
    · rw [same, Function.update_self]
    · have earlier : other ∈ paddrs := by simpa [same] using member
      rw [Function.update_of_ne same, Function.update_of_ne same]
      exact blank other earlier
  · intro other outside
    simp only [List.mem_append, List.mem_singleton, not_or] at outside
    rw [stored, taken, Function.update_of_ne outside.2, Function.update_of_ne outside.2]
    exact kept other outside.1
  · intro other j apart
    rw [table, update_mapping_of_ne, older other j]
    · rintro ⟨same, low⟩
      exact apart ⟨same, Nat.lt_succ_of_lt low⟩
    · rintro ⟨same, here⟩
      exact apart ⟨same, by rw [here]; exact Nat.lt_succ_self count⟩
  · intro other member
    rw [looked, List.mem_cons] at member
    exact member.elim Or.inl (rows other)

/-- The pages for code are mapped one after the other. -/
theorem ends_mapCode (accounted : Accounted memory maps none)
    (known : pid > 0 ∧ pid ≤ (maxNprocess : Int)) (free : ∀ i, ¬ maps pid.toNat i) :
    ∀ count ≤ appsSize / pageSize, Ends (mapCode pid count) (fun paddrs after =>
      Accounted after (fun row i => maps row i ∨ row = pid.toNat ∧ i.val < count) none ∧
      after.currVmPid = memory.currVmPid ∧ CodePages memory after pid.toNat count paddrs)
      (fun _ _ => False) memory := by
  intro count
  induction count with
  | zero =>
    intro _
    rw [mapCode, ends_pure]
    exact ⟨accounted.congr rfl rfl (by simp), rfl, rfl, by simp, by simp, fun _ _ => rfl,
      fun _ _ _ => rfl, fun _ => Or.inr⟩
  | succ count ih =>
    intro bound
    have room : count < appsNpages := by
      simp only [appsNpages]
      omega
    rw [mapCode, ends_bind]
    refine (ih (by omega)).imp (fun paddrs first mapped => ?_) (fun _ _ => id)
    obtain ⟨reached, vm, pages⟩ := mapped
    rw [ends_bind]
    refine (reached.pmalloc true).imp (fun addr second taken => ?_) (fun _ _ => id)
    obtain ⟨held, sameTable, sameVm, sameRows, ram⟩ := taken
    simp only [ends_bind, storePage, ends_modify]
    -- Clearing the page a second time changes no table.
    have cleared : Accounted { second with ram := Function.update second.ram addr (Buffer.zero _) }
        (fun row i => maps row i ∨ row = pid.toNat ∧ i.val < count) (some addr) :=
      held.congr rfl rfl fun _ _ => Iff.rfl
    have place : appsEntry + count * pageSize = execAddrOf count := by
      simp only [execAddrOf]
      rw [if_pos (by omega)]
    rw [place]
    refine (cleared.softTlbMap known (i := ⟨count, room⟩)
      (fun j lower => Or.inr ⟨rfl, lower⟩) ?_).imp (fun _ third given => ?_) (fun _ _ => id)
    · rintro (earlier | ⟨-, lower⟩)
      · exact free _ earlier
      · exact Nat.lt_irrefl _ lower
    · obtain ⟨next, stored, lastVm, looked, table⟩ := given
      rw [ends_pure]
      refine ⟨next.congr rfl rfl fun row i => ?_, (lastVm.trans sameVm).trans vm, ?_⟩
      · simp only [Fin.ext_iff, Nat.lt_succ_iff_lt_or_eq]
        tauto
      · rw [sameTable] at table
        exact pages.snoc room ram stored table (looked.trans (congrArg _ sameRows))

/-- The pages that have been mapped for the code have room for it. -/
theorem CodePages.frames {first : Memory} {row : Nat} {paddrs : List Nat}
    (pages : CodePages memory first row (appsSize / pageSize) paddrs)
    (accounted : Accounted first maps none)
    (mapped : ∀ i : Fin appsNpages, i.val < appsSize / pageSize → maps row i) :
    CodeFrames paddrs := by
  -- The pages of mappings in use lie apart and are aligned.
  have entry : ∀ k (below : k < paddrs.length), ∃ inside : k < appsNpages,
      paddrs[k] = (first.appPages row ⟨k, inside⟩).privateAddr ∧ maps row ⟨k, inside⟩ := by
    intro k below
    have low : k < appsSize / pageSize := pages.length ▸ below
    have inside : k < appsNpages := Nat.lt_add_right 2 low
    have own := pages.own ⟨k, inside⟩ low
    rw [List.getElem?_eq_getElem below, Option.some.injEq] at own
    exact ⟨inside, own, mapped _ low⟩
  refine ⟨pages.length, ?_, ?_⟩
  · rw [List.nodup_iff_injective_get]
    intro first second same
    obtain ⟨_, here, used⟩ := entry first.val first.isLt
    obtain ⟨_, there, taken⟩ := entry second.val second.isLt
    simp only [List.get_eq_getElem, here, there] at same
    have equal := (accounted.apart _ _ _ _ used taken same).2
    exact Fin.ext (Fin.mk.inj_iff.mp equal)
  · intro paddr member
    obtain ⟨k, below, rfl⟩ := List.mem_iff_getElem.mp member
    obtain ⟨_, here, used⟩ := entry k below
    obtain ⟨-, page, -, own, -⟩ := accounted.filled _ _ used
    rw [here, own]
    exact pageAddr_aligned page

/-- Loading the code of an application that fits makes its image. -/
theorem ends_loadCode {first : Memory} {paddrs : List Nat} (frames : CodeFrames paddrs)
    (blank : ∀ addr ∈ paddrs, first.ram addr = Buffer.zero _) (reader : Nat → Block)
    {pFilesz : Nat} (fits : pFilesz ≤ appsSize) (block : Nat) :
    Ends (copyBlocks reader paddrs pFilesz (pFilesz / blockSize + 1) 0 block (-1))
      (fun last second => (pFilesz % pageSize ≠ 0 →
          Image reader paddrs block pFilesz first { second with
            ram := withBytes second.ram (paddrs[last.toNat]?.getD 0 + pFilesz % pageSize)
              (List.replicate (pageSize - pFilesz % pageSize) 0) }) ∧
        (pFilesz % pageSize = 0 → Image reader paddrs block pFilesz first second))
      (fun _ _ => False) first := by
  -- A loop over a segment that fits ends behind its last byte.
  have zeros : ∀ i < appsSize, readByte first.ram (target paddrs i) = 0 := by
    intro i inside
    obtain ⟨below, page, -⟩ := frames.mem inside
    have offset : target paddrs i % pageSize < pageSize := Nat.mod_lt _ (by decide)
    rw [readByte, page, blank _ (List.getElem_mem below), Buffer.zero,
      Vector.getElem?_replicate, if_pos offset]
    rfl
  have start : Filled reader paddrs block first first 0 :=
    ⟨⟨rfl, rfl, rfl, rfl⟩, by simp, fun _ _ => rfl⟩
  have loop := ends_copyBlocks frames reader block pFilesz first (pFilesz / blockSize + 1) 0 (-1)
    first rfl (by decide) (Nat.lt_add_left _ (by decide)) (by decide) start
  refine loop.imp (fun last second done => ?_) (fun _ _ stopped => ?_)
  · obtain ⟨reached, top, near, whole, index, filled, enough⟩ := done
    have all : pFilesz ≤ reached := by
      refine enough ?_
      simp only [blockSize]
      omega
    exact ⟨fun partly => filled.cleared frames zeros top all near whole index partly,
      fun full => filled.complete frames zeros top all near whole full⟩
  · exact absurd stopped.2.1 (Nat.not_lt.mpr fits)

/-- The pages for arguments come behind those for code, and the first of them holds them. -/
theorem ends_mapArgs (accounted : Accounted memory maps none)
    (known : pid > 0 ∧ pid ≤ (maxNprocess : Int))
    (code : ∀ i, maps pid.toNat i ↔ i.val < appsSize / pageSize) (argc : Int)
    (argv : Option (List UInt8)) :
    Ends (mapArgs pid argc argv) (fun _ after =>
      Accounted after (fun row i => maps row i ∨ row = pid.toNat) none ∧
      after.currVmPid = memory.currVmPid ∧
      ArgPages memory after pid.toNat (argPage argc argv (Buffer.zero _)))
      (fun _ _ => False) memory := by
  unfold mapArgs
  rw [ends_bind]
  refine (accounted.pmalloc true).imp (fun addr first taken => ?_) (fun _ _ => id)
  obtain ⟨held, firstTable, vm, firstRows, cleared⟩ := taken
  have argument : appsArg = execAddrOf argSlot := by decide
  rw [ends_bind]
  have mapped := held.softTlbMap known (i := argSlot)
    (fun j lower => (code j).mpr lower) (fun full => Nat.lt_irrefl _ ((code _).mp full))
  refine Ends.imp (argument ▸ mapped) (fun _ second given => ?_) (fun _ _ => id)
  obtain ⟨reached, ram, secondVm, secondRows, table⟩ := given
  simp only [ends_bind, ends_get, storePage, ends_modify]
  -- The page that is filled had been cleared.
  have blank : second.ram addr = Buffer.zero _ := by
    rw [ram, cleared]
    simp
  rw [blank]
  have filled : Accounted
      { second with ram := Function.update second.ram addr (argPage argc argv (Buffer.zero _)) }
      (fun other j => maps other j ∨ other = pid.toNat ∧ j = argSlot)
      none := reached.congr rfl rfl fun _ _ => Iff.rfl
  refine (filled.pmalloc true).imp (fun last third taken => ?_) (fun _ _ => id)
  obtain ⟨lastHeld, sameTable, thirdVm, thirdRows, lastRam⟩ := taken
  have stack : appsArg + pageSize = execAddrOf stackSlot := by decide
  rw [stack]
  refine (lastHeld.softTlbMap known (i := stackSlot) ?_ ?_).imp
    (fun _ after given => ?_) (fun _ _ => id)
  · intro j lower
    rcases Nat.lt_succ_iff_lt_or_eq.mp (Fin.lt_def.mp lower) with below | same
    · exact Or.inl ((code j).mpr below)
    · exact Or.inr ⟨rfl, Fin.ext same⟩
  · rintro (full | ⟨-, same⟩)
    · exact absurd ((code _).mp full) (by decide)
    · exact absurd same (by decide)
  · obtain ⟨final, finalRam, finalVm, finalRows, finalTable⟩ := given
    have slots : argSlot ≠ stackSlot := by decide
    have argEntry : after.appPages pid.toNat argSlot = ⟨addr, appsArg⟩ := by
      rw [finalTable, update_mapping_of_ne (fun here => slots here.2), sameTable]
      simp [table]
    have stackEntry : after.appPages pid.toNat stackSlot = ⟨last, execAddrOf stackSlot⟩ := by
      simp [finalTable]
    -- The last page is a different one.
    have apart : addr ≠ last := by
      obtain ⟨-, elsewhere⟩ := lastHeld.held last rfl
      have other := elsewhere pid.toNat argSlot (Or.inr ⟨rfl, rfl⟩)
      rw [sameTable] at other
      simpa [table] using other
    refine ⟨final.congr rfl rfl fun row i => ?_, ((finalVm.trans thirdVm).trans secondVm).trans vm,
      ?_, ?_, ?_, ?_, ?_, ?_⟩
    · -- Four pages and two more are all of them.
      have all : row = pid.toNat → (maps row i ∨ i = argSlot) ∨ i = stackSlot := by
        rintro rfl
        rw [code]
        revert i
        decide
      constructor
      · rintro (earlier | same)
        · exact Or.inl (Or.inl earlier)
        · rcases all same with (earlier | here) | there
          · exact Or.inl (Or.inl earlier)
          · exact Or.inl (Or.inr ⟨same, here⟩)
          · exact Or.inr ⟨same, there⟩
      · rintro ((earlier | ⟨same, -⟩) | ⟨same, -⟩)
        · exact Or.inl earlier
        · exact Or.inr same
        · exact Or.inr same
    · rw [argEntry, finalRam, lastRam]
      simp [apart]
    · rw [stackEntry, finalRam, lastRam]
      simp
    · intro other notArgs notStack
      rw [argEntry] at notArgs
      rw [stackEntry] at notStack
      rw [finalRam, lastRam, if_pos rfl, Function.update_of_ne notStack]
      change Function.update second.ram addr _ other = _
      rw [Function.update_of_ne notArgs, ram, cleared, if_pos rfl, Function.update_of_ne notArgs]
    · intro other j lower
      rw [finalTable, update_mapping_of_ne, sameTable]
      · change second.appPages other j = _
        rw [table, update_mapping_of_ne, firstTable]
        rintro ⟨same, rfl⟩
        exact lower ⟨same, Nat.le_refl _⟩
      · rintro ⟨same, rfl⟩
        exact lower ⟨same, Nat.le_succ _⟩
    · rw [finalRows]
      exact List.mem_cons_self
    · intro other member
      rw [finalRows, thirdRows] at member
      rcases List.mem_cons.mp member with same | later
      · exact Or.inl same
      · change other ∈ second.rows at later
        rw [secondRows, firstRows] at later
        exact List.mem_cons.mp later

/-- An executable with a single segment that is loaded as an application and fits. -/
structure Program (reader : Nat → Block) : Prop where
  single : ePhnum (reader 0) = 1
  entry : (pheader (reader 0)).pVaddr = appsEntry
  fits : (pheader (reader 0)).pFilesz ≤ appsSize

/-- The mappings for code are new ones. -/
theorem CodePages.allocates {first : Memory} {paddrs : List Nat} {count : Nat}
    (pages : CodePages memory first pid.toNat count paddrs) (accounted : Accounted memory maps none)
    (reached : Accounted first (fun row i => maps row i ∨ row = pid.toNat ∧ i.val < count) none)
    (free : ∀ i, ¬ maps pid.toNat i) (few : count ≤ appsNpages) {after : Memory}
    (tables : SameTables first after)
    (kept : ∀ addr, pageOf addr ∉ paddrs → readByte after.ram addr = readByte first.ram addr) :
    Allocates memory after pid.toNat count := by
  -- A page that is mapped now, and was not before, had been free.
  constructor
  · intro i below
    rw [tables.table]
    apply accounted.fresh reached _ (Or.inr ⟨rfl, below⟩) (free i)
    intro row j mapped
    refine ⟨Or.inl mapped, congrArg PageMapping.privateAddr (pages.older row j ?_)⟩
    rintro ⟨rfl, -⟩
    exact free j mapped
  · intro addr outside
    have elsewhere : pageOf addr ∉ paddrs := by
      intro member
      obtain ⟨k, below, same⟩ := List.mem_iff_getElem.mp member
      have low : k < count := pages.length ▸ below
      have own := pages.own ⟨k, Nat.lt_of_lt_of_le low few⟩ low
      rw [List.getElem?_eq_getElem below, Option.some.injEq, same] at own
      have apart := outside ⟨k, Nat.lt_of_lt_of_le low few⟩ low
      rw [tables.table] at apart
      exact apart own
    rw [kept addr elsewhere, readByte, readByte, pages.kept _ elsewhere]

/-- A program that has been loaded fills the row of its process, with the segment in the pages for
code and the arguments in the page for them, and memory has changed nowhere else. -/
structure LoadedProgram (memory after : Memory) (maps : Nat → Fin appsNpages → Prop) (pid : Int)
    (reader : Nat → Block) (args : Page) : Prop where
  accounted : Accounted after (fun row i => maps row i ∨ row = pid.toNat) none
  vm : after.currVmPid = memory.currVmPid
  arguments : after.ram (after.appPages pid.toNat argSlot).privateAddr = args
  stack : after.ram (after.appPages pid.toNat stackSlot).privateAddr = Buffer.zero _
  image : ∀ (i : Fin appsNpages) (k : Nat), i.val < appsSize / pageSize → k < pageSize →
    readByte after.ram ((after.appPages pid.toNat i).privateAddr + k) =
      if i.val * pageSize + k < (pheader (reader 0)).pFilesz then
        fileByte reader ((pheader (reader 0)).pOffset / blockSize * blockSize +
          (i.val * pageSize + k))
      else 0
  allocates : Allocates memory after pid.toNat appsNpages
  looked : pid.toNat ∈ after.rows
  rows : ∀ row ∈ after.rows, row = pid.toNat ∨ row ∈ memory.rows

/-- The pages for arguments finish a program whose image is complete. -/
theorem Image.ends_mapArgs {first third : Memory} {paddrs : List Nat} {reader : Nat → Block}
    (accounted : Accounted memory maps none) (known : pid > 0 ∧ pid ≤ (maxNprocess : Int))
    (free : ∀ i, ¬ maps pid.toNat i)
    (reached : Accounted first
      (fun row i => maps row i ∨ row = pid.toNat ∧ i.val < appsSize / pageSize) none)
    (vm : first.currVmPid = memory.currVmPid)
    (pages : CodePages memory first pid.toNat (appsSize / pageSize) paddrs)
    (image : Image reader paddrs ((pheader (reader 0)).pOffset / blockSize)
      (pheader (reader 0)).pFilesz first third) (argc : Int) (argv : Option (List UInt8)) :
    Ends (mapArgs pid argc argv) (fun _ after =>
      LoadedProgram memory after maps pid reader (argPage argc argv (Buffer.zero _)))
      (fun _ _ => False) third := by
  have tables := image.tables
  have code : Accounted third
      (fun row i => maps row i ∨ row = pid.toNat ∧ i.val < appsSize / pageSize) none :=
    reached.congr tables.bitmap tables.table fun _ _ => Iff.rfl
  have slots : ∀ i : Fin appsNpages, (maps pid.toNat i ∨ pid.toNat = pid.toNat ∧
      i.val < appsSize / pageSize) ↔ i.val < appsSize / pageSize := by
    intro i
    constructor
    · rintro (full | ⟨-, lower⟩)
      · exact absurd full (free i)
      · exact lower
    · intro lower
      exact Or.inr ⟨rfl, lower⟩
  refine (Elf.ends_mapArgs code known slots argc argv).imp (fun _ after loaded => ?_)
    (fun _ _ => id)
  obtain ⟨final, finalVm, args⟩ := loaded
  have settled : Accounted after (fun row i => maps row i ∨ row = pid.toNat) none := by
    refine final.congr rfl rfl fun row i => ?_
    constructor
    · rintro (earlier | same)
      · exact Or.inl (Or.inl earlier)
      · exact Or.inr same
    · rintro ((earlier | ⟨same, -⟩) | same)
      · exact Or.inl earlier
      · exact Or.inr same
      · exact Or.inr same
  -- The pages for code keep their mappings, and have other addresses than the last two.
  have entry : ∀ i : Fin appsNpages, i.val < appsSize / pageSize →
      after.appPages pid.toNat i = third.appPages pid.toNat i := by
    intro i low
    exact args.older _ i fun above => Nat.lt_irrefl _ (Nat.lt_of_lt_of_le low above.2)
  have apart : ∀ i j : Fin appsNpages, i ≠ j → (after.appPages pid.toNat i).privateAddr ≠
      (after.appPages pid.toNat j).privateAddr := by
    intro i j different same
    exact different (settled.apart _ i _ j (Or.inr rfl) (Or.inr rfl) same).2
  have older : ∀ row i, maps row i → after.appPages row i = memory.appPages row i := by
    intro row i mapped
    have other : row ≠ pid.toNat := by
      rintro rfl
      exact free i mapped
    rw [args.older row i fun above => other above.1, tables.table,
      pages.older row i fun low => other low.1]
  refine ⟨settled, (finalVm.trans tables.vm).trans vm, args.arguments, args.stack, ?_, ⟨?_, ?_⟩,
    args.looked, ?_⟩
  · intro i k low inside
    obtain ⟨-, frame, -, own, -⟩ := code.filled pid.toNat i (Or.inr ⟨rfl, low⟩)
    have aligned : (third.appPages pid.toNat i).privateAddr % pageSize = 0 := by
      rw [own]
      exact pageAddr_aligned frame
    -- The byte is where the image has it.
    have place : target paddrs (i.val * pageSize + k) =
        (third.appPages pid.toNat i).privateAddr + k := by
      have index : (i.val * pageSize + k) / pageSize = i.val := by
        simp only [pageSize] at inside ⊢
        omega
      have offset : (i.val * pageSize + k) % pageSize = k := by
        simp only [pageSize] at inside ⊢
        omega
      rw [target, index, offset, pages.own i low, tables.table]
      rfl
    have byte := image.bytes (i.val * pageSize + k) (by
      simp only [appsSize, pageSize] at low inside ⊢
      omega)
    obtain ⟨here, column⟩ := pageOf_add aligned inside
    have notArgs : i ≠ argSlot := by
      rintro rfl
      exact absurd low (by decide)
    have notStack : i ≠ stackSlot := by
      rintro rfl
      exact absurd low (by decide)
    have same := args.kept _ (apart i argSlot notArgs) (apart i stackSlot notStack)
    rw [place] at byte
    rw [entry i low] at same ⊢
    rw [← byte, readByte, readByte, here, column, same]
  · intro i _
    apply accounted.fresh settled _ (Or.inr rfl) (free i)
    intro row j mapped
    exact ⟨Or.inl mapped, congrArg PageMapping.privateAddr (older row j mapped)⟩
  · intro addr outside
    have codeKept := (pages.allocates accounted reached free (by decide) tables image.kept).kept
    rw [readByte, args.kept _ (outside argSlot argSlot.isLt) (outside stackSlot stackSlot.isLt)]
    apply codeKept
    intro i low
    rw [← entry i low]
    exact outside i i.isLt
  · intro row member
    rcases args.rows row member with same | later
    · exact Or.inl same
    · rw [tables.rows] at later
      exact pages.rows row later

/-- Loading a program that fits succeeds. -/
theorem ends_elfLoad (accounted : Accounted memory maps none)
    (known : pid > 0 ∧ pid ≤ (maxNprocess : Int)) (free : ∀ i, ¬ maps pid.toNat i)
    {reader : Nat → Block} (program : Program reader) (argc : Int)
    (argv : Option (List UInt8)) :
    Ends (elfLoad pid reader argc argv) (fun _ after =>
      LoadedProgram memory after maps pid reader (argPage argc argv (Buffer.zero _)))
      (fun _ _ => False) memory := by
  unfold elfLoad
  have other : appsEntry ≠ grassEntry := by decide
  rw [ends_bind, ends_assert, if_pos program.single, program.entry, if_neg other, if_pos rfl]
  unfold loadApp
  rw [ends_bind]
  refine (ends_mapCode accounted known free _ (Nat.le_refl _)).imp (fun paddrs first mapped => ?_)
    (fun _ _ => id)
  obtain ⟨reached, vm, pages⟩ := mapped
  have frames := pages.frames reached fun i low => Or.inr ⟨rfl, low⟩
  rw [ends_bind]
  refine (ends_loadCode frames pages.blank reader program.fits _).imp
    (fun pageIdx second done => ?_) (fun _ _ => id)
  obtain ⟨whenPartly, whenFull⟩ := done
  -- The pages for arguments come behind a complete image.
  by_cases partly : (pheader (reader 0)).pFilesz % pageSize ≠ 0
  · simp only [if_pos partly]
    rw [ends_bind, storeBytes, ends_modify]
    exact (whenPartly partly).ends_mapArgs accounted known free reached vm pages argc argv
  · simp only [if_neg partly]
    exact (whenFull (not_not.mp partly)).ends_mapArgs accounted known free reached vm pages argc
      argv

end Loading

/-- A page on which a program finds its arguments. -/
structure ArgumentsAt (page : Page) (args : List (List UInt8)) : Prop where
  count : page.word 0 = args.length
  inside : ∀ i (_ : i < args.length), appsArg ≤ page.word (1 + i) ∧
    page.word (1 + i) + args[i].length < appsArg + pageSize
  stored : ∀ i (_ : i < args.length) k (_ : k < args[i].length),
    page.byte (page.word (1 + i) - appsArg + k) = args[i][k].toNat
  ended : ∀ i (_ : i < args.length),
    page.byte (page.word (1 + i) - appsArg + args[i].length) = 0

/-- Storing the pointers fills the words for them and no others. -/
theorem pointers_stored (page : Page) : ∀ count ≤ cmdNargs,
    (∀ i < count, ((List.range count).foldl
      (fun page i => page.setWord (1 + i) (argPointer i)) page).word (1 + i) = argPointer i) ∧
    ∀ at_ < pageSize, at_ < 4 ∨ 4 + 4 * cmdNargs ≤ at_ → ((List.range count).foldl
      (fun page i => page.setWord (1 + i) (argPointer i)) page).byte at_ = page.byte at_ := by
  -- Each pointer has a word of its own, before the slots of the arguments.
  intro count
  induction count with
  | zero => exact fun _ => ⟨by simp, by simp⟩
  | succ count ih =>
    intro few
    obtain ⟨words, bytes⟩ := ih (by omega)
    simp only [cmdNargs] at few
    simp only [List.range_succ, List.foldl_append, List.foldl_cons, List.foldl_nil]
    constructor
    · intro i below
      rcases Nat.lt_succ_iff_lt_or_eq.mp below with earlier | same
      · rw [Buffer.word_setWord_ne _ _ (by simp only [pageSize]; omega) (by omega)]
        exact words i earlier
      · subst same
        rw [Buffer.word_setWord_same _ _ (by simp only [pageSize]; omega), Nat.mod_eq_of_lt]
        simp only [argPointer, appsArg, cmdNargs, cmdArgLen]
        omega
    · intro at_ inside outside
      rw [Buffer.byte_setWord _ _ _ _ inside, if_neg (by simp only [cmdNargs] at outside; omega)]
      exact bytes at_ inside outside

/-- A page with the slots of some arguments on it is one on which a program finds them. -/
theorem argPage_holds {args : List (List UInt8)} (few : args.length ≤ cmdNargs)
    (short : ∀ arg ∈ args, arg.length < cmdArgLen) {argv : List UInt8}
    (cells : ∀ i (_ : i < args.length), ∀ k < cmdArgLen,
      argv[cmdArgLen * i + k]? = some (args[i][k]?.getD 0)) :
    ArgumentsAt (argPage args.length (some argv) (Buffer.zero _)) args := by
  obtain ⟨words, bytes⟩ := pointers_stored
    (((Buffer.zero pageSize).setWord 0 args.length).splice (4 + 4 * cmdNargs)
      (argv.take (args.length * cmdArgLen))) args.length few
  have page : argPage args.length (some argv) (Buffer.zero _) =
      (List.range args.length).foldl (fun page i => page.setWord (1 + i) (argPointer i))
        (((Buffer.zero pageSize).setWord 0 args.length).splice (4 + 4 * cmdNargs)
          (argv.take (args.length * cmdArgLen))) := by
    have small : ((args.length : Int) % 2 ^ 32).toNat = args.length := by
      simp only [cmdNargs] at few
      omega
    simp only [argPage, small, Int.toNat_natCast]
  rw [← page] at words bytes
  -- Every cell of a slot is where the pointer to the slot says.
  have slots : ∀ i (_ : i < args.length), ∀ k < cmdArgLen,
      (argPage args.length (some argv) (Buffer.zero _)).byte (argPointer i - appsArg + k) =
        (args[i][k]?.getD 0).toNat := by
    intro i below k column
    have whole := cells i below k column
    simp only [cmdNargs, cmdArgLen] at few column whole
    have place : argPointer i - appsArg + k = 4 + 4 * cmdNargs + (32 * i + k) := by
      simp only [argPointer, cmdNargs, cmdArgLen]
      omega
    obtain ⟨inside, here⟩ := List.getElem?_eq_some_iff.mp whole
    have copied : 32 * i + k < (argv.take (args.length * cmdArgLen)).length := by
      simp only [List.length_take, cmdArgLen]
      omega
    rw [place, bytes _ (by simp only [cmdNargs, pageSize]; omega) (Or.inr (by omega)),
      Buffer.byte_splice_inside _ copied (by simp only [cmdNargs, pageSize]; omega),
      List.getElem_take, here]
  have lengths : ∀ i (_ : i < args.length), args[i].length < cmdArgLen := fun i below =>
    short _ (List.getElem_mem below)
  refine ⟨?_, ?_, ?_, ?_⟩
  · have first : ∀ at_ < 4, (argPage args.length (some argv) (Buffer.zero _)).byte at_ =
        ((Buffer.zero pageSize).setWord 0 args.length).byte at_ := by
      intro at_ low
      rw [bytes at_ (by simp only [pageSize]; omega) (Or.inl low),
        Buffer.byte_splice_outside _ (Or.inl (by simp only [cmdNargs]; omega))]
    have word := Buffer.word_setWord_same (Buffer.zero pageSize) args.length
      (show 4 * 0 + 4 ≤ pageSize by decide)
    rw [Nat.mod_eq_of_lt (by simp only [cmdNargs] at few; omega)] at word
    refine Eq.trans ?_ word
    simp only [Buffer.word]
    rw [first _ (by omega), first _ (by omega), first _ (by omega), first _ (by omega)]
  · intro i below
    have length := lengths i below
    rw [words i below]
    simp only [argPointer, cmdNargs, cmdArgLen, pageSize] at few length ⊢
    omega
  · intro i below k column
    rw [words i below, slots i below k (Nat.lt_trans column (lengths i below)),
      List.getElem?_eq_getElem column]
    rfl
  · intro i below
    rw [words i below, slots i below _ (lengths i below), List.getElem?_eq_none (Nat.le_refl _)]
    rfl

end Egos.Elf
