import Egos.Earth.Tables
import Egos.Elf.Pages

/-! The segment of an application in its address space: the image and the memory behind it. -/

namespace Egos.Elf

open Egos.Earth
open Egos.Grass (maxNprocess gpidProcess idx2pid)
open Egos.Treedisk (blockSize Block)

/-- The states in which an application is loaded, and its pid, which has a row in every table. -/
inductive Loader : Memory → Int → Prop
  -- The kernel loads the process server before anything else runs.
  | boot (ram : Nat → Page) : Loader ⟨Buffer.zero _, ram, fun _ _ => .null, -1, []⟩ gpidProcess
  -- The process server has allocated a process for the application.
  | spawn {ram : Nat → Page} {machine : Machine} {history : List Grass.Event} {pid : Int}
    (reached : Machine.Reaches (fun m call => m.Permitted call ∧ m.Roomy call) ram machine history)
    (job : machine.job = .loading pid 0 none) : Loader machine.memory pid

/-- The reader returns the blocks of a file, with anything behind its end. -/
def Reads (file : List UInt8) (reader : Nat → Block) : Prop :=
  ∀ n byte, file[n]? = some byte → fileByte reader n = byte

/-- The size in memory of the segment. -/
def pMemsz (buf : Block) : Nat := long buf (long buf 28 + 20)

/-- A byte of a process that runs comes back whenever the process runs again, as long as nobody
changes the pages that the process owns in between. -/
def Restored (memory : Memory) (pid : Int) (addr : Nat) : Prop :=
  ∀ (run : Nat → Page) (other : Int), other ≠ pid → other > 0 ∧ other ≤ (maxNprocess : Int) →
    Ends (softTlbSwitch other) (fun _ away => ∀ ram : Nat → Page,
      (∀ i, memory.owns pid.toNat i → ram (memory.appPages pid.toNat i).privateAddr =
        away.ram (memory.appPages pid.toNat i).privateAddr) →
      Ends (softTlbSwitch pid) (fun _ back => readByte back.ram addr = readByte run addr)
        (fun _ _ => False) { away with ram := ram })
      (fun _ _ => False) { memory with ram := run }

/-- A byte of a program's static memory is private to its process. -/
structure StaticByte (memory : Memory) (pid : Int) (pFilesz k : Nat) : Prop where
  mapped : memory.hasPage pid (pageOf (appsEntry + k))
  starts : pFilesz ≤ k → readByte memory.ram (appsEntry + k) = 0
  restored : Restored memory pid (appsEntry + k)

section Image

variable {memory : Memory} {maps : Nat → Fin appsNpages → Prop} {pid : Int}

/-- What loading an application relies on. -/
structure Loadable (memory : Memory) (maps : Nat → Fin appsNpages → Prop) (pid : Int) : Prop where
  accounted : Accounted memory maps none
  known : pid > 0 ∧ pid ≤ (maxNprocess : Int)
  free : ∀ i, ¬ maps pid.toNat i
  other : pid ≠ memory.currVmPid
  ran : memory.currVmPid ≤ (maxNprocess : Int)

/-- Applications are loaded for processes that have no pages and do not run. -/
theorem Loader.loadable (loader : Loader memory pid) : ∃ maps, Loadable memory maps pid := by
  cases loader with
  | boot ram =>
    have other : gpidProcess ≠ -1 := by decide
    have ran : (-1 : Int) ≤ (maxNprocess : Int) := by decide
    refine ⟨fun _ _ => False, ?_, by decide, fun _ => id, other, ran⟩
    refine ⟨by simp, fun _ _ _ => rfl, by simp, ?_, by simp, by simp⟩
    intro page _ marked
    rw [bitmapTest, Buffer.testBit_zero] at marked
    cases marked
  | spawn reached job =>
    rename_i machine _
    have sound := Machine.reaches_sound reached
    obtain ⟨idx, rfl, status, -, -⟩ := sound.loads pid 0 none job
    have accounted := sound.accounted
    rw [job, Job.hand] at accounted
    refine ⟨machine.maps, accounted, Machine.idx2pid_known idx, ?_, ?_, ?_⟩
    · intro i
      rw [Machine.maps_idx2pid]
      simp [Machine.mapped, status, job, Job.mapped]
    · -- The process that is being loaded is not the one that runs.
      rw [sound.vm, sound.formed.curr]
      intro same
      have runs := (sound.alone idx).mpr (Grass.idx2pid_inj.mp same)
      rw [status] at runs
      cases runs
    · rw [sound.vm, sound.formed.curr]
      exact (Machine.idx2pid_known _).2

/-- The page and the place in it of a byte of the segment. -/
theorem execAddrOf_code {i : Nat} (inside : i < appsSize) :
    ∃ slot : Fin appsNpages, slot.val = i / pageSize ∧ slot.val < appsSize / pageSize ∧
      pageOf (appsEntry + i) = execAddrOf slot ∧ (appsEntry + i) % pageSize = i % pageSize := by
  have low : i / pageSize < appsSize / pageSize := by
    simp only [appsSize, pageSize] at inside ⊢
    omega
  refine ⟨⟨i / pageSize, Nat.lt_add_right 2 low⟩, rfl, low, ?_, ?_⟩
  · rw [execAddrOf, if_pos low]
    simp only [pageOf, pageSize, appsEntry]
    omega
  · simp only [pageSize, appsEntry]
    omega

/-- A program that has been loaded finds its segment in place when it runs, with zeros behind. -/
theorem Loadable.image (loadable : Loadable memory maps pid) {reader : Nat → Block}
    (program : Program reader) (argc : Int) (argv : Option (List UInt8)) :
    Ends (elfLoad pid reader argc argv) (fun _ loaded => Ends (softTlbSwitch pid) (fun _ after =>
      Accounted after (fun row i => maps row i ∨ row = pid.toNat) none ∧ after.currVmPid = pid ∧
      ∀ i < appsSize, readByte after.ram (appsEntry + i) =
        if i < (pheader (reader 0)).pFilesz then
          fileByte reader ((pheader (reader 0)).pOffset / blockSize * blockSize + i)
        else 0) (fun _ _ => False) loaded) (fun _ _ => False) memory := by
  obtain ⟨accounted, known, free, other, ran⟩ := loadable
  refine (ends_elfLoad accounted known free program argc argv).imp (fun _ loaded done => ?_)
    (fun _ _ => id)
  have final := done.accounted
  have vm := done.vm
  refine (final.softTlbSwitch known (by rw [vm]; exact ran)).imp (fun _ after switched => ?_)
    (fun _ _ => id)
  refine ⟨final.congr switched.bitmap switched.table fun _ _ => Iff.rfl, switched.vm, ?_⟩
  intro i inside
  obtain ⟨slot, index, low, page, offset⟩ := execAddrOf_code inside
  have column : i % pageSize < pageSize := Nat.mod_lt _ (by decide)
  have brought := switched.brought (by rw [vm]; exact other) slot (Or.inr rfl)
  have byte := done.image slot (i % pageSize) low column
  -- The page has come from where the loader has filled it.
  obtain ⟨-, frame, -, own, -⟩ := final.filled pid.toNat slot (Or.inr rfl)
  have aligned : (loaded.appPages pid.toNat slot).privateAddr % pageSize = 0 := by
    rw [own]
    exact pageAddr_aligned frame
  obtain ⟨here, there⟩ := pageOf_add aligned column
  have whole : slot.val * pageSize + i % pageSize = i := by
    rw [index, Nat.mul_comm, Nat.div_add_mod]
  rw [whole, readByte, here, there, ← brought] at byte
  rw [readByte, page, offset, byte]

/-- A segment that is too large stops the loader, which has only filled the pages for code. -/
theorem Loadable.stops (loadable : Loadable memory maps pid) {reader : Nat → Block}
    (single : ePhnum (reader 0) = 1) (entry : (pheader (reader 0)).pVaddr = appsEntry)
    (large : appsSize < (pheader (reader 0)).pFilesz) (argc : Int)
    (argv : Option (List UInt8)) :
    Ends (elfLoad pid reader argc argv) (fun _ _ => False)
      (fun error after => error = "[ASSERT FAILED]app is larger than APPS_SIZE" ∧
        Allocates memory after pid.toNat (appsSize / pageSize)) memory := by
  obtain ⟨accounted, known, free, -, -⟩ := loadable
  have other : appsEntry ≠ grassEntry := by decide
  unfold elfLoad
  rw [ends_bind, ends_assert, if_pos single, entry, if_neg other, if_pos rfl]
  unfold loadApp
  rw [ends_bind]
  refine (ends_mapCode accounted known free _ (Nat.le_refl _)).imp (fun paddrs first mapped => ?_)
    (fun _ _ => False.elim)
  obtain ⟨reached, -, pages⟩ := mapped
  have frames := pages.frames reached fun i low => Or.inr ⟨rfl, low⟩
  rw [ends_bind]
  have loop := ends_copyBlocks frames reader ((pheader (reader 0)).pOffset / blockSize)
    (pheader (reader 0)).pFilesz first ((pheader (reader 0)).pFilesz / blockSize + 1) 0 (-1)
    first rfl (by decide)
    (Nat.lt_add_left _ (by decide)) (by decide) ⟨⟨rfl, rfl, rfl, rfl⟩, by simp, fun _ _ => rfl⟩
  refine loop.imp (fun last second done => ?_) (fun _ after stopped => ?_)
  · -- The loop cannot come to its end.
    obtain ⟨reached, top, -, -, -, -, enough⟩ := done
    have all := enough (by simp only [blockSize]; omega)
    omega
  · obtain ⟨named, -, filled⟩ := stopped
    refine ⟨named, pages.allocates accounted reached free (by decide) filled.tables ?_⟩
    exact fun addr outside => filled.kept addr fun i below => frames.target_ne outside below

/-- Loading an application makes its image if the segment fits, and otherwise stops; either way
memory changes only in pages that nobody had before: in the four for the code, and in the two behind
them, which hold the arguments and nothing. -/
theorem load_app_builds_image (loader : Loader memory pid) {file : List UInt8}
    {reader : Nat → Block} (reads : Reads file reader) (single : ePhnum (reader 0) = 1)
    (entry : (pheader (reader 0)).pVaddr = appsEntry)
    (aligned : (pheader (reader 0)).pOffset % blockSize = 0) (argc : Int)
    (argv : Option (List UInt8)) :
    ((pheader (reader 0)).pFilesz ≤ appsSize →
      Ends (elfLoad pid reader argc argv) (fun _ loaded => Ends (softTlbSwitch pid) (fun _ after =>
        (∀ i < (pheader (reader 0)).pFilesz, ∀ byte,
          file[(pheader (reader 0)).pOffset + i]? = some byte →
            readByte after.ram (appsEntry + i) = byte) ∧
        ∀ i, (pheader (reader 0)).pFilesz ≤ i → i < appsSize →
          readByte after.ram (appsEntry + i) = 0) (fun _ _ => False) loaded)
        (fun _ _ => False) memory) ∧
    (appsSize < (pheader (reader 0)).pFilesz →
      Ends (elfLoad pid reader argc argv) (fun _ _ => False)
        (fun error _ => error = "[ASSERT FAILED]app is larger than APPS_SIZE") memory) ∧
    Ends (elfLoad pid reader argc argv)
      (fun _ after => Allocates memory after pid.toNat appsNpages ∧
        after.ram (after.appPages pid.toNat argSlot).privateAddr =
          argPage argc argv (Buffer.zero _) ∧
        after.ram (after.appPages pid.toNat stackSlot).privateAddr = Buffer.zero _)
      (fun _ after => Allocates memory after pid.toNat (appsSize / pageSize)) memory := by
  obtain ⟨maps, loadable⟩ := loader.loadable
  refine ⟨fun fits => ?_, fun large => ?_, ?_⟩
  · refine (loadable.image ⟨single, entry, fits⟩ argc argv).imp (fun _ loaded switches => ?_)
      (fun _ _ => id)
    refine switches.imp (fun _ after done => ?_) (fun _ _ => id)
    obtain ⟨-, -, image⟩ := done
    -- The segment starts with a block.
    have start : (pheader (reader 0)).pOffset / blockSize * blockSize =
        (pheader (reader 0)).pOffset := Nat.div_mul_cancel (Nat.dvd_of_mod_eq_zero aligned)
    rw [start] at image
    constructor
    · intro i inside byte found
      rw [image i (Nat.lt_of_lt_of_le inside fits), if_pos inside]
      exact reads _ _ found
    · intro i behind inside
      rw [image i inside, if_neg (Nat.not_lt.mpr behind)]
  · exact (loadable.stops single entry large argc argv).imp (fun _ _ => id)
      (fun _ _ stopped => stopped.1)
  · -- A segment that fits is loaded as a whole, and any other stops behind the fourth page.
    by_cases fits : (pheader (reader 0)).pFilesz ≤ appsSize
    · refine (ends_elfLoad loadable.accounted loadable.known loadable.free ⟨single, entry, fits⟩
        argc argv).imp (fun _ after done => ?_) (fun _ _ => False.elim)
      exact ⟨done.allocates, done.arguments, done.stack⟩
    · exact (loadable.stops single entry (Nat.not_le.mp fits) argc argv).imp
        (fun _ _ => False.elim) (fun _ _ stopped => stopped.2)

/-- Switching away saves a mapped page, and switching back brings it again. -/
theorem restored_of_mapped (accounted : Accounted memory maps none)
    (known : pid > 0 ∧ pid ≤ (maxNprocess : Int)) (vm : memory.currVmPid = pid)
    {i : Fin appsNpages} (mapped : maps pid.toNat i) {addr : Nat}
    (page : pageOf addr = execAddrOf i) : Restored memory pid addr := by
  intro run other different inside
  have running : Accounted { memory with ram := run } maps none :=
    accounted.congr rfl rfl fun _ _ => Iff.rfl
  refine (running.softTlbSwitch inside (vm ▸ known.2)).imp (fun _ away left => ?_) (fun _ _ => id)
  intro ram kept
  have waiting : Accounted { away with ram := ram } maps none :=
    accounted.congr left.bitmap left.table fun _ _ => Iff.rfl
  refine (waiting.softTlbSwitch known (left.vm ▸ inside.2)).imp (fun _ back returned => ?_)
    (fun _ _ => id)
  have table : away.appPages = memory.appPages := left.table
  have brought := returned.brought (left.vm ▸ different.symm) i mapped
  have saved := left.saved (vm ▸ different) (vm ▸ known.1) i (vm ▸ mapped)
  simp only [table, vm] at brought saved
  -- The page has gone to the one that the process owns, and has come back from there.
  have same : back.ram (execAddrOf i) = run (execAddrOf i) := by
    rw [brought, kept i (accounted.private_ne mapped), saved]
  rw [readByte, readByte, page, same]

/-- What the loader accepts is a program. -/
theorem Loadable.program (loadable : Loadable memory maps pid) {reader : Nat → Block}
    (entry : (pheader (reader 0)).pVaddr = appsEntry) {argc : Int} {argv : Option (List UInt8)}
    {loaded : Memory} (accepted : elfLoad pid reader argc argv memory = .ok () loaded) :
    Program reader := by
  have single : ePhnum (reader 0) = 1 := by
    by_contra several
    have stops : Ends (elfLoad pid reader argc argv) (fun _ _ => False) (fun _ _ => True)
        memory := by
      unfold elfLoad
      rw [ends_bind, ends_assert, if_neg several]
      trivial
    exact stops.ok accepted
  refine ⟨single, entry, ?_⟩
  by_contra large
  exact (loadable.stops single entry (Nat.not_le.mp large) argc argv).ok accepted

/-- The static memory of a program is private up to the end of the pages for code. -/
theorem Loadable.static (loadable : Loadable memory maps pid) {reader : Nat → Block}
    (entry : (pheader (reader 0)).pVaddr = appsEntry) {argc : Int} {argv : Option (List UInt8)}
    {loaded : Memory} (accepted : elfLoad pid reader argc argv memory = .ok () loaded) :
    Ends (softTlbSwitch pid) (fun _ after =>
      (∀ k < appsSize, StaticByte after pid (pheader (reader 0)).pFilesz k) ∧
      ¬ StaticByte after pid (pheader (reader 0)).pFilesz appsSize) (fun _ _ => False) loaded := by
  -- The page behind those for code is none of the pages that a process has.
  have switches := (loadable.image (loadable.program entry accepted) argc argv).ok accepted
  refine switches.imp (fun _ after done => ?_) (fun _ _ => id)
  obtain ⟨accounted, vm, image⟩ := done
  constructor
  · intro k inside
    obtain ⟨slot, -, -, page, -⟩ := execAddrOf_code inside
    refine ⟨⟨slot, accounted.private_ne (Or.inr rfl), ?_⟩, fun behind => ?_, ?_⟩
    · rw [page]
      exact (accounted.filled _ slot (Or.inr rfl)).1
    · rw [image k inside, if_neg (Nat.not_lt.mpr behind)]
    · exact restored_of_mapped accounted loadable.known vm (Or.inr rfl) page
  · rintro ⟨⟨i, owned, place⟩, -, -⟩
    have mapped := (accounted.maps_iff pid.toNat i).mpr owned
    rw [(accounted.filled _ i mapped).1] at place
    have elsewhere : ∀ slot : Fin appsNpages, execAddrOf slot ≠ pageOf (appsEntry + appsSize) := by
      decide
    exact elsewhere i place

/-- The static memory of a program is private exactly if it fits on the pages for code. -/
theorem static_memory_private_iff (loader : Loader memory pid) {reader : Nat → Block}
    (entry : (pheader (reader 0)).pVaddr = appsEntry) {argc : Int} {argv : Option (List UInt8)}
    {loaded : Memory} (accepted : elfLoad pid reader argc argv memory = .ok () loaded) :
    Ends (softTlbSwitch pid) (fun _ after =>
      (∀ k < pMemsz (reader 0), StaticByte after pid (pheader (reader 0)).pFilesz k) ↔
        pMemsz (reader 0) ≤ appsSize) (fun _ _ => False) loaded := by
  obtain ⟨maps, loadable⟩ := loader.loadable
  refine (loadable.static entry accepted).imp (fun _ after done => ?_) (fun _ _ => id)
  obtain ⟨inside, outside⟩ := done
  constructor
  · intro every
    by_contra large
    exact outside (every appsSize (Nat.not_le.mp large))
  · intro fits k below
    exact inside k (Nat.lt_of_lt_of_le below fits)

end Image

/-- The blocks of a file, with a filler behind its end. -/
def readerOf (file : List UInt8) (block : Nat) : Block :=
  Vector.ofFn fun k => file[block * blockSize + k.val]?.getD 0xFF

/-- The blocks of a file are those that a reader returns. -/
theorem reads_readerOf (file : List UInt8) : Reads file (readerOf file) := by
  intro n byte found
  have inside : n % blockSize < blockSize := Nat.mod_lt _ (by decide)
  simp [fileByte, readerOf, Nat.div_add_mod', found, inside]

/-- The header of a small executable: the place and the number of its program headers, and the
place, the address and the sizes in the file and in memory of its segment. -/
def sampleByte (size : UInt8) : Nat → UInt8
  | 28 => 52
  | 44 => 1
  | 57 => 2
  | 62 => 0x40
  | 63 => 0x80
  | 68 => 3
  | 73 => size
  | _ => 0

/-- A small executable with three bytes of code. -/
def sampleFile (size : UInt8) : List UInt8 :=
  (List.range blockSize).map (sampleByte size) ++ [1, 2, 3]

/-- The numbers in the first block of an executable. -/
theorem long_header (byte : Nat → UInt8) (rest : List UInt8) {k : Nat} (inside : k + 3 < blockSize) :
    half (readerOf ((List.range blockSize).map byte ++ rest) 0) k =
      (byte k).toNat + 256 * (byte (k + 1)).toNat ∧
    long (readerOf ((List.range blockSize).map byte ++ rest) 0) k =
      (byte k).toNat + 256 * (byte (k + 1)).toNat +
        65536 * ((byte (k + 2)).toNat + 256 * (byte (k + 3)).toNat) := by
  have here : ∀ at_ < blockSize,
      (readerOf ((List.range blockSize).map byte ++ rest) 0).byte at_ = (byte at_).toNat := by
    intro at_ low
    simp [Buffer.byte, readerOf, List.getElem?_append_left, low]
  simp only [long, half]
  rw [here k (by omega), here (k + 1) (by omega), here (k + 2) (by omega),
    here (k + 2 + 1) (by omega)]
  exact ⟨rfl, rfl⟩

/-- The numbers in the header of the small executable. -/
theorem long_sampleFile (size : UInt8) {k : Nat} (inside : k + 3 < blockSize) :
    half (readerOf (sampleFile size) 0) k =
      (sampleByte size k).toNat + 256 * (sampleByte size (k + 1)).toNat ∧
    long (readerOf (sampleFile size) 0) k =
      (sampleByte size k).toNat + 256 * (sampleByte size (k + 1)).toNat +
        65536 * ((sampleByte size (k + 2)).toNat + 256 * (sampleByte size (k + 3)).toNat) :=
  long_header (sampleByte size) [1, 2, 3] inside

/-- The small executable is an application with three bytes. -/
theorem sampleFile_header (size : UInt8) :
    ePhnum (readerOf (sampleFile size) 0) = 1 ∧
      pheader (readerOf (sampleFile size) 0) = ⟨512, appsEntry, 3⟩ ∧
      pMemsz (readerOf (sampleFile size) 0) = 256 * size.toNat := by
  have place : long (readerOf (sampleFile size) 0) 28 = 52 := by
    rw [(long_sampleFile size (by decide)).2]
    rfl
  refine ⟨?_, ?_, ?_⟩
  · rw [ePhnum, (long_sampleFile size (by decide)).1]
    rfl
  · simp only [pheader, place]
    rw [(long_sampleFile size (by decide)).2, (long_sampleFile size (by decide)).2,
      (long_sampleFile size (by decide)).2]
    simp [sampleByte]
  · rw [pMemsz, place, (long_sampleFile size (by decide)).2]
    change 0 + 256 * size.toNat + 65536 * (0 + 256 * 0) = _
    omega

/-- The header of an executable with a segment of more than four pages. -/
def largeByte (k : Nat) : UInt8 := if k = 69 then 0x40 else sampleByte 0 k

/-- A segment of three bytes more than there is room for. -/
def largeFile : List UInt8 := (List.range blockSize).map largeByte

/-- The large executable is an application with too many bytes. -/
theorem largeFile_header : ePhnum (readerOf largeFile 0) = 1 ∧
    pheader (readerOf largeFile 0) = ⟨512, appsEntry, 0x4003⟩ := by
  have numbers {k : Nat} (inside : k + 3 < blockSize) :=
    long_header largeByte [] inside
  rw [List.append_nil] at numbers
  have place : long (readerOf largeFile 0) 28 = 52 := (numbers (by decide)).2
  refine ⟨(numbers (by decide)).1, ?_⟩
  simp only [pheader, place]
  rw [largeFile, (numbers (by decide)).2, (numbers (by decide)).2, (numbers (by decide)).2]
  simp [largeByte, sampleByte]

/-- The memory when the kernel loads the process server. -/
def emptyMemory : Memory := ⟨Buffer.zero _, fun _ => Buffer.zero _, fun _ _ => .null, -1, []⟩

/-- The kernel loads the small executable first of all, or stops at a large one. -/
theorem load_app_builds_sample :
    Ends (elfLoad 1 (readerOf (sampleFile 0)) 0 none) (fun _ loaded =>
      Ends (softTlbSwitch 1) (fun _ after =>
        (∀ i < 3, ∀ byte, (sampleFile 0)[512 + i]? = some byte →
          readByte after.ram (appsEntry + i) = byte) ∧
        ∀ i, 3 ≤ i → i < appsSize → readByte after.ram (appsEntry + i) = 0)
        (fun _ _ => False) loaded) (fun _ _ => False) emptyMemory ∧
    Ends (elfLoad 1 (readerOf (sampleFile 0)) 0 none)
      (fun _ after => Allocates emptyMemory after 1 appsNpages ∧
        after.ram (after.appPages 1 argSlot).privateAddr = argPage 0 none (Buffer.zero _) ∧
        after.ram (after.appPages 1 stackSlot).privateAddr = Buffer.zero _)
      (fun _ after => Allocates emptyMemory after 1 (appsSize / pageSize)) emptyMemory ∧
    Ends (elfLoad 1 (readerOf largeFile) 0 none) (fun _ _ => False)
      (fun error _ => error = "[ASSERT FAILED]app is larger than APPS_SIZE") emptyMemory := by
  obtain ⟨single, header, -⟩ := sampleFile_header 0
  have reads := reads_readerOf (sampleFile 0)
  -- The header is all that counts about the blocks.
  generalize readerOf (sampleFile 0) = reader at single header reads ⊢
  obtain ⟨built, -, only⟩ := load_app_builds_image (Loader.boot fun _ => Buffer.zero _) reads single
    (by rw [header]) (by rw [header]; decide) 0 none
  obtain ⟨alone, large⟩ := largeFile_header
  have readsLarge := reads_readerOf largeFile
  generalize readerOf largeFile = other at alone large readsLarge ⊢
  obtain ⟨-, stopped, -⟩ := load_app_builds_image (Loader.boot fun _ => Buffer.zero _) readsLarge
    alone (by rw [large]) (by rw [large]; decide) 0 none
  rw [header] at built
  rw [large] at stopped
  exact ⟨built (by decide), only, stopped (by decide)⟩

/-- The static memory of the small executable is private if it has four pages and no more. -/
theorem static_memory_private_sample :
    ∃ loaded, elfLoad 1 (readerOf (sampleFile 0x40)) 0 none
        ⟨Buffer.zero _, fun _ => Buffer.zero _, fun _ _ => .null, -1, []⟩ = .ok () loaded ∧
      Ends (softTlbSwitch 1) (fun _ after => ∀ k < 0x4000, StaticByte after 1 3 k)
        (fun _ _ => False) loaded := by
  obtain ⟨single, header, size⟩ := sampleFile_header 0x40
  generalize readerOf (sampleFile 0x40) = reader at single header size ⊢
  have start := Loader.boot fun _ => Buffer.zero _
  obtain ⟨maps, loadable⟩ := start.loadable
  have program : Program reader := ⟨single, by rw [header], by rw [header]; decide⟩
  obtain ⟨_, loaded, accepted, _⟩ := (loadable.image program 0 none).returned
  have decided := static_memory_private_iff start program.entry accepted
  rw [size, header] at decided
  exact ⟨loaded, accepted, decided.imp (fun _ _ same => same.mpr (by decide)) fun _ _ => id⟩

/-- A small executable with five pages of memory has static memory that is not private. -/
theorem static_memory_shared_sample :
    ∃ loaded, elfLoad 1 (readerOf (sampleFile 0x50)) 0 none
        ⟨Buffer.zero _, fun _ => Buffer.zero _, fun _ _ => .null, -1, []⟩ = .ok () loaded ∧
      (pheader (readerOf (sampleFile 0x50) 0)).pVaddr = appsEntry ∧
      Ends (softTlbSwitch 1) (fun _ after =>
        ¬ ∀ k < pMemsz (readerOf (sampleFile 0x50) 0),
          StaticByte after 1 (pheader (readerOf (sampleFile 0x50) 0)).pFilesz k)
        (fun _ _ => False) loaded := by
  obtain ⟨single, header, size⟩ := sampleFile_header 0x50
  generalize readerOf (sampleFile 0x50) = reader at single header size ⊢
  obtain ⟨maps, loadable⟩ := (Loader.boot fun _ => Buffer.zero _).loadable
  have program : Program reader := ⟨single, by rw [header], by rw [header]; decide⟩
  obtain ⟨_, loaded, accepted, _⟩ := (loadable.image program 0 none).returned
  refine ⟨loaded, accepted, program.entry, ?_⟩
  refine (loadable.static program.entry accepted).imp (fun _ after done => ?_) (fun _ _ => id)
  intro every
  exact done.2 (every appsSize (by rw [size]; decide))

end Egos.Elf
