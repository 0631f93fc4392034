import Egos.Earth.Accounts
import Egos.Lib.Runs

/-! Private address spaces: what the software TLB and message copies do to the bytes of processes. -/

namespace Egos.Earth

open Egos.Grass

/-- The page that an address lies in. -/
def pageOf (addr : Nat) : Nat := addr - addr % pageSize

/-- The byte at an address. -/
def readByte (ram : Nat → Page) (addr : Nat) : UInt8 :=
  (ram (pageOf addr))[addr % pageSize]?.getD 0

/-- Replaces the byte at an address. -/
def writeByte (ram : Nat → Page) (addr : Nat) (byte : UInt8) : Nat → Page :=
  Function.update ram (pageOf addr) ((ram (pageOf addr)).setIfInBounds (addr % pageSize) byte)

/-- The bytes from an address on. -/
def readBytes (ram : Nat → Page) (addr size : Nat) : List UInt8 :=
  (List.range size).map fun k => readByte ram (addr + k)

/-- Replaces the bytes from an address on. -/
def writeBytes (ram : Nat → Page) : Nat → List UInt8 → Nat → Page
  | _, [] => ram
  | addr, byte :: bytes => writeBytes (writeByte ram addr byte) (addr + 1) bytes

/-- Copies bytes of one process to another. -/
def msgcpy (srcPid dstPid : Int) (srcAddr dstAddr size : Nat) : MemM Unit := do
  assert (size > 0 ∧ size < pageSize) "[file:grass/syscall.c, line:152]"
  softTlbSwitch srcPid
  let buf := readBytes (← get).ram srcAddr size
  softTlbSwitch dstPid
  modify fun memory => { memory with ram := writeBytes memory.ram dstAddr buf }

/-- The ideal memory: every process has its own. -/
abbrev Ideal := Nat → Nat → Page

/-- What happens to the pages of processes. -/
inductive Access where
  | alloc
  | map (pid : Int) (va page : Nat)
  -- The loader writes to the page of a process.
  | load (pid : Int) (va page offset : Nat) (byte : UInt8)
  | switch (pid : Int)
  -- The loaded process writes to its own memory.
  | store (pid : Int) (addr : Nat) (byte : UInt8)
  | msgcpy (src dst : Int) (srcAddr dstAddr size : Nat)
  | free (pid : Int)

/-- What an access does to ideal memories. -/
def Ideal.step (ideal : Ideal) : Access → Ideal
  | .alloc | .switch _ | .free _ => ideal
  | .map pid va _ =>
    Function.update ideal pid.toNat (Function.update (ideal pid.toNat) va (Buffer.zero _))
  | .load pid va _ offset byte =>
    Function.update ideal pid.toNat (writeByte (ideal pid.toNat) (va + offset) byte)
  | .store pid addr byte =>
    Function.update ideal pid.toNat (writeByte (ideal pid.toNat) addr byte)
  | .msgcpy src dst srcAddr dstAddr size =>
    Function.update ideal dst.toNat (writeBytes (ideal dst.toNat) dstAddr
      (readBytes (ideal src.toNat) srcAddr size))

/-- The memory of the machine next to the ideal one, with the pages that are not yet mapped. -/
structure Spaces where
  memory : Memory
  fresh : List Nat
  ideal : Ideal

namespace Spaces

/-- What an access does to the memory of the machine. -/
def access (fresh : List Nat) : Access → MemM (List Nat)
  | .alloc => do return (← mmuAlloc) :: fresh
  | .map pid va page => do
    softTlbMap pid va page
    return fresh.erase page
  | .load _ _ page offset byte => do
    modify fun memory => { memory with ram := writeByte memory.ram (page + offset) byte }
    return fresh
  | .switch pid => do
    softTlbSwitch pid
    return fresh
  | .store _ addr byte => do
    modify fun memory => { memory with ram := writeByte memory.ram addr byte }
    return fresh
  | .msgcpy src dst srcAddr dstAddr size => do
    Earth.msgcpy src dst srcAddr dstAddr size
    return fresh
  | .free pid => do
    softTlbFree pid
    return fresh

/-- One access to both memories. -/
def step (spaces : Spaces) (access : Access) : Fallible (Spaces × List Unit) := do
  let (fresh, memory) ← onMemory (Spaces.access spaces.fresh access) spaces.memory
  return (⟨memory, fresh, spaces.ideal.step access⟩, [])

end Spaces

/-- A process has a page for a virtual page. -/
def Memory.hasPage (memory : Memory) (pid : Int) (va : Nat) : Prop :=
  ∃ i, memory.owns pid.toNat i ∧ (memory.appPages pid.toNat i).execAddr = va

/-- A pid that the tables have a row for. -/
def knownPid (pid : Int) : Prop := 1 ≤ pid ∧ pid ≤ 15

/-- The accesses that the kernel and the processes make. -/
def Spaces.Permitted (spaces : Spaces) : Access → Prop
  | .alloc => True
  -- The virtual page is one that processes can run in, and new to the process.
  | .map pid va page => knownPid pid ∧ pid ≠ spaces.memory.currVmPid ∧ page ∈ spaces.fresh ∧
    va ≠ 0 ∧ (∀ other < npages, va ≠ pageAddr other) ∧ ¬ spaces.memory.hasPage pid va
  | .load pid va page offset _ => knownPid pid ∧ pid ≠ spaces.memory.currVmPid ∧
    (∃ i, spaces.memory.owns pid.toNat i ∧
      spaces.memory.appPages pid.toNat i = ⟨page, va⟩) ∧ offset < pageSize
  | .switch pid => knownPid pid
  | .store pid addr _ => pid = spaces.memory.currVmPid ∧ 0 < pid ∧
    spaces.memory.hasPage pid (pageOf addr)
  | .msgcpy src dst srcAddr dstAddr size => knownPid src ∧ knownPid dst ∧
    ∀ k < size, spaces.memory.hasPage src (pageOf (srcAddr + k)) ∧
      spaces.memory.hasPage dst (pageOf (dstAddr + k))
  | .free pid => knownPid pid ∧ pid ≠ spaces.memory.currVmPid

instance (memory : Memory) (row : Nat) (i : Fin appsNpages) : Decidable (memory.owns row i) :=
  inferInstanceAs (Decidable (_ ≠ _))

instance (memory : Memory) (pid : Int) (va : Nat) : Decidable (memory.hasPage pid va) :=
  inferInstanceAs (Decidable (∃ i, memory.owns pid.toNat i ∧
    (memory.appPages pid.toNat i).execAddr = va))

instance (pid : Int) : Decidable (knownPid pid) :=
  inferInstanceAs (Decidable (1 ≤ pid ∧ pid ≤ 15))

instance (spaces : Spaces) : (access : Access) → Decidable (spaces.Permitted access)
  | .alloc => isTrue trivial
  | .map .. | .load .. | .switch _ | .store .. | .msgcpy .. | .free _ => by
    unfold Spaces.Permitted
    infer_instance

/-- The memory before anything is mapped. -/
def Spaces.initial (ram : Nat → Page) (ideal : Ideal) : Spaces where
  memory := ⟨Buffer.zero _, ram, fun _ _ => .null, -1, []⟩
  fresh := []
  ideal := ideal

/-- The memories that are reached from the start. -/
abbrev Spaces.Reaches (ram : Nat → Page) (ideal : Ideal) : Spaces → List Unit → Prop :=
  Run (fun spaces access after events =>
    spaces.Permitted access ∧ spaces.step access = .ok (after, events)) (.initial ram ideal)

/-- Where the page of a process is kept up to date. -/
def Memory.home (memory : Memory) (row : Nat) (i : Fin appsNpages) : Nat :=
  if (row : Int) = memory.currVmPid then (memory.appPages row i).execAddr
  else (memory.appPages row i).privateAddr

/-- The memory keeps an ideal memory for every process, and the fresh pages belong to none. -/
structure Isolated (memory : Memory) (fresh : List Nat) (ideal : Ideal) : Prop where
  laid : memory.Laid
  frames : ∀ row i, memory.owns row i → ∃ page < npages,
    (memory.appPages row i).privateAddr = pageAddr page ∧ bitmapTest memory.bitmap page
  places : ∀ row i, memory.owns row i → (memory.appPages row i).execAddr % pageSize = 0 ∧
    ∀ page < npages, (memory.appPages row i).execAddr ≠ pageAddr page
  spare : ∀ addr ∈ fresh, (∃ page < npages, addr = pageAddr page ∧ bitmapTest memory.bitmap page) ∧
    (∀ row i, (memory.appPages row i).privateAddr ≠ addr) ∧ memory.ram addr = Buffer.zero _
  distinct : fresh.Nodup
  current : memory.currVmPid = -1 ∨ knownPid memory.currVmPid
  holds : ∀ row i, memory.owns row i →
    memory.ram (memory.home row i) = ideal row (memory.appPages row i).execAddr

section Spaces

variable {memory after : Memory} {fresh : List Nat} {ideal : Ideal} {pid : Int}

/-- An address inside a page belongs to the page. -/
theorem pageOf_add {page offset : Nat} (aligned : page % pageSize = 0)
    (inside : offset < pageSize) : pageOf (page + offset) = page ∧
      (page + offset) % pageSize = offset := by
  simp only [pageOf, pageSize] at aligned inside ⊢
  omega

/-- A known pid passes the range checks. -/
theorem knownPid.passes (known : knownPid pid) : pid > 0 ∧ pid ≤ (maxNprocess : Int) := by
  obtain ⟨low, high⟩ := known
  simp only [maxNprocess]
  omega

/-- The row of a pid stands for the pid. -/
theorem knownPid.row (known : knownPid pid) : (pid.toNat : Int) = pid := by
  have low := known.1
  omega

/-- The running process is known to the range checks. -/
theorem Isolated.ran (isolated : Isolated memory fresh ideal) :
    memory.currVmPid ≤ (maxNprocess : Int) := by
  rcases isolated.current with none | known
  · rw [none]
    decide
  · exact known.passes.2

/-- Every page is kept up to date in a place of its own. -/
theorem Memory.Laid.home_inj (laid : memory.Laid) {row other : Nat} {i j : Fin appsNpages}
    (first : memory.owns row i) (second : memory.owns other j)
    (same : memory.home row i = memory.home other j) : row = other ∧ i = j := by
  unfold Memory.home at same
  split at same
  · rename_i here
    split at same
    · rename_i there
      have rows : row = other := Int.ofNat_inj.mp (here.trans there.symm)
      subst rows
      exact ⟨rfl, laid.single row i j first second same⟩
    · exact absurd same (laid.outside row i other j first second)
  · split at same
    · exact absurd same.symm (laid.outside other j row i second first)
    · exact laid.apart row i other j first second same

/-- Fresh pages are not where a process keeps its pages. -/
theorem Isolated.home_ne (isolated : Isolated memory fresh ideal) {addr : Nat}
    (listed : addr ∈ fresh) {row : Nat} {i : Fin appsNpages} (owned : memory.owns row i) :
    memory.home row i ≠ addr := by
  obtain ⟨⟨page, inside, own, -⟩, elsewhere, -⟩ := isolated.spare addr listed
  unfold Memory.home
  split
  · rw [own]
    exact (isolated.places row i owned).2 page inside
  · exact elsewhere row i

/-- Changing a page of a process in both memories keeps them together. -/
theorem Isolated.change (isolated : Isolated memory fresh ideal) {row : Nat} {i : Fin appsNpages}
    (owned : memory.owns row i) (page : Page) :
    Isolated { memory with ram := Function.update memory.ram (memory.home row i) page } fresh
      (Function.update ideal row
        (Function.update (ideal row) (memory.appPages row i).execAddr page)) := by
  -- The address is the home of one page of the running process.
  refine ⟨isolated.laid.congr rfl, isolated.frames, isolated.places, ?_, isolated.distinct,
    isolated.current, ?_⟩
  · intro addr listed
    obtain ⟨marked, elsewhere, clear⟩ := isolated.spare addr listed
    refine ⟨marked, elsewhere, ?_⟩
    simp only [Function.update_of_ne (isolated.home_ne listed owned).symm]
    exact clear
  · intro other j second
    change Function.update memory.ram (memory.home row i) page (memory.home other j) = _
    by_cases same : memory.home other j = memory.home row i
    · obtain ⟨rfl, rfl⟩ := isolated.laid.home_inj second owned same
      simp
    · rw [Function.update_of_ne same, isolated.holds other j second]
      by_cases rows : other = row
      · subst rows
        have places : (memory.appPages other j).execAddr ≠ (memory.appPages other i).execAddr := by
          intro equal
          have entries := isolated.laid.single other j i second owned equal
          exact same (by rw [entries])
        simp [places]
      · simp [rows]

/-- A write to a page of a process is a write to its ideal memory. -/
theorem Isolated.writeByte (isolated : Isolated memory fresh ideal) {row : Nat}
    {i : Fin appsNpages} (owned : memory.owns row i) {offset : Nat} (inside : offset < pageSize)
    (aligned : memory.home row i % pageSize = 0) (byte : UInt8) :
    Isolated { memory with ram := Earth.writeByte memory.ram (memory.home row i + offset) byte } fresh
      (Function.update ideal row
        (Earth.writeByte (ideal row) ((memory.appPages row i).execAddr + offset) byte)) := by
  obtain ⟨here, place⟩ := pageOf_add aligned inside
  obtain ⟨there, same⟩ := pageOf_add (isolated.places row i owned).1 inside
  have changed := isolated.change owned
    ((memory.ram (memory.home row i)).setIfInBounds offset byte)
  simp only [Earth.writeByte, here, place, there, same]
  rw [isolated.holds row i owned] at changed ⊢
  exact changed

/-- The loader's write to the page of a process that is not loaded. -/
theorem Isolated.load (isolated : Isolated memory fresh ideal) (known : knownPid pid)
    (other : pid ≠ memory.currVmPid) {i : Fin appsNpages} (owned : memory.owns pid.toNat i)
    {va page : Nat} (entry : memory.appPages pid.toNat i = ⟨page, va⟩) {offset : Nat}
    (inside : offset < pageSize) (byte : UInt8) :
    Isolated { memory with ram := Earth.writeByte memory.ram (page + offset) byte } fresh
      (Function.update ideal pid.toNat
        (Earth.writeByte (ideal pid.toNat) (va + offset) byte)) := by
  have home : memory.home pid.toNat i = page := by
    rw [Memory.home, known.row, if_neg other, entry]
  have aligned : memory.home pid.toNat i % pageSize = 0 := by
    obtain ⟨frame, -, own, -⟩ := isolated.frames _ i owned
    simp only [entry] at own
    rw [home, own]
    exact pageAddr_aligned frame
  have written := isolated.writeByte owned inside aligned byte
  rw [home, entry] at written
  exact written

/-- A write of the loaded process to its own memory. -/
theorem Isolated.store (isolated : Isolated memory fresh ideal) (positive : 0 < pid)
    (loaded : pid = memory.currVmPid) {addr : Nat} (mapped : memory.hasPage pid (pageOf addr))
    (byte : UInt8) :
    Isolated { memory with ram := Earth.writeByte memory.ram addr byte } fresh
      (Function.update ideal pid.toNat (Earth.writeByte (ideal pid.toNat) addr byte)) := by
  obtain ⟨i, owned, place⟩ := mapped
  have home : memory.home pid.toNat i = pageOf addr := by
    rw [Memory.home, if_pos (by omega), place]
  have parts : pageOf addr + addr % pageSize = addr := by
    have below := Nat.mod_le addr pageSize
    simp only [pageOf]
    omega
  have written := isolated.writeByte owned
    (show addr % pageSize < pageSize from Nat.mod_lt _ (by decide))
    (by rw [home, ← place]; exact (isolated.places _ i owned).1) byte
  rw [home, place, parts] at written
  exact written

/-- Writes of the loaded process to its own memory. -/
theorem Isolated.stores (positive : 0 < pid) : ∀ (bytes : List UInt8) {memory : Memory}
    {ideal : Ideal} {addr : Nat}, Isolated memory fresh ideal → pid = memory.currVmPid →
    (∀ k < bytes.length, memory.hasPage pid (pageOf (addr + k))) →
    Isolated { memory with ram := writeBytes memory.ram addr bytes } fresh
      (Function.update ideal pid.toNat (writeBytes (ideal pid.toNat) addr bytes)) := by
  -- Byte by byte, each with the lemma for one.
  intro bytes
  induction bytes with
  | nil =>
    intro memory ideal addr isolated _ _
    simp only [writeBytes, Function.update_eq_self]
    exact isolated
  | cons byte bytes ih =>
    intro memory ideal addr isolated loaded mapped
    have first := isolated.store positive loaded (mapped 0 (by simp)) byte
    rw [Nat.add_zero] at first
    have rest := @ih _ _ (addr + 1) first loaded fun k inside => by
      have next := mapped (k + 1) (by simpa using inside)
      rw [show addr + (k + 1) = addr + 1 + k by omega] at next
      exact next
    simp only [Function.update_idem, Function.update_self] at rest
    exact rest

/-- Switching to a process brings its ideal memory to where it runs. -/
theorem Isolated.switch (isolated : Isolated memory fresh ideal) (known : knownPid pid) :
    Ends (softTlbSwitch pid) (fun _ after => Isolated after fresh ideal ∧
      after.currVmPid = pid ∧ after.appPages = memory.appPages) (fun _ _ => False) memory := by
  refine (isolated.laid.softTlbSwitch known.passes isolated.ran).imp (fun _ after swapped => ?_)
    (fun _ _ => id)
  by_cases loaded : pid = memory.currVmPid
  · rw [swapped.stays loaded]
    exact ⟨isolated, loaded.symm, rfl⟩
  have owns : ∀ row i, after.owns row i ↔ memory.owns row i := by
    intro row i
    rw [Memory.owns, Memory.owns, swapped.table]
  -- What neither process keeps in its places stays as it was.
  have kept : ∀ addr, (∀ row i, memory.owns row i →
      addr ≠ (memory.appPages row i).privateAddr ∧ addr ≠ (memory.appPages row i).execAddr) →
      after.ram addr = memory.ram addr := by
    intro addr elsewhere
    exact swapped.kept addr (fun i owned _ => (elsewhere _ i owned).1)
      fun i owned => (elsewhere _ i owned).2
  refine ⟨⟨isolated.laid.congr swapped.table, ?_, ?_, ?_, isolated.distinct, ?_, ?_⟩,
    swapped.vm, swapped.table⟩
  · intro row i owned
    rw [swapped.table, swapped.bitmap]
    exact isolated.frames row i ((owns row i).mp owned)
  · intro row i owned
    rw [swapped.table]
    exact isolated.places row i ((owns row i).mp owned)
  · intro addr listed
    obtain ⟨⟨page, inside, own, marked⟩, elsewhere, clear⟩ := isolated.spare addr listed
    rw [swapped.table, swapped.bitmap]
    refine ⟨⟨page, inside, own, marked⟩, elsewhere, ?_⟩
    rw [kept addr fun row i owned => ⟨(elsewhere row i).symm, ?_⟩]
    · exact clear
    · rw [own]
      exact ((isolated.places row i owned).2 page inside).symm
  · rw [swapped.vm]
    exact Or.inr known
  · intro row i owned
    rw [owns] at owned
    have content := isolated.holds row i owned
    rw [Memory.home, swapped.vm, swapped.table]
    rw [Memory.home] at content
    by_cases here : (row : Int) = pid
    · -- The process is brought from its private page.
      rw [if_pos here]
      rw [if_neg (by rw [here]; exact loaded)] at content
      have rows : row = pid.toNat := by omega
      subst rows
      rw [swapped.brought loaded i owned, content]
    · rw [if_neg here]
      by_cases running : (row : Int) = memory.currVmPid
      · -- The process that ran so far is saved to its private page.
        rw [if_pos running] at content
        have rows : row = memory.currVmPid.toNat := by omega
        have positive : memory.currVmPid > 0 := by
          rcases isolated.current with none | low
          · omega
          · exact low.passes.1
        rw [rows] at owned content ⊢
        rw [swapped.saved loaded positive i owned, content]
      · rw [if_neg running] at content
        rw [← content]
        apply swapped.kept
        · intro j other positive same
          have rows := (isolated.laid.apart row i _ j owned other same).1
          omega
        · intro j other
          exact (isolated.laid.outside _ j row i other owned).symm

/-- After switching to a process its ideal memory is where it runs. -/
theorem Isolated.resident (isolated : Isolated memory fresh ideal) (known : knownPid pid)
    (loaded : memory.currVmPid = pid) {i : Fin appsNpages} (owned : memory.owns pid.toNat i) :
    memory.ram (memory.appPages pid.toNat i).execAddr =
      ideal pid.toNat (memory.appPages pid.toNat i).execAddr := by
  have content := isolated.holds _ i owned
  rwa [Memory.home, known.row, if_pos loaded.symm] at content

/-- The loaded process reads its ideal memory. -/
theorem Isolated.reads (isolated : Isolated memory fresh ideal) (known : knownPid pid)
    (loaded : memory.currVmPid = pid) {addr size : Nat}
    (mapped : ∀ k < size, memory.hasPage pid (pageOf (addr + k))) :
    readBytes memory.ram addr size = readBytes (ideal pid.toNat) addr size := by
  unfold readBytes
  apply List.map_congr_left
  intro k member
  obtain ⟨i, owned, place⟩ := mapped k (List.mem_range.mp member)
  have content := isolated.resident known loaded owned
  rw [place] at content
  rw [readByte, readByte, content]

/-- A message is copied from one ideal memory to another. -/
theorem Isolated.msgcpy (isolated : Isolated memory fresh ideal) {src dst : Int}
    (source : knownPid src) (target : knownPid dst) {srcAddr dstAddr size : Nat}
    (mapped : ∀ k < size, memory.hasPage src (pageOf (srcAddr + k)) ∧
      memory.hasPage dst (pageOf (dstAddr + k))) :
    Ends (msgcpy src dst srcAddr dstAddr size) (fun _ after => Isolated after fresh
      (Function.update ideal dst.toNat (writeBytes (ideal dst.toNat) dstAddr
        (readBytes (ideal src.toNat) srcAddr size)))) (fun _ _ => True) memory := by
  -- With the source loaded its bytes are read; with the target loaded they are written.
  unfold Earth.msgcpy
  rw [ends_bind, ends_assert]
  split
  · rw [ends_bind]
    refine (isolated.switch source).imp (fun _ first loaded => ?_) (fun _ _ => False.elim)
    obtain ⟨middle, current, table⟩ := loaded
    have hasPage : ∀ pid va, memory.hasPage pid va → first.hasPage pid va := by
      intro pid va mapped
      simpa only [Memory.hasPage, Memory.owns, table] using mapped
    have bytes := middle.reads source current fun k inside => hasPage _ _ (mapped k inside).1
    rw [ends_bind, ends_get, ends_bind, bytes]
    refine (middle.switch target).imp (fun _ second loaded => ?_) (fun _ _ => False.elim)
    obtain ⟨final, now, same⟩ := loaded
    rw [ends_modify]
    apply final.stores target.passes.1 _ now.symm
    intro k inside
    have below : k < size := by simpa [readBytes] using inside
    have place := hasPage _ _ (mapped k below).2
    simpa only [Memory.hasPage, Memory.owns, same] using place
  · trivial

end Spaces

end Egos.Earth
