import Egos.Grass.Kernel
import Egos.Lib.Bits
import Egos.Lib.Outcome
import Mathlib.Data.List.FinRange

/-! Physical pages and the software TLB that lends them to processes. -/

namespace Egos.Earth

open Egos.Grass

/-- Bytes in a page. -/
abbrev pageSize : Nat := 4096

/-- The content of a page. -/
abbrev Page := Buffer pageSize

/-- Where the pages for processes begin. -/
abbrev freeMemStart : Nat := 0x80800000

/-- Where physical memory ends. -/
abbrev freeMemEnd : Nat := 0x81000000

/-- The number of pages that are kept back. -/
abbrev removedPages : Nat := 900

/-- The number of pages for processes. -/
abbrev npages : Nat := (freeMemEnd - freeMemStart) / pageSize - removedPages

/-- Where the code of applications runs. -/
abbrev appsEntry : Nat := 0x80400000

/-- Bytes for the code and data of an application. -/
abbrev appsSize : Nat := 0x4000

/-- Where applications find their arguments. -/
abbrev appsArg : Nat := 0x80600000

/-- The number of pages of an application, of which the last two hold arguments and messages. -/
abbrev appsNpages : Nat := appsSize / pageSize + 2

/-- Which pages are in use, one bit for each. -/
abbrev Bitmap := Buffer ((npages + 7) / 8)

/-- A page of a process, and where it lies while the process runs. -/
structure PageMapping where
  privateAddr : Nat
  execAddr : Nat
  deriving DecidableEq, Repr

/-- A mapping that is not in use, with null pointers. -/
def PageMapping.null : PageMapping := ⟨0, 0⟩

/-- Physical memory and the tables about its pages. -/
structure Memory where
  bitmap : Bitmap
  -- The content of each page, under the address of its first byte.
  ram : Nat → Page
  -- The rows of the table for pids. The source has room for `maxNprocess` of them: a later row is
  -- whatever lies behind the table, and only that it is looked up counts.
  appPages : Nat → Fin appsNpages → PageMapping
  currVmPid : Int
  -- The rows that have been looked at so far.
  rows : List Nat

/-- Functions of the memory either return or halt the machine. -/
abbrev MemM := EStateM String Memory

/-- Assertions halt the machine in the functions of the memory too. -/
instance : MonadLift Fallible MemM where
  monadLift
    | .ok value => pure value
    | .error message => throw message

/-- Marks a page as used. -/
def bitmapSet (bitmap : Bitmap) (i : Nat) : Bitmap := bitmap.setBit i

/-- Marks a page as free. -/
def bitmapClear (bitmap : Bitmap) (i : Nat) : Bitmap := bitmap.clearBit i

/-- Whether a page is marked as used. -/
def bitmapTest (bitmap : Bitmap) (i : Nat) : Bool := bitmap.testBit i

/-- The address of a page. -/
def pageid2paddr (pageid : Nat) : MemM Nat := do
  assert (pageid < npages) "pageid2paddr: pageid is too large"
  return freeMemStart + pageid * pageSize

/-- The page at an address. -/
def paddr2pageid (paddr : Nat) : MemM Nat := do
  assert (paddr % pageSize = 0) "paddr2pageid: paddr is not page aligned"
  -- Addresses are 32 bits wide, so the difference wraps around.
  let pageid := (paddr + 2 ^ 32 - freeMemStart) % 2 ^ 32 / pageSize
  assert (pageid < npages) "paddr2pageid: pageid is too large"
  return pageid

/-- Stores the content of a page. -/
def storePage (addr : Nat) (page : Page) : MemM Unit :=
  modify fun memory => { memory with ram := Function.update memory.ram addr page }

/-- Copies a page. -/
def copyPage (dst src : Nat) : MemM Unit := do storePage dst ((← get).ram src)

/-- The first page that is not marked as used. -/
@[irreducible] def firstFree (bitmap : Bitmap) : Option Nat :=
  (List.range npages).find? fun i => !bitmapTest bitmap i

/-- Allocates the first free page. -/
def pmalloc (clearPage : Bool) : MemM Nat := do
  let memory ← get
  match firstFree memory.bitmap with
  | some i =>
    set { memory with bitmap := bitmapSet memory.bitmap i }
    let ret ← pageid2paddr i
    if clearPage then storePage ret (Buffer.zero _)
    return ret
  | none => throw "pmalloc: no more available page"

/-- Frees a page. -/
def pfree (paddr : Nat) : MemM Unit := do
  let pageid ← paddr2pageid paddr
  modify fun memory => { memory with bitmap := bitmapClear memory.bitmap pageid }

/-- Allocates a page for a process. -/
def mmuAlloc : MemM Nat := pmalloc true

/-- The row of a pid in the table of mappings. -/
def appRow (pid : Int) : MemM Nat := do
  assert (pid > 0 ∧ pid ≤ (maxNprocess : Int)) "pid is unexpected"
  modify fun memory => { memory with rows := pid.toNat :: memory.rows }
  return pid.toNat

/-- Replaces one mapping of a row. -/
def setMapping (row : Nat) (i : Fin appsNpages) (mapping : PageMapping) : MemM Unit :=
  modify fun memory => { memory with
    appPages := Function.update memory.appPages row
      (Function.update (memory.appPages row) i mapping) }

/-- Frees one mapping of a row and its page. -/
def freeMapping (row : Nat) (i : Fin appsNpages) : MemM Unit := do
  let mapping := (← get).appPages row i
  if mapping.privateAddr ≠ 0 then
    pfree mapping.privateAddr
    setMapping row i .null

/-- Frees all pages of a process. -/
def softTlbFree (pid : Int) : MemM Unit := do
  let row ← appRow pid
  (List.finRange appsNpages).forM (freeMapping row)

/-- Maps a page of a process. -/
def softTlbMap (pid : Int) (dst src : Nat) : MemM Unit := do
  let row ← appRow pid
  assert (src % pageSize = 0 ∧ dst % pageSize = 0) "mapping address is not page aligned"
  let pages := (← get).appPages row
  match (List.finRange appsNpages).find? fun i => (pages i).privateAddr = 0 with
  | some i => setMapping row i ⟨src, dst⟩
  | none => throw "soft_tlb_map: mapping more pages than expected"

/-- Copies one page of a process to where it runs, or back. -/
def copyMapping (row : Nat) (private2exec : Bool) (i : Fin appsNpages) : MemM Unit := do
  let mapping := (← get).appPages row i
  if mapping.privateAddr ≠ 0 then
    assert (mapping.execAddr ≠ 0) "[file:earth/cpu_mmu.c, line:71]"
    if private2exec then copyPage mapping.execAddr mapping.privateAddr
    else copyPage mapping.privateAddr mapping.execAddr

/-- Copies the pages of a process to where it runs, or back. -/
def memcopyHelper (pid : Int) (private2exec : Bool) : MemM Unit := do
  let row ← appRow pid
  (List.finRange appsNpages).forM (copyMapping row private2exec)

/-- Brings the pages of a process to where it runs. -/
def softTlbSwitch (pid : Int) : MemM Unit := do
  let memory ← get
  if pid ≠ memory.currVmPid then
    -- The process that ran so far gets its pages back first.
    if memory.currVmPid > 0 then memcopyHelper memory.currVmPid false
    memcopyHelper pid true
    modify fun memory => { memory with currVmPid := pid }

end Egos.Earth
