import Egos.Apps.Shell
import Egos.Earth.Accounts
import Egos.Treedisk.Ops

/-! Loading an executable and its arguments into the pages of a process. -/

namespace Egos.Elf

open Egos.Earth
open Egos.Grass (assert maxNprocess)
open Egos.Apps (cmdNargs cmdArgLen)
open Egos.Treedisk (blockSize Block)

/-- Where the grass kernel runs. -/
abbrev grassEntry : Nat := 0x80100000

/-- Bytes for the code and data of the grass kernel. -/
abbrev grassSize : Nat := 0x100000

/-- The 16-bit number at a byte position of a block. -/
def half (buf : Block) (at_ : Nat) : Nat := buf.byte at_ + 256 * buf.byte (at_ + 1)

/-- The 32-bit number at a byte position of a block. -/
def long (buf : Block) (at_ : Nat) : Nat := half buf at_ + 65536 * half buf (at_ + 2)

/-- The fields of a program header that decide what is loaded. -/
structure ProgramHeader where
  pOffset : Nat
  pVaddr : Nat
  pFilesz : Nat

/-- The number of program headers. -/
def ePhnum (buf : Block) : Nat := half buf 44

/-- The program header in the first block of an executable. -/
def pheader (buf : Block) : ProgramHeader :=
  let ePhoff := long buf 28
  ⟨long buf (ePhoff + 4), long buf (ePhoff + 8), long buf (ePhoff + 16)⟩

/-- The content of memory with bytes stored from an address on. -/
def withBytes (ram : Nat → Page) (addr : Nat) (bytes : List UInt8) (base : Nat) : Page :=
  Vector.ofFn fun k : Fin pageSize =>
    if addr ≤ base + k.val then bytes[base + k.val - addr]?.getD (ram base)[k] else (ram base)[k]

/-- Stores bytes from an address on. -/
def storeBytes (addr : Nat) (bytes : List UInt8) : MemM Unit :=
  modify fun memory => { memory with ram := withBytes memory.ram addr bytes }

/-- Reads one block of the executable after the other to consecutive addresses. -/
def loadBlocks (reader : Nat → Block) (entry pFilesz : Nat) : Nat → Nat → Nat → MemM Unit
  | 0, _, _ => pure ()
  | rounds + 1, off, blockOffset =>
    if off < pFilesz then do
      storeBytes (entry + off) (reader blockOffset).toList
      loadBlocks reader entry pFilesz rounds (off + blockSize) (blockOffset + 1)
    else pure ()

/-- Loads the grass kernel. -/
def loadGrass (reader : Nat → Block) (header : ProgramHeader) : MemM Unit := do
  loadBlocks reader grassEntry header.pFilesz (header.pFilesz / blockSize + 1) 0
    (header.pOffset / blockSize)
  storeBytes (grassEntry + header.pFilesz) (List.replicate (grassSize - header.pFilesz) 0)

/-- Allocates and maps the pages for the code of an application. -/
def mapCode (pid : Int) : Nat → MemM (List Nat)
  | 0 => pure []
  | count + 1 => do
    let paddrs ← mapCode pid count
    let paddr ← mmuAlloc
    storePage paddr (Buffer.zero _)
    softTlbMap pid (appsEntry + count * pageSize) paddr
    return paddrs ++ [paddr]

/-- Goes on to the next page of an application where one begins. -/
def nextPage (off : Nat) (pageIdx : Int) : MemM Int :=
  if off % pageSize = 0 then do
    assert (pageIdx + 1 ≥ 0 ∧ pageIdx + 1 < ((appsSize / pageSize : Nat) : Int))
      "app is larger than APPS_SIZE"
    return pageIdx + 1
  else return pageIdx

/-- Reads the blocks of an application to its pages, and returns the index of the last page. -/
def copyBlocks (reader : Nat → Block) (paddrs : List Nat) (pFilesz : Nat) :
    Nat → Nat → Nat → Int → MemM Int
  | 0, _, _, pageIdx => pure pageIdx
  | rounds + 1, off, blockOffset, pageIdx =>
    if off < pFilesz then do
      let pageIdx ← nextPage off pageIdx
      storeBytes (paddrs[pageIdx.toNat]?.getD 0 + off % pageSize) (reader blockOffset).toList
      copyBlocks reader paddrs pFilesz rounds (off + blockSize) (blockOffset + 1) pageIdx
    else pure pageIdx

/-- The pointer to one of the arguments. -/
def argPointer (i : Nat) : Nat := appsArg + 4 + 4 * cmdNargs + i * cmdArgLen

/-- Writes the arguments of an application to their page. -/
def argPage (argc : Int) (argv : Option (List UInt8)) (page : Page) : Page :=
  let page := page.setWord 0 (argc % 2 ^ 32).toNat
  let page := match argv with
    | some bytes => page.splice (4 + 4 * cmdNargs) (bytes.take (argc.toNat * cmdArgLen))
    | none => page
  (List.range argc.toNat).foldl (fun page i => page.setWord (1 + i) (argPointer i)) page

/-- Sets up the pages for arguments, system calls and the stack. -/
def mapArgs (pid argc : Int) (argv : Option (List UInt8)) : MemM Unit := do
  let paddr ← mmuAlloc
  softTlbMap pid appsArg paddr
  storePage paddr (argPage argc argv ((← get).ram paddr))
  let paddr ← mmuAlloc
  softTlbMap pid (appsArg + pageSize) paddr

/-- Loads an application. -/
def loadApp (pid : Int) (reader : Nat → Block) (argc : Int) (argv : Option (List UInt8))
    (header : ProgramHeader) : MemM Unit := do
  let paddrs ← mapCode pid (appsSize / pageSize)
  let pageIdx ← copyBlocks reader paddrs header.pFilesz (header.pFilesz / blockSize + 1) 0
    (header.pOffset / blockSize) (-1)
  -- The part of the last page behind the file is cleared.
  let lastPageFilled := header.pFilesz % pageSize
  if lastPageFilled ≠ 0 then
    storeBytes (paddrs[pageIdx.toNat]?.getD 0 + lastPageFilled)
      (List.replicate (pageSize - lastPageFilled) 0)
  mapArgs pid argc argv

/-- Loads an executable. -/
def elfLoad (pid : Int) (reader : Nat → Block) (argc : Int) (argv : Option (List UInt8)) :
    MemM Unit := do
  let buf := reader 0
  assert (ePhnum buf = 1) "has more than one program header"
  if (pheader buf).pVaddr = grassEntry then loadGrass reader (pheader buf)
  else if (pheader buf).pVaddr = appsEntry then loadApp pid reader argc argv (pheader buf)
  else throw "elf_load: ELF gives invalid p_vaddr"

end Egos.Elf
