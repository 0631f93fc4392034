import Egos.Lib.Outcome
import Egos.Lib.Words

/-! The treedisk file system: many files, each an array of blocks, on one inode of a store below. -/

namespace Egos.Treedisk

/-- Bytes in a block. -/
abbrev blockSize : Nat := 512

/-- Block references that fit in a block. -/
abbrev refsPerBlock : Nat := 128

/-- Inodes that fit in a block. -/
abbrev inodesPerBlock : Nat := 64

/-- Base-two logarithm of the references in a block, as the first `treedisk_init` computes it. -/
abbrev logRpb : Nat := 7

/-- One block of the store below. -/
abbrev Block := Buffer blockSize

/-- A block filled with null bytes. -/
def nullBlock : Block := Buffer.zero blockSize

/-- The inode of the store below that holds the file system. -/
structure Disk where
  nblocks : Nat
  blocks : Nat → Block
  -- Every block number passed to the store so far, latest first.
  accesses : List Nat

/-- A disk whose blocks are all zero and that nobody has accessed yet. -/
def Disk.zeroed (nblocks : Nat) : Disk := ⟨nblocks, fun _ => nullBlock, []⟩

/-- Treedisk code runs over the disk, and a panic leaves the disk as it is. -/
abbrev TreeM := EStateM String Disk

/-- The read method of the store below, which fails outside the store. -/
def belowRead (offset : Nat) : TreeM (Option Block) := fun disk =>
  .ok (if offset < disk.nblocks then some (disk.blocks offset) else none)
    { disk with accesses := offset :: disk.accesses }

/-- The write method of the store below, which fails outside the store. -/
def belowWrite (offset : Nat) (block : Block) : TreeM Int := fun disk =>
  let disk := { disk with accesses := offset :: disk.accesses }
  if offset < disk.nblocks then
    .ok 0 { disk with blocks := Function.update disk.blocks offset block }
  else .ok (-1) disk

/-- A write to the store below that panics when it fails. -/
def writeOrPanic (offset : Nat) (block : Block) (message : String) : TreeM Unit := do
  if (← belowWrite offset block) < 0 then throw message

/-- The superblock's count of inode blocks. -/
abbrev nInodeblocks (superblock : Block) : Nat := superblock.word 0

/-- The superblock's reference to the first block of the free list. -/
abbrev freeList (superblock : Block) : Nat := superblock.word 1

/-- Temporary information about the file system and a particular inode. -/
structure Snapshot where
  superblock : Block
  inodeblock : Block
  inodeBlockno : Nat
  -- Position of the inode within its block.
  inode : Nat

/-- The root reference of the snapshot's inode. -/
def Snapshot.root (snapshot : Snapshot) : Nat := snapshot.inodeblock.word (2 * snapshot.inode)

/-- The block count of the snapshot's inode. -/
def Snapshot.nblocks (snapshot : Snapshot) : Nat :=
  snapshot.inodeblock.word (2 * snapshot.inode + 1)

/-- Stores a new root reference in the snapshot's inode. -/
def Snapshot.setRoot (snapshot : Snapshot) (root : Nat) : Snapshot :=
  { snapshot with inodeblock := snapshot.inodeblock.setWord (2 * snapshot.inode) root }

/-- Stores a new block count in the snapshot's inode. -/
def Snapshot.setNblocks (snapshot : Snapshot) (nblocks : Nat) : Snapshot :=
  { snapshot with inodeblock := snapshot.inodeblock.setWord (2 * snapshot.inode + 1) nblocks }

/-- Shifting by the width of a block number or more gives zero. -/
def logShiftR (x nbits : Nat) : Nat := if nbits ≥ 32 then 0 else x >>> nbits

/-- Counts up from a number of levels until the shifted value vanishes. -/
def countLevels (x nlevels : Nat) : Nat :=
  if logShiftR x (nlevels * logRpb) ≠ 0 then countLevels x (nlevels + 1) else nlevels
termination_by 32 - nlevels
decreasing_by
  rename_i running
  -- A shift by 32 bits or more has already returned zero.
  simp only [logShiftR, logRpb] at running
  split at running <;> omega

/-- The number of levels in the tree of a file with the given number of blocks. -/
def levelsOf (nblocks : Nat) : Nat := if nblocks > 0 then countLevels (nblocks - 1) 0 else 0

/-- Gets the superblock and the block containing the inode from the store below. -/
def treediskGetSnapshot (inodeNo : Nat) : TreeM (Option Snapshot) := do
  let some superblock ← belowRead 0 | return none
  -- The product is one of 32-bit unsigned numbers.
  if inodeNo ≥ nInodeblocks superblock * inodesPerBlock % 2 ^ 32 then return none
  let inodeBlockno := 1 + inodeNo / inodesPerBlock
  let some inodeblock ← belowRead inodeBlockno | return none
  return some ⟨superblock, inodeblock, inodeBlockno, inodeNo % inodesPerBlock⟩

/-- The highest index from `index` down to one whose reference is set, or zero. -/
def scanRefs (block : Block) : Nat → Nat
  | 0 => 0
  | index + 1 => if block.word (index + 1) ≠ 0 then index + 1 else scanRefs block index

/-- The message of the panic that reports an exhausted free list. -/
def fullMessage : String := "treedisk_alloc_block: inode store is full\n"

/-- Allocates a block from the free list, returning its number and the updated snapshot. -/
def treediskAllocBlock (snapshot : Snapshot) : TreeM (Nat × Snapshot) := do
  let b := freeList snapshot.superblock
  if b = 0 then throw fullMessage
  -- The result of this read is ignored by the source, so a failure would leave a stale buffer.
  let freelistblock := (← belowRead b).getD nullBlock
  let i := scanRefs freelistblock (refsPerBlock - 1)
  if i = 0 then
    let superblock := snapshot.superblock.setWord 1 (freelistblock.word 0)
    writeOrPanic 0 superblock "treedisk_alloc_block: superblock"
    return (b, { snapshot with superblock := superblock })
  else
    writeOrPanic b (freelistblock.setWord i 0) "treedisk_alloc_block: freelistblock"
    return (freelistblock.word i, snapshot)

/-- A 32-bit word read as a signed number. -/
def signed (word : Nat) : Int := if word < 2 ^ 31 then word else (word : Int) - 2 ^ 32

/-- Retrieves the number of blocks in a file as the signed number the source returns. -/
def treediskGetsize (ino : Nat) : TreeM Int := do
  let some snapshot ← treediskGetSnapshot ino | return -1
  return signed snapshot.nblocks

/-- Walks down from a block to the data block of an offset. -/
def readWalk (offset : Nat) : Nat → Nat → TreeM (Option Block)
  | 0, b => do
    if b = 0 then return some nullBlock
    belowRead b
  | nlevels + 1, b => do
    if b = 0 then return some nullBlock
    let some block ← belowRead b | return none
    readWalk offset nlevels (block.word (logShiftR offset (nlevels * logRpb) % refsPerBlock))

/-- Reads the block of a file at an offset, where `none` is the error return. -/
def treediskRead (ino offset : Nat) : TreeM (Option Block) := do
  let some snapshot ← treediskGetSnapshot ino | return none
  if offset ≥ snapshot.nblocks then return none
  readWalk offset (levelsOf snapshot.nblocks) snapshot.root

/-- Grows the tree at its root by inserting a number of indirect blocks. -/
def growLevels : Nat → Snapshot → TreeM Snapshot
  | 0, snapshot => return snapshot
  | missing + 1, snapshot => do
    let (indir, snapshot) ← treediskAllocBlock snapshot
    let tib := nullBlock.setWord 0 snapshot.root
    let snapshot := snapshot.setRoot indir
    writeOrPanic indir tib "treedisk_write: indirect block"
    growLevels missing snapshot

/-- Gets or allocates the block that `parentBlock` references at `slot`. -/
def stepDown (snapshot : Snapshot) (parentOff : Nat) (parentBlock : Block) (slot : Nat) :
    TreeM (Nat × Bool × Snapshot) := do
  let b := parentBlock.word slot
  if b = 0 then
    let (b, snapshot) ← treediskAllocBlock snapshot
    writeOrPanic parentOff (parentBlock.setWord slot b) "treedisk_write: parent"
    return (b, true, snapshot)
  else return (b, false, snapshot)

/-- Walks the tree to an offset, allocating missing blocks, and writes the data block. -/
def writeWalk (offset : Nat) (block : Block) : Nat → Snapshot → Nat → Block → Nat → TreeM Unit
  | 0, snapshot, parentOff, parentBlock, slot => do
    let (b, _, _) ← stepDown snapshot parentOff parentBlock slot
    writeOrPanic b block "treedisk_write: data block"
  | nlevels + 1, snapshot, parentOff, parentBlock, slot => do
    let (b, fresh, snapshot) ← stepDown snapshot parentOff parentBlock slot
    -- A fresh indirect block starts out empty in memory, an old one is read from the store.
    let tib ← if fresh then pure nullBlock else do
      let some tib ← belowRead b | throw "treedisk_write"
      pure tib
    let index := logShiftR offset (nlevels * logRpb) % refsPerBlock
    writeWalk offset block nlevels snapshot b tib index

/-- Writes a block of a file at an offset, returning zero or the error return `-1`. -/
def treediskWrite (ino offset : Nat) (block : Block) : TreeM Int := do
  let some snapshot ← treediskGetSnapshot ino | return -1
  let nlevels := levelsOf snapshot.nblocks
  if offset ≥ snapshot.nblocks then
    -- The file grows, so the inode is dirty and the tree may need more levels.
    let snapshot := snapshot.setNblocks ((offset + 1) % 2 ^ 32)
    let nlevelsAfter := countLevels offset 0
    let snapshot ← if snapshot.nblocks = 0 then pure snapshot
      else growLevels (nlevelsAfter - nlevels) snapshot
    let nlevels := if snapshot.nblocks = 0 then nlevelsAfter else max nlevels nlevelsAfter
    writeOrPanic snapshot.inodeBlockno snapshot.inodeblock "treedisk_write: inode block"
    writeWalk offset block nlevels snapshot snapshot.inodeBlockno snapshot.inodeblock
      (2 * snapshot.inode)
  else
    writeWalk offset block nlevels snapshot snapshot.inodeBlockno snapshot.inodeblock
      (2 * snapshot.inode)
  return 0

/-- Fills free references from an index on while blocks are left, and zeroes the remaining ones. -/
def fillRefs (nblocks : Nat) (data : Block) (i nextFree : Nat) : Block × Nat :=
  if i < refsPerBlock then
    if nextFree < nblocks then fillRefs nblocks (data.setWord i nextFree) (i + 1) (nextFree + 1)
    else fillRefs nblocks (data.setWord i 0) (i + 1) nextFree
  else (data, nextFree)
termination_by refsPerBlock - i

/-- Filling references only ever consumes free block numbers. -/
theorem fillRefs_le (nblocks : Nat) (data : Block) (i nextFree : Nat) :
    nextFree ≤ (fillRefs nblocks data i nextFree).2 := by
  fun_induction fillRefs nblocks data i nextFree with
  | case1 data i nextFree inside left ih => omega
  | case2 data i nextFree inside left ih => exact ih
  | case3 data i nextFree past => exact Nat.le_refl _

/-- Builds the free list from `nextFree` on above an already built list block. -/
def setupFreelistFrom (data : Block) (freelistBlock nextFree nblocks : Nat) : TreeM Nat :=
  if nextFree < nblocks then do
    let filled := fillRefs nblocks (data.setWord 0 freelistBlock) 1 (nextFree + 1)
    writeOrPanic nextFree filled.1 "treedisk_setup_freelist"
    setupFreelistFrom filled.1 nextFree filled.2 nblocks
  else return freelistBlock
termination_by nblocks - nextFree
decreasing_by
  have := fillRefs_le nblocks (data.setWord 0 freelistBlock) 1 (nextFree + 1)
  omega

/-- Creates the free list and returns the number of its first block. -/
def setupFreelist (nextFree nblocks : Nat) : TreeM Nat :=
  -- The array is uninitialised on the stack, and every round stores all of its entries.
  setupFreelistFrom nullBlock 0 nextFree nblocks

/-- Empties a number of inode blocks from `first` on, reporting whether all writes succeeded. -/
def clearInodeblocks (first : Nat) : Nat → TreeM Bool
  | 0 => return true
  | count + 1 => do
    if (← belowWrite first nullBlock) < 0 then return false
    clearInodeblocks (first + 1) count

/-- Creates a new file system unless the superblock says that there already is one. -/
def treediskCreate (ninodes : Nat) : TreeM Int := do
  let nInodes := (ninodes + inodesPerBlock - 1) % 2 ^ 32 / inodesPerBlock
  let nblocks := (← get).nblocks
  if nblocks < nInodes + 2 then return -1
  let some superblock ← belowRead 0 | return -1
  if nInodeblocks superblock = 0 then
    let free ← setupFreelist (nInodes + 1) nblocks
    let superblock := (nullBlock.setWord 0 nInodes).setWord 1 free
    if (← belowWrite 0 superblock) < 0 then return -1
    if !(← clearInodeblocks 1 nInodes) then return -1
  return 0

end Egos.Treedisk
