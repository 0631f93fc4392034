import Egos.Treedisk.Create

/-! Whole runs of treedisk: it is an ideal store of files, and its blocks are partitioned. -/

namespace Egos.Treedisk

open Finset

/-- A write request: an inode, an offset and the block to write there. -/
structure Write where
  ino : Nat
  offset : Nat
  block : Block

/-- The ideal files after a list of writes, latest first, to empty files. -/
def filesAfter : List Write → Nat → File
  | [] => fun _ => File.empty
  | write :: earlier =>
    Function.update (filesAfter earlier) write.ino
      ((filesAfter earlier write.ino).write write.offset write.block)

/-- What a user reads from an ideal file, where `none` is the error return past its end. -/
def File.read (file : File) (offset : Nat) : Option Block :=
  if offset < file.size then some (file.block offset) else none

/-- The disks that a creation on a zeroed store leads to, with the writes made so far. -/
inductive Reached (ninodes nblocks : Nat) : List Write → Disk → Prop
  -- The size of the store below is a 32-bit number.
  | created {disk : Disk} (narrow : nblocks < 2 ^ 32)
      (run : treediskCreate ninodes (Disk.zeroed nblocks) = .ok 0 disk) :
      Reached ninodes nblocks [] disk
  | read {disk after : Disk} {writes : List Write} {ino offset : Nat} {result : Option Block}
      (earlier : Reached ninodes nblocks writes disk) (small : offset < 2 ^ 32)
      (run : treediskRead ino offset disk = .ok result after) :
      Reached ninodes nblocks writes after
  -- A write that runs out of free blocks panics, so it has no state after it.
  | written {disk after : Disk} {writes : List Write} {write : Write} {result : Int}
      (earlier : Reached ninodes nblocks writes disk) (small : write.offset ≤ 2 ^ 32 - 2)
      (run : treediskWrite write.ino write.offset write.block disk = .ok result after) :
      Reached ninodes nblocks (write :: writes) after

section Runs

variable {ninodes nblocks : Nat} {disk : Disk}

/-- Reading anything from a consistent disk leaves its blocks alone. -/
theorem Consistent.read_same {n ino offset : Nat} {chain : List Nat}
    (consistent : Consistent n disk chain) (small : offset < 2 ^ 32) :
    Ends (treediskRead ino offset)
      (fun _ after => after.blocks = disk.blocks ∧ disk.Within after) (fun _ _ => False) disk := by
  by_cases inside : ino < inodesPerBlock * n
  · exact (ends_treediskRead consistent inside small).imp
      (fun _ _ done => ⟨done.1, done.2.1⟩) fun _ _ => id
  · exact (ends_treediskRead_none offset consistent (Nat.le_of_not_lt inside)).imp
      (fun _ _ done => done.2) fun _ _ => id

/-- A consistent disk that holds the given files. -/
def Holds (n : Nat) (disk : Disk) (files : Nat → File) : Prop :=
  (∃ chain, Consistent n disk chain) ∧ ∀ ino < inodesPerBlock * n, fileOf disk.blocks ino = files ino

/-- A disk with the same blocks holds the same files. -/
theorem Holds.congr {n : Nat} {files : Nat → File} (holds : Holds n disk files) {other : Disk}
    (same : other.blocks = disk.blocks) (within : disk.Within other) : Holds n other files := by
  obtain ⟨⟨chain, consistent⟩, content⟩ := holds
  exact ⟨⟨chain, consistent.congr same within.size⟩, fun ino inside => by
    rw [same]
    exact content ino inside⟩

/-- A write to a held file is the ideal write, and a write to no file fails. -/
theorem Holds.write {n : Nat} {files : Nat → File} (holds : Holds n disk files) (write : Write)
    (small : write.offset ≤ 2 ^ 32 - 2) :
    Ends (treediskWrite write.ino write.offset write.block)
      (fun result after => disk.Within after ∧
        Holds n after (Function.update files write.ino
          ((files write.ino).write write.offset write.block)) ∧
        result = if write.ino < inodesPerBlock * n then 0 else -1)
      (fun message after => ∃ chain, Consistent n disk chain ∧
        Exhausted disk after chain ((files write.ino).blocksNeeded write.offset) message) disk := by
  -- The write changes the tree of one inode, and the others keep theirs.
  obtain ⟨⟨chain, consistent⟩, content⟩ := holds
  by_cases inside : write.ino < inodesPerBlock * n
  · refine (ends_treediskWrite consistent inside (by omega)).imp ?_ fun _ _ exhausted =>
      ⟨chain, consistent, content _ inside ▸ exhausted⟩
    rintro result after ⟨rfl, rest, updated, target, -⟩
    refine ⟨updated.within, ⟨⟨rest, updated.consistent consistent inside⟩, ?_⟩,
      (if_pos inside).symm⟩
    intro ino bounded
    by_cases same : ino = write.ino
    · rw [same, Function.update_self, target, content _ inside]
    · rw [Function.update_of_ne same, updated.confined.other_file consistent inside bounded same,
        content ino bounded]
  · refine (ends_treediskWrite_none _ _ consistent (Nat.le_of_not_lt inside)).imp ?_
      fun _ _ => False.elim
    rintro result after ⟨rfl, same, within⟩
    refine ⟨within, ⟨⟨chain, consistent.congr same within.size⟩, ?_⟩, (if_neg inside).symm⟩
    intro ino bounded
    rw [same, Function.update_of_ne (by rintro rfl; exact inside bounded), content ino bounded]

variable {writes : List Write}

/-- Every reached disk holds the ideal files and has been accessed only inside the store. -/
theorem Reached.holds (reached : Reached ninodes nblocks writes disk) :
    Holds (inodeblocksFor ninodes) disk (filesAfter writes) ∧ disk.nblocks = nblocks ∧
      disk.InRange := by
  -- Each call has its own lemma: creation starts the invariant, reads and writes keep it.
  induction reached with
  | created narrow run =>
    obtain ⟨within, ⟨failed, -⟩ | ⟨-, consistent, empty⟩⟩ :=
      (ends_treediskCreate ninodes narrow).ok run
    · exact absurd failed (by decide)
    · exact ⟨⟨consistent, empty⟩, within.size, within.range fun b member => by cases member⟩
  | read earlier small run ih =>
    obtain ⟨holds, size, range⟩ := ih
    obtain ⟨chain, consistent⟩ := holds.1
    obtain ⟨same, within⟩ := (consistent.read_same small).ok run
    exact ⟨holds.congr same within, within.size.trans size, within.range range⟩
  | @written _ _ _ write _ earlier small run ih =>
    obtain ⟨holds, size, range⟩ := ih
    obtain ⟨within, kept, -⟩ := (holds.write write small).ok run
    exact ⟨kept, within.size.trans size, within.range range⟩

/-- A store with enough blocks is turned into a file system. -/
theorem created_of_room (narrow : nblocks < 2 ^ 32)
    (room : inodeblocksFor ninodes + 2 ≤ nblocks) : ∃ disk, Reached ninodes nblocks [] disk := by
  obtain ⟨result, disk, run, -, ⟨-, tight⟩ | ⟨rfl, -⟩⟩ :=
    (ends_treediskCreate ninodes narrow).returned
  · omega
  · exact ⟨disk, .created narrow run⟩

/-- The most blocks that a list of writes takes. -/
def blocksFor : List Write → Nat
  | [] => 0
  | write :: earlier =>
    blocksFor earlier + (filesAfter earlier write.ino).blocksNeeded write.offset

/-- The free blocks of a disk without files are all blocks after the inode blocks. -/
theorem Consistent.free_of_vacant {n : Nat} {chain : List Nat} (consistent : Consistent n disk chain)
    (vacant : ∀ ino < inodesPerBlock * n, inodeSize disk.blocks ino = 0) :
    (freeBlocks disk.blocks chain).card = disk.nblocks - (n + 1) := by
  have trees : ∑ ino ∈ range (inodesPerBlock * n), inodeTree disk.blocks ino = 0 := by
    refine sum_eq_zero fun ino member => ?_
    have inside := mem_range.mp member
    rw [inodeTree, consistent.vacant ino inside (vacant ino inside)]
    exact nodes_hole _
  have partition := consistent.partition
  rw [trees, add_zero] at partition
  rw [partition, card_val, Nat.card_Ico]

/-- Writes that take no more blocks than the store has all succeed. -/
theorem reached_of_room (narrow : nblocks < 2 ^ 32) : ∀ (writes : List Write),
    (∀ write ∈ writes, write.ino < inodesPerBlock * inodeblocksFor ninodes ∧
      write.offset ≤ 2 ^ 32 - 2) →
    inodeblocksFor ninodes + 2 + blocksFor writes ≤ nblocks →
    ∃ disk chain, Reached ninodes nblocks writes disk ∧
      Consistent (inodeblocksFor ninodes) disk chain ∧
      nblocks - (inodeblocksFor ninodes + 1) ≤
        (freeBlocks disk.blocks chain).card + blocksFor writes := by
  -- Every write leaves the free blocks that the later ones need.
  intro writes
  induction writes with
  | nil =>
    intro _ room
    obtain ⟨disk, reached⟩ := created_of_room narrow (Nat.le_of_add_right_le room)
    obtain ⟨⟨⟨chain, consistent⟩, content⟩, size, -⟩ := reached.holds
    refine ⟨disk, chain, reached, consistent, ?_⟩
    rw [consistent.free_of_vacant fun ino inside => congrArg File.size (content ino inside), size]
    exact Nat.le_add_right _ _
  | cons write earlier ih =>
    intro valid room
    obtain ⟨inside, small⟩ := valid write List.mem_cons_self
    rw [blocksFor] at room
    obtain ⟨disk, chain, reached, consistent, free⟩ :=
      ih (fun w member => valid w (List.mem_cons_of_mem _ member)) (by omega)
    have content := reached.holds.1.2 write.ino inside
    have ends : Ends (treediskWrite write.ino write.offset write.block) _ _ disk :=
      ends_treediskWrite consistent inside (show write.offset < 2 ^ 32 - 1 by omega)
    rw [content] at ends
    cases run : treediskWrite write.ino write.offset write.block disk with
    | ok result after =>
      obtain ⟨-, final, updated, -, used⟩ := ends.ok run
      refine ⟨after, final, .written reached small run, updated.consistent consistent inside, ?_⟩
      rw [blocksFor]
      omega
    | error message after =>
      have short := (ends.error run).short
      omega

/-- A reader of a held file gets what the ideal file holds. -/
theorem Holds.read {n ino offset : Nat} {files : Nat → File} (holds : Holds n disk files)
    (inside : ino < inodesPerBlock * n) (small : offset < 2 ^ 32) :
    ∃ after, treediskRead ino offset disk = .ok ((files ino).read offset) after ∧
      after.blocks = disk.blocks := by
  obtain ⟨⟨chain, consistent⟩, content⟩ := holds
  obtain ⟨result, after, run, same, -, value⟩ :=
    (ends_treediskRead consistent inside small).returned
  rw [content ino inside] at value
  exact ⟨after, by rw [run, value]; rfl, same⟩

/-- Treedisk refines the ideal files: reads agree, and writes change one file as specified. A write
stops only with an empty free list, after there were fewer free blocks than it asked for. -/
theorem reached_refines_files (reached : Reached ninodes nblocks writes disk) :
    (∀ ino < inodesPerBlock * inodeblocksFor ninodes, ∀ offset < 2 ^ 32, ∃ after,
      treediskRead ino offset disk = .ok ((filesAfter writes ino).read offset) after ∧
        after.blocks = disk.blocks) ∧
    (∀ ino < inodesPerBlock * inodeblocksFor ninodes, ∀ offset ≤ 2 ^ 32 - 2, ∀ block,
      Ends (treediskWrite ino offset block)
        (fun result after => result = 0 ∧
          ∀ other < inodesPerBlock * inodeblocksFor ninodes, ∀ o < 2 ^ 32, ∃ final,
            treediskRead other o after = .ok ((if other = ino
              then (filesAfter writes ino).write offset block
              else filesAfter writes other).read o) final)
        (fun message after => message = fullMessage ∧ freeList (after.blocks 0) = 0 ∧
          ∃ chain, Linked disk.blocks (freeList (disk.blocks 0)) chain ∧
            (freeBlocks disk.blocks chain).card < (filesAfter writes ino).blocksNeeded offset)
        disk) ∧
    ∀ ino, inodesPerBlock * inodeblocksFor ninodes ≤ ino → ∀ offset block,
      (∃ after, treediskRead ino offset disk = .ok none after ∧ after.blocks = disk.blocks) ∧
        ∃ after, treediskWrite ino offset block disk = .ok (-1) after ∧
          after.blocks = disk.blocks := by
  -- A write that returns is the ideal one; one that stops has run out of blocks.
  obtain ⟨holds, -, -⟩ := reached.holds
  refine ⟨fun ino inside offset small => holds.read inside small, ?_, ?_⟩
  · intro ino inside offset small block
    refine (holds.write ⟨ino, offset, block⟩ small).imp ?_ fun _ _ stopped => ?_
    swap
    · obtain ⟨chain, consistent, exhausted⟩ := stopped
      exact ⟨exhausted.full, exhausted.empty, chain, consistent.linked, exhausted.short⟩
    rintro result after ⟨-, kept, value⟩
    refine ⟨value.trans (if_pos inside), fun other bounded o smaller => ?_⟩
    obtain ⟨final, run, -⟩ := kept.read bounded smaller
    refine ⟨final, run.trans ?_⟩
    by_cases same : other = ino
    · subst same
      rw [Function.update_self, if_pos rfl]
    · rw [Function.update_of_ne same, if_neg same]
  · intro ino past offset block
    obtain ⟨chain, consistent⟩ := holds.1
    obtain ⟨_, read, readRun, rfl, unread, -⟩ :=
      (ends_treediskRead_none offset consistent past).returned
    obtain ⟨_, written, writeRun, rfl, unwritten, -⟩ :=
      (ends_treediskWrite_none offset block consistent past).returned
    exact ⟨⟨read, readRun, unread⟩, written, writeRun, unwritten⟩

/-- Two writes to one file, of which the later one puts two levels of indirect blocks above
the first block. -/
def twoWrites : List Write := [⟨5, 200, nullBlock.setWord 0 2⟩, ⟨5, 0, nullBlock.setWord 0 1⟩]

/-- Both blocks of a file are read back, with a block of zeros between them and nothing behind. -/
theorem reached_refines_files_written : ∃ disk, Reached 64 20 twoWrites disk ∧
    (∃ after, treediskRead 5 0 disk = .ok (some (nullBlock.setWord 0 1)) after) ∧
    (∃ after, treediskRead 5 100 disk = .ok (some nullBlock) after) ∧
    (∃ after, treediskRead 5 200 disk = .ok (some (nullBlock.setWord 0 2)) after) ∧
    (∃ after, treediskRead 5 201 disk = .ok none after) ∧
    Ends (treediskWrite 6 0 nullBlock) (fun result after => result = 0 ∧
        (∃ final, treediskRead 5 200 after = .ok (some (nullBlock.setWord 0 2)) final) ∧
        ∃ final, treediskRead 6 0 after = .ok (some nullBlock) final)
      (fun _ after => freeList (after.blocks 0) = 0) disk ∧
    ∃ after, treediskWrite 64 0 nullBlock disk = .ok (-1) after := by
  -- The second write leaves a gap, which reads as zeros.
  obtain ⟨disk, -, reached, -, -⟩ := @reached_of_room 64 20 (by decide) twoWrites
    (by decide +kernel) (by decide +kernel)
  obtain ⟨reads, writes, invalid⟩ := reached_refines_files reached
  have inside : 5 < inodesPerBlock * inodeblocksFor 64 := by decide
  obtain ⟨first, firstRead, -⟩ := reads 5 inside 0 (by decide)
  obtain ⟨gap, gapRead, -⟩ := reads 5 inside 100 (by decide)
  obtain ⟨second, secondRead, -⟩ := reads 5 inside 200 (by decide)
  obtain ⟨past, pastRead, -⟩ := reads 5 inside 201 (by decide)
  obtain ⟨-, after, refused, -⟩ := invalid 64 (by decide) 0 nullBlock
  refine ⟨disk, reached, ⟨first, firstRead⟩, ⟨gap, gapRead⟩, ⟨second, secondRead⟩,
    ⟨past, pastRead⟩, ?_, after, refused⟩
  refine (writes 6 (by decide) 0 (by decide) nullBlock).imp ?_ fun _ _ stopped => stopped.2.1
  intro result after done
  obtain ⟨zero, kept⟩ := done
  exact ⟨zero, kept 5 inside 200 (by decide), kept 6 (by decide) 0 (by decide)⟩

/-- A multiset equal to an interval holds every number of the interval once and no other. -/
theorem count_of_partition {free : Multiset Nat} {trees : Nat → Multiset Nat}
    {low high count : Nat} (partition : free + ∑ i ∈ range count, trees i = (Ico low high).val)
    (b : Nat) :
    free.count b + ∑ i ∈ range count, (trees i).count b =
      if low ≤ b ∧ b < high then 1 else 0 := by
  have counted := congrArg (Multiset.count b) partition
  rw [Multiset.count_add, Multiset.count_sum'] at counted
  rw [counted, Multiset.count_eq_of_nodup (Ico low high).nodup]
  simp

/-- Every block after the inode blocks has one owner, and no operation leaves the store. -/
theorem reached_partition (reached : Reached ninodes nblocks writes disk) :
    (∃ chain, Linked disk.blocks (freeList (disk.blocks 0)) chain ∧ chain.Nodup ∧
      ∀ b, (freeBlocks disk.blocks chain).count b +
          ∑ ino ∈ range (inodesPerBlock * inodeblocksFor ninodes),
            (inodeTree disk.blocks ino).count b =
        if inodeblocksFor ninodes + 1 ≤ b ∧ b < nblocks then 1 else 0) ∧
    (∀ ino < inodesPerBlock * inodeblocksFor ninodes,
      (inodeSize disk.blocks ino = 0 → inodeRoot disk.blocks ino = 0) ∧
      (0 < inodeSize disk.blocks ino →
        inodeData disk.blocks ino (inodeSize disk.blocks ino - 1) ≠ 0) ∧
      ∀ o, inodeSize disk.blocks ino ≤ o → o < refsPerBlock ^ inodeHeight disk.blocks ino →
        inodeData disk.blocks ino o = 0) ∧
    disk.InRange ∧
    ∀ ino, (∀ offset < 2 ^ 32,
        Ends (treediskRead ino offset) (fun _ after => after.InRange) (fun _ _ => False) disk) ∧
      ∀ offset ≤ 2 ^ 32 - 2, ∀ block, Ends (treediskWrite ino offset block)
        (fun _ after => after.InRange) (fun _ after => after.InRange) disk := by
  -- The invariant of all reached disks counts every block once.
  obtain ⟨holds, size, range⟩ := reached.holds
  obtain ⟨chain, consistent⟩ := holds.1
  refine ⟨⟨chain, consistent.linked, ?_, ?_⟩, ?_, range, fun ino => ⟨?_, ?_⟩⟩
  · exact consistent.chain_nodup
  · rw [← size]
    exact count_of_partition consistent.partition
  · exact fun ino inside => ⟨consistent.vacant ino inside, consistent.last ino inside,
      consistent.beyond ino inside⟩
  · exact fun offset small => (consistent.read_same small).imp
      (fun _ _ done => done.2.range range) fun _ _ => id
  · exact fun offset small block => (holds.write ⟨ino, offset, block⟩ small).imp
      (fun _ _ done => done.1.range range) fun _ _ stopped => by
        obtain ⟨_, -, exhausted⟩ := stopped
        exact exhausted.within.range range

/-- After two writes, one of which grew a tree, block nine is free or in one tree. -/
theorem reached_partition_written :
    ∃ disk, Reached 64 20 twoWrites disk ∧ inodeHeight disk.blocks 5 = 2 ∧
      inodeData disk.blocks 5 200 ≠ 0 ∧ inodeData disk.blocks 5 220 = 0 ∧
      ∃ chain, Linked disk.blocks (freeList (disk.blocks 0)) chain ∧
        (freeBlocks disk.blocks chain).count 9 +
          ∑ ino ∈ range 64, (inodeTree disk.blocks ino).count 9 = 1 := by
  obtain ⟨disk, -, reached, -, -⟩ := @reached_of_room 64 20 (by decide) twoWrites
    (by decide +kernel) (by decide +kernel)
  obtain ⟨⟨chain, linked, -, once⟩, shape, -⟩ := reached_partition reached
  have size : inodeSize disk.blocks 5 = 201 := congrArg File.size (reached.holds.1.2 5 (by decide))
  obtain ⟨-, last, beyond⟩ := shape 5 (by decide)
  have height : inodeHeight disk.blocks 5 = 2 := by
    rw [inodeHeight, size]
    decide +kernel
  rw [size] at last beyond
  exact ⟨disk, reached, height, last (by decide), beyond 220 (by decide) (by rw [height]; decide),
    chain, linked, once 9⟩

end Runs

end Egos.Treedisk
