import Egos.Treedisk.Runs

/-! The size that a file reports after a write, as the signed number its users get. -/

namespace Egos.Treedisk

open Finset

/-- What a write of a block promises about the file: its size grows as needed, and it reads back. -/
structure Extends (before after : Disk) (ino offset : Nat) (block : Block) : Prop where
  size : ∃ old sized new resized, treediskGetsize ino before = .ok old sized ∧
    treediskGetsize ino after = .ok new resized ∧ new = max old ((offset : Int) + 1)
  readsBack : ∃ final, treediskRead ino offset after = .ok (some block) final

/-- A small word is its own signed value. -/
theorem signed_small {word : Nat} (small : word < 2 ^ 31) : signed word = word := if_pos small

/-- A large word has a negative signed value. -/
theorem signed_large {word : Nat} (large : 2 ^ 31 ≤ word) (narrow : word < 2 ^ 32) :
    signed word < 0 := by
  rw [signed, if_neg (Nat.not_lt.mpr large)]
  omega

/-- No signed value reaches the sign bit. -/
theorem signed_lt {word : Nat} (narrow : word < 2 ^ 32) : signed word < 2 ^ 31 := by
  unfold signed
  split
  · omega
  · omega

/-- The size of a valid inode is its block count read as a signed number. -/
theorem ends_treediskGetsize {n ino : Nat} {disk : Disk} {chain : List Nat}
    (consistent : Consistent n disk chain) (inside : ino < inodesPerBlock * n) :
    Ends (treediskGetsize ino) (fun result _ => result = signed (inodeSize disk.blocks ino))
      (fun _ _ => False) disk := by
  simp only [treediskGetsize, ends_bind]
  refine (ends_getSnapshot consistent.mounted inside).imp ?_ fun _ _ => id
  intro result middle done
  obtain ⟨rfl, -, -⟩ := done
  simp

/-- Whatever the disk, the reported size stays below the sign bit. -/
theorem ends_treediskGetsize_lt (ino : Nat) (disk : Disk) :
    Ends (treediskGetsize ino) (fun result _ => result < 2 ^ 31) (fun _ _ => True) disk := by
  simp only [treediskGetsize, ends_bind]
  unfold Ends
  cases run : treediskGetSnapshot ino disk with
  | error message final => trivial
  | ok result middle =>
    cases result with
    | none =>
      show (-1 : Int) < 2 ^ 31
      decide
    | some snapshot => exact signed_lt (Buffer.word_lt _ _)

/-- An offset at or past the sign bit is never reported as part of the file. -/
theorem Extends.offset_lt {before after : Disk} {ino offset : Nat} {block : Block}
    (extended : Extends before after ino offset block) : offset + 1 < 2 ^ 31 := by
  obtain ⟨old, sized, new, resized, -, run, grown⟩ := extended.size
  have bound := (ends_treediskGetsize_lt ino after).ok run
  omega

section Room

variable {disk : Disk} {snapshot : Snapshot} {chain : List Nat}
variable {height parentOff slot : Nat} {parentBlock : Block}

/-- A walk does not panic while there is a free block for each of its levels. -/
theorem ends_writeWalk_room {offset : Nat} (small : offset < 2 ^ 32) (block : Block)
    (descent : Descent disk snapshot chain height parentOff parentBlock slot)
    (room : height + 1 ≤ (freeBlocks disk.blocks chain).card) :
    Ends (writeWalk offset block height snapshot parentOff parentBlock slot)
      (fun _ _ => True) (fun _ _ => False) disk :=
  (ends_writeWalk small block height descent).imp (fun _ _ _ => trivial)
    fun _ _ exhausted => absurd room (Nat.not_le.mpr exhausted.short)

end Room

section Fresh

variable {n ino : Nat} {disk : Disk} {chain : List Nat}

/-- Storing the inode of an empty file under another size lets a walk start at its empty root. -/
theorem fresh_descent (consistent : Consistent n disk chain) (inside : ino < inodesPerBlock * n)
    (vacant : inodeSize disk.blocks ino = 0) {middle : Disk} (same : middle.blocks = disk.blocks)
    (within : disk.Within middle) {size : Nat} (small : size < 2 ^ 32) (height : Nat)
    {stored : Block}
    (copy : stored = ((snapshotOf disk.blocks ino).setNblocks size).inodeblock) :
    Descent (middle.put (inodeBlock ino) stored) ((snapshotOf disk.blocks ino).setNblocks size)
        chain height (inodeBlock ino) stored (2 * (ino % inodesPerBlock)) ∧
      freeBlocks (middle.put (inodeBlock ino) stored).blocks chain =
        freeBlocks disk.blocks chain := by
  -- An inode of size zero has an empty root, below which there is nothing.
  obtain ⟨nonzero, low⟩ := inodeBlock_bounds inside
  have room := consistent.room
  have wide := within.size
  have root : stored.word (2 * (ino % inodesPerBlock)) = 0 := by
    rw [copy]
    exact (snapshotOf_setNblocks disk.blocks ino size small).1.trans
      (consistent.vacant ino inside vacant)
  have apart := fun x (member : x ∈ freeBlocks disk.blocks chain) =>
    consistent.share_bounds inside (Multiset.mem_add.mpr (Or.inl member))
  have agree : ∀ x ∈ chain, (middle.put (inodeBlock ino) stored).blocks x = disk.blocks x := by
    intro x member
    have bounds := apart x (mem_freeBlocks_of_mem member)
    rw [Disk.put_blocks, Function.update_of_ne (by omega), same]
  have zero : (middle.put (inodeBlock ino) stored).blocks 0 = disk.blocks 0 := by
    rw [Disk.put_blocks, Function.update_of_ne (Ne.symm nonzero), same]
  have free := freeBlocks_congr agree
  have tree : treeBlocks (middle.put (inodeBlock ino) stored).blocks height
      (stored.word (2 * (ino % inodesPerBlock))) = 0 := by
    rw [root]
    exact nodes_hole _
  refine ⟨⟨zero.symm, ?_, root_inside (inode_position ino), ?_, nonzero, ?_, ?_, ?_, ?_, ?_⟩,
    free⟩
  · rw [zero]
    exact consistent.linked.congr agree
  · rw [Disk.put_nblocks, wide]
    omega
  · exact fun present => absurd root present
  · rw [tree, add_zero, free]
    exact (Multiset.nodup_add.mp (consistent.share_nodup inside)).1
  · rw [tree, add_zero, free, Disk.put_nblocks, wide]
    exact fun x member => (apart x member).2
  · rw [tree, add_zero, free]
    intro member
    have bounds := apart _ member
    omega
  · rw [Disk.put_nblocks, wide]
    exact consistent.narrow

/-- A first write that inserts no level above the root returns zero if blocks enough are free. -/
theorem ends_treediskWrite_first (consistent : Consistent n disk chain)
    (inside : ino < inodesPerBlock * n) (vacant : inodeSize disk.blocks ino = 0) {offset : Nat}
    (small : offset < 2 ^ 32) (block : Block)
    (flat : countLevels offset 0 = 0 ∨ (offset + 1) % 2 ^ 32 = 0)
    (room : countLevels offset 0 + 1 ≤ (freeBlocks disk.blocks chain).card) :
    Ends (treediskWrite ino offset block) (fun result _ => result = 0) (fun _ _ => False)
      disk := by
  obtain ⟨-, low⟩ := inodeBlock_bounds inside
  have blocks := consistent.room
  simp only [treediskWrite, ends_bind]
  refine (ends_getSnapshot consistent.mounted inside).imp ?_ fun _ _ => id
  intro result middle done
  obtain ⟨rfl, same, within⟩ := done
  have size := (snapshotOf_setNblocks disk.blocks ino ((offset + 1) % 2 ^ 32)
    (Nat.mod_lt _ (by decide))).2.1
  have levels : levelsOf 0 = 0 := rfl
  have stored : inodeBlock ino < middle.nblocks := by
    rw [within.size]
    omega
  obtain ⟨descent, free⟩ := fresh_descent consistent inside vacant same within
    (Nat.mod_lt (offset + 1) (by decide)) (countLevels offset 0) rfl
  have height : (if ((snapshotOf disk.blocks ino).setNblocks ((offset + 1) % 2 ^ 32)).nblocks = 0
      then countLevels offset 0 else max (levelsOf 0) (countLevels offset 0)) =
      countLevels offset 0 := by
    rw [levels, Nat.zero_max, ite_self]
  have walk := ends_writeWalk_room small block descent (by rw [free]; exact room)
  simp only [snapshotOf_nblocks, vacant, ge_iff_le, Nat.zero_le, if_true]
  -- Either way the loop that inserts levels is not entered.
  split
  · simp only [pure_bind, height, ends_bind]
    apply (ends_writeOrPanic stored).mpr
    exact walk.imp (fun _ _ _ => rfl) fun _ _ => id
  · rename_i present
    have none : countLevels offset 0 - levelsOf 0 = 0 := by
      rcases flat with none | wrapped
      · rw [none, Nat.zero_sub]
      · exact absurd (by rw [size, wrapped]) present
    simp only [none, growLevels, pure_bind, height, ends_bind]
    apply (ends_writeOrPanic stored).mpr
    exact walk.imp (fun _ _ _ => rfl) fun _ _ => id

/-- On a fresh file system a first write inside the tree's first level, or at the last offset of
all, returns zero if blocks enough are free. -/
theorem fresh_write {ninodes nblocks : Nat} (reached : Reached ninodes nblocks [] disk)
    (inside : ino < inodesPerBlock * inodeblocksFor ninodes) {offset : Nat}
    (small : offset < 2 ^ 32) (block : Block)
    (flat : countLevels offset 0 = 0 ∨ (offset + 1) % 2 ^ 32 = 0)
    (room : inodeblocksFor ninodes + countLevels offset 0 + 2 ≤ nblocks) :
    ∃ after, treediskWrite ino offset block disk = .ok 0 after := by
  obtain ⟨⟨⟨chain, consistent⟩, content⟩, size, -⟩ := reached.holds
  have vacant : ∀ ino < inodesPerBlock * inodeblocksFor ninodes,
      inodeSize disk.blocks ino = 0 := fun ino bounded =>
    congrArg File.size (content ino bounded)
  have free := consistent.free_of_vacant vacant
  obtain ⟨result, after, run, rfl⟩ := (ends_treediskWrite_first consistent inside
    (vacant ino inside) small block flat (by rw [free, size]; omega)).returned
  exact ⟨after, run⟩

end Fresh

section Writes

variable {ninodes nblocks ino offset : Nat} {writes : List Write} {disk after : Disk}
variable {block : Block}

/-- A successful write keeps its promise exactly when the new block count has no sign bit. -/
theorem write_extends_iff (reached : Reached ninodes nblocks writes disk)
    (inside : ino < inodesPerBlock * inodeblocksFor ninodes)
    (run : treediskWrite ino offset block disk = .ok 0 after) :
    Extends disk after ino offset block ↔
      max (inodeSize disk.blocks ino) (offset + 1) < 2 ^ 31 := by
  obtain ⟨holds, -, -⟩ := reached.holds
  obtain ⟨⟨chain, consistent⟩, content⟩ := holds
  obtain ⟨old, sized, before, oldSize⟩ := (ends_treediskGetsize consistent inside).returned
  -- Everything below concerns offsets whose successor is still a 32-bit number.
  have written : offset ≤ 2 ^ 32 - 2 → ∃ new resized final,
      treediskGetsize ino after = .ok new resized ∧
      new = signed (max (inodeSize disk.blocks ino) (offset + 1)) ∧
      treediskRead ino offset after = .ok (some block) final := by
    intro small
    obtain ⟨-, kept, -⟩ := (reached.holds.1.write ⟨ino, offset, block⟩ small).ok run
    obtain ⟨final, read, -⟩ := kept.read inside (show offset < 2 ^ 32 by omega)
    obtain ⟨⟨rest, later⟩, files⟩ := kept
    have file := files ino inside
    rw [Function.update_self, ← content ino inside] at file
    have size : inodeSize after.blocks ino = max (inodeSize disk.blocks ino) (offset + 1) :=
      congrArg File.size file
    obtain ⟨new, resized, sizeRun, newSize⟩ := (ends_treediskGetsize later inside).returned
    refine ⟨new, resized, final, sizeRun, by rw [newSize, size], ?_⟩
    have block : (Function.update (filesAfter writes) ino
        ((filesAfter writes ino).write offset block) ino).read offset = some block := by
      rw [Function.update_self, File.read, if_pos (by simp only [File.write]; omega),
        File.write_self]
    rw [read, block]
  constructor
  · intro extended
    have low := extended.offset_lt
    obtain ⟨new, resized, final, sizeRun, newSize, -⟩ := written (by omega)
    obtain ⟨first, firstRun, second, secondRun, firstEq, secondEq, grown⟩ := extended.size
    rw [sizeRun] at secondEq
    cases secondEq
    -- With the sign bit set the reported size would be negative.
    by_contra large
    have narrow : inodeSize disk.blocks ino < 2 ^ 32 := Buffer.word_lt _ _
    have negative := signed_large (Nat.le_of_not_lt large) (by omega)
    omega
  · intro small
    obtain ⟨new, resized, final, sizeRun, newSize, read⟩ := written (by omega)
    refine ⟨⟨old, sized, new, resized, before, sizeRun, ?_⟩, final, read⟩
    rw [newSize, oldSize, signed_small small, signed_small (by omega)]
    omega

end Writes

/-- The first write to a fresh file reports one block. -/
theorem write_extends_first :
    ∃ disk after, Reached 64 20 [] disk ∧ treediskWrite 0 0 nullBlock disk = .ok 0 after ∧
      Extends disk after 0 0 nullBlock := by
  obtain ⟨disk, reached⟩ := @created_of_room 64 20 (by decide) (by decide)
  obtain ⟨after, run⟩ := @fresh_write 0 disk 64 20 reached (by decide) 0 (by decide) nullBlock
    (Or.inl (by decide +kernel)) (by decide +kernel)
  have vacant : inodeSize disk.blocks 0 = 0 :=
    congrArg File.size (reached.holds.1.2 0 (by decide))
  refine ⟨disk, after, reached, run, (write_extends_iff reached (by decide) run).mpr ?_⟩
  rw [vacant]
  decide

/-- A write at the last 32-bit offset succeeds, but its successor wraps to an empty file. -/
theorem write_last_offset :
    ∃ disk after, Reached 64 20 [] disk ∧
      treediskWrite 0 (2 ^ 32 - 1) nullBlock disk = .ok 0 after ∧
      ¬ Extends disk after 0 (2 ^ 32 - 1) nullBlock := by
  obtain ⟨disk, reached⟩ := @created_of_room 64 20 (by decide) (by decide)
  obtain ⟨after, run⟩ := @fresh_write 0 disk 64 20 reached (by decide) (2 ^ 32 - 1) (by decide)
    nullBlock (Or.inr (by decide)) (by decide +kernel)
  refine ⟨disk, after, reached, run, ?_⟩
  intro extended
  exact absurd extended.offset_lt (by decide)

end Egos.Treedisk
