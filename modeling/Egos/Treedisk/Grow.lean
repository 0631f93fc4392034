import Egos.Treedisk.Walk

/-! How many levels a file needs, and how its tree grows at the root. -/

namespace Egos.Treedisk

/-- The loop that counts levels stops at the first level whose trees are large enough. -/
theorem countLevels_bound {x : Nat} (small : x < 2 ^ 32) (nlevels : Nat) :
    x < refsPerBlock ^ countLevels x nlevels := by
  fun_induction countLevels x nlevels with
  | case1 nlevels running ih => exact ih
  | case2 nlevels done =>
    rw [logShiftR_eq small] at done
    simp only [ne_eq, Decidable.not_not] at done
    rcases Nat.div_eq_zero_iff.mp done with impossible | bound
    · exact absurd impossible (Nat.pow_pos (by decide)).ne'
    · exact bound

/-- A tree of any height that is large enough for both has at least the counted levels. -/
theorem countLevels_le {x height : Nat} (small : x < 2 ^ 32) (enough : x < refsPerBlock ^ height)
    (nlevels : Nat) (start : nlevels ≤ height) : countLevels x nlevels ≤ height := by
  fun_induction countLevels x nlevels with
  | case1 nlevels running ih =>
    -- The loop is still running, so the bound has not been reached at this level.
    refine ih (Nat.lt_of_le_of_ne start ?_)
    rintro rfl
    rw [logShiftR_eq small] at running
    exact running (Nat.div_eq_of_lt enough)
  | case2 nlevels done => exact start

/-- A file with blocks has trees large enough for its last block. -/
theorem levelsOf_bound {nblocks : Nat} (positive : 0 < nblocks) (small : nblocks ≤ 2 ^ 32) :
    nblocks ≤ refsPerBlock ^ levelsOf nblocks := by
  have bound := countLevels_bound (x := nblocks - 1) (by omega) 0
  simp only [levelsOf, if_pos positive]
  omega

/-- A larger file needs at least as many levels. -/
theorem levelsOf_le_countLevels {nblocks offset : Nat} (small : offset < 2 ^ 32)
    (larger : nblocks ≤ offset + 1) : levelsOf nblocks ≤ countLevels offset 0 := by
  unfold levelsOf
  split
  · refine countLevels_le (by omega) ?_ 0 (Nat.zero_le _)
    exact Nat.lt_of_le_of_lt (by omega) (countLevels_bound small 0)
  · exact Nat.zero_le _

/-- A file that ends right after an offset has the levels counted for that offset. -/
theorem levelsOf_succ (offset : Nat) : levelsOf (offset + 1) = countLevels offset 0 := by
  simp [levelsOf]

/-- What growing a tree may rely on. -/
structure Growth (disk : Disk) (snapshot : Snapshot) (chain : List Nat) (height : Nat) : Prop where
  current : snapshot.superblock = disk.blocks 0
  linked : Linked disk.blocks (freeList (disk.blocks 0)) chain
  inodeInside : snapshot.inode < inodesPerBlock
  distinct : (freeBlocks disk.blocks chain +
    treeBlocks disk.blocks height snapshot.root).Nodup
  bounded : ∀ x ∈ freeBlocks disk.blocks chain + treeBlocks disk.blocks height snapshot.root,
    x < disk.nblocks
  narrow : disk.nblocks ≤ 2 ^ 32

/-- What growing a tree to a larger height has done. -/
structure Grown (before after : Disk) (old new : Snapshot) (chain rest : List Nat)
    (height taller : Nat) : Prop where
  within : before.Within after
  current : new.superblock = after.blocks 0
  linked : Linked after.blocks (freeList (after.blocks 0)) rest
  inodes : nInodeblocks (after.blocks 0) = nInodeblocks (before.blocks 0)
  blockno : new.inodeBlockno = old.inodeBlockno
  inode : new.inode = old.inode
  words : ∀ i < refsPerBlock, i ≠ 2 * old.inode → new.inodeblock.word i = old.inodeblock.word i
  owned : freeBlocks after.blocks rest + treeBlocks after.blocks taller new.root =
    freeBlocks before.blocks chain + treeBlocks before.blocks height old.root
  shrinks : freeBlocks after.blocks rest ≤ freeBlocks before.blocks chain
  kept : ∀ x, x ≠ 0 → x ∉ freeBlocks before.blocks chain → after.blocks x = before.blocks x
  data : ∀ o < refsPerBlock ^ taller, dataBlock after.blocks o taller new.root =
    if o < refsPerBlock ^ height then dataBlock before.blocks o height old.root else 0

/-- An inode of a block has its root reference inside the block. -/
theorem root_inside {inode : Nat} (inside : inode < inodesPerBlock) : 2 * inode < refsPerBlock := by
  simp only [inodesPerBlock] at inside
  simp only [refsPerBlock]
  omega

/-- An inode of a block has its block count inside the block. -/
theorem nblocks_inside {inode : Nat} (inside : inode < inodesPerBlock) :
    2 * inode + 1 < refsPerBlock := by
  simp only [inodesPerBlock] at inside
  simp only [refsPerBlock]
  omega

/-- A snapshot's root reads back as it was stored. -/
theorem Snapshot.root_setRoot {snapshot : Snapshot} {root : Nat}
    (inside : snapshot.inode < inodesPerBlock) (small : root < 2 ^ 32) :
    (snapshot.setRoot root).root = root := by
  simp only [Snapshot.root, Snapshot.setRoot]
  rw [Buffer.word_setWord_same _ _ (ref_inside (root_inside inside)), Nat.mod_eq_of_lt small]

/-- The disk after one indirect block has been inserted above the root. -/
theorem Growth.raise {disk middle : Disk} {snapshot : Snapshot} {chain rest : List Nat}
    {height indir : Nat} (growth : Growth disk snapshot chain height)
    (allocated : Allocated disk middle chain rest indir) :
    Grown disk (middle.put indir (nullBlock.setWord 0 snapshot.root)) snapshot
      ({ snapshot with superblock := middle.blocks 0 }.setRoot indir) chain rest
      height (height + 1) := by
  have member : indir ∈ freeBlocks disk.blocks chain := by simp [allocated.taken]
  have present : indir ≠ 0 := by
    rintro rfl
    exact zero_notMem_freeBlocks growth.linked member
  have bound : indir < disk.nblocks := growth.bounded _ (Multiset.mem_add.mpr (Or.inl member))
  have inside : indir < middle.nblocks := by rw [allocated.within.size]; exact bound
  have root : ({ snapshot with superblock := middle.blocks 0 }.setRoot indir).root = indir :=
    Snapshot.root_setRoot growth.inodeInside (Nat.lt_of_lt_of_le bound growth.narrow)
  have distinct := growth.distinct
  rw [Multiset.nodup_add] at distinct
  have unfree : indir ∉ freeBlocks middle.blocks rest := by
    have single := distinct.1
    rw [allocated.taken, Multiset.nodup_cons] at single
    exact single.1
  -- Neither the rest of the free list nor the old tree contains the new block.
  have agree : ∀ x ∈ rest, (middle.put indir (nullBlock.setWord 0 snapshot.root)).blocks x =
      middle.blocks x := fun x listed => by
    refine Function.update_of_ne ?_ _ _
    rintro rfl
    exact unfree (mem_freeBlocks_of_mem listed)
  have zero : (middle.put indir (nullBlock.setWord 0 snapshot.root)).blocks 0 = middle.blocks 0 :=
    Function.update_of_ne (Ne.symm present) _ _
  have kept : ∀ x, x ≠ 0 → x ∉ freeBlocks disk.blocks chain →
      (middle.put indir (nullBlock.setWord 0 snapshot.root)).blocks x = disk.blocks x := by
    intro x nonzero outside
    have other : x ≠ indir := fun same => outside (same ▸ member)
    rw [Disk.put_blocks, Function.update_of_ne other]
    exact allocated.kept x nonzero fun free => outside (by simp [allocated.taken, free])
  have tree : ∀ x ∈ treeBlocks disk.blocks height snapshot.root, disk.blocks x =
      (middle.put indir (nullBlock.setWord 0 snapshot.root)).blocks x := fun x below => by
    refine (kept x ?_ ?_).symm
    · rintro rfl
      exact zero_notMem_nodes _ _ below
    · exact fun free => Multiset.disjoint_left.mp distinct.2.2 free below
  have first : ((middle.put indir (nullBlock.setWord 0 snapshot.root)).blocks indir).word 0 =
      snapshot.root := by
    rw [Disk.put_blocks, Function.update_self, Buffer.word_setWord_same _ _ (by decide)]
    exact Nat.mod_eq_of_lt (Buffer.word_lt _ _)
  have others : ∀ i < refsPerBlock, i ≠ 0 →
      ((middle.put indir (nullBlock.setWord 0 snapshot.root)).blocks indir).word i = 0 := by
    intro i bounded other
    rw [Disk.put_blocks, Function.update_self,
      Buffer.word_setWord_ne _ _ (ref_inside bounded) other, nullBlock_word]
  refine ⟨allocated.within.trans (Disk.Within.put _ inside), zero.symm, ?_, ?_, rfl, rfl, ?_, ?_,
    ?_, kept, ?_⟩
  · rw [zero]
    exact allocated.linked.congr agree
  · rw [zero]
    exact allocated.inodes
  · intro i bounded other
    exact Buffer.word_setWord_ne _ _ (ref_inside bounded) other
  · rw [root, treeBlocks, nodes_raise height present (by decide) others, first,
      nodes_congr height _ tree, freeBlocks_congr agree, allocated.taken]
    simp only [treeBlocks, ← Multiset.singleton_add]
    abel
  · rw [freeBlocks_congr agree, allocated.taken]
    exact Multiset.le_cons_self _ _
  · intro o bounded
    rw [root, dataBlock_inner o height present]
    have digit : indexAt o height = o / refsPerBlock ^ height := by
      refine Nat.mod_eq_of_lt (Nat.div_lt_of_lt_mul ?_)
      rw [← Nat.pow_succ]
      exact bounded
    rw [digit]
    split
    · rename_i low
      rw [Nat.div_eq_of_lt low, first]
      exact leaf_congr (by decide) o height _ tree
    · rename_i high
      have far : o / refsPerBlock ^ height ≠ 0 := fun zero =>
        (Nat.div_eq_zero_iff.mp zero).elim (Nat.pow_pos (by decide)).ne' high
      rw [others _ (digit ▸ indexAt_lt o height) far]
      exact leaf_hole ..

/-- Inserting an indirect block takes one block off the free list. -/
theorem Growth.raise_taken {disk middle : Disk} {snapshot : Snapshot} {chain rest : List Nat}
    {height indir : Nat} (growth : Growth disk snapshot chain height)
    (allocated : Allocated disk middle chain rest indir) (block : Block) :
    (freeBlocks disk.blocks chain).card =
      (freeBlocks (middle.put indir block).blocks rest).card + 1 := by
  have single := (Multiset.nodup_add.mp growth.distinct).1
  rw [allocated.taken, Multiset.nodup_cons] at single
  have agree : ∀ x ∈ rest, (middle.put indir block).blocks x = middle.blocks x := by
    intro x listed
    refine Function.update_of_ne ?_ _ _
    rintro rfl
    exact single.1 (mem_freeBlocks_of_mem listed)
  rw [allocated.taken, freeBlocks_congr agree, Multiset.card_cons]

/-- Growing by no level changes nothing. -/
theorem Growth.refl {disk : Disk} {snapshot : Snapshot} {chain : List Nat} {height : Nat}
    (growth : Growth disk snapshot chain height) :
    Grown disk disk snapshot snapshot chain chain height height :=
  ⟨Disk.Within.refl _, growth.current, growth.linked, rfl, rfl, rfl, fun _ _ _ => rfl, rfl,
    le_refl _, fun _ _ _ => rfl, fun _ bounded => by rw [if_pos bounded]⟩

/-- Growth in two stages is growth. -/
theorem Grown.trans {first second third : Disk} {old middle new : Snapshot}
    {chain rest final : List Nat} {height taller tallest : Nat} (start : height ≤ taller)
    (left : Grown first second old middle chain rest height taller)
    (right : Grown second third middle new rest final taller tallest) :
    Grown first third old new chain final height tallest := by
  -- What the second stage keeps includes what the first one has left.
  refine ⟨left.within.trans right.within, right.current, right.linked,
    right.inodes.trans left.inodes, right.blockno.trans left.blockno,
    right.inode.trans left.inode, ?_, right.owned.trans left.owned,
    right.shrinks.trans left.shrinks, ?_, ?_⟩
  · intro i bounded other
    rw [right.words i bounded (by rw [left.inode]; exact other), left.words i bounded other]
  · intro x nonzero outside
    have free : x ∉ freeBlocks second.blocks rest := fun bad =>
      outside (Multiset.mem_of_le left.shrinks bad)
    rw [right.kept x nonzero free, left.kept x nonzero outside]
  · intro o bounded
    rw [right.data o bounded]
    split
    · rename_i low
      rw [left.data o low]
    · rename_i high
      rw [if_neg fun low => high (Nat.lt_of_lt_of_le low (Nat.pow_le_pow_right (by decide) start))]

/-- A grown tree may grow further. -/
theorem Growth.after {disk after : Disk} {snapshot new : Snapshot} {chain rest : List Nat}
    {height taller : Nat} (growth : Growth disk snapshot chain height)
    (grown : Grown disk after snapshot new chain rest height taller) :
    Growth after new rest taller := by
  refine ⟨grown.current, grown.linked, ?_, ?_, ?_, ?_⟩
  · rw [grown.inode]
    exact growth.inodeInside
  · rw [grown.owned]
    exact growth.distinct
  · rw [grown.owned, grown.within.size]
    exact growth.bounded
  · rw [grown.within.size]
    exact growth.narrow

/-- Growing inserts the missing levels, and panics only when the free list is exhausted. -/
theorem ends_growLevels : ∀ (missing : Nat) {disk : Disk} {snapshot : Snapshot} {chain : List Nat}
    {height : Nat}, Growth disk snapshot chain height →
    Ends (growLevels missing snapshot)
      (fun new after => ∃ rest,
        Grown disk after snapshot new chain rest height (height + missing) ∧
        (freeBlocks disk.blocks chain).card = (freeBlocks after.blocks rest).card + missing)
      (fun message after => Exhausted disk after chain missing message) disk := by
  -- Every round of the loop inserts one indirect block above the root.
  intro missing
  induction missing with
  | zero =>
    intro disk snapshot chain height growth
    simp only [growLevels, ends_pure]
    exact ⟨chain, growth.refl, rfl⟩
  | succ missing ih =>
    intro disk snapshot chain height growth
    simp only [growLevels, ends_bind]
    refine (ends_treediskAllocBlock growth.current growth.linked
      (Multiset.nodup_add.mp growth.distinct).1
      fun x member => growth.bounded x (Multiset.mem_add.mpr (Or.inl member))).imp ?_ ?_
    · rintro ⟨indir, updated⟩ middle ⟨rest, allocated, rfl⟩
      have inside : indir < middle.nblocks := by
        rw [allocated.within.size]
        exact growth.bounded _ (by simp [allocated.taken])
      have raised := growth.raise allocated
      have taken := growth.raise_taken allocated (nullBlock.setWord 0 snapshot.root)
      rw [ends_writeOrPanic inside]
      refine (ih (growth.after raised)).imp ?_ ?_
      · rintro new after ⟨final, grown, count⟩
        rw [Nat.add_right_comm, Nat.add_assoc] at grown
        exact ⟨final, raised.trans (Nat.le_succ _) grown, by omega⟩
      · exact fun message after exhausted => exhausted.earlier raised.within (by omega)
    · exact fun message after stopped =>
        (exhausted_at_once growth.linked stopped).more (Nat.le_add_left 1 _)

end Egos.Treedisk
