import Egos.Treedisk.Sizes

/-! A write that runs out of free blocks leaves every file readable as it was. -/

namespace Egos.Treedisk

open Finset

section Steps

variable {disk middle next after : Disk} {snapshot : Snapshot} {chain rest : List Nat}
variable {height parentOff slot b : Nat} {parentBlock : Block} {fresh : Bool}

/-- The last block of the free list holds no references when it is handed out. -/
theorem ends_treediskAllocBlock_last (current : snapshot.superblock = disk.blocks 0)
    (linked : Linked disk.blocks (freeList (disk.blocks 0)) chain)
    (bounded : ∀ x ∈ freeBlocks disk.blocks chain, x < disk.nblocks) :
    Ends (treediskAllocBlock snapshot)
      (fun result after => freeList (after.blocks 0) = 0 →
        ∀ i < refsPerBlock, (after.blocks result.1).word i = 0)
      (fun _ _ => True) disk := by
  cases chain with
  | nil =>
    have empty : freeList snapshot.superblock = 0 := by rw [current]; exact linked
    simp [treediskAllocBlock, empty]
  | cons b rest =>
    obtain ⟨head, present, -⟩ := linked
    have inside : b < disk.nblocks := bounded b (by simp)
    have first : 0 < disk.nblocks := by omega
    simp only [treediskAllocBlock, current, head, present, if_false, ends_bind,
      ends_belowRead inside, Option.getD_some]
    by_cases empty : scanRefs (disk.blocks b) (refsPerBlock - 1) = 0
    · -- The list block itself is handed out: its references are used up and its link is the end.
      simp only [empty, if_true, ends_bind]
      rw [ends_writeOrPanic (by simpa using first), ends_pure]
      simp only [Disk.put_blocks, Disk.touch_blocks, Function.update_self,
        Function.update_of_ne present]
      intro done i low
      rw [freeList, Buffer.word_setWord_same _ _ (by decide),
        Nat.mod_eq_of_lt (Buffer.word_lt _ _)] at done
      rcases Nat.eq_zero_or_pos i with zero | positive
      · rw [zero, done]
      · exact scanRefs_eq_zero empty i positive (by omega)
    · -- A reference is handed out, so the list block is still on the list.
      simp only [if_neg empty, ends_bind]
      rw [ends_writeOrPanic (by simpa using inside), ends_pure]
      simp only [Disk.put_blocks, Disk.touch_blocks, Function.update_of_ne (Ne.symm present)]
      intro done
      exact absurd (head.symm.trans done) present

/-- Following a reference fails only at a hole with nothing free, and the last free block that it
allocates holds no references. -/
theorem ends_stepDown_last
    (descent : Descent disk snapshot chain height parentOff parentBlock slot) :
    Ends (stepDown snapshot parentOff parentBlock slot)
      (fun result after => result.2.1 = true → freeList (after.blocks 0) = 0 →
        ∀ i < refsPerBlock, (after.blocks result.1).word i = 0)
      (fun _ after => parentBlock.word slot = 0 ∧ chain = [] ∧ after = disk) disk := by
  -- Only a hole leads to an allocation, and one that fails changes nothing.
  by_cases hole : parentBlock.word slot = 0
  · simp only [stepDown, hole, if_true, ends_bind]
    have free : ∀ x ∈ freeBlocks disk.blocks chain, x < disk.nblocks :=
      fun x member => descent.bounded x (Multiset.mem_add.mpr (Or.inl member))
    refine ((ends_treediskAllocBlock descent.current descent.linked
      (Multiset.nodup_add.mp descent.distinct).1 free).and
      (ends_treediskAllocBlock_last descent.current descent.linked free)).imp ?_ ?_
    · intro result taken done
      obtain ⟨⟨rest, allocated, -⟩, last⟩ := done
      simp only [ends_pure]
      rw [ends_writeOrPanic (by rw [allocated.within.size]; exact descent.parentInside)]
      have other : result.1 ≠ parentOff := by
        intro same
        apply descent.apart
        rw [← same, allocated.taken]
        simp
      simp only [Disk.put_blocks, Function.update_of_ne (Ne.symm descent.parentNonzero),
        Function.update_of_ne other]
      exact fun _ => last
    · intro message after stopped
      exact ⟨trivial, stopped.1.2⟩
  · simp only [stepDown, hole, if_false, ends_pure]
    intro impossible
    cases impossible

/-- A tree that holds what another one held before, and that stays on the disk. -/
structure Agrees (before after : Disk) (height old new : Nat) : Prop where
  contents : ∀ o, contents after.blocks o height new = contents before.blocks o height old
  bounded : ∀ x ∈ treeBlocks after.blocks height new, x < after.nblocks

/-- What a walk that ran out of free blocks has done below one reference of its parent block. -/
structure Torn (before after : Disk) (chain : List Nat) (height parentOff : Nat)
    (parentBlock : Block) (slot : Nat) : Prop where
  within : before.Within after
  inodes : nInodeblocks (after.blocks 0) = nInodeblocks (before.blocks 0)
  kept : ∀ x, x ≠ 0 → x ≠ parentOff →
    x ∉ freeBlocks before.blocks chain +
      treeBlocks before.blocks height (parentBlock.word slot) →
    after.blocks x = before.blocks x
  -- Either the walk stopped at this very reference, or it has stored the parent block.
  parent : (chain = [] ∧ parentBlock.word slot = 0 ∧ after.blocks = before.blocks) ∨
    ((∀ i < refsPerBlock, i ≠ slot → (after.blocks parentOff).word i = parentBlock.word i) ∧
      Agrees before after height (parentBlock.word slot) ((after.blocks parentOff).word slot))

/-- Below the followed block every reference still holds what the pending tree held. -/
theorem Stepped.child_agrees
    (stepped : Stepped disk middle chain rest parentOff parentBlock slot b fresh)
    (descent : Descent disk snapshot chain (height + 1) parentOff parentBlock slot)
    (last : fresh = true → freeList (middle.blocks 0) = 0 →
      ∀ i < refsPerBlock, (middle.blocks b).word i = 0)
    (same : next.blocks = middle.blocks) (size : next.nblocks = middle.nblocks) {index : Nat}
    (inside : index < refsPerBlock)
    (torn : Torn next after rest height b (loaded middle.blocks b fresh) index) {i : Nat}
    (low : i < refsPerBlock) :
    (∀ o, contents after.blocks o height ((after.blocks b).word i) =
      contents (pending middle.blocks b fresh) o height ((loaded middle.blocks b fresh).word i)) ∧
    ∀ x ∈ treeBlocks after.blocks height ((after.blocks b).word i), x < after.nblocks := by
  have total : after.nblocks = disk.nblocks := by
    rw [torn.within.size, size, stepped.within.size]
  have pendingBounded : ∀ x ∈ treeBlocks (pending middle.blocks b fresh) height
      ((loaded middle.blocks b fresh).word i), x < after.nblocks := by
    intro x member
    rw [total]
    apply descent.bounded x
    rw [stepped.owned height]
    exact Multiset.mem_add.mpr (Or.inr (Multiset.mem_of_le (stepped.child_le height low) member))
  rcases torn.parent with ⟨empty, hole, stopped⟩ | ⟨siblings, agrees⟩
  · -- The walk stopped right below the followed block, which is on the disk as allocated.
    have blocks : after.blocks = middle.blocks := stopped.trans same
    have word : (after.blocks b).word i = (loaded middle.blocks b fresh).word i := by
      rw [blocks]
      cases fresh with
      | true =>
        have linked := stepped.linked
        rw [empty] at linked
        rw [last rfl linked i low]
        simp [loaded]
      | false => simp [loaded]
    have kept : ∀ x ∈ treeBlocks (pending middle.blocks b fresh) height
        ((loaded middle.blocks b fresh).word i), pending middle.blocks b fresh x =
          after.blocks x := by
      rw [blocks]
      exact stepped.pending_child descent low
    rw [word]
    refine ⟨fun o => contents_congr o height _ kept, ?_⟩
    rw [treeBlocks, nodes_congr height _ kept]
    exact pendingBounded
  · by_cases chosen : i = index
    · subst chosen
      refine ⟨fun o => ?_, agrees.bounded⟩
      rw [agrees.contents o, same]
      exact contents_congr o height _ (stepped.pending_child descent inside)
    · have kept := stepped.sibling_kept descent same inside torn.kept low chosen
      rw [siblings i low chosen]
      refine ⟨fun o => contents_congr o height _ kept, ?_⟩
      rw [treeBlocks, nodes_congr height _ kept]
      exact pendingBounded

/-- The pending tree holds what the tree before the step held. -/
theorem Stepped.contents_eq
    (stepped : Stepped disk middle chain rest parentOff parentBlock slot b fresh) (o height : Nat) :
    contents (pending middle.blocks b fresh) o (height + 1) b =
      contents disk.blocks o (height + 1) (parentBlock.word slot) := by
  cases fresh with
  | true =>
    rw [(stepped.allocated rfl).1, contents_inner o height stepped.present]
    simp [loaded]
  | false =>
    obtain ⟨same, -, blocks⟩ := stepped.found rfl
    rw [pending_old, same, blocks]

/-- A walk that runs out of blocks below the followed block runs out below its parent. -/
theorem Stepped.tear
    (stepped : Stepped disk middle chain rest parentOff parentBlock slot b fresh)
    (descent : Descent disk snapshot chain (height + 1) parentOff parentBlock slot)
    (last : fresh = true → freeList (middle.blocks 0) = 0 →
      ∀ i < refsPerBlock, (middle.blocks b).word i = 0)
    (same : next.blocks = middle.blocks) (within : middle.Within next) {index : Nat}
    (inside : index < refsPerBlock)
    (torn : Torn next after rest height b (loaded middle.blocks b fresh) index) :
    Torn disk after chain (height + 1) parentOff parentBlock slot := by
  have owned := stepped.owned height
  have chosen := stepped.pending_child descent inside
  have children := fun i (low : i < refsPerBlock) =>
    stepped.child_agrees descent last same within.size inside torn low
  -- Blocks outside the free list and the pending tree are outside the visited subtree too.
  have visited : freeBlocks next.blocks rest +
      treeBlocks next.blocks height ((loaded middle.blocks b fresh).word index) ≤
      freeBlocks middle.blocks rest + treeBlocks (pending middle.blocks b fresh) (height + 1) b := by
    have child := stepped.child_le height inside
    have congr := nodes_congr height _ chosen
    rw [same, treeBlocks, congr]
    exact add_le_add_right child _
  have parent : after.blocks parentOff = middle.blocks parentOff := by
    rw [← same]
    refine torn.kept _ descent.parentNonzero ?_ fun bad => descent.apart ?_
    · rintro rfl
      exact descent.apart (stepped.member (Or.inl rfl))
    · rw [owned]
      exact Multiset.mem_of_le visited bad
  have total : after.nblocks = disk.nblocks := by
    rw [torn.within.size, within.size, stepped.within.size]
  refine ⟨stepped.within.trans (within.trans torn.within), ?_, ?_, Or.inr ⟨?_, ?_, ?_⟩⟩
  · rw [torn.inodes, same, stepped.inodes]
  · intro x nonzero away outside
    rw [owned] at outside
    have other : x ≠ b := by
      rintro rfl
      exact outside (Multiset.mem_add.mpr (Or.inr (root_mem_nodes _ stepped.present)))
    rw [torn.kept x nonzero other fun bad => outside (Multiset.mem_of_le visited bad), same]
    exact stepped.kept x nonzero away fun free => outside (Multiset.mem_add.mpr (Or.inl free))
  · intro i low other
    rw [parent]
    exact stepped.siblings i low other
  · intro o
    rw [parent, stepped.reference, contents_inner o height stepped.present,
      (children _ (indexAt_lt o height)).1 o, ← stepped.contents_eq o height,
      contents_inner o height stepped.present, pending_self]
  · rw [parent, stepped.reference]
    intro x member
    rw [treeBlocks, nodes_inner height stepped.present, Multiset.mem_cons,
      Multiset.mem_sum] at member
    rcases member with root | ⟨i, low, below⟩
    · rw [root, total]
      exact descent.bounded b (stepped.member (Or.inl rfl))
    · exact (children i (mem_range.mp low)).2 x below

end Steps

/-- A walk panics only with the trees it has visited torn but still readable. -/
theorem ends_writeWalk_torn {offset : Nat} (small : offset < 2 ^ 32) (block : Block) :
    ∀ (height : Nat) {disk : Disk} {snapshot : Snapshot} {chain : List Nat}
      {parentOff slot : Nat} {parentBlock : Block},
      Descent disk snapshot chain height parentOff parentBlock slot →
      Ends (writeWalk offset block height snapshot parentOff parentBlock slot) (fun _ _ => True)
        (fun _ after => Torn disk after chain height parentOff parentBlock slot) disk := by
  -- A panic at the next reference changes nothing, a later one is a panic one level below.
  intro height
  induction height with
  | zero =>
    intro disk snapshot chain parentOff slot parentBlock descent
    simp only [writeWalk, ends_bind]
    refine ((ends_stepDown descent).and (ends_stepDown_last descent)).imp ?_ ?_
    · intro result middle done
      obtain ⟨⟨rest, stepped, -⟩, -⟩ := done
      have inside : result.1 < middle.nblocks := by
        rw [stepped.within.size]
        exact descent.bounded _ (stepped.member (Or.inl rfl))
      rw [ends_writeOrPanic inside]
      trivial
    · intro message after stopped
      obtain ⟨exhausted, hole, empty, rfl⟩ := stopped
      exact ⟨exhausted.within, rfl, fun _ _ _ _ => rfl, Or.inl ⟨empty, hole, rfl⟩⟩
  | succ height ih =>
    intro disk snapshot chain parentOff slot parentBlock descent
    simp only [writeWalk, ends_bind]
    refine ((ends_stepDown descent).and (ends_stepDown_last descent)).imp ?_ ?_
    · intro result middle done
      obtain ⟨b, fresh, updated⟩ := result
      obtain ⟨⟨rest, stepped, current⟩, last⟩ := done
      simp only at stepped current last
      have inside : b < middle.nblocks := by
        rw [stepped.within.size]
        exact descent.bounded b (stepped.member (Or.inl rfl))
      have index := indexAt_lt offset height
      rw [logShiftR_eq small, current]
      cases fresh with
      | true =>
        simp only [if_true]
        refine (ih (stepped.descend descent rfl rfl index)).imp (fun _ _ => id) ?_
        intro message after torn
        exact stepped.tear descent last rfl (Disk.Within.refl _) index torn
      | false =>
        simp only [Bool.false_eq_true, if_false, ends_bind, ends_belowRead inside, ends_pure]
        have touched : (middle.touch b).blocks = middle.blocks := rfl
        refine (ih (stepped.descend descent touched rfl index)).imp (fun _ _ => id) ?_
        intro message after torn
        exact stepped.tear descent last touched (Disk.Within.touch inside) index torn
    · intro message after stopped
      obtain ⟨exhausted, hole, empty, rfl⟩ := stopped
      exact ⟨exhausted.within, rfl, fun _ _ _ _ => rfl, Or.inl ⟨empty, hole, rfl⟩⟩

/-- A growth that runs out of free blocks has changed only free blocks and the superblock. -/
theorem ends_growLevels_full : ∀ (missing : Nat) {disk : Disk} {snapshot : Snapshot}
    {chain : List Nat} {height : Nat}, Growth disk snapshot chain height →
    Ends (growLevels missing snapshot) (fun _ _ => True)
      (fun _ after => disk.Within after ∧
        nInodeblocks (after.blocks 0) = nInodeblocks (disk.blocks 0) ∧
        ∀ x, x ≠ 0 → x ∉ freeBlocks disk.blocks chain → after.blocks x = disk.blocks x)
      disk := by
  -- Each new root is a free block that refers to the old one.
  intro missing
  induction missing with
  | zero =>
    intro disk snapshot chain height growth
    simp only [growLevels, ends_pure]
  | succ missing ih =>
    intro disk snapshot chain height growth
    simp only [growLevels, ends_bind]
    refine (ends_treediskAllocBlock growth.current growth.linked
      (Multiset.nodup_add.mp growth.distinct).1
      fun x member => growth.bounded x (Multiset.mem_add.mpr (Or.inl member))).imp ?_ ?_
    · intro result middle done
      obtain ⟨indir, updated⟩ := result
      obtain ⟨rest, allocated, rfl⟩ := done
      have inside : indir < middle.nblocks := by
        rw [allocated.within.size]
        exact growth.bounded _ (by simp [allocated.taken])
      have raised := growth.raise allocated
      rw [ends_writeOrPanic inside]
      refine (ih (growth.after raised)).imp (fun _ _ => id) ?_
      intro message after stopped
      obtain ⟨within, inodes, kept⟩ := stopped
      refine ⟨raised.within.trans within, inodes.trans raised.inodes, ?_⟩
      intro x nonzero outside
      have unfree : x ∉ freeBlocks (middle.put indir (nullBlock.setWord 0 snapshot.root)).blocks
          rest := fun free => outside (Multiset.mem_of_le raised.shrinks free)
      rw [kept x nonzero unfree, raised.kept x nonzero outside]
    · intro message after stopped
      obtain ⟨-, -, rfl⟩ := stopped
      exact ⟨Disk.Within.refl _, rfl, fun _ _ _ => rfl⟩

/-- Every file of the first disk can still be read on the second, at least as far as it went. -/
structure Survives (n : Nat) (before after : Disk) : Prop where
  mounted : Mounted n after
  bounded : ∀ ino < inodesPerBlock * n, ∀ x ∈ inodeTree after.blocks ino, x < after.nblocks
  longer : ∀ ino < inodesPerBlock * n,
    (fileOf before.blocks ino).size ≤ (fileOf after.blocks ino).size
  blocks : ∀ ino < inodesPerBlock * n, ∀ o < (fileOf before.blocks ino).size,
    (fileOf after.blocks ino).block o = (fileOf before.blocks ino).block o

section Panics

variable {n ino offset : Nat} {disk base after : Disk} {old new : Snapshot}
variable {chain rest : List Nat} {block : Block}

/-- A step that is confined to one inode, and that keeps its file readable, keeps all of them. -/
theorem Confined.survives (confined : Confined disk after chain ino)
    (consistent : Consistent n disk chain) (inside : ino < inodesPerBlock * n)
    (within : disk.Within after)
    (inodes : nInodeblocks (after.blocks 0) = nInodeblocks (disk.blocks 0))
    (bounded : ∀ x ∈ inodeTree after.blocks ino, x < after.nblocks)
    (longer : (fileOf disk.blocks ino).size ≤ (fileOf after.blocks ino).size)
    (blocks : ∀ o < (fileOf disk.blocks ino).size,
      (fileOf after.blocks ino).block o = (fileOf disk.blocks ino).block o) :
    Survives n disk after := by
  -- Of the inode itself it is assumed, and all other inodes have their trees as before.
  have size := within.size
  refine ⟨⟨inodes.trans consistent.inodes, consistent.few, by rw [size]; exact consistent.room⟩,
    ?_, ?_, ?_⟩
  · intro other low
    by_cases same : other = ino
    · rw [same]
      exact bounded
    · rw [(confined.other_tree consistent inside low same).1, size]
      exact fun x member => (consistent.share_bounds low (Multiset.mem_add.mpr (Or.inr member))).2
  · intro other low
    by_cases same : other = ino
    · rw [same]
      exact longer
    · rw [confined.other_file consistent inside low same]
  · intro other low
    by_cases same : other = ino
    · rw [same]
      exact blocks
    · rw [confined.other_file consistent inside low same]
      exact fun _ _ => rfl

/-- A step that changes only free blocks and the superblock keeps all files. -/
theorem Consistent.survives (consistent : Consistent n disk chain)
    (inside : ino < inodesPerBlock * n) (within : disk.Within after)
    (inodes : nInodeblocks (after.blocks 0) = nInodeblocks (disk.blocks 0))
    (kept : ∀ x, x ≠ 0 → x ∉ freeBlocks disk.blocks chain → after.blocks x = disk.blocks x) :
    Survives n disk after := by
  -- The blocks of the trees are neither free nor the superblock.
  obtain ⟨nonzero, low⟩ := inodeBlock_bounds inside
  have unfree : inodeBlock ino ∉ freeBlocks disk.blocks chain := fun free =>
    consistent.outside inside low (Multiset.mem_add.mpr (Or.inl free))
  have inode := kept _ nonzero unfree
  have tree : ∀ x ∈ inodeTree disk.blocks ino, disk.blocks x = after.blocks x := by
    intro x member
    have bounds := consistent.share_bounds inside (Multiset.mem_add.mpr (Or.inr member))
    refine (kept x (by omega) fun free => ?_).symm
    exact Multiset.disjoint_left.mp (Multiset.nodup_add.mp
      (consistent.share_nodup inside)).2.2 free member
  have root : inodeRoot after.blocks ino = inodeRoot disk.blocks ino := by
    rw [inodeRoot, inode, inodeRoot]
  have size : inodeSize after.blocks ino = inodeSize disk.blocks ino := by
    rw [inodeSize, inode, inodeSize]
  have file := fileOf_congr root size tree
  have confined : Confined disk after chain ino :=
    ⟨fun i _ _ _ => by rw [inode], fun x present _ outside =>
      kept x present fun free => outside (Multiset.mem_add.mpr (Or.inl free))⟩
  have same : inodeTree after.blocks ino = inodeTree disk.blocks ino := by
    rw [inodeTree, inodeHeight, size, root]
    exact nodes_congr _ _ tree
  refine confined.survives consistent inside within inodes ?_ (by rw [file]) (by simp [file])
  rw [same, within.size]
  exact fun x member => (consistent.share_bounds inside (Multiset.mem_add.mpr (Or.inr member))).2

/-- Growing a tree leaves what it held below the old size of the file. -/
theorem Prepared.contents_old (prepared : Prepared disk base old new chain rest ino offset)
    (consistent : Consistent n disk chain) (inside : ino < inodesPerBlock * n)
    (small : offset < 2 ^ 32 - 1) {o : Nat} (below : o < inodeSize disk.blocks ino) :
    contents base.blocks o (heightAfter disk.blocks ino offset) new.root =
      contents disk.blocks o (inodeHeight disk.blocks ino) (inodeRoot disk.blocks ino) := by
  -- A block of the old file is not free, so that the growth has not touched it.
  obtain ⟨-, data, kept, -, -⟩ := prepared.free_eq consistent inside
  have capacity := offset_lt_capacity ino disk.blocks small
  have target := data o (by omega)
  rw [if_pos (size_le_capacity _ below), inodeData] at target
  rw [contents, contents, target]
  split
  · rfl
  · rename_i present
    have member : inodeData disk.blocks ino o ∈ inodeTree disk.blocks ino :=
      leaf_mem_nodes (by decide) _ _ _ present
    have bounds := consistent.share_bounds inside (Multiset.mem_add.mpr (Or.inr member))
    have low := (inodeBlock_bounds inside).2
    refine kept (inodeData disk.blocks ino o) (by omega) (by omega) fun free => ?_
    exact Multiset.disjoint_left.mp (Multiset.nodup_add.mp
      (consistent.share_nodup inside)).2.2 free member

/-- A walk below a prepared inode that runs out of blocks keeps all files. -/
theorem Prepared.survives (prepared : Prepared disk base old new chain rest ino offset)
    (consistent : Consistent n disk chain) (inside : ino < inodesPerBlock * n)
    (small : offset < 2 ^ 32 - 1)
    (slot : new.inodeblock.word (2 * (ino % inodesPerBlock)) = new.root)
    (torn : Torn base after rest (heightAfter disk.blocks ino offset) (inodeBlock ino)
      new.inodeblock (2 * (ino % inodesPerBlock))) : Survives n disk after := by
  obtain ⟨owned, data, kept, linked, inodes⟩ := prepared.free_eq consistent inside
  have total := prepared.within.size
  -- The inode block is on the disk already, so a walk that stopped at once changed nothing.
  have stored : (∀ i < refsPerBlock, i ≠ 2 * (ino % inodesPerBlock) →
      (after.blocks (inodeBlock ino)).word i = new.inodeblock.word i) ∧
      Agrees base after (heightAfter disk.blocks ino offset) new.root
        (inodeRoot after.blocks ino) := by
    rcases torn.parent with ⟨-, -, stopped⟩ | ⟨siblings, agrees⟩
    · have inode : after.blocks (inodeBlock ino) = new.inodeblock := by
        rw [stopped]
        exact prepared.inode
      refine ⟨fun i _ _ => by rw [inode], ?_, ?_⟩
      · intro o
        rw [inodeRoot, inode, slot, stopped]
      · rw [inodeRoot, inode, slot, stopped, torn.within.size, total]
        intro x member
        have owner : x ∈ freeBlocks disk.blocks chain + inodeTree disk.blocks ino := by
          rw [← owned]
          exact Multiset.mem_add.mpr (Or.inr member)
        exact (consistent.share_bounds inside owner).2
    · rw [slot] at agrees
      exact ⟨siblings, agrees⟩
  obtain ⟨siblings, agrees⟩ := stored
  obtain ⟨size, words⟩ := prepared.inode_words siblings
  have height : inodeHeight after.blocks ino = heightAfter disk.blocks ino offset := by
    rw [inodeHeight, size]
    rfl
  have confined : Confined disk after chain ino := by
    refine ⟨words, ?_⟩
    intro x nonzero away outside
    have unvisited := torn.kept x nonzero away
    rw [slot, owned] at unvisited
    rw [unvisited outside]
    exact kept x nonzero away fun free => outside (Multiset.mem_add.mpr (Or.inl free))
  refine confined.survives consistent inside (prepared.within.trans torn.within)
    (torn.inodes.trans inodes) ?_ ?_ ?_
  · rw [inodeTree, height]
    exact agrees.bounded
  · show inodeSize disk.blocks ino ≤ inodeSize after.blocks ino
    rw [size]
    exact Nat.le_max_left _ _
  · intro o below
    have old : o < inodeSize disk.blocks ino := below
    rw [fileOf_block old, fileOf_block (by rw [size]; omega), height, agrees.contents o]
    exact prepared.contents_old consistent inside small old

/-- A write that panics keeps all files. -/
theorem ends_treediskWrite_full (consistent : Consistent n disk chain)
    (inside : ino < inodesPerBlock * n) (small : offset < 2 ^ 32 - 1) :
    Ends (treediskWrite ino offset block) (fun _ _ => True)
      (fun _ after => Survives n disk after) disk := by
  -- The write panics while it grows the tree or while it walks down, and both touch free blocks
  -- only.
  obtain ⟨nonzero, low⟩ := inodeBlock_bounds inside
  have room := consistent.room
  simp only [treediskWrite, ends_bind]
  refine (ends_getSnapshot consistent.mounted inside).imp ?_ fun _ _ => False.elim
  intro result middle done
  obtain ⟨rfl, same, within⟩ := done
  simp only [snapshotOf_nblocks]
  by_cases past : offset ≥ inodeSize disk.blocks ino
  · obtain ⟨root, size, -⟩ := snapshotOf_setNblocks disk.blocks ino (offset + 1) (by omega)
    have taller : levelsOf (inodeSize disk.blocks ino) ≤ countLevels offset 0 :=
      levelsOf_le_countLevels (by omega) (by omega)
    have growth := consistent.growth inside same within.size
      (show ((snapshotOf disk.blocks ino).setNblocks (offset + 1)).superblock = disk.blocks 0
        from rfl) rfl root
    simp only [past, if_true, Nat.mod_eq_of_lt (show offset + 1 < 2 ^ 32 by omega), size,
      Nat.add_one_ne_zero, if_false, ends_bind]
    refine ((ends_growLevels (countLevels offset 0 - levelsOf (inodeSize disk.blocks ino))
      growth).and (ends_growLevels_full _ growth)).imp ?_ ?_
    · intro new taken done
      obtain ⟨⟨rest, grownHere, -⟩, -⟩ := done
      rw [inodeHeight, Nat.add_sub_cancel' taller] at grownHere
      have grown := Grown.of_same same within grownHere
      have prepared := prepared_past consistent inside small past grown
      have position : new.inode = ino % inodesPerBlock := grown.inode
      have blockno : new.inodeBlockno = inodeBlock ino := grown.blockno
      have count : new.nblocks = offset + 1 := by
        have words := grown.words _ (nblocks_inside (inode_position ino)) (by
          show 2 * (ino % inodesPerBlock) + 1 ≠ 2 * (ino % inodesPerBlock)
          omega)
        rw [Snapshot.nblocks, position, words]
        exact size
      have zero : (taken.put (inodeBlock ino) new.inodeblock).blocks 0 = taken.blocks 0 :=
        Function.update_of_ne (Ne.symm nonzero) _ _
      have stored : new.inodeBlockno < taken.nblocks := by
        rw [blockno, grown.within.size]
        omega
      have height : max (levelsOf (inodeSize disk.blocks ino)) (countLevels offset 0) =
          heightAfter disk.blocks ino offset := by
        rw [Nat.max_eq_right taller, heightAfter, Nat.max_eq_right (by omega), levelsOf_succ]
      have slot : new.inodeblock.word (2 * (ino % inodesPerBlock)) = new.root := by
        rw [Snapshot.root, position]
      have descent := prepared.descent consistent inside (by rw [zero]; exact grown.current) slot
      simp only [count, Nat.add_one_ne_zero, if_false, ends_writeOrPanic stored, height]
      simp only [blockno, position]
      refine (ends_writeWalk_torn (by omega) block _ descent).imp (fun _ _ => id) ?_
      intro message after torn
      exact prepared.survives consistent inside small slot torn
    · intro message after stopped
      obtain ⟨-, further, inodes, kept⟩ := stopped
      rw [same] at inodes kept
      exact consistent.survives inside (within.trans further) inodes kept
  · have below := Nat.lt_of_not_le past
    have prepared := prepared_inside consistent inside same within below
    have height : levelsOf (inodeSize disk.blocks ino) = heightAfter disk.blocks ino offset := by
      rw [heightAfter, Nat.max_eq_left (by omega)]
    have descent := prepared.descent consistent inside (by rw [same]; rfl) rfl
    simp only [past, if_false, height, ends_bind]
    refine (ends_writeWalk_torn (by omega) block _ descent).imp (fun _ _ => id) ?_
    intro message after torn
    exact prepared.survives consistent inside small rfl torn

end Panics

section Runs

variable {ninodes nblocks ino offset : Nat} {writes : List Write} {disk after : Disk}
variable {block : Block} {message : String}

/-- A write that runs out of free blocks leaves everything readable as it was before. -/
theorem full_write_keeps_files (reached : Reached ninodes nblocks writes disk)
    (small : offset ≤ 2 ^ 32 - 2)
    (run : treediskWrite ino offset block disk = .error message after) :
    message = fullMessage ∧
      ∀ other o, o < 2 ^ 32 → ∀ found read, treediskRead other o disk = .ok (some found) read →
        ∃ final, treediskRead other o after = .ok (some found) final := by
  obtain ⟨⟨chain, consistent⟩, -⟩ := reached.holds.1
  obtain ⟨_, -, exhausted⟩ := (reached.holds.1.write ⟨ino, offset, block⟩ small).error run
  have full := exhausted.full
  refine ⟨full, ?_⟩
  intro other o narrow found read before
  -- Only a valid inode gets as far as an allocation, and only valid inodes are readable.
  have inside : ino < inodesPerBlock * inodeblocksFor ninodes := by
    by_contra past
    exact ((ends_treediskWrite_none offset block consistent (Nat.le_of_not_lt past)).error run)
  have low : other < inodesPerBlock * inodeblocksFor ninodes := by
    by_contra past
    have missing := (ends_treediskRead_none o consistent (Nat.le_of_not_lt past)).ok before
    exact absurd missing.1 (by simp)
  have survives := (ends_treediskWrite_full consistent inside (by omega)).error run
  have value := ((ends_treediskRead consistent low narrow).ok before).2.2
  obtain ⟨result, final, again, -, -, later⟩ := (ends_treediskRead_mounted survives.mounted low
    (survives.bounded other low) narrow).returned
  refine ⟨final, ?_⟩
  by_cases below : o < (fileOf disk.blocks other).size
  · have longer := survives.longer other low
    rw [if_pos below] at value
    rw [if_pos (by omega), survives.blocks other low o below, ← value] at later
    rw [again, later]
  · rw [if_neg below] at value
    exact absurd value (by simp)

/-- Two files that both have a block need two blocks after the inode blocks. -/
theorem Consistent.two_files {n : Nat} {disk : Disk} {chain : List Nat}
    (consistent : Consistent n disk chain) {first second : Nat}
    (low : first < inodesPerBlock * n) (high : second < inodesPerBlock * n)
    (different : second ≠ first) (left : 0 < inodeSize disk.blocks first)
    (right : 0 < inodeSize disk.blocks second) : n + 3 ≤ disk.nblocks := by
  have member : ∀ ino < inodesPerBlock * n, 0 < inodeSize disk.blocks ino →
      ∃ x ∈ inodeTree disk.blocks ino, n + 1 ≤ x ∧ x < disk.nblocks := by
    intro ino inside positive
    have owned := leaf_mem_nodes (by decide) _ _ _ (consistent.last ino inside positive)
    exact ⟨_, owned, consistent.share_bounds inside (Multiset.mem_add.mpr (Or.inr owned))⟩
  obtain ⟨x, owned, lower, upper⟩ := member first low left
  obtain ⟨y, other, lower', upper'⟩ := member second high right
  have apart : y ≠ x := by
    rintro rfl
    exact consistent.trees_apart low high different other (Multiset.mem_add.mpr (Or.inr owned))
  omega

end Runs

/-- On a store with one data block, a second file panics and the first one stays readable. -/
theorem full_write_second_file :
    ∃ disk message after, Reached 64 3 [⟨0, 0, nullBlock⟩] disk ∧
      treediskWrite 1 0 nullBlock disk = .error message after ∧ message = fullMessage ∧
      ∃ final, treediskRead 0 0 after = .ok (some nullBlock) final := by
  obtain ⟨fresh, created⟩ := @created_of_room 64 3 (by decide) (by decide)
  obtain ⟨disk, written⟩ := @fresh_write 0 fresh 64 3 created (by decide) 0 (by decide) nullBlock
    (Or.inl (by decide +kernel)) (by decide +kernel)
  have reached : Reached 64 3 [⟨0, 0, nullBlock⟩] disk := .written created (by decide) written
  have first : (filesAfter [⟨0, 0, nullBlock⟩] 0).read 0 = some nullBlock := by
    rw [filesAfter, Function.update_self, File.read, if_pos (by decide), File.write_self]
  obtain ⟨read, before, -⟩ := reached.holds.1.read (show 0 < inodesPerBlock * 1 by decide)
    (show 0 < 2 ^ 32 by decide)
  rw [first] at before
  cases run : treediskWrite 1 0 nullBlock disk with
  | ok result after =>
    -- Both files would have a block, but there is only one.
    have later : Reached 64 3 [⟨1, 0, nullBlock⟩, ⟨0, 0, nullBlock⟩] after :=
      .written reached (by decide) run
    obtain ⟨⟨⟨chain, consistent⟩, content⟩, size, -⟩ := later.holds
    have left : inodeSize after.blocks 0 = 1 := congrArg File.size (content 0 (by decide))
    have right : inodeSize after.blocks 1 = 1 := congrArg File.size (content 1 (by decide))
    have more := @Consistent.two_files _ _ _ consistent 0 1 (by decide) (by decide) (by decide)
      (by omega) (by omega)
    rw [size] at more
    exact absurd more (by decide)
  | error message after =>
    obtain ⟨full, kept⟩ := full_write_keeps_files reached (by decide) run
    exact ⟨disk, message, after, reached, run, full, kept 0 0 (by decide) _ _ before⟩

end Egos.Treedisk
