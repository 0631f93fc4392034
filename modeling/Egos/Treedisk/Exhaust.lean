import Egos.Treedisk.Create

/-! A fresh free list hands out every data block once before it is exhausted. -/

namespace Egos.Treedisk

open Finset

/-- Allocates one block for each snapshot, each with the superblock then on the disk. -/
def allocateEach : List Snapshot → TreeM (List Nat)
  | [] => return []
  | snapshot :: later => do
    let superblock := (← get).blocks 0
    let (b, _) ← treediskAllocBlock { snapshot with superblock := superblock }
    return b :: (← allocateEach later)

/-- A free list that offers nothing has no blocks. -/
theorem chain_of_exhausted {blocks : Nat → Block} {chain : List Nat}
    (exhausted : freeBlocks blocks chain = 0) : chain = [] := by
  cases chain with
  | nil => rfl
  | cons b rest => simp at exhausted

/-- As many allocations as there are free blocks hand out all of them and empty the list. -/
theorem ends_allocateEach : ∀ (snapshots : List Snapshot) {disk : Disk} {chain : List Nat},
    Linked disk.blocks (freeList (disk.blocks 0)) chain →
    (freeBlocks disk.blocks chain).Nodup →
    (∀ x ∈ freeBlocks disk.blocks chain, x < disk.nblocks) →
    snapshots.length = (freeBlocks disk.blocks chain).card →
    Ends (allocateEach snapshots)
      (fun numbers after => (numbers : Multiset Nat) = freeBlocks disk.blocks chain ∧
        freeList (after.blocks 0) = 0) (fun _ _ => False) disk := by
  -- The free list loses one block with each allocation, so it is empty only after the last.
  intro snapshots
  induction snapshots with
  | nil =>
    intro disk chain linked _ _ count
    have exhausted : freeBlocks disk.blocks chain = 0 := Multiset.card_eq_zero.mp count.symm
    have empty := chain_of_exhausted exhausted
    subst empty
    simp only [allocateEach, ends_pure]
    exact ⟨rfl, linked⟩
  | cons snapshot later ih =>
    intro disk chain linked distinct bounded count
    simp only [allocateEach, ends_bind, ends_get]
    have spec := @ends_treediskAllocBlock disk { snapshot with superblock := disk.blocks 0 } chain
      rfl linked distinct bounded
    refine spec.imp ?_ ?_
    · intro result middle done
      obtain ⟨rest, allocated, -⟩ := done
      have taken := allocated.taken
      rw [taken, Multiset.card_cons, List.length_cons, Nat.add_right_cancel_iff] at count
      rw [taken, Multiset.nodup_cons] at distinct
      have inside : ∀ x ∈ freeBlocks middle.blocks rest, x < middle.nblocks := by
        intro x member
        rw [allocated.within.size]
        exact bounded x (by rw [taken]; exact Multiset.mem_cons_of_mem member)
      refine (ih allocated.linked distinct.2 inside count).imp ?_ fun _ _ => id
      intro numbers after rest
      rw [ends_pure, taken]
      exact ⟨by rw [← Multiset.cons_coe, rest.1], rest.2⟩
    · intro message after stopped
      -- An empty list offers nothing, but one more block is still expected.
      obtain ⟨-, empty, -⟩ := stopped
      rw [empty] at count
      simp at count

/-- A fresh file system hands out exactly its data blocks, and panics on the next request. -/
theorem fresh_blocks_handed_out {n nblocks : Nat} (room : n + 2 ≤ nblocks)
    (narrow : nblocks < 2 ^ 32) {disk : Disk} (size : disk.nblocks = nblocks) :
    ∃ head built, setupFreelist (n + 1) nblocks disk = .ok head built ∧
      ∀ superblock, freeList superblock = head →
        ∀ snapshots : List Snapshot, snapshots.length = nblocks - n - 1 →
          ∃ numbers final,
            allocateEach snapshots (built.put 0 superblock) = .ok numbers final ∧
            numbers.Perm (List.range' (n + 1) (nblocks - n - 1)) ∧
            ∀ snapshot : Snapshot, snapshot.superblock = final.blocks 0 →
              treediskAllocBlock snapshot final = .error fullMessage final := by
  have start : Listed disk disk (n + 1) 0 (n + 1) [] :=
    ⟨Disk.Within.refl _, rfl, Nat.succ_pos n, by simp, fun _ _ => rfl⟩
  obtain ⟨head, built, run, chain, listed⟩ := (ends_setupFreelistFrom narrow.le (Nat.succ_pos n)
    nullBlock 0 (n + 1) size (Nat.le_refl _) (by omega) start).returned
  refine ⟨head, built, run, ?_⟩
  intro superblock points snapshots count
  -- The list lies above block zero, so pointing the superblock to it changes nothing in it.
  have chained : ∀ x ∈ chain, (built.put 0 superblock).blocks x = built.blocks x := by
    intro x member
    have free : x ∈ freeBlocks built.blocks chain := mem_freeBlocks_of_mem member
    rw [listed.offers] at free
    have low := (mem_Ico.mp (show x ∈ Ico (n + 1) nblocks from free)).1
    exact Function.update_of_ne (by omega) _ _
  have offers : freeBlocks (built.put 0 superblock).blocks chain = (Ico (n + 1) nblocks).val := by
    rw [freeBlocks_congr chained, listed.offers]
  have zero : (built.put 0 superblock).blocks 0 = superblock := by
    rw [Disk.put_blocks, Function.update_self]
  have linked : Linked (built.put 0 superblock).blocks
      (freeList ((built.put 0 superblock).blocks 0)) chain := by
    rw [zero, points]
    exact listed.linked.congr chained
  have bounded : ∀ x ∈ freeBlocks (built.put 0 superblock).blocks chain,
      x < (built.put 0 superblock).nblocks := by
    intro x member
    rw [offers] at member
    rw [Disk.put_nblocks, listed.within.size, size]
    exact (mem_Ico.mp (show x ∈ Ico (n + 1) nblocks from member)).2
  have total : snapshots.length = (freeBlocks (built.put 0 superblock).blocks chain).card := by
    rw [offers, card_val, Nat.card_Ico, count]
    omega
  obtain ⟨numbers, final, handed, all, empty⟩ := (ends_allocateEach snapshots linked
    (by rw [offers]; exact (Ico (n + 1) nblocks).nodup) bounded total).returned
  refine ⟨numbers, final, handed, ?_, ?_⟩
  · rw [← Multiset.coe_eq_coe, all, offers, Nat.sub_sub]
    rfl
  · intro snapshot current
    rw [← current] at empty
    simp only [treediskAllocBlock, empty, if_true]
    rfl

/-- A store of four blocks with one inode block hands out its two data blocks. -/
theorem two_blocks_handed_out :
    ∃ head built, setupFreelist 2 4 (Disk.zeroed 4) = .ok head built ∧
      ∀ superblock, freeList superblock = head → ∃ numbers final,
        allocateEach [⟨nullBlock, nullBlock, 1, 0⟩, ⟨nullBlock, nullBlock, 1, 1⟩]
          (built.put 0 superblock) = .ok numbers final ∧ numbers.Perm [2, 3] := by
  obtain ⟨head, built, run, later⟩ := @fresh_blocks_handed_out 1 4 (by decide) (by decide)
    (Disk.zeroed 4) rfl
  refine ⟨head, built, run, ?_⟩
  intro superblock points
  obtain ⟨numbers, final, handed, all, -⟩ := later superblock points
    [⟨nullBlock, nullBlock, 1, 0⟩, ⟨nullBlock, nullBlock, 1, 1⟩] rfl
  exact ⟨numbers, final, handed, all⟩

end Egos.Treedisk
