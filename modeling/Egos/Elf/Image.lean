import Egos.Earth.Spaces
import Egos.Elf.Load

/-! The image of a program: which bytes of the executable come to which pages. -/

namespace Egos.Elf

open Egos.Earth
open Egos.Grass (maxNprocess)
open Egos.Treedisk (blockSize Block)

/-- Only the content of pages has changed. -/
structure SameTables (memory after : Memory) : Prop where
  bitmap : after.bitmap = memory.bitmap
  table : after.appPages = memory.appPages
  vm : after.currVmPid = memory.currVmPid
  rows : after.rows = memory.rows

/-- A byte of the executable, of which the reader returns one block after the other. -/
def fileByte (reader : Nat → Block) (n : Nat) : UInt8 :=
  (reader (n / blockSize))[n % blockSize]?.getD 0

/-- Where the pages of a program keep one of its bytes. -/
def target (paddrs : List Nat) (i : Nat) : Nat := paddrs[i / pageSize]?.getD 0 + i % pageSize

/-- Pages that are big enough for the code of an application and lie apart from each other. -/
structure CodeFrames (paddrs : List Nat) : Prop where
  enough : paddrs.length = appsSize / pageSize
  distinct : paddrs.Nodup
  aligned : ∀ paddr ∈ paddrs, paddr % pageSize = 0

section Bytes

variable {paddrs : List Nat} {ram : Nat → Page}

/-- Every address lies in its page. -/
theorem pageOf_add_mod (addr : Nat) : pageOf addr + addr % pageSize = addr := by
  simp only [pageOf, pageSize]
  omega

/-- A byte after some bytes have been stored is one of these or the one from before. -/
theorem readByte_withBytes (addr : Nat) (bytes : List UInt8) (place : Nat) :
    readByte (withBytes ram addr bytes) place =
      if addr ≤ place then bytes[place - addr]?.getD (readByte ram place)
      else readByte ram place := by
  have inside : place % pageSize < pageSize := Nat.mod_lt _ (by decide)
  simp only [readByte, withBytes, Vector.getElem?_eq_getElem inside, Option.getD_some,
    Vector.getElem_ofFn, pageOf_add_mod]
  rfl

/-- The pages for the code hold every byte of it. -/
theorem CodeFrames.mem (frames : CodeFrames paddrs) {i : Nat} (inside : i < appsSize) :
    ∃ below : i / pageSize < paddrs.length, pageOf (target paddrs i) = paddrs[i / pageSize] ∧
      target paddrs i % pageSize = i % pageSize := by
  have below : i / pageSize < paddrs.length := by
    rw [frames.enough]
    simp only [appsSize, pageSize] at inside ⊢
    omega
  have place : target paddrs i = paddrs[i / pageSize] + i % pageSize := by
    rw [target, List.getElem?_eq_getElem below, Option.getD_some]
  have split := pageOf_add (frames.aligned _ (List.getElem_mem below))
    (Nat.mod_lt i (show 0 < pageSize by decide))
  rw [place]
  exact ⟨below, split.1, split.2⟩

/-- Different bytes of the code are kept at different places. -/
theorem CodeFrames.target_inj (frames : CodeFrames paddrs) {i j : Nat} (first : i < appsSize)
    (second : j < appsSize) (same : target paddrs i = target paddrs j) : i = j := by
  obtain ⟨below, page, offset⟩ := frames.mem first
  obtain ⟨under, other, column⟩ := frames.mem second
  rw [same] at page offset
  have index : i / pageSize = j / pageSize :=
    (List.Nodup.getElem_inj_iff frames.distinct).mp (page.symm.trans other)
  have place : i % pageSize = j % pageSize := offset.symm.trans column
  have parts := Nat.div_add_mod i pageSize
  rw [index, place, Nat.div_add_mod] at parts
  exact parts.symm

/-- A block does not reach over the end of a page. -/
theorem target_add (paddrs : List Nat) {off k : Nat} (aligned : off % blockSize = 0)
    (inside : k < blockSize) : target paddrs (off + k) = target paddrs off + k := by
  have page : (off + k) / pageSize = off / pageSize := by
    simp only [blockSize, pageSize] at aligned inside ⊢
    omega
  have offset : (off + k) % pageSize = off % pageSize + k := by
    simp only [blockSize, pageSize] at aligned inside ⊢
    omega
  rw [target, target, page, offset]
  omega

end Bytes

/-- The pages for the code hold the first bytes of the segment, and nothing else has changed. -/
structure Filled (reader : Nat → Block) (paddrs : List Nat) (first : Nat) (memory after : Memory)
    (upto : Nat) : Prop where
  tables : SameTables memory after
  filled : ∀ i < upto, readByte after.ram (target paddrs i) =
    fileByte reader (first * blockSize + i)
  kept : ∀ addr, (∀ i < upto, addr ≠ target paddrs i) →
    readByte after.ram addr = readByte memory.ram addr

section Copying

variable {memory middle : Memory} {reader : Nat → Block} {paddrs : List Nat} {first : Nat}

/-- One more block comes right behind the bytes that have been copied. -/
theorem Filled.block (frames : CodeFrames paddrs) {off : Nat}
    (filled : Filled reader paddrs first memory middle off) (aligned : off % blockSize = 0)
    (inside : off < appsSize) :
    Filled reader paddrs first memory { middle with
      ram := withBytes middle.ram (target paddrs off) (reader (first + off / blockSize)).toList }
      (off + blockSize) := by
  have room : off + blockSize ≤ appsSize := by
    simp only [blockSize, appsSize] at aligned inside ⊢
    omega
  have length : (reader (first + off / blockSize)).toList.length = blockSize := by simp
  obtain ⟨tables, earlier, kept⟩ := filled
  refine ⟨⟨tables.bitmap, tables.table, tables.vm, tables.rows⟩, ?_, ?_⟩
  · intro i below
    rw [readByte_withBytes]
    by_cases old : i < off
    · -- A byte from before is not in the place of the block.
      have apart : ∀ k < blockSize, target paddrs i ≠ target paddrs off + k := by
        intro k column same
        rw [← target_add paddrs aligned column] at same
        have index := frames.target_inj (by omega) (by omega) same
        omega
      split
      · rename_i above
        rw [List.getElem?_eq_none, Option.getD_none, earlier i old]
        rw [length]
        by_contra short
        exact apart (target paddrs i - target paddrs off) (by omega) (by omega)
      · exact earlier i old
    · -- The other ones are those of the block.
      have column : i - off < blockSize := by omega
      have place : target paddrs i = target paddrs off + (i - off) := by
        rw [← target_add paddrs aligned column]
        congr 1
        omega
      rw [place, if_pos (Nat.le_add_right _ _), Nat.add_sub_cancel_left,
        List.getElem?_eq_getElem (by rw [length]; exact column), Option.getD_some,
        Vector.getElem_toList]
      have block : (first * blockSize + i) / blockSize = first + off / blockSize := by
        simp only [blockSize] at aligned column ⊢
        omega
      have offset : (first * blockSize + i) % blockSize = i - off := by
        simp only [blockSize] at aligned column ⊢
        omega
      rw [fileByte, block, offset, Vector.getElem?_eq_getElem column, Option.getD_some]
  · intro addr different
    rw [readByte_withBytes]
    have before := kept addr fun i below => different i (by omega)
    split
    · rw [List.getElem?_eq_none, Option.getD_none, before]
      rw [length]
      by_contra short
      refine different (off + (addr - target paddrs off)) (by omega) ?_
      rw [target_add paddrs aligned (by omega)]
      omega
    · exact before

/-- The index of the page goes up where the next page begins. -/
theorem nextPage_inside {off : Nat} {pageIdx : Int} {returns : Int → Memory → Prop}
    {stops : String → Memory → Prop} (inside : off < appsSize)
    (index : pageIdx = (((off + pageSize - 1) / pageSize : Nat) : Int) - 1) :
    Ends (nextPage off pageIdx) returns stops memory ↔
      returns (((off / pageSize : Nat) : Int)) memory := by
  -- Where a page begins the index goes up by one, and inside of it the index is right already.
  unfold nextPage
  by_cases turn : off % pageSize = 0
  · have next : pageIdx + 1 = ((off / pageSize : Nat) : Int) := by
      simp only [pageSize] at turn index ⊢
      omega
    have passes : pageIdx + 1 ≥ 0 ∧ pageIdx + 1 < ((appsSize / pageSize : Nat) : Int) := by
      simp only [appsSize, pageSize] at inside turn index ⊢
      omega
    rw [if_pos turn, ends_bind, ends_assert, if_pos passes, ends_pure, next]
  · have same : pageIdx = ((off / pageSize : Nat) : Int) := by
      simp only [pageSize] at turn index ⊢
      omega
    rw [if_neg turn, ends_pure, same]

/-- Behind the last page there is no next one. -/
theorem nextPage_outside {pageIdx : Int} {returns : Int → Memory → Prop}
    {stops : String → Memory → Prop}
    (index : pageIdx = (((appsSize + pageSize - 1) / pageSize : Nat) : Int) - 1) :
    Ends (nextPage appsSize pageIdx) returns stops memory ↔
      stops "[ASSERT FAILED]app is larger than APPS_SIZE" memory := by
  have turn : appsSize % pageSize = 0 := by decide
  have fails : ¬ (pageIdx + 1 ≥ 0 ∧ pageIdx + 1 < ((appsSize / pageSize : Nat) : Int)) := by
    simp only [appsSize, pageSize] at index ⊢
    omega
  unfold nextPage
  rw [if_pos turn, ends_bind, ends_assert, if_neg fails]
  rfl

/-- Reading the blocks of an application fills its pages as far as there are any. -/
theorem ends_copyBlocks (frames : CodeFrames paddrs) (reader : Nat → Block)
    (first pFilesz : Nat) (memory : Memory) : ∀ (rounds off : Nat) (pageIdx : Int)
    (middle : Memory), off % blockSize = 0 → off ≤ appsSize → off < pFilesz + blockSize →
    pageIdx = (((off + pageSize - 1) / pageSize : Nat) : Int) - 1 →
    Filled reader paddrs first memory middle off →
    Ends (copyBlocks reader paddrs pFilesz rounds off (first + off / blockSize) pageIdx)
      (fun last after => ∃ reached, reached ≤ appsSize ∧ reached < pFilesz + blockSize ∧
        reached % blockSize = 0 ∧
        last = (((reached + pageSize - 1) / pageSize : Nat) : Int) - 1 ∧
        Filled reader paddrs first memory after reached ∧
        (pFilesz ≤ off + rounds * blockSize → pFilesz ≤ reached))
      (fun error after => error = "[ASSERT FAILED]app is larger than APPS_SIZE" ∧
        appsSize < pFilesz ∧ Filled reader paddrs first memory after appsSize) middle := by
  intro rounds
  -- Every round starts at the beginning of a block that has not been copied yet.
  induction rounds with
  | zero =>
    intro off pageIdx middle aligned low close index filled
    exact ⟨off, low, close, aligned, index, filled, by omega⟩
  | succ rounds ih =>
    intro off pageIdx middle aligned low close index filled
    rw [copyBlocks]
    by_cases more : off < pFilesz
    · rw [if_pos more, ends_bind]
      rcases Nat.lt_or_eq_of_le low with inside | full
      · have whole : off + blockSize ≤ appsSize := by
          simp only [blockSize, appsSize] at aligned inside ⊢
          omega
        have block : first + off / blockSize + 1 = first + (off + blockSize) / blockSize := by
          rw [Nat.add_div_right off (by decide), Nat.add_assoc]
        rw [nextPage_inside inside index, ends_bind, storeBytes, ends_modify, Int.toNat_natCast,
          block]
        refine (ih (off + blockSize) _ _ ?_ whole (by omega) ?_
          (filled.block frames aligned inside)).imp (fun last after done => ?_) (fun _ _ => id)
        · rw [Nat.add_mod_right]
          exact aligned
        · simp only [pageSize, blockSize] at aligned ⊢
          omega
        · obtain ⟨reached, top, near, whole, place, image, enough⟩ := done
          refine ⟨reached, top, near, whole, place, image, fun rest => enough ?_⟩
          rw [Nat.add_mul, Nat.one_mul] at rest
          omega
      · subst full
        rw [nextPage_outside index]
        exact ⟨rfl, more, filled⟩
    · rw [if_neg more]
      exact ⟨off, low, close, aligned, index, filled, fun _ => by omega⟩

/-- The pages for the code hold the segment, with zeros behind it. -/
structure Image (reader : Nat → Block) (paddrs : List Nat) (first pFilesz : Nat)
    (memory after : Memory) : Prop where
  tables : SameTables memory after
  bytes : ∀ i < appsSize, readByte after.ram (target paddrs i) =
    if i < pFilesz then fileByte reader (first * blockSize + i) else 0
  kept : ∀ addr, pageOf addr ∉ paddrs → readByte after.ram addr = readByte memory.ram addr

/-- An address in none of the pages is not the place of a byte of the code. -/
theorem CodeFrames.target_ne (frames : CodeFrames paddrs) {addr i : Nat}
    (outside : pageOf addr ∉ paddrs) (inside : i < appsSize) : addr ≠ target paddrs i := by
  rintro rfl
  obtain ⟨below, page, -⟩ := frames.mem inside
  rw [page] at outside
  exact outside (List.getElem_mem below)

/-- The rest of the last page that the segment has come to. -/
theorem target_last (paddrs : List Nat) {pFilesz reached : Nat} {last : Int}
    (fits : pFilesz ≤ reached) (near : reached < pFilesz + blockSize)
    (index : last = (((reached + pageSize - 1) / pageSize : Nat) : Int) - 1)
    (whole : reached % blockSize = 0) (partly : pFilesz % pageSize ≠ 0) (k : Nat)
    (inside : k < pageSize - pFilesz % pageSize) :
    paddrs[last.toNat]?.getD 0 + pFilesz % pageSize + k = target paddrs (pFilesz + k) := by
  have page : last.toNat = (pFilesz + k) / pageSize := by
    simp only [pageSize, blockSize] at fits near index whole partly inside ⊢
    omega
  have offset : (pFilesz + k) % pageSize = pFilesz % pageSize + k := by
    simp only [pageSize] at partly inside ⊢
    omega
  rw [target, page, offset, Nat.add_assoc]

/-- Clearing the rest of the last page makes the image complete. -/
theorem Filled.cleared (frames : CodeFrames paddrs) {pFilesz reached : Nat} {last : Int}
    (filled : Filled reader paddrs first memory middle reached)
    (blank : ∀ i < appsSize, readByte memory.ram (target paddrs i) = 0)
    (top : reached ≤ appsSize) (fits : pFilesz ≤ reached) (near : reached < pFilesz + blockSize)
    (whole : reached % blockSize = 0)
    (index : last = (((reached + pageSize - 1) / pageSize : Nat) : Int) - 1)
    (partly : pFilesz % pageSize ≠ 0) :
    Image reader paddrs first pFilesz memory { middle with
      ram := withBytes middle.ram (paddrs[last.toNat]?.getD 0 + pFilesz % pageSize)
        (List.replicate (pageSize - pFilesz % pageSize) 0) } := by
  have room : pFilesz + (pageSize - pFilesz % pageSize) ≤ appsSize := by
    simp only [pageSize, appsSize] at fits top partly ⊢
    omega
  have start := target_last paddrs fits near index whole partly
  obtain ⟨tables, written, kept⟩ := filled
  refine ⟨⟨tables.bitmap, tables.table, tables.vm, tables.rows⟩, ?_, ?_⟩
  · intro i inside
    rw [readByte_withBytes]
    -- The cleared bytes are those behind the segment in its last page.
    by_cases behind : pFilesz ≤ i ∧ i < pFilesz + (pageSize - pFilesz % pageSize)
    · have here := start (i - pFilesz) (by omega)
      rw [Nat.add_sub_cancel' behind.1] at here
      rw [← here, if_pos (Nat.le_add_right _ _), Nat.add_sub_cancel_left,
        List.getElem?_replicate, if_pos (by omega), if_neg (by omega)]
      rfl
    · have apart : ∀ k < pageSize - pFilesz % pageSize,
          target paddrs i ≠ paddrs[last.toNat]?.getD 0 + pFilesz % pageSize + k := by
        intro k column same
        rw [start k column] at same
        have equal := frames.target_inj inside (by omega) same
        omega
      have before : readByte middle.ram (target paddrs i) =
          if i < pFilesz then fileByte reader (first * blockSize + i) else 0 := by
        by_cases low : i < pFilesz
        · rw [if_pos low]
          exact written i (by omega)
        · -- What lies on the pages behind the last one has always been zero.
          have above : reached ≤ i := by
            simp only [pageSize, blockSize] at fits near whole partly behind low ⊢
            omega
          rw [if_neg low, kept _ fun j below same => ?_, blank i inside]
          have equal := frames.target_inj inside (by omega) same
          omega
      split
      · rename_i later
        rw [List.getElem?_eq_none, Option.getD_none, before]
        rw [List.length_replicate]
        by_contra short
        refine apart (target paddrs i - (paddrs[last.toNat]?.getD 0 + pFilesz % pageSize))
          (by omega) (by omega)
      · exact before
  · intro addr outside
    rw [readByte_withBytes]
    have before := kept addr fun i below => frames.target_ne outside (by omega)
    split
    · rename_i later
      rw [List.getElem?_eq_none, Option.getD_none, before]
      rw [List.length_replicate]
      by_contra short
      have here := start (addr - (paddrs[last.toNat]?.getD 0 + pFilesz % pageSize)) (by omega)
      refine frames.target_ne outside (i := pFilesz + (addr -
        (paddrs[last.toNat]?.getD 0 + pFilesz % pageSize))) (by omega) ?_
      rw [← here]
      omega
    · exact before

/-- A segment that ends with a page leaves nothing to clear. -/
theorem Filled.complete (frames : CodeFrames paddrs) {pFilesz reached : Nat}
    (filled : Filled reader paddrs first memory middle reached)
    (blank : ∀ i < appsSize, readByte memory.ram (target paddrs i) = 0)
    (top : reached ≤ appsSize) (fits : pFilesz ≤ reached) (near : reached < pFilesz + blockSize)
    (whole : reached % blockSize = 0) (full : pFilesz % pageSize = 0) :
    Image reader paddrs first pFilesz memory middle := by
  -- No block reaches past the end of the segment, so that the copied bytes are those of it.
  have same : reached = pFilesz := by
    simp only [pageSize, blockSize] at fits near whole full
    omega
  subst same
  obtain ⟨tables, written, kept⟩ := filled
  refine ⟨tables, ?_, fun addr outside => kept addr fun i below =>
    frames.target_ne outside (by omega)⟩
  intro i inside
  by_cases low : i < reached
  · rw [if_pos low]
    exact written i low
  · rw [if_neg low, kept _ fun j below equal => ?_, blank i inside]
    have index := frames.target_inj inside (by omega) equal
    omega

end Copying

end Egos.Elf
