import Egos.Earth.Allocator
import Mathlib.Data.Finset.Card

/-! The identity mapping of the kernel: two levels of page tables that map regions to themselves. -/

namespace Egos.Earth.Identity

open Egos.Grass

/-- The flags of an entry that maps a page for every kind of access. -/
abbrev flagValidRwx : Nat := 0xF

/-- The flag of an entry that leads to a table of the second level. -/
abbrev flagNextLevel : Nat := 0x1

/-- Entries of a table. -/
abbrev tableLen : Nat := 1024

/-- The page in which an entry lies, counted in words from the beginning of a table. -/
def entryPage (table index : Nat) : Nat := table + index / tableLen * pageSize

/-- An entry of a table. -/
def readEntry (memory : Memory) (table index : Nat) : Nat :=
  (memory.ram (entryPage table index)).word (index % tableLen)

/-- Replaces an entry of a table by the low 32 bits of a value. -/
def writeEntry (table index value : Nat) : MemM Unit := do
  let memory ← get
  let page := entryPage table index
  storePage page ((memory.ram page).setWord (index % tableLen) value)

/-- The table of the second level that an entry of the root table leads to. -/
def secondLevel (root vpn1 : Nat) : MemM Nat := do
  let memory ← get
  let entry := readEntry memory root vpn1
  if entry &&& flagNextLevel ≠ 0 then return (entry >>> 10) <<< 12 % 2 ^ 32
  else
    -- There is no such table yet.
    let l2 ← pmalloc true
    let ppn := l2 >>> 12
    writeEntry root vpn1 ((ppn <<< 10) ||| flagNextLevel)
    return l2

/-- Maps one page of a region in a table of the second level. -/
def setupEntry (l2 vpn0 addr i : Nat) : MemM Unit := do
  let memory ← get
  assert (readEntry memory l2 (vpn0 + i) = 0) "non-empty l2 PTE"
  writeEntry l2 (vpn0 + i) (((addr + i * pageSize) % 2 ^ 32) >>> 2 ||| flagValidRwx)

/-- Maps a region to itself. -/
def setupIdentityRegion (pidToPagetableBase : Fin maxNprocess → Nat) (pid : Fin maxNprocess)
    (addr : Nat) (npages : Int) : MemM Unit := do
  assert (npages ≤ 1024) "npages is larger than 1024"
  assert (addr &&& 0xFFF = 0) "addr is not 4K aligned"
  let root := pidToPagetableBase pid
  assert (root ≠ 0) "pagetable root is NULL"
  let l2 ← secondLevel root (addr >>> 22)
  let vpn0 := (addr >>> 12) &&& 0x3FF
  (List.range npages.toNat).forM (setupEntry l2 vpn0 addr)

/-- A virtual page is mapped to a physical page, with these flags in the entry. -/
structure Leaf where
  ppn : Nat
  flags : Nat
  deriving DecidableEq, Repr

/-- An entry is valid, and does not permit to write what it does not permit to read. -/
def valid (pte : Nat) : Bool := pte.testBit 0 ∧ (pte.testBit 2 → pte.testBit 1)

/-- An entry that permits to read or to execute is a leaf. -/
def isLeaf (pte : Nat) : Bool := pte.testBit 1 ∨ pte.testBit 3

/-- The walk that the processor makes from the root table to the entry of a virtual page. -/
def walk (memory : Memory) (root vpn : Nat) : Option Leaf :=
  let pte := readEntry memory root (vpn / tableLen)
  if ¬ valid pte then none
  else if isLeaf pte then
    -- A leaf of the first level maps as many pages as a table has entries.
    if pte / 1024 % tableLen = 0 then some ⟨pte / 1024 + vpn % tableLen, pte % 1024⟩ else none
  else
    let pte := readEntry memory (pte / 1024 * pageSize) (vpn % tableLen)
    if valid pte ∧ isLeaf pte then some ⟨pte / 1024, pte % 1024⟩ else none

/-- A region of whole pages. -/
structure Region where
  addr : Nat
  npages : Int
  deriving DecidableEq

namespace Region

/-- The root entry that leads to a region. -/
def vpn1 (region : Region) : Nat := region.addr / (tableLen * pageSize)

/-- A virtual page lies in a region. -/
def covers (region : Region) (vpn : Nat) : Bool :=
  region.addr / pageSize ≤ vpn ∧ vpn < region.addr / pageSize + region.npages.toNat

/-- A region is aligned, and stays inside of the range of one root entry. -/
structure Fits (region : Region) : Prop where
  word : region.addr < 2 ^ 32
  aligned : region.addr % pageSize = 0
  small : region.npages ≤ 1024
  range : region.addr / pageSize % tableLen + region.npages ≤ 1024

/-- Two regions have no page in common. -/
def Disjoint (first second : Region) : Prop := ∀ vpn, ¬ (first.covers vpn ∧ second.covers vpn)

end Region

section Entries

variable {memory after : Memory} {table other index k value : Nat}

/-- A table lies in one page. -/
theorem entryPage_eq (inside : index < tableLen) : entryPage table index = table := by
  rw [entryPage, Nat.div_eq_of_lt inside, Nat.zero_mul, Nat.add_zero]

/-- The memory after an entry has been written. -/
def written (memory : Memory) (table index value : Nat) : Memory :=
  let page := (memory.ram table).setWord index value
  { memory with ram := Function.update memory.ram table page }

/-- A written entry reads back, and all others stay as they are. -/
theorem readEntry_written (inside : index < tableLen) (inside_ : k < tableLen) :
    readEntry (written memory table index value) other k =
      if other = table ∧ k = index then value % 2 ^ 32 else readEntry memory other k := by
  -- Entries of one table are words of one page, and other tables are other pages.
  simp only [readEntry, written, entryPage_eq inside_, Nat.mod_eq_of_lt inside_]
  by_cases same : other = table
  · rw [same, Function.update_self]
    by_cases here : k = index
    · rw [here, if_pos ⟨rfl, rfl⟩]
      apply Buffer.word_setWord_same
      simp only [tableLen] at inside
      simp only [pageSize]
      omega
    · rw [if_neg fun both => here both.2]
      apply Buffer.word_setWord_ne _ _ _ here
      simp only [tableLen] at inside_
      simp only [pageSize]
      omega
  · rw [if_neg fun both => same both.1, Function.update_of_ne same]

/-- What writing an entry does. -/
theorem ends_writeEntry {returns : Unit → Memory → Prop} {stops : String → Memory → Prop}
    (inside : index < tableLen) :
    Ends (writeEntry table index value) returns stops memory ↔
      returns () (written memory table index value) := by
  simp only [writeEntry, storePage, ends_bind, ends_get, ends_modify, entryPage_eq inside,
    Nat.mod_eq_of_lt inside, written]

/-- The entry that leads to a table. -/
theorem entry_of_table (aligned : table % pageSize = 0) :
    ((table >>> 12) <<< 10) ||| flagNextLevel = table / 4 + 1 := by
  have split := Nat.two_pow_add_eq_or_of_lt (show 1 < 2 ^ 10 by decide) (table / 4096)
  rw [Nat.shiftRight_eq_div_pow, Nat.shiftLeft_eq]
  simp only [pageSize] at aligned
  rw [Nat.mul_comm]
  exact split.symm.trans (by omega)

/-- The entry that maps a page to itself. -/
theorem entry_of_page {vpn : Nat} (small : vpn < 2 ^ 20) :
    (vpn * pageSize % 2 ^ 32) >>> 2 ||| flagValidRwx = vpn * 1024 + 15 := by
  have split := Nat.two_pow_add_eq_or_of_lt (show 15 < 2 ^ 10 by decide) vpn
  have word : vpn * pageSize % 2 ^ 32 = vpn * 4096 := Nat.mod_eq_of_lt (by
    simp only [pageSize]
    omega)
  have shifted : vpn * 4096 / 2 ^ 2 = 2 ^ 10 * vpn := by omega
  rw [word, Nat.shiftRight_eq_div_pow, shifted]
  exact split.symm.trans (by omega)

/-- The entry that maps a page fits into a word. -/
theorem entry_word {vpn : Nat} (small : vpn < 2 ^ 20) :
    (vpn * 1024 + 15) % 2 ^ 32 = vpn * 1024 + 15 :=
  Nat.mod_eq_of_lt (by omega)

/-- The table that an entry leads to. -/
theorem table_of_entry (aligned : table % pageSize = 0) (small : table < 2 ^ 32) :
    (table / 4 + 1) &&& flagNextLevel ≠ 0 ∧
      ((table / 4 + 1) >>> 10) <<< 12 % 2 ^ 32 = table := by
  simp only [pageSize] at aligned
  constructor
  · rw [Nat.and_one_is_mod]
    omega
  · rw [Nat.shiftRight_eq_div_pow, Nat.shiftLeft_eq]
    omega

/-- The physical page number in an entry that leads to a table. -/
theorem ppn_of_entry (aligned : table % pageSize = 0) :
    (table / 4 + 1) / 1024 * pageSize = table := by
  simp only [pageSize] at aligned ⊢
  omega

/-- Which flags an entry has. -/
theorem flags_eq (pte : Nat) :
    (valid pte ↔ pte % 2 = 1 ∧ (pte / 4 % 2 = 1 → pte / 2 % 2 = 1)) ∧
      (isLeaf pte ↔ pte / 2 % 2 = 1 ∨ pte / 8 % 2 = 1) := by
  simp only [valid, isLeaf, Nat.testBit_eq_decide_div_mod_eq, decide_eq_true_eq, Nat.reducePow,
    Nat.div_one, and_self]

end Entries

/-- The tables map exactly the covered pages, each of them to itself. -/
structure Mapped (memory : Memory) (allocated : Finset Nat) (root : Nat)
    (tables : Nat → Option Nat) (covered : Nat → Bool) : Prop where
  tracks : Tracks memory allocated
  -- The allocator does not hand out the page of the root table.
  rooted : Managed root → root ∈ allocated
  own : ∀ i l2, tables i = some l2 → l2 ∈ allocated ∧ l2 ≠ root
  apart : ∀ i j l2, tables i = some l2 → tables j = some l2 → i = j
  entries : ∀ i < tableLen, readEntry memory root i =
    match tables i with
    | none => 0
    | some l2 => l2 / 4 + 1
  missing : ∀ i < tableLen, tables i = none → ∀ k < tableLen, covered (i * tableLen + k) = false
  leaves : ∀ i < tableLen, ∀ l2, tables i = some l2 → ∀ k < tableLen, readEntry memory l2 k =
    if covered (i * tableLen + k) then (i * tableLen + k) * 1024 + 15 else 0

section Walks

variable {memory : Memory} {allocated : Finset Nat} {root i l2 vpn : Nat}
variable {tables : Nat → Option Nat} {covered : Nat → Bool}

/-- Allocated pages are aligned and have addresses of 32 bits. -/
theorem Mapped.page (mapped : Mapped memory allocated root tables covered)
    (own : tables i = some l2) : l2 % pageSize = 0 ∧ l2 < 2 ^ 32 := by
  obtain ⟨aligned, -, high⟩ := mapped.tracks.managed l2 (mapped.own i l2 own).1
  simp only [npages, freeMemStart, freeMemEnd, removedPages, pageSize] at high
  exact ⟨aligned, by omega⟩

/-- The walk finds exactly the pages that are covered. -/
theorem Mapped.walk (mapped : Mapped memory allocated root tables covered)
    (small : vpn < 2 ^ 20) : Identity.walk memory root vpn =
      if covered vpn then some ⟨vpn, flagValidRwx⟩ else none := by
  have first : vpn / tableLen < tableLen := by
    simp only [tableLen]
    omega
  have second : vpn % tableLen < tableLen := Nat.mod_lt _ (by decide)
  have whole : vpn / tableLen * tableLen + vpn % tableLen = vpn := Nat.div_add_mod' _ _
  have entry := mapped.entries _ first
  unfold Identity.walk
  cases own : tables (vpn / tableLen) with
  | none =>
    -- A root entry that is zero is not valid.
    rw [own] at entry
    have nothing := mapped.missing _ first own _ second
    rw [whole] at nothing
    have invalid : ¬ valid 0 := by decide
    rw [entry]
    simp only [nothing, Bool.false_eq_true, if_false]
    rw [if_pos invalid]
  | some l2 =>
    rw [own] at entry
    obtain ⟨aligned, word⟩ := mapped.page own
    have leaf := mapped.leaves _ first l2 own _ second
    rw [whole] at leaf
    have leads : valid (l2 / 4 + 1) ∧ ¬ isLeaf (l2 / 4 + 1) := by
      rw [(flags_eq _).1, (flags_eq _).2]
      simp only [pageSize] at aligned
      omega
    rw [entry]
    dsimp only
    rw [if_neg (not_not.mpr leads.1), if_neg leads.2, ppn_of_entry aligned, leaf]
    split
    · have maps : valid (vpn * 1024 + 15) ∧ isLeaf (vpn * 1024 + 15) := by
        rw [(flags_eq _).1, (flags_eq _).2]
        omega
      have parts : (vpn * 1024 + 15) / 1024 = vpn ∧ (vpn * 1024 + 15) % 1024 = 15 := by omega
      rw [if_pos maps, parts.1, parts.2]
    · rw [if_neg (by decide)]

end Walks

section Calls

variable {memory after : Memory} {allocated : Finset Nat} {root i k l2 : Nat}
variable {tables : Nat → Option Nat} {covered : Nat → Bool}

/-- An entry depends on the page of its table only. -/
theorem readEntry_congr (same : after.ram l2 = memory.ram l2) (inside : k < tableLen) :
    readEntry after l2 k = readEntry memory l2 k := by
  rw [readEntry, readEntry, entryPage_eq inside, same]

/-- The allocator fails only when it has no page left. -/
theorem card_of_full (full : ∀ addr, Managed addr → addr ∈ allocated) :
    npages ≤ allocated.card := by
  have injective : Function.Injective pageAddr := fun _ _ => pageAddr_inj.mp
  have inside : (Finset.range npages).image pageAddr ⊆ allocated := by
    intro addr member
    obtain ⟨page, below, rfl⟩ := Finset.mem_image.mp member
    exact full _ (managed_iff.mpr ⟨page, Finset.mem_range.mp below, rfl⟩)
  have count := Finset.card_le_card inside
  rw [Finset.card_image_of_injective _ injective, Finset.card_range] at count
  exact count

/-- A new table of the second level maps nothing. -/
theorem Mapped.extended {addr : Nat} (mapped : Mapped memory allocated root tables covered)
    (first : i < tableLen) (new : tables i = none)
    (taken : Allocates memory allocated true addr after) :
    Mapped (written after root i (addr / 4 + 1)) (insert addr allocated) root
      (Function.update tables i (some addr)) covered := by
  -- The table is a fresh page, which no entry points to but the new one.
  have apart : addr ≠ root := by
    rintro rfl
    exact taken.new (mapped.rooted taken.managed)
  have fresh : ∀ j l2, tables j = some l2 → l2 ≠ addr := by
    rintro j l2 own rfl
    exact taken.new (mapped.own j l2 own).1
  have high := taken.managed.2.2
  simp only [npages, freeMemStart, freeMemEnd, removedPages, pageSize] at high
  refine ⟨⟨taken.tracks.managed, taken.tracks.marks⟩, ?_, ?_, ?_, ?_, ?_, ?_⟩
  · intro managed
    exact Finset.mem_insert_of_mem (mapped.rooted managed)
  · intro j l2 own
    by_cases same : j = i
    · rw [same, Function.update_self] at own
      obtain rfl := Option.some.inj own
      exact ⟨Finset.mem_insert_self .., apart⟩
    · rw [Function.update_of_ne same] at own
      obtain ⟨member, different⟩ := mapped.own j l2 own
      exact ⟨Finset.mem_insert_of_mem member, different⟩
  · intro j j_ l2 own own_
    by_cases same : j = i
    · by_cases same_ : j_ = i
      · rw [same, same_]
      · rw [same, Function.update_self] at own
        rw [Function.update_of_ne same_] at own_
        exact absurd (Option.some.inj own).symm (fresh _ _ own_)
    · rw [Function.update_of_ne same] at own
      by_cases same_ : j_ = i
      · rw [same_, Function.update_self] at own_
        exact absurd (Option.some.inj own_).symm (fresh _ _ own)
      · rw [Function.update_of_ne same_] at own_
        exact mapped.apart _ _ _ own own_
  · intro j inside
    rw [readEntry_written first inside]
    by_cases same : j = i
    · rw [same, if_pos ⟨rfl, rfl⟩, Function.update_self]
      exact Nat.mod_eq_of_lt (by omega)
    · rw [if_neg fun both => same both.2, Function.update_of_ne same,
        readEntry_congr (taken.kept root (Or.inl apart.symm)) inside]
      exact mapped.entries j inside
  · intro j inside none
    by_cases same : j = i
    · rw [same, Function.update_self] at none
      cases none
    · rw [Function.update_of_ne same] at none
      exact mapped.missing j inside none
  · intro j inside l2 own k below
    by_cases same : j = i
    · rw [same, Function.update_self] at own
      obtain rfl := Option.some.inj own
      rw [readEntry_written first below, if_neg fun both => apart both.1, same,
        mapped.missing i first new k below]
      simp [readEntry, entryPage_eq below, taken.cleared rfl]
    · rw [Function.update_of_ne same] at own
      rw [readEntry_written first below, if_neg fun both => (mapped.own j l2 own).2 both.1,
        readEntry_congr (taken.kept l2 (Or.inl (fresh j l2 own))) below]
      exact mapped.leaves j inside l2 own k below

/-- The table of the second level is found or allocated. -/
theorem Mapped.secondLevel (mapped : Mapped memory allocated root tables covered)
    (first : i < tableLen) (room : tables i = none → allocated.card < npages) :
    Ends (secondLevel root i) (fun l2 after => ∃ taken tables_,
      Mapped after taken root tables_ covered ∧ tables_ i = some l2 ∧
        (∀ j, j ≠ i → tables_ j = tables j) ∧
        taken.card = allocated.card + if tables i = none then 1 else 0)
      (fun _ _ => False) memory := by
  -- A table that is there already maps what it maps.
  have entry := mapped.entries i first
  unfold Identity.secondLevel
  rw [ends_bind, ends_get]
  dsimp only
  cases own : tables i with
  | none =>
    rw [own] at entry
    dsimp only at entry
    rw [entry, if_neg (by decide), ends_bind]
    refine (mapped.tracks.pmalloc true).imp (fun addr middle taken => ?_) fun _ _ full => ?_
    · rw [ends_bind, ends_writeEntry first, ends_pure, entry_of_table taken.managed.1]
      refine ⟨_, _, mapped.extended first own taken, Function.update_self .., ?_, ?_⟩
      · intro j different
        exact Function.update_of_ne different ..
      · rw [Finset.card_insert_of_notMem taken.new, if_pos rfl]
    · exact Nat.not_lt.mpr (card_of_full full) (room own)
  | some l2 =>
    obtain ⟨aligned, small⟩ := mapped.page own
    obtain ⟨leads, table⟩ := table_of_entry aligned small
    rw [own] at entry
    dsimp only at entry
    rw [entry, if_pos leads, ends_pure, table]
    exact ⟨allocated, tables, mapped, own, fun _ _ => rfl, by simp⟩

/-- Writing the entry of a page that is not covered covers it. -/
theorem Mapped.setupEntry {vpn0 addr n : Nat}
    (mapped : Mapped memory allocated root tables covered) (first : i < tableLen)
    (own : tables i = some l2) (inside : vpn0 + n < tableLen)
    (free : covered (i * tableLen + (vpn0 + n)) = false)
    (place : addr + n * pageSize = (i * tableLen + (vpn0 + n)) * pageSize) :
    Ends (setupEntry l2 vpn0 addr n) (fun _ after => Mapped after allocated root tables
      fun vpn => covered vpn || decide (vpn = i * tableLen + (vpn0 + n)))
      (fun _ _ => False) memory := by
  -- The entry is written to a place of its own in its table.
  have small : i * tableLen + (vpn0 + n) < 2 ^ 20 := by
    simp only [tableLen] at first inside ⊢
    omega
  have empty := mapped.leaves i first l2 own _ inside
  rw [free, if_neg Bool.false_ne_true] at empty
  unfold Identity.setupEntry
  rw [ends_bind, ends_get, ends_bind, ends_assert, if_pos empty, ends_writeEntry inside, place,
    entry_of_page small]
  refine ⟨⟨mapped.tracks.managed, mapped.tracks.marks⟩, mapped.rooted, mapped.own, mapped.apart,
    ?_, ?_, ?_⟩
  · intro j below
    rw [readEntry_written inside below, if_neg fun both => (mapped.own i l2 own).2 both.1.symm]
    exact mapped.entries j below
  · intro j below none k below_
    have different : j * tableLen + k ≠ i * tableLen + (vpn0 + n) := by
      intro same
      have equal : j = i := by
        simp only [tableLen] at inside below_ same
        omega
      rw [equal, own] at none
      cases none
    rw [mapped.missing j below none k below_, decide_eq_false different]
    rfl
  · intro j below l2_ own_ k below_
    rw [readEntry_written inside below_, mapped.leaves j below l2_ own_ k below_]
    by_cases same : l2_ = l2 ∧ k = vpn0 + n
    · obtain ⟨rfl, rfl⟩ := same
      obtain rfl := mapped.apart _ _ _ own_ own
      rw [if_pos ⟨rfl, rfl⟩, decide_eq_true rfl, Bool.or_true, if_pos rfl, entry_word small]
    · have different : j * tableLen + k ≠ i * tableLen + (vpn0 + n) := by
        intro equal
        have indexes : j = i ∧ k = vpn0 + n := by
          simp only [tableLen] at inside below_ equal
          omega
        rw [indexes.1, own] at own_
        exact same ⟨(Option.some.inj own_).symm, indexes.2⟩
      rw [if_neg same, decide_eq_false different, Bool.or_false]

/-- The places of a region in the tables. -/
theorem Region.Fits.place {region : Region} (fits : region.Fits) :
    region.addr >>> 22 = region.vpn1 ∧ region.vpn1 < tableLen ∧
      (region.addr >>> 12) &&& 0x3FF = region.addr / pageSize % tableLen ∧
      region.addr &&& 0xFFF = 0 ∧
      region.vpn1 * tableLen + region.addr / pageSize % tableLen = region.addr / pageSize := by
  obtain ⟨word, aligned, -, -⟩ := fits
  have low := Nat.and_two_pow_sub_one_eq_mod region.addr 12
  have middle := Nat.and_two_pow_sub_one_eq_mod (region.addr >>> 12) 10
  simp only [Region.vpn1, tableLen, pageSize] at *
  refine ⟨Nat.shiftRight_eq_div_pow _ _, by omega, ?_, ?_, by omega⟩
  · rw [Nat.shiftRight_eq_div_pow] at middle ⊢
    exact middle
  · exact low.trans aligned

/-- A call maps its region to itself, and none of its assertions fails. -/
theorem Mapped.region {base : Fin maxNprocess → Nat} {pid : Fin maxNprocess} {region : Region}
    (mapped : Mapped memory allocated (base pid) tables covered) (null : base pid ≠ 0)
    (fits : region.Fits) (disjoint : ∀ vpn, region.covers vpn → covered vpn = false)
    (room : tables region.vpn1 = none → allocated.card < npages) :
    Ends (setupIdentityRegion base pid region.addr region.npages)
      (fun _ after => ∃ taken tables_, Mapped after taken (base pid) tables_
        (fun vpn => covered vpn || region.covers vpn) ∧ (tables_ region.vpn1).isSome ∧
        (∀ j, j ≠ region.vpn1 → tables_ j = tables j) ∧
        taken.card = allocated.card + if tables region.vpn1 = none then 1 else 0)
      (fun _ _ => False) memory := by
  obtain ⟨vpn1, first, vpn0, aligned, whole⟩ := fits.place
  unfold setupIdentityRegion
  rw [ends_bind, ends_assert, if_pos fits.small, ends_bind, ends_assert, if_pos aligned]
  dsimp only
  rw [ends_bind, ends_assert, if_pos null, ends_bind, vpn1, vpn0]
  refine (mapped.secondLevel first room).imp (fun l2 middle found => ?_) fun _ _ => id
  obtain ⟨taken, tables_, mapped, own, others, count⟩ := found
  have range := fits.range
  have small := fits.small
  -- Each round covers one more page of the region.
  let covers := fun (count vpn : Nat) => covered vpn ||
    decide (region.addr / pageSize ≤ vpn ∧ vpn < region.addr / pageSize + count)
  have loop : Ends ((List.range region.npages.toNat).forM
      (Identity.setupEntry l2 (region.addr / pageSize % tableLen) region.addr))
      (fun _ after => Mapped after taken (base pid) tables_ (covers region.npages.toNat))
      (fun _ _ => False) middle := by
    refine (Ends.forM (fun done state => Mapped state taken (base pid) tables_
      (covers done.length)) ?_ ?_).imp (fun _ after mapped => ?_) fun _ _ => id
    · have nothing : covers 0 = covered := by
        funext vpn
        have outside : ¬ (region.addr / pageSize ≤ vpn ∧ vpn < region.addr / pageSize + 0) := by
          omega
        simp only [covers]
        rw [decide_eq_false outside, Bool.or_false]
      rw [List.length_nil, nothing]
      exact mapped
    · intro done n rest state split mapped
      have length : n = done.length ∧ n < region.npages.toNat := by
        have inside := congrArg List.length split
        have entry := congrArg (fun items => items[done.length]?) split
        simp only [List.length_range, List.length_append, List.length_cons] at inside
        rw [List.getElem?_append_right (Nat.le_refl _), Nat.sub_self, List.getElem?_cons_zero,
          List.getElem?_range (by omega)] at entry
        exact ⟨(Option.some.inj entry).symm, by have := Option.some.inj entry; omega⟩
      obtain ⟨same, below⟩ := length
      have inside : region.addr / pageSize % tableLen + n < tableLen := by
        simp only [tableLen] at range ⊢
        omega
      have place : region.vpn1 * tableLen + (region.addr / pageSize % tableLen + n) =
          region.addr / pageSize + n := by
        rw [← Nat.add_assoc, whole]
      have free : covers done.length
          (region.vpn1 * tableLen + (region.addr / pageSize % tableLen + n)) = false := by
        have covered_ : region.covers (region.addr / pageSize + n) := by
          simp only [Region.covers, decide_eq_true_eq]
          omega
        rw [place, ← same]
        simp only [covers]
        rw [disjoint _ covered_, decide_eq_false (by omega)]
        rfl
      have bytes : region.addr + n * pageSize =
          (region.vpn1 * tableLen + (region.addr / pageSize % tableLen + n)) * pageSize := by
        have aligned := fits.aligned
        rw [place]
        simp only [pageSize] at aligned ⊢
        omega
      refine (mapped.setupEntry first own inside free bytes).imp (fun _ after mapped => ?_)
        fun _ _ => id
      have next : (fun vpn => covers done.length vpn || decide (vpn = region.vpn1 * tableLen +
          (region.addr / pageSize % tableLen + n))) = covers (done ++ [n]).length := by
        funext vpn
        simp only [covers, place, List.length_append, List.length_singleton]
        rw [Bool.or_assoc, ← Bool.decide_or]
        congr 1
        apply decide_eq_decide.mpr
        omega
      rw [← next]
      exact mapped
    · rw [List.length_range] at mapped
      exact mapped
  refine loop.imp (fun _ after mapped => ?_) fun _ _ => id
  exact ⟨taken, tables_, mapped, by rw [own]; rfl, others, count⟩

end Calls

section Sequences

variable {memory : Memory} {allocated : Finset Nat} {base : Fin maxNprocess → Nat}
variable {pid : Fin maxNprocess} {regions : List Region}

/-- A zeroed root table maps nothing. -/
theorem Mapped.initial (tracks : Tracks memory allocated) {root : Nat}
    (rooted : Managed root → root ∈ allocated) (zeroed : memory.ram root = Buffer.zero _) :
    Mapped memory allocated root (fun _ => none) (fun _ => false) := by
  refine ⟨tracks, rooted, nofun, nofun, fun i inside => ?_, fun _ _ _ _ _ => rfl, nofun⟩
  simp [readEntry, entryPage_eq inside, zeroed]

/-- Calls for regions that are apart from each other map all of them. -/
theorem Mapped.sequence
    (mapped : Mapped memory allocated (base pid) (fun _ => none) (fun _ => false))
    (null : base pid ≠ 0) (fits : ∀ region ∈ regions, region.Fits)
    (disjoint : regions.Pairwise Region.Disjoint)
    (enough : allocated.card + (regions.map Region.vpn1).toFinset.card ≤ npages) :
    Ends (regions.forM fun region => setupIdentityRegion base pid region.addr region.npages)
      (fun _ after => ∃ taken tables, Mapped after taken (base pid) tables
        fun vpn => regions.any fun region => region.covers vpn)
      (fun _ _ => False) memory := by
  -- Each root entry that is in use has cost one page.
  refine (Ends.forM (fun done state => ∃ taken tables, ∃ used : Finset Nat,
    Mapped state taken (base pid) tables (fun vpn => done.any fun region => region.covers vpn) ∧
      (∀ i, tables i = none ↔ i ∉ used) ∧ used ⊆ (regions.map Region.vpn1).toFinset ∧
      taken.card = allocated.card + used.card) ?_ ?_).imp (fun _ after mapped => ?_) fun _ _ => id
  · refine ⟨allocated, fun _ => none, ∅, mapped, fun i => ?_, Finset.empty_subset _, ?_⟩
    · exact iff_of_true rfl (Finset.notMem_empty i)
    · rw [Finset.card_empty, Nat.add_zero]
  · rintro done region rest state rfl ⟨taken, tables, used, mapped, users, inside, count⟩
    have here : region ∈ done ++ region :: rest := by simp
    have target : region.vpn1 ∈ ((done ++ region :: rest).map Region.vpn1).toFinset :=
      List.mem_toFinset.mpr (List.mem_map_of_mem here)
    have apart : ∀ vpn, region.covers vpn →
        (done.any fun region => region.covers vpn) = false := by
      intro vpn covered
      rw [List.any_eq_false]
      intro other member covered_
      exact (List.pairwise_append.mp disjoint).2.2 other member region (List.mem_cons_self ..) vpn
        ⟨covered_, covered⟩
    have room : tables region.vpn1 = none → taken.card < npages := by
      intro new
      have more : used.card < ((done ++ region :: rest).map Region.vpn1).toFinset.card := by
        apply Finset.card_lt_card
        exact (Finset.ssubset_iff_of_subset inside).mpr ⟨_, target, (users _).mp new⟩
      omega
    refine (mapped.region null (fits region here) apart room).imp (fun _ after found => ?_)
      fun _ _ => id
    obtain ⟨taken_, tables_, mapped_, some_, others, count_⟩ := found
    refine ⟨taken_, tables_, insert region.vpn1 used, ?_, ?_, ?_, ?_⟩
    · simpa only [List.any_append, List.any_cons, List.any_nil, Bool.or_false] using mapped_
    · intro i
      by_cases same : i = region.vpn1
      · rw [same]
        refine iff_of_false ?_ (not_not.mpr (Finset.mem_insert_self ..))
        intro none
        rw [none] at some_
        cases some_
      · rw [others i same, users i, Finset.mem_insert, not_or]
        exact (and_iff_right same).symm
    · exact Finset.insert_subset target inside
    · rw [count_, count]
      by_cases new : tables region.vpn1 = none
      · rw [if_pos new, Finset.card_insert_of_notMem ((users _).mp new), Nat.add_assoc]
      · rw [if_neg new, Finset.insert_eq_of_mem (not_not.mp (mt (users _).mpr new)), Nat.add_zero]
  · obtain ⟨taken, tables, -, mapped, -⟩ := mapped
    exact ⟨taken, tables, mapped⟩

/-- Regions one after the other have no page in common. -/
def Region.apart (first second : Region) : Bool :=
  first.addr / pageSize + first.npages.toNat ≤ second.addr / pageSize ∨
    second.addr / pageSize + second.npages.toNat ≤ first.addr / pageSize

/-- Regions that are apart are disjoint. -/
theorem Region.disjoint_of_apart {first second : Region} (apart : first.apart second) :
    first.Disjoint second := by
  rintro vpn ⟨one, two⟩
  simp only [Region.apart, Region.covers, decide_eq_true_eq] at apart one two
  omega

/-- The regions of the kernel: devices, the boot ROM, the disk image and two memories. -/
def kernelRegions : List Region :=
  [⟨0x02000000, 16⟩, ⟨0x10013000, 1⟩, ⟨0x10024000, 1⟩, ⟨0x20400000, 1024⟩, ⟨0x20800000, 1024⟩,
    ⟨0x80000000, 1024⟩] ++ (List.range 8).map fun i => ⟨0x08000000 + i * 0x00400000, 1024⟩

/-- Creates the kernel's page table. -/
def kernelIdentityMapping (pidToPagetableBase : Fin maxNprocess → Nat) :
    MemM (Fin maxNprocess → Nat) := do
  let kernelRoot ← pmalloc true
  let base := Function.update pidToPagetableBase 0 kernelRoot
  kernelRegions.forM fun region => setupIdentityRegion base 0 region.addr region.npages
  return base

/-- Whether a region fits can be decided. -/
instance (region : Region) : Decidable region.Fits :=
  decidable_of_iff (region.addr < 2 ^ 32 ∧ region.addr % pageSize = 0 ∧ region.npages ≤ 1024 ∧
    region.addr / pageSize % tableLen + region.npages ≤ 1024)
    ⟨fun ⟨word, aligned, small, range⟩ => ⟨word, aligned, small, range⟩,
      fun ⟨word, aligned, small, range⟩ => ⟨word, aligned, small, range⟩⟩

/-- The regions of the kernel fit, and are apart from each other. -/
theorem kernelRegions_fit : (∀ region ∈ kernelRegions, region.Fits) ∧
    kernelRegions.Pairwise Region.Disjoint := by
  have apart : kernelRegions.Pairwise fun first second => first.apart second = true := by
    decide +kernel
  exact ⟨by decide +kernel, apart.imp Region.disjoint_of_apart⟩

/-- The kernel's page table maps the kernel's regions to themselves, and nothing else. -/
theorem kernelIdentityMapping_maps (tracks : Tracks memory allocated)
    (enough : allocated.card + 14 ≤ npages) :
    Ends (kernelIdentityMapping base) (fun base after => ∀ vpn < 2 ^ 20, walk after (base 0) vpn =
      if kernelRegions.any (fun region => region.covers vpn) then some ⟨vpn, flagValidRwx⟩
      else none) (fun _ _ => False) memory := by
  -- The regions are set up one after the other, from an empty root.
  unfold kernelIdentityMapping
  rw [ends_bind]
  refine (tracks.pmalloc true).imp (fun root middle taken => ?_) fun _ _ full => ?_
  · have own : Function.update base 0 root 0 = root := Function.update_self ..
    have null : Function.update base 0 root 0 ≠ 0 := by
      have low := taken.managed.2.1
      simp only [freeMemStart] at low
      rw [own]
      omega
    have count : (kernelRegions.map Region.vpn1).toFinset.card = 13 := by decide +kernel
    have mapped : Mapped middle (insert root allocated) (Function.update base 0 root 0)
        (fun _ => none) (fun _ => false) := by
      apply Mapped.initial taken.tracks
      · rw [own]
        exact fun _ => Finset.mem_insert_self ..
      · rw [own]
        exact taken.cleared rfl
    rw [ends_bind]
    refine (mapped.sequence null kernelRegions_fit.1 kernelRegions_fit.2 ?_).imp
      (fun _ after found => ?_) fun _ _ => id
    · rw [Finset.card_insert_of_notMem taken.new, count]
      exact enough
    · obtain ⟨_, _, mapped⟩ := found
      exact fun vpn small => mapped.walk small
  · have all := card_of_full full
    omega

end Sequences

/-- Calls for disjoint regions fail no assertion, and afterwards the walk maps exactly the pages of
the regions, each of them to itself and for every kind of access. -/
theorem regions_identity {memory : Memory} {allocated : Finset Nat}
    {base : Fin maxNprocess → Nat} {pid : Fin maxNprocess} {regions : List Region}
    (tracks : Tracks memory allocated) (null : base pid ≠ 0)
    (rooted : Managed (base pid) → base pid ∈ allocated)
    (zeroed : memory.ram (base pid) = Buffer.zero _)
    (fits : ∀ region ∈ regions, region.Fits) (disjoint : regions.Pairwise Region.Disjoint)
    (enough : allocated.card + (regions.map Region.vpn1).toFinset.card ≤ npages) :
    Ends (regions.forM fun region => setupIdentityRegion base pid region.addr region.npages)
      (fun _ after => ∀ vpn < 2 ^ 20, walk after (base pid) vpn =
        if regions.any (fun region => region.covers vpn) then some ⟨vpn, flagValidRwx⟩ else none)
      (fun _ _ => False) memory := by
  refine ((Mapped.initial tracks rooted zeroed).sequence null fits disjoint enough).imp
    (fun _ after found => ?_) fun _ _ => id
  obtain ⟨_, _, mapped⟩ := found
  exact fun vpn small => mapped.walk small

/-- Memory without any allocated page. -/
def emptyMemory : Memory := ⟨Buffer.zero _, fun _ => Buffer.zero _, fun _ _ => .null, -1, []⟩

/-- The regions of the kernel, with a root table below the pages of the allocator. -/
theorem regions_identity_kernel :
    Ends (kernelRegions.forM fun region =>
      setupIdentityRegion (fun _ => 0x80700000) 0 region.addr region.npages)
      (fun _ after => walk after 0x80700000 0x80000 = some ⟨0x80000, flagValidRwx⟩ ∧
        walk after 0x80700000 0x10013 = some ⟨0x10013, flagValidRwx⟩ ∧
        walk after 0x80700000 0x10014 = none) (fun _ _ => False) emptyMemory := by
  have tracks : Tracks emptyMemory ∅ := Pool.Reaches.tracks rfl .start
  have outside : ¬ Managed 0x80700000 := fun managed => absurd managed.2.1 (by decide)
  have enough : (∅ : Finset Nat).card + (kernelRegions.map Region.vpn1).toFinset.card ≤ npages := by
    decide +kernel
  refine (@regions_identity emptyMemory ∅ (fun _ => 0x80700000) 0 kernelRegions tracks (by decide)
    (fun managed => absurd managed outside) rfl kernelRegions_fit.1 kernelRegions_fit.2 enough).imp
    (fun _ after maps => ?_) fun _ _ => id
  refine ⟨?_, ?_, ?_⟩
  · exact (maps 0x80000 (by decide)).trans (if_pos (by decide +kernel))
  · exact (maps 0x10013 (by decide)).trans (if_pos (by decide +kernel))
  · exact (maps 0x10014 (by decide)).trans (if_neg (by decide +kernel))

end Egos.Earth.Identity
