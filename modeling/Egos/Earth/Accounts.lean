import Egos.Earth.Copies
import Egos.Earth.Machine
import Mathlib.Data.Fintype.Card
import Mathlib.Data.Fintype.Prod

/-! What each function of the memory does, and which pages belong to whom. -/

namespace Egos.Earth

open Egos.Grass

/-- The address of a page for processes. -/
def pageAddr (page : Nat) : Nat := freeMemStart + page * pageSize

/-- Different pages have different addresses. -/
theorem pageAddr_inj {first second : Nat} : pageAddr first = pageAddr second ↔ first = second := by
  simp only [pageAddr, pageSize]
  omega

/-- Pages for processes are not at the null address. -/
theorem pageAddr_ne_zero (page : Nat) : pageAddr page ≠ 0 := by
  simp only [pageAddr, freeMemStart]
  omega

/-- Pages for processes lie at multiples of the page size. -/
theorem pageAddr_aligned (page : Nat) : pageAddr page % pageSize = 0 := by
  simp only [pageAddr, pageSize, freeMemStart]
  omega

/-- Processes run at multiples of the page size. -/
theorem execAddrOf_aligned (i : Nat) : execAddrOf i % pageSize = 0 := by
  simp only [execAddrOf, pageSize, appsEntry, appsArg]
  split <;> omega

/-- The pages of a process lie at different addresses while it runs. -/
theorem execAddrOf_inj {i j : Fin appsNpages} : execAddrOf i = execAddrOf j ↔ i = j := by
  revert i j
  decide

/-- Processes run below the pages that they own. -/
theorem execAddrOf_ne_pageAddr (i : Fin appsNpages) (page : Nat) :
    execAddrOf i ≠ pageAddr page := by
  have low : execAddrOf i < freeMemStart := by
    revert i
    decide
  simp only [pageAddr]
  omega

/-- Processes do not run at the null address. -/
theorem execAddrOf_ne_zero (i : Fin appsNpages) : execAddrOf i ≠ 0 := by
  revert i
  decide

/-- Replacing one mapping leaves every other one alone. -/
theorem update_mapping_of_ne {table : Nat → Fin appsNpages → PageMapping} {row other : Nat}
    {i j : Fin appsNpages} {mapping : PageMapping} (different : ¬ (other = row ∧ j = i)) :
    Function.update table row (Function.update (table row) i mapping) other j = table other j := by
  by_cases same : other = row
  · subst same
    have apart : j ≠ i := fun equal => different ⟨rfl, equal⟩
    simp [apart]
  · simp [same]

section Rules

variable {memory : Memory} {returns : Unit → Memory → Prop} {stops : String → Memory → Prop}

/-- The first index with a property is the one that a search finds. -/
theorem find?_finRange {n : Nat} {hit : Fin n → Bool} {i : Fin n} (found : hit i)
    (first : ∀ j < i, hit j = false) : (List.finRange n).find? hit = some i := by
  rw [List.find?_eq_some_iff_getElem]
  refine ⟨found, i.val, by simp, by simp, fun j earlier => ?_⟩
  have lower := first ⟨j, Nat.lt_trans earlier i.isLt⟩ (Fin.lt_def.mpr earlier)
  simpa using lower

/-- Marking a page keeps the other marks. -/
theorem bitmapTest_set {bitmap : Bitmap} {page other : Nat} (inside : page < npages) :
    bitmapTest (bitmapSet bitmap page) other = (decide (page = other) || bitmapTest bitmap other) :=
  Buffer.testBit_setBit _ (by omega) other

/-- Clearing the mark of a page keeps the other marks. -/
theorem bitmapTest_clear {bitmap : Bitmap} {page other : Nat} (inside : page < npages) :
    bitmapTest (bitmapClear bitmap page) other =
      (decide (page ≠ other) && bitmapTest bitmap other) :=
  Buffer.testBit_clearBit _ (by omega) other

/-- An allocation takes a free page and marks it. -/
theorem ends_pmalloc (clearPage : Bool) {free : Nat} (inside : free < npages)
    (unused : bitmapTest memory.bitmap free = false) :
    Ends (pmalloc clearPage) (fun addr after => ∃ page < npages,
      bitmapTest memory.bitmap page = false ∧ addr = pageAddr page ∧
      after = { memory with
        bitmap := bitmapSet memory.bitmap page
        ram := if clearPage then Function.update memory.ram addr (Buffer.zero _)
          else memory.ram }) (fun _ _ => False) memory := by
  -- A free page is there, so that the search finds one, maybe another one.
  unfold pmalloc
  rw [ends_bind, ends_get]
  cases found : firstFree memory.bitmap with
  | none =>
    unfold firstFree at found
    have marked := List.find?_eq_none.mp found free (List.mem_range.mpr inside)
    simp [unused] at marked
  | some page =>
    unfold firstFree at found
    have below : page < npages := List.mem_range.mp (List.mem_of_find?_eq_some found)
    have open_ : bitmapTest memory.bitmap page = false := by simpa using List.find?_some found
    simp only [pageid2paddr, ends_bind, ends_set, ends_assert, if_pos below, ends_pure]
    cases clearPage with
    | false => exact ⟨page, below, open_, rfl, rfl⟩
    | true => exact ⟨page, below, open_, rfl, rfl⟩

/-- The page at an address is found again. -/
theorem ends_paddr2pageid {returns : Nat → Memory → Prop} {page : Nat} (inside : page < npages) :
    Ends (paddr2pageid (pageAddr page)) returns stops memory ↔ returns page memory := by
  have wraps : (pageAddr page + 2 ^ 32 - freeMemStart) % 2 ^ 32 / pageSize = page := by
    simp only [pageAddr, npages, freeMemStart, freeMemEnd, removedPages, pageSize] at inside ⊢
    omega
  simp only [paddr2pageid, ends_bind, ends_assert, if_pos (pageAddr_aligned page), wraps,
    if_pos inside, ends_pure]

/-- Freeing a page clears its mark. -/
theorem ends_pfree {page : Nat} (inside : page < npages) :
    Ends (pfree (pageAddr page)) returns stops memory ↔
      returns () { memory with bitmap := bitmapClear memory.bitmap page } := by
  simp only [pfree, ends_bind, ends_paddr2pageid inside, ends_modify]

end Rules

/-- Which pages belong to whom: `maps` says which mappings are in use, and one page that has been
allocated may still be in the loader's hand. -/
structure Accounted (memory : Memory) (maps : Nat → Fin appsNpages → Prop) (hand : Option Nat) :
    Prop where
  filled : ∀ row i, maps row i → (memory.appPages row i).execAddr = execAddrOf i ∧
    ∃ page < npages, (memory.appPages row i).privateAddr = pageAddr page ∧
      bitmapTest memory.bitmap page
  empty : ∀ row i, ¬ maps row i → memory.appPages row i = .null
  apart : ∀ row i other j, maps row i → maps other j →
    (memory.appPages row i).privateAddr = (memory.appPages other j).privateAddr →
      row = other ∧ i = j
  owned : ∀ page < npages, bitmapTest memory.bitmap page →
    hand = some (pageAddr page) ∨
      ∃ row i, maps row i ∧ (memory.appPages row i).privateAddr = pageAddr page
  held : ∀ addr, hand = some addr →
    (∃ page < npages, addr = pageAddr page ∧ bitmapTest memory.bitmap page) ∧
      ∀ row i, maps row i → (memory.appPages row i).privateAddr ≠ addr
  bounded : ∀ row i, maps row i → row ≤ maxNprocess

section Accounts

variable {memory : Memory} {maps : Nat → Fin appsNpages → Prop} {hand : Option Nat}

/-- A mapping in use has a page. -/
theorem Accounted.private_ne (accounted : Accounted memory maps hand) {row : Nat}
    {i : Fin appsNpages} (mapped : maps row i) : (memory.appPages row i).privateAddr ≠ 0 := by
  obtain ⟨-, page, -, same, -⟩ := accounted.filled row i mapped
  rw [same]
  exact pageAddr_ne_zero page

/-- A mapping is in use exactly if it has a page. -/
theorem Accounted.maps_iff (accounted : Accounted memory maps hand) (row : Nat)
    (i : Fin appsNpages) : maps row i ↔ (memory.appPages row i).privateAddr ≠ 0 := by
  constructor
  · exact accounted.private_ne
  · intro filled
    by_contra unmapped
    exact filled (by rw [accounted.empty row i unmapped]; rfl)

/-- Only the tables decide which pages belong to whom. -/
theorem Accounted.congr (accounted : Accounted memory maps hand) {after : Memory}
    {others : Nat → Fin appsNpages → Prop} (bitmap : after.bitmap = memory.bitmap)
    (table : after.appPages = memory.appPages) (same : ∀ row i, others row i ↔ maps row i) :
    Accounted after others hand := by
  -- The accounts read nothing of the memory but the marks and the table.
  have equal : others = maps := funext fun row => funext fun i => propext (same row i)
  subst equal
  obtain ⟨filled, empty, apart, owned, held, bounded⟩ := accounted
  refine ⟨?_, ?_, ?_, ?_, ?_, bounded⟩
  · rw [bitmap, table]
    exact filled
  · rw [table]
    exact empty
  · rw [table]
    exact apart
  · rw [bitmap, table]
    exact owned
  · rw [bitmap, table]
    exact held

/-- As long as the loader holds no page there is a free one. -/
theorem Accounted.exists_free (accounted : Accounted memory maps none) :
    ∃ page < npages, bitmapTest memory.bitmap page = false := by
  by_contra full
  have used : ∀ page : Fin npages, ∃ place : Fin (maxNprocess + 1) × Fin appsNpages,
      (memory.appPages place.1 place.2).privateAddr = pageAddr page := by
    intro page
    have marked : bitmapTest memory.bitmap page = true := by
      by_contra unused
      exact full ⟨page, page.isLt, by simpa using unused⟩
    rcases accounted.owned page page.isLt marked with held | ⟨row, i, mapped, same⟩
    · cases held
    · exact ⟨(⟨row, Nat.lt_succ_of_le (accounted.bounded row i mapped)⟩, i), same⟩
  choose place located using used
  -- Every page would need its own mapping, and there are too few of them.
  have injective : Function.Injective place := by
    intro first second same
    have equal : pageAddr first = pageAddr second := by
      rw [← located first, ← located second, same]
    exact Fin.ext (pageAddr_inj.mp equal)
  have fewer := Fintype.card_le_of_injective place injective
  simp only [Fintype.card_fin, Fintype.card_prod] at fewer
  exact absurd fewer (by decide)

/-- Marking a free page puts it into the loader's hand. -/
theorem Accounted.take (accounted : Accounted memory maps none) {page : Nat} {after : Memory}
    (inside : page < npages) (unused : bitmapTest memory.bitmap page = false)
    (bitmap : after.bitmap = bitmapSet memory.bitmap page)
    (table : after.appPages = memory.appPages) :
    Accounted after maps (some (pageAddr page)) := by
  have size : page / 8 < (npages + 7) / 8 := by omega
  have marks : ∀ other, bitmapTest after.bitmap other =
      (decide (page = other) || bitmapTest memory.bitmap other) := by
    intro other
    rw [bitmap]
    exact Buffer.testBit_setBit _ size other
  refine ⟨?_, ?_, ?_, ?_, ?_, accounted.bounded⟩
  · intro row i mapped
    obtain ⟨exec, other, below, same, marked⟩ := accounted.filled row i mapped
    rw [table]
    exact ⟨exec, other, below, same, by simp [marks, marked]⟩
  · rw [table]
    exact accounted.empty
  · rw [table]
    exact accounted.apart
  · intro other below marked
    rw [marks, Bool.or_eq_true, decide_eq_true_eq] at marked
    rw [table]
    rcases marked with rfl | earlier
    · exact Or.inl rfl
    · rcases accounted.owned other below earlier with held | placed
      · cases held
      · exact Or.inr placed
  · rintro addr ⟨⟩
    refine ⟨⟨page, inside, rfl, by simp [marks]⟩, fun row i mapped same => ?_⟩
    -- A mapping with this page would have marked it before.
    obtain ⟨-, other, -, own, marked⟩ := accounted.filled row i mapped
    rw [table, own, pageAddr_inj] at same
    rw [same, unused] at marked
    cases marked

/-- Mapping the page in the loader's hand gives it to the row. -/
theorem Accounted.give {addr : Nat} (accounted : Accounted memory maps (some addr)) {row : Nat}
    {i : Fin appsNpages} {after : Memory} (low : row ≤ maxNprocess) (fresh : ¬ maps row i)
    (bitmap : after.bitmap = memory.bitmap)
    (table : after.appPages = Function.update memory.appPages row
      (Function.update (memory.appPages row) i ⟨addr, execAddrOf i⟩)) :
    Accounted after (fun other j => maps other j ∨ other = row ∧ j = i) none := by
  -- The page in hand was mapped by nobody, so the new mapping is apart from the others.
  obtain ⟨⟨page, inside, own, marked⟩, elsewhere⟩ := accounted.held addr rfl
  have entry : after.appPages row i = ⟨addr, execAddrOf i⟩ := by simp [table]
  have kept : ∀ other j, ¬ (other = row ∧ j = i) →
      after.appPages other j = memory.appPages other j := by
    intro other j different
    rw [table]
    exact update_mapping_of_ne different
  have mapped_ne : ∀ other j, maps other j → ¬ (other = row ∧ j = i) := by
    rintro other j mapped ⟨rfl, rfl⟩
    exact fresh mapped
  refine ⟨?_, ?_, ?_, ?_, by simp, ?_⟩
  · intro other j mapped
    rcases mapped with earlier | ⟨rfl, rfl⟩
    · rw [kept other j (mapped_ne other j earlier), bitmap]
      exact accounted.filled other j earlier
    · rw [entry, bitmap]
      exact ⟨rfl, page, inside, own, marked⟩
  · intro other j unmapped
    rw [not_or] at unmapped
    rw [kept other j unmapped.2]
    exact accounted.empty other j unmapped.1
  · intro first j second k mapped other same
    rcases mapped with earlier | ⟨rfl, rfl⟩
    · rcases other with later | ⟨rfl, rfl⟩
      · rw [kept first j (mapped_ne first j earlier), kept second k (mapped_ne second k later)]
          at same
        exact accounted.apart first j second k earlier later same
      · rw [kept first j (mapped_ne first j earlier), entry] at same
        exact absurd same (elsewhere first j earlier)
    · rcases other with later | ⟨rfl, rfl⟩
      · rw [kept second k (mapped_ne second k later), entry] at same
        exact absurd same.symm (elsewhere second k later)
      · exact ⟨rfl, rfl⟩
  · intro other below used
    rw [bitmap] at used
    right
    rcases accounted.owned other below used with held | ⟨first, j, mapped, same⟩
    · exact ⟨row, i, Or.inr ⟨rfl, rfl⟩, by rw [entry]; exact Option.some.inj held⟩
    · exact ⟨first, j, Or.inl mapped, by rw [kept first j (mapped_ne first j mapped)]; exact same⟩
  · intro other j mapped
    rcases mapped with earlier | ⟨rfl, -⟩
    · exact accounted.bounded other j earlier
    · exact low

/-- Clearing the mark of a page along with its mapping frees the page. -/
theorem Accounted.release (accounted : Accounted memory maps none) {row page : Nat}
    {i : Fin appsNpages} {after : Memory} (mapped : maps row i) (inside : page < npages)
    (own : (memory.appPages row i).privateAddr = pageAddr page)
    (bitmap : after.bitmap = bitmapClear memory.bitmap page)
    (table : after.appPages = Function.update memory.appPages row
      (Function.update (memory.appPages row) i .null)) :
    Accounted after (fun other j => maps other j ∧ ¬ (other = row ∧ j = i)) none := by
  -- The page that is freed had this one mapping.
  have size : page / 8 < (npages + 7) / 8 := by omega
  have marks : ∀ other, bitmapTest after.bitmap other =
      (decide (page ≠ other) && bitmapTest memory.bitmap other) := by
    intro other
    rw [bitmap]
    exact Buffer.testBit_clearBit _ size other
  have kept : ∀ other j, ¬ (other = row ∧ j = i) →
      after.appPages other j = memory.appPages other j := by
    intro other j different
    rw [table]
    exact update_mapping_of_ne different
  refine ⟨?_, ?_, ?_, ?_, by simp, fun other j left => accounted.bounded other j left.1⟩
  · rintro other j ⟨left, different⟩
    obtain ⟨exec, frame, below, same, marked⟩ := accounted.filled other j left
    rw [kept other j different]
    refine ⟨exec, frame, below, same, ?_⟩
    rw [marks, marked, Bool.and_true, decide_eq_true_eq]
    rintro rfl
    exact different (accounted.apart other j row i left mapped (same.trans own.symm))
  · intro other j gone
    by_cases here : other = row ∧ j = i
    · obtain ⟨rfl, rfl⟩ := here
      simp [table]
    · rw [kept other j here]
      exact accounted.empty other j fun left => gone ⟨left, here⟩
  · rintro first j second k ⟨left, different⟩ ⟨right, distinct⟩ same
    rw [kept first j different, kept second k distinct] at same
    exact accounted.apart first j second k left right same
  · intro other below used
    rw [marks, Bool.and_eq_true, decide_eq_true_eq] at used
    right
    rcases accounted.owned other below used.2 with held | ⟨first, j, left, same⟩
    · cases held
    · have different : ¬ (first = row ∧ j = i) := by
        rintro ⟨rfl, rfl⟩
        rw [own, pageAddr_inj] at same
        exact used.1 same
      exact ⟨first, j, ⟨left, different⟩, by rw [kept first j different]; exact same⟩

/-- The pages that a row has been given are those that nobody had. -/
theorem Accounted.fresh {after : Memory} {others : Nat → Fin appsNpages → Prop}
    (before : Accounted memory maps none) (accounted : Accounted after others none)
    (kept : ∀ row i, maps row i → others row i ∧
      (after.appPages row i).privateAddr = (memory.appPages row i).privateAddr)
    {row : Nat} {i : Fin appsNpages} (given : others row i) (free : ¬ maps row i) :
    ∃ page < npages, (after.appPages row i).privateAddr = pageAddr page ∧
      bitmapTest memory.bitmap page = false := by
  obtain ⟨-, page, inside, own, -⟩ := accounted.filled row i given
  refine ⟨page, inside, own, ?_⟩
  by_contra marked
  rcases before.owned page inside (by simpa using marked) with held | ⟨other, j, mapped, same⟩
  · cases held
  · -- The page would have two mappings now.
    obtain ⟨still, entry⟩ := kept other j mapped
    obtain ⟨rfl, rfl⟩ := accounted.apart other j row i still given
      ((entry.trans same).trans own.symm)
    exact free mapped

/-- An allocation that the accounts allow returns a page. -/
theorem Accounted.pmalloc (accounted : Accounted memory maps none) (clearPage : Bool) :
    Ends (pmalloc clearPage) (fun addr after => Accounted after maps (some addr) ∧
      after.appPages = memory.appPages ∧ after.currVmPid = memory.currVmPid ∧
      after.rows = memory.rows ∧
      after.ram = if clearPage then Function.update memory.ram addr (Buffer.zero _)
        else memory.ram) (fun _ _ => False) memory := by
  obtain ⟨free, inside, unused⟩ := accounted.exists_free
  refine (ends_pmalloc clearPage inside unused).imp (fun addr after taken => ?_) (fun _ _ => id)
  obtain ⟨page, below, open_, named, result⟩ := taken
  subst named result
  exact ⟨accounted.take below open_ rfl rfl, rfl, rfl, rfl, rfl⟩

/-- Mapping the page in the loader's hand fills the first free mapping of a row. -/
theorem Accounted.softTlbMap {addr : Nat} (accounted : Accounted memory maps (some addr))
    {pid : Int} (known : pid > 0 ∧ pid ≤ (maxNprocess : Int)) {i : Fin appsNpages}
    (earlier : ∀ j < i, maps pid.toNat j) (fresh : ¬ maps pid.toNat i) :
    Ends (softTlbMap pid (execAddrOf i) addr) (fun _ after =>
      Accounted after (fun other j => maps other j ∨ other = pid.toNat ∧ j = i) none ∧
      after.ram = memory.ram ∧ after.currVmPid = memory.currVmPid ∧
      after.rows = pid.toNat :: memory.rows ∧
      after.appPages = Function.update memory.appPages pid.toNat
        (Function.update (memory.appPages pid.toNat) i ⟨addr, execAddrOf i⟩))
      (fun _ _ => False) memory := by
  -- The mappings before it are in use, so that the search stops at the fresh one.
  obtain ⟨⟨page, -, own, -⟩, -⟩ := accounted.held addr rfl
  have aligned : addr % pageSize = 0 ∧ execAddrOf i % pageSize = 0 := by
    rw [own]
    exact ⟨pageAddr_aligned page, execAddrOf_aligned i⟩
  have first : (List.finRange appsNpages).find?
      (fun j => (memory.appPages pid.toNat j).privateAddr = 0) = some i := by
    refine find?_finRange ?_ ?_
    · simp [accounted.empty pid.toNat i fresh, PageMapping.null]
    · intro j lower
      simpa using accounted.private_ne (earlier j lower)
  unfold Earth.softTlbMap
  simp only [ends_bind, ends_appRow known, ends_assert, if_pos aligned, ends_get, first,
    setMapping, ends_modify]
  refine ⟨accounted.give ?_ fresh rfl rfl, trivial, trivial, trivial, trivial⟩
  simp only [maxNprocess] at known ⊢
  omega

/-- Freeing a mapping frees its page. -/
theorem Accounted.freeMapping (accounted : Accounted memory maps none) (row : Nat)
    (i : Fin appsNpages) :
    Ends (freeMapping row i) (fun _ after =>
      Accounted after (fun other j => maps other j ∧ ¬ (other = row ∧ j = i)) none ∧
      after.ram = memory.ram ∧ after.currVmPid = memory.currVmPid ∧ after.rows = memory.rows ∧
      ∀ other, other ≠ row → after.appPages other = memory.appPages other)
      (fun _ _ => False) memory := by
  -- A mapping in use is given up with its page, and one that is not has no page.
  unfold Earth.freeMapping
  rw [ends_bind, ends_get]
  by_cases mapped : maps row i
  · obtain ⟨-, page, inside, own, -⟩ := accounted.filled row i mapped
    rw [if_pos (accounted.private_ne mapped), own]
    simp only [ends_bind, ends_pfree inside, setMapping, ends_modify]
    refine ⟨accounted.release mapped inside own rfl rfl, trivial, trivial, trivial,
      fun other different => ?_⟩
    exact Function.update_of_ne different _ _
  · have null := accounted.empty row i mapped
    rw [null, if_neg (by simp [PageMapping.null])]
    rw [ends_pure]
    refine ⟨accounted.congr rfl rfl fun other j => ?_, rfl, rfl, rfl, fun _ _ => rfl⟩
    refine ⟨And.left, fun left => ⟨left, ?_⟩⟩
    rintro ⟨rfl, rfl⟩
    exact mapped left

/-- Freeing the pages of a process empties its row. -/
theorem Accounted.softTlbFree (accounted : Accounted memory maps none) {pid : Int}
    (known : pid > 0 ∧ pid ≤ (maxNprocess : Int)) :
    Ends (softTlbFree pid) (fun _ after =>
      Accounted after (fun other j => maps other j ∧ other ≠ pid.toNat) none ∧
      after.ram = memory.ram ∧ after.currVmPid = memory.currVmPid ∧
      after.rows = pid.toNat :: memory.rows ∧
      ∀ other, other ≠ pid.toNat → after.appPages other = memory.appPages other)
      (fun _ _ => False) memory := by
  unfold Earth.softTlbFree
  rw [ends_bind, ends_appRow known]
  -- The mappings that the loop has come past are free.
  refine (Ends.forM (fun done after =>
    Accounted after (fun other j => maps other j ∧ ¬ (other = pid.toNat ∧ j ∈ done)) none ∧
    after.ram = memory.ram ∧ after.currVmPid = memory.currVmPid ∧
    after.rows = pid.toNat :: memory.rows ∧
    ∀ other, other ≠ pid.toNat → after.appPages other = memory.appPages other) ?_ ?_).imp
    (fun _ after held => ?_) (fun _ _ => id)
  · exact ⟨accounted.congr rfl rfl (by simp), rfl, rfl, rfl, fun _ _ => rfl⟩
  · rintro done i rest middle - ⟨reached, ram, vm, rows, others⟩
    refine (reached.freeMapping pid.toNat i).imp (fun _ after freed => ?_) (fun _ _ => id)
    obtain ⟨next, sameRam, sameVm, sameRows, sameOthers⟩ := freed
    refine ⟨next.congr rfl rfl fun other j => ?_, sameRam.trans ram, sameVm.trans vm,
      sameRows.trans rows, fun other different =>
        (sameOthers other different).trans (others other different)⟩
    simp only [List.mem_append, List.mem_singleton]
    tauto
  · obtain ⟨reached, rest⟩ := held
    exact ⟨reached.congr rfl rfl fun other j => by simp [List.mem_finRange], rest⟩

/-- What switching to a process does to memory. -/
structure Loaded (memory after : Memory) (maps : Nat → Fin appsNpages → Prop) (pid : Int) :
    Prop where
  bitmap : after.bitmap = memory.bitmap
  table : after.appPages = memory.appPages
  vm : after.currVmPid = pid
  rows : ∀ row ∈ after.rows, row ∈ memory.rows ∨ row = pid.toNat ∨
    row = memory.currVmPid.toNat ∧ memory.currVmPid > 0
  -- The process that ran so far gets its pages back.
  saved : pid ≠ memory.currVmPid → memory.currVmPid > 0 → ∀ i, maps memory.currVmPid.toNat i →
    after.ram (memory.appPages memory.currVmPid.toNat i).privateAddr =
      memory.ram (execAddrOf i)
  brought : pid ≠ memory.currVmPid → ∀ i, maps pid.toNat i →
    after.ram (execAddrOf i) = memory.ram (memory.appPages pid.toNat i).privateAddr
  kept : ∀ addr, (∀ i, maps memory.currVmPid.toNat i → memory.currVmPid > 0 →
      addr ≠ (memory.appPages memory.currVmPid.toNat i).privateAddr) →
    (∀ i, maps pid.toNat i → addr ≠ execAddrOf i) → after.ram addr = memory.ram addr
  stays : pid = memory.currVmPid → after = memory

/-- The mappings that are in use do not get in each other's way. -/
theorem Accounted.laid (accounted : Accounted memory maps hand) : memory.Laid := by
  -- Pages in use have different addresses, all above the ones where processes run.
  have used : ∀ {row i}, memory.owns row i → maps row i :=
    fun {row i} owned => (accounted.maps_iff row i).mpr owned
  refine ⟨?_, ?_, ?_, ?_⟩
  · intro row i owned
    rw [(accounted.filled row i (used owned)).1]
    exact execAddrOf_ne_zero i
  · intro row i j first second same
    rw [(accounted.filled row i (used first)).1, (accounted.filled row j (used second)).1] at same
    exact execAddrOf_inj.mp same
  · intro row i other j first second same
    exact accounted.apart row i other j (used first) (used second) same
  · intro row i other j first second
    obtain ⟨-, page, -, own, -⟩ := accounted.filled other j (used second)
    rw [(accounted.filled row i (used first)).1, own]
    exact execAddrOf_ne_pageAddr i page

/-- Switching to a process brings its pages to where it runs. -/
theorem Accounted.softTlbSwitch (accounted : Accounted memory maps hand) {pid : Int}
    (known : pid > 0 ∧ pid ≤ (maxNprocess : Int))
    (ran : memory.currVmPid ≤ (maxNprocess : Int)) :
    Ends (softTlbSwitch pid) (fun _ after => Loaded memory after maps pid)
      (fun _ _ => False) memory := by
  -- The accounts say where each page runs, and what is neither saved nor brought stays.
  refine (accounted.laid.softTlbSwitch known ran).imp (fun _ after swapped => ?_) (fun _ _ => id)
  have owned : ∀ {row i}, maps row i → memory.owns row i :=
    fun {row i} mapped => (accounted.maps_iff row i).mp mapped
  have runs : ∀ {row i}, memory.owns row i → (memory.appPages row i).execAddr = execAddrOf i :=
    fun {row i} filled => (accounted.filled row i ((accounted.maps_iff row i).mpr filled)).1
  refine ⟨swapped.bitmap, swapped.table, swapped.vm, swapped.rows, ?_, ?_, ?_, swapped.stays⟩
  · intro different positive i mapped
    rw [swapped.saved different positive i (owned mapped), runs (owned mapped)]
  · intro different i mapped
    rw [← runs (owned mapped)]
    exact swapped.brought different i (owned mapped)
  · intro addr notSaved notBrought
    refine swapped.kept addr (fun i filled => ?_) (fun i filled => ?_)
    · exact notSaved i ((accounted.maps_iff _ i).mpr filled)
    · rw [runs filled]
      exact notBrought i ((accounted.maps_iff _ i).mpr filled)

end Accounts

end Egos.Earth
