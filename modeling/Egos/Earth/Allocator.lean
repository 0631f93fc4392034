import Egos.Earth.Accounts
import Egos.Lib.Runs
import Mathlib.Data.Finset.Basic

/-! The page allocator as one of a finite set of pages. -/

namespace Egos.Earth

open Egos.Grass

/-- A call of the allocator. -/
inductive PageCall where
  | pmalloc (clearPage : Bool)
  | pfree (paddr : Nat)

/-- Addresses are 32 bits wide. -/
def PageCall.Valid : PageCall → Prop
  | .pmalloc _ => True
  | .pfree paddr => paddr < 2 ^ 32

instance : (call : PageCall) → Decidable call.Valid
  | .pmalloc _ => isTrue trivial
  | .pfree _ => by unfold PageCall.Valid; infer_instance

/-- Memory next to the set of the pages that are allocated. -/
structure Pool where
  memory : Memory
  allocated : Finset Nat

/-- A call of the allocator, and what it does to the set. -/
def Pool.step (pool : Pool) : PageCall → Fallible (Pool × List Unit)
  | .pmalloc clearPage => do
    let (addr, memory) ← onMemory (pmalloc clearPage) pool.memory
    return (⟨memory, insert addr pool.allocated⟩, [])
  | .pfree paddr => do
    let (_, memory) ← onMemory (pfree paddr) pool.memory
    return (⟨memory, pool.allocated.erase paddr⟩, [])

/-- The states that calls lead to. -/
abbrev Pool.Reaches (memory : Memory) : Pool → List Unit → Prop :=
  Run (fun pool call after events =>
    PageCall.Valid call ∧ pool.step call = .ok (after, events)) ⟨memory, ∅⟩

/-- An address of one of the pages that the allocator manages. -/
def Managed (addr : Nat) : Prop :=
  addr % pageSize = 0 ∧ freeMemStart ≤ addr ∧ addr < freeMemStart + npages * pageSize

/-- The bitmap marks the pages of a set, and no others. -/
structure Tracks (memory : Memory) (allocated : Finset Nat) : Prop where
  managed : ∀ addr ∈ allocated, Managed addr
  marks : ∀ page, bitmapTest memory.bitmap page ↔ pageAddr page ∈ allocated

/-- What an allocation does: it returns a managed page that was not allocated, marks it and no other
page, and clears it and no other page if it is to be cleared. -/
structure Allocates (memory : Memory) (allocated : Finset Nat) (clearPage : Bool) (addr : Nat)
    (after : Memory) : Prop where
  managed : Managed addr
  new : addr ∉ allocated
  tracks : Tracks after (insert addr allocated)
  cleared : clearPage → after.ram addr = Buffer.zero _
  kept : ∀ other, other ≠ addr ∨ clearPage = false → after.ram other = memory.ram other

/-- What freeing does: the page is a managed one, and loses its mark, and nothing else changes. -/
structure Frees (memory : Memory) (allocated : Finset Nat) (paddr : Nat) (after : Memory) :
    Prop where
  managed : Managed paddr
  tracks : Tracks after (allocated.erase paddr)
  kept : after.ram = memory.ram

section Allocator

variable {memory after : Memory} {allocated : Finset Nat}

/-- The managed addresses are those of the pages. -/
theorem managed_iff {addr : Nat} : Managed addr ↔ ∃ page < npages, addr = pageAddr page := by
  -- The page is how far the address is from the first one.
  simp only [Managed, pageAddr]
  constructor
  · rintro ⟨aligned, low, high⟩
    refine ⟨(addr - freeMemStart) / pageSize, ?_, ?_⟩
    · simp only [npages, freeMemStart, freeMemEnd, removedPages, pageSize] at aligned low high ⊢
      omega
    · simp only [freeMemStart, pageSize] at aligned low ⊢
      omega
  · rintro ⟨page, inside, rfl⟩
    simp only [npages, freeMemStart, freeMemEnd, removedPages, pageSize] at inside ⊢
    omega

/-- An allocation takes a page that is not in the set, and fails only if all pages are. -/
theorem Tracks.pmalloc (tracks : Tracks memory allocated) (clearPage : Bool) :
    Ends (pmalloc clearPage) (fun addr after => Allocates memory allocated clearPage addr after)
      (fun _ _ => ∀ addr, Managed addr → addr ∈ allocated) memory := by
  -- The marks and the set agree page by page.
  by_cases full : ∃ free < npages, bitmapTest memory.bitmap free = false
  · obtain ⟨free, inside, unused⟩ := full
    refine (ends_pmalloc clearPage inside unused).imp (fun addr after taken => ?_)
      (fun _ _ => False.elim)
    obtain ⟨page, below, open_, rfl, rfl⟩ := taken
    have managed : Managed (pageAddr page) := managed_iff.mpr ⟨page, below, rfl⟩
    refine ⟨managed, ?_, ⟨?_, ?_⟩, ?_, ?_⟩
    · rw [← tracks.marks, open_]
      decide
    · intro addr member
      rcases Finset.mem_insert.mp member with rfl | earlier
      · exact managed
      · exact tracks.managed addr earlier
    · intro other
      change bitmapTest (bitmapSet memory.bitmap page) other ↔ _
      rw [Finset.mem_insert, pageAddr_inj, ← tracks.marks other, bitmapTest_set below,
        Bool.or_eq_true, decide_eq_true_eq, @eq_comm _ page]
    · intro clear
      simp [clear]
    · rintro other (different | keep)
      · cases clearPage with
        | false => rfl
        | true => exact Function.update_of_ne different ..
      · simp [keep]
  · have none : firstFree memory.bitmap = none := by
      unfold firstFree
      rw [List.find?_eq_none]
      intro page member
      by_contra unused
      exact full ⟨page, List.mem_range.mp member, by simpa using unused⟩
    unfold Earth.pmalloc
    rw [ends_bind, ends_get, none]
    intro addr managed
    obtain ⟨page, inside, rfl⟩ := managed_iff.mp managed
    rw [← tracks.marks]
    by_contra unmarked
    exact full ⟨page, inside, by simpa using unmarked⟩

/-- The page at an address is found, unless the address is not one of a managed page. -/
theorem ends_paddr2pageid_any {paddr : Nat} (valid : paddr < 2 ^ 32) :
    Ends (paddr2pageid paddr) (fun page final => page < npages ∧ paddr = pageAddr page ∧
      final = memory) (fun _ _ => ¬ Managed paddr) memory := by
  unfold paddr2pageid
  rw [ends_bind, ends_assert]
  by_cases aligned : paddr % pageSize = 0
  · rw [if_pos aligned]
    -- Below the first page the difference wraps around to a page that is too large.
    generalize named : (paddr + 2 ^ 32 - freeMemStart) % 2 ^ 32 / pageSize = page
    simp only [ends_bind, ends_assert]
    by_cases inside : page < npages
    · rw [if_pos inside, ends_pure]
      refine ⟨inside, ?_, rfl⟩
      simp only [npages, freeMemStart, freeMemEnd, removedPages, pageSize, pageAddr]
        at aligned inside named ⊢
      omega
    · rw [if_neg inside]
      intro managed
      obtain ⟨-, low, high⟩ := managed
      simp only [npages, freeMemStart, freeMemEnd, removedPages, pageSize] at inside low high named
      omega
  · rw [if_neg aligned]
    exact fun managed => aligned managed.1

/-- Freeing a page takes it out of the set, and fails exactly for addresses of no page. -/
theorem Tracks.pfree (tracks : Tracks memory allocated) {paddr : Nat} (valid : paddr < 2 ^ 32) :
    Ends (pfree paddr) (fun _ after => Frees memory allocated paddr after)
      (fun _ _ => ¬ Managed paddr) memory := by
  unfold Earth.pfree
  rw [ends_bind]
  refine (ends_paddr2pageid_any valid).imp (fun page final found => ?_)
    (fun _ _ => id)
  obtain ⟨inside, rfl, rfl⟩ := found
  rw [ends_modify]
  refine ⟨managed_iff.mpr ⟨page, inside, rfl⟩, ⟨?_, ?_⟩, rfl⟩
  · intro addr member
    exact tracks.managed addr (Finset.mem_of_mem_erase member)
  · intro other
    rw [Finset.mem_erase, Ne, pageAddr_inj, ← tracks.marks other, bitmapTest_clear inside,
      Bool.and_eq_true, decide_eq_true_eq, Ne, @eq_comm _ page]

/-- The bitmap and the set stay together along every run. -/
theorem Pool.Reaches.tracks {pool : Pool} {history : List Unit}
    (empty : memory.bitmap = Buffer.zero _) (reached : Pool.Reaches memory pool history) :
    Tracks pool.memory pool.allocated := by
  -- Each call has its own lemma.
  refine reached.invariant (fun pool _ => Tracks pool.memory pool.allocated) ?_ ?_
  · refine ⟨fun addr member => absurd member (Finset.notMem_empty addr), fun page => ?_⟩
    simp [bitmapTest, empty]
  · intro pool call after history events tracks taken
    obtain ⟨valid, stepped⟩ := taken
    cases call with
    | pmalloc clearPage =>
      have kept := tracks.pmalloc clearPage
      cases run : Earth.pmalloc clearPage pool.memory with
      | ok addr memory =>
        simp only [Pool.step, onMemory, run] at stepped
        obtain ⟨rfl, rfl⟩ := Prod.mk.inj (Except.ok.inj stepped)
        exact (kept.ok run).tracks
      | error message memory =>
        simp only [Pool.step, onMemory, run] at stepped
        cases stepped
    | pfree paddr =>
      have kept := tracks.pfree valid
      cases run : Earth.pfree paddr pool.memory with
      | ok addr memory =>
        simp only [Pool.step, onMemory, run] at stepped
        obtain ⟨rfl, rfl⟩ := Prod.mk.inj (Except.ok.inj stepped)
        exact (kept.ok run).tracks
      | error message memory =>
        simp only [Pool.step, onMemory, run] at stepped
        cases stepped

/-- The address of a page is where it is expected. -/
theorem ends_pageid2paddr {returns : Nat → Memory → Prop} {stops : String → Memory → Prop}
    {page : Nat} (inside : page < npages) :
    Ends (pageid2paddr page) returns stops memory ↔ returns (pageAddr page) memory := by
  simp only [pageid2paddr, ends_bind, ends_assert, if_pos inside, ends_pure]
  rfl

/-- A page is found again at its address. -/
theorem pageid2paddr_paddr2pageid {page : Nat} (inside : page < npages) :
    (pageid2paddr page >>= paddr2pageid) memory = .ok page memory := by
  have round : Ends (pageid2paddr page >>= paddr2pageid)
      (fun value final => value = page ∧ final = memory) (fun _ _ => False) memory := by
    rw [ends_bind, ends_pageid2paddr inside, ends_paddr2pageid inside]
    exact ⟨rfl, rfl⟩
  obtain ⟨value, final, run, rfl, rfl⟩ := round.returned
  exact run

/-- An address is that of the page at it. -/
theorem paddr2pageid_pageid2paddr {page : Nat} (inside : page < npages) :
    (paddr2pageid (pageAddr page) >>= pageid2paddr) memory = .ok (pageAddr page) memory := by
  have round : Ends (paddr2pageid (pageAddr page) >>= pageid2paddr)
      (fun value final => value = pageAddr page ∧ final = memory) (fun _ _ => False) memory := by
    rw [ends_bind, ends_paddr2pageid inside, ends_pageid2paddr inside]
    exact ⟨rfl, rfl⟩
  obtain ⟨value, final, run, rfl, rfl⟩ := round.returned
  exact run

/-- Whatever calls came before: an allocation takes a page that is not allocated and fails only if
there is none, freeing takes any address of a managed page and fails for every other one, and pages
and their addresses are translated into each other. -/
theorem pages_refine_set (empty : memory.bitmap = Buffer.zero _) {pool : Pool}
    {history : List Unit} (reached : Pool.Reaches memory pool history) :
    (∀ clearPage, Ends (pmalloc clearPage) (Allocates pool.memory pool.allocated clearPage)
      (fun _ _ => ∀ addr, Managed addr → addr ∈ pool.allocated) pool.memory) ∧
    (∀ paddr < 2 ^ 32, Ends (pfree paddr) (fun _ => Frees pool.memory pool.allocated paddr)
      (fun _ _ => ¬ Managed paddr) pool.memory) ∧
    (∀ page < npages,
      (pageid2paddr page >>= paddr2pageid) pool.memory = .ok page pool.memory) ∧
    ∀ paddr, Managed paddr →
      (paddr2pageid paddr >>= pageid2paddr) pool.memory = .ok paddr pool.memory := by
  have tracks := reached.tracks empty
  refine ⟨tracks.pmalloc, fun paddr valid => tracks.pfree valid,
    fun page inside => pageid2paddr_paddr2pageid inside, fun paddr managed => ?_⟩
  obtain ⟨page, inside, rfl⟩ := managed_iff.mp managed
  exact paddr2pageid_pageid2paddr inside

/-- Pages are allocated, freed and allocated again. -/
theorem pages_refine_three : ∃ pool history,
    Pool.Reaches ⟨Buffer.zero _, fun _ => Buffer.zero _, fun _ _ => .null, -1, []⟩ pool history ∧
    pageAddr 0 ∉ pool.allocated ∧ pageAddr 1 ∈ pool.allocated ∧
    (∀ clearPage, Ends (pmalloc clearPage) (Allocates pool.memory pool.allocated clearPage)
      (fun _ _ => ∀ addr, Managed addr → addr ∈ pool.allocated) pool.memory) ∧
    (∀ paddr < 2 ^ 32, Ends (pfree paddr) (fun _ => Frees pool.memory pool.allocated paddr)
      (fun _ _ => ¬ Managed paddr) pool.memory) ∧
    (∀ page < npages,
      (pageid2paddr page >>= paddr2pageid) pool.memory = .ok page pool.memory) ∧
    ∀ paddr, Managed paddr →
      (paddr2pageid paddr >>= pageid2paddr) pool.memory = .ok paddr pool.memory := by
  -- The first page is allocated, then the second, and the first one is freed.
  have ran : (follow (fun _ => PageCall.Valid) Pool.step
      ⟨⟨Buffer.zero _, fun _ => Buffer.zero _, fun _ _ => .null, -1, []⟩, ∅⟩
      [.pmalloc true, .pmalloc false, .pfree (pageAddr 0)]).map (fun reached =>
        (decide (pageAddr 0 ∈ reached.1.allocated), decide (pageAddr 1 ∈ reached.1.allocated))) =
      some (false, true) := by decide +kernel
  obtain ⟨⟨pool, history⟩, followed, facts⟩ := Option.map_eq_some_iff.mp ran
  obtain ⟨freed, taken⟩ := Prod.mk.inj facts
  have reached : Pool.Reaches ⟨Buffer.zero _, fun _ => Buffer.zero _, fun _ _ => .null, -1, []⟩
      pool history := run_of_follow .start followed
  exact ⟨pool, history, reached, of_decide_eq_false freed, of_decide_eq_true taken,
    pages_refine_set rfl reached⟩

end Allocator

end Egos.Earth
