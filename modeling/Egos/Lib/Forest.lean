import Mathlib.Algebra.BigOperators.Group.Finset.Basic
import Mathlib.Algebra.Order.Group.Multiset
import Mathlib.Tactic.Abel
import Mathlib.Tactic.Common

/-! Trees of a fixed height whose nodes are numbered blocks of a store, with holes at number zero. -/

namespace Egos

open Finset

/-- Two sums that differ in one term differ by exactly that term. -/
theorem sum_exchange {ι M : Type*} [DecidableEq ι] [AddCommMonoid M] {terms : Finset ι}
    (before after : ι → M) {index : ι} (member : index ∈ terms)
    (kept : ∀ i ∈ terms, i ≠ index → after i = before i) :
    ∑ i ∈ terms, after i + before index = ∑ i ∈ terms, before i + after index := by
  -- Both sums share every term except the one at the changed index.
  rw [← add_sum_erase _ after member, ← add_sum_erase _ before member]
  have same : ∑ i ∈ terms.erase index, after i = ∑ i ∈ terms.erase index, before i :=
    sum_congr rfl fun i chosen => kept i (mem_of_mem_erase chosen) (ne_of_mem_erase chosen)
  rw [same]
  abel

section Forest

variable {β : Type*} (child : β → Nat → Nat) (fanout : Nat)

/-- The numbers of all blocks of a tree, each as often as the tree reaches it. -/
def nodes (store : Nat → β) : Nat → Nat → Multiset Nat
  | 0, root => if root = 0 then 0 else {root}
  | height + 1, root =>
    if root = 0 then 0
    else root ::ₘ ∑ i ∈ range fanout, nodes store height (child (store root) i)

/-- The number of the bottom block that holds an offset, or zero when the path ends in a hole. -/
def leaf (store : Nat → β) (offset : Nat) : Nat → Nat → Nat
  | 0, root => root
  | height + 1, root =>
    if root = 0 then 0
    else leaf store offset height (child (store root) (offset / fanout ^ height % fanout))

variable {child fanout} {store other : Nat → β}

/-- A hole has no blocks. -/
@[simp] theorem nodes_hole (height : Nat) : nodes child fanout store height 0 = 0 := by
  cases height <;> simp [nodes]

/-- Every offset below a hole is a hole. -/
@[simp] theorem leaf_hole (offset height : Nat) : leaf child fanout store offset height 0 = 0 := by
  cases height <;> simp [leaf]

/-- A tree of height zero is its data block. -/
theorem nodes_leaf {root : Nat} (present : root ≠ 0) :
    nodes child fanout store 0 root = {root} := by
  simp [nodes, present]

/-- A present inner node owns itself and the trees of its references. -/
theorem nodes_inner {root : Nat} (height : Nat) (present : root ≠ 0) :
    nodes child fanout store (height + 1) root =
      root ::ₘ ∑ i ∈ range fanout, nodes child fanout store height (child (store root) i) := by
  simp [nodes, present]

/-- A present inner node passes an offset to the reference selected by one digit. -/
theorem leaf_inner {root : Nat} (offset height : Nat) (present : root ≠ 0) :
    leaf child fanout store offset (height + 1) root =
      leaf child fanout store offset height
        (child (store root) (offset / fanout ^ height % fanout)) := by
  simp [leaf, present]

/-- The number zero marks holes and is never a block of a tree. -/
theorem zero_notMem_nodes (height root : Nat) : 0 ∉ nodes child fanout store height root := by
  induction height generalizing root with
  | zero =>
    by_cases hole : root = 0
    · simp [hole]
    · simp [nodes_leaf hole, Ne.symm hole]
  | succ height ih =>
    by_cases hole : root = 0
    · simp [hole]
    · simp [nodes_inner height hole, Multiset.mem_sum, Ne.symm hole, ih]

/-- A present root is one of the blocks of its tree. -/
theorem root_mem_nodes {root : Nat} (height : Nat) (present : root ≠ 0) :
    root ∈ nodes child fanout store height root := by
  cases height <;> simp [nodes, present]

/-- The blocks below one reference are blocks of the whole tree. -/
theorem child_nodes_le {root index : Nat} (height : Nat) (present : root ≠ 0)
    (inside : index < fanout) :
    nodes child fanout store height (child (store root) index) ≤
      nodes child fanout store (height + 1) root := by
  rw [nodes_inner height present]
  refine le_trans ?_ (Multiset.le_cons_self _ _)
  rw [← add_sum_erase _ _ (mem_range.mpr inside)]
  exact Multiset.le_add_right _ _

/-- In a tree that reaches every block once, no node lies below itself. -/
theorem root_notMem_child {root index : Nat} {height : Nat} (present : root ≠ 0)
    (inside : index < fanout) (distinct : (nodes child fanout store (height + 1) root).Nodup) :
    root ∉ nodes child fanout store height (child (store root) index) := by
  rw [nodes_inner height present, Multiset.nodup_cons] at distinct
  exact fun member => distinct.1 (Multiset.mem_sum.mpr ⟨index, mem_range.mpr inside, member⟩)

/-- In a tree that reaches every block once, two references share no block. -/
theorem child_nodes_disjoint {root first second : Nat} {height : Nat} (present : root ≠ 0)
    (inside : first < fanout) (bounded : second < fanout) (different : second ≠ first)
    (distinct : (nodes child fanout store (height + 1) root).Nodup) :
    Disjoint (nodes child fanout store height (child (store root) first))
      (nodes child fanout store height (child (store root) second)) := by
  -- Both subtrees are separate terms of the sum over all references.
  rw [nodes_inner height present, ← add_sum_erase _ _ (mem_range.mpr inside),
    ← add_sum_erase _ _ (mem_erase.mpr ⟨different, mem_range.mpr bounded⟩),
    Multiset.nodup_cons, Multiset.nodup_add] at distinct
  exact (Multiset.disjoint_add_right.mp distinct.2.2.2).1

/-- A bottom block that is no hole belongs to the tree. -/
theorem leaf_mem_nodes (positive : 0 < fanout) (offset height root : Nat)
    (present : leaf child fanout store offset height root ≠ 0) :
    leaf child fanout store offset height root ∈ nodes child fanout store height root := by
  induction height generalizing root with
  | zero => exact root_mem_nodes 0 (by simpa [leaf] using present)
  | succ height ih =>
    have inner : root ≠ 0 := by
      rintro rfl
      exact present (leaf_hole ..)
    rw [leaf_inner offset height inner] at present ⊢
    exact Multiset.mem_of_le (child_nodes_le height inner (Nat.mod_lt _ positive)) (ih _ present)

/-- Stores that agree on the blocks of a tree hold the same tree. -/
theorem nodes_congr (height root : Nat)
    (agree : ∀ x ∈ nodes child fanout store height root, store x = other x) :
    nodes child fanout other height root = nodes child fanout store height root := by
  -- The induction follows the height, and each child inherits the agreement of its parent.
  induction height generalizing root with
  | zero => rfl
  | succ height ih =>
    by_cases hole : root = 0
    · simp [hole]
    · have same := agree root (root_mem_nodes (height + 1) hole)
      rw [nodes_inner height hole, nodes_inner height hole, ← same]
      congr 1
      refine Finset.sum_congr rfl fun i inside => ih _ fun x member => ?_
      exact agree x (Multiset.mem_of_le (child_nodes_le height hole (mem_range.mp inside)) member)

/-- Stores that agree on the blocks of a tree send every offset to the same bottom block. -/
theorem leaf_congr (positive : 0 < fanout) (offset height root : Nat)
    (agree : ∀ x ∈ nodes child fanout store height root, store x = other x) :
    leaf child fanout other offset height root = leaf child fanout store offset height root := by
  induction height generalizing root with
  | zero => rfl
  | succ height ih =>
    by_cases hole : root = 0
    · simp [hole]
    · have same := agree root (root_mem_nodes (height + 1) hole)
      rw [leaf_inner offset height hole, leaf_inner offset height hole, ← same]
      refine ih _ fun x member => agree x ?_
      exact Multiset.mem_of_le (child_nodes_le height hole (Nat.mod_lt _ positive)) member

/-- Changing one reference of a node exchanges the blocks below that reference and no others. -/
theorem nodes_replace {root index : Nat} (height : Nat) (present : root ≠ 0)
    (inside : index < fanout)
    (kept : ∀ i < fanout, i ≠ index →
      nodes child fanout other height (child (other root) i) =
        nodes child fanout store height (child (store root) i)) :
    nodes child fanout other (height + 1) root +
        nodes child fanout store height (child (store root) index) =
      nodes child fanout store (height + 1) root +
        nodes child fanout other height (child (other root) index) := by
  have exchanged := sum_exchange (fun i => nodes child fanout store height (child (store root) i))
    (fun i => nodes child fanout other height (child (other root) i)) (mem_range.mpr inside)
    fun i bounded => kept i (mem_range.mp bounded)
  rw [nodes_inner height present, nodes_inner height present, Multiset.cons_add, exchanged,
    ← Multiset.cons_add]

/-- A node whose only reference is its first one adds a level above the referenced tree. -/
theorem nodes_raise {root : Nat} (height : Nat) (present : root ≠ 0) (positive : 0 < fanout)
    (rest : ∀ i < fanout, i ≠ 0 → child (store root) i = 0) :
    nodes child fanout store (height + 1) root =
      root ::ₘ nodes child fanout store height (child (store root) 0) := by
  rw [nodes_inner height present,
    Finset.sum_eq_single_of_mem 0 (mem_range.mpr positive) fun i inside other => by
      rw [rest i (mem_range.mp inside) other, nodes_hole]]

end Forest

end Egos
