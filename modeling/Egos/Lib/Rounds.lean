import Mathlib.Data.Finset.Card
import Mathlib.Data.Option.Basic

/-! A partial function that is applied again and again: it stops soon, or never. -/

namespace Egos

section Rounds

variable {α : Type} {next : α → Option α} {a : α} {n : Nat}

/-- A partial function is applied again and again. -/
def rounds (next : α → Option α) (a : α) : Nat → Option α
  | 0 => some a
  | n + 1 => (rounds next a n).bind next

/-- One more round may be counted first. -/
theorem rounds_succ (n : Nat) :
    rounds next a (n + 1) = (next a).bind fun b => rounds next b n := by
  induction n with
  | zero => cases same : next a <;> simp [rounds, same]
  | succ n ih =>
    rw [rounds, ih, Option.bind_assoc]
    rfl

/-- Rounds that do not stop have not stopped before. -/
theorem rounds_isSome {m : Nat} (goes : (rounds next a n).isSome) (before : m ≤ n) :
    (rounds next a m).isSome := by
  induction before with
  | refl => exact goes
  | step before ih =>
    apply ih
    unfold rounds at goes
    exact Option.isSome_of_isSome_bind goes

/-- Rounds that come back to the same place go on alike. -/
theorem rounds_add {i j : Nat} (same : rounds next a i = rounds next a j) (t : Nat) :
    rounds next a (i + t) = rounds next a (j + t) := by
  induction t with
  | zero => exact same
  | succ t ih =>
    change (rounds next a (i + t)).bind next = (rounds next a (j + t)).bind next
    rw [ih]

/-- With fewer places than rounds, rounds that have not stopped never stop. -/
theorem rounds_forever (code : α → Nat) (inj : Function.Injective code)
    (below : ∀ a, code a < n) (goes : (rounds next a n).isSome) (m : Nat) :
    (rounds next a m).isSome := by
  -- Two of the first places are the same.
  obtain ⟨i, j, less, most, same⟩ :
      ∃ i j, i < j ∧ j ≤ n ∧ rounds next a i = rounds next a j := by
    have maps : ∀ k ∈ Finset.range (n + 1),
        ((rounds next a k).map code).getD 0 ∈ Finset.range n := by
      intro k member
      have within : k ≤ n := by
        rw [Finset.mem_range] at member
        omega
      obtain ⟨b, place⟩ := Option.isSome_iff_exists.mp (rounds_isSome goes within)
      rw [place, Finset.mem_range]
      exact below b
    have fewer : (Finset.range n).card < (Finset.range (n + 1)).card := by
      rw [Finset.card_range, Finset.card_range]
      omega
    obtain ⟨i, first, j, second, apart, same⟩ :=
      Finset.exists_ne_map_eq_of_card_lt_of_maps_to fewer maps
    rw [Finset.mem_range] at first second
    have equal : rounds next a i = rounds next a j := by
      obtain ⟨b, here⟩ := Option.isSome_iff_exists.mp (rounds_isSome goes (by omega : i ≤ n))
      obtain ⟨c, there⟩ := Option.isSome_iff_exists.mp (rounds_isSome goes (by omega : j ≤ n))
      rw [here, there] at same
      rw [here, there, inj same]
    rcases Nat.lt_or_gt_of_ne apart with less | greater
    · exact ⟨i, j, less, by omega, equal⟩
    · exact ⟨j, i, greater, by omega, equal.symm⟩
  -- Later rounds are as many rounds earlier in the same place.
  induction m using Nat.strong_induction_on with
  | _ m ih =>
    by_cases early : m ≤ n
    · exact rounds_isSome goes early
    · have back := ih (i + (m - j)) (by omega)
      rw [rounds_add same (m - j), Nat.add_sub_cancel' (by omega)] at back
      exact back

end Rounds

end Egos
