/-
# `Tally` — a number per party, added up

Many invariants of systems with finitely many parties are equations between a shared
counter and a sum over the parties: a lock word against its holders, a semaphore against
those that owe it a signal.  A step changes one party, so the sum moves by what that
party's number moves by (`sum_change`); what the sum says about single parties is the
rest of this file.
-/
import Mathlib.Algebra.BigOperators.Group.Finset.Basic
import Mathlib.Algebra.Order.BigOperators.Group.Finset
import Mathlib.Data.Fintype.BigOperators

namespace Tally

variable {B : Type} [Fintype B] {g g' : B → Nat}

/-- One party's number changes, and the sum with it. -/
theorem sum_change (b : B) (h : ∀ c, c ≠ b → g' c = g c) :
    ∑ c, g' c + g b = ∑ c, g c + g' b := by
  classical
  have hrest : ∑ c ∈ Finset.univ.erase b, g' c = ∑ c ∈ Finset.univ.erase b, g c :=
    Finset.sum_congr rfl fun c hc => h c (Finset.ne_of_mem_erase hc)
  have hold := Finset.add_sum_erase Finset.univ g (Finset.mem_univ b)
  have hnew := Finset.add_sum_erase Finset.univ g' (Finset.mem_univ b)
  omega

/-- No party's number changes. -/
theorem sum_same (h : ∀ c, g' c = g c) : ∑ c, g' c = ∑ c, g c :=
  Finset.sum_congr rfl fun c _ => h c

theorem le_sum (b : B) : g b ≤ ∑ c, g c :=
  Finset.single_le_sum (fun _ _ => Nat.zero_le _) (Finset.mem_univ b)

/-- Two parties together. -/
theorem add_le_sum {b c : B} (h : b ≠ c) : g b + g c ≤ ∑ d, g d := by
  classical
  have hmem : c ∈ Finset.univ.erase b := Finset.mem_erase.mpr ⟨h.symm, Finset.mem_univ c⟩
  have hb := Finset.add_sum_erase Finset.univ g (Finset.mem_univ b)
  have hc := Finset.single_le_sum (f := g) (fun _ _ => Nat.zero_le _) hmem
  omega

theorem exists_pos (h : 0 < ∑ c, g c) : ∃ b, 0 < g b := by
  by_contra hnone
  have hzero : ∀ c ∈ Finset.univ, g c = 0 := by
    intro c _
    by_contra hc
    exact hnone ⟨c, Nat.pos_of_ne_zero hc⟩
  rw [Finset.sum_eq_zero hzero] at h
  exact absurd h (lt_irrefl 0)

end Tally
