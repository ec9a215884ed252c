import Mathlib.Algebra.BigOperators.Group.List.Basic
import Mathlib.Algebra.Ring.Nat

/-!
# Natural numbers in doubles

A double keeps 53 binary digits of a number.  `round` is what it makes of a natural
number, a number halfway between two neighbours going to the even one, and `sum` adds a
list the way a program does: from the left, rounding each time.

The range of the exponent is left out; no number here comes near the greatest double.
`sum_of_le` says that up to `2 ^ 53` nothing is rounded, whatever the order.
-/

namespace BcNode.Verified.Double

/-- The weight of the last binary digit that is kept of `n`. -/
def ulp (n : Nat) : Nat := 2 ^ (n.log2 + 1 - 53)

/-- The double nearest to `n`. -/
def round (n : Nat) : Nat :=
  let q := n / ulp n
  let r := n % ulp n
  if 2 * r < ulp n then q * ulp n
  else if ulp n < 2 * r then (q + 1) * ulp n
  else (q + q % 2) * ulp n

/-- The sum of a list, rounded after each addition. -/
def sum (list : List Nat) : Nat := list.foldl (fun acc n => round (acc + n)) 0

theorem ulp_pos (n : Nat) : 0 < ulp n := Nat.two_pow_pos _

/-- What has no digit below the last one is kept as it is. -/
theorem round_of_dvd {n : Nat} (h : ulp n ∣ n) : round n = n := by
  have hrest : 2 * (n % ulp n) < ulp n := by
    rw [Nat.mod_eq_zero_of_dvd h]
    exact ulp_pos n
  rw [round, if_pos hrest, Nat.div_mul_cancel h]

/-- Below `2 ^ 53` the last digit is the ones, and at `2 ^ 53` it is a two. -/
theorem ulp_dvd_of_le {n : Nat} (h : n ≤ 2 ^ 53) : ulp n ∣ n := by
  rcases Nat.lt_or_eq_of_le h with hlt | rfl
  · have hlog : n.log2 < 53 := by
      rcases Nat.eq_zero_or_pos n with rfl | hpos
      · decide
      · exact (Nat.log2_lt (Nat.ne_of_gt hpos)).2 hlt
    have hone : ulp n = 1 := by
      rw [ulp, Nat.sub_eq_zero_of_le hlog, Nat.pow_zero]
    rw [hone]
    exact Nat.one_dvd n
  · exact ⟨2 ^ 52, by decide +kernel⟩

theorem round_of_le {n : Nat} (h : n ≤ 2 ^ 53) : round n = n := round_of_dvd (ulp_dvd_of_le h)

/-- **Small sums are exact.**  A sum of at most `2 ^ 53` is not rounded on the way. -/
theorem sum_of_le {list : List Nat} (h : list.sum ≤ 2 ^ 53) : sum list = list.sum := by
  have hfold : ∀ acc, acc + list.sum ≤ 2 ^ 53 →
      list.foldl (fun acc n => round (acc + n)) acc = acc + list.sum := by
    clear h
    induction list with
    | nil => exact fun _ _ => rfl
    | cons n list ih =>
        intro acc hacc
        rw [List.sum_cons, ← Nat.add_assoc] at hacc ⊢
        have hfirst : round (acc + n) = acc + n :=
          round_of_le (Nat.le_trans (Nat.le_add_right _ _) hacc)
        rw [List.foldl_cons, hfirst, ih _ hacc]
  have hsum := hfold 0 (by rwa [Nat.zero_add])
  rwa [Nat.zero_add] at hsum

/-- Halfway between two doubles the even one is taken, so the order matters. -/
example : sum [2 ^ 53, 1, 1] = 2 ^ 53 ∧ sum [1, 1, 2 ^ 53] = 2 ^ 53 + 2 := by
  decide +kernel

end BcNode.Verified.Double
