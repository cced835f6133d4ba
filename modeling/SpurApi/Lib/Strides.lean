/-
Walking to a target in strides.

From 0 the walk goes on by `c` until it is at the target, where the last stride is cut
short.  The number of strides is the target divided by `c`, rounded up, and the one fact
about it that an induction over the walk needs is `lt_count_iff`: there is one more
stride as long as the walk is below the target.

`between` bounds the number of strides that one gets by asking for `n` of them, with
`c` the target divided by `n`, rounded down and at least 1.  Below `n` every stride is
1.  From `n` on, rounding down makes the strides shorter, and there can be nearly twice
as many: `2 * n - 1` of them for the target `2 * n - 1`.
-/
import Mathlib.Data.Rat.Floor
import Mathlib.Tactic.Linarith

namespace Strides

variable {target c n : Int}

/-- How many strides of length `c` there are up to the target. -/
def count (target c : Int) : Nat := ⌈(target : ℚ) / c⌉₊

/-- Where the first `k` strides end. -/
def stops (target c : Int) (k : Nat) : List Int :=
  (List.range k).map fun i : Nat => min ((i + 1) * c) target

theorem stops_succ (target c : Int) (k : Nat) :
    stops target c (k + 1) = stops target c k ++ [min ((k + 1) * c) target] := by
  rw [stops, stops, List.range_succ, List.map_append, List.map_singleton]

/-- There is one more stride as long as the walk is below the target. -/
theorem lt_count_iff (hc : 1 ≤ c) {k : Nat} : k < count target c ↔ k * c < target := by
  have hpos : (0 : ℚ) < c := by exact_mod_cast hc
  rw [count, Nat.lt_ceil, lt_div_iff₀ hpos]
  exact_mod_cast Iff.rfl

theorem count_le_iff (hc : 1 ≤ c) {k : Nat} : count target c ≤ k ↔ target ≤ k * c := by
  rw [← Nat.not_lt, lt_count_iff hc, Int.not_lt]

/-- The last stride ends at the target. -/
theorem le_count_mul (hc : 1 ≤ c) : target ≤ count target c * c :=
  (count_le_iff hc).mp le_rfl

/-- A bound on the number of strides of which the bound itself takes the walk to the target. -/
theorem count_le_of_mul (hc : 1 ≤ c) {m : Int} (hm : 0 ≤ m) (h : target ≤ m * c) :
    (count target c : Int) ≤ m := by
  have hle : count target c ≤ m.toNat := by
    rw [count_le_iff hc, Int.toNat_of_nonneg hm]
    exact h
  omega

/-- **Dividing a target by `n` gives between `n` and `2 * n - 1` strides**, or as many as the
target is when that is below `n`. -/
theorem between (htarget : 1 ≤ target) (hn : 1 ≤ n) :
    min target n ≤ count target (max 1 (target / n)) ∧
      count target (max 1 (target / n)) ≤ 2 * n - 1 := by
  by_cases hbelow : target < n
  · have hzero : target / n = 0 := Int.ediv_eq_zero_of_lt (by omega) hbelow
    rw [hzero]
    show min target n ≤ count target 1 ∧ count target 1 ≤ 2 * n - 1
    have hreach : target ≤ count target 1 * 1 := le_count_mul (le_refl 1)
    have hbound : (count target 1 : Int) ≤ 2 * n - 1 :=
      count_le_of_mul (le_refl 1) (by omega) (by omega)
    omega
  · have hq : 1 ≤ target / n := by
      rw [Int.le_ediv_iff_mul_le (by omega)]
      omega
    have hmax : max 1 (target / n) = target / n := by omega
    rw [hmax]
    -- the target is `q * n` and a remainder below `n`
    have hfloor := Int.ediv_mul_add_emod target n
    have hrest := Int.emod_nonneg target (show n ≠ 0 by omega)
    have hlt := Int.emod_lt_of_pos target (show 0 < n by omega)
    generalize target / n = q at hq hfloor
    have hreach : target ≤ count target q * q := le_count_mul hq
    constructor
    · have hn' : n ≤ count target q := by
        by_contra hfew
        have hmul : (count target q + 1) * q ≤ n * q :=
          Int.mul_le_mul_of_nonneg_right (by omega) (by omega)
        linarith only [hmul, hreach, hfloor, hrest, hq]
      omega
    · refine count_le_of_mul hq (by omega) ?_
      -- `2 * n - 1` strides are enough, since the remainder is below `n` and `q` at least 1
      have hprod : 0 ≤ (n - 1) * (q - 1) := Int.mul_nonneg (by omega) (by omega)
      linarith only [hprod, hfloor, hlt]

end Strides
