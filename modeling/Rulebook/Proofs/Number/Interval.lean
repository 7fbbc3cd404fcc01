import Mathlib.Algebra.Order.Field.Power
import Mathlib.Algebra.Order.Ring.Rat
import Mathlib.Tactic.Linarith
import Mathlib.Tactic.NormNum
import Mathlib.Tactic.Positivity
import Mathlib.Tactic.Ring
import Rulebook.Number.Shortest

/-!
The rationals that round to a number.

Each number of 64 bits has an interval of rationals around it that are nearer to it than to any
other number.  No rational lies in the intervals of two numbers (`holds_unique`): where two of them
meet, the significand of one is even and that of the other is odd, and only the even one has the
ends of its interval.
-/

namespace Rulebook.Binary64

/-- Do a significand and an exponent make a number of 64 bits?  The significand has 53 bits, or fewer
of them at the least exponent. -/
structure Fits (significand : Nat) (exponent : Int) : Prop where
  bits : significand < 2 ^ 53
  least : leastExponent ≤ exponent
  greatest : exponent ≤ greatestExponent
  full : leastExponent < exponent → 2 ^ 52 ≤ significand

/-- Is this a number of 64 bits? -/
def IsProper : Binary64 → Prop
  | .finite _ significand exponent => Fits significand exponent
  | _ => True

variable {m n : Nat} {e f : Int} {r : ℚ}

/-- A quarter of the last bit. -/
def quarter (e : Int) : ℚ := 2 ^ (e - 2)

theorem quarter_pos (e : Int) : 0 < quarter e := by
  unfold quarter
  positivity

/-- The value of a number. -/
def magnitude (m : Nat) (e : Int) : ℚ := m * 2 ^ e

theorem magnitude_eq (m : Nat) (e : Int) : magnitude m e = 4 * m * quarter e := by
  rw [magnitude, quarter, zpow_sub₀ (by norm_num)]
  ring

/-- The distance of the lower end of the interval, in quarters of the last bit. -/
def below (m : Nat) (e : Int) : Nat := if m = 2 ^ 52 ∧ leastExponent < e then 1 else 2

theorem below_le (m : Nat) (e : Int) : below m e ≤ 2 := by
  unfold below
  split <;> omega

namespace Interval

/-- Does the rational lie in the interval? -/
def Holds (i : Interval) (r : ℚ) : Prop :=
  if i.closed then (i.low : ℚ) / i.den ≤ r ∧ r ≤ (i.high : ℚ) / i.den
  else (i.low : ℚ) / i.den < r ∧ r < (i.high : ℚ) / i.den

theorem has_iff {i : Interval} (hi : 0 < i.den) {num den : Nat} (hden : 0 < den) :
    i.has num den = true ↔ i.Holds ((num : ℚ) / den) := by
  have hi' : (0 : ℚ) < i.den := Nat.cast_pos.2 hi
  have hden' : (0 : ℚ) < den := Nat.cast_pos.2 hden
  unfold has Holds
  cases i.closed with
  | true =>
      simp only [if_true, Bool.and_eq_true, decide_eq_true_eq]
      rw [div_le_div_iff₀ hi' hden', div_le_div_iff₀ hden' hi']
      exact_mod_cast Iff.rfl
  | false =>
      simp only [Bool.false_eq_true, if_false, Bool.and_eq_true, decide_eq_true_eq]
      rw [div_lt_div_iff₀ hi' hden', div_lt_div_iff₀ hden' hi']
      exact_mod_cast Iff.rfl

/-- What is inside lies in the interval, whether its ends do or not. -/
theorem Holds.of_lt {i : Interval} (hlow : (i.low : ℚ) / i.den < r) (hhigh : r < (i.high : ℚ) / i.den) :
    i.Holds r := by
  unfold Holds
  split
  · exact ⟨hlow.le, hhigh.le⟩
  · exact ⟨hlow, hhigh⟩

theorem Holds.le {i : Interval} (h : i.Holds r) :
    (i.low : ℚ) / i.den ≤ r ∧ r ≤ (i.high : ℚ) / i.den := by
  unfold Holds at h
  split at h
  · exact h
  · exact ⟨h.1.le, h.2.le⟩

end Interval

theorem interval_den_pos (m : Nat) (e : Int) : 0 < (interval m e).den := by
  unfold interval
  dsimp only
  split
  · exact Nat.one_pos
  · exact Nat.pow_pos Nat.two_pos

/-- Numerators over the denominator of the interval are counted in quarters of the last bit. -/
theorem div_interval_den (m : Nat) (e : Int) :
    ((interval m e).low : ℚ) / (interval m e).den = (4 * m - below m e : Nat) * quarter e ∧
      ((interval m e).value : ℚ) / (interval m e).den = magnitude m e ∧
        ((interval m e).high : ℚ) / (interval m e).den = (4 * m + 2) * quarter e := by
  rw [magnitude_eq]
  unfold interval
  change (_ / _ = ((4 * m - if m = Nat.pow 2 52 ∧ _ then 1 else 2 : Nat) : ℚ) * _) ∧ _
  by_cases he : 2 ≤ e
  · have hquarter : quarter e = ((2 ^ (e - 2).toNat : Nat) : ℚ) := by
      rw [quarter, Nat.cast_pow, ← zpow_natCast, Int.toNat_of_nonneg (by omega)]
      rfl
    simp only [if_pos he, hquarter, Nat.pow_eq]
    push_cast
    exact ⟨by ring, by ring, by ring⟩
  · have hquarter : quarter e = 1 / ((2 ^ (2 - e).toNat : Nat) : ℚ) := by
      rw [quarter, Nat.cast_pow, ← zpow_natCast, Int.toNat_of_nonneg (by omega), one_div,
        Nat.cast_ofNat, ← zpow_neg, neg_sub]
    simp only [if_neg he, hquarter, Nat.pow_eq]
    push_cast
    exact ⟨by ring, by ring, by ring⟩

theorem closed_interval (m : Nat) (e : Int) : (interval m e).closed = (m % 2 == 0) := rfl

/-- A rational in the interval of a number whose significand is odd is none of its ends. -/
theorem holds_odd (hodd : m % 2 = 1) (h : (interval m e).Holds r) :
    (4 * m - below m e : Nat) * quarter e < r ∧ r < (4 * m + 2) * quarter e := by
  obtain ⟨hlow, -, hhigh⟩ := div_interval_den m e
  have hclosed : (interval m e).closed = false := by
    rw [closed_interval, hodd]
    rfl
  rw [Interval.Holds, hclosed, hlow, hhigh] at h
  exact h

theorem holds_le (h : (interval m e).Holds r) :
    (4 * m - below m e : Nat) * quarter e ≤ r ∧ r ≤ (4 * m + 2) * quarter e := by
  obtain ⟨hlow, -, hhigh⟩ := div_interval_den m e
  have hends := h.le
  rwa [hlow, hhigh] at hends

/-- A rational that rounds to a positive number is positive. -/
theorem pos_of_holds (hm : 0 < m) (h : (interval m e).Holds r) : 0 < r := by
  have hlow : 0 < 4 * m - below m e := by
    have hbelow := below_le m e
    omega
  have hpos : (0 : ℚ) < (4 * m - below m e : Nat) * quarter e :=
    mul_pos (Nat.cast_pos.2 hlow) (quarter_pos e)
  exact hpos.trans_le (holds_le h).1

theorem two_mul_quarter_le (h : e < f) : 2 * quarter e ≤ quarter f := by
  have hsucc : 2 * quarter e = 2 ^ (e - 1) := by
    rw [quarter, ← zpow_one_add₀ (by norm_num)]
    congr 1
    ring
  rw [hsucc]
  exact zpow_le_zpow_right₀ (by norm_num) (by omega)

/-- Between numbers of one exponent. -/
theorem not_holds_of_lt (hlt : m < n) (h : (interval m e).Holds r)
    (hother : (interval n e).Holds r) : False := by
  have hbelow := below_le n e
  have hquarter := quarter_pos e
  have hmeet : ((4 * m + 2 : Nat) : ℚ) * quarter e ≤ (4 * n - below n e : Nat) * quarter e :=
    mul_le_mul_of_nonneg_right (Nat.cast_le.2 (by omega)) hquarter.le
  push_cast at hmeet
  have hend := (holds_le h).2
  have hbegin := (holds_le hother).1
  rcases Nat.mod_two_eq_zero_or_one m with heven | hodd
  · rcases Nat.mod_two_eq_zero_or_one n with heven' | hodd'
    · -- Both are even, so they are not next to each other.
      have hgap : ((4 * m + 2 : Nat) : ℚ) * quarter e < (4 * n - below n e : Nat) * quarter e :=
        mul_lt_mul_of_pos_right (Nat.cast_lt.2 (by omega)) hquarter
      push_cast at hgap
      linarith
    · linarith [(holds_odd hodd' hother).1]
  · linarith [(holds_odd hodd h).2]

/-- Between numbers of different exponents. -/
theorem not_holds_of_exponent_lt (hlt : e < f) (hm : m < 2 ^ 53) (hn : 2 ^ 52 ≤ n)
    (hleast : leastExponent < f) (h : (interval m e).Holds r) (hother : (interval n f).Holds r) :
    False := by
  have hquarter := quarter_pos e
  have hmeet : (2 ^ 54 - 1 : ℚ) * (2 * quarter e) ≤ r := by
    have hcast : (2 ^ 54 - 1 : ℚ) ≤ (4 * n - below n f : Nat) := by
      have hfirst : ((2 ^ 54 : Nat) : ℚ) ≤ (4 * n - below n f + 1 : Nat) := by
        apply Nat.cast_le.2
        unfold below
        split <;> omega
      push_cast at hfirst
      linarith
    exact (mul_le_mul hcast (two_mul_quarter_le hlt) (by positivity) (by positivity)).trans
      (holds_le hother).1
  rcases Nat.mod_two_eq_zero_or_one m with heven | hodd
  · -- An even significand is less than the greatest one.
    have hlast : (4 * m + 2 : ℚ) ≤ 2 ^ 55 - 6 := by
      have hcast : ((4 * m + 8 : Nat) : ℚ) ≤ (2 ^ 55 : Nat) := Nat.cast_le.2 (by omega)
      push_cast at hcast
      linarith
    have hend := (holds_le h).2.trans (mul_le_mul_of_nonneg_right hlast hquarter.le)
    linarith
  · have hlast : (4 * m + 2 : ℚ) ≤ 2 ^ 55 - 2 := by
      have hcast : ((4 * m + 4 : Nat) : ℚ) ≤ (2 ^ 55 : Nat) := Nat.cast_le.2 (by omega)
      push_cast at hcast
      linarith
    have hend := (holds_odd hodd h).2.trans_le (mul_le_mul_of_nonneg_right hlast hquarter.le)
    linarith

/-- A rational rounds to one number at most. -/
theorem holds_unique (hm : Fits m e) (hn : Fits n f) (h : (interval m e).Holds r)
    (hother : (interval n f).Holds r) : m = n ∧ e = f := by
  rcases lt_trichotomy e f with hlt | rfl | hlt
  · have hleast : leastExponent < f := lt_of_le_of_lt hm.least hlt
    exact (not_holds_of_exponent_lt hlt hm.bits (hn.full hleast) hleast h hother).elim
  · rcases Nat.lt_trichotomy m n with hlt | rfl | hlt
    · exact (not_holds_of_lt hlt h hother).elim
    · exact ⟨rfl, rfl⟩
    · exact (not_holds_of_lt hlt hother h).elim
  · have hleast : leastExponent < e := lt_of_le_of_lt hn.least hlt
    exact (not_holds_of_exponent_lt hlt hn.bits (hm.full hleast) hleast hother h).elim

end Rulebook.Binary64
