import Mathlib.Algebra.Group.Nat.Defs
import Rulebook.Number.Binary64

/-!
Whole numbers past the greatest number.

A whole number rounds to a number of 64 bits as long as it is nearer to the greatest one than to the
next power of two (`ofInt?_eq_none_iff`).  Halfway between the two the significand of the power of two
is the even one, so the number is past the greatest one already.
-/

namespace Rulebook.Binary64

/-- The least whole number that rounds past the greatest number. -/
def overflowLimit : Nat := 2 ^ 1024 - 2 ^ 970

variable {m : Nat}

/-- A whole number has as many bits before the point as it has at all. -/
theorem exponentFor_one (hm : m ≠ 0) : exponentFor m 1 = (m.log2 : Int) - 52 := by
  have hlow : 2 ^ m.log2 ≤ m := Nat.log2_self_le hm
  have hone : Nat.log2 1 = 0 := by decide
  have hguess : (m.log2 : Int) - (Nat.log2 1 : Nat) - 52 = (m.log2 : Int) - 52 := by
    rw [hone, Int.natCast_zero, Int.sub_zero]
  unfold exponentFor
  simp only [hguess]
  by_cases hwhole : 0 ≤ (m.log2 : Int) - 52
  · have hpower : 2 ^ 52 * 2 ^ ((m.log2 : Int) - 52).toNat = 2 ^ m.log2 := by
      rw [← Nat.pow_add]
      congr 1
      omega
    simp only [unscale, if_pos hwhole, Nat.pow_eq, Nat.one_mul, hpower]
    rw [if_neg (Nat.not_lt.2 hlow), leastExponent]
    omega
  · have hpower : 2 ^ m.log2 * 2 ^ (-((m.log2 : Int) - 52)).toNat = 2 ^ 52 := by
      rw [← Nat.pow_add]
      congr 1
      omega
    have hscaled : 2 ^ 52 ≤ m * 2 ^ (-((m.log2 : Int) - 52)).toNat :=
      hpower ▸ Nat.mul_le_mul_right _ hlow
    simp only [unscale, if_neg hwhole, Nat.pow_eq, Nat.mul_one]
    rw [if_neg (Nat.not_lt.2 hscaled), leastExponent]
    omega

/-- The significand to which a fraction rounds, before one of 54 bits is halved. -/
def roundedSignificand (num den : Nat) : Nat :=
  let (n, d) := unscale num den (exponentFor num den)
  nearestEven n d

/-- A fraction rounds to a number unless the exponent that it needs is too great. -/
theorem isFinite_ofRatio_iff {num : Nat} (hnum : num ≠ 0) (negative : Bool) (den : Nat) :
    (ofRatio negative num den).isFinite = true ↔
      exponentFor num den + (if roundedSignificand num den = 2 ^ 53 then 1 else 0) ≤
        greatestExponent := by
  have hexponent : ∀ (significand : Nat) (exponent : Int),
      (if greatestExponent < exponent then .infinite negative
        else .finite negative significand exponent : Binary64).isFinite = true ↔
          exponent ≤ greatestExponent := by
    intro significand exponent
    split
    · next hgreat => simpa [isFinite] using hgreat
    · next hgreat => simpa [isFinite] using hgreat
  unfold ofRatio roundedSignificand
  simp only [if_neg hnum, Nat.pow_eq]
  split
  · exact hexponent _ _
  · rw [Int.add_zero]
    exact hexponent _ _

/-- With the greatest exponent, the significand has one bit too many from the middle between the
greatest number and the next power of two on. -/
theorem nearestEven_eq_iff {x : Nat} (hx : 0 < x) (hhigh : m < 2 ^ 54 * x) :
    nearestEven m (2 * x) = 2 ^ 53 ↔ 2 ^ 54 * x - x ≤ m := by
  have hsplit := Nat.div_add_mod m (2 * x)
  have hrest : m % (2 * x) < 2 * x := Nat.mod_lt m (by omega)
  have hquotient : m / (2 * x) < 2 ^ 53 := by
    rw [Nat.div_lt_iff_lt_mul (by omega)]
    omega
  unfold nearestEven
  dsimp only
  generalize m % (2 * x) = rest at *
  generalize m / (2 * x) = quotient at *
  by_cases hlast : quotient = 2 ^ 53 - 1
  · subst hlast
    have hsplit : (2 ^ 53 - 1) * (2 * x) + rest = m := by rw [← hsplit, Nat.mul_comm]
    split
    · omega
    · split
      · omega
      · omega
  · have hproduct : 2 * x * quotient ≤ 2 * x * (2 ^ 53 - 2) := Nat.mul_le_mul_left _ (by omega)
    split
    · omega
    · split
      · omega
      · omega

theorem overflowLimit_eq : overflowLimit = 2 ^ 54 * 2 ^ 970 - 2 ^ 970 := by decide +kernel

theorem unscale_one (m k : Nat) : unscale m 1 (k : Int) = (m, 2 ^ k) := by
  rw [unscale, if_pos (Int.natCast_nonneg _), Int.toNat_natCast, Nat.pow_eq, Nat.one_mul]

/-- A whole number rounds to a number as long as it is below the limit. -/
theorem isFinite_ofRatio_one (negative : Bool) (m : Nat) :
    (ofRatio negative m 1).isFinite = true ↔ m < overflowLimit := by
  by_cases hm : m = 0
  · subst hm
    exact iff_of_true rfl (by decide +kernel)
  have hlow : 2 ^ m.log2 ≤ m := Nat.log2_self_le hm
  have hhigh : m < 2 ^ (m.log2 + 1) := Nat.lt_log2_self
  -- The exponent gets a name, lest the power be computed.
  obtain ⟨k, hk⟩ : ∃ k, k = 970 := ⟨970, rfl⟩
  have hpositive : 0 < 2 ^ k := Nat.two_pow_pos k
  rw [isFinite_ofRatio_iff hm, exponentFor_one hm, greatestExponent, overflowLimit_eq, ← hk]
  rcases Nat.lt_trichotomy m.log2 (53 + k) with hless | hequal | hmore
  · have hpower : 2 ^ (m.log2 + 1) ≤ 2 ^ 53 * 2 ^ k := by
      rw [← Nat.pow_add]
      exact Nat.pow_le_pow_right (by decide) (by omega)
    refine iff_of_true ?_ (by omega)
    split <;> omega
  · have hsignificand : roundedSignificand m 1 = nearestEven m (2 * 2 ^ k) := by
      have hexponent : (m.log2 : Int) - 52 = ((k + 1 : Nat) : Int) := by omega
      rw [roundedSignificand, exponentFor_one hm, hexponent, unscale_one, Nat.pow_add_one']
    rw [hequal, Nat.add_right_comm, Nat.pow_add] at hhigh
    have hround := nearestEven_eq_iff hpositive hhigh
    rw [hsignificand, hequal]
    split <;> omega
  · have hpower : 2 ^ 54 * 2 ^ k ≤ 2 ^ m.log2 := by
      rw [← Nat.pow_add]
      exact Nat.pow_le_pow_right (by decide) (by omega)
    refine iff_of_false ?_ (by omega)
    split <;> omega

theorem ofInt?_eq_none_iff (n : Int) : ofInt? n = none ↔ overflowLimit ≤ n.natAbs := by
  rw [← Nat.not_lt, ← isFinite_ofRatio_one (n < 0)]
  unfold ofInt?
  cases ofRatio (n < 0) n.natAbs 1 <;> simp [isFinite]

end Rulebook.Binary64
