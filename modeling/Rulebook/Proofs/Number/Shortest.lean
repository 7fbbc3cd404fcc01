import Rulebook.Proofs.Number.Interval

/-!
The shortest digits of a number.

Seventeen digits are enough to stay nearer to a number than to any other one
(`exists_withDigits`), so `shortest` always finds digits, and the decimal that they make rounds to
the number (`holds_shortest`).
-/

namespace Rulebook.Binary64

variable {m : Nat} {e : Int}

/-! ### Powers of two and of ten -/

/-- Powers of two and of ten, compared by their exponents. -/
theorem two_zpow_le_ten_zpow {b t : Int} (hupper : 28 * b ≤ 93 * t) (hlower : 59 * b ≤ 196 * t) :
    (2 : ℚ) ^ b ≤ 10 ^ t := by
  rcases le_total 0 b with hb | hb
  · have hpower : ((2 : ℚ) ^ b) ^ 93 ≤ (10 ^ t) ^ 93 :=
      calc ((2 : ℚ) ^ b) ^ 93 = (2 ^ 93) ^ b := by rw [← zpow_natCast, ← zpow_natCast, zpow_comm]
        _ ≤ (10 ^ 28) ^ b := zpow_le_zpow_left₀ hb (by norm_num) (by norm_num)
        _ = 10 ^ (28 * b) := by rw [zpow_mul, zpow_ofNat]
        _ ≤ 10 ^ (t * 93) := zpow_le_zpow_right₀ (by norm_num) (by omega)
        _ = (10 ^ t) ^ 93 := by rw [zpow_mul, zpow_ofNat]
    exact (pow_le_pow_iff_left₀ (by positivity) (by positivity) (by norm_num)).1 hpower
  · -- Below zero the powers are inverses, so another approximation is needed.
    have hinverse : ((2 : ℚ) ^ 196) ^ b ≤ (10 ^ 59) ^ b := by
      obtain ⟨c, rfl⟩ : ∃ c, b = -c := ⟨-b, (neg_neg b).symm⟩
      have hpowers : ((10 : ℚ) ^ 59) ^ c ≤ (2 ^ 196) ^ c :=
        zpow_le_zpow_left₀ (by omega) (by norm_num) (by norm_num)
      rw [zpow_neg, zpow_neg]
      exact inv_anti₀ (by positivity) hpowers
    have hpower : ((2 : ℚ) ^ b) ^ 196 ≤ (10 ^ t) ^ 196 :=
      calc ((2 : ℚ) ^ b) ^ 196 = (2 ^ 196) ^ b := by rw [← zpow_natCast, ← zpow_natCast, zpow_comm]
        _ ≤ (10 ^ 59) ^ b := hinverse
        _ = 10 ^ (59 * b) := by rw [zpow_mul, zpow_ofNat]
        _ ≤ 10 ^ (t * 196) := zpow_le_zpow_right₀ (by norm_num) (by omega)
        _ = (10 ^ t) ^ 196 := by rw [zpow_mul, zpow_ofNat]
    exact (pow_le_pow_iff_left₀ (by positivity) (by positivity) (by norm_num)).1 hpower

theorem ten_zpow_le_two_zpow {b t : Int} (hupper : 93 * t ≤ 28 * b) (hlower : 196 * t ≤ 59 * b) :
    (10 : ℚ) ^ t ≤ 2 ^ b := by
  have hinverse : (2 : ℚ) ^ (-b) ≤ 10 ^ (-t) := two_zpow_le_ten_zpow (by omega) (by omega)
  rw [zpow_neg, zpow_neg] at hinverse
  exact (inv_le_inv₀ (by positivity) (by positivity)).1 hinverse

theorem ten_zpow_of_nonneg {p : Int} (h : 0 ≤ p) : (10 : ℚ) ^ p = (Nat.pow 10 p.toNat : Nat) := by
  rw [Nat.pow_eq, Nat.cast_pow, ← zpow_natCast, Int.toNat_of_nonneg h]
  rfl

theorem ten_zpow_of_neg {p : Int} (h : ¬ 0 ≤ p) :
    (10 : ℚ) ^ p = ((Nat.pow 10 (-p).toNat : Nat) : ℚ)⁻¹ := by
  rw [Nat.pow_eq, Nat.cast_pow, ← zpow_natCast, Int.toNat_of_nonneg (by omega), ← zpow_neg, neg_neg]
  rfl

theorem ten_pow_pos (n : Nat) : 0 < Nat.pow 10 n := Nat.pow_pos (by decide)

/-- A positive number lies between the powers of two of its bits. -/
theorem log2_bounds {n : Nat} (hn : 0 < n) :
    (2 : ℚ) ^ (n.log2 : Int) ≤ n ∧ (n : ℚ) < 2 ^ ((n.log2 : Int) + 1) := by
  constructor
  · rw [zpow_natCast]
    exact_mod_cast Nat.log2_self_le hn.ne'
  · have hlt : n < 2 ^ (n.log2 + 1) := Nat.lt_log2_self
    have hcast : ((n.log2 : Int) + 1) = ((n.log2 + 1 : Nat) : Int) := by push_cast; rfl
    rw [hcast, zpow_natCast]
    exact_mod_cast hlt

/-- A fraction of positive numbers lies around the power of two of its bits. -/
theorem div_bounds {num den : Nat} (hnum : 0 < num) (hden : 0 < den) :
    (2 : ℚ) ^ ((num.log2 : Int) - den.log2 - 1) ≤ (num : ℚ) / den ∧
      (num : ℚ) / den < 2 ^ ((num.log2 : Int) - den.log2 + 1) := by
  obtain ⟨hnum', hnum''⟩ := log2_bounds hnum
  obtain ⟨hden', hden''⟩ := log2_bounds hden
  have hpos : (0 : ℚ) < den := Nat.cast_pos.2 hden
  constructor
  · rw [le_div_iff₀ hpos]
    calc (2 : ℚ) ^ ((num.log2 : Int) - den.log2 - 1) * den
        ≤ 2 ^ ((num.log2 : Int) - den.log2 - 1) * 2 ^ ((den.log2 : Int) + 1) :=
          mul_le_mul_of_nonneg_left hden''.le (by positivity)
      _ = 2 ^ (num.log2 : Int) := by
          rw [← zpow_add₀ (by norm_num)]
          congr 1
          ring
      _ ≤ num := hnum'
  · rw [div_lt_iff₀ hpos]
    calc (num : ℚ) < 2 ^ ((num.log2 : Int) + 1) := hnum''
      _ = 2 ^ ((num.log2 : Int) - den.log2 + 1) * 2 ^ (den.log2 : Int) := by
          rw [← zpow_add₀ (by norm_num)]
          congr 1
          ring
      _ ≤ 2 ^ ((num.log2 : Int) - den.log2 + 1) * den :=
          mul_le_mul_of_nonneg_left hden' (by positivity)

/-- Is the fraction at least a power of ten? -/
def reaches (num den : Nat) (p : Int) : Bool :=
  if 0 ≤ p then den * Nat.pow 10 p.toNat ≤ num else den ≤ num * Nat.pow 10 (-p).toNat

theorem reaches_iff {num den : Nat} (hden : 0 < den) (p : Int) :
    reaches num den p = true ↔ (10 : ℚ) ^ p ≤ (num : ℚ) / den := by
  have hpos : (0 : ℚ) < den := Nat.cast_pos.2 hden
  rw [reaches, le_div_iff₀ hpos]
  split
  · next hp =>
      rw [decide_eq_true_iff, ten_zpow_of_nonneg hp, mul_comm]
      exact_mod_cast Iff.rfl
  · next hp =>
      have hpos : (0 : ℚ) < (Nat.pow 10 (-p).toNat : Nat) := Nat.cast_pos.2 (ten_pow_pos _)
      rw [decide_eq_true_iff, ten_zpow_of_neg hp, inv_mul_le_iff₀ hpos, mul_comm]
      exact_mod_cast Iff.rfl

/-- The guess of a power of ten from the bits of a fraction. -/
def guess (num den : Nat) : Int := ((num.log2 : Int) - den.log2) * 30103 / 100000

theorem decimalPoint_eq (num den : Nat) : decimalPoint num den =
    if reaches num den (guess num den + 1) then guess num den + 2
    else if reaches num den (guess num den) then guess num den + 1
    else if reaches num den (guess num den - 1) then guess num den
    else guess num den - 1 := rfl

/-- The point stands at the power of ten just above the fraction. -/
theorem decimalPoint_spec {num den : Nat} (hnum : 0 < num) (hden : 0 < den)
    (hbits : |(num.log2 : Int) - den.log2| ≤ 1100) :
    (10 : ℚ) ^ (decimalPoint num den - 1) ≤ (num : ℚ) / den ∧
      (num : ℚ) / den < 10 ^ decimalPoint num den := by
  obtain ⟨hlow, hhigh⟩ := div_bounds hnum hden
  rw [abs_le] at hbits
  have hguess : guess num den = ((num.log2 : Int) - den.log2) * 30103 / 100000 := rfl
  have hnot : ∀ p : Int, ¬ reaches num den p = true → (num : ℚ) / den < 10 ^ p :=
    fun p hp => lt_of_not_ge fun hle => hp ((reaches_iff hden p).2 hle)
  rw [decimalPoint_eq]
  split_ifs with hfirst hsecond hthird
  · refine ⟨?_, hhigh.trans_le (two_zpow_le_ten_zpow (by omega) (by omega))⟩
    rw [show guess num den + 2 - 1 = guess num den + 1 by ring]
    exact (reaches_iff hden _).1 hfirst
  · refine ⟨?_, hnot _ hfirst⟩
    rw [add_sub_cancel_right]
    exact (reaches_iff hden _).1 hsecond
  · exact ⟨(reaches_iff hden _).1 hthird, hnot _ hsecond⟩
  · exact ⟨le_trans (ten_zpow_le_two_zpow (by omega) (by omega)) hlow, hnot _ hthird⟩

/-! ### Digits in the interval -/

/-- The number of binary digits of a fraction that is the value of a number. -/
theorem bits_interval (hfits : Fits m e) (hm : 0 < m) :
    |((interval m e).value.log2 : Int) - (interval m e).den.log2| ≤ 1100 := by
  have hleast := hfits.least
  have hgreatest := hfits.greatest
  have hbits := hfits.bits
  unfold leastExponent at hleast
  unfold greatestExponent at hgreatest
  rw [abs_le]
  unfold interval
  by_cases he : 2 ≤ e
  · have hden : Nat.log2 1 = 0 := by decide
    have hvalue : (4 * m * 2 ^ (e - 2).toNat).log2 < 55 + (e - 2).toNat := by
      rw [Nat.log2_lt (by positivity), pow_add]
      exact Nat.mul_lt_mul_of_pos_right (by omega) (by positivity)
    simp only [if_pos he, Nat.pow_eq, hden]
    omega
  · have hvalue : (4 * m).log2 < 55 := (Nat.log2_lt (by omega)).2 (by omega)
    have hden : (2 ^ (2 - e).toNat).log2 = (2 - e).toNat := Nat.log2_two_pow
    simp only [if_neg he, Nat.pow_eq, hden, mul_one]
    omega

/-- The power of ten above a number. -/
def pointOf (m : Nat) (e : Int) : Int := decimalPoint (interval m e).value (interval m e).den

theorem pointOf_spec (hfits : Fits m e) (hm : 0 < m) :
    (10 : ℚ) ^ (pointOf m e - 1) ≤ magnitude m e ∧ magnitude m e < 10 ^ pointOf m e := by
  have hvalue := (div_interval_den m e).2.1
  rw [← hvalue]
  refine decimalPoint_spec ?_ (interval_den_pos m e) (bits_interval hfits hm)
  have hpos : 0 < magnitude m e := by
    unfold magnitude
    positivity
  rw [← hvalue] at hpos
  exact Nat.pos_of_ne_zero fun hzero => by simp [hzero] at hpos

/-- The fraction of which the digits are the whole part: the value over the last place. -/
def overPlace (i : Interval) (place : Int) : Nat × Nat :=
  if 0 ≤ place then (i.value, i.den * Nat.pow 10 place.toNat)
  else (i.value * Nat.pow 10 (-place).toNat, i.den)

/-- Does the number with these digits lie in the interval? -/
def hasAt (i : Interval) (place : Int) (d : Nat) : Bool :=
  if 0 ≤ place then i.has (d * Nat.pow 10 place.toNat) 1 else i.has d (Nat.pow 10 (-place).toNat)

/-- The whole part of the value over the last place. -/
def floorAt (i : Interval) (place : Int) : Nat := (overPlace i place).1 / (overPlace i place).2

theorem withDigits_eq (i : Interval) {point place : Int} {count : Nat}
    (hplace : point - count = place) : i.withDigits point count =
    if hasAt i place (floorAt i place) && hasAt i place (floorAt i place + 1) then
      some (nearestEven (overPlace i place).1 (overPlace i place).2)
    else if hasAt i place (floorAt i place) then some (floorAt i place)
    else if hasAt i place (floorAt i place + 1) then some (floorAt i place + 1)
    else none := by
  subst hplace
  rfl

theorem hasAt_iff {i : Interval} (hi : 0 < i.den) (place : Int) (d : Nat) :
    hasAt i place d = true ↔ i.Holds (d * 10 ^ place) := by
  unfold hasAt
  split
  · next hplace =>
      rw [Interval.has_iff hi Nat.one_pos, ten_zpow_of_nonneg hplace, Nat.cast_mul, Nat.cast_one,
        div_one]
  · next hplace =>
      rw [Interval.has_iff hi (ten_pow_pos _), ten_zpow_of_neg hplace, div_eq_mul_inv]

/-- The digits are the nearest ones below or above the value. -/
theorem floorAt_spec {i : Interval} (hi : 0 < i.den) (place : Int) :
    floorAt i place * (10 : ℚ) ^ place ≤ (i.value : ℚ) / i.den ∧
      (i.value : ℚ) / i.den < (floorAt i place + 1 : Nat) * (10 : ℚ) ^ place := by
  have hplace : (0 : ℚ) < 10 ^ place := by positivity
  have hden : 0 < (overPlace i place).2 := by
    unfold overPlace
    split
    · exact Nat.mul_pos hi (ten_pow_pos _)
    · exact hi
  have hover : ((overPlace i place).1 : ℚ) / (overPlace i place).2 =
      (i.value : ℚ) / i.den / 10 ^ place := by
    unfold overPlace
    split
    · next h => rw [ten_zpow_of_nonneg h, div_div, Nat.cast_mul]
    · next h =>
        rw [ten_zpow_of_neg h, div_inv_eq_mul, Nat.cast_mul]
        ring
  rw [← le_div_iff₀ hplace, ← div_lt_iff₀ hplace, ← hover, floorAt]
  have hdenq : (0 : ℚ) < (overPlace i place).2 := Nat.cast_pos.2 hden
  constructor
  · rw [le_div_iff₀ hdenq]
    exact_mod_cast Nat.div_mul_le_self _ _
  · rw [div_lt_iff₀ hdenq]
    exact_mod_cast (Nat.div_lt_iff_lt_mul hden).1 (Nat.lt_succ_self _)

/-- Digits that are found lie in the interval, and there are no more of them than asked for. -/
theorem withDigits_spec {i : Interval} (hi : 0 < i.den) {point : Int} {count digits : Nat}
    (hpoint : (i.value : ℚ) / i.den < 10 ^ point) (h : i.withDigits point count = some digits) :
    i.Holds (digits * 10 ^ (point - count)) ∧ digits ≤ 10 ^ count := by
  obtain ⟨place, hplace⟩ : ∃ place, point - count = place := ⟨_, rfl⟩
  have hfloor : floorAt i place < 10 ^ count := by
    have hbelow := (floorAt_spec hi place).1.trans_lt hpoint
    rw [← lt_div_iff₀ (by positivity), ← zpow_sub₀ (by norm_num), ← hplace, sub_sub_cancel,
      zpow_natCast] at hbelow
    rw [← hplace]
    exact_mod_cast hbelow
  have hnear : nearestEven (overPlace i place).1 (overPlace i place).2 = floorAt i place ∨
      nearestEven (overPlace i place).1 (overPlace i place).2 = floorAt i place + 1 := by
    unfold nearestEven floorAt
    dsimp only
    split_ifs <;> omega
  rw [withDigits_eq i hplace] at h
  rw [hplace]
  have hdown (hhas : hasAt i place (floorAt i place) = true) :
      i.Holds (floorAt i place * 10 ^ place) ∧ floorAt i place ≤ 10 ^ count :=
    ⟨(hasAt_iff hi _ _).1 hhas, hfloor.le⟩
  have hup (hhas : hasAt i place (floorAt i place + 1) = true) :
      i.Holds ((floorAt i place + 1 : Nat) * 10 ^ place) ∧ floorAt i place + 1 ≤ 10 ^ count :=
    ⟨(hasAt_iff hi _ _).1 hhas, hfloor⟩
  split_ifs at h with hboth hfirst hsecond
  · rw [Bool.and_eq_true] at hboth
    rw [← Option.some.inj h]
    rcases hnear with hsame | hsame
    · rw [hsame]
      exact hdown hboth.1
    · rw [hsame]
      exact hup hboth.2
  · rw [← Option.some.inj h]
    exact hdown hfirst
  · rw [← Option.some.inj h]
    exact hup hsecond

/-- One of the two neighbours with seventeen digits is nearer to the number than the next number
is. -/
theorem exists_withDigits (hfits : Fits m e) (hm : 0 < m) :
    ∃ digits, (interval m e).withDigits (pointOf m e) 17 = some digits := by
  obtain ⟨place, hplace⟩ : ∃ place, pointOf m e - (17 : Nat) = place := ⟨_, rfl⟩
  obtain ⟨hlow, hvalue, hhigh⟩ := div_interval_den m e
  obtain ⟨hfloor, hceil⟩ := floorAt_spec (interval_den_pos m e) place
  rw [hvalue, magnitude_eq] at hfloor hceil
  have hquarter := quarter_pos e
  have hlow' : ((interval m e).low : ℚ) / (interval m e).den = (4 * m - below m e) * quarter e := by
    have hbelow := below_le m e
    rw [hlow, Nat.cast_sub (by omega)]
    push_cast
    rfl
  -- The last place is less than the length of the interval.
  have hshort : (10 : ℚ) ^ place < (below m e + 2) * quarter e := by
    have hpoint : (10 : ℚ) ^ 16 * 10 ^ place ≤ 4 * m * quarter e := by
      have hpoint := (pointOf_spec hfits hm).1
      rw [magnitude_eq] at hpoint
      refine le_trans (le_of_eq ?_) hpoint
      rw [← hplace, ← zpow_natCast, ← zpow_add₀ (by norm_num)]
      congr 1
      push_cast
      ring
    have hm' : (m : ℚ) < 2 ^ 53 := by exact_mod_cast hfits.bits
    unfold below
    split
    · next h =>
        have heq : (m : ℚ) = 2 ^ 52 := by exact_mod_cast h.1
        rw [heq] at hpoint
        push_cast
        linarith
    · push_cast
      nlinarith
  have hone : hasAt (interval m e) place (floorAt (interval m e) place) = true ∨
      hasAt (interval m e) place (floorAt (interval m e) place + 1) = true := by
    rw [hasAt_iff (interval_den_pos m e), hasAt_iff (interval_den_pos m e)]
    push_cast at hceil ⊢
    by_cases hnear : (4 * m - below m e) * quarter e <
        floorAt (interval m e) place * (10 : ℚ) ^ place
    · refine .inl (.of_lt (hlow' ▸ hnear) ?_)
      rw [hhigh]
      linarith
    · refine .inr (.of_lt ?_ ?_)
      · have hbelow : (0 : ℚ) ≤ below m e * quarter e := by positivity
        rw [hlow']
        linarith
      · rw [hhigh]
        linarith
  rw [withDigits_eq _ hplace]
  rcases hone with hfirst | hsecond
  · simp only [hfirst, Bool.true_and, if_true]
    split <;> exact ⟨_, rfl⟩
  · simp only [hsecond, Bool.and_true, if_true]
    split
    · exact ⟨_, rfl⟩
    · exact ⟨_, rfl⟩

/-! ### The digits that are kept -/

/-- The value of decimal digits. -/
def Decimal.value (d : Decimal) : ℚ := d.digits * 10 ^ (d.point - d.count)

/-- Zeros at the end are dropped, and that does not change what the digits stand for. -/
theorem dropZeros_spec (digits count : Nat) :
    ∃ zeros, digits = (dropZeros digits count).1 * 10 ^ zeros ∧
      count = (dropZeros digits count).2 + zeros := by
  induction count generalizing digits with
  | zero => exact ⟨0, (Nat.mul_one _).symm, rfl⟩
  | succ count ih =>
      unfold dropZeros
      split
      · next h =>
          obtain ⟨zeros, hdigits, hcount⟩ := ih (digits / 10)
          refine ⟨zeros + 1, ?_, by omega⟩
          rw [pow_succ, ← Nat.mul_assoc, ← hdigits]
          omega
      · exact ⟨0, (Nat.mul_one _).symm, rfl⟩

/-- The digits of a number, before zeros are dropped. -/
def found? (m : Nat) (e : Int) : Option (Nat × Nat) :=
  (List.range 17).findSome? fun k =>
    ((interval m e).withDigits (pointOf m e) (k + 1)).map fun digits => (digits, k + 1)

/-- A decimal whose digits are as many as it says. -/
def Decimal.Regular (d : Decimal) : Prop := d.digits < 10 ^ d.count

theorem exists_found (hfits : Fits m e) (hm : 0 < m) :
    ∃ digits count, found? m e = some (digits, count) ∧
      (interval m e).Holds (digits * 10 ^ (pointOf m e - count)) ∧ digits ≤ 10 ^ count := by
  obtain ⟨digits, hdigits⟩ := exists_withDigits hfits hm
  have hsome : (found? m e).isSome = true := by
    rw [found?, List.findSome?_isSome_iff]
    exact ⟨16, by decide, by simp [hdigits]⟩
  obtain ⟨⟨digits, count⟩, hfound⟩ := Option.isSome_iff_exists.1 hsome
  obtain ⟨k, -, hk⟩ := List.exists_of_findSome?_eq_some hfound
  obtain ⟨_, hwith, hpair⟩ := Option.map_eq_some_iff.1 hk
  obtain ⟨rfl, rfl⟩ := Prod.mk.inj hpair
  have hpoint := (pointOf_spec hfits hm).2
  rw [← (div_interval_den m e).2.1] at hpoint
  exact ⟨_, _, hfound, withDigits_spec (interval_den_pos m e) hpoint hwith⟩

/-- Zeros at the end may be digits or move the point. -/
theorem mul_ten_pow (digits zeros : Nat) (place : Int) :
    ((digits * 10 ^ zeros : Nat) : ℚ) * 10 ^ place = digits * 10 ^ (place + zeros) := by
  rw [zpow_add₀ (by norm_num), zpow_natCast]
  push_cast
  ring

/-- The shortest digits of a number make a decimal that rounds to the number. -/
theorem shortest_spec (hfits : Fits m e) (hm : 0 < m) :
    (shortest m e).Regular ∧ (interval m e).Holds (shortest m e).value := by
  obtain ⟨digits, count, hfound, hholds, hle⟩ := exists_found hfits hm
  have hshortest : shortest m e = if digits = 10 ^ count then ⟨1, 1, pointOf m e + 1⟩
      else ⟨(dropZeros digits count).1, (dropZeros digits count).2, pointOf m e⟩ := by
    have hfind := hfound
    unfold found? pointOf at hfind
    unfold shortest
    dsimp only
    rw [hfind]
    rfl
  rw [hshortest]
  split
  · next hfull =>
      have hvalue : Decimal.value ⟨1, 1, pointOf m e + 1⟩ =
          digits * 10 ^ (pointOf m e - count) := by
        rw [hfull, ← Nat.one_mul (10 ^ count), mul_ten_pow, sub_add_cancel, Decimal.value]
        dsimp only
        rw [Nat.cast_one, Nat.cast_one, add_sub_cancel_right]
      exact ⟨Nat.one_lt_pow Nat.one_ne_zero (by decide), hvalue ▸ hholds⟩
  · next hnot =>
      obtain ⟨zeros, hdigits, hcount⟩ := dropZeros_spec digits count
      generalize dropZeros digits count = kept at hdigits hcount
      subst hdigits hcount
      have hvalue : Decimal.value ⟨kept.1, kept.2, pointOf m e⟩ =
          ((kept.1 * 10 ^ zeros : Nat) : ℚ) * 10 ^ (pointOf m e - (kept.2 + zeros : Nat)) := by
        rw [mul_ten_pow, Decimal.value]
        congr 2
        push_cast
        ring
      refine ⟨?_, hvalue ▸ hholds⟩
      have hlt := Nat.lt_of_le_of_ne hle hnot
      rw [pow_add] at hlt
      exact lt_of_mul_lt_mul_right hlt (Nat.zero_le _)

end Rulebook.Binary64
