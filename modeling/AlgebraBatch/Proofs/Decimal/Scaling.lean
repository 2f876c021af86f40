import AlgebraBatch.Proofs.Decimal.Shortest
import Mathlib.Data.Rat.Floor

/-!
# Products with powers of two

Rounding depends on the value of a quotient alone (`ofRatio_congr`). So the product of a double with
`2 ^ j`, which is itself a double up to the exponent 1023, is the double nearest to the exact product
(`mul_pow_two`): `scale` moves the exponent and rounds once.
-/

namespace AlgebraBatch.Binary64

variable {num den num' den' m m' : Nat} {k q q' : Int} {y : ℚ}

/-- The double nearest to `x * 2 ^ j`. What is not finite stays what it is. -/
def scale (x : Binary64) (j : Nat) : Binary64 :=
  match x with
  | .finite negative m q => ofScaled negative m (q + j)
  | x => x

/-! ## Rounding depends on the value -/

theorem exists_isNearest (hy : 0 ≤ y) : ∃ m, IsNearest m y := by
  have hlo := Nat.floor_le hy
  have hhi := Nat.lt_floor_add_one y
  rcases lt_trichotomy y (⌊y⌋₊ + 1 / 2) with hlt | heq | hgt
  · exact ⟨⌊y⌋₊, by linarith, hlt.le, fun _ => ⟨by linarith, hlt⟩⟩
  · rcases Nat.mod_two_eq_zero_or_one ⌊y⌋₊ with heven | hodd
    · exact ⟨⌊y⌋₊, by linarith, heq.le, fun h => by omega⟩
    · refine ⟨⌊y⌋₊ + 1, ?_, ?_, fun h => by omega⟩ <;> push_cast <;> linarith
  · refine ⟨⌊y⌋₊ + 1, ?_, ?_, fun _ => ⟨?_, ?_⟩⟩ <;> push_cast <;> linarith

theorem binade_congr (hnum : 0 < num) (hden : 0 < den) (hnum' : 0 < num') (hden' : 0 < den')
    (h : (num : ℚ) / den = num' / den') : binade num den = binade num' den' := by
  obtain ⟨hlo, hhi⟩ := binade_spec hnum hden
  obtain ⟨hlo', hhi'⟩ := binade_spec hnum' hden'
  rw [← h] at hlo' hhi'
  have hlt := (zpow_lt_zpow_iff_right₀ one_lt_two).1 (hlo.trans_lt hhi')
  have hlt' := (zpow_lt_zpow_iff_right₀ one_lt_two).1 (hlo'.trans_lt hhi)
  omega

theorem ofRatio_congr (negative : Bool) (hden : 0 < den) (hden' : 0 < den')
    (h : (num : ℚ) / den = num' / den') : ofRatio negative num den = ofRatio negative num' den' := by
  have hd : (0 : ℚ) < den := by exact_mod_cast hden
  have hd' : (0 : ℚ) < den' := by exact_mod_cast hden'
  have hzero : num = 0 ↔ num' = 0 := by
    have := congrArg (· = 0) h
    simpa [hd.ne', hd'.ne'] using this
  rcases Nat.eq_zero_or_pos num with hnum | hnum
  · rw [hnum, hzero.1 hnum]
    rfl
  · have hnum' : 0 < num' := Nat.pos_of_ne_zero (mt hzero.2 hnum.ne')
    have hk := congrArg (fun b => max (b - 52) minExponent) (binade_congr hnum hden hnum' hden' h)
    have hnonneg : (0 : ℚ) ≤ num / den / 2 ^ max (binade num den - 52) minExponent := by positivity
    obtain ⟨m, hm⟩ := exists_isNearest hnonneg
    rw [ofRatio_of_nearest negative hnum hden rfl hm]
    rw [h] at hm
    exact (ofRatio_of_nearest negative hnum' hden' hk.symm hm).symm

theorem ofScaled_eq_ofRatio (negative : Bool) (hden : 0 < den) (h : (m : ℚ) * 2 ^ q = num / den) :
    ofScaled negative m q = ofRatio negative num den := by
  unfold ofScaled
  split
  · next hq =>
    refine ofRatio_congr negative one_pos hden ?_
    rw [Nat.cast_mul, cast_pow_toNat 2 hq, Nat.cast_one, div_one]
    exact h
  · next hq =>
    refine ofRatio_congr negative (Nat.pow_pos two_pos) hden ?_
    rw [cast_pow_neg_toNat 2 hq, div_inv_eq_mul]
    exact h

theorem ofScaled_congr (negative : Bool) (h : (m : ℚ) * 2 ^ q = m' * 2 ^ q') :
    ofScaled negative m q = ofScaled negative m' q' := by
  obtain ⟨num, den, hden, hvalue⟩ : ∃ num den : Nat, 0 < den ∧ (m' : ℚ) * 2 ^ q' = num / den := by
    rcases le_or_gt 0 q' with hq | hq
    · exact ⟨m' * 2 ^ q'.toNat, 1, one_pos, by
        rw [Nat.cast_mul, ← Nat.pow_eq, cast_pow_toNat 2 hq, Nat.cast_one, div_one, Nat.cast_two]⟩
    · exact ⟨m', 2 ^ (-q').toNat, Nat.pow_pos two_pos, by
        rw [← Nat.pow_eq, cast_pow_neg_toNat 2 (by omega), div_inv_eq_mul, Nat.cast_two]⟩
  rw [ofScaled_eq_ofRatio negative hden (h.trans hvalue), ofScaled_eq_ofRatio negative hden hvalue]

/-! ## Powers of two -/

theorem isCanonical_pow_two {j : Nat} (hj : j < 1024) : IsCanonical (2 ^ 52) (j - 52) where
  pos := by decide
  lt := by decide
  minExponent_le := by unfold minExponent; omega
  le_maxExponent := by unfold maxExponent; omega
  full := .inl le_rfl

theorem ofInt?_pow_two {j : Nat} (hj : j < 1024) :
    ofInt? (Nat.pow 2 j) = some (.finite false (2 ^ 52) (j - 52)) := by
  have hvalue : ((Nat.pow 2 j : Nat) : ℚ) / (1 : Nat) = (2 ^ 52 : Nat) * 2 ^ ((j : Int) - 52) := by
    rw [zpow_sub₀ two_ne_zero, Nat.pow_eq]
    push_cast
    rw [zpow_natCast]
    field_simp
  have hrounds : Rounds (2 ^ 52) (j - 52) ((Nat.pow 2 j : Nat) / (1 : Nat)) := by
    rw [hvalue]
    exact Decimal.rounds_self _ _
  have hsign : decide (((Nat.pow 2 j : Nat) : Int) < 0) = false := by simp
  unfold ofInt?
  rw [hsign, Int.natAbs_natCast, ofRatio_eq false (isCanonical_pow_two hj) one_pos hrounds]

/-- A double times a power of two, up to the greatest one that is a double. -/
theorem mul_pow_two (x : Binary64) {j : Nat} (hj : j < 1024) :
    (ofInt? (Nat.pow 2 j)).map x.mul = some (x.scale j) := by
  rw [ofInt?_pow_two hj, Option.map_some, Option.some_inj]
  cases x with
  | nan => rfl
  | infinite negative => simp [mul, scale]
  | finite negative m q =>
    rw [mul, scale, Bool.bne_false]
    refine ofScaled_congr negative ?_
    have hexp : ((52 : Nat) : Int) + (q + (j - 52)) = q + j := by push_cast; ring
    calc ((m * 2 ^ 52 : Nat) : ℚ) * 2 ^ (q + ((j : Int) - 52))
        = m * (2 ^ ((52 : Nat) : Int) * 2 ^ (q + ((j : Int) - 52))) := by
          rw [zpow_natCast, Nat.cast_mul, mul_assoc, Nat.cast_pow, Nat.cast_two]
      _ = m * 2 ^ (q + (j : Int)) := by rw [← zpow_add₀ two_ne_zero, hexp]

end AlgebraBatch.Binary64
