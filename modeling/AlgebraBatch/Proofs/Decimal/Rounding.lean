import AlgebraBatch.Decimal.Binary64
import Mathlib.Algebra.Order.Field.Power
import Mathlib.Data.Rat.Cast.Order
import Mathlib.Tactic.FieldSimp
import Mathlib.Tactic.Linarith
import Mathlib.Tactic.NormNum
import Mathlib.Tactic.Positivity
import Mathlib.Tactic.Ring

/-!
# Rounding to doubles

`Rounds m q x`: the double `m * 2 ^ q` is the nearest one to the rational number `x`. A quotient
that rounds to a double is read as that double (`ofRatio_eq`), and so is every decimal of that value,
whatever its digits and its exponent are (`ofDecimal_eq`).
-/

namespace AlgebraBatch.Binary64

/-! ## The nearest natural number -/

/-- The natural number nearest to `y`, the even one of two. -/
structure IsNearest (m : Nat) (y : ℚ) : Prop where
  lower : (m : ℚ) - 1 / 2 ≤ y
  upper : y ≤ m + 1 / 2
  inside : m % 2 = 1 → (m : ℚ) - 1 / 2 < y ∧ y < m + 1 / 2

variable {num den m : Nat} {e k q : Int} {x y : ℚ}

theorem nearest_eq (hden : 0 < den) (h : IsNearest m (num / den)) : nearest num den = m := by
  have hd : (0 : ℚ) < den := by exact_mod_cast hden
  have hr : num % den < den := Nat.mod_lt _ hden
  have hsum : ((num / den : Nat) : ℚ) + (num % den : Nat) / den = num / den := by
    rw [eq_div_iff hd.ne', add_mul, div_mul_cancel₀ _ hd.ne']
    exact_mod_cast Nat.div_add_mod' num den
  obtain ⟨hlo, hhi, hodd⟩ := h
  rw [← hsum] at hlo hhi hodd
  unfold nearest
  simp only
  generalize num / den = n at *
  generalize num % den = r at *
  have hf₀ : (0 : ℚ) ≤ r / den := by positivity
  have hf₁ : (r : ℚ) / den < 1 := by
    rw [div_lt_one hd]
    exact_mod_cast hr
  have hle : n ≤ m := by
    have : (n : ℚ) < m + 1 := by linarith
    exact Nat.lt_succ_iff.1 (by exact_mod_cast this)
  have hle' : m ≤ n + 1 := by
    have : (m : ℚ) < n + 1 + 1 := by linarith
    exact Nat.lt_succ_iff.1 (by exact_mod_cast this)
  obtain rfl | rfl : m = n ∨ m = n + 1 := by omega
  · have hhalf : 2 * r ≤ den := by
      have : (r : ℚ) / den ≤ 1 / 2 := by linarith
      rw [div_le_iff₀ hd] at this
      exact_mod_cast (by linarith : (2 * r : ℚ) ≤ den)
    have hlt : m % 2 = 1 → 2 * r < den := by
      intro h
      have : (r : ℚ) / den < 1 / 2 := by linarith [(hodd h).2]
      rw [div_lt_iff₀ hd] at this
      exact_mod_cast (by linarith : (2 * r : ℚ) < den)
    simp only [Bool.or_eq_true, Bool.and_eq_true, decide_eq_true_eq, beq_iff_eq]
    rw [if_neg]
    omega
  · push_cast at hlo hhi hodd
    have hhalf : den ≤ 2 * r := by
      have : (1 : ℚ) / 2 ≤ r / den := by linarith
      rw [le_div_iff₀ hd] at this
      exact_mod_cast (by linarith : (den : ℚ) ≤ 2 * r)
    have hlt : (n + 1) % 2 = 1 → den < 2 * r := by
      intro h
      have : (1 : ℚ) / 2 < r / den := by linarith [(hodd h).1]
      rw [lt_div_iff₀ hd] at this
      exact_mod_cast (by linarith : (den : ℚ) < 2 * r)
    simp only [Bool.or_eq_true, Bool.and_eq_true, decide_eq_true_eq, beq_iff_eq]
    rw [if_pos]
    omega

/-! ## Powers -/

theorem cast_pow_toNat (b : Nat) (hq : 0 ≤ q) : ((Nat.pow b q.toNat : Nat) : ℚ) = (b : ℚ) ^ q := by
  lift q to ℕ using hq
  rw [Int.toNat_natCast, zpow_natCast, Nat.pow_eq, Nat.cast_pow]

theorem cast_pow_neg_toNat (b : Nat) (hq : ¬ 0 ≤ q) :
    ((Nat.pow b (-q).toNat : Nat) : ℚ) = ((b : ℚ) ^ q)⁻¹ := by
  rw [cast_pow_toNat b (by omega : 0 ≤ -q), zpow_neg]

/-- A power of two divides the denominator or multiplies the numerator. -/
theorem nearest_scaled (hden : 0 < den) (h : IsNearest m (num / den / (2 : ℚ) ^ q)) :
    (if 0 ≤ q then nearest num (den * Nat.pow 2 q.toNat)
      else nearest (num * Nat.pow 2 (-q).toNat) den) = m := by
  split
  · next hq =>
    refine nearest_eq (Nat.mul_pos hden (Nat.pow_pos (by decide))) ?_
    rwa [Nat.cast_mul, cast_pow_toNat 2 hq, Nat.cast_two, ← div_div]
  · next hq =>
    refine nearest_eq hden ?_
    rwa [Nat.cast_mul, cast_pow_neg_toNat 2 hq, Nat.cast_two, ← div_eq_mul_inv, div_right_comm]

/-! ## The binade -/

/-- A comparison with a power, without fractions. -/
theorem pow_le_div_iff {b : Nat} (hb : 0 < b) (hden : 0 < den) :
    (if 0 ≤ e then decide (den * Nat.pow b e.toNat ≤ num)
      else decide (den ≤ num * Nat.pow b (-e).toNat)) = true ↔ (b : ℚ) ^ e ≤ num / den := by
  have hb : (0 : ℚ) < b := by exact_mod_cast hb
  have hd : (0 : ℚ) < den := by exact_mod_cast hden
  have hpow : (0 : ℚ) < (b : ℚ) ^ e := by positivity
  rw [le_div_iff₀ hd]
  split
  · next he =>
    rw [decide_eq_true_eq, ← Nat.cast_le (α := ℚ), Nat.cast_mul, cast_pow_toNat b he, mul_comm]
  · next he =>
    rw [decide_eq_true_eq, ← Nat.cast_le (α := ℚ), Nat.cast_mul, cast_pow_neg_toNat b he,
      ← div_eq_mul_inv, le_div_iff₀ hpow, mul_comm]

theorem reaches_iff (hden : 0 < den) : reaches num den e = true ↔ (2 : ℚ) ^ e ≤ num / den := by
  rw [← Nat.cast_two, ← pow_le_div_iff two_pos hden, reaches]

/-- The numbers of bits tell the quotient up to a factor of two. -/
theorem log2_spec (hnum : 0 < num) (hden : 0 < den) :
    (2 : ℚ) ^ ((num.log2 : ℤ) - den.log2 - 1) ≤ num / den ∧
      (num / den : ℚ) < 2 ^ ((num.log2 : ℤ) - den.log2 + 1) := by
  have hd : (0 : ℚ) < den := by exact_mod_cast hden
  have hnlo : (2 : ℚ) ^ num.log2 ≤ num := by exact_mod_cast Nat.log2_self_le hnum.ne'
  have hnhi : (num : ℚ) < 2 ^ (num.log2 + 1) := by exact_mod_cast Nat.lt_log2_self
  have hdlo : (2 : ℚ) ^ den.log2 ≤ den := by exact_mod_cast Nat.log2_self_le hden.ne'
  have hdhi : (den : ℚ) < 2 ^ (den.log2 + 1) := by exact_mod_cast Nat.lt_log2_self
  constructor
  · rw [le_div_iff₀ hd]
    calc (2 : ℚ) ^ ((num.log2 : ℤ) - den.log2 - 1) * den
        ≤ 2 ^ ((num.log2 : ℤ) - den.log2 - 1) * 2 ^ (den.log2 + 1) := by gcongr
      _ = 2 ^ num.log2 := by
        rw [← zpow_natCast, ← zpow_natCast, ← zpow_add₀ two_ne_zero]
        congr 1
        push_cast
        ring
      _ ≤ num := hnlo
  · rw [div_lt_iff₀ hd]
    calc (num : ℚ) < 2 ^ (num.log2 + 1) := hnhi
      _ = 2 ^ ((num.log2 : ℤ) - den.log2 + 1) * 2 ^ den.log2 := by
        rw [← zpow_natCast, ← zpow_natCast, ← zpow_add₀ two_ne_zero]
        congr 1
        push_cast
        ring
      _ ≤ 2 ^ ((num.log2 : ℤ) - den.log2 + 1) * den := by gcongr

theorem binade_spec (hnum : 0 < num) (hden : 0 < den) :
    (2 : ℚ) ^ binade num den ≤ num / den ∧ (num / den : ℚ) < 2 ^ (binade num den + 1) := by
  obtain ⟨hlo, hhi⟩ := log2_spec hnum hden
  unfold binade
  simp only
  split
  · next h => exact ⟨(reaches_iff hden).1 h, hhi⟩
  · next h =>
    rw [reaches_iff hden, not_le] at h
    exact ⟨hlo, by rwa [sub_add_cancel]⟩

/-! ## Quotients -/

/-- The mantissa and the exponent of a positive double, as rounding makes them. -/
structure IsCanonical (m : Nat) (q : Int) : Prop where
  pos : 0 < m
  lt : m < 2 ^ 53
  minExponent_le : minExponent ≤ q
  le_maxExponent : q ≤ maxExponent
  full : 2 ^ 52 ≤ m ∨ q = minExponent

/-- The doubles that rounding makes. Zero has the least exponent. -/
def IsDouble : Binary64 → Prop
  | .finite _ m q => m = 0 ∧ q = minExponent ∨ IsCanonical m q
  | _ => True

/-- By how much a number may lie below the mantissa. Below a power of two the doubles lie closer
together. -/
def slack (m : Nat) (q : Int) : ℚ := if m = 2 ^ 52 ∧ minExponent < q then 1 / 4 else 1 / 2

/-- The double `m * 2 ^ q` is the nearest one to `x`, a tie going to the even mantissa. -/
structure Rounds (m : Nat) (q : Int) (x : ℚ) : Prop where
  lower : (m - slack m q) * 2 ^ q ≤ x
  upper : x ≤ (m + 1 / 2) * 2 ^ q
  inside : m % 2 = 1 → (m - slack m q) * 2 ^ q < x ∧ x < (m + 1 / 2) * 2 ^ q

theorem slack_le (m : Nat) (q : Int) : slack m q ≤ 1 / 2 := by
  unfold slack
  split <;> norm_num

theorem Rounds.pos (hc : IsCanonical m q) (h : Rounds m q x) : 2 ^ (-1075 : ℤ) ≤ x := by
  have hm : (1 : ℚ) ≤ m := by exact_mod_cast hc.pos
  have hs : (1 : ℚ) / 2 ≤ m - slack m q := by linarith [slack_le m q]
  have hq : (2 : ℚ) ^ minExponent ≤ 2 ^ q := zpow_le_zpow_right₀ one_le_two hc.minExponent_le
  have hleast : (-1075 : ℤ) = minExponent - 1 := rfl
  calc (2 : ℚ) ^ (-1075 : ℤ) = 1 / 2 * 2 ^ minExponent := by
        rw [hleast, zpow_sub_one₀ two_ne_zero, mul_comm, one_div]
    _ ≤ (m - slack m q) * 2 ^ q := mul_le_mul hs hq (by positivity) (by linarith)
    _ ≤ x := h.lower

theorem Rounds.lt (hc : IsCanonical m q) (h : Rounds m q x) : x < 2 ^ (q + 53) := by
  have hm : (m : ℚ) + 1 ≤ 2 ^ 53 := by exact_mod_cast hc.lt
  have hpow : (0 : ℚ) < 2 ^ q := by positivity
  calc x ≤ (m + 1 / 2) * 2 ^ q := h.upper
    _ < 2 ^ 53 * 2 ^ q := by
        gcongr
        linarith
    _ = 2 ^ (q + 53) := by
        rw [zpow_add₀ two_ne_zero, mul_comm]
        rfl

theorem Rounds.isNearest (h : Rounds m q x) : IsNearest m (x / 2 ^ q) := by
  have hpow : (0 : ℚ) < 2 ^ q := by positivity
  have hs := slack_le m q
  have hlo : (m : ℚ) - slack m q ≤ x / 2 ^ q := (le_div_iff₀ hpow).2 h.lower
  refine ⟨by linarith, (div_le_iff₀ hpow).2 h.upper, fun hm => ?_⟩
  obtain ⟨hlo, hhi⟩ := h.inside hm
  have hlo : (m : ℚ) - slack m q < x / 2 ^ q := (lt_div_iff₀ hpow).2 hlo
  exact ⟨by linarith, (div_lt_iff₀ hpow).2 hhi⟩

/-- Just below a power of two the number is rounded at the exponent of the smaller binade. -/
theorem Rounds.isNearest_carry (h : Rounds m q x) (hs : m = 2 ^ 52 ∧ minExponent < q)
    (hx : x < 2 ^ (q + 52)) : IsNearest (2 ^ 53) (x / 2 ^ (q - 1)) := by
  have hpow : (0 : ℚ) < 2 ^ (q - 1) := by positivity
  have hdouble : (2 : ℚ) ^ q = 2 * 2 ^ (q - 1) := by
    rw [zpow_sub_one₀ two_ne_zero]
    ring
  have hlo := h.lower
  rw [slack, if_pos hs, hs.1, hdouble] at hlo
  rw [zpow_add₀ two_ne_zero, hdouble] at hx
  push_cast at hlo
  refine ⟨(le_div_iff₀ hpow).2 ?_, (div_le_iff₀ hpow).2 ?_, nofun⟩
  · push_cast
    linarith
  · push_cast
    linarith

theorem pack_eq (negative : Bool) (hc : IsCanonical m q) : pack negative m q = .finite negative m q := by
  have hm : (m == Nat.pow 2 53) = false := beq_false_of_ne hc.lt.ne
  unfold pack
  rw [hm]
  exact if_neg (not_lt.2 hc.le_maxExponent)

theorem pack_carry (negative : Bool) (hq : q ≤ maxExponent) :
    pack negative (2 ^ 53) (q - 1) = .finite negative (2 ^ 52) q := by
  have hm : (2 ^ 53 == Nat.pow 2 53) = true := rfl
  unfold pack
  rw [hm]
  simp only [if_true, sub_add_cancel]
  exact if_neg (not_lt.2 hq)

/-- A quotient is rounded at the exponent of its binade. -/
theorem ofRatio_of_nearest (negative : Bool) (hnum : 0 < num) (hden : 0 < den)
    (hk : max (binade num den - 52) minExponent = k) (h : IsNearest m (num / den / 2 ^ k)) :
    ofRatio negative num den = pack negative m k := by
  have hne : (num == 0) = false := beq_false_of_ne hnum.ne'
  unfold ofRatio
  rw [hne, hk]
  simp only [nearest_scaled hden h]
  rfl

theorem ofRatio_eq (negative : Bool) (hc : IsCanonical m q) (hden : 0 < den)
    (h : Rounds m q (num / den)) : ofRatio negative num den = .finite negative m q := by
  have hpow : (0 : ℚ) < 2 ^ q := by positivity
  have hd : (0 : ℚ) < den := by exact_mod_cast hden
  have hx : (0 : ℚ) < num / den := lt_of_lt_of_le (by positivity) (h.pos hc)
  have hnum : 0 < num := by
    have : (0 : ℚ) < num := (div_pos_iff_of_pos_right hd).1 hx
    exact_mod_cast this
  obtain ⟨hblo, hbhi⟩ := binade_spec hnum hden
  have hb : binade num den < q + 53 :=
    (zpow_lt_zpow_iff_right₀ one_lt_two).1 (hblo.trans_lt (h.lt hc))
  have hmin := hc.minExponent_le
  by_cases hfull : (2 : ℚ) ^ (q + 52) ≤ num / den
  · -- the quotient is in the binade of the double
    have hb' : q + 52 < binade num den + 1 :=
      (zpow_lt_zpow_iff_right₀ one_lt_two).1 (hfull.trans_lt hbhi)
    have hk : max (binade num den - 52) minExponent = q := by omega
    rw [ofRatio_of_nearest negative hnum hden hk h.isNearest, pack_eq negative hc]
  · rw [not_le] at hfull
    have hb' : binade num den < q + 52 :=
      (zpow_lt_zpow_iff_right₀ one_lt_two).1 (hblo.trans_lt hfull)
    by_cases hs : m = 2 ^ 52 ∧ minExponent < q
    · -- the double is a power of two, and the quotient is in the binade below it
      have hnear := h.isNearest_carry hs hfull
      have hlo : (2 : ℚ) ^ (q + 51) ≤ num / den := by
        have hpow' : (0 : ℚ) < 2 ^ (q - 1) := by positivity
        have hlo := (le_div_iff₀ hpow').1 hnear.lower
        push_cast at hlo
        calc (2 : ℚ) ^ (q + 51) = 2 ^ 52 * 2 ^ (q - 1) := by
              rw [show q + 51 = q - 1 + 52 by ring, zpow_add₀ two_ne_zero, mul_comm]
              rfl
          _ ≤ (2 ^ 53 - 1 / 2) * 2 ^ (q - 1) := by gcongr; norm_num
          _ ≤ num / den := hlo
      have hb'' : q + 51 < binade num den + 1 :=
        (zpow_lt_zpow_iff_right₀ one_lt_two).1 (hlo.trans_lt hbhi)
      have hk : max (binade num den - 52) minExponent = q - 1 := by omega
      rw [ofRatio_of_nearest negative hnum hden hk hnear, pack_carry negative hc.le_maxExponent, hs.1]
    · -- the exponent of the double is the least one
      have hq : q = minExponent := by
        by_contra hq
        have hne : m ≠ 2 ^ 52 := fun hm => hs ⟨hm, by omega⟩
        have hlt : (2 : ℚ) ^ (52 : ℤ) + 1 ≤ m := by
          exact_mod_cast Nat.lt_of_le_of_ne (hc.full.resolve_right hq) hne.symm
        rw [zpow_add₀ two_ne_zero, mul_comm, ← div_lt_iff₀ hpow] at hfull
        linarith [h.isNearest.lower]
      have hk : max (binade num den - 52) minExponent = q := by omega
      rw [ofRatio_of_nearest negative hnum hden hk h.isNearest, pack_eq negative hc]

/-! ## Decimals -/

theorem above_doubles {d : Nat} (hd : 0 < d) (hk : 400 < k) :
    (2 : ℚ) ^ (1024 : ℤ) ≤ d * (10 : ℚ) ^ k := by
  have hpow : (2 : ℕ) ^ 1024 ≤ 10 ^ 401 := by decide +kernel
  have hd : (1 : ℚ) ≤ d := by exact_mod_cast hd
  calc (2 : ℚ) ^ (1024 : ℤ) ≤ 10 ^ (401 : ℤ) := by exact_mod_cast hpow
    _ ≤ 10 ^ k := zpow_le_zpow_right₀ (by norm_num) hk
    _ ≤ d * 10 ^ k := le_mul_of_one_le_left (by positivity) hd

theorem below_doubles {d : Nat} (hk : k + d.log2 + 401 < 0) :
    d * (10 : ℚ) ^ k < 2 ^ (-1075 : ℤ) := by
  have hd : (d : ℚ) < 2 ^ (d.log2 + 1) := by exact_mod_cast Nat.lt_log2_self
  have hlog : (2 : ℚ) ^ ((d.log2 + 1 : ℕ) : ℤ) ≤ 2 ^ (-k - 401) :=
    zpow_le_zpow_right₀ one_le_two (by push_cast; omega)
  have hpow : (5 : ℚ) ^ (-402 : ℤ) ≤ 2 ^ (-674 : ℤ) := by
    have hnat : (2 : ℕ) ^ 674 ≤ 5 ^ 402 := by decide +kernel
    have hrat : (2 : ℚ) ^ (674 : ℤ) ≤ 5 ^ (402 : ℤ) := by exact_mod_cast hnat
    rw [zpow_neg, zpow_neg]
    exact inv_anti₀ (by positivity) hrat
  have hfive : (5 : ℚ) ^ k ≤ 5 ^ (-402 : ℤ) := zpow_le_zpow_right₀ (by norm_num) (by omega)
  have hsum : (-1075 : ℤ) = -401 + -674 := rfl
  calc d * (10 : ℚ) ^ k < 2 ^ (-k - 401) * 10 ^ k := by
        gcongr
        exact hd.trans_le hlog
    _ = 2 ^ (-401 : ℤ) * 5 ^ k := by
        rw [show (10 : ℚ) = 2 * 5 by norm_num, mul_zpow, ← mul_assoc, ← zpow_add₀ two_ne_zero]
        congr 2
        ring
    _ ≤ 2 ^ (-401 : ℤ) * 2 ^ (-674 : ℤ) := by
        gcongr
        exact hfive.trans hpow
    _ = 2 ^ (-1075 : ℤ) := by rw [hsum, zpow_add₀ two_ne_zero]

/-- Every decimal of a value that rounds to a double is read as that double. -/
theorem ofDecimal_eq {d : Nat} (negative : Bool) (hc : IsCanonical m q)
    (h : Rounds m q (d * (10 : ℚ) ^ k)) : ofDecimal negative d k = .finite negative m q := by
  have hlo := h.pos hc
  have hhi := h.lt hc
  have hd : 0 < d := by
    rcases Nat.eq_zero_or_pos d with rfl | hd
    · have hpos : (0 : ℚ) < 2 ^ (-1075 : ℤ) := by positivity
      rw [Nat.cast_zero, zero_mul] at hlo
      exact absurd hlo hpos.not_ge
    · exact hd
  have htop : (2 : ℚ) ^ (q + 53) ≤ 2 ^ (1024 : ℤ) := by
    have hq : q + 53 ≤ 1024 := by
      have hmax := hc.le_maxExponent
      rw [maxExponent] at hmax
      omega
    exact zpow_le_zpow_right₀ one_le_two hq
  have hlarge : ¬ 400 < k := fun hk => (above_doubles hd hk).not_gt (hhi.trans_le htop)
  have hsmall : ¬ k + d.log2 + 401 < 0 := fun hk => (below_doubles hk).not_ge hlo
  have hne : (d == 0) = false := beq_false_of_ne hd.ne'
  unfold ofDecimal
  rw [hne, if_neg hlarge, if_neg hsmall]
  simp only [Bool.false_eq_true, if_false]
  split
  · next hk =>
    refine ofRatio_eq negative hc Nat.one_pos ?_
    rwa [Nat.cast_mul, cast_pow_toNat 10 hk, Nat.cast_one, div_one]
  · next hk =>
    refine ofRatio_eq negative hc (Nat.pow_pos (by decide)) ?_
    rwa [cast_pow_neg_toNat 10 hk, div_inv_eq_mul]

end AlgebraBatch.Binary64
