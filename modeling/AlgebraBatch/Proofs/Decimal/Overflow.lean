import AlgebraBatch.Proofs.Decimal.Rounding
import AlgebraBatch.Proofs.Decimal.Unsigned

/-!
# Integers beyond the doubles

The greatest double is `(2 ^ 53 - 1) * 2 ^ 971`. An integer exceeds every double if it lies at least
half a unit beyond it (`isSome_ofInt?`). So a power of two is a double up to the exponent 1023.
-/

namespace AlgebraBatch.Binary64

def isFinite : Binary64 → Bool
  | .finite _ _ _ => true
  | _ => false

/-- In the greatest binade a number is rounded up to its end from half a unit below the end on. -/
theorem nearest_eq_top_iff {n d : Nat} (hd : 0 < d) (hn : n < 2 ^ 53 * (2 * d)) :
    nearest n (2 * d) = 2 ^ 53 ↔ 2 ^ 53 * (2 * d) - d ≤ n := by
  have hsum := Nat.div_add_mod n (2 * d)
  have hr : n % (2 * d) < 2 * d := Nat.mod_lt _ (by omega)
  have hq : n / (2 * d) < 2 ^ 53 := Nat.div_lt_of_lt_mul (by rwa [Nat.mul_comm])
  unfold nearest
  simp only
  generalize n / (2 * d) = q at *
  generalize n % (2 * d) = r at *
  rcases Nat.lt_or_ge q (2 ^ 53 - 1) with hlt | hge
  · have hmul : 2 * d * q ≤ 2 * d * (2 ^ 53 - 2) := Nat.mul_le_mul_left _ (by omega)
    constructor
    · intro h
      split at h <;> omega
    · intro h
      omega
  · obtain rfl : q = 2 ^ 53 - 1 := by omega
    simp only [Bool.or_eq_true, Bool.and_eq_true, decide_eq_true_eq, beq_iff_eq]
    constructor
    · intro h
      split at h <;> omega
    · intro h
      rw [if_pos] <;> omega

theorem isFinite_pack (negative : Bool) (m : Nat) (q : Int) :
    (pack negative m q).isFinite = true ↔ (if m = 2 ^ 53 then q + 1 else q) ≤ maxExponent := by
  unfold pack
  simp only [beq_iff_eq, Nat.pow_eq]
  split <;> split <;> simp_all [isFinite]

/-- The binade of a natural number. -/
theorem binade_one {n : Nat} (hn : 0 < n) :
    ∃ b : Nat, binade n 1 = b ∧ 2 ^ b ≤ n ∧ n < 2 ^ (b + 1) := by
  obtain ⟨hlo, hhi⟩ := binade_spec hn Nat.one_pos
  rw [Nat.cast_one, div_one] at hlo hhi
  have hone : (2 : ℚ) ^ (0 : ℤ) < 2 ^ (binade n 1 + 1) := by
    rw [zpow_zero]
    exact lt_of_le_of_lt (by exact_mod_cast hn) hhi
  have hb : 0 ≤ binade n 1 := by
    have := (zpow_lt_zpow_iff_right₀ one_lt_two).1 hone
    omega
  obtain ⟨b, hb⟩ := Int.eq_ofNat_of_zero_le hb
  rw [hb] at hlo hhi
  refine ⟨b, hb, ?_, ?_⟩
  · exact_mod_cast hlo
  · exact_mod_cast hhi

theorem pow_le_units {j k : Nat} (h : j ≤ k + 970) : 2 ^ j ≤ 2 ^ k * 2 ^ 970 := by
  rw [← pow_add]
  exact Nat.pow_le_pow_right two_pos h

theorem units_le_pow {j k : Nat} (h : k + 970 ≤ j) : 2 ^ k * 2 ^ 970 ≤ 2 ^ j := by
  rw [← pow_add]
  exact Nat.pow_le_pow_right two_pos h

theorem isFinite_ofRatio_one (negative : Bool) (n : Nat) :
    (ofRatio negative n 1).isFinite = true ↔ n < (2 ^ 54 - 1) * 2 ^ 970 := by
  have hunit : 0 < 2 ^ 970 := by positivity
  rcases Nat.eq_zero_or_pos n with rfl | hn
  · exact ⟨fun _ => by omega, fun _ => rfl⟩
  obtain ⟨b, hb, hlo, hhi⟩ := binade_one hn
  have hne : (n == 0) = false := beq_false_of_ne hn.ne'
  have hk : max (binade n 1 - 52) minExponent = b - 52 := by
    rw [hb, minExponent]
    omega
  unfold ofRatio
  simp only [hne, hk, Bool.false_eq_true, if_false, isFinite_pack, maxExponent]
  rcases Nat.lt_trichotomy b (53 + 970) with hlt | hmid | hgt
  · -- below the greatest binade there is room for a carry
    have hbelow : 2 ^ (b + 1) ≤ 2 ^ 53 * 2 ^ 970 := pow_le_units (by omega)
    constructor
    · intro _
      omega
    · intro _
      split <;> omega
  · have hend : n < 2 ^ 53 * (2 * 2 ^ 970) := by
      have : 2 ^ (b + 1) ≤ 2 ^ 54 * 2 ^ 970 := pow_le_units (by omega)
      omega
    have htop := nearest_eq_top_iff hunit hend
    have hq : (b : Int) - 52 = 971 := by omega
    have hnonneg : (0 : Int) ≤ 971 := by decide
    have hden {e k : Nat} (he : e = k + 1) : 1 * Nat.pow 2 e = 2 * 2 ^ k := by
      rw [one_mul, Nat.pow_eq, he, pow_succ']
    have hexp : (971 : Int).toNat = 970 + 1 := rfl
    rw [hq, if_pos hnonneg, hden hexp]
    constructor
    · intro h
      by_contra hge
      rw [if_pos (htop.2 (by omega))] at h
      omega
    · intro h
      have hne : nearest n (2 * 2 ^ 970) ≠ 2 ^ 53 := fun he => by
        have := htop.1 he
        omega
      rw [if_neg hne]
  · have habove : 2 ^ 54 * 2 ^ 970 ≤ 2 ^ b := units_le_pow (by omega)
    constructor
    · intro h
      split at h <;> omega
    · intro h
      omega

/-- An integer is a double unless it lies at least half a unit beyond the greatest one. -/
theorem isSome_ofInt? (n : Int) :
    (ofInt? n).isSome = true ↔ n.natAbs < (2 ^ 54 - 1) * 2 ^ 970 := by
  rw [← isFinite_ofRatio_one (n < 0)]
  unfold ofInt?
  cases h : ofRatio (n < 0) n.natAbs 1 with
  | nan => exact absurd h (ofRatio_ne_nan _ _ _)
  | infinite negative => simp [isFinite]
  | finite negative m q => simp [isFinite]

theorem isSome_ofInt?_pow (k : Nat) : (ofInt? (Nat.pow 2 k)).isSome = true ↔ k < 1024 := by
  have hunit : 0 < 2 ^ 970 := by positivity
  rw [isSome_ofInt?, Int.natAbs_natCast, Nat.pow_eq]
  constructor
  · intro h
    by_contra hk
    have : 2 ^ 54 * 2 ^ 970 ≤ 2 ^ k := units_le_pow (by omega)
    omega
  · intro h
    have : 2 ^ k ≤ 2 ^ 53 * 2 ^ 970 := pow_le_units (by omega)
    omega

end AlgebraBatch.Binary64
