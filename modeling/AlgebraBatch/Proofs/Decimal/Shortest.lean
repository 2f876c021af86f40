import AlgebraBatch.Decimal.Shortest
import AlgebraBatch.Proofs.Decimal.Rounding

/-!
# The shortest decimal rounds to its double

A decimal that is found on a grid lies in the interval of the double (`rounds_of_holds`), and on the
grid of seventeen digits one is always found, since its lines are less far apart than the ends of
the interval (`exists_onGrid`).
-/

namespace AlgebraBatch.Decimal

open AlgebraBatch.Binary64

/-- The value of a decimal. -/
def Scientific.toRat (s : Scientific) : ℚ := s.digits * 10 ^ s.exponent

variable {m d num den : Nat} {q k e : Int}

/-! ## The interval -/

theorem interval_den_pos (m : Nat) (q : Int) : 0 < (interval m q).den := by
  have hpow : ∀ n, 0 < Nat.pow 2 n := fun n => Nat.pow_pos (by decide)
  change 0 < 4 * _
  split
  · exact Nat.mul_pos (by decide) Nat.one_pos
  · exact Nat.mul_pos (by decide) (hpow _)

/-- The quotients with the denominator of the interval, `a / 4` times the power of two. -/
theorem div_interval_den (a : Nat) (m : Nat) (q : Int) :
    ((a * (if 0 ≤ q then Nat.pow 2 q.toNat else 1) : Nat) : ℚ) / (interval m q).den =
      a / 4 * 2 ^ q := by
  have hpow : (0 : ℚ) < 2 ^ q := by positivity
  change _ / ((4 * (if 0 ≤ q then 1 else Nat.pow 2 (-q).toNat) : Nat) : ℚ) = _
  split
  · next hq =>
    rw [Nat.cast_mul, cast_pow_toNat 2 hq]
    push_cast
    ring
  · next hq =>
    rw [Nat.cast_mul, Nat.cast_mul, cast_pow_neg_toNat 2 hq]
    push_cast
    field_simp

theorem interval_mid (m : Nat) (q : Int) :
    ((interval m q).mid : ℚ) / (interval m q).den = m * 2 ^ q := by
  have h := div_interval_den (4 * m) m q
  have hquarter : ((4 * m : Nat) : ℚ) / 4 = m := by
    push_cast
    ring
  rwa [hquarter] at h

theorem interval_hi (m : Nat) (q : Int) :
    ((interval m q).hi : ℚ) / (interval m q).den = (m + 1 / 2) * 2 ^ q := by
  have h := div_interval_den (4 * m + 2) m q
  have hquarter : ((4 * m + 2 : Nat) : ℚ) / 4 = m + 1 / 2 := by
    push_cast
    ring
  rwa [hquarter] at h

theorem interval_lo (hm : 0 < m) (q : Int) :
    ((interval m q).lo : ℚ) / (interval m q).den = (m - slack m q) * 2 ^ q := by
  have h := div_interval_den (4 * m - (if m == Nat.pow 2 52 && minExponent < q then 1 else 2)) m q
  have hquarter : ((4 * m - (if m == Nat.pow 2 52 && minExponent < q then 1 else 2) : Nat) : ℚ) / 4 =
      m - slack m q := by
    have hiff : (m == Nat.pow 2 52 && decide (minExponent < q)) = true ↔
        m = 2 ^ 52 ∧ minExponent < q := by
      rw [Bool.and_eq_true, beq_iff_eq, decide_eq_true_eq]
      rfl
    simp only [hiff, slack]
    split
    · rw [Nat.cast_sub (by omega)]
      push_cast
      ring
    · rw [Nat.cast_sub (by omega)]
      push_cast
      ring
  rwa [hquarter] at h

/-- What a decimal is compared with, without fractions. -/
theorem holds_iff (i : Interval) (hden : 0 < i.den) : i.holds d k = true ↔
    if i.closed then (i.lo : ℚ) / i.den ≤ d * 10 ^ k ∧ (d : ℚ) * 10 ^ k ≤ i.hi / i.den
    else (i.lo : ℚ) / i.den < d * 10 ^ k ∧ (d : ℚ) * 10 ^ k < i.hi / i.den := by
  have hd : (0 : ℚ) < i.den := by exact_mod_cast hden
  obtain ⟨x, s, hs, hx, hholds⟩ : ∃ x s : Nat, 0 < s ∧ (x : ℚ) = d * 10 ^ k * i.den * s ∧
      i.holds d k = if i.closed then decide (i.lo * s ≤ x) && decide (x ≤ i.hi * s)
        else decide (i.lo * s < x) && decide (x < i.hi * s) := by
    by_cases hk : 0 ≤ k
    · refine ⟨d * Nat.pow 10 k.toNat * i.den, 1, Nat.one_pos, ?_, ?_⟩
      · rw [Nat.cast_mul, Nat.cast_mul, cast_pow_toNat 10 hk]
        push_cast
        ring
      · simp [Interval.holds, hk]
    · refine ⟨d * i.den, Nat.pow 10 (-k).toNat, Nat.pow_pos (by decide), ?_, ?_⟩
      · rw [Nat.cast_mul, cast_pow_neg_toNat 10 hk]
        push_cast
        field_simp
      · simp [Interval.holds, hk]
  have hs : (0 : ℚ) < s := by exact_mod_cast hs
  have hle : ∀ a : Nat, (a * s ≤ x ↔ (a : ℚ) / i.den ≤ d * 10 ^ k) ∧
      (x ≤ a * s ↔ (d : ℚ) * 10 ^ k ≤ a / i.den) := by
    intro a
    rw [← Nat.cast_le (α := ℚ), ← Nat.cast_le (α := ℚ), Nat.cast_mul, hx]
    exact ⟨(mul_le_mul_iff_of_pos_right hs).trans (div_le_iff₀ hd).symm,
      (mul_le_mul_iff_of_pos_right hs).trans (le_div_iff₀ hd).symm⟩
  have hlt : ∀ a : Nat, (a * s < x ↔ (a : ℚ) / i.den < d * 10 ^ k) ∧
      (x < a * s ↔ (d : ℚ) * 10 ^ k < a / i.den) := by
    intro a
    simp only [← not_le, hle, true_and]
  rw [hholds]
  split
  · rw [Bool.and_eq_true, decide_eq_true_eq, decide_eq_true_eq, (hle _).1, (hle _).2]
  · rw [Bool.and_eq_true, decide_eq_true_eq, decide_eq_true_eq, (hlt _).1, (hlt _).2]

theorem rounds_of_holds (hm : 0 < m) (h : (interval m q).holds d k = true) :
    Rounds m q (d * 10 ^ k) := by
  rw [holds_iff _ (interval_den_pos m q), interval_lo hm, interval_hi] at h
  have hclosed : (interval m q).closed = (m % 2 == 0) := rfl
  rw [hclosed] at h
  split at h
  · next heven =>
    refine ⟨h.1, h.2, fun hodd => ?_⟩
    rw [eq_of_beq heven] at hodd
    cases hodd
  · exact ⟨h.1.le, h.2.le, fun _ => h⟩

theorem holds_of_lt (hm : 0 < m) (hlo : (m - slack m q) * 2 ^ q < d * (10 : ℚ) ^ k)
    (hhi : d * (10 : ℚ) ^ k < (m + 1 / 2) * 2 ^ q) : (interval m q).holds d k = true := by
  rw [holds_iff _ (interval_den_pos m q), interval_lo hm, interval_hi]
  split
  · exact ⟨hlo.le, hhi.le⟩
  · exact ⟨hlo, hhi⟩

/-! ## The decade -/

/-- Powers are compared by comparing powers of them. -/
theorem zpow_le_of_pow {a b : ℚ} {e f : Int} {n p : Nat} (ha : 0 < a) (hb : 1 ≤ b) (hn : n ≠ 0)
    (hpow : (a ^ n) ^ f ≤ (b ^ p) ^ f) (hexp : p * f ≤ e * n) : a ^ f ≤ b ^ e := by
  have hb' : 0 < b := one_pos.trans_le hb
  refine (pow_le_pow_iff_left₀ (by positivity) (by positivity) hn).1 ?_
  calc (a ^ f) ^ n = (a ^ n) ^ f := by rw [← zpow_natCast, ← zpow_natCast, zpow_comm]
    _ ≤ (b ^ p) ^ f := hpow
    _ = b ^ (p * f) := by rw [zpow_mul, zpow_natCast]
    _ ≤ b ^ (e * n) := zpow_le_zpow_right₀ hb hexp
    _ = (b ^ e) ^ n := by rw [zpow_mul, zpow_natCast]

/-- The estimate of the number of digits from the number of bits, for as many bits as doubles have.
The bounds `10 ^ 59 ≤ 2 ^ 196` and `2 ^ 93 ≤ 10 ^ 28` are close enough for these. -/
theorem ten_zpow_le {b f : Int} (hf : f * 100000 ≤ b * 30103) (hlo : -1100 ≤ b) (hhi : b ≤ 1100) :
    (10 : ℚ) ^ f ≤ 2 ^ (b + 1) := by
  rcases le_or_gt 0 f with h | h
  · have hpow : (10 : ℚ) ^ 59 ≤ 2 ^ 196 := by norm_num
    refine zpow_le_of_pow (by norm_num) one_le_two (by decide : 59 ≠ 0)
      (zpow_le_zpow_left₀ h (by positivity) hpow) ?_
    push_cast
    omega
  · have hpow : (2 : ℚ) ^ 93 ≤ 10 ^ 28 := by norm_num
    obtain ⟨n, rfl⟩ : ∃ n : ℕ, f = -n := ⟨(-f).toNat, by omega⟩
    refine zpow_le_of_pow (by norm_num) one_le_two (by decide : 28 ≠ 0) (p := 93) ?_ ?_
    · rw [zpow_neg, zpow_neg, zpow_natCast, zpow_natCast]
      exact inv_anti₀ (by positivity) (pow_le_pow_left₀ (by positivity) hpow n)
    · push_cast
      omega

/-- The decade that is found does not lie above the quotient. -/
theorem decade_le (hnum : 0 < num) (hden : 0 < den) (hlo : -1100 ≤ (num.log2 : ℤ) - den.log2)
    (hhi : (num.log2 : ℤ) - den.log2 ≤ 1100) : (10 : ℚ) ^ decade num den ≤ num / den := by
  have hlow := (log2_spec hnum hden).1
  unfold decade
  simp only
  generalize (num.log2 : ℤ) - den.log2 = b at *
  cases hfind : List.find? _ _ with
  | some e =>
    have hreaches := List.find?_some hfind
    exact (pow_le_div_iff (by decide) hden).1 hreaches
  | none =>
    have hten := ten_zpow_le (f := b * 30103 / 100000) (by omega) hlo hhi
    rw [Option.getD_none]
    calc (10 : ℚ) ^ (b * 30103 / 100000 + 2 - 5) = 10 ^ (b * 30103 / 100000) / 1000 := by
          rw [show b * 30103 / 100000 + 2 - 5 = b * 30103 / 100000 - 3 by ring,
            zpow_sub₀ (by norm_num)]
          norm_num
      _ ≤ 2 ^ (b + 1) / 1000 := by gcongr
      _ ≤ 2 ^ (b - 1) := by
          rw [show b + 1 = b - 1 + 2 by ring, zpow_add₀ two_ne_zero]
          have : (0 : ℚ) < 2 ^ (b - 1) := by positivity
          norm_num
          linarith
      _ ≤ num / den := hlow

/-! ## Grids -/

theorem holds_of_onGrid {i : Interval} {s : Scientific} (h : i.onGrid? k = some s) :
    i.holds s.digits s.exponent = true := by
  unfold Interval.onGrid? at h
  simp only [Option.map_eq_some_iff] at h
  obtain ⟨d, hd, rfl⟩ := h
  have hholds := List.find?_some hd
  exact hholds

theorem isSome_onGrid {i : Interval} (h : i.holds (neighbours i.mid i.den k).1 k = true ∨
    i.holds ((neighbours i.mid i.den k).1 + 1) k = true) : (i.onGrid? k).isSome = true := by
  unfold Interval.onGrid?
  simp only [Option.isSome_map, List.find?_isSome]
  rcases h with h | h
  · refine ⟨_, ?_, h⟩
    split <;> simp
  · refine ⟨_, ?_, h⟩
    split <;> simp

/-- The lower neighbour is the greatest one. -/
theorem neighbours_spec (num : Nat) (hden : 0 < den) (k : Int) :
    ((neighbours num den k).1 : ℚ) * 10 ^ k ≤ num / den ∧
      (num / den : ℚ) < ((neighbours num den k).1 + 1) * 10 ^ k := by
  have hpow : (0 : ℚ) < 10 ^ k := by positivity
  obtain ⟨n, d, hd, hquot, hfloor⟩ : ∃ n d : Nat, 0 < d ∧ (n / d : ℚ) = num / den / 10 ^ k ∧
      (neighbours num den k).1 = n / d := by
    by_cases hk : 0 ≤ k
    · refine ⟨num, den * Nat.pow 10 k.toNat, Nat.mul_pos hden (Nat.pow_pos (by decide)), ?_, ?_⟩
      · rw [Nat.cast_mul, cast_pow_toNat 10 hk, ← div_div]
        rfl
      · simp [neighbours, hk]
    · refine ⟨num * Nat.pow 10 (-k).toNat, den, hden, ?_, ?_⟩
      · rw [Nat.cast_mul, cast_pow_neg_toNat 10 hk, ← div_eq_mul_inv, div_right_comm]
        rfl
      · simp [neighbours, hk]
  have hd : (0 : ℚ) < d := by exact_mod_cast hd
  rw [hfloor, ← le_div_iff₀ hpow, ← div_lt_iff₀ hpow, ← hquot, le_div_iff₀ hd, div_lt_iff₀ hd]
  have hlo : n / d * d ≤ n := Nat.div_mul_le_self n d
  have hhi : n < (n / d + 1) * d := by
    rw [mul_comm]
    exact Nat.lt_mul_div_succ n (by exact_mod_cast hd)
  exact ⟨by exact_mod_cast hlo, by exact_mod_cast hhi⟩

/-! ## The shortest decimal -/

/-- The lines of a grid of seventeen digits are less far apart than twice the lower half of the
interval. -/
theorem gap_lt (hc : IsCanonical m q) (hk : (10 : ℚ) ^ k * 10 ^ 16 ≤ m * 2 ^ q) :
    (10 : ℚ) ^ k < 2 * (slack m q * 2 ^ q) := by
  have hpow : (0 : ℚ) < 2 ^ q := by positivity
  have hlarge : (2 : ℚ) ^ 53 < 10 ^ 16 := by norm_num
  unfold slack
  split
  · next hs =>
    rw [hs.1] at hk
    push_cast at hk
    linarith
  · have hm : (m : ℚ) * 2 ^ q ≤ 2 ^ 53 * 2 ^ q := by
      have : (m : ℚ) ≤ 2 ^ 53 := by exact_mod_cast hc.lt.le
      gcongr
    linarith

/-- On a grid of seventeen digits a decimal of the double is found. -/
theorem exists_onGrid (hc : IsCanonical m q) (hk : (10 : ℚ) ^ k * 10 ^ 16 ≤ m * 2 ^ q) :
    ((interval m q).onGrid? k).isSome = true := by
  have hpow : (0 : ℚ) < 2 ^ q := by positivity
  have hgap := gap_lt hc hk
  have hslack : slack m q * 2 ^ q ≤ 1 / 2 * 2 ^ q := by
    have := slack_le m q
    gcongr
  obtain ⟨hlo, hhi⟩ := neighbours_spec (interval m q).mid (interval_den_pos m q) k
  rw [interval_mid] at hlo hhi
  apply isSome_onGrid
  generalize (neighbours (interval m q).mid (interval m q).den k).1 = f at *
  by_cases hnear : m * 2 ^ q - f * (10 : ℚ) ^ k ≤ 10 ^ k / 2
  · exact .inl (holds_of_lt hc.pos (by linarith) (by linarith))
  · refine .inr (holds_of_lt hc.pos ?_ ?_)
    · push_cast
      linarith
    · push_cast
      linarith

theorem trimZeros_toRat (fuel : Nat) (s : Scientific) : (trimZeros fuel s).toRat = s.toRat := by
  induction fuel generalizing s with
  | zero => rfl
  | succ fuel ih =>
    rw [trimZeros]
    split
    · next h =>
      have hten : s.digits % 10 = 0 := by
        rw [Bool.and_eq_true, beq_iff_eq] at h
        exact h.1
      have hdigits : (s.digits : ℚ) = (s.digits / 10 : Nat) * 10 := by
        exact_mod_cast (Nat.div_mul_cancel (Nat.dvd_of_mod_eq_zero hten)).symm
      rw [ih, Scientific.toRat, Scientific.toRat, hdigits, zpow_add_one₀ (by norm_num)]
      ring
    · rfl

/-- The value of a double rounds to the double. -/
theorem rounds_self (m : Nat) (q : Int) : Rounds m q (m * 2 ^ q) := by
  have hpow : (0 : ℚ) < 2 ^ q := by positivity
  have hslack : 0 < slack m q := by
    unfold slack
    split <;> norm_num
  have hlo : (m - slack m q) * 2 ^ q < m * 2 ^ q := by
    gcongr
    linarith
  have hhi : (m : ℚ) * 2 ^ q < (m + 1 / 2) * 2 ^ q := by
    gcongr
    linarith
  exact ⟨hlo.le, hhi.le, fun _ => ⟨hlo, hhi⟩⟩

theorem decade_interval_le (hc : IsCanonical m q) :
    (10 : ℚ) ^ decade (interval m q).mid (interval m q).den ≤ m * 2 ^ q := by
  have hden := interval_den_pos m q
  have hvalue := interval_mid m q
  have hmid : 0 < (interval m q).mid := by
    refine Nat.mul_pos (Nat.mul_pos (by decide) hc.pos) ?_
    split
    · exact Nat.pow_pos (by decide)
    · exact Nat.one_pos
  obtain ⟨hlo, hhi⟩ := log2_spec hmid hden
  rw [hvalue] at hlo hhi
  have hbelow := (zpow_lt_zpow_iff_right₀ one_lt_two).1 (hlo.trans_lt ((rounds_self m q).lt hc))
  have habove := (zpow_lt_zpow_iff_right₀ one_lt_two).1 (((rounds_self m q).pos hc).trans_lt hhi)
  have hq : q ≤ 971 := hc.le_maxExponent
  rw [← hvalue]
  exact decade_le hmid hden (by omega) (by omega)

/-- The shortest decimal rounds to the double. -/
theorem rounds_shortest (hc : IsCanonical m q) : Rounds m q (shortest m q).toRat := by
  have hgrid : ((interval m q).onGrid?
      (decade (interval m q).mid (interval m q).den - (16 : Nat))).isSome = true := by
    refine exists_onGrid hc ?_
    rw [← zpow_natCast (10 : ℚ) 16, ← zpow_add₀ (by norm_num), sub_add_cancel]
    exact decade_interval_le hc
  have hfound : ((List.range 17).findSome? fun (n : Nat) => (interval m q).onGrid?
      (decade (interval m q).mid (interval m q).den - n)).isSome = true :=
    List.findSome?_isSome_iff.2 ⟨16, by decide, hgrid⟩
  obtain ⟨s, hs⟩ := Option.isSome_iff_exists.1 hfound
  obtain ⟨n, -, hn⟩ := List.exists_of_findSome?_eq_some hs
  have hshortest : shortest m q = trimZeros 20 s := by
    unfold shortest
    simp only
    rw [hs, Option.getD_some]
  rw [hshortest, trimZeros_toRat]
  exact rounds_of_holds hc.pos (holds_of_onGrid hn)

/-- The shortest decimal is read as the double, and so is any other decimal of its value. -/
theorem ofDecimal_shortest (negative : Bool) (hc : IsCanonical m q)
    (h : (d : ℚ) * 10 ^ k = (shortest m q).toRat) : ofDecimal negative d k = .finite negative m q := by
  refine ofDecimal_eq negative hc ?_
  rw [h]
  exact rounds_shortest hc

end AlgebraBatch.Decimal
