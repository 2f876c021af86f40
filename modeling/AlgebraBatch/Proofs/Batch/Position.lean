import AlgebraBatch.Proofs.Batch.Reserved
import AlgebraBatch.Proofs.Decimal.Spelled
import AlgebraBatch.Proofs.Engine.Settings

/-!
# The position that a key names

A key names a position exactly if what stands after its stem spells the position as an integer
numeral (`index_eq_ok_iff`), and a text that names none is refused. Such a numeral may have a sign,
blanks, underscores, zeros in front and digits of any script, so a position has other keys than the
one that is written for it. Those whose numeral is written as the digits of a number are (`IsWhole`)
are decoded exactly, and no two of them alike.
-/

namespace AlgebraBatch.Key

open AlgebraBatch.Text AlgebraBatch.Numeral AlgebraBatch.Json AlgebraBatch.Batch

variable {k : String} {w : List Char} {n : Int} {i : Nat}

/-! ## Reading keys -/

theorem index_stem (hk : k.toList = stem.toList ++ w) :
    index k = (readInteger (String.ofList w)).mapError .numeral := by
  have hprefix : stem.toList.isPrefixOf k.toList = true :=
    List.isPrefixOf_iff_prefix.2 ⟨w, hk.symm⟩
  have hdrop : k.toList.drop stem.length = w := by
    rw [hk, ← String.length_toList, List.drop_left]
  rw [index, if_pos hprefix, hdrop]

theorem index_other (hk : ¬ stem.toList <+: k.toList) :
    index k = .error (.badValue ("Not a statement key: " ++ quoted k)) :=
  if_neg fun h => hk (List.isPrefixOf_iff_prefix.1 h)

/-- A key names the number that is spelled after its stem. -/
theorem index_eq_ok_iff :
    index k = .ok n ↔
      ∃ w, k.toList = stem.toList ++ w ∧ Spells isMargin isDecimalDigit w n := by
  by_cases hk : stem.toList <+: k.toList
  · obtain ⟨w, hw⟩ := hk
    have hspells := @readInteger_eq_ok_iff n (String.ofList w)
    rw [String.toList_ofList] at hspells
    rw [index_stem hw.symm, ← hw]
    constructor
    · intro h
      refine ⟨w, rfl, hspells.1 ?_⟩
      cases hread : readInteger (String.ofList w) with
      | error fault => rw [hread] at h; cases h
      | ok m => rw [hread] at h; cases h; rfl
    · rintro ⟨v, hv, h⟩
      obtain rfl := List.append_cancel_left hv
      rw [hspells.2 h]
      rfl
  · rw [index_other hk]
    refine ⟨nofun, ?_⟩
    rintro ⟨w, hw, -⟩
    exact absurd ⟨w, hw.symm⟩ hk

/-- Every text that is no key is refused. -/
theorem settles_index (k : String) : Settles (index k) := by
  by_cases hk : stem.toList <+: k.toList
  · obtain ⟨w, hw⟩ := hk
    rw [index_stem hw.symm]
    cases readInteger (String.ofList w) with
    | error fault => exact settles_error.2 rfl
    | ok n => exact settles_ok n
  · rw [index_other hk]
    exact settles_error.2 rfl

/-! ## Exact keys -/

/-- The key is decoded exactly: it names the position, of those that have a key, whose key it is,
and is refused if it is the key of none. -/
structure IsExact (k : String) : Prop where
  decodes : ∀ i : Nat, i < 10 ^ maxDigits → (index k = .ok i ↔ k = key i)
  refuses : (∀ i : Nat, i < 10 ^ maxDigits → k ≠ key i) →
    ∃ fault, index k = .error fault ∧ fault.isRefusal = true

theorem eq_key_iff : k = key i ↔ k.toList = stem.toList ++ Nat.toDigits 10 i := by
  rw [← toList_key, String.toList_inj]

/-- The digits of a number after the stem are read as the number. -/
theorem index_whole (hk : k.toList = stem.toList ++ w) (hw : IsWhole w) (h : index k = .ok n) :
    n = digitsToNat w ∧ digitsToNat w < 10 ^ maxDigits ∧ k = key (digitsToNat w) := by
  obtain ⟨v, hv, hs⟩ := index_eq_ok_iff.1 h
  obtain rfl : w = v := List.append_cancel_left (hk.symm.trans hv)
  obtain ⟨hlength, hn⟩ := (spells_digits hw.ne_nil hw.1).1 hs
  have hlt := Syntax.digitsToNat_lt hw.1.isDecimalDigit
  refine ⟨hn, hlt.trans_le (Nat.pow_le_pow_right (by decide) hlength), eq_key_iff.2 ?_⟩
  rw [hk, hw.toDigits_digitsToNat]

theorem index_key (h : i < 10 ^ maxDigits) : index (key i) = .ok i := by
  have hlength := (Nat.length_toDigits_le_iff (b := 10) (by decide) (by decide)).2 h
  refine index_eq_ok_iff.2 ⟨_, toList_key i, (spells_digits Nat.toDigits_ne_nil ?_).2 ⟨hlength, ?_⟩⟩
  · exact areDigits_toDigits i
  · rw [digitsToNat_toDigits]

/-- An exact key names only the position that it is the key of. -/
theorem IsExact.eq_key (h : IsExact k) (hk : index k = .ok n) : ∃ i : Nat, k = key i ∧ n = i := by
  by_cases hkey : ∃ i : Nat, i < 10 ^ maxDigits ∧ k = key i
  · obtain ⟨i, hi, rfl⟩ := hkey
    exact ⟨i, rfl, Except.ok.inj (hk.symm.trans (index_key hi))⟩
  · obtain ⟨fault, hfault, -⟩ := h.refuses fun i hi e => hkey ⟨i, hi, e⟩
    cases hk.symm.trans hfault

theorem IsExact.unique {k' : String} (h : IsExact k) (h' : IsExact k') (hk : index k = .ok n)
    (hk' : index k' = .ok n) : k = k' := by
  obtain ⟨i, rfl, hi⟩ := h.eq_key hk
  obtain ⟨j, rfl, hj⟩ := h'.eq_key hk'
  rw [← hi, ← hj]

/-- A key is decoded exactly if its numeral, where there is one, has the digits of a number. -/
theorem isExact_iff :
    IsExact k ↔
      ∀ w n, k.toList = stem.toList ++ w → Spells isMargin isDecimalDigit w n → IsWhole w := by
  constructor
  · intro h w n hk hs
    obtain ⟨i, hkey, -⟩ := h.eq_key (index_eq_ok_iff.2 ⟨w, hk, hs⟩)
    have hdigits := hk.symm.trans (eq_key_iff.1 hkey)
    rw [List.append_cancel_left hdigits]
    exact isWhole_toDigits i
  · intro h
    have whole {n : Int} (hread : index k = .ok n) :
        ∃ i : Nat, i < 10 ^ maxDigits ∧ k = key i ∧ n = i := by
      obtain ⟨w, hk, hs⟩ := index_eq_ok_iff.1 hread
      obtain ⟨hn, hlt, hkey⟩ := index_whole hk (h w n hk hs) hread
      exact ⟨_, hlt, hkey, hn⟩
    refine ⟨fun i hi => ⟨fun hread => ?_, ?_⟩, fun hnone => ?_⟩
    · obtain ⟨j, -, hkey, hij⟩ := whole hread
      rwa [Int.ofNat_inj.1 hij]
    · rintro rfl
      exact index_key hi
    · cases hread : index k with
      | error fault => exact ⟨fault, rfl, settles_index k fault hread⟩
      | ok n =>
        obtain ⟨i, hi, hkey, -⟩ := whole hread
        exact absurd hkey (hnone i hi)

/-- A key names whatever number its numeral spells. So it is decoded exactly if the numeral, where
there is one, has the digits of a number, and exact keys of the same position are the same. -/
theorem index_spelled (k : String) :
    (∀ n, index k = .ok n ↔
      ∃ w, k.toList = stem.toList ++ w ∧ Spells isMargin isDecimalDigit w n) ∧
    (IsExact k ↔
      ∀ w n, k.toList = stem.toList ++ w → Spells isMargin isDecimalDigit w n → IsWhole w) ∧
    ∀ k' n, IsExact k → IsExact k' → index k = .ok n → index k' = .ok n → k = k' :=
  ⟨fun _ => index_eq_ok_iff, isExact_iff, fun _ _ h h' hk hk' => h.unique h' hk hk'⟩

theorem isExact_twelve : IsExact "__e_smt_12" ∧ index "__e_smt_12" = .ok 12 := by
  have hread : index "__e_smt_12" = .ok 12 := by decide +kernel
  have hstem : "__e_smt_12".toList = stem.toList ++ ['1', '2'] := by decide
  refine ⟨(index_spelled "__e_smt_12").2.1.2 fun w n hk _ => ?_, hread⟩
  rw [← List.append_cancel_left (hstem.symm.trans hk)]
  exact ⟨by decide, .inr ⟨'1', ['2'], rfl, by decide⟩⟩

/-- With a zero more in front, the numeral names the first position all the same. -/
theorem not_isExact_zeros :
    index "__e_smt_00" = .ok 0 ∧ index (key 0) = .ok 0 ∧ (∀ i : Nat, "__e_smt_00" ≠ key i) ∧
      ¬ IsExact "__e_smt_00" := by
  have hread : index "__e_smt_00" = .ok 0 := by decide +kernel
  have hfirst : index (key 0) = .ok 0 := by decide +kernel
  have hstem : "__e_smt_00".toList = stem.toList ++ ['0', '0'] := by decide
  have hkey : ∀ i : Nat, "__e_smt_00" ≠ key i := by
    intro i h
    have hwhole := isWhole_toDigits i
    rw [← List.append_cancel_left (hstem.symm.trans (eq_key_iff.1 h))] at hwhole
    obtain ⟨-, h | ⟨c, ds, h, hc⟩⟩ := hwhole
    · cases h
    · exact hc (List.cons.inj h).1.symm
  refine ⟨hread, hfirst, hkey, fun h => ?_⟩
  obtain ⟨i, hi, -⟩ := h.eq_key hread
  exact hkey i hi

end AlgebraBatch.Key
