import AlgebraBatch.Json.Reader
import AlgebraBatch.Json.Writer
import AlgebraBatch.Proofs.Text.CharClass
import AlgebraBatch.Proofs.Text.Search

/-!
# Written texts are read back

Each character of a text is written as itself, as a short escape or as one or two code units, and
the reader takes exactly what was written for it (`readStringTail_escapeChar`). A character beyond
U+FFFF is two halves of a pair, and only a first half makes the reader wait for a second.
-/

namespace AlgebraBatch.Json

open AlgebraBatch.Text

variable {ascii : Bool} {c : Char} {cs ds rest : List Char} {n : Nat}

/-! ## Code units -/

theorem hexValue?_digitChar : ∀ d < 16, hexValue? d.digitChar = some d := by decide

/-- The last digit of a number in hexadecimal notation, after the others. -/
theorem toDigits_sixteen (hn : 16 ≤ n) :
    Nat.toDigits 16 n = Nat.toDigits 16 (n / 16) ++ [(n % 16).digitChar] :=
  Nat.toDigits_of_base_le (by decide) hn

theorem toList_hexDigits (n : Nat) : (hexDigits 4 n).toList =
    List.replicate (4 - (Nat.toDigits 16 n).length) '0' ++ Nat.toDigits 16 n := by
  simp [hexDigits, ← String.length_toList]

/-- A code unit has four digits. -/
theorem hexDigits_four (hn : n < 0x10000) : (hexDigits 4 n).toList =
    [(n / 16 / 16 / 16).digitChar, (n / 16 / 16 % 16).digitChar, (n / 16 % 16).digitChar,
      (n % 16).digitChar] := by
  rw [toList_hexDigits]
  by_cases h : n < 16
  · have hdigits : Nat.toDigits 16 n = [n.digitChar] := Nat.toDigits_of_lt_base h
    rw [hdigits, Nat.mod_eq_of_lt h, Nat.div_eq_of_lt h]
    rfl
  rw [toDigits_sixteen (by omega)]
  by_cases h' : n / 16 < 16
  · rw [Nat.toDigits_of_lt_base h', Nat.mod_eq_of_lt h', Nat.div_eq_of_lt h']
    rfl
  rw [toDigits_sixteen (by omega)]
  by_cases h'' : n / 16 / 16 < 16
  · rw [Nat.toDigits_of_lt_base h'', Nat.mod_eq_of_lt h'', Nat.div_eq_of_lt h'']
    rfl
  rw [toDigits_sixteen (by omega), Nat.toDigits_of_lt_base (by omega)]
  rfl

/-- A code unit is read back. -/
theorem hexFour?_digits (hn : n < 0x10000) : ∃ w x y z,
    unitEscape n = ['\\', 'u', w, x, y, z] ∧ hexFour? w x y z = some n := by
  refine ⟨_, _, _, _, congrArg (fun ds => '\\' :: 'u' :: ds) (hexDigits_four hn), ?_⟩
  unfold hexFour?
  rw [hexValue?_digitChar _ (by omega), hexValue?_digitChar _ (by omega),
    hexValue?_digitChar _ (by omega), hexValue?_digitChar _ (by omega)]
  simp only [Option.bind_eq_bind, Option.bind_some]
  congr 1
  omega

theorem toNat_lt (c : Char) : c.toNat < 0x110000 := by
  have := c.valid
  simp only [UInt32.isValidChar, Nat.isValidChar] at this
  have htoNat : c.toNat = c.val.toNat := rfl
  omega

/-- A character is neither half of a pair. -/
theorem not_half (c : Char) : isHighHalf c.toNat = false ∧ isLowHalf c.toNat = false := by
  have := c.valid
  simp only [UInt32.isValidChar, Nat.isValidChar] at this
  have htoNat : c.toNat = c.val.toNat := rfl
  simp only [isHighHalf, isLowHalf, Bool.and_eq_false_iff, decide_eq_false_iff_not]
  omega

/-! ## Characters -/

/-- One more character before what is read. -/
def push (c : Char) : List Char × List Char → List Char × List Char
  | (s, rest) => (c :: s, rest)

theorem readStringTail_unit (hn : n < 0x10000) (hhigh : isHighHalf n = false)
    (cs : List Char) : readStringTail none (unitEscape n ++ cs) =
      (readStringTail none cs).map (push (unitChar n)) := by
  obtain ⟨w, x, y, z, htext, hread⟩ := hexFour?_digits hn
  rw [htext]
  simp only [List.cons_append, List.nil_append, readStringTail, hread]
  simp only [Option.bind_eq_bind, Option.bind_some, hhigh]
  cases readStringTail none cs <;> rfl

theorem readStringTail_pair {high low : Nat} (hh : isHighHalf high = true)
    (hl : isLowHalf low = true) (cs : List Char) :
    readStringTail none (unitEscape high ++ unitEscape low ++ cs) =
      (readStringTail none cs).map (push (pairChar high low)) := by
  have hhigh : high < 0x10000 := by
    simp only [isHighHalf, Bool.and_eq_true, decide_eq_true_eq] at hh
    omega
  have hlow : low < 0x10000 := by
    simp only [isLowHalf, Bool.and_eq_true, decide_eq_true_eq] at hl
    omega
  obtain ⟨w, x, y, z, htext, hread⟩ := hexFour?_digits hhigh
  obtain ⟨w', x', y', z', htext', hread'⟩ := hexFour?_digits hlow
  rw [htext, htext']
  simp only [List.cons_append, List.nil_append, readStringTail, hread, hread']
  simp only [Option.bind_eq_bind, Option.bind_some, hh, hl]
  cases readStringTail none cs <;> rfl

theorem readStringTail_units (c : Char) (cs : List Char) :
    readStringTail none (escapeUnits c ++ cs) = (readStringTail none cs).map (push c) := by
  obtain ⟨hhigh, hlow⟩ := not_half c
  unfold escapeUnits
  simp only
  split
  · next h =>
    rw [readStringTail_unit h hhigh, unitChar, hhigh, hlow]
    simp
  · next h =>
    have hmax := toNat_lt c
    have hh : isHighHalf (0xd800 + (c.toNat - 0x10000) / 0x400) = true := by
      simp only [isHighHalf, Bool.and_eq_true, decide_eq_true_eq]
      omega
    have hl : isLowHalf (0xdc00 + (c.toNat - 0x10000) % 0x400) = true := by
      simp only [isLowHalf, Bool.and_eq_true, decide_eq_true_eq]
      omega
    have hcode : 0x10000 + (0xd800 + (c.toNat - 0x10000) / 0x400 - 0xd800) * 0x400 +
        (0xdc00 + (c.toNat - 0x10000) % 0x400 - 0xdc00) = c.toNat := by
      omega
    rw [readStringTail_pair hh hl, pairChar, hcode, Char.ofNat_toNat]

/-- The ways in which a character is written. -/
inductive Spells (ascii : Bool) (c : Char) : List Char → Prop
  | short {letter : Char} (h : escaped? letter = some c) (hu : letter ≠ 'u') :
      Spells ascii c ['\\', letter]
  | units : Spells ascii c (escapeUnits c)
  | bare (h : c ∉ ['"', '\\']) (hlow : 0x20 ≤ c.toNat) (hhigh : ascii = true → c.toNat < 0x7f) :
      Spells ascii c [c]

theorem spells_escapeChar (ascii : Bool) (c : Char) : Spells ascii c (escapeChar ascii c) := by
  unfold escapeChar
  split
  · next h =>
    obtain rfl | rfl : c = '"' ∨ c = '\\' := by simpa using h
    · exact .short rfl (by decide)
    · exact .short rfl (by decide)
  next hmarks =>
  split
  · next h => exact eq_of_beq h ▸ .short rfl (by decide)
  split
  · next h => exact eq_of_beq h ▸ .short rfl (by decide)
  split
  · next h => exact eq_of_beq h ▸ .short rfl (by decide)
  split
  · next h => exact eq_of_beq h ▸ .short rfl (by decide)
  split
  · next h => exact eq_of_beq h ▸ .short rfl (by decide)
  split
  · next h =>
    have hunits : escapeUnits c = unitEscape c.toNat := if_pos (by omega)
    exact hunits ▸ .units
  next hcontrol =>
  split
  · exact .units
  · next hwide =>
    simp only [Bool.and_eq_true, decide_eq_true_eq, not_and, Nat.not_le] at hwide
    exact .bare (by simpa using hmarks) (by omega) hwide

theorem readStringTail_spells (h : Spells ascii c cs) (rest : List Char) :
    readStringTail none (cs ++ rest) = (readStringTail none rest).map (push c) := by
  cases h with
  | @short letter h hu =>
    rw [List.cons_append, List.cons_append, List.nil_append, readStringTail]
    · rw [h, Option.bind_eq_bind, Option.bind_some]
      cases readStringTail none rest <;> rfl
    · rintro _ _ _ _ _ rfl
      exact absurd rfl hu
  | units => exact readStringTail_units c rest
  | bare h hlow =>
    simp only [List.mem_cons, List.not_mem_nil, or_false, not_or] at h
    have hallowed : (c == '\\' || decide (c.toNat < 0x20)) = false := by
      rw [beq_false_of_ne h.2, decide_eq_false (Nat.not_lt.2 hlow), Bool.false_or]
    rw [List.singleton_append, readStringTail]
    · rw [hallowed]
      cases readStringTail none rest <;> rfl
    · exact fun hc => absurd hc h.1
    · exact fun _ _ _ _ _ hc => absurd hc h.2
    · exact fun _ _ hc => absurd hc h.2

/-- A written text is read back up to its closing quote. -/
theorem readStringTail_escaped (ascii : Bool) (cs rest : List Char) :
    readStringTail none (cs.flatMap (escapeChar ascii) ++ '"' :: rest) = some (cs, rest) := by
  induction cs with
  | nil => rfl
  | cons c cs ih =>
    rw [List.flatMap_cons, List.append_assoc, readStringTail_spells (spells_escapeChar ascii c), ih]
    rfl

/-! ## Texts of ASCII characters -/

/-- A character that every layout writes as itself. -/
def IsBare (c : Char) : Prop := c ∉ ['"', '\\'] ∧ 0x20 ≤ c.toNat ∧ c.toNat < 0x7f

instance : DecidablePred IsBare := fun _ => inferInstanceAs (Decidable (_ ∧ _ ∧ _))

/-- What may stand between the quotes of a text on a line of ASCII. -/
inductive Escaped : List Char → Prop
  | nil : Escaped []
  | bare {c : Char} {cs : List Char} (hc : IsBare c) (h : Escaped cs) : Escaped (c :: cs)
  | short {letter c : Char} {cs : List Char} (hc : escaped? letter = some c) (h : Escaped cs) :
      Escaped ('\\' :: letter :: cs)
  | unit {w x y z : Char} {n : Nat} {cs : List Char} (hn : n < 0x10000)
      (hx : hexFour? w x y z = some n) (h : Escaped cs) :
      Escaped ('\\' :: 'u' :: w :: x :: y :: z :: cs)

theorem Escaped.unitEscape (hn : n < 0x10000) (h : Escaped cs) : Escaped (unitEscape n ++ cs) := by
  obtain ⟨w, x, y, z, htext, hread⟩ := hexFour?_digits hn
  rw [htext]
  exact .unit hn hread h

theorem Escaped.spells (hs : Spells true c ds) (h : Escaped cs) : Escaped (ds ++ cs) := by
  cases hs with
  | short hc => exact .short hc h
  | units =>
    have hmax := toNat_lt c
    unfold escapeUnits
    simp only
    split
    · next hc => exact h.unitEscape hc
    · rw [List.append_assoc]
      exact (h.unitEscape (by omega)).unitEscape (by omega)
  | bare hc hlow hhigh => exact .bare ⟨hc, hlow, hhigh rfl⟩ h

theorem escaped_flatMap (cs : List Char) : Escaped (cs.flatMap (escapeChar true)) := by
  induction cs with
  | nil => exact .nil
  | cons c cs ih => exact ih.spells (spells_escapeChar true c)

theorem hexValue?_isSome {w x y z : Char} (h : hexFour? w x y z = some n) :
    ∀ c ∈ [w, x, y, z], (hexValue? c).isSome = true := by
  unfold hexFour? at h
  obtain ⟨_, hw, h⟩ := Option.bind_eq_some_iff.1 h
  obtain ⟨_, hx, h⟩ := Option.bind_eq_some_iff.1 h
  obtain ⟨_, hy, h⟩ := Option.bind_eq_some_iff.1 h
  obtain ⟨_, hz, -⟩ := Option.bind_eq_some_iff.1 h
  simp [hw, hx, hy, hz]

/-- No escape is cut before a character that is no part of escapes. -/
theorem Escaped.before {g : Char} (h : Escaped (ds ++ g :: rest)) (hg : g = ' ' ∨ g = '<') :
    Escaped ds := by
  generalize htext : ds ++ g :: rest = text at h
  induction h generalizing ds with
  | nil => exact absurd htext (by simp)
  | bare hc _ ih =>
    cases ds with
    | nil => exact .nil
    | cons d ds =>
      obtain ⟨rfl, hrest⟩ := List.cons.inj htext
      exact .bare hc (ih hrest)
  | @short letter c cs hc _ ih =>
    have hapart : g ∉ ['\\', letter] := by
      rcases hg with rfl | rfl <;> rintro (_ | ⟨_, _ | ⟨_, _ | _⟩⟩) <;> cases hc
    obtain ⟨before, rfl, hrest⟩ := split_after hapart htext.symm
    exact .short hc (ih hrest.symm)
  | @unit w x y z n cs hn hx _ ih =>
    have hapart : g ∉ ['\\', 'u', w, x, y, z] := fun hmem => by
      rcases List.mem_append.1 (by exact hmem : g ∈ ['\\', 'u'] ++ [w, x, y, z]) with hmem | hmem
      · rcases hg with rfl | rfl <;> revert hmem <;> decide
      · have hsome := hexValue?_isSome hx g hmem
        rcases hg with rfl | rfl <;> cases hsome
    obtain ⟨before, rfl, hrest⟩ := split_after hapart htext.symm
    exact .unit hn hx (ih hrest.symm)

theorem printable_of_hexValue? (h : (hexValue? c).isSome = true) :
    0x20 ≤ c.toNat ∧ c.toNat < 0x7f := by
  unfold hexValue? at h
  simp only at h
  split at h
  · next hc =>
    have := isDigit_iff.1 hc
    omega
  · split at h
    · next hc =>
      have hcode : 97 ≤ c.toNat ∧ c.toNat ≤ 102 := by
        rw [Bool.and_eq_true, decide_eq_true_eq, decide_eq_true_eq] at hc
        exact hc
      omega
    · split at h
      · next hc =>
        have hcode : 65 ≤ c.toNat ∧ c.toNat ≤ 70 := by
          rw [Bool.and_eq_true, decide_eq_true_eq, decide_eq_true_eq] at hc
          exact hc
        omega
      · cases h

theorem printable_of_escaped? {letter : Char} (h : escaped? letter = some c) :
    0x20 ≤ letter.toNat ∧ letter.toNat < 0x7f := by
  unfold escaped? at h
  split at h <;> first | decide | cases h

theorem Escaped.printable (h : Escaped cs) : ∀ c ∈ cs, 0x20 ≤ c.toNat ∧ c.toNat < 0x7f := by
  have hmarks : ∀ c ∈ ['\\', 'u'], 0x20 ≤ c.toNat ∧ c.toNat < 0x7f := by decide
  induction h with
  | nil => exact List.forall_mem_nil _
  | bare hc _ ih => exact List.forall_mem_cons.2 ⟨hc.2, ih⟩
  | short hc _ ih =>
    exact List.forall_mem_cons.2
      ⟨hmarks _ (by decide), List.forall_mem_cons.2 ⟨printable_of_escaped? hc, ih⟩⟩
  | unit _ hx _ ih =>
    have hdigits := fun c hc => printable_of_hexValue? (hexValue?_isSome hx c hc)
    have hunit := List.forall_mem_append.2 ⟨hmarks, List.forall_mem_append.2 ⟨hdigits, ih⟩⟩
    exact hunit

/-- The only blank on a line of ASCII is the space. -/
theorem eq_space_of_isBlank (hc : 0x20 ≤ c.toNat ∧ c.toNat < 0x7f) (h : Text.isBlank c = true) :
    c = ' ' := by
  simp only [Text.isBlank, isAsciiBlank, isWideBlank, Bool.or_eq_true, Bool.and_eq_true,
    decide_eq_true_eq, beq_iff_eq] at h
  by_contra hne
  simp only [hne, false_or] at h
  omega

/-- No escape is cut where the blanks at the end begin. -/
theorem Escaped.trimmed (h : Escaped cs) : Escaped (dropRightWhile Text.isBlank cs) := by
  obtain ⟨trail, htext, htrail⟩ := dropRightWhile_append Text.isBlank cs
  generalize dropRightWhile Text.isBlank cs = kept at htext ⊢
  subst htext
  cases trail with
  | nil => exact List.append_nil kept ▸ h
  | cons b trail =>
    have hb := h.printable b (List.mem_append_right _ List.mem_cons_self)
    exact h.before (.inl (eq_space_of_isBlank hb (htrail b List.mem_cons_self)))

end AlgebraBatch.Json
