import AlgebraBatch.Proofs.Json.Number
import AlgebraBatch.Proofs.Syntax.NumberValue

/-!
# How an integer is spelled

`Spells isMargin isDecimalDigit w n`: the text `w` is a numeral for `n`, with blanks around it, a
sign, digits of any script, single underscores between digits, and as many zeros in front as one
likes. `readInteger` reads exactly these numerals. They are first read in ASCII; a text that is not
ASCII is read character by character in its ASCII form, and a character without one spoils both.
-/

namespace AlgebraBatch

open AlgebraBatch.Text

namespace Numeral

/-- A blank that may stand before and after a numeral. -/
def isMargin (c : Char) : Bool := isAsciiBlank c || isWideBlank c

/-- The sign of a numeral and whether it is a minus. -/
inductive Sign : List Char → Bool → Prop where
  | none : Sign [] false
  | plus : Sign ['+'] false
  | minus : Sign ['-'] true

def signed (negative : Bool) (n : Nat) : Int := if negative then -n else n

/-- Digits with single underscores between them, and the digits alone. -/
inductive Grouped (isDigit : Char → Bool) : List Char → List Char → Prop where
  | one {c : Char} : isDigit c = true → Grouped isDigit [c] [c]
  | digit {c : Char} {w ds : List Char} : isDigit c = true → Grouped isDigit w ds →
      Grouped isDigit (c :: w) (c :: ds)
  | underscore {c : Char} {w ds : List Char} : isDigit c = true → Grouped isDigit w ds →
      Grouped isDigit (c :: '_' :: w) (c :: ds)

/-- The text is a numeral for the number. -/
inductive Spells (isBlank isDigit : Char → Bool) : List Char → Int → Prop where
  | intro {before sign run digits after : List Char} {negative : Bool} :
      (∀ c ∈ before, isBlank c = true) → Sign sign negative → Grouped isDigit run digits →
      digits.length ≤ maxDigits → (∀ c ∈ after, isBlank c = true) →
      Spells isBlank isDigit (before ++ (sign ++ (run ++ after)))
        (signed negative (digitsToNat digits))

variable {p q : Char → Bool} {w ds : List Char} {c : Char} {n : Int}

/-! ## Groups of digits -/

theorem Grouped.forall_digits (h : Grouped q w ds) : ∀ c ∈ ds, q c = true := by
  induction h with
  | one hc => exact List.forall_mem_singleton.2 hc
  | digit hc _ ih => exact List.forall_mem_cons.2 ⟨hc, ih⟩
  | underscore hc _ ih => exact List.forall_mem_cons.2 ⟨hc, ih⟩

theorem Grouped.mem (h : Grouped q w ds) : ∀ c ∈ w, q c = true ∨ c = '_' := by
  induction h with
  | one hc => exact List.forall_mem_singleton.2 (.inl hc)
  | digit hc _ ih => exact List.forall_mem_cons.2 ⟨.inl hc, ih⟩
  | underscore hc _ ih =>
    exact List.forall_mem_cons.2 ⟨.inl hc, List.forall_mem_cons.2 ⟨.inr rfl, ih⟩⟩

/-- A group begins with a digit. -/
theorem Grouped.cons (h : Grouped q w ds) : ∃ c r, w = c :: r ∧ q c = true := by
  cases h with
  | one hc => exact ⟨_, _, rfl, hc⟩
  | digit hc _ => exact ⟨_, _, rfl, hc⟩
  | underscore hc _ => exact ⟨_, _, rfl, hc⟩

/-- The digits of a group are what is left of it without the underscores. -/
theorem isGrouped_iff : isGrouped w = true ↔ Grouped Char.isDigit w (w.filter Char.isDigit) := by
  constructor
  · fun_induction isGrouped w with
    | case1 => nofun
    | case2 c =>
      intro hc
      rw [List.filter_cons_of_pos hc]
      exact .one hc
    | case3 c d cs ihunderscore ihdigit =>
      intro h
      obtain ⟨hc, h⟩ := (Bool.and_eq_true _ _).mp h
      rw [List.filter_cons_of_pos hc]
      by_cases hd : d = '_'
      · subst hd
        exact .underscore hc (ihunderscore h)
      · rw [beq_false_of_ne hd, if_neg Bool.false_ne_true] at h
        exact .digit hc (ihdigit h)
  · intro h
    generalize w.filter Char.isDigit = ds at h
    induction h with
    | one hc => exact hc
    | @digit c w ds hc hw ih =>
      obtain ⟨d, r, rfl, hd⟩ := hw.cons
      have hne : d ≠ '_' := by
        rintro rfl
        exact absurd hd (by decide)
      rw [isGrouped, hc, beq_false_of_ne hne, if_neg Bool.false_ne_true, ih]
      rfl
    | underscore hc _ ih =>
      rw [isGrouped, hc, beq_self_eq_true, if_pos rfl, ih]
      rfl

theorem Grouped.filter (h : Grouped Char.isDigit w ds) : ds = w.filter Char.isDigit := by
  induction h with
  | one hc => rw [List.filter_cons_of_pos hc, List.filter_nil]
  | digit hc _ ih => rw [List.filter_cons_of_pos hc, ← ih]
  | underscore hc _ ih =>
    rw [List.filter_cons_of_pos hc, List.filter_cons_of_neg (by decide), ← ih]

/-! ## Numerals in ASCII -/

theorem Sign.mem {sign : List Char} {negative : Bool} (h : Sign sign negative) :
    ∀ c ∈ sign, c ∈ ['+', '-', '_'] := by
  cases h <;> decide

theorem Spells.mem (h : Spells p q w n) :
    ∀ c ∈ w, p c = true ∨ q c = true ∨ c ∈ ['+', '-', '_'] := by
  cases h with
  | intro hbefore hsign hrun _ hafter =>
    refine List.forall_mem_append.2 ⟨fun c hc => .inl (hbefore c hc), ?_⟩
    refine List.forall_mem_append.2 ⟨fun c hc => .inr (.inr (hsign.mem c hc)), ?_⟩
    refine List.forall_mem_append.2 ⟨fun c hc => ?_, fun c hc => .inl (hafter c hc)⟩
    rcases hrun.mem c hc with hd | rfl
    · exact .inr (.inl hd)
    · exact .inr (.inr (by decide))

/-- A sign is taken off before a digit. -/
theorem takeSign_sign {sign r : List Char} {negative : Bool} (h : Sign sign negative)
    (hc : c.isDigit = true) : takeSign (sign ++ c :: r) = (negative, c :: r) := by
  cases h with
  | none => exact takeSign_unsigned (by rw [beginsUnsigned, hc, Bool.true_or]) r
  | plus => rfl
  | minus => rfl

theorem sign_takeSign (cs : List Char) :
    ∃ sign, Sign sign (takeSign cs).1 ∧ cs = sign ++ (takeSign cs).2 := by
  unfold takeSign
  split
  · exact ⟨_, .minus, rfl⟩
  · exact ⟨_, .plus, rfl⟩
  · exact ⟨_, .none, rfl⟩

/-- A digit or an underscore. -/
def isPart (c : Char) : Bool := c.isDigit || c == '_'

theorem isAsciiBlank_iff : isAsciiBlank c = true ↔ c.toNat = 32 ∨ 9 ≤ c.toNat ∧ c.toNat ≤ 13 := by
  have hspace : c = ' ' ↔ c.toNat = 32 := ⟨fun h => h ▸ rfl, fun h => Char.toNat_inj.1 h⟩
  rw [isAsciiBlank, Bool.or_eq_true, beq_iff_eq, hspace, Bool.and_eq_true, decide_eq_true_eq,
    decide_eq_true_eq]

theorem not_isAsciiBlank_of_le (h : 127 ≤ c.toNat) : isAsciiBlank c = false := by
  refine Bool.eq_false_iff.2 fun hb => ?_
  rw [isAsciiBlank_iff] at hb
  omega

theorem not_isDigit_of_isAsciiBlank (h : isAsciiBlank c = true) : c.isDigit = false := by
  rw [isAsciiBlank_iff] at h
  refine Bool.eq_false_iff.2 fun hd => ?_
  rw [isDigit_iff] at hd
  omega

theorem not_isPart_of_isAsciiBlank (h : isAsciiBlank c = true) : isPart c = false := by
  have hne : c ≠ '_' := by
    rintro rfl
    exact absurd h (by decide)
  rw [isPart, not_isDigit_of_isAsciiBlank h, beq_false_of_ne hne]
  rfl

/-- A numeral begins with no blank. -/
theorem dropWhile_sign {sign r : List Char} {negative : Bool} (h : Sign sign negative)
    (hc : c.isDigit = true) :
    (sign ++ c :: r).dropWhile isAsciiBlank = sign ++ c :: r := by
  cases h with
  | none =>
    refine List.dropWhile_cons_of_neg fun hb => ?_
    cases hc.symm.trans (not_isDigit_of_isAsciiBlank hb)
  | plus => rfl
  | minus => rfl

/-- The sign of the numeral and the text after it. -/
def unsigned (text : String) : Bool × List Char :=
  takeSign ((asciiForm text.toList).dropWhile isAsciiBlank)

/-- The digits and underscores after the sign. -/
def runOf (text : String) : List Char := (unsigned text).2.takeWhile isPart

theorem readInteger_eq (text : String) :
    readInteger text =
      if !isGrouped (runOf text) then .error (.noInteger text)
      else if maxDigits < ((runOf text).filter Char.isDigit).length then
        .error (.tooManyDigits ((runOf text).filter Char.isDigit).length)
      else if !((unsigned text).2.dropWhile isPart).all isAsciiBlank then .error (.noInteger text)
      else .ok (signed (unsigned text).1 (digitsToNat ((runOf text).filter Char.isDigit))) :=
  rfl

/-- What is asked of a text that is read. -/
theorem readInteger_eq_ok {text : String} :
    readInteger text = .ok n ↔
      isGrouped (runOf text) = true ∧ ((runOf text).filter Char.isDigit).length ≤ maxDigits ∧
        (∀ c ∈ (unsigned text).2.dropWhile isPart, isAsciiBlank c = true) ∧
        signed (unsigned text).1 (digitsToNat ((runOf text).filter Char.isDigit)) = n := by
  rw [readInteger_eq, ← List.all_eq_true, ← Nat.not_lt]
  cases isGrouped (runOf text) with
  | false => simp
  | true =>
    by_cases hlength : maxDigits < ((runOf text).filter Char.isDigit).length
    · simp [hlength]
    · cases ((unsigned text).2.dropWhile isPart).all isAsciiBlank <;> simp [hlength]

/-- What is read from a text is what its ASCII form spells. -/
theorem readInteger_eq_ok_ascii {text : String} :
    readInteger text = .ok n ↔ Spells isAsciiBlank Char.isDigit (asciiForm text.toList) n := by
  rw [readInteger_eq_ok]
  constructor
  · rintro ⟨hrun, hlength, hafter, rfl⟩
    obtain ⟨sign, hsign, hrest⟩ := sign_takeSign ((asciiForm text.toList).dropWhile isAsciiBlank)
    rw [← List.takeWhile_append_dropWhile (p := isAsciiBlank) (l := asciiForm text.toList), hrest,
      ← List.takeWhile_append_dropWhile (p := isPart) (l := (takeSign _).2)]
    exact .intro (fun c hc => List.mem_takeWhile_imp hc) hsign (isGrouped_iff.1 hrun) hlength hafter
  · intro h
    generalize hform : asciiForm text.toList = w at h
    cases h with
    | @intro before sign run digits after negative hbefore hsign hrun hlength hafter =>
      have hparts : ∀ c ∈ run, isPart c = true := by
        intro c hc
        rcases hrun.mem c hc with hd | rfl
        · rw [isPart, hd, Bool.true_or]
        · rfl
      have hend : after.takeWhile isPart = [] ∧ after.dropWhile isPart = after := by
        cases after with
        | nil => exact ⟨rfl, rfl⟩
        | cons c r =>
          have hc := ne_true_of_eq_false (not_isPart_of_isAsciiBlank (hafter c List.mem_cons_self))
          exact ⟨List.takeWhile_cons_of_neg hc, List.dropWhile_cons_of_neg hc⟩
      have hunsigned : unsigned text = (negative, run ++ after) := by
        obtain ⟨c, r, rfl, hc⟩ := hrun.cons
        rw [unsigned, hform, List.dropWhile_append_of_pos hbefore, List.cons_append,
          dropWhile_sign hsign hc]
        exact takeSign_sign hsign hc
      have htake : (run ++ after).takeWhile isPart = run := by
        rw [List.takeWhile_append_of_pos hparts, hend.1, List.append_nil]
      have hdrop : (run ++ after).dropWhile isPart = after := by
        rw [List.dropWhile_append_of_pos hparts, hend.2]
      rw [runOf, hunsigned, htake, hdrop, ← hrun.filter]
      exact ⟨isGrouped_iff.2 (hrun.filter ▸ hrun), hlength, hafter, rfl⟩

/-! ## Numerals in any script -/

/-- The character that stands for a character in the ASCII form, and a question mark for one that
has none. -/
def inAscii (c : Char) : Char :=
  if c.toNat < 127 then c
  else if Text.isBlank c then ' '
  else match digitValue? c with
    | some d => digitChar d
    | none => '?'

/-- The character has no ASCII form. -/
def isForeign (c : Char) : Bool :=
  !(c.toNat < 127) && !Text.isBlank c && !isDecimalDigit c

theorem isForeign_iff :
    isForeign c = true ↔ 127 ≤ c.toNat ∧ Text.isBlank c = false ∧ isDecimalDigit c = false := by
  simp [isForeign, and_assoc]

theorem isWideBlank_toNat (h : isWideBlank c = true) : 128 ≤ c.toNat := by
  simp only [isWideBlank, Bool.or_eq_true, beq_iff_eq, Bool.and_eq_true, decide_eq_true_eq] at h
  omega

/-- From 127 on the blanks are those that trimming and the grammar have in common. -/
theorem isBlank_of_le (h : 127 ≤ c.toNat) : Text.isBlank c = isWideBlank c := by
  have hseparator : (decide (0x1c ≤ c.toNat) && decide (c.toNat ≤ 0x1f)) = false := by
    simp only [Bool.and_eq_false_iff, decide_eq_false_iff_not]
    omega
  rw [Text.isBlank, not_isAsciiBlank_of_le h, hseparator]
  rfl

theorem isMargin_of_le (h : 127 ≤ c.toNat) : isMargin c = isWideBlank c := by
  rw [isMargin, not_isAsciiBlank_of_le h, Bool.false_or]

theorem not_isMargin_of_isDecimalDigit (h : isDecimalDigit c = true) : isMargin c = false := by
  have hp := not_isPatternBlank_of_isDecimalDigit h
  rw [isPatternBlank, Bool.or_eq_false_iff, Bool.or_eq_false_iff] at hp
  rw [isMargin, hp.1.1, hp.2]
  rfl

theorem not_isWideBlank_of_isDecimalDigit (h : isDecimalDigit c = true) : isWideBlank c = false :=
  (Bool.or_eq_false_iff.1 (not_isMargin_of_isDecimalDigit h)).2

/-- A character is in ASCII form as it is, as a space, as a digit, or not at all. -/
theorem inAscii_cases (c : Char) :
    c.toNat < 127 ∧ inAscii c = c ∨
      isWideBlank c = true ∧ inAscii c = ' ' ∨
      isDecimalDigit c = true ∧ inAscii c = asciiChar c ∨
      isForeign c = true ∧ inAscii c = '?' := by
  by_cases hc : c.toNat < 127
  · exact .inl ⟨hc, if_pos hc⟩
  · have hle := Nat.not_lt.1 hc
    unfold inAscii
    rw [if_neg hc]
    by_cases hb : Text.isBlank c = true
    · rw [if_pos hb]
      exact .inr (.inl ⟨isBlank_of_le hle ▸ hb, rfl⟩)
    · rw [if_neg hb]
      cases hd : digitValue? c with
      | none =>
        have hdigit : isDecimalDigit c = false := by rw [isDecimalDigit, hd]; rfl
        exact .inr (.inr (.inr ⟨isForeign_iff.2 ⟨hle, Bool.eq_false_iff.2 hb, hdigit⟩, rfl⟩))
      | some d =>
        have hdigit : isDecimalDigit c = true := by rw [isDecimalDigit, hd]; rfl
        refine .inr (.inr (.inl ⟨hdigit, ?_⟩))
        rw [asciiChar, if_neg hc, hd]
        rfl

theorem isAsciiBlank_inAscii (c : Char) : isAsciiBlank (inAscii c) = isMargin c := by
  rcases inAscii_cases c with ⟨h, e⟩ | ⟨h, e⟩ | ⟨h, e⟩ | ⟨h, e⟩
  · have hwide : isWideBlank c = false := Bool.eq_false_iff.2 fun hw => by
      have := isWideBlank_toNat hw
      omega
    rw [e, isMargin, hwide, Bool.or_false]
  · rw [e, isMargin, h, Bool.or_true]
    rfl
  · have hblank : isAsciiBlank (asciiChar c) = false := Bool.eq_false_iff.2 fun hb =>
      absurd (isDigit_asciiChar h) (ne_true_of_eq_false (not_isDigit_of_isAsciiBlank hb))
    rw [e, hblank, not_isMargin_of_isDecimalDigit h]
  · obtain ⟨hle, hblank, -⟩ := isForeign_iff.1 h
    rw [e, isMargin_of_le hle, ← isBlank_of_le hle, hblank]
    rfl

theorem isDigit_inAscii (c : Char) : (inAscii c).isDigit = isDecimalDigit c := by
  rcases inAscii_cases c with ⟨h, e⟩ | ⟨h, e⟩ | ⟨h, e⟩ | ⟨h, e⟩
  · rw [e, isDecimalDigit_ascii (by omega)]
  · have hdigit : isDecimalDigit c = false := Bool.eq_false_iff.2 fun hd =>
      absurd h (ne_true_of_eq_false (not_isWideBlank_of_isDecimalDigit hd))
    rw [e, hdigit]
    rfl
  · rw [e, h, isDigit_asciiChar h]
  · rw [e, (isForeign_iff.1 h).2.2]
    rfl

/-- Signs and underscores stand for themselves and nothing else does. -/
theorem inAscii_eq_iff {d : Char} (hd : d ∈ ['+', '-', '_']) : inAscii c = d ↔ c = d := by
  have hapart : ∀ d ∈ ['+', '-', '_'], d.toNat < 127 ∧ d.isDigit = false ∧ d ≠ ' ' ∧ d ≠ '?' := by
    decide
  obtain ⟨hlt, hdigit, hspace, hmark⟩ := hapart d hd
  constructor
  · rintro rfl
    rcases inAscii_cases c with ⟨-, e⟩ | ⟨-, e⟩ | ⟨h, e⟩ | ⟨-, e⟩
    · exact e.symm
    · exact absurd e hspace
    · rw [e, isDigit_asciiChar h] at hdigit
      cases hdigit
    · exact absurd e hmark
  · rintro rfl
    exact if_pos hlt

/-- A character without an ASCII form ends the text. -/
theorem transcribe_cons (c : Char) (w : List Char) :
    transcribe (c :: w) = if isForeign c then ['?'] else inAscii c :: transcribe w := by
  rw [transcribe]
  by_cases hc : c.toNat < 127
  · simp [hc, inAscii, isForeign]
  · by_cases hb : Text.isBlank c = true
    · simp [hc, hb, inAscii, isForeign]
    · cases hd : digitValue? c <;> simp [hc, hb, hd, inAscii, isForeign, isDecimalDigit]

theorem transcribe_eq_map (h : ∀ c ∈ w, isForeign c = false) : transcribe w = w.map inAscii := by
  induction w with
  | nil => rfl
  | cons c w ih =>
    obtain ⟨hc, hw⟩ := List.forall_mem_cons.1 h
    rw [transcribe_cons, hc, if_neg Bool.false_ne_true, ih hw, List.map_cons]

theorem mem_transcribe (hc : c ∈ w) (hf : isForeign c = true) : '?' ∈ transcribe w := by
  induction w with
  | nil => cases hc
  | cons d w ih =>
    rw [transcribe_cons]
    cases hd : isForeign d with
    | true => exact List.mem_singleton.2 rfl
    | false =>
      rcases List.mem_cons.1 hc with rfl | hc
      · cases hd.symm.trans hf
      · exact List.mem_cons_of_mem _ (ih hc)

theorem asciiForm_eq_map_inAscii (h : ∀ c ∈ w, isForeign c = false) :
    asciiForm w = w.map inAscii := by
  unfold asciiForm
  split
  · next hall =>
    have hsame : ∀ c ∈ w, inAscii c = c := by
      intro c hc
      have hlt : c.toNat < 128 := of_decide_eq_true (List.all_eq_true.1 hall c hc)
      rcases inAscii_cases c with ⟨-, e⟩ | ⟨hw, -⟩ | ⟨hd, e⟩ | ⟨hf, -⟩
      · exact e
      · have := isWideBlank_toNat hw
        omega
      · rw [isDecimalDigit_ascii hlt, isDigit_iff] at hd
        exact if_pos (by omega)
      · rw [h c hc] at hf
        cases hf
    rw [List.map_congr_left hsame, List.map_id']
  · exact transcribe_eq_map h

/-- A character without an ASCII form leaves one in the text that no numeral has. -/
theorem exists_mem_asciiForm (hc : c ∈ w) (hf : isForeign c = true) :
    ∃ d ∈ asciiForm w, isAsciiBlank d = false ∧ d.isDigit = false ∧ d ∉ ['+', '-', '_'] := by
  unfold asciiForm
  split
  · next hall =>
    have hlt : c.toNat < 128 := of_decide_eq_true (List.all_eq_true.1 hall c hc)
    obtain ⟨hle, hblank, hdigit⟩ := isForeign_iff.1 hf
    have hsign : ∀ d ∈ ['+', '-', '_'], d.toNat < 127 := by decide
    refine ⟨c, hc, not_isAsciiBlank_of_le hle, ?_, fun hs => absurd (hsign c hs) (Nat.not_lt.2 hle)⟩
    rwa [isDecimalDigit_ascii hlt] at hdigit
  · exact ⟨'?', mem_transcribe hc hf, by decide⟩

/-! ## The same numeral in ASCII -/

theorem inAscii_digit (h : isDecimalDigit c = true) : inAscii c = asciiChar c := by
  rcases inAscii_cases c with ⟨hlt, e⟩ | ⟨hw, -⟩ | ⟨-, e⟩ | ⟨hf, -⟩
  · rw [e, asciiChar, if_pos hlt]
  · cases hw.symm.trans (not_isWideBlank_of_isDecimalDigit h)
  · exact e
  · cases h.symm.trans (isForeign_iff.1 hf).2.2

theorem digitsToNat_inAscii (h : ∀ c ∈ ds, isDecimalDigit c = true) :
    digitsToNat (ds.map inAscii) = digitsToNat ds := by
  rw [List.map_congr_left fun c hc => inAscii_digit (h c hc), digitsToNat_asciiForm h]

theorem Grouped.of_map (h : Grouped Char.isDigit (w.map inAscii) ds) :
    ∃ us, ds = us.map inAscii ∧ Grouped isDecimalDigit w us := by
  generalize hv : w.map inAscii = v at h
  induction h generalizing w with
  | one hc =>
    obtain ⟨d, r, rfl, rfl, hr⟩ := List.map_eq_cons_iff.1 hv
    obtain rfl := List.map_eq_nil_iff.1 hr
    exact ⟨[d], rfl, .one (isDigit_inAscii d ▸ hc)⟩
  | digit hc _ ih =>
    obtain ⟨d, r, rfl, rfl, hr⟩ := List.map_eq_cons_iff.1 hv
    obtain ⟨us, rfl, hus⟩ := ih hr
    exact ⟨d :: us, rfl, .digit (isDigit_inAscii d ▸ hc) hus⟩
  | underscore hc _ ih =>
    obtain ⟨d, r, rfl, rfl, hr⟩ := List.map_eq_cons_iff.1 hv
    obtain ⟨e, v, rfl, he, hw⟩ := List.map_eq_cons_iff.1 hr
    obtain rfl := (inAscii_eq_iff (by decide)).1 he
    obtain ⟨us, rfl, hus⟩ := ih hw
    exact ⟨d :: us, rfl, .underscore (isDigit_inAscii d ▸ hc) hus⟩

theorem Grouped.map (h : Grouped isDecimalDigit w ds) :
    Grouped Char.isDigit (w.map inAscii) (ds.map inAscii) := by
  induction h with
  | one hc => exact .one ((isDigit_inAscii _).trans hc)
  | digit hc _ ih => exact .digit ((isDigit_inAscii _).trans hc) ih
  | underscore hc _ ih => exact .underscore ((isDigit_inAscii _).trans hc) ih

theorem sign_map {negative : Bool} : Sign (w.map inAscii) negative ↔ Sign w negative := by
  constructor
  · intro h
    generalize hv : w.map inAscii = v at h
    cases h with
    | none => exact List.map_eq_nil_iff.1 hv ▸ .none
    | plus =>
      obtain ⟨d, r, rfl, hd, hr⟩ := List.map_eq_cons_iff.1 hv
      obtain rfl := List.map_eq_nil_iff.1 hr
      exact (inAscii_eq_iff (by decide)).1 hd ▸ .plus
    | minus =>
      obtain ⟨d, r, rfl, hd, hr⟩ := List.map_eq_cons_iff.1 hv
      obtain rfl := List.map_eq_nil_iff.1 hr
      exact (inAscii_eq_iff (by decide)).1 hd ▸ .minus
  · intro h
    cases h with
    | none => exact .none
    | plus => exact .plus
    | minus => exact .minus

theorem forall_isAsciiBlank_map :
    (∀ c ∈ w.map inAscii, isAsciiBlank c = true) ↔ ∀ c ∈ w, isMargin c = true := by
  rw [List.forall_mem_map]
  exact forall₂_congr fun c _ => by rw [isAsciiBlank_inAscii]

theorem spells_map :
    Spells isAsciiBlank Char.isDigit (w.map inAscii) n ↔ Spells isMargin isDecimalDigit w n := by
  constructor
  · intro h
    generalize hv : w.map inAscii = v at h
    cases h with
    | intro hbefore hsign hrun hlength hafter =>
      obtain ⟨before, w₁, rfl, rfl, h₁⟩ := List.map_eq_append_iff.1 hv
      obtain ⟨sign, w₂, rfl, rfl, h₂⟩ := List.map_eq_append_iff.1 h₁
      obtain ⟨run, after, rfl, rfl, rfl⟩ := List.map_eq_append_iff.1 h₂
      obtain ⟨digits, rfl, hdigits⟩ := hrun.of_map
      rw [digitsToNat_inAscii hdigits.forall_digits]
      rw [List.length_map] at hlength
      exact .intro (forall_isAsciiBlank_map.1 hbefore) (sign_map.1 hsign) hdigits hlength
        (forall_isAsciiBlank_map.1 hafter)
  · intro h
    cases h with
    | intro hbefore hsign hrun hlength hafter =>
      rw [← digitsToNat_inAscii hrun.forall_digits, List.map_append, List.map_append,
        List.map_append]
      exact .intro (forall_isAsciiBlank_map.2 hbefore) (sign_map.2 hsign) hrun.map
        (by rwa [List.length_map]) (forall_isAsciiBlank_map.2 hafter)

/-- A text with a character that has no ASCII form spells nothing. -/
theorem not_spells_of_isForeign (hc : c ∈ w) (hf : isForeign c = true) :
    ¬ Spells isMargin isDecimalDigit w n := by
  intro h
  obtain ⟨hle, hblank, hdigit⟩ := isForeign_iff.1 hf
  have hsign : ∀ d ∈ ['+', '-', '_'], d.toNat < 127 := by decide
  rcases h.mem c hc with hm | hd | hs
  · rw [isMargin_of_le hle, ← isBlank_of_le hle, hblank] at hm
    cases hm
  · cases hd.symm.trans hdigit
  · exact absurd (hsign c hs) (Nat.not_lt.2 hle)

/-- What is read from a text is what the text spells. -/
theorem readInteger_eq_ok_iff {text : String} :
    readInteger text = .ok n ↔ Spells isMargin isDecimalDigit text.toList n := by
  rw [readInteger_eq_ok_ascii]
  -- The ASCII form ends at a character that has none, so it is no map of the text there.
  by_cases h : ∃ c ∈ text.toList, isForeign c = true
  · obtain ⟨c, hc, hf⟩ := h
    obtain ⟨d, hd, hblank, hdigit, hsign⟩ := exists_mem_asciiForm hc hf
    refine ⟨fun h => ?_, fun h => absurd h (not_spells_of_isForeign hc hf)⟩
    rcases h.mem d hd with hb | hb | hb
    · cases hb.symm.trans hblank
    · cases hb.symm.trans hdigit
    · exact absurd hb hsign
  · have hnone : ∀ c ∈ text.toList, isForeign c = false := fun c hc =>
      Bool.eq_false_iff.2 fun hf => h ⟨c, hc, hf⟩
    rw [asciiForm_eq_map_inAscii hnone, spells_map]

end Numeral

/-! ## Digits alone -/

namespace Json

variable {w : List Char}

theorem digitsToNat_concat (w : List Char) {d : Char} (hd : d.isDigit = true) :
    digitsToNat (w ++ [d]) = 10 * digitsToNat w + (d.toNat - 48) := by
  rw [digitsToNat, List.foldl_append, List.foldl_cons, List.foldl_nil, digitValue?_of_isDigit hd]
  rfl

theorem digitChar_of_isDigit {d : Char} (hd : d.isDigit = true) : (d.toNat - 48).digitChar = d := by
  have all : ∀ m < 10, m.digitChar = Char.ofNat (48 + m) := by decide
  have hdigit := isDigit_iff.1 hd
  rw [all _ (by omega), Nat.add_sub_cancel' hdigit.1, Char.ofNat_toNat]

/-- Digits that do not begin with zero are those of the number that they write. -/
theorem toDigits_cons {c : Char} {ds : List Char} (h : AreDigits (c :: ds)) (hc : c ≠ '0') :
    0 < digitsToNat (c :: ds) ∧ Nat.toDigits 10 (digitsToNat (c :: ds)) = c :: ds := by
  obtain ⟨hcdigit, hds⟩ := List.forall_mem_cons.1 h
  have hrange := isDigit_iff.1 hcdigit
  -- The last digit is the remainder of the number by ten.
  induction ds using List.reverseRecOn with
  | nil =>
    have hzero : c.toNat ≠ 48 := fun e => hc (Char.toNat_inj.1 e)
    have hvalue : digitsToNat [c] = c.toNat - 48 := by
      rw [← List.nil_append [c], digitsToNat_concat [] hcdigit]
      exact Nat.zero_add _
    rw [hvalue, Nat.toDigits_of_lt_base (by omega), digitChar_of_isDigit hcdigit]
    exact ⟨by omega, rfl⟩
  | append_singleton ds d ih =>
    obtain ⟨hds, hd⟩ := List.forall_mem_append.1 hds
    have hd := List.forall_mem_singleton.1 hd
    obtain ⟨hpos, hdigits⟩ := ih (List.forall_mem_cons.2 ⟨hcdigit, hds⟩) hds
    have hdrange := isDigit_iff.1 hd
    rw [← List.cons_append, digitsToNat_concat (c :: ds) hd]
    generalize digitsToNat (c :: ds) = m at hpos hdigits ⊢
    refine ⟨by omega, ?_⟩
    rw [Nat.toDigits_of_base_le (by decide) (by omega),
      show (10 * m + (d.toNat - 48)) / 10 = m by omega,
      show (10 * m + (d.toNat - 48)) % 10 = d.toNat - 48 by omega, hdigits,
      digitChar_of_isDigit hd]

/-- Digits without a zero in front are those of the number that they write. -/
theorem IsWhole.toDigits_digitsToNat (h : IsWhole w) : Nat.toDigits 10 (digitsToNat w) = w := by
  obtain ⟨hdigits, rfl | ⟨c, ds, rfl, hc⟩⟩ := h
  · rfl
  · exact (toDigits_cons hdigits hc).2

theorem IsWhole.ne_nil (h : IsWhole w) : w ≠ [] := by
  obtain ⟨-, rfl | ⟨c, ds, rfl, -⟩⟩ := h
  · exact List.cons_ne_nil _ _
  · exact List.cons_ne_nil _ _

theorem AreDigits.isDecimalDigit (h : AreDigits w) : ∀ c ∈ w, isDecimalDigit c = true :=
  fun c hc => isDecimalDigit_of_isDigit (h c hc)

end Json

namespace Numeral

open Json

/-- Digits alone spell only the number that they write, if they are not too many. -/
theorem spells_digits {w : List Char} {n : Int} (hne : w ≠ []) (h : AreDigits w) :
    Spells isMargin isDecimalDigit w n ↔ w.length ≤ maxDigits ∧ n = digitsToNat w := by
  have hread := @readInteger_digits (String.ofList w) (by rwa [String.toList_ofList])
    (by rw [String.toList_ofList]; exact h.isDecimalDigit)
  rw [String.toList_ofList, String.length_ofList] at hread
  have hspells := @readInteger_eq_ok_iff n (String.ofList w)
  rw [String.toList_ofList, hread] at hspells
  rw [← hspells]
  by_cases hlength : maxDigits < w.length
  · simp [hlength, Nat.not_le.2 hlength]
  · simp [hlength, Nat.not_lt.1 hlength, eq_comm]

end Numeral

end AlgebraBatch
