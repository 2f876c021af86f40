import AlgebraBatch.Proofs.Decimal.Unsigned
import AlgebraBatch.Proofs.Expr.Walk
import AlgebraBatch.Proofs.Syntax.FloatLexeme
import AlgebraBatch.Proofs.Syntax.WellFormed

/-!
# Values of floats

Every float lexeme is read as a number: its ASCII form is a decimal in the usual digits. So an
expression that a text may mean equals itself.
-/

namespace AlgebraBatch

open AlgebraBatch.Text AlgebraBatch.Syntax

namespace Binary64

theorem equal_self {x : Binary64} (h : x ≠ .nan) : x.equal x = true := by
  cases x with
  | nan => exact absurd rfl h
  | infinite n => exact beq_self_eq_true n
  | finite n m q => exact beq_self_eq_true (scaled n m q)

end Binary64

namespace Numeral

/-! ## ASCII form -/

/-- The character that stands for a digit or an ASCII character in the ASCII form. -/
def asciiChar (c : Char) : Char :=
  if c.toNat < 127 then c else digitChar ((digitValue? c).getD 0)

theorem isDigit_asciiChar {c : Char} (h : isDecimalDigit c = true) :
    (asciiChar c).isDigit = true := by
  unfold asciiChar
  split
  · next hc => exact (isDecimalDigit_ascii (by omega)).symm.trans h
  · obtain ⟨d, hd⟩ := Option.isSome_iff_exists.1 h
    rw [hd]
    exact isDigit_digitChar (digitValue?_lt hd)

theorem asciiForm_eq_map {cs : List Char}
    (h : ∀ c ∈ cs, isDecimalDigit c = true ∨ c.toNat < 127) :
    asciiForm cs = cs.map asciiChar := by
  have transcribed : transcribe cs = cs.map asciiChar := by
    induction cs with
    | nil => rfl
    | cons c cs ih =>
      have ih := ih fun d hd => h d (List.mem_cons_of_mem _ hd)
      rw [transcribe, List.map_cons, asciiChar, ih]
      split
      · rfl
      · next hc =>
        have hd := (h c List.mem_cons_self).resolve_right hc
        obtain ⟨d, hv⟩ := Option.isSome_iff_exists.1 hd
        rw [isBlank_eq_false_of_isDecimalDigit hd hc, if_neg Bool.false_ne_true, hv]
        rfl
  unfold asciiForm
  split
  · next hall =>
    have same : ∀ c ∈ cs, asciiChar c = c := by
      intro c hc
      have hlt : c.toNat < 128 := by simpa using List.all_eq_true.1 hall c hc
      refine if_pos ?_
      rcases h c hc with hd | hc
      · have := isDigit_iff.1 ((isDecimalDigit_ascii hlt).symm.trans hd)
        omega
      · exact hc
    exact (List.map_congr_left same).trans (List.map_id' cs) |>.symm
  · exact transcribed

/-! ## Reading -/

theorem readExponent?_of_isExponent {s : List Char} (h : IsExponent Char.isDigit ['e', 'E'] s) :
    ∃ e, readExponent? s = some e := by
  rcases h with rfl | ⟨m, hm, sign, hs, d, ds, rfl, hds⟩
  · exact ⟨0, rfl⟩
  · have hmark : (m == 'e' || m == 'E') = true := by simpa using hm
    have hd := isDigit_iff.1 (hds d List.mem_cons_self)
    have hsign : ∃ negative, takeSign (sign ++ d :: ds) = (negative, d :: ds) := by
      simp only [List.mem_cons, List.not_mem_nil, or_false] at hs
      rcases hs with rfl | rfl | rfl
      · refine ⟨false, ?_⟩
        rw [List.nil_append, takeSign]
        · rintro _ e; cases e; revert hd; decide
        · rintro _ e; cases e; revert hd; decide
      · exact ⟨false, rfl⟩
      · exact ⟨true, rfl⟩
    obtain ⟨negative, hsign⟩ := hsign
    have hall : (d :: ds).all Char.isDigit = true := List.all_eq_true.2 hds
    rw [readExponent?, if_pos hmark, hsign]
    simp only [List.isEmpty_cons, hall, Bool.not_true, Bool.or_self, Bool.false_eq_true, if_false]
    exact ⟨_, rfl⟩

theorem toLower_unsigned {c : Char} (h : beginsUnsigned c = true) : c.toLower = c := by
  have hc : c.toNat ≤ 57 := by
    rcases (Bool.or_eq_true _ _).mp h with h | h
    · exact (isDigit_iff.1 h).2
    · rw [eq_of_beq h]; decide
  refine dif_neg fun hu => ?_
  have : 65 ≤ c.toNat := UInt32.le_iff_toNat_le.1 hu.1
  omega

section

variable {marks whole fraction exponent : List Char}

theorem IsDecimal.cons (h : IsDecimal Char.isDigit marks whole fraction exponent) :
    ∃ c r, whole ++ (fraction ++ exponent) = c :: r ∧ beginsUnsigned c = true := by
  cases whole with
  | cons c r =>
    refine ⟨c, _, rfl, ?_⟩
    rw [beginsUnsigned, h.isWhole c List.mem_cons_self, Bool.true_or]
  | nil =>
    rcases h.isFraction with rfl | ⟨ds, rfl, -⟩
    · exact absurd h.hasDigits (by simp)
    · exact ⟨'.', _, rfl, rfl⟩

/-- Where no digit comes first there are none to take. -/
theorem no_digits {r : List Char} (h : ∀ c r', r = c :: r' → c.isDigit = false) :
    r.takeWhile Char.isDigit = [] ∧ r.dropWhile Char.isDigit = r := by
  cases r with
  | nil => exact ⟨rfl, rfl⟩
  | cons c r' =>
    rw [List.takeWhile_cons, List.dropWhile_cons, h c r' rfl]
    exact ⟨rfl, rfl⟩

/-- There are digits before the point or after it, and the exponent follows. -/
theorem afterPoint_of_isDecimal
    (h : IsDecimal Char.isDigit ['e', 'E'] whole fraction exponent) :
    ∃ ds, afterPoint (fraction ++ exponent) = (ds, exponent) ∧
      (whole.isEmpty && ds.isEmpty) = false := by
  have hexp : ∀ c r, exponent = c :: r → c.isDigit = false ∧ c ≠ '.' := by
    rintro c r rfl
    exact h.isExponent.head (by decide)
  rcases h.isFraction with rfl | ⟨ds, rfl, hds⟩
  · refine ⟨[], ?_, ?_⟩
    · unfold afterPoint
      split
      · next e => exact absurd rfl (hexp _ _ e).2
      · rfl
    · cases whole with
      | nil => exact absurd h.hasDigits (by simp)
      | cons c r => rfl
  · obtain ⟨ht, hd⟩ := no_digits fun c r e => (hexp c r e).1
    refine ⟨ds, ?_, ?_⟩
    · rw [List.cons_append, afterPoint, List.takeWhile_append_of_pos hds,
        List.dropWhile_append_of_pos hds, ht, hd, List.append_nil]
    · rcases h.hasDigits with hw | hl
      · cases whole with
        | nil => exact absurd rfl hw
        | cons c r => rfl
      · cases ds with
        | nil => exact absurd hl (Nat.lt_irrefl 1)
        | cons d ds => exact Bool.and_false _

theorem readDecimal?_of_isDecimal (h : IsDecimal Char.isDigit ['e', 'E'] whole fraction exponent) :
    ∃ digits e, readDecimal? (whole ++ (fraction ++ exponent)) =
      some (.ofDecimal false digits e) := by
  have hnext : ∀ c r, fraction ++ exponent = c :: r → c.isDigit = false := by
    intro c r hr
    rcases h.isFraction with rfl | ⟨ds, rfl, -⟩
    · obtain rfl : exponent = c :: r := hr
      exact (h.isExponent.head (by decide)).1
    · cases hr; decide
  obtain ⟨ht, hd⟩ := no_digits hnext
  obtain ⟨ds, hp, hne⟩ := afterPoint_of_isDecimal h
  obtain ⟨e, he⟩ := readExponent?_of_isExponent h.isExponent
  obtain ⟨c, r, hcons, hu⟩ := h.cons
  have hhead : ∀ name d rest, String.ofList ((whole ++ (fraction ++ exponent)).map Char.toLower) =
      name → name.toList = d :: rest → c = d := by
    rintro name d rest rfl hn
    rw [String.toList_ofList, hcons, List.map_cons, toLower_unsigned hu] at hn
    exact (List.cons.inj hn).1
  have hletter : c ≠ 'i' ∧ c ≠ 'n' := by
    constructor
    · rintro rfl; revert hu; decide
    · rintro rfl; revert hu; decide
  refine ⟨digitsToNat (whole ++ ds), e - ds.length, ?_⟩
  rw [readDecimal?, show takeSign (whole ++ (fraction ++ exponent)) =
    (false, whole ++ (fraction ++ exponent)) by rw [hcons, takeSign_unsigned hu]]
  simp only
  split
  · next hn => exact absurd (hhead _ 'i' _ hn rfl) hletter.1
  · next hn => exact absurd (hhead _ 'i' _ hn rfl) hletter.1
  · next hn => exact absurd (hhead _ 'n' _ hn rfl) hletter.2
  · rw [List.takeWhile_append_of_pos h.isWhole, List.dropWhile_append_of_pos h.isWhole, ht, hd, hp,
      List.append_nil]
    simp only
    rw [if_neg (ne_true_of_eq_false hne), he]
    rfl

end

theorem ungroup?_eq_self {cs : List Char} (h : ∀ c ∈ cs, c ≠ '_') :
    ∀ afterDigit, ungroup? afterDigit cs = some cs := by
  induction cs with
  | nil => exact fun _ => rfl
  | cons c cs ih =>
    intro afterDigit
    have hc := h c List.mem_cons_self
    rw [ungroup?]
    · rw [beq_false_of_ne hc, if_neg Bool.false_ne_true,
        ih fun d hd => h d (List.mem_cons_of_mem _ hd)]
      rfl
    · exact fun _ _ e => absurd e hc

theorem dropRightWhile_eq_self {p : Char → Bool} {cs : List Char} (h : ∀ c ∈ cs, p c = false) :
    dropRightWhile p cs = cs := by
  cases cs with
  | nil => rfl
  | cons c cs =>
    rw [dropRightWhile_cons (h c List.mem_cons_self),
      dropRightWhile_eq_self fun d hd => h d (List.mem_cons_of_mem _ hd)]

/-- The ASCII form of a decimal is read as a number. -/
theorem readFloat_of_isDecimal {s whole fraction exponent : List Char}
    (hs : asciiForm s = whole ++ (fraction ++ exponent))
    (h : IsDecimal Char.isDigit ['e', 'E'] whole fraction exponent) :
    ∃ digits e, readFloat (String.ofList s) = .ok (.ofDecimal false digits e) := by
  have plain : ∀ c ∈ whole ++ (fraction ++ exponent), c ≠ '_' ∧ isAsciiBlank c = false := by
    intro c hc
    have marks : ∀ c ∈ ['.', '+', '-', 'e', 'E'], c ≠ '_' ∧ isAsciiBlank c = false := by decide
    rcases h.mem hc with hd | hm
    · have hu : beginsUnsigned c = true := by rw [beginsUnsigned, hd, Bool.true_or]
      exact (beginsUnsigned_apart hu).2.2
    · refine marks c ?_
      rcases hm with hm | hm
      · exact List.mem_append_left ['e', 'E'] hm
      · exact List.mem_append_right ['.', '+', '-'] hm
  obtain ⟨c, r, hcons, hu⟩ := h.cons
  have hb : isAsciiBlank c = false := (beginsUnsigned_apart hu).2.2.2
  have hdrop : (whole ++ (fraction ++ exponent)).dropWhile isAsciiBlank =
      whole ++ (fraction ++ exponent) := by
    rw [hcons, List.dropWhile_cons_of_neg (ne_true_of_eq_false hb)]
  obtain ⟨digits, e, hr⟩ := readDecimal?_of_isDecimal h
  refine ⟨digits, e, ?_⟩
  rw [readFloat, String.toList_ofList, hs, hdrop, dropRightWhile_eq_self fun c hc => (plain c hc).2,
    ungroup?_eq_self fun c hc => (plain c hc).1, Option.bind_some, hr]

end Numeral

namespace Syntax

open Numeral

theorem isDecimalDigit_mark {c : Char} (h : isDecimalDigit c = true) :
    isDecimalDigit (if c == 'b' || c == 'B' then 'e' else c) = true := by
  have letters : ∀ c ∈ ['b', 'B'], isDecimalDigit c = false := by decide
  split
  · next hc => exact absurd h (ne_true_of_eq_false (letters c (by simpa using hc)))
  · exact h

/-- A float that a text spells is a number. -/
theorem floatValue_ne_nan {text : String} (h : Pattern.float.IsLexeme text.toList) :
    floatValue text ≠ .nan := by
  obtain ⟨whole, fraction, exponent, ht, hd⟩ := isDecimal_of_acceptFloat h
  rw [List.append_nil] at ht
  have marked : ∀ m ∈ ['e', 'E', 'b', 'B'],
      (if m == 'b' || m == 'B' then 'e' else m) ∈ ['e', 'E'] := by decide
  have ascii : ∀ m ∈ ['e', 'E'], asciiChar m ∈ ['e', 'E'] := by decide
  have hmark := hd.map (fun _ => isDecimalDigit_mark) (by decide) marked
  have hascii := hmark.map (fun _ => isDigit_asciiChar) (by decide) ascii
  have hform := asciiForm_eq_map fun c hc => (hmark.mem hc).imp_right fun hm => by
    have ascii : ∀ c ∈ ['.', '+', '-', 'e', 'E'], c.toNat < 127 := by decide
    refine ascii c ?_
    rcases hm with hm | hm
    · exact List.mem_append_left ['e', 'E'] hm
    · exact List.mem_append_right ['.', '+', '-'] hm
  rw [← List.map_append, ← List.map_append, ← ht] at hform
  obtain ⟨digits, e, hr⟩ := readFloat_of_isDecimal
    (by rw [hform, ht]; simp only [List.map_append]) hascii
  unfold floatValue
  simp only [hr]
  exact Binary64.ofDecimal_ne_nan _ _ _

end Syntax

namespace Expr

/-! ## Equality of an expression with itself -/

theorem equalItems_self {es : List Expr} (h : ∀ e ∈ es, e.equal e = true) :
    equalItems es es = true := by
  induction es with
  | nil => rfl
  | cons e es ih =>
    rw [equalItems, h e List.mem_cons_self, ih fun d hd => h d (List.mem_cons_of_mem _ hd)]
    rfl

theorem equalBranches_self {bs : List (Expr × Expr)}
    (h : ∀ b ∈ bs, b.1.equal b.1 = true ∧ b.2.equal b.2 = true) :
    equalBranches bs bs = true := by
  induction bs with
  | nil => rfl
  | cons b bs ih =>
    obtain ⟨hc, hv⟩ := h b List.mem_cons_self
    rw [equalBranches, hc, hv, ih fun d hd => h d (List.mem_cons_of_mem _ hd)]
    rfl

/-- An expression whose floats are spelled equals itself. -/
theorem equal_self {IsName : String → Prop} {e : Expr} (h : Everywhere (HasShape IsName) e) :
    e.equal e = true := by
  induction e using Expr.induction with
  | integer n => exact beq_self_eq_true n
  | float x text =>
    have hx : x.equal x = true := by
      rw [(everywhere_float.1 h).2]
      exact Binary64.equal_self (floatValue_ne_nan (everywhere_float.1 h).1)
    exact hx
  | string s => exact beq_self_eq_true s
  | boolean b => exact beq_self_eq_true b
  | identifier name => exact beq_self_eq_true name
  | operation op l r ihl ihr =>
    obtain ⟨-, hl, hr⟩ := everywhere_operation.1 h
    rw [equal, beq_self_eq_true, ihl hl, ihr hr]
    rfl
  | prefixed op e ih =>
    rw [equal, beq_self_eq_true, ih (everywhere_prefixed.1 h).2]
    rfl
  | postfixed op e ih =>
    rw [equal, beq_self_eq_true, ih (everywhere_postfixed.1 h).2]
    rfl
  | call head args ih iha =>
    obtain ⟨-, hh, ha⟩ := everywhere_call.1 h
    rw [equal, ih hh, equalItems_self fun a hm => iha a hm (ha a hm)]
    rfl
  | indexed target indices ih iha =>
    obtain ⟨-, ht, hi⟩ := everywhere_indexed.1 h
    rw [equal, ih ht, equalItems_self fun a hm => iha a hm (hi a hm)]
    rfl
  | conditional branches otherwise ihb iho =>
    obtain ⟨-, hb, ho⟩ := everywhere_conditional.1 h
    have hbranches := equalBranches_self fun b hm =>
      ⟨(ihb b hm).1 (hb b hm).1, (ihb b hm).2 (hb b hm).2⟩
    have hotherwise : equalOption otherwise otherwise = true := by
      cases otherwise with
      | none => rfl
      | some e => exact iho e rfl (ho e rfl)
    rw [equal, hbranches, hotherwise]
    rfl
  | list items ih =>
    rw [equal, equalItems_self fun a hm => ih a hm ((everywhere_list.1 h).2 a hm)]
  | set items ih =>
    rw [equal, equalItems_self fun a hm => ih a hm ((everywhere_set.1 h).2 a hm)]
  | root items ih =>
    rw [equal, equalItems_self fun a hm => ih a hm ((everywhere_root.1 h).2 a hm)]

theorem Readable.equal_self {e : Expr} (h : Readable e) : e.equal e = true :=
  Expr.equal_self fun d hd => (h d hd).1

end Expr

end AlgebraBatch
