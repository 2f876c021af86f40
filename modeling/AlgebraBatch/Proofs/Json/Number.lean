import AlgebraBatch.Decimal.Written
import AlgebraBatch.Json.Reader
import AlgebraBatch.Proofs.Decimal.Shortest
import AlgebraBatch.Proofs.Text.CharClass

/-!
# Written numbers are read back

A written number is read up to the end that it is written with, if what follows does not go on with
it. A double comes back from its shortest decimal, whichever form that is written in, because the
digits, the point and the exponent together always have the value of the decimal.
-/

namespace AlgebraBatch.Json

open AlgebraBatch.Text AlgebraBatch.Binary64 AlgebraBatch.Decimal

variable {cs ds rest whole places : List Char} {n : Nat} {e k q : Int} {negative : Bool}

/-! ## Digits -/

def AreDigits (cs : List Char) : Prop := ∀ c ∈ cs, c.isDigit = true

instance : DecidablePred AreDigits := fun cs => inferInstanceAs (Decidable (∀ c ∈ cs, _))

/-- What follows a number: nothing that a number may go on with. -/
def EndsNumber : List Char → Prop
  | [] => True
  | c :: _ => c.isDigit = false ∧ c ∉ ['.', 'e', 'E']

instance : DecidablePred EndsNumber
  | [] => .isTrue trivial
  | _ :: _ => inferInstanceAs (Decidable (_ ∧ _))

/-- Digits end before the text. -/
def EndsDigits : List Char → Prop
  | [] => True
  | c :: _ => c.isDigit = false

theorem EndsNumber.endsDigits (h : EndsNumber rest) : EndsDigits rest := by
  cases rest with
  | nil => trivial
  | cons c rest => exact h.1

theorem areDigits_toDigits (n : Nat) : AreDigits (Nat.toDigits 10 n) :=
  fun _ hc => Nat.isDigit_of_mem_toDigits (by decide) (by decide) hc

theorem areDigits_zeros (n : Nat) : AreDigits (List.replicate n '0') := by
  intro c hc
  rw [List.eq_of_mem_replicate hc]
  rfl

theorem AreDigits.append (h : AreDigits cs) (h' : AreDigits ds) : AreDigits (cs ++ ds) :=
  List.forall_mem_append.2 ⟨h, h'⟩

theorem takeWhile_digits (h : AreDigits cs) (hr : EndsDigits rest) :
    (cs ++ rest).takeWhile Char.isDigit = cs := by
  rw [List.takeWhile_append_of_pos h]
  cases rest with
  | nil => exact List.append_nil cs
  | cons c rest => rw [List.takeWhile_cons_of_neg (ne_true_of_eq_false hr), List.append_nil]

theorem dropWhile_digits (h : AreDigits cs) (hr : EndsDigits rest) :
    (cs ++ rest).dropWhile Char.isDigit = rest := by
  rw [List.dropWhile_append_of_pos h]
  cases rest with
  | nil => rfl
  | cons c rest => exact List.dropWhile_cons_of_neg (ne_true_of_eq_false hr)

/-- The digits of a positive number do not begin with zero. -/
theorem toDigits_head (hn : 0 < n) : ∃ c cs, Nat.toDigits 10 n = c :: cs ∧ c ≠ '0' := by
  induction n using Nat.strong_induction_on with
  | _ n ih =>
    by_cases hlt : n < 10
    · rw [Nat.toDigits_of_lt_base hlt]
      have all : ∀ n < 10, 0 < n → n.digitChar ≠ '0' := by decide
      exact ⟨_, [], rfl, all n hlt hn⟩
    · obtain ⟨c, cs, hcs, hc⟩ := ih (n / 10) (by omega) (by omega)
      rw [Nat.toDigits_of_base_le (by decide) (by omega), hcs]
      exact ⟨c, _, rfl, hc⟩

theorem digitsToNat_zeros_append (n : Nat) (cs : List Char) :
    digitsToNat (List.replicate n '0' ++ cs) = digitsToNat cs := by
  induction n with
  | zero => rfl
  | succ n ih => exact ih

theorem digitsToNat_append_zero (cs : List Char) :
    digitsToNat (cs ++ ['0']) = digitsToNat cs * 10 := by
  rw [digitsToNat, List.foldl_append, mul_comm]
  rfl

theorem digitsToNat_append_zeros (cs : List Char) (n : Nat) :
    digitsToNat (cs ++ List.replicate n '0') = digitsToNat cs * 10 ^ n := by
  induction n with
  | zero => rw [List.replicate_zero, List.append_nil, pow_zero, mul_one]
  | succ n ih =>
    rw [List.replicate_succ', ← List.append_assoc, digitsToNat_append_zero, ih, pow_succ, mul_assoc]

/-! ## Parts of numbers -/

/-- The digits before the point: zero alone, or digits that do not begin with zero. -/
def IsWhole (cs : List Char) : Prop :=
  AreDigits cs ∧ (cs = ['0'] ∨ ∃ c ds, cs = c :: ds ∧ c ≠ '0')

theorem isWhole_toDigits (n : Nat) : IsWhole (Nat.toDigits 10 n) := by
  refine ⟨areDigits_toDigits n, ?_⟩
  rcases Nat.eq_zero_or_pos n with rfl | hn
  · exact .inl rfl
  · exact .inr (toDigits_head hn)

theorem readWhole_append (h : IsWhole whole) (hr : EndsDigits rest) :
    readWhole (whole ++ rest) = some (whole, rest) := by
  obtain ⟨hdigits, rfl | ⟨c, ds, rfl, hc⟩⟩ := h
  · rfl
  · obtain ⟨hd, hds⟩ := List.forall_mem_cons.1 hdigits
    have hzero : (c == '0') = false := beq_false_of_ne hc
    rw [List.cons_append, readWhole, hzero, hd, takeWhile_digits hds hr, dropWhile_digits hds hr]
    rfl

theorem readPlaces_point (h : AreDigits places) (hne : places ≠ []) (hr : EndsDigits rest) :
    readPlaces ('.' :: (places ++ rest)) = (places, rest) := by
  rw [readPlaces]
  simp only [takeWhile_digits h hr, dropWhile_digits h hr]
  rw [if_neg (by simpa using hne)]

theorem readPlaces_none (hr : ∀ ds, rest ≠ '.' :: ds) : readPlaces rest = ([], rest) := by
  rw [readPlaces]
  exact fun ds h => hr ds h

theorem readPower_none (hr : EndsNumber rest) : readPower rest = (none, rest) := by
  cases rest with
  | nil => rfl
  | cons c rest =>
    have hc : (c == 'e' || c == 'E') = false := by
      have := hr.2
      simp only [List.mem_cons, List.not_mem_nil, or_false, not_or] at this
      rw [beq_false_of_ne this.2.1, beq_false_of_ne this.2.2]
      rfl
    rw [readPower, hc]
    rfl

theorem readPower_exponent {sign : Char} (hs : sign ∈ ['-', '+']) (h : AreDigits cs) (hne : cs ≠ [])
    (hr : EndsDigits rest) : readPower ('e' :: sign :: (cs ++ rest)) =
      (some (if sign = '-' then -(digitsToNat cs : Int) else digitsToNat cs), rest) := by
  have hempty : cs.isEmpty = false := List.isEmpty_eq_false_iff.2 hne
  obtain rfl | rfl : sign = '-' ∨ sign = '+' := by simpa using hs
  · simp only [readPower, Numeral.takeSign, takeWhile_digits h hr, dropWhile_digits h hr, hempty]
    rfl
  · simp only [readPower, Numeral.takeSign, takeWhile_digits h hr, dropWhile_digits h hr, hempty]
    rfl

theorem readNumber_of_parts {s s₁ s₂ : List Char} {power : Option Int}
    (hw : readWhole s = some (whole, s₁)) (hp : readPlaces s₁ = (places, s₂))
    (he : readPower s₂ = (power, rest)) (hfloat : (places.isEmpty && power.isNone) = false) :
    readNumber negative s = some (.float (.ofDecimal negative (digitsToNat (whole ++ places))
      (power.getD 0 - places.length)), rest) := by
  rw [readNumber, hw, Option.bind_eq_bind, Option.bind_some]
  simp only [hp, he, hfloat]
  rfl

/-! ## Integers -/

theorem readNumber_integer (hn : (Nat.toDigits 10 n).length ≤ Numeral.maxDigits)
    (hr : EndsNumber rest) : readNumber negative (Nat.toDigits 10 n ++ rest) =
      some (.int (if negative then -n else n), rest) := by
  have hplaces : readPlaces rest = ([], rest) := by
    refine readPlaces_none fun ds h => ?_
    rw [h] at hr
    exact hr.2 (by decide)
  rw [readNumber, readWhole_append (isWhole_toDigits n) hr.endsDigits, Option.bind_eq_bind,
    Option.bind_some]
  simp only [hplaces, readPower_none hr]
  rw [digitsToNat_toDigits, if_neg (not_lt.2 hn)]
  rfl

/-! ## Doubles -/

/-- The text of a decimal is read as a decimal of the same value. -/
def ReadsDecimal (cs : List Char) (d : Nat) (k : Int) : Prop :=
  ∀ rest negative, EndsNumber rest → ∃ d' k',
    readNumber negative (cs ++ rest) = some (.float (.ofDecimal negative d' k'), rest) ∧
      (d' : ℚ) * 10 ^ k' = d * 10 ^ k

variable {d : Nat}

theorem readsDecimal_pointed (hw : IsWhole whole) (hp : AreDigits places) (hne : places ≠ [])
    (hv : (digitsToNat (whole ++ places) : ℚ) * 10 ^ (-places.length : Int) = d * 10 ^ k) :
    ReadsDecimal (whole ++ '.' :: places) d k := by
  intro rest negative hr
  have hpoint : EndsDigits ('.' :: (places ++ rest)) := (by decide : '.'.isDigit = false)
  have hfloat : (places.isEmpty && (none : Option Int).isNone) = false := by
    rw [List.isEmpty_eq_false_iff.2 hne]
    rfl
  refine ⟨_, _, ?_, hv⟩
  rw [List.append_assoc, List.cons_append, readNumber_of_parts (readWhole_append hw hpoint)
    (readPlaces_point hp hne hr.endsDigits) (readPower_none hr) hfloat]
  rw [Option.getD_none, zero_sub]

/-- Digits with zeros after them. -/
theorem readsDecimal_zeros (hd : 0 < d) (hk : 0 ≤ k) :
    ReadsDecimal (pointed (toString d) k).toList d k := by
  obtain ⟨c, cs, hcs, hc⟩ := toDigits_head hd
  have htext : (pointed (toString d) k).toList =
      Nat.toDigits 10 d ++ List.replicate k.toNat '0' ++ '.' :: ['0'] := by
    rw [pointed, if_pos hk, String.toList_append, String.toList_append, zeros,
      String.toList_ofList]
    exact congrArg (· ++ _ ++ _) Nat.toList_repr
  have hwhole : IsWhole (Nat.toDigits 10 d ++ List.replicate k.toNat '0') := by
    refine ⟨(areDigits_toDigits d).append (areDigits_zeros _), .inr ?_⟩
    exact ⟨c, cs ++ List.replicate k.toNat '0', by rw [hcs]; rfl, hc⟩
  rw [htext]
  refine readsDecimal_pointed hwhole (by decide) (by decide) ?_
  rw [digitsToNat_append_zero, digitsToNat_append_zeros, digitsToNat_toDigits]
  lift k to ℕ using hk
  push_cast
  rw [Int.toNat_natCast, zpow_natCast]
  norm_num
  ring

/-- Digits with the point among them, or before them and after zeros. -/
theorem readsDecimal_places (hd : 0 < d) (hk : k < 0) :
    ReadsDecimal (pointed (toString d) k).toList d k := by
  obtain ⟨p, rfl⟩ : ∃ p : ℕ, k = -p := ⟨(-k).toNat, by omega⟩
  have hp : 0 < p := by omega
  have hlist : (toString d).toList = Nat.toDigits 10 d := Nat.toList_repr
  obtain ⟨cs, hcs⟩ : ∃ cs, cs = List.replicate (p + 1 - (Nat.toDigits 10 d).length) '0' ++
    Nat.toDigits 10 d := ⟨_, rfl⟩
  have htext : (pointed (toString d) (-p)).toList =
      cs.take (cs.length - p) ++ '.' :: cs.drop (cs.length - p) := by
    have hchars : (zeros (p + 1 - (toString d).length) ++ toString d).toList = cs := by
      rw [String.toList_append, zeros, String.toList_ofList, ← String.length_toList, hlist, hcs]
    rw [pointed, if_neg (not_le.2 hk), neg_neg, Int.toNat_natCast]
    simp only [hchars]
    rw [String.toList_append, String.toList_append, String.toList_ofList, String.toList_ofList,
      String.toList_ofList, List.append_assoc]
    rfl
  have hlength : p < cs.length := by
    rw [hcs, List.length_append, List.length_replicate]
    omega
  have hdigits : AreDigits cs := by
    rw [hcs]
    exact (areDigits_zeros _).append (areDigits_toDigits d)
  have hwhole : IsWhole (cs.take (cs.length - p)) := by
    refine ⟨fun c hc => hdigits c (List.mem_of_mem_take hc), ?_⟩
    by_cases hshort : (Nat.toDigits 10 d).length ≤ p
    · left
      obtain ⟨n, hn⟩ : ∃ n, p + 1 - (Nat.toDigits 10 d).length = n + 1 :=
        ⟨p - (Nat.toDigits 10 d).length, by omega⟩
      have hone : cs.length - p = 1 := by
        rw [hcs, List.length_append, List.length_replicate]
        omega
      rw [hone, hcs, hn]
      rfl
    · right
      obtain ⟨c, ds, hds, hc⟩ := toDigits_head hd
      have hnone : p + 1 - (Nat.toDigits 10 d).length = 0 := by omega
      obtain ⟨n, hn⟩ : ∃ n, cs.length - p = n + 1 := ⟨cs.length - p - 1, by omega⟩
      rw [hnone, List.replicate_zero, List.nil_append, hds] at hcs
      rw [hn, hcs]
      exact ⟨c, ds.take n, rfl, hc⟩
  rw [htext]
  refine readsDecimal_pointed hwhole (fun c hc => hdigits c (List.mem_of_mem_drop hc)) ?_ ?_
  · rw [ne_eq, List.drop_eq_nil_iff]
    omega
  · rw [List.take_append_drop, hcs, digitsToNat_zeros_append, digitsToNat_toDigits, ← hcs,
      List.length_drop]
    congr 2
    omega

/-- A written exponent has a sign and then digits, with zeros before them if they are few. -/
theorem toList_exponentText (style : Style) (e : Int) : ∃ sign ∈ ['-', '+'], ∃ cs,
    (style.exponentText e).toList = 'e' :: sign :: cs ∧ AreDigits cs ∧ cs ≠ [] ∧
      (if sign = '-' then -(digitsToNat cs : Int) else digitsToNat cs) = e := by
  have hlist : (toString e.natAbs).toList = Nat.toDigits 10 e.natAbs := Nat.toList_repr
  obtain ⟨w, hw⟩ : ∃ w, style.exponentWidth - (toString e.natAbs).length = w := ⟨_, rfl⟩
  refine ⟨if e < 0 then '-' else '+', ?_, List.replicate w '0' ++ Nat.toDigits 10 e.natAbs, ?_,
    (areDigits_zeros w).append (areDigits_toDigits _), ?_, ?_⟩
  · split <;> decide
  · rw [Style.exponentText]
    simp only [hw]
    rw [String.toList_append, String.toList_append, zeros, String.toList_ofList, hlist]
    split <;> rfl
  · exact List.append_ne_nil_of_right_ne_nil _ Nat.toDigits_ne_nil
  · rw [digitsToNat_zeros_append, digitsToNat_toDigits]
    rcases lt_or_ge e 0 with he | he
    · rw [if_pos he, if_pos rfl]
      omega
    · rw [if_neg (not_lt.2 he), if_neg (by decide)]
      omega

/-- The digits after a point, and no point if there are none. -/
def fraction : List Char → List Char
  | [] => []
  | c :: cs => '.' :: c :: cs

theorem toList_scientific (style : Style) {digits : String} {c : Char} (h : digits.toList = c :: ds)
    (e : Int) : (style.scientific digits e).toList =
      [c] ++ (fraction ds ++ (style.exponentText e).toList) := by
  have hc : c.toString.toList = [c] := by simp [Char.toString]
  unfold Style.scientific
  rw [h]
  cases ds with
  | nil =>
    rw [String.toList_append, hc]
    rfl
  | cons d ds =>
    simp only
    rw [String.toList_append, String.toList_append, String.toList_append, hc, String.toList_ofList,
      String.toList_ofList, List.append_assoc, List.append_assoc]
    rfl

theorem readPlaces_fraction (h : AreDigits ds) (hr : ∀ cs, rest ≠ '.' :: cs)
    (hr' : EndsDigits rest) : readPlaces (fraction ds ++ rest) = (ds, rest) := by
  cases ds with
  | nil => exact readPlaces_none hr
  | cons d ds => exact readPlaces_point h (List.cons_ne_nil d ds) hr'

/-- One digit, the others after a point, and an exponent. -/
theorem readsDecimal_scientific (style : Style) (hd : 0 < d) :
    ReadsDecimal (style.scientific (toString d) (k + (toString d).length - 1)).toList d k := by
  intro rest negative hr
  obtain ⟨c, ds, hds, hc⟩ := toDigits_head hd
  have hlist : (toString d).toList = c :: ds := Eq.trans Nat.toList_repr hds
  have hlength : ((toString d).length : Int) = ds.length + 1 := by
    rw [← String.length_toList, hlist, List.length_cons, Nat.cast_succ]
  have hdigits : AreDigits (c :: ds) := hds ▸ areDigits_toDigits d
  obtain ⟨hcdigit, hdsdigits⟩ := List.forall_mem_cons.1 hdigits
  have hwhole : IsWhole [c] := ⟨List.forall_mem_singleton.2 hcdigit, .inr ⟨c, [], rfl, hc⟩⟩
  obtain ⟨sign, hs, cs, hcs, hexp, hne, he⟩ :=
    toList_exponentText style (k + (toString d).length - 1)
  have hpower := readPower_exponent hs hexp hne hr.endsDigits
  have hmark : EndsDigits ('e' :: sign :: (cs ++ rest)) := (by decide : 'e'.isDigit = false)
  have hends : EndsDigits (fraction ds ++ 'e' :: sign :: (cs ++ rest)) := by
    cases ds with
    | nil => exact hmark
    | cons d ds => exact (by decide : '.'.isDigit = false)
  have hpoint : ∀ ds, 'e' :: sign :: (cs ++ rest) ≠ '.' :: ds := nofun
  refine ⟨d, k, ?_, rfl⟩
  have hexponent : (some (if sign = '-' then -(digitsToNat cs : Int) else digitsToNat cs)).getD 0 -
      ds.length = k := by
    rw [he, Option.getD_some, hlength]
    ring
  have hvalue : digitsToNat ([c] ++ ds) = d := by
    rw [List.singleton_append, ← hds, digitsToNat_toDigits]
  rw [toList_scientific style hlist, hcs, List.append_assoc, List.append_assoc]
  change readNumber negative ([c] ++ (fraction ds ++ 'e' :: sign :: (cs ++ rest))) = _
  rw [readNumber_of_parts (readWhole_append hwhole hends)
    (readPlaces_fraction hdsdigits hpoint hmark) hpower (Bool.and_false _), hexponent, hvalue]

/-! ## All numbers -/

theorem readsDecimal_writePositive (style : Style) {m : Nat} (hd : 0 < (shortest m q).digits) :
    ReadsDecimal (style.writePositive m q).toList (shortest m q).digits (shortest m q).exponent := by
  unfold Style.writePositive
  simp only
  split
  · rcases lt_or_ge (shortest m q).exponent 0 with hk | hk
    · exact readsDecimal_places hd hk
    · exact readsDecimal_zeros hd hk
  · exact readsDecimal_scientific style hd

/-- A positive double comes back from its text. -/
theorem readNumber_writePositive (style : Style) {m : Nat} (hc : IsCanonical m q)
    (hr : EndsNumber rest) : readNumber negative ((style.writePositive m q).toList ++ rest) =
      some (.float (.finite negative m q), rest) := by
  have hd : 0 < (shortest m q).digits := by
    have hpos := (rounds_shortest hc).pos hc
    rcases Nat.eq_zero_or_pos (shortest m q).digits with hzero | hd
    · have hleast : (0 : ℚ) < 2 ^ (-1075 : ℤ) := by positivity
      rw [Scientific.toRat, hzero, Nat.cast_zero, zero_mul] at hpos
      exact absurd hpos hleast.not_ge
    · exact hd
  obtain ⟨d, k, hread, hv⟩ := readsDecimal_writePositive style hd rest negative hr
  rw [hread, ofDecimal_shortest negative hc hv]

/-- A number begins with a digit. -/
theorem digit_of_readNumber {r : Datum × List Char} (h : readNumber negative cs = some r) :
    ∃ c ds, cs = c :: ds ∧ c.isDigit = true := by
  rw [readNumber] at h
  obtain ⟨w, hw, -⟩ := Option.bind_eq_some_iff.1 h
  cases cs with
  | nil => cases hw
  | cons c ds =>
    refine ⟨c, ds, rfl, ?_⟩
    rw [readWhole] at hw
    split at hw
    · next hc =>
      rw [eq_of_beq hc]
      rfl
    · split at hw
      · next hc => exact hc
      · cases hw

end AlgebraBatch.Json
