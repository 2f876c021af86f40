import AlgebraBatch.Datum.Display
import AlgebraBatch.Json.Reader
import AlgebraBatch.Proofs.Syntax.Token
import AlgebraBatch.Proofs.Text.CharClass

/-!
# The length of integers in JSON

Every integer that is read from JSON is short enough to be written again, however deep in the value
it stands (`isOverlong_of_read?`).
-/

namespace AlgebraBatch

namespace Datum

/-! ## Values that can be written -/

theorem isOverlong_int {n : Int} :
    (int n).isOverlong = false ↔ n.natAbs < 10 ^ Numeral.maxDigits := by
  rw [isOverlong, decide_eq_false_iff_not, Nat.not_le, Nat.pow_eq]

theorem overlongItems_eq_false {items : List Datum} :
    overlongItems items = false ↔ ∀ x ∈ items, x.isOverlong = false := by
  induction items with
  | nil => exact iff_of_true rfl nofun
  | cons x xs ih => rw [overlongItems, Bool.or_eq_false_iff, ih, List.forall_mem_cons]

theorem overlongEntries_eq_false {entries : List (Datum × Datum)} :
    overlongEntries entries = false ↔
      ∀ e ∈ entries, e.1.isOverlong = false ∧ e.2.isOverlong = false := by
  induction entries with
  | nil => exact iff_of_true rfl nofun
  | cons e es ih =>
    obtain ⟨k, v⟩ := e
    rw [overlongEntries, Bool.or_eq_false_iff, Bool.or_eq_false_iff, ih, List.forall_mem_cons]

theorem forall_mem_insert {P : Datum → Prop} {key value : Datum} {entries : List (Datum × Datum)}
    (hk : P key) (hv : P value) (h : ∀ e ∈ entries, P e.1 ∧ P e.2) :
    ∀ e ∈ insert key value entries, P e.1 ∧ P e.2 := by
  induction entries with
  | nil => exact List.forall_mem_singleton.2 ⟨hk, hv⟩
  | cons e es ih =>
    obtain ⟨⟨hk', hv'⟩, hes⟩ := List.forall_mem_cons.1 h
    rw [insert]
    split
    · exact List.forall_mem_cons.2 ⟨⟨hk', hv⟩, hes⟩
    · exact List.forall_mem_cons.2 ⟨⟨hk', hv'⟩, ih hes⟩

theorem isOverlong_ofEntries {entries : List (Datum × Datum)}
    (h : ∀ e ∈ entries, e.1.isOverlong = false ∧ e.2.isOverlong = false) :
    (ofEntries entries).isOverlong = false := by
  have hfold : ∀ m : List (Datum × Datum),
      (∀ e ∈ m, e.1.isOverlong = false ∧ e.2.isOverlong = false) →
        ∀ e ∈ entries.foldl (fun m e => insert e.1 e.2 m) m,
          e.1.isOverlong = false ∧ e.2.isOverlong = false := by
    induction entries with
    | nil => exact fun m hm => hm
    | cons e es ih =>
      obtain ⟨k, v⟩ := e
      obtain ⟨⟨hk, hv⟩, hes⟩ := List.forall_mem_cons.1 h
      exact fun m hm => ih hes _ (forall_mem_insert (P := (·.isOverlong = false)) hk hv hm)
  exact overlongEntries_eq_false.2 (hfold [] nofun)

end Datum

namespace Json

open AlgebraBatch.Text

variable {cs rest whole : List Char} {fuel : Nat} {negative : Bool} {d : Datum}

/-! ## Numbers and words -/

theorem readWhole_digits (h : readWhole cs = some (whole, rest)) :
    ∀ c ∈ whole, c.isDigit = true := by
  cases cs with
  | nil => cases h
  | cons c cs =>
    rw [readWhole] at h
    split at h
    · next hc =>
      obtain ⟨rfl, -⟩ := Prod.mk.inj (Option.some.inj h)
      rw [List.forall_mem_singleton, eq_of_beq hc]
      rfl
    · split at h
      · next hc =>
        obtain ⟨rfl, -⟩ := Prod.mk.inj (Option.some.inj h)
        exact List.forall_mem_cons.2 ⟨hc, fun d hd => List.mem_takeWhile_imp hd⟩
      · cases h

theorem isOverlong_digits (hdigits : ∀ c ∈ whole, c.isDigit = true)
    (hlength : whole.length ≤ Numeral.maxDigits) :
    (Datum.int (if negative then -(digitsToNat whole : Int) else digitsToNat whole)).isOverlong =
      false := by
  have hlt : digitsToNat whole < 10 ^ Numeral.maxDigits :=
    (Syntax.digitsToNat_lt fun c hc => isDecimalDigit_of_isDigit (hdigits c hc)).trans_le
      (Nat.pow_le_pow_right (by decide) hlength)
  have habs : (if negative then -(digitsToNat whole : Int) else digitsToNat whole).natAbs =
      digitsToNat whole := by
    cases negative
    · rfl
    · exact Int.natAbs_neg _
  rw [Datum.isOverlong_int, habs]
  exact hlt

theorem isOverlong_readNumber (h : readNumber negative cs = some (d, rest)) :
    d.isOverlong = false := by
  rw [readNumber] at h
  obtain ⟨⟨whole, ds⟩, hwhole, h⟩ := Option.bind_eq_some_iff.1 h
  simp only at h
  split at h
  · split at h
    · cases h
    · next hlength =>
      obtain ⟨rfl, -⟩ := Prod.mk.inj (Option.some.inj h)
      exact isOverlong_digits (readWhole_digits hwhole) (Nat.not_lt.1 hlength)
  · obtain ⟨rfl, -⟩ := Prod.mk.inj (Option.some.inj h)
    rfl

theorem isOverlong_readSigned (h : readSigned cs = some (d, rest)) : d.isOverlong = false := by
  unfold readSigned at h
  split at h
  · obtain ⟨rfl, -⟩ := Prod.mk.inj (Option.some.inj h)
    rfl
  · exact isOverlong_readNumber h

theorem isOverlong_readWord (h : readWord cs = some (d, rest)) : d.isOverlong = false := by
  obtain ⟨⟨word, d'⟩, hmem, h⟩ := List.exists_of_findSome?_eq_some h
  obtain ⟨rest', -, h⟩ := Option.map_eq_some_iff.1 h
  obtain ⟨rfl, -⟩ := Prod.mk.inj h
  have all : ∀ w ∈ words, w.2.isOverlong = false := by decide
  exact all _ hmem

/-! ## Values -/

/-- What is read with so much fuel can be written. -/
structure ReadsShort (fuel : Nat) : Prop where
  value {cs rest : List Char} {d : Datum} :
    readValue fuel cs = some (d, rest) → d.isOverlong = false
  items {cs rest : List Char} {xs : List Datum} :
    readItems fuel cs = some (xs, rest) → ∀ x ∈ xs, x.isOverlong = false
  entries {cs rest : List Char} {es : List (Datum × Datum)} :
    readEntries fuel cs = some (es, rest) →
      ∀ e ∈ es, e.1.isOverlong = false ∧ e.2.isOverlong = false

theorem ReadsShort.value_succ (ih : ReadsShort fuel)
    (h : readValue (fuel + 1) cs = some (d, rest)) : d.isOverlong = false := by
  cases cs with
  | nil => cases h
  | cons c cs =>
    rw [readValue] at h
    split at h
    · obtain ⟨⟨s, rest'⟩, -, h⟩ := Option.map_eq_some_iff.1 h
      obtain ⟨rfl, -⟩ := Prod.mk.inj h
      rfl
    split at h
    · split at h
      · obtain ⟨rfl, -⟩ := Prod.mk.inj (Option.some.inj h)
        rfl
      · obtain ⟨⟨es, rest'⟩, hread, h⟩ := Option.map_eq_some_iff.1 h
        obtain ⟨rfl, -⟩ := Prod.mk.inj h
        exact Datum.isOverlong_ofEntries (ih.entries hread)
    split at h
    · split at h
      · obtain ⟨rfl, -⟩ := Prod.mk.inj (Option.some.inj h)
        rfl
      · obtain ⟨⟨xs, rest'⟩, hread, h⟩ := Option.map_eq_some_iff.1 h
        obtain ⟨rfl, -⟩ := Prod.mk.inj h
        exact Datum.overlongItems_eq_false.2 (ih.items hread)
    split at h
    · exact isOverlong_readSigned h
    split at h
    · exact isOverlong_readNumber h
    · exact isOverlong_readWord h

theorem ReadsShort.items_succ (ih : ReadsShort fuel) {xs : List Datum}
    (h : readItems (fuel + 1) cs = some (xs, rest)) : ∀ x ∈ xs, x.isOverlong = false := by
  rw [readItems] at h
  obtain ⟨⟨x, ds⟩, hvalue, h⟩ := Option.bind_eq_some_iff.1 h
  simp only at h
  split at h
  · obtain ⟨⟨ys, rest'⟩, hitems, h⟩ := Option.bind_eq_some_iff.1 h
    obtain ⟨rfl, -⟩ := Prod.mk.inj (Option.some.inj h)
    exact List.forall_mem_cons.2 ⟨ih.value hvalue, ih.items hitems⟩
  · obtain ⟨rfl, -⟩ := Prod.mk.inj (Option.some.inj h)
    exact List.forall_mem_singleton.2 (ih.value hvalue)
  · cases h

theorem ReadsShort.entries_succ (ih : ReadsShort fuel) {es : List (Datum × Datum)}
    (h : readEntries (fuel + 1) cs = some (es, rest)) :
    ∀ e ∈ es, e.1.isOverlong = false ∧ e.2.isOverlong = false := by
  unfold readEntries at h
  split at h
  · obtain ⟨⟨key, ds⟩, -, h⟩ := Option.bind_eq_some_iff.1 h
    simp only at h
    split at h
    · obtain ⟨⟨v, ds'⟩, hvalue, h⟩ := Option.bind_eq_some_iff.1 h
      have hentry : (Datum.str (String.ofList key)).isOverlong = false ∧ v.isOverlong = false :=
        ⟨rfl, ih.value hvalue⟩
      simp only at h
      split at h
      · obtain ⟨⟨es', rest'⟩, hentries, h⟩ := Option.bind_eq_some_iff.1 h
        obtain ⟨rfl, -⟩ := Prod.mk.inj (Option.some.inj h)
        exact List.forall_mem_cons.2 ⟨hentry, ih.entries hentries⟩
      · obtain ⟨rfl, -⟩ := Prod.mk.inj (Option.some.inj h)
        exact List.forall_mem_singleton.2 hentry
      · cases h
    · cases h
  · cases h

theorem readsShort (fuel : Nat) : ReadsShort fuel := by
  induction fuel with
  | zero => exact ⟨nofun, nofun, nofun⟩
  | succ fuel ih => exact ⟨ih.value_succ, ih.items_succ, ih.entries_succ⟩

theorem isOverlong_of_read? {text : String} (h : read? text = some d) : d.isOverlong = false := by
  obtain ⟨⟨d', rest⟩, hvalue, h⟩ := Option.bind_eq_some_iff.1 h
  simp only at h
  split at h
  · obtain rfl := Option.some.inj h
    exact (readsShort _).value hvalue
  · cases h

end Json

end AlgebraBatch
