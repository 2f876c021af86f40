import AlgebraBatch.Proofs.Json.RoundTrip

/-!
# Where a text stands in written JSON

A mark begins with `<`, which only texts can hold, and has no character that is escaped. It stands
in a JSON text exactly if it stands in one of the texts of the value, its keys included
(`infix_write_iff`): outside of the texts its first character does not come, and inside of them its
characters are written as they are.
-/

namespace AlgebraBatch.Json

open AlgebraBatch.Text

variable {layout : Layout} {ascii : Bool} {level n : Nat} {c d : Char}
  {bs cs ds tail rest : List Char} {items : List Datum} {fields : List (String × Datum)}

mutual

/-- The texts in a value, keys included. -/
def texts : Datum → List String
  | .str s => [s]
  | .list items => itemTexts items
  | .map entries => entryTexts entries
  | _ => []

def itemTexts : List Datum → List String
  | [] => []
  | x :: xs => texts x ++ itemTexts xs

def entryTexts : List (Datum × Datum) → List String
  | [] => []
  | (k, v) :: es => texts k ++ texts v ++ entryTexts es

end

theorem infix_skip (h : c ≠ d) : c :: tail <:+: d :: rest ↔ c :: tail <:+: rest := by
  rw [List.infix_cons_iff]
  exact or_iff_right fun hp => h (List.cons_prefix_cons.1 hp).1

theorem infix_append_iff (h : c ∉ cs) : c :: tail <:+: cs ++ rest ↔ c :: tail <:+: rest := by
  induction cs with
  | nil => exact Iff.rfl
  | cons d cs ih =>
    obtain ⟨hd, hcs⟩ := not_or.1 (mt List.mem_cons.2 h)
    rw [List.cons_append, infix_skip hd, ih hcs]

/-! ## Inside of texts -/

theorem escapeChar_bare (ascii : Bool) (h : IsBare c) : escapeChar ascii c = [c] := by
  obtain ⟨hc, hlow, hhigh⟩ := h
  have hmarks : (c == '"' || c == '\\') = false := by simpa using hc
  have apart {d : Char} (hd : d.toNat < 0x20) : (c == d) = false := by
    refine beq_false_of_ne ?_
    rintro rfl
    omega
  have hascii : (ascii && decide (0x7f ≤ c.toNat)) = false := by
    rw [decide_eq_false (by omega), Bool.and_false]
  rw [escapeChar, hmarks, apart (by decide), apart (by decide), apart (by decide),
    apart (by decide), apart (by decide), hascii]
  exact if_neg (Nat.not_lt.2 hlow)

/-- What is not written as itself begins with a backslash. -/
theorem Spells.eq_or_head (h : Spells ascii c cs) : cs = [c] ∨ ∃ ds, cs = '\\' :: ds := by
  cases h with
  | short => exact .inr ⟨_, rfl⟩
  | units =>
    right
    unfold escapeUnits
    simp only
    split <;> exact ⟨_, rfl⟩
  | bare => exact .inl rfl

theorem lt_not_mem_unitEscape (hn : n < 0x10000) : '<' ∉ unitEscape n := by
  have hdigit : ∀ d < 16, '<' ≠ d.digitChar := by decide
  rw [unitEscape, hexDigits_four hn]
  simp only [List.mem_cons, List.not_mem_nil, or_false, not_or]
  exact ⟨by decide, by decide, hdigit _ (by omega), hdigit _ (by omega), hdigit _ (by omega),
    hdigit _ (by omega)⟩

theorem Spells.lt_not_mem (h : Spells ascii c cs) (hc : c ≠ '<') : '<' ∉ cs := by
  cases h with
  | @short letter h =>
    have hletter : '<' ≠ letter := by
      rintro rfl
      cases h
    simpa using hletter
  | units =>
    have hmax := toNat_lt c
    unfold escapeUnits
    simp only
    split
    · next h => exact lt_not_mem_unitEscape h
    · rw [List.mem_append]
      exact not_or.2 ⟨lt_not_mem_unitEscape (by omega), lt_not_mem_unitEscape (by omega)⟩
  | bare => exact fun hmem => hc (List.mem_singleton.1 hmem).symm

theorem prefix_escaped_iff (h : ∀ c ∈ ds, IsBare c) :
    ds <+: cs.flatMap (escapeChar ascii) ++ '"' :: rest ↔ ds <+: cs := by
  induction cs generalizing ds with
  | nil =>
    cases ds with
    | nil => exact iff_of_true List.nil_prefix List.nil_prefix
    | cons d ds =>
      refine iff_of_false (fun hp => ?_) (by simp)
      exact (h d List.mem_cons_self).1 ((List.cons_prefix_cons.1 hp).1 ▸ List.mem_cons_self)
  | cons c cs ih =>
    cases ds with
    | nil => exact iff_of_true List.nil_prefix List.nil_prefix
    | cons d ds =>
      obtain ⟨hd, hds⟩ := List.forall_mem_cons.1 h
      rw [List.flatMap_cons]
      rcases (spells_escapeChar ascii c).eq_or_head with hc | ⟨es, hes⟩
      · rw [hc, List.singleton_append, List.cons_append, List.cons_prefix_cons,
          List.cons_prefix_cons, ih hds]
      · rw [hes]
        refine iff_of_false (fun hp => ?_) (fun hp => ?_)
        · exact hd.1 ((List.cons_prefix_cons.1 hp).1 ▸ List.mem_cons_of_mem _ List.mem_cons_self)
        · obtain ⟨rfl, -⟩ := List.cons_prefix_cons.1 hp
          rw [escapeChar_bare ascii hd] at hes
          exact hd.1 ((List.cons.inj hes).1 ▸ List.mem_cons_of_mem _ List.mem_cons_self)

/-- A mark stands in a written text or after it. -/
theorem infix_escaped_iff (h : ∀ c ∈ tail, IsBare c) :
    '<' :: tail <:+: cs.flatMap (escapeChar ascii) ++ '"' :: rest ↔
      '<' :: tail <:+: cs ∨ '<' :: tail <:+: rest := by
  induction cs with
  | nil =>
    rw [List.flatMap_nil, List.nil_append, infix_skip (by decide)]
    exact (or_iff_right (by simp)).symm
  | cons c cs ih =>
    rw [List.flatMap_cons, List.append_assoc]
    by_cases hc : c = '<'
    · subst hc
      have hlt : IsBare '<' := by decide
      rw [escapeChar_bare ascii hlt, List.singleton_append, List.infix_cons_iff,
        List.infix_cons_iff, List.cons_prefix_cons, List.cons_prefix_cons, prefix_escaped_iff h, ih,
        or_assoc]
    · rw [infix_append_iff ((spells_escapeChar ascii c).lt_not_mem hc), ih, infix_skip (Ne.symm hc)]

theorem infix_writeString_iff (h : ∀ c ∈ tail, IsBare c) (s : String) :
    '<' :: tail <:+: (writeString ascii s).toList ++ rest ↔
      '<' :: tail <:+: s.toList ∨ '<' :: tail <:+: rest := by
  rw [toList_writeString, List.cons_append, List.append_assoc, infix_skip (by decide),
    List.singleton_append, infix_escaped_iff h]

/-! ## Outside of texts -/

theorem AreBlanks.lt_not_mem (h : AreBlanks bs) : '<' ∉ bs := fun hmem => by
  have := h _ hmem
  revert this
  decide

theorem lt_not_mem_separator (layout : Layout) (level : Nat) :
    '<' ∉ (layout.separator level).toList := by
  obtain ⟨bs, hbs, htext⟩ := toList_separator layout level
  rw [htext, List.mem_cons]
  exact not_or.2 ⟨by decide, hbs.lt_not_mem⟩

theorem lt_not_mem_lineBreak (layout : Layout) (level : Nat) :
    '<' ∉ (layout.lineBreak level).toList := (areBlanks_lineBreak layout level).lt_not_mem

/-- The characters of written numbers. -/
def IsNumeral (cs : List Char) : Prop := ∀ c ∈ cs, c.isDigit = true ∨ c ∈ ['.', 'e', '+', '-']

instance : DecidablePred IsNumeral := fun cs => inferInstanceAs (Decidable (∀ c ∈ cs, _))

theorem IsNumeral.lt_not_mem (h : IsNumeral cs) : '<' ∉ cs := fun hmem => by
  have := h _ hmem
  revert this
  decide

theorem IsNumeral.append (h : IsNumeral cs) (h' : IsNumeral ds) : IsNumeral (cs ++ ds) :=
  List.forall_mem_append.2 ⟨h, h'⟩

theorem AreDigits.isNumeral (h : AreDigits cs) : IsNumeral cs := fun c hc => .inl (h c hc)

theorem isNumeral_toString (n : Nat) : IsNumeral (toString n).toList := by
  have hlist : (toString n).toList = Nat.toDigits 10 n := Nat.toList_repr
  rw [hlist]
  exact (areDigits_toDigits n).isNumeral

theorem isNumeral_zeros (n : Nat) : IsNumeral (Decimal.zeros n).toList := by
  rw [Decimal.zeros, String.toList_ofList]
  exact (areDigits_zeros n).isNumeral

theorem isNumeral_pointed {digits : String} (h : IsNumeral digits.toList) (k : Int) :
    IsNumeral (Decimal.pointed digits k).toList := by
  unfold Decimal.pointed
  split
  · have hpoint : IsNumeral ".0".toList := by decide
    rw [String.toList_append, String.toList_append]
    exact (h.append (isNumeral_zeros _)).append hpoint
  · have hpoint : IsNumeral ".".toList := by decide
    have hchars : IsNumeral (Decimal.zeros ((-k).toNat + 1 - digits.length) ++ digits).toList := by
      rw [String.toList_append]
      exact (isNumeral_zeros _).append h
    simp only [String.toList_append, String.toList_ofList] at hchars ⊢
    exact (IsNumeral.append (fun c hc => hchars c (List.mem_of_mem_take hc)) hpoint).append
      fun c hc => hchars c (List.mem_of_mem_drop hc)

theorem isNumeral_exponentText (style : Decimal.Style) (e : Int) :
    IsNumeral (style.exponentText e).toList := by
  obtain ⟨sign, hs, cs, htext, hcs, -⟩ := toList_exponentText style e
  have hsign : '+' = sign ∨ '-' = sign := by
    simpa [eq_comm, or_comm] using hs
  have hmark : IsNumeral ['e', sign] := by rcases hsign with rfl | rfl <;> decide
  rw [htext]
  exact hmark.append hcs.isNumeral

theorem isNumeral_scientific (style : Decimal.Style) {digits : String}
    (h : IsNumeral digits.toList) (k : Int) : IsNumeral (style.scientific digits k).toList := by
  cases hdigits : digits.toList with
  | nil =>
    unfold Decimal.Style.scientific
    rw [hdigits]
    exact List.forall_mem_nil _
  | cons c ds =>
    rw [hdigits] at h
    obtain ⟨hc, hds⟩ := List.forall_mem_cons.1 h
    have hfraction : IsNumeral (fraction ds) := by
      cases ds with
      | nil => decide
      | cons d ds => exact IsNumeral.append (by decide : IsNumeral ['.']) hds
    rw [toList_scientific style hdigits]
    exact IsNumeral.append (List.forall_mem_singleton.2 hc)
      (hfraction.append (isNumeral_exponentText style k))

theorem isNumeral_writePositive (style : Decimal.Style) (m : Nat) (q : Int) :
    IsNumeral (style.writePositive m q).toList := by
  unfold Decimal.Style.writePositive
  simp only
  split
  · exact isNumeral_pointed (isNumeral_toString _) _
  · exact isNumeral_scientific style (isNumeral_toString _) _

/-- The text of a number without its sign. -/
theorem isNumeral_mantissa (m : Nat) (q : Int) : IsNumeral
    (if m == 0 then "0.0" else Decimal.jsonStyle.writePositive m q).toList := by
  split
  · decide
  · exact isNumeral_writePositive _ m q

theorem lt_not_mem_write (x : Binary64) : '<' ∉ (Decimal.jsonStyle.write x).toList := by
  cases x with
  | nan => decide
  | infinite negative => cases negative <;> decide
  | finite negative m q =>
    have hsign : IsNumeral (if negative then "-" else "").toList := by cases negative <;> decide
    rw [Decimal.Style.write, String.toList_append]
    exact (hsign.append (isNumeral_mantissa m q)).lt_not_mem

theorem lt_not_mem_int (n : Int) : '<' ∉ (toString n).toList := by
  have hsign : IsNumeral (if decide (n < 0) then "-" else "").toList := by split <;> decide
  rw [toList_toString_int]
  exact (hsign.append (areDigits_toDigits _).isNumeral).lt_not_mem

/-! ## Values -/

/-- The mark stands in a written text or after it exactly if it stands in one of some texts or after
it. -/
def HeldIn (tail : List Char) (written : String) (ss : List String) : Prop :=
  ∀ rest, '<' :: tail <:+: written.toList ++ rest ↔
    (∃ s ∈ ss, '<' :: tail <:+: s.toList) ∨ '<' :: tail <:+: rest

theorem heldIn_plain {written : String} (h : '<' ∉ written.toList) : HeldIn tail written [] := by
  intro rest
  rw [infix_append_iff h]
  exact (or_iff_right (by simp)).symm

theorem heldIn_writeString (h : ∀ c ∈ tail, IsBare c) (ascii : Bool) (s : String) :
    HeldIn tail (writeString ascii s) [s] := by
  intro rest
  rw [infix_writeString_iff h]
  simp only [List.mem_singleton, exists_eq_left]

theorem HeldIn.append {t u : String} {ss us : List String} (h : HeldIn tail t ss)
    (h' : HeldIn tail u us) : HeldIn tail (t ++ u) (ss ++ us) := by
  intro rest
  rw [String.toList_append, List.append_assoc, h, h', ← or_assoc]
  simp only [List.mem_append, or_and_right, exists_or]

theorem heldIn_joinWith {sep : String} (hsep : '<' ∉ sep.toList) {ts : List String}
    {parts : List (List String)} (h : List.Forall₂ (HeldIn tail) ts parts) :
    HeldIn tail (joinWith sep ts) parts.flatten := by
  induction h with
  | nil => exact heldIn_plain (by decide : '<' ∉ "".toList)
  | @cons t ss ts parts ht hts ih =>
    cases hts with
    | nil =>
      rw [joinWith, List.flatten_singleton]
      exact ht
    | cons hu hus =>
      have hfirst : HeldIn tail (t ++ sep) (ss ++ []) := ht.append (heldIn_plain hsep)
      rw [List.append_nil] at hfirst
      rw [List.flatten_cons]
      exact hfirst.append ih

theorem heldIn_enclose {opening closing : String} (ho : '<' ∉ opening.toList)
    (hc : '<' ∉ closing.toList) {ts : List String} {parts : List (List String)}
    (h : List.Forall₂ (HeldIn tail) ts parts) :
    HeldIn tail (layout.enclose level opening closing ts) parts.flatten := by
  have hjoined := heldIn_joinWith (lt_not_mem_separator layout (level + 1)) h
  have hbreak := fun level => (heldIn_plain (lt_not_mem_lineBreak layout level) : HeldIn tail _ [])
  unfold Layout.enclose
  cases h with
  | nil => exact (heldIn_plain ho).append (heldIn_plain hc)
  | cons =>
    have hall := ((((heldIn_plain ho).append (hbreak (level + 1))).append hjoined).append
      (hbreak level)).append (heldIn_plain hc)
    simpa only [List.append_nil, List.nil_append] using hall

/-- The mark stands in the written value or after it exactly if it stands in one of its texts or
after it. -/
def Holds (layout : Layout) (tail : List Char) (d : Datum) : Prop :=
  ∀ level, HeldIn tail (writeAt layout level d) (texts d)

theorem holds_atom {x : Datum} {written : String}
    (hwritten : ∀ level, writeAt layout level x = written) (hlt : '<' ∉ written.toList)
    (hnone : texts x = []) : Holds layout tail x := by
  intro level
  rw [hwritten, hnone]
  exact heldIn_plain hlt

theorem heldIn_items (h : ∀ x ∈ items, Holds layout tail x) (level : Nat) :
    List.Forall₂ (HeldIn tail) (writeItems layout level items) (items.map texts) := by
  induction items with
  | nil => exact .nil
  | cons x xs ih =>
    obtain ⟨hx, hxs⟩ := List.forall_mem_cons.1 h
    rw [writeItems]
    exact .cons (hx level) (ih hxs)

theorem itemTexts_eq (items : List Datum) : itemTexts items = (items.map texts).flatten := by
  induction items with
  | nil => rfl
  | cons x xs ih => rw [itemTexts, ih, List.map_cons, List.flatten_cons]

theorem holds_list (h : ∀ x ∈ items, Holds layout tail x) : Holds layout tail (.list items) := by
  intro level
  rw [writeAt, texts, itemTexts_eq]
  exact heldIn_enclose (by decide) (by decide) (heldIn_items h _)

theorem heldIn_entries (htail : ∀ c ∈ tail, IsBare c)
    (h : ∀ field ∈ fields, Holds layout tail field.2) (level : Nat) :
    List.Forall₂ (HeldIn tail) (writeEntries layout level (fields.map member))
      (fields.map fun field => field.1 :: texts field.2) := by
  have hcolon : '<' ∉ ": ".toList := by decide
  induction fields with
  | nil => exact .nil
  | cons field fields ih =>
    obtain ⟨hv, hvs⟩ := List.forall_mem_cons.1 h
    have hkey := (heldIn_writeString htail layout.ascii field.1).append (heldIn_plain hcolon)
    rw [List.map_cons, member, writeEntries]
    exact .cons (hkey.append (hv level)) (ih hvs)

theorem entryTexts_members (fields : List (String × Datum)) : entryTexts (fields.map member) =
    (fields.map fun field => field.1 :: texts field.2).flatten := by
  induction fields with
  | nil => rfl
  | cons field fields ih =>
    rw [List.map_cons, member, entryTexts, ih, texts, List.map_cons, List.flatten_cons]
    rfl

theorem holds_map (htail : ∀ c ∈ tail, IsBare c) (h : ∀ field ∈ fields, Holds layout tail field.2) :
    Holds layout tail (.map (fields.map member)) := by
  intro level
  rw [writeAt, texts, entryTexts_members]
  exact heldIn_enclose (by decide) (by decide) (heldIn_entries htail h _)

theorem IsJson.holds {d : Datum} (h : IsJson d) (layout : Layout) (htail : ∀ c ∈ tail, IsBare c) :
    Holds layout tail d := by
  induction h with
  | null => exact holds_atom (fun _ => by rw [writeAt]) (by decide) rfl
  | bool b => exact holds_atom (fun _ => by rw [writeAt]) (by cases b <;> decide) rfl
  | int => exact holds_atom (fun _ => by rw [writeAt]) (lt_not_mem_int _) rfl
  | float => exact holds_atom (fun _ => by rw [writeAt]) (lt_not_mem_write _) rfl
  | str s =>
    intro level
    rw [writeAt, texts]
    exact heldIn_writeString htail layout.ascii s
  | list _ ih => exact holds_list ih
  | map _ _ ih => exact holds_map htail ih

/-- A mark stands in a JSON text exactly if it stands in a text of the value. -/
theorem infix_write_iff {d : Datum} (layout : Layout) (h : IsJson d)
    (htail : ∀ c ∈ tail, IsBare c) :
    '<' :: tail <:+: (write layout d).toList ↔ ∃ s ∈ texts d, '<' :: tail <:+: s.toList := by
  have hholds := h.holds layout htail 0 []
  rw [List.append_nil] at hholds
  rw [write, hholds]
  exact or_iff_left (by simp)

end AlgebraBatch.Json
