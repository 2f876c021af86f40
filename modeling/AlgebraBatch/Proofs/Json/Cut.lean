import AlgebraBatch.Proofs.Json.Occurrence
import AlgebraBatch.Proofs.Json.Quotes
import AlgebraBatch.Proofs.Yaml.Flow

/-!
# A line of JSON cut inside of a text

The character `<` stands only in the texts of a line of JSON, so what comes before it ends inside of
a quote that is not closed (`unclosed_line`). Such a beginning is neither JSON nor YAML: the reader
of JSON does not find the end of the text, and the scanner of YAML goes over everything before the
open quote token by token and then fails at it.
-/

namespace AlgebraBatch.Json

open AlgebraBatch.Text AlgebraBatch.Yaml.Token Quoting

variable {bs cs front more rest : List Char} {n n' level : Nat}

/-! ## Words -/

theorem isPlainChar_numeral {c : Char} (h : c.isDigit = true ∨ c ∈ ['.', 'e', '+', '-']) :
    isPlainChar c = true := by
  rcases h with h | h
  · simp [isPlainChar, Char.isAlphanum, h]
  · have hall : ∀ c ∈ ['.', 'e', '+', '-'], isPlainChar c = true := by decide
    exact hall c h

theorem isWord_letters {c : Char} (hchars : ∀ d ∈ c :: cs, isPlainChar d = true)
    (hc : c.isAlphanum = true) : IsWord (c :: cs) :=
  ⟨hchars, c, cs, hc, .inl rfl⟩

theorem isWord_signed {t : List Char} (negative : Bool) (ht : IsNumeral t)
    (hhead : ∃ c ds, t = c :: ds ∧ c.isDigit = true) :
    IsWord ((if negative then "-" else "").toList ++ t) := by
  obtain ⟨c, ds, rfl, hc⟩ := hhead
  have halpha : c.isAlphanum = true := by simp [Char.isAlphanum, hc]
  have hchars : ∀ d ∈ c :: ds, isPlainChar d = true := fun d hd => isPlainChar_numeral (ht d hd)
  cases negative
  · exact ⟨hchars, c, ds, halpha, .inl rfl⟩
  · exact ⟨List.forall_mem_cons.2 ⟨rfl, hchars⟩, c, ds, halpha, .inr rfl⟩

theorem isWord_int (n : Int) : IsWord (toString n).toList := by
  have hdigits := areDigits_toDigits n.natAbs
  obtain ⟨c, ds, hcons⟩ := List.exists_cons_of_ne_nil (Nat.toDigits_ne_nil (b := 10) (n := n.natAbs))
  rw [toList_toString_int]
  exact isWord_signed _ hdigits.isNumeral ⟨c, ds, hcons, hdigits c (hcons ▸ List.mem_cons_self)⟩

theorem isWord_double {x : Binary64} (h : x.IsDouble) :
    IsWord (Decimal.jsonStyle.write x).toList := by
  cases x with
  | nan => exact ⟨by decide, 'N', ['a', 'N'], by decide, .inl (by decide)⟩
  | infinite negative =>
    have hchars : ∀ c ∈ "-Infinity".toList, isPlainChar c = true := by decide
    cases negative
    · exact ⟨fun c hc => hchars c (List.mem_cons_of_mem _ hc), 'I', _, by decide, .inl rfl⟩
    · exact ⟨hchars, 'I', _, by decide, .inr rfl⟩
  | finite negative m q =>
    have hread : readNumber negative (_ ++ []) = _ := readNumber_unsigned h trivial
    rw [List.append_nil] at hread
    rw [Decimal.Style.write, String.toList_append]
    exact isWord_signed negative (isNumeral_mantissa m q) (digit_of_readNumber hread)

/-! ## Open quotes -/

/-- The text ends inside of a quote that is not closed, and can neither be scanned as it is nor with
something else after that quote. -/
def Unclosed (n : Nat) (cs : List Char) : Prop :=
  ∃ front inner, cs = front ++ '"' :: inner ∧ Escaped inner ∧ outside.run front = outside ∧
    ∀ inner', Escaped inner' → Fails (front ++ '"' :: inner') n

theorem Unclosed.append (h : Unclosed n' cs) (hrun : outside.run front = outside)
    (hfails : ∀ rest, Fails rest n' → Fails (front ++ rest) n) : Unclosed n (front ++ cs) := by
  obtain ⟨front', inner, rfl, hinner, hrun', hfails'⟩ := h
  refine ⟨front ++ front', inner, (List.append_assoc _ _ _).symm, hinner, ?_, fun inner' h => ?_⟩
  · rw [run_append, hrun, hrun']
  · rw [List.append_assoc]
    exact hfails _ (hfails' inner' h)

/-- The blanks at the end of a line that is cut belong to the text in which it is cut. -/
theorem Unclosed.trimmed (h : Unclosed n cs) :
    Unclosed n (dropRightWhile Text.isBlank cs) := by
  obtain ⟨front, inner, rfl, hinner, hrun, hfails⟩ := h
  exact ⟨front, dropRightWhile Text.isBlank inner, dropRightWhile_append_cons (by decide) _ _,
    hinner.trimmed, hrun, hfails⟩

theorem run_spaces (h : AreSpaces bs) : outside.run bs = outside :=
  run_plain fun hmem => by simpa using h _ hmem

/-- A part of a line that the scanner goes over, and that ends inside of an open quote wherever it
is cut before the character. -/
structure Scanned (t : List Char) : Prop where
  closes : outside.run t = outside
  passes {bs rest : List Char} {n : Nat} : AreSpaces bs → EndsWord rest → Fails rest (n + 1) →
    Fails (bs ++ (t ++ rest)) (n + 1)
  cuts {bs before more : List Char} {n : Nat} : AreSpaces bs → t = before ++ '<' :: more →
    Unclosed (n + 1) (bs ++ before)

theorem scanned_word (h : IsWord cs) : Scanned cs where
  closes := run_plain fun hquote => absurd (h.1 _ hquote) (by decide)
  passes hbs hrest hfails := hfails.word hbs h hrest
  cuts _ hcut := absurd (h.1 _ (hcut ▸ List.mem_append_right _ List.mem_cons_self)) (by decide)

/-! ## Texts -/

theorem run_quote (h : Escaped cs) : outside.run ('"' :: (cs ++ ['"'])) = outside := by
  show inside.run (cs ++ ['"']) = outside
  rw [run_append, h.run_inside]
  rfl

/-- A text is cut inside of its quotes. -/
theorem unclosed_quote {before : List Char} (hbs : AreSpaces bs) (hcs : Escaped cs)
    (hcut : '"' :: (cs ++ ['"']) = before ++ '<' :: more) : Unclosed n (bs ++ before) := by
  obtain ⟨before, rfl, htail⟩ : ∃ ds, before = '"' :: ds ∧ cs ++ ['"'] = ds ++ '<' :: more :=
    split_after (by decide : '<' ∉ ['"']) hcut
  rcases split_append htail with ⟨after, rfl⟩ | ⟨_, -, hquote⟩
  · exact ⟨bs, before, rfl, hcs.before (.inr rfl), run_spaces hbs, fun _ h => .openQuote hbs h⟩
  · exact absurd (hquote ▸ List.mem_append_right _ List.mem_cons_self) (by decide : '<' ∉ ['"'])

theorem scanned_quote (hcs : Escaped cs) : Scanned ('"' :: (cs ++ ['"'])) where
  closes := run_quote hcs
  passes hbs _ hfails := by
    rw [List.cons_append, List.append_assoc]
    exact hfails.quote hbs hcs
  cuts hbs hcut := unclosed_quote hbs hcs hcut

/-! ## Collections -/

/-- Two parts with a mark and a blank between them. -/
theorem Scanned.joined {t u : List Char} {mark : Char} (hmark : mark ∉ ['<', '"'])
    (hcloses : outside.run t = outside)
    (hpasses : ∀ {bs rest n}, AreSpaces bs → Fails rest (n + 1) →
      Fails (bs ++ (t ++ mark :: rest)) (n + 1))
    (hcuts : ∀ {bs before more n}, AreSpaces bs → t = before ++ '<' :: more →
      Unclosed (n + 1) (bs ++ before))
    (hu : Scanned u) : Scanned (t ++ mark :: ' ' :: u) := by
  have hgap : '<' ∉ [mark, ' '] ∧ '"' ∉ [mark, ' '] := by
    simpa [eq_comm] using hmark
  have hblank : AreSpaces [' '] := by decide
  refine ⟨?_, ?_, ?_⟩
  · rw [run_append, hcloses, show mark :: ' ' :: u = [mark, ' '] ++ u from rfl, run_append,
      run_plain hgap.2, hu.closes]
  · intro bs rest n hbs hrest hfails
    rw [List.append_assoc]
    exact hpasses hbs (hu.passes hblank hrest hfails)
  · intro bs before more n hbs hcut
    rcases split_append hcut with ⟨_, ht⟩ | ⟨before, rfl, htail⟩
    · exact hcuts hbs ht
    · obtain ⟨before, rfl, hcut'⟩ : ∃ ds, before = [mark, ' '] ++ ds ∧ u = ds ++ '<' :: more :=
        split_after hgap.1 htail
      have hrun : outside.run (bs ++ (t ++ [mark])) = outside := by
        rw [run_append, run_spaces hbs, run_append, hcloses]
        exact run_plain fun hmem => hgap.2 (List.mem_append_left [' '] hmem)
      have hopen := (hu.cuts (n := n) hblank hcut').append hrun fun rest hfails => by
        rw [List.append_assoc, List.append_assoc]
        exact hpasses hbs hfails
      rwa [List.append_assoc, List.append_assoc] at hopen

theorem scanned_joinWith {ts : List String} (h : ∀ t ∈ ts, Scanned t.toList) (hne : ts ≠ []) :
    Scanned (joinWith ", " ts).toList := by
  induction ts with
  | nil => exact absurd rfl hne
  | cons t ts ih =>
    obtain ⟨ht, hts⟩ := List.forall_mem_cons.1 h
    cases ts with
    | nil => exact ht
    | cons u us =>
      have htext : (joinWith ", " (t :: u :: us)).toList =
          t.toList ++ ',' :: ' ' :: (joinWith ", " (u :: us)).toList := by
        simp [joinWith]
      rw [htext]
      refine .joined (by decide) ht.closes (fun hbs hfails => ?_) ht.cuts
        (ih hts (List.cons_ne_nil u us))
      exact ht.passes hbs ⟨',', _, rfl, by decide⟩ hfails.comma

theorem scanned_entry (hcs : Escaped cs) (h : Scanned rest) :
    Scanned ('"' :: (cs ++ ['"']) ++ ':' :: ' ' :: rest) := by
  refine .joined (by decide) (run_quote hcs) (fun hbs hfails => ?_) (unclosed_quote · hcs) h
  rw [List.cons_append, List.append_assoc]
  exact hfails.colon.quote hbs hcs

/-- The brackets of a list or a map. -/
def AreBrackets (o c : Char) : Prop := o = '[' ∧ c = ']' ∨ o = '\x7b' ∧ c = '\x7d'

theorem areBrackets_list : AreBrackets '[' ']' := .inl ⟨rfl, rfl⟩

theorem areBrackets_map : AreBrackets '\x7b' '\x7d' := .inr ⟨rfl, rfl⟩

theorem fails_brackets {o c : Char} (h : AreBrackets o c) (hbs : AreSpaces bs)
    (hpasses : ∀ m, EndsWord (c :: rest) → Fails (c :: rest) (m + 1) →
      Fails (cs ++ c :: rest) (m + 1))
    (hfails : Fails rest n) : Fails (bs ++ o :: (cs ++ c :: rest)) n := by
  rcases h with ⟨rfl, rfl⟩ | ⟨rfl, rfl⟩
  · exact (hpasses n ⟨_, _, rfl, by decide⟩ (hfails.close (.inl rfl))).open hbs (.inl rfl)
  · exact (hpasses n ⟨_, _, rfl, by decide⟩ (hfails.close (.inr rfl))).open hbs (.inr rfl)

theorem scanned_empty {o c : Char} (h : AreBrackets o c) : Scanned [o, c] where
  closes := by rcases h with ⟨rfl, rfl⟩ | ⟨rfl, rfl⟩ <;> rfl
  passes {bs rest n} hbs _ hfails := by
    show Fails (bs ++ o :: ([] ++ c :: rest)) (n + 1)
    exact fails_brackets h hbs (fun _ _ hrest => hrest) hfails
  cuts _ hcut := by
    have hlt : '<' ∉ [o, c] := by rcases h with ⟨rfl, rfl⟩ | ⟨rfl, rfl⟩ <;> decide
    exact absurd (hcut ▸ List.mem_append_right _ List.mem_cons_self) hlt

/-- A collection is cut inside of an open quote at any level, even outside of all others. -/
theorem unclosed_enclosed {o c : Char} {before : List Char} (h : AreBrackets o c)
    (hbody : Scanned cs) (hbs : AreSpaces bs) (hcut : o :: (cs ++ [c]) = before ++ '<' :: more) :
    Unclosed n (bs ++ before) := by
  have hmarks : '<' ∉ [o] ∧ '<' ∉ [c] ∧ '"' ∉ [o] := by
    rcases h with ⟨rfl, rfl⟩ | ⟨rfl, rfl⟩ <;> decide
  obtain ⟨before, rfl, htail⟩ : ∃ ds, before = [o] ++ ds ∧ cs ++ [c] = ds ++ '<' :: more :=
    split_after hmarks.1 hcut
  rcases split_append htail with ⟨_, hcs⟩ | ⟨_, -, hlast⟩
  · have hrun : outside.run (bs ++ [o]) = outside := by
      rw [run_append, run_spaces hbs, run_plain hmarks.2.2]
    have hopen := (hbody.cuts (n := n) (by decide : AreSpaces []) hcs).append hrun
      fun rest hfails => by
        rw [List.append_assoc]
        rcases h with ⟨rfl, -⟩ | ⟨rfl, -⟩
        · exact hfails.open hbs (.inl rfl)
        · exact hfails.open hbs (.inr rfl)
    rwa [List.append_assoc] at hopen
  · exact absurd (hlast ▸ List.mem_append_right _ List.mem_cons_self) hmarks.2.1

theorem scanned_enclosed {o c : Char} (h : AreBrackets o c) (hbody : Scanned cs) :
    Scanned (o :: (cs ++ [c])) where
  closes := by
    have hmarks : '"' ∉ [o] ∧ '"' ∉ [c] := by
      rcases h with ⟨rfl, rfl⟩ | ⟨rfl, rfl⟩ <;> decide
    rw [← List.singleton_append, run_append, run_plain hmarks.1, run_append, hbody.closes,
      run_plain hmarks.2]
  passes hbs _ hfails := by
    rw [List.cons_append, List.append_assoc]
    exact fails_brackets h hbs (fun _ => hbody.passes (by decide : AreSpaces [])) hfails
  cuts hbs hcut := unclosed_enclosed h hbody hbs hcut

/-! ## Lines -/

theorem scanned_items {items : List Datum} (hne : items ≠ [])
    (h : ∀ x ∈ items, ∀ level, Scanned (writeAt asciiLine level x).toList) (level : Nat) :
    Scanned (joinWith ", " (writeItems asciiLine level items)).toList := by
  refine scanned_joinWith ?_ ?_
  · clear hne
    induction items with
    | nil => exact List.forall_mem_nil _
    | cons x xs ih =>
      obtain ⟨hx, hxs⟩ := List.forall_mem_cons.1 h
      rw [writeItems]
      exact List.forall_mem_cons.2 ⟨hx level, ih hxs⟩
  · obtain ⟨x, xs, rfl⟩ := List.exists_cons_of_ne_nil hne
    simp [writeItems]

theorem scanned_members {fields : List (String × Datum)} (hne : fields ≠ [])
    (h : ∀ field ∈ fields, ∀ level, Scanned (writeAt asciiLine level field.2).toList)
    (level : Nat) :
    Scanned (joinWith ", " (writeEntries asciiLine level (fields.map member))).toList := by
  refine scanned_joinWith ?_ ?_
  · clear hne
    induction fields with
    | nil => exact List.forall_mem_nil _
    | cons field fields ih =>
      obtain ⟨hv, hvs⟩ := List.forall_mem_cons.1 h
      have hentry := scanned_entry (escaped_flatMap field.1.toList) (hv level)
      rw [List.map_cons, member, writeEntries]
      refine List.forall_mem_cons.2 ⟨?_, ih hvs⟩
      rw [String.toList_append, String.toList_append, toList_writeString, List.append_assoc]
      exact hentry
  · obtain ⟨field, fields, rfl⟩ := List.exists_cons_of_ne_nil hne
    simp [writeEntries, member]

theorem toList_listLine {items : List Datum} (hne : items ≠ []) (level : Nat) :
    (writeAt asciiLine level (.list items)).toList =
      '[' :: ((joinWith ", " (writeItems asciiLine (level + 1) items)).toList ++ [']']) :=
  toList_list hne

theorem toList_mapLine {entries : List (Datum × Datum)} (hne : entries ≠ []) (level : Nat) :
    (writeAt asciiLine level (.map entries)).toList = '\x7b' ::
      ((joinWith ", " (writeEntries asciiLine (level + 1) entries)).toList ++ ['\x7d']) :=
  toList_map hne

theorem IsJson.scanned {d : Datum} (h : IsJson d) (level : Nat) :
    Scanned (writeAt asciiLine level d).toList := by
  induction h generalizing level with
  | null =>
    rw [writeAt]
    have hchars : ∀ c ∈ ['n', 'u', 'l', 'l'], isPlainChar c = true := by decide
    exact scanned_word (isWord_letters hchars (by decide))
  | bool b =>
    rw [writeAt]
    cases b
    · have hchars : ∀ c ∈ ['f', 'a', 'l', 's', 'e'], isPlainChar c = true := by decide
      exact scanned_word (isWord_letters hchars (by decide))
    · have hchars : ∀ c ∈ ['t', 'r', 'u', 'e'], isPlainChar c = true := by decide
      exact scanned_word (isWord_letters hchars (by decide))
  | int =>
    rw [writeAt]
    exact scanned_word (isWord_int _)
  | float hx =>
    rw [writeAt]
    exact scanned_word (isWord_double hx)
  | str s =>
    rw [writeAt, toList_writeString]
    exact scanned_quote (escaped_flatMap s.toList)
  | @list items _ ih =>
    by_cases hne : items = []
    · rw [hne, toList_emptyList]
      exact scanned_empty areBrackets_list
    · rw [toList_listLine hne]
      exact scanned_enclosed areBrackets_list (scanned_items hne ih _)
  | @map fields _ _ ih =>
    by_cases hne : fields = []
    · rw [hne, List.map_nil, toList_emptyMap]
      exact scanned_empty areBrackets_map
    · rw [toList_mapLine (mt List.map_eq_nil_iff.1 hne)]
      exact scanned_enclosed areBrackets_map (scanned_members hne ih _)

/-- What comes before the character in a line of JSON ends inside of an open quote. -/
theorem unclosed_line {entries : List (Datum × Datum)} (h : IsJson (.map entries))
    {before : List Char} (hcut : (write asciiLine (.map entries)).toList = before ++ '<' :: more) :
    Unclosed 0 before := by
  have hnone : AreSpaces [] := by decide
  generalize hd : Datum.map entries = d at h
  cases h with
  | @map fields _ hvalues =>
    obtain rfl := Datum.map.inj hd
    by_cases hne : fields = []
    · have hlt : '<' ∉ ['\x7b', '\x7d'] := by decide
      rw [write, hne, List.map_nil, toList_emptyMap] at hcut
      exact absurd (hcut ▸ List.mem_append_right _ List.mem_cons_self) hlt
    · rw [write, toList_mapLine (mt List.map_eq_nil_iff.1 hne)] at hcut
      exact unclosed_enclosed areBrackets_map
        (scanned_members hne (fun field hfield => (hvalues field hfield).scanned) _) hnone hcut
  | _ => cases hd

end AlgebraBatch.Json
