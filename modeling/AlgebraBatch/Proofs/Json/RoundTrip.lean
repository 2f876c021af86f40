import AlgebraBatch.Proofs.Json.Literal
import AlgebraBatch.Proofs.Json.Number

/-!
# Written values are read back

`read?_write`: the reader takes back every value that JSON can express, in every layout. A value is
read with what follows it left over, so the proof goes by the structure of the value, with one lemma
for the items of a list and one for the members of a map. The fuel that a text needs is bounded by
twice its length.
-/

namespace AlgebraBatch.Json

open AlgebraBatch.Text AlgebraBatch.Binary64

/-- An entry of a map whose key is a text. -/
def member (field : String × Datum) : Datum × Datum := (.str field.1, field.2)

/-- What JSON can express: integers within the limit on digits, doubles that are numbers, the two
infinities or no number, and maps from distinct texts. -/
inductive IsJson : Datum → Prop
  | null : IsJson .null
  | bool (b : Bool) : IsJson (.bool b)
  | int {n : Int} (h : (Nat.toDigits 10 n.natAbs).length ≤ Numeral.maxDigits) : IsJson (.int n)
  | float {x : Binary64} (h : x.IsDouble) : IsJson (.float x)
  | str (s : String) : IsJson (.str s)
  | list {items : List Datum} (h : ∀ x ∈ items, IsJson x) : IsJson (.list items)
  | map {fields : List (String × Datum)} (hkeys : (fields.map Prod.fst).Nodup)
      (h : ∀ field ∈ fields, IsJson field.2) : IsJson (.map (fields.map member))

variable {layout : Layout} {level fuel n : Nat} {cs bs rest : List Char} {c : Char} {d : Datum}
  {items : List Datum} {fields : List (String × Datum)}

/-! ## Blanks -/

def AreBlanks (cs : List Char) : Prop := ∀ c ∈ cs, isBlank c = true

instance : DecidablePred AreBlanks := fun cs => inferInstanceAs (Decidable (∀ c ∈ cs, _))

theorem skipBlanks_append (h : AreBlanks bs) (cs : List Char) :
    skipBlanks (bs ++ cs) = skipBlanks cs :=
  List.dropWhile_append_of_pos h

theorem skipBlanks_cons (h : isBlank c = false) (cs : List Char) : skipBlanks (c :: cs) = c :: cs :=
  List.dropWhile_cons_of_neg (Bool.eq_false_iff.1 h)

theorem areBlanks_lineBreak (layout : Layout) (level : Nat) :
    AreBlanks (layout.lineBreak level).toList := by
  unfold Layout.lineBreak
  cases layout.indent with
  | none => exact List.forall_mem_nil _
  | some n =>
    intro c hc
    simp only [String.toList_append, List.mem_append, String.reduceToList, List.mem_singleton,
      String.toList_ofList, List.mem_replicate] at hc
    rcases hc with rfl | ⟨-, rfl⟩ <;> rfl

theorem toList_separator (layout : Layout) (level : Nat) :
    ∃ bs, AreBlanks bs ∧ (layout.separator level).toList = ',' :: bs := by
  unfold Layout.separator
  cases layout.indent with
  | none => exact ⟨[' '], by decide, (by decide : ", ".toList = [',', ' '])⟩
  | some n => exact ⟨_, areBlanks_lineBreak layout level, String.toList_append⟩

theorem endsNumber_blanks (h : AreBlanks bs) (hc : EndsNumber (c :: cs)) :
    EndsNumber (bs ++ c :: cs) := by
  cases bs with
  | nil => exact hc
  | cons b bs =>
    have hb : isBlank b = true := h b List.mem_cons_self
    simp only [isBlank, Bool.or_eq_true, beq_iff_eq] at hb
    rcases hb with ((rfl | rfl) | rfl) | rfl <;> exact ⟨by decide, by decide⟩

/-! ## The first character of a value -/

/-- The text begins with a character that is neither a blank nor a closing bracket. -/
def Opens (cs : List Char) : Prop :=
  ∃ c ds, cs = c :: ds ∧ isBlank c = false ∧ c ∉ [']', '\x7d']

theorem Opens.skipBlanks (h : Opens cs) : skipBlanks cs = cs := by
  obtain ⟨c, ds, rfl, hc, -⟩ := h
  exact skipBlanks_cons hc ds

theorem opens_of_readValue {r : Datum × List Char} (h : readValue fuel cs = some r) : Opens cs := by
  cases fuel with
  | zero => cases h
  | succ fuel =>
    cases cs with
    | nil => cases h
    | cons c cs =>
      refine ⟨c, cs, rfl, ?_, ?_⟩
      · refine Bool.eq_false_iff.2 fun hc => ?_
        simp only [isBlank, Bool.or_eq_true, beq_iff_eq] at hc
        rcases hc with ((rfl | rfl) | rfl) | rfl <;> cases h
      · intro hc
        obtain rfl | rfl : c = ']' ∨ c = '\x7d' := by simpa using hc
        all_goals cases h

theorem opens_of_readItems {r : List Datum × List Char} (h : readItems fuel cs = some r) :
    Opens cs := by
  cases fuel with
  | zero => cases h
  | succ fuel =>
    rw [readItems] at h
    obtain ⟨_, hvalue, -⟩ := Option.bind_eq_some_iff.1 h
    exact opens_of_readValue hvalue

theorem opens_of_readEntries {r : List (Datum × Datum) × List Char}
    (h : readEntries fuel cs = some r) : Opens cs := by
  cases fuel with
  | zero => cases h
  | succ fuel =>
    unfold readEntries at h
    split at h
    · exact ⟨_, _, rfl, by decide, by decide⟩
    · cases h

/-! ## Values without parts -/

theorem readValue_number {r : Datum × List Char} (h : readNumber false cs = some r) :
    readValue (fuel + 1) cs = some r := by
  obtain ⟨c, ds, rfl, hc⟩ := digit_of_readNumber h
  have apart {m : Char} (hm : m.isDigit = false) : (c == m) = false :=
    beq_false_of_ne fun he => Bool.false_ne_true (hm.symm.trans (he ▸ hc))
  rw [readValue, apart (by decide), apart (by decide), apart (by decide), apart (by decide), hc]
  exact h

theorem readValue_negative {r : Datum × List Char} (h : readNumber true cs = some r) :
    readValue (fuel + 1) ('-' :: cs) = some r := by
  obtain ⟨c, ds, rfl, hc⟩ := digit_of_readNumber h
  have hword : afterWord? "Infinity" (c :: ds) = none := by
    refine if_neg fun hp => ?_
    obtain ⟨rfl, -⟩ := List.cons_prefix_cons.1 (List.isPrefixOf_iff_prefix.1 hp)
    cases hc
  rw [← h]
  change readSigned (c :: ds) = _
  rw [readSigned, hword]

theorem readNumber_zero {negative : Bool} (hr : EndsNumber rest) :
    readNumber negative ("0.0".toList ++ rest) = some (.float (zero negative), rest) := by
  have hwhole : IsWhole ['0'] := ⟨by decide, .inl rfl⟩
  have hpoint : EndsDigits ('.' :: (['0'] ++ rest)) := (by decide : '.'.isDigit = false)
  have hplaces := readPlaces_point (by decide : AreDigits ['0']) (by decide) hr.endsDigits
  exact readNumber_of_parts (readWhole_append hwhole hpoint) hplaces (readPower_none hr) rfl

/-- A number without its sign is read in either sign. -/
theorem readNumber_unsigned {negative : Bool} {m : Nat} {q : Int}
    (h : IsDouble (.finite negative m q)) (hr : EndsNumber rest) :
    readNumber negative
        ((if m == 0 then "0.0" else Decimal.jsonStyle.writePositive m q).toList ++ rest) =
      some (.float (.finite negative m q), rest) := by
  obtain ⟨rfl, rfl⟩ | hc := h
  · exact readNumber_zero hr
  · have hm : (m == 0) = false := beq_false_of_ne hc.pos.ne'
    rw [hm]
    exact readNumber_writePositive Decimal.jsonStyle hc hr

theorem readValue_signed {negative : Bool} {text : List Char} {r : Datum × List Char}
    (h : readNumber negative (text ++ rest) = some r) :
    readValue (fuel + 1) ((if negative then "-" else "").toList ++ text ++ rest) = some r := by
  cases negative
  · exact readValue_number h
  · exact readValue_negative h

theorem readValue_float {x : Binary64} (h : x.IsDouble) (hr : EndsNumber rest) :
    readValue (fuel + 1) ((Decimal.jsonStyle.write x).toList ++ rest) = some (.float x, rest) := by
  cases x with
  | nan => rfl
  | infinite negative => cases negative <;> rfl
  | finite negative m q =>
    rw [Decimal.Style.write, String.toList_append]
    exact readValue_signed (readNumber_unsigned h hr)

theorem toList_toString_int (n : Int) : (toString n).toList =
    (if decide (n < 0) then "-" else "").toList ++ Nat.toDigits 10 n.natAbs := by
  cases n with
  | ofNat n =>
    have hn : decide (Int.ofNat n < 0) = false := decide_eq_false (Int.natCast_nonneg n).not_gt
    rw [hn]
    exact Nat.toList_repr
  | negSucc n =>
    have hn : decide (Int.negSucc n < 0) = true := decide_eq_true (Int.negSucc_lt_zero n)
    rw [hn]
    exact String.toList_append.trans (congrArg _ Nat.toList_repr)

theorem readValue_int {n : Int} (h : (Nat.toDigits 10 n.natAbs).length ≤ Numeral.maxDigits)
    (hr : EndsNumber rest) :
    readValue (fuel + 1) ((toString n).toList ++ rest) = some (.int n, rest) := by
  have hvalue : (if decide (n < 0) then -(n.natAbs : Int) else n.natAbs) = n := by
    by_cases hn : n < 0
    · rw [decide_eq_true hn, if_pos rfl]
      omega
    · rw [decide_eq_false hn, if_neg (by decide)]
      omega
  rw [toList_toString_int, readValue_signed (readNumber_integer h hr), hvalue]

theorem toList_writeString (ascii : Bool) (s : String) : (writeString ascii s).toList =
    '"' :: (s.toList.flatMap (escapeChar ascii) ++ ['"']) := String.toList_ofList

theorem readValue_str (ascii : Bool) (s : String) (rest : List Char) :
    readValue (fuel + 1) ((writeString ascii s).toList ++ rest) = some (.str s, rest) := by
  rw [toList_writeString, List.cons_append, List.append_assoc]
  change Option.map _ (readStringTail none _) = _
  rw [List.singleton_append, readStringTail_escaped, Option.map_some]
  simp only [String.ofList_toList]

/-! ## Items and members -/

/-- The text of the value is read back, and what stands after it is left over. -/
def Reads (layout : Layout) (d : Datum) : Prop :=
  ∀ level fuel rest, EndsNumber rest → 2 * (writeAt layout level d).toList.length < fuel →
    readValue fuel ((writeAt layout level d).toList ++ rest) = some (d, rest)

theorem readItems_last (hx : readValue fuel cs = some (d, bs)) (hb : skipBlanks bs = ']' :: rest) :
    readItems (fuel + 1) cs = some ([d], rest) := by
  rw [readItems, hx, Option.bind_eq_bind, Option.bind_some]
  simp only [hb]

theorem readItems_more (hx : readValue fuel cs = some (d, ',' :: bs))
    (hitems : readItems fuel (skipBlanks bs) = some (items, rest)) :
    readItems (fuel + 1) cs = some (d :: items, rest) := by
  have hcomma : skipBlanks (',' :: bs) = ',' :: bs := skipBlanks_cons (by decide) bs
  rw [readItems, hx, Option.bind_eq_bind, Option.bind_some]
  simp only [hcomma, hitems]
  rfl

/-- The text of some items before the closing bracket of their list. -/
theorem readItems_joinWith (h : ∀ x ∈ items, Reads layout x) (hne : items ≠ []) (hb : AreBlanks bs)
    (hfuel : 2 * (joinWith (layout.separator level) (writeItems layout level items)).toList.length +
      1 < fuel) :
    readItems fuel ((joinWith (layout.separator level) (writeItems layout level items)).toList ++
      (bs ++ ']' :: rest)) = some (items, rest) := by
  induction items generalizing fuel with
  | nil => exact absurd rfl hne
  | cons x xs ih =>
    obtain ⟨hx, hxs⟩ := List.forall_mem_cons.1 h
    obtain ⟨fuel, rfl⟩ : ∃ f, fuel = f + 1 := ⟨fuel - 1, by omega⟩
    cases xs with
    | nil =>
      have hends : EndsNumber (bs ++ ']' :: rest) := endsNumber_blanks hb ⟨by decide, by decide⟩
      refine readItems_last (hx level fuel _ hends (by exact Nat.lt_of_succ_lt_succ hfuel)) ?_
      rw [skipBlanks_append hb, skipBlanks_cons (by decide)]
    | cons y ys =>
      obtain ⟨gap, hgap, hsep⟩ := toList_separator layout level
      have htext : (joinWith (layout.separator level) (writeItems layout level (x :: y :: ys))).toList
          = (writeAt layout level x).toList ++ ',' :: (gap ++
            (joinWith (layout.separator level) (writeItems layout level (y :: ys))).toList) := by
        simp only [writeItems, joinWith, String.toList_append, hsep, List.append_assoc,
          List.cons_append]
      rw [htext, List.length_append, List.length_cons, List.length_append] at hfuel
      have hmore : readItems fuel _ = _ := ih hxs (List.cons_ne_nil y ys) (by omega)
      rw [htext, List.append_assoc, List.cons_append, List.append_assoc]
      refine readItems_more (hx level fuel _ ⟨by decide, by decide⟩ (by omega)) ?_
      rw [skipBlanks_append hgap, (opens_of_readItems hmore).skipBlanks]
      exact hmore

theorem readEntries_last {ascii : Bool} {key : String} (hv : readValue fuel cs = some (d, bs))
    (hb : skipBlanks bs = '\x7d' :: rest) :
    readEntries (fuel + 1) ((writeString ascii key).toList ++ ':' :: ' ' :: cs) =
      some ([member (key, d)], rest) := by
  have hcolon : skipBlanks (':' :: ' ' :: cs) = ':' :: ' ' :: cs := skipBlanks_cons (by decide) _
  have hvalue : skipBlanks (' ' :: cs) = cs := (opens_of_readValue hv).skipBlanks
  rw [toList_writeString, List.cons_append, List.append_assoc, List.singleton_append]
  simp only [readEntries, readStringTail_escaped, Option.bind_eq_bind, Option.bind_some, hcolon,
    hvalue, hv, hb, String.ofList_toList]
  rfl

theorem readEntries_more {ascii : Bool} {key : String} {entries : List (Datum × Datum)}
    (hv : readValue fuel cs = some (d, ',' :: bs))
    (hentries : readEntries fuel (skipBlanks bs) = some (entries, rest)) :
    readEntries (fuel + 1) ((writeString ascii key).toList ++ ':' :: ' ' :: cs) =
      some (member (key, d) :: entries, rest) := by
  have hcolon : skipBlanks (':' :: ' ' :: cs) = ':' :: ' ' :: cs := skipBlanks_cons (by decide) _
  have hvalue : skipBlanks (' ' :: cs) = cs := (opens_of_readValue hv).skipBlanks
  have hcomma : skipBlanks (',' :: bs) = ',' :: bs := skipBlanks_cons (by decide) bs
  rw [toList_writeString, List.cons_append, List.append_assoc, List.singleton_append]
  simp only [readEntries, readStringTail_escaped, Option.bind_eq_bind, Option.bind_some, hcolon,
    hvalue, hv, hcomma, hentries, String.ofList_toList]
  rfl

/-- The text of some members before the closing bracket of their map. -/
theorem readEntries_joinWith (h : ∀ field ∈ fields, Reads layout field.2) (hne : fields ≠ [])
    (hb : AreBlanks bs) (hfuel : 2 * (joinWith (layout.separator level)
      (writeEntries layout level (fields.map member))).toList.length + 1 < fuel) :
    readEntries fuel ((joinWith (layout.separator level)
      (writeEntries layout level (fields.map member))).toList ++ (bs ++ '\x7d' :: rest)) =
        some (fields.map member, rest) := by
  induction fields generalizing fuel with
  | nil => exact absurd rfl hne
  | cons field fields ih =>
    obtain ⟨key, value⟩ := field
    obtain ⟨hv, hvs⟩ := List.forall_mem_cons.1 h
    obtain ⟨fuel, rfl⟩ : ∃ f, fuel = f + 1 := ⟨fuel - 1, by omega⟩
    cases fields with
    | nil =>
      have htext : (joinWith (layout.separator level)
          (writeEntries layout level [member (key, value)])).toList =
            (writeString layout.ascii key).toList ++ ':' :: ' ' ::
              (writeAt layout level value).toList := by
        simp [writeEntries, joinWith, member, keyText]
      have hends : EndsNumber (bs ++ '\x7d' :: rest) := endsNumber_blanks hb ⟨by decide, by decide⟩
      rw [List.map_cons, List.map_nil, htext] at hfuel ⊢
      simp only [List.length_append, List.length_cons] at hfuel
      rw [List.append_assoc, List.cons_append, List.cons_append]
      refine readEntries_last (hv level fuel _ hends (by simp only; omega)) ?_
      rw [skipBlanks_append hb, skipBlanks_cons (by decide)]
    | cons field fields =>
      obtain ⟨gap, hgap, hsep⟩ := toList_separator layout level
      have htext : (joinWith (layout.separator level)
          (writeEntries layout level (((key, value) :: field :: fields).map member))).toList =
            (writeString layout.ascii key).toList ++ ':' :: ' ' ::
              ((writeAt layout level value).toList ++ ',' :: (gap ++ (joinWith
                (layout.separator level)
                (writeEntries layout level ((field :: fields).map member))).toList)) := by
        simp [writeEntries, joinWith, member, keyText, hsep]
      rw [htext] at hfuel ⊢
      simp only [List.length_append, List.length_cons] at hfuel
      have hmore : readEntries fuel _ = _ := ih hvs (List.cons_ne_nil field fields) (by omega)
      simp only [List.append_assoc, List.cons_append]
      refine readEntries_more (hv level fuel _ ⟨by decide, by decide⟩ (by simp only; omega)) ?_
      rw [skipBlanks_append hgap, (opens_of_readEntries hmore).skipBlanks]
      exact hmore

/-! ## Maps -/

theorem insert_fresh {key : String} {value : Datum} {entries : List (Datum × Datum)}
    (h : ∀ e ∈ entries, e.1.equalAtom (.str key) = false) :
    Datum.insert (.str key) value entries = entries ++ [(.str key, value)] := by
  induction entries with
  | nil => rfl
  | cons e entries ih =>
    obtain ⟨he, hes⟩ := List.forall_mem_cons.1 h
    rw [Datum.insert, he, ih hes]
    rfl

/-- Members with distinct keys make up a map as they are. -/
theorem ofEntries_members (h : (fields.map Prod.fst).Nodup) :
    Datum.ofEntries (fields.map member) = .map (fields.map member) := by
  suffices hall : ∀ before : List (String × Datum), ((before ++ fields).map Prod.fst).Nodup →
      (fields.map member).foldl (fun m e => Datum.insert e.1 e.2 m) (before.map member) =
        (before ++ fields).map member from congrArg Datum.map (hall [] h)
  clear h
  induction fields with
  | nil => exact fun before _ => congrArg _ (List.append_nil before).symm
  | cons field fields ih =>
    intro before h
    have hfresh : ∀ e ∈ before.map member, e.1.equalAtom (.str field.1) = false := by
      intro e he
      obtain ⟨other, hother, rfl⟩ := List.mem_map.1 he
      rw [List.map_append, List.map_cons] at h
      refine beq_false_of_ne fun heq => ?_
      exact List.disjoint_of_nodup_append h (heq ▸ List.mem_map_of_mem hother) List.mem_cons_self
    rw [List.append_cons] at h ⊢
    rw [← ih _ h, List.map_cons, List.foldl_cons, List.map_append]
    exact congrArg (List.foldl _ · _) (insert_fresh hfresh)

/-! ## Values -/

theorem toList_enclose {opening closing : String} {ts : List String} (hne : ts ≠ []) :
    (layout.enclose level opening closing ts).toList = opening.toList ++
      ((layout.lineBreak (level + 1)).toList ++ ((joinWith (layout.separator (level + 1)) ts).toList ++
        ((layout.lineBreak level).toList ++ closing.toList))) := by
  cases ts with
  | nil => exact absurd rfl hne
  | cons t ts => simp only [Layout.enclose, String.toList_append, List.append_assoc]

theorem toList_emptyList : (writeAt layout level (.list [])).toList = ['[', ']'] := by
  simp [writeAt, writeItems, Layout.enclose]

theorem toList_list (hne : items ≠ []) : (writeAt layout level (.list items)).toList =
    '[' :: ((layout.lineBreak (level + 1)).toList ++
      ((joinWith (layout.separator (level + 1)) (writeItems layout (level + 1) items)).toList ++
        ((layout.lineBreak level).toList ++ [']']))) := by
  have hne' : writeItems layout (level + 1) items ≠ [] := by
    cases items with
    | nil => exact absurd rfl hne
    | cons x xs => simp [writeItems]
  rw [writeAt, toList_enclose hne']
  rfl

theorem toList_emptyMap : (writeAt layout level (.map [])).toList = ['\x7b', '\x7d'] := by
  simp [writeAt, writeEntries, Layout.enclose]

theorem toList_map {entries : List (Datum × Datum)} (hne : entries ≠ []) :
    (writeAt layout level (.map entries)).toList =
      '\x7b' :: ((layout.lineBreak (level + 1)).toList ++
        ((joinWith (layout.separator (level + 1)) (writeEntries layout (level + 1) entries)).toList ++
          ((layout.lineBreak level).toList ++ ['\x7d']))) := by
  have hne' : writeEntries layout (level + 1) entries ≠ [] := by
    cases entries with
    | nil => exact absurd rfl hne
    | cons e es => simp [writeEntries]
  rw [writeAt, toList_enclose hne']
  rfl

theorem readValue_list (hb : AreBlanks bs) (h : readItems fuel cs = some (items, rest)) :
    readValue (fuel + 1) ('[' :: (bs ++ cs)) = some (.list items, rest) := by
  obtain ⟨c, ds, rfl, hblank, hc⟩ := opens_of_readItems h
  rw [readValue, if_neg (by decide), if_neg (by decide), if_pos (by decide), skipBlanks_append hb,
    skipBlanks_cons hblank]
  split
  · next hcs => exact absurd (List.cons.inj hcs).1 (by rintro rfl; exact hc List.mem_cons_self)
  · rw [h]
    rfl

theorem readValue_map (hb : AreBlanks bs) {entries : List (Datum × Datum)}
    (h : readEntries fuel cs = some (entries, rest)) :
    readValue (fuel + 1) ('\x7b' :: (bs ++ cs)) = some (.ofEntries entries, rest) := by
  obtain ⟨c, ds, rfl, hblank, hc⟩ := opens_of_readEntries h
  rw [readValue, if_neg (by decide), if_pos (by decide), skipBlanks_append hb,
    skipBlanks_cons hblank]
  split
  · next hcs => exact absurd (List.cons.inj hcs).1 (by rintro rfl; exact hc (by decide))
  · rw [h]
    rfl

theorem reads_list (h : ∀ x ∈ items, Reads layout x) : Reads layout (.list items) := by
  intro level fuel rest hr hfuel
  obtain ⟨fuel, rfl⟩ : ∃ f, fuel = f + 1 := ⟨fuel - 1, by omega⟩
  by_cases hne : items = []
  · subst hne
    rw [toList_emptyList]
    rfl
  · rw [toList_list hne] at hfuel ⊢
    simp only [List.length_append, List.length_cons, List.length_nil] at hfuel
    simp only [List.cons_append, List.append_assoc, List.nil_append]
    exact readValue_list (areBlanks_lineBreak _ _)
      (readItems_joinWith h hne (areBlanks_lineBreak _ _) (by omega))

theorem reads_map (hkeys : (fields.map Prod.fst).Nodup)
    (h : ∀ field ∈ fields, Reads layout field.2) : Reads layout (.map (fields.map member)) := by
  intro level fuel rest hr hfuel
  obtain ⟨fuel, rfl⟩ : ∃ f, fuel = f + 1 := ⟨fuel - 1, by omega⟩
  by_cases hne : fields = []
  · subst hne
    rw [List.map_nil, toList_emptyMap]
    rfl
  · have hne' : fields.map member ≠ [] := mt List.map_eq_nil_iff.1 hne
    rw [toList_map hne'] at hfuel ⊢
    simp only [List.length_append, List.length_cons, List.length_nil] at hfuel
    simp only [List.cons_append, List.append_assoc, List.nil_append]
    rw [readValue_map (areBlanks_lineBreak _ _)
      (readEntries_joinWith h hne (areBlanks_lineBreak _ _) (by omega)), ofEntries_members hkeys]

/-- A value without parts has the same text at every level. -/
theorem reads_atom {text : String} (htext : ∀ level, writeAt layout level d = text)
    (h : ∀ fuel rest, EndsNumber rest →
      readValue (fuel + 1) (text.toList ++ rest) = some (d, rest)) : Reads layout d := by
  intro level fuel rest hr hfuel
  obtain ⟨fuel, rfl⟩ : ∃ f, fuel = f + 1 := ⟨fuel - 1, by omega⟩
  rw [htext]
  exact h fuel rest hr

theorem IsJson.reads (h : IsJson d) (layout : Layout) : Reads layout d := by
  induction h with
  | null => exact reads_atom (fun _ => by rw [writeAt]) fun _ _ _ => rfl
  | bool b =>
    refine reads_atom (fun _ => by rw [writeAt]) fun _ _ _ => ?_
    cases b <;> rfl
  | int h => exact reads_atom (fun _ => by rw [writeAt]) fun _ _ hr => readValue_int h hr
  | float h => exact reads_atom (fun _ => by rw [writeAt]) fun _ _ hr => readValue_float h hr
  | str s =>
    exact reads_atom (fun _ => by rw [writeAt]) fun _ rest _ => readValue_str layout.ascii s rest
  | list _ ih => exact reads_list ih
  | map hkeys _ ih => exact reads_map hkeys ih

/-- A written value is read back, in every layout. -/
theorem read?_write (layout : Layout) (h : IsJson d) : read? (write layout d) = some d := by
  have hread := h.reads layout 0 (2 * (write layout d).toList.length + 2) []
    trivial (by rw [write]; omega)
  rw [List.append_nil] at hread
  unfold read? readText?
  rw [write, (opens_of_readValue hread).skipBlanks]
  rw [write] at hread
  rw [hread]
  rfl

end AlgebraBatch.Json
