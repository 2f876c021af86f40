import AlgebraBatch.Proofs.Json.Literal
import AlgebraBatch.Yaml.Token

/-!
# Scanning flow collections

The tokens of a line of ASCII JSON begin and end where the scanner of YAML has them begin and end,
as long as it is inside of a flow collection. A step of the scanner over such a token leads to the
text behind it, or fails (`Leads`); so a text that cannot be scanned to its end cannot be scanned
either with more tokens before it (`Fails`). A quote that is not closed cannot be scanned.
-/

namespace AlgebraBatch.Yaml.Token

open AlgebraBatch.Json

variable {bs cs ds rest : List Char} {c : Char} {s : Scan} {cur : Cursor} {fuel level level' : Nat}

/-! ## Cursors -/

theorem Cursor.rest_next (cur : Cursor) : cur.next.rest = cur.rest.tail := by
  unfold next
  split
  · next h =>
    rw [h]
    rfl
  · next h =>
    rw [h]
    split <;> rfl

theorem Cursor.rest_skip (n : Nat) (cur : Cursor) : (cur.skip n).rest = cur.rest.drop n := by
  induction n generalizing cur with
  | zero => rfl
  | succ n ih => rw [skip, ih, rest_next, List.drop_tail]

theorem Cursor.lineBreak?_eq_none (h : ∀ c ∈ cur.rest.head?, isLineBreak c = false) :
    cur.lineBreak? = none := by
  unfold lineBreak?
  split
  · next hrest =>
    rw [hrest] at h
    exact absurd (h '\r' rfl) (by decide)
  · next c cs _ hrest =>
    rw [hrest] at h
    have hc : isLineBreak c = false := h c rfl
    have hwide : (c == '\u2028' || c == '\u2029') = false := by
      simp only [isLineBreak, Bool.or_eq_false_iff] at hc
      rw [hc.1.2, hc.2]
      rfl
    rw [hwide, hc]
    rfl
  · rfl

/-! ## Steps -/

/-- The scanner stands before the text, inside of so many flow collections. -/
structure At (rest : List Char) (level : Nat) (s : Scan) : Prop where
  rest : s.cursor.rest = rest
  level : s.flowLevel = level

/-- The step fails or leads to a state with the property. -/
inductive Leads (P : Scan → Prop) : Step → Prop
  | failed : Leads P (.error .malformed)
  | ok {s : Scan} (h : P s) : Leads P (.ok s)

theorem Leads.bind {P Q : Scan → Prop} {r : Step} {f : Scan → Step} (h : Leads P r)
    (hf : ∀ s, P s → Leads Q (f s)) : Leads Q (r >>= f) := by
  cases h with
  | failed => exact .failed
  | ok hs => exact hf _ hs

theorem At.dropStale (h : At cs level s) : Leads (At cs level) s.dropStale := by
  unfold Scan.dropStale
  split
  · exact .failed
  · exact .ok ⟨h.rest, h.level⟩

theorem At.dropPending (h : At cs level s) : Leads (At cs level) s.dropPending := by
  unfold Scan.dropPending
  split
  · exact .ok h
  · split
    · exact .failed
    · exact .ok ⟨h.rest, h.level⟩

theorem At.savePending (h : At cs level s) : Leads (At cs level) s.savePending := by
  unfold Scan.savePending
  split
  · exact .ok h
  · exact h.dropPending.bind fun s' h' => .ok ⟨h'.rest, h'.level⟩

theorem At.unwind (h : At cs level s) (column : Int) : At cs level (s.unwind column) := by
  unfold Scan.unwind
  split
  · exact h
  · exact ⟨h.rest, h.level⟩

/-- The scanner cannot read the text to its end. -/
def Fails (cs : List Char) (level : Nat) : Prop :=
  ∀ fuel s, At cs level s → s.tokensFrom fuel = .error .malformed

/-- A character that a token may begin with. -/
def BeginsToken (c : Char) : Prop := c ∉ [' ', '#'] ∧ isLineBreak c = false

instance : DecidablePred BeginsToken := fun _ => inferInstanceAs (Decidable (_ ∧ _))

def AreSpaces (bs : List Char) : Prop := ∀ b ∈ bs, (b == ' ') = true

instance : DecidablePred AreSpaces := fun bs => inferInstanceAs (Decidable (∀ b ∈ bs, _))

theorem At.skipGap (h : At (bs ++ c :: cs) level s) (hbs : AreSpaces bs) (hc : BeginsToken c)
    (fuel : Nat) : At (c :: cs) level (Scan.skipGap (fuel + 1) s) := by
  obtain ⟨hmark, hbreak⟩ := hc
  simp only [List.mem_cons, List.not_mem_nil, or_false, not_or] at hmark
  have hblank : (c == ' ') = false := beq_false_of_ne hmark.1
  have htake : s.cursor.rest.takeWhile (· == ' ') = bs := by
    rw [h.rest, List.takeWhile_append_of_pos hbs,
      List.takeWhile_cons_of_neg (p := (· == ' ')) (ne_true_of_eq_false hblank), List.append_nil]
  have hrest : (s.cursor.skipWhile (· == ' ')).rest = c :: cs := by
    rw [Cursor.skipWhile, htake, Cursor.rest_skip, h.rest, List.drop_left]
  have hhash : ((s.cursor.skipWhile (· == ' ')).peek? == some '#') = false := by
    rw [Cursor.peek?, hrest]
    simpa using hmark.2
  have hnone : (s.cursor.skipWhile (· == ' ')).lineBreak? = none := by
    refine Cursor.lineBreak?_eq_none fun d hd => ?_
    rw [hrest] at hd
    obtain rfl : c = d := by simpa using hd
    exact hbreak
  rw [Scan.skipGap]
  simp only [hhash, Bool.false_eq_true, if_false, hnone]
  exact ⟨hrest, h.level⟩

/-- A text cannot be scanned if no state that its first token leads to goes on to its end. -/
theorem Fails.of_token {P : Scan → Prop} (hbs : AreSpaces bs) (hc : BeginsToken c)
    (h : ∀ s, At (c :: cs) level s → Leads P (s.token c cs))
    (hP : ∀ fuel s, P s → s.tokensFrom fuel = .error .malformed) : Fails (bs ++ c :: cs) level := by
  intro fuel s hs
  cases fuel with
  | zero => rfl
  | succ fuel =>
    have hstale := (hs.skipGap hbs hc s.cursor.rest.length).dropStale
    rw [Scan.tokensFrom]
    generalize Scan.dropStale _ = r at hstale ⊢
    cases hstale with
    | failed => rfl
    | @ok s' hs' =>
      have hs'' := hs'.unwind s'.cursor.column
      have htoken := h _ hs''
      simp only [bind, Except.bind, hs''.rest]
      generalize Scan.token _ c cs = r at htoken ⊢
      cases htoken with
      | failed => rfl
      | ok hnext => exact hP fuel _ hnext

/-! ## Marks -/

theorem not_atDocumentMark (hcur : cur.rest = c :: cs) (hc : c ∉ ['-', '.']) :
    cur.atDocumentMark = false := by
  unfold Cursor.atDocumentMark
  rw [hcur]
  split
  · next h => exact absurd (List.cons.inj h).1 (by rintro rfl; exact hc (by decide))
  · next h => exact absurd (List.cons.inj h).1 (by rintro rfl; exact hc (by decide))
  · rfl

theorem At.forward (h : At (c :: cs) level s) (t : Token) :
    At cs level ((s.forward 1).push t) := by
  refine ⟨?_, h.level⟩
  rw [Scan.push, Scan.forward, Cursor.rest_skip, h.rest]
  rfl

theorem At.flowStart (h : At (c :: cs) level s) (t : Token) :
    Leads (At cs (level + 1)) (s.flowStart t) :=
  h.savePending.bind fun s' h' =>
    have hnext : At (c :: cs) (level + 1)
        { s' with flowLevel := s'.flowLevel + 1, allowKey := true } :=
      ⟨h'.rest, congrArg (· + 1) h'.level⟩
    .ok (hnext.forward t)

theorem At.flowLevel_ne_zero (h : At cs (level + 1) s) : (s.flowLevel == 0) = false := by
  rw [h.level]
  rfl

theorem At.inFlow (h : At cs (level + 1) s) : (s.flowLevel != 0) = true := by
  rw [bne, h.flowLevel_ne_zero]
  rfl

theorem At.flowEnd (h : At (c :: cs) (level + 1) s) (t : Token) :
    Leads (At cs level) (s.flowEnd t) := by
  rw [Scan.flowEnd, h.flowLevel_ne_zero]
  refine h.dropPending.bind fun s' h' => ?_
  have hnext : At (c :: cs) level { s' with flowLevel := s'.flowLevel - 1, allowKey := false } :=
    ⟨h'.rest, congrArg (· - 1) h'.level⟩
  exact .ok (hnext.forward t)

theorem At.flowEntry (h : At (c :: cs) level s) : Leads (At cs level) s.flowEntry := by
  have hallow : At (c :: cs) level { s with allowKey := true } := ⟨h.rest, h.level⟩
  exact hallow.dropPending.bind fun _ h' => .ok (h'.forward .flowEntry)

theorem At.valueMark (h : At (c :: cs) (level + 1) s) :
    Leads (At cs (level + 1)) s.valueMark := by
  unfold Scan.valueMark
  split
  · simp only [Scan.insertToken, h.flowLevel_ne_zero, Bool.false_eq_true, if_false]
    refine .ok (At.forward (c := c) ?_ .value)
    exact ⟨h.rest, h.level⟩
  · simp only [h.flowLevel_ne_zero, Bool.false_and, Bool.false_eq_true, if_false]
    have hallow : At (c :: cs) (level + 1) { s with allowKey := false } := ⟨h.rest, h.level⟩
    exact hallow.dropPending.bind fun _ h' => .ok (h'.forward .value)

theorem At.open (h : At (c :: cs) level s) (hc : c = '[' ∨ c = '\x7b') :
    Leads (At cs (level + 1)) (s.token c cs) := by
  have hmark : s.cursor.atDocumentMark = false :=
    not_atDocumentMark h.rest (by rcases hc with rfl | rfl <;> decide)
  unfold Scan.token
  rw [hmark, Bool.and_false]
  rcases hc with rfl | rfl
  · exact h.flowStart .flowSequenceStart
  · exact h.flowStart .flowMappingStart

theorem At.close (h : At (c :: cs) (level + 1) s) (hc : c = ']' ∨ c = '\x7d') :
    Leads (At cs level) (s.token c cs) := by
  have hmark : s.cursor.atDocumentMark = false :=
    not_atDocumentMark h.rest (by rcases hc with rfl | rfl <;> decide)
  unfold Scan.token
  rw [hmark, Bool.and_false]
  rcases hc with rfl | rfl
  · exact h.flowEnd .flowSequenceEnd
  · exact h.flowEnd .flowMappingEnd

theorem At.comma (h : At (',' :: cs) level s) : Leads (At cs level) (s.token ',' cs) := by
  unfold Scan.token
  rw [not_atDocumentMark h.rest (by decide), Bool.and_false]
  exact h.flowEntry

theorem At.colon (h : At (':' :: cs) (level + 1) s) :
    Leads (At cs (level + 1)) (s.token ':' cs) := by
  unfold Scan.token
  rw [not_atDocumentMark h.rest (by decide), Bool.and_false, h.inFlow]
  exact h.valueMark

/-! ## Quoted scalars -/

theorem isLineBreak_bare (h : IsBare c) : isLineBreak c = false := by
  obtain ⟨-, hlow, hhigh⟩ := h
  have apart {d : Char} (hd : d.toNat < 0x20 ∨ 0x7f ≤ d.toNat) : (c == d) = false := by
    refine beq_false_of_ne ?_
    rintro rfl
    omega
  rw [isLineBreak, apart (by decide), apart (by decide), apart (by decide), apart (by decide),
    apart (by decide)]
  rfl

/-- The end of the text or a closing quote comes next. -/
def EndsQuoted (cs : List Char) : Prop := cs = [] ∨ ∃ ds, cs = '"' :: ds

def isSpacing (c : Char) : Bool := c == ' ' || c == '\t'

/-- The blanks at the beginning of a text, and the text after them. -/
theorem escaped_blanks (h : Escaped cs) (hrest : EndsQuoted rest) :
    ∃ bs ds, cs = bs ++ ds ∧ Escaped ds ∧ (cs ++ rest).takeWhile isSpacing = bs ∧
      ∀ c ∈ (ds ++ rest).head?, isLineBreak c = false := by
  induction h with
  | nil =>
    refine ⟨[], [], rfl, .nil, ?_, ?_⟩
    · rcases hrest with rfl | ⟨ds, rfl⟩ <;> rfl
    · rcases hrest with rfl | ⟨ds, rfl⟩
      · exact fun _ hc => absurd hc (by simp)
      · rintro c ⟨⟩
        decide
  | @bare c cs hc h ih =>
    by_cases hblank : c = ' '
    · subst hblank
      obtain ⟨bs, ds, rfl, hds, htake, hhead⟩ := ih
      exact ⟨' ' :: bs, ds, rfl, hds, congrArg (' ' :: ·) htake, hhead⟩
    · have htab : c ≠ '\t' := by
        rintro rfl
        exact absurd hc (by decide)
      have hspacing : isSpacing c = false := by
        rw [isSpacing, beq_false_of_ne hblank, beq_false_of_ne htab]
        rfl
      refine ⟨[], c :: cs, rfl, .bare hc h, ?_, ?_⟩
      · exact List.takeWhile_cons_of_neg (ne_true_of_eq_false hspacing)
      · rintro c ⟨⟩
        exact isLineBreak_bare hc
  | short hc h =>
    refine ⟨[], _, rfl, .short hc h, rfl, ?_⟩
    rintro c ⟨⟩
    decide
  | unit hn hx h =>
    refine ⟨[], _, rfl, .unit hn hx h, rfl, ?_⟩
    rintro c ⟨⟩
    decide

theorem quotedText_nil {double : Bool} (hcur : cur.rest = []) :
    quotedText double fuel cur = .error .malformed := by
  cases fuel with
  | zero => rfl
  | succ fuel =>
    unfold quotedText
    rw [hcur]

theorem hexEscape_four {w x y z : Char} {n : Nat} (hn : n < 0x10000)
    (hx : hexFour? w x y z = some n) (cs : List Char) :
    hexEscape 4 (w :: x :: y :: z :: cs) = .ok (unitChar n) := by
  unfold hexFour? at hx
  obtain ⟨a, hw, hx⟩ := Option.bind_eq_some_iff.1 hx
  obtain ⟨b, hx', hx⟩ := Option.bind_eq_some_iff.1 hx
  obtain ⟨c, hy, hx⟩ := Option.bind_eq_some_iff.1 hx
  obtain ⟨d, hz, hx⟩ := Option.bind_eq_some_iff.1 hx
  have hdigits : ((w :: x :: y :: z :: cs).take 4).mapM hexValue? = some [a, b, c, d] := by
    simp [hw, hx', hy, hz]
  have hvalue : [a, b, c, d].foldl (fun n d => n * 16 + d) 0 = n := by
    have := Option.some.inj hx
    simp only [List.foldl_cons, List.foldl_nil]
    omega
  have hcode : charOfCode n = .ok (unitChar n) := by
    unfold charOfCode
    rw [if_neg (by omega), if_neg (by omega)]
  rw [hexEscape, hdigits]
  simp only [hvalue, hcode]
  rfl

/-- The text with more before it, and the same cursor. -/
def before (cs : List Char) : List Char × Cursor → List Char × Cursor := Prod.map (cs ++ ·) id

theorem quotedText_spaces {bs : List Char} (hbs : bs ≠ [])
    (hblanks : cur.rest.takeWhile isSpacing = bs)
    (hbreak : (cur.skip bs.length).lineBreak? = none) :
    quotedText true (fuel + 1) cur = (quotedText true fuel (cur.skip bs.length)).map (before bs) := by
  cases hcur : cur.rest with
  | nil => exact absurd (hblanks.symm.trans (by rw [hcur]; rfl)) hbs
  | cons c cs =>
    have hc : isSpacing c = true := by
      refine Bool.of_not_eq_false fun hc => hbs ?_
      rw [← hblanks, hcur, List.takeWhile_cons_of_neg (ne_true_of_eq_false hc)]
    have hspace : (c == ' ' || c == '\t' || isLineBreak c) = true := by
      rw [show (c == ' ' || c == '\t') = true from hc, Bool.true_or]
    rw [hcur] at hblanks
    change (c :: cs).takeWhile (fun c => c == ' ' || c == '\t') = bs at hblanks
    rw [quotedText, hcur]
    simp only [hspace, if_true, hblanks, hbreak]
    split
    · next hempty => rw [quotedText_nil (List.isEmpty_iff.1 hempty)]; rfl
    · cases quotedText true fuel (cur.skip bs.length) <;> rfl

theorem quotedText_bare (hc : IsBare c) (hblank : c ≠ ' ') (hcur : cur.rest = c :: cs) :
    quotedText true (fuel + 1) cur = (quotedText true fuel cur.next).map (before [c]) := by
  have hmarks := hc.1
  simp only [List.mem_cons, List.not_mem_nil, or_false, not_or] at hmarks
  have htab : c ≠ '\t' := by
    rintro rfl
    exact absurd hc (by decide)
  have hspace : (c == ' ' || c == '\t' || isLineBreak c) = false := by
    rw [beq_false_of_ne hblank, beq_false_of_ne htab, isLineBreak_bare hc]
    rfl
  rw [quotedText, hcur]
  simp only [hspace, beq_false_of_ne hmarks.1, beq_false_of_ne hmarks.2]
  cases quotedText true fuel cur.next <;> rfl

theorem quotedText_short {letter : Char} (hc : escaped? letter = some c)
    (hcur : cur.rest = '\\' :: letter :: cs) :
    quotedText true (fuel + 1) cur = (quotedText true fuel (cur.skip 2)).map (before [c]) := by
  have hlookup : escapes.lookup letter = some c := by
    unfold escaped? at hc
    split at hc <;> first | exact hc | cases hc
  rw [quotedText, hcur]
  simp only [hlookup]
  cases quotedText true fuel (cur.skip 2) <;> rfl

theorem quotedText_unit {w x y z : Char} {n : Nat} (hn : n < 0x10000)
    (hx : hexFour? w x y z = some n) (hcur : cur.rest = '\\' :: 'u' :: w :: x :: y :: z :: cs) :
    quotedText true (fuel + 1) cur =
      (quotedText true fuel (cur.skip 6)).map (before [unitChar n]) := by
  have hlookup : escapes.lookup 'u' = none := by decide
  have hlength : escapeLengths.lookup 'u' = some 4 := by decide
  rw [quotedText, hcur]
  simp only [hlookup, hlength, hexEscape_four hn hx, Nat.reduceAdd]
  cases quotedText true fuel (cur.skip 6) <;> rfl

/-- The scanner takes blanks together, and everything else one by one. -/
theorem quotedText_step (h : Escaped cs) (hne : cs ≠ []) (hrest : EndsQuoted rest)
    (hcur : cur.rest = cs ++ rest) (fuel : Nat) : ∃ ds cur' taken, Escaped ds ∧
      ds.length < cs.length ∧ cur'.rest = ds ++ rest ∧
      quotedText true (fuel + 1) cur = (quotedText true fuel cur').map (before taken) := by
  cases h with
  | nil => exact absurd rfl hne
  | @bare c cs hc h =>
    by_cases hblank : c = ' '
    · subst hblank
      obtain ⟨bs, ds, hsplit, hds, htake, hhead⟩ := escaped_blanks (.bare hc h) hrest
      have hbs : bs ≠ [] := by
        rintro rfl
        cases htake
      have hskip : (cur.skip bs.length).rest = ds ++ rest := by
        rw [Cursor.rest_skip, hcur, hsplit, List.append_assoc, List.drop_left]
      have hlength := congrArg List.length hsplit
      have hpos := List.length_pos_iff.2 hbs
      rw [List.length_append] at hlength
      refine ⟨ds, cur.skip bs.length, bs, hds, by omega, hskip, ?_⟩
      exact quotedText_spaces hbs (hcur ▸ htake) (Cursor.lineBreak?_eq_none (by rwa [hskip]))
    · refine ⟨cs, cur.next, [c], h, Nat.lt_succ_self _, ?_, quotedText_bare hc hblank hcur⟩
      rw [Cursor.rest_next, hcur]
      rfl
  | @short letter c cs hc h =>
    refine ⟨cs, cur.skip 2, [c], h, by simp only [List.length_cons]; omega, ?_,
      quotedText_short hc hcur⟩
    rw [Cursor.rest_skip, hcur]
    rfl
  | @unit w x y z n cs hn hx h =>
    refine ⟨cs, cur.skip 6, [unitChar n], h, by simp only [List.length_cons]; omega, ?_,
      quotedText_unit hn hx hcur⟩
    rw [Cursor.rest_skip, hcur]
    rfl

/-- A quoted scalar that is closed ends at its closing quote. -/
theorem quotedText_closed (h : Escaped cs) (hcur : cur.rest = cs ++ '"' :: rest)
    (hfuel : cs.length < fuel) :
    ∃ text cur', quotedText true fuel cur = .ok (text, cur') ∧ cur'.rest = rest := by
  induction fuel generalizing cs cur with
  | zero => exact absurd hfuel (Nat.not_lt_zero _)
  | succ fuel ih =>
    by_cases hne : cs = []
    · subst hne
      refine ⟨[], cur.next, ?_, ?_⟩
      · rw [quotedText, hcur]
        rfl
      · rw [Cursor.rest_next, hcur]
        rfl
    · obtain ⟨ds, cur', taken, hds, hlength, hcur', hstep⟩ :=
        quotedText_step h hne (.inr ⟨rest, rfl⟩) hcur fuel
      obtain ⟨text, cur'', hread, hrest⟩ := ih hds hcur' (by omega)
      refine ⟨taken ++ text, cur'', ?_, hrest⟩
      rw [hstep, hread]
      rfl

/-- A quoted scalar that is not closed is malformed. -/
theorem quotedText_open (h : Escaped cs) (hcur : cur.rest = cs) :
    quotedText true fuel cur = .error .malformed := by
  induction fuel generalizing cs cur with
  | zero => rfl
  | succ fuel ih =>
    by_cases hne : cs = []
    · exact quotedText_nil (hcur.trans hne)
    · obtain ⟨ds, cur', taken, hds, -, hcur', hstep⟩ :=
        quotedText_step h hne (.inl rfl) (hcur.trans (List.append_nil cs).symm) fuel
      rw [hstep, ih hds (hcur'.trans (List.append_nil ds))]
      rfl

theorem At.quote (h : At ('"' :: (cs ++ '"' :: rest)) level s) (hcs : Escaped cs) :
    Leads (At rest level) (s.token '"' (cs ++ '"' :: rest)) := by
  unfold Scan.token
  rw [not_atDocumentMark h.rest (by decide), Bool.and_false]
  show Leads (At rest level) (s.quotedScalar true)
  refine h.savePending.bind fun s' h' => ?_
  have hnext : s'.cursor.next.rest = cs ++ '"' :: rest := by
    rw [Cursor.rest_next, h'.rest]
    rfl
  have hfuel : cs.length < s'.cursor.rest.length + 1 := by
    rw [h'.rest, List.length_cons, List.length_append]
    omega
  obtain ⟨text, cur, hread, hrest⟩ := quotedText_closed hcs hnext hfuel
  rw [hread]
  exact .ok ⟨hrest, h'.level⟩

theorem At.openQuote (h : At ('"' :: cs) level s) (hcs : Escaped cs) :
    Leads (fun _ => False) (s.token '"' cs) := by
  unfold Scan.token
  rw [not_atDocumentMark h.rest (by decide), Bool.and_false]
  show Leads _ (s.quotedScalar true)
  refine h.savePending.bind fun s' h' => ?_
  have hnext : s'.cursor.next.rest = cs := by
    rw [Cursor.rest_next, h'.rest]
    rfl
  rw [quotedText_open hcs hnext]
  exact .failed

/-! ## Plain scalars -/

def isPlainChar (c : Char) : Bool := c.isAlphanum || c == '.' || c == '+' || c == '-'

/-- A number or a word: a letter or digit comes first, perhaps after a minus sign. -/
def IsWord (cs : List Char) : Prop :=
  (∀ c ∈ cs, isPlainChar c = true) ∧
    ∃ c ds, c.isAlphanum = true ∧ (cs = c :: ds ∨ cs = '-' :: c :: ds)

/-- A mark of flow collections comes next. -/
def EndsWord (cs : List Char) : Prop := ∃ c ds, cs = c :: ds ∧ isFlowMark c = true

theorem beq_false_of_class {p : Char → Bool} {d : Char} (hc : p c = true) (hd : p d = false) :
    (c == d) = false :=
  beq_false_of_ne fun he => Bool.false_ne_true (hd.symm.trans (he ▸ hc))

theorem atGap_of_class {p : Char → Bool} (hc : p c = true)
    (hp : ∀ d ∈ [' ', '\t', '\n', '\r', '\u0085', '\u2028', '\u2029'], p d = false)
    (cs : List Char) : atGap (c :: cs) = false := by
  simp only [List.forall_mem_cons] at hp
  simp only [atGap, isLineBreak, beq_false_of_class hc hp.1, beq_false_of_class hc hp.2.1,
    beq_false_of_class hc hp.2.2.1, beq_false_of_class hc hp.2.2.2.1,
    beq_false_of_class hc hp.2.2.2.2.1, beq_false_of_class hc hp.2.2.2.2.2.1,
    beq_false_of_class hc hp.2.2.2.2.2.2.1, Bool.or_false]

theorem plainRun_word (hcs : ∀ c ∈ cs, isPlainChar c = true) (hrest : EndsWord rest) :
    plainRun true (cs ++ rest) = cs := by
  induction cs with
  | nil =>
    obtain ⟨c, ds, rfl, hc⟩ := hrest
    have hends : endsPlain true (c :: ds) = true := by
      rw [endsPlain, hc, Bool.or_true, Bool.and_true, Bool.or_true]
    rw [List.nil_append, plainRun, hends]
    rfl
  | cons c cs ih =>
    obtain ⟨hc, hcs⟩ := List.forall_mem_cons.1 hcs
    have hmark : isFlowMark c = false := by
      simp only [isFlowMark, beq_false_of_class hc (by decide : isPlainChar ',' = false),
        beq_false_of_class hc (by decide : isPlainChar '[' = false),
        beq_false_of_class hc (by decide : isPlainChar ']' = false),
        beq_false_of_class hc (by decide : isPlainChar '\x7b' = false),
        beq_false_of_class hc (by decide : isPlainChar '\x7d' = false), Bool.or_false]
    have hends : endsPlain true (c :: (cs ++ rest)) = false := by
      rw [endsPlain, atGap_of_class hc (by decide), hmark,
        beq_false_of_class hc (by decide : isPlainChar ':' = false),
        beq_false_of_class hc (by decide : isPlainChar '?' = false)]
      rfl
    rw [List.cons_append, plainRun, hends, ih hcs]
    rfl

/-- A plain scalar ends at a mark of flow collections. -/
theorem plainParts_word (hcs : IsWord cs) (hrest : EndsWord rest) (hcur : cur.rest = cs ++ rest)
    (indent : Int) (ended : Bool) : ∃ text cur',
      plainParts true indent (fuel + 1) [] cur ended = (text, cur', false) ∧ cur'.rest = rest := by
  obtain ⟨hchars, c, ds, hc, hhead⟩ := hcs
  have hne : cs ≠ [] := by
    rcases hhead with rfl | rfl <;> exact List.cons_ne_nil _ _
  have hhash : (cur.peek? == some '#') = false := by
    have hapart : '#' ≠ c := by
      rintro rfl
      exact absurd hc (by decide)
    rw [Cursor.peek?, hcur]
    rcases hhead with rfl | rfl
    · simpa using Ne.symm hapart
    · rfl
  have hrun : plainRun true cur.rest = cs := by rw [hcur, plainRun_word hchars hrest]
  have hempty : cs.isEmpty = false := List.isEmpty_eq_false_iff.2 hne
  have hskip : (cur.skip cs.length).rest = rest := by
    rw [Cursor.rest_skip, hcur, List.drop_left]
  obtain ⟨m, ms, rfl, hm⟩ := hrest
  have hgap : plainGap (cur.skip cs.length) = ([], cur.skip cs.length, false) := by
    have hspace : (m == ' ') = false := by
      refine beq_false_of_ne ?_
      rintro rfl
      cases hm
    have hblanks : (cur.skip cs.length).rest.takeWhile (· == ' ') = [] := by
      rw [hskip]
      exact List.takeWhile_cons_of_neg (ne_true_of_eq_false hspace)
    have hbreak : (cur.skip cs.length).lineBreak? = none := by
      refine Cursor.lineBreak?_eq_none fun d hd => ?_
      rw [hskip] at hd
      obtain rfl : m = d := by simpa using hd
      simp only [isFlowMark, Bool.or_eq_true, beq_iff_eq] at hm
      rcases hm with (((rfl | rfl) | rfl) | rfl) | rfl <;> decide
    unfold plainGap
    simp only [hblanks, List.length_nil, Cursor.skip, hbreak]
  refine ⟨cs, cur.skip cs.length, ?_, hskip⟩
  rw [plainParts]
  simp only [hhash, hrun, hempty, hgap]
  rfl

theorem At.plainScalar (h : At (cs ++ rest) (level + 1) s) (hcs : IsWord cs)
    (hrest : EndsWord rest) : Leads (At rest (level + 1)) s.plainScalar := by
  refine h.savePending.bind fun s' h' => ?_
  obtain ⟨text, cur, hread, hcur⟩ : ∃ text cur, plainParts true (s'.indent + 1)
      (s'.cursor.rest.length + 1) [] s'.cursor false = (text, cur, false) ∧ cur.rest = rest :=
    plainParts_word hcs hrest h'.rest _ _
  rw [h'.inFlow, hread]
  exact .ok ⟨hcur, h'.level⟩

theorem token_alphanum (h : At (c :: cs) (level + 1) s) (hc : c.isAlphanum = true) :
    s.token c cs = s.plainScalar := by
  have hclass : ∀ m ∈ '.' :: Scan.indicators, m.isAlphanum = false := by decide
  have apart {m : Char} (hm : m ∈ '.' :: Scan.indicators) : c ≠ m := by
    rintro rfl
    exact Bool.false_ne_true ((hclass c hm).symm.trans hc)
  have hmark : s.cursor.atDocumentMark = false := by
    refine not_atDocumentMark h.rest fun hmem => ?_
    simp only [List.mem_cons, List.not_mem_nil, or_false] at hmem
    exact hmem.elim (apart (by decide)) (apart (by decide))
  have hindicator : Scan.indicators.contains c = false :=
    Bool.eq_false_iff.2 fun hmem =>
      apart (List.mem_cons_of_mem _ (List.contains_iff_mem.1 hmem)) rfl
  have hplain : Scan.startsPlain true (c :: cs) = true := by
    rw [Scan.startsPlain, atGap_of_class hc (by decide), hindicator]
    rfl
  have ne {m : Char} (hm : m ∈ '.' :: Scan.indicators) : (c == m) = false :=
    beq_false_of_ne (apart hm)
  unfold Scan.token
  simp only [hmark, h.inFlow, hplain, ne (by decide : '%' ∈ _), ne (by decide : '[' ∈ _),
    ne (by decide : '\x7b' ∈ _), ne (by decide : ']' ∈ _), ne (by decide : '\x7d' ∈ _),
    ne (by decide : ',' ∈ _), ne (by decide : '-' ∈ _), ne (by decide : '?' ∈ _),
    ne (by decide : ':' ∈ _), ne (by decide : '\'' ∈ _), ne (by decide : '"' ∈ _), Bool.and_false,
    Bool.false_and, Bool.false_eq_true, if_false, if_true]

theorem token_minus (h : At ('-' :: c :: cs) (level + 1) s) (hc : c.isAlphanum = true) :
    s.token '-' (c :: cs) = s.plainScalar := by
  have hgap : atGap (c :: cs) = false := atGap_of_class hc (by decide) cs
  have hmark : s.cursor.atDocumentMark = false := by
    unfold Cursor.atDocumentMark
    rw [h.rest]
    split
    · next he =>
      obtain rfl : c = '-' := (List.cons.inj (List.cons.inj he).2).1
      exact absurd hc (by decide)
    · next he => cases he
    · rfl
  have hplain : Scan.startsPlain true ('-' :: c :: cs) = true := by
    rw [Scan.startsPlain, hgap]
    rfl
  unfold Scan.token
  rw [hmark, h.inFlow, Bool.and_false, hgap]
  simp only [hplain]
  rfl

/-! ## Texts that cannot be scanned -/

theorem Fails.open (hbs : AreSpaces bs) (hc : c = '[' ∨ c = '\x7b') (h : Fails rest (level + 1)) :
    Fails (bs ++ c :: rest) level :=
  .of_token hbs (by rcases hc with rfl | rfl <;> decide) (fun _ hs => hs.open hc) h

theorem Fails.close (hc : c = ']' ∨ c = '\x7d') (h : Fails rest level) :
    Fails (c :: rest) (level + 1) :=
  .of_token (by decide : AreSpaces []) (by rcases hc with rfl | rfl <;> decide)
    (fun _ hs => hs.close hc) h

theorem Fails.comma (h : Fails rest level) : Fails (',' :: rest) level :=
  .of_token (by decide : AreSpaces []) (by decide) (fun _ hs => hs.comma) h

theorem Fails.colon (h : Fails rest (level + 1)) : Fails (':' :: rest) (level + 1) :=
  .of_token (by decide : AreSpaces []) (by decide) (fun _ hs => hs.colon) h

theorem Fails.quote (hbs : AreSpaces bs) (hcs : Escaped cs) (h : Fails rest level) :
    Fails (bs ++ '"' :: (cs ++ '"' :: rest)) level :=
  .of_token hbs (by decide) (fun _ hs => hs.quote hcs) h

theorem Fails.openQuote (hbs : AreSpaces bs) (hcs : Escaped cs) :
    Fails (bs ++ '"' :: cs) level :=
  .of_token hbs (by decide) (fun _ hs => hs.openQuote hcs) fun _ _ hfalse => hfalse.elim

theorem beginsToken_alphanum (hc : c.isAlphanum = true) : BeginsToken c := by
  have hgap := atGap_of_class hc (by decide) []
  simp only [atGap, Bool.or_eq_false_iff] at hgap
  have hblank : c ≠ ' ' := ne_of_beq_false hgap.1.1
  have hhash : c ≠ '#' := by
    rintro rfl
    exact absurd hc (by decide)
  exact ⟨by simp [hblank, hhash], hgap.2⟩

theorem Fails.word (hbs : AreSpaces bs) (hcs : IsWord cs) (hrest : EndsWord rest)
    (h : Fails rest (level + 1)) : Fails (bs ++ (cs ++ rest)) (level + 1) := by
  obtain ⟨-, c, ds, hc, rfl | rfl⟩ := id hcs
  · refine .of_token hbs (beginsToken_alphanum hc) (fun s hs => ?_) h
    rw [token_alphanum hs hc]
    exact hs.plainScalar hcs hrest
  · refine .of_token hbs (by decide) (fun s hs => ?_) h
    have htoken : s.token '-' (c :: (ds ++ rest)) = s.plainScalar := token_minus hs hc
    exact htoken.symm ▸ hs.plainScalar hcs hrest

/-- A text that cannot be scanned to its end, and that has no byte order mark, has no tokens. -/
theorem ofText_malformed {text : String} (hmark : text.toList.head? ≠ some '\ufeff')
    (h : Fails text.toList 0) : ofText text = .error .malformed := by
  have hstart : (Cursor.peek? { rest := text.toList } == some '\ufeff') = false :=
    beq_false_of_ne hmark
  unfold ofText
  simp only [hstart]
  split
  · rw [h _ _ ⟨rfl, rfl⟩]
    rfl
  · rfl

end AlgebraBatch.Yaml.Token
