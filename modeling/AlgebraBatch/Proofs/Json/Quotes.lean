import AlgebraBatch.Proofs.Json.Literal

/-!
# Quotes are closed

Whatever the reader takes for a value, it takes to the end of every text in it, so a text that is
cut between a quote and the one that closes it cannot be read (`readText?_quotes`).
-/

namespace AlgebraBatch.Json

variable {cs ds rest : List Char} {c : Char} {fuel : Nat}

/-- Whether a place is outside of the quotes, inside of them or right after a backslash there. -/
inductive Quoting where
  | outside
  | inside
  | escape
  deriving DecidableEq

namespace Quoting

def step : Quoting → Char → Quoting
  | outside, c => if c == '"' then inside else outside
  | inside, c => if c == '"' then outside else if c == '\\' then escape else inside
  | escape, _ => inside

def run (q : Quoting) (cs : List Char) : Quoting := cs.foldl step q

theorem run_append (q : Quoting) (cs ds : List Char) : q.run (cs ++ ds) = (q.run cs).run ds :=
  List.foldl_append

theorem run_plain (h : '"' ∉ cs) : outside.run cs = outside := by
  induction cs with
  | nil => rfl
  | cons c cs ih =>
    obtain ⟨hc, hcs⟩ := not_or.1 (mt List.mem_cons.2 h)
    have hstep : outside.step c = outside := if_neg (by simpa using Ne.symm hc)
    rw [run, List.foldl_cons, hstep]
    exact ih hcs

theorem step_inside (hc : c ∉ ['"', '\\']) : inside.step c = inside := by
  simp only [List.mem_cons, List.not_mem_nil, or_false, not_or] at hc
  rw [step, beq_false_of_ne hc.1, beq_false_of_ne hc.2]
  rfl

end Quoting

open Quoting

theorem not_mem_marks_of_hexValue? (h : (hexValue? c).isSome = true) : c ∉ ['"', '\\'] := by
  intro hmem
  obtain rfl | rfl : c = '"' ∨ c = '\\' := by simpa using hmem
  all_goals cases h

/-- The four digits of a code unit stay inside of the quotes. -/
theorem run_unit {w x y z : Char} {n : Nat} (h : hexFour? w x y z = some n) :
    inside.run ['\\', 'u', w, x, y, z] = inside := by
  have hinside : ∀ c ∈ [w, x, y, z], inside.step c = inside := fun c hc =>
    step_inside (not_mem_marks_of_hexValue? (hexValue?_isSome h c hc))
  simp only [List.forall_mem_cons] at hinside
  show inside.run [w, x, y, z] = inside
  simp only [run, List.foldl_cons, List.foldl_nil, hinside.1, hinside.2.1, hinside.2.2.1,
    hinside.2.2.2.1]

theorem Escaped.run_inside (h : Escaped cs) : inside.run cs = inside := by
  induction h with
  | nil => rfl
  | bare hc _ ih =>
    rw [run, List.foldl_cons, step_inside hc.1]
    exact ih
  | short _ _ ih => exact ih
  | @unit w x y z n cs _ hx _ ih =>
    have hunit := run_unit hx
    rw [show '\\' :: 'u' :: w :: x :: y :: z :: cs = ['\\', 'u', w, x, y, z] ++ cs from rfl,
      run_append, hunit, ih]

/-- The reader goes over a stretch of the text at whose end no quote is open. -/
def Leaves (q : Quoting) (cs rest : List Char) : Prop :=
  ∃ used, cs = used ++ rest ∧ q.run used = outside

theorem Leaves.refl (cs : List Char) : Leaves outside cs cs := ⟨[], rfl, rfl⟩

theorem Leaves.trans {q : Quoting} (h : Leaves q cs ds) (h' : Leaves outside ds rest) :
    Leaves q cs rest := by
  obtain ⟨used, rfl, hrun⟩ := h
  obtain ⟨used', rfl, hrun'⟩ := h'
  exact ⟨used ++ used', (List.append_assoc _ _ _).symm, by rw [run_append, hrun, hrun']⟩

theorem Leaves.of_plain (h : '"' ∉ cs) (rest : List Char) : Leaves outside (cs ++ rest) rest :=
  ⟨cs, rfl, run_plain h⟩

theorem Leaves.cons {q : Quoting} (h : Leaves (q.step c) cs rest) : Leaves q (c :: cs) rest := by
  obtain ⟨used, rfl, hrun⟩ := h
  exact ⟨c :: used, rfl, hrun⟩

theorem Leaves.dropWhile {p : Char → Bool} (hp : p '"' = false) (cs : List Char) :
    Leaves outside cs (cs.dropWhile p) := by
  have hplain : '"' ∉ cs.takeWhile p := fun hmem =>
    Bool.false_ne_true (hp.symm.trans (List.all_eq_true.1 List.all_takeWhile _ hmem))
  have hsplit := Leaves.of_plain hplain (cs.dropWhile p)
  rwa [List.takeWhile_append_dropWhile] at hsplit

theorem leaves_skipBlanks (cs : List Char) : Leaves outside cs (skipBlanks cs) :=
  .dropWhile rfl cs

/-- What is added to the text read does not change what is left over. -/
theorem rest_of_bind {m : Option (List Char × List Char)} {f : List Char → List Char}
    {s : List Char} (h : (do let (s, rest) ← m; some (f s, rest)) = some (s, rest)) :
    ∃ s, m = some (s, rest) := by
  obtain ⟨⟨t, rest'⟩, rfl, h⟩ := Option.bind_eq_some_iff.1 h
  exact ⟨t, by rw [(Prod.mk.inj (Option.some.inj h)).2]⟩

theorem leaves_readStringTail {high : Option Nat} {s : List Char}
    (h : readStringTail high cs = some (s, rest)) : Leaves inside cs rest := by
  fun_induction readStringTail high cs generalizing s with
  | case1 => cases h
  | case2 high cs =>
    obtain ⟨-, rfl⟩ := Prod.mk.inj (Option.some.inj h)
    exact ⟨['"'], rfl, rfl⟩
  | case3 high w x y z cs ih ihhigh =>
    obtain ⟨n, hx, h⟩ := Option.bind_eq_some_iff.1 h
    have hrest : Leaves inside cs rest := by
      split at h
      · split at h
        · obtain ⟨s, hs⟩ := rest_of_bind h
          exact ih hs
        · split at h
          · obtain ⟨s, hs⟩ := rest_of_bind h
            exact ihhigh n hs
          · obtain ⟨s, hs⟩ := rest_of_bind (f := fun s => '\ufffd' :: unitChar n :: s) h
            exact ih hs
      · split at h
        · exact ihhigh n h
        · obtain ⟨s, hs⟩ := rest_of_bind h
          exact ih hs
    obtain ⟨used, rfl, hrun⟩ := hrest
    refine ⟨['\\', 'u', w, x, y, z] ++ used, rfl, ?_⟩
    rw [run_append, run_unit hx, hrun]
  | case4 high c cs _ ih =>
    obtain ⟨e, -, h⟩ := Option.bind_eq_some_iff.1 h
    obtain ⟨s, hs⟩ := rest_of_bind (f := fun s => high.elim (e :: s) fun _ => '\ufffd' :: e :: s) h
    exact .cons (.cons (q := escape) (ih hs))
  | case5 => cases h
  | case6 high c cs hquote _ _ hc ih =>
    obtain ⟨s, hs⟩ := rest_of_bind (f := fun s => high.elim (c :: s) fun _ => '\ufffd' :: c :: s) h
    have hinside : inside.step c = inside := by
      refine step_inside ?_
      simp only [Bool.or_eq_true, beq_iff_eq, not_or] at hc
      simpa using ⟨hquote, hc.1⟩
    refine .cons ?_
    rw [hinside]
    exact ih hs

/-! ## Numbers and words -/

theorem Leaves.skip (hc : c ≠ '"') (h : Leaves outside cs rest) : Leaves outside (c :: cs) rest :=
  (of_plain (by simpa using Ne.symm hc : '"' ∉ [c]) cs).trans h

theorem leaves_readWhole {whole : List Char} (h : readWhole cs = some (whole, rest)) :
    Leaves outside cs rest := by
  cases cs with
  | nil => cases h
  | cons c cs =>
    rw [readWhole] at h
    split at h
    · next hc =>
      obtain ⟨-, rfl⟩ := Prod.mk.inj (Option.some.inj h)
      obtain rfl : c = '0' := eq_of_beq hc
      exact (Leaves.refl cs).skip (by decide)
    · split at h
      · next hc =>
        obtain ⟨-, rfl⟩ := Prod.mk.inj (Option.some.inj h)
        refine (Leaves.dropWhile (by decide) cs).skip ?_
        rintro rfl
        cases hc
      · cases h

theorem leaves_readPlaces (cs : List Char) : Leaves outside cs (readPlaces cs).2 := by
  unfold readPlaces
  split
  · next cs =>
    simp only
    split
    · exact .refl _
    · exact (Leaves.dropWhile (by decide) cs).skip (by decide)
  · exact .refl cs

theorem leaves_takeSign (cs : List Char) : Leaves outside cs (Numeral.takeSign cs).2 := by
  unfold Numeral.takeSign
  split
  · exact (Leaves.refl _).skip (by decide)
  · exact (Leaves.refl _).skip (by decide)
  · exact .refl cs

theorem leaves_readPower (cs : List Char) : Leaves outside cs (readPower cs).2 := by
  cases cs with
  | nil => exact .refl []
  | cons c cs =>
    rw [readPower]
    split
    · next hc =>
      have hquote : c ≠ '"' := by
        rintro rfl
        cases hc
      simp only
      split
      · exact .refl _
      · exact ((leaves_takeSign cs).trans (.dropWhile (by decide) _)).skip hquote
    · exact .refl _

theorem leaves_readNumber {negative : Bool} {d : Datum}
    (h : readNumber negative cs = some (d, rest)) : Leaves outside cs rest := by
  rw [readNumber] at h
  obtain ⟨⟨whole, ds⟩, hwhole, h⟩ := Option.bind_eq_some_iff.1 h
  have hnumber := (leaves_readWhole hwhole).trans
    ((leaves_readPlaces ds).trans (leaves_readPower _))
  simp only at h
  split at h
  · split at h
    · cases h
    · obtain ⟨-, rfl⟩ := Prod.mk.inj (Option.some.inj h)
      exact hnumber
  · obtain ⟨-, rfl⟩ := Prod.mk.inj (Option.some.inj h)
    exact hnumber

theorem leaves_afterWord? {word : String} (hword : '"' ∉ word.toList)
    (h : afterWord? word cs = some rest) : Leaves outside cs rest := by
  unfold afterWord? at h
  split at h
  · next hp =>
    obtain ⟨ds, rfl⟩ := List.isPrefixOf_iff_prefix.1 hp
    obtain rfl := Option.some.inj h
    rw [← String.length_toList, List.drop_left]
    exact .of_plain hword ds
  · cases h

theorem leaves_readSigned {d : Datum} (h : readSigned cs = some (d, rest)) :
    Leaves outside cs rest := by
  unfold readSigned at h
  split at h
  · next hword =>
    obtain ⟨-, rfl⟩ := Prod.mk.inj (Option.some.inj h)
    exact leaves_afterWord? (by decide) hword
  · exact leaves_readNumber h

theorem leaves_readWord {d : Datum} (h : readWord cs = some (d, rest)) :
    Leaves outside cs rest := by
  obtain ⟨⟨word, d'⟩, hmem, h⟩ := List.exists_of_findSome?_eq_some h
  obtain ⟨rest', hword, h⟩ := Option.map_eq_some_iff.1 h
  obtain ⟨-, rfl⟩ := Prod.mk.inj h
  have hplain : ∀ w ∈ words, '"' ∉ w.1.toList := by decide
  exact leaves_afterWord? (hplain _ hmem) hword

/-! ## Values -/

/-- What is read with so much fuel is read to the end of its quotes. -/
structure ReadsOver (fuel : Nat) : Prop where
  value {cs rest : List Char} {d : Datum} :
    readValue fuel cs = some (d, rest) → Leaves outside cs rest
  items {cs rest : List Char} {xs : List Datum} :
    readItems fuel cs = some (xs, rest) → Leaves outside cs rest
  entries {cs rest : List Char} {es : List (Datum × Datum)} :
    readEntries fuel cs = some (es, rest) → Leaves outside cs rest

theorem leaves_mark (hc : c ≠ '"') (hcs : skipBlanks cs = c :: rest) : Leaves outside cs rest := by
  have hblanks := leaves_skipBlanks cs
  rw [hcs] at hblanks
  exact hblanks.trans ((Leaves.refl rest).skip hc)

theorem ReadsOver.value_succ (ih : ReadsOver fuel) {d : Datum}
    (h : readValue (fuel + 1) cs = some (d, rest)) : Leaves outside cs rest := by
  cases cs with
  | nil => cases h
  | cons c cs =>
    rw [readValue] at h
    split at h
    · next hc =>
      obtain rfl : c = '"' := eq_of_beq hc
      obtain ⟨⟨s, rest'⟩, hread, h⟩ := Option.map_eq_some_iff.1 h
      obtain ⟨-, rfl⟩ := Prod.mk.inj h
      exact .cons (leaves_readStringTail hread)
    next hquote =>
    have hquote : c ≠ '"' := by simpa using hquote
    split at h
    · split at h
      · next hcs =>
        obtain ⟨-, rfl⟩ := Prod.mk.inj (Option.some.inj h)
        exact (leaves_mark (by decide) hcs).skip hquote
      · obtain ⟨⟨es, rest'⟩, hread, h⟩ := Option.map_eq_some_iff.1 h
        obtain ⟨-, rfl⟩ := Prod.mk.inj h
        exact ((leaves_skipBlanks cs).trans (ih.entries hread)).skip hquote
    split at h
    · split at h
      · next hcs =>
        obtain ⟨-, rfl⟩ := Prod.mk.inj (Option.some.inj h)
        exact (leaves_mark (by decide) hcs).skip hquote
      · obtain ⟨⟨xs, rest'⟩, hread, h⟩ := Option.map_eq_some_iff.1 h
        obtain ⟨-, rfl⟩ := Prod.mk.inj h
        exact ((leaves_skipBlanks cs).trans (ih.items hread)).skip hquote
    split at h
    · exact (leaves_readSigned h).skip hquote
    split at h
    · exact leaves_readNumber h
    · exact leaves_readWord h

theorem ReadsOver.items_succ (ih : ReadsOver fuel) {xs : List Datum}
    (h : readItems (fuel + 1) cs = some (xs, rest)) : Leaves outside cs rest := by
  rw [readItems] at h
  obtain ⟨⟨x, ds⟩, hvalue, h⟩ := Option.bind_eq_some_iff.1 h
  refine (ih.value hvalue).trans ?_
  simp only at h
  split at h
  · next hds =>
    obtain ⟨⟨ys, rest'⟩, hitems, h⟩ := Option.bind_eq_some_iff.1 h
    obtain ⟨-, rfl⟩ := Prod.mk.inj (Option.some.inj h)
    exact (leaves_mark (by decide) hds).trans ((leaves_skipBlanks _).trans (ih.items hitems))
  · next hds =>
    obtain ⟨-, rfl⟩ := Prod.mk.inj (Option.some.inj h)
    exact leaves_mark (by decide) hds
  · cases h

theorem ReadsOver.entries_succ (ih : ReadsOver fuel) {es : List (Datum × Datum)}
    (h : readEntries (fuel + 1) cs = some (es, rest)) : Leaves outside cs rest := by
  unfold readEntries at h
  split at h
  · obtain ⟨⟨key, ds⟩, hkey, h⟩ := Option.bind_eq_some_iff.1 h
    refine .cons ((leaves_readStringTail hkey).trans ?_)
    simp only at h
    split at h
    · next hds =>
      obtain ⟨⟨v, vs⟩, hvalue, h⟩ := Option.bind_eq_some_iff.1 h
      refine (leaves_mark (by decide) hds).trans ((leaves_skipBlanks _).trans
        ((ih.value hvalue).trans ?_))
      simp only at h
      split at h
      · next hvs =>
        obtain ⟨⟨fs, rest'⟩, hentries, h⟩ := Option.bind_eq_some_iff.1 h
        obtain ⟨-, rfl⟩ := Prod.mk.inj (Option.some.inj h)
        exact (leaves_mark (by decide) hvs).trans ((leaves_skipBlanks _).trans (ih.entries hentries))
      · next hvs =>
        obtain ⟨-, rfl⟩ := Prod.mk.inj (Option.some.inj h)
        exact leaves_mark (by decide) hvs
      · cases h
    · cases h
  · cases h

theorem readsOver (fuel : Nat) : ReadsOver fuel := by
  induction fuel with
  | zero => exact ⟨nofun, nofun, nofun⟩
  | succ fuel ih => exact ⟨ih.value_succ, ih.items_succ, ih.entries_succ⟩

/-- A text that can be read closes its quotes. -/
theorem readText?_quotes {d : Datum} (h : readText? cs = some d) : outside.run cs = outside := by
  obtain ⟨⟨d', rest⟩, hvalue, h⟩ := Option.bind_eq_some_iff.1 h
  have hempty : skipBlanks rest = [] := by
    simp only at h
    split at h
    · next he => exact List.isEmpty_iff.1 he
    · cases h
  have hrest := leaves_skipBlanks rest
  rw [hempty] at hrest
  obtain ⟨used, rfl, hrun⟩ :=
    (leaves_skipBlanks cs).trans (((readsOver _).value hvalue).trans hrest)
  rwa [List.append_nil]

end AlgebraBatch.Json
