import AlgebraBatch.Proofs.Report.Rows

/-!
# Which lines of a file are lost

A line without a statement is to be blank or made of comments, each closed by the first `*/` after
its opening, with nothing but blanks between them (`IsCommentRun`). The reader looks only at the
first two and the last two characters of a line, so it skips more: a file loses nothing exactly if no
line that begins and ends like a comment holds more than comments (`isLossless_iff`).
-/

namespace AlgebraBatch.StatementFile

open AlgebraBatch.Text

/-- A comment ends with the first `*/` after its opening. -/
def IsComment (cs : List Char) : Prop :=
  ∃ body, cs = ['/', '*'] ++ (body ++ ['*', '/']) ∧ ¬ ['*', '/'] <:+: body

abbrev AllBlank (cs : List Char) : Prop := ∀ c ∈ cs, isBlank c = true

/-- One or more comments with blanks between them. -/
inductive IsCommentRun : List Char → Prop where
  | one {comment : List Char} : IsComment comment → IsCommentRun comment
  | more {comment blanks rest : List Char} : IsComment comment → AllBlank blanks →
      IsCommentRun rest → IsCommentRun (comment ++ (blanks ++ rest))

/-- Comments, each with the blanks after it. -/
inductive IsLead : List Char → Prop where
  | nil : IsLead []
  | cons {comment blanks lead : List Char} : IsComment comment → AllBlank blanks → IsLead lead →
      IsLead (comment ++ (blanks ++ lead))

/-- The text begins with a character that is no blank. -/
def BeginsSolid (cs : List Char) : Prop := ∃ c ∈ cs.head?, isBlank c = false

/-- After the comments at the beginning of the line, something stands there that begins no
comment. -/
def HoldsMore (line : List Char) : Prop :=
  ∃ lead rest, line = lead ++ rest ∧ IsLead lead ∧ BeginsSolid rest ∧
    ∀ comment after, IsComment comment → rest ≠ comment ++ after

variable {comment cs ds line blanks rest : List Char}

/-! ## Comments -/

theorem IsComment.beginsSolid (h : IsComment comment) (after : List Char) :
    BeginsSolid (comment ++ after) := by
  obtain ⟨body, rfl, -⟩ := h
  exact ⟨'/', rfl, by decide⟩

/-- Where a comment begins, it is clear where it ends. -/
theorem IsComment.unique {comment' after after' : List Char} (h : IsComment comment)
    (h' : IsComment comment') (he : comment ++ after = comment' ++ after') :
    comment = comment' ∧ after = after' := by
  obtain ⟨body, rfl, hb⟩ := h
  obtain ⟨body', rfl, hb'⟩ := h'
  have hu : Unbordered ['*', '/'] := by decide
  have hne : ['*', '/'] ≠ [] := List.cons_ne_nil _ _
  have hbody : body ++ (['*', '/'] ++ after) = body' ++ (['*', '/'] ++ after') := by
    simpa using he
  have hsplit : splitAtFirst? ['*', '/'] (body ++ (['*', '/'] ++ after)) = some (body, after) :=
    splitAtFirst?_append hu hne hb
  rw [hbody, splitAtFirst?_append hu hne hb'] at hsplit
  cases hsplit
  exact ⟨rfl, rfl⟩

/-! ## Blanks -/

theorem BeginsSolid.stripLeft (h : BeginsSolid cs) : stripLeft cs = cs := by
  obtain ⟨c, hc, hb⟩ := h
  cases cs with
  | nil => cases hc
  | cons d cs =>
    obtain rfl : d = c := Option.some.inj hc
    exact List.dropWhile_cons_of_neg (ne_true_of_eq_false hb)

theorem stripLeft_append (h : AllBlank blanks) (cs : List Char) :
    stripLeft (blanks ++ cs) = stripLeft cs :=
  List.dropWhile_append_of_pos h

/-- Blanks end where the first other character stands. -/
theorem eq_of_blanks {blanks' : List Char} (hb : AllBlank blanks) (hb' : AllBlank blanks')
    (hc : BeginsSolid cs) (hd : BeginsSolid ds) (he : blanks ++ cs = blanks' ++ ds) : cs = ds := by
  have h := congrArg Text.stripLeft he
  rwa [stripLeft_append hb, stripLeft_append hb', hc.stripLeft, hd.stripLeft] at h

theorem IsCommentRun.beginsSolid (h : IsCommentRun cs) : BeginsSolid cs := by
  cases h with
  | one h => simpa using h.beginsSolid []
  | more h _ _ => exact h.beginsSolid _

theorem IsLead.beginsSolid {lead : List Char} (h : IsLead lead) (hr : BeginsSolid rest) :
    BeginsSolid (lead ++ rest) := by
  cases h with
  | nil => exact hr
  | cons h _ _ =>
    rw [List.append_assoc]
    exact h.beginsSolid _

/-! ## Runs of comments -/

theorem IsCommentRun.not_holdsMore (h : IsCommentRun line) : ¬ HoldsMore line := by
  rintro ⟨lead, rest, rfl, hlead, hsolid, hrest⟩
  -- The comments of the run are those of the lead, one by one, until the rest begins one.
  induction hlead with
  | nil =>
    rw [List.nil_append] at h
    cases h with
    | one h => exact hrest _ [] h (List.append_nil _).symm
    | more h _ _ => exact hrest _ _ h rfl
  | @cons comment blanks lead hc hb hlead ih =>
    have hls := hlead.beginsSolid hsolid
    rw [List.append_assoc, List.append_assoc] at h
    generalize hline : comment ++ (blanks ++ (lead ++ rest)) = line at h
    cases h with
    | one h =>
      rw [← List.append_nil line] at hline
      have hnil := (hc.unique h hline).2
      rw [(List.append_eq_nil_iff.1 hnil).2] at hls
      obtain ⟨c, hmem, -⟩ := hls
      cases hmem
    | more h hb' hrun =>
      have hblanks := (hc.unique h hline).2
      rw [eq_of_blanks hb hb' hls hrun.beginsSolid hblanks] at ih
      exact ih hrun

theorem HoldsMore.extend (hc : IsComment comment) (hb : AllBlank blanks) (h : HoldsMore rest) :
    HoldsMore (comment ++ (blanks ++ rest)) := by
  obtain ⟨lead, more, rfl, hlead, hsolid, hmore⟩ := h
  refine ⟨comment ++ (blanks ++ lead), more, ?_, .cons hc hb hlead, hsolid, hmore⟩
  simp only [List.append_assoc]

theorem IsComment.length_pos (h : IsComment comment) : 0 < comment.length := by
  obtain ⟨body, rfl, -⟩ := h
  simp

/-- A line that neither begins nor ends with a blank is a run of comments, or it holds more. -/
theorem isCommentRun_or_holdsMore (n : Nat) : ∀ {line : List Char}, line.length ≤ n →
    BeginsSolid line → (∀ c ∈ line.getLast?, isBlank c = false) →
      IsCommentRun line ∨ HoldsMore line := by
  induction n with
  | zero =>
    intro line hn hs _
    obtain ⟨c, hc, -⟩ := hs
    rw [List.length_eq_zero_iff.1 (Nat.le_zero.1 hn)] at hc
    cases hc
  | succ n ih =>
    intro line hn hs hlast
    by_cases h : ∃ comment after, IsComment comment ∧ line = comment ++ after
    · obtain ⟨comment, after, hc, rfl⟩ := h
      have hafter : after = after.takeWhile isBlank ++ stripLeft after :=
        List.takeWhile_append_dropWhile.symm
      have hblank : AllBlank (after.takeWhile isBlank) := fun c => List.mem_takeWhile_imp
      by_cases hrest : stripLeft after = []
      · -- The line does not end with a blank, so nothing is left.
        obtain rfl : after = [] := by
          rw [hrest, List.append_nil] at hafter
          cases hl : after.getLast? with
          | none => exact List.getLast?_eq_none_iff.1 hl
          | some c =>
            have hmem : c ∈ after := List.mem_of_getLast? hl
            rw [hafter] at hmem
            cases (hblank c hmem).symm.trans (hlast c (List.mem_getLast?_append_of_mem_getLast? hl))
        rw [List.append_nil]
        exact .inl (.one hc)
      · have hsolid : BeginsSolid (stripLeft after) := by
          obtain ⟨c, rest, hcons⟩ := List.exists_cons_of_ne_nil hrest
          have hhead := List.head?_dropWhile_not isBlank after
          rw [show after.dropWhile isBlank = c :: rest from hcons] at hhead
          exact ⟨c, by rw [hcons]; rfl, hhead⟩
        rw [hafter] at hlast hn ⊢
        have hpos := hc.length_pos
        rw [List.length_append, List.length_append] at hn
        have hend : ∀ c ∈ (stripLeft after).getLast?, isBlank c = false := fun c hc =>
          hlast c <| List.mem_getLast?_append_of_mem_getLast? <|
            List.mem_getLast?_append_of_mem_getLast? hc
        rcases ih (by omega) hsolid hend with hrun | hmore
        · exact .inl (.more hc hblank hrun)
        · exact .inr (hmore.extend hc hblank)
    · exact .inr ⟨[], line, rfl, .nil, hs, fun comment after hc he => h ⟨comment, after, hc, he⟩⟩

/-! ## Files -/

/-- The line is there, and it gives no statement. -/
def Skips (contents : String) (n : Nat) (line : List Char) : Prop :=
  line? (fileText contents) n = some line ∧ ∀ source, (source, n) ∉ sources (fileText contents)

/-- Every line that gives no statement is blank or made of comments. -/
def IsLossless (contents : String) : Prop :=
  ∀ n line, Skips contents n line → strip line = [] ∨ IsCommentRun (strip line)

theorem skips_iff {contents : String} {n : Nat} :
    Skips contents n line ↔ line? (fileText contents) n = some line ∧
      (strip line = [] ∨ isComment (strip line) = true) := by
  refine and_congr_right fun hline => ?_
  have hskip : isSkipped (strip line) = true ↔
      strip line = [] ∨ isComment (strip line) = true := by
    rw [isSkipped, Bool.or_eq_true, List.isEmpty_iff]
  rw [← hskip]
  constructor
  · intro h
    by_contra hs
    exact h _ (mem_sources.2 ⟨line, ⟨hline, Bool.eq_false_iff.2 hs⟩, rfl⟩)
  · rintro hs source hmem
    obtain ⟨line', ⟨hline', hs'⟩, -⟩ := mem_sources.1 hmem
    obtain rfl : line = line' := Option.some.inj (hline.symm.trans hline')
    rw [hs] at hs'
    cases hs'

/-- A file loses nothing exactly if no line of it that begins and ends like a comment holds more than
comments. -/
theorem isLossless_iff (contents : String) :
    IsLossless contents ↔ ∀ n line, line? (fileText contents) n = some line →
      isComment (strip line) = true → ¬ HoldsMore (strip line) := by
  constructor
  · intro h n line hline hcomment hmore
    rcases h n line (skips_iff.2 ⟨hline, .inr hcomment⟩) with hnil | hrun
    · rw [hnil] at hcomment
      cases hcomment
    · exact hrun.not_holdsMore hmore
  · intro h n line hskips
    obtain ⟨hline, hnil | hcomment⟩ := skips_iff.1 hskips
    · exact .inl hnil
    · obtain ⟨-, hhead, hlast⟩ := trims_strip line
      have hsolid : BeginsSolid (strip line) := by
        obtain ⟨c, rest, hcons⟩ : ∃ c rest, strip line = c :: rest := by
          refine List.exists_cons_of_ne_nil ?_
          intro hnil
          rw [hnil] at hcomment
          cases hcomment
        rw [hcons] at hhead ⊢
        exact ⟨c, rfl, hhead c rfl⟩
      rcases isCommentRun_or_holdsMore _ (Nat.le_refl _) hsolid hlast with hrun | hmore
      · exact .inr hrun
      · exact absurd hmore (h n line hline hcomment)

/-- An assignment between two comments. -/
def hiddenAssignment : String := "/* a */ x:1 /* b */"

theorem holdsMore_hiddenAssignment : HoldsMore hiddenAssignment.toList := by
  have hcomment : IsComment "/* a */".toList := ⟨" a ".toList, rfl, by decide⟩
  have hblank : AllBlank [' '] := List.forall_mem_singleton.2 rfl
  refine ⟨"/* a */ ".toList, "x:1 /* b */".toList, by decide, ?_, ⟨'x', rfl, by decide⟩, ?_⟩
  · exact .cons hcomment hblank .nil
  · rintro comment after ⟨body, rfl, -⟩ h
    exact absurd (List.cons.inj h).1 (by decide)

/-- It is skipped, though it is not made of comments. -/
theorem not_isLossless_hiddenAssignment : ¬ IsLossless hiddenAssignment := by
  intro h
  have hstrip : strip hiddenAssignment.toList = hiddenAssignment.toList := by decide
  have hskips : Skips hiddenAssignment 1 hiddenAssignment.toList :=
    skips_iff.2 ⟨by decide, .inr (by decide)⟩
  rcases h 1 _ hskips with hnil | hrun
  · exact absurd hnil (by decide)
  · rw [hstrip] at hrun
    exact hrun.not_holdsMore holdsMore_hiddenAssignment

end AlgebraBatch.StatementFile
