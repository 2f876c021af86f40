import AlgebraBatch.Text.Blank
import AlgebraBatch.Text.Search
import Mathlib.Data.List.TakeWhile

/-!
# Searching and trimming

A text that does not overlap with itself is found where it was put, unless it stands before
(`splitAtFirst?_append`). If it stands before, the text found is one of those
(`splitAtFirst?_infix`). What is trimmed at the end of a text is the longest end of which all
characters are in the class.
-/

namespace AlgebraBatch.Text

variable {needle cs ds es rest : List Char} {c : Char}

/-! ## Where a character stands -/

/-- A character that is not in the first part stands in the second. -/
theorem split_after (h : c ∉ cs) (htext : cs ++ rest = ds ++ c :: es) :
    ∃ before, ds = cs ++ before ∧ rest = before ++ c :: es := by
  induction cs generalizing ds with
  | nil => exact ⟨ds, rfl, htext⟩
  | cons d cs ih =>
    obtain ⟨hd, hcs⟩ := not_or.1 (mt List.mem_cons.2 h)
    cases ds with
    | nil => exact absurd (List.cons.inj htext).1.symm hd
    | cons e ds =>
      obtain ⟨rfl, htail⟩ := List.cons.inj htext
      obtain ⟨before, rfl, hrest⟩ := ih hcs htail
      exact ⟨before, rfl, hrest⟩

/-- A character stands in the first part or in the second. -/
theorem split_append (htext : cs ++ rest = ds ++ c :: es) :
    (∃ after, cs = ds ++ c :: after) ∨ ∃ before, ds = cs ++ before ∧ rest = before ++ c :: es := by
  induction cs generalizing ds with
  | nil => exact .inr ⟨ds, rfl, htext⟩
  | cons d cs ih =>
    cases ds with
    | nil =>
      obtain ⟨rfl, -⟩ := List.cons.inj htext
      exact .inl ⟨cs, rfl⟩
    | cons e ds =>
      obtain ⟨rfl, htail⟩ := List.cons.inj htext
      rcases ih htail with ⟨after, rfl⟩ | ⟨before, rfl, hrest⟩
      · exact .inl ⟨after, rfl⟩
      · exact .inr ⟨before, rfl, hrest⟩

/-! ## The first occurrence -/

/-- No end of the text is a beginning of it, apart from the whole and nothing. -/
def Unbordered (needle : List Char) : Prop :=
  ∀ n < needle.length, 0 < n → ¬ needle.drop n <+: needle

instance : DecidablePred Unbordered := fun _ => inferInstanceAs (Decidable (∀ n < _, _))

theorem splitAtFirst?_here (rest : List Char) :
    splitAtFirst? (c :: ds) (c :: ds ++ rest) = some ([], rest) := by
  have hprefix : (c :: ds).isPrefixOf (c :: (ds ++ rest)) = true :=
    List.isPrefixOf_iff_prefix.2 (List.prefix_append (c :: ds) rest)
  rw [List.cons_append, splitAtFirst?, if_pos hprefix]
  exact congrArg (fun after => some ([], after)) List.drop_left

theorem splitAtFirst?_later (h : ¬ needle <+: c :: cs) : splitAtFirst? needle (c :: cs) =
    (splitAtFirst? needle cs).map fun (before, after) => (c :: before, after) := by
  rw [splitAtFirst?, if_neg (mt List.isPrefixOf_iff_prefix.1 h)]

/-- A text does not begin in what stands before it and reach into itself. -/
theorem Unbordered.not_prefix (hu : Unbordered needle) (hcs : cs ≠ []) (h : ¬ needle <+: cs) :
    ¬ needle <+: cs ++ (needle ++ rest) := by
  intro hp
  obtain ⟨v, rfl⟩ : cs <+: needle :=
    (List.prefix_or_prefix_of_prefix hp (List.prefix_append _ _)).resolve_left h
  have hv : v ≠ [] := by
    rintro rfl
    rw [List.append_nil] at h
    exact h (List.prefix_refl cs)
  have hlength : (cs ++ v).length = cs.length + v.length := List.length_append
  have hcs' := List.length_pos_iff.2 hcs
  have hv' := List.length_pos_iff.2 hv
  refine hu cs.length (by omega) hcs' ?_
  rw [List.drop_left]
  have hprefix : v <+: cs ++ v ++ rest := (List.prefix_append_right_inj cs).1 hp
  exact List.prefix_of_prefix_length_le hprefix (List.prefix_append _ _) (by omega)

theorem splitAtFirst?_append (hu : Unbordered needle) (hne : needle ≠ [])
    (h : ¬ needle <:+: cs) : splitAtFirst? needle (cs ++ (needle ++ rest)) = some (cs, rest) := by
  induction cs with
  | nil =>
    obtain ⟨c, ds, rfl⟩ := List.exists_cons_of_ne_nil hne
    exact splitAtFirst?_here rest
  | cons c cs ih =>
    rw [List.infix_cons_iff, not_or] at h
    have hlater : ¬ needle <+: c :: (cs ++ (needle ++ rest)) :=
      hu.not_prefix (List.cons_ne_nil c cs) h.1
    rw [List.cons_append]
    rw [splitAtFirst?_later hlater, ih h.2]
    rfl

theorem splitAtFirst?_infix (hne : needle ≠ []) (h : needle <:+: cs) (rest : List Char) :
    ∃ before more, cs = before ++ (needle ++ more) ∧
      splitAtFirst? needle (cs ++ rest) = some (before, more ++ rest) := by
  induction cs with
  | nil => exact absurd (List.infix_nil.1 h) hne
  | cons c cs ih =>
    by_cases hp : needle <+: c :: cs
    · obtain ⟨more, hmore⟩ := hp
      obtain ⟨d, ds, rfl⟩ := List.exists_cons_of_ne_nil hne
      refine ⟨[], more, hmore.symm, ?_⟩
      rw [← hmore, List.append_assoc]
      exact splitAtFirst?_here _
    · obtain ⟨before, more, rfl, hsplit⟩ := ih ((List.infix_cons_iff.1 h).resolve_left hp)
      refine ⟨c :: before, more, rfl, ?_⟩
      have hlater : ¬ needle <+: c :: (before ++ (needle ++ more) ++ rest) := fun hp' => by
        refine hp (List.prefix_of_prefix_length_le hp' (List.prefix_append (c :: _) rest) ?_)
        simp only [List.length_cons, List.length_append]
        omega
      rw [List.cons_append, splitAtFirst?_later hlater, hsplit]
      rfl

/-- What is found is an occurrence, and there is none before it. -/
theorem splitAtFirst?_eq_some (hne : needle ≠ []) (h : splitAtFirst? needle cs = some (ds, es)) :
    cs = ds ++ (needle ++ es) ∧ ¬ needle <:+: ds := by
  induction cs generalizing ds with
  | nil => rw [splitAtFirst?, if_neg (mt List.isEmpty_iff.1 hne)] at h; cases h
  | cons c cs ih =>
    by_cases hp : needle <+: c :: cs
    · obtain ⟨more, hmore⟩ := hp
      obtain ⟨d, needle, rfl⟩ := List.exists_cons_of_ne_nil hne
      rw [← hmore, splitAtFirst?_here] at h
      cases h
      exact ⟨hmore.symm, mt List.infix_nil.1 hne⟩
    · rw [splitAtFirst?_later hp] at h
      obtain ⟨⟨before, after⟩, hsplit, hcons⟩ := Option.map_eq_some_iff.1 h
      cases hcons
      obtain ⟨rfl, hbefore⟩ := ih hsplit
      refine ⟨rfl, fun hfound => (List.infix_cons_iff.1 hfound).elim (fun hd => hp ?_) hbefore⟩
      exact hd.trans (List.prefix_append (c :: before) _)

theorem splitAtFirst?_eq_some_iff (hu : Unbordered needle) (hne : needle ≠ []) :
    splitAtFirst? needle cs = some (ds, es) ↔ cs = ds ++ (needle ++ es) ∧ ¬ needle <:+: ds := by
  constructor
  · exact splitAtFirst?_eq_some hne
  · rintro ⟨rfl, h⟩
    exact splitAtFirst?_append hu hne h

theorem splitAtFirst?_eq_none_iff (hne : needle ≠ []) :
    splitAtFirst? needle cs = none ↔ ¬ needle <:+: cs := by
  constructor
  · intro h hfound
    obtain ⟨before, more, -, hsplit⟩ := splitAtFirst?_infix hne hfound []
    rw [List.append_nil] at hsplit
    cases h.symm.trans hsplit
  · intro h
    cases hsplit : splitAtFirst? needle cs with
    | none => rfl
    | some parts =>
      obtain ⟨rfl, -⟩ := splitAtFirst?_eq_some hne hsplit
      exact absurd ⟨parts.1, parts.2, List.append_assoc _ _ _⟩ h

/-! ## Trimming -/

/-- What follows a character that is kept is trimmed alone. -/
theorem dropRightWhile_append_cons {p : Char → Bool} (h : p c = false) (ds cs : List Char) :
    dropRightWhile p (ds ++ c :: cs) = ds ++ c :: dropRightWhile p cs := by
  rw [dropRightWhile, List.reverse_append, List.reverse_cons, List.append_assoc,
    List.dropWhile_append]
  split
  · next he =>
    rw [dropRightWhile, List.isEmpty_iff.1 he, List.singleton_append,
      List.dropWhile_cons_of_neg (ne_true_of_eq_false h), List.reverse_cons, List.reverse_reverse]
    rfl
  · rw [dropRightWhile, List.reverse_append, List.reverse_append, List.reverse_reverse]
    exact List.append_assoc _ _ _

theorem dropRightWhile_cons {p : Char → Bool} (h : p c = false) (cs : List Char) :
    dropRightWhile p (c :: cs) = c :: dropRightWhile p cs :=
  dropRightWhile_append_cons h [] cs

theorem dropRightWhile_append (p : Char → Bool) (cs : List Char) :
    ∃ trail, cs = dropRightWhile p cs ++ trail ∧ ∀ c ∈ trail, p c = true := by
  refine ⟨(cs.reverse.takeWhile p).reverse, ?_, fun c hc => ?_⟩
  · rw [dropRightWhile, ← List.reverse_append, List.takeWhile_append_dropWhile,
      List.reverse_reverse]
  · exact List.mem_takeWhile_imp (List.mem_reverse.1 hc)

/-- `ds` is `cs` without the blanks at its ends. -/
structure Trims (cs ds : List Char) : Prop where
  padded : ∃ front back, cs = front ++ (ds ++ back) ∧
    (∀ c ∈ front, isBlank c = true) ∧ ∀ c ∈ back, isBlank c = true
  head : ∀ c ∈ ds.head?, isBlank c = false
  last : ∀ c ∈ ds.getLast?, isBlank c = false

theorem dropRightWhile_append_all {p : Char → Bool} (ds : List Char) (h : ∀ c ∈ cs, p c = true) :
    dropRightWhile p (ds ++ cs) = dropRightWhile p ds := by
  have hrev : ∀ c ∈ cs.reverse, p c = true := fun c hc => h c (List.mem_reverse.1 hc)
  rw [dropRightWhile, List.reverse_append, List.dropWhile_append_of_pos hrev]
  rfl

theorem dropRightWhile_of_forall {p : Char → Bool} (h : ∀ c ∈ cs, p c = false) :
    dropRightWhile p cs = cs := by
  rcases List.eq_nil_or_concat cs with rfl | ⟨ds, c, rfl⟩
  · rfl
  · rw [List.concat_eq_append] at h ⊢
    exact dropRightWhile_append_cons (h c (List.mem_append_right _ List.mem_cons_self)) ds []

theorem trims_strip (cs : List Char) : Trims cs (strip cs) := by
  obtain ⟨back, hback, hblank⟩ := dropRightWhile_append isBlank (stripLeft cs)
  refine ⟨⟨cs.takeWhile isBlank, back, ?_, fun c => List.mem_takeWhile_imp, hblank⟩, ?_, ?_⟩
  · exact (List.takeWhile_append_dropWhile (p := isBlank)).symm.trans (congrArg _ hback)
  · intro c hc
    have hhead : (cs.dropWhile isBlank).head? = some c := by
      rw [show cs.dropWhile isBlank = stripLeft cs from rfl, hback, List.head?_append]
      exact Option.or_eq_some_iff.2 (.inl hc)
    have hkept := List.head?_dropWhile_not isBlank cs
    rw [hhead] at hkept
    exact hkept
  · intro c hc
    rw [strip, stripRight, dropRightWhile, List.getLast?_reverse] at hc
    have hkept := List.head?_dropWhile_not isBlank (stripLeft cs).reverse
    rw [Option.mem_def.1 hc] at hkept
    exact hkept

theorem strip_eq_iff : strip cs = ds ↔ Trims cs ds := by
  constructor
  · rintro rfl
    exact trims_strip cs
  · rintro ⟨⟨front, back, rfl, hfront, hback⟩, hhead, hlast⟩
    have hleft : stripLeft (ds ++ back) = ds ++ (if ds = [] then [] else back) := by
      cases ds with
      | nil => exact List.dropWhile_eq_nil_iff.2 hback
      | cons c ds => exact List.dropWhile_cons_of_neg (ne_true_of_eq_false (hhead c rfl))
    have hends : ∀ c ∈ (if ds = [] then [] else back), isBlank c = true := by
      split
      · exact nofun
      · exact hback
    rw [strip, stripLeft, List.dropWhile_append_of_pos hfront]
    change stripRight (stripLeft (ds ++ back)) = ds
    rw [hleft, stripRight, dropRightWhile_append_all ds hends]
    rcases List.eq_nil_or_concat ds with rfl | ⟨ds, c, rfl⟩
    · rfl
    · rw [List.concat_eq_append] at hlast ⊢
      exact dropRightWhile_append_cons (hlast c List.getLast?_concat) ds []

/-- A text that begins and ends with characters that are no blanks has nothing to trim. -/
theorem strip_enclosed {d : Char} (hc : isBlank c = false) (hd : isBlank d = false)
    (cs : List Char) : strip (c :: (cs ++ [d])) = c :: (cs ++ [d]) := by
  rw [strip, stripLeft, List.dropWhile_cons_of_neg (ne_true_of_eq_false hc), stripRight,
    ← List.cons_append, dropRightWhile_append_cons hd]
  rfl

end AlgebraBatch.Text
