import AlgebraBatch.Batch.Session
import AlgebraBatch.Proofs.Batch.Block
import AlgebraBatch.Proofs.Datum.Entries
import AlgebraBatch.Proofs.Expr.Occurrence

/-!
# What is read and written in a session

Each step of merging usage into a map adds names under one member and leaves all else as it is
(`Extends`). Which names these are does not depend on the map, so steps after each other add the
names of all of them, and their order does not show in the names (`Session.usage_names`).

The names written are the keys of the statements, which stand at the top of expressions. So a
statement shows everything that it assigns to exactly if its expression assigns to no other name
(`Statement.showsWrites_iff`).
-/

namespace AlgebraBatch

namespace Usage

/-- The members under which names are kept. -/
def members : List String := ["read", "write"]

/-- The member is there and is a map. -/
def HasMember (member : String) (entries : List (Datum × Datum)) : Prop :=
  ∃ names, Datum.lookup (.str member) entries = some (.map names)

/-- Usage can be merged into the entries: their members for names are maps, as far as they are
there. -/
def IsUsage (entries : List (Datum × Datum)) : Prop :=
  ∀ member ∈ members, ∀ d, Datum.lookup (.str member) entries = some d → ∃ names, d = .map names

/-- The names under a member. Others than these programs may have put keys there that are no
texts. -/
def namesIn (member : String) (entries : List (Datum × Datum)) : List Datum :=
  match Datum.lookup (.str member) entries with
  | some (.map names) => names.map Prod.fst
  | _ => []

/-- The entries that are not for names. -/
def others (entries : List (Datum × Datum)) : List (Datum × Datum) :=
  entries.filter fun e => members.all fun member => !e.1.equalAtom (.str member)

/-- The entries after are those before with names added under members. -/
structure Extends (marked : String → String → Prop) (before after : List (Datum × Datum)) :
    Prop where
  others_eq : others after = others before
  hasMember : ∀ member, HasMember member before → HasMember member after
  mem_iff : ∀ member key, key ∈ namesIn member after ↔
    key ∈ namesIn member before ∨ ∃ name, marked member name ∧ key = .str name

variable {P Q : String → String → Prop} {member name : String} {expr : Option Expr}
  {names entries before middle after : List (Datum × Datum)}

/-! ## Added names -/

theorem Extends.refl (entries : List (Datum × Datum)) :
    Extends (fun _ _ => False) entries entries :=
  ⟨rfl, fun _ h => h, fun _ _ => by simp⟩

theorem Extends.trans (h : Extends P before middle) (h' : Extends Q middle after) :
    Extends (fun member name => P member name ∨ Q member name) before after := by
  refine ⟨h'.others_eq.trans h.others_eq, fun m hm => h'.hasMember m (h.hasMember m hm),
    fun m key => ?_⟩
  rw [h'.mem_iff, h.mem_iff, or_assoc, ← exists_or]
  exact or_congr_right (exists_congr fun name => or_and_right.symm)

theorem Extends.congr (h : Extends P before after)
    (hPQ : ∀ member name, P member name ↔ Q member name) : Extends Q before after :=
  ⟨h.others_eq, h.hasMember, fun m key => (h.mem_iff m key).trans
    (or_congr_right (exists_congr fun name => and_congr_left' (hPQ m name)))⟩

theorem namesIn_of_lookup (h : Datum.lookup (.str member) entries = some (.map names)) :
    namesIn member entries = names.map Prod.fst := by
  rw [namesIn, h]

/-- Giving a member a map with more names. -/
theorem extends_insert {new : String → Prop} (hm : member ∈ members)
    (h : ∀ key, key ∈ names.map Prod.fst ↔
      key ∈ namesIn member before ∨ ∃ name, new name ∧ key = .str name) :
    Extends (fun m name => m = member ∧ new name) before
      (Datum.insert (.str member) (.map names) before) := by
  have hself := @Datum.lookup_insert_self member (.map names) before
  have hother {m : String} (hne : member ≠ m) :=
    @Datum.lookup_insert_of_ne member m (.map names) before hne
  refine ⟨Datum.filter_insert fun _ => ?_, fun m hm => ?_, fun m key => ?_⟩
  · have hmem : ∃ m ∈ members, (Datum.str member).equalAtom (.str m) = true :=
      ⟨member, hm, Datum.equalAtom_str.2 rfl⟩
    simpa using hmem
  · rcases eq_or_ne member m with rfl | hne
    · exact ⟨names, hself⟩
    · exact hm.imp fun _ hl => (hother hne).trans hl
  · rcases eq_or_ne member m with rfl | hne
    · rw [namesIn_of_lookup hself, h]
      simp
    · rw [namesIn, hother hne, ← namesIn]
      simp [hne.symm]

theorem extends_withMember (hm : member ∈ members) :
    Extends (fun _ _ => False) before (withMember member before) := by
  rw [withMember]
  split
  · exact .refl before
  · next hnone =>
    have hempty : namesIn member before = [] := by rw [namesIn, hnone]
    have h : Extends (fun m _ => m = member ∧ False) before
        (Datum.insert (.str member) (.map []) before) :=
      extends_insert hm fun key => by simp [hempty]
    exact h.congr fun m name => by simp

theorem hasMember_withMember (hm : member ∈ members) (h : IsUsage before) :
    HasMember member (withMember member before) := by
  rw [withMember]
  split
  · next d hd =>
    obtain ⟨names, rfl⟩ := h member hm d hd
    exact ⟨names, hd⟩
  · exact ⟨[], Datum.lookup_insert_self⟩

theorem isUsage_withMember (h : IsUsage before) : IsUsage (withMember member before) := by
  rw [withMember]
  split
  · exact h
  · intro m hm d hd
    rcases eq_or_ne member m with rfl | hne
    · rw [Datum.lookup_insert_self] at hd
      exact ⟨[], (Option.some.inj hd).symm⟩
    · rw [Datum.lookup_insert_of_ne hne] at hd
      exact h m hm d hd

theorem mark_extends (name : String) (hm : member ∈ members) (h : HasMember member before) :
    ∃ after, mark member name before = .ok after ∧
      Extends (fun m n => m = member ∧ n = name) before after := by
  obtain ⟨names, hnames⟩ := h
  refine ⟨_, by rw [mark, hnames], extends_insert hm fun key => ?_⟩
  rw [Datum.mem_keys_insert, namesIn_of_lookup hnames]
  simp [or_comm]

theorem marks_extend (hm : member ∈ members) (names : List String) :
    ∀ {before : List (Datum × Datum)}, HasMember member before →
      ∃ after, names.foldlM (fun m name => mark member name m) before = .ok after ∧
        Extends (fun m n => m = member ∧ n ∈ names) before after := by
  induction names with
  | nil => exact fun _ => ⟨_, rfl, (Extends.refl _).congr fun m n => by simp⟩
  | cons name names ih =>
    intro before h
    obtain ⟨middle, hmark, hfirst⟩ := mark_extends name hm h
    obtain ⟨after, hmarks, hrest⟩ := ih (hfirst.hasMember member h)
    refine ⟨after, by rw [List.foldlM_cons, hmark]; exact hmarks, ?_⟩
    exact (hfirst.trans hrest).congr fun m n => by rw [← and_or_left, List.mem_cons]

/-! ## Merging -/

/-- The usage of an expression: the name that it assigns to at the top, and what it reads. -/
def Marks (expr : Option Expr) (member name : String) : Prop :=
  (member = "write" ∧ expr.bind assigned? = some name) ∨
    (member = "read" ∧ ∃ e, expr = some e ∧ (readPart e).Mentions name)

/-- The key, if there is one, is marked like the names that are read. -/
theorem merge_some (e : Expr) (before : List (Datum × Datum)) : merge (some e) (.map before) =
    (assigned? e).toList.foldlM (fun m name => mark "write" name m)
      (withMember "write" (withMember "read" before)) >>= fun written =>
    (.map ·) <$> (reads (readPart e)).foldlM (fun m name => mark "read" name m) written := by
  have hentries (f : List (Datum × Datum) → Except Fault Datum) :
      entriesOf (.map before) >>= f = f before := rfl
  rw [merge, hentries]
  cases h : assigned? e with
  | none => simp [h]
  | some name => simp [h]

theorem merge_extends (expr : Option Expr) (h : IsUsage before) :
    ∃ after, merge expr (.map before) = .ok (.map after) ∧
    (∀ member ∈ members, HasMember member after) ∧ Extends (Marks expr) before after := by
  have hwrite : Extends (fun _ _ => False) (withMember "read" before)
      (withMember "write" (withMember "read" before)) := extends_withMember (by decide)
  have hprepared : Extends (fun _ _ => False) before
      (withMember "write" (withMember "read" before)) :=
    ((extends_withMember (by decide)).trans hwrite).congr fun _ _ => or_self_iff
  have hmembers : ∀ member ∈ members,
      HasMember member (withMember "write" (withMember "read" before)) :=
    List.forall_mem_cons.2 ⟨hwrite.hasMember _ (hasMember_withMember (by decide) h),
      List.forall_mem_singleton.2 (hasMember_withMember (by decide) (isUsage_withMember h))⟩
  cases expr with
  | none =>
    exact ⟨_, rfl, hmembers, hprepared.congr fun m n => by simp [Marks]⟩
  | some e =>
    obtain ⟨written, hkey, hwritten⟩ :=
      marks_extend (by decide) (assigned? e).toList (hmembers "write" (by decide))
    obtain ⟨after, hreads, hafter⟩ := marks_extend (by decide) (reads (readPart e))
      (hwritten.hasMember _ (hmembers "read" (by decide)))
    refine ⟨after, ?_, fun m hm => hafter.hasMember m (hwritten.hasMember m (hmembers m hm)),
      ((hprepared.trans hwritten).trans hafter).congr fun m n => ?_⟩
    · rw [merge_some]
      exact bind_eq_ok.2 ⟨written, hkey, by rw [hreads]; rfl⟩
    · simp [Marks, Expr.mem_reads]

theorem merges_extend (exprs : List (Option Expr)) : ∀ {before : List (Datum × Datum)},
    IsUsage before → ∃ after,
      exprs.foldlM (fun update expr => merge expr update) (.map before) = .ok (.map after) ∧
      (exprs ≠ [] → ∀ member ∈ members, HasMember member after) ∧
      Extends (fun member name => ∃ expr ∈ exprs, Marks expr member name) before after := by
  induction exprs with
  | nil => exact fun _ => ⟨_, rfl, (absurd rfl ·), (Extends.refl _).congr fun m n => by simp⟩
  | cons expr exprs ih =>
    intro before h
    obtain ⟨middle, hmerge, hmembers, hfirst⟩ := merge_extends expr h
    have hmiddle : IsUsage middle := by
      intro member hm d hd
      obtain ⟨names, hnames⟩ := hmembers member hm
      exact ⟨names, Option.some.inj (hd.symm.trans hnames)⟩
    obtain ⟨after, hrun, -, hrest⟩ := ih hmiddle
    refine ⟨after, by rw [List.foldlM_cons, hmerge]; exact hrun,
      fun _ m hm => hrest.hasMember m (hmembers m hm), (hfirst.trans hrest).congr fun m n => ?_⟩
    rw [List.exists_mem_cons_iff]

end Usage

/-! ## Statements -/

namespace Statement

open Usage AlgebraBatch.Expr

/-- The statement has the expression that was made of its source, or none if it is not valid. -/
def IsMade (s : Statement) : Prop :=
  ∃ made, make s.kind s.source s.context = .ok made ∧ s.expr = made.expr

/-- A variable of the name stands in the statement, or on its right side if it assigns to a name. -/
def Reads (s : Statement) (name : String) : Prop :=
  ∃ e, s.expr = some e ∧ (readPart e).Mentions name

/-- An assignment to the name stands in the statement. -/
def Sets (s : Statement) (name : String) : Prop :=
  ∃ e, s.expr = some e ∧ e.Sets name

/-- Every name that the statement assigns to is among those that it is said to write. -/
def ShowsWrites (s : Statement) : Prop :=
  ∃ after, s.usage .null = .ok (.map after) ∧
    ∀ name, s.Sets name → .str name ∈ namesIn "write" after

variable {s : Statement} {e : Expr} {name : String}

theorem Accepted.isMade (h : s.Accepted) : s.IsMade := by
  obtain ⟨made, hm, -, he⟩ := h
  exact ⟨made, hm, he⟩

theorem IsMade.readable (h : s.IsMade) (he : s.expr = some e) : e.Readable := by
  obtain ⟨made, hm, hexpr⟩ := h
  rw [hexpr] at he
  rw [make] at hm
  split at hm
  · next e' hp =>
    cases hm
    cases he
    exact readable_of_parseSource hp
  · cases hm
    cases he
  · cases hm

theorem sets_of_assigned (h : assigned? e = some name) : e.Sets name := by
  unfold assigned? at h
  split at h
  · next n r =>
    cases h
    exact ⟨r, self_mem_walk _⟩
  · cases h

theorem IsMade.ne_empty (h : s.IsMade) (hs : s.Sets name) : name ≠ "" := by
  rintro rfl
  obtain ⟨e, he, hs⟩ := hs
  have hempty : ¬ Syntax.Pattern.identifier.IsLexeme "".toList := by decide
  exact hempty (h.readable he _ hs.mem_walk).1.1

/-- The key is the name that the statement assigns to, which is never empty. -/
theorem IsMade.assigned_iff (h : s.IsMade) :
    s.expr.bind assigned? = some name ↔ s.key ≠ "" ∧ name = s.key := by
  rw [key]
  cases ha : s.expr.bind assigned? with
  | none => simp
  | some n =>
    obtain ⟨e, he, ha⟩ := Option.bind_eq_some_iff.1 ha
    have hn : n ≠ "" := h.ne_empty ⟨e, he, sets_of_assigned ha⟩
    simp [hn, eq_comm]

theorem IsMade.marks_write (h : s.IsMade) :
    Marks s.expr "write" name ↔ s.key ≠ "" ∧ name = s.key := by
  rw [← h.assigned_iff]
  simp [Marks]

theorem marks_read : Marks s.expr "read" name ↔ s.Reads name := by
  simp [Marks, Reads]

/-- What is not assigned to at the top of an expression is assigned to in the part that is read. -/
theorem sets_cases (h : e.Sets name) : assigned? e = some name ∨ (readPart e).Sets name := by
  rcases h.cases with ⟨r, rfl⟩ | ⟨part, hpart, hsets⟩
  · exact .inl rfl
  · unfold readPart
    split
    · next n r =>
      obtain rfl | rfl : part = identifier n ∨ part = r := by simpa [parts] using hpart
      · exact absurd hsets not_sets_identifier
      · exact .inr hsets
    · exact .inr h

/-- What usage tells of an accepted statement: the name written is the key, and every name that is
assigned to is written or read. So exactly those assignments that do not make the key are missing
among the names written. -/
theorem showsWrites_iff (h : s.Accepted) : (s.ShowsWrites ↔ ∀ name, s.Sets name → s.key = name) ∧
    ∃ after, s.usage .null = .ok (.map after) ∧
      (∀ key, key ∈ namesIn "write" after ↔ s.key ≠ "" ∧ key = .str s.key) ∧
      ∀ name, s.Sets name → .str name ∈ namesIn "write" after ∨ .str name ∈ namesIn "read" after := by
  have hnone : IsUsage [] := fun _ _ _ hd => nomatch hd
  obtain ⟨after, hafter, -, hextends⟩ := merge_extends s.expr hnone
  have husage : s.usage .null = .ok (.map after) := hafter
  have hempty (member : String) : namesIn member [] = [] := rfl
  have hwrite (key : Datum) : key ∈ namesIn "write" after ↔ s.key ≠ "" ∧ key = .str s.key := by
    rw [hextends.mem_iff, hempty]
    simp [h.isMade.marks_write]
  have hread (key : Datum) : key ∈ namesIn "read" after ↔ ∃ name, s.Reads name ∧ key = .str name := by
    rw [hextends.mem_iff, hempty]
    simp [marks_read]
  have hassigned {e : Expr} {name : String} (he : s.expr = some e) (ha : assigned? e = some name) :
      s.key ≠ "" ∧ name = s.key :=
    h.isMade.assigned_iff.1 (by rw [he, Option.bind_some, ha])
  refine ⟨⟨?_, ?_⟩, after, husage, hwrite, ?_⟩
  · rintro ⟨after', husage', hshows⟩ name hsets
    cases husage.symm.trans husage'
    exact (Datum.str.inj ((hwrite _).1 (hshows name hsets)).2).symm
  · intro hkey
    refine ⟨after, husage, fun name hsets => (hwrite _).2 ?_⟩
    rw [hkey name hsets]
    exact ⟨h.isMade.ne_empty hsets, rfl⟩
  · rintro name ⟨e, he, hsets⟩
    rcases sets_cases hsets with ha | hr
    · exact .inl ((hwrite _).2 ⟨(hassigned he ha).1, congrArg Datum.str (hassigned he ha).2⟩)
    · exact .inr ((hread _).2 ⟨name, ⟨e, he, hr.mentions⟩, rfl⟩)

/-- Two assignments to one name, the second in a list. -/
def repeated : Statement :=
  { kind := .value, source := .str "x:[x:1]", context := "",
    expr := some (.operation ":" (.identifier "x")
      (.list [.operation ":" (.identifier "x") (.integer 1)])), parseErrors := [] }

set_option maxRecDepth 4000 in
theorem showsWrites_repeated : repeated.Accepted ∧ repeated.ShowsWrites := by
  have haccepted : repeated.Accepted := ⟨_, rfl, rfl, rfl⟩
  refine ⟨haccepted, (showsWrites_iff haccepted).1.2 ?_⟩
  rintro name ⟨e, he, r, hr⟩
  cases he
  obtain ⟨rfl, -⟩ | ⟨rfl, -⟩ : (name = "x" ∧ r = list [operation ":" (identifier "x") (integer 1)]) ∨
      (name = "x" ∧ r = integer 1) := by
    simpa [walk, walkItems] using hr
  · rfl
  · rfl

/-- An assignment to one name whose value is an assignment to another. -/
def chained : Statement :=
  { kind := .plain, source := .str "x:y:3", context := "",
    expr := some (.operation ":" (.identifier "x")
      (.operation ":" (.identifier "y") (.integer 3))), parseErrors := [] }

set_option maxRecDepth 4000 in
/-- The second name of a chain of assignments is not among the names written. -/
theorem not_showsWrites_chained : chained.Accepted ∧ chained.Sets "y" ∧
    ¬ chained.ShowsWrites := by
  have hsets : chained.Sets "y" := ⟨_, rfl, .integer 3, by simp [walk]⟩
  refine ⟨⟨_, rfl, rfl, rfl⟩, hsets, ?_⟩
  rintro ⟨after, husage, hshows⟩
  cases husage
  have hy : Datum.str "y" ∈ [Datum.str "x"] := hshows "y" hsets
  simp at hy

end Statement

/-! ## Sessions -/

namespace Batch.Session

open Usage

/-- The map after holds what the map before does, and the usage of the statements: the keys of those
that have one are written, and the variables in valid ones are read. -/
structure Collects (statements : List Statement) (before after : List (Datum × Datum)) : Prop where
  others_eq : others after = others before
  written : HasMember "write" after ∧ ∀ key, key ∈ namesIn "write" after ↔
    key ∈ namesIn "write" before ∨ ∃ s ∈ statements, s.key ≠ "" ∧ key = .str s.key
  read : HasMember "read" after ∧ ∀ key, key ∈ namesIn "read" after ↔
    key ∈ namesIn "read" before ∨ ∃ s ∈ statements, ∃ name, s.Reads name ∧ key = .str name

variable {session : Session} {store : Store} {statements : List Statement}
  {before : List (Datum × Datum)}

theorem usage_collects (hr : session.requests store = statements.map .statement)
    (hne : statements ≠ []) (hmade : ∀ s ∈ statements, s.IsMade) (h : IsUsage before) :
    ∃ after, session.usage store (.map before) = .ok (.map after) ∧
      Collects statements before after := by
  obtain ⟨after, hmerges, hmembers, hextends⟩ := merges_extend (statements.map (·.expr)) h
  have hmem := hmembers (by simpa using hne)
  have husage : session.usage store (.map before) = .ok (.map after) := by
    have hfold : session.usage store (.map before) =
        (session.requests store).foldlM (fun update r => r.usage update) (.map before) := rfl
    rw [hfold, hr, List.foldlM_map, ← hmerges, List.foldlM_map]
    rfl
  refine ⟨after, husage, hextends.others_eq, ⟨hmem _ (by decide), fun key => ?_⟩,
    hmem _ (by decide), fun key => ?_⟩
  · rw [hextends.mem_iff]
    refine or_congr_right ⟨?_, ?_⟩
    · rintro ⟨name, ⟨expr, hexpr, hmarks⟩, rfl⟩
      obtain ⟨s, hs, rfl⟩ := List.mem_map.1 hexpr
      obtain ⟨hkey, rfl⟩ := (hmade s hs).marks_write.1 hmarks
      exact ⟨s, hs, hkey, rfl⟩
    · rintro ⟨s, hs, hkey, rfl⟩
      exact ⟨s.key, ⟨s.expr, List.mem_map_of_mem hs, (hmade s hs).marks_write.2 ⟨hkey, rfl⟩⟩, rfl⟩
  · rw [hextends.mem_iff]
    refine or_congr_right ⟨?_, ?_⟩
    · rintro ⟨name, ⟨expr, hexpr, hmarks⟩, rfl⟩
      obtain ⟨s, hs, rfl⟩ := List.mem_map.1 hexpr
      exact ⟨s, hs, name, Statement.marks_read.1 hmarks, rfl⟩
    · rintro ⟨s, hs, name, hreads, rfl⟩
      exact ⟨name, ⟨s.expr, List.mem_map_of_mem hs, Statement.marks_read.2 hreads⟩, rfl⟩

/-- The same statements in another order give the same names. -/
theorem Collects.names_of_perm {statements' : List Statement} {after after' : List (Datum × Datum)}
    (h : Collects statements before after) (h' : Collects statements' before after')
    (hperm : statements'.Perm statements) :
    ∀ member ∈ Usage.members, ∀ key, key ∈ namesIn member after' ↔ key ∈ namesIn member after := by
  refine List.forall_mem_cons.2 ⟨fun key => ?_, List.forall_mem_singleton.2 fun key => ?_⟩
  · rw [h.read.2, h'.read.2]
    exact or_congr_right (exists_congr fun s => and_congr_left' hperm.mem_iff)
  · rw [h.written.2, h'.written.2]
    exact or_congr_right (exists_congr fun s => and_congr_left' hperm.mem_iff)

/-- The usage of a session, whatever the map it is merged into holds besides names and whichever
order its statements have. -/
theorem usage_names (hr : session.requests store = statements.map .statement)
    (hne : statements ≠ []) (hmade : ∀ s ∈ statements, s.IsMade) (h : IsUsage before) :
    ∃ after, session.usage store (.map before) = .ok (.map after) ∧
      Collects statements before after ∧
      ∀ (session' : Session) (store' : Store) (statements' : List Statement),
        session'.requests store' = statements'.map .statement → statements'.Perm statements →
        ∃ after', session'.usage store' (.map before) = .ok (.map after') ∧
          ∀ member ∈ Usage.members, ∀ key,
            key ∈ namesIn member after' ↔ key ∈ namesIn member after := by
  obtain ⟨after, husage, hcollects⟩ := usage_collects hr hne hmade h
  refine ⟨after, husage, hcollects, fun session' store' statements' hr' hperm => ?_⟩
  have hne' : statements' ≠ [] := by
    rintro rfl
    exact hne hperm.symm.eq_nil
  obtain ⟨after', husage', hcollects'⟩ :=
    usage_collects hr' hne' (fun s hs => hmade s (hperm.mem_iff.1 hs)) h
  exact ⟨after', husage', hcollects.names_of_perm hcollects' hperm⟩

/-- An assignment whose value calls and adds one name, and a text that is no expression. -/
def callingBatch : List Statement :=
  [{ kind := .value, source := .str "y:f(x)+f", context := "",
     expr := some (.operation ":" (.identifier "y")
       (.operation "+" (.call (.identifier "f") [.identifier "x"]) (.identifier "f"))),
     parseErrors := [] },
   { kind := .plain, source := .str "1+", context := "", expr := none,
     parseErrors := ["ParseError: Parse Error in input text at L1:C2. Rule 'root' parsed " ++
       "successfully, but failed to consume the entire input. Unconsumed text begins with: '+...'"] }]

def callingSession : Session := { members := [0, 1], options := {}, seed := 1 }

def callingStore : Store := .ofList (callingBatch.map .statement)

/-- A map with an entry of its own and a name that is read already. -/
def knownUsage : List (Datum × Datum) :=
  [(.str "note", .int 1), (.str "read", .map [(.str "z", .bool true)])]

set_option maxRecDepth 4000 in
theorem usage_names_callingBatch :
    (callingSession.requests callingStore = callingBatch.map .statement ∧ callingBatch ≠ [] ∧
      (∀ s ∈ callingBatch, s.IsMade) ∧ IsUsage knownUsage) ∧
    ∃ after, callingSession.usage callingStore (.map knownUsage) = .ok (.map after) ∧
      Collects callingBatch knownUsage after ∧
      namesIn "write" after = [.str "y"] ∧ namesIn "read" after = [.str "z", .str "x", .str "f"] := by
  have hr : callingSession.requests callingStore = callingBatch.map .statement := rfl
  have hne : callingBatch ≠ [] := List.cons_ne_nil _ _
  have hmade : ∀ s ∈ callingBatch, s.IsMade := by
    rw [callingBatch, List.forall_mem_cons, List.forall_mem_singleton]
    exact ⟨⟨_, rfl, rfl⟩, ⟨_, rfl, rfl⟩⟩
  have h : IsUsage knownUsage :=
    List.forall_mem_cons.2 ⟨fun d hd => ⟨_, (Option.some.inj hd).symm⟩,
      List.forall_mem_singleton.2 nofun⟩
  obtain ⟨after, husage, hcollects, -⟩ := usage_names hr hne hmade h
  refine ⟨⟨hr, hne, hmade, h⟩, after, husage, hcollects, ?_⟩
  cases husage
  exact ⟨rfl, rfl⟩

end Batch.Session

end AlgebraBatch
