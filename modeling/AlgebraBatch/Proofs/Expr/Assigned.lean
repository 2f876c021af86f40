import AlgebraBatch.Proofs.Syntax.Core
import AlgebraBatch.Proofs.Syntax.Printed
import AlgebraBatch.Proofs.Text.Assigned

/-!
# The names that an expression assigns

`assignedName? d` is the name that stands right before the colon of an assignment, which is the name
on its left side or the one that the left side ends with. Reading the text of a readable expression
notices just these names of all nodes in it (`mem_assignedNames_text`), so nothing in a literal is
taken for an assignment, and no assignment is missed, however deep it is. The proof follows the
printer, with a lemma for each way in which it puts parts together.
-/

namespace AlgebraBatch.Expr

open AlgebraBatch.Text AlgebraBatch.Syntax Watch

/-- The name with which the text of an expression ends. A conditional never stands before an
operator without parentheses. -/
def lastName? : Expr → Option String
  | identifier name => some name
  | boolean b => some (if b then "true" else "false")
  | operation op _ r => if precedence r < rightMinimum op then none else lastName? r
  | prefixed op e => if precedence e < prefixPrecedence op then none else lastName? e
  | _ => none

/-- The name that the node itself assigns. -/
def assignedName? : Expr → Option String
  | operation ":" l _ => if precedence l < leftMinimum ":" then none else lastName? l
  | _ => none

/-- A node in the expression assigns the name. -/
def Assigns (e : Expr) (name : String) : Prop := ∃ d ∈ e.walk, d.assignedName? = some name

instance (e : Expr) (name : String) : Decidable (Assigns e name) :=
  inferInstanceAs (Decidable (∃ d ∈ e.walk, _))

/-- What is noticed in a text is just what has the property, and no name is left waiting. -/
structure Notices (cs : List Char) (P : String → Prop) (ns : List String) (spot : Spot) : Prop where
  watched : Watched fresh cs ns (.code spot)
  settled : spot.isSettled = true
  mem_iff : ∀ name, name ∈ ns ↔ P name

/-- The text of the expression notices what the expression assigns, and ends with its last name. -/
def Noticed (e : Expr) : Prop :=
  ∃ ns spot, Notices (render e) e.Assigns ns spot ∧
    (isConditional e = false → spot.name? = e.lastName?)

section

variable {e l r head : Expr} {es : List Expr} {op name : String} {cs ds sep : List Char}
  {P Q : String → Prop} {ns ns' : List String} {spot spot' : Spot}

/-! ## The names of each node -/

theorem assignedName?_operation : (operation op l r).assignedName? =
    if op = ":" then (if precedence l < leftMinimum op then none else lastName? l) else none := by
  by_cases h : op = ":"
  · subst h
    rfl
  · rw [if_neg h, assignedName?]
    rintro l' r' he
    injection he with hop
    exact h hop

/-- A node that assigns nothing itself. -/
theorem assigns_of_walk {ds : List Expr} (hw : e.walk = e :: ds) (ha : e.assignedName? = none) :
    e.Assigns name ↔ ∃ d ∈ ds, d.assignedName? = some name := by
  rw [Assigns, hw, List.exists_mem_cons_iff, ha]
  exact or_iff_right nofun

theorem assigns_items : (∃ d ∈ walkItems es, d.assignedName? = some name) ↔
    ∃ e ∈ es, e.Assigns name := by
  simp only [mem_walkItems, Assigns]
  constructor
  · rintro ⟨d, ⟨e, he, hd⟩, ha⟩
    exact ⟨e, he, d, hd, ha⟩
  · rintro ⟨e, he, d, hd, ha⟩
    exact ⟨d, ⟨e, he, hd⟩, ha⟩

theorem assigns_branches {bs : List (Expr × Expr)} :
    (∃ d ∈ walkBranches bs, d.assignedName? = some name) ↔
      ∃ b ∈ bs, b.1.Assigns name ∨ b.2.Assigns name := by
  simp only [mem_walkBranches, Assigns]
  constructor
  · rintro ⟨d, ⟨b, hb, hd | hd⟩, ha⟩
    · exact ⟨b, hb, .inl ⟨d, hd, ha⟩⟩
    · exact ⟨b, hb, .inr ⟨d, hd, ha⟩⟩
  · rintro ⟨b, hb, ⟨d, hd, ha⟩ | ⟨d, hd, ha⟩⟩
    · exact ⟨d, ⟨b, hb, .inl hd⟩, ha⟩
    · exact ⟨d, ⟨b, hb, .inr hd⟩, ha⟩

theorem assigns_operation : (operation op l r).Assigns name ↔
    (operation op l r).assignedName? = some name ∨ l.Assigns name ∨ r.Assigns name := by
  rw [Assigns, walk, List.exists_mem_cons_iff]
  simp only [List.mem_append, or_and_right, exists_or, Assigns]

theorem assigns_prefixed : (prefixed op e).Assigns name ↔ e.Assigns name :=
  assigns_of_walk rfl rfl

theorem assigns_postfixed : (postfixed op e).Assigns name ↔ e.Assigns name :=
  assigns_of_walk rfl rfl

theorem assigns_call : (call head es).Assigns name ↔
    head.Assigns name ∨ ∃ e ∈ es, e.Assigns name := by
  rw [assigns_of_walk rfl rfl, ← assigns_items]
  simp only [List.mem_append, or_and_right, exists_or, Assigns]

theorem assigns_indexed : (indexed head es).Assigns name ↔
    head.Assigns name ∨ ∃ e ∈ es, e.Assigns name := by
  rw [assigns_of_walk rfl rfl, ← assigns_items]
  simp only [List.mem_append, or_and_right, exists_or, Assigns]

theorem assigns_conditional {bs : List (Expr × Expr)} {otherwise : Option Expr} :
    (conditional bs otherwise).Assigns name ↔
      (∃ b ∈ bs, b.1.Assigns name ∨ b.2.Assigns name) ∨ ∃ e ∈ otherwise, e.Assigns name := by
  rw [assigns_of_walk rfl rfl, ← assigns_branches]
  simp only [List.mem_append, or_and_right, exists_or]
  cases otherwise <;> simp [walkOption, Assigns]

theorem assigns_list : (list es).Assigns name ↔ ∃ e ∈ es, e.Assigns name :=
  (assigns_of_walk rfl rfl).trans assigns_items

theorem assigns_set : (set es).Assigns name ↔ ∃ e ∈ es, e.Assigns name :=
  (assigns_of_walk rfl rfl).trans assigns_items

/-! ## Putting texts together -/

theorem Notices.lead (h : Notices cs P ns spot) (hl : Watched fresh ds [] fresh) :
    Notices (ds ++ cs) P ns spot :=
  ⟨hl.after_silent h.watched, h.settled, h.mem_iff⟩

theorem Notices.close (h : Notices cs P ns spot) (hsep : IsSeparator sep) :
    Notices (cs ++ sep) P ns .plain :=
  ⟨h.watched.then_silent (hsep.watched h.settled), rfl, h.mem_iff⟩

theorem Notices.join (h : Notices cs P ns spot) (hsep : IsSeparator sep)
    (h' : Notices ds Q ns' spot') :
    Notices (cs ++ sep ++ ds) (fun name => P name ∨ Q name) (ns ++ ns') spot' := by
  refine ⟨(h.close hsep).watched.append h'.watched, h'.settled, fun name => ?_⟩
  rw [List.mem_append, h.mem_iff, h'.mem_iff]

theorem Notices.congr (h : Notices cs P ns spot) (hPQ : ∀ name, P name ↔ Q name) :
    Notices cs Q ns spot :=
  ⟨h.watched, h.settled, fun name => (h.mem_iff name).trans (hPQ name)⟩

/-! ## Atoms -/

theorem noticed_silent (hr : render e = cs) (hw : Watched fresh cs [] (.code spot))
    (hs : spot.isSettled = true) (hn : spot.name? = e.lastName?) (ha : e.walk = [e])
    (hd : e.assignedName? = none) : Noticed e := by
  subst hr
  refine ⟨[], spot, ⟨hw, hs, fun name => ?_⟩, fun _ => hn⟩
  rw [assigns_of_walk ha hd]
  simp

theorem watched_toDigits (n : Nat) : Watched fresh (Nat.toDigits 10 n) [] (.code .number) := by
  have hdigits : ∀ c ∈ Nat.toDigits 10 n, isDecimalDigit c = true :=
    fun c hc => isDecimalDigit_of_mem_toDigits hc
  cases he : Nat.toDigits 10 n with
  | nil => exact absurd he Nat.toDigits_ne_nil
  | cons c cs =>
    rw [he] at hdigits
    exact watched_digits (hdigits c List.mem_cons_self) fun d hd =>
      .inl (isRun_of_isDecimalDigit (hdigits d (List.mem_cons_of_mem c hd)))

theorem noticed_integer {n : Int} (h : isNegativeInteger (.integer n) = false) :
    Noticed (.integer n) :=
  noticed_silent (render_integer h) (watched_toDigits n.natAbs) rfl rfl rfl rfl

theorem noticed_identifier (h : Pattern.identifier.IsLexeme name.toList) :
    Noticed (.identifier name) := by
  refine noticed_silent rfl (watched_name h) rfl ?_ rfl rfl
  show some (String.ofList name.toList) = some name
  rw [String.ofList_toList]

theorem noticed_boolean (b : Bool) : Noticed (.boolean b) := by
  have htrue : Watched fresh "true".toList [] (.code (.name "true".toList)) := by decide
  have hfalse : Watched fresh "false".toList [] (.code (.name "false".toList)) := by decide
  cases b with
  | true => exact noticed_silent rfl htrue rfl (by decide) rfl rfl
  | false => exact noticed_silent rfl hfalse rfl (by decide) rfl rfl

/-! ## Operators -/

/-- Parentheses hide the last name, and nothing else. -/
theorem Noticed.bracket (h : Noticed e) {b : Bool} (hb : isConditional e = true → b = true) :
    ∃ ns spot, Notices (bracket b (render e)) e.Assigns ns spot ∧
      spot.name? = if b then none else e.lastName? := by
  obtain ⟨ns, spot, hnotices, hn⟩ := h
  cases b with
  | false =>
    have hc : isConditional e = false := by
      cases hc : isConditional e with
      | false => rfl
      | true => exact absurd (hb hc) (by decide)
    exact ⟨ns, spot, hnotices, hn hc⟩
  | true =>
    have hopen : Watched fresh ['('] [] fresh := by decide
    have hclose : IsSeparator [')'] := by decide
    exact ⟨ns, .plain, (hnotices.close hclose).lead hopen, rfl⟩

/-- A conditional stands in parentheses wherever more than its own precedence is asked for. -/
theorem bracket_of_isConditional {m : Nat} (hm : conditionalPrecedence < m)
    (h : isConditional e = true) : decide (precedence e < m) = true := by
  cases e with
  | conditional branches otherwise => exact decide_eq_true hm
  | _ => cases h

theorem separator_of_operator (hop : op ∈ printedOperators) (h : op ∉ [":", ":="]) :
    IsSeparator (operatorText op) := by
  have all : ∀ op ∈ printedOperators, op ∉ [":", ":="] → IsSeparator (operatorText op) := by decide
  exact all op hop h

/-- What follows an operator is read as at the beginning of a text, only that a colon waits. -/
theorem watched_operator (hop : op ∈ printedOperators) (hs : spot.isSettled = true) :
    Watched (.code spot) (operatorText op) []
      (.code (if op = ":" then spot.assigned else .plain)) := by
  by_cases hcolon : op ∈ [":", ":="]
  · obtain rfl | rfl : op = ":" ∨ op = ":=" := by simpa using hcolon
    · cases spot with
      | colon name => cases hs
      | _ => exact ⟨rfl, rfl⟩
    · cases spot with
      | colon name => cases hs
      | _ => exact ⟨rfl, rfl⟩
  · have hne : op ≠ ":" := by
      rintro rfl
      exact hcolon (by decide)
    rw [if_neg hne]
    exact (separator_of_operator hop hcolon).watched hs

/-- An expression after a colon shows that the name before it is assigned. -/
theorem watched_after_colon {w : Watch} (h : Watched fresh cs ns w)
    (ho : Opens cs) : Watched (.code spot.assigned) cs (spot.name?.toList ++ ns) w := by
  obtain ⟨c, cs, rfl, hc⟩ := ho
  have heq : c ≠ '=' := by
    rintro rfl
    exact hc.apart.2 (by decide)
  have hcolon : c ≠ ':' := by
    rintro rfl
    exact hc.apart.2 (by decide)
  exact h.assigned heq hcolon

theorem noticed_operation (hop : op ∈ printedOperators) (hl : Noticed l) (hr : Noticed r)
    (hopens : Opens (bracket (precedence r < rightMinimum op) (render r))) :
    Noticed (.operation op l r) := by
  obtain ⟨hml, hmr⟩ := minimums_gt hop
  obtain ⟨ns, spot, ⟨hwl, hsl, hml⟩, hnl⟩ := hl.bracket (bracket_of_isConditional hml)
  obtain ⟨ns', spot', ⟨hwr, hsr, hmr⟩, hnr⟩ := hr.bracket (bracket_of_isConditional hmr)
  have hright : Watched (.code (if op = ":" then spot.assigned else .plain))
      (bracket (precedence r < rightMinimum op) (render r))
      ((if op = ":" then spot.name? else none).toList ++ ns') (.code spot') := by
    split
    · exact watched_after_colon hwr hopens
    · exact hwr
  refine ⟨_, spot', ⟨(hwl.then_silent (watched_operator hop hsl)).append hright, hsr,
    fun name => ?_⟩, fun _ => ?_⟩
  · have hown : (operation op l r).assignedName? = if op = ":" then spot.name? else none := by
      rw [assignedName?_operation, hnl]
      simp only [decide_eq_true_eq]
    rw [assigns_operation, hown, List.mem_append, List.mem_append, Option.mem_toList, hml, hmr,
      or_left_comm]
  · rw [hnr, lastName?]
    simp only [decide_eq_true_eq]

theorem noticed_prefixed (hop : op ∈ prefixOperators.map Prod.fst) (h : Noticed e) :
    Noticed (.prefixed op e) := by
  have all : ∀ op ∈ prefixOperators.map Prod.fst, conditionalPrecedence < prefixPrecedence op ∧
      Watched fresh (prefixText op) [] fresh := by decide
  obtain ⟨hm, hlead⟩ := all op hop
  obtain ⟨ns, spot, hnotices, hn⟩ := h.bracket (bracket_of_isConditional hm)
  refine ⟨ns, spot, (hnotices.lead hlead).congr fun _ => assigns_prefixed.symm, fun _ => ?_⟩
  rw [hn, lastName?]
  simp only [decide_eq_true_eq]

theorem noticed_postfixed (h : Noticed e) : Noticed (.postfixed "!" e) := by
  have hbang : IsSeparator "!".toList := by decide
  obtain ⟨ns, spot, hnotices, -⟩ :=
    h.bracket (bracket_of_isConditional (m := postfixPrecedence + 1) (by decide))
  exact ⟨ns, .plain, (hnotices.close hbang).congr fun _ => assigns_postfixed.symm, fun _ => rfl⟩

/-! ## Items -/

theorem notices_items (h : ∀ e ∈ es, Noticed e) :
    ∃ ns spot, Notices (renderItems [','] es) (fun name => ∃ e ∈ es, e.Assigns name) ns spot := by
  have hcomma : IsSeparator [','] := by decide
  induction es with
  | nil => exact ⟨[], .plain, .nil _, rfl, by simp⟩
  | cons e es ih =>
    obtain ⟨⟨ns, spot, he, -⟩, hes⟩ := List.forall_mem_cons.1 h
    cases es with
    | nil => exact ⟨ns, spot, he.congr fun name => by simp⟩
    | cons e' es =>
      obtain ⟨ns', spot', hitems⟩ := ih hes
      exact ⟨_, spot', (he.join hcomma hitems).congr fun name => by simp⟩

/-- Items in brackets. -/
theorem notices_enclosed {opening closing : Char} (ho : Watched fresh [opening] [] fresh)
    (hc : IsSeparator [closing]) (h : ∀ e ∈ es, Noticed e) :
    ∃ ns, Notices (opening :: (renderItems [','] es ++ [closing]))
      (fun name => ∃ e ∈ es, e.Assigns name) ns .plain := by
  obtain ⟨ns, spot, hitems⟩ := notices_items h
  exact ⟨ns, (hitems.close hc).lead ho⟩

theorem noticed_headed {opening closing : Char} (ho : IsSeparator [opening])
    (hc : IsSeparator [closing]) (hhead : Noticed head) (h : ∀ e ∈ es, Noticed e) :
    ∃ ns, Notices (render head ++ opening :: (renderItems [','] es ++ [closing]))
      (fun name => head.Assigns name ∨ ∃ e ∈ es, e.Assigns name) ns .plain := by
  obtain ⟨ns, spot, hh, -⟩ := hhead
  obtain ⟨ns', spot', hitems⟩ := notices_items h
  have := hh.join ho (hitems.close hc)
  rw [List.append_assoc] at this
  exact ⟨_, this⟩

theorem noticed_call (hhead : Noticed head) (h : ∀ e ∈ es, Noticed e) :
    Noticed (.call head es) := by
  have ho : IsSeparator ['('] := by decide
  have hc : IsSeparator [')'] := by decide
  obtain ⟨ns, hnotices⟩ := noticed_headed ho hc hhead h
  exact ⟨ns, .plain, hnotices.congr fun _ => assigns_call.symm, fun _ => rfl⟩

theorem noticed_indexed (hhead : Noticed head) (h : ∀ e ∈ es, Noticed e) :
    Noticed (.indexed head es) := by
  have ho : IsSeparator ['['] := by decide
  have hc : IsSeparator [']'] := by decide
  obtain ⟨ns, hnotices⟩ := noticed_headed ho hc hhead h
  exact ⟨ns, .plain, hnotices.congr fun _ => assigns_indexed.symm, fun _ => rfl⟩

theorem noticed_list (h : ∀ e ∈ es, Noticed e) : Noticed (.list es) := by
  have ho : Watched fresh ['['] [] fresh := by decide
  have hc : IsSeparator [']'] := by decide
  obtain ⟨ns, hnotices⟩ := notices_enclosed ho hc h
  exact ⟨ns, .plain, hnotices.congr fun _ => assigns_list.symm, fun _ => rfl⟩

theorem noticed_set (h : ∀ e ∈ es, Noticed e) : Noticed (.set es) := by
  have ho : Watched fresh ['\x7b'] [] fresh := by decide
  have hc : IsSeparator ['\x7d'] := by decide
  obtain ⟨ns, hnotices⟩ := notices_enclosed ho hc h
  exact ⟨ns, .plain, hnotices.congr fun _ => assigns_set.symm, fun _ => rfl⟩

/-! ## Conditionals -/

theorem Noticed.branchPart (h : Noticed e) :
    ∃ ns spot, Notices (Expr.bracket (precedence e < conditionalPrecedence + 1) (render e))
      e.Assigns ns spot := by
  obtain ⟨ns, spot, hnotices, -⟩ :=
    h.bracket (bracket_of_isConditional (m := conditionalPrecedence + 1) (by decide))
  exact ⟨ns, spot, hnotices⟩

/-- The text is empty or begins with a mark, so it ends a name before it. -/
def Separates (cs : List Char) : Prop := cs = [] ∨ ∃ d ds, cs = d :: ds ∧ IsSeparator [d]

theorem Notices.append (h : Notices cs P ns spot) (h' : Notices ds Q ns' spot') (hd : Separates ds) :
    ∃ ns spot, Notices (cs ++ ds) (fun name => P name ∨ Q name) ns spot := by
  rcases hd with rfl | ⟨d, ds, rfl, hd⟩
  · obtain ⟨rfl, -⟩ : ns' = [] ∧ _ := ⟨h'.watched.names.symm, h'.watched.after⟩
    rw [List.append_nil]
    exact ⟨ns, spot, h.congr fun name => by simp [← h'.mem_iff name]⟩
  · refine ⟨ns ++ ns', spot', h.watched.append (hd.watched_cons h.settled h'.watched), h'.settled,
      fun name => ?_⟩
    rw [List.mem_append, h.mem_iff, h'.mem_iff]

theorem notices_branches {bs : List (Expr × Expr)} (h : ∀ b ∈ bs, Noticed b.1 ∧ Noticed b.2) :
    ∀ first, ∃ ns spot, Notices (renderBranches first bs)
      (fun name => ∃ b ∈ bs, b.1.Assigns name ∨ b.2.Assigns name) ns spot := by
  induction bs with
  | nil => exact fun _ => ⟨[], .plain, .nil _, rfl, by simp⟩
  | cons b bs ih =>
    intro first
    obtain ⟨c, v⟩ := b
    obtain ⟨⟨hc, hv⟩, hbs⟩ := List.forall_mem_cons.1 h
    have hkeyword : Watched fresh (if first then "if " else " elseif ").toList [] fresh := by
      cases first <;> decide
    have hthen : IsSeparator " then ".toList := by decide
    obtain ⟨ns, spot, hc⟩ := hc.branchPart
    obtain ⟨ns', spot', hv⟩ := hv.branchPart
    obtain ⟨ns'', spot'', hmore⟩ := ih hbs false
    have hends : Separates (renderBranches false bs) := by
      cases bs with
      | nil => exact .inl rfl
      | cons b bs => exact .inr ⟨' ', _, rfl, by decide⟩
    obtain ⟨ns, spot, hall⟩ := ((hc.lead hkeyword).join hthen hv).append hmore hends
    exact ⟨ns, spot, hall.congr fun name => by simp⟩

theorem noticed_conditional {bs : List (Expr × Expr)} {otherwise : Option Expr} (hne : bs ≠ [])
    (hb : ∀ b ∈ bs, Noticed b.1 ∧ Noticed b.2) (ho : ∀ e ∈ otherwise, Noticed e) :
    Noticed (.conditional bs otherwise) := by
  have helse : IsSeparator " else ".toList := by decide
  obtain ⟨ns, spot, hbranches⟩ := notices_branches hb true
  rw [← List.isEmpty_eq_false_iff] at hne
  cases otherwise with
  | none =>
    have htext : render (.conditional bs none) = renderBranches true bs := by
      rw [render, hne, renderOtherwise, List.append_nil]
    refine ⟨ns, spot, ?_, nofun⟩
    rw [htext]
    exact hbranches.congr fun name => by simp [assigns_conditional]
  | some e =>
    obtain ⟨ns', spot', he, -⟩ := ho e rfl
    have htext : render (.conditional bs (some e)) =
        renderBranches true bs ++ " else ".toList ++ render e := by
      rw [render, hne, renderOtherwise, List.append_assoc]
      rfl
    refine ⟨ns ++ ns', spot', ?_, nofun⟩
    rw [htext]
    exact (hbranches.join helse he).congr fun name => by simp [assigns_conditional]

/-! ## Expressions -/

theorem noticed_render {e : Expr} (h : Readable e) : Noticed e := by
  induction e using Expr.induction with
  | integer n => exact noticed_integer (everywhere_integer.1 h).2
  | float x text => exact noticed_silent rfl (watched_float (everywhere_float.1 h).1.1) rfl rfl rfl rfl
  | string s => exact noticed_silent rfl (watched_quote s.toList) rfl rfl rfl rfl
  | boolean b => exact noticed_boolean b
  | identifier name => exact noticed_identifier (everywhere_identifier.1 h).1.1
  | operation op l r ihl ihr =>
    obtain ⟨⟨hd, -⟩, hl, hr⟩ := everywhere_operation.1 h
    have hbegins : Begins (level r) (bracket (precedence r < rightMinimum op) (render r) ++ []) :=
      .bracket fun _ => begins_render hr []
    rw [List.append_nil] at hbegins
    exact noticed_operation (mem_printedOperators hd.1 hd.2) (ihl hl) (ihr hr) hbegins.opens
  | prefixed op e ih =>
    obtain ⟨⟨hd, -⟩, he⟩ := everywhere_prefixed.1 h
    exact noticed_prefixed hd (ih he)
  | postfixed op e ih =>
    obtain ⟨⟨rfl, -⟩, he⟩ := everywhere_postfixed.1 h
    exact noticed_postfixed (ih he)
  | call head args ih iha =>
    obtain ⟨-, hh, ha⟩ := everywhere_call.1 h
    exact noticed_call (ih hh) fun a hm => iha a hm (ha a hm)
  | indexed target indices ih iha =>
    obtain ⟨-, ht, hi⟩ := everywhere_indexed.1 h
    exact noticed_indexed (ih ht) fun a hm => iha a hm (hi a hm)
  | conditional branches otherwise ihb iho =>
    obtain ⟨⟨hd, -⟩, hb, ho⟩ := everywhere_conditional.1 h
    exact noticed_conditional hd
      (fun b hm => ⟨(ihb b hm).1 (hb b hm).1, (ihb b hm).2 (hb b hm).2⟩)
      fun e hm => iho e hm (ho e hm)
  | list items ih => exact noticed_list fun a hm => ih a hm ((everywhere_list.1 h).2 a hm)
  | set items ih => exact noticed_set fun a hm => ih a hm ((everywhere_set.1 h).2 a hm)
  | root items ih => exact (everywhere_root.1 h).1.1.elim

/-- The text of a readable expression assigns what its nodes assign. -/
theorem mem_assignedNames_text {e : Expr} (h : Readable e) :
    name ∈ assignedNames e.text ↔ e.Assigns name := by
  obtain ⟨ns, spot, hnotices, -⟩ := noticed_render h
  rw [assignedNames, text, String.toList_ofList, hnotices.watched.names, hnotices.mem_iff]

end

end AlgebraBatch.Expr
