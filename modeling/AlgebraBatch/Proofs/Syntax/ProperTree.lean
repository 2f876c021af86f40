import AlgebraBatch.Proofs.Syntax.Accepted
import AlgebraBatch.Proofs.Syntax.Record
import Mathlib

/-!
# What the trees of texts are made of

Everything that works on trees takes for granted that their nodes are proper ones: `IsProper` lists
the kinds of nodes with what each of them may carry, and among them is neither a root nor data in
place of a node. A tree that was put together by hand need not be proper, and printing it may fail.
The tree of a text is a root with one item, and all that `walk` finds in the item is proper
(`assemble_parsed`). Printing comes upon nothing that it has no rule for, and every operator has a
precedence.
-/

namespace AlgebraBatch

open AlgebraBatch.Syntax AlgebraBatch.Expr

namespace Content

/-! ## Proper nodes -/

/-- A node of a kind that a text can mean, carrying what nodes of this kind carry. -/
inductive IsProper : Content → Prop where
  | integer {n : Int} : 0 ≤ n → IsProper (node (.integer n) [])
  | float {x : Binary64} {text : String} : Pattern.float.IsLexeme text.toList →
      IsProper (node (.float x (.str text)) [])
  | string {s : String} : IsProper (node (.string (.str s)) [])
  | boolean {b : Bool} : IsProper (node (.boolean (.bool b)) [])
  | identifier {name : String} : Pattern.identifier.IsLexeme name.toList →
      name ≠ "true" → name ≠ "false" → IsProper (node (.identifier (.str name)) [])
  | operation {op : String} {l r : Content} : op ∈ binaryOperators.map Prod.fst → op ≠ "**" →
      IsProper (node (.operation (.str op)) [l, r])
  | prefixed {op : String} {c : Content} : op ∈ prefixOperators.map Prod.fst →
      IsProper (node (.prefixed (.str op)) [c])
  | factorial {c : Content} : IsProper (node (.postfixed (.str "!")) [c])
  | call {name : String} {args : List Content} :
      IsProper (node .call (node (.identifier (.str name)) [] :: args))
  | indexed {name : String} {indices : List Content} :
      IsProper (node .indexed (node (.identifier (.str name)) [] :: indices))
  | conditional {c v : Content} {parts : List Content} :
      IsProper (node .conditional (c :: v :: parts))
  | list {items : List Content} : IsProper (node .list items)
  | set {items : List Content} : IsProper (node .set items)

/-- The operator of the node, if it has one, is in the table of its precedences. -/
def IsRanked : Content → Prop
  | node (.operation op) _ => (binaryOperators.lookup op.display).isSome
  | node (.prefixed op) _ => (prefixOperators.lookup op.display).isSome
  | node _ _ => True
  | _ => False

theorem lookup_binaryOperators :
    ∀ op ∈ binaryOperators.map Prod.fst, (binaryOperators.lookup op).isSome := by
  decide

theorem lookup_prefixOperators :
    ∀ op ∈ prefixOperators.map Prod.fst, (prefixOperators.lookup op).isSome := by
  decide

theorem IsProper.isRanked {c : Content} (h : c.IsProper) : c.IsRanked := by
  cases h with
  | operation hop _ => exact lookup_binaryOperators _ hop
  | prefixed hop => exact lookup_prefixOperators _ hop
  | _ => trivial

/-- A name that does not begin with a truth value is none. -/
theorem ne_of_isReadName {name w : String} (h : IsReadName name) (hw : w ∈ ["true", "false"]) :
    name ≠ w := by
  rintro rfl
  have hword : ∀ w ∈ ["true", "false"], String.ofList (firstWord w.toList) = w := by decide
  exact h.2 ((hword name hw).symm ▸ hw)

theorem isProper_ofExpr {d : Expr} (h : HasShape IsReadName d) (hn : d.isNegativeInteger = false) :
    (ofExpr d).IsProper := by
  cases d with
  | integer n => exact .integer (Int.not_lt.1 (of_decide_eq_false hn))
  | float x text => exact .float h.1
  | string s => exact .string
  | boolean b => exact .boolean
  | identifier name =>
    exact .identifier h.1 (ne_of_isReadName h (by decide)) (ne_of_isReadName h (by decide))
  | operation op l r => exact .operation h.1 h.2
  | prefixed op e => exact .prefixed h
  | postfixed op e =>
    cases (h : op = "!")
    exact .factorial
  | call head args =>
    cases head with
    | identifier name => exact .call
    | _ => cases h
  | indexed target indices =>
    cases target with
    | identifier name => exact .indexed
    | _ => cases h
  | conditional branches otherwise =>
    cases branches with
    | nil => exact absurd rfl h
    | cons b bs => exact .conditional
  | list items => exact .list
  | set items => exact .set
  | root items => exact h.elim

/-! ## Visiting the content of an expression -/

theorem walkItems_cons {c : Content} {cs ds es : List Content} (hc : walk c = some ds)
    (hcs : walkItems cs = some es) : walkItems (c :: cs) = some (ds ++ es) := by
  rw [walkItems, hc, hcs]

theorem walk_node {shape : Shape} {parts ds : List Content} (h : walkItems parts = some ds) :
    walk (node shape parts) = some (node shape parts :: ds) := by
  rw [walk, h, Option.map_some]

mutual

/-- Visiting the content of an expression finds the contents of what is in the expression. -/
theorem walk_ofExpr (e : Expr) : (ofExpr e).walk = some (e.walk.map ofExpr) := by
  cases e with
  | operation op l r =>
    rw [ofExpr, walk_node (walkItems_cons (walk_ofExpr l) (walkItems_cons (walk_ofExpr r) rfl))]
    simp [Expr.walk, ofExpr]
  | prefixed op e =>
    rw [ofExpr, walk_node (walkItems_cons (walk_ofExpr e) rfl)]
    simp [Expr.walk, ofExpr]
  | postfixed op e =>
    rw [ofExpr, walk_node (walkItems_cons (walk_ofExpr e) rfl)]
    simp [Expr.walk, ofExpr]
  | call head args =>
    rw [ofExpr, walk_node (walkItems_cons (walk_ofExpr head) (walkItems_ofExprs args))]
    simp [Expr.walk, ofExpr]
  | indexed target indices =>
    rw [ofExpr, walk_node (walkItems_cons (walk_ofExpr target) (walkItems_ofExprs indices))]
    simp [Expr.walk, ofExpr]
  | conditional branches otherwise =>
    rw [ofExpr, walk_node (walkItems_ofBranches branches (walkItems_ofOption otherwise))]
    simp [Expr.walk, ofExpr]
  | list items =>
    rw [ofExpr, walk_node (walkItems_ofExprs items)]
    simp [Expr.walk, ofExpr]
  | set items =>
    rw [ofExpr, walk_node (walkItems_ofExprs items)]
    simp [Expr.walk, ofExpr]
  | root items =>
    rw [ofExpr, walk_node (walkItems_ofExprs items)]
    simp [Expr.walk, ofExpr]
  | _ => rfl

theorem walkItems_ofExprs (es : List Expr) :
    walkItems (ofExprs es) = some ((Expr.walkItems es).map ofExpr) := by
  cases es with
  | nil => rfl
  | cons e es =>
    rw [ofExprs, walkItems_cons (walk_ofExpr e) (walkItems_ofExprs es), Expr.walkItems,
      List.map_append]

/-- The branches, and whatever comes after them. -/
theorem walkItems_ofBranches (bs : List (Expr × Expr)) {cs ds : List Content}
    (h : walkItems cs = some ds) :
    walkItems (ofBranches bs ++ cs) = some ((Expr.walkBranches bs).map ofExpr ++ ds) := by
  match bs with
  | [] => exact h
  | (c, v) :: bs =>
    rw [ofBranches, List.cons_append, List.cons_append, walkItems_cons (walk_ofExpr c)
      (walkItems_cons (walk_ofExpr v) (walkItems_ofBranches bs h))]
    simp [Expr.walkBranches]

theorem walkItems_ofOption (o : Option Expr) :
    walkItems (ofOption o) = some ((Expr.walkOption o).map ofExpr) := by
  cases o with
  | none => rfl
  | some e =>
    rw [ofOption, Expr.walkOption, walkItems_cons (walk_ofExpr e) rfl, List.append_nil]

end

end Content

namespace Syntax

open Assembly Content

/-! ## Every tree has a record -/

def tagged (tag : String) (fields : List (Datum × Datum)) : Datum :=
  .map ((.str "tag", .str tag) :: fields)

/-- A record with a text and nothing else in it. -/
def leaf (tag text : String) : Datum :=
  tagged tag [(.str "text", .str text)]

namespace Tree

mutual

/-- The plainest record of a tree, without groups and with all children in lists. -/
def record : Tree → Datum
  | atom kind p => leaf kind.tag p.text
  | binary op l r => tagged "binary_op"
      [(.str "op", leaf "operator" op.text), (.str "left", record l), (.str "right", record r)]
  | unary _ op t => tagged "prefix_op"
      [(.str "children", .list [leaf "operator" op.text, record t])]
  | factorial _ t => tagged "factorial" [(.str "children", .list [record t])]
  | call _ head args => tagged "call" [(.str "children", .map
      [(.str "name", leaf "identifier" head.text), (.str "arguments", .list (records args))])]
  | indexed _ head indices => tagged "indexed" [(.str "children", .map
      [(.str "target", leaf "identifier" head.text), (.str "indices", .list (records indices))])]
  | conditional _ (c, v) more otherwise => tagged "conditional" [(.str "children",
      .list (record c :: record v :: (recordBranches more ++ recordOption otherwise)))]
  | list _ items => tagged "list" [(.str "children", .list (records items))]
  | set _ items => tagged "set" [(.str "children", .list (records items))]

def records : List Tree → List Datum
  | [] => []
  | t :: ts => record t :: records ts

def recordBranches : List (Tree × Tree) → List Datum
  | [] => []
  | (c, v) :: bs => record c :: record v :: recordBranches bs

def recordOption : Option Tree → List Datum
  | none => []
  | some t => [record t]

end

def rootRecord (t : Tree) : Datum :=
  tagged "root" [(.str "children", .list [record t])]

mutual

/-- What has the fields of the plainest record is a record, whatever else it has. -/
theorem isRecord_of_fields (t : Tree) {d : Datum}
    (h : ∀ name u, t.record.field? name = some u → d.field? name = some u) : t.IsRecord d := by
  have htag := fun tag => h "tag" (.str tag)
  have hchildren : ∀ u, t.record.field? "children" = some u → children d = u :=
    fun u hu => fieldOr_eq (h "children" u hu)
  match t with
  | atom kind p => rw [IsRecord]; exact .bare ⟨htag _ rfl, h "text" _ rfl⟩
  | binary op l r =>
    rw [IsRecord]
    exact .bare ⟨htag _ rfl, ⟨_, h "op" _ rfl, rfl⟩, ⟨_, h "left" _ rfl, isRecord_record l⟩,
      ⟨_, h "right" _ rfl, isRecord_record r⟩⟩
  | unary span op t =>
    rw [IsRecord]
    exact .bare ⟨htag _ rfl, _, _, hchildren _ rfl, rfl, isRecord_record t⟩
  | factorial span t =>
    rw [IsRecord]
    refine .bare ⟨htag _ rfl, ?_⟩
    rw [hchildren _ rfl]
    exact ⟨_, rfl, isRecord_record t⟩
  | call span head args =>
    rw [IsRecord]
    refine .bare ⟨htag _ rfl, ?_⟩
    rw [hchildren _ rfl]
    exact ⟨⟨_, rfl, rfl, rfl⟩, _, rfl, areRecords_records args⟩
  | indexed span head indices =>
    rw [IsRecord]
    refine .bare ⟨htag _ rfl, ?_⟩
    rw [hchildren _ rfl]
    exact ⟨⟨_, rfl, rfl, rfl⟩, _, rfl, areRecords_records indices⟩
  | conditional span (c, v) more otherwise =>
    rw [IsRecord]
    refine .bare ⟨htag _ rfl, ?_⟩
    rw [hchildren _ rfl]
    exact ⟨_, _, _, _, rfl, isRecord_record c, isRecord_record v,
      areBranches_recordBranches more, isLastValue_recordOption otherwise⟩
  | list span items =>
    rw [IsRecord]
    refine .bare ⟨htag _ rfl, ?_⟩
    rw [hchildren _ rfl]
    exact ⟨_, rfl, areRecords_records items⟩
  | set span items =>
    rw [IsRecord]
    refine .bare ⟨htag _ rfl, ?_⟩
    rw [hchildren _ rfl]
    exact ⟨_, rfl, areRecords_records items⟩

theorem isRecord_record (t : Tree) : t.IsRecord t.record :=
  isRecord_of_fields t fun _ _ h => h

theorem areRecords_records (ts : List Tree) : AreRecords ts (records ts) := by
  cases ts with
  | nil => rw [AreRecords, records]
  | cons t ts =>
    rw [AreRecords, records]
    exact ⟨_, _, rfl, isRecord_record t, areRecords_records ts⟩

theorem areBranches_recordBranches (bs : List (Tree × Tree)) :
    AreBranches bs (recordBranches bs) := by
  match bs with
  | [] => rw [AreBranches, recordBranches]
  | (c, v) :: bs =>
    rw [AreBranches, recordBranches]
    exact ⟨_, _, _, rfl, isRecord_record c, isRecord_record v, areBranches_recordBranches bs⟩

theorem isLastValue_recordOption (o : Option Tree) : IsLastValue o (recordOption o) := by
  cases o with
  | none => rw [IsLastValue, recordOption]
  | some t =>
    rw [IsLastValue, recordOption]
    exact ⟨_, rfl, isRecord_record t⟩

end

theorem isRootRecord_rootRecord (t : Tree) : t.IsRootRecord t.rootRecord :=
  ⟨rfl, _, rfl, isRecord_record t⟩

end Tree

/-! ## Trees of texts -/

/-- Everything that can be visited in the content is proper, has its precedence and is printed. -/
def Content.IsSound (c : Content) : Prop :=
  ∃ nodes, c.walk = some nodes ∧
    ∀ d ∈ nodes, d.IsProper ∧ d.IsRanked ∧ ∃ text, d.print = .ok (.str text)

theorem isSound_ofExpr {e : Expr} (h : Readable e) : Content.IsSound (.ofExpr e) := by
  refine ⟨_, walk_ofExpr e, fun c hc => ?_⟩
  obtain ⟨d, hd, rfl⟩ := List.mem_map.1 hc
  obtain ⟨hshape, hneg⟩ := h d hd
  have hp := isProper_ofExpr hshape hneg
  exact ⟨hp, hp.isRanked, d.text, print_ofExpr d⟩

/-- Assembling a record of an accepted text can only fail at an integer with too many digits, never
at a tag or at a number of children. If the text has an expression, then the result is a root with
one item, the expression, and everything in it is proper. -/
theorem assemble_parsed {text : String} {t : Tree} {d : Datum}
    (ht : parseTree text.toList = .ok t) (hd : t.IsRootRecord d) :
    (∀ f, assemble d = .error f → ∃ n, f = .numeral (.tooManyDigits n)) ∧
    ∀ e, parseExpr text = .ok e →
      assemble d = .ok (.node .root [.ofExpr e]) ∧ Content.IsSound (.ofExpr e) := by
  have ha := assemble_root hd (lexical_of_parseTree ht)
  refine ⟨fun f hf => ?_, fun e he => ⟨?_, isSound_ofExpr (readable_of_parseExpr he)⟩⟩
  · rw [ha, converted] at hf
    split at hf
    · next n _ => exact ⟨n, (Except.error.inj hf).symm⟩
    · cases hf
  · rw [parseExpr, parse, ht] at he
    cases ho : t.overlong? with
    | some n =>
      simp only [ho] at he
      cases he
    | none =>
      simp only [ho] at he
      cases he
      rw [Tree.overlong?] at ho
      rw [ha, converted, ho]
      rfl

/-- The tree of `if a then -f(x[.5])`. -/
def nestedTree : Tree :=
  .conditional ⟨19, "if a then -f(x[.5])"⟩
    (.atom .identifier ⟨16, "a"⟩,
      .unary ⟨9, "-f(x[.5])"⟩ ⟨9, "-"⟩
        (.call ⟨8, "f(x[.5])"⟩ ⟨8, "f"⟩
          [.indexed ⟨6, "x[.5]"⟩ ⟨6, "x"⟩ [.atom .float ⟨4, ".5"⟩]])) [] none

set_option maxRecDepth 4000 in
theorem parseTree_nestedTree : parseTree "if a then -f(x[.5])".toList = .ok nestedTree := by
  cbv

theorem parseExpr_nestedTree : parseExpr "if a then -f(x[.5])" = .ok nestedTree.expr := by
  rw [parseExpr, parse, parseTree_nestedTree]
  rfl

theorem assemble_nestedTree :
    parseTree "if a then -f(x[.5])".toList = .ok nestedTree ∧
    nestedTree.IsRootRecord nestedTree.rootRecord ∧
    parseExpr "if a then -f(x[.5])" = .ok nestedTree.expr ∧
    assemble nestedTree.rootRecord = .ok (.node .root [.ofExpr nestedTree.expr]) ∧
    Content.IsSound (.ofExpr nestedTree.expr) := by
  have hd := Tree.isRootRecord_rootRecord nestedTree
  exact ⟨parseTree_nestedTree, hd, parseExpr_nestedTree,
    (assemble_parsed parseTree_nestedTree hd).2 _ parseExpr_nestedTree⟩

end Syntax

end AlgebraBatch
