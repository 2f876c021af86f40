import AlgebraBatch.Proofs.Datum.Entries
import AlgebraBatch.Proofs.Syntax.Located
import AlgebraBatch.Proofs.Syntax.ProperTree

/-!
# Records with their places

A record that carries a place has the tag, the line, the column and the text of a node. `place?`
gives just these, in however many groups the record stands (`place?_inGroups`). So any such record
of any node of an accepted text gives the expression of the node and the place at which the node is
in the text (`assemble_located`), and every node has such a record (`isRecord_placed`,
`carriesPlace_placed`).
-/

namespace AlgebraBatch.Syntax

open AlgebraBatch.Text Assembly AlgebraBatch.Syntax.Tree

namespace Tree

/-- The line, the column, the tag and the text of a node. -/
def place (text : List Char) (n : Tree) : List Datum :=
  [.int (positionAt text (n.offset text)).1, .int (positionAt text (n.offset text)).2,
    .str n.mark.tag, n.mark.text.elim .null .str]

/-- The record has the place of the node. -/
structure CarriesPlace (text : List Char) (n : Tree) (d : Datum) : Prop where
  line : d.field? "line" = some (.int (positionAt text (n.offset text)).1)
  column : d.field? "col" = some (.int (positionAt text (n.offset text)).2)
  tag : HasTag d n.mark.tag
  text : fieldOr "text" .null d = n.mark.text.elim .null .str

/-- What a record with a tag needs for a place. -/
def placeFields (text : List Char) (n : Tree) : List (Datum × Datum) :=
  [(.str "line", .int (positionAt text (n.offset text)).1),
    (.str "col", .int (positionAt text (n.offset text)).2),
    (.str "text", n.mark.text.elim .null .str)]

/-- The plainest record of a node that carries its place. -/
def placed (text : List Char) (n : Tree) : Datum :=
  match n.record with
  | .map entries => .map (entries ++ n.placeFields text)
  | d => d

end Tree

variable {text : List Char} {n t : Tree} {d u : Datum}

/-! ## Finding the place -/

theorem isTransparent_tag (n : Tree) : isTransparent (.str n.mark.tag) = false := by
  cases n with
  | atom k p => cases k <;> rfl
  | _ => rfl

theorem placeIn_carried (h : n.CarriesPlace text d) (fuel : Nat) :
    placeIn (fuel + 1) d = some (n.place text) := by
  obtain ⟨-, hgroup⟩ := Bool.or_eq_false_iff.1 (isTransparent_tag n)
  cases d with
  | map entries =>
    simp only [placeIn, tag_eq h.tag, hgroup, isTransparent_tag n, fieldOr_eq h.line,
      fieldOr_eq h.column, h.text]
    rfl
  | _ => cases h.line

/-- If there is a child, then there are children in the record. -/
theorem childrenOf_present (h : childrenOf (children d) = .ok [u]) :
    childrenOf (fieldOr "children" .null d) = .ok [u] := by
  unfold children fieldOr at h
  unfold fieldOr
  cases hf : d.field? "children" with
  | none =>
    rw [hf] at h
    cases h
  | some v =>
    rw [hf] at h
    exact h

theorem placeIn_group (htag : HasTag d "group") (hchild : childrenOf (children d) = .ok [u])
    (fuel : Nat) : placeIn (fuel + 1) d = placeIn fuel u := by
  cases d with
  | map entries =>
    simp only [placeIn, tag_eq htag, childrenOf_present hchild]
    rfl
  | _ => cases htag

/-- The place of a record is found in however many groups the record stands. -/
theorem place?_inGroups (h : InGroups (n.CarriesPlace text) d) :
    place? d = some (n.place text) := by
  suffices ∀ fuel, size d < fuel → placeIn fuel d = some (n.place text) from
    this _ (Nat.lt_succ_self _)
  induction h with
  | bare h =>
    rintro (_ | fuel) hfuel
    · cases hfuel
    · exact placeIn_carried h fuel
  | @group d u htag hchild _ ih =>
    rintro (_ | fuel) hfuel
    · cases hfuel
    · have hlt : size u < size d := size_child_lt rfl hchild List.mem_cons_self
      rw [placeIn_group htag hchild]
      exact ih fuel (by omega)

example : place? (tagged "group" [(.str "children", .list [tagged "group" [(.str "children",
      placed "\nx".toList (.atom .identifier ⟨1, "x"⟩))]])]) =
    some [.int 2, .int 1, .str "identifier", .str "x"] := by
  rw [String.toList_ofList]
  rfl

/-! ## Every node has a record with its place -/

theorem carriesPlace_placed (text : List Char) (n : Tree) : n.CarriesPlace text (n.placed text) := by
  cases n <;> exact ⟨rfl, rfl, rfl, rfl⟩

theorem isRecord_placed (text : List Char) (n : Tree) : n.IsRecord (n.placed text) := by
  refine isRecord_of_fields n fun name u h => ?_
  unfold placed
  cases hd : n.record with
  | map entries =>
    rw [hd] at h
    exact Datum.lookup_append h _
  | _ =>
    rw [hd] at h
    cases h

/-! ## Nodes below nodes -/

namespace Tree

/-- With a tree, everything below it is in the list. -/
def IsClosed (ns : List Tree) : Prop := ∀ n ∈ ns, n.nodes ⊆ ns

theorem IsClosed.append {ns ms : List Tree} (hns : IsClosed ns) (hms : IsClosed ms) :
    IsClosed (ns ++ ms) := by
  intro n hn
  rcases List.mem_append.1 hn with hn | hn
  · exact List.subset_append_of_subset_left ms (hns n hn)
  · exact List.subset_append_of_subset_right ns (hms n hn)

theorem isClosed_of_cons {ns : List Tree} (ht : t.nodes = t :: ns) (hns : IsClosed ns) :
    IsClosed t.nodes := by
  intro n hn
  rw [ht] at hn ⊢
  rcases List.mem_cons.1 hn with rfl | hn
  · rw [ht]
    exact List.Subset.refl _
  · exact List.subset_cons_of_subset t (hns n hn)

theorem isClosed_atom (k : AtomKind) (p : Piece) : IsClosed (atom k p).nodes :=
  isClosed_of_cons rfl nofun

mutual

theorem isClosed_nodes (t : Tree) : IsClosed t.nodes := by
  match t with
  | atom k p => exact isClosed_atom k p
  | binary op l r => exact isClosed_of_cons rfl ((isClosed_nodes l).append (isClosed_nodes r))
  | unary span op t => exact isClosed_of_cons rfl (isClosed_nodes t)
  | factorial span t => exact isClosed_of_cons rfl (isClosed_nodes t)
  | call span head args =>
    exact isClosed_of_cons rfl ((isClosed_atom _ head).append (isClosed_nodesItems args))
  | indexed span head indices =>
    exact isClosed_of_cons rfl ((isClosed_atom _ head).append (isClosed_nodesItems indices))
  | conditional span (c, v) more otherwise =>
    exact isClosed_of_cons rfl ((((isClosed_nodes c).append (isClosed_nodes v)).append
      (isClosed_nodesBranches more)).append (isClosed_nodesOption otherwise))
  | list span items => exact isClosed_of_cons rfl (isClosed_nodesItems items)
  | set span items => exact isClosed_of_cons rfl (isClosed_nodesItems items)

theorem isClosed_nodesItems (ts : List Tree) : IsClosed (nodesItems ts) := by
  match ts with
  | [] => exact nofun
  | t :: ts => exact (isClosed_nodes t).append (isClosed_nodesItems ts)

theorem isClosed_nodesBranches (bs : List (Tree × Tree)) : IsClosed (nodesBranches bs) := by
  match bs with
  | [] => exact nofun
  | (c, v) :: bs =>
    exact ((isClosed_nodes c).append (isClosed_nodes v)).append (isClosed_nodesBranches bs)

theorem isClosed_nodesOption (o : Option Tree) : IsClosed (nodesOption o) := by
  match o with
  | none => exact nofun
  | some t => exact isClosed_nodes t

end

end Tree

/-- A node of an accepted text: whatever record of it carries its place gives its expression, at the
line and the column at which the node is in the text. -/
theorem assemble_located {text : String} (h : parse text = .ok t) (hn : n ∈ t.nodes)
    (hrecord : n.IsRecord d) (hplace : InGroups (n.CarriesPlace text.toList) d) :
    assemble d = .ok (.ofExpr n.expr) ∧ place? d = some (n.place text.toList) ∧
      Located text.toList n := by
  obtain ⟨hy, hshort⟩ := parse_eq_ok.1 h
  have ht := parseTree_eq_ok.2 hy
  have hbelow := isClosed_nodes t n hn
  have hlexical : n.Lexical := fun u hu => lexical_of_parseTree ht u (hbelow hu)
  have hconverted : n.nodes.findSome? tooManyDigits? = none :=
    List.findSome?_eq_none_iff.2 fun u hu => List.findSome?_eq_none_iff.1 hshort u (hbelow hu)
  refine ⟨?_, place?_inGroups hplace, located_of_lies ((laid_of_parseTree ht).lies n hn)⟩
  rw [assemble, builds n hlexical d _ hrecord (Nat.lt_succ_self _), converted, hconverted]

end AlgebraBatch.Syntax
