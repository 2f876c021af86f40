import AlgebraBatch.Content.Printer
import AlgebraBatch.Proofs.Except
import AlgebraBatch.Proofs.Syntax.Lexical
import AlgebraBatch.Proofs.Syntax.NumberValue
import AlgebraBatch.Syntax.Assembly

/-!
# Records of trees

`t.IsRecord d`: the datum `d` is a record of the tree `t`. It has the tag of the tree, the text of an
atom or an operator, and the records of the parts where `assemble` looks for them; any part may
stand in groups, a single child need not stand in a list, and other fields are free. Assembling a
record of a tree whose atoms are lexemes gives the content of its expression, unless the tree holds
an integer with too many digits: no number of children is wrong, every tag is known, and every other
atom can be converted.
-/

namespace AlgebraBatch.Syntax

open AlgebraBatch.Text Assembly Content

/-! ## Records -/

def HasTag (d : Datum) (tag : String) : Prop := d.field? "tag" = some (.str tag)

def HasText (d : Datum) (text : String) : Prop := d.field? "text" = some (.str text)

/-- The field of the record, which must be there, has the property. -/
def HasField (d : Datum) (name : String) (P : Datum → Prop) : Prop :=
  ∃ u, d.field? name = some u ∧ P u

/-- What the record has for its children. -/
def children (d : Datum) : Datum := fieldOr "children" (.list []) d

/-- The datum, or what is in it if it is a group, has the property. -/
inductive InGroups (P : Datum → Prop) : Datum → Prop where
  | bare {d : Datum} : P d → InGroups P d
  | group {d u : Datum} : HasTag d "group" → childrenOf (children d) = .ok [u] → InGroups P u →
      InGroups P d

def IsAtom (k : AtomKind) (p : Piece) (d : Datum) : Prop := HasTag d k.tag ∧ HasText d p.text

namespace Tree

mutual

def IsRecord : Tree → Datum → Prop
  | .atom k p => InGroups (IsAtom k p)
  | .binary op l r => InGroups fun d => HasTag d "binary_op" ∧ HasField d "op" (HasText · op.text) ∧
      HasField d "left" (IsRecord l) ∧ HasField d "right" (IsRecord r)
  | .unary _ op t => InGroups fun d => HasTag d "prefix_op" ∧
      ∃ o u, children d = .list [o, u] ∧ HasText o op.text ∧ IsRecord t u
  | .factorial _ t => InGroups fun d => HasTag d "factorial" ∧
      ∃ u, childrenOf (children d) = .ok [u] ∧ IsRecord t u
  | .call _ head args => InGroups fun d => HasTag d "call" ∧
      HasField (children d) "name" (IsAtom .identifier head) ∧
      ∃ ds, childrenOf (fieldOr "arguments" .null (children d)) = .ok ds ∧ AreRecords args ds
  | .indexed _ head indices => InGroups fun d => HasTag d "indexed" ∧
      HasField (children d) "target" (IsAtom .identifier head) ∧
      ∃ ds, childrenOf (fieldOr "indices" .null (children d)) = .ok ds ∧ AreRecords indices ds
  | .conditional _ (c, v) more otherwise => InGroups fun d => HasTag d "conditional" ∧
      ∃ dc dv ds es, childrenOf (children d) = .ok (dc :: dv :: (ds ++ es)) ∧
        IsRecord c dc ∧ IsRecord v dv ∧ AreBranches more ds ∧ IsLastValue otherwise es
  | .list _ items => InGroups fun d => HasTag d "list" ∧
      ∃ ds, childrenOf (children d) = .ok ds ∧ AreRecords items ds
  | .set _ items => InGroups fun d => HasTag d "set" ∧
      ∃ ds, childrenOf (children d) = .ok ds ∧ AreRecords items ds

def AreRecords : List Tree → List Datum → Prop
  | [], ds => ds = []
  | t :: ts, ds => ∃ u us, ds = u :: us ∧ IsRecord t u ∧ AreRecords ts us

def AreBranches : List (Tree × Tree) → List Datum → Prop
  | [], ds => ds = []
  | (c, v) :: bs, ds => ∃ dc dv us, ds = dc :: dv :: us ∧ IsRecord c dc ∧ IsRecord v dv ∧
      AreBranches bs us

def IsLastValue : Option Tree → List Datum → Prop
  | none, ds => ds = []
  | some t, ds => ∃ u, ds = [u] ∧ IsRecord t u

end

/-- A record of a whole text: the root holds the tree and nothing else. -/
def IsRootRecord (t : Tree) (d : Datum) : Prop :=
  HasTag d "root" ∧ ∃ u, childrenOf (children d) = .ok [u] ∧ IsRecord t u

end Tree

/-! ## Sizes -/

theorem size_lookup_le {key u : Datum} : ∀ {es : List (Datum × Datum)},
    Datum.lookup key es = some u → size u ≤ sizeEntries es
  | (k, v) :: es, h => by
    rw [Datum.lookup] at h
    rw [sizeEntries]
    split at h
    · cases h
      omega
    · have := size_lookup_le h
      omega

/-- A field is smaller than its record. -/
theorem size_field_lt {d u : Datum} {name : String} (h : d.field? name = some u) :
    size u < size d := by
  cases d with
  | map es =>
    have := size_lookup_le h
    rw [size]
    omega
  | _ => cases h

theorem size_mem_le {u : Datum} : ∀ {ds : List Datum}, u ∈ ds → size u ≤ sizeItems ds
  | d :: ds, h => by
    rw [sizeItems]
    rcases List.mem_cons.1 h with rfl | h
    · omega
    · have := size_mem_le h
      omega

/-- A child is no greater than what stands for the children. -/
theorem size_childrenOf_le {d u : Datum} {ds : List Datum} (h : childrenOf d = .ok ds)
    (hu : u ∈ ds) : size u ≤ size d := by
  cases d with
  | null => cases h; cases hu
  | map es => cases h; obtain rfl := List.mem_singleton.1 hu; exact Nat.le_refl _
  | list items =>
    cases h
    have := size_mem_le hu
    rw [size]
    omega
  | str s =>
    cases h
    obtain ⟨c, -, rfl⟩ := List.mem_map.1 hu
    simp [size]
  | _ => cases h

/-- A child is smaller than the record that has the children in a field. -/
theorem size_child_lt {d u default : Datum} {name : String} {ds : List Datum}
    (hdefault : childrenOf default = .ok []) (h : childrenOf (fieldOr name default d) = .ok ds)
    (hu : u ∈ ds) : size u < size d := by
  unfold fieldOr at h
  cases hf : d.field? name with
  | none =>
    rw [hf, Option.getD_none, hdefault] at h
    cases h
    cases hu
  | some v =>
    rw [hf] at h
    exact Nat.lt_of_le_of_lt (size_childrenOf_le h hu) (size_field_lt hf)

theorem size_children_le (d : Datum) : size (children d) ≤ size d := by
  unfold children fieldOr
  cases hf : d.field? "children" with
  | none => cases d <;> simp [size, sizeItems]
  | some v => exact (size_field_lt hf).le

/-! ## Conversion -/

/-- The result, unless one of the nodes is an integer with too many digits. -/
def converted {α : Type} (nodes : List Tree) (a : α) : Except Fault α :=
  match nodes.findSome? Tree.tooManyDigits? with
  | some n => .error (.numeral (.tooManyDigits n))
  | none => .ok a

section

variable {α β : Type} {ts us : List Tree} {a : α} {b : β}

theorem converted_cons {t : Tree} (h : t.tooManyDigits? = none) :
    converted (t :: ts) a = converted ts a := by
  rw [converted, List.findSome?_cons, h, converted]

theorem converted_map (f : α → β) : (converted ts a).map f = converted ts (f a) := by
  unfold converted
  cases ts.findSome? Tree.tooManyDigits? with
  | some n => rfl
  | none => rfl

theorem converted_bind {f : α → Except Fault β} (h : f a = converted us b) :
    (converted ts a >>= f) = converted (ts ++ us) b := by
  unfold converted at *
  rw [List.findSome?_append]
  cases ts.findSome? Tree.tooManyDigits? with
  | some n => rfl
  | none => exact h

theorem converted_bind_ok {f : α → Except Fault β} (h : f a = .ok b) :
    (converted ts a >>= f) = converted ts b := by
  have hb : (converted ts a >>= f) = converted (ts ++ []) b := converted_bind h
  rwa [List.append_nil] at hb

end

theorem fieldOr_eq {d u default : Datum} {name : String} (h : d.field? name = some u) :
    fieldOr name default d = u := by
  rw [fieldOr, h, Option.getD_some]

theorem tag_eq {d : Datum} {tag : String} (h : HasTag d tag) :
    fieldOr "tag" .null d = .str tag :=
  fieldOr_eq h

theorem field_eq_ok {d u : Datum} {name : String} (h : d.field? name = some u) :
    field name d = .ok u := by
  cases d with
  | map es =>
    change Datum.lookup (.str name) es = some u at h
    rw [field, h]
  | _ => cases h

theorem build_of_tag {d : Datum} {tag : String} (h : HasTag d tag) (n : Nat) :
    build (n + 1) d = treeBy (build n) d := by
  cases d with
  | map es => rfl
  | _ => cases h

theorem itemsBy_eq {build : Builder} {d : Datum} {ds : List Datum} (h : childrenOf d = .ok ds) :
    itemsBy build d = ds.mapM build := by
  rw [itemsBy, h]
  rfl

theorem itemsBy_one {build : Builder} {d u : Datum} {ts : List Tree} {c : Content}
    (h : childrenOf d = .ok [u]) (hu : build u = converted ts c) :
    itemsBy build d = converted ts [c] := by
  rw [itemsBy_eq h, List.mapM_cons, hu, List.mapM_nil]
  exact converted_bind_ok rfl

theorem mapM_cons_eq {build : Builder} {u : Datum} {us : List Datum} {ts ts' : List Tree}
    {c : Content} {cs : List Content} (hu : build u = converted ts c)
    (hus : us.mapM build = converted ts' cs) :
    (u :: us).mapM build = converted (ts ++ ts') (c :: cs) := by
  rw [List.mapM_cons, hu]
  refine converted_bind ?_
  rw [hus]
  exact converted_bind_ok rfl

theorem mapM_append_eq {build : Builder} {ds es : List Datum} {ts us : List Tree}
    {cs cs' : List Content} (hds : ds.mapM build = converted ts cs)
    (hes : es.mapM build = converted us cs') :
    (ds ++ es).mapM build = converted (ts ++ us) (cs ++ cs') := by
  rw [List.mapM_append, hds]
  refine converted_bind ?_
  rw [hes]
  exact converted_bind_ok rfl

/-- A group stands for what is in it. -/
theorem build_inGroups {P : Datum → Prop} {d : Datum} {ts : List Tree} {c : Content}
    (h : InGroups P d)
    (hP : ∀ u m, P u → size u ≤ m → build (m + 1) u = converted ts c) :
    ∀ n, size d < n → build n d = converted ts c := by
  induction h with
  | bare h =>
    rintro (_ | n) hn
    · cases hn
    · exact hP _ n h (Nat.le_of_lt_succ hn)
  | @group d u htag hchild _ ih =>
    rintro (_ | n) hn
    · cases hn
    · have hlt : size u < size d := size_child_lt rfl hchild List.mem_cons_self
      have hu := ih n (by omega)
      rw [build_of_tag htag, treeBy, tag_eq htag]
      change (itemsBy (build n) (children d) >>= _) = _
      rw [itemsBy_one hchild hu]
      exact converted_bind_ok rfl

/-! ## Atoms -/

theorem atomBy_eq {shape : Datum → Except Fault Shape} {d : Datum} {text : String}
    (h : HasText d text) :
    atomBy shape d = (shape (.str text)).map fun s => .node s [] := by
  rw [atomBy, field_eq_ok h, ok_bind]
  cases shape (.str text) with
  | error f => rfl
  | ok s => rfl

/-- An atom that is a lexeme is converted, unless it is an integer with too many digits. -/
theorem build_atom {k : AtomKind} {p : Piece} {d : Datum} {n : Nat} (h : IsAtom k p d)
    (hl : (Tree.atom k p).IsLexeme) (hn : size d < n) :
    build n d = converted [.atom k p] (.ofExpr (k.expr p.text)) := by
  obtain ⟨htag, htext⟩ := h
  obtain ⟨m, rfl⟩ := Nat.exists_eq_add_one_of_ne_zero (Nat.ne_zero_of_lt hn)
  rw [build_of_tag htag, treeBy, tag_eq htag]
  cases k with
  | integer =>
    change atomBy (fun d => d.toInteger.map .integer) d = _
    rw [atomBy_eq htext, Datum.toInteger, readInteger_lexeme hl, converted, List.findSome?_cons,
      Tree.tooManyDigits?]
    split
    · rfl
    · rfl
  | float =>
    change atomBy floatOf d = _
    rw [atomBy_eq htext, floatOf, readFloat_lexeme hl]
    rfl
  | string => exact atomBy_eq htext
  | boolean => exact atomBy_eq htext
  | identifier => exact atomBy_eq htext

/-! ## Nodes -/

/-- Records of the tree are built as they should. -/
def Builds (t : Tree) : Prop :=
  ∀ d n, t.IsRecord d → size d < n → build n d = converted t.nodes (.ofExpr t.expr)

def BuildsItems (ts : List Tree) : Prop :=
  ∀ ds n, Tree.AreRecords ts ds → (∀ u ∈ ds, size u < n) →
    ds.mapM (build n) = converted (Tree.nodesItems ts) (ofExprs (Tree.exprItems ts))

def BuildsBranches (bs : List (Tree × Tree)) : Prop :=
  ∀ ds n, Tree.AreBranches bs ds → (∀ u ∈ ds, size u < n) →
    ds.mapM (build n) = converted (Tree.nodesBranches bs) (ofBranches (Tree.exprBranches bs))

def BuildsOption (o : Option Tree) : Prop :=
  ∀ ds n, Tree.IsLastValue o ds → (∀ u ∈ ds, size u < n) →
    ds.mapM (build n) = converted (Tree.nodesOption o) (ofOption (Tree.exprOption o))

section

variable {l r t : Tree} {ts : List Tree} {op span head : Piece}

theorem builds_atom {k : AtomKind} {p : Piece} (hl : (Tree.atom k p).IsLexeme) :
    Builds (.atom k p) := by
  intro d n h hn
  exact build_inGroups h (fun u m hu hm => build_atom hu hl (Nat.lt_succ_of_le hm)) n hn

theorem builds_binary (hl : Builds l) (hr : Builds r) : Builds (.binary op l r) := by
  intro d n h hn
  refine build_inGroups h (fun d m hd hm => ?_) n hn
  obtain ⟨htag, ⟨o, ho, htext⟩, ⟨dl, hdl, hrl⟩, ⟨dr, hdr, hrr⟩⟩ := hd
  have hbl := hl dl m hrl (Nat.lt_of_lt_of_le (size_field_lt hdl) hm)
  have hbr := hr dr m hrr (Nat.lt_of_lt_of_le (size_field_lt hdr) hm)
  rw [build_of_tag htag, treeBy, tag_eq htag, Tree.nodes, converted_cons rfl]
  simp only [field_eq_ok ho, field_eq_ok hdl, field_eq_ok hdr, ok_bind, field_eq_ok htext, hbl, hbr]
  exact converted_bind (converted_bind_ok rfl)

theorem builds_unary (ht : Builds t) : Builds (.unary span op t) := by
  intro d n h hn
  refine build_inGroups h (fun d m hd hm => ?_) n hn
  obtain ⟨htag, o, u, hc, htext, hr⟩ := hd
  have hchildren : childrenOf (children d) = .ok [o, u] := by rw [hc]; rfl
  have hu := size_child_lt rfl hchildren (List.mem_cons_of_mem o List.mem_cons_self)
  have hb := ht u m hr (Nat.lt_of_lt_of_le hu hm)
  rw [children] at hc
  rw [build_of_tag htag, treeBy, tag_eq htag, hc, Tree.nodes, converted_cons rfl]
  change (field "text" o >>= fun op' => build m u >>= fun c => _) = _
  rw [field_eq_ok htext, ok_bind, hb]
  exact converted_bind_ok rfl

theorem builds_factorial (ht : Builds t) : Builds (.factorial span t) := by
  intro d n h hn
  refine build_inGroups h (fun d m hd hm => ?_) n hn
  obtain ⟨htag, u, hc, hr⟩ := hd
  have hu := size_child_lt rfl hc List.mem_cons_self
  have hb := ht u m hr (Nat.lt_of_lt_of_le hu hm)
  rw [build_of_tag htag, treeBy, tag_eq htag, Tree.nodes, converted_cons rfl]
  change (itemsBy (build m) (children d) >>= fun cs => exactlyOne cs >>= fun c => _) = _
  rw [itemsBy_one hc hb]
  exact converted_bind_ok rfl

/-- A name and what is in the brackets after it. -/
theorem build_headed {shape : Shape} {tag name items : String} {d : Datum} {n : Nat}
    (htree : ∀ {part d}, HasTag d tag → treeBy part d = do
      let head ← part (← field name (children d))
      .ok (.node shape (head :: (← itemsBy part (fieldOr items .null (children d))))))
    (hl : (Tree.atom .identifier head).IsLexeme) (hts : BuildsItems ts)
    (h : InGroups (fun d => HasTag d tag ∧ HasField (children d) name (IsAtom .identifier head) ∧
      ∃ ds, childrenOf (fieldOr items .null (children d)) = .ok ds ∧ Tree.AreRecords ts ds) d)
    (hn : size d < n) :
    build n d = converted (.atom .identifier head :: Tree.nodesItems ts)
      (.node shape (ofExpr (.identifier head.text) :: ofExprs (Tree.exprItems ts))) := by
  refine build_inGroups h (fun d m hd hm => ?_) n hn
  obtain ⟨htag, ⟨u, hu, hhead⟩, ds, hc, hr⟩ := hd
  have hm' : size (children d) ≤ m := (size_children_le d).trans hm
  have hbhead := build_atom hhead hl (Nat.lt_of_lt_of_le (size_field_lt hu) hm')
  have hb := hts ds m hr fun v hv => Nat.lt_of_lt_of_le (size_child_lt rfl hc hv) hm'
  rw [build_of_tag htag, htree htag, field_eq_ok hu, ok_bind, hbhead, ← List.singleton_append]
  refine converted_bind ?_
  rw [itemsBy_eq hc, hb]
  exact converted_bind_ok rfl

theorem builds_call (hl : (Tree.atom .identifier head).IsLexeme) (hts : BuildsItems ts) :
    Builds (.call span head ts) := by
  intro d n h hn
  rw [Tree.nodes, converted_cons rfl]
  exact build_headed (fun htag => by rw [treeBy, tag_eq htag]; rfl) hl hts h hn

theorem builds_indexed (hl : (Tree.atom .identifier head).IsLexeme) (hts : BuildsItems ts) :
    Builds (.indexed span head ts) := by
  intro d n h hn
  rw [Tree.nodes, converted_cons rfl]
  exact build_headed (fun htag => by rw [treeBy, tag_eq htag]; rfl) hl hts h hn

/-- Items in brackets. -/
theorem build_bracketed {shape : Shape} {tag : String} {d : Datum} {n : Nat}
    (htree : ∀ {part d}, HasTag d tag →
      treeBy part d = (itemsBy part (children d)).map (.node shape))
    (hts : BuildsItems ts)
    (h : InGroups (fun d => HasTag d tag ∧
      ∃ ds, childrenOf (children d) = .ok ds ∧ Tree.AreRecords ts ds) d) (hn : size d < n) :
    build n d =
      converted (Tree.nodesItems ts) (.node shape (ofExprs (Tree.exprItems ts))) := by
  refine build_inGroups h (fun d m hd hm => ?_) n hn
  obtain ⟨htag, ds, hc, hr⟩ := hd
  have hb := hts ds m hr fun v hv => Nat.lt_of_lt_of_le (size_child_lt rfl hc hv) hm
  rw [build_of_tag htag, htree htag, itemsBy_eq hc, hb, converted_map]

theorem builds_list (hts : BuildsItems ts) : Builds (.list span ts) := by
  intro d n h hn
  rw [Tree.nodes, converted_cons rfl]
  exact build_bracketed (fun htag => by rw [treeBy, tag_eq htag]; rfl) hts h hn

theorem builds_set (hts : BuildsItems ts) : Builds (.set span ts) := by
  intro d n h hn
  rw [Tree.nodes, converted_cons rfl]
  exact build_bracketed (fun htag => by rw [treeBy, tag_eq htag]; rfl) hts h hn

/-- The parts of a conditional do not end in a null. -/
theorem closeBranches_ofBranches {o : Option Expr} (bs : List (Expr × Expr)) :
    closeBranches (ofBranches bs ++ ofOption o) = ofBranches bs ++ ofOption o := by
  induction bs with
  | nil =>
    cases o with
    | none => rfl
    | some e => cases e <;> rfl
  | cons b bs ih => rw [ofBranches, List.cons_append, List.cons_append, closeBranches, ih]

theorem builds_conditional {c v : Tree} {bs : List (Tree × Tree)} {o : Option Tree}
    (hc : Builds c) (hv : Builds v) (hbs : BuildsBranches bs) (ho : BuildsOption o) :
    Builds (.conditional span (c, v) bs o) := by
  intro d n h hn
  refine build_inGroups h (fun d m hd hm => ?_) n hn
  obtain ⟨htag, dc, dv, ds, es, hchildren, hrc, hrv, hrbs, hro⟩ := hd
  have hlt : ∀ w ∈ dc :: dv :: (ds ++ es), size w < m :=
    fun w hw => Nat.lt_of_lt_of_le (size_child_lt rfl hchildren hw) hm
  obtain ⟨hnc, hlt⟩ := List.forall_mem_cons.1 hlt
  obtain ⟨hnv, hlt⟩ := List.forall_mem_cons.1 hlt
  obtain ⟨hnds, hnes⟩ := List.forall_mem_append.1 hlt
  have hb := mapM_cons_eq (hc dc m hrc hnc) (mapM_cons_eq (hv dv m hrv hnv)
    (mapM_append_eq (hbs ds m hrbs hnds) (ho es m hro hnes)))
  rw [build_of_tag htag, treeBy, tag_eq htag, Tree.nodes, converted_cons rfl, List.append_assoc,
    List.append_assoc]
  change (itemsBy (build m) (children d)).map
    (fun cs => Content.node .conditional (closeBranches cs)) = _
  rw [itemsBy_eq hchildren, hb, converted_map, closeBranches, closeBranches_ofBranches]
  rfl

/-! ## Trees -/

theorem buildsItems_cons (ht : Builds t) (hts : BuildsItems ts) : BuildsItems (t :: ts) := by
  intro ds n h hn
  rw [Tree.AreRecords] at h
  obtain ⟨u, us, rfl, hr, hrs⟩ := h
  obtain ⟨hu, hus⟩ := List.forall_mem_cons.1 hn
  exact mapM_cons_eq (ht u n hr hu) (hts us n hrs hus)

theorem buildsBranches_cons {c v : Tree} {bs : List (Tree × Tree)} (hc : Builds c) (hv : Builds v)
    (hbs : BuildsBranches bs) : BuildsBranches ((c, v) :: bs) := by
  intro ds n h hn
  rw [Tree.AreBranches] at h
  obtain ⟨dc, dv, us, rfl, hrc, hrv, hrbs⟩ := h
  obtain ⟨hnc, hn⟩ := List.forall_mem_cons.1 hn
  obtain ⟨hnv, hn⟩ := List.forall_mem_cons.1 hn
  rw [Tree.nodesBranches, List.append_assoc]
  exact mapM_cons_eq (hc dc n hrc hnc) (mapM_cons_eq (hv dv n hrv hnv) (hbs us n hrbs hn))

theorem buildsOption_some (ht : Builds t) : BuildsOption (some t) := by
  intro ds n h hn
  rw [Tree.IsLastValue] at h
  obtain ⟨u, rfl, hr⟩ := h
  rw [List.mapM_cons, ht u n hr (hn u List.mem_cons_self)]
  exact converted_bind_ok rfl

end

mutual

/-- Building a record of a tree gives the content of its expression, unless an integer in it has too
many digits. -/
theorem builds (t : Tree) (h : t.Lexical) : Builds t := by
  cases t with
  | atom k p => exact builds_atom (h _ List.mem_cons_self)
  | binary op l r =>
    obtain ⟨hl, hr⟩ := List.forall_mem_append.1 (List.forall_mem_cons.1 h).2
    exact builds_binary (builds l hl) (builds r hr)
  | unary span op t => exact builds_unary (builds t (List.forall_mem_cons.1 h).2)
  | factorial span t => exact builds_factorial (builds t (List.forall_mem_cons.1 h).2)
  | call span head args =>
    obtain ⟨hhead, hargs⟩ := List.forall_mem_cons.1 (List.forall_mem_cons.1 h).2
    exact builds_call hhead (buildsItems args hargs)
  | indexed span head indices =>
    obtain ⟨hhead, hindices⟩ := List.forall_mem_cons.1 (List.forall_mem_cons.1 h).2
    exact builds_indexed hhead (buildsItems indices hindices)
  | conditional span first more otherwise =>
    obtain ⟨c, v⟩ := first
    obtain ⟨h, ho⟩ := List.forall_mem_append.1 (List.forall_mem_cons.1 h).2
    obtain ⟨h, hbs⟩ := List.forall_mem_append.1 h
    obtain ⟨hc, hv⟩ := List.forall_mem_append.1 h
    exact builds_conditional (builds c hc) (builds v hv) (buildsBranches more hbs)
      (buildsOption otherwise ho)
  | list span items => exact builds_list (buildsItems items (List.forall_mem_cons.1 h).2)
  | set span items => exact builds_set (buildsItems items (List.forall_mem_cons.1 h).2)

theorem buildsItems (ts : List Tree) (h : ∀ d ∈ Tree.nodesItems ts, d.IsLexeme) :
    BuildsItems ts := by
  cases ts with
  | nil =>
    intro ds n hr _
    rw [Tree.AreRecords] at hr
    subst hr
    rfl
  | cons t ts =>
    obtain ⟨ht, hts⟩ := List.forall_mem_append.1 h
    exact buildsItems_cons (builds t ht) (buildsItems ts hts)

theorem buildsBranches (bs : List (Tree × Tree))
    (h : ∀ d ∈ Tree.nodesBranches bs, d.IsLexeme) : BuildsBranches bs := by
  cases bs with
  | nil =>
    intro ds n hr _
    rw [Tree.AreBranches] at hr
    subst hr
    rfl
  | cons b bs =>
    obtain ⟨c, v⟩ := b
    obtain ⟨h, hbs⟩ := List.forall_mem_append.1 h
    obtain ⟨hc, hv⟩ := List.forall_mem_append.1 h
    exact buildsBranches_cons (builds c hc) (builds v hv) (buildsBranches bs hbs)

theorem buildsOption (o : Option Tree) (h : ∀ d ∈ Tree.nodesOption o, d.IsLexeme) :
    BuildsOption o := by
  cases o with
  | none =>
    intro ds n hr _
    rw [Tree.IsLastValue] at hr
    subst hr
    rfl
  | some t => exact buildsOption_some (builds t h)

end

/-- Assembling a record of a whole text gives a root with one item, the expression, unless an
integer in it has too many digits. -/
theorem assemble_root {t : Tree} {d : Datum} (h : t.IsRootRecord d) (hl : t.Lexical) :
    assemble d = converted t.nodes (.ofExpr (.root [t.expr])) := by
  obtain ⟨htag, u, hc, hr⟩ := h
  have hb := builds t hl u (size d) hr (size_child_lt rfl hc List.mem_cons_self)
  rw [assemble, build_of_tag htag, treeBy, tag_eq htag]
  change (itemsBy (build (size d)) (children d)).map (Content.node .root) = _
  rw [itemsBy_one hc hb, converted_map]
  rfl

end AlgebraBatch.Syntax
