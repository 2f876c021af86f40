import AlgebraBatch.Proofs.Except
import AlgebraBatch.Proofs.Yaml.Scan
import AlgebraBatch.Yaml.Node

/-!
# Where faults of YAML texts come from

A fault that reading a text ends with is the fault of one of its tokens (`fault_of_read`): a scalar
in quotes that cannot be read to its end, or a plain scalar that has the form of a value that does
not exist. Nothing that the tokens are put together to adds a fault of its own.
-/

namespace AlgebraBatch.Yaml

/-- The fault of a token without a value. -/
def Token.fault? : Token → Option Fault
  | fault f => some f
  | scalar text true =>
    match construct text with
    | .ok _ => none
    | .error f => some f
  | _ => none

namespace Node

/-- The scalars of the node are among the tokens, or stand for what is left out. -/
inductive Of (all : List Token) : Node → Prop
  | empty : Of all .empty
  | scalar {text : String} {plain : Bool} (h : .scalar text plain ∈ all) :
    Of all (.scalar text plain)
  | sequence {items : List Node} (h : ∀ x ∈ items, Of all x) : Of all (.sequence items)
  | mapping {entries : List (Node × Node)} (hk : ∀ e ∈ entries, Of all e.1)
    (hv : ∀ e ∈ entries, Of all e.2) : Of all (.mapping entries)

variable {α β : Type} {all ts us : List Token} {P : α → Prop} {Q : β → Prop} {fuel depth : Nat}
  {node : Node} {items : List Node} {entries : List (Node × Node)} {text : String} {plain : Bool}
  {f : Fault}

/-! ## Parsing -/

/-- What is made of tokens has the property, and what is left over of them is among all tokens. -/
def Takes (all : List Token) (P : α → Prop) : Fit (α × List Token) → Prop
  | .ok (a, rest) => P a ∧ rest ⊆ all
  | .error rest => rest ⊆ all

theorem Takes.bind {r : Fit (α × List Token)} {g : α × List Token → Fit (β × List Token)}
    (h : Takes all P r) (hg : ∀ a rest, P a → rest ⊆ all → Takes all Q (g (a, rest))) :
    Takes all Q (r >>= g) := by
  cases r with
  | error us => exact h
  | ok p => exact hg p.1 p.2 h.1 h.2

/-- What is left over of the tokens is among all of them, whether it fits or not. -/
def Leaves (all : List Token) : Fit (List Token) → Prop
  | .ok rest => rest ⊆ all
  | .error rest => rest ⊆ all

theorem Leaves.bind {r : Fit (List Token)} {g : List Token → Fit (β × List Token)}
    (h : Leaves all r) (hg : ∀ rest, rest ⊆ all → Takes all Q (g rest)) :
    Takes all Q (r >>= g) := by
  cases r with
  | error rest => exact h
  | ok rest => exact hg rest h

theorem Takes.map {r : Fit (α × List Token)} {g : α → β} (h : Takes all P r)
    (hg : ∀ a, P a → Q (g a)) : Takes all Q (r.map fun (a, rest) => (g a, rest)) := by
  cases r with
  | error us => exact h
  | ok p => exact ⟨hg p.1 h.1, h.2⟩

/-- The items and the entries that come from the tokens. -/
abbrev ItemsOf (all : List Token) (items : List Node) : Prop := ∀ x ∈ items, Of all x

abbrev EntriesOf (all : List Token) (entries : List (Node × Node)) : Prop :=
  ∀ e ∈ entries, Of all e.1 ∧ Of all e.2

theorem of_mapping : Of all (.mapping entries) ↔ EntriesOf all entries := by
  constructor
  · rintro (_ | _ | _ | ⟨hk, hv⟩)
    exact fun e he => ⟨hk e he, hv e he⟩
  · exact fun h => .mapping (fun e he => (h e he).1) fun e he => (h e he).2

theorem of_sequence : Of all (.sequence items) ↔ ItemsOf all items := by
  constructor
  · rintro (_ | _ | h)
    exact h
  · exact .sequence

/-- Parsing some of the tokens with so much fuel makes nodes of them. -/
structure Parses (all : List Token) (fuel : Nat) : Prop where
  node {ts : List Token} (block indentless : Bool) (h : ts ⊆ all) :
    Takes all (Of all) (parse block indentless fuel ts)
  nodeOr {ts : List Token} (block indentless : Bool) (stops : List Token) (h : ts ⊆ all) :
    Takes all (Of all) (parseOr block indentless stops fuel ts)
  blockItems {ts : List Token} (h : ts ⊆ all) : Takes all (ItemsOf all) (parseBlockItems fuel ts)
  indentless {ts : List Token} (h : ts ⊆ all) : Takes all (ItemsOf all) (parseIndentless fuel ts)
  blockEntries {ts : List Token} (h : ts ⊆ all) :
    Takes all (EntriesOf all) (parseBlockEntries fuel ts)
  blockValue {ts : List Token} (h : ts ⊆ all) : Takes all (Of all) (parseBlockValue fuel ts)
  flowItems {ts : List Token} (first : Bool) (h : ts ⊆ all) :
    Takes all (ItemsOf all) (parseFlowItems first fuel ts)
  flowValue {ts : List Token} (stops : List Token) (h : ts ⊆ all) :
    Takes all (Of all) (parseFlowValue stops fuel ts)
  flowEntries {ts : List Token} (first : Bool) (h : ts ⊆ all) :
    Takes all (EntriesOf all) (parseFlowEntries first fuel ts)

theorem Parses.node_succ (ih : Parses all fuel) (block indentless : Bool) (h : ts ⊆ all) :
    Takes all (Of all) (parse block indentless (fuel + 1) ts) := by
  unfold parse
  split
  · split
    · exact (ih.indentless h).map fun xs => .sequence
    · exact h
  · next text plain rest =>
    obtain ⟨hscalar, hrest⟩ := List.cons_subset.1 h
    exact ⟨.scalar hscalar, hrest⟩
  · exact (ih.flowItems true (List.cons_subset.1 h).2).map fun xs => .sequence
  · exact (ih.flowEntries true (List.cons_subset.1 h).2).map fun es => of_mapping.2
  · split
    · exact (ih.blockItems (List.cons_subset.1 h).2).map fun xs => .sequence
    · exact h
  · split
    · exact (ih.blockEntries (List.cons_subset.1 h).2).map fun es => of_mapping.2
    · exact h
  · exact h

theorem Parses.nodeOr_succ (ih : Parses all fuel) (block indentless : Bool) (stops : List Token)
    (h : ts ⊆ all) : Takes all (Of all) (parseOr block indentless stops (fuel + 1) ts) := by
  rw [parseOr]
  split
  · exact ⟨.empty, h⟩
  · exact ih.node block indentless h

theorem Parses.blockItems_succ (ih : Parses all fuel) (h : ts ⊆ all) :
    Takes all (ItemsOf all) (parseBlockItems (fuel + 1) ts) := by
  unfold parseBlockItems
  split
  · refine (ih.nodeOr true false _ (List.cons_subset.1 h).2).bind fun x rest hx hrest => ?_
    refine (ih.blockItems hrest).bind fun xs rest hxs hrest => ?_
    exact ⟨List.forall_mem_cons.2 ⟨hx, hxs⟩, hrest⟩
  · exact ⟨nofun, (List.cons_subset.1 h).2⟩
  · exact h

theorem Parses.indentless_succ (ih : Parses all fuel) (h : ts ⊆ all) :
    Takes all (ItemsOf all) (parseIndentless (fuel + 1) ts) := by
  unfold parseIndentless
  split
  · refine (ih.nodeOr true false _ (List.cons_subset.1 h).2).bind fun x rest hx hrest => ?_
    refine (ih.indentless hrest).bind fun xs rest hxs hrest => ?_
    exact ⟨List.forall_mem_cons.2 ⟨hx, hxs⟩, hrest⟩
  · exact ⟨nofun, h⟩

theorem Parses.blockEntries_succ (ih : Parses all fuel) (h : ts ⊆ all) :
    Takes all (EntriesOf all) (parseBlockEntries (fuel + 1) ts) := by
  unfold parseBlockEntries
  split
  · refine (ih.nodeOr true true _ (List.cons_subset.1 h).2).bind fun k rest hk hrest => ?_
    refine (ih.blockValue hrest).bind fun v rest hv hrest => ?_
    refine (ih.blockEntries hrest).bind fun es rest hes hrest => ?_
    exact ⟨List.forall_mem_cons.2 ⟨⟨hk, hv⟩, hes⟩, hrest⟩
  · exact ⟨nofun, (List.cons_subset.1 h).2⟩
  · exact h

theorem Parses.blockValue_succ (ih : Parses all fuel) (h : ts ⊆ all) :
    Takes all (Of all) (parseBlockValue (fuel + 1) ts) := by
  unfold parseBlockValue
  split
  · exact ih.nodeOr true true _ (List.cons_subset.1 h).2
  · exact ⟨.empty, h⟩

theorem Parses.flowValue_succ (ih : Parses all fuel) (stops : List Token) (h : ts ⊆ all) :
    Takes all (Of all) (parseFlowValue stops (fuel + 1) ts) := by
  unfold parseFlowValue
  split
  · exact ih.nodeOr false false stops (List.cons_subset.1 h).2
  · exact ⟨.empty, h⟩

/-- Before an item of a flow collection at most a comma is left out. -/
theorem leaves_afterSeparator (first : Bool) (h : ts ⊆ all) :
    Leaves all (afterSeparator first ts) := by
  unfold afterSeparator
  split
  · exact h
  · split
    · exact (List.cons_subset.1 h).2
    · exact h

theorem Parses.flowItems_succ (ih : Parses all fuel) (first : Bool) (h : ts ⊆ all) :
    Takes all (ItemsOf all) (parseFlowItems first (fuel + 1) ts) := by
  unfold parseFlowItems
  split
  · exact ⟨nofun, (List.cons_subset.1 h).2⟩
  · refine (leaves_afterSeparator first h).bind fun rest hrest => ?_
    split
    · exact ⟨nofun, (List.cons_subset.1 hrest).2⟩
    · refine (ih.nodeOr false false _ (List.cons_subset.1 hrest).2).bind fun k rest hk hrest => ?_
      refine (ih.flowValue _ hrest).bind fun v rest hv hrest => ?_
      refine (ih.flowItems false hrest).bind fun xs rest hxs hrest => ?_
      exact ⟨List.forall_mem_cons.2 ⟨of_mapping.2 (List.forall_mem_singleton.2 ⟨hk, hv⟩), hxs⟩, hrest⟩
    · refine (ih.node false false hrest).bind fun x rest hx hrest => ?_
      refine (ih.flowItems false hrest).bind fun xs rest hxs hrest => ?_
      exact ⟨List.forall_mem_cons.2 ⟨hx, hxs⟩, hrest⟩

theorem Parses.flowEntries_succ (ih : Parses all fuel) (first : Bool) (h : ts ⊆ all) :
    Takes all (EntriesOf all) (parseFlowEntries first (fuel + 1) ts) := by
  unfold parseFlowEntries
  split
  · exact ⟨nofun, (List.cons_subset.1 h).2⟩
  · refine (leaves_afterSeparator first h).bind fun rest hrest => ?_
    split
    · exact ⟨nofun, (List.cons_subset.1 hrest).2⟩
    · refine (ih.nodeOr false false _ (List.cons_subset.1 hrest).2).bind fun k rest hk hrest => ?_
      refine (ih.flowValue _ hrest).bind fun v rest hv hrest => ?_
      refine (ih.flowEntries false hrest).bind fun es rest hes hrest => ?_
      exact ⟨List.forall_mem_cons.2 ⟨⟨hk, hv⟩, hes⟩, hrest⟩
    · refine (ih.node false false hrest).bind fun k rest hk hrest => ?_
      refine (ih.flowEntries false hrest).bind fun es rest hes hrest => ?_
      exact ⟨List.forall_mem_cons.2 ⟨⟨hk, .empty⟩, hes⟩, hrest⟩

theorem parses (all : List Token) (fuel : Nat) : Parses all fuel := by
  induction fuel with
  | zero =>
    have hnone {α : Type} {P : α → Prop} : Takes all P (.error []) := List.nil_subset all
    exact
      { node := fun _ _ _ => hnone, nodeOr := fun _ _ _ _ => hnone, blockItems := fun _ => hnone
        indentless := fun _ => hnone, blockEntries := fun _ => hnone, blockValue := fun _ => hnone
        flowItems := fun _ _ => hnone, flowValue := fun _ _ => hnone
        flowEntries := fun _ _ => hnone }
  | succ fuel ih =>
    exact
      { node := ih.node_succ, nodeOr := ih.nodeOr_succ, blockItems := ih.blockItems_succ
        indentless := ih.indentless_succ, blockEntries := ih.blockEntries_succ
        blockValue := ih.blockValue_succ, flowItems := ih.flowItems_succ
        flowValue := ih.flowValue_succ, flowEntries := ih.flowEntries_succ }

/-! ## Documents -/

theorem leaves_skipDirectives (h : ts ⊆ all) : Leaves all (skipDirectives ts) := by
  have hrest : ts.dropWhile isDirective ⊆ all :=
    List.Subset.trans (List.dropWhile_suffix _).subset h
  unfold skipDirectives
  simp only
  split
  · exact h
  · split
    · exact h
    · split
      · exact hrest
      · exact hrest

theorem endStream_subset (h : ts ⊆ all) (he : endStream ts = .error us) : us ⊆ all := by
  have hrest : ts.dropWhile (· == .documentEnd) ⊆ all :=
    List.Subset.trans (List.dropWhile_suffix _).subset h
  unfold endStream at he
  split at he
  · cases he
  · have hleaves := leaves_skipDirectives hrest
    rcases bind_eq_error.1 he with he | ⟨rest, hskip, he⟩
    · rwa [he] at hleaves
    · cases he
      rwa [hskip] at hleaves

/-- A document comes from the tokens, or what does not fit is among them. -/
def Ends (all : List Token) : Fit (Option Node) → Prop
  | .ok node => ∀ n ∈ node, Of all n
  | .error us => us ⊆ all

theorem Takes.ends {r : Fit (Node × List Token)} (h : Takes all (Of all) r) :
    Ends all (r >>= fun (node, rest) => endStream rest >>= fun _ => .ok (some node)) := by
  cases r with
  | error us => exact h
  | ok p =>
    obtain ⟨hnode, hrest⟩ := h
    show Ends all (endStream p.2 >>= fun _ => .ok (some p.1))
    cases he : endStream p.2 with
    | error us => exact endStream_subset hrest he
    | ok _ =>
      rintro n hn
      obtain rfl := Option.some.inj hn
      exact hnode

theorem ends_ofTokens (ts : List Token) : Ends ts (ofTokens ts) := by
  have hleaves := leaves_skipDirectives (List.Subset.refl ts)
  unfold ofTokens
  cases hskip : skipDirectives ts with
  | error us =>
    rw [hskip] at hleaves
    exact hleaves
  | ok us =>
    have hus : us ⊆ ts := by rwa [hskip] at hleaves
    simp only [bind, Except.bind]
    split
    · exact nofun
    · next rest =>
      have hrest : rest ⊆ ts := (List.cons_subset.1 hus).2
      split
      · have hempty : Takes ts (Of ts) (.ok (empty, rest)) := ⟨.empty, hrest⟩
        exact hempty.ends
      · exact ((parses ts _).nodeOr true false _ hrest).ends
    · exact ((parses ts _).node true false hus).ends

/-! ## Values -/

/-- One of the tokens has the fault. -/
def Faulty (all : List Token) (f : Fault) : Prop := ∃ t ∈ all, t.fault? = some f

theorem Of.constructScalar (h : Of all (.scalar text plain))
    (hf : constructScalar text plain = .error (.fault f)) : Faulty all f := by
  cases h with
  | empty => cases hf
  | scalar h =>
    refine ⟨_, h, ?_⟩
    unfold Node.constructScalar at hf
    split at hf
    · next hplain =>
      subst hplain
      split at hf
      · cases hf
      · cases hf
      · next hc =>
        cases hf
        rw [Token.fault?, hc]
    · cases hf

theorem Of.constructKey (h : Of all node) (hf : constructKey node = .error (.fault f)) :
    Faulty all f := by
  cases node with
  | scalar text plain =>
    rw [Node.constructKey] at hf
    split at hf
    · cases hf
    · exact h.constructScalar hf
  | sequence items => cases hf
  | mapping entries => cases hf

theorem Of.mergedEntries (h : Of all node) (hm : mergedEntries node = some entries) :
    EntriesOf all entries := by
  cases node with
  | scalar text plain => cases hm
  | mapping es =>
    cases hm
    exact of_mapping.1 h
  | sequence nodes =>
    obtain ⟨ess, hess, rfl⟩ := Option.map_eq_some_iff.1 hm
    intro e he
    obtain ⟨es, hes, he⟩ := List.mem_flatten.1 he
    obtain ⟨n, hn, hentries⟩ := exists_of_mem_mapM hess es (List.mem_reverse.1 hes)
    cases n with
    | mapping es' =>
      cases hentries
      exact of_mapping.1 (of_sequence.1 h _ hn) e he
    | scalar text plain => cases hentries
    | sequence items => cases hentries

theorem EntriesOf.flattened {es : List (Node × Node)} (h : EntriesOf all entries)
    (hf : flattened entries = some es) : EntriesOf all es := by
  obtain ⟨merged, hmerged, hes⟩ := Option.bind_eq_some_iff.1 hf
  cases hes
  refine List.forall_mem_append.2 ⟨fun e he => ?_, fun e he => h e (List.mem_of_mem_filter he)⟩
  obtain ⟨ms, hms, he⟩ := List.mem_flatten.1 he
  obtain ⟨source, hsource, hms⟩ := exists_of_mem_mapM hmerged ms hms
  exact (h source (List.mem_of_mem_filter hsource)).2.mergedEntries hms e he

theorem Of.entryBy {value : Node → Except Failure Datum} {entry : Node × Node}
    (hk : Of all entry.1) (hv : value entry.2 = .error (.fault f) → Faulty all f)
    (hf : entryBy value entry = .error (.fault f)) : Faulty all f := by
  rcases bind_eq_error.1 hf with hf | ⟨k, -, hf⟩
  · exact hk.constructKey hf
  · rcases bind_eq_error.1 hf with hf | ⟨v, -, hf⟩
    · exact hv hf
    · cases hf

theorem Of.value (h : Of all node) (hf : value fuel node = .error (.fault f)) : Faulty all f := by
  induction fuel generalizing node with
  | zero =>
    cases node with
    | scalar text plain => exact h.constructScalar hf
    | sequence items => cases hf
    | mapping entries => cases hf
  | succ fuel ih =>
    cases node with
    | scalar text plain => exact h.constructScalar hf
    | sequence items =>
      obtain ⟨x, hx, hf⟩ := mapM_eq_error (map_eq_error.1 hf)
      exact ih (of_sequence.1 h x hx) hf
    | mapping entries =>
      rw [Node.value] at hf
      split at hf
      · cases hf
      · next es hes =>
        obtain ⟨e, he, hf⟩ := mapM_eq_error (map_eq_error.1 hf)
        obtain ⟨hk, hv⟩ := (of_mapping.1 h).flattened hes e he
        exact hk.entryBy (ih hv) hf

theorem failureOf?_eq_some {r : Except Failure α} {failure : Failure} :
    failureOf? r = some failure ↔ r = .error failure := by
  cases r with
  | ok a => exact iff_of_false nofun nofun
  | error f' => exact ⟨fun h => congrArg Except.error (Option.some.inj h), fun h => h ▸ rfl⟩

theorem entryFailure {entry : Node × Node} (hk : Of all entry.1) (hv : Of all entry.2)
    (hf : entryFailure? entry = some (.fault f)) : Faulty all f := by
  rw [entryFailure?] at hf
  split at hf
  · next hkey =>
    cases hf
    exact hk.constructKey hkey
  · next hscalar =>
    rw [hscalar] at hv
    exact hv.constructScalar (failureOf?_eq_some.1 hf)
  · cases hf

theorem Of.failureAt (h : Of all node) (hf : failureAt? depth node = some (.fault f)) :
    Faulty all f := by
  induction depth generalizing node with
  | zero =>
    cases node with
    | scalar text plain => exact h.constructScalar (failureOf?_eq_some.1 hf)
    | sequence items => cases hf
    | mapping entries => cases hf
  | succ depth ih =>
    unfold failureAt? at hf
    split at hf
    · next heq => cases heq
    · split at hf
      · cases hf
      · next es hes =>
        obtain ⟨e, he, hf⟩ := List.exists_of_findSome?_eq_some hf
        obtain ⟨hk, hv⟩ := (of_mapping.1 h).flattened hes e he
        exact entryFailure hk hv hf
    · next d items hd =>
      cases hd
      obtain ⟨x, hx, hf⟩ := List.exists_of_findSome?_eq_some hf
      exact ih (of_sequence.1 h x hx) hf
    · next d entries _ hd =>
      cases hd
      obtain ⟨e, he, hf⟩ := List.exists_of_findSome?_eq_some hf
      cases hes : Node.flattened entries with
      | none =>
        rw [hes] at he
        cases he
      | some es =>
        rw [hes] at he
        exact ih ((of_mapping.1 h).flattened hes e he).2 hf
    · cases hf

theorem Of.construct (h : Of all node) (hf : construct depth node = .error (.fault f)) :
    Faulty all f := by
  rw [Node.construct] at hf
  split at hf
  · cases hf
  · next failure hvalue =>
    cases hfirst : (List.range (depth + 1)).findSome? (failureAt? · node) with
    | none =>
      rw [hfirst] at hf
      cases hf
      exact h.value hvalue
    | some failure' =>
      rw [hfirst] at hf
      cases hf
      obtain ⟨i, -, hi⟩ := List.exists_of_findSome?_eq_some hfirst
      exact h.failureAt hi

end Node

/-! ## Plain scalars -/

/-- The computation has no fault but that of a value. -/
def OnValues {α : Type} (r : Except Fault α) : Prop := ∀ f, r = .error f → f.isReport = false

theorem OnValues.bind {r : Except Fault α} {g : α → Except Fault β} (h : OnValues r)
    (hg : ∀ a, OnValues (g a)) : OnValues (r >>= g) := by
  intro f hf
  rcases bind_eq_error.1 hf with hf | ⟨a, -, hf⟩
  · exact h f hf
  · exact hg a f hf

theorem OnValues.map {r : Except Fault α} (h : OnValues r) (g : α → β) : OnValues (r.map g) :=
  fun f hf => h f (map_eq_error.1 hf)

theorem onValues_ok (a : α) : OnValues (.ok a) := nofun

theorem onValues_mapM {α β : Type} {g : α → Except Fault β} (h : ∀ a, OnValues (g a)) (xs : List α) :
    OnValues (xs.mapM g) := by
  intro f hf
  obtain ⟨x, -, hf⟩ := mapM_eq_error hf
  exact h x f hf

theorem onValues_foldlM {α β : Type} {g : β → α → Except Fault β} (h : ∀ b a, OnValues (g b a))
    (xs : List α) (b : β) : OnValues (xs.foldlM g b) := by
  induction xs generalizing b with
  | nil => exact onValues_ok b
  | cons x xs ih =>
    rw [List.foldlM_cons]
    exact (h b x).bind ih

theorem onValues_numeral (r : Except NumeralFault α) : OnValues (r.mapError .numeral) := by
  rintro f hf
  cases r with
  | ok a => cases hf
  | error e =>
    cases hf
    rfl

theorem onValues_decimalInteger (cs : List Char) : OnValues (decimalInteger cs) :=
  onValues_numeral _

theorem onValues_floatOf (cs : List Char) : OnValues (floatOf cs) := onValues_numeral _

theorem onValues_markedInteger (base : Nat) (cs : List Char) :
    OnValues (markedInteger base cs) := by
  unfold markedInteger
  split
  · rintro f ⟨⟩
    rfl
  · exact onValues_ok _

theorem onValues_constructInteger (cs : List Char) : OnValues (constructInteger cs) := by
  unfold constructInteger
  extract_lets cs finish
  have hfinish (magnitude : Int) : OnValues (finish magnitude) := onValues_ok _
  split
  · exact hfinish _
  · exact (onValues_markedInteger 2 _).bind hfinish
  · exact (onValues_markedInteger 16 _).bind hfinish
  · exact hfinish _
  · split
    · have hplaces := onValues_mapM onValues_decimalInteger (splitAt ':' (dropSign cs))
      exact (hplaces.map sexagesimal).bind hfinish
    · exact (onValues_decimalInteger _).bind hfinish

theorem onValues_sexagesimalFloat (places : List Binary64) : OnValues (sexagesimalFloat places) := by
  unfold sexagesimalFloat
  extract_lets step
  have hstep (acc : Binary64 × Int) (d : Binary64) : OnValues (step acc d) := by
    simp only [step]
    split
    · exact onValues_ok _
    · rintro f ⟨⟩
      rfl
  exact (onValues_foldlM hstep _ _).bind fun _ => onValues_ok _

theorem onValues_constructFloat (cs : List Char) : OnValues (constructFloat cs) := by
  unfold constructFloat
  extract_lets cs finish
  have hfinish (magnitude : Binary64) : OnValues (finish magnitude) := onValues_ok _
  split
  · exact hfinish _
  · exact hfinish _
  · split
    · have hplaces := onValues_mapM onValues_floatOf (splitAt ':' (dropSign cs))
      exact hplaces.bind fun places => (onValues_sexagesimalFloat places).bind hfinish
    · exact (onValues_floatOf _).bind hfinish

theorem onValues_constructMoment (m : Moment) : OnValues (constructMoment m) := by
  unfold constructMoment
  split
  · rintro f ⟨⟩
    rfl
  · exact onValues_ok _

theorem onValues_construct (text : String) : OnValues (construct text) := by
  unfold construct
  split
  · exact onValues_ok _
  · exact onValues_ok _
  · exact onValues_ok _
  · exact (onValues_constructInteger _).map _
  · exact (onValues_constructFloat _).map _
  · split
    · exact (onValues_constructMoment _).map _
    · exact onValues_ok _
  · exact onValues_ok _
  · exact onValues_ok _

theorem isReport_of_fault? {t : Token} (ht : t.IsSound) (hf : t.fault? = some f) :
    f.isReport = false := by
  unfold Token.fault? at hf
  split at hf
  · cases hf
    exact ht
  · split at hf
    · cases hf
    · next text f' hc =>
      cases hf
      exact onValues_construct _ f hc
  · cases hf

/-- The fault of a text is that of one of its tokens, which stands for no value. -/
theorem fault_of_read {text : String} (h : read text = .error (.fault f)) :
    f.isReport = false ∧ ∃ ts, Token.ofText text = .ok ts ∧ ∃ t ∈ ts, t.fault? = some f := by
  rcases bind_eq_error.1 h with h | ⟨ts, hts, h⟩
  · exact absurd h (Token.ofText_ne_fault text f)
  have hfaulty : Node.Faulty ts f := by
    have hends := Node.ends_ofTokens ts
    split at h
    · next f' rest hfit =>
      cases h
      rw [hfit] at hends
      exact ⟨_, hends List.mem_cons_self, rfl⟩
    · cases h
    · cases h
    · next node hnode =>
      rw [hnode] at hends
      exact (hends node rfl).construct h
  obtain ⟨t, ht, hf⟩ := hfaulty
  exact ⟨isReport_of_fault? (Token.isSound_of_mem hts ht) hf, ts, hts, t, ht, hf⟩

theorem keepsToItself_read : Reader.KeepsToItself read := fun _ _ h => (fault_of_read h).1

end AlgebraBatch.Yaml
