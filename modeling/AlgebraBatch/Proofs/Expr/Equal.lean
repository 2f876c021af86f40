import AlgebraBatch.Expr.Basic

/-!
# What an expression is equal to

For each kind of node there is one lemma on the expressions that such a node is equal to: the same
kind of node with equal parts, where only floats may be spelled in another way.
-/

namespace AlgebraBatch.Expr

variable {e : Expr}

/-! ## Atoms -/

theorem equal_integer {n : Int} (h : (integer n).equal e = true) : e = integer n := by
  cases e with
  | integer m => rw [eq_of_beq h]
  | _ => cases h

theorem equal_float {x : Binary64} {text : String} (h : (float x text).equal e = true) :
    ∃ y spelled, e = float y spelled := by
  cases e with
  | float y spelled => exact ⟨y, spelled, rfl⟩
  | _ => cases h

theorem equal_string {s : String} (h : (string s).equal e = true) : e = string s := by
  cases e with
  | string t => rw [eq_of_beq h]
  | _ => cases h

theorem equal_boolean {b : Bool} (h : (boolean b).equal e = true) : e = boolean b := by
  cases e with
  | boolean c => rw [eq_of_beq h]
  | _ => cases h

theorem equal_identifier {name : String} (h : (identifier name).equal e = true) :
    e = identifier name := by
  cases e with
  | identifier other => rw [eq_of_beq h]
  | _ => cases h

/-! ## Operations -/

theorem equal_operation {op : String} {l r : Expr} (h : (operation op l r).equal e = true) :
    ∃ l' r', e = operation op l' r' ∧ l.equal l' = true ∧ r.equal r' = true := by
  cases e with
  | operation op' l' r' =>
    obtain ⟨ho, hr⟩ := Bool.and_eq_true_iff.1 h
    obtain ⟨ho, hl⟩ := Bool.and_eq_true_iff.1 ho
    exact ⟨l', r', by rw [eq_of_beq ho], hl, hr⟩
  | _ => cases h

theorem equal_prefixed {op : String} {d : Expr} (h : (prefixed op d).equal e = true) :
    ∃ d', e = prefixed op d' ∧ d.equal d' = true := by
  cases e with
  | prefixed op' d' =>
    obtain ⟨ho, hd⟩ := Bool.and_eq_true_iff.1 h
    exact ⟨d', by rw [eq_of_beq ho], hd⟩
  | _ => cases h

theorem equal_postfixed {op : String} {d : Expr} (h : (postfixed op d).equal e = true) :
    ∃ d', e = postfixed op d' ∧ d.equal d' = true := by
  cases e with
  | postfixed op' d' =>
    obtain ⟨ho, hd⟩ := Bool.and_eq_true_iff.1 h
    exact ⟨d', by rw [eq_of_beq ho], hd⟩
  | _ => cases h

/-! ## Lists of parts -/

theorem equalItems_nil {es : List Expr} (h : equalItems [] es = true) : es = [] := by
  cases es with
  | nil => rfl
  | cons => cases h

theorem equalItems_cons {d : Expr} {ds es : List Expr} (h : equalItems (d :: ds) es = true) :
    ∃ d' ds', es = d' :: ds' ∧ d.equal d' = true ∧ equalItems ds ds' = true := by
  cases es with
  | nil => cases h
  | cons d' ds' =>
    exact ⟨d', ds', rfl, Bool.and_eq_true_iff.1 h⟩

theorem equalBranches_nil {bs : List (Expr × Expr)} (h : equalBranches [] bs = true) :
    bs = [] := by
  cases bs with
  | nil => rfl
  | cons => cases h

theorem equalBranches_cons {c v : Expr} {as bs : List (Expr × Expr)}
    (h : equalBranches ((c, v) :: as) bs = true) :
    ∃ c' v' as', bs = (c', v') :: as' ∧ c.equal c' = true ∧ v.equal v' = true ∧
      equalBranches as as' = true := by
  cases bs with
  | nil => cases h
  | cons b as' =>
    obtain ⟨c', v'⟩ := b
    obtain ⟨hb, hbs⟩ := Bool.and_eq_true_iff.1 h
    obtain ⟨hc, hv⟩ := Bool.and_eq_true_iff.1 hb
    exact ⟨c', v', as', rfl, hc, hv, hbs⟩

theorem equal_call {head : Expr} {args : List Expr} (h : (call head args).equal e = true) :
    ∃ head' args', e = call head' args' ∧ head.equal head' = true ∧
      equalItems args args' = true := by
  cases e with
  | call head' args' =>
    exact ⟨head', args', rfl, Bool.and_eq_true_iff.1 h⟩
  | _ => cases h

theorem equal_indexed {target : Expr} {indices : List Expr}
    (h : (indexed target indices).equal e = true) :
    ∃ target' indices', e = indexed target' indices' ∧ target.equal target' = true ∧
      equalItems indices indices' = true := by
  cases e with
  | indexed target' indices' =>
    exact ⟨target', indices', rfl, Bool.and_eq_true_iff.1 h⟩
  | _ => cases h

theorem equal_conditional {bs : List (Expr × Expr)} {o : Option Expr}
    (h : (conditional bs o).equal e = true) :
    ∃ bs' o', e = conditional bs' o' ∧ equalBranches bs bs' = true ∧ equalOption o o' = true := by
  cases e with
  | conditional bs' o' =>
    exact ⟨bs', o', rfl, Bool.and_eq_true_iff.1 h⟩
  | _ => cases h

theorem equal_list {items : List Expr} (h : (list items).equal e = true) :
    ∃ items', e = list items' ∧ equalItems items items' = true := by
  cases e with
  | list items' => exact ⟨items', rfl, h⟩
  | _ => cases h

theorem equal_set {items : List Expr} (h : (set items).equal e = true) :
    ∃ items', e = set items' ∧ equalItems items items' = true := by
  cases e with
  | set items' => exact ⟨items', rfl, h⟩
  | _ => cases h

end AlgebraBatch.Expr
