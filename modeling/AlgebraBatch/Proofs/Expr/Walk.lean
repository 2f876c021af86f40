import AlgebraBatch.Expr.Basic

/-!
# Induction on expressions

An expression holds lists of expressions, pairs of them and at most one of them. `Expr.induction`
is induction on expressions where a property may be used of every member of these.

`Everywhere P e` says that `P` holds of each node that `walk` lists. For each kind of node there is
one lemma on what this says of the node and of its parts.
-/

namespace AlgebraBatch.Expr

@[elab_as_elim]
theorem induction {motive : Expr → Prop}
    (integer : ∀ n, motive (.integer n))
    (float : ∀ x text, motive (.float x text))
    (string : ∀ s, motive (.string s))
    (boolean : ∀ b, motive (.boolean b))
    (identifier : ∀ name, motive (.identifier name))
    (operation : ∀ op l r, motive l → motive r → motive (.operation op l r))
    (prefixed : ∀ op e, motive e → motive (.prefixed op e))
    (postfixed : ∀ op e, motive e → motive (.postfixed op e))
    (call : ∀ head args, motive head → (∀ a ∈ args, motive a) → motive (.call head args))
    (indexed : ∀ target indices, motive target → (∀ a ∈ indices, motive a) →
      motive (.indexed target indices))
    (conditional : ∀ branches otherwise, (∀ b ∈ branches, motive b.1 ∧ motive b.2) →
      (∀ e ∈ otherwise, motive e) → motive (.conditional branches otherwise))
    (list : ∀ items, (∀ a ∈ items, motive a) → motive (.list items))
    (set : ∀ items, (∀ a ∈ items, motive a) → motive (.set items))
    (root : ∀ items, (∀ a ∈ items, motive a) → motive (.root items)) (e : Expr) : motive e :=
  @Expr.rec motive (fun es => ∀ a ∈ es, motive a) (fun bs => ∀ b ∈ bs, motive b.1 ∧ motive b.2)
    (fun o => ∀ e ∈ o, motive e) (fun b => motive b.1 ∧ motive b.2)
    integer float string boolean identifier operation prefixed postfixed call indexed conditional
    list set root
    nofun (fun _ _ he hes => List.forall_mem_cons.2 ⟨he, hes⟩)
    nofun (fun _ _ hb hbs => List.forall_mem_cons.2 ⟨hb, hbs⟩)
    nofun (fun _ he _ h => Option.mem_some.1 h ▸ he)
    (fun _ _ hc hv => ⟨hc, hv⟩) e

/-! ## Every node -/

theorem self_mem_walk (e : Expr) : e ∈ e.walk := by
  cases e <;> simp [walk]

theorem mem_walkItems {d : Expr} : ∀ {es : List Expr}, d ∈ walkItems es ↔ ∃ e ∈ es, d ∈ e.walk
  | [] => by simp [walkItems]
  | e :: es => by simp [walkItems, mem_walkItems]

theorem mem_walkBranches {d : Expr} :
    ∀ {bs : List (Expr × Expr)}, d ∈ walkBranches bs ↔ ∃ b ∈ bs, d ∈ b.1.walk ∨ d ∈ b.2.walk
  | [] => by simp [walkBranches]
  | (c, v) :: bs => by simp [walkBranches, mem_walkBranches, or_assoc]

/-- `P` holds of the expression and of every expression below it. -/
def Everywhere (P : Expr → Prop) (e : Expr) : Prop := ∀ d ∈ e.walk, P d

instance {P : Expr → Prop} [DecidablePred P] : DecidablePred (Everywhere P) := fun e =>
  inferInstanceAs (Decidable (∀ d ∈ e.walk, P d))

section Everywhere

variable {P : Expr → Prop}

theorem Everywhere.self {e : Expr} (h : Everywhere P e) : P e := h e (self_mem_walk e)

@[simp]
theorem everywhere_integer {n : Int} : Everywhere P (.integer n) ↔ P (.integer n) := by
  simp [Everywhere, walk]

@[simp]
theorem everywhere_float {x : Binary64} {text : String} :
    Everywhere P (.float x text) ↔ P (.float x text) := by
  simp [Everywhere, walk]

@[simp]
theorem everywhere_string {s : String} : Everywhere P (.string s) ↔ P (.string s) := by
  simp [Everywhere, walk]

@[simp]
theorem everywhere_boolean {b : Bool} : Everywhere P (.boolean b) ↔ P (.boolean b) := by
  simp [Everywhere, walk]

@[simp]
theorem everywhere_identifier {name : String} :
    Everywhere P (.identifier name) ↔ P (.identifier name) := by
  simp [Everywhere, walk]

@[simp]
theorem everywhere_operation {op : String} {l r : Expr} :
    Everywhere P (.operation op l r) ↔
      P (.operation op l r) ∧ Everywhere P l ∧ Everywhere P r := by
  simp only [Everywhere, walk, List.forall_mem_cons, List.forall_mem_append]

@[simp]
theorem everywhere_prefixed {op : String} {e : Expr} :
    Everywhere P (.prefixed op e) ↔ P (.prefixed op e) ∧ Everywhere P e := by
  simp only [Everywhere, walk, List.forall_mem_cons]

@[simp]
theorem everywhere_postfixed {op : String} {e : Expr} :
    Everywhere P (.postfixed op e) ↔ P (.postfixed op e) ∧ Everywhere P e := by
  simp only [Everywhere, walk, List.forall_mem_cons]

theorem forall_walkItems {es : List Expr} :
    (∀ d ∈ walkItems es, P d) ↔ ∀ e ∈ es, Everywhere P e := by
  simp only [mem_walkItems, Everywhere]
  exact ⟨fun h e he d hd => h d ⟨e, he, hd⟩, fun h d ⟨e, he, hd⟩ => h e he d hd⟩

@[simp]
theorem everywhere_call {head : Expr} {args : List Expr} :
    Everywhere P (.call head args) ↔
      P (.call head args) ∧ Everywhere P head ∧ ∀ a ∈ args, Everywhere P a := by
  rw [← forall_walkItems]
  simp only [Everywhere, walk, List.forall_mem_cons, List.forall_mem_append]

@[simp]
theorem everywhere_indexed {target : Expr} {indices : List Expr} :
    Everywhere P (.indexed target indices) ↔
      P (.indexed target indices) ∧ Everywhere P target ∧ ∀ a ∈ indices, Everywhere P a := by
  rw [← forall_walkItems]
  simp only [Everywhere, walk, List.forall_mem_cons, List.forall_mem_append]

theorem forall_walkBranches {bs : List (Expr × Expr)} :
    (∀ d ∈ walkBranches bs, P d) ↔ ∀ b ∈ bs, Everywhere P b.1 ∧ Everywhere P b.2 := by
  simp only [mem_walkBranches, Everywhere]
  constructor
  · exact fun h b hb => ⟨fun d hd => h d ⟨b, hb, .inl hd⟩, fun d hd => h d ⟨b, hb, .inr hd⟩⟩
  · rintro h d ⟨b, hb, hd | hd⟩
    · exact (h b hb).1 d hd
    · exact (h b hb).2 d hd

theorem forall_walkOption {o : Option Expr} :
    (∀ d ∈ walkOption o, P d) ↔ ∀ e ∈ o, Everywhere P e := by
  cases o <;> simp [walkOption, Everywhere]

@[simp]
theorem everywhere_conditional {branches : List (Expr × Expr)} {otherwise : Option Expr} :
    Everywhere P (.conditional branches otherwise) ↔
      P (.conditional branches otherwise) ∧
        (∀ b ∈ branches, Everywhere P b.1 ∧ Everywhere P b.2) ∧
        ∀ e ∈ otherwise, Everywhere P e := by
  rw [← forall_walkBranches, ← forall_walkOption]
  simp only [Everywhere, walk, List.forall_mem_cons, List.forall_mem_append]

@[simp]
theorem everywhere_list {items : List Expr} :
    Everywhere P (.list items) ↔ P (.list items) ∧ ∀ a ∈ items, Everywhere P a := by
  rw [← forall_walkItems]
  simp only [Everywhere, walk, List.forall_mem_cons]

@[simp]
theorem everywhere_set {items : List Expr} :
    Everywhere P (.set items) ↔ P (.set items) ∧ ∀ a ∈ items, Everywhere P a := by
  rw [← forall_walkItems]
  simp only [Everywhere, walk, List.forall_mem_cons]

@[simp]
theorem everywhere_root {items : List Expr} :
    Everywhere P (.root items) ↔ P (.root items) ∧ ∀ a ∈ items, Everywhere P a := by
  rw [← forall_walkItems]
  simp only [Everywhere, walk, List.forall_mem_cons]

end Everywhere

end AlgebraBatch.Expr
