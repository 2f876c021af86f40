import AlgebraBatch.Proofs.Peg.Reading
import Mathlib.Data.List.Forall2

/-!
# Reading two texts in step

While an expression reads, it passes through states; a token leads from one state to another, and a
rule comes back to the state that it was entered in. `C.Passes i j A p`: the expression `p` leads
from state `i` to state `j`, and its values are compared by `A`. The judgment is about the
expression alone, and two statements on texts follow from it. If the tokens keep a property that
depends on the state, what an expression reads keeps it too (`keeps_yields`). And if two texts are
so alike in a state that every token is read from both or from neither, and then leaves them alike,
every expression is read from both or from neither (`agrees_run`).
-/

namespace AlgebraBatch.Peg

variable {τ ρ ν ι α β : Type}

/-- How a grammar is gone through: the states that a token leads from and to, and when the pieces
that a token reads from two texts count as the same, and the values of a rule. -/
structure Course (τ ν ι : Type) where
  moves : τ → ι → ι → Prop
  piece : τ → Piece → Piece → Prop
  value : ν → ν → Prop

inductive Course.Passes (C : Course τ ν ι) :
    ι → ι → {α : Type} → (α → α → Prop) → Peg τ ρ ν α → Prop where
  | token {i j : ι} {t : τ} : C.moves t i j → Passes C i j (C.piece t) (.token t)
  | rule {i : ι} {r : ρ} : Passes C i i C.value (.rule r)
  | seq {i j k : ι} {α β : Type} {A : α → α → Prop} {B : β → β → Prop} {a : Peg τ ρ ν α}
      {b : Peg τ ρ ν β} : Passes C i j A a → Passes C j k B b →
      Passes C i k (fun x y => A x.1 y.1 ∧ B x.2 y.2) (.seq a b)
  | orElse {i j : ι} {α : Type} {A : α → α → Prop} {a b : Peg τ ρ ν α} :
      Passes C i j A a → Passes C i j A b → Passes C i j A (.orElse a b)
  | optional {i : ι} {α : Type} {A : α → α → Prop} {a : Peg τ ρ ν α} :
      Passes C i i A a → Passes C i i (Option.Rel A) (.optional a)
  | many {i : ι} {α : Type} {A : α → α → Prop} {a : Peg τ ρ ν α} :
      Passes C i i A a → Passes C i i (List.Forall₂ A) (.many a)
  | map {i j : ι} {α β : Type} {A : α → α → Prop} {B : β → β → Prop} {f : α → β}
      {a : Peg τ ρ ν α} : Passes C i j A a → (∀ x y, A x y → B (f x) (f y)) →
      Passes C i j B (.map f a)
  | spanned {i j : ι} {α : Type} {A : α → α → Prop} {a : Peg τ ρ ν α} :
      Passes C i j A a → Passes C i j (fun x y => A x.2 y.2) (.spanned a)

variable {g : Grammar τ ρ ν} {C : Course τ ν ι}

/-! ## One text -/

/-- What an expression reads takes the text from one state to the other, if tokens do so and rules
come back to the state that they were entered in. -/
theorem keeps_derives {I : ι → List Char → Prop}
    (ht : ∀ {t i j s s'}, C.moves t i j → g.accept t s = some s' → (I i s ↔ I j s'))
    {M : ρ → List Char → ν → List Char → Prop} (hM : ∀ i {r s x s'}, M r s x s' → (I i s ↔ I i s'))
    {i j : ι} {A : α → α → Prop} {p : Peg τ ρ ν α} (hp : C.Passes i j A p) :
    ∀ {s s' : List Char} {x : α}, Derives g M p s x s' → (I i s ↔ I j s') := by
  induction hp with
  | token hm => exact fun h => ht hm h.1
  | rule => exact fun h => hM _ h
  | seq _ _ iha ihb =>
    rintro s s' x ⟨s₁, ha, hb⟩
    exact (iha ha).trans (ihb hb)
  | orElse _ _ iha ihb =>
    rintro s s' x (ha | ⟨-, hb⟩)
    · exact iha ha
    · exact ihb hb
  | optional _ ih =>
    intro s s' x h
    cases x with
    | none => exact h.2 ▸ Iff.rfl
    | some x => exact ih h
  | many _ ih =>
    intro s s' xs h
    induction h with
    | nil _ => exact Iff.rfl
    | cons ha _ hxs => exact (ih ha).trans hxs
  | map _ _ ih =>
    rintro s s' x ⟨y, ha, -⟩
    exact ih ha
  | spanned _ ih =>
    rintro s s' x ⟨ha, -⟩
    exact ih ha

/-! ## Two texts -/

/-- Two outcomes are of one kind, with like values and like texts after them. -/
inductive Agrees (A : α → α → Prop) (E : List Char → List Char → Prop) :
    Outcome α → Outcome α → Prop where
  | done {x y : α} {s u : List Char} : A x y → E s u → Agrees A E (.done x s) (.done y u)
  | fail : Agrees A E .fail .fail
  | starved : Agrees A E .starved .starved

/-- Texts that are alike in a state, as far as tokens can tell. -/
structure Alike (g : Grammar τ ρ ν) (C : Course τ ν ι) (E : ι → List Char → List Char → Prop) :
    Prop where
  read {t : τ} {i j : ι} {s s' u : List Char} : C.moves t i j → E i s u →
    g.accept t s = some s' →
      ∃ u', g.accept t u = some u' ∧ E j s' u' ∧ C.piece t (.between s s') (.between u u')
  refused {t : τ} {i j : ι} {s u : List Char} : C.moves t i j → E i s u →
    g.accept t s = none → g.accept t u = none

/-- Going on alike from outcomes that agree leads to outcomes that agree. -/
theorem Agrees.followedBy {A : α → α → Prop} {B : β → β → Prop}
    {E F : List Char → List Char → Prop} {o o' : Outcome α} {f f' : α → List Char → Outcome β}
    {q q' : Outcome β} (h : Agrees A E o o')
    (hf : ∀ {x y s u}, A x y → E s u → Agrees B F (f x s) (f' y u)) (hq : Agrees B F q q') :
    Agrees B F (o.followedBy f q) (o'.followedBy f' q') := by
  cases h with
  | done hx hs => exact hf hx hs
  | fail => exact hq
  | starved => exact .starved

/-- From texts that are alike an expression reads alike. -/
theorem agrees_run {E : ι → List Char → List Char → Prop} (hE : Alike g C E)
    (hg : ∀ i r, C.Passes i i C.value (g.body r)) (n : Nat) :
    ∀ {i j : ι} {α : Type} {A : α → α → Prop} {p : Peg τ ρ ν α} {s u : List Char},
      C.Passes i j A p → E i s u → Agrees A (E j) (run g n p s) (run g n p u) := by
  -- Both runs have the same depth left at every point, so they starve together or not at all.
  induction n with
  | zero => intro i j α A p s u _ _; exact .starved
  | succ n ih =>
    intro i j α A p s u hp h
    cases hp with
    | @token _ _ t hm =>
      simp only [run]
      cases e : g.accept t s with
      | none => rw [hE.refused hm h e]; exact .fail
      | some s' =>
        obtain ⟨u', eu, h', hx⟩ := hE.read hm h e
        rw [eu]
        exact .done hx h'
    | rule => exact ih (hg i _) h
    | seq ha hb =>
      refine (ih ha h).followedBy (fun hx h₁ => ?_) .fail
      exact (ih hb h₁).followedBy (fun hy h₂ => .done ⟨hx, hy⟩ h₂) .fail
    | orElse ha hb => exact (ih ha h).followedBy .done (ih hb h)
    | optional ha => exact (ih ha h).followedBy (fun hx h₁ => .done (.some hx) h₁) (.done .none h)
    | many ha =>
      rw [run_many, run_many]
      refine (ih ha h).followedBy (fun hx h₁ => ?_) (.done .nil h)
      exact (ih (.many ha) h₁).followedBy (fun hy h₂ => .done (.cons hx hy) h₂) .fail
    | map ha hf => exact (ih ha h).followedBy (fun hx h₁ => .done (hf _ _ hx) h₁) .fail
    | spanned ha => exact (ih ha h).followedBy (fun hx h₁ => .done hx h₁) .fail

section Yields

variable {i j : ι} {A : α → α → Prop} {p : Peg τ ρ ν α} {s s' : List Char} {x : α}

theorem keeps_yields {I : ι → List Char → Prop} (hg : ∀ i r, C.Passes i i C.value (g.body r))
    (ht : ∀ {t i j s s'}, C.moves t i j → g.accept t s = some s' → (I i s ↔ I j s'))
    (hp : C.Passes i j A p) (h : Yields g p s x s') : I i s ↔ I j s' := by
  have hr : ∀ r s x s', Derives g (fun _ s _ s' => ∀ i, I i s ↔ I i s') (g.body r) s x s' →
      ∀ i, I i s ↔ I i s' :=
    fun r s x s' hd i => keeps_derives ht (fun i _ _ _ _ h => h i) (hg i r) hd
  exact keeps_derives ht (fun i _ _ _ _ h => h i) hp (derives_of_yields hr h)

theorem agrees_yields {E : ι → List Char → List Char → Prop} (hE : Alike g C E)
    (hg : ∀ i r, C.Passes i i C.value (g.body r)) (hp : C.Passes i j A p) {u : List Char}
    (hs : E i s u) (h : Yields g p s x s') : ∃ y u', Yields g p u y u' ∧ A x y ∧ E j s' u' := by
  obtain ⟨n, h⟩ := h
  have ha := agrees_run hE hg n hp hs
  rw [h] at ha
  generalize hu : run g n p u = o at ha
  cases ha with
  | @done _ y _ u' hx h' => exact ⟨y, u', ⟨n, hu⟩, hx, h'⟩

/-- What is read from the second text is read from the first one too. -/
theorem agrees_yields_back {E : ι → List Char → List Char → Prop} (hE : Alike g C E)
    (hg : ∀ i r, C.Passes i i C.value (g.body r)) (hp : C.Passes i j A p) {u u' : List Char} {y : α}
    (hs : E i s u) (h : Yields g p u y u') : ∃ x s', Yields g p s x s' ∧ A x y ∧ E j s' u' := by
  obtain ⟨n, h⟩ := h
  have ha := agrees_run hE hg n hp hs
  rw [h] at ha
  generalize hr : run g n p s = o at ha
  cases ha with
  | @done x _ s' _ hx h' => exact ⟨x, s', ⟨n, hr⟩, hx, h'⟩

end Yields

end AlgebraBatch.Peg
