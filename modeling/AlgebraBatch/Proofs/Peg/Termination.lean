import AlgebraBatch.Proofs.Peg.Depth
import AlgebraBatch.Proofs.Peg.Misses

/-!
# Nothing is entered again where it began

An attempt that is made again below itself, at the same place, would be made without end; so with a
ranking there is none (`Keeps.length_lt`), and the rules that are entered below each other at one
place have falling ranks (`rank_lt_of_entersN`). How far down the attempts go is bounded by the text
that is left and by the rank (`lt_levels_of_entersN`). `Advances g p` says that every repetition in
`p` reads something each time.
-/

namespace AlgebraBatch.Peg

variable {τ ρ ν α β : Type} {g : Grammar τ ρ ν}

/-- Whenever the body of a repetition in this expression is read, it reads at least a character. -/
def Advances (g : Grammar τ ρ ν) : {α : Type} → Peg τ ρ ν α → Prop
  | _, .token _ => True
  | _, .rule _ => True
  | _, .seq a b => a.Advances g ∧ b.Advances g
  | _, .orElse a b => a.Advances g ∧ b.Advances g
  | _, .optional a => a.Advances g
  | _, .many a => (∀ s x s', Yields g a s x s' → s'.length < s.length) ∧ a.Advances g
  | _, .map _ a => a.Advances g
  | _, .spanned a => a.Advances g

/-- A part is tried within the text of the whole. -/
theorem Enters.suffix (hg : ∀ {t s s'}, g.accept t s = some s' → s' <:+ s) {A B : Attempt τ ρ ν}
    (h : Enters g A B) : B.text <:+ A.text := by
  obtain ⟨p, s⟩ := A
  cases p with
  | token t => exact h.elim
  | rule r => exact h ▸ List.suffix_rfl
  | seq a b =>
    obtain rfl | ⟨x, s', ha, rfl⟩ := h
    · exact List.suffix_rfl
    · exact ha.suffix hg
  | orElse a b => obtain rfl | ⟨-, rfl⟩ := h <;> exact List.suffix_rfl
  | optional a => exact h ▸ List.suffix_rfl
  | many a =>
    obtain rfl | ⟨x, s', ha, rfl⟩ := h
    · exact List.suffix_rfl
    · exact ha.suffix hg
  | map f a => exact h ▸ List.suffix_rfl
  | spanned a => exact h ▸ List.suffix_rfl

theorem EntersN.suffix (hg : ∀ {t s s'}, g.accept t s = some s' → s' <:+ s) {n : Nat}
    {A B : Attempt τ ρ ν} (h : EntersN g n A B) : B.text <:+ A.text := by
  induction h with
  | refl A => exact List.suffix_rfl
  | head hA _ ih => exact ih.trans (hA.suffix hg)

namespace Ranking

variable (R : Ranking g)

theorem advances {p : Peg τ ρ ν α} {k : Nat} :
    p.isGuarded R.solid R.rank R.top k = true → p.Advances g := by
  induction p generalizing k with
  | token t => exact fun _ => trivial
  | rule r => exact fun _ => trivial
  | seq a b iha ihb =>
    simp only [isGuarded, Bool.and_eq_true]
    exact fun h => ⟨iha h.1, ihb h.2⟩
  | orElse a b iha ihb =>
    simp only [isGuarded, Bool.and_eq_true]
    exact fun h => ⟨iha h.1, ihb h.2⟩
  | optional a ih => exact ih
  | many a ih =>
    simp only [isGuarded, Bool.and_eq_true]
    exact fun h => ⟨fun _ _ _ ha => R.length_lt_of_yields h.1 ha, ih h.2⟩
  | map f a ih => exact ih
  | spanned a ih => exact ih

/-- How far down the attempts go, by the length of the text that is left and a rank. -/
def levels (length rank : Nat) : Nat := length * R.stride + (rank + 1) * (R.tallest + 1)

variable {R}

theorem Keeps.lt_cost {A B : Attempt τ ρ ν} {k n : Nat} (h : R.Keeps k A)
    (e : EntersN g n A B) : n < R.cost k A :=
  Nat.lt_of_not_le fun hn => h.run_ne_starved hn (starved_iff.2 ⟨B, e⟩)

/-- Tried again below itself, an expression has something less to read. -/
theorem Keeps.length_lt (hg : ∀ {t s s'}, g.accept t s = some s' → s' <:+ s) {p : Peg τ ρ ν α}
    {s s' : List Char} {n k : Nat} (h : R.Keeps k ⟨p, s⟩)
    (e : EntersN g (n + 1) ⟨p, s⟩ ⟨p, s'⟩) : s'.length < s.length := by
  have hs : s' <:+ s := e.suffix hg
  refine Nat.lt_of_le_of_ne hs.length_le fun hl => ?_
  obtain rfl := hs.eq_of_length hl
  obtain ⟨m, hm, hA⟩ := e.iterate (R.cost k ⟨p, s'⟩)
  exact absurd (h.lt_cost hA) (Nat.not_lt_of_le hm)

variable (R)

/-- Rules entered below each other at one place have falling ranks. -/
theorem rank_lt_of_entersN {r r' : ρ} {s s' : List Char} {n : Nat}
    (e : EntersN g (n + 1) ⟨.rule r, s⟩ ⟨.rule r', s'⟩) :
    s'.length < s.length ∨ R.rank r' < R.rank r := by
  cases e with
  | head hB e =>
    obtain rfl := hB
    obtain ⟨k, hk, hl, hle⟩ := (R.keeps_body r s).entersN e
    have hr : R.rank r' < k := by simpa [isGuarded] using hk.guarded
    rcases Nat.lt_or_eq_of_le hl with hlt | heq
    · exact .inl hlt
    · exact .inr (Nat.lt_of_lt_of_le hr (hle heq))

theorem lt_levels_of_entersN {r : ρ} {s : List Char} {n : Nat} {B : Attempt τ ρ ν}
    (e : EntersN g n ⟨.rule r, s⟩ B) : n < R.levels s.length (R.rank r) := by
  cases e with
  | refl => exact Nat.lt_of_lt_of_le (Nat.succ_pos _) (Nat.le_add_left _ _)
  | head hB e =>
    obtain rfl := hB
    have hn := (R.keeps_body r s).lt_cost e
    have hh := R.height_le r
    simp only [cost, depth] at hn
    rw [levels, Nat.add_mul, Nat.one_mul]
    omega

end Ranking

end AlgebraBatch.Peg
