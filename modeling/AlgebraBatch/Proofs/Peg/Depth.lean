import AlgebraBatch.Proofs.Peg.Descent

/-!
# How deep a reading goes

A rule that is entered again before anything is read would never end. A `Ranking` of a grammar rules
this out: every rule has a rank, a rule may enter another one at the same place only if that one has
a smaller rank, and the body of a repetition reads at least one character. Then every step from an
attempt to one that it enters costs something (`Keeps.descends`), so the depth of a reading is
bounded (`Keeps.run_ne_starved`).
-/

namespace AlgebraBatch.Peg

variable {τ ρ ν α : Type}

/-- The expression reads at least one character whenever it is read, if the tokens in `solid` do. -/
def isSolid (solid : τ → Bool) : {α : Type} → Peg τ ρ ν α → Bool
  | _, .token t => solid t
  | _, .rule _ => false
  | _, .seq a b => a.isSolid solid || b.isSolid solid
  | _, .orElse a b => a.isSolid solid && b.isSolid solid
  | _, .optional _ => false
  | _, .many _ => false
  | _, .map _ a => a.isSolid solid
  | _, .spanned a => a.isSolid solid

/-- A rule that is entered before anything is read has a rank below `k`, every other one a rank
below `top`, and every repetition repeats something solid. -/
def isGuarded (solid : τ → Bool) (rank : ρ → Nat) (top : Nat) :
    Nat → {α : Type} → Peg τ ρ ν α → Bool
  | _, _, .token _ => true
  | k, _, .rule r => rank r < k
  | k, _, .seq a b =>
    a.isGuarded solid rank top k &&
      b.isGuarded solid rank top (if a.isSolid solid then top else k)
  | k, _, .orElse a b => a.isGuarded solid rank top k && b.isGuarded solid rank top k
  | k, _, .optional a => a.isGuarded solid rank top k
  | k, _, .many a => a.isSolid solid && a.isGuarded solid rank top k
  | k, _, .map _ a => a.isGuarded solid rank top k
  | k, _, .spanned a => a.isGuarded solid rank top k

theorem height_pos (p : Peg τ ρ ν α) : 0 < p.height := by
  cases p <;> exact Nat.succ_pos _

theorem isGuarded_mono {solid : τ → Bool} {rank : ρ → Nat} {top k k' : Nat} (hk : k ≤ k')
    {p : Peg τ ρ ν α} :
    p.isGuarded solid rank top k = true → p.isGuarded solid rank top k' = true := by
  induction p with
  | token t => exact fun h => h
  | rule r =>
    intro h
    simp only [isGuarded, decide_eq_true_eq] at h ⊢
    omega
  | seq a b iha ihb =>
    simp only [isGuarded, Bool.and_eq_true]
    rintro ⟨ha, hb⟩
    refine ⟨iha ha, ?_⟩
    cases hs : a.isSolid solid with
    | true => rwa [hs] at hb
    | false =>
      rw [hs] at hb
      exact ihb hb
  | orElse a b iha ihb =>
    simp only [isGuarded, Bool.and_eq_true]
    exact fun h => ⟨iha h.1, ihb h.2⟩
  | optional a ih => exact ih
  | many a ih =>
    simp only [isGuarded, Bool.and_eq_true]
    exact fun h => ⟨h.1, ih h.2⟩
  | map f a ih => exact ih
  | spanned a ih => exact ih

structure Ranking (g : Grammar τ ρ ν) where
  /-- Tokens that read at least one character. -/
  solid : τ → Bool
  rank : ρ → Nat
  /-- Above every rank. -/
  top : Nat
  /-- The greatest height of a rule's body. -/
  tallest : Nat
  accept_le : ∀ {t s s'}, g.accept t s = some s' → s'.length ≤ s.length
  accept_lt : ∀ {t s s'}, solid t = true → g.accept t s = some s' → s'.length < s.length
  rank_lt : ∀ r, rank r < top
  guarded : ∀ r, (g.body r).isGuarded solid rank top (rank r) = true
  height_le : ∀ r, (g.body r).height ≤ tallest

namespace Ranking

variable {g : Grammar τ ρ ν} (R : Ranking g)

/-- How much deeper a reading can go at one place. -/
def stride : Nat := (R.top + 1) * (R.tallest + 1)

include R in
/-- Nothing is put back into the text. -/
theorem length_le_of_yields {p : Peg τ ρ ν α} {s s' : List Char} {x : α} (h : Yields g p s x s') :
    s'.length ≤ s.length :=
  related_of_yields (R := fun s s' => s'.length ≤ s.length) (fun _ => Nat.le_refl _)
    (fun h h' => Nat.le_trans h' h) R.accept_le h

/-- What is solid takes something out of the text. -/
theorem length_lt_of_yields {p : Peg τ ρ ν α} : ∀ {s s' : List Char} {x : α},
    p.isSolid R.solid = true → Yields g p s x s' → s'.length < s.length := by
  induction p with
  | token t => exact fun ht h => R.accept_lt ht (yields_iff.1 h).1
  | rule r => exact nofun
  | seq a b iha ihb =>
    intro s s' x hs h
    obtain ⟨s₁, ha, hb⟩ := yields_iff.1 h
    have ha := yields_iff.2 ha
    have hb := yields_iff.2 hb
    obtain hs | hs := (Bool.or_eq_true _ _).mp hs
    · exact Nat.lt_of_le_of_lt (R.length_le_of_yields hb) (iha hs ha)
    · exact Nat.lt_of_lt_of_le (ihb hs hb) (R.length_le_of_yields ha)
  | orElse a b iha ihb =>
    intro s s' x hs h
    obtain ⟨hsa, hsb⟩ := (Bool.and_eq_true _ _).mp hs
    obtain ha | ⟨-, hb⟩ := yields_iff.1 h
    · exact iha hsa (yields_iff.2 ha)
    · exact ihb hsb (yields_iff.2 hb)
  | optional a => exact nofun
  | many a => exact nofun
  | map f a ih =>
    intro s s' x hs h
    obtain ⟨y, ha, -⟩ := yields_iff.1 h
    exact ih hs (yields_iff.2 ha)
  | spanned a ih => exact fun hs h => ih hs (yields_iff.2 (yields_iff.1 h).1)

/-- The depth that is enough for an expression of this height that enters rules below `k`. -/
def depth (s : List Char) (k height : Nat) : Nat :=
  s.length * R.stride + k * (R.tallest + 1) + height

theorem depth_mono {s s' : List Char} {k h h' : Nat} (hs : s'.length ≤ s.length) (hh : h' ≤ h) :
    R.depth s' k h' ≤ R.depth s k h := by
  have := Nat.mul_le_mul_right R.stride hs
  unfold depth
  omega

/-- A rule of a smaller rank has room for its body. -/
theorem depth_rule (r : ρ) {s : List Char} {k : Nat} (hk : R.rank r < k) :
    R.depth s (R.rank r) (g.body r).height < R.depth s k 1 := by
  have h₁ := R.height_le r
  have h₂ := Nat.mul_le_mul_right (R.tallest + 1) (show R.rank r + 1 ≤ k from hk)
  rw [Nat.add_mul, Nat.one_mul] at h₂
  unfold depth
  omega

/-- After a character has been read there is room for every rule. -/
theorem depth_shorter {s s' : List Char} {k h : Nat} (hs : s'.length < s.length)
    (hh : h ≤ R.tallest + 1) : R.depth s' R.top h ≤ R.depth s k 0 := by
  have h₁ := Nat.mul_le_mul_right R.stride (show s'.length + 1 ≤ s.length from hs)
  rw [Nat.add_mul, Nat.one_mul] at h₁
  have h₂ : R.stride = R.top * (R.tallest + 1) + (R.tallest + 1) := by
    rw [stride, Nat.add_mul, Nat.one_mul]
  unfold depth
  omega

/-- An attempt that enters rules below `k` only, until something has been read. -/
structure Keeps (k : Nat) (A : Attempt τ ρ ν) : Prop where
  guarded : A.peg.isGuarded R.solid R.rank R.top k = true
  height_le : A.peg.height ≤ R.tallest + 1
  le_top : k ≤ R.top

theorem keeps_body (r : ρ) (s : List Char) : R.Keeps (R.rank r) ⟨g.body r, s⟩ :=
  ⟨R.guarded r, Nat.le_succ_of_le (R.height_le r), Nat.le_of_lt (R.rank_lt r)⟩

/-- The depth that is enough for an attempt that enters rules below `k`. -/
def cost (k : Nat) (A : Attempt τ ρ ν) : Nat := R.depth A.text k A.peg.height

/-- From an attempt that enters rules below `k` to one that costs less, and that enters no rule from
`k` on where it stands at the same place. -/
structure Descends (k : Nat) (A : Attempt τ ρ ν) (k' : Nat) (B : Attempt τ ρ ν) : Prop where
  keeps : R.Keeps k' B
  cost_lt : R.cost k' B < R.cost k A
  length_le : B.text.length ≤ A.text.length
  level_le : B.text.length = A.text.length → k' ≤ k

variable {R}

/-- A part that is tried at the level of the whole. -/
theorem Keeps.part {k : Nat} {A B : Attempt τ ρ ν} (h : R.Keeps k A)
    (hg : B.peg.isGuarded R.solid R.rank R.top k = true) (hh : B.peg.height < A.peg.height)
    (hs : B.text.length ≤ A.text.length) : R.Descends k A k B where
  keeps := ⟨hg, Nat.le_of_lt (Nat.lt_of_lt_of_le hh h.height_le), h.le_top⟩
  cost_lt := by
    have := R.depth_mono (k := k) hs (Nat.le_refl B.peg.height)
    unfold cost
    unfold depth at this ⊢
    omega
  length_le := hs
  level_le _ := Nat.le_refl k

/-- A part that is tried after a character has been read: every rule may be entered again. -/
theorem Descends.later {k : Nat} {A B : Attempt τ ρ ν}
    (hg : B.peg.isGuarded R.solid R.rank R.top R.top = true) (hh : B.peg.height ≤ R.tallest + 1)
    (hs : B.text.length < A.text.length) : R.Descends k A R.top B where
  keeps := ⟨hg, hh, Nat.le_refl _⟩
  cost_lt := by
    have hd := R.depth_shorter (k := k) hs hh
    have hA := A.peg.height_pos
    unfold cost
    unfold depth at hd ⊢
    omega
  length_le := Nat.le_of_lt hs
  level_le h := absurd h (Nat.ne_of_lt hs)

/-- What is entered from an attempt that keeps to the ranking keeps to it and costs less. -/
theorem Keeps.descends {k : Nat} {A B : Attempt τ ρ ν} (h : R.Keeps k A) (e : Enters g A B) :
    ∃ k', R.Descends k A k' B := by
  obtain ⟨p, s⟩ := A
  have hp := h.guarded
  have ht := h.height_le
  cases p with
  | token t => exact e.elim
  | rule r =>
    obtain rfl := e
    have hr : R.rank r < k := by simpa [isGuarded] using hp
    exact ⟨R.rank r, R.keeps_body r s, R.depth_rule r hr, Nat.le_refl _, fun _ => Nat.le_of_lt hr⟩
  | seq a b =>
    simp only [isGuarded, Bool.and_eq_true] at hp
    simp only [height] at ht
    obtain rfl | ⟨x, s', ha, rfl⟩ := e
    · exact ⟨k, h.part hp.1 (by simp only [height]; omega) (Nat.le_refl _)⟩
    · cases hs : a.isSolid R.solid with
      | true =>
        rw [hs, if_pos rfl] at hp
        exact ⟨R.top, .later hp.2 (show b.height ≤ _ by omega) (R.length_lt_of_yields hs ha)⟩
      | false =>
        rw [hs, if_neg Bool.false_ne_true] at hp
        exact ⟨k, h.part hp.2 (by simp only [height]; omega) (R.length_le_of_yields ha)⟩
  | orElse a b =>
    simp only [isGuarded, Bool.and_eq_true] at hp
    obtain rfl | ⟨-, rfl⟩ := e
    · exact ⟨k, h.part hp.1 (by simp only [height]; omega) (Nat.le_refl _)⟩
    · exact ⟨k, h.part hp.2 (by simp only [height]; omega) (Nat.le_refl _)⟩
  | optional a =>
    obtain rfl := e
    exact ⟨k, h.part hp (Nat.lt_succ_self _) (Nat.le_refl _)⟩
  | many a =>
    simp only [isGuarded, Bool.and_eq_true] at hp
    obtain rfl | ⟨x, s', ha, rfl⟩ := e
    · exact ⟨k, h.part hp.2 (Nat.lt_succ_self _) (Nat.le_refl _)⟩
    -- the repetition itself is tried again, and its body has read something
    · refine ⟨R.top, .later ?_ ht (R.length_lt_of_yields hp.1 ha)⟩
      simp only [isGuarded, hp.1, isGuarded_mono h.le_top hp.2, Bool.and_self]
  | map f a =>
    obtain rfl := e
    exact ⟨k, h.part hp (Nat.lt_succ_self _) (Nat.le_refl _)⟩
  | spanned a =>
    obtain rfl := e
    exact ⟨k, h.part hp (Nat.lt_succ_self _) (Nat.le_refl _)⟩

theorem Keeps.run_ne_starved {n k : Nat} {A : Attempt τ ρ ν} (h : R.Keeps k A)
    (hn : R.cost k A ≤ n) : run g n A.peg A.text ≠ .starved := by
  induction n generalizing k A with
  | zero =>
    have := A.peg.height_pos
    unfold cost depth at hn
    omega
  | succ n ih =>
    intro hs
    obtain ⟨B, hB, hs⟩ := starved_succ_iff.1 hs
    obtain ⟨k', d⟩ := h.descends hB
    have := d.cost_lt
    exact ih d.keeps (by omega) hs

/-- Further down, too, an attempt at the same place enters no rule from `k` on. -/
theorem Keeps.entersN {n k : Nat} {A B : Attempt τ ρ ν} (h : R.Keeps k A) (e : EntersN g n A B) :
    ∃ k', R.Keeps k' B ∧ B.text.length ≤ A.text.length ∧
      (B.text.length = A.text.length → k' ≤ k) := by
  induction e generalizing k with
  | refl A => exact ⟨k, h, Nat.le_refl _, fun _ => Nat.le_refl _⟩
  | head hA _ ih =>
    obtain ⟨k₁, d⟩ := h.descends hA
    obtain ⟨k', hk, hl, hle⟩ := ih d.keeps
    have hl₁ := d.length_le
    refine ⟨k', hk, by omega, fun hs => ?_⟩
    exact Nat.le_trans (hle (by omega)) (d.level_le (by omega))

end Ranking

end AlgebraBatch.Peg
