import AlgebraBatch.Proofs.Peg.Reading

/-!
# How the attempts of a reading follow from each other

To read an expression at a place is an `Attempt`. `Enters g A B`: while `A` is evaluated, `B` is
tried as one of its parts, at the place where that part begins. `EntersN g n A B` goes `n` steps
down, so `B` is tried while `A` and the attempts between them are still being evaluated. These steps
are the recursion of `run`: a depth of `n` is too small exactly if there are `n` steps to go
(`starved_iff`).
-/

namespace AlgebraBatch.Peg

variable {τ ρ ν : Type}

/-- An expression that is tried, and the text from the place where it is tried to the end. -/
structure Attempt (τ ρ ν : Type) where
  {α : Type}
  peg : Peg τ ρ ν α
  text : List Char

/-- The second attempt is made for a part of the first. -/
def Enters (g : Grammar τ ρ ν) : Attempt τ ρ ν → Attempt τ ρ ν → Prop
  | ⟨.token _, _⟩, _ => False
  | ⟨.rule r, s⟩, B => B = ⟨g.body r, s⟩
  | ⟨.seq a b, s⟩, B => B = ⟨a, s⟩ ∨ ∃ x s', Yields g a s x s' ∧ B = ⟨b, s'⟩
  | ⟨.orElse a b, s⟩, B => B = ⟨a, s⟩ ∨ Refuses g a s ∧ B = ⟨b, s⟩
  | ⟨.optional a, s⟩, B => B = ⟨a, s⟩
  | ⟨.many a, s⟩, B => B = ⟨a, s⟩ ∨ ∃ x s', Yields g a s x s' ∧ B = ⟨.many a, s'⟩
  | ⟨.map _ a, s⟩, B => B = ⟨a, s⟩
  | ⟨.spanned a, s⟩, B => B = ⟨a, s⟩

/-- The second attempt is made `n` steps below the first. -/
inductive EntersN (g : Grammar τ ρ ν) : Nat → Attempt τ ρ ν → Attempt τ ρ ν → Prop where
  | refl (A : Attempt τ ρ ν) : EntersN g 0 A A
  | head {n : Nat} {A B C : Attempt τ ρ ν} : Enters g A B → EntersN g n B C →
      EntersN g (n + 1) A C

namespace EntersN

variable {g : Grammar τ ρ ν} {A B C : Attempt τ ρ ν} {n m : Nat}

theorem trans (h : EntersN g n A B) (h' : EntersN g m B C) : EntersN g (n + m) A C := by
  induction h with
  | refl A => rwa [Nat.zero_add]
  | @head n A B' B hAB _ ih =>
    rw [Nat.add_right_comm]
    exact .head hAB (ih h')

/-- An attempt that is made again below itself goes down without end. -/
theorem iterate (h : EntersN g (n + 1) A A) : ∀ m, ∃ k, m ≤ k ∧ EntersN g k A A
  | 0 => ⟨0, Nat.le_refl 0, .refl A⟩
  | m + 1 => by
    obtain ⟨k, hk, hA⟩ := iterate h m
    exact ⟨n + 1 + k, by omega, h.trans hA⟩

end EntersN

variable {g : Grammar τ ρ ν}

/-- What goes on after a first part starves with that part, after what it yields, or after its
refusal. -/
theorem followedBy_starved_iff {α β : Type} {a : Peg τ ρ ν α} {s : List Char} {n : Nat}
    {f : α → List Char → Outcome β} {q : Outcome β} :
    (run g n a s).followedBy f q = .starved ↔
      run g n a s = .starved ∨ (∃ x s', Yields g a s x s' ∧ f x s' = .starved) ∨
        Refuses g a s ∧ q = .starved := by
  rw [Outcome.followedBy_eq_starved]
  constructor
  · rintro (ha | ⟨x, s', ha, h⟩ | ⟨ha, h⟩)
    · exact .inl ha
    · exact .inr (.inl ⟨x, s', ⟨n, ha⟩, h⟩)
    · exact .inr (.inr ⟨⟨n, ha⟩, h⟩)
  · by_cases hn : run g n a s = .starved
    · exact fun _ => .inl hn
    · rintro (ha | ⟨x, s', ha, h⟩ | ⟨ha, h⟩)
      · exact .inl ha
      · exact .inr (.inl ⟨x, s', run_of_yields ha hn, h⟩)
      · exact .inr (.inr ⟨run_of_refuses ha hn, h⟩)

/-- A run starves one step deeper than the parts that it enters. -/
theorem starved_succ_iff {n : Nat} {A : Attempt τ ρ ν} :
    run g (n + 1) A.peg A.text = .starved ↔
      ∃ B, Enters g A B ∧ run g n B.peg B.text = .starved := by
  obtain ⟨p, s⟩ := A
  cases p with
  | token t =>
    show run g (n + 1) (.token t) s = .starved ↔ _
    rw [run]
    constructor
    · intro h
      split at h <;> cases h
    · rintro ⟨B, hB, -⟩
      exact hB.elim
  | rule r => exact ⟨fun h => ⟨_, rfl, h⟩, by rintro ⟨_, rfl, h⟩; exact h⟩
  | seq a b =>
    rw [run_seq, followedBy_starved_iff]
    simp only [Outcome.followedBy_eq_starved, reduceCtorEq, and_false, exists_false, or_false]
    constructor
    · rintro (ha | ⟨x, s', ha, hb⟩)
      · exact ⟨⟨a, s⟩, .inl rfl, ha⟩
      · exact ⟨⟨b, s'⟩, .inr ⟨x, s', ha, rfl⟩, hb⟩
    · rintro ⟨_, rfl | ⟨x, s', ha, rfl⟩, h⟩
      · exact .inl h
      · exact .inr ⟨x, s', ha, h⟩
  | orElse a b =>
    simp only [run_orElse, followedBy_starved_iff, reduceCtorEq, and_false, exists_false, false_or]
    constructor
    · rintro (ha | ⟨ha, hb⟩)
      · exact ⟨⟨a, s⟩, .inl rfl, ha⟩
      · exact ⟨⟨b, s⟩, .inr ⟨ha, rfl⟩, hb⟩
    · rintro ⟨_, rfl | ⟨ha, rfl⟩, h⟩
      · exact .inl h
      · exact .inr ⟨ha, h⟩
  | optional a =>
    simp only [run_optional, followedBy_starved_iff, reduceCtorEq, and_false, exists_false,
      or_false]
    exact ⟨fun h => ⟨⟨a, s⟩, rfl, h⟩, by rintro ⟨_, rfl, h⟩; exact h⟩
  | many a =>
    rw [run_many, followedBy_starved_iff]
    simp only [Outcome.followedBy_eq_starved, reduceCtorEq, and_false, exists_false, or_false]
    constructor
    · rintro (ha | ⟨x, s', ha, hb⟩)
      · exact ⟨⟨a, s⟩, .inl rfl, ha⟩
      · exact ⟨⟨.many a, s'⟩, .inr ⟨x, s', ha, rfl⟩, hb⟩
    · rintro ⟨_, rfl | ⟨x, s', ha, rfl⟩, h⟩
      · exact .inl h
      · exact .inr ⟨x, s', ha, h⟩
  | map f a =>
    simp only [run_map, followedBy_starved_iff, reduceCtorEq, and_false, exists_false, or_false]
    exact ⟨fun h => ⟨⟨a, s⟩, rfl, h⟩, by rintro ⟨_, rfl, h⟩; exact h⟩
  | spanned a =>
    simp only [run_spanned, followedBy_starved_iff, reduceCtorEq, and_false, exists_false, or_false]
    exact ⟨fun h => ⟨⟨a, s⟩, rfl, h⟩, by rintro ⟨_, rfl, h⟩; exact h⟩

/-- A depth is too small exactly if the attempts go down that far. -/
theorem starved_iff {n : Nat} : ∀ {A : Attempt τ ρ ν},
    run g n A.peg A.text = .starved ↔ ∃ B, EntersN g n A B := by
  induction n with
  | zero => exact fun {A} => ⟨fun _ => ⟨A, .refl A⟩, fun _ => rfl⟩
  | succ n ih =>
    intro A
    rw [starved_succ_iff]
    constructor
    · rintro ⟨B, hB, h⟩
      obtain ⟨C, hC⟩ := ih.1 h
      exact ⟨C, .head hB hC⟩
    · rintro ⟨C, hC⟩
      cases hC with
      | head hB h => exact ⟨_, hB, ih.2 ⟨C, h⟩⟩

end AlgebraBatch.Peg
