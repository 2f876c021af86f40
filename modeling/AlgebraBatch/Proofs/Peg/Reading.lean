import AlgebraBatch.Peg.Basic

/-!
# What a parsing expression reads

`Yields g p s x s'`: at the beginning of `s` the expression `p` reads the value `x` and leaves `s'`.
`Refuses g p s`: it is refused there. Both say that some depth of recursion is enough to find out;
more depth never changes what was found (`run_add`), so a text has at most one of the two and one
value. A run goes on from the outcome of a first part to the next one (`Outcome.followedBy`).

`Derives g M p s x s'` is reading as a relation on the operators: a rule reads what `M` says it
reads. With `M` the rules themselves this is `Yields` (`yields_iff`), and a statement on all that
the rules read is proved by `rule_induction`, where the rules that a body enters may be taken to
satisfy it. What every token that is read says of the place before it and the place after it,
expressions say too (`related_of_yields`). For each operator there is one lemma on when it is
refused.
-/

namespace AlgebraBatch.Peg

variable {τ ρ ν α β : Type} {g : Grammar τ ρ ν}

def Yields (g : Grammar τ ρ ν) (p : Peg τ ρ ν α) (s : List Char) (x : α) (s' : List Char) : Prop :=
  ∃ n, run g n p s = .done x s'

def Refuses (g : Grammar τ ρ ν) (p : Peg τ ρ ν α) (s : List Char) : Prop :=
  ∃ n, run g n p s = .fail

/-! ## Outcomes -/

/-- What comes of going on with `f` after what was read, or with `q` where it was refused. -/
def Outcome.followedBy (o : Outcome α) (f : α → List Char → Outcome β) (q : Outcome β) :
    Outcome β :=
  match o with
  | .done x s => f x s
  | .fail => q
  | .starved => .starved

namespace Outcome

variable {o o' : Outcome α} {f f' : α → List Char → Outcome β} {q q' : Outcome β}

theorem followedBy_eq {r : Outcome β} (hr : r ≠ .starved) :
    o.followedBy f q = r ↔ (∃ x s, o = .done x s ∧ f x s = r) ∨ (o = .fail ∧ q = r) := by
  cases o with
  | done x s => simp [followedBy, and_assoc]
  | fail => simp [followedBy]
  | starved => simpa [followedBy] using hr.symm

theorem followedBy_eq_done {y : β} {u : List Char} :
    o.followedBy f q = .done y u ↔
      (∃ x s, o = .done x s ∧ f x s = .done y u) ∨ (o = .fail ∧ q = .done y u) :=
  followedBy_eq nofun

theorem followedBy_eq_fail :
    o.followedBy f q = .fail ↔ (∃ x s, o = .done x s ∧ f x s = .fail) ∨ (o = .fail ∧ q = .fail) :=
  followedBy_eq nofun

theorem followedBy_eq_starved :
    o.followedBy f q = .starved ↔
      o = .starved ∨ (∃ x s, o = .done x s ∧ f x s = .starved) ∨ (o = .fail ∧ q = .starved) := by
  cases o with
  | done x s => simp [followedBy, and_assoc]
  | fail => simp [followedBy]
  | starved => simp [followedBy]

/-- What was found out is kept, if each part keeps what it has found out. -/
theorem followedBy_mono (ho : o ≠ .starved → o' = o)
    (hf : ∀ x s, f x s ≠ .starved → f' x s = f x s) (hq : q ≠ .starved → q' = q) :
    o.followedBy f q ≠ .starved → o'.followedBy f' q' = o.followedBy f q := by
  intro h
  cases o with
  | done x s =>
    rw [ho nofun]
    exact hf x s h
  | fail =>
    rw [ho nofun]
    exact hq h
  | starved => exact absurd rfl h

end Outcome

/-! ## Runs -/

section Run

variable (n : Nat) (s : List Char)

theorem run_seq (a : Peg τ ρ ν α) (b : Peg τ ρ ν β) :
    run g (n + 1) (.seq a b) s = (run g n a s).followedBy
      (fun x s' => (run g n b s').followedBy (fun y s'' => .done (x, y) s'') .fail) .fail := rfl

theorem run_orElse (a b : Peg τ ρ ν α) :
    run g (n + 1) (.orElse a b) s = (run g n a s).followedBy .done (run g n b s) := rfl

theorem run_optional (a : Peg τ ρ ν α) :
    run g (n + 1) (.optional a) s =
      (run g n a s).followedBy (fun x s' => .done (some x) s') (.done none s) := rfl

theorem run_many (a : Peg τ ρ ν α) :
    run g (n + 1) (.many a) s = (run g n a s).followedBy
      (fun x s' => (run g n (.many a) s').followedBy (fun xs s'' => .done (x :: xs) s'') .fail)
      (.done [] s) := by
  rw [run]
  cases run g n a s with
  | done x s' =>
    simp only [Outcome.followedBy]
    cases run g n (.many a) s' <;> rfl
  | fail => rfl
  | starved => rfl

theorem run_map (f : α → β) (a : Peg τ ρ ν α) :
    run g (n + 1) (.map f a) s = (run g n a s).followedBy (fun x s' => .done (f x) s') .fail := rfl

theorem run_spanned (a : Peg τ ρ ν α) :
    run g (n + 1) (.spanned a) s =
      (run g n a s).followedBy (fun x s' => .done (.between s s', x) s') .fail := rfl

end Run

/-! ## Depth -/

/-- What was found out with one depth is found out with the next. -/
theorem run_succ (n : Nat) : ∀ {α : Type} (p : Peg τ ρ ν α) (s : List Char),
    run g n p s ≠ .starved → run g (n + 1) p s = run g n p s := by
  induction n with
  | zero => intro α p s h; exact absurd rfl h
  | succ n ih =>
    intro α p s
    cases p with
    | token t => exact fun _ => rfl
    | rule r => exact ih _ _
    | seq a b =>
      refine Outcome.followedBy_mono (ih a s) (fun x s' => ?_) fun _ => rfl
      exact Outcome.followedBy_mono (ih b s') (fun _ _ _ => rfl) fun _ => rfl
    | orElse a b => exact Outcome.followedBy_mono (ih a s) (fun _ _ _ => rfl) (ih b s)
    | optional a => exact Outcome.followedBy_mono (ih a s) (fun _ _ _ => rfl) fun _ => rfl
    | many a =>
      rw [run_many, run_many]
      refine Outcome.followedBy_mono (ih a s) (fun x s' => ?_) fun _ => rfl
      exact Outcome.followedBy_mono (ih (.many a) s') (fun _ _ _ => rfl) fun _ => rfl
    | map f a => exact Outcome.followedBy_mono (ih a s) (fun _ _ _ => rfl) fun _ => rfl
    | spanned a => exact Outcome.followedBy_mono (ih a s) (fun _ _ _ => rfl) fun _ => rfl

/-- More depth never changes what was found. -/
theorem run_add {p : Peg τ ρ ν α} {s : List Char} {n : Nat} (h : run g n p s ≠ .starved) :
    ∀ k, run g (n + k) p s = run g n p s
  | 0 => rfl
  | k + 1 => by
    have hk := run_add h k
    rw [← Nat.add_assoc, run_succ (n + k) p s (by rw [hk]; exact h), hk]

theorem run_of_le {p : Peg τ ρ ν α} {s : List Char} {n m : Nat} (h : run g n p s ≠ .starved)
    (hnm : n ≤ m) : run g m p s = run g n p s := by
  obtain ⟨k, rfl⟩ := Nat.exists_eq_add_of_le hnm
  exact run_add h k

/-- Two runs that found something out, with the depth of the deeper one. -/
theorem run_both {p : Peg τ ρ ν α} {q : Peg τ ρ ν β} {s t : List Char} {o : Outcome α}
    {o' : Outcome β} (h : ∃ n, run g n p s = o) (h' : ∃ n, run g n q t = o')
    (ho : o ≠ .starved) (ho' : o' ≠ .starved) : ∃ n, run g n p s = o ∧ run g n q t = o' := by
  obtain ⟨n, hn⟩ := h
  obtain ⟨m, hm⟩ := h'
  refine ⟨max n m, ?_, ?_⟩
  · rw [run_of_le (by rw [hn]; exact ho) (Nat.le_max_left n m), hn]
  · rw [run_of_le (by rw [hm]; exact ho') (Nat.le_max_right n m), hm]

theorem Yields.unique {p : Peg τ ρ ν α} {s s₁ s₂ : List Char} {x₁ x₂ : α}
    (h₁ : Yields g p s x₁ s₁) (h₂ : Yields g p s x₂ s₂) : x₁ = x₂ ∧ s₁ = s₂ := by
  obtain ⟨n, e₁, e₂⟩ := run_both h₁ h₂ nofun nofun
  rw [e₁] at e₂
  cases e₂
  exact ⟨rfl, rfl⟩

theorem Yields.not_refuses {p : Peg τ ρ ν α} {s s' : List Char} {x : α}
    (h : Yields g p s x s') : ¬ Refuses g p s := by
  intro h'
  obtain ⟨n, e, e'⟩ := run_both h h' nofun nofun
  rw [e] at e'
  cases e'

/-- A run that is deep enough finds out what the expression reads. -/
theorem run_of_yields {p : Peg τ ρ ν α} {s s' : List Char} {x : α} {n : Nat}
    (h : Yields g p s x s') (hn : run g n p s ≠ .starved) : run g n p s = .done x s' := by
  cases e : run g n p s with
  | done y s₁ =>
    obtain ⟨rfl, rfl⟩ := h.unique ⟨n, e⟩
    rfl
  | fail => exact absurd ⟨n, e⟩ h.not_refuses
  | starved => exact absurd e hn

/-- A run that is deep enough finds out that the expression is refused. -/
theorem run_of_refuses {p : Peg τ ρ ν α} {s : List Char} {n : Nat}
    (h : Refuses g p s) (hn : run g n p s ≠ .starved) : run g n p s = .fail := by
  cases e : run g n p s with
  | done x s₁ => exact absurd h (Yields.not_refuses ⟨n, e⟩)
  | fail => rfl
  | starved => exact absurd e hn

/-! ## Operators -/

/-- Reading over and over: `D` reads one item, and `N` says where there is none. -/
inductive Repeats {α : Type} (D : List Char → α → List Char → Prop) (N : List Char → Prop) :
    List Char → List α → List Char → Prop where
  | nil {s : List Char} : N s → Repeats D N s [] s
  | cons {s s₁ s' : List Char} {x : α} {xs : List α} : D s x s₁ → Repeats D N s₁ xs s' →
      Repeats D N s (x :: xs) s'

/-- Reading, where a rule reads what `M` says. -/
def Derives (g : Grammar τ ρ ν) (M : ρ → List Char → ν → List Char → Prop) :
    {α : Type} → Peg τ ρ ν α → List Char → α → List Char → Prop
  | _, .token t, s, x, s' => g.accept t s = some s' ∧ x = .between s s'
  | _, .rule r, s, x, s' => M r s x s'
  | _, .seq a b, s, x, s' => ∃ s₁, Derives g M a s x.1 s₁ ∧ Derives g M b s₁ x.2 s'
  | _, .orElse a b, s, x, s' => Derives g M a s x s' ∨ Refuses g a s ∧ Derives g M b s x s'
  | _, .optional a, s, x, s' =>
    match x with
    | none => Refuses g a s ∧ s' = s
    | some x => Derives g M a s x s'
  | _, .many a, s, x, s' => Repeats (Derives g M a) (Refuses g a) s x s'
  | _, .map f a, s, x, s' => ∃ y, Derives g M a s y s' ∧ f y = x
  | _, .spanned a, s, x, s' => Derives g M a s x.2 s' ∧ x.1 = .between s s'

/-- The rules of the grammar as a relation. -/
abbrev rules (g : Grammar τ ρ ν) : ρ → List Char → ν → List Char → Prop :=
  fun r s x s' => Yields g (.rule r) s x s'

/-- A run is a derivation in which every rule keeps to `M`, if the body of a rule does. -/
theorem derives_of_run {M : ρ → List Char → ν → List Char → Prop}
    (hM : ∀ n r s x s', run g n (g.body r) s = .done x s' → Derives g M (g.body r) s x s' →
      M r s x s') (n : Nat) :
    ∀ {α : Type} {p : Peg τ ρ ν α} {s s' : List Char} {x : α},
      run g n p s = .done x s' → Derives g M p s x s' := by
  induction n with
  | zero => intro α p s s' x h; cases h
  | succ n ih =>
    intro α p s s' x h
    cases p with
    | token t =>
      rw [run] at h
      split at h
      · next e => cases h; exact ⟨e, rfl⟩
      · cases h
    | rule r => exact hM n r s x s' h (ih h)
    | seq a b =>
      rw [run_seq, Outcome.followedBy_eq_done] at h
      obtain ⟨x', s₁, ha, h⟩ | ⟨-, ⟨⟩⟩ := h
      obtain ⟨y', s₂, hb, ⟨⟩⟩ | ⟨-, ⟨⟩⟩ := Outcome.followedBy_eq_done.1 h
      exact ⟨s₁, ih ha, ih hb⟩
    | orElse a b =>
      rw [run_orElse, Outcome.followedBy_eq_done] at h
      obtain ⟨x', s₁, ha, ⟨⟩⟩ | ⟨ha, hb⟩ := h
      · exact .inl (ih ha)
      · exact .inr ⟨⟨n, ha⟩, ih hb⟩
    | optional a =>
      rw [run_optional, Outcome.followedBy_eq_done] at h
      obtain ⟨x', s₁, ha, ⟨⟩⟩ | ⟨ha, ⟨⟩⟩ := h
      · exact ih (p := a) ha
      · exact ⟨⟨n, ha⟩, rfl⟩
    | many a =>
      rw [run_many, Outcome.followedBy_eq_done] at h
      obtain ⟨x', s₁, ha, h⟩ | ⟨ha, ⟨⟩⟩ := h
      · obtain ⟨xs, s₂, hb, ⟨⟩⟩ | ⟨-, ⟨⟩⟩ := Outcome.followedBy_eq_done.1 h
        exact .cons (ih ha) (ih hb)
      · exact .nil ⟨n, ha⟩
    | map f a =>
      rw [run_map, Outcome.followedBy_eq_done] at h
      obtain ⟨y, s₁, ha, ⟨⟩⟩ | ⟨-, ⟨⟩⟩ := h
      exact ⟨y, ih ha, rfl⟩
    | spanned a =>
      rw [run_spanned, Outcome.followedBy_eq_done] at h
      obtain ⟨y, s₁, ha, ⟨⟩⟩ | ⟨-, ⟨⟩⟩ := h
      exact ⟨ih ha, rfl⟩

/-- What is read is derived with any `M` that holds of what the body of a rule derives with it. -/
theorem derives_of_yields {M : ρ → List Char → ν → List Char → Prop}
    (hM : ∀ r s x s', Derives g M (g.body r) s x s' → M r s x s') {p : Peg τ ρ ν α}
    {s s' : List Char} {x : α} (h : Yields g p s x s') : Derives g M p s x s' := by
  obtain ⟨n, h⟩ := h
  exact derives_of_run (fun _ r s x s' _ hd => hM r s x s' hd) n h

theorem yields_rule {r : ρ} {s s' : List Char} {x : ν} :
    Yields g (.rule r) s x s' ↔ Yields g (g.body r) s x s' := by
  constructor
  · rintro ⟨n, h⟩
    cases n with
    | zero => cases h
    | succ n => exact ⟨n, h⟩
  · rintro ⟨n, h⟩
    exact ⟨n + 1, h⟩

theorem yields_many {a : Peg τ ρ ν α} {s s' : List Char} {xs : List α}
    (h : Repeats (Yields g a) (Refuses g a) s xs s') : Yields g (.many a) s xs s' := by
  induction h with
  | nil ha =>
    obtain ⟨n, ha⟩ := ha
    exact ⟨n + 1, by rw [run, ha]⟩
  | cons ha _ ih =>
    obtain ⟨n, ea, eb⟩ := run_both ha ih nofun nofun
    exact ⟨n + 1, by rw [run, ea]; simp only [eb]⟩

theorem Repeats.imp {D E : List Char → α → List Char → Prop} {N : List Char → Prop}
    (hDE : ∀ {s x s'}, D s x s' → E s x s') {s s' : List Char} {xs : List α}
    (h : Repeats D N s xs s') : Repeats E N s xs s' := by
  induction h with
  | nil hn => exact .nil hn
  | cons hd _ ih => exact .cons (hDE hd) ih

theorem yields_of_derives {p : Peg τ ρ ν α} : ∀ {s s' : List Char} {x : α},
    Derives g (rules g) p s x s' → Yields g p s x s' := by
  induction p with
  | token t =>
    rintro s s' x ⟨h, rfl⟩
    exact ⟨1, by rw [run, h]⟩
  | rule r => exact fun h => h
  | seq a b iha ihb =>
    rintro s s' x ⟨s₁, ha, hb⟩
    obtain ⟨n, ea, eb⟩ := run_both (iha ha) (ihb hb) nofun nofun
    exact ⟨n + 1, by rw [run, ea]; simp only [eb]⟩
  | orElse a b iha ihb =>
    rintro s s' x (ha | ⟨ha, hb⟩)
    · obtain ⟨n, ha⟩ := iha ha
      exact ⟨n + 1, by rw [run, ha]⟩
    · obtain ⟨n, ea, eb⟩ := run_both ha (ihb hb) nofun nofun
      exact ⟨n + 1, by rw [run, ea]; exact eb⟩
  | optional a ih =>
    intro s s' x h
    cases x with
    | none =>
      obtain ⟨⟨n, ha⟩, rfl⟩ := h
      exact ⟨n + 1, by rw [run, ha]⟩
    | some x =>
      obtain ⟨n, ha⟩ := ih h
      exact ⟨n + 1, by rw [run, ha]⟩
  | many a ih => exact fun h => yields_many (h.imp ih)
  | map f a ih =>
    rintro s s' x ⟨y, ha, rfl⟩
    obtain ⟨n, ha⟩ := ih ha
    exact ⟨n + 1, by rw [run, ha]⟩
  | spanned a ih =>
    rintro s s' ⟨q, x⟩ ⟨ha, hq⟩
    obtain rfl : q = .between s s' := hq
    obtain ⟨n, ha⟩ := ih ha
    exact ⟨n + 1, by rw [run, ha]⟩

theorem yields_iff {p : Peg τ ρ ν α} {s s' : List Char} {x : α} :
    Yields g p s x s' ↔ Derives g (rules g) p s x s' :=
  ⟨fun ⟨n, h⟩ => derives_of_run (fun n _ _ _ _ h _ => ⟨n + 1, h⟩) n h, yields_of_derives⟩

theorem yields_rule_iff {r : ρ} {s s' : List Char} {x : ν} :
    Yields g (.rule r) s x s' ↔ Derives g (rules g) (g.body r) s x s' :=
  yields_rule.trans yields_iff

/-- Induction on how rules read: `motive` holds of what a rule reads if it holds of what the rules
read that its body enters. -/
theorem rule_induction {motive : ρ → List Char → ν → List Char → Prop}
    (step : ∀ r s x s',
      Derives g (fun r s x s' => Yields g (.rule r) s x s' ∧ motive r s x s') (g.body r) s x s' →
        motive r s x s')
    {r : ρ} {s s' : List Char} {x : ν} (h : Yields g (.rule r) s x s') : motive r s x s' := by
  obtain ⟨n, h⟩ := yields_rule.1 h
  exact step r s x s'
    (derives_of_run (fun n r s x s' h hd => ⟨⟨n + 1, h⟩, step r s x s' hd⟩) n h)

/-! ## Places -/

/-- The place where an expression begins and the one where it ends are related, if this is so for
tokens and for rules, and what is read piece by piece is related as a whole. -/
theorem related_of_derives {R : List Char → List Char → Prop} (hrefl : ∀ s, R s s)
    (htrans : ∀ {s s₁ s'}, R s s₁ → R s₁ s' → R s s')
    (hg : ∀ {t s s'}, g.accept t s = some s' → R s s')
    {M : ρ → List Char → ν → List Char → Prop} (hM : ∀ {r s x s'}, M r s x s' → R s s')
    {p : Peg τ ρ ν α} : ∀ {s s' : List Char} {x : α}, Derives g M p s x s' → R s s' := by
  induction p with
  | token t => exact fun h => hg h.1
  | rule r => exact hM
  | seq a b iha ihb =>
    rintro s s' x ⟨s₁, ha, hb⟩
    exact htrans (iha ha) (ihb hb)
  | orElse a b iha ihb =>
    rintro s s' x (ha | ⟨-, hb⟩)
    · exact iha ha
    · exact ihb hb
  | optional a ih =>
    intro s s' x h
    cases x with
    | none => exact h.2 ▸ hrefl s'
    | some x => exact ih h
  | many a ih =>
    intro s s' xs h
    induction h with
    | nil _ => exact hrefl _
    | cons ha _ hxs => exact htrans (ih ha) hxs
  | map f a ih =>
    rintro s s' x ⟨y, ha, -⟩
    exact ih ha
  | spanned a ih =>
    rintro s s' x ⟨ha, -⟩
    exact ih ha

theorem related_of_yields {R : List Char → List Char → Prop} (hrefl : ∀ s, R s s)
    (htrans : ∀ {s s₁ s'}, R s s₁ → R s₁ s' → R s s')
    (hg : ∀ {t s s'}, g.accept t s = some s' → R s s') {p : Peg τ ρ ν α} {s s' : List Char} {x : α}
    (h : Yields g p s x s') : R s s' :=
  related_of_derives (M := fun _ s _ s' => R s s') hrefl htrans hg id
    (derives_of_yields (fun _ _ _ _ hd => related_of_derives hrefl htrans hg id hd) h)

/-! ## Refusal -/

section Refusal

variable {s : List Char}

theorem refuses_token {t : τ} : Refuses g (.token t) s ↔ g.accept t s = none := by
  constructor
  · rintro ⟨n, h⟩
    cases n with
    | zero => cases h
    | succ n =>
      rw [run] at h
      split at h
      · cases h
      · assumption
  · intro h
    exact ⟨1, by rw [run, h]⟩

theorem refuses_rule {r : ρ} : Refuses g (.rule r) s ↔ Refuses g (g.body r) s := by
  constructor
  · rintro ⟨n, h⟩
    cases n with
    | zero => cases h
    | succ n => exact ⟨n, h⟩
  · rintro ⟨n, h⟩
    exact ⟨n + 1, h⟩

theorem refuses_seq {a : Peg τ ρ ν α} {b : Peg τ ρ ν β} :
    Refuses g (.seq a b) s ↔
      Refuses g a s ∨ ∃ x s₁, Yields g a s x s₁ ∧ Refuses g b s₁ := by
  constructor
  · rintro ⟨_ | n, h⟩
    · cases h
    rw [run_seq, Outcome.followedBy_eq_fail] at h
    obtain ⟨x, s₁, ha, h⟩ | ⟨ha, -⟩ := h
    · obtain ⟨_, _, -, ⟨⟩⟩ | ⟨hb, -⟩ := Outcome.followedBy_eq_fail.1 h
      exact .inr ⟨x, s₁, ⟨n, ha⟩, ⟨n, hb⟩⟩
    · exact .inl ⟨n, ha⟩
  · rintro (⟨n, ha⟩ | ⟨x, s₁, ha, hb⟩)
    · exact ⟨n + 1, by rw [run, ha]⟩
    · obtain ⟨n, ea, eb⟩ := run_both ha hb nofun nofun
      exact ⟨n + 1, by rw [run, ea]; simp only [eb]⟩

theorem refuses_orElse {a b : Peg τ ρ ν α} :
    Refuses g (.orElse a b) s ↔ Refuses g a s ∧ Refuses g b s := by
  constructor
  · rintro ⟨_ | n, h⟩
    · cases h
    rw [run_orElse, Outcome.followedBy_eq_fail] at h
    obtain ⟨_, _, -, ⟨⟩⟩ | ⟨ha, hb⟩ := h
    exact ⟨⟨n, ha⟩, ⟨n, hb⟩⟩
  · rintro ⟨ha, hb⟩
    obtain ⟨n, ea, eb⟩ := run_both ha hb nofun nofun
    exact ⟨n + 1, by rw [run, ea]; exact eb⟩

theorem refuses_map {f : α → β} {a : Peg τ ρ ν α} :
    Refuses g (.map f a) s ↔ Refuses g a s := by
  constructor
  · rintro ⟨_ | n, h⟩
    · cases h
    rw [run_map, Outcome.followedBy_eq_fail] at h
    obtain ⟨_, _, -, ⟨⟩⟩ | ⟨ha, -⟩ := h
    exact ⟨n, ha⟩
  · rintro ⟨n, h⟩
    exact ⟨n + 1, by rw [run, h]⟩

theorem refuses_spanned {a : Peg τ ρ ν α} :
    Refuses g (.spanned a) s ↔ Refuses g a s := by
  constructor
  · rintro ⟨_ | n, h⟩
    · cases h
    rw [run_spanned, Outcome.followedBy_eq_fail] at h
    obtain ⟨_, _, -, ⟨⟩⟩ | ⟨ha, -⟩ := h
    exact ⟨n, ha⟩
  · rintro ⟨n, h⟩
    exact ⟨n + 1, by rw [run, h]⟩

/-- Where an item is refused, reading over and over stops with what it has. -/
theorem not_refuses_many {a : Peg τ ρ ν α} : ¬ Refuses g (.many a) s := by
  rintro ⟨n, h⟩
  induction n generalizing s with
  | zero => cases h
  | succ n ih =>
    rw [run_many, Outcome.followedBy_eq_fail] at h
    obtain ⟨x, s₁, -, h⟩ | ⟨-, ⟨⟩⟩ := h
    obtain ⟨_, _, -, ⟨⟩⟩ | ⟨hm, -⟩ := Outcome.followedBy_eq_fail.1 h
    exact ih hm

end Refusal

end AlgebraBatch.Peg
