import AlgebraBatch.Proofs.Peg.Reading
import Mathlib.Order.Bounds.Basic

/-!
# Refused tokens

`Fails g p s t u`: while `p` is tried at `s`, the token `t` is tried at `u` and refused there. This
follows the operators and knows nothing of depth: an alternative is tried where the one before it is
refused, and the second part of a sequence where the first one has been read. With enough depth
`misses` lists exactly these tokens (`mem_misses_iff`). Nothing is refused without a token that is
refused on the way (`exists_fails`), and all of this happens within the text (`Fails.suffix`).
-/

namespace AlgebraBatch.Peg

variable {τ ρ ν α : Type} {g : Grammar τ ρ ν}

inductive Fails (g : Grammar τ ρ ν) :
    {α : Type} → Peg τ ρ ν α → List Char → τ → List Char → Prop where
  | token {t : τ} {s : List Char} : g.accept t s = none → Fails g (.token t) s t s
  | rule {r : ρ} {s u : List Char} {t : τ} : Fails g (g.body r) s t u → Fails g (.rule r) s t u
  | seq_left {α β : Type} {a : Peg τ ρ ν α} {b : Peg τ ρ ν β} {s u : List Char} {t : τ} :
      Fails g a s t u → Fails g (.seq a b) s t u
  | seq_right {α β : Type} {a : Peg τ ρ ν α} {b : Peg τ ρ ν β} {s s₁ u : List Char} {t : τ} {x : α} :
      Yields g a s x s₁ → Fails g b s₁ t u → Fails g (.seq a b) s t u
  | orElse_left {α : Type} {a b : Peg τ ρ ν α} {s u : List Char} {t : τ} :
      Fails g a s t u → Fails g (.orElse a b) s t u
  | orElse_right {α : Type} {a b : Peg τ ρ ν α} {s u : List Char} {t : τ} :
      Refuses g a s → Fails g b s t u → Fails g (.orElse a b) s t u
  | optional {α : Type} {a : Peg τ ρ ν α} {s u : List Char} {t : τ} :
      Fails g a s t u → Fails g (.optional a) s t u
  | many_first {α : Type} {a : Peg τ ρ ν α} {s u : List Char} {t : τ} :
      Fails g a s t u → Fails g (.many a) s t u
  | many_more {α : Type} {a : Peg τ ρ ν α} {s s₁ u : List Char} {t : τ} {x : α} :
      Yields g a s x s₁ → Fails g (.many a) s₁ t u → Fails g (.many a) s t u
  | map {α β : Type} {f : α → β} {a : Peg τ ρ ν α} {s u : List Char} {t : τ} :
      Fails g a s t u → Fails g (.map f a) s t u
  | spanned {α : Type} {a : Peg τ ρ ν α} {s u : List Char} {t : τ} :
      Fails g a s t u → Fails g (.spanned a) s t u

/-! ## The list of refused tokens -/

/-- Every token in the list is refused on the way. -/
theorem fails_of_mem_misses (n : Nat) : ∀ {α : Type} {p : Peg τ ρ ν α} {s : List Char} {m : Miss τ},
    m ∈ misses g n p s → ∃ u, Fails g p s m.token u ∧ m.left = u.length := by
  induction n with
  | zero => intro α p s m h; cases h
  | succ n ih =>
    intro α p s m h
    cases p with
    | token t =>
      rw [misses] at h
      split at h
      · cases h
      · next hn =>
        obtain rfl := List.mem_singleton.1 h
        exact ⟨s, .token (by simpa using hn), rfl⟩
    | rule r =>
      obtain ⟨u, hu, hm⟩ := ih (p := g.body r) h
      exact ⟨u, .rule hu, hm⟩
    | seq a b =>
      rw [misses] at h
      rcases List.mem_append.1 h with h | h
      · obtain ⟨u, hu, hm⟩ := ih h
        exact ⟨u, .seq_left hu, hm⟩
      · split at h
        · next x s₁ ha =>
          obtain ⟨u, hu, hm⟩ := ih h
          exact ⟨u, .seq_right ⟨n, ha⟩ hu, hm⟩
        · cases h
    | orElse a b =>
      rw [misses] at h
      rcases List.mem_append.1 h with h | h
      · obtain ⟨u, hu, hm⟩ := ih h
        exact ⟨u, .orElse_left hu, hm⟩
      · split at h
        · next ha =>
          obtain ⟨u, hu, hm⟩ := ih h
          exact ⟨u, .orElse_right ⟨n, ha⟩ hu, hm⟩
        · cases h
    | optional a =>
      obtain ⟨u, hu, hm⟩ := ih (p := a) h
      exact ⟨u, .optional hu, hm⟩
    | many a =>
      rw [misses] at h
      rcases List.mem_append.1 h with h | h
      · obtain ⟨u, hu, hm⟩ := ih h
        exact ⟨u, .many_first hu, hm⟩
      · split at h
        · next x s₁ ha =>
          obtain ⟨u, hu, hm⟩ := ih h
          exact ⟨u, .many_more ⟨n, ha⟩ hu, hm⟩
        · cases h
    | map f a =>
      obtain ⟨u, hu, hm⟩ := ih (p := a) h
      exact ⟨u, .map hu, hm⟩
    | spanned a =>
      obtain ⟨u, hu, hm⟩ := ih (p := a) h
      exact ⟨u, .spanned hu, hm⟩

theorem exists_succ {p : Peg τ ρ ν α} {s : List Char} {n : Nat} (hn : run g n p s ≠ .starved) :
    ∃ m, n = m + 1 := by
  cases n with
  | zero => exact absurd rfl hn
  | succ n => exact ⟨n, rfl⟩

/-- Where the depth is enough, every token that is refused on the way is in the list. -/
theorem mem_misses_of_fails {p : Peg τ ρ ν α} {s u : List Char} {t : τ} (h : Fails g p s t u) :
    ∀ {n : Nat}, run g n p s ≠ .starved → ⟨u.length, t⟩ ∈ misses g n p s := by
  induction h with
  | token ht =>
    intro n hn
    obtain ⟨n, rfl⟩ := exists_succ hn
    rw [misses, ht]
    exact List.mem_singleton_self _
  | rule _ ih =>
    intro n hn
    obtain ⟨n, rfl⟩ := exists_succ hn
    exact ih hn
  | seq_left _ ih =>
    intro n hn
    obtain ⟨n, rfl⟩ := exists_succ hn
    rw [misses]
    exact List.mem_append_left _ (ih fun e => hn (by simp only [run, e]))
  | seq_right ha _ ih =>
    intro n hn
    obtain ⟨n, rfl⟩ := exists_succ hn
    have ea := run_of_yields (n := n) ha fun e => hn (by simp only [run, e])
    rw [misses, ea]
    exact List.mem_append_right _ (ih fun e => hn (by simp only [run, ea, e]))
  | orElse_left _ ih =>
    intro n hn
    obtain ⟨n, rfl⟩ := exists_succ hn
    rw [misses]
    exact List.mem_append_left _ (ih fun e => hn (by simp only [run, e]))
  | orElse_right ha _ ih =>
    intro n hn
    obtain ⟨n, rfl⟩ := exists_succ hn
    have ea := run_of_refuses (n := n) ha fun e => hn (by simp only [run, e])
    rw [misses, ea]
    exact List.mem_append_right _ (ih fun e => hn (by simp only [run, ea, e]))
  | optional _ ih =>
    intro n hn
    obtain ⟨n, rfl⟩ := exists_succ hn
    exact ih fun e => hn (by simp only [run, e])
  | many_first _ ih =>
    intro n hn
    obtain ⟨n, rfl⟩ := exists_succ hn
    rw [misses]
    exact List.mem_append_left _ (ih fun e => hn (by simp only [run, e]))
  | many_more ha _ ih =>
    intro n hn
    obtain ⟨n, rfl⟩ := exists_succ hn
    have ea := run_of_yields (n := n) ha fun e => hn (by simp only [run, e])
    rw [misses, ea]
    exact List.mem_append_right _ (ih fun e => hn (by simp only [run, ea, e]))
  | map _ ih =>
    intro n hn
    obtain ⟨n, rfl⟩ := exists_succ hn
    exact ih fun e => hn (by simp only [run, e])
  | spanned _ ih =>
    intro n hn
    obtain ⟨n, rfl⟩ := exists_succ hn
    exact ih fun e => hn (by simp only [run, e])

theorem mem_misses_iff {p : Peg τ ρ ν α} {s : List Char} {n : Nat} {m : Miss τ}
    (hn : run g n p s ≠ .starved) :
    m ∈ misses g n p s ↔ ∃ u, Fails g p s m.token u ∧ m.left = u.length := by
  constructor
  · exact fails_of_mem_misses n
  · rintro ⟨u, hu, hm⟩
    have hmem := mem_misses_of_fails hu hn
    rwa [← hm] at hmem

/-- An expression is refused only because of a token. -/
theorem exists_fails_of_run (n : Nat) : ∀ {α : Type} {p : Peg τ ρ ν α} {s : List Char},
    run g n p s = .fail → ∃ t u, Fails g p s t u := by
  induction n with
  | zero => intro α p s h; cases h
  | succ n ih =>
    intro α p s h
    cases p with
    | token t => exact ⟨t, s, .token (refuses_token.1 ⟨n + 1, h⟩)⟩
    | rule r =>
      obtain ⟨t, u, hu⟩ := ih (p := g.body r) h
      exact ⟨t, u, .rule hu⟩
    | seq a b =>
      rw [run_seq, Outcome.followedBy_eq_fail] at h
      obtain ⟨x, s₁, ha, h⟩ | ⟨ha, -⟩ := h
      · obtain ⟨_, _, -, ⟨⟩⟩ | ⟨hb, -⟩ := Outcome.followedBy_eq_fail.1 h
        obtain ⟨t, u, hu⟩ := ih hb
        exact ⟨t, u, .seq_right ⟨n, ha⟩ hu⟩
      · obtain ⟨t, u, hu⟩ := ih ha
        exact ⟨t, u, .seq_left hu⟩
    | orElse a b =>
      obtain ⟨_, _, -, ⟨⟩⟩ | ⟨ha, -⟩ := Outcome.followedBy_eq_fail.1 h
      obtain ⟨t, u, hu⟩ := ih ha
      exact ⟨t, u, .orElse_left hu⟩
    | optional a => obtain ⟨_, _, -, ⟨⟩⟩ | ⟨-, ⟨⟩⟩ := Outcome.followedBy_eq_fail.1 h
    | many a => exact absurd ⟨n + 1, h⟩ not_refuses_many
    | map f a =>
      obtain ⟨_, _, -, ⟨⟩⟩ | ⟨ha, -⟩ := Outcome.followedBy_eq_fail.1 h
      obtain ⟨t, u, hu⟩ := ih ha
      exact ⟨t, u, .map hu⟩
    | spanned a =>
      obtain ⟨_, _, -, ⟨⟩⟩ | ⟨ha, -⟩ := Outcome.followedBy_eq_fail.1 h
      obtain ⟨t, u, hu⟩ := ih ha
      exact ⟨t, u, .spanned hu⟩

theorem exists_fails {p : Peg τ ρ ν α} {s : List Char} (h : Refuses g p s) :
    ∃ t u, Fails g p s t u := by
  obtain ⟨n, h⟩ := h
  exact exists_fails_of_run n h

/-! ## Within the text -/

section

variable (hg : ∀ {t s s'}, g.accept t s = some s' → s' <:+ s)

include hg

/-- What is left is an end of the text, if this is so for tokens. -/
theorem Yields.suffix {p : Peg τ ρ ν α} {s s' : List Char} {x : α} (h : Yields g p s x s') :
    s' <:+ s :=
  related_of_yields (R := fun s s' => s' <:+ s) List.suffix_refl (fun h h' => h'.trans h) hg h

theorem Fails.suffix {p : Peg τ ρ ν α} {s u : List Char} {t : τ} (h : Fails g p s t u) :
    u <:+ s := by
  induction h with
  | token _ => exact List.suffix_rfl
  | rule _ ih => exact ih
  | seq_left _ ih => exact ih
  | seq_right ha _ ih => exact ih.trans (ha.suffix hg)
  | orElse_left _ ih => exact ih
  | orElse_right _ _ ih => exact ih
  | optional _ ih => exact ih
  | many_first _ ih => exact ih
  | many_more ha _ ih => exact ih.trans (ha.suffix hg)
  | map _ ih => exact ih
  | spanned _ ih => exact ih

end

/-! ## The furthest place -/

/-- The least of the places, counted from the end of the text. -/
theorem isLeast_left_furthest {ms : List (Miss τ)} (hne : ms ≠ []) :
    IsLeast {n | ∃ m ∈ ms, m.left = n} ((furthest ms).head?.elim 0 (·.left)) := by
  obtain ⟨first, rest, rfl⟩ := List.exists_cons_of_ne_nil hne
  have hmin : ((first :: rest).map (·.left)).min? =
      some ((first :: rest).foldl (fun n m => min n m.left) first.left) := by
    rw [List.foldl_cons, Nat.min_self, List.map_cons, List.min?_cons', List.foldl_map]
  obtain ⟨hmem, hle⟩ := List.min?_eq_some_iff.1 hmin
  obtain ⟨m, hm, hleft⟩ := List.mem_map.1 hmem
  have hfar : m ∈ furthest (first :: rest) := List.mem_filter.2 ⟨hm, beq_iff_eq.2 hleft⟩
  obtain ⟨far, more, hcons⟩ := List.exists_cons_of_ne_nil (List.ne_nil_of_mem hfar)
  rw [hcons]
  obtain ⟨hfar, hleast⟩ := List.mem_filter.1 (hcons ▸ List.mem_cons_self : far ∈ furthest _)
  refine ⟨⟨far, hfar, rfl⟩, ?_⟩
  rintro n ⟨m, hm, rfl⟩
  exact (beq_iff_eq.1 hleast).trans_le (hle _ (List.mem_map_of_mem hm))

end AlgebraBatch.Peg
