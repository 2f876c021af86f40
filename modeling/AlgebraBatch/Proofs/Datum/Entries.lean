import AlgebraBatch.Datum.Basic

/-!
# Entries under a text

A text is equal to no other key than itself, so what `insert`, `lookup` and `erase` do with a text as
the key can be said without equality of data: one entry is set, and all others stay what they are.
-/

namespace AlgebraBatch.Datum

variable {s t : String} {k v : Datum} {entries : List (Datum × Datum)}

theorem equalAtom_str : k.equalAtom (.str s) = true ↔ k = .str s := by
  cases k with
  | str t => exact beq_iff_eq.trans ⟨congrArg Datum.str, Datum.str.inj⟩
  | _ => exact iff_of_false nofun nofun

/-- An entry is found before all that come behind it. -/
theorem lookup_append (h : lookup k entries = some v) (more : List (Datum × Datum)) :
    lookup k (entries ++ more) = some v := by
  induction entries with
  | nil => cases h
  | cons e es ih =>
    obtain ⟨k', w⟩ := e
    rw [lookup] at h
    rw [List.cons_append, lookup]
    split
    · next hk => rwa [if_pos hk] at h
    · next hk => exact ih (by rwa [if_neg hk] at h)

theorem lookup_insert_self : lookup (.str s) (insert (.str s) v entries) = some v := by
  induction entries with
  | nil => rw [insert, lookup, if_pos (equalAtom_str.2 rfl)]
  | cons e es ih =>
    obtain ⟨k, w⟩ := e
    rw [insert]
    split
    · next hk => rw [lookup, if_pos hk]
    · next hk => rw [lookup, if_neg hk, ih]

theorem lookup_insert_of_ne (h : s ≠ t) :
    lookup (.str t) (insert (.str s) v entries) = lookup (.str t) entries := by
  have hst : ¬ (Datum.str s).equalAtom (.str t) = true :=
    fun he => h (Datum.str.inj (equalAtom_str.1 he))
  induction entries with
  | nil => exact if_neg hst
  | cons e es ih =>
    obtain ⟨k, w⟩ := e
    rw [insert]
    split
    · next hk =>
      obtain rfl := equalAtom_str.1 hk
      rw [lookup, lookup, if_neg hst, if_neg hst]
    · rw [lookup, lookup, ih]

theorem mem_keys_insert : k ∈ (insert (.str s) v entries).map Prod.fst ↔
    k = .str s ∨ k ∈ entries.map Prod.fst := by
  induction entries with
  | nil => simp [insert]
  | cons e es ih =>
    obtain ⟨k', w⟩ := e
    rw [insert]
    split
    · next hk =>
      obtain rfl := equalAtom_str.1 hk
      simp
    · rw [List.map_cons, List.mem_cons, ih, List.map_cons, List.mem_cons, or_left_comm]

/-- Entries that are chosen without the text are the same after it is set. -/
theorem filter_insert {p : Datum × Datum → Bool} (h : ∀ w, p (.str s, w) = false) :
    (insert (.str s) v entries).filter p = entries.filter p := by
  induction entries with
  | nil => rw [insert, List.filter_cons_of_neg (ne_true_of_eq_false (h v))]
  | cons e es ih =>
    obtain ⟨k, w⟩ := e
    rw [insert]
    split
    · next hk =>
      obtain rfl := equalAtom_str.1 hk
      rw [List.filter_cons_of_neg (ne_true_of_eq_false (h v)),
        List.filter_cons_of_neg (ne_true_of_eq_false (h w))]
    · rw [List.filter_cons, List.filter_cons, ih]

end AlgebraBatch.Datum
