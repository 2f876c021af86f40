import AlgebraBatch.Batch.Usage
import AlgebraBatch.Proofs.Expr.Walk

/-!
# Places in an expression

A place is the path that leads to it: for each node on the way the number of the part to go to. Equal
nodes stand at different places, so that the head of a call can be told from a variable of the same
name. An expression mentions the name of each identifier that stands anywhere but at the head of a
call. These are the names that it reads (`mem_reads`), and a name that an assignment in it sets is
one of them (`Sets.mentions`).
-/

namespace AlgebraBatch.Expr

open Usage

/-- The nodes right below a node, in the order in which they are visited. -/
def parts : Expr → List Expr
  | operation _ l r => [l, r]
  | prefixed _ e => [e]
  | postfixed _ e => [e]
  | call head args => head :: args
  | indexed target indices => target :: indices
  | conditional branches otherwise => (branches.flatMap fun b => [b.1, b.2]) ++ otherwise.toList
  | list items => items
  | set items => items
  | root items => items
  | _ => []

/-- The parts in which a mentioned name can stand: all but a name before brackets. -/
def openParts : Expr → List Expr
  | call (identifier _) args => args
  | e => e.parts

/-- The node at a place. -/
def at? : Expr → List Nat → Option Expr
  | e, [] => some e
  | e, i :: path => e.parts[i]?.bind fun part => at? part path

/-- The place is that of the head of a call. -/
def IsHead (e : Expr) (path : List Nat) : Prop :=
  ∃ above head args, path = above ++ [0] ∧ e.at? above = some (call head args)

/-- An identifier with the name stands in the expression, and not as the head of a call. -/
def Mentions (e : Expr) (name : String) : Prop :=
  ∃ path, e.at? path = some (identifier name) ∧ ¬ e.IsHead path

/-- An assignment to the name stands in the expression. -/
def Sets (e : Expr) (name : String) : Prop := ∃ r, operation ":" (identifier name) r ∈ e.walk

variable {e d head : Expr} {es : List Expr} {name : String} {path above : List Nat} {i : Nat}

/-! ## Places -/

theorem mem_parts_conditional {bs : List (Expr × Expr)} {otherwise : Option Expr} :
    d ∈ (conditional bs otherwise).parts ↔
      (∃ b ∈ bs, d = b.1 ∨ d = b.2) ∨ d ∈ otherwise := by
  rw [parts, List.mem_append, List.mem_flatMap, Option.mem_toList]
  simp

theorem not_isHead_nil : ¬ e.IsHead [] := by
  rintro ⟨above, head, args, h, -⟩
  simp at h

theorem isHead_cons : e.IsHead (i :: path) ↔
    (i = 0 ∧ path = [] ∧ ∃ head args, e = call head args) ∨
      ∃ part, e.parts[i]? = some part ∧ part.IsHead path := by
  constructor
  · rintro ⟨above, head, args, hpath, hat⟩
    cases above with
    | nil =>
      obtain ⟨rfl, rfl⟩ := List.cons.inj hpath
      exact .inl ⟨rfl, rfl, head, args, Option.some.inj hat⟩
    | cons j above =>
      obtain ⟨rfl, rfl⟩ := List.cons.inj hpath
      obtain ⟨part, hpart, hat⟩ := Option.bind_eq_some_iff.1 hat
      exact .inr ⟨part, hpart, above, head, args, rfl, hat⟩
  · rintro (⟨rfl, rfl, head, args, rfl⟩ | ⟨part, hpart, above, head, args, rfl, hat⟩)
    · exact ⟨[], head, args, rfl, rfl⟩
    · exact ⟨i :: above, head, args, rfl, by rw [at?, hpart, Option.bind_some, hat]⟩

/-! ## Mentioned names -/

theorem openParts_of_ne (h : ∀ n args, e ≠ call (identifier n) args) : e.openParts = e.parts := by
  unfold openParts
  split
  · exact absurd rfl (h _ _)
  · rfl

theorem mem_openParts : d ∈ e.openParts ↔
    ∃ i, e.parts[i]? = some d ∧ (i = 0 → ∀ n args, e ≠ call (identifier n) args) := by
  by_cases hnamed : ∃ n args, e = call (identifier n) args
  · obtain ⟨n, args, rfl⟩ := hnamed
    have hparts : d ∈ args ↔ ∃ i, args[i]? = some d := List.mem_iff_getElem?
    rw [openParts, hparts]
    constructor
    · rintro ⟨i, hi⟩
      exact ⟨i + 1, hi, nofun⟩
    · rintro ⟨_ | i, hi, hhead⟩
      · exact absurd rfl (hhead rfl n args)
      · exact ⟨i, hi⟩
  · have hother : ∀ n args, e ≠ call (identifier n) args :=
      fun n args he => hnamed ⟨n, args, he⟩
    rw [openParts_of_ne hother, List.mem_iff_getElem?]
    exact exists_congr fun i => (and_iff_left fun _ => hother).symm

/-- What a node mentions is its own name or mentioned by one of its parts, except by a name before
brackets. -/
theorem mentions_iff :
    e.Mentions name ↔ e = identifier name ∨ ∃ part ∈ e.openParts, part.Mentions name := by
  constructor
  · rintro ⟨_ | ⟨i, path⟩, hat, hhead⟩
    · exact .inl (Option.some.inj hat)
    · obtain ⟨part, hpart, hat⟩ := Option.bind_eq_some_iff.1 hat
      rw [isHead_cons, not_or] at hhead
      refine .inr ⟨part, mem_openParts.2 ⟨i, hpart, ?_⟩, path, hat,
        fun hp => hhead.2 ⟨part, hpart, hp⟩⟩
      rintro rfl n args rfl
      obtain rfl := Option.some.inj hpart
      cases path with
      | nil => exact hhead.1 ⟨rfl, rfl, _, _, rfl⟩
      | cons j path => cases hat
  · rintro (rfl | ⟨part, hopen, path, hat, hhead⟩)
    · exact ⟨[], rfl, not_isHead_nil⟩
    · obtain ⟨i, hpart, hname⟩ := mem_openParts.1 hopen
      refine ⟨i :: path, by rw [at?, hpart, Option.bind_some, hat], fun hp => ?_⟩
      rcases isHead_cons.1 hp with ⟨rfl, rfl, head, args, rfl⟩ | ⟨part', hpart', hp⟩
      · obtain rfl := Option.some.inj hpart
        obtain rfl := Option.some.inj hat
        exact hname rfl name args rfl
      · rw [Option.some.inj (hpart'.symm.trans hpart)] at hp
        exact hhead hp

theorem mentions_identifier {n : String} : (identifier n).Mentions name ↔ name = n := by
  rw [mentions_iff]
  simp [openParts, parts, eq_comm]

theorem mentions_operation {op : String} {l r : Expr} :
    (operation op l r).Mentions name ↔ l.Mentions name ∨ r.Mentions name := by
  rw [mentions_iff]
  simp [openParts, parts]

theorem mentions_prefixed {op : String} : (prefixed op e).Mentions name ↔ e.Mentions name := by
  rw [mentions_iff]
  simp [openParts, parts]

theorem mentions_postfixed {op : String} : (postfixed op e).Mentions name ↔ e.Mentions name := by
  rw [mentions_iff]
  simp [openParts, parts]

/-- The name before the brackets of a call does not count. -/
theorem mentions_call_name {n : String} :
    (call (identifier n) es).Mentions name ↔ ∃ a ∈ es, a.Mentions name := by
  rw [mentions_iff]
  simp [openParts]

theorem mentions_call (h : ∀ n, head ≠ identifier n) :
    (call head es).Mentions name ↔ head.Mentions name ∨ ∃ a ∈ es, a.Mentions name := by
  have hcall : ∀ n args, call head es ≠ call (identifier n) args :=
    fun n _ he => h n (call.inj he).1
  rw [mentions_iff, openParts_of_ne hcall]
  simp [parts]

theorem mentions_indexed :
    (indexed head es).Mentions name ↔ head.Mentions name ∨ ∃ a ∈ es, a.Mentions name := by
  rw [mentions_iff]
  simp [openParts, parts]

theorem mentions_conditional {bs : List (Expr × Expr)} {otherwise : Option Expr} :
    (conditional bs otherwise).Mentions name ↔
      (∃ b ∈ bs, b.1.Mentions name ∨ b.2.Mentions name) ∨ ∃ d ∈ otherwise, d.Mentions name := by
  rw [mentions_iff, or_iff_right (by rintro ⟨⟩)]
  constructor
  · rintro ⟨part, hpart, hname⟩
    rcases mem_parts_conditional.1 hpart with ⟨b, hb, rfl | rfl⟩ | hpart
    · exact .inl ⟨b, hb, .inl hname⟩
    · exact .inl ⟨b, hb, .inr hname⟩
    · exact .inr ⟨part, hpart, hname⟩
  · rintro (⟨b, hb, hname | hname⟩ | ⟨part, hpart, hname⟩)
    · exact ⟨b.1, mem_parts_conditional.2 (.inl ⟨b, hb, .inl rfl⟩), hname⟩
    · exact ⟨b.2, mem_parts_conditional.2 (.inl ⟨b, hb, .inr rfl⟩), hname⟩
    · exact ⟨part, mem_parts_conditional.2 (.inr hpart), hname⟩

theorem mentions_list : (list es).Mentions name ↔ ∃ a ∈ es, a.Mentions name := by
  rw [mentions_iff]
  simp [openParts, parts]

theorem mentions_set : (set es).Mentions name ↔ ∃ a ∈ es, a.Mentions name := by
  rw [mentions_iff]
  simp [openParts, parts]

theorem mentions_root : (root es).Mentions name ↔ ∃ a ∈ es, a.Mentions name := by
  rw [mentions_iff]
  simp [openParts, parts]

/-- A node without parts mentions nothing, unless it is a name. -/
theorem not_mentions_atom (hparts : e.openParts = []) (h : e ≠ identifier name) :
    ¬ e.Mentions name := by
  rw [mentions_iff, hparts]
  simp [h]

/-! ## Names that are read -/

theorem mem_readsItems : name ∈ readsItems es ↔ ∃ e ∈ es, name ∈ reads e := by
  induction es with
  | nil => simp [readsItems]
  | cons e es ih => simp [readsItems, ih]

theorem mem_readsBranches {bs : List (Expr × Expr)} :
    name ∈ readsBranches bs ↔ ∃ b ∈ bs, name ∈ reads b.1 ∨ name ∈ reads b.2 := by
  induction bs with
  | nil => simp [readsBranches]
  | cons b bs ih =>
    obtain ⟨c, v⟩ := b
    simp [readsBranches, ih, or_assoc]

theorem readsItems_of_forall (h : ∀ a ∈ es, name ∈ reads a ↔ a.Mentions name) :
    name ∈ readsItems es ↔ ∃ a ∈ es, a.Mentions name :=
  mem_readsItems.trans (exists_congr fun a => and_congr_right (h a))

/-- The names that an expression reads are those that it mentions. -/
theorem mem_reads : name ∈ reads e ↔ e.Mentions name := by
  induction e using Expr.induction with
  | integer n => exact iff_of_false List.not_mem_nil (not_mentions_atom rfl nofun)
  | float x text => exact iff_of_false List.not_mem_nil (not_mentions_atom rfl nofun)
  | string s => exact iff_of_false List.not_mem_nil (not_mentions_atom rfl nofun)
  | boolean b => exact iff_of_false List.not_mem_nil (not_mentions_atom rfl nofun)
  | identifier n => rw [reads, List.mem_singleton, mentions_identifier]
  | operation op l r ihl ihr => rw [reads, List.mem_append, ihl, ihr, mentions_operation]
  | prefixed op e ih => rw [reads, ih, mentions_prefixed]
  | postfixed op e ih => rw [reads, ih, mentions_postfixed]
  | call head args ih iha =>
    by_cases hname : ∃ n, head = identifier n
    · obtain ⟨n, rfl⟩ := hname
      rw [reads, readsItems_of_forall iha, mentions_call_name]
    · have hhead : ∀ n, head ≠ identifier n := not_exists.1 hname
      have hreads : reads (call head args) = reads head ++ readsItems args := by
        rw [reads]
        exact hhead
      rw [hreads, List.mem_append, ih, readsItems_of_forall iha, mentions_call hhead]
  | indexed target indices ih ihi =>
    rw [reads, List.mem_append, ih, readsItems_of_forall ihi, mentions_indexed]
  | conditional branches otherwise ihb iho =>
    have hotherwise : name ∈ readsOption otherwise ↔ ∃ d ∈ otherwise, d.Mentions name := by
      cases otherwise with
      | none => simp [readsOption]
      | some d => simp [readsOption, iho d rfl]
    rw [reads, List.mem_append, mem_readsBranches, hotherwise, mentions_conditional]
    exact or_congr_left
      (exists_congr fun b => and_congr_right fun hb => or_congr (ihb b hb).1 (ihb b hb).2)
  | list items ih => rw [reads, readsItems_of_forall ih, mentions_list]
  | set items ih => rw [reads, readsItems_of_forall ih, mentions_set]
  | root items ih => rw [reads, readsItems_of_forall ih, mentions_root]

/-- A name counts as read beside a call of the same name. -/
example : reads (operation "+" (call (identifier "f") [integer 1]) (identifier "f")) = ["f"] := rfl

/-! ## Assignments -/

theorem walkItems_eq (es : List Expr) : walkItems es = es.flatMap walk := by
  induction es with
  | nil => rfl
  | cons e es ih => rw [walkItems, ih, List.flatMap_cons]

theorem walkBranches_eq (bs : List (Expr × Expr)) :
    walkBranches bs = (bs.flatMap fun b => [b.1, b.2]).flatMap walk := by
  induction bs with
  | nil => rfl
  | cons b bs ih =>
    obtain ⟨c, v⟩ := b
    simp [walkBranches, ih]

/-- Visiting a node and what is below it visits the node and then each of its parts. -/
theorem walk_eq (e : Expr) : e.walk = e :: e.parts.flatMap walk := by
  cases e with
  | conditional branches otherwise =>
    rw [walk, walkBranches_eq, parts, List.flatMap_append]
    cases otherwise <;> simp [walkOption]
  | _ => simp [walk, parts, walkItems_eq]

theorem Sets.cases (h : e.Sets name) : (∃ r, e = operation ":" (identifier name) r) ∨
    ∃ part ∈ e.parts, part.Sets name := by
  obtain ⟨r, hr⟩ := h
  rw [walk_eq, List.mem_cons, List.mem_flatMap] at hr
  rcases hr with rfl | ⟨part, hpart, hr⟩
  · exact .inl ⟨r, rfl⟩
  · exact .inr ⟨part, hpart, r, hr⟩

theorem not_sets_identifier {n : String} : ¬ (identifier n).Sets name := by
  rintro ⟨r, hr⟩
  simp [walk] at hr

/-- Induction on expressions by the parts of each node. -/
theorem induction_parts {motive : Expr → Prop}
    (step : ∀ e, (∀ part ∈ e.parts, motive part) → motive e) (e : Expr) : motive e := by
  induction e using Expr.induction with
  | operation op l r ihl ihr => exact step _ (by simp [parts, ihl, ihr])
  | prefixed op e ih => exact step _ (by simp [parts, ih])
  | postfixed op e ih => exact step _ (by simp [parts, ih])
  | call head args ih iha => exact step _ (List.forall_mem_cons.2 ⟨ih, iha⟩)
  | indexed target indices ih ihi => exact step _ (List.forall_mem_cons.2 ⟨ih, ihi⟩)
  | conditional branches otherwise ihb iho =>
    refine step _ fun part hpart => ?_
    rcases mem_parts_conditional.1 hpart with ⟨b, hb, rfl | rfl⟩ | hpart
    · exact (ihb b hb).1
    · exact (ihb b hb).2
    · exact iho part hpart
  | list items ih => exact step _ ih
  | set items ih => exact step _ ih
  | root items ih => exact step _ ih
  | _ => exact step _ (by simp [parts])

/-- What is visited below a node is visited from above. -/
theorem mem_walk_trans {c : Expr} (hd : d ∈ e.walk) (hc : c ∈ d.walk) : c ∈ e.walk := by
  induction e using induction_parts with
  | step e ih =>
    rw [walk_eq, List.mem_cons, List.mem_flatMap] at hd ⊢
    rcases hd with rfl | ⟨part, hpart, hd⟩
    · rwa [walk_eq, List.mem_cons, List.mem_flatMap] at hc
    · exact .inr ⟨part, hpart, ih part hpart hd⟩

theorem Sets.mem_walk (h : e.Sets name) : identifier name ∈ e.walk := by
  obtain ⟨r, hr⟩ := h
  exact mem_walk_trans hr (by simp [walk])

/-- The name before a colon is mentioned there. It is passed on from part to part, since nothing is
assigned within a name before brackets. -/
theorem Sets.mentions (h : e.Sets name) : e.Mentions name := by
  induction e using induction_parts with
  | step e ih =>
    rcases h.cases with ⟨r, rfl⟩ | ⟨part, hpart, hsets⟩
    · exact mentions_operation.2 (.inl (mentions_identifier.2 rfl))
    · obtain ⟨i, hi⟩ := List.mem_iff_getElem?.1 hpart
      refine mentions_iff.2 (.inr ⟨part, mem_openParts.2 ⟨i, hi, ?_⟩, ih part hpart hsets⟩)
      rintro rfl n args rfl
      obtain rfl := Option.some.inj hi
      exact not_sets_identifier hsets

end AlgebraBatch.Expr
