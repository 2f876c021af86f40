import AlgebraBatch.Proofs.Syntax.Accepted

/-!
# How a tree lies in the text

What is read from `s` on and leaves `s'` lies between the two. `Laid s s' ns` says this of a list of
nodes: each of them has a stretch of its own there, which is what the pattern of an atom reads; the
nodes below a node lie in its stretch unless it is an infix operation; and the atoms come in the
order in which they stand in the text, each behind the one before it. Lists of nodes that lie one
behind the other are laid out together (`Laid.append`), and so every rule lays out the nodes of the
tree that it reads (`laid_of_reads`).
-/

namespace AlgebraBatch.Syntax

open AlgebraBatch.Text Peg AlgebraBatch.Syntax.Tree

variable {s s₁ s₂ s₃ s' u v : List Char} {l r t n : Tree} {ns ms ts : List Tree}

/-! ## Stretches -/

/-- The stretch that a node has its place from: for an infix operation that of the operator. -/
def Tree.piece : Tree → Piece
  | .atom _ p => p
  | .binary op _ _ => op
  | .unary span _ _ => span
  | .factorial span _ => span
  | .call span _ _ => span
  | .indexed span _ _ => span
  | .conditional span _ _ _ => span
  | .list span _ => span
  | .set span _ => span

def Tree.isInfix : Tree → Bool
  | .binary .. => true
  | _ => false

def Tree.isAtom : Tree → Bool
  | .atom .. => true
  | _ => false

/-- The pattern that an atom is read by. -/
def AtomKind.pattern : AtomKind → Pattern
  | integer => .integer
  | float => .float
  | string => .string
  | boolean => .boolean
  | identifier => .identifier

/-- An atom is read from `u` to `v` by its pattern. -/
def Tree.IsRead (u v : List Char) : Tree → Prop
  | .atom k _ => k.pattern.accept u = some v
  | _ => True

theorem length_text_between (h : v <:+ u) :
    (Piece.between u v).text.length + v.length = u.length := by
  obtain ⟨w, rfl⟩ := h
  rw [text_between_append, String.length_ofList, List.length_append]

theorem text_between_prefix (h : v <:+ u) : (Piece.between u v).text.toList <+: u := by
  obtain ⟨w, rfl⟩ := h
  rw [text_between_append, String.toList_ofList]
  exact List.prefix_append w v

/-! ## Nodes between two places -/

/-- The node has a stretch from `u` to `v` between `s` and `s'`, and everything below it begins in
this stretch unless it is an infix operation. -/
inductive Lies (s s' : List Char) (n : Tree) : Prop where
  | intro {u v : List Char} : u <:+ s → v <:+ u → s' <:+ v → v.length < u.length →
      n.piece = .between u v → n.IsRead u v →
      (n.isInfix = false → ∀ d ∈ n.nodes, v.length < d.piece.left ∧ d.piece.left ≤ u.length) →
      Lies s s' n

/-- The second node begins where the first one has ended, or behind. -/
def Precedes (a b : Tree) : Prop :=
  b.piece.left + a.piece.text.length ≤ a.piece.left

structure Laid (s s' : List Char) (ns : List Tree) : Prop where
  suffix : s' <:+ s
  lies : ∀ n ∈ ns, Lies s s' n
  ordered : (ns.filter isAtom).Pairwise Precedes

theorem Lies.begins (h : Lies s s' n) : s'.length < n.piece.left ∧ n.piece.left ≤ s.length := by
  obtain ⟨hu, -, hs', hlt, hp, -, -⟩ := h
  rw [hp]
  exact ⟨Nat.lt_of_le_of_lt hs'.length_le hlt, hu.length_le⟩

theorem Lies.ends (h : Lies s s' n) : s'.length + n.piece.text.length ≤ n.piece.left := by
  obtain @⟨u, v, -, hv, hs', -, hp, -, -⟩ := h
  rw [hp]
  calc s'.length + (Piece.between u v).text.length
      ≤ v.length + (Piece.between u v).text.length := Nat.add_le_add_right hs'.length_le _
    _ = u.length := by rw [Nat.add_comm, length_text_between hv]

theorem Lies.mono (h : Lies s₁ s₂ n) (hs : s₁ <:+ s) (hs' : s' <:+ s₂) : Lies s s' n := by
  obtain ⟨hu, hv, hs₂, hlt, hp, hread, hd⟩ := h
  exact ⟨hu.trans hs, hv, hs'.trans hs₂, hlt, hp, hread, hd⟩

/-! ## Laying out -/

theorem Laid.nil (h : s' <:+ s) : Laid s s' [] :=
  ⟨h, nofun, .nil⟩

theorem Laid.mono (h : Laid s₁ s₂ ns) (hs : s₁ <:+ s) (hs' : s' <:+ s₂) : Laid s s' ns :=
  ⟨hs'.trans (h.suffix.trans hs), fun n hn => (h.lies n hn).mono hs hs', h.ordered⟩

theorem Laid.append (h₁ : Laid s s₁ ns) (hs : s₂ <:+ s₁) (h₂ : Laid s₂ s' ms) :
    Laid s s' (ns ++ ms) where
  suffix := h₂.suffix.trans (hs.trans h₁.suffix)
  lies := List.forall_mem_append.2 ⟨(h₁.mono List.suffix_rfl (h₂.suffix.trans hs)).lies,
    (h₂.mono (hs.trans h₁.suffix) List.suffix_rfl).lies⟩
  ordered := by
    rw [List.filter_append, List.pairwise_append]
    refine ⟨h₁.ordered, h₂.ordered, fun a ha b hb => ?_⟩
    have hends := (h₁.lies a (List.mem_filter.1 ha).1).ends
    have hbegins := (h₂.lies b (List.mem_filter.1 hb).1).begins
    have := hs.length_le
    unfold Precedes
    omega

theorem Laid.insert (h : Laid s s' ns) (hn : Lies s s' n) (ha : n.isAtom = false) :
    Laid s s' (n :: ns) where
  suffix := h.suffix
  lies := List.forall_mem_cons.2 ⟨hn, h.lies⟩
  ordered := by
    rw [List.filter_cons_of_neg (ne_true_of_eq_false ha)]
    exact h.ordered

/-- A node with its parts, where it has all of the text. -/
theorem Laid.whole (h : Laid s s' ns) (hlt : s'.length < s.length) (hp : n.piece = .between s s')
    (hn : n.nodes = n :: ns) (ha : n.isAtom = false) : Laid s s' n.nodes := by
  have hself : s'.length < n.piece.left ∧ n.piece.left ≤ s.length := by
    rw [hp]
    exact ⟨hlt, Nat.le_refl _⟩
  have hread : n.IsRead s s' := by
    cases n with
    | atom k p => cases ha
    | _ => trivial
  rw [hn]
  refine h.insert (.intro List.suffix_rfl h.suffix List.suffix_rfl hlt hp hread fun _ => ?_) ha
  rw [hn]
  exact List.forall_mem_cons.2 ⟨hself, fun d hd => (h.lies d hd).begins⟩

theorem accept_solid {p : Pattern} (hp : p ≠ .blanks) (h : p.accept s = some s') :
    s' <:+ s ∧ s'.length < s.length :=
  ⟨(Pattern.accept_suffix h).1, (Pattern.accept_suffix h).2 hp⟩

theorem laid_atom {k : AtomKind} (h : k.pattern.accept s = some s') :
    Laid s s' (nodes (.atom k (.between s s'))) := by
  obtain ⟨hs', hlt⟩ := accept_solid (by cases k <;> decide) h
  have hlies : Lies s s' (.atom k (.between s s')) :=
    .intro List.suffix_rfl hs' List.suffix_rfl hlt rfl h fun _ =>
      List.forall_mem_singleton.2 ⟨hlt, Nat.le_refl _⟩
  exact ⟨hs', List.forall_mem_singleton.2 hlies, List.pairwise_singleton _ _⟩

/-- An infix operation, where the operator stands between the operands. -/
theorem laid_binary (hl : Laid s s₁ l.nodes) (hu : u <:+ s₁) (hv : v <:+ u)
    (hlt : v.length < u.length) (hs₂ : s₂ <:+ v) (hr : Laid s₂ s' r.nodes) :
    Laid s s' (nodes (.binary (.between u v) l r)) :=
  (hl.append (hs₂.trans (hv.trans hu)) hr).insert
    (.intro (hu.trans hl.suffix) hv (hr.suffix.trans hs₂) hlt rfl trivial nofun) rfl

/-! ## Rules -/

/-- The rules, where what they read is laid out in the text. -/
abbrev LaidBy : RuleReading := fun R s t s' => ReadsAs R s t s' ∧ Laid s s' t.nodes

theorem skipBlanks_suffix (s : List Char) : skipBlanks s <:+ s :=
  List.dropWhile_suffix _

theorem laid_chain {R : Rule} {p : Pattern} (hp : p ≠ .blanks) (h : Chain LaidBy p R s t s') :
    Laid s s' t.nodes := by
  induction h with
  | one h => exact h.2
  | more _ hop hr ih =>
    obtain ⟨hv, hlt⟩ := accept_solid hp hop
    exact laid_binary ih (skipBlanks_suffix _) hv hlt (skipBlanks_suffix _) hr.2

theorem laid_leftChain {R : Rule} {p : Pattern} (hp : p ≠ .blanks)
    (h : Derives grammar LaidBy (Reads.leftChain p R) s t s') : Laid s s' t.nodes :=
  laid_chain hp (derives_leftChain.1 h).1

theorem laid_rightChain {R C : Rule} {p : Pattern} (hp : p ≠ .blanks)
    (h : Derives grammar LaidBy (Reads.rightChain p R C) s t s') : Laid s s' t.nodes := by
  rcases derives_rightChain.1 h with ⟨ht, -⟩ | ⟨l, s₁, s₂, r, hl, hop, hr, rfl⟩
  · exact ht.2
  · obtain ⟨hv, hlt⟩ := accept_solid hp hop
    exact laid_binary hl.2 (skipBlanks_suffix _) hv hlt (skipBlanks_suffix _) hr.2

theorem laid_prefixed {R : Rule} {p : Pattern} (hp : p ≠ .blanks)
    (h : Derives grammar LaidBy (Reads.prefixed p R) s t s') : Laid s s' t.nodes := by
  obtain ⟨s₁, u, hop, hu, rfl⟩ := derives_prefixed.1 h
  obtain ⟨hv, hlt⟩ := accept_solid hp hop
  have hpart := hu.2.mono ((skipBlanks_suffix _).trans hv) List.suffix_rfl
  have := (hu.2.suffix.trans (skipBlanks_suffix _)).length_le
  exact hpart.whole (by omega) rfl rfl rfl

theorem laid_factorial (h : Derives grammar LaidBy Reads.factorial s t s') :
    Laid s s' t.nodes := by
  rcases derives_factorial.1 h with ⟨ht, -⟩ | ⟨u, hu, rfl⟩
  · exact ht.2
  · have hpart := hu.2.mono List.suffix_rfl (List.suffix_cons '!' s')
    exact hpart.whole (Nat.lt_of_succ_le hu.2.suffix.length_le) rfl rfl rfl

/-- The items between brackets lie behind the opening bracket and before the closing one. -/
theorem laid_enclosed {opening closing : Char}
    (h : Derives grammar LaidBy (Reads.enclosed opening closing) s ts s') :
    Laid s s' (nodesItems ts) ∧ s'.length < s.length := by
  have further {s s' : List Char} {ts : List Tree}
      (h : Repeats (Derives grammar LaidBy Reads.commaItem) (Refuses grammar Reads.commaItem)
        s ts s') : Laid s s' (nodesItems ts) := by
    induction h with
    | nil => exact .nil List.suffix_rfl
    | cons hx _ ih =>
      obtain ⟨s₁, hcomma, ht⟩ := derives_commaItem.1 hx
      have hs₁ : skipBlanks s₁ <:+ _ :=
        (skipBlanks_suffix s₁).trans ((List.suffix_cons ',' s₁).trans (hcomma ▸ skipBlanks_suffix _))
      exact (ht.2.mono hs₁ List.suffix_rfl).append List.suffix_rfl ih
  obtain ⟨s₁, s₂, rfl, hi, hclose⟩ := derives_enclosed.1 h
  have hitems : Laid (skipBlanks s₁) s₂ (nodesItems ts) := by
    cases hi with
    | nil => exact .nil List.suffix_rfl
    | cons ht hm => exact ht.2.append List.suffix_rfl (further hm)
  have hopen : skipBlanks s₁ <:+ opening :: s₁ := suffix_cons (skipBlanks_suffix s₁)
  have hshut : s' <:+ s₂ := (List.suffix_cons closing s').trans (hclose ▸ skipBlanks_suffix s₂)
  have hpart := hitems.mono hopen hshut
  have := (hshut.trans (hitems.suffix.trans (skipBlanks_suffix s₁))).length_le
  exact ⟨hpart, Nat.lt_succ_of_le this⟩

theorem laid_branch {x : Tree × Tree} (h : Derives grammar LaidBy Reads.branch s x s') :
    Laid s s' (x.1.nodes ++ x.2.nodes) := by
  obtain ⟨s₁, s₂, hc, hthen, hv⟩ := derives_branch.1 h
  have hs₂ : skipBlanks s₂ <:+ s₁ :=
    (skipBlanks_suffix s₂).trans ((Pattern.accept_suffix hthen).1.trans (skipBlanks_suffix s₁))
  exact (hc.2.mono (skipBlanks_suffix s) List.suffix_rfl).append hs₂ hv.2

theorem laid_branches {xs : List (Tree × Tree)}
    (h : Repeats (Derives grammar LaidBy Reads.furtherBranch)
      (Refuses grammar Reads.furtherBranch) s xs s') : Laid s s' (nodesBranches xs) := by
  induction h with
  | nil => exact .nil List.suffix_rfl
  | @cons s _ _ _ _ hx _ ih =>
    obtain ⟨s₁, hword, hb⟩ := derives_furtherBranch.1 hx
    have hs₁ : s₁ <:+ s := (Pattern.accept_suffix hword).1.trans (skipBlanks_suffix s)
    exact ((laid_branch hb).mono hs₁ List.suffix_rfl).append List.suffix_rfl ih

theorem laid_lastValue {o : Option Tree}
    (h : Derives grammar LaidBy (.optional Reads.lastValue) s o s') :
    Laid s s' (nodesOption o) := by
  cases o with
  | none => exact .nil (h.2 ▸ List.suffix_rfl)
  | some u =>
    obtain ⟨s₁, hword, hu⟩ := derives_lastValue.1 h
    have hs₁ : skipBlanks s₁ <:+ s :=
      (skipBlanks_suffix s₁).trans ((Pattern.accept_suffix hword).1.trans (skipBlanks_suffix s))
    exact hu.2.mono hs₁ List.suffix_rfl

theorem laid_conditional (h : Derives grammar LaidBy Reads.conditional s t s') :
    Laid s s' t.nodes := by
  obtain ⟨s₁, s₂, s₃, first, more, otherwise, hif, hf, hm, ho, rfl⟩ := derives_conditional.1 h
  obtain ⟨hs₁, hlt⟩ := accept_solid (by decide) hif
  have hparts := ((laid_branch hf).append List.suffix_rfl (laid_branches hm)).append
    List.suffix_rfl (laid_lastValue ho)
  have := hparts.suffix.length_le
  exact (hparts.mono hs₁ List.suffix_rfl).whole (by omega) rfl rfl rfl

/-- A name and what stands in the brackets after it. -/
theorem laid_headed {opening closing : Char} (hi : Pattern.identifier.accept s = some s₁)
    (he : Derives grammar LaidBy (Reads.enclosed opening closing) s₁ ts s') :
    Laid s s' (.atom .identifier (.between s s₁) :: nodesItems ts) ∧ s'.length < s.length := by
  have hhead : Laid s s₁ (nodes (.atom .identifier (.between s s₁))) := laid_atom hi
  obtain ⟨hitems, hlt⟩ := laid_enclosed he
  exact ⟨hhead.append List.suffix_rfl hitems, Nat.lt_of_lt_of_le hlt hhead.suffix.length_le⟩

theorem laid_compound (h : Derives grammar LaidBy Reads.compound s t s') : Laid s s' t.nodes := by
  rcases h with h | ⟨-, h | ⟨-, h | ⟨-, h | ⟨-, h | ⟨-, h | ⟨-, h⟩⟩⟩⟩⟩⟩
  · exact laid_conditional h
  · obtain ⟨s₁, ts, hi, he, rfl⟩ := derives_headed.1 h
    obtain ⟨hparts, hlt⟩ := laid_headed hi he
    exact hparts.whole hlt rfl rfl rfl
  · obtain ⟨s₁, ts, hi, he, rfl⟩ := derives_headed.1 h
    obtain ⟨hparts, hlt⟩ := laid_headed hi he
    exact hparts.whole hlt rfl rfl rfl
  · obtain ⟨hi, rfl⟩ := derives_atom.1 h
    exact laid_atom (k := .identifier) hi
  · obtain ⟨ts, he, rfl⟩ := derives_bracketed.1 h
    obtain ⟨hitems, hlt⟩ := laid_enclosed he
    exact hitems.whole hlt rfl rfl rfl
  · obtain ⟨ts, he, rfl⟩ := derives_bracketed.1 h
    obtain ⟨hitems, hlt⟩ := laid_enclosed he
    exact hitems.whole hlt rfl rfl rfl
  · obtain ⟨s₁, s₂, rfl, ht, hclose⟩ := derives_group.1 h
    exact ht.2.mono (suffix_cons (skipBlanks_suffix s₁))
      ((List.suffix_cons ')' s').trans (hclose ▸ skipBlanks_suffix s₂))

theorem laid_primary (h : Derives grammar LaidBy Reads.primary s t s') : Laid s s' t.nodes := by
  rcases h with h | ⟨-, h | ⟨-, h | ⟨-, h | ⟨-, h⟩⟩⟩⟩
  · obtain ⟨ha, rfl⟩ := derives_atom.1 h
    exact laid_atom (k := .float) ha
  · obtain ⟨ha, rfl⟩ := derives_atom.1 h
    exact laid_atom (k := .integer) ha
  · obtain ⟨ha, rfl⟩ := derives_atom.1 h
    exact laid_atom (k := .string) ha
  · obtain ⟨ha, rfl⟩ := derives_atom.1 h
    exact laid_atom (k := .boolean) ha
  · exact laid_compound h

theorem laid_of_reads {R : Rule} (h : ReadsAs R s t s') : Laid s s' t.nodes := by
  refine rule_induction (motive := fun _ s t s' => Laid s s' t.nodes) ?_ h
  intro R s t s' h
  change Derives grammar LaidBy (Reads.body R) s t s' at h
  cases R with
  | assignment => exact laid_rightChain (by decide) h
  | disjunction => exact laid_leftChain (by decide) h
  | conjunction => exact laid_leftChain (by decide) h
  | negation => exact h.elim (laid_prefixed (by decide)) fun h => h.2.2
  | relation => exact laid_leftChain (by decide) h
  | sum => exact laid_leftChain (by decide) h
  | product => exact laid_leftChain (by decide) h
  | signed => exact h.elim (laid_prefixed (by decide)) fun h => h.2.2
  | dotProduct => exact laid_leftChain (by decide) h
  | exponent => exact h.elim (laid_prefixed (by decide)) fun h => h.2.2
  | power => exact laid_rightChain (by decide) h
  | factorial => exact laid_factorial h
  | primary => exact laid_primary h

/-- The tree of a text is laid out in the text. -/
theorem laid_of_parseTree (h : parseTree s = .ok t) : Laid s [] t.nodes := by
  obtain ⟨s₁, hr, -⟩ := yields_root.1 (parseTree_eq_ok.1 h)
  exact (laid_of_reads hr).mono (skipBlanks_suffix s) List.nil_suffix

end AlgebraBatch.Syntax
