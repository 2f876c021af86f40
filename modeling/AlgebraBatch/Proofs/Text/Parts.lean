import AlgebraBatch.Expr.Literal
import AlgebraBatch.Text.Search

/-!
# Parts of a program text

A `Reader` goes through a text of the engine's language one character after the other. A double
quote opens and closes a literal, in which a backslash protects the next character; outside of
literals brackets pair up, and there is neither a terminator nor the beginning of a comment.
`parts? text` is what stands between the commas that are outside of all literals and brackets; it
is nothing if a literal or a bracket is not closed or if something stands in the text that may not.
A `Closed` text leaves nothing open and has no comma of its own, so it comes out as one part.
-/

namespace AlgebraBatch.Text

/-- Where a reader stands. -/
inductive Place where
  /-- Outside of literals, perhaps right after a slash. -/
  | code (afterSlash : Bool)
  /-- In a literal, perhaps right after a backslash that protects what follows. -/
  | literal (guarded : Bool)
  deriving DecidableEq, Repr

structure Reader where
  place : Place
  /-- The closing brackets that are still to come, the next one first. -/
  awaited : List Char
  deriving DecidableEq, Repr

/-- The bracket that closes an opening one. -/
def closing? : Char → Option Char
  | '(' => some ')'
  | '[' => some ']'
  | '\x7b' => some '\x7d'
  | _ => none

namespace Reader

/-- At the beginning of a part. -/
def fresh : Reader := ⟨.code false, []⟩

/-- Neither a literal nor a bracket is open. -/
def isFree (r : Reader) : Bool :=
  match r.place with
  | .code _ => r.awaited.isEmpty
  | .literal _ => false

/-- Reads a closing bracket, which must be the awaited one. -/
def close (c : Char) : List Char → Option Reader
  | d :: ds => if d == c then some ⟨.code false, ds⟩ else none
  | [] => none

/-- Reads a character outside of literals. A comma outside of brackets belongs to no part. -/
def readCode (afterSlash : Bool) (awaited : List Char) (c : Char) : Option Reader :=
  match closing? c with
  | some d => some ⟨.code false, d :: awaited⟩
  | none =>
    if c == '"' then some ⟨.literal false, awaited⟩
    else if c == '/' then some ⟨.code true, awaited⟩
    else if [')', ']', '\x7d'].contains c then close c awaited
    else if c == ';' || c == '$' || (afterSlash && c == '*') || (c == ',' && awaited.isEmpty) then none
    else some ⟨.code false, awaited⟩

def readLiteral (guarded : Bool) (c : Char) : Place :=
  if guarded then .literal false
  else if c == '\\' then .literal true
  else if c == '"' then .code false
  else .literal false

def step (r : Reader) (c : Char) : Option Reader :=
  match r.place with
  | .code afterSlash => readCode afterSlash r.awaited c
  | .literal guarded => some ⟨readLiteral guarded c, r.awaited⟩

def scan : Reader → List Char → Option Reader
  | r, [] => some r
  | r, c :: cs => (r.step c).bind fun r => r.scan cs

end Reader

/-- The parts of what is left of a text, of which the first one has begun. -/
def partsFrom? (r : Reader) : List Char → Option (List (List Char))
  | [] => if r.isFree then some [[]] else none
  | c :: cs =>
    if r.isFree && c == ',' then (partsFrom? .fresh cs).map ([] :: ·)
    else (r.step c).bind fun r => (partsFrom? r cs).map fun ps => ps.modifyHead (c :: ·)

/-- The parts of a text between its commas. -/
def parts? (text : String) : Option (List String) :=
  (partsFrom? .fresh text.toList).map fun ps => ps.map String.ofList

/-! ## Reading on -/

namespace Reader

variable {r r' : Reader} {c d : Char} {cs ds : List Char} {b : Bool}

theorem scan_code (b : Bool) (ds : List Char) (c : Char) (cs : List Char) :
    Reader.scan ⟨.code b, ds⟩ (c :: cs) = (readCode b ds c).bind fun r => r.scan cs := rfl

theorem scan_literal (g : Bool) (ds : List Char) (c : Char) (cs : List Char) :
    Reader.scan ⟨.literal g, ds⟩ (c :: cs) = Reader.scan ⟨readLiteral g c, ds⟩ cs := rfl

theorem scan_append (h : r.scan cs = some r') : r.scan (cs ++ ds) = r'.scan ds := by
  induction cs generalizing r with
  | nil => cases h; rfl
  | cons c cs ih =>
    obtain ⟨r₁, h₁, h⟩ := Option.bind_eq_some_iff.1 h
    rw [List.cons_append, scan, h₁, Option.bind_some, ih h]

/-- The reader inside of more brackets. -/
def within (r : Reader) (ds : List Char) : Reader := ⟨r.place, r.awaited ++ ds⟩

theorem close_within (h : close c cs = some r') : close c (cs ++ ds) = some (r'.within ds) := by
  cases cs with
  | nil => cases h
  | cons d cs =>
    rw [close] at h
    split at h
    · next hd =>
      cases h
      rw [List.cons_append, close, if_pos hd]
      rfl
    · cases h

theorem readCode_within (h : readCode b cs c = some r') :
    readCode b (cs ++ ds) c = some (r'.within ds) := by
  unfold readCode at h ⊢
  split at h
  · cases h; rfl
  · split at h
    · next hc => cases h; rw [if_pos hc]; rfl
    · next hc =>
      rw [if_neg hc]
      split at h
      · next hc => cases h; rw [if_pos hc]; rfl
      · next hc =>
        rw [if_neg hc]
        split at h
        · next hc => rw [if_pos hc]; exact close_within h
        · next hc =>
          rw [if_neg hc]
          split at h
          · cases h
          · next hc =>
            cases h
            refine if_neg fun hn => hc ?_
            simp only [Bool.or_eq_true, Bool.and_eq_true, List.isEmpty_iff,
              List.append_eq_nil_iff] at hn ⊢
            exact hn.imp_right fun h => ⟨h.1, h.2.1⟩

/-- What can be read can be read inside of brackets. -/
theorem scan_within (h : r.scan cs = some r') (ds : List Char) :
    (r.within ds).scan cs = some (r'.within ds) := by
  induction cs generalizing r with
  | nil => cases h; rfl
  | cons c cs ih =>
    obtain ⟨r₁, h₁, h⟩ := Option.bind_eq_some_iff.1 h
    have hstep : (r.within ds).step c = some (r₁.within ds) := by
      obtain ⟨place, awaited⟩ := r
      cases place with
      | code b => exact readCode_within h₁
      | literal g => cases h₁; rfl
    rw [scan, hstep, Option.bind_some, ih h]

end Reader

/-! ## Closed texts -/

open Reader

/-- The text can be read anywhere outside of literals, and leaves nothing open. -/
def Closed (cs : List Char) : Prop := ∀ b, Reader.scan ⟨.code b, []⟩ cs = some fresh

instance (cs : List Char) : Decidable (Closed cs) :=
  inferInstanceAs (Decidable (∀ b : Bool, Reader.scan ⟨.code b, []⟩ cs = some fresh))

/-- The characters that are more than a part of a name, a number or an operator, and the asterisk,
which may not follow a slash. -/
def specials : List Char := ['"', '/', '(', ')', '[', ']', '\x7b', '\x7d', ';', '$', ',', '*']

section

variable {c o : Char} {cs ds : List Char}

theorem readCode_plain (h : c ∉ specials) (b : Bool) (ds : List Char) :
    readCode b ds c = some ⟨.code false, ds⟩ := by
  simp only [specials, List.mem_cons, List.not_mem_nil, or_false, not_or] at h
  have hclosing : closing? c = none := by
    unfold closing?
    split <;> simp_all
  simp [readCode, hclosing, h]

theorem readCode_closing (h : closing? o = some c) (b : Bool) (ds : List Char) :
    readCode b (c :: ds) c = some ⟨.code false, ds⟩ := by
  unfold closing? at h
  split at h <;> cases h <;> rfl

theorem scan_plain (h : ∀ c ∈ cs, c ∉ specials) (ds : List Char) :
    Reader.scan ⟨.code false, ds⟩ cs = some ⟨.code false, ds⟩ := by
  induction cs with
  | nil => rfl
  | cons c cs ih =>
    rw [scan_code, readCode_plain (h c List.mem_cons_self), Option.bind_some]
    exact ih fun d hd => h d (List.mem_cons_of_mem _ hd)

theorem closed_of_plain (hne : cs ≠ []) (h : ∀ c ∈ cs, c ∉ specials) : Closed cs := by
  intro b
  cases cs with
  | nil => exact absurd rfl hne
  | cons c cs =>
    rw [scan_code, readCode_plain (h c List.mem_cons_self), Option.bind_some]
    exact scan_plain (fun d hd => h d (List.mem_cons_of_mem _ hd)) []

/-- A literal ends where the text that it was written for ends. -/
theorem scan_escape (ds : List Char) :
    Reader.scan ⟨.literal false, ds⟩ (Literal.escape cs ++ ['"']) = some ⟨.code false, ds⟩ := by
  induction cs with
  | nil => rfl
  | cons c cs ih =>
    rw [Literal.escape]
    split
    · next h =>
      have hc : c = '\\' ∨ c = '"' := by simpa using h
      rcases hc with rfl | rfl <;> exact ih
    · next h =>
      have hc : c ≠ '\\' ∧ c ≠ '"' := by simpa using h
      have hplace : readLiteral false c = .literal false := by simp [readLiteral, hc]
      rw [List.cons_append, scan_literal, hplace, ih]

theorem closed_quote (cs : List Char) : Closed (Literal.quote cs) := fun _ => scan_escape []

theorem Closed.within (h : Closed cs) (b : Bool) (ds : List Char) :
    Reader.scan ⟨.code b, ds⟩ cs = some ⟨.code false, ds⟩ :=
  scan_within (h b) ds

theorem Closed.append (h : Closed cs) (h' : Closed ds) : Closed (cs ++ ds) := fun b => by
  rw [scan_append (h b)]
  exact h' false

theorem closed_bracketed (ho : closing? o = some c)
    (h : Reader.scan ⟨.code false, [c]⟩ cs = some ⟨.code false, [c]⟩) :
    Closed (o :: (cs ++ [c])) := by
  intro b
  have hopen : readCode b [] o = some ⟨.code false, [c]⟩ := by rw [readCode, ho]
  rw [scan_code, hopen, Option.bind_some, scan_append h, scan_code, readCode_closing ho,
    Option.bind_some]
  rfl

/-! ## Parts of joined texts -/

theorem step_comma {r : Reader} (h : r.isFree = true) : r.step ',' = none := by
  obtain ⟨place, awaited⟩ := r
  cases place with
  | literal g => cases h
  | code b =>
    obtain rfl : awaited = [] := List.isEmpty_iff.1 h
    cases b <;> rfl

theorem partsFrom?_append {r r' : Reader} (h : r.scan cs = some r') :
    partsFrom? r (cs ++ ds) = (partsFrom? r' ds).map fun ps => ps.modifyHead (cs ++ ·) := by
  induction cs generalizing r with
  | nil =>
    cases h
    have hid : (fun ps : List (List Char) => ps.modifyHead ([] ++ ·)) = id := by
      funext ps
      cases ps <;> rfl
    rw [List.nil_append, hid, Option.map_id, id]
  | cons c cs ih =>
    obtain ⟨r₁, h₁, h⟩ := Option.bind_eq_some_iff.1 h
    have hcomma : ¬ (r.isFree && c == ',') = true := by
      intro hc
      obtain ⟨hf, rfl⟩ : r.isFree = true ∧ c = ',' := by simpa using hc
      rw [step_comma hf] at h₁
      cases h₁
    rw [List.cons_append, partsFrom?, if_neg hcomma, h₁, Option.bind_some, ih h, Option.map_map]
    simp only [Function.comp_def, List.modifyHead_modifyHead, List.cons_append]

theorem partsFrom?_closed (h : Closed cs) : partsFrom? fresh cs = some [cs] := by
  have hp := @partsFrom?_append cs [] _ _ (h false)
  rw [List.append_nil] at hp
  rw [fresh, hp]
  exact congrArg (fun cs => some [cs]) (List.append_nil cs)

theorem partsFrom?_comma (h : Closed cs) (ds : List Char) :
    partsFrom? fresh (cs ++ ',' :: ds) = (partsFrom? fresh ds).map (cs :: ·) := by
  have hcomma : partsFrom? fresh (',' :: ds) = (partsFrom? fresh ds).map ([] :: ·) := rfl
  have hhead : (fun ps : List (List Char) => ps.modifyHead (cs ++ ·)) ∘ ([] :: ·) = (cs :: ·) :=
    funext fun ps => congrArg (· :: ps) (List.append_nil cs)
  rw [fresh, partsFrom?_append (h false), ← fresh, hcomma, Option.map_map, hhead]

end

theorem toList_joinWith_comma (t t' : String) (ts : List String) :
    (joinWith "," (t :: t' :: ts)).toList = t.toList ++ ',' :: (joinWith "," (t' :: ts)).toList := by
  rw [joinWith, String.toList_append, String.toList_append, List.append_assoc]
  · rfl
  · nofun

/-- Inside of a bracket, the commas between closed texts separate nothing else. -/
theorem scan_joinWith {items : List String} (h : ∀ t ∈ items, Closed t.toList) (c : Char) :
    Reader.scan ⟨.code false, [c]⟩ (joinWith "," items).toList = some ⟨.code false, [c]⟩ := by
  induction items with
  | nil => rfl
  | cons t ts ih =>
    obtain ⟨ht, hts⟩ := List.forall_mem_cons.1 h
    cases ts with
    | nil => exact ht.within false [c]
    | cons t' ts =>
      rw [toList_joinWith_comma, scan_append (ht.within false [c])]
      exact ih hts

/-- Closed texts with commas between them come apart again. -/
theorem parts?_joinWith {items : List String} (hne : items ≠ [])
    (h : ∀ t ∈ items, Closed t.toList) : parts? (joinWith "," items) = some items := by
  have hparts : partsFrom? fresh (joinWith "," items).toList = some (items.map String.toList) := by
    induction items with
    | nil => exact absurd rfl hne
    | cons t ts ih =>
      obtain ⟨ht, hts⟩ := List.forall_mem_cons.1 h
      cases ts with
      | nil => exact partsFrom?_closed ht
      | cons t' ts =>
        rw [toList_joinWith_comma, partsFrom?_comma ht, ih (List.cons_ne_nil _ _) hts]
        rfl
  rw [parts?, hparts, Option.map_some, List.map_map]
  refine congrArg some ((List.map_congr_left fun t _ => ?_).trans (List.map_id items))
  exact String.ofList_toList

end AlgebraBatch.Text
