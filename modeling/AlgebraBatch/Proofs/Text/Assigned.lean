import AlgebraBatch.Expr.Literal
import AlgebraBatch.Proofs.Syntax.FloatLexeme
import AlgebraBatch.Proofs.Text.Parts

/-!
# The names that a text assigns

A name is assigned where it stands right before a colon, outside of literals, unless the colon goes
on as `:=` or `::`. A `Watch` goes through a text one character after the other and notices these
names; `assignedNames text` lists them. `Watched w cs ns w'` says what reading `cs` comes to: `ns`
are noticed, and the watch goes from `w` to `w'`. Such facts are put together by `Watched.append`,
so a text that is written from parts is read part by part.
-/

namespace AlgebraBatch.Text

open AlgebraBatch.Syntax

/-- What stands right before the next character, outside of literals. -/
inductive Spot where
  | plain
  | number
  | name (chars : List Char)
  /-- A colon after a name; the next character decides whether the name is assigned. -/
  | colon (chars : List Char)
  deriving DecidableEq, Repr

namespace Spot

/-- No colon waits for the character after it. -/
def isSettled : Spot → Bool
  | colon _ => false
  | _ => true

/-- The name that has just been read. -/
def name? : Spot → Option String
  | name cs => some (String.ofList cs)
  | _ => none

/-- The spot after a colon. -/
def assigned : Spot → Spot
  | name cs => colon cs
  | _ => plain

end Spot

/-- Where a watch stands, as `Place` for a reader of brackets. -/
inductive Watch where
  | code (spot : Spot)
  | literal (guarded : Bool)
  deriving DecidableEq, Repr

/-- The characters of which names and numbers are made. -/
def isRun (c : Char) : Bool := isNameChar c || isDecimalDigit c

namespace Watch

/-- Goes on with a name or a number, or begins one. -/
def readRun (c : Char) : Spot → Spot
  | .number => .number
  | .name cs => .name (cs ++ [c])
  | _ => if isNameStart c then .name [c] else .number

def readMark (c : Char) : Spot → Spot
  | .number => if c == '.' then .number else .plain
  | spot => if c == ':' then spot.assigned else .plain

def step : Watch → Char → Watch
  | code spot, c =>
    if c == '"' then literal false
    else code (if isRun c then readRun c spot else readMark c spot)
  | literal guarded, c =>
    if guarded then literal false
    else if c == '\\' then literal true
    else if c == '"' then code .plain
    else literal false

/-- The name of which the character shows that it is assigned. -/
def noticed : Watch → Char → List String
  | code (.colon cs), c => if c == '=' || c == ':' then [] else [String.ofList cs]
  | _, _ => []

def names : Watch → List Char → List String
  | _, [] => []
  | w, c :: cs => w.noticed c ++ names (w.step c) cs

def after (w : Watch) (cs : List Char) : Watch := cs.foldl step w

/-- At the beginning of a text. -/
def fresh : Watch := code .plain

end Watch

/-- The names that a text assigns, in order. -/
def assignedNames (text : String) : List String := Watch.fresh.names text.toList

/-! ## Reading on -/

open Watch

/-- Reading the characters notices the names and leads from one place to the other. -/
structure Watched (w : Watch) (cs : List Char) (ns : List String) (w' : Watch) : Prop where
  names : w.names cs = ns
  after : w.after cs = w'

instance (w : Watch) (cs : List Char) (ns : List String) (w' : Watch) :
    Decidable (Watched w cs ns w') :=
  decidable_of_iff (w.names cs = ns ∧ w.after cs = w') ⟨fun h => ⟨h.1, h.2⟩, fun h => ⟨h.1, h.2⟩⟩

section

variable {w w' w'' : Watch} {c : Char} {cs ds sep : List Char} {ns ns' : List String} {spot : Spot}

theorem Watched.nil (w : Watch) : Watched w [] [] w := ⟨rfl, rfl⟩

theorem Watched.cons (h : Watched (w.step c) cs ns w') :
    Watched w (c :: cs) (w.noticed c ++ ns) w' :=
  ⟨congrArg (w.noticed c ++ ·) h.names, h.after⟩

/-- A step that notices nothing. -/
theorem Watched.silent_cons (hn : w.noticed c = []) (hs : w.step c = w'') (h : Watched w'' cs ns w') :
    Watched w (c :: cs) ns w' := by
  subst hs
  have := h.cons
  rwa [hn] at this

theorem Watched.append (h : Watched w cs ns w') (h' : Watched w' ds ns' w'') :
    Watched w (cs ++ ds) (ns ++ ns') w'' := by
  induction cs generalizing w ns with
  | nil =>
    obtain ⟨rfl, rfl⟩ := h
    exact h'
  | cons c cs ih =>
    obtain ⟨rfl, rfl⟩ := h
    have hrest : Watched (w.step c) (cs ++ ds) ((w.step c).names cs ++ ns') w'' := ih ⟨rfl, rfl⟩
    have := hrest.cons
    rwa [← List.append_assoc] at this

/-- A text that notices nothing on its way. -/
theorem Watched.after_silent (h : Watched w cs [] w') (h' : Watched w' ds ns w'') :
    Watched w (cs ++ ds) ns w'' :=
  h.append h'

/-- A text that notices nothing at its end. -/
theorem Watched.then_silent (h : Watched w cs ns w') (h' : Watched w' ds [] w'') :
    Watched w (cs ++ ds) ns w'' := by
  simpa using h.append h'

/-- A colon waits for any character that does not make another operator of it. -/
theorem Watched.colon {name : List Char} (h : Watched fresh (c :: cs) ns w') (hc : c ≠ '=')
    (hc' : c ≠ ':') :
    Watched (code (.colon name)) (c :: cs) (String.ofList name :: ns) w' := by
  have hstep : (code (.colon name)).step c = fresh.step c := by
    simp [step, fresh, readRun, readMark, Spot.assigned]
  obtain ⟨rfl, rfl⟩ := h
  refine ⟨?_, ?_⟩
  · rw [Watch.names, Watch.names, hstep]
    simp [noticed, hc, hc', fresh]
  · rw [Watch.after, Watch.after, List.foldl_cons, List.foldl_cons, hstep]

/-- After a colon, if there was a name before it, the name is noticed as soon as the text goes on. -/
theorem Watched.assigned (h : Watched fresh (c :: cs) ns w') (hc : c ≠ '=') (hc' : c ≠ ':') :
    Watched (code spot.assigned) (c :: cs) (spot.name?.toList ++ ns) w' := by
  cases spot with
  | name name => exact h.colon hc hc'
  | _ => exact h

/-- A mark that is neither a colon nor a point separates. -/
theorem watched_mark (hspot : spot.isSettled = true) (hc : c ∉ ['"', '.', ':'])
    (hrun : isRun c = false) : Watched (code spot) [c] [] fresh := by
  simp only [List.mem_cons, List.not_mem_nil, or_false, not_or] at hc
  cases spot with
  | colon name => cases hspot
  | _ => exact ⟨rfl, by simp [Watch.after, step, hc, hrun, readMark, fresh]⟩

/-! ## Separators -/

/-- The text begins with a mark that ends a name, and nothing in it is noticed. -/
def IsSeparator : List Char → Prop
  | [] => False
  | c :: cs => c ∉ ['"', '.', ':'] ∧ isRun c = false ∧ Watched fresh cs [] fresh

instance : DecidablePred IsSeparator
  | [] => .isFalse id
  | _ :: _ => inferInstanceAs (Decidable (_ ∧ _))

theorem IsSeparator.watched (h : IsSeparator sep) (hs : spot.isSettled = true) :
    Watched (.code spot) sep [] fresh := by
  cases sep with
  | nil => exact h.elim
  | cons c cs =>
    have hmark := watched_mark hs h.1 h.2.1
    exact hmark.after_silent h.2.2

theorem IsSeparator.watched_cons {c : Char} {w : Watch} (hc : IsSeparator [c])
    (hs : spot.isSettled = true) (h : Watched fresh (c :: cs) ns w) :
    Watched (.code spot) (c :: cs) ns w := by
  have hplain : Watched fresh [c] [] fresh := hc.watched rfl
  have hstep : fresh.step c = fresh := hplain.after
  have hrest : Watched fresh cs ns w := by
    obtain ⟨rfl, rfl⟩ := h
    refine ⟨?_, ?_⟩
    · rw [Watch.names, hstep]
      rfl
    · rw [Watch.after, Watch.after, List.foldl_cons, hstep]
  exact (hc.watched hs).after_silent hrest

/-! ## Names, numbers and literals -/

theorem ne_quote_of_isRun (h : isRun c = true) : c ≠ '"' := by
  rintro rfl
  exact absurd h (by decide)

theorem watched_number (h : ∀ c ∈ cs, isRun c = true ∨ c = '.') :
    Watched (code .number) cs [] (code .number) := by
  induction cs with
  | nil => exact .nil _
  | cons c cs ih =>
    obtain ⟨hc, hcs⟩ := List.forall_mem_cons.1 h
    have hstep : (code .number).step c = code .number := by
      rcases hc with hc | rfl
      · simp [step, ne_quote_of_isRun hc, hc, readRun]
      · decide
    exact (ih hcs).silent_cons rfl hstep

theorem isRun_of_isDecimalDigit (h : isDecimalDigit c = true) : isRun c = true := by
  rw [isRun, h, Bool.or_true]

/-- Digits, and then anything that may stand in a number. -/
theorem watched_digits (hc : isDecimalDigit c = true) (h : ∀ c ∈ cs, isRun c = true ∨ c = '.') :
    Watched fresh (c :: cs) [] (code .number) := by
  have hrun := isRun_of_isDecimalDigit hc
  have hstart : isNameStart c = false := by
    cases hs : isNameStart c with
    | false => rfl
    | true =>
      rw [not_isDecimalDigit_of_isNameStart hs] at hc
      cases hc
  have hstep : fresh.step c = code .number := by
    simp [fresh, step, ne_quote_of_isRun hrun, hrun, readRun, hstart]
  exact (watched_number h).silent_cons rfl hstep

theorem watched_nameTail (h : ∀ c ∈ cs, isNameChar c = true) (name : List Char) :
    Watched (code (.name name)) cs [] (code (.name (name ++ cs))) := by
  induction cs generalizing name with
  | nil =>
    rw [List.append_nil]
    exact .nil _
  | cons c cs ih =>
    obtain ⟨hc, hcs⟩ := List.forall_mem_cons.1 h
    have hrun : isRun c = true := by rw [isRun, hc, Bool.true_or]
    have hstep : (code (.name name)).step c = code (.name (name ++ [c])) := by
      simp [step, ne_quote_of_isRun hrun, hrun, readRun]
    have := (ih hcs (name ++ [c])).silent_cons rfl hstep
    rwa [List.append_assoc] at this

theorem watched_name (h : Pattern.identifier.IsLexeme cs) :
    Watched fresh cs [] (code (.name cs)) := by
  obtain ⟨c, t, rfl, hc, hs⟩ := identifier_cons h
  have hrun : isRun c = true := by rw [isRun, hs c List.mem_cons_self, Bool.true_or]
  have hstep : fresh.step c = code (.name [c]) := by
    simp [fresh, step, ne_quote_of_isRun hrun, hrun, readRun, hc]
  exact (watched_nameTail (fun d hd => hs d (List.mem_cons_of_mem c hd)) [c]).silent_cons rfl hstep

/-- An exponent is read as part of the number, up to its sign. -/
theorem watched_exponent (h : Numeral.IsExponent isDecimalDigit ['e', 'E', 'b', 'B'] cs) :
    Watched (code .number) cs [] (code .number) := by
  rcases h with rfl | ⟨m, hm, sign, hs, d, ds, rfl, hds⟩
  · exact .nil _
  · have hmark : isRun m = true := by
      have all : ∀ m ∈ ['e', 'E', 'b', 'B'], isRun m = true := by decide
      exact all m hm
    have hdigits : ∀ c ∈ d :: ds, isRun c = true ∨ c = '.' :=
      fun c hc => .inl (isRun_of_isDecimalDigit (hds c hc))
    have hm : Watched (code .number) [m] [] (code .number) :=
      watched_number fun c hc => .inl (List.mem_singleton.1 hc ▸ hmark)
    refine Watched.after_silent hm ?_
    obtain rfl | hsign : sign = [] ∨ sign ∈ [['+'], ['-']] := by simpa using hs
    · exact watched_number hdigits
    · have all : ∀ s ∈ [['+'], ['-']], Watched (code .number) s [] fresh := by decide
      exact (all sign hsign).after_silent
        (watched_digits (hds d List.mem_cons_self) fun c hc => hdigits c (List.mem_cons_of_mem d hc))

theorem watched_float (h : Pattern.float.IsLexeme cs) : Watched fresh cs [] (code .number) := by
  obtain ⟨whole, fraction, exponent, rfl, hd⟩ := Numeral.isDecimal_of_acceptFloat h
  rw [List.append_nil, ← List.append_assoc]
  refine Watched.after_silent ?_ (watched_exponent hd.isExponent)
  have hrun : ∀ c ∈ whole, isRun c = true ∨ c = '.' :=
    fun c hc => .inl (isRun_of_isDecimalDigit (hd.isWhole c hc))
  cases whole with
  | nil =>
    rcases hd.isFraction with rfl | ⟨ds, rfl, hds⟩
    · simpa using hd.hasDigits
    · have hpoint : Watched fresh ['.'] [] fresh := by decide
      cases ds with
      | nil => simpa using hd.hasDigits
      | cons d ds =>
        have hdigits : Watched fresh (d :: ds) [] (.code .number) :=
          watched_digits (hds d List.mem_cons_self) fun c hc =>
            .inl (isRun_of_isDecimalDigit (hds c (List.mem_cons_of_mem d hc)))
        exact hpoint.after_silent hdigits
  | cons c whole =>
    refine watched_digits (hd.isWhole c List.mem_cons_self) fun d hd' => ?_
    rcases List.mem_append.1 hd' with hd' | hd'
    · exact hrun d (List.mem_cons_of_mem c hd')
    · rcases hd.isFraction with rfl | ⟨ds, rfl, hds⟩
      · cases hd'
      · rcases List.mem_cons.1 hd' with rfl | hd'
        · exact .inr rfl
        · exact .inl (isRun_of_isDecimalDigit (hds d hd'))

/-- Nothing in a literal is noticed. -/
theorem watched_escape : Watched (literal false) (Literal.escape cs ++ ['"']) [] fresh := by
  induction cs with
  | nil => decide
  | cons c cs ih =>
    rw [Literal.escape]
    split
    · next h =>
      have hc : c = '\\' ∨ c = '"' := by simpa using h
      have hpair : Watched (literal false) ['\\', c] [] (literal false) := by
        rcases hc with rfl | rfl <;> decide
      exact hpair.after_silent ih
    · next h =>
      have hc : c ≠ '\\' ∧ c ≠ '"' := by simpa using h
      have hone : Watched (literal false) [c] [] (literal false) :=
        ⟨rfl, by simp [Watch.after, step, hc]⟩
      exact hone.after_silent ih

theorem watched_quote (cs : List Char) : Watched fresh (Literal.quote cs) [] fresh := by
  have hopen : Watched fresh ['"'] [] (literal false) := by decide
  exact hopen.after_silent watched_escape

/-! ## Whole texts -/

/-- A text that notices the names, and leaves no name waiting at its end. -/
def Settles (t : String) (ns : List String) : Prop :=
  ∃ spot : Spot, Watched fresh t.toList ns (.code spot) ∧ spot.isSettled = true

theorem Watched.settles {t : String} (h : Watched fresh t.toList ns fresh) : Settles t ns :=
  ⟨.plain, h, rfl⟩

theorem Settles.assignedNames {t : String} (h : Settles t ns) : assignedNames t = ns := by
  obtain ⟨spot, hw, -⟩ := h
  exact hw.names

theorem Settles.close {t : String} (h : Settles t ns) (hs : IsSeparator sep) :
    Watched fresh (t.toList ++ sep) ns fresh := by
  obtain ⟨spot, hw, hsettled⟩ := h
  exact hw.then_silent (hs.watched hsettled)

/-- Texts with commas between them assign what each of them does. -/
theorem settles_joinWith {items : List String} (h : ∀ t ∈ items, ∃ ns, Settles t ns) :
    Settles (joinWith "," items) (items.flatMap assignedNames) := by
  have hcomma : IsSeparator [','] := by decide
  induction items with
  | nil =>
    have hempty : Watched fresh "".toList [] fresh := by decide
    exact hempty.settles
  | cons t ts ih =>
    obtain ⟨⟨ns, ht⟩, hts⟩ := List.forall_mem_cons.1 h
    rw [List.flatMap_cons, ht.assignedNames]
    cases ts with
    | nil =>
      rw [List.flatMap_nil, List.append_nil]
      exact ht
    | cons t' ts =>
      obtain ⟨spot, hw, hsettled⟩ := ih hts
      have hclosed := (ht.close hcomma).append hw
      rw [List.append_assoc] at hclosed
      refine ⟨spot, ?_, hsettled⟩
      rw [toList_joinWith_comma]
      exact hclosed

end

end AlgebraBatch.Text
