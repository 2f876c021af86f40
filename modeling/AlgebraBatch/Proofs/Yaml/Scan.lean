import AlgebraBatch.Proofs.Except
import AlgebraBatch.Yaml.Token

/-!
# Faults among tokens

Scanning stops early only where an escape names a character that there is none of. This is the fault
of a value, and it becomes the last token; all other tokens are no faults (`isSound_of_mem`).
-/

namespace AlgebraBatch.Yaml.Token

/-- The token is no fault other than that of a value. -/
def IsSound : Token → Prop
  | fault f => f.isReport = false
  | _ => True

/-- All tokens of the scanner are sound. -/
def Scan.IsSound (s : Scan) : Prop := ∀ t ∈ s.tokens, t.IsSound

/-- The result has the property, or it is the fault of a value, or there is none. -/
def Gives {α : Type} (P : α → Prop) : Except Failure α → Prop
  | .ok a => P a
  | .error .malformed => True
  | .error (.fault f) => f.isReport = false

variable {α β : Type} {P : α → Prop} {Q : β → Prop} {s : Scan} {t : Token}

theorem Gives.of_ok {r : Except Failure α} {a : α} (h : Gives P r) (ha : r = .ok a) : P a := by
  rw [ha] at h
  exact h

theorem Gives.bind {r : Except Failure α} {g : α → Except Failure β} (h : Gives P r)
    (hg : ∀ a, P a → Gives Q (g a)) : Gives Q (r >>= g) := by
  cases r with
  | ok a => exact hg a h
  | error f =>
    cases f with
    | malformed => trivial
    | fault f => exact h

theorem Gives.map {r : Except Failure α} {g : α → β} (h : Gives P r) (hg : ∀ a, P a → Q (g a)) :
    Gives Q (r.map g) := by
  cases r with
  | ok a => exact hg a h
  | error f =>
    cases f with
    | malformed => trivial
    | fault f => exact h

theorem Gives.ite {c : Prop} [Decidable c] {r r' : Except Failure α} (h : Gives P r)
    (h' : Gives P r') : Gives P (if c then r else r') := by
  split
  · exact h
  · exact h'

/-! ## Quoted scalars -/

theorem gives_charOfCode (n : Nat) : Gives (fun _ => True) (charOfCode n) := by
  unfold charOfCode
  split
  · rfl
  · split
    · rfl
    · trivial

theorem gives_hexEscape (length : Nat) (cs : List Char) :
    Gives (fun _ => True) (hexEscape length cs) := by
  unfold hexEscape
  split
  · split
    · exact gives_charOfCode _
    · trivial
  · trivial

theorem gives_quotedBreaks (fuel : Nat) : ∀ cur : Cursor,
    Gives (fun _ => True) (quotedBreaks fuel cur) := by
  induction fuel with
  | zero => exact fun _ => trivial
  | succ fuel ih =>
    intro cur
    rw [quotedBreaks]
    split
    · trivial
    · simp only
      split
      · trivial
      · exact (ih _).map fun _ _ => trivial

theorem gives_quotedText (double : Bool) (fuel : Nat) : ∀ cur : Cursor,
    Gives (fun _ => True) (quotedText double fuel cur) := by
  induction fuel with
  | zero => exact fun _ => trivial
  | succ fuel ih =>
    intro cur
    unfold quotedText
    split
    · trivial
    split
    · simp only
      split
      · split
        · trivial
        · exact (ih _).bind fun _ _ => trivial
      · exact (gives_quotedBreaks _ _).bind fun _ _ => (ih _).bind fun _ _ => trivial
    split
    · split
      · exact (ih _).bind fun _ _ => trivial
      · trivial
    split
    · trivial
    split
    · split
      · trivial
      · split
        · exact (ih _).bind fun _ _ => trivial
        · exact (gives_hexEscape _ _).bind fun _ _ => (ih _).bind fun _ _ => trivial
        · split
          · trivial
          · exact (gives_quotedBreaks _ _).bind fun _ _ => (ih _).bind fun _ _ => trivial
    · exact (ih _).bind fun _ _ => trivial

/-! ## Steps -/

namespace Scan

theorem IsSound.push (h : s.IsSound) (ht : t.IsSound) : (s.push t).IsSound := by
  intro u hu
  rcases Array.mem_push.1 hu with hu | rfl
  · exact h u hu
  · exact ht

theorem IsSound.unwind (h : s.IsSound) (column : Int) : (s.unwind column).IsSound := by
  unfold Scan.unwind
  split
  · exact h
  · intro t ht
    obtain ⟨n, indent, indents⟩ := leave column s.indent s.indents
    simp only [List.foldl_push_eq_append', Array.mem_append, List.mem_toArray] at ht
    rcases ht with ht | ht
    · exact h t ht
    · rw [List.eq_of_mem_replicate ht]
      trivial

theorem IsSound.dropStale (h : s.IsSound) : Gives IsSound s.dropStale := by
  unfold Scan.dropStale
  split
  · trivial
  · exact h

theorem IsSound.dropPending (h : s.IsSound) : Gives IsSound s.dropPending := by
  unfold Scan.dropPending
  split
  · exact h
  · split
    · trivial
    · exact h

theorem IsSound.savePending (h : s.IsSound) : Gives IsSound s.savePending := by
  unfold Scan.savePending
  split
  · exact h
  · exact h.dropPending.bind fun _ hs => hs

theorem IsSound.deepen (h : s.IsSound) (column : Int) : (s.deepen column).2.IsSound := by
  unfold Scan.deepen
  split
  · exact h
  · exact h

theorem IsSound.openBlock (h : s.IsSound) (ht : t.IsSound) : (s.openBlock t).IsSound := by
  have hs := h.deepen s.cursor.column
  simp only [Scan.openBlock]
  split
  · exact hs.push ht
  · exact hs

theorem mem_of_mem_extract {ts : Array Token} {start stop : Nat} (h : t ∈ ts.extract start stop) :
    t ∈ ts := by
  rw [← Array.mem_toList_iff, Array.toList_extract, List.extract_eq_take_drop] at h
  exact Array.mem_toList_iff.1 (List.mem_of_mem_drop (List.mem_of_mem_take h))

theorem IsSound.insertToken (h : s.IsSound) (number : Nat) (t : Token) (ht : t.IsSound) :
    (s.insertToken number t).IsSound := by
  intro u hu
  rcases Array.mem_append.1 hu with hu | hu
  · rcases Array.mem_push.1 hu with hu | rfl
    · exact h u (mem_of_mem_extract hu)
    · exact ht
  · exact h u (mem_of_mem_extract hu)

theorem IsSound.documentMark (h : s.IsSound) (ht : t.IsSound) :
    Gives IsSound (s.documentMark t) :=
  (h.unwind (-1)).dropPending.bind fun _ hs => hs.push ht

theorem IsSound.flowStart (h : s.IsSound) (ht : t.IsSound) : Gives IsSound (s.flowStart t) :=
  h.savePending.bind fun _ hs => hs.push ht

theorem IsSound.flowEnd (h : s.IsSound) (ht : t.IsSound) : Gives IsSound (s.flowEnd t) := by
  unfold Scan.flowEnd
  split
  · trivial
  · exact h.dropPending.bind fun _ hs => hs.push ht

theorem IsSound.pushAfter (h : s.IsSound) (t : Token) (ht : t.IsSound) (n : Nat) :
    Gives IsSound (s.dropPending >>= fun s => .ok ((s.forward n).push t)) :=
  h.dropPending.bind fun _ hs => IsSound.push (s := Scan.forward _ n) hs ht

theorem IsSound.flowEntry (h : s.IsSound) : Gives IsSound s.flowEntry := by
  refine IsSound.pushAfter ?_ .flowEntry trivial 1
  exact h

/-- A block collection is opened where none is open that is indented as far. -/
theorem IsSound.openAtBlock (h : s.IsSound) (ht : t.IsSound) :
    (if s.flowLevel == 0 then s.openBlock t else s).IsSound := by
  split
  · exact h.openBlock ht
  · exact h

theorem IsSound.blockEntry (h : s.IsSound) : Gives IsSound s.blockEntry := by
  have hs : Scan.IsSound (if s.flowLevel == 0 then s.openBlock .blockSequenceStart else s) :=
    h.openAtBlock trivial
  unfold Scan.blockEntry
  split
  · trivial
  · refine IsSound.pushAfter ?_ .blockEntry trivial 1
    exact hs

theorem IsSound.keyMark (h : s.IsSound) : Gives IsSound s.keyMark := by
  have hs : Scan.IsSound (if s.flowLevel == 0 then s.openBlock .blockMappingStart else s) :=
    h.openAtBlock trivial
  unfold Scan.keyMark
  split
  · trivial
  · refine IsSound.pushAfter ?_ .key trivial 1
    exact hs

theorem IsSound.valueMark (h : s.IsSound) : Gives IsSound s.valueMark := by
  unfold Scan.valueMark
  split
  · next p _ =>
    have hkey : Scan.IsSound (Scan.insertToken { s with
        pending := s.pending.filter (·.1 != s.flowLevel), allowKey := false } p.tokenNumber .key) :=
      IsSound.insertToken h _ _ trivial
    refine IsSound.push (s := Scan.forward _ 1) ?_ trivial
    split
    · have hdeepen := hkey.deepen p.column
      simp only
      split
      · exact hdeepen.insertToken _ _ trivial
      · exact hdeepen
    · exact hkey
  · have hs : Scan.IsSound (if s.flowLevel == 0 then s.openBlock .blockMappingStart else s) :=
      h.openAtBlock trivial
    split
    · trivial
    · refine IsSound.pushAfter ?_ .value trivial 1
      exact hs

theorem IsSound.quotedScalar (h : s.IsSound) (double : Bool) :
    Gives IsSound (s.quotedScalar double) :=
  h.savePending.bind fun _ hs => (gives_quotedText _ _ _).bind fun _ _ => hs.push trivial

theorem IsSound.plainScalar (h : s.IsSound) : Gives IsSound s.plainScalar :=
  h.savePending.bind fun _ hs => hs.push trivial

theorem isSound_of_version? {cs : List Char} (h : version? cs = some t) : t.IsSound := by
  simp only [version?] at h
  split at h
  · split at h
    · cases h
    · split at h
      · cases h
        trivial
      · cases h
  · cases h

theorem isSound_of_directive? {line : List Char} (h : directive? line = some t) : t.IsSound := by
  simp only [directive?] at h
  split at h
  · cases h
  · split at h
    · exact isSound_of_version? h
    · cases h
    · cases h
      trivial

theorem IsSound.directiveMark (h : s.IsSound) (cs : List Char) :
    Gives IsSound (s.directiveMark cs) := by
  unfold Scan.directiveMark
  simp only
  split
  · trivial
  · next t ht =>
    exact (h.unwind (-1)).dropPending.bind fun _ hs => hs.push (isSound_of_directive? ht)

theorem IsSound.token (h : s.IsSound) (c : Char) (cs : List Char) :
    Gives IsSound (s.token c cs) := by
  have hmark : Token.IsSound (if c == '-' then .documentStart else .documentEnd) := by
    split <;> trivial
  exact .ite (h.documentMark hmark) <| .ite (h.directiveMark cs) <|
    .ite (h.flowStart trivial) <| .ite (h.flowStart trivial) <|
    .ite (h.flowEnd trivial) <| .ite (h.flowEnd trivial) <|
    .ite h.flowEntry <| .ite h.blockEntry <| .ite h.keyMark <| .ite h.valueMark <|
    .ite (h.quotedScalar false) <| .ite (h.quotedScalar true) <| .ite h.plainScalar trivial

theorem IsSound.skipGap (fuel : Nat) : ∀ {s : Scan}, s.IsSound → (skipGap fuel s).IsSound := by
  induction fuel with
  | zero => exact fun h => h
  | succ fuel ih =>
    intro s h
    rw [Scan.skipGap]
    split
    · exact h
    · refine ih ?_
      exact h

theorem gives_tokensFrom (fuel : Nat) : ∀ {s : Scan}, s.IsSound →
    Gives (fun ts => ∀ t ∈ ts, t.IsSound) (tokensFrom fuel s) := by
  induction fuel with
  | zero => exact fun _ => trivial
  | succ fuel ih =>
    intro start h
    rw [tokensFrom]
    refine (h.skipGap _).dropStale.bind fun s hs => ?_
    have hunwound := hs.unwind s.cursor.column
    extract_lets s
    split
    · exact (hunwound.unwind (-1)).dropPending.bind fun _ hs => hs
    · next c cs _ =>
      have hstep := hunwound.token c cs
      split
      · next hok =>
        rw [hok] at hstep
        exact ih hstep
      · next f hfault =>
        rw [hfault] at hstep
        intro t ht
        rcases Array.mem_push.1 ht with ht | rfl
        · exact h t (mem_of_mem_extract ht)
        · exact hstep
      · trivial

theorem dropStale_ne_fault (s : Scan) (f : Fault) : s.dropStale ≠ .error (.fault f) := by
  unfold Scan.dropStale
  split
  · exact nofun
  · exact nofun

theorem dropPending_ne_fault (s : Scan) (f : Fault) : s.dropPending ≠ .error (.fault f) := by
  unfold Scan.dropPending
  split
  · exact nofun
  · split
    · exact nofun
    · exact nofun

/-- A fault in the text becomes a token. -/
theorem tokensFrom_ne_fault (fuel : Nat) (f : Fault) : ∀ s : Scan,
    tokensFrom fuel s ≠ .error (.fault f) := by
  induction fuel with
  | zero => exact fun _ => nofun
  | succ fuel ih =>
    intro start h
    rw [tokensFrom] at h
    rcases bind_eq_error.1 h with h | ⟨s, -, h⟩
    · exact dropStale_ne_fault _ f h
    simp only at h
    split at h
    · rcases bind_eq_error.1 h with h | ⟨s, -, h⟩
      · exact dropPending_ne_fault _ f h
      · cases h
    · split at h
      · exact ih _ h
      · cases h
      · cases h

end Scan

theorem ofText_ne_fault (text : String) (f : Fault) : ofText text ≠ .error (.fault f) := by
  intro h
  simp only [ofText] at h
  split at h
  · exact Scan.tokensFrom_ne_fault _ f _ (map_eq_error.1 h)
  · cases h

/-- The tokens of a text are sound. -/
theorem isSound_of_mem {text : String} {ts : List Token} (h : ofText text = .ok ts) (ht : t ∈ ts) :
    t.IsSound := by
  simp only [ofText] at h
  split at h
  · next hall =>
    obtain ⟨us, hus, rfl⟩ := map_eq_ok.1 h
    have hstart (cur : Cursor) : Scan.IsSound { cursor := cur } :=
      fun t ht => absurd ht (Array.not_mem_empty t)
    exact (Scan.gives_tokensFrom _ (hstart _)).of_ok hus t (Array.mem_toList_iff.1 ht)
  · cases h

end AlgebraBatch.Yaml.Token
