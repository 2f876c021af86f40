import AlgebraBatch.Proofs.Engine.Calls
import AlgebraBatch.Proofs.Engine.Payload
import AlgebraBatch.Proofs.Json.Length
import AlgebraBatch.Proofs.Yaml.Origin

/-!
# Answers within the protocol

An output is answered by a bag that tells of timeouts, or by a fault of the engine. This fails for
an output whose payload is not JSON and leads to a fault when it is read as YAML: the reader meets
something that has the form of a value and no value, or its value is no map and cannot be shown in
the fault (`isAnswered_iff`). What is JSON can always be shown. All of this is so for every reader of
YAML whose faults are its own; `token_of_escapes` says what leads to them with `Yaml.read`.
-/

namespace AlgebraBatch.Engine.Bag

section Reading

variable {α : Type} [Value α] (read : Yaml.Reader α)

/-- An output is answered within the protocol: none by the bag of a timeout, another one by a bag
with a member `timeout` or by a fault of the engine. -/
def IsAnswered : Option String → Prop
  | none => ofOutputBy read none =
      .ok [(Value.ofDatum (.str "timeout"), Value.ofDatum (.bool true))]
  | some output =>
    (∃ bag v, ofOutputBy read (some output) = .ok bag ∧ Value.lookup "timeout" bag = some v) ∨
      ∃ f, ofOutputBy read (some output) = .error (.engine f)

/-- The fault that a text leads to when it is read as YAML: that of the reader, or what keeps its
value, if that is no map, from being shown. -/
inductive Escapes (text : String) (f : Fault) : Prop
  | unread (h : read text = .error (.fault f))
  | unshown {v : α} (h : read text = .ok v) (hv : Value.entries? v = none)
    (hf : Value.writingFault? v = some f)

variable {read} {output text : String} {bag : List (α × α)} {v : α} {f : Fault}

theorem lookup_append_timeout (h : Value.lookup "timeout" bag = none) : Value.lookup "timeout"
    (bag ++ [(Value.ofDatum (.str "timeout"), v)]) = some v := by
  induction bag with
  | nil => exact if_pos (Value.text?_ofDatum _)
  | cons e es ih =>
    obtain ⟨k, w⟩ := e
    rw [Value.lookup] at h
    split at h
    · cases h
    · next hk =>
      rw [List.cons_append, Value.lookup, if_neg hk]
      exact ih h

theorem lookup_withTimeout (bag : List (α × α)) :
    ∃ v, Value.lookup "timeout" (withTimeout bag) = some v := by
  unfold withTimeout
  split
  · next v hv => exact ⟨v, hv⟩
  · next hv => exact ⟨_, lookup_append_timeout hv⟩

theorem payload_error (h : payload output = .error f) : ∃ e, f = .engine e := by
  unfold payload at h
  split at h
  · cases h
    exact ⟨_, rfl⟩
  · split at h
    · cases h
      exact ⟨_, rfl⟩
    · cases h

/-! ## What comes of a payload -/

/-- A fault of a value is not within the protocol. -/
theorem not_isAnswered (h : ofOutputBy read (some output) = .error f) (hf : f.isReport = false) :
    ¬ IsAnswered read (some output) := by
  rintro (⟨bag, v, hok, -⟩ | ⟨e, herror⟩)
  · cases h.symm.trans hok
  · cases h.symm.trans herror
    cases hf

/-- A map is answered, and so is what can be shown. -/
theorem isAnswered_value (hp : payload output = .ok text) (h : Wire.readJson read text = .ok v)
    (hv : Value.entries? v = none → Value.writingFault? v = none) :
    IsAnswered read (some output) := by
  have hread := ofOutputBy_payload read hp
  rw [h] at hread
  cases he : Value.entries? v with
  | some entries =>
    obtain ⟨w, hw⟩ := lookup_withTimeout entries
    exact .inl ⟨withTimeout entries, w, by rw [hread]; simp only [bind, Except.bind, he], hw⟩
  | none =>
    refine .inr ⟨.notMapping (Value.display v), ?_⟩
    rw [hread]
    simp only [bind, Except.bind, he, hv he, Option.getD_none]

/-- What is not JSON is read as YAML. -/
theorem readJson_of_none (read : Yaml.Reader α) (h : Json.read? text = none) :
    Wire.readJson read text = Wire.readYaml read text := by
  rw [Wire.readJson, h]

/-- What a text leads to comes of an output with the text as its payload. -/
theorem Escapes.ofOutput (h : Escapes read text f) (hp : payload output = .ok text)
    (hj : Json.read? text = none) : ofOutputBy read (some output) = .error f := by
  rw [ofOutputBy_payload read hp, readJson_of_none read hj, Wire.readYaml]
  cases h with
  | unread h =>
    rw [h]
    rfl
  | unshown h hv hf =>
    rw [h]
    simp only [bind, Except.bind, hv, hf, Option.getD_some]

theorem Escapes.isReport (hread : read.KeepsToItself) (h : Escapes read text f) :
    f.isReport = false := by
  cases h with
  | unread h => exact hread text f h
  | unshown h hv hf => exact Value.isReport_of_writingFault? hf

/-- What is JSON is a map or can be shown. -/
theorem writingFault?_ofDatum_eq_none (α : Type) [Value α] {d : Datum} (h : d.isOverlong = false) :
    Value.writingFault? (Value.ofDatum d : α) = none :=
  (Value.writingFault?_ofDatum d).trans (writingFault?_eq_none h)

/-- A text that is not JSON leads to a fault or is answered. -/
theorem escapes_or (read : Yaml.Reader α) (hp : payload output = .ok text) (hj : Json.read? text = none) :
    IsAnswered read (some output) ∨ ∃ f, Escapes read text f := by
  have hread := readJson_of_none read hj
  rw [Wire.readYaml] at hread
  cases hy : read text with
  | ok v =>
    rw [hy] at hread
    cases hf : Value.writingFault? v with
    | none => exact .inl (isAnswered_value hp hread fun _ => hf)
    | some f =>
      cases he : Value.entries? v with
      | some entries => exact .inl (isAnswered_value hp hread fun h => nomatch he.symm.trans h)
      | none => exact .inr ⟨f, .unshown hy he hf⟩
  | error failure =>
    cases failure with
    | malformed =>
      rw [hy] at hread
      exact .inl (isAnswered_value hp hread fun _ => writingFault?_ofDatum_eq_none α rfl)
    | fault f => exact .inr ⟨f, .unread hy⟩

/-- Every output is answered but one whose payload is not JSON and leads to a fault. -/
theorem isAnswered_or (output : String) : IsAnswered read (some output) ∨
    ∃ text f, payload output = .ok text ∧ Json.read? text = none ∧ Escapes read text f := by
  cases hp : payload output with
  | error f =>
    obtain ⟨e, rfl⟩ := payload_error hp
    exact .inl (.inr ⟨e, by rw [ofOutputBy, hp]; rfl⟩)
  | ok text =>
    cases hj : Json.read? text with
    | some d =>
      have hread : Wire.readJson read text = .ok (Value.ofDatum d) := by rw [Wire.readJson, hj]
      have hshort := writingFault?_ofDatum_eq_none α (Json.isOverlong_of_read? hj)
      exact .inl (isAnswered_value hp hread fun _ => hshort)
    | none =>
      rcases escapes_or read hp hj with h | ⟨f, h⟩
      · exact .inl h
      · exact .inr ⟨text, f, rfl, hj, h⟩

/-- An output is answered within the protocol exactly if its payload, when that is not JSON, leads to
no fault as YAML. Otherwise just this fault comes of the output, and it is no report of the
library. -/
theorem isAnswered_iff (hread : read.KeepsToItself) (output : Option String) :
    (IsAnswered read output ↔ ∀ raw ∈ output, ∀ text f, payload raw = .ok text →
      Json.read? text = none → ¬ Escapes read text f) ∧
    ∀ raw ∈ output, ∀ text f, payload raw = .ok text → Json.read? text = none →
      Escapes read text f → ofOutputBy read output = .error f ∧ f.isReport = false := by
  have hescapes : ∀ raw ∈ output, ∀ text f, payload raw = .ok text → Json.read? text = none →
      Escapes read text f → ofOutputBy read output = .error f ∧ f.isReport = false := by
    rintro raw hraw text f hp hj h
    obtain rfl := Option.mem_def.1 hraw
    exact ⟨h.ofOutput hp hj, h.isReport hread⟩
  refine ⟨⟨?_, ?_⟩, hescapes⟩
  · rintro h raw hraw text f hp hj hf
    obtain ⟨herror, hvalue⟩ := hescapes raw hraw text f hp hj hf
    obtain rfl := Option.mem_def.1 hraw
    exact not_isAnswered herror hvalue h
  · intro h
    cases output with
    | none => rfl
    | some raw =>
      refine (isAnswered_or raw).resolve_right ?_
      rintro ⟨text, f, hp, hj, hf⟩
      exact h raw rfl text f hp hj hf

end Reading

/-! ## A tag without a value -/

/-- `Yaml.read`, but for a tag that does not suit the word behind it. -/
def taggedReader : Yaml.Reader Datum := fun text =>
  if text = "!!bool foo" then .error (.fault .missingKey) else Yaml.read text

theorem keepsToItself_taggedReader : taggedReader.KeepsToItself := by
  intro text f h
  unfold taggedReader at h
  split at h
  · cases h
    rfl
  · exact Yaml.keepsToItself_read text f h

def taggedOutput : String := "STACK-OUTPUT-BEGINS>!!bool foo<STACK-OUTPUT-ENDS"

theorem isAnswered_iff_taggedOutput : taggedReader.KeepsToItself ∧
    ¬ IsAnswered taggedReader (some taggedOutput) ∧
    ofOutputBy taggedReader (some taggedOutput) = .error .missingKey := by
  have hp : payload taggedOutput = .ok "!!bool foo" := by decide
  have hj : Json.read? "!!bool foo" = none := by
    rw [← Option.isNone_iff_eq_none]
    decide
  have hy : Escapes taggedReader "!!bool foo" .missingKey := .unread rfl
  obtain ⟨hiff, hfault⟩ := isAnswered_iff keepsToItself_taggedReader (some taggedOutput)
  refine ⟨keepsToItself_taggedReader, fun h => ?_, (hfault _ rfl _ _ hp hj hy).1⟩
  exact hiff.1 h _ rfl _ _ hp hj hy

/-! ## The reader of the library -/

/-- What leads to a fault with `Yaml.read` has a token without a value, or is an integer that is too
long to be shown. -/
theorem token_of_escapes {text : String} {f : Fault} (h : Escapes Yaml.read text f) :
    (∃ d, Yaml.read text = .ok d ∧ d.isOverlong = true) ∨
      ∃ ts, Yaml.Token.ofText text = .ok ts ∧ ∃ t ∈ ts, t.fault? = some f := by
  cases h with
  | unread h => exact .inr (Yaml.fault_of_read h).2
  | @unshown d h _ hf =>
    refine .inl ⟨d, h, ?_⟩
    by_contra hshort
    exact nomatch (writingFault?_eq_none (Bool.not_eq_true _ ▸ hshort)).symm.trans hf

/-- A payload that has the form of a date and names none. -/
def datedOutput : String := "STACK-OUTPUT-BEGINS>2001-13-01<STACK-OUTPUT-ENDS"

theorem not_isAnswered_datedOutput : ¬ IsAnswered Yaml.read (some datedOutput) := by
  have hp : payload datedOutput = .ok "2001-13-01" := by decide
  have hj : Json.read? "2001-13-01" = none := by
    rw [← Option.isNone_iff_eq_none]
    decide
  have hy : Yaml.read "2001-13-01" = .error (.fault (.badValue "month must be in 1..12")) := by
    rw [← Yaml.Node.failureOf?_eq_some]
    decide +kernel
  have hescapes : Escapes Yaml.read "2001-13-01" (.badValue "month must be in 1..12") := .unread hy
  exact not_isAnswered (hescapes.ofOutput hp hj) rfl

end AlgebraBatch.Engine.Bag
