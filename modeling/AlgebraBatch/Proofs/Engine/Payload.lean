import AlgebraBatch.Engine.Output
import AlgebraBatch.Proofs.Text.Search
import Mathlib.Data.List.Infix

/-!
# The text between the sentinels

`IsFrame` says how an output can be cut into a banner, what is inside the sentinels, and the rest. An
output has at most one frame, because neither sentinel overlaps with itself, and `payload` finds it
(`payload_exact`): it gives what is inside without the blanks at its ends, and it fails for want of a
sentinel where there is no frame.
-/

namespace AlgebraBatch.Engine

open AlgebraBatch.Text

/-- The output is a banner, the opening sentinel, what is inside, the closing sentinel and more. The
banner may have anything but the opening sentinel, and what is inside anything but the closing one. -/
structure IsFrame (output banner inside more : String) : Prop where
  written : output = banner ++ outputBegins ++ inside ++ outputEnds ++ more
  banner_free : ¬ outputBegins.toList <:+: banner.toList
  inside_free : ¬ outputEnds.toList <:+: inside.toList

variable {output banner inside more banner' inside' more' : String}

theorem unbordered_outputBegins : Unbordered outputBegins.toList := by decide

theorem unbordered_outputEnds : Unbordered outputEnds.toList := by decide

/-! ## Both searches -/

theorem split_outputBegins_eq_some {text before after : List Char} :
    splitAtFirst? outputBegins.toList text = some (before, after) ↔
      text = before ++ (outputBegins.toList ++ after) ∧ ¬ outputBegins.toList <:+: before :=
  splitAtFirst?_eq_some_iff unbordered_outputBegins (by decide)

theorem split_outputEnds_eq_some {text before after : List Char} :
    splitAtFirst? outputEnds.toList text = some (before, after) ↔
      text = before ++ (outputEnds.toList ++ after) ∧ ¬ outputEnds.toList <:+: before :=
  splitAtFirst?_eq_some_iff unbordered_outputEnds (by decide)

/-- A frame is what the search for the one sentinel and then for the other one finds. -/
theorem isFrame_iff : IsFrame output banner inside more ↔ ∃ rest,
    splitAtFirst? outputBegins.toList output.toList = some (banner.toList, rest) ∧
      splitAtFirst? outputEnds.toList rest = some (inside.toList, more.toList) := by
  constructor
  · rintro ⟨rfl, hbanner, hinside⟩
    refine ⟨inside.toList ++ (outputEnds.toList ++ more.toList), ?_, ?_⟩
    · exact split_outputBegins_eq_some.2 ⟨by simp, hbanner⟩
    · exact split_outputEnds_eq_some.2 ⟨rfl, hinside⟩
  · rintro ⟨rest, hbegins, hends⟩
    obtain ⟨houtput, hbanner⟩ := split_outputBegins_eq_some.1 hbegins
    obtain ⟨rfl, hinside⟩ := split_outputEnds_eq_some.1 hends
    refine ⟨String.toList_inj.1 ?_, hbanner, hinside⟩
    simp [houtput]

theorem IsFrame.unique (h : IsFrame output banner inside more)
    (h' : IsFrame output banner' inside' more') :
    banner = banner' ∧ inside = inside' ∧ more = more' := by
  obtain ⟨rest, hbegins, hends⟩ := isFrame_iff.1 h
  obtain ⟨rest', hbegins', hends'⟩ := isFrame_iff.1 h'
  rw [hbegins, Option.some_inj, Prod.mk.injEq] at hbegins'
  obtain ⟨hbanner, rfl⟩ := hbegins'
  rw [hends, Option.some_inj, Prod.mk.injEq] at hends'
  exact ⟨String.toList_inj.1 hbanner, String.toList_inj.1 hends'.1, String.toList_inj.1 hends'.2⟩

/-! ## The payload -/

/-- The fault of an output without a frame: a sentinel is missing. -/
def missingSentinel (output : String) : EngineFault :=
  if outputBegins.toList <:+: output.toList then .noEnd output else .noBegin output

theorem payload_of_isFrame (h : IsFrame output banner inside more) :
    payload output = .ok (String.ofList (strip inside.toList)) := by
  obtain ⟨rest, hbegins, hends⟩ := isFrame_iff.1 h
  rw [payload, hbegins]
  simp only [hends]

theorem isFrame_or_missing (output : String) :
    (∃ banner inside more, IsFrame output banner inside more) ∨
      payload output = .error (.engine (missingSentinel output)) := by
  cases hbegins : splitAtFirst? outputBegins.toList output.toList with
  | none =>
    have hnone := (splitAtFirst?_eq_none_iff (by decide)).1 hbegins
    refine .inr ?_
    rw [payload, hbegins, missingSentinel, if_neg hnone]
  | some parts =>
    obtain ⟨banner, rest⟩ := parts
    cases hends : splitAtFirst? outputEnds.toList rest with
    | none =>
      have hbegin : outputBegins.toList <:+: output.toList :=
        ⟨banner, rest, by rw [(split_outputBegins_eq_some.1 hbegins).1, List.append_assoc]⟩
      refine .inr ?_
      rw [payload, hbegins, missingSentinel, if_pos hbegin]
      simp only [hends]
    | some parts =>
      refine .inl ⟨String.ofList banner, String.ofList parts.1, String.ofList parts.2,
        isFrame_iff.2 ⟨rest, ?_, ?_⟩⟩
      · rw [hbegins, String.toList_ofList]
      · rw [hends, String.toList_ofList, String.toList_ofList]

/-- The payload is what is inside of the only frame of the output, trimmed. Without a frame there is
none, and the fault is that of an engine. -/
theorem payload_exact (output : String) :
    (∀ text, payload output = .ok text ↔ ∃ banner inside more,
      IsFrame output banner inside more ∧ Trims inside.toList text.toList) ∧
    (∀ banner inside more banner' inside' more', IsFrame output banner inside more →
      IsFrame output banner' inside' more' →
        banner = banner' ∧ inside = inside' ∧ more = more') ∧
    ((¬ ∃ banner inside more, IsFrame output banner inside more) →
      payload output = .error (.engine (missingSentinel output))) := by
  refine ⟨fun text => ⟨fun hok => ?_, ?_⟩, fun _ _ _ _ _ _ h h' => h.unique h',
    (isFrame_or_missing output).resolve_left⟩
  · rcases isFrame_or_missing output with ⟨banner, inside, more, h⟩ | herror
    · rw [payload_of_isFrame h, Except.ok.injEq] at hok
      exact ⟨banner, inside, more, h, strip_eq_iff.1 (by rw [← hok, String.toList_ofList])⟩
    · cases hok.symm.trans herror
  · rintro ⟨banner, inside, more, h, htrims⟩
    rw [payload_of_isFrame h, strip_eq_iff.2 htrims, String.ofList_toList]

/-- Sentinels in the wrong place and parts of sentinels do not move the frame. -/
example : payload ("<STACK-OUTPUT-ENDS STACK-OUTPUT-BEGINSTACK-OUTPUT-BEGINS>" ++
    " 1 < 2 <STACK<STACK-OUTPUT-ENDS<STACK-OUTPUT-ENDS") = .ok "1 < 2 <STACK" := by decide

/-- The payload is read as JSON, and its value must be a map. -/
theorem Bag.ofOutputBy_payload {α : Type} [Value α] (read : Yaml.Reader α) {output text : String}
    (h : payload output = .ok text) :
    ofOutputBy read (some output) = Wire.readJson read text >>= fun v =>
      match Value.entries? v with
      | some entries => .ok (withTimeout entries)
      | none => .error ((Value.writingFault? v).getD (.engine (.notMapping (Value.display v)))) := by
  rw [ofOutputBy, h]
  rfl

end AlgebraBatch.Engine
