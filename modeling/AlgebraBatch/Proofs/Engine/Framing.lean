import AlgebraBatch.Proofs.Engine.Payload
import AlgebraBatch.Proofs.Json.Cut

/-!
# The frame around an answer

The engine prints a bag between two sentinels (`framed`). The first sentinel is found where it was
put, as long as the banner does not have it. The second one is looked for in everything that
follows, and the texts of the bag are not kept from having it in them: a bag comes back exactly if
none of them has (`ofOutput_framed_iff`). Otherwise the line is cut inside of a text; such a
beginning is neither JSON nor YAML, and the answer to the whole batch is lost (`ofOutput_cut`).
-/

namespace AlgebraBatch.Engine

open AlgebraBatch.Text AlgebraBatch.Json AlgebraBatch.Json.Quoting AlgebraBatch.Yaml.Token

variable {banner : String} {bag : Bag} {before inside after more : List Char}

/-- The line on which the engine prints a bag. -/
def line (bag : Bag) : String := write asciiLine (.map bag)

/-- The output of an engine that prints a bag between the sentinels, after a banner. -/
def framed (banner : String) (bag : Bag) : String :=
  banner ++ outputBegins ++ line bag ++ outputEnds ++ "\n"

/-! ## Sentinels -/

/-- The closing sentinel after its first character. -/
def endsTail : List Char := "STACK-OUTPUT-ENDS".toList

theorem toList_outputEnds : outputEnds.toList = '<' :: endsTail := by decide

theorem isBare_endsTail : ∀ c ∈ endsTail, IsBare c := by decide

/-- The payload is what is found before the closing sentinel. -/
theorem payload_framed (hbanner : ¬ outputBegins.toList <:+: banner.toList)
    (hsplit : splitAtFirst? outputEnds.toList ((line bag).toList ++ (outputEnds.toList ++ ['\n'])) =
      some (inside, after)) : payload (framed banner bag) = .ok (String.ofList (strip inside)) := by
  have htext : (framed banner bag).toList = banner.toList ++
      (outputBegins.toList ++ ((line bag).toList ++ (outputEnds.toList ++ ['\n']))) := by
    simp [framed]
  rw [payload, htext, splitAtFirst?_append unbordered_outputBegins (by decide) hbanner]
  simp only [hsplit]

/-! ## Whole lines -/

theorem line_enclosed (bag : Bag) : ∃ body, (line bag).toList = '\x7b' :: (body ++ ['\x7d']) := by
  by_cases hne : bag = []
  · refine ⟨[], ?_⟩
    rw [line, write, hne, toList_emptyMap]
    rfl
  · exact ⟨_, toList_mapLine hne 0⟩

theorem infix_line_iff (h : IsJson (.map bag)) : outputEnds.toList <:+: (line bag).toList ↔
    ∃ s ∈ texts (.map bag), outputEnds.toList <:+: s.toList := by
  rw [toList_outputEnds]
  exact infix_write_iff asciiLine h isBare_endsTail

/-- A line without the closing sentinel is the payload. -/
theorem payload_line (hbanner : ¬ outputBegins.toList <:+: banner.toList)
    (hends : ¬ outputEnds.toList <:+: (line bag).toList) :
    payload (framed banner bag) = .ok (line bag) := by
  obtain ⟨body, hline⟩ := line_enclosed bag
  have hstrip : strip (line bag).toList = (line bag).toList := by
    rw [hline, strip_enclosed (by decide) (by decide)]
  rw [payload_framed hbanner (splitAtFirst?_append unbordered_outputEnds (by decide) hends), hstrip,
    String.ofList_toList]

theorem ofOutput_line (h : IsJson (.map bag))
    (hpayload : payload (framed banner bag) = .ok (line bag)) :
    Bag.ofOutput (some (framed banner bag)) = .ok (Bag.withTimeout bag) := by
  have hread : Wire.readJson Yaml.read (line bag) = .ok (.map bag) := by
    rw [Wire.readJson, line, read?_write asciiLine h]
    rfl
  rw [Bag.ofOutput, Bag.ofOutputBy_payload _ hpayload, hread]
  rfl

/-! ## Lines that are cut -/

/-- A text that ends inside of an open quote is neither JSON nor YAML. -/
theorem readJson_unclosed {text : String} (h : Unclosed 0 text.toList)
    (hmark : text.toList.head? ≠ some '\ufeff') : Wire.readJson Yaml.read text = .ok (.str text) := by
  obtain ⟨front, inner, htext, hinner, hrun, hfails⟩ := h
  have hjson : Json.read? text = none := by
    refine Option.eq_none_iff_forall_ne_some.2 fun d hd => ?_
    have hclosed := readText?_quotes hd
    rw [htext, run_append, hrun] at hclosed
    exact absurd (hinner.run_inside.symm.trans hclosed) (by decide)
  have hyaml : Yaml.read text = .error .malformed := by
    rw [Yaml.read, ofText_malformed hmark (htext ▸ hfails inner hinner)]
    rfl
  rw [Wire.readJson, hjson, Wire.readYaml, hyaml]
  rfl

/-- A line that has the closing sentinel is cut after its opening bracket, inside of a text. -/
theorem line_cut (h : IsJson (.map bag)) (hends : outputEnds.toList <:+: (line bag).toList)
    (rest : List Char) : ∃ cut after,
      splitAtFirst? outputEnds.toList ((line bag).toList ++ rest) = some ('\x7b' :: cut, after) ∧
      '\x7b' :: cut <+: (line bag).toList ∧ Unclosed 0 ('\x7b' :: cut) := by
  obtain ⟨before, more, hline, hsplit⟩ := splitAtFirst?_infix (by decide) hends rest
  obtain ⟨body, hbody⟩ := line_enclosed bag
  have hhead : '\x7b' :: (body ++ ['\x7d']) = before ++ '<' :: (endsTail ++ more) := by
    rw [← hbody, hline, toList_outputEnds]
    rfl
  have hopen : Unclosed 0 before := unclosed_line h (hbody.trans hhead)
  cases before with
  | nil => exact absurd (List.cons.inj hhead).1 (by decide)
  | cons c cut =>
    obtain rfl : '\x7b' = c := (List.cons.inj hhead).1
    exact ⟨cut, _, hsplit, ⟨_, hline.symm⟩, hopen⟩

/-- A line that has the closing sentinel is lost, whatever else is in the bag. -/
theorem ofOutput_cut (h : IsJson (.map bag)) (hbanner : ¬ outputBegins.toList <:+: banner.toList)
    (hends : outputEnds.toList <:+: (line bag).toList) :
    ∃ cut, cut.toList <+: (line bag).toList ∧
      Bag.ofOutput (some (framed banner bag)) = .error (.engine (.notMapping cut)) := by
  obtain ⟨cut, after, hsplit, hprefix, hopen⟩ := line_cut h hends (outputEnds.toList ++ ['\n'])
  have hkept : strip ('\x7b' :: cut) = dropRightWhile Text.isBlank ('\x7b' :: cut) := rfl
  have hcons : strip ('\x7b' :: cut) = '\x7b' :: dropRightWhile Text.isBlank cut :=
    dropRightWhile_cons (by decide) cut
  obtain ⟨trail, htrail, -⟩ := dropRightWhile_append Text.isBlank ('\x7b' :: cut)
  refine ⟨String.ofList (strip ('\x7b' :: cut)), ?_, ?_⟩
  · rw [String.toList_ofList, hkept]
    exact List.IsPrefix.trans ⟨trail, htrail.symm⟩ hprefix
  · have hread : Wire.readJson Yaml.read (String.ofList (strip ('\x7b' :: cut))) =
        .ok (.str (String.ofList (strip ('\x7b' :: cut)))) := by
      refine readJson_unclosed ?_ ?_
      · rw [String.toList_ofList, hkept]
        exact hopen.trimmed
      · rw [String.toList_ofList, hcons]
        exact fun hmark => absurd (Option.some.inj hmark) (by decide)
    rw [Bag.ofOutput, Bag.ofOutputBy_payload _ (payload_framed hbanner hsplit), hread]
    rfl

/-- A bag comes back, with a member `timeout`, exactly if no text in it has the closing sentinel. -/
theorem ofOutput_framed_iff (h : IsJson (.map bag))
    (hbanner : ¬ outputBegins.toList <:+: banner.toList) :
    Bag.ofOutput (some (framed banner bag)) = .ok (Bag.withTimeout bag) ↔
      ∀ s ∈ texts (.map bag), ¬ outputEnds.toList <:+: s.toList := by
  have hline := infix_line_iff h
  constructor
  · intro hok s hs hinfix
    obtain ⟨cut, -, herror⟩ := ofOutput_cut h hbanner (hline.2 ⟨s, hs, hinfix⟩)
    cases hok.symm.trans herror
  · intro hnone
    refine ofOutput_line h (payload_line hbanner fun hends => ?_)
    obtain ⟨s, hs, hinfix⟩ := hline.1 hends
    exact hnone s hs hinfix

/-- An answer to a batch whose only statement has an error with a message. -/
def errorBag (message : String) : Bag :=
  [member ("errors", .list [.list [.list [.str message], .str "c", .int 0]])]

theorem isJson_errorBag (message : String) : IsJson (.map (errorBag message)) := by
  have hrecord : IsJson (.list [.list [.str message], .str "c", .int 0]) := by
    refine .list (List.forall_mem_cons.2 ⟨?_, List.forall_mem_cons.2 ⟨.str "c", ?_⟩⟩)
    · exact .list (List.forall_mem_singleton.2 (.str message))
    · exact List.forall_mem_singleton.2 (.int (by decide))
  have herrors : IsJson (.list [.list [.list [.str message], .str "c", .int 0]]) :=
    .list (List.forall_mem_singleton.2 hrecord)
  show IsJson (.map (List.map member [("errors", _)]))
  exact .map (List.nodup_singleton "errors") (List.forall_mem_singleton.2 herrors)

/-- The opening sentinel and a part of the closing one do no harm. -/
theorem ofOutput_openingMessage :
    (IsJson (.map (errorBag "STACK-OUTPUT-BEGINS><STACK")) ∧
        ¬ outputBegins.toList <:+: "Maxima banner\n".toList) ∧
      Bag.ofOutput (some (framed "Maxima banner\n" (errorBag "STACK-OUTPUT-BEGINS><STACK"))) =
        .ok (Bag.withTimeout (errorBag "STACK-OUTPUT-BEGINS><STACK")) := by
  have hbag := isJson_errorBag "STACK-OUTPUT-BEGINS><STACK"
  have hbanner : ¬ outputBegins.toList <:+: "Maxima banner\n".toList := by decide
  exact ⟨⟨hbag, hbanner⟩, (ofOutput_framed_iff hbag hbanner).2 (by decide)⟩

/-- A message that quotes the closing sentinel is the end of the answer. -/
theorem ofOutput_closingMessage :
    (IsJson (.map (errorBag "<STACK-OUTPUT-ENDS")) ∧ ¬ outputBegins.toList <:+: "".toList) ∧
      Bag.ofOutput (some (framed "" (errorBag "<STACK-OUTPUT-ENDS"))) ≠
        .ok (Bag.withTimeout (errorBag "<STACK-OUTPUT-ENDS")) := by
  have hbag := isJson_errorBag "<STACK-OUTPUT-ENDS"
  have hbanner : ¬ outputBegins.toList <:+: "".toList := by decide
  have hmarked : outputEnds.toList <:+: (line (errorBag "<STACK-OUTPUT-ENDS")).toList :=
    (infix_line_iff hbag).2 ⟨"<STACK-OUTPUT-ENDS", by decide, by decide⟩
  obtain ⟨cut, -, herror⟩ := ofOutput_cut hbag hbanner hmarked
  refine ⟨⟨hbag, hbanner⟩, fun hok => ?_⟩
  cases hok.symm.trans herror

end AlgebraBatch.Engine
