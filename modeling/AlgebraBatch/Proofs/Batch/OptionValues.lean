import AlgebraBatch.Batch.OptionsFile
import AlgebraBatch.Proofs.Except
import AlgebraBatch.Proofs.Yaml.Origin

/-!
# Options that a value describes

A map describes options if all its keys are names of settings and all its values are allowed: then
the options have these values, and their defaults elsewhere. `Options.ofMapping` gives just the
options that its value describes. Of a value that describes none it tells what is wrong, except where
that cannot be written into a message: a key that is no text, or a value that cannot be shown, such as
an integer that is too long (`Options.heeds_iff`). A file can moreover have a value that does not
exist, and a value that counts as nothing is taken for an empty map. All of this is so for every kind
of values and every reader of YAML whose faults are its own.
-/

namespace AlgebraBatch

/-- The setting allows the value. -/
def Setting.Allows (setting : Setting) : SettingValue → Prop
  | .flag _ => setting.form = .flag
  | .choice s => setting.form ≠ .flag ∧ s ∈ setting.choices

theorem Setting.mem_all (setting : Setting) : setting ∈ Setting.all := by
  cases setting <;> decide

variable {α : Type} [Value α]

/-- The value is the truth value or the text. -/
def SettingValue.IsGivenBy (v : α) : SettingValue → Prop
  | .flag b => Value.flag? v = some b
  | .choice s => Value.text? v = some s

namespace Options

/-- The keys are names of settings. -/
def AreKnown (entries : List (α × α)) : Prop :=
  ∀ e ∈ entries, ∃ setting : Setting, Value.text? e.1 = some setting.name

/-- What the entries make of the value of a setting: the one that is given for it, which must be
allowed, or else what it was. -/
def Settled (entries : List (α × α)) (setting : Setting) (before after : SettingValue) : Prop :=
  match Value.lookup setting.name entries with
  | none => after = before
  | some v => setting.Allows after ∧ after.IsGivenBy v

/-- The value is a map of names of settings to allowed values, and the options are those that it
makes of the defaults. -/
def IsDescribed (v : α) (options : Options) : Prop :=
  ∃ entries, Value.entries? v = some entries ∧ AreKnown entries ∧
    ∀ setting, Settled entries setting (({} : Options).get setting) (options.get setting)

/-- The setting is the first of some whose value is not allowed. -/
def IsFirstRefused (entries : List (α × α)) (settings : List Setting) (setting : Setting) (v : α) :
    Prop :=
  ∃ before after, settings = before ++ setting :: after ∧
    Value.lookup setting.name entries = some v ∧
    (∀ x, setting.Allows x → ¬ x.IsGivenBy v) ∧
    ∀ s ∈ before, ∀ w, Value.lookup s.name entries = some w → ∃ x, s.Allows x ∧ x.IsGivenBy w

variable {setting s : Setting} {v w : α} {x : SettingValue} {options options' : Options}
  {entries : List (α × α)} {settings : List Setting}

/-! ## One setting -/

theorem readValue_eq_ok : readValue setting v = .ok x ↔ setting.Allows x ∧ x.IsGivenBy v := by
  unfold readValue
  split
  · next hform =>
    split
    · next b hb =>
      constructor
      · rintro ⟨⟩
        exact ⟨hform, hb⟩
      · rintro ⟨hallows, hgiven⟩
        cases x with
        | flag b' => rw [Option.some.inj (hb.symm.trans hgiven)]
        | choice s => exact absurd hform hallows.1
    · next hnone =>
      refine iff_of_false nofun ?_
      rintro ⟨hallows, hgiven⟩
      cases x with
      | flag b => cases hnone.symm.trans hgiven
      | choice s => exact hallows.1 hform
  · next hform =>
    split
    · next s hs =>
      split
      · next hmem =>
        constructor
        · rintro ⟨⟩
          exact ⟨⟨hform, by simpa using hmem⟩, hs⟩
        · rintro ⟨hallows, hgiven⟩
          cases x with
          | flag b => exact absurd hallows hform
          | choice s' => rw [Option.some.inj (hs.symm.trans hgiven)]
      · next hmem =>
        refine iff_of_false nofun ?_
        rintro ⟨hallows, hgiven⟩
        cases x with
        | flag b => exact hform hallows
        | choice s' =>
          obtain rfl := Option.some.inj (hs.symm.trans hgiven)
          exact hmem (by simpa using hallows.2)
    · next hnone =>
      refine iff_of_false nofun ?_
      rintro ⟨hallows, hgiven⟩
      cases x with
      | flag b => exact hform hallows
      | choice s => cases hnone.symm.trans hgiven

theorem readValue_eq_error {f : Fault} (h : readValue setting v = .error f) :
    f = refusal setting v := by
  unfold readValue at h
  split at h
  · split at h
    · cases h
    · exact (Except.error.inj h).symm
  · split at h
    · split at h
      · cases h
      · exact (Except.error.inj h).symm
    · exact (Except.error.inj h).symm

/-- A value that is not allowed is refused. -/
theorem readValue_of_not (h : ∀ x, setting.Allows x → ¬ x.IsGivenBy v) :
    readValue setting v = .error (refusal setting v) := by
  cases hr : readValue setting v with
  | ok x => exact absurd (readValue_eq_ok.1 hr).2 (h x (readValue_eq_ok.1 hr).1)
  | error f => rw [readValue_eq_error hr]

theorem get_set (h : setting.Allows x) : (options.set setting x).get setting = x := by
  cases setting <;> cases x <;> first | rfl | exact absurd h (by simp [Setting.Allows, Setting.form])

theorem get_set_of_ne (h : s ≠ setting) : (options.set setting x).get s = options.get s := by
  cases setting <;> cases x <;> first | rfl | (cases s <;> first | rfl | exact absurd rfl h)

theorem ext_get (h : ∀ setting, options.get setting = options'.get setting) :
    options = options' := by
  cases options
  cases options'
  rw [mk.injEq]
  exact ⟨SettingValue.flag.inj (h .simplify), SettingValue.flag.inj (h .assumePositive),
    SettingValue.flag.inj (h .assumeReal), SettingValue.flag.inj (h .sqrtSign),
    SettingValue.choice.inj (h .matrixParens), SettingValue.choice.inj (h .multiplicationSign),
    SettingValue.choice.inj (h .complexUnit), SettingValue.choice.inj (h .inverseTrig),
    SettingValue.choice.inj (h .logicSymbol)⟩

/-! ## All settings -/

theorem take_of_none (h : Value.lookup setting.name entries = none) :
    take entries options setting = .ok options := by
  rw [take, h]

theorem take_of_some (h : Value.lookup setting.name entries = some v) :
    take entries options setting = (readValue setting v).map (options.set setting) := by
  rw [take, h]

theorem IsFirstRefused.cons (h : IsFirstRefused entries settings setting v)
    (hs : ∀ w, Value.lookup s.name entries = some w → ∃ x, s.Allows x ∧ x.IsGivenBy w) :
    IsFirstRefused entries (s :: settings) setting v := by
  obtain ⟨before, after, rfl, hv, hrefused, hbefore⟩ := h
  exact ⟨s :: before, after, rfl, hv, hrefused, List.forall_mem_cons.2 ⟨hs, hbefore⟩⟩

/-- Taking some settings from a map either gives each the value that is settled for it and leaves the
others, or ends at the first value that is refused. -/
theorem foldlM_take (entries : List (α × α)) (options : Options) (hnodup : settings.Nodup) :
    (∃ options', settings.foldlM (take entries) options = .ok options' ∧
      (∀ s ∈ settings, Settled entries s (options.get s) (options'.get s)) ∧
      ∀ s ∉ settings, options'.get s = options.get s) ∨
    ∃ setting v, IsFirstRefused entries settings setting v ∧
      settings.foldlM (take entries) options = .error (refusal setting v) := by
  induction settings generalizing options with
  | nil => exact .inl ⟨options, rfl, nofun, fun _ _ => rfl⟩
  | cons setting settings ih =>
    obtain ⟨hmem, hnodup⟩ := List.nodup_cons.1 hnodup
    rw [List.foldlM_cons]
    cases hl : Value.lookup setting.name entries with
    | none =>
      rw [take_of_none hl]
      rcases ih options hnodup with ⟨options', hok, hsettled, hkept⟩ | ⟨s, v, hs, herror⟩
      · refine .inl ⟨options', hok, List.forall_mem_cons.2 ⟨?_, hsettled⟩, fun s hs => ?_⟩
        · rw [Settled, hl]
          exact hkept setting hmem
        · exact hkept s fun h => hs (List.mem_cons_of_mem _ h)
      · exact .inr ⟨s, v, hs.cons (by rw [hl]; exact nofun), herror⟩
    | some v =>
      rw [take_of_some hl]
      by_cases hallowed : ∃ x, setting.Allows x ∧ x.IsGivenBy v
      · obtain ⟨x, hx, hgiven⟩ := hallowed
        rw [readValue_eq_ok.2 ⟨hx, hgiven⟩]
        rcases ih (options.set setting x) hnodup with
          ⟨options', hok, hsettled, hkept⟩ | ⟨s, w, hs, herror⟩
        · refine .inl ⟨options', hok, List.forall_mem_cons.2 ⟨?_, fun s hs => ?_⟩, fun s hs => ?_⟩
          · rw [Settled, hl, hkept setting hmem, get_set hx]
            exact ⟨hx, hgiven⟩
          · have hne : s ≠ setting := fun h => hmem (h ▸ hs)
            have := hsettled s hs
            rwa [get_set_of_ne hne] at this
          · obtain ⟨hne, hs⟩ := not_or.1 (mt List.mem_cons.2 hs)
            rw [hkept s hs, get_set_of_ne hne]
        · refine .inr ⟨s, w, hs.cons fun v' hv' => ?_, herror⟩
          obtain rfl := Option.some.inj (hl.symm.trans hv')
          exact ⟨x, hx, hgiven⟩
      · have hrefused : ∀ x, setting.Allows x → ¬ x.IsGivenBy v :=
          fun x hx hgiven => hallowed ⟨x, hx, hgiven⟩
        rw [readValue_of_not hrefused]
        exact .inr ⟨setting, v, ⟨[], settings, rfl, hl, hrefused, nofun⟩, rfl⟩

/-- Where some setting is the first that is refused, its refusal is what is told. -/
theorem IsFirstRefused.foldlM_take (options : Options)
    (h : IsFirstRefused entries settings setting v) :
    settings.foldlM (take entries) options = .error (refusal setting v) := by
  obtain ⟨before, after, rfl, hl, hrefused, hbefore⟩ := h
  induction before generalizing options with
  | nil => rw [List.nil_append, List.foldlM_cons, take_of_some hl, readValue_of_not hrefused]; rfl
  | cons s before ih =>
    obtain ⟨hs, hbefore⟩ := List.forall_mem_cons.1 hbefore
    have htake : ∃ options', take entries options s = .ok options' := by
      cases hls : Value.lookup s.name entries with
      | none => exact ⟨options, take_of_none hls⟩
      | some w =>
        obtain ⟨x, hx⟩ := hs w hls
        exact ⟨options.set s x, by rw [take_of_some hls, readValue_eq_ok.2 hx]; rfl⟩
    obtain ⟨options', htake⟩ := htake
    rw [List.cons_append, List.foldlM_cons, htake]
    exact ih options' hbefore

theorem allows_unique {x' : SettingValue} (hx : setting.Allows x) (hx' : setting.Allows x')
    (h : x.IsGivenBy v) (h' : x'.IsGivenBy v) : x = x' :=
  Except.ok.inj ((readValue_eq_ok.2 ⟨hx, h⟩).symm.trans (readValue_eq_ok.2 ⟨hx', h'⟩))

theorem Settled.unique {before after after' : SettingValue}
    (h : Settled entries setting before after) (h' : Settled entries setting before after') :
    after = after' := by
  cases hl : Value.lookup setting.name entries with
  | none =>
    rw [Settled, hl] at h h'
    exact h.trans h'.symm
  | some v =>
    rw [Settled, hl] at h h'
    exact allows_unique h.1 h'.1 h.2 h'.2

/-- No value is refused where every setting is settled. -/
theorem not_isFirstRefused {before after : Setting → SettingValue}
    (h : ∀ setting, Settled entries setting (before setting) (after setting)) :
    ¬ IsFirstRefused entries settings setting v := by
  rintro ⟨-, -, -, hl, hrefused, -⟩
  have hsettled := h setting
  rw [Settled, hl] at hsettled
  exact hrefused _ hsettled.1 hsettled.2

/-! ## Keys -/

/-- The key is the name of no setting. -/
def IsUnknown (key : α) : Prop := ∀ setting : Setting, Value.text? key ≠ some setting.name

theorem named?_isNone {name : String} :
    (Setting.named? name).isNone = true ↔ ∀ setting : Setting, name ≠ setting.name := by
  rw [Option.isNone_iff_eq_none, Setting.named?, List.find?_eq_none]
  constructor
  · rintro h setting hname
    exact h setting (Setting.mem_all setting) (beq_iff_eq.2 hname.symm)
  · rintro h setting - hname
    exact h setting (beq_iff_eq.1 hname).symm

theorem mem_unknownKeys {key : α} :
    key ∈ unknownKeys entries ↔ key ∈ entries.map Prod.fst ∧ IsUnknown key := by
  rw [unknownKeys, List.mem_filter]
  refine and_congr_right fun _ => ?_
  unfold IsUnknown
  cases Value.text? key with
  | none => exact iff_of_true rfl nofun
  | some name =>
    rw [Option.bind_some, named?_isNone]
    exact forall_congr' fun setting => not_congr Option.some_inj.symm

theorem unknownKeys_eq_nil : unknownKeys entries = [] ↔ AreKnown entries := by
  rw [List.eq_nil_iff_forall_not_mem]
  constructor
  · intro h e he
    by_contra hunknown
    exact h e.1 (mem_unknownKeys.2 ⟨List.mem_map_of_mem he, not_exists.1 hunknown⟩)
  · rintro h key hkey
    obtain ⟨hmem, hunknown⟩ := mem_unknownKeys.1 hkey
    obtain ⟨e, he, rfl⟩ := List.mem_map.1 hmem
    obtain ⟨setting, hsetting⟩ := h e he
    exact hunknown setting hsetting

/-! ## Maps -/

/-- What is wrong with the entries can be told: their unknown keys are texts, and if they have none,
the first value that is refused can be shown. -/
structure IsTold (entries : List (α × α)) : Prop where
  keys : ∀ e ∈ entries, IsUnknown e.1 → ∃ name, Value.text? e.1 = some name
  value : AreKnown entries →
    ∀ setting v, IsFirstRefused entries Setting.all setting v → Value.writingFault? v = none

/-- The result is the options that the value describes, or a fault of options if it describes
none. -/
def Heeds (v : α) (r : Except Fault Options) : Prop :=
  (∃ options, IsDescribed v options ∧ r = .ok options) ∨
    (¬ ∃ options, IsDescribed v options) ∧ ∃ f, r = .error (.badOptions f)

theorem refusal_shown (setting : Setting) (h : Value.writingFault? v = none) :
    ∃ f, refusal setting v = .badOptions f := by
  rw [refusal, h]
  exact ⟨_, rfl⟩

theorem refusal_unshown {f : Fault} (setting : Setting) (h : Value.writingFault? v = some f) :
    refusal setting v = f := by
  rw [refusal, h, Option.getD_some]

theorem ofMapping_of_entries (h : Value.entries? v = some entries) :
    ofMapping v = ofEntries entries := by
  rw [ofMapping, h]

theorem ofEntries_of_known (h : AreKnown entries) :
    ofEntries entries = Setting.all.foldlM (take entries) {} := by
  rw [ofEntries, unknownKeys_eq_nil.2 h]

theorem isDescribed_iff (he : Value.entries? v = some entries) : IsDescribed v options ↔
    AreKnown entries ∧
      ∀ setting, Settled entries setting (({} : Options).get setting) (options.get setting) := by
  constructor
  · rintro ⟨entries', he', h⟩
    obtain rfl := Option.some.inj (he.symm.trans he')
    exact h
  · exact fun h => ⟨entries, he, h⟩

theorem not_isDescribed (he : Value.entries? v = none) : ¬ ∃ options, IsDescribed v options := by
  rintro ⟨options, entries, he', -⟩
  cases he.symm.trans he'

/-- A map without unknown keys gives the options that it describes or the refusal of a value. -/
theorem ofMapping_known (he : Value.entries? v = some entries) (h : AreKnown entries) :
    (∃ options, IsDescribed v options ∧ ofMapping v = .ok options) ∨
      ∃ setting w, IsFirstRefused entries Setting.all setting w ∧
        ofMapping v = .error (refusal setting w) := by
  rw [ofMapping_of_entries he, ofEntries_of_known h]
  rcases foldlM_take entries {} (by decide : Setting.all.Nodup) with
    ⟨options, hok, hsettled, -⟩ | hrefused
  · exact .inl ⟨options, ⟨entries, he, h, fun s => hsettled s (Setting.mem_all s)⟩, hok⟩
  · exact .inr hrefused

theorem IsDescribed.not_isFirstRefused (he : Value.entries? v = some entries)
    (h : IsDescribed v options) : ¬ IsFirstRefused entries settings setting w :=
  Options.not_isFirstRefused ((isDescribed_iff he).1 h).2

theorem IsDescribed.isTold (he : Value.entries? v = some entries) (h : IsDescribed v options) :
    IsTold entries := by
  refine ⟨fun e hmem hunknown => ?_, fun _ _ _ hrefused => ?_⟩
  · obtain ⟨setting, hsetting⟩ := ((isDescribed_iff he).1 h).1 e hmem
    exact absurd hsetting (hunknown setting)
  · exact absurd hrefused (h.not_isFirstRefused he)

theorem IsDescribed.unique (h : IsDescribed v options) (h' : IsDescribed v options') :
    options = options' := by
  obtain ⟨entries, he, -, hsettled⟩ := h
  have hsettled' := ((isDescribed_iff he).1 h').2
  exact ext_get fun setting => (hsettled setting).unique (hsettled' setting)

/-- What can come of a value. -/
inductive Outcome (v : α) : Except Fault Options → Prop
  | described {options : Options} (h : IsDescribed v options) : Outcome v (.ok options)
  | told (f : OptionsFault) (hd : ¬ ∃ options, IsDescribed v options)
    (ht : ∀ entries, Value.entries? v = some entries → IsTold entries) :
    Outcome v (.error (.badOptions f))
  | untold {f : Fault} {entries : List (α × α)} (hd : ¬ ∃ options, IsDescribed v options)
    (he : Value.entries? v = some entries) (ht : ¬ IsTold entries) (hf : f.isReport = false) :
    Outcome v (.error f)

theorem outcome_known (he : Value.entries? v = some entries) (h : AreKnown entries) :
    Outcome v (ofMapping v) := by
  rcases ofMapping_known he h with ⟨options, hd, hok⟩ | ⟨setting, w, hrefused, herror⟩
  · rw [hok]
    exact .described hd
  · have hd : ¬ ∃ options, IsDescribed v options :=
      fun ⟨options, hd⟩ => hd.not_isFirstRefused he hrefused
    rw [herror]
    cases hw : Value.writingFault? w with
    | some f =>
      have hf := Value.isReport_of_writingFault? hw
      rw [refusal_unshown setting hw]
      exact .untold hd he (fun ht => nomatch hw.symm.trans (ht.value h setting w hrefused)) hf
    | none =>
      obtain ⟨f, hf⟩ := refusal_shown setting hw
      rw [hf]
      refine .told f hd fun entries' he' => ?_
      obtain rfl := Option.some.inj (he.symm.trans he')
      refine ⟨fun e hmem hunknown => ?_, fun _ setting' w' hrefused' => ?_⟩
      · obtain ⟨s, hs⟩ := h e hmem
        exact absurd hs (hunknown s)
      · -- Only one value is refused first, so this one is told by the same refusal.
        have hsame : refusal setting' w' = .badOptions f := by
          rw [← hf, ← Except.error.injEq, ← hrefused'.foldlM_take {}, ← hrefused.foldlM_take {}]
        cases hw' : Value.writingFault? w' with
        | none => rfl
        | some f' =>
          have hf' := Value.isReport_of_writingFault? hw'
          rw [← refusal_unshown setting' hw', hsame] at hf'
          cases hf'

theorem mapM_unknownKeys (h : ¬ AreKnown entries) :
    (∃ names, (unknownKeys entries).mapM Value.text? = some names) ↔ IsTold entries := by
  rw [mapM_isSome]
  constructor
  · intro hall
    refine ⟨fun e he hunknown => ?_, fun hknown => absurd hknown h⟩
    exact hall e.1 (mem_unknownKeys.2 ⟨List.mem_map_of_mem he, hunknown⟩)
  · rintro htold key hkey
    obtain ⟨hmem, hunknown⟩ := mem_unknownKeys.1 hkey
    obtain ⟨e, he, rfl⟩ := List.mem_map.1 hmem
    exact htold.keys e he hunknown

theorem outcome_unknown (he : Value.entries? v = some entries) (h : ¬ AreKnown entries) :
    Outcome v (ofMapping v) := by
  have hd : ¬ ∃ options, IsDescribed v options :=
    fun ⟨options, hd⟩ => h ((isDescribed_iff he).1 hd).1
  have htexts := mapM_unknownKeys h
  rw [ofMapping_of_entries he, ofEntries]
  cases hu : unknownKeys entries with
  | nil => exact absurd hu (mt unknownKeys_eq_nil.1 h)
  | cons key keys =>
    rw [hu] at htexts
    cases hnames : (key :: keys).mapM Value.text? with
    | some names =>
      simp only [hnames]
      refine .told _ hd fun entries' he' => ?_
      obtain rfl := Option.some.inj (he.symm.trans he')
      exact htexts.1 ⟨names, hnames⟩
    | none =>
      simp only [hnames]
      refine .untold hd he (fun ht => ?_) rfl
      obtain ⟨names, hsome⟩ := htexts.2 ht
      cases hnames.symm.trans hsome

theorem outcome_ofMapping (v : α) : Outcome v (ofMapping v) := by
  cases he : Value.entries? v with
  | some entries =>
    by_cases h : AreKnown entries
    · exact outcome_known he h
    · exact outcome_unknown he h
  | none =>
    rw [ofMapping, he]
    exact .told _ (not_isDescribed he) fun entries he' => nomatch he.symm.trans he'

/-- The options that come of a value are those that it describes. -/
theorem ofMapping_eq_ok : ofMapping v = .ok options ↔ IsDescribed v options := by
  have hv := outcome_ofMapping v
  generalize ofMapping v = r at hv
  cases hv with
  | @described options' h =>
    constructor
    · rintro ⟨⟩
      exact h
    · exact fun h' => congrArg Except.ok (h.unique h')
  | told f hd _ => exact iff_of_false nofun fun h => hd ⟨options, h⟩
  | untold hd _ _ _ => exact iff_of_false nofun fun h => hd ⟨options, h⟩

/-- A fault of a value does not tell what is wrong with options. -/
theorem not_heeds_error {f : Fault} (hf : f.isReport = false) : ¬ Heeds v (.error f) := by
  rintro (⟨options, -, hok⟩ | ⟨-, e, herror⟩)
  · cases hok
  · cases herror
    cases hf

/-- A value is heeded exactly if what is wrong with it, if it is a map, can be told. -/
theorem heeds_ofMapping (v : α) :
    (Heeds v (ofMapping v) ↔ ∀ entries, Value.entries? v = some entries → IsTold entries) ∧
      (¬ Heeds v (ofMapping v) → ∃ f, ofMapping v = .error f ∧ f.isReport = false) := by
  have hv := outcome_ofMapping v
  generalize ofMapping v = r at hv
  cases hv with
  | @described options h =>
    have hheeds : Heeds v (.ok options) := .inl ⟨options, h, rfl⟩
    exact ⟨iff_of_true hheeds fun entries he => h.isTold he, absurd hheeds⟩
  | told f hd ht =>
    have hheeds : Heeds v (.error (.badOptions f)) := .inr ⟨hd, f, rfl⟩
    exact ⟨iff_of_true hheeds ht, absurd hheeds⟩
  | @untold f entries hd he ht hf =>
    exact ⟨iff_of_false (not_heeds_error hf) fun h => ht (h entries he), fun _ => ⟨f, rfl, hf⟩⟩

/-! ## Files -/

section Files

variable (read : Yaml.Reader α)

/-- The result is what the contents of a file call for: the defaults if they hold nothing, and
otherwise the options that their value describes, or a fault of options if it describes none or there
is none. -/
def HeedsFile (contents : String) (r : Except Fault Options) : Prop :=
  match read (fileText contents) with
  | .ok v => (Value.isNull v = true ∧ r = .ok {}) ∨ (Value.isNull v = false ∧ Heeds v r)
  | .error _ => ∃ f, r = .error (.badOptions f)

/-- What is wrong with the contents of a file can be told: they are null, or have a value that is not
taken for nothing, or are no YAML. -/
def IsFileTold (contents : String) : Prop :=
  match read (fileText contents) with
  | .ok v => Value.isNull v = true ∨ (Value.holds v = true ∨ Value.entries? v = some []) ∧
    ∀ entries, Value.entries? v = some entries → IsTold entries
  | .error .malformed => True
  | .error (.fault _) => False

variable {read}

/-- A fault of a value is not what a file calls for. -/
theorem not_heedsFile_error {contents : String} {f : Fault} (hf : f.isReport = false) :
    ¬ HeedsFile read contents (.error f) := by
  intro h
  unfold HeedsFile at h
  split at h
  · rcases h with ⟨-, hok⟩ | ⟨-, h⟩
    · cases hok
    · exact not_heeds_error hf h
  · obtain ⟨e, herror⟩ := h
    cases herror
    cases hf

theorem ofEntries_nil : ofEntries ([] : List (α × α)) = .ok {} := rfl

theorem isTold_nil : IsTold ([] : List (α × α)) :=
  ⟨nofun, fun _ _ _ ⟨_, _, _, hl, _⟩ => nomatch hl⟩

theorem isDescribed_of_entries_nil (he : Value.entries? v = some []) : IsDescribed v {} :=
  ofMapping_eq_ok.1 (by rw [ofMapping_of_entries he, ofEntries_nil])

/-- The defaults are what a value that counts as nothing calls for only if it is an empty map. -/
theorem heeds_idle (h : Value.holds v = false) :
    Heeds v (.ok {}) ↔ Value.entries? v = some [] := by
  constructor
  · rintro (⟨options, ⟨entries, he, -⟩, -⟩ | ⟨-, f, herror⟩)
    · have hidle := Value.holds_of_entries? he
      rw [h] at hidle
      cases entries with
      | nil => exact he
      | cons e es => cases hidle
    · cases herror
  · exact fun he => .inl ⟨{}, isDescribed_of_entries_nil he, rfl⟩

theorem heedsFile_ofFileBy (hread : read.KeepsToItself) (path contents : String) :
    (HeedsFile read contents (ofFileBy read path contents) ↔ IsFileTold read contents) ∧
    (¬ HeedsFile read contents (ofFileBy read path contents) →
      ofFileBy read path contents = .ok {} ∨
        ∃ f, ofFileBy read path contents = .error f ∧ f.isReport = false) := by
  unfold HeedsFile IsFileTold ofFileBy
  cases hr : read (fileText contents) with
  | ok v =>
    cases hholds : Value.holds v with
    | true =>
      have hnull : Value.isNull v = false := by
        by_contra hnull
        cases hholds.symm.trans (Value.holds_of_isNull (Bool.not_eq_false _ ▸ hnull))
      simp only [hnull, hholds, if_true, reduceCtorEq, false_and, true_and, false_or, true_or]
      exact ⟨(heeds_ofMapping v).1, fun h => .inr ((heeds_ofMapping v).2 h)⟩
    | false =>
      have htold : (Value.entries? v = some [] ∧
          ∀ entries, Value.entries? v = some entries → IsTold entries) ↔
            Value.entries? v = some [] := by
        refine and_iff_left_of_imp fun he entries he' => ?_
        obtain rfl := Option.some.inj (he.symm.trans he')
        exact isTold_nil
      simp only [hholds, Bool.false_eq_true, if_false, ofEntries_nil, and_true, false_or, htold,
        heeds_idle hholds]
      cases Value.isNull v with
      | true => simp
      | false => simp
  | error failure =>
    cases failure with
    | malformed => exact ⟨iff_of_true ⟨_, rfl⟩ trivial, fun h => absurd ⟨_, rfl⟩ h⟩
    | fault f =>
      have hf := hread _ f hr
      refine ⟨iff_of_false ?_ id, fun _ => .inr ⟨f, rfl, hf⟩⟩
      rintro ⟨e, herror⟩
      cases herror
      cases hf

/-- What a value calls for comes of it exactly if what is wrong with it can be told, and so it is with
a file. Otherwise a fault of values comes of it, or the defaults come of a file whose value counts as
nothing. -/
theorem heeds_iff (hread : read.KeepsToItself) (v : α) (path contents : String) :
    ((Heeds v (ofMapping v) ↔ ∀ entries, Value.entries? v = some entries → IsTold entries) ∧
      (¬ Heeds v (ofMapping v) → ∃ f, ofMapping v = .error f ∧ f.isReport = false)) ∧
    (HeedsFile read contents (ofFileBy read path contents) ↔ IsFileTold read contents) ∧
    (¬ HeedsFile read contents (ofFileBy read path contents) →
      ofFileBy read path contents = .ok {} ∨
        ∃ f, ofFileBy read path contents = .error f ∧ f.isReport = false) :=
  ⟨heeds_ofMapping v, heedsFile_ofFileBy hread path contents⟩

end Files

/-- `Yaml.read`, but for a value with an anchor, which means the value. -/
def anchoredReader : Yaml.Reader Datum := fun text =>
  if text = "simplify: &a false" then .ok (.map [(.str "simplify", .bool false)])
  else Yaml.read text

theorem keepsToItself_anchoredReader : anchoredReader.KeepsToItself := by
  intro text f h
  unfold anchoredReader at h
  split at h
  · cases h
  · exact Yaml.keepsToItself_read text f h

/-- A file with an anchor, and a value that has no name for a setting. -/
theorem heeds_iff_anchoredFile : anchoredReader.KeepsToItself ∧
    HeedsFile anchoredReader "simplify: &a false"
      (ofFileBy anchoredReader "options.yaml" "simplify: &a false") ∧
    ofFileBy anchoredReader "options.yaml" "simplify: &a false" = .ok { simplify := false } ∧
    ¬ Heeds (Datum.map [(.int 1, .int 2)]) (ofMapping (Datum.map [(.int 1, .int 2)])) := by
  have hread : anchoredReader (fileText "simplify: &a false") =
      .ok (.map [(.str "simplify", .bool false)]) := rfl
  have hok : ofMapping (Datum.map [(.str "simplify", .bool false)]) = .ok { simplify := false } :=
    rfl
  have htold : IsFileTold anchoredReader "simplify: &a false" := by
    rw [IsFileTold, hread]
    exact .inr ⟨.inl rfl, fun entries he => (ofMapping_eq_ok.1 hok).isTold he⟩
  have huntold : ¬ ∀ entries, Value.entries? (Datum.map [(.int 1, .int 2)]) = some entries →
      IsTold entries := by
    intro h
    obtain ⟨name, hname⟩ := (h _ rfl).keys (.int 1, .int 2) List.mem_cons_self nofun
    cases hname
  obtain ⟨⟨hvalue, -⟩, hfile, -⟩ := heeds_iff keepsToItself_anchoredReader
    (Datum.map [(.int 1, .int 2)]) "options.yaml" "simplify: &a false"
  exact ⟨keepsToItself_anchoredReader, hfile.2 htold, hok, mt hvalue.1 huntold⟩

/-- A file whose only key is a number. -/
def numberedFile : String := "1: 2
"

theorem ofFile_numberedFile : ofFile "options.yaml" numberedFile = .error .wrongType := by
  have h : (match ofFile "options.yaml" numberedFile with
      | .error .wrongType => true
      | _ => false) = true := by
    decide +kernel
  split at h
  · next hr => exact hr
  · cases h

theorem not_heedsFile_numberedFile :
    ¬ HeedsFile Yaml.read numberedFile (ofFileBy Yaml.read "options.yaml" numberedFile) := by
  have h : ofFileBy Yaml.read "options.yaml" numberedFile = .error .wrongType :=
    ofFile_numberedFile
  rw [h]
  exact not_heedsFile_error rfl

end Options

end AlgebraBatch
