import AlgebraBatch.Engine.Connector
import AlgebraBatch.Proofs.Decimal.Overflow
import AlgebraBatch.Proofs.Except

/-!
# Settings that are accepted or refused

A computation `Settles` if it fails in no other way than by refusing a value. Settings that cannot be
read because of their type, or that exceed every double or integer, are not refused: the building of a
connector settles exactly if the settings fit, where a setting counts only if those that are read
before it can be read (`settles_ofSettings`).
-/

namespace AlgebraBatch

/-- A value of the right type is refused. -/
def Fault.isRefusal : Fault → Bool
  | .badValue _ => true
  | .numeral _ => true
  | .syntaxError _ _ => true
  | _ => false

/-- If it fails, it is because a value is refused. -/
def Settles {α : Type} (x : Except Fault α) : Prop :=
  ∀ fault, x = .error fault → fault.isRefusal = true

section Settles

variable {α β : Type}

theorem settles_ok (a : α) : Settles (.ok a) := nofun

theorem settles_error {fault : Fault} :
    Settles (.error fault : Except Fault α) ↔ fault.isRefusal = true :=
  ⟨fun h => h fault rfl, fun h _ he => Except.error.inj he ▸ h⟩

theorem settles_bind {x : Except Fault α} {f : α → Except Fault β} :
    Settles (x >>= f) ↔ Settles x ∧ ∀ a, x = .ok a → Settles (f a) := by
  cases x with
  | error fault =>
    have he : (.error fault >>= f) = .error fault := rfl
    rw [he, settles_error, settles_error]
    exact ⟨fun h => ⟨h, nofun⟩, And.left⟩
  | ok a => exact ⟨fun h => ⟨settles_ok a, fun _ ha => Except.ok.inj ha ▸ h⟩, fun h => h.2 a rfl⟩

theorem settles_map {x : Except Fault α} {f : α → β} : Settles (f <$> x) ↔ Settles x := by
  cases x with
  | error fault => exact settles_error.trans settles_error.symm
  | ok a => exact iff_of_true (settles_ok _) (settles_ok _)

theorem settles_numeral (x : Except NumeralFault α) : Settles (x.mapError Fault.numeral) := by
  cases x with
  | error fault => exact settles_error.2 rfl
  | ok a => exact settles_ok a

/-- What is not there is no refusal, unless the fault that stands for it is one. -/
theorem settles_ofOption (x : Option α) (fault : Fault) (h : fault.isRefusal = false) :
    Settles (match x with
      | some a => .ok a
      | none => .error fault) ↔ x.isSome = true := by
  cases x with
  | none => exact iff_of_false (fun hx => Bool.noConfusion (h.symm.trans (hx fault rfl))) nofun
  | some a => exact iff_of_true (settles_ok a) rfl

end Settles

/-! ## Numbers -/

theorem Binary64.settles_toInteger (x : Binary64) :
    Settles x.toInteger ↔ ∀ negative, x ≠ .infinite negative := by
  cases x with
  | nan => exact iff_of_true (settles_error.2 rfl) fun _ => nofun
  | infinite negative => exact iff_of_false (fun h => nomatch h _ rfl) fun h => h negative rfl
  | finite negative m q => exact iff_of_true (settles_ok _) fun _ => nofun

namespace Datum

/-- A text, a double, or an integer that is a double. -/
def MakesFloat : Datum → Prop
  | .str _ => True
  | .float _ => True
  | d => ∃ n, d.integer? = some n ∧ n.natAbs < (2 ^ 54 - 1) * 2 ^ 970

/-- A text, an integer, or a double that is not infinite. -/
def MakesInteger : Datum → Prop
  | .str _ => True
  | .float x => ∀ negative, x ≠ .infinite negative
  | d => ∃ n, d.integer? = some n

theorem settles_doubleOf (x : Option Int) :
    Settles (match x with
      | some n => match Binary64.ofInt? n with
        | some x => .ok x
        | none => .error .tooLarge
      | none => .error .wrongType) ↔
    ∃ n, x = some n ∧ n.natAbs < (2 ^ 54 - 1) * 2 ^ 970 := by
  cases x with
  | none => exact iff_of_false (fun h => Bool.noConfusion (h _ rfl)) nofun
  | some n =>
    simp only [Option.some.injEq, exists_eq_left', ← Binary64.isSome_ofInt?]
    cases Binary64.ofInt? n with
    | none => exact settles_ofOption none .tooLarge rfl
    | some x => exact settles_ofOption (some x) .tooLarge rfl

theorem settles_toFloat (d : Datum) : Settles d.toFloat ↔ d.MakesFloat := by
  cases d with
  | str s => exact iff_of_true (settles_numeral _) trivial
  | float x => exact iff_of_true (settles_ok x) trivial
  | null => exact settles_doubleOf none
  | bool b => exact settles_doubleOf (some (if b then 1 else 0))
  | int n => exact settles_doubleOf (some n)
  | moment m => exact settles_doubleOf none
  | list items => exact settles_doubleOf none
  | map entries => exact settles_doubleOf none

theorem settles_toInteger (d : Datum) : Settles d.toInteger ↔ d.MakesInteger := by
  have hinteger (x : Option Int) :=
    (settles_ofOption x .wrongType rfl).trans Option.isSome_iff_exists
  cases d with
  | str s => exact iff_of_true (settles_numeral _) trivial
  | float x => exact x.settles_toInteger
  | null => exact hinteger none
  | bool b => exact hinteger (some (if b then 1 else 0))
  | int n => exact hinteger (some n)
  | moment m => exact hinteger none
  | list items => exact hinteger none
  | map entries => exact hinteger none

end Datum

namespace Engine.Connector

/-- A command must be something that can be listed, as a text can. -/
theorem settles_commandOf (d : Datum) : Settles (commandOf d) ↔ d.elements?.isSome = true := by
  have hlisted (x : Option (List Datum)) := settles_ofOption x .wrongType rfl
  cases d with
  | str s =>
    refine iff_of_true ?_ rfl
    rw [commandOf]
    cases Text.shellWords s with
    | ok words => exact settles_ok _
    | error fault => exact settles_error.2 rfl
  | list items => exact hlisted (some items)
  | map entries => exact hlisted (some (entries.map Prod.fst))
  | null => exact hlisted none
  | bool b => exact hlisted none
  | int n => exact hlisted none
  | float x => exact hlisted none
  | moment m => exact hlisted none

/-! ## Settings -/

section Setting

variable {α : Type} {name : String} {entries : List (Datum × Datum)} {default : α}
  {read : Datum → Except Fault α}

/-- The setting of a name, if there is one, is as it should be. -/
def AllAt (name : String) (entries : List (Datum × Datum)) (P : Datum → Prop) : Prop :=
  ∀ d, Datum.lookup (.str name) entries = some d → P d

theorem settles_setting {P : Datum → Prop} (h : ∀ d, Settles (read d) ↔ P d) :
    Settles (setting name entries default read) ↔ AllAt name entries P := by
  unfold setting AllAt
  cases Datum.lookup (.str name) entries with
  | none => exact iff_of_true (settles_ok _) nofun
  | some d => exact (h d).trans ⟨fun hd _ he => Option.some.inj he ▸ hd, fun hd => hd d rfl⟩

/-- Whether a setting is missing or can be read. -/
def IsRead (name : String) (entries : List (Datum × Datum)) (read : Datum → Except Fault α) : Prop :=
  AllAt name entries fun d => ∃ a, read d = .ok a

theorem setting_isOk :
    (∃ a, setting name entries default read = .ok a) ↔ IsRead name entries read := by
  unfold setting IsRead AllAt
  cases Datum.lookup (.str name) entries with
  | none => exact iff_of_true ⟨default, rfl⟩ nofun
  | some d => exact ⟨fun h _ he => Option.some.inj he ▸ h, fun h => h d rfl⟩

end Setting

/-- Settings of a process that are read or refused. -/
structure ProcessFits (entries : List (Datum × Datum)) : Prop where
  command : AllAt "command" entries fun d => d.elements?.isSome = true
  timeout : IsRead "command" entries commandOf → AllAt "timeout" entries Datum.MakesFloat

/-- Settings of a server that are read or refused. -/
structure ServerFits (entries : List (Datum × Datum)) : Prop where
  timeout : AllAt "timeout" entries Datum.MakesFloat
  retries : IsRead "timeout" entries Datum.toFloat → AllAt "retries" entries Datum.MakesInteger
  backoff : IsRead "timeout" entries Datum.toFloat → IsRead "retries" entries Datum.toInteger →
    AllAt "backoff" entries Datum.MakesFloat

variable {entries : List (Datum × Datum)}

theorem settles_processOf : Settles (processOf entries) ↔ ProcessFits entries := by
  simp only [processOf, settles_bind, settles_setting settles_commandOf,
    settles_setting Datum.settles_toFloat]
  constructor
  · rintro ⟨hcommand, h⟩
    refine ⟨hcommand, fun hread => ?_⟩
    obtain ⟨command, hc⟩ := setting_isOk.2 hread
    exact (h command hc).1
  · rintro ⟨hcommand, htimeout⟩
    refine ⟨hcommand, fun command hc => ?_⟩
    exact ⟨htimeout (setting_isOk.1 ⟨command, hc⟩), fun _ _ => settles_ok _⟩

theorem settles_serverOf (url : Datum) : Settles (serverOf url entries) ↔ ServerFits entries := by
  simp only [serverOf, settles_bind, settles_setting Datum.settles_toFloat,
    settles_setting Datum.settles_toInteger]
  constructor
  · rintro ⟨htimeout, h⟩
    refine ⟨htimeout, fun hread => ?_, fun hread hread' => ?_⟩
    · obtain ⟨timeout, ht⟩ := setting_isOk.2 hread
      exact (h timeout ht).1
    · obtain ⟨timeout, ht⟩ := setting_isOk.2 hread
      obtain ⟨retries, hr⟩ := setting_isOk.2 hread'
      exact ((h timeout ht).2 retries hr).1
  · rintro ⟨htimeout, hretries, hbackoff⟩
    refine ⟨htimeout, fun timeout ht => ?_⟩
    have hread := setting_isOk.1 ⟨timeout, ht⟩
    refine ⟨hretries hread, fun retries hr => ?_⟩
    exact ⟨hbackoff hread (setting_isOk.1 ⟨retries, hr⟩), fun _ _ => settles_ok _⟩

/-! ## Connectors -/

theorem settles_platform (d : Datum) : Settles (Platform.ofSetting d) := by
  unfold Platform.ofSetting
  split
  · exact settles_ok _
  · exact settles_ok _
  · rw [settles_error, Datum.writingFault?]
    split <;> rfl

theorem refuseUnknown_eq_ok {platform : Platform} :
    refuseUnknown platform entries = .ok () ↔ unknownSettings platform entries = [] := by
  unfold refuseUnknown
  cases unknownSettings platform entries with
  | nil => exact iff_of_true rfl rfl
  | cons name names => exact iff_of_false nofun nofun

theorem settles_refuseUnknown (platform : Platform) : Settles (refuseUnknown platform entries) := by
  unfold refuseUnknown
  split
  · exact settles_ok _
  · exact settles_error.2 rfl

/-- The setting that names the platform, or its default. -/
def platformSetting (entries : List (Datum × Datum)) : Datum :=
  (Datum.lookup (.str "platform") entries).getD (.str Platform.process.name)

/-- The settings of a platform are read or refused. A server is refused without an url. -/
def Platform.Fits : Platform → List (Datum × Datum) → Prop
  | .process, entries => ProcessFits entries
  | .server, entries => (Datum.lookup (.str "url") entries).isSome = true → ServerFits entries

/-- If there is such a platform and it knows all the settings, these are read or refused. -/
def SettingsFit (entries : List (Datum × Datum)) : Prop :=
  ∀ platform, Platform.ofSetting (platformSetting entries) = .ok platform →
    unknownSettings platform (Datum.erase (.str "platform") entries) = [] →
    platform.Fits (Datum.erase (.str "platform") entries)

/-- A connector is built or refused exactly if the settings fit. -/
theorem settles_ofSettings : Settles (ofSettings (.map entries)) ↔ SettingsFit entries := by
  show Settles (ofEntries entries) ↔ _
  rw [ofEntries, settles_bind, and_iff_right (settles_platform _), SettingsFit]
  refine forall₂_congr fun platform hplatform => ?_
  cases platform with
  | process =>
    simp only [settles_bind, settles_map]
    constructor
    · rintro ⟨-, h⟩ hknown
      exact settles_processOf.1 (h () (refuseUnknown_eq_ok.2 hknown))
    · intro h
      refine ⟨settles_refuseUnknown _, fun _ hr => ?_⟩
      exact settles_processOf.2 (h (refuseUnknown_eq_ok.1 hr))
  | server =>
    simp only [Platform.Fits]
    cases Datum.lookup (.str "url") (Datum.erase (.str "platform") entries) with
    | none => exact iff_of_true (settles_error.2 rfl) fun _ => nofun
    | some url =>
      simp only [settles_bind, settles_map, Option.isSome_some, forall_const]
      constructor
      · rintro ⟨-, h⟩ hknown
        exact (settles_serverOf url).1 (h () (refuseUnknown_eq_ok.2 hknown))
      · intro h
        refine ⟨settles_refuseUnknown _, fun _ hr => ?_⟩
        exact (settles_serverOf url).2 (h (refuseUnknown_eq_ok.1 hr))

end Engine.Connector

end AlgebraBatch
