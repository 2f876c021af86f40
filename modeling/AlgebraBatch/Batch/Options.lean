import AlgebraBatch.Datum.Value
import AlgebraBatch.Expr.Literal
import AlgebraBatch.Fault

/-!
# Engine options

`Options` are the settings under which a batch is evaluated. Each setting has a name for the user
and one in the engine, where it is a variable that is set or a function that is called with a text.
Four settings are truth values; the others allow a few texts each. `Options.ofMapping` takes the
settings from a map of names to values and refuses names that are not known and values that are not
allowed; the settings that the map does not name keep their defaults.
-/

namespace AlgebraBatch

open AlgebraBatch.Text

inductive Setting where
  | simplify
  | assumePositive
  | assumeReal
  | sqrtSign
  | matrixParens
  | multiplicationSign
  | complexUnit
  | inverseTrig
  | logicSymbol
  deriving DecidableEq, Repr

/-- How the engine takes a setting. -/
inductive SettingForm where
  | flag
  | textVariable
  | function
  deriving DecidableEq, Repr

namespace Setting

/-- The settings in the order in which they are checked and written. -/
def all : List Setting :=
  [simplify, assumePositive, assumeReal, sqrtSign, matrixParens, multiplicationSign, complexUnit,
    inverseTrig, logicSymbol]

def name : Setting → String
  | simplify => "simplify"
  | assumePositive => "assume_positive"
  | assumeReal => "assume_real"
  | sqrtSign => "sqrt_sign"
  | matrixParens => "matrix_parens"
  | multiplicationSign => "multiplication_sign"
  | complexUnit => "complex_unit"
  | inverseTrig => "inverse_trig"
  | logicSymbol => "logic_symbol"

def engineName : Setting → String
  | simplify => "simp"
  | assumePositive => "assume_pos"
  | assumeReal => "assume_real"
  | sqrtSign => "sqrtdispflag"
  | matrixParens => "lmxchar"
  | multiplicationSign => "make_multsgn"
  | complexUnit => "make_complexJ"
  | inverseTrig => "make_arccos"
  | logicSymbol => "make_logic"

def form : Setting → SettingForm
  | simplify => .flag
  | assumePositive => .flag
  | assumeReal => .flag
  | sqrtSign => .flag
  | matrixParens => .textVariable
  | _ => .function

/-- The texts that a setting allows; none for the truth values. -/
def choices : Setting → List String
  | matrixParens => ["[", "(", "\x7b", "|", ""]
  | multiplicationSign => ["dot", "cross", "onum", "none"]
  | complexUnit => ["i", "j", "symi", "symj"]
  | inverseTrig => ["cos-1", "acos", "arccos", "arccos-arcosh"]
  | logicSymbol => ["lang", "symbol"]
  | _ => []

def named? (name : String) : Option Setting :=
  all.find? (·.name == name)

end Setting

inductive SettingValue where
  | flag (value : Bool)
  | choice (value : String)
  deriving DecidableEq, Repr

def SettingValue.toDatum : SettingValue → Datum
  | flag b => .bool b
  | choice s => .str s

structure Options where
  simplify : Bool := true
  assumePositive : Bool := false
  assumeReal : Bool := false
  sqrtSign : Bool := true
  matrixParens : String := "["
  multiplicationSign : String := "dot"
  complexUnit : String := "i"
  inverseTrig : String := "cos-1"
  logicSymbol : String := "lang"
  deriving DecidableEq, Repr, Inhabited

namespace Options

def get (options : Options) : Setting → SettingValue
  | .simplify => .flag options.simplify
  | .assumePositive => .flag options.assumePositive
  | .assumeReal => .flag options.assumeReal
  | .sqrtSign => .flag options.sqrtSign
  | .matrixParens => .choice options.matrixParens
  | .multiplicationSign => .choice options.multiplicationSign
  | .complexUnit => .choice options.complexUnit
  | .inverseTrig => .choice options.inverseTrig
  | .logicSymbol => .choice options.logicSymbol

/-- Gives a setting a value of its kind; a value of the other kind changes nothing. -/
def set (options : Options) (setting : Setting) (value : SettingValue) : Options :=
  match setting, value with
  | .simplify, .flag b => { options with simplify := b }
  | .assumePositive, .flag b => { options with assumePositive := b }
  | .assumeReal, .flag b => { options with assumeReal := b }
  | .sqrtSign, .flag b => { options with sqrtSign := b }
  | .matrixParens, .choice s => { options with matrixParens := s }
  | .multiplicationSign, .choice s => { options with multiplicationSign := s }
  | .complexUnit, .choice s => { options with complexUnit := s }
  | .inverseTrig, .choice s => { options with inverseTrig := s }
  | .logicSymbol, .choice s => { options with logicSymbol := s }
  | _, _ => options

section Reading

variable {α : Type} [Value α]

/-- The refusal of a value for a setting, which shows the value. -/
def refusal (setting : Setting) (v : α) : Fault :=
  (Value.writingFault? v).getD (.badOptions
    (if setting.form == .flag then .notBoolean setting.name (Value.debug v)
    else .notAllowed setting.name setting.choices (Value.debug v)))

/-- What a value is for a setting, if the setting allows it. -/
def readValue (setting : Setting) (v : α) : Except Fault SettingValue :=
  match setting.form with
  | .flag =>
    match Value.flag? v with
    | some b => .ok (.flag b)
    | none => .error (refusal setting v)
  | _ =>
    match Value.text? v with
    | some s => if setting.choices.contains s then .ok (.choice s) else .error (refusal setting v)
    | none => .error (refusal setting v)

/-- Takes the value of one setting from a map, if the map has one. -/
def take (entries : List (α × α)) (options : Options) (setting : Setting) :
    Except Fault Options :=
  match Value.lookup setting.name entries with
  | none => .ok options
  | some v => (readValue setting v).map (options.set setting)

/-- The keys that name no setting. -/
def unknownKeys (entries : List (α × α)) : List α :=
  (entries.map Prod.fst).filter fun key => ((Value.text? key).bind Setting.named?).isNone

/-- The options that the entries of a map describe. Names that are not known are reported in order; a
key that is no text cannot be. -/
def ofEntries (entries : List (α × α)) : Except Fault Options :=
  match unknownKeys entries with
  | [] => Setting.all.foldlM (take entries) {}
  | unknown =>
    match unknown.mapM Value.text? with
    | some names => .error (.badOptions (.unknown (names.mergeSort (fun a b => a ≤ b))))
    | none => .error .wrongType

/-- The options that a map describes. -/
def ofMapping (v : α) : Except Fault Options :=
  match Value.entries? v with
  | some entries => ofEntries entries
  | none => .error (.badOptions (.notMapping (Value.typeName v)))

end Reading

/-- What the engine is told for a setting. -/
def command (options : Options) (setting : Setting) : String :=
  match setting.form, options.get setting with
  | .function, value => setting.engineName ++ "(" ++ literal value ++ ")"
  | _, value => setting.engineName ++ ":" ++ literal value
where
  literal : SettingValue → String
    | .flag b => if b then "true" else "false"
    | .choice s => Literal.quoteText s

/-- The commands that set all options, each after a comma and a blank. -/
def commands (options : Options) : String :=
  String.join (Setting.all.map fun s => ", " ++ options.command s)

/-- The engine's names of the settings that are variables, each after a comma and a blank. -/
def variableNames : String :=
  String.join ((Setting.all.filter (·.form != .function)).map fun s => ", " ++ s.engineName)

/-- The options with all their values. -/
def debug (options : Options) : String :=
  "EngineOptions(" ++
    joinWith ", " (Setting.all.map fun s => s.name ++ "=" ++ (options.get s).toDatum.debug) ++ ")"

end Options

end AlgebraBatch
