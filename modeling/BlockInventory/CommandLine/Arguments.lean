import BlockInventory.Text.Numeral

/-!
# Arguments of the command line

What the arguments ask for. They are read from left to right and the first one that is wrong decides. A setting takes
its value from behind an equals sign or from the next argument, which then may not begin with a hyphen unless it is a
single one. No setting may be given twice, and nothing but settings may be given.
-/

set_option autoImplicit false

namespace BlockInventory.CommandLine

/-- A setting that takes a value. -/
inductive Setting where
  | root
  | config
  | unit
  deriving DecidableEq, Repr

structure Arguments where
  /-- The directory beneath which the host lies. -/
  root : String := "/"
  config : Option String := none
  /-- The unit, which goes before the one of the configuration file. -/
  unit : Option UInt64 := none
  json : Bool := false
  deriving DecidableEq, Repr

inductive Request where
  | help
  | list (arguments : Arguments)
  deriving DecidableEq, Repr

inductive UsageError where
  /-- The argument is no setting and no value of one. -/
  | unexpected (argument : String)
  | missingValue (setting : Setting)
  /-- The value cannot be one of the setting's. -/
  | badValue (setting : Setting) (value : String)
  | repeated (argument : String)
  /-- The argument gives a value to a setting that takes none. -/
  | needlessValue (argument : String)
  deriving DecidableEq, Repr

namespace Setting

def flag : Setting → String
  | .root => "--root"
  | .config => "--config"
  | .unit => "--unit"

def ofName? (name : List Char) : Option Setting :=
  if name = "root".toList then some .root
  else if name = "config".toList then some .config
  else if name = "unit".toList then some .unit
  else none

end Setting

def UsageError.message : UsageError → String
  | .unexpected argument => s!"unexpected argument '{argument}'"
  | .missingValue setting => s!"a value is required for '{setting.flag}'"
  | .badValue setting value => s!"invalid value '{value}' for '{setting.flag}'"
  | .repeated argument => s!"the argument '{argument}' cannot be used multiple times"
  | .needlessValue argument => s!"the argument '{argument}' takes no value"

structure Given where
  root : Option String := none
  config : Option String := none
  unit : Option UInt64 := none
  json : Bool := false

namespace Given

def toArguments (given : Given) : Arguments where
  root := given.root.getD "/"
  config := given.config
  unit := given.unit
  json := given.json

/-- Gives a path to a setting that has none. -/
def path? (setting : Setting) (earlier : Option String) (value : String) : Except UsageError (Option String) :=
  if value = "" then .error (.badValue setting value)
  else if earlier.isSome then .error (.repeated setting.flag)
  else .ok (some value)

def set (given : Given) (setting : Setting) (value : String) : Except UsageError Given :=
  match setting with
  | .root => (path? .root given.root value).map fun root => { given with root }
  | .config => (path? .config given.config value).map fun config => { given with config }
  | .unit =>
    match Text.Numeral.read? value.toList with
    | none => .error (.badValue .unit value)
    | some unit =>
      if given.unit.isSome then .error (.repeated Setting.unit.flag)
      else .ok { given with unit := some unit }

def askJson (given : Given) : Except UsageError Given :=
  if given.json then .error (.repeated "--json") else .ok { given with json := true }

end Given

inductive Shape where
  /-- The end of the settings. -/
  | terminator
  /-- A name after two hyphens, and a value after an equals sign. -/
  | long (name : List Char) (value : Option (List Char))
  /-- Letters after one hyphen. -/
  | short (letters : List Char)
  | plain

def shapeOf : List Char → Shape
  | ['-', '-'] => .terminator
  | '-' :: '-' :: text =>
    match text.dropWhile (· != '=') with
    | _ :: value => .long (text.takeWhile (· != '=')) (some value)
    | [] => .long text none
  | '-' :: letter :: letters => .short (letter :: letters)
  | _ => .plain

/-- Reads the arguments after those that gave `given`. A setting that still waits for its value is `pending`. -/
def readArguments (given : Given) (pending : Option Setting) : List String → Except UsageError Request
  | [] =>
    match pending with
    | some setting => .error (.missingValue setting)
    | none => .ok (.list given.toArguments)
  | argument :: rest =>
    match pending, shapeOf argument.toList with
    | some setting, .plain => do readArguments (← given.set setting argument) none rest
    | some setting, _ => .error (.missingValue setting)
    | none, .plain => .error (.unexpected argument)
    | none, .terminator =>
      match rest with
      | [] => .ok (.list given.toArguments)
      | further :: _ => .error (.unexpected further)
    | none, .short letters =>
      if letters.head? = some 'h' then .ok .help else .error (.unexpected argument)
    | none, .long name value =>
      match Setting.ofName? name, value with
      | some setting, some value => do readArguments (← given.set setting (String.ofList value)) none rest
      | some setting, none => readArguments given (some setting) rest
      | none, value =>
        if name = "json".toList then
          match value with
          | some _ => .error (.needlessValue argument)
          | none => do readArguments (← given.askJson) none rest
        else if name = "help".toList then
          match value with
          | some _ => .error (.needlessValue argument)
          | none => .ok .help
        else .error (.unexpected argument)

def Request.ofArguments (arguments : List String) : Except UsageError Request :=
  readArguments {} none arguments

end BlockInventory.CommandLine
