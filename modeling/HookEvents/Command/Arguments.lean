import HookEvents.Text.Split

namespace HookEvents

open Text

structure GenerateOptions where
  path : Option String := none
  out : Option String := none
  types : List String := []
  dryRun : Bool := false
  json : Bool := false
  deriving DecidableEq, Repr, Inhabited

structure ScanOptions where
  path : Option String := none
  json : Bool := false
  deriving DecidableEq, Repr, Inhabited

structure TypesOptions where
  path : Option String := none
  exportTo : Option String := none
  json : Bool := false
  deriving DecidableEq, Repr, Inhabited

structure ConfigInitOptions where
  path : Option String := none
  force : Bool := false
  deriving DecidableEq, Repr, Inhabited

inductive Command where
  | generate (options : GenerateOptions)
  | scan (options : ScanOptions)
  | types (options : TypesOptions)
  | configShow (path : Option String)
  | configInit (options : ConfigInitOptions)
  deriving DecidableEq, Repr, Inhabited

namespace Command

def path : Command → Option String
  | .generate options => options.path
  | .scan options => options.path
  | .types options => options.path
  | .configShow path => path
  | .configInit options => options.path

end Command

inductive Invocation where
  | run (command : Command)
  | help
  | version
  | bad
  deriving DecidableEq, Repr, Inhabited

inductive OptionKind where
  | flag
  | value
  | values
  deriving DecidableEq, Repr, Inhabited

structure OptionForm where
  long : String
  short : Option Char := none
  kind : OptionKind
  deriving DecidableEq, Repr, Inhabited

structure Given where
  path : Option String := none
  options : List (String × String) := []
  deriving DecidableEq, Repr, Inhabited

namespace Given

def has (given : Given) (long : String) : Bool := given.options.any fun option => option.1 = long

def all (given : Given) (long : String) : List String :=
  (given.options.filter fun option => option.1 = long).map (·.2)

def last? (given : Given) (long : String) : Option String := (given.all long).getLast?

end Given

inductive Reading where
  | done (given : Given)
  | help
  | bad
  deriving DecidableEq, Repr, Inhabited

namespace Arguments

def isOption (argument : String) : Bool := startsWith "-" argument && argument ≠ "-"

def addOption (form : OptionForm) (value : String) (given : Given) : Option Given :=
  if (form.kind ≠ .values && given.has form.long) || (form.kind ≠ .flag && value = "") then none
  else some { given with options := given.options ++ [(form.long, value)] }

def addPath (path : String) (given : Given) : Option Given :=
  if given.path.isSome || path = "" then none else some { given with path := some path }

def readPaths (given : Given) : List String → Reading
  | [] => .done given
  | argument :: arguments =>
    match addPath argument given with
    | some given => readPaths given arguments
    | none => .bad

inductive Step where
  | next (given : Given) (rest : List String)
  | help
  | bad

def orBad (given : Option Given) (rest : List String) : Step :=
  match given with
  | some given => .next given rest
  | none => .bad

def takeValue (form : OptionForm) (given : Given) : List String → Step
  | [] => .bad
  | value :: rest => if isOption value then .bad else orBad (addOption form value given) rest

def readLong (forms : List OptionForm) (given : Given) (text : String) (rest : List String) :
    Step :=
  let (name, value) := match splitFirst '=' text with
    | some (name, value) => (name, some value)
    | none => (text, none)
  match forms.find? fun form => form.long = name, value with
  | some form, some value =>
    if form.kind = .flag then .bad else orBad (addOption form value given) rest
  | some form, none =>
    if form.kind = .flag then orBad (addOption form "" given) rest else takeValue form given rest
  | none, none => if name = "help" then .help else .bad
  | none, some _ => .bad

/-- Letters after one hyphen; the rest after the letter of an option with a value is its value. -/
def readShort (forms : List OptionForm) (rest : List String) : Given → List Char → Step
  | given, [] => .next given rest
  | given, c :: cs =>
    match forms.find? fun form => form.short = some c with
    | some form =>
      if form.kind = .flag then
        match addOption form "" given with
        | some given => readShort forms rest given cs
        | none => .bad
      else match cs with
        | [] => takeValue form given rest
        | '=' :: value => orBad (addOption form (String.ofList value) given) rest
        | value => orBad (addOption form (String.ofList value) given) rest
    | none => if c = 'h' then .help else .bad

def read (forms : List OptionForm) : Nat → Given → List String → Reading
  | 0, _, _ => .bad
  | _ + 1, given, [] => .done given
  | fuel + 1, given, argument :: rest =>
    let step :=
      match dropStart "--" argument with
      | some text => readLong forms given text rest
      | none =>
        if isOption argument then readShort forms rest given (argument.toList.drop 1)
        else orBad (addPath argument given) rest
    if argument = "--" then readPaths given rest
    else match step with
      | .next given rest => read forms fuel given rest
      | .help => .help
      | .bad => .bad

def jsonForm : OptionForm := { long := "json", kind := .flag }

def generateForms : List OptionForm :=
  [{ long := "out", short := some 'o', kind := .value }, { long := "types", kind := .values },
    { long := "dry-run", kind := .flag }, jsonForm]

def typesForms : List OptionForm := [{ long := "export", kind := .value }, jsonForm]

def initForms : List OptionForm := [{ long := "force", kind := .flag }]

def readCommand (forms : List OptionForm) (arguments : List String) (make : Given → Command) :
    Invocation :=
  match read forms (arguments.length + 1) {} arguments with
  | .done given => .run (make given)
  | .help => .help
  | .bad => .bad

def parseConfig (arguments : List String) : Invocation :=
  match arguments with
  | "show" :: rest => readCommand [] rest fun given => .configShow given.path
  | "init" :: rest =>
    readCommand initForms rest fun given =>
      .configInit { path := given.path, force := given.has "force" }
  | "help" :: rest => if rest.all ["show", "init", "help"].contains then .help else .bad
  | "--help" :: _ => .help
  | first :: _ => if startsWith "-h" first then .help else .bad
  | [] => .bad

def commandNames : List String := ["generate", "scan", "types", "config", "help"]

def parse (arguments : List String) : Invocation :=
  match arguments with
  | "generate" :: rest =>
    readCommand generateForms rest fun given =>
      .generate { path := given.path, out := given.last? "out", types := given.all "types"
                  dryRun := given.has "dry-run", json := given.has "json" }
  | "scan" :: rest =>
    readCommand [jsonForm] rest fun given =>
      .scan { path := given.path, json := given.has "json" }
  | "types" :: rest =>
    readCommand typesForms rest fun given =>
      .types { path := given.path, exportTo := given.last? "export", json := given.has "json" }
  | "config" :: rest => parseConfig rest
  | "help" :: rest => if rest.all commandNames.contains then .help else .bad
  | "--help" :: _ => .help
  | "--version" :: _ => .version
  | first :: _ =>
    if startsWith "-h" first then .help else if startsWith "-V" first then .version else .bad
  | [] => .bad

end Arguments
end HookEvents
