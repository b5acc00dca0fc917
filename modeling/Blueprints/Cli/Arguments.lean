import Blueprints.Graph.Format

/-! # Command lines

    A command line names a command, in front of which and behind which
    options may stand.  An option that takes a value has it behind an equals
    sign, right behind its letter, or as the next word.  Words behind `--`
    are never options. -/

namespace Blueprints.Cli

/-- What the program is asked to do. -/
inductive Command where
  | compile (input : String) (out : Option String) (json : Bool)
  | build
  | helpers (out : Option String)
  | catalog
  | new (name : String) (kind : BlueprintKind)
  deriving DecidableEq, Repr

/-- A command and what applies to any. -/
structure Invocation where
  project : String := "."
  options : Option String := none
  inlineHelpers : Bool := false
  command : Command
  deriving DecidableEq, Repr

/-- Why no command is run. -/
inductive Stop where
  /-- The command line is not understood. -/
  | usage
  | help
  | version
  deriving DecidableEq, Repr

/-- An option. -/
structure Switch where
  name : String
  letter : Option Char := none
  takesValue : Bool := false
  /-- Whether a text may be its value. -/
  accepts : String → Bool := fun _ => true

/-- The options and words that were given. -/
structure Given where
  values : List (String × String) := []
  words : List String := []

/-- What may be given. -/
structure Grammar where
  switches : List Switch
  /-- How many words there may be. -/
  most : Nat := 0
  acceptsWord : String → Bool := fun _ => true
  /-- Whether the first word is the name of a command, and ends the
      options in front of it. -/
  namesCommand : Bool := false

/-- The shapes of an argument. -/
inductive Shape where
  | dashes
  | long (name : String) (value : Option String)
  | short (letter : Char) (rest : List Char)
  | word
  deriving DecidableEq, Repr

/-- The shape of an argument. -/
def shape (arg : String) : Shape :=
  match arg.toList with
  | ['-', '-'] => .dashes
  | '-' :: '-' :: cs =>
    let name := cs.takeWhile (· != '=')
    match cs.dropWhile (· != '=') with
    | [] => .long (String.ofList name) none
    | _ :: value => .long (String.ofList name) (some (String.ofList value))
  | '-' :: c :: cs => .short c cs
  | _ => .word

/-- Notes an option; the same one twice is not understood. -/
def Given.add (g : Given) (s : Switch) (value : String) : Except Stop Given :=
  if (g.values.lookup s.name).isSome || !s.accepts value then .error .usage
  else .ok { g with values := g.values ++ [(s.name, value)] }

/-- Notes a word, if one more may be given. -/
def Given.addWord (g : Given) (grammar : Grammar) (word : String) : Except Stop Given :=
  if grammar.most ≤ g.words.length || !grammar.acceptsWord word then .error .usage
  else .ok { g with words := g.words ++ [word] }

/-- Notes words. -/
def Given.addWords (g : Given) (grammar : Grammar) : List String → Except Stop Given
  | [] => .ok g
  | word :: rest =>
    match g.addWord grammar word with
    | .error stop => .error stop
    | .ok g => g.addWords grammar rest

/-- The value right behind an option's letter. -/
def attached : List Char → Option String
  | [] => none
  | '=' :: cs => some (String.ofList cs)
  | cs => some (String.ofList cs)

/-- The option that an argument names, with the value in it. -/
def switchOf (grammar : Grammar) (arg : Shape) : Except Stop (Switch × Option String) :=
  match arg with
  | .long name value =>
    if value.isNone && name == "help" then .error .help
    else if value.isNone && name == "version" && grammar.namesCommand then .error .version
    else
      match grammar.switches.find? (·.name == name) with
      | some s => .ok (s, value)
      | none => .error .usage
  | .short letter rest =>
    if letter == 'h' then .error .help
    else if letter == 'V' && grammar.namesCommand then .error .version
    else
      match grammar.switches.find? (·.letter == some letter) with
      | some s => .ok (s, attached rest)
      | none => .error .usage
  | _ => .error .usage

/-- Takes in arguments up to the end, or up to the name of a command; what
    is left of them. -/
def scan (grammar : Grammar) : List String → Given → Except Stop (Given × List String)
  | [], g => .ok (g, [])
  | arg :: rest, g =>
    match shape arg with
    | .word =>
      if grammar.namesCommand then .ok (g, arg :: rest)
      else
        match g.addWord grammar arg with
        | .error stop => .error stop
        | .ok g => scan grammar rest g
    | .dashes => (g.addWords grammar rest).map fun g => (g, [])
    | other =>
      match switchOf grammar other with
      | .error stop => .error stop
      | .ok (s, some value) =>
        if s.takesValue then
          match g.add s value with
          | .error stop => .error stop
          | .ok g => scan grammar rest g
        else .error .usage
      | .ok (s, none) =>
        if s.takesValue then
          match rest with
          | [] => .error .usage
          | value :: rest =>
            if shape value == .word then
              match g.add s value with
              | .error stop => .error stop
              | .ok g => scan grammar rest g
            else .error .usage
        else
          match g.add s "" with
          | .error stop => .error stop
          | .ok g => scan grammar rest g

/-! ## The commands -/

/-- Whether a text can be a path. -/
def isPath (s : String) : Bool := !s.isEmpty

/-- The options that apply to any command. -/
def commonSwitches : List Switch :=
  [ { name := "project", letter := some 'p', takesValue := true, accepts := isPath },
    { name := "options", letter := some 'o', takesValue := true, accepts := isPath },
    { name := "inline-helpers" } ]

/-- What may stand in front of the command. -/
def topGrammar : Grammar := { switches := commonSwitches, namesCommand := true }

/-- The option for an output file. -/
def outSwitch : Switch := { name := "out", takesValue := true, accepts := isPath }

/-- The option for a kind of blueprint. -/
def typeSwitch : Switch where
  name := "type"
  letter := some 't'
  takesValue := true
  accepts := fun s => (BlueprintKind.names.lookup s).isSome

/-- What may stand behind a command. -/
def commandGrammar? : String → Option Grammar
  | "compile" =>
    some { switches := commonSwitches ++ [outSwitch, { name := "json" }], most := 1
           acceptsWord := isPath }
  | "build" | "catalog" => some { switches := commonSwitches }
  | "helpers" => some { switches := commonSwitches ++ [outSwitch] }
  | "new" => some { switches := commonSwitches ++ [typeSwitch], most := 1 }
  | _ => none

/-- The command that was given. -/
def command? (name : String) (g : Given) : Option Command :=
  match name, g.words with
  | "compile", [input] =>
    some (.compile input (g.values.lookup "out") (g.values.lookup "json").isSome)
  | "build", [] => some .build
  | "helpers", [] => some (.helpers (g.values.lookup "out"))
  | "catalog", [] => some .catalog
  | "new", [word] =>
    let kind? := (g.values.lookup "type").bind fun s => BlueprintKind.names.lookup s
    some (.new word (kind?.getD .function))
  | _, _ => none

/-- The value of a common option: behind the command it counts before one in
    front of it. -/
def commonValue? (top sub : Given) (name : String) : Option String :=
  (sub.values.lookup name).or (top.values.lookup name)

/-- Whether help can be asked for with these words behind `help`. -/
def isHelpTopic : List String → Bool
  | [] => true
  | [name] => name == "help" || (commandGrammar? name).isSome
  | _ => false

/-- Reads the words of a command line. -/
def parse (args : List String) : Except Stop Invocation :=
  match scan topGrammar args {} with
  | .error stop => .error stop
  | .ok (_, []) => .error .usage
  | .ok (top, name :: rest) =>
    if name == "help" then .error (if isHelpTopic rest then .help else .usage)
    else
      match commandGrammar? name with
      | none => .error .usage
      | some grammar =>
        match scan grammar rest {} with
        | .error stop => .error stop
        | .ok (sub, _) =>
          match command? name sub with
          | none => .error .usage
          | some command =>
            .ok
              { project := (commonValue? top sub "project").getD "."
                options := commonValue? top sub "options"
                inlineHelpers := (commonValue? top sub "inline-helpers").isSome
                command }

end Blueprints.Cli
