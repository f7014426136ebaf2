import SignedRecords.Net.Address
import SignedRecords.Signable

/-!
# The command line

The arguments of the program. Options come before the command that they belong to, in the forms
`--name value`, `--name=value`, `-n value`, `-nvalue` and `-n=value`; after `--` everything is an
argument. A word that starts with a hyphen is never taken for a value unless it follows `=` or
`--`, or is the hyphen alone. Except for the peers to start from an option is given once at most.

Reading goes from left to right, and what is asked for by a flag is answered where the flag
stands: a mistake after it does not count any more.
-/

namespace SignedRecords.Cli

/-- What the program is to do. -/
inductive Command where
  /-- Serve until interrupted. -/
  | run (listen : Option Address)
  /-- Sign a value and publish it. -/
  | publish (seed value : String) (sequence : Option Sequence)
  /-- Look for a record. -/
  | get (id : String)
  deriving DecidableEq

/-- The arguments of a run of the program. -/
structure Arguments where
  config : Option String
  logLevel : Option String
  bootstrap : List String
  dataDir : Option String
  command : Command
  deriving DecidableEq

/-- What a command line asks for. -/
inductive Invocation where
  | runs (arguments : Arguments)
  | showsVersion
  | showsHelp
  /-- It is no command line of this program. -/
  | misused
  deriving DecidableEq

/-! ## 1. The shape of a command -/

/-- An option with a value. -/
structure OptionShape where
  name : String
  letter : Option Char
  /-- Whether it may be given more than once. -/
  repeats : Bool
  /-- The values that it takes. -/
  accepts : String → Bool

/-- What may stand in a command. -/
structure CommandShape where
  options : List OptionShape
  /-- Whether the version can be asked for. -/
  hasVersion : Bool
  /-- The number of arguments. -/
  arity : Nat
  /-- The commands within it. -/
  commands : List String

/-- An option or an argument that was read. -/
inductive Found where
  | option (name value : String)
  | argument (value : String)
  deriving DecidableEq

/-- How the reading of a command ends. -/
inductive Reading where
  | complete (found : List Found)
  /-- A command within it begins. -/
  | command (found : List Found) (name : String) (rest : List String)
  | version
  | help
  | wrong

namespace Found

/-- The values of an option, in their order. -/
def values (found : List Found) (name : String) : List String :=
  found.filterMap fun
    | .option n v => if n = name then some v else none
    | .argument _ => none

/-- The arguments, in their order. -/
def arguments (found : List Found) : List String :=
  found.filterMap fun
    | .argument v => some v
    | .option .. => none

end Found

namespace CommandShape

/-! ## 2. Single words -/

/-- What a word is. -/
inductive Word where
  /-- An option whose value is in the word. -/
  | option (o : OptionShape) (value : String)
  /-- An option whose value is the next word. -/
  | awaits (o : OptionShape)
  | version
  | help
  | unknown
  /-- No option at all. -/
  | plain

/-- A long option; `word` is what follows the two hyphens. -/
def longWord (shape : CommandShape) (word : List Char) : Word :=
  let name := String.ofList (word.takeWhile (· != '='))
  let value := (word.dropWhile (· != '=')).drop 1
  let given := word.contains '='
  match shape.options.find? (·.name == name) with
  | some o => if given then .option o (String.ofList value) else .awaits o
  | none =>
    if given then .unknown
    else if name = "help" then .help
    else if name = "version" && shape.hasVersion then .version
    else .unknown

/-- A short option; `letter` and `rest` are what follows the hyphen. -/
def shortWord (shape : CommandShape) (letter : Char) (rest : List Char) : Word :=
  match shape.options.find? (·.letter == some letter) with
  | some o =>
    match rest with
    | [] => .awaits o
    | '=' :: value => .option o (String.ofList value)
    | value => .option o (String.ofList value)
  | none =>
    if letter = 'h' then .help
    else if letter = 'V' && shape.hasVersion then .version
    else .unknown

/-- What a word is. -/
def word (shape : CommandShape) (text : String) : Word :=
  match text.toList with
  | '-' :: '-' :: rest => shape.longWord rest
  | '-' :: letter :: rest => shape.shortWord letter rest
  | _ => .plain

/-! ## 3. Reading a command -/

/-- Whether an option with this value may follow what was found. -/
def admits (o : OptionShape) (value : String) (found : List Found) : Bool :=
  o.accepts value && (o.repeats || (Found.values found o.name).isEmpty)

/-- Reads the words of a command. `awaited` is the option whose value comes next, `plain` says
    whether all words are arguments, and `found` is what was read before, the last one first. -/
def read (shape : CommandShape) (awaited : Option OptionShape) (plain : Bool)
    (found : List Found) : List String → Reading
  | [] => if awaited.isSome then .wrong else .complete found.reverse
  | text :: rest =>
    if plain then
      if awaited.isSome || shape.arity ≤ (Found.arguments found).length then .wrong
      else shape.read none true (.argument text :: found) rest
    else if awaited.isNone && shape.commands.contains text then
      .command found.reverse text rest
    else if text = "--" then shape.read awaited true found rest
    else
      match shape.word text, awaited with
      | .plain, some o =>
        if admits o text found then shape.read none false (.option o.name text :: found) rest
        else .wrong
      | .plain, none =>
        if shape.arity ≤ (Found.arguments found).length then .wrong
        else shape.read none false (.argument text :: found) rest
      | _, some _ => .wrong
      | .option o value, none =>
        if admits o value found then shape.read none false (.option o.name value :: found) rest
        else .wrong
      | .awaits o, none => shape.read (some o) false found rest
      | .version, none => .version
      | .help, none => .help
      | .unknown, none => .wrong

end CommandShape

/-! ## 4. Values -/

/-- Reads a decimal number with or without a sign. -/
def readSequence? (text : String) : Option Sequence :=
  let digits? (cs : List Char) : Option Nat :=
    if cs.isEmpty || !cs.all Char.isDigit then none
    else some (cs.foldl (fun n c => 10 * n + (c.toNat - '0'.toNat)) 0)
  let within (n : Int) : Option Sequence :=
    if Int64.minValue.toInt ≤ n ∧ n ≤ Int64.maxValue.toInt then some (Int64.ofInt n) else none
  match text.toList with
  | '-' :: cs => (digits? cs).bind fun n => within (-n)
  | '+' :: cs => (digits? cs).bind fun n => within n
  | cs => (digits? cs).bind fun n => within n

/-- Any text. -/
def anyText (_ : String) : Bool := true

/-- A text that can be a path. -/
def pathText (text : String) : Bool := !text.isEmpty

/-! ## 5. The program -/

/-- The options before the command, and the commands. -/
def programShape : CommandShape :=
  { options :=
      [⟨"config", some 'c', false, pathText⟩,
       ⟨"log-level", none, false, anyText⟩,
       ⟨"bootstrap", some 'b', true, anyText⟩,
       ⟨"data-dir", none, false, pathText⟩]
    hasVersion := true
    arity := 0
    commands := ["run", "publish", "get", "help"] }

/-- The shape of the command that serves. -/
def runShape : CommandShape :=
  { options := [⟨"listen", some 'l', false, fun text => (Address.read? text).isSome⟩]
    hasVersion := false
    arity := 0
    commands := [] }

/-- The shape of the command that publishes. -/
def publishShape : CommandShape :=
  { options :=
      [⟨"seed", none, false, anyText⟩,
       ⟨"seq", none, false, fun text => (readSequence? text).isSome⟩]
    hasVersion := false
    arity := 1
    commands := [] }

/-- The shape of the command that looks for a record. -/
def getShape : CommandShape :=
  { options := [], hasVersion := false, arity := 1, commands := [] }

/-- Reads the words of a command that stands alone. -/
def readCommand (shape : CommandShape) (words : List String)
    (command? : List Found → Option Command) : Except Invocation Command :=
  match shape.read none false [] words with
  | .complete found =>
    match command? found with
    | some command => .ok command
    | none => .error .misused
  | .version => .error .showsVersion
  | .help => .error .showsHelp
  | _ => .error .misused

/-- Reads the words after the name of a command. -/
def readNamed (name : String) (words : List String) : Except Invocation Command :=
  match name with
  | "run" =>
    readCommand runShape words fun found =>
      some (.run ((Found.values found "listen").head?.bind Address.read?))
  | "publish" =>
    readCommand publishShape words fun found =>
      match Found.values found "seed", Found.arguments found with
      | [seed], [value] =>
        some (.publish seed value ((Found.values found "seq").head?.bind readSequence?))
      | _, _ => none
  | "get" =>
    readCommand getShape words fun found =>
      match Found.arguments found with
      | [id] => some (.get id)
      | _ => none
  | "help" =>
    match words with
    | [] => .error .showsHelp
    | [command] =>
      if programShape.commands.contains command then .error .showsHelp else .error .misused
    | _ => .error .misused
  | _ => .error .misused

/-- Reads a command line. -/
def readArguments (words : List String) : Invocation :=
  match programShape.read none false [] words with
  | .command found name rest =>
    match readNamed name rest with
    | .ok command =>
      .runs
        { config := (Found.values found "config").head?
          logLevel := (Found.values found "log-level").head?
          bootstrap := Found.values found "bootstrap"
          dataDir := (Found.values found "data-dir").head?
          command }
    | .error other => other
  | .version => .showsVersion
  | .help => .showsHelp
  | _ => .misused

end SignedRecords.Cli
