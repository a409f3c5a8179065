import GoldenCircuit.Request
import GoldenCircuit.Text.Numeral

/-! Reading the command line. Options are taken one after the other; the first fault ends the
reading, and so does a request for help. -/
namespace GoldenCircuit.CommandLine

/-- An option. -/
inductive Name where
  | pattern
  | index
  | args
  | format
  | cycles
  | seed
  | output
  | list
  | examplesDir
  | verbose
  | help
deriving DecidableEq

namespace Name

/-- All options, in the order of the help. -/
def all : List Name :=
  [.pattern, .index, .args, .format, .cycles, .seed, .output, .list, .examplesDir, .verbose, .help]

/-- The name after two hyphens. -/
def long : Name → String
  | .pattern => "pattern"
  | .index => "index"
  | .args => "args"
  | .format => "format"
  | .cycles => "cycles"
  | .seed => "seed"
  | .output => "output"
  | .list => "list"
  | .examplesDir => "examples-dir"
  | .verbose => "verbose"
  | .help => "help"

/-- The letter after one hyphen, for those options that have one. -/
def short? : Name → Option Char
  | .output => some 'o'
  | .verbose => some 'v'
  | .help => some 'h'
  | _ => none

/-- Whether the option takes a value. -/
def takesValue : Name → Bool
  | .list | .verbose | .help => false
  | _ => true

end Name

/-- What a command line asks for, as far as it was read. -/
structure Options where
  pattern : Option String := none
  index : Option UInt64 := none
  args : Option String := none
  format : Option Format := none
  cycles : Option UInt64 := none
  seed : Option UInt64 := none
  output : Option String := none
  list : Bool := false
  examplesDir : Option String := none
  /-- How many times more messages were asked for. -/
  verbosity : Nat := 0
deriving DecidableEq

/-- Why a command line is not carried out as it stands. -/
inductive Refusal where
  /-- Help was asked for. -/
  | help
  /-- Something is no option, or not used as one. -/
  | unexpected (word : String)
  | missingValue (name : Name)
  | badValue (name : Name) (value : String)
  | repeated (name : Name)
  | conflict (first second : Name)
deriving DecidableEq

/-- A 64-bit number in decimal; a plus sign may stand before it. -/
def readWord? (value : String) : Option UInt64 :=
  let digits :=
    match value.toList with
    | '+' :: digits => digits
    | digits => digits
  (Text.word? digits).map UInt64.ofNat

/-- A path, which must not be empty. -/
def readPath? (value : String) : Option String :=
  if value = "" then none else some value

namespace Options

/-- Fills a place for a value that is given at most once. -/
def once {Value : Type} (name : Name) (text : String) (read : String → Option Value)
    (present : Option Value) : Except Refusal (Option Value) :=
  match read text, present with
  | none, _ => .error (.badValue name text)
  | some _, some _ => .error (.repeated name)
  | some value, none => .ok (some value)

def setValue (options : Options) (value : String) : Name → Except Refusal Options
  | .pattern => do return { options with pattern := ← once .pattern value some options.pattern }
  | .index => do return { options with index := ← once .index value readWord? options.index }
  | .args => do return { options with args := ← once .args value some options.args }
  | .format => do
    return { options with
      format := ← once .format value (Format.parse · |>.toOption) options.format }
  | .cycles => do return { options with cycles := ← once .cycles value readWord? options.cycles }
  | .seed => do return { options with seed := ← once .seed value readWord? options.seed }
  | .output => do return { options with output := ← once .output value readPath? options.output }
  | .examplesDir => do
    return { options with
      examplesDir := ← once .examplesDir value readPath? options.examplesDir }
  | name => .error (.unexpected ("--" ++ name.long ++ "=" ++ value))

/-- Takes over an option that has no value. -/
def setFlag (options : Options) : Name → Except Refusal Options
  | .help => .error .help
  | .list => if options.list then .error (.repeated .list) else .ok { options with list := true }
  | .verbose => .ok { options with verbosity := options.verbosity + 1 }
  | name => .error (.missingValue name)

end Options

/-- A word of the command line, taken apart. -/
inductive Word where
  /-- Two hyphens and nothing more. -/
  | separator
  /-- A long option, and the value attached to it by an equals sign. -/
  | long (name : String) (value : Option String)
  /-- One hyphen and the letters after it. -/
  | short (letters : List Char)
  /-- Anything else: a value. A single hyphen is one, too. -/
  | plain (text : String)
deriving DecidableEq

def Word.ofString (text : String) : Word :=
  match text.toList with
  | ['-', '-'] => .separator
  | '-' :: '-' :: body =>
    let value :=
      match body.dropWhile (· != '=') with
      | [] => none
      | _ :: value => some (String.ofList value)
    .long (String.ofList (body.takeWhile (· != '='))) value
  | '-' :: first :: letters => .short (first :: letters)
  | _ => .plain text

/-- An option that was read but still waits for its value. -/
abbrev Waiting := Option Name

/-- Takes over the letters of a word, one option each, up to one that takes a value; what is left
of the word is that value, if anything is, without an equals sign at its front. -/
def readLetters (options : Options) : List Char → Except Refusal (Options × Waiting)
  | [] => .ok (options, none)
  | letter :: letters =>
    match Name.all.find? (·.short? == some letter) with
    | none => .error (.unexpected (String.ofList ['-', letter]))
    | some name =>
      if name.takesValue then
        match letters with
        | [] => .ok (options, some name)
        | '=' :: value => do return (← options.setValue (String.ofList value) name, none)
        | value => do return (← options.setValue (String.ofList value) name, none)
      else do
        readLetters (← options.setFlag name) letters

def readOption (options : Options) : Word → Except Refusal (Options × Waiting)
  | .separator => .ok (options, none)
  | .plain text => .error (.unexpected text)
  | .short letters => readLetters options letters
  | .long long value =>
    match Name.all.find? (·.long == long) with
    | none => .error (.unexpected ("--" ++ long))
    | some name =>
      match name.takesValue, value with
      | true, none => .ok (options, some name)
      | true, some value => do return (← options.setValue value name, none)
      | false, none => do return (← options.setFlag name, none)
      | false, some _ => .error (.unexpected ("--" ++ long))

/-- Takes over all words. Only a word without a hyphen at its front is the value of the option
before it, and after two hyphens there may be nothing at all. -/
def readWords (options : Options) (waiting : Waiting) : List String → Except Refusal Options
  | [] =>
    match waiting with
    | none => .ok options
    | some name => .error (.missingValue name)
  | text :: words =>
    match waiting, Word.ofString text with
    | some name, .plain value => do readWords (← options.setValue value name) none words
    | some name, _ => .error (.missingValue name)
    | none, .separator =>
      match words with
      | [] => .ok options
      | word :: _ => .error (.unexpected word)
    | none, word => do
      let (options, waiting) ← readOption options word
      readWords options waiting words

/-- Whether an option was given. -/
def Options.has (options : Options) : Name → Bool
  | .pattern => options.pattern.isSome
  | .index => options.index.isSome
  | .args => options.args.isSome
  | .format => options.format.isSome
  | .cycles => options.cycles.isSome
  | .seed => options.seed.isSome
  | .output => options.output.isSome
  | .list => options.list
  | .examplesDir => options.examplesDir.isSome
  | .verbose => options.verbosity != 0
  | .help => false

/-- The options that cannot be given together: a family is chosen in one way only, and all examples
are not one circuit. -/
def conflicts : List (Name × Name) :=
  [(.pattern, .index), (.examplesDir, .pattern), (.examplesDir, .index), (.examplesDir, .args),
   (.examplesDir, .output)]

def Options.ofWords (words : List String) : Except Refusal Options := do
  let options ← readWords {} none words
  match conflicts.find? fun (first, second) => options.has first && options.has second with
  | some (first, second) => throw (.conflict first second)
  | none => return options

def Options.request (options : Options) : Request where
  selection :=
    match options.pattern, options.index with
    | some name, _ => .name name
    | none, some place => .index place
    | none, none => default
  args := options.args
  format := options.format.getD default
  plan :=
    { cycles := options.cycles.getD (default : RunPlan).cycles
      seed := options.seed.getD (default : RunPlan).seed }

end GoldenCircuit.CommandLine
