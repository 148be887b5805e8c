import Lox.Text.Quoted
import Lox.Console

namespace Lox.CommandLine

/-!
# Options

Arguments are sorted into options and positional arguments before any is acted
upon.  Long options may be shortened to any unambiguous beginning, short ones may
be joined, and two dashes end the options.
-/

/-- The options. -/
inductive Switch where
  | help
  | interactive
  | tokens
  | parse
  | debug
  | version
  deriving Repr, DecidableEq

/-- The spellings of the options, in the order in which they are listed. -/
def spellings :
    List (String × Switch) :=
  [("-h", .help), ("--help", .help), ("-i", .interactive),
    ("--interactive", .interactive), ("--tokens", .tokens), ("--parse", .parse),
    ("--debug", .debug), ("--version", .version)]

namespace Switch

/-- An option by all its spellings. -/
def title
    (switch : Switch) :
    String :=
  "/".intercalate ((spellings.filter (·.2 = switch)).map Prod.fst)

end Switch

/-- What is wrong with the arguments. -/
inductive UsageError where
  | ambiguous (argument : String) (candidates : List String)
  /-- No option takes a value. -/
  | ignoredValue (switch : Switch) (value : String)
  | unrecognized (arguments : List String)
  deriving Repr, DecidableEq

namespace UsageError

/-- The message of a usage error. -/
def message :
    UsageError → String
  | .ambiguous argument candidates =>
      s!"ambiguous option: {argument} could match " ++ ", ".intercalate candidates
  | .ignoredValue switch value =>
      s!"argument {switch.title}: ignored explicit argument {Text.quoted value}"
  | .unrecognized arguments =>
      "unrecognized arguments: " ++ " ".intercalate arguments

end UsageError

/-- What an argument is. -/
inductive Argument where
  | positional (text : String)
  /-- The two dashes that end the options. -/
  | separator
  /-- An option, with the text attached to it. -/
  | option (switch : Switch) (isLong : Bool) (attached : Option (List Char))
  | unknown (text : String)
  deriving Repr, DecidableEq

/-- The part of an argument before its first equals sign, and the part behind it. -/
def splitValue
    (characters : List Char) :
    List Char × Option (List Char) :=
  match characters.dropWhile (· != '=') with
  | [] => (characters, none)
  | _ :: value => (characters.takeWhile (· != '='), some value)

/-- Digits behind a dash, with a point before the last of them or none. -/
def isNegativeNumber :
    List Char → Bool
  | '-' :: rest =>
      match rest.dropWhile Char.isDigit with
      | [] => !rest.isEmpty
      | '.' :: fraction => !fraction.isEmpty && fraction.all Char.isDigit
      | _ => false
  | _ => false

/-- The spellings that an argument may stand for, with the text attached to them. -/
def candidates
    (characters : List Char) :
    List (String × Argument) :=
  match characters with
  | '-' :: '-' :: _ =>
      let (beginning, value) := splitValue characters
      (spellings.filter fun entry => beginning.isPrefixOf entry.1.toList).map
        fun entry => (entry.1, .option entry.2 true value)
  | dash :: letter :: attached =>
      (spellings.filter fun entry => entry.1.toList = [dash, letter]).map
        fun entry => (entry.1, .option entry.2 false (some attached))
  | _ => []

/-- Whether a spelling has two dashes. -/
def isLongSpelling
    (spelling : String) :
    Bool :=
  ['-', '-'].isPrefixOf spelling.toList

/--
The option that an argument spells exactly,
perhaps with a value behind an equals sign.
-/
def exactOption?
    (characters : List Char) :
    Option Argument :=
  let whole := String.ofList characters
  match spellings.lookup whole with
  | some switch => some (.option switch (isLongSpelling whole) none)
  | none =>
      let (beginning, value) := splitValue characters
      let spelling := String.ofList beginning
      if value.isSome then
        (spellings.lookup spelling).map fun switch =>
          .option switch (isLongSpelling spelling) value
      else
        none

/-- Sort an argument before the separator. -/
def classify
    (argument : String) :
    Except UsageError Argument :=
  let characters := argument.toList
  if characters.head? ≠ some '-' then
    .ok (.positional argument)
  else
    match exactOption? characters with
    | some option => .ok option
    | none =>
        if characters.length = 1 then
          .ok (.positional argument)
        else
          match candidates characters with
          | [candidate] => .ok candidate.2
          | _ :: _ :: _ =>
              .error (.ambiguous argument ((candidates characters).map Prod.fst))
          | [] =>
              if isNegativeNumber characters || characters.contains ' ' then
                .ok (.positional argument)
              else
                .ok (.unknown argument)

/-- Sort all arguments; behind the first separator all are positional. -/
def classifyAll :
    List String → Except UsageError (List Argument)
  | [] => .ok []
  | argument :: rest =>
      if argument = "--" then
        .ok (.separator :: rest.map .positional)
      else
        match classify argument with
        | .error error => .error error
        | .ok sorted => (classifyAll rest).map (sorted :: ·)

/-- The options joined to a short one; a long one has nothing joined to it. -/
def joined
    (switch : Switch) :
    (isLong : Bool) → List Char → Except UsageError (List Switch)
  | true, value => .error (.ignoredValue switch (String.ofList value))
  | false, [] => .error (.ignoredValue switch "")
  | false, [letter] =>
      match spellings.lookup (String.ofList ['-', letter]) with
      | some next => .ok [switch, next]
      | none => .error (.ignoredValue switch (String.ofList [letter]))
  | false, letter :: rest =>
      match spellings.lookup (String.ofList ['-', letter]) with
      | some next => (joined next false rest).map (switch :: ·)
      | none => .error (.ignoredValue switch (String.ofList (letter :: rest)))

/-- The options that one argument holds. -/
def switchesOf
    (switch : Switch)
    (isLong : Bool) :
    Option (List Char) → Except UsageError (List Switch)
  | none => .ok [switch]
  | some attached => joined switch isLong attached

/-- The settings of a call. -/
structure Options where
  interactive : Bool
  tokens : Bool
  parse : Bool
  debug : Bool
  script : Option String
  deriving Repr, DecidableEq

namespace Options

/-- No option is set. -/
def none :
    Options :=
  ⟨false, false, false, false, Option.none⟩

end Options

/-- What the options of a call come to. -/
inductive Decision where
  | showHelp
  | showVersion
  | refuse (error : UsageError)
  | proceed (options : Options)
  deriving Repr, DecidableEq

/-- Act on options from the left; help and version end the call at once. -/
def applySwitches
    (options : Options) :
    List Switch → Decision
  | [] => .proceed options
  | .help :: _ => .showHelp
  | .version :: _ => .showVersion
  | .interactive :: rest => applySwitches { options with interactive := true } rest
  | .tokens :: rest => applySwitches { options with tokens := true } rest
  | .parse :: rest => applySwitches { options with parse := true } rest
  | .debug :: rest => applySwitches { options with debug := true } rest

/-- The place of the script among the arguments. -/
inductive Slot where
  | free
  /-- A separator in front of the script was passed. -/
  | expected
  | taken
  /-- A separator behind the script was passed. -/
  | closed
  deriving Repr, DecidableEq

/-- Act on sorted arguments from the left, and keep those that have no place. -/
def decideFrom :
    Options → Slot → (extras : List String) → List Argument → Decision
  | options, _, extras, [] =>
      if extras.isEmpty then .proceed options else .refuse (.unrecognized extras)
  | options, slot, extras, .option switch isLong attached :: rest =>
      match switchesOf switch isLong attached with
      | .error error => .refuse error
      | .ok switches =>
          match applySwitches options switches with
          | .proceed changed =>
              decideFrom changed
                (if slot = .taken then .closed else slot) extras rest
          | decision => decision
  | options, slot, extras, .unknown text :: rest =>
      decideFrom options (if slot = .taken then .closed else slot)
        (extras ++ [text]) rest
  | options, .free, extras, .positional text :: rest =>
      decideFrom { options with script := some text } .taken extras rest
  | options, .expected, extras, .positional text :: rest =>
      decideFrom { options with script := some text } .closed extras rest
  | options, .taken, extras, .positional text :: rest =>
      decideFrom options .closed (extras ++ [text]) rest
  | options, .closed, extras, .positional text :: rest =>
      decideFrom options .closed (extras ++ [text]) rest
  | options, .free, extras, .separator :: rest =>
      decideFrom options .expected extras rest
  | options, .taken, extras, .separator :: rest =>
      decideFrom options .closed extras rest
  | options, _, extras, .separator :: rest =>
      decideFrom options .closed (extras ++ ["--"]) rest

/-- What the arguments of a call come to. -/
def decideCall
    (arguments : List String) :
    Decision :=
  match classifyAll arguments with
  | .error error => .refuse error
  | .ok sorted => decideFrom Options.none .free [] sorted

end Lox.CommandLine
