/-
The arguments of the command line.

Options have a long name, some also a short one; a value follows as the next
argument or, after an equals sign or right behind a short name, in the same
one.  A value that is an argument of its own does not look like an option.
After `--` every argument is the name of a file.  Arguments are read from left
to right, so an early `--version` wins over a later mistake, and an early
mistake over a later `--version`.

* `Command.parse` — what the arguments ask for.
-/
namespace ProtoPhp.Command

/-- The settings of a run on a set of schema files. -/
structure Arguments where
  /-- The file with the set; without one, the program answers a request from standard input. -/
  descriptorSet : Option String := none
  /-- The output directory. -/
  output : Option String := none
  parameter : Option String := none
  /-- The schema files to generate. -/
  files : List String := []
  deriving Repr, DecidableEq, Inhabited

/-- What the arguments ask for. -/
inductive Parsed where
  | run (arguments : Arguments)
  | version
  | help (long : Bool)
  /-- The arguments make no sense. -/
  | refused
  deriving Repr, DecidableEq, Inhabited

/-- An option with a value. -/
inductive OptionName where
  | descriptorSet
  | output
  | parameter
  deriving Repr, DecidableEq, Inhabited

/-- The option with a long name. -/
def OptionName.ofLong? : String → Option OptionName
  | "descriptor-set" | "descriptor_set_in" => some .descriptorSet
  | "output" => some .output
  | "parameter" => some .parameter
  | _ => none

/-- The option with a short name. -/
def OptionName.ofShort? : Char → Option OptionName
  | 'o' => some .output
  | 'p' => some .parameter
  | _ => none

/-- Sets an option, which may be set only once.  Paths are not empty. -/
def Arguments.set? (a : Arguments) (option : OptionName) (value : String) : Option Arguments :=
  match option with
  | .descriptorSet =>
    if a.descriptorSet.isSome || value.isEmpty then none
    else some { a with descriptorSet := some value }
  | .output =>
    if a.output.isSome || value.isEmpty then none else some { a with output := some value }
  | .parameter => if a.parameter.isSome then none else some { a with parameter := some value }

/-- Everything else needs the set of schema files. -/
def Arguments.isComplete (a : Arguments) : Bool :=
  a.descriptorSet.isSome || (a.output.isNone && a.parameter.isNone && a.files.isEmpty)

/-- What one argument is by its look. -/
inductive Token where
  /-- Two dashes alone. -/
  | separator
  | long (name : String) (value : Option String)
  | short (name : Char) (rest : String)
  | plain (text : String)
  deriving Repr, DecidableEq, Inhabited

/-- What an argument is by its look.  A dash alone is a plain argument. -/
def Token.ofArgument (argument : String) : Token :=
  match argument.toList with
  | ['-', '-'] => .separator
  | '-' :: '-' :: cs =>
    let name := String.ofList (cs.takeWhile (· != '='))
    match cs.dropWhile (· != '=') with
    | [] => .long name none
    | _ :: value => .long name (some (String.ofList value))
  | '-' :: c :: cs => .short c (String.ofList cs)
  | _ => .plain argument

/-- The value behind a short name: what follows it in the same argument, less one equals sign. -/
def attachedValue? (rest : String) : Option String :=
  match rest.toList with
  | [] => none
  | '=' :: cs => some (String.ofList cs)
  | _ => some rest

/-- The arguments are read to the end. -/
def finish (a : Arguments) : Parsed := if a.isComplete then .run a else .refused

/-- Reads the arguments behind those that are read already.  An option that has no value yet takes
the next argument. -/
def parseFrom (a : Arguments) (waiting : Option OptionName) : List String → Parsed
  | [] => if waiting.isSome then .refused else finish a
  | argument :: rest =>
    let take (option : OptionName) (value : Option String) : Parsed :=
      match value with
      | none => parseFrom a (some option) rest
      | some value =>
        match a.set? option value with
        | some a => parseFrom a none rest
        | none => .refused
    match waiting, Token.ofArgument argument with
    | some option, .plain value => take option (some value)
    | some _, _ => .refused
    | none, .separator => finish { a with files := a.files ++ rest }
    | none, .plain file => parseFrom { a with files := a.files ++ [file] } none rest
    | none, .long "version" none => .version
    | none, .long "help" none => .help true
    | none, .long name value =>
      match OptionName.ofLong? name with
      | some option => take option value
      | none => .refused
    | none, .short 'V' _ => .version
    | none, .short 'h' _ => .help false
    | none, .short name rest =>
      match OptionName.ofShort? name with
      | some option => take option (attachedValue? rest)
      | none => .refused

/-- What the arguments ask for. -/
def parse (arguments : List String) : Parsed := parseFrom {} none arguments

end ProtoPhp.Command
