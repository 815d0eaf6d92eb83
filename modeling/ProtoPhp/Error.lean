/-
The causes for which a run fails, and what it warns about.

An `Error` ends a run.  A `Warning` does not: the run goes on with a namespace
guessed from the reference itself.
-/
import ProtoPhp.Wire.DecodeError
import ProtoPhp.Pool.LoadError

namespace ProtoPhp

/-- The two kinds of encoded input that a run starts from. -/
inductive InputKind where
  | request
  | descriptorSet
  deriving Repr, DecidableEq, Inhabited

/-- The name of an input kind in error texts. -/
def InputKind.label : InputKind → String
  | .request => "code generator request"
  | .descriptorSet => "file descriptor set"

/-- Why a run fails. -/
inductive Error where
  /-- A type reference does not start with a dot. -/
  | unqualifiedReference (name : String)
  /-- An entry of the generator parameter has none of the known forms. -/
  | invalidParameter (entry : String)
  /-- A file is asked for that no input provides. -/
  | fileNotFound (name : String)
  /-- The input as a whole is not an encoded message. -/
  | undecodable (input : InputKind) (cause : Wire.DecodeError)
  /-- A file of the input cannot join the descriptor pool. -/
  | descriptor (cause : LoadError)
  deriving Repr, DecidableEq, Inhabited

namespace Error

/-- The text shown to the user. -/
def message : Error → String
  | unqualifiedReference name => "only fully qualified names are supported: '" ++ name ++ "'"
  | invalidParameter entry => "invalid generator parameter '" ++ entry ++ "'"
  | fileNotFound name => "file '" ++ name ++ "' was requested but not provided"
  | undecodable input _ => "failed to decode " ++ input.label
  | descriptor cause => cause.fault.message

/-- Advice on how to mend an error, where there is any. -/
def help : Error → Option String
  | unqualifiedReference _ => some "type references must start with '.'"
  | invalidParameter _ =>
    some "supported parameters are 'multifile', 'multifile=<bool>' and 'suffix=<ext>'"
  | fileNotFound _ | undecodable _ _ => none
  | descriptor cause => cause.fault.help

/-- The detailed text, which adds the inner cause of a decoding error and the file of a pool
error. -/
def detail : Error → String
  | undecodable input cause =>
    (undecodable input cause).message ++ ": " ++ cause.message
  | descriptor cause => cause.detail
  | e => e.message

end Error

/-- What a run warns about. -/
inductive Warning where
  /-- A type reference lies in no known package. -/
  | untrackedPackage (name : String)
  deriving Repr, DecidableEq, Inhabited

namespace Warning

/-- The text shown to the user. -/
def message : Warning → String
  | untrackedPackage name => "non tracked package name found '" ++ name ++ "'"

/-- Advice on how to mend what is warned about. -/
def help : Warning → String
  | untrackedPackage _ =>
    "include the file declaring this package in the same invocation so its namespace is known"

end Warning

end ProtoPhp
