/-
The generator parameter.

The parameter is a list of entries between commas.  Blanks around an entry and
around a value do not count, and empty entries are ignored.  An entry switches
multi-file output on or off or sets the suffix of file names; the last entry of
a kind counts.

* `Setting.parse?` — the forms of an entry;
* `Options.ofParameter` — the options that a parameter stands for, or the first
  entry without a known form.
-/
import ProtoPhp.Options.Basic
import ProtoPhp.Text.Blank

namespace ProtoPhp

/-- What one entry of the parameter says. -/
inductive Setting where
  | multifile (on : Bool)
  | suffix (text : String)
  deriving Repr, DecidableEq, Inhabited

namespace Setting

/-- Reads `true` or `false`, with blanks around. -/
def boolean? (value : List Char) : Option Bool :=
  let value := String.ofList (Text.trimChars value)
  if value = "true" then some true else if value = "false" then some false else none

/-- Reads an entry that is neither empty nor surrounded by blanks. -/
def parse? (entry : String) : Option Setting :=
  let key := String.ofList (entry.toList.takeWhile (· != '='))
  match entry.toList.dropWhile (· != '=') with
  | [] => if key = "multifile" then some (.multifile true) else none
  | _ :: value =>
    if key = "multifile" then (boolean? value).map .multifile
    else
      let text := String.ofList (Text.trimChars value)
      if key = "suffix" ∧ text ≠ "" then some (.suffix text) else none

end Setting

namespace Options

/-- Options changed by one entry of the parameter. -/
def apply (o : Options) : Setting → Options
  | .multifile on => { o with multifile := on }
  | .suffix text => { o with suffix := some text }

/-- The entries of a parameter without the blanks around them. -/
def entries (parameter : String) : List String :=
  (parameter.toList.splitOn ',').map fun cs => String.ofList (Text.trimChars cs)

/-- Options changed by one entry; an entry without a known form is refused. -/
def applyEntry (o : Options) (entry : String) : Except Error Options :=
  if entry.isEmpty then .ok o
  else
    match Setting.parse? entry with
    | some s => .ok (o.apply s)
    | none => .error (.invalidParameter entry)

/-- The options that a parameter stands for. -/
def ofParameter (parameter : String) : Except Error Options :=
  (entries parameter).foldlM applyEntry {}

end Options

end ProtoPhp
