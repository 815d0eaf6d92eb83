/-
Dotted names.

The heads of a dotted name are what stands before each of its dots, and the
name itself.  They are the packages that a package lies in, and the scopes
that enclose a definition.

* `Text.dottedHeads` — the heads, the shortest first;
* `Text.qualify` — a name inside a scope.
-/
namespace ProtoPhp.Text

/-- What stands before each dot of a name, and the name itself, the shortest first. -/
def headsOf : List Char → List (List Char)
  | [] => [[]]
  | c :: cs =>
    let longer := (headsOf cs).map (c :: ·)
    if c = '.' then [] :: longer else longer

/-- What stands before each dot of a name, and the name itself, the shortest first. -/
def dottedHeads (name : String) : List String := (headsOf name.toList).map String.ofList

/-- The full name of what is called `name` inside a scope; the empty scope adds nothing. -/
def qualify (scope name : String) : String :=
  if scope.isEmpty then name else scope ++ "." ++ name

end ProtoPhp.Text
