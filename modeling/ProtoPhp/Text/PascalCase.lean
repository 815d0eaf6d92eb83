/-
Pascal case.

A field name is a list of words separated by underscores; its Pascal-case form,
which the accessor methods carry, puts the words together with each first
letter in upper case.  Only ASCII letters change case.

* `Text.pascalCase` — the form of a name.
-/
namespace ProtoPhp.Text

/-- Puts the first character of a word in ASCII upper case. -/
def capitalize : List Char → List Char
  | [] => []
  | c :: cs => c.toUpper :: cs

/-- Puts the words between underscores together, each with its first character in upper case. -/
def pascalChars (cs : List Char) : List Char :=
  (cs.splitOn '_').flatMap capitalize

/-- The Pascal-case form of a name. -/
def pascalCase (name : String) : String :=
  String.ofList (pascalChars name.toList)

@[simp] theorem toList_pascalCase (name : String) :
    (pascalCase name).toList = pascalChars name.toList := by
  simp [pascalCase]

end ProtoPhp.Text
