/-
The namespaces of the packages of a run.

A schema places its types in a package; the table says which PHP namespace
stands for each package of the run.  A type reference is resolved to the
namespace of the longest package that encloses it, followed by what the
reference says below that package.  Types without a package live below the
entry of the empty package.  A reference that no entry covers is taken as it
is written, with a warning.

* `PackageTable.get?_insert` — the last namespace given to a package counts;
* `PackageTable.resolve` — the class that a reference names.
-/
import ProtoPhp.Error
import ProtoPhp.Namespace.Basic

namespace ProtoPhp

/-- The PHP namespace of each package; no package has two. -/
structure PackageTable where
  entries : List (String × Namespace)
  nodup : (entries.map Prod.fst).Nodup

/-- What a type reference stands for, and what is to be said about it. -/
structure Resolution where
  target : Namespace
  warnings : List Warning
  deriving Repr, DecidableEq, Inhabited

/-- Entries of other keys do not matter to a look-up. -/
theorem lookup_filter_ne {κ β : Type} [BEq κ] [LawfulBEq κ] {p key : κ} (h : p ≠ key)
    (entries : List (κ × β)) : (entries.filter (·.1 != key)).lookup p = entries.lookup p := by
  induction entries with
  | nil => rfl
  | cons e es ih =>
    obtain ⟨q, x⟩ := e
    by_cases hq : q = key
    · have hp : (p == key) = false := by simp [h]
      simpa [hq, List.lookup_cons, hp] using ih
    · have hb : (q != key) = true := by simp [hq]
      simp only [List.filter_cons, hb, if_true, List.lookup_cons, ih]

namespace PackageTable

/-- The table without packages. -/
def empty : PackageTable := ⟨[], List.nodup_nil⟩

instance : Inhabited PackageTable := ⟨empty⟩

/-- Gives a package its namespace, in place of an earlier one. -/
def insert (t : PackageTable) (package : String) (ns : Namespace) : PackageTable where
  entries := (package, ns) :: t.entries.filter (·.1 != package)
  nodup := by
    rw [List.map_cons, List.nodup_cons]
    constructor
    · -- The old entries of the package are gone.
      simp only [List.mem_map, List.mem_filter, bne_iff_ne, not_exists, not_and]
      exact fun e he h => he.2 h
    · exact t.nodup.sublist (List.filter_sublist.map _)

/-- The table of a list of packages; of two entries for one package the later counts. -/
def ofList (entries : List (String × Namespace)) : PackageTable :=
  entries.foldl (fun t e => t.insert e.1 e.2) empty

/-- The namespace of a package. -/
def get? (t : PackageTable) (package : String) : Option Namespace :=
  t.entries.lookup package

/-- The number of packages. -/
def size (t : PackageTable) : Nat := t.entries.length

/-- Has no packages. -/
def isEmpty (t : PackageTable) : Bool := t.entries.isEmpty

/-- Give the same packages the same namespaces. -/
def agrees (t u : PackageTable) : Bool :=
  t.size == u.size && t.entries.all fun e => u.get? e.1 == some e.2

/-- A non-empty package whose dotted name, with a dot after it, starts the given name. -/
def encloses (package name : String) : Bool :=
  !package.isEmpty && (package.toList ++ ['.']).isPrefixOf name.toList

/-- What a name says below a package that encloses it. -/
def below (package name : String) : String :=
  String.ofList (name.toList.drop package.length)

/-- The entry of the longest package that encloses a name. -/
def enclosing? (t : PackageTable) (name : String) : Option (String × Namespace) :=
  (t.entries.filter fun e => encloses e.1 name).maxOn? fun e => e.1.length

/-- The class that a name without leading dot stands for. -/
def resolveQualified (t : PackageTable) (name : String) : Resolution :=
  match t.get? name with
  | some ns => ⟨ns, []⟩
  | none =>
    match t.enclosing? name with
    | some (package, ns) => ⟨ns.join (.parse (below package name)), []⟩
    | none =>
      match t.get? "" with
      | some ns => ⟨ns.join (.parse name), []⟩
      | none => ⟨.parse name, [.untrackedPackage name]⟩

/-- The class that a type reference stands for.  References start with a dot. -/
def resolve (t : PackageTable) (reference : String) : Except Error Resolution :=
  match reference.toList with
  | '.' :: name => .ok (t.resolveQualified (String.ofList name))
  | _ => .error (.unqualifiedReference reference)

/-- Resolves a reference and keeps a log: warnings are added at its end, and a refused reference
leaves it as it was. -/
def resolveInto (t : PackageTable) (log : List Warning) (reference : String) :
    Except Error Namespace × List Warning :=
  match t.resolve reference with
  | .ok r => (.ok r.target, log ++ r.warnings)
  | .error e => (.error e, log)

@[simp] theorem get?_empty (package : String) : empty.get? package = none := rfl

/-- The last namespace given to a package counts. -/
theorem get?_insert (t : PackageTable) (package : String) (ns : Namespace) (p : String) :
    (t.insert package ns).get? p = if p = package then some ns else t.get? p := by
  by_cases h : p = package
  · simp [get?, insert, h]
  · have hp : (p == package) = false := by simp [h]
    simp only [get?, insert, List.lookup_cons, hp, lookup_filter_ne h, h, if_false]

end PackageTable

end ProtoPhp
