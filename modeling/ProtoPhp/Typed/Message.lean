/-
Messages of a type.

A message keeps what it holds for each field number, the lowest number first: a
value, the values of a repeated field, the entries of a map field, or records of
a field that its type does not have.  A message inside another one knows its own
type, since extensions that share a number may tell different ones.

* `Typed.Message.get?_put` — what was put under a number is there, and nothing else changed;
* `Typed.Message.has` — a field is set;
* `Typed.Message.content`, `Typed.Message.assign` — what a field holds, and holding something else.
-/
import ProtoPhp.Typed.Field

namespace ProtoPhp.Typed

open Wire

/-- What a message holds for a field number. -/
inductive Content where
  /-- A value that is no message. -/
  | scalar (value : Scalar)
  /-- A message with the name of its type. -/
  | message (type : String) (fields : List (Nat × Content))
  /-- The values of a repeated field. -/
  | list (values : List Content)
  /-- The entries of a map field, each with a key of its own. -/
  | map (entries : List (Scalar × Content))
  /-- The records of a field that the type of the message does not have. -/
  | unknown (records : List Payload)
  deriving Repr, Inhabited

/-- A message: what it holds for its field numbers, the lowest number first. -/
abbrev Message := List (Nat × Content)

/-- One value of a field before anything is known of it: zero, or an empty message. -/
def Field.blank (f : Field) : Content :=
  if isMessage f.type then .message f.target [] else .scalar (.zero f.type)

/-- What an absent field reads as. -/
def Field.absent (f : Field) : Content :=
  if f.isMap then .map []
  else if f.repeated then .list []
  else if isMessage f.type then .message f.target []
  else .scalar f.defaultValue

namespace Content

/-- Reads as an absent field does, which a message never does. -/
def isDefault (f : Field) (c : Content) : Bool :=
  match f.absent, c with
  | .scalar default, .scalar value => value.same default
  | .list _, .list values => values.isEmpty
  | .map _, .map entries => entries.isEmpty
  | _, _ => false

/-- Counts as set. -/
def isSet (f : Field) (c : Content) : Bool := f.hasPresence || !c.isDefault f

/-- The content with values behind those of a repeated field. -/
def append (c : Content) (values : List Content) : Content :=
  match c with
  | .list earlier => .list (earlier ++ values)
  | .scalar _ | .message _ _ | .map _ | .unknown _ => .list values

/-- The content with an entry behind those of a map field, in place of an earlier one with its
key. -/
def insert (c : Content) (key : Scalar) (value : Content) : Content :=
  match c with
  | .map entries => .map (entries.filter (·.1 != key) ++ [(key, value)])
  | .scalar _ | .message _ _ | .list _ | .unknown _ => .map [(key, value)]

/-- The fields of a message. -/
def fields : Content → Message
  | .message _ fields => fields
  | .scalar _ | .list _ | .map _ | .unknown _ => []

end Content

namespace Message

/-- What the message holds for a field number. -/
def get? (m : Message) (number : Nat) : Option Content := m.lookup number

/-- Lets the message hold something for a field number, in place of what it held. -/
def put : (m : Message) → (number : Nat) → Content → Message
  | [], number, c => [(number, c)]
  | (n, d) :: rest, number, c =>
    if number < n then (number, c) :: (n, d) :: rest
    else if number = n then (number, c) :: rest
    else (n, d) :: put rest number c

theorem lookup_cons_ne {n k : Nat} (h : n ≠ k) (c : Content) (m : Message) :
    List.lookup n ((k, c) :: m) = List.lookup n m := by
  have : (n == k) = false := by simp [h]
  rw [List.lookup_cons, this]

/-- What was put under a number is there, and nothing else changed. -/
theorem get?_put (m : Message) (number : Nat) (c : Content) (n : Nat) :
    (m.put number c).get? n = if n = number then some c else m.get? n := by
  by_cases h : n = number
  · subst h
    induction m with
    | nil => simp [put, get?]
    | cons e rest ih =>
      simp only [put, get?, if_true] at ih ⊢
      split
      · simp
      · split
        · simp
        · rename_i hk
          rw [lookup_cons_ne hk, ih]
  · simp only [if_neg h]
    induction m with
    | nil => exact lookup_cons_ne h c []
    | cons e rest ih =>
      obtain ⟨k, d⟩ := e
      simp only [put, get?] at ih ⊢
      split
      · exact lookup_cons_ne h c _
      · split
        · rename_i hk
          subst hk
          rw [lookup_cons_ne h, lookup_cons_ne h]
        · by_cases hn : n = k
          · simp [hn]
          · rw [lookup_cons_ne hn, lookup_cons_ne hn, ih]

/-- The message without what it holds for a field number. -/
def erase (m : Message) (number : Nat) : Message := m.filter (·.1 != number)

/-- What the message holds for a field, or what the field reads as if it is absent. -/
def content (m : Message) (f : Field) : Content :=
  match m.get? f.number with
  | none | some (.unknown _) => f.absent
  | some c => c

/-- The field is set. -/
def has (m : Message) (f : Field) : Bool :=
  match m.get? f.number with
  | none | some (.unknown _) => false
  | some c => c.isSet f

/-- The message of type `type` without the other fields of the oneof that a field is in. -/
def clearBeside (s : Schema) (type : String) (f : Field) (m : Message) : Message :=
  m.filter fun e => e.1 == f.number || f.oneof.isNone ||
    (s.field? type e.1).all fun g => g.oneof != f.oneof

/-- The message of type `type` with something else in a field. -/
def assign (s : Schema) (type : String) (f : Field) (c : Content) (m : Message) : Message :=
  (clearBeside s type f m).put f.number c

/-- Keeps a record of a field that the type does not have. -/
def keep (m : Message) (number : Nat) (record : Payload) : Message :=
  match m.get? number with
  | some (.unknown records) => m.put number (.unknown (records ++ [record]))
  | _ => m.put number (.unknown [record])

end Message

/-- The key and the value that an entry of a map field has by default, if values of the kind of the
key can be keys. -/
def Schema.defaultEntry? (s : Schema) (f : Field) : Option (Scalar × Content) := do
  let (key, value) ← s.entryFields? f
  match key.absent with
  | .scalar k => if k.isKey then some (k, value.absent) else none
  | _ => none

end ProtoPhp.Typed
