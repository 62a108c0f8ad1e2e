/-
# JSON values

A JSON value as it stands in a text: the entries of an object keep their order
and may repeat a name, and a number is the text that writes it. A string whose
escapes leave one half of a surrogate pair alone is well formed in a text but is
no string; it is kept as an absent one.

Key definitions: `Json`, `Json.fields?`.
-/

namespace Manuscript

/-- A JSON value. -/
inductive Json where
  | null
  | bool (b : Bool)
  /-- A number by the text that writes it. -/
  | number (lexeme : String)
  /-- A string; none if its escapes leave a surrogate alone. -/
  | string (s : Option String)
  | array (items : List Json)
  | object (entries : List (Option String × Json))
deriving Repr, Inhabited

namespace Json

/-- The string of a string value. -/
def string? : Json → Option String
  | string s => s
  | _ => none

/-- The truth value of a Boolean. -/
def bool? : Json → Option Bool
  | bool b => some b
  | _ => none

/-- The items of an array. -/
def array? : Json → Option (List Json)
  | array items => some items
  | _ => none

/-- The items of an array, each read by `f`. -/
def list? {α : Type} (f : Json → Option α) (j : Json) : Option (List α) := do
  (← j.array?).mapM f

/-- The value read by `f`, or nothing for null. -/
def nullable? {α : Type} (f : Json → Option α) : Json → Option (Option α)
  | null => some none
  | j => (f j).map some

/-- The values under one name in the entries of an object. -/
def valuesOf (name : String) (entries : List (Option String × Json)) : List Json :=
  (entries.filter (·.1 == some name)).map (·.2)

/-- The values of the named fields of a record, in their order, each present or absent. An
object may hold other fields, but none of the named ones twice; an array holds the values of
the first fields in their order. -/
def fields? (names : List String) : Json → Option (List (Option Json))
  | object entries =>
    if entries.all (·.1.isSome) then
      names.mapM fun name =>
        match valuesOf name entries with
        | [] => some none
        | [v] => some (some v)
        | _ => none
    else none
  | array items =>
    if items.length ≤ names.length then
      some (items.map some ++ List.replicate (names.length - items.length) none)
    else none
  | _ => none

/-- An object's only entry. -/
def entry? : Json → Option (String × Json)
  | object [(some name, v)] => some (name, v)
  | _ => none

/-- A word out of a fixed list: as a string, or as the name of a single null entry. -/
def word? : Json → Option String
  | string s => s
  | object [(some name, null)] => some name
  | _ => none

end Json
end Manuscript
