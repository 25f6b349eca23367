import Mathlib.Logic.Basic

/-!
# JSON values as a script sees them

Property reads, truthiness and conversion to text of the values that
`JSON.parse` can yield, and the text that `JSON.stringify` writes. `undefined` is
`none`. A number is kept as the text it converts to.
-/
namespace ContentPublishing

inductive Json where
  | null
  | bool (b : Bool)
  | num (text : String)
  | str (s : String)
  | arr (elements : List Json)
  | obj (fields : List (String × Json))
  deriving Repr

inductive TypeError where
  | typeError
  deriving DecidableEq, Repr

namespace Json

/-- `value.key` for a key that is no built-in property. -/
def property (value : Option Json) (key : String) : Except TypeError (Option Json) :=
  match value with
  | none | some .null => throw .typeError
  | some (.obj fields) => pure (fields.lookup key)
  | some _ => pure none

def truthy : Option Json → Bool
  | none | some .null => false
  | some (.bool b) => b
  | some (.num text) => text != "0"
  | some (.str s) => s != ""
  | some (.arr _) | some (.obj _) => true

/-- `value ?? other` -/
def coalesce : Option Json → Option Json → Option Json
  | none, other | some .null, other => other
  | value, _ => value

/-- The elements that `value?.forEach` visits. -/
def elements (value : Option Json) : Except TypeError (List Json) :=
  match value with
  | none | some .null => pure []
  | some (.arr elements) => pure elements
  | some _ => throw .typeError

mutual

/-- `String(value)`. An object converts by the inherited `toString`; one of its own
is not callable. -/
def toText : Json → Except TypeError String
  | .null => pure "null"
  | .bool b => pure (if b then "true" else "false")
  | .num text => pure text
  | .str s => pure s
  | .arr elements => return ",".intercalate (← joinedTexts elements)
  | .obj fields =>
      if (fields.lookup "toString").isSome then throw .typeError else pure "[object Object]"

/-- The texts that `join` puts between the commas. -/
def joinedTexts : List Json → Except TypeError (List String)
  | [] => pure []
  | .null :: rest => return "" :: (← joinedTexts rest)
  | value :: rest => return (← toText value) :: (← joinedTexts rest)

end

/-- The text of a value inside a template string, or as a property key. -/
def templateText : Option Json → Except TypeError String
  | none => pure "undefined"
  | some value => toText value

/-! ## `JSON.stringify` -/

/-- An object literal. Fields that are `undefined` are not written. -/
def object (fields : List (String × Option Json)) : Json :=
  .obj (fields.filterMap fun field => field.2.map (Prod.mk field.1))

/-- A character inside a string literal. -/
def escape (c : Char) : List Char :=
  match c.toNat with
  | 0x08 => "\\b".toList
  | 0x09 => "\\t".toList
  | 0x0a => "\\n".toList
  | 0x0c => "\\f".toList
  | 0x0d => "\\r".toList
  | 0x22 => "\\\"".toList
  | 0x5c => "\\\\".toList
  | n =>
      if n < 0x20 then "\\u00".toList ++ [Nat.digitChar (n / 16), Nat.digitChar (n % 16)] else [c]

def quote (s : String) : String := "\"" ++ String.ofList (s.toList.flatMap escape) ++ "\""

mutual

def stringify : Json → String
  | .null => "null"
  | .bool b => if b then "true" else "false"
  | .num text => text
  | .str s => quote s
  | .arr elements => "[" ++ ",".intercalate (stringifyElements elements) ++ "]"
  | .obj fields => "\x7b" ++ ",".intercalate (stringifyFields fields) ++ "\x7d"

def stringifyElements : List Json → List String
  | [] => []
  | value :: rest => stringify value :: stringifyElements rest

def stringifyFields : List (String × Json) → List String
  | [] => []
  | field :: rest => stringifyField field :: stringifyFields rest

def stringifyField : String × Json → String
  | (name, value) => quote name ++ ":" ++ stringify value

end

end Json

end ContentPublishing
