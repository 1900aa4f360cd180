import SqlFront.Eval.Row
import SqlFront.Function.Registry
import SqlFront.Json.Decode

/-!
# Rows and functions in JSON

A row is read as it stands: nothing checks that its index finds its names.
-/

namespace SqlFront

/-- A number that is not finite has no JSON form and is written as null. -/
def Value.toJson : Value → Json
  | .number x => Json.tagged "Number" (if x.isFinite then .double x else .null)
  | .text s => Json.tagged "Text" (.string s)

def Value.ofJson? (j : Json) : Option Value := do
  match ← Json.variant? j with
  | ("Number", some content) => .number <$> Json.float? content
  | ("Text", some content) => .text <$> Json.string? content
  | _ => none

def Row.toJson (row : Row) : Json :=
  .object [("names", Json.ofList .string row.names),
    ("values", Json.ofList (Json.ofOption Value.toJson) row.values),
    ("index", .object (row.index.map fun (name, i) => (name, Json.ofNat i)))]

def Row.ofJson? (j : Json) : Option Row := do
  let fields ← Json.record? ["names", "values", "index"] 3 j
  return {
    names := ← Json.field? fields "names" (Json.list? Json.string?)
    values := ← Json.field? fields "values" (Json.list? (Json.option? Value.ofJson?))
    index := ← Json.field? fields "index" (Json.map? Json.nat?) }

def Arity.toJson : Arity → Json
  | .fixed n => Json.tagged "Fixed" (Json.ofNat n)
  | .variadic => .string "Variadic"

def Arity.ofJson? (j : Json) : Option Arity := do
  match ← Json.variant? j with
  | ("Fixed", some content) => .fixed <$> Json.nat? content
  | ("Variadic", none) | ("Variadic", some .null) => some .variadic
  | _ => none

def Signature.toJson (s : Signature) : Json :=
  .object [("name", .string s.name), ("arity", s.arity.toJson)]

def Signature.ofJson? (j : Json) : Option Signature := do
  let fields ← Json.record? ["name", "arity"] 2 j
  return {
    name := ← Json.field? fields "name" Json.string?
    arity := ← Json.field? fields "arity" Arity.ofJson? }

end SqlFront
