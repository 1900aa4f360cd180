/-!
# JSON values

A number without fraction or exponent is an integer; any other is a double. An object keeps its
fields in the order in which they are written.
-/

namespace SqlFront

/-- A JSON value. -/
inductive Json where
  | null
  | bool (value : Bool)
  | integer (value : Int)
  | double (value : Float)
  | string (value : String)
  | array (items : List Json)
  | object (fields : List (String × Json))
  deriving Inhabited

namespace Json

mutual

/-- The number of values nested in each other, the innermost included. -/
def depth : Json → Nat
  | .array items => depthOfItems items + 1
  | .object fields => depthOfFields fields + 1
  | .null | .bool _ | .integer _ | .double _ | .string _ => 1

/-- The greatest depth of a list of values. -/
def depthOfItems : List Json → Nat
  | [] => 0
  | item :: rest => max item.depth (depthOfItems rest)

/-- The greatest depth of the values of fields. -/
def depthOfFields : List (String × Json) → Nat
  | [] => 0
  | (_, value) :: rest => max value.depth (depthOfFields rest)

end

/-- An item lies within the depth of its list. -/
theorem depth_le_of_mem {item : Json} {items : List Json} (h : item ∈ items) :
    item.depth ≤ depthOfItems items := by
  induction items with
  | nil => cases h
  | cons first rest ih =>
    rw [depthOfItems]
    rcases List.mem_cons.mp h with rfl | h
    · exact Nat.le_max_left _ _
    · exact Nat.le_trans (ih h) (Nat.le_max_right _ _)

/-- The value of a field lies within the depth of the fields. -/
theorem depth_le_of_lookup {name : String} {value : Json} {fields : List (String × Json)}
    (h : fields.lookup name = some value) : value.depth ≤ depthOfFields fields := by
  induction fields with
  | nil => simp at h
  | cons field rest ih =>
    obtain ⟨key, first⟩ := field
    rw [depthOfFields]
    rw [List.lookup_cons] at h
    split at h
    · injection h with h
      subst h
      exact Nat.le_max_left _ _
    · exact Nat.le_trans (ih h) (Nat.le_max_right _ _)

end Json

end SqlFront
