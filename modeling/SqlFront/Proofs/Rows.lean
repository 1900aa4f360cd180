import SqlFront.Eval.Row

/-! # Rows are maps in the order of their names

A row keeps the names of its attributes, their values and the places of the names in three lists.
They describe the same attributes after a header and after any edits: a value that is set replaces
the one of that name in its place or comes last, and the fields of a line go to the first places.
-/

namespace SqlFront.Row

variable {row : Row} {name : String} {i : Nat}

/-- Names, values and index describe the same attributes. -/
structure Consistent (row : Row) : Prop where
  values : row.values.length = row.names.length
  entries : row.index.length = row.names.length
  distinct : row.names.Nodup
  place : ∀ name i, row.indexOf? name = some i ↔ row.nameAt? i = some name

/-- A change of a row. -/
inductive Edit where
  /-- Set the value of one attribute. -/
  | set (name : String) (value : Value)
  /-- Set values from the fields of a line. -/
  | line (text : String)
  /-- Set values in order. -/
  | values (given : List Value)

namespace Edit

/-- The names that an edit declares. -/
def names : Edit → List String
  | .set name _ => [name]
  | .line _ | .values _ => []

end Edit

def edit (row : Row) : Edit → Row
  | .set name value => row.set name value
  | .line text => row.setLine text
  | .values given => row.setValues given

/-- The names between the commas of a header. -/
def headerNames (header : String) : List String :=
  ((Text.split ',' header).map Text.trim).filter (· ≠ "")

/-- A row without attributes, or with those of a header. -/
def start (header : Option String) : Row := header.elim empty ofHeader

/-- The row after some edits. -/
def run (header : Option String) (edits : List Edit) : Row := edits.foldl edit (start header)

/-! ## Declaring a name -/

theorem declare_known (h : row.indexOf? name = some i) : row.declare name = (row, i) := by
  simp only [declare, h]

theorem declare_new (h : row.indexOf? name = none) :
    row.declare name = (⟨row.names ++ [name], row.values ++ [none],
      row.index ++ [(name, row.names.length)]⟩, row.names.length) := by
  simp only [declare, h]

theorem indexOf?_declare (row : Row) (name other : String) :
    (row.declare name).1.indexOf? other =
      if other = name then some (row.declare name).2 else row.indexOf? other := by
  cases hplace : row.indexOf? name with
  | some i =>
    rw [declare_known hplace]
    split
    · rename_i heq
      rw [heq, hplace]
    · rfl
  | none =>
    rw [declare_new hplace]
    simp only [indexOf?] at hplace ⊢
    rw [List.lookup_append, List.lookup_cons]
    by_cases h : other = name
    · simp [h, hplace]
    · simp [h, beq_eq_false_iff_ne.mpr h]

/-- A new attribute is unset, so no value changes. -/
theorem valueAt?_declare (row : Row) (name : String) (i : Nat) :
    (row.declare name).1.valueAt? i = row.valueAt? i := by
  cases hplace : row.indexOf? name with
  | some => rw [declare_known hplace]
  | none =>
    rw [declare_new hplace]
    simp only [valueAt?, List.getElem?_append, List.getElem?_singleton]
    split
    · rfl
    · rename_i hlen
      rw [List.getElem?_eq_none (by omega)]
      split <;> rfl

namespace Consistent

theorem lt_of_place (h : row.Consistent) (hplace : row.indexOf? name = some i) :
    i < row.names.length := by
  obtain ⟨hi, -⟩ := List.getElem?_eq_some_iff.mp ((h.place name i).mp hplace)
  exact hi

theorem mem_names (h : row.Consistent) :
    name ∈ row.names ↔ (row.indexOf? name).isSome = true := by
  rw [List.mem_iff_getElem?, Option.isSome_iff_exists]
  exact exists_congr fun i => (h.place name i).symm

theorem not_mem_names (h : row.Consistent) (hplace : row.indexOf? name = none) :
    name ∉ row.names := by
  rw [h.mem_names, hplace]
  nofun

theorem names_declare (h : row.Consistent) (name : String) :
    (row.declare name).1.names =
      if name ∈ row.names then row.names else row.names ++ [name] := by
  cases hplace : row.indexOf? name with
  | some i => rw [declare_known hplace, if_pos (h.mem_names.mpr (by rw [hplace]; rfl))]
  | none => rw [declare_new hplace, if_neg (h.not_mem_names hplace)]

theorem declare (h : row.Consistent) (name : String) : (row.declare name).1.Consistent := by
  cases hplace : row.indexOf? name with
  | some i =>
    rw [declare_known hplace]
    exact h
  | none =>
    have hnew := h.not_mem_names hplace
    have hindex := indexOf?_declare row name
    rw [declare_new hplace] at hindex ⊢
    constructor
    · simp [h.values]
    · simp [h.entries]
    · rw [List.nodup_append]
      refine ⟨h.distinct, by simp, ?_⟩
      intro a ha b hb heq
      obtain rfl := List.mem_singleton.mp hb
      exact hnew (heq ▸ ha)
    · intro other i
      rw [hindex]
      simp only [nameAt?, List.getElem?_append, List.getElem?_singleton]
      have hold := h.place other i
      have hlt : ∀ j, row.indexOf? other = some j → j < row.names.length :=
        fun j => h.lt_of_place
      grind [nameAt?]

/-- The place of a declared name is one of a value, so setting the value there stays in range. -/
theorem declare_lt (h : row.Consistent) (name : String) :
    (row.declare name).2 < (row.declare name).1.values.length := by
  have hdeclared := h.declare name
  have hplace : (row.declare name).1.indexOf? name = some (row.declare name).2 := by
    rw [indexOf?_declare, if_pos rfl]
  rw [hdeclared.values]
  exact hdeclared.lt_of_place hplace

/-- Other values in as many places leave a row consistent. -/
theorem withValues (h : row.Consistent) {values : List (Option Value)}
    (hlength : values.length = row.values.length) : Consistent { row with values } where
  values := hlength.trans h.values
  entries := h.entries
  distinct := h.distinct
  place := h.place

end Consistent

/-! ## What an edit changes -/

/-- One attribute gets a value: in its place if the name is known, and behind the others if not. -/
structure Assigns (row : Row) (name : String) (value : Value) (row' : Row) : Prop where
  inRange : (row.declare name).2 < (row.declare name).1.values.length
  known : ∀ i, row.indexOf? name = some i →
    row' = { row with values := row.values.set i (some value) }
  new : row.indexOf? name = none →
    row'.names = row.names ++ [name] ∧ row'.values = row.values ++ [some value]
  found : row'.get? name = some value
  others : ∀ other, other ≠ name →
    row'.indexOf? other = row.indexOf? other ∧ row'.get? other = row.get? other

/-- The first places get the given values, as far as there are both. -/
structure Overwrites (row : Row) (slots : List (Option Value)) (row' : Row) : Prop where
  names : row'.names = row.names
  index : row'.index = row.index
  length : row'.values.length = row.values.length
  given : ∀ i slot, i < row.values.length → slots[i]? = some slot → row'.valueAt? i = slot
  kept : ∀ i, slots.length ≤ i → row'.valueAt? i = row.valueAt? i

/-- What an edit makes of a row. A blank field of a line leaves its attribute unset. -/
def Edit.Effect (row : Row) : Edit → Row → Prop
  | .set name value => row.Assigns name value
  | .line text => row.Overwrites ((Text.split ',' text).map fun field =>
      if Text.trim field = "" then none else some (Value.ofText (Text.trim field)))
  | .values given => row.Overwrites (given.map some)

theorem set_eq (row : Row) (name : String) (value : Value) :
    row.set name value = { (row.declare name).1 with
      values := (row.declare name).1.values.set (row.declare name).2 (some value) } := rfl

theorem Consistent.assigns (h : row.Consistent) (name : String) (value : Value) :
    row.Assigns name value (row.set name value) where
  inRange := h.declare_lt name
  known i hplace := by rw [set_eq, declare_known hplace]
  new hplace := by
    rw [set_eq, declare_new hplace]
    simp [← h.values]
  found := by
    have hplace : (row.set name value).indexOf? name = some (row.declare name).2 :=
      (indexOf?_declare row name name).trans (if_pos rfl)
    rw [get?, hplace, Option.bind_some, valueAt?, set_eq,
      List.getElem?_set_self (h.declare_lt name), Option.join_some]
  others other hne := by
    have hplace : (row.set name value).indexOf? other = row.indexOf? other :=
      (indexOf?_declare row name other).trans (if_neg hne)
    refine ⟨hplace, ?_⟩
    rw [get?, get?, hplace]
    cases hother : row.indexOf? other with
    | none => rfl
    | some j =>
      have hapart : (row.declare name).2 ≠ j := by
        -- Two names at one place would be the same name.
        intro heq
        have hdeclared := h.declare name
        have hname : (row.declare name).1.indexOf? name = some j := by
          rw [indexOf?_declare, if_pos rfl, heq]
        have hotherName : (row.declare name).1.indexOf? other = some j := by
          rw [indexOf?_declare, if_neg hne, hother]
        have := (hdeclared.place name j).mp hname
        rw [(hdeclared.place other j).mp hotherName] at this
        exact hne (Option.some.inj this)
      rw [Option.bind_some, Option.bind_some, ← valueAt?_declare row name j, valueAt?, set_eq,
        List.getElem?_set_ne hapart, valueAt?]

theorem length_overwrite (old new : List (Option Value)) :
    (overwrite old new).length = old.length := by
  fun_induction overwrite old new <;> grind

theorem getElem?_overwrite (old new : List (Option Value)) (i : Nat) :
    (overwrite old new)[i]? = if i < old.length then new[i]?.or old[i]? else none := by
  fun_induction overwrite old new generalizing i with
  | case1 _ old value new ih =>
    cases i with
    | zero => simp
    | succ i => simpa using ih i
  | case2 => simp
  | case3 old => grind

/-- Values for the first places leave the names, and the values behind them, as they are. -/
theorem overwrites (row : Row) (slots : List (Option Value)) :
    row.Overwrites slots { row with values := overwrite row.values slots } where
  names := rfl
  index := rfl
  length := length_overwrite row.values slots
  given i slot hi hslot := by
    rw [valueAt?, getElem?_overwrite, if_pos hi, hslot, Option.some_or, Option.join_some]
  kept i hi := by
    rw [valueAt?, getElem?_overwrite, List.getElem?_eq_none hi, Option.none_or, valueAt?]
    split
    · rfl
    · rw [List.getElem?_eq_none (by omega)]

theorem Consistent.effect (h : row.Consistent) (edit : Edit) : edit.Effect row (row.edit edit) := by
  cases edit with
  | set name value => exact h.assigns name value
  | line => exact row.overwrites _
  | values => exact row.overwrites _

theorem Consistent.edit (h : row.Consistent) (edit : Edit) : (row.edit edit).Consistent := by
  cases edit with
  | set name value => exact (h.declare name).withValues List.length_set
  | line => exact h.withValues (length_overwrite ..)
  | values => exact h.withValues (length_overwrite ..)

/-- Edits keep a row consistent. -/
theorem Consistent.edits (h : row.Consistent) (edits : List Edit) :
    (edits.foldl Row.edit row).Consistent :=
  List.foldlRecOn edits Row.edit h fun _ h edit _ => h.edit edit

/-! ## From a header through all edits -/

theorem eraseDups_concat (names : List String) (name : String) :
    (names ++ [name]).eraseDups =
      if name ∈ names.eraseDups then names.eraseDups else names.eraseDups ++ [name] := by
  rw [List.eraseDups_append]
  by_cases h : name ∈ names
  · simp [List.removeAll, h]
  · simp [List.removeAll, h, List.eraseDups_cons]

theorem Consistent.names_declare_eraseDups (h : row.Consistent) {names : List String}
    (hnames : row.names = names.eraseDups) (name : String) :
    (row.declare name).1.names = (names ++ [name]).eraseDups := by
  rw [h.names_declare, eraseDups_concat, hnames]

/-- A row with the given names in the order of their first occurrence, all unset. -/
structure Declared (names : List String) (row : Row) : Prop where
  consistent : row.Consistent
  names : row.names = names.eraseDups
  unset : ∀ i, row.valueAt? i = none

theorem declared_empty : Declared [] empty where
  consistent := ⟨rfl, rfl, List.nodup_nil, by simp [indexOf?, nameAt?, empty]⟩
  names := rfl
  unset _ := rfl

theorem Declared.foldl {done : List String} (h : Declared done row) (names : List String) :
    Declared (done ++ names) (names.foldl (fun row name => (row.declare name).1) row) := by
  induction names generalizing done row with
  | nil => simpa using h
  | cons name rest ih =>
    have hnext : Declared (done ++ [name]) (row.declare name).1 :=
      ⟨h.consistent.declare name, h.consistent.names_declare_eraseDups h.names name,
        fun i => (valueAt?_declare row name i).trans (h.unset i)⟩
    simpa using ih hnext

/-- A header declares its names that are not blank, in the order of their first occurrence. -/
theorem declared_start (header : Option String) :
    Declared (header.toList.flatMap headerNames) (start header) := by
  cases header with
  | none => exact declared_empty
  | some header =>
    have hheader := declared_empty.foldl (headerNames header)
    simpa [start, ofHeader, headerNames] using hheader

theorem Consistent.names_edit (h : row.Consistent) {names : List String}
    (hnames : row.names = names.eraseDups) (edit : Edit) :
    (row.edit edit).names = (names ++ edit.names).eraseDups := by
  cases edit with
  | set name value => exact h.names_declare_eraseDups hnames name
  | line | values =>
    rw [Edit.names, List.append_nil]
    exact hnames

theorem Consistent.names_edits (h : row.Consistent) {names : List String}
    (hnames : row.names = names.eraseDups) (edits : List Edit) :
    (edits.foldl Row.edit row).names = (names ++ edits.flatMap Edit.names).eraseDups := by
  induction edits generalizing row names with
  | nil => simpa using hnames
  | cons edit rest ih => simpa using ih (h.edit edit) (h.names_edit hnames edit)

/-- After a header and any edits a row is a map in the order of its names: its lists describe the
    same attributes, the names are those that were declared in the order of their first occurrence,
    and each further edit changes the attributes that it is for and no others. -/
theorem run_ordered (header : Option String) (edits : List Edit) :
    (run header edits).Consistent ∧
    (∀ name, (run header edits).contains name = ((run header edits).indexOf? name).isSome ∧
      (run header edits).get? name =
        ((run header edits).indexOf? name).bind (run header edits).valueAt?) ∧
    (∀ i, (start header).valueAt? i = none) ∧
    (run header edits).names =
      (header.toList.flatMap headerNames ++ edits.flatMap Edit.names).eraseDups ∧
    ∀ edit : Edit, edit.Effect (run header edits) ((run header edits).edit edit) := by
  have hstart := declared_start header
  have hrun : (run header edits).Consistent := hstart.consistent.edits edits
  refine ⟨hrun, ?_, hstart.unset, ?_, hrun.effect⟩
  · intro name
    exact ⟨rfl, rfl⟩
  · exact hstart.consistent.names_edits hstart.names edits

example : (run (some "a,, b ,a") [.line "1,2", .set "c" (.text "x"), .set "a" (.text "y")]).names =
    ["a", "b", "c"] := by decide +kernel

end SqlFront.Row
