import SqlFront.Proofs.MoreFunctions

/-! # Registries as maps

Registering, looking up and listing each bring a name into its normal form on their own. Main statement:
after any registrations a name has the arity that it was last registered with, the names are listed
in increasing order and each once, registrations of different names may be made in either order, and a
copy goes its own way.
-/

namespace SqlFront

/-- A registration as it is made: with a signed number of arguments, or with any number of them. -/
inductive Registration where
  | fixed (name : String) (count : Int)
  | variadic (name : String)

/-- What is registered. -/
def Registration.signature : Registration → Signature
  | .fixed name count => ⟨name, .ofInt count⟩
  | .variadic name => ⟨name, .variadic⟩

namespace Registry

variable {r : Registry}

/-- What the last of the signatures with the given name says, names being compared in normal form. -/
def lastArity (signatures : List Signature) (name : String) : Option Arity :=
  (signatures.filter fun s => normalName s.name = normalName name).getLast?.map (·.arity)

/-! ## Looking up -/

/-- A name has the arity of its last registration; without one it has the arity that it had before. -/
theorem arity?_registerAll_last (r : Registry) (signatures : List Signature) (name : String) :
    (r.registerAll signatures).arity? name = (lastArity signatures name).or (r.arity? name) := by
  induction signatures generalizing r with
  | nil => rfl
  | cons s signatures ih =>
    have hstep : (r.registerAll (s :: signatures)).arity? name =
        (lastArity signatures name).or ((r.register s.name s.arity).arity? name) := ih _
    rw [hstep, arity?_register]
    by_cases hname : normalName s.name = normalName name
    · rw [if_pos hname.symm, lastArity, lastArity, List.filter_cons_of_pos (by simpa using hname),
        List.getLast?_cons]
      cases (signatures.filter fun s => normalName s.name = normalName name).getLast? <;> rfl
    · rw [if_neg (Ne.symm hname), lastArity, lastArity,
        List.filter_cons_of_neg (by simpa using hname)]

theorem builtin_eq : builtin = (⟨[]⟩ : Registry).registerAll (aggregates.map (⟨·, .fixed 1⟩)) := rfl

theorem ofSignatures_eq (signatures : List Signature) :
    ofSignatures signatures = builtin.registerAll signatures := rfl

theorem registerAll_append (r : Registry) (first second : List Signature) :
    r.registerAll (first ++ second) = (r.registerAll first).registerAll second :=
  List.foldl_append ..

theorem lookup_same_arity (names : List String) (arity : Arity) (x : String) :
    (names.map (·, arity)).lookup x = if x ∈ names then some arity else none := by
  induction names with
  | nil => rfl
  | cons name names ih =>
    rw [List.map_cons, List.lookup_cons, ih]
    by_cases h : x = name
    · simp [h]
    · simp [h, beq_false_of_ne h]

theorem builtin_entries :
    builtin.entries = ["AVG", "COUNT", "MAX", "MIN", "SUM"].map (·, .fixed 1) := by decide

theorem mem_names_builtin (x : String) : x ∈ builtin.names ↔ x ∈ aggregates := by
  rw [names, builtin_entries, aggregates]
  simp only [List.map_cons, List.map_nil, List.mem_cons, List.not_mem_nil, or_false]
  tauto

theorem arity?_builtin (name : String) :
    builtin.arity? name = if normalName name ∈ aggregates then some (.fixed 1) else none := by
  have hnames : builtin.names = ["AVG", "COUNT", "MAX", "MIN", "SUM"] := by decide
  rw [arity?, builtin_entries, lookup_same_arity, ← hnames]
  simp only [mem_names_builtin]

/-! ## Listing -/

/-- The names are listed in increasing order. -/
def Ordered (r : Registry) : Prop := r.names.Pairwise (· < ·)

theorem insertEntry_ordered (name : String) (arity : Arity) {entries : List (String × Arity)}
    (h : (entries.map (·.1)).Pairwise (· < ·)) :
    ((insertEntry name arity entries).map (·.1)).Pairwise (· < ·) := by
  induction entries with
  | nil => exact List.pairwise_singleton _ _
  | cons e rest ih =>
    obtain ⟨other, a⟩ := e
    obtain ⟨hother, hrest⟩ := List.pairwise_cons.mp h
    rw [insertEntry]
    split
    · rename_i heq
      subst heq
      exact h
    · rename_i hne
      split
      · rename_i hlt
        refine List.pairwise_cons.mpr ⟨fun x hx => ?_, h⟩
        obtain rfl | hx := List.mem_cons.mp hx
        · exact hlt
        · exact String.lt_trans hlt (hother x hx)
      · rename_i hnlt
        refine List.pairwise_cons.mpr ⟨fun x hx => ?_, ih hrest⟩
        obtain rfl | hx := (mem_names_insertEntry ..).mp hx
        · grind
        · exact hother x hx

theorem Ordered.registerAll (h : r.Ordered) (signatures : List Signature) :
    (r.registerAll signatures).Ordered := by
  induction signatures generalizing r with
  | nil => exact h
  | cons s signatures ih => exact ih (insertEntry_ordered _ _ h)

theorem mem_names_registerAll (r : Registry) (signatures : List Signature) (x : String) :
    x ∈ (r.registerAll signatures).names ↔
      x ∈ r.names ∨ ∃ s ∈ signatures, x = normalName s.name := by
  induction signatures generalizing r with
  | nil => simp [registerAll]
  | cons s signatures ih =>
    have hstep : x ∈ (r.registerAll (s :: signatures)).names ↔
        x ∈ (r.register s.name s.arity).names ∨ ∃ s ∈ signatures, x = normalName s.name := ih _
    rw [hstep, names, register, mem_names_insertEntry, ← names]
    simp only [List.mem_cons, exists_eq_or_imp, or_assoc, or_left_comm]

theorem builtin_ordered : builtin.Ordered := by
  have hempty : (⟨[]⟩ : Registry).Ordered := List.Pairwise.nil
  rw [builtin_eq]
  exact hempty.registerAll _

/-! ## Order of registrations -/

theorem insertEntry_comm {name other : String} (h : name ≠ other) (x y : Arity)
    (entries : List (String × Arity)) :
    insertEntry name x (insertEntry other y entries) =
      insertEntry other y (insertEntry name x entries) := by
  induction entries with
  | nil => grind [insertEntry]
  | cons e rest ih =>
    obtain ⟨third, a⟩ := e
    grind [insertEntry]

theorem register_comm (r : Registry) {s t : Signature} (h : normalName s.name ≠ normalName t.name) :
    (r.register s.name s.arity).register t.name t.arity =
      (r.register t.name t.arity).register s.name s.arity :=
  congrArg Registry.mk (insertEntry_comm h.symm _ _ _)

/-! ## Copies -/

/-- What is done with registries, each known by its number; a copy gets the next free number. -/
inductive Step where
  | register (number : Nat) (registration : Registration)
  | clone (number : Nat)

/-- The registries after a step. -/
def step (rs : List Registry) : Step → List Registry
  | .register number registration =>
    rs.modify number fun r => r.register registration.signature.name registration.signature.arity
  | .clone number => rs ++ rs[number]?.toList

/-- The registries after some steps. -/
def run (rs : List Registry) (steps : List Step) : List Registry :=
  steps.foldl step rs

/-- What the steps register with one of the registries. -/
def registeredWith (number : Nat) (steps : List Step) : List Signature :=
  steps.filterMap fun
    | .register other registration => if other = number then some registration.signature else none
    | .clone _ => none

/-- A step changes a registry only by what it registers with it. -/
theorem step_getElem? (rs : List Registry) (s : Step) {number : Nat} (h : rs[number]? = some r) :
    (step rs s)[number]? = some (r.registerAll (registeredWith number [s])) := by
  cases s with
  | register other registration =>
    rw [step, List.getElem?_modify]
    by_cases heq : other = number
    · simp [heq, h, registeredWith, Registry.registerAll]
    · simp [heq, h, registeredWith, Registry.registerAll]
  | clone other =>
    have hlength : number < rs.length := (List.getElem?_eq_some_iff.mp h).1
    rw [step, List.getElem?_append_left hlength, h]
    rfl

/-- A registry has seen what was registered with it, in this order, and nothing else. -/
theorem run_getElem? {rs : List Registry} (steps : List Step) {number : Nat}
    (h : rs[number]? = some r) :
    (run rs steps)[number]? = some (r.registerAll (registeredWith number steps)) := by
  induction steps generalizing rs r with
  | nil => exact h
  | cons s steps ih =>
    have hsplit : registeredWith number (s :: steps) =
        registeredWith number [s] ++ registeredWith number steps :=
      List.filterMap_append (l := [s])
    rw [hsplit, registerAll_append]
    exact ih (step_getElem? rs s h)

end Registry

open Registry

/-- After any registrations a name has the arity of the last one of that name, names being trimmed and
    put in upper case; a negative number of arguments means one. Without a registration, an aggregate
    has one argument and any other name none. The names are listed strictly increasing. Registrations of
    different names commute, and of a registry and its copy neither sees what is registered with the
    other. -/
theorem registry_last_wins (specs : List Signature) (calls : List Registration) :
    let all := specs ++ calls.map Registration.signature
    let r := (ofSignatures specs).registerAll (calls.map Registration.signature)
    (∀ n, r.arity? n =
      (lastArity all n).or (if normalName n ∈ aggregates then some (.fixed 1) else none)) ∧
    r.names.Pairwise (· < ·) ∧
    (∀ n, n ∈ r.names ↔ n ∈ aggregates ∨ ∃ s ∈ all, n = normalName s.name) ∧
    r.size = r.names.length ∧
    (∀ s t : Signature, normalName s.name ≠ normalName t.name →
      (r.register s.name s.arity).register t.name t.arity =
        (r.register t.name t.arity).register s.name s.arity) ∧
    ∀ before after steps,
      let rs := before ++ r :: after
      let later := run rs (.clone before.length :: steps)
      later[before.length]? = some (r.registerAll (registeredWith before.length steps)) ∧
        later[rs.length]? = some (r.registerAll (registeredWith rs.length steps)) := by
  intro all r
  have hr : r = builtin.registerAll all := by rw [registerAll_append, ← ofSignatures_eq]
  refine ⟨fun n => ?_, ?_, fun n => ?_, (List.length_map ..).symm, fun s t => register_comm r, ?_⟩
  · rw [hr, arity?_registerAll_last, arity?_builtin]
  · rw [hr]
    exact builtin_ordered.registerAll all
  · rw [hr, mem_names_registerAll, mem_names_builtin]
  · intro before after steps rs later
    have hplace : rs[before.length]? = some r := by simp [rs]
    have hclone : step rs (.clone before.length) = rs ++ [r] := by simp [step, hplace]
    refine ⟨run_getElem? (.clone before.length :: steps) hplace, ?_⟩
    change (run (step rs (.clone before.length)) steps)[rs.length]? = _
    rw [hclone]
    exact run_getElem? steps (List.getElem?_concat_length ..)

theorem registry_last_wins_upper :
    let specs : List Signature := [⟨" upper ", .fixed 2⟩, ⟨"sum", .variadic⟩]
    let r := (ofSignatures specs).registerAll [⟨"Upper", .ofInt (-3)⟩]
    r.arity? "UPPER\t" = some (.fixed 1) ∧ r.arity? "Sum" = some .variadic ∧
      r.arity? "avg" = some (.fixed 1) ∧ r.arity? "f" = none ∧ normalName "f" ≠ normalName "g" ∧
      (r.register "f" (.fixed 0)).register "g" .variadic =
        (r.register "g" .variadic).register "f" (.fixed 0) := by
  have hmap := registry_last_wins [⟨" upper ", .fixed 2⟩, ⟨"sum", .variadic⟩] [.fixed "Upper" (-3)]
  obtain ⟨harity, -, -, -, hcomm, -⟩ := hmap
  have hne : normalName "f" ≠ normalName "g" := by decide
  refine ⟨(harity _).trans (by decide), (harity _).trans (by decide), (harity _).trans (by decide),
    (harity _).trans (by decide), hne, hcomm ⟨"f", .fixed 0⟩ ⟨"g", .variadic⟩ hne⟩

end SqlFront
