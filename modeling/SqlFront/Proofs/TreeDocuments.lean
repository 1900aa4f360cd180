import SqlFront.Json.Row
import SqlFront.Json.Tree

/-! # What is written as JSON is read back

The depth that bounds the reading of an expression is never in the way, so an expression is read by
its outermost form. Main statement: statements, expressions and functions are read back from their
documents as they are, and so are rows whose numbers are finite. An operation without the mark of a
call is none.
-/

namespace SqlFront

namespace Json

variable {α : Type} {read read' : Json → Option α} {n : Nat}

/-! ## Values within a depth -/

/-- Two ways to read give the same for all values of at most the given depth. -/
def AgreeWithin (n : Nat) (read read' : Json → Option α) : Prop :=
  ∀ j : Json, j.depth ≤ n → read j = read' j

theorem depth_pos (j : Json) : 0 < j.depth := by
  cases j <;> simp only [depth, Nat.zero_lt_succ]

theorem depth_tagged (name : String) (content : Json) :
    (tagged name content).depth = content.depth + 1 := by
  simp only [tagged, depth, depthOfFields, Nat.max_zero]

theorem depthOfFields_zip (names : List String) (items : List Json) :
    depthOfFields (names.zip items) ≤ depthOfItems items := by
  induction items generalizing names with
  | nil => simp [depthOfFields]
  | cons item rest ih =>
    cases names with
    | nil => simp [depthOfFields]
    | cons name names =>
      simp only [List.zip_cons_cons, depthOfFields, depthOfItems]
      have := ih names
      omega

/-- The fields of a record lie deeper than the record. -/
theorem depth_of_record {names : List String} {required : Nat} {j : Json}
    {fields : List (String × Json)} (h : record? names required j = some fields) :
    depthOfFields fields < j.depth := by
  cases j with
  | object given =>
    cases h
    simp only [depth, Nat.lt_succ_self]
  | array items =>
    simp only [record?] at h
    split at h
    · cases h
      rw [depth]
      exact Nat.lt_succ_of_le (depthOfFields_zip names items)
    · cases h
  | null | bool | integer | double | string => cases h

theorem depth_of_variant {j content : Json} {name : String}
    (h : variant? j = some (name, some content)) : content.depth < j.depth := by
  unfold variant? at h
  split at h
  · cases h
  · cases h
    rw [← tagged, depth_tagged]
    exact Nat.lt_succ_self _
  · cases h

/-- Two readings of records agree if they do so on the fields. -/
theorem agree_record {names : List String} {required : Nat} {j : Json} (hj : j.depth ≤ n)
    {next next' : List (String × Json) → Option α}
    (h : ∀ fields, depthOfFields fields ≤ n → next fields = next' fields) :
    (do next (← record? names required j)) = (do next' (← record? names required j)) := by
  apply Option.bind_congr
  intro fields hfields
  have := depth_of_record hfields
  exact h fields (by omega)

theorem mapM_congr {items : List Json} (h : ∀ item ∈ items, read item = read' item) :
    items.mapM read = items.mapM read' := by
  induction items with
  | nil => rfl
  | cons item rest ih =>
    obtain ⟨hfirst, hrest⟩ := List.forall_mem_cons.mp h
    rw [List.mapM_cons, List.mapM_cons, hfirst, ih hrest]

namespace AgreeWithin

theorem list (h : AgreeWithin n read read') : AgreeWithin n (list? read) (list? read') := by
  intro j hj
  cases j with
  | array items =>
    apply mapM_congr
    intro item hitem
    rw [depth] at hj
    have := depth_le_of_mem hitem
    exact h item (by omega)
  | null | bool | integer | double | string | object => rfl

variable {fields : List (String × Json)}

theorem field (h : AgreeWithin n read read') (hfields : depthOfFields fields ≤ n) (name : String) :
    field? fields name read = field? fields name read' := by
  apply Option.bind_congr
  intro value hvalue
  exact h value (Nat.le_trans (depth_le_of_lookup hvalue) hfields)

theorem optional (h : AgreeWithin n read read') (hfields : depthOfFields fields ≤ n)
    (name : String) : optional? fields name read = optional? fields name read' := by
  unfold optional?
  split
  · rfl
  · rename_i value hvalue
    have hread := h value (Nat.le_trans (depth_le_of_lookup hvalue) hfields)
    cases value <;> simp only [option?, hread]

end AgreeWithin

end Json

/-! ## Readings of the parts of a query -/

section Parts

open Json

variable {ε : Type} {read read' : Json → Option ε} {n : Nat}

theorem Operation.agree (h : AgreeWithin n read read') :
    AgreeWithin n (Operation.ofJson? read) (Operation.ofJson? read') := by
  intro j hj
  apply agree_record hj
  intro fields hfields
  rw [h.list.field hfields]

theorem SelectItem.agree (h : AgreeWithin n read read') :
    AgreeWithin n (SelectItem.ofJson? read) (SelectItem.ofJson? read') := by
  intro j hj
  apply agree_record hj
  intro fields hfields
  rw [h.optional hfields]

theorem GroupBy.agree (h : AgreeWithin n read read') :
    AgreeWithin n (GroupBy.ofJson? read) (GroupBy.ofJson? read') := by
  intro j hj
  apply agree_record hj
  intro fields hfields
  rw [h.list.field hfields, h.optional hfields]

theorem OrderBy.agree (h : AgreeWithin n read read') :
    AgreeWithin n (OrderBy.ofJson? read) (OrderBy.ofJson? read') := by
  intro j hj
  apply agree_record hj
  intro fields hfields
  rw [h.field hfields]

theorem Query.agree (h : AgreeWithin n read read') :
    AgreeWithin n (Query.ofJson? read) (Query.ofJson? read') := by
  intro j hj
  apply agree_record hj
  intro fields hfields
  rw [(SelectItem.agree h).list.field hfields, h.optional hfields,
    (GroupBy.agree h).optional hfields, (Operation.agree h).optional hfields,
    (OrderBy.agree h).list.field hfields]

end Parts

namespace Expr

/-- A bound that is no less than the depth of a value does not matter. -/
theorem ofJsonWithin?_eq {n m : Nat} {j : Json} (hn : j.depth ≤ n) (hm : j.depth ≤ m) :
    ofJsonWithin? n j = ofJsonWithin? m j := by
  induction n generalizing m j with
  | zero => exact absurd j.depth_pos (by omega)
  | succ n ih =>
    obtain ⟨m, rfl⟩ : ∃ k, m = k + 1 := ⟨m - 1, by have := j.depth_pos; omega⟩
    apply Option.bind_congr
    rintro ⟨name, content⟩ hvariant
    cases content with
    | none => split <;> simp_all
    | some content =>
      have hcontent := Json.depth_of_variant hvariant
      have hagree : Json.AgreeWithin content.depth (ofJsonWithin? n) (ofJsonWithin? m) := by
        intro j hj
        exact ih (by omega) (by omega)
      have hoperation := Operation.agree hagree content (Nat.le_refl _)
      have hquery := Query.agree hagree content (Nat.le_refl _)
      split <;> simp_all

/-- Expressions below are read like the one on top. -/
theorem ofJsonWithin?_agree (n : Nat) : Json.AgreeWithin n (ofJsonWithin? n) ofJson? := by
  intro j hj
  exact ofJsonWithin?_eq hj (Nat.le_refl _)

theorem ofJson?_constant (content : Json) :
    ofJson? (Json.tagged "Constant" content) = constant <$> Constant.ofJson? content := by
  rw [ofJson?, Json.depth_tagged]
  rfl

theorem ofJson?_operation (content : Json) :
    ofJson? (Json.tagged "Operation" content) =
      operation <$> Operation.ofJson? ofJson? content := by
  rw [ofJson?, Json.depth_tagged, ← Operation.agree (ofJsonWithin?_agree _) _ (Nat.le_refl _)]
  rfl

theorem ofJson?_query (content : Json) :
    ofJson? (Json.tagged "Query" content) = query <$> Query.ofJson? ofJson? content := by
  rw [ofJson?, Json.depth_tagged, ← Query.agree (ofJsonWithin?_agree _) _ (Nat.le_refl _)]
  rfl

end Expr

/-! ## Fields, lists and absent values -/

namespace Json

variable {α : Type} {write : α → Json} {read : Json → Option α}

theorem record?_object (names : List String) (required : Nat) (fields : List (String × Json)) :
    record? names required (.object fields) = some fields := rfl

theorem field?_cons (fields : List (String × Json)) (name other : String) (j : Json) :
    field? ((other, j) :: fields) name read =
      if name = other then read j else field? fields name read := by
  by_cases h : name = other
  · simp [field?, h]
  · simp [field?, List.lookup_cons, beq_false_of_ne h, h]

theorem optional?_cons (fields : List (String × Json)) (name other : String) (j : Json) :
    optional? ((other, j) :: fields) name read =
      if name = other then option? read j else optional? fields name read := by
  by_cases h : name = other
  · simp [optional?, h]
  · simp [optional?, List.lookup_cons, beq_false_of_ne h, h]

theorem string?_string (s : String) : string? (.string s) = some s := rfl

theorem bool?_bool (b : Bool) : bool? (.bool b) = some b := rfl

theorem nat?_ofNat (n : Nat) : nat? (ofNat n) = some n := by
  simp [nat?, ofNat]

theorem list?_array (items : List Json) : list? read (.array items) = items.mapM read := rfl

theorem list?_ofList {items : List α} (h : ∀ a ∈ items, read (write a) = some a) :
    list? read (ofList write items) = some items := by
  rw [ofList, list?_array]
  induction items with
  | nil => rfl
  | cons a rest ih =>
    obtain ⟨hfirst, hrest⟩ := List.forall_mem_cons.mp h
    rw [List.map_cons, List.mapM_cons, hfirst, ih hrest]
    rfl

theorem list?_strings (items : List String) : list? string? (ofList .string items) = some items :=
  list?_ofList fun s _ => string?_string s

theorem map?_object (h : ∀ a, read (write a) = some a) (entries : List (String × α)) :
    map? read (.object (entries.map fun entry => (entry.1, write entry.2))) = some entries := by
  rw [map?]
  induction entries with
  | nil => rfl
  | cons entry rest ih =>
    rw [List.map_cons, List.mapM_cons, ih]
    dsimp only
    rw [h]
    rfl

theorem option?_of_ne_null {j : Json} (h : j ≠ .null) : option? read j = (read j).map some := by
  cases j with
  | null => exact absurd rfl h
  | bool | integer | double | string | array | object => rfl

/-- What is not written as null may be absent. -/
theorem option?_ofOption (h : ∀ a, read (write a) = some a) (hnull : ∀ a, write a ≠ .null)
    (o : Option α) : option? read (ofOption write o) = some o := by
  cases o with
  | none => rfl
  | some a => rw [ofOption, option?_of_ne_null (hnull a), h, Option.map_some]

theorem option?_string (o : Option String) : option? string? (ofOption .string o) = some o :=
  option?_ofOption string?_string nofun o

end Json

/-! ## Trees -/

open Json in
attribute [local simp] record?_object field?_cons optional?_cons string?_string bool?_bool
  nat?_ofNat list?_array list?_ofList list?_strings option?_string

theorem NameForm.ofJson?_toJson (f : NameForm) : ofJson? f.toJson = some f := by
  cases f <;> rfl

theorem Constant.Kind.ofJson?_toJson (k : Constant.Kind) : ofJson? k.toJson = some k := by
  cases k <;> rfl

theorem LockMode.ofJson?_toJson (m : LockMode) : ofJson? m.toJson = some m := by
  cases m <;> rfl

theorem QualifiedName.ofJson?_toJson (n : QualifiedName) : ofJson? n.toJson = some n := by
  simp [ofJson?, toJson, NameForm.ofJson?_toJson]

theorem QualifiedName.sourceOfJson?_sourceToJson (n : QualifiedName) :
    sourceOfJson? n.sourceToJson = some n := by
  simp [sourceOfJson?, sourceToJson, QualifiedName.ofJson?_toJson]

theorem Constant.ofJson?_toJson (c : Constant) : ofJson? c.toJson = some c := by
  simp [ofJson?, toJson, Constant.Kind.ofJson?_toJson]

namespace Expr

theorem toJson_ne_null (e : Expr) : e.toJson ≠ .null := by
  cases e <;> rw [toJson] <;> nofun

mutual

theorem ofJson?_toJson (e : Expr) : ofJson? e.toJson = some e := by
  cases e with
  | constant c =>
    rw [toJson, ofJson?_constant, Constant.ofJson?_toJson]
    rfl
  | operation op =>
    rw [toJson, ofJson?_operation, ofJson?_operationToJson op]
    rfl
  | query q =>
    rw [toJson, ofJson?_query, ofJson?_queryToJson q]
    rfl
  | placeholder => rfl

theorem ofJson?_operationToJson (op : Operation Expr) :
    Operation.ofJson? ofJson? (operationToJson op) = some op := by
  obtain ⟨operator, operands, call⟩ := op
  simp [operationToJson, Operation.ofJson?, List.lookup_cons, mapM_listToJson operands]

theorem mapM_listToJson (es : List Expr) : (listToJson es).mapM ofJson? = some es := by
  cases es with
  | nil => rfl
  | cons e rest => simp [listToJson, ofJson?_toJson e, mapM_listToJson rest]

theorem option?_optionToJson (o : Option Expr) :
    Json.option? ofJson? (optionToJson o) = some o := by
  cases o with
  | none => rfl
  | some e =>
    rw [optionToJson, Json.option?_of_ne_null e.toJson_ne_null, ofJson?_toJson e, Option.map_some]

theorem ofJson?_itemToJson (item : SelectItem Expr) :
    SelectItem.ofJson? ofJson? (itemToJson item) = some item := by
  obtain ⟨name, expression, function⟩ := item
  simp [itemToJson, SelectItem.ofJson?, QualifiedName.ofJson?_toJson,
    option?_optionToJson expression]

theorem mapM_itemsToJson (items : List (SelectItem Expr)) :
    (itemsToJson items).mapM (SelectItem.ofJson? ofJson?) = some items := by
  cases items with
  | nil => rfl
  | cons item rest => simp [itemsToJson, ofJson?_itemToJson item, mapM_itemsToJson rest]

theorem ofJson?_groupToJson (group : GroupBy Expr) :
    GroupBy.ofJson? ofJson? (groupToJson group) = some group := by
  obtain ⟨exprs, having⟩ := group
  simp [groupToJson, GroupBy.ofJson?, mapM_listToJson exprs, option?_optionToJson having]

theorem option?_groupOptionToJson (o : Option (GroupBy Expr)) :
    Json.option? (GroupBy.ofJson? ofJson?) (groupOptionToJson o) = some o := by
  cases o with
  | none => rfl
  | some group =>
    have hnull : groupToJson group ≠ .null := by rw [groupToJson]; nofun
    rw [groupOptionToJson, Json.option?_of_ne_null hnull, ofJson?_groupToJson group,
      Option.map_some]

theorem option?_operationOptionToJson (o : Option (Operation Expr)) :
    Json.option? (Operation.ofJson? ofJson?) (operationOptionToJson o) = some o := by
  cases o with
  | none => rfl
  | some op =>
    have hnull : operationToJson op ≠ .null := by rw [operationToJson]; nofun
    rw [operationOptionToJson, Json.option?_of_ne_null hnull, ofJson?_operationToJson op,
      Option.map_some]

theorem ofJson?_orderToJson (entry : OrderBy Expr) :
    OrderBy.ofJson? ofJson? (orderToJson entry) = some entry := by
  obtain ⟨expr, ascending⟩ := entry
  simp [orderToJson, OrderBy.ofJson?, ofJson?_toJson expr]

theorem mapM_ordersToJson (entries : List (OrderBy Expr)) :
    (ordersToJson entries).mapM (OrderBy.ofJson? ofJson?) = some entries := by
  cases entries with
  | nil => rfl
  | cons entry rest => simp [ordersToJson, ofJson?_orderToJson entry, mapM_ordersToJson rest]

theorem ofJson?_queryToJson (q : Query Expr) : Query.ofJson? ofJson? (queryToJson q) = some q := by
  obtain ⟨distinct, items, sources, condition, group, set, order, forUpdate⟩ := q
  simp [queryToJson, Query.ofJson?, mapM_itemsToJson items,
    QualifiedName.sourceOfJson?_sourceToJson, option?_optionToJson condition,
    option?_groupOptionToJson group, option?_operationOptionToJson set, mapM_ordersToJson order]

end

end Expr

attribute [local simp] Expr.ofJson?_toJson

theorem Query.ofJson?_toJson (q : Query Expr) : ofJson? Expr.ofJson? q.toJson = some q :=
  Expr.ofJson?_queryToJson q

theorem Expr.option?_ofOption (o : Option Expr) :
    Json.option? ofJson? (Json.ofOption toJson o) = some o :=
  Json.option?_ofOption ofJson?_toJson toJson_ne_null o

theorem InsertSource.ofJson?_toJson (source : InsertSource) :
    ofJson? source.toJson = some source := by
  cases source with
  | list values => simp [ofJson?, toJson, Json.variant?, Json.tagged]
  | query q => simp [ofJson?, toJson, Json.variant?, Json.tagged, Query.ofJson?_toJson]

theorem Insert.ofJson?_toJson (i : Insert) : ofJson? i.toJson = some i := by
  have hcolumns : Json.option? (Json.list? Json.string?)
      (Json.ofOption (Json.ofList .string) i.columns) = some i.columns :=
    Json.option?_ofOption Json.list?_strings nofun _
  simp [ofJson?, toJson, hcolumns, InsertSource.ofJson?_toJson]

theorem Update.ofJson?_toJson (u : Update) : ofJson? u.toJson = some u := by
  simp [ofJson?, toJson, Json.pair?, Expr.option?_ofOption]

theorem Delete.ofJson?_toJson (d : Delete) : ofJson? d.toJson = some d := by
  simp [ofJson?, toJson, Expr.option?_ofOption]

theorem Lock.ofJson?_toJson (l : Lock) : ofJson? l.toJson = some l := by
  simp [ofJson?, toJson, LockMode.ofJson?_toJson]

theorem Transaction.ofJson?_toJson (t : Transaction) : ofJson? t.toJson = some t := by
  simp [ofJson?, toJson]

theorem Statement.ofJson?_toJson (s : Statement) : ofJson? s.toJson = some s := by
  cases s with
  | query q => simp [ofJson?, toJson, Json.variant?, Json.tagged, Query.ofJson?_toJson]
  | insert i => simp [ofJson?, toJson, Json.variant?, Json.tagged, Insert.ofJson?_toJson]
  | update u => simp [ofJson?, toJson, Json.variant?, Json.tagged, Update.ofJson?_toJson]
  | delete d => simp [ofJson?, toJson, Json.variant?, Json.tagged, Delete.ofJson?_toJson]
  | lock l => simp [ofJson?, toJson, Json.variant?, Json.tagged, Lock.ofJson?_toJson]
  | transaction t => simp [ofJson?, toJson, Json.variant?, Json.tagged, Transaction.ofJson?_toJson]

/-! ## Functions and rows -/

theorem Arity.ofJson?_toJson (a : Arity) : ofJson? a.toJson = some a := by
  cases a with
  | fixed n => simp [ofJson?, toJson, Json.variant?, Json.tagged]
  | variadic => rfl

theorem Signature.ofJson?_toJson (s : Signature) : ofJson? s.toJson = some s := by
  simp [ofJson?, toJson, Arity.ofJson?_toJson]

theorem Value.ofJson?_toJson {v : Value} (h : ∀ x, v = .number x → x.isFinite) :
    ofJson? v.toJson = some v := by
  cases v with
  | number x => simp [ofJson?, toJson, h x rfl, Json.variant?, Json.tagged, Json.float?]
  | text s => simp [ofJson?, toJson, Json.variant?, Json.tagged]

/-- Every number of the row is finite. -/
def Row.Finite (row : Row) : Prop := ∀ x, some (Value.number x) ∈ row.values → x.isFinite

theorem Row.toJson_eq (row : Row) :
    row.toJson = .object [("names", Json.ofList .string row.names),
      ("values", Json.ofList (Json.ofOption Value.toJson) row.values),
      ("index", .object (row.index.map fun entry => (entry.1, Json.ofNat entry.2)))] := rfl

theorem Row.ofJson?_toJson {row : Row} (h : row.Finite) : ofJson? row.toJson = some row := by
  have hvalue : ∀ value ∈ row.values,
      Json.option? Value.ofJson? (Json.ofOption Value.toJson value) = some value := by
    intro value hvalue
    cases value with
    | none => rfl
    | some v =>
      have hread : Value.ofJson? v.toJson = some v := by
        apply Value.ofJson?_toJson
        rintro x rfl
        exact h x hvalue
      have hnull : v.toJson ≠ .null := by cases v <;> nofun
      rw [Json.ofOption, Json.option?_of_ne_null hnull, hread, Option.map_some]
  rw [toJson_eq]
  simp [ofJson?, Json.list?_ofList hvalue, Json.map?_object Json.nat?_ofNat]

/-! ## The mark of a call -/

/-- The fields of an object but those of a name. -/
def Json.without (name : String) (fields : List (String × Json)) : List (String × Json) :=
  fields.filter (·.1 != name)

theorem Json.lookup_without (name other : String) (fields : List (String × Json)) :
    (without name fields).lookup other = if other = name then none else fields.lookup other := by
  induction fields with
  | nil => simp [without]
  | cons field rest ih =>
    obtain ⟨key, value⟩ := field
    rw [without, List.filter_cons]
    by_cases hkey : key = name
    · rw [if_neg (by simp [hkey]), ← without, ih]
      split
      · rfl
      · rw [List.lookup_cons, hkey, beq_false_of_ne ‹_›]
    · rw [if_pos (by simp [hkey]), ← without, List.lookup_cons, List.lookup_cons, ih]
      by_cases hother : other = key
      · simp [hother, hkey]
      · rw [beq_false_of_ne hother]

theorem Operation.ofJson?_without_call {ε : Type} {expr : Json → Option ε}
    {fields : List (String × Json)} {op : Operation ε}
    (h : ofJson? expr (.object fields) = some op) :
    ofJson? expr (.object (Json.without "call" fields)) = some { op with call := false } := by
  simp only [ofJson?, Json.record?_object, Json.field?, Option.bind_eq_bind, Option.bind_some,
    Option.pure_def, Option.bind_eq_some_iff] at h
  obtain ⟨operator, ⟨jo, hjo, hoperator⟩, operands, ⟨js, hjs, hoperands⟩, h⟩ := h
  have hop : op.operator = operator ∧ op.operands = operands := by
    split at h
    · cases h
      exact ⟨rfl, rfl⟩
    · obtain ⟨call, -, h⟩ := Option.bind_eq_some_iff.mp h
      cases h
      exact ⟨rfl, rfl⟩
  simp [ofJson?, Json.field?, Json.lookup_without, hjo, hjs, hoperator, hoperands, hop]

/-! ## Everything at once -/

namespace Value

theorem equals_self {v : Value} (h : ∀ x, v = .number x → x.isFinite) : v.equals v = true := by
  cases v with
  | text s => exact beq_self_eq_true s
  | number x =>
    have hfinite : x.toModel.unpack.isFinite = true := h x rfl
    change (x.toModel.unpack.compare x.toModel.unpack == some .eq) = true
    cases hx : x.toModel.unpack with
    | notANumber | infinity => rw [hx] at hfinite; cases hfinite
    | zero => rfl
    | finite sign mantissa exponent =>
      have hsame : (compare exponent exponent).then (compare mantissa mantissa) = .eq := by
        rw [Std.ReflOrd.compare_self, Std.ReflOrd.compare_self, Ordering.eq_then]
      -- The sign decides in which order exponents and mantissas are compared.
      cases sign with
      | positive => exact beq_of_eq (congrArg some hsame)
      | negative => exact beq_of_eq (congrArg (some ∘ Ordering.swap) hsame)

end Value

namespace Row

theorem lookup_of_mem {index : List (String × Nat)} (hdistinct : (index.map (·.1)).Nodup)
    {name : String} {i : Nat} (h : (name, i) ∈ index) : index.lookup name = some i := by
  obtain ⟨front, back, rfl⟩ := List.append_of_mem h
  rw [List.lookup_eq_some_iff]
  refine ⟨front, back, rfl, ?_⟩
  rintro ⟨other, j⟩ hother
  rw [List.map_append, List.nodup_append] at hdistinct
  have hne := hdistinct.2.2 other (List.mem_map_of_mem hother) name (by simp)
  simpa using Ne.symm hne

/-- A row of finite numbers, whose index has each name once, does not change by the order in which
    the index lists them. -/
theorem equals_of_perm {row : Row} (h : row.Finite) (hdistinct : (row.index.map (·.1)).Nodup)
    {index : List (String × Nat)} (hindex : index.Perm row.index) :
    equals { row with index } row = true := by
  have hvalues : ∀ value ∈ row.values, sameValue value value = true := by
    intro value hvalue
    cases value with
    | none => rfl
    | some v =>
      apply Value.equals_self
      rintro x rfl
      exact h x hvalue
  have hplaces : sameIndex index row.index = true := by
    rw [sameIndex, hindex.length_eq, beq_self_eq_true, Bool.true_and, List.all_eq_true]
    rintro ⟨name, i⟩ hentry
    dsimp only
    rw [lookup_of_mem hdistinct (hindex.mem_iff.mp hentry)]
    exact beq_self_eq_true _
  simpa [equals, hplaces, List.zip_eq_zipWith, List.zipWith_self] using hvalues

end Row

/-- Statements, expressions and functions are read back from their documents as they are. So are
    rows whose numbers are finite, and the row read back equals the one written in whatever order
    its index is listed. Without the mark of a call, the document of an operation is that of the
    same operation as no call. -/
theorem documents_lossless :
    (∀ s : Statement, Statement.ofJson? s.toJson = some s) ∧
    (∀ e : Expr, Expr.ofJson? e.toJson = some e) ∧
    (∀ s : Signature, Signature.ofJson? s.toJson = some s) ∧
    (∀ row : Row, row.Finite → Row.ofJson? row.toJson = some row ∧
      ((row.index.map (·.1)).Nodup → ∀ index : List (String × Nat), index.Perm row.index →
        Row.equals { row with index } row = true)) ∧
    ∀ fields op, Operation.ofJson? Expr.ofJson? (.object fields) = some op →
      Operation.ofJson? Expr.ofJson? (.object (Json.without "call" fields)) =
        some { op with call := false } ∧
      Expr.ofJson? (Json.tagged "Operation" (.object (Json.without "call" fields))) =
        some (.operation { op with call := false }) := by
  refine ⟨Statement.ofJson?_toJson, Expr.ofJson?_toJson, Signature.ofJson?_toJson, ?_, ?_⟩
  · intro row hrow
    refine ⟨Row.ofJson?_toJson hrow, ?_⟩
    intro hdistinct index hindex
    exact Row.equals_of_perm hrow hdistinct hindex
  · intro fields op hop
    have hread := Operation.ofJson?_without_call hop
    refine ⟨hread, ?_⟩
    rw [Expr.ofJson?_operation, hread, Option.map_eq_map, Option.map_some]

/-- A row with an unset attribute, also with its index in another order, and a call without its
    mark. -/
theorem documents_lossless_unmarked :
    Row.Finite ⟨["b", "a"], [none, some (.number 1.5)], [("b", 0), ("a", 1)]⟩ ∧
    Row.ofJson? (Row.toJson ⟨["b", "a"], [none, some (.number 1.5)], [("b", 0), ("a", 1)]⟩) =
      some ⟨["b", "a"], [none, some (.number 1.5)], [("b", 0), ("a", 1)]⟩ ∧
    Row.equals ⟨["b", "a"], [none, some (.number 1.5)], [("a", 1), ("b", 0)]⟩
      ⟨["b", "a"], [none, some (.number 1.5)], [("b", 0), ("a", 1)]⟩ = true ∧
    Expr.ofJson? (Json.tagged "Operation" (.object
      [("operands", .array [.string "Placeholder"]), ("operator", .string "F")])) =
        some (.operation ⟨"F", [.placeholder], false⟩) := by
  have hfinite : Row.Finite ⟨["b", "a"], [none, some (.number 1.5)], [("b", 0), ("a", 1)]⟩ := by
    intro x hx
    obtain rfl : x = 1.5 := by simpa using hx
    decide
  have hcall : Operation.ofJson? Expr.ofJson? (.object
      [("operands", .array [.string "Placeholder"]), ("call", .bool true),
        ("operator", .string "F")]) = some ⟨"F", [.placeholder], true⟩ := rfl
  have hrow := documents_lossless.2.2.2.1 _ hfinite
  exact ⟨hfinite, hrow.1, hrow.2 (by decide) [("a", 1), ("b", 0)] (by decide),
    (documents_lossless.2.2.2.2 _ _ hcall).2⟩

end SqlFront
