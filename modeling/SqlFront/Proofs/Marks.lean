import SqlFront.Proofs.Lexing

/-! # What tokens say beyond the grammar

Numbers, texts, names and parameters are the tokens that a grammar does not fix. A tree holds them in
the order in which they are read: whatever rule a tree is read by, its tokens have the marks of the
tree.
-/

namespace SqlFront

namespace Token

/-- A number, text, name or parameter. Names are told apart in upper case. -/
inductive Mark where
  | number (text : String)
  | string (value : String)
  | name (capitals : String)
  | parameter
  deriving DecidableEq, Repr

/-- The mark of a token, if it is more than a sign or a reserved word. -/
def Kind.mark? : Kind → Option Mark
  | .number text => some (.number text)
  | .string value => some (.string value)
  | .name text => some (.name (Text.upper text))
  | .symbol .question => some .parameter
  | _ => none

/-- The marks of a row of tokens, in order. -/
def marks (ks : List Kind) : List Mark := ks.filterMap Kind.mark?

@[simp] theorem marks_nil : marks [] = [] := rfl

@[simp] theorem marks_append (ks ks' : List Kind) : marks (ks ++ ks') = marks ks ++ marks ks' :=
  List.filterMap_append

@[simp] theorem marks_keyword (word : Keyword) (ks : List Kind) :
    marks (.keyword word :: ks) = marks ks := rfl

@[simp] theorem marks_name (n : String) (ks : List Kind) :
    marks (.name n :: ks) = .name (Text.upper n) :: marks ks := rfl

@[simp] theorem marks_string (value : String) (ks : List Kind) :
    marks (.string value :: ks) = .string value :: marks ks := rfl

@[simp] theorem marks_symbol {sign : Symbol} (h : sign ≠ .question) (ks : List Kind) :
    marks (.symbol sign :: ks) = marks ks := by
  cases sign <;> first
    | rfl
    | exact absurd rfl h

/-- An operator has no mark. -/
theorem marks_operator {k : Kind} {p : Power} (h : Power.of? k = some p) (ks : List Kind) :
    marks (k :: ks) = marks ks := by
  cases k with
  | symbol sign =>
    refine marks_symbol ?_ ks
    rintro rfl
    cases h
  | keyword word => exact marks_keyword word ks
  | _ => cases h

/-- The mark of a name is the name in upper case. -/
theorem mark?_name {k : Kind} {n : String} (h : k.mark? = some (.name n)) :
    ∃ text, k = .name text ∧ Text.upper text = n := by
  unfold Kind.mark? at h
  split at h <;> simp_all

/-- The marks of the tokens that a text holds. -/
def textMarks (s : String) : List Mark := marks ((tokenize s).map (·.kind))

theorem textMarks_of_spells {s : String} {ks : List Kind} (h : Spells s ks) :
    textMarks s = marks ks := by
  rw [textMarks, kinds_tokenize h.lexes, marks_append]
  exact List.append_nil _

/-- The mark of an alias. -/
def aliasMarks : Option String → List Mark
  | some n => [.name (Text.upper n)]
  | none => []

end Token

open Token

mutual

/-- The marks of an expression. -/
def Expr.marks : Expr → List Mark
  | .constant c => textMarks c.render
  | .operation op => operationMarks op
  | .query q => queryMarks q
  | .placeholder => [.parameter]

/-- The marks of an operation: its name if it is a call, and those of its operands. -/
def Expr.operationMarks : Operation Expr → List Mark
  | ⟨operator, operands, call⟩ => (if call then [.name operator] else []) ++ listMarks operands

def Expr.listMarks : List Expr → List Mark
  | [] => []
  | e :: rest => Expr.marks e ++ listMarks rest

/-- The marks of what a select item shows. -/
def Expr.shownMarks (name : String) : Option Expr → List Mark
  | some e => Expr.marks e
  | none => textMarks name

def Expr.itemMarks : SelectItem Expr → List Mark
  | ⟨name, expression, _⟩ => shownMarks name.text expression ++ aliasMarks name.aliasName

def Expr.itemsMarks : List (SelectItem Expr) → List Mark
  | [] => []
  | item :: rest => itemMarks item ++ itemsMarks rest

def Expr.clauseMarks : Option Expr → List Mark
  | some e => Expr.marks e
  | none => []

def Expr.groupMarks : Option (GroupBy Expr) → List Mark
  | some ⟨exprs, having⟩ => listMarks exprs ++ clauseMarks having
  | none => []

def Expr.setMarks : Option (Operation Expr) → List Mark
  | some op => operationMarks op
  | none => []

def Expr.orderMarks : List (OrderBy Expr) → List Mark
  | [] => []
  | ⟨e, _⟩ :: rest => Expr.marks e ++ orderMarks rest

/-- The marks of a query, clause by clause. -/
def Expr.queryMarks : Query Expr → List Mark
  | ⟨_, items, sources, condition, group, set, order, _⟩ =>
    itemsMarks items ++ sources.flatMap (fun s => textMarks s.text ++ aliasMarks s.aliasName)
      ++ clauseMarks condition ++ groupMarks group ++ setMarks set ++ orderMarks order

end

theorem Expr.listMarks_eq (es : List Expr) : listMarks es = es.flatMap marks := by
  induction es with
  | nil => rfl
  | cons e es ih => rw [listMarks, ih, List.flatMap_cons]

@[simp] theorem Expr.marks_applied (o : String) (es : List Expr) :
    (applied o es).marks = es.flatMap marks := by
  rw [applied, Expr.marks, operationMarks, listMarks_eq]
  rfl

@[simp] theorem Expr.marks_unary (o : String) (e : Expr) : (unary o e).marks = e.marks :=
  (Expr.marks_applied o [e]).trans (by simp)

@[simp] theorem Expr.marks_binary (o : String) (a b : Expr) :
    (binary o a b).marks = a.marks ++ b.marks :=
  (Expr.marks_applied o [a, b]).trans (by simp)

/-- One more operand comes behind the others. -/
theorem Grammar.Chain.marks_join (chain : Chain) (o : String) (right : Expr) :
    (chain.join o right).expr.marks = chain.expr.marks ++ right.marks := by
  unfold join
  split
  · rename_i op hexpr _
    obtain ⟨operator, operands, call⟩ := op
    rw [hexpr]
    simp [Expr.marks, Expr.operationMarks, Expr.listMarks_eq]
  · exact Expr.marks_binary o chain.expr right

namespace Rule

variable {α : Type} {r : Registry} {ks : List Kind}

/-- What is read as a part has the marks of its tokens. -/
def marking : Rules where
  expression _ ks e := Written ks → Token.marks ks = e.marks
  query ks q := Written ks → Token.marks ks = Expr.queryMarks q

theorem Listed.marks {R : Rule α} {f : α → List Mark}
    (hR : ∀ ks a, R ks a → Written ks → Token.marks ks = f a) {as : List α} (h : Listed R ks as)
    (hks : Written ks) : Token.marks ks = as.flatMap f := by
  induction h with
  | one ha => simp [hR _ _ ha hks]
  | more _ ha ih =>
    obtain ⟨hfront, hlast⟩ := written_append.mp hks
    simp [ih hfront, hR _ _ ha (written_cons.mp hlast).2]

theorem Listed.marks_expressions {es : List Expr} {power : Nat}
    (h : Listed (marking.expression power) ks es) (hks : Written ks) :
    Token.marks ks = es.flatMap Expr.marks :=
  h.marks (fun _ _ ha => ha) hks

theorem Enclosed.marks {R : Rule α} {a : α} {ms : List Mark} (h : Enclosed R ks a)
    (hR : ∀ ks, R ks a → Written ks → Token.marks ks = ms) (hks : Written ks) :
    Token.marks ks = ms := by
  obtain ⟨h⟩ := h
  rw [List.cons_append, written_cons, written_append] at hks
  simpa using hR _ h hks.2.1

theorem Dotted.marks {t : String} (h : Dotted ks t) (hks : Written ks) :
    Token.marks ks = textMarks t :=
  (textMarks_of_spells ((spells_dotted h hks).weaken fun _ => Boundary.nameEnd)).symm

theorem Column.marks {t : String} (h : Column ks t) (hks : Written ks) :
    Token.marks ks = textMarks t :=
  (textMarks_of_spells (spells_column h hks)).symm

theorem Argument.marks {e : Expr} (h : Argument marking ks e) (hks : Written ks) :
    Token.marks ks = e.marks := by
  cases h with
  | all => exact (textMarks_of_spells spells_star).symm
  | expression h => exact h hks

theorem Arguments.marks {args : List Expr} (h : Arguments marking ks args) (hks : Written ks) :
    Token.marks ks = args.flatMap Expr.marks := by
  cases h with
  | none => rfl
  | some h => exact h.marks (fun _ _ h => h.marks) hks

theorem Primary.marks {e : Expr} (h : Primary r marking ks e) (hks : Written ks) :
    Token.marks ks = e.marks := by
  cases h with
  | number => exact (textMarks_of_spells (spells_number (written_cons.mp hks).1)).symm
  | string => exact (textMarks_of_spells ((spells_string _).weaken boundary_no_quote)).symm
  | null =>
    have hnull : Spells "NULL" [.keyword .null] := spells_words ["NULL"] (by decide)
    exact (textMarks_of_spells hnull).symm
  | placeholder => rfl
  | «exists» h =>
    rw [marks_keyword, Expr.marks_unary]
    exact h.marks (fun _ h => h) (written_cons.mp hks).2
  | subquery h => exact h.marks (fun _ h => h) hks
  | group h => exact h.marks (fun _ h hks => by simpa using h.marks_expressions hks) hks
  | list h =>
    rw [Expr.marks_applied]
    exact h.marks (fun _ h => h.marks_expressions) hks
  | column h => exact h.marks hks
  | @call name arity ks args _ h _ =>
    have hargs := h.marks (fun _ h => h.marks) (written_cons.mp hks).2
    rw [marks_name, hargs, Expr.call, Expr.marks, Expr.operationMarks, Expr.listMarks_eq]
    rfl

theorem Operand.marks {e : Expr} (h : Operand r marking ks e) (hks : Written ks) :
    Token.marks ks = e.marks := by
  cases h with
  | not h => simpa using h (written_cons.mp hks).2
  | minus h => simpa using h (written_cons.mp hks).2
  | plus h => simpa using h (written_cons.mp hks).2
  | primary h => exact h.marks hks

theorem Comparand.marks {power : Nat} {e : Expr} (h : Comparand marking power ks e)
    (hks : Written ks) : Token.marks ks = e.marks := by
  cases h with
  | quantified _ h =>
    rw [marks_keyword, Expr.marks_unary]
    exact h.marks (fun _ h => h) (written_cons.mp hks).2
  | expression h => exact h hks

theorem Candidates.marks {es : List Expr} (h : Candidates marking ks es) (hks : Written ks) :
    Token.marks ks = es.flatMap Expr.marks := by
  cases h with
  | subquery h => simpa [Expr.marks] using h hks
  | list h => exact h.marks_expressions hks

theorem Negation.marks {plain negative operator : String} (h : Negation plain negative ks operator) :
    Token.marks ks = [] := by
  cases h <;> rfl

theorem Test.marks {left e : Expr} (h : Test marking left ks e) (hks : Written ks) :
    left.marks ++ Token.marks ks = e.marks := by
  cases h with
  | between hnot hlow hhigh =>
    simp only [List.append_assoc, List.cons_append, written_append, written_cons] at hks
    simp [hnot.marks, hlow hks.2.2.1, hhigh hks.2.2.2.2]
  | like hnot h =>
    simp only [written_append, written_cons] at hks
    simp [hnot.marks, h hks.2.2]
  | membership hnot h =>
    simp only [written_append, written_cons] at hks
    simp [hnot.marks, h.marks (fun _ h => h.marks) hks.2.2]

theorem NullTest.marks {left e : Expr} (h : NullTest left ks e) :
    left.marks ++ Token.marks ks = e.marks := by
  cases h <;> simp

theorem Link.marks {power : Nat} {chain next : Grammar.Chain} (h : Link marking power chain ks next)
    (hks : Written ks) : chain.expr.marks ++ Token.marks ks = next.expr.marks := by
  cases h with
  | nullTest h => exact h.marks
  | test h => exact h.marks hks
  | comparison hp _ _ _ h =>
    rw [marks_operator hp, h.marks (written_cons.mp hks).2, Expr.marks_binary]
  | chain hp _ _ h =>
    rw [marks_operator hp, h (written_cons.mp hks).2, Grammar.Chain.marks_join]

theorem Links.marks {power : Nat} {start chain : Grammar.Chain} (h : Links marking power start ks chain)
    (hks : Written ks) : start.expr.marks ++ Token.marks ks = chain.expr.marks := by
  induction h with
  | none => simp
  | more _ hlink ih =>
    obtain ⟨hfront, hlast⟩ := written_append.mp hks
    rw [marks_append, ← List.append_assoc, ih hfront, hlink.marks hlast]

theorem Expression.marks {power : Nat} {e : Expr} (h : Expression r marking power ks e)
    (hks : Written ks) : Token.marks ks = e.marks := by
  obtain ⟨hfirst, hlinks⟩ := h
  obtain ⟨hfront, hlast⟩ := written_append.mp hks
  rw [marks_append, hfirst.marks hfront]
  exact hlinks.marks hlast

theorem Alias.marks {a : Option String} (h : Optional Alias ks a) : Token.marks ks = aliasMarks a := by
  cases h with
  | absent => rfl
  | present h => cases h <;> rfl

theorem itemMarks_aliased {item : SelectItem Expr} (h : item.name.aliasName = none)
    (a : Option String) : Expr.itemMarks (item.aliased a) =
      Expr.shownMarks item.name.text item.expression ++ aliasMarks a := by
  cases a with
  | none => rw [SelectItem.aliased, Expr.itemMarks, h]
  | some n => rw [SelectItem.aliased, Expr.itemMarks, SelectItem.withAlias, QualifiedName.withAlias]

theorem shownMarks_ofExpr (e : Expr) :
    Expr.shownMarks (SelectItem.ofExpr r e).name.text (SelectItem.ofExpr r e).expression = e.marks := by
  obtain ⟨hexpression, -⟩ | ⟨t, rfl, htext, hexpression⟩ := SelectItem.ofExpr_cases r e
  · rw [hexpression, Expr.shownMarks]
  · rw [htext]
    obtain hexpression | hexpression := hexpression
    · rw [hexpression, Expr.shownMarks]
    · rw [hexpression, Expr.shownMarks]
      rfl

theorem Item.marks {item : SelectItem Expr} (h : Item r marking ks item) (hks : Written ks) :
    Token.marks ks = Expr.itemMarks item := by
  cases h with
  | all =>
    have hstar : textMarks "*" = [] := textMarks_of_spells spells_star
    change [] = textMarks "*" ++ []
    rw [hstar, List.append_nil]
  | expression h ha =>
    rw [itemMarks_aliased (SelectItem.aliasName_ofExpr r _), shownMarks_ofExpr, marks_append,
      h (written_append.mp hks).1, Alias.marks ha]

theorem Source.marks {s : QualifiedName} (h : Source ks s) (hks : Written ks) :
    Token.marks ks = textMarks s.text ++ aliasMarks s.aliasName := by
  obtain @⟨_, t, _, a, htable, ha⟩ := h
  obtain ⟨htext, hname⟩ := QualifiedName.ofText_written t .table
  rw [marks_append, htable.marks (written_append.mp hks).1, Alias.marks ha]
  cases a with
  | none => rw [QualifiedName.aliased, htext, hname]
  | some n => rw [QualifiedName.aliased, QualifiedName.withAlias, htext]

theorem Distinct.marks {d : Bool} (h : Distinct ks d) : Token.marks ks = [] := by
  cases h <;> rfl

theorem ForUpdate.marks {locked : Bool} (h : ForUpdate ks locked) : Token.marks ks = [] := by
  cases h <;> rfl

theorem Condition.marks {word : Keyword} {o : Option Expr}
    (h : Optional (Condition marking word) ks o) (hks : Written ks) :
    Token.marks ks = Expr.clauseMarks o := by
  cases h with
  | absent => rfl
  | present h =>
    obtain ⟨h⟩ := h
    exact h (written_cons.mp hks).2

theorem Group.marks {o : Option (GroupBy Expr)} (h : Optional (Group marking) ks o)
    (hks : Written ks) : Token.marks ks = Expr.groupMarks o := by
  cases h with
  | absent => rfl
  | present h =>
    obtain ⟨hlist, hhaving⟩ := h
    simp only [List.cons_append, written_cons, written_append] at hks
    simp [Expr.groupMarks, Expr.listMarks_eq, hlist.marks_expressions hks.2.2.1,
      Condition.marks hhaving hks.2.2.2]

theorem SetOperator.marks {o : String} (h : SetOperator ks o) : Token.marks ks = [] := by
  cases h <;> rfl

theorem SetOperation.marks {o : Option (Operation Expr)} (h : Optional (SetOperation marking) ks o)
    (hks : Written ks) : Token.marks ks = Expr.setMarks o := by
  cases h with
  | absent => rfl
  | present h =>
    cases h with
    | enclosed ho h =>
      simp [Expr.setMarks, Expr.operationMarks, Expr.listMarks, Expr.marks, ho.marks,
        h.marks (fun _ h => h) (written_append.mp hks).2]
    | bare ho h =>
      simp [Expr.setMarks, Expr.operationMarks, Expr.listMarks, Expr.marks, ho.marks,
        h (written_append.mp hks).2]

theorem Direction.marks {ascending : Bool} (h : Direction ks ascending) : Token.marks ks = [] := by
  cases h <;> rfl

theorem Entry.marks {entry : OrderBy Expr} (h : Entry marking ks entry) (hks : Written ks) :
    Token.marks ks = entry.expr.marks := by
  obtain ⟨h, hdirection⟩ := h
  simp [h (written_append.mp hks).1, hdirection.marks]

theorem Order.marks {entries : List (OrderBy Expr)} (h : Order marking ks entries)
    (hks : Written ks) : Token.marks ks = Expr.orderMarks entries := by
  have heq (entries : List (OrderBy Expr)) :
      Expr.orderMarks entries = entries.flatMap (·.expr.marks) := by
    induction entries with
    | nil => rfl
    | cons entry rest ih => rw [Expr.orderMarks, ih, List.flatMap_cons]
  cases h with
  | none => rfl
  | some h =>
    simp only [written_cons] at hks
    simpa [heq] using h.marks (fun _ _ h => h.marks) hks.2.2

theorem Select.marks {q : Query Expr} (h : Select r marking ks q) (hks : Written ks) :
    Token.marks ks = Expr.queryMarks q := by
  have heq (items : List (SelectItem Expr)) :
      Expr.itemsMarks items = items.flatMap Expr.itemMarks := by
    induction items with
    | nil => rfl
    | cons item rest ih => rw [Expr.itemsMarks, ih, List.flatMap_cons]
  obtain ⟨hdistinct, hitems, hsources, hcondition, hgroup, hset, horder, hlocked⟩ := h
  simp only [List.cons_append, List.append_assoc, written_cons, written_append] at hks
  obtain ⟨-, -, wi, -, ws, wc, wg, wset, wo, -⟩ := hks
  simp [Expr.queryMarks, heq, hdistinct.marks, hitems.marks (fun _ _ h => h.marks) wi,
    hsources.marks (fun _ _ h => h.marks) ws, Condition.marks hcondition wc, Group.marks hgroup wg,
    SetOperation.marks hset wset, horder.marks wo, hlocked.marks]

theorem readers_marking (r : Registry) : (Grammar.readers r).Follow marking :=
  Grammar.readers_follow (fun _ _ _ h hks => h.marks hks) fun _ _ h hks => h.marks hks

end Rule

/-! ## Statements -/

def InsertSource.marks : InsertSource → List Mark
  | .list es => es.flatMap Expr.marks
  | .query q => Expr.queryMarks q

def Insert.marks (i : Insert) : List Mark :=
  textMarks i.table ++ (i.columns.getD []).flatMap textMarks ++ i.source.marks

def Update.marks (u : Update) : List Mark :=
  textMarks u.table ++ aliasMarks u.aliasName
    ++ u.assignments.flatMap (fun a => textMarks a.1 ++ a.2.marks) ++ Expr.clauseMarks u.condition

def Delete.marks (d : Delete) : List Mark :=
  textMarks d.table ++ Expr.clauseMarks d.condition

def LockMode.marks : LockMode → List Mark
  | .rowShare => [.name "ROW", .name "SHARE"]
  | .rowExclusive => [.name "ROW", .name "EXCLUSIVE"]
  | .shareUpdate => [.name "SHARE"]
  | .share => [.name "SHARE"]
  | .shareRowExclusive => [.name "SHARE", .name "ROW", .name "EXCLUSIVE"]
  | .exclusive => [.name "EXCLUSIVE"]

def Lock.marks (l : Lock) : List Mark :=
  [.name "LOCK", .name "TABLE"] ++ l.tables.flatMap textMarks ++ l.mode.marks ++ [.name "MODE"]
    ++ (if l.nowait then [.name "NOWAIT"] else [])

def commentMarks : Option String → List Mark
  | some comment => [.name "COMMENT", .string comment]
  | none => []

/-- The marks of a COMMIT, ROLLBACK or SET TRANSACTION without the word WORK. -/
def Transaction.marks (t : Transaction) : List Mark :=
  if t.statement = setWords then
    [.name "TRANSACTION", .name "READ", .name (if t.readOnly then "ONLY" else "WRITE")]
  else .name t.statement :: commentMarks t.comment

/-- The marks of a statement, clause by clause. -/
def Statement.marks : Statement → List Mark
  | .query q => Expr.queryMarks q
  | .insert i => i.marks
  | .update u => u.marks
  | .delete d => d.marks
  | .lock l => l.marks
  | .transaction t => t.marks

/-- Whether a mark counts in a statement: all but the word WORK of a COMMIT or ROLLBACK. -/
def Statement.counts : Statement → Mark → Bool
  | .transaction _, m => m ≠ .name "WORK"
  | _, _ => true

namespace Rule

variable {r : Registry} {ks : List Kind}

theorem Listed.marks_dotted {ts : List String} (h : Listed Dotted ks ts) (hks : Written ks) :
    Token.marks ks = ts.flatMap textMarks :=
  h.marks (fun _ _ h => h.marks) hks

theorem Rows.marks {rows : InsertSource} (h : Rows marking ks rows) (hks : Written ks) :
    Token.marks ks = rows.marks := by
  cases h with
  | values h => exact h.marks (fun _ h => h.marks_expressions) (written_cons.mp hks).2
  | query h => exact h hks
  | enclosed h => exact h.marks (fun _ h => h) hks

theorem Columns.marks {columns : Option (List String)}
    (h : Optional (Enclosed (Listed Dotted)) ks columns) (hks : Written ks) :
    Token.marks ks = (columns.getD []).flatMap textMarks := by
  cases h with
  | absent => rfl
  | present h => exact h.marks (fun _ h => h.marks_dotted) hks

theorem Insertion.marks {i : Insert} (h : Insertion marking ks i) (hks : Written ks) :
    Token.marks ks = i.marks := by
  obtain ⟨htable, hcolumns, hrows⟩ := h
  simp only [List.cons_append, List.append_assoc, written_cons, written_append] at hks
  obtain ⟨-, -, wtable, wcolumns, wrows⟩ := hks
  simp [Insert.marks, htable.marks wtable, Columns.marks hcolumns wcolumns, hrows.marks wrows]

theorem Assignment.marks {a : String × Expr} (h : Assignment marking ks a) (hks : Written ks) :
    Token.marks ks = textMarks a.1 ++ a.2.marks := by
  obtain ⟨hcolumn, h⟩ := h
  rw [written_append, written_cons] at hks
  simp [hcolumn.marks hks.1, h hks.2.2]

theorem Name.marks {a : Option String} (h : Optional Name ks a) : Token.marks ks = aliasMarks a := by
  cases h with
  | absent => rfl
  | present h =>
    cases h
    rfl

theorem Change.marks {u : Update} (h : Change marking ks u) (hks : Written ks) :
    Token.marks ks = u.marks := by
  obtain ⟨htable, ha, hset, hwhere⟩ := h
  simp only [List.cons_append, List.append_assoc, written_cons, written_append] at hks
  obtain ⟨-, wtable, -, -, wset, wwhere⟩ := hks
  simp [Update.marks, htable.marks wtable, Name.marks ha, hset.marks (fun _ _ h => h.marks) wset,
    Condition.marks hwhere wwhere]

theorem OptionalFrom.marks (h : OptionalFrom ks) : Token.marks ks = [] := by
  cases h <;> rfl

theorem Deletion.marks {d : Delete} (h : Deletion marking ks d) (hks : Written ks) :
    Token.marks ks = d.marks := by
  obtain ⟨hfrom, htable, hwhere⟩ := h
  simp only [List.cons_append, List.append_assoc, written_cons, written_append] at hks
  simp [Delete.marks, hfrom.marks, htable.marks hks.2.2.1, Condition.marks hwhere hks.2.2.2]

/-- A name that spells a word in capitals has the word for its mark. -/
theorem Word.marks {w : String} (h : Word w ks) (hw : Text.upper w = w := by decide) :
    Token.marks ks = [.name w] := by
  obtain ⟨h⟩ := h
  rw [marks_name, Text.sameWord_iff.mp h, hw, marks_nil]

theorem Flag.marks {w : String} {b : Bool} (h : Flag w ks b) (hw : Text.upper w = w := by decide) :
    Token.marks ks = if b then [.name w] else [] := by
  cases h with
  | absent => rfl
  | present h => exact h.marks hw

theorem Mode.marks {mode : LockMode} (h : Mode ks mode) : Token.marks ks = mode.marks := by
  cases h with
  | rowShare h h' => simp [h.marks, h'.marks, LockMode.marks]
  | rowExclusive h h' => simp [h.marks, h'.marks, LockMode.marks]
  | shareUpdate h => simp [h.marks, LockMode.marks]
  | shareRowExclusive h h' h'' => simp [h.marks, h'.marks, h''.marks, LockMode.marks]
  | share h => simp [h.marks, LockMode.marks]
  | exclusive h => simp [h.marks, LockMode.marks]

theorem Locking.marks {l : Lock} (h : Locking ks l) (hks : Written ks) :
    Token.marks ks = l.marks := by
  obtain ⟨hlock, htable, htables, hmode, hword, hnowait⟩ := h
  simp only [List.append_assoc, written_append] at hks
  simp [Lock.marks, hlock.marks, htable.marks, htables.marks_dotted hks.2.2.1, hmode.marks,
    hword.marks, hnowait.marks]

theorem Comment.marks {comment : Option String} (h : Optional Comment ks comment) :
    Token.marks ks = commentMarks comment := by
  cases h with
  | absent => rfl
  | present h =>
    obtain ⟨h⟩ := h
    simp [h.marks, commentMarks]

/-- A word with an optional WORK and a comment: all but WORK counts. -/
theorem marks_ending {t : Transaction} {w : String} {b : Bool} {comment : Option String}
    {ks' ks'' : List Kind} (hword : Word w ks) (hwork : Flag "WORK" ks' b)
    (hcomment : Optional Comment ks'' comment) (hw : Text.upper w = w := by decide)
    (hne : w ≠ "WORK" := by decide) :
    (Token.marks (ks ++ ks' ++ ks'')).filter (Statement.transaction t).counts =
      .name w :: commentMarks comment := by
  rw [marks_append, marks_append, hword.marks hw, hwork.marks, Comment.marks hcomment]
  cases b <;> cases comment <;> simp [Statement.counts, commentMarks, hne]

theorem Ending.marks {t : Transaction} (h : Ending ks t) :
    (Token.marks ks).filter (Statement.transaction t).counts = t.marks := by
  cases h with
  | @commit _ _ _ _ comment hword hwork hcomment =>
    have hcommit : Transaction.commit.statement = "COMMIT" := by decide
    have hset : Transaction.commit.statement ≠ Transaction.setWords := by decide
    rw [marks_ending hword hwork hcomment, Transaction.marks, if_neg hset, hcommit]
  | @rollback _ _ _ _ comment hword hwork hcomment =>
    have hrollback : Transaction.rollback.statement = "ROLLBACK" := by decide
    have hset : Transaction.rollback.statement ≠ Transaction.setWords := by decide
    rw [marks_ending hword hwork hcomment, Transaction.marks, if_neg hset, hrollback]

theorem Access.marks {t : Transaction} (h : Access ks t) :
    (Token.marks ks).filter (Statement.transaction t).counts = t.marks := by
  cases h with
  | readOnly h h' h'' =>
    rw [List.cons_append, List.cons_append, marks_keyword, marks_append, marks_append, h.marks,
      h'.marks, h''.marks]
    rfl
  | readWrite h h' h'' =>
    rw [List.cons_append, List.cons_append, marks_keyword, marks_append, marks_append, h.marks,
      h'.marks, h''.marks]
    rfl

/-- The marks of any statement but an UPDATE, where a column that is assigned twice loses a value. -/
theorem Sentence.marks {s : Statement} (h : Sentence marking ks s) (hks : Written ks)
    (hs : ∀ u, s ≠ .update u) : (Token.marks ks).filter s.counts = s.marks := by
  cases h with
  | query h => simp [Statement.counts, Statement.marks, h hks]
  | insert h => simp [Statement.counts, Statement.marks, h.marks hks]
  | update h => exact absurd rfl (hs _)
  | delete h => simp [Statement.counts, Statement.marks, h.marks hks]
  | lock h => simp [Statement.counts, Statement.marks, h.marks hks]
  | ending h => exact h.marks
  | access h => exact h.marks

theorem Ended.marks (h : Ended ks) : Token.marks ks = [] := by
  cases h <;> rfl

theorem marks_semicolons (h : ∀ k ∈ ks, k = .symbol .semicolon) : Token.marks ks = [] :=
  List.filterMap_eq_nil_iff.mpr fun k hk => h k hk ▸ rfl

end Rule

end SqlFront
