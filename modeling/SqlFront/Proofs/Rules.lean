import SqlFront.Parse.Statement

/-! # The grammar as rules

The rules of the grammar as relations between rows of token kinds and what they stand for. A rule that
has an expression or query as a part is given the relations for its parts, so nothing here is
recursive; `readers_takes` closes the circle. A rule says what a reading has taken in when it
succeeds, not when it stops: that also depends on the token that follows.
-/

namespace SqlFront

/-- The name with an alias, if there is one. -/
def QualifiedName.aliased (n : QualifiedName) : Option String → QualifiedName
  | some aliasName => n.withAlias aliasName
  | none => n

/-- The item with an alias, if there is one. -/
def SelectItem.aliased (item : SelectItem Expr) : Option String → SelectItem Expr
  | some aliasName => item.withAlias aliasName
  | none => item

/-- What a row of token kinds may stand for. -/
abbrev Rule (α : Type) := List Token.Kind → α → Prop

/-- The rules for the parts of other rules: expressions of at least a given power, and queries. -/
structure Rules where
  expression : Nat → Rule Expr
  query : Rule (Query Expr)

namespace Rule

variable {α σ : Type}

/-- One or more of the same with commas between them. -/
inductive Listed (R : Rule α) : Rule (List α)
  | one {ks a} : R ks a → Listed R ks [a]
  | more {ks as ks' a} : Listed R ks as → R ks' a →
      Listed R (ks ++ .symbol .comma :: ks') (as ++ [a])

theorem Listed.ne_nil {R : Rule α} {ks : List Token.Kind} {as : List α} (h : Listed R ks as) :
    as ≠ [] := by
  cases h <;> simp

/-- A list that is not of one has at least two. -/
theorem Listed.two_le {R : Rule α} {ks : List Token.Kind} {as : List α} (h : Listed R ks as)
    (hone : ∀ a, as = [a] → False) : 2 ≤ as.length := by
  match as with
  | [] => exact absurd rfl h.ne_nil
  | [a] => exact (hone a rfl).elim
  | _ :: _ :: _ => simp

/-- The same between parentheses. -/
inductive Enclosed (R : Rule α) : Rule α
  | mk {ks a} : R ks a → Enclosed R (.symbol .leftParen :: ks ++ [.symbol .rightParen]) a

/-- Names with dots between them. -/
inductive Dotted : Rule String
  | one {n} : Dotted [.name n] n
  | more {ks t n} : Dotted ks t → Dotted (ks ++ [.symbol .dot, .name n]) (t ++ "." ++ n)

/-- The name of a column: names with dots between them, the last of which may be a `*`. -/
inductive Column : Rule String
  | dotted {ks t} : Dotted ks t → Column ks t
  | all {ks t} : Dotted ks t → Column (ks ++ [.symbol .dot, .symbol .star]) (t ++ ".*")

/-- An optional part. -/
inductive Optional (R : Rule α) : Rule (Option α)
  | absent : Optional R [] none
  | present {ks a} : R ks a → Optional R ks (some a)

variable (registry : Registry) (rules : Rules)

/-- An argument of a call. -/
inductive Argument : Rule Expr
  | all : Argument [.symbol .star] (.column "*")
  | expression {ks e} : rules.expression 0 ks e → Argument ks e

/-- The arguments of a call. -/
inductive Arguments : Rule (List Expr)
  | none : Arguments [] []
  | some {ks args} : Listed (Argument rules) ks args → Arguments ks args

/-- An expression that no operator splits. -/
inductive Primary : Rule Expr
  | number {t} : Primary [.number t] (.number t)
  | string {v} : Primary [.string v] (.string v)
  | null : Primary [.keyword .null] .null
  | placeholder : Primary [.symbol .question] .placeholder
  | exists {ks q} : Enclosed rules.query ks q →
      Primary (.keyword .exists :: ks) (.unary Operator.exist (.query q))
  | subquery {ks q} : Enclosed rules.query ks q → Primary ks (.query q)
  | group {ks e} : Enclosed (Listed (rules.expression 0)) ks [e] → Primary ks e
  | list {ks es} : Enclosed (Listed (rules.expression 0)) ks es → 2 ≤ es.length →
      Primary ks (.applied Operator.list es)
  | column {ks t} : Column ks t → Primary ks (.column t)
  | call {name arity ks args} : registry.arity? name = some arity →
      Enclosed (Arguments rules) ks args → arity.accepts args.length = true →
      Primary (.name name :: ks) (.call name args)

/-- An operand with the NOT or sign before it. -/
inductive Operand : Rule Expr
  | not {ks e} : rules.expression Power.notOperand ks e →
      Operand (.keyword .not :: ks) (.unary Operator.not e)
  | minus {ks e} : rules.expression Power.signOperand ks e →
      Operand (.symbol .minus :: ks) (.unary Operator.minus e)
  | plus {ks e} : rules.expression Power.signOperand ks e → Operand (.symbol .plus :: ks) e
  | primary {ks e} : Primary registry rules ks e → Operand ks e

/-- The reserved word and the operator of a quantifier. -/
inductive Quantifier : Keyword → String → Prop
  | any : Quantifier .any Operator.any
  | all : Quantifier .all Operator.all
  | some : Quantifier .some Operator.some

theorem Quantifier.mem {word : Keyword} {operator : String} (h : Quantifier word operator) :
    operator ∈ Operator.quantifiers := by
  cases h <;> decide

/-- The right side of a comparison. -/
inductive Comparand (power : Nat) : Rule Expr
  | quantified {word operator ks q} : Quantifier word operator → Enclosed rules.query ks q →
      Comparand power (.keyword word :: ks) (.unary operator (.query q))
  | expression {ks e} : rules.expression power ks e → Comparand power ks e

/-- The NOT that may stand before the word of a test, and the operator that it chooses. -/
inductive Negation (plain negative : String) : Rule String
  | plain : Negation plain negative [] plain
  | negative : Negation plain negative [.keyword .not] negative

theorem Negation.mem {plain negative : String} {ks : List Token.Kind} {operator : String}
    (h : Negation plain negative ks operator) : operator ∈ [plain, negative] := by
  cases h <;> simp

/-- The candidates behind IN. -/
inductive Candidates : Rule (List Expr)
  | subquery {ks q} : rules.query ks q → Candidates ks [.query q]
  | list {ks es} : Listed (rules.expression 0) ks es → Candidates ks es

/-- A test with BETWEEN, LIKE or IN behind its first operand. -/
inductive Test (left : Expr) : Rule Expr
  | between {not operator ks low ks' high} :
      Negation Operator.between Operator.notBetween not operator →
      rules.expression Power.testOperand ks low → rules.expression Power.testOperand ks' high →
      Test left (not ++ .keyword .between :: ks ++ .keyword .and :: ks')
        (.applied operator [left, low, high])
  | like {not operator ks pattern} : Negation Operator.like Operator.notLike not operator →
      rules.expression Power.testOperand ks pattern →
      Test left (not ++ .keyword .like :: ks) (.binary operator left pattern)
  | membership {not operator ks es} : Negation Operator.isIn Operator.notIn not operator →
      Enclosed (Candidates rules) ks es →
      Test left (not ++ .keyword .in :: ks) (.applied operator (left :: es))

/-- A test for NULL behind its operand. -/
inductive NullTest (left : Expr) : Rule Expr
  | plain : NullTest left [.keyword .is, .keyword .null] (.unary Operator.isNull left)
  | negative : NullTest left [.keyword .is, .keyword .not, .keyword .null]
      (.unary Operator.isNotNull left)

/-- One operator with its right side, joined to what stands before it. -/
inductive Link (power : Nat) (chain : Grammar.Chain) : Rule Grammar.Chain
  | nullTest {ks e} : NullTest chain.expr ks e → Link power chain ks { chain with expr := e, run := none }
  | test {ks e} : Test rules chain.expr ks e → Link power chain ks { chain with expr := e, run := none }
  | comparison {k p operator ks e} : Power.of? k = some p → power ≤ p.left →
      p.continuation = .comparison operator → chain.compared = false →
      Comparand rules p.right ks e →
      Link power chain (k :: ks) ⟨.binary operator chain.expr e, none, true⟩
  | chain {k p operator ks e} : Power.of? k = some p → power ≤ p.left →
      p.continuation = .chain operator → rules.expression p.right ks e →
      Link power chain (k :: ks) (chain.join operator e)

theorem Link.ne_nil {power : Nat} {chain next : Grammar.Chain} {ks : List Token.Kind}
    (h : Link rules power chain ks next) : ks ≠ [] := by
  cases h with
  | nullTest h => cases h <;> simp
  | test h => cases h <;> simp
  | comparison => simp
  | chain => simp

/-- Operators with their right sides, one after the other. -/
inductive Links (power : Nat) (start : Grammar.Chain) : Rule Grammar.Chain
  | none : Links power start [] start
  | more {ks chain ks' next} : Links power start ks chain → Link rules power chain ks' next →
      Links power start (ks ++ ks') next

/-- An expression of operators with at least the given power. -/
inductive Expression (power : Nat) : Rule Expr
  | mk {ks e ks' chain} : Operand registry rules ks e → Links rules power ⟨e, none, false⟩ ks' chain →
      Expression power (ks ++ ks') chain.expr

/-- An alias, with or without AS. -/
inductive Alias : Rule String
  | as {n} : Alias [.keyword .as, .name n] n
  | bare {n} : Alias [.name n] n

/-- An item of a select list. -/
inductive Item : Rule (SelectItem Expr)
  | all : Item [.symbol .star] SelectItem.wildcard
  | expression {ks e ks' a} : rules.expression 0 ks e → Optional Alias ks' a →
      Item (ks ++ ks') ((SelectItem.ofExpr registry e).aliased a)

/-- A table of a FROM clause. -/
inductive Source : Rule QualifiedName
  | mk {ks t ks' a} : Dotted ks t → Optional Alias ks' a →
      Source (ks ++ ks') ((QualifiedName.ofText t .table).aliased a)

/-- A condition behind a reserved word. -/
inductive Condition (word : Keyword) : Rule Expr
  | mk {ks e} : rules.expression 0 ks e → Condition word (.keyword word :: ks) e

/-- A GROUP BY with an optional HAVING. -/
inductive Group : Rule (GroupBy Expr)
  | mk {ks es ks' having} : Listed (rules.expression 0) ks es →
      Optional (Condition rules .having) ks' having →
      Group (.keyword .group :: .keyword .by :: ks ++ ks') ⟨es, having⟩

/-- The words of a set operator. -/
inductive SetOperator : Rule String
  | union : SetOperator [.keyword .union] Operator.union
  | unionAll : SetOperator [.keyword .union, .keyword .all] Operator.unionAll
  | intersect : SetOperator [.keyword .intersect] Operator.intersect
  | minus : SetOperator [.keyword .minus] Operator.minusSet
  | except : SetOperator [.keyword .except] Operator.except

/-- A set operator with the query that it joins. -/
inductive SetOperation : Rule (Operation Expr)
  | enclosed {ks operator ks' q} : SetOperator ks operator → Enclosed rules.query ks' q →
      SetOperation (ks ++ ks') ⟨operator, [.query q], false⟩
  | bare {ks operator ks' q} : SetOperator ks operator → rules.query ks' q →
      SetOperation (ks ++ ks') ⟨operator, [.query q], false⟩

/-- The word for a direction, which may be left out. -/
inductive Direction : Rule Bool
  | ascending : Direction [] true
  | asc : Direction [.keyword .asc] true
  | desc : Direction [.keyword .desc] false

/-- An entry of an ORDER BY. -/
inductive Entry : Rule (OrderBy Expr)
  | mk {ks e ks' ascending} : rules.expression 0 ks e → Direction ks' ascending →
      Entry (ks ++ ks') ⟨e, ascending⟩

/-- An optional ORDER BY clause. -/
inductive Order : Rule (List (OrderBy Expr))
  | none : Order [] []
  | some {ks entries} : Listed (Entry rules) ks entries →
      Order (.keyword .order :: .keyword .by :: ks) entries

/-- The word DISTINCT, or ALL in its place, which says nothing. -/
inductive Distinct : Rule Bool
  | distinct : Distinct [.keyword .distinct] true
  | all : Distinct [.keyword .all] false
  | none : Distinct [] false

/-- An optional FOR UPDATE. -/
inductive ForUpdate : Rule Bool
  | none : ForUpdate [] false
  | some : ForUpdate [.keyword .for, .keyword .update] true

/-- A query. -/
inductive Select : Rule (Query Expr)
  | mk {distinct d items is sources ss condition c group g set o order os lock l} :
      Distinct distinct d → Listed (Item registry rules) items is → Listed Source sources ss →
      Optional (Condition rules .where) condition c → Optional (Group rules) group g →
      Optional (SetOperation rules) set o → Order rules order os → ForUpdate lock l →
      Select (.keyword .select :: distinct ++ items ++ .keyword .from :: sources ++ condition
        ++ group ++ set ++ order ++ lock) ⟨d, is, ss, c, g, o, os, l⟩

/-- The rows of an INSERT. -/
inductive Rows : Rule InsertSource
  | values {ks es} : Enclosed (Listed (rules.expression 0)) ks es →
      Rows (.keyword .values :: ks) (.list es)
  | query {ks q} : rules.query ks q → Rows ks (.query q)
  | enclosed {ks q} : Enclosed rules.query ks q → Rows ks (.query q)

/-- An INSERT statement. -/
inductive Insertion : Rule Insert
  | mk {ks t ks' columns rows source} : Dotted ks t → Optional (Enclosed (Listed Dotted)) ks' columns →
      Rows rules rows source →
      Insertion (.keyword .insert :: .keyword .into :: ks ++ ks' ++ rows) ⟨t, columns, source⟩

/-- An assignment of an UPDATE. -/
inductive Assignment : Rule (String × Expr)
  | mk {ks column ks' e} : Dotted ks column → rules.expression 0 ks' e →
      Assignment (ks ++ .symbol .equal :: ks') (column, e)

/-- A single name. -/
inductive Name : Rule String
  | mk {n} : Name [.name n] n

/-- An UPDATE statement with its assignments as they are written. -/
inductive Change : Rule Update
  | mk {ks t ks' a set assignments where' condition} : Dotted ks t → Optional Name ks' a →
      Listed (Assignment rules) set assignments →
      Optional (Condition rules .where) where' condition →
      Change (.keyword .update :: ks ++ ks' ++ .keyword .set :: set ++ where')
        ⟨t, a, assignments, condition⟩

/-- The word FROM, which may be left out. -/
inductive OptionalFrom : List Token.Kind → Prop
  | absent : OptionalFrom []
  | present : OptionalFrom [.keyword .from]

/-- A DELETE statement. -/
inductive Deletion : Rule Delete
  | mk {from' ks t where' condition} : OptionalFrom from' → Dotted ks t →
      Optional (Condition rules .where) where' condition →
      Deletion (.keyword .delete :: from' ++ ks ++ where') ⟨t, condition⟩

/-- A name that spells a given word. -/
inductive Word (word : String) : List Token.Kind → Prop
  | mk {n} : Text.sameWord n word = true → Word word [.name n]

/-- The mode of a LOCK TABLE. -/
inductive Mode : Rule LockMode
  | rowShare {a b} : Word "ROW" a → Word "SHARE" b → Mode (a ++ b) .rowShare
  | rowExclusive {a b} : Word "ROW" a → Word "EXCLUSIVE" b → Mode (a ++ b) .rowExclusive
  | shareUpdate {a} : Word "SHARE" a → Mode (a ++ [.keyword .update]) .shareUpdate
  | shareRowExclusive {a b c} : Word "SHARE" a → Word "ROW" b → Word "EXCLUSIVE" c →
      Mode (a ++ b ++ c) .shareRowExclusive
  | share {a} : Word "SHARE" a → Mode a .share
  | exclusive {a} : Word "EXCLUSIVE" a → Mode a .exclusive

/-- A word that may be missing. -/
inductive Flag (word : String) : Rule Bool
  | absent : Flag word [] false
  | present {ks} : Word word ks → Flag word ks true

/-- A LOCK TABLE statement. -/
inductive Locking : Rule Lock
  | mk {a b ks tables m mode c ks' nowait} : Word "LOCK" a → Word "TABLE" b →
      Listed Dotted ks tables → Mode m mode → Word "MODE" c → Flag "NOWAIT" ks' nowait →
      Locking (a ++ b ++ ks ++ .keyword .in :: m ++ c ++ ks') ⟨tables, mode, nowait⟩

/-- A COMMENT with its text. -/
inductive Comment : Rule String
  | mk {ks text} : Word "COMMENT" ks → Comment (ks ++ [.string text]) text

/-- A COMMIT or ROLLBACK. -/
inductive Ending : Rule Transaction
  | commit {a ks w ks' comment} : Word "COMMIT" a → Flag "WORK" ks w → Optional Comment ks' comment →
      Ending (a ++ ks ++ ks') { Transaction.commit with comment }
  | rollback {a ks w ks' comment} : Word "ROLLBACK" a → Flag "WORK" ks w →
      Optional Comment ks' comment → Ending (a ++ ks ++ ks') { Transaction.rollback with comment }

/-- A SET TRANSACTION statement. -/
inductive Access : Rule Transaction
  | readOnly {a b c} : Word "TRANSACTION" a → Word "READ" b → Word "ONLY" c →
      Access (.keyword .set :: a ++ b ++ c) (Transaction.set true)
  | readWrite {a b c} : Word "TRANSACTION" a → Word "READ" b → Word "WRITE" c →
      Access (.keyword .set :: a ++ b ++ c) (Transaction.set false)

/-- A statement. -/
inductive Sentence : Rule Statement
  | query {ks q} : rules.query ks q → Sentence ks (.query q)
  | insert {ks i} : Insertion rules ks i → Sentence ks (.insert i)
  | update {ks u} : Change rules ks u →
      Sentence ks (.update { u with assignments := Update.merge u.assignments })
  | delete {ks d} : Deletion rules ks d → Sentence ks (.delete d)
  | lock {ks l} : Locking ks l → Sentence ks (.lock l)
  | ending {ks t} : Ending ks t → Sentence ks (.transaction t)
  | access {ks t} : Access ks t → Sentence ks (.transaction t)

/-- A semicolon, or nothing at the end. -/
inductive Ended : List Token.Kind → Prop
  | atEnd : Ended []
  | semicolon : Ended [.symbol .semicolon]

/-- A statement with the semicolons before it and the one behind it. -/
inductive Next : Rule Statement
  | mk {before ks after s} : (∀ k ∈ before, k = .symbol .semicolon) → Sentence rules ks s →
      Ended after → Next (before ++ ks ++ after) s

/-- The word WHERE, which may be left out. -/
inductive OptionalWhere : List Token.Kind → Prop
  | absent : OptionalWhere []
  | present : OptionalWhere [.keyword .where]

/-- An expression by itself. -/
inductive Alone : Rule Expr
  | mk {before ks after e} : OptionalWhere before → rules.expression 0 ks e → Ended after →
      Alone (before ++ ks ++ after) e

end Rule

end SqlFront
