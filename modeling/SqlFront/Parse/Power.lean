import SqlFront.Operator
import SqlFront.Token.Basic

/-!
# Binding powers

From the loosest to the tightest: OR, AND, NOT, comparisons, tests with BETWEEN, LIKE and IN, tests
with IS, sums, products, signs, powers. An operand read with some power takes in every operator
whose left power is at least as great.
-/

namespace SqlFront

/-- What a token does to the operand before it. -/
inductive Continuation where
  /-- A test for NULL. -/
  | nullTest
  /-- A test with BETWEEN, LIKE or IN, negated or not. -/
  | test
  /-- A comparison, which cannot follow another one. -/
  | comparison (operator : String)
  /-- An operator that may join a row of operands. -/
  | chain (operator : String)
  deriving DecidableEq, Repr

/-- The power with which an operator takes the operand before it, the power with which it reads the
    operand behind it, and what it does. Sums and products group from the left, so the right power
    is greater. -/
structure Power where
  left : Nat
  right : Nat
  continuation : Continuation
  deriving DecidableEq, Repr

namespace Power

/-- The power with which NOT reads its operand: comparisons belong to it, AND and OR do not. -/
def notOperand : Nat := 5

/-- The power with which BETWEEN, LIKE and IN read their operands. -/
def testOperand : Nat := 10

/-- The power with which a sign reads its operand. -/
def signOperand : Nat := 17

/-- The comparison that a sign stands for. -/
def comparison? : Symbol → Option String
  | .equal => some Operator.equal
  | .notEqual => some Operator.notEqual
  | .lessGreater => some Operator.lessGreater
  | .hash => some Operator.hash
  | .less => some Operator.less
  | .lessEqual => some Operator.lessEqual
  | .greater => some Operator.greater
  | .greaterEqual => some Operator.greaterEqual
  | _ => none

/-- The power of a token that can follow an operand, if it is one. -/
def of? : Token.Kind → Option Power
  | .keyword .or => some ⟨1, 2, .chain Operator.or⟩
  | .keyword .and => some ⟨3, 4, .chain Operator.and⟩
  | .keyword .not | .keyword .between | .keyword .like | .keyword .in => some ⟨9, testOperand, .test⟩
  | .keyword .is => some ⟨11, 12, .nullTest⟩
  | .symbol .plus => some ⟨13, 14, .chain Operator.plus⟩
  | .symbol .minus => some ⟨13, 14, .chain Operator.minus⟩
  | .symbol .concat => some ⟨13, 14, .chain Operator.concat⟩
  | .symbol .star => some ⟨15, 16, .chain Operator.times⟩
  | .symbol .slash => some ⟨15, 16, .chain Operator.divide⟩
  | .symbol .power => some ⟨17, 18, .chain Operator.power⟩
  | .symbol sign => (comparison? sign).map fun operator => ⟨7, 8, .comparison operator⟩
  | _ => none

/-- Every operator reads what follows it with a greater power than it takes what precedes it. -/
theorem left_lt_right {k : Token.Kind} {p : Power} (h : of? k = some p) : p.left < p.right := by
  unfold of? at h
  split at h <;> first
    | (injection h with h; subst h; decide)
    | (rw [Option.map_eq_some_iff] at h; obtain ⟨_, _, rfl⟩ := h; simp)
    | simp at h

/-- A test for NULL starts with IS. -/
theorem of?_nullTest {k : Token.Kind} {p : Power} (h : of? k = some p)
    (hp : p.continuation = .nullTest) : k = .keyword .is := by
  unfold of? at h
  split at h <;> first
    | rfl
    | (injection h with h; subst h; cases hp)
    | (rw [Option.map_eq_some_iff] at h; obtain ⟨_, _, rfl⟩ := h; cases hp)
    | simp at h

end Power

end SqlFront
