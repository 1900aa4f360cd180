import SqlFront.Proofs.Followers
import SqlFront.Proofs.Positions
import SqlFront.Proofs.Precedence

/-! # How far an expression reaches

An expression goes on until a token is no operator of the power with which it is read. Main statement:
it takes in at least one token, nothing behind the token where it stops matters to it, and its loop
stops for no other reason, because every operator that the loop comes to has a text.
-/

namespace SqlFront

/-! ## The same tokens in another input -/

namespace Cursor

/-- The token at a place comes first of those ahead and the end. -/
theorem ahead_current (c : Cursor) :
    ∃ rest, c.ahead ++ [⟨.eof, c.finish⟩] = c.current :: rest := by
  obtain ⟨behind, ahead, finish⟩ := c
  cases ahead with
  | nil => exact ⟨[], rfl⟩
  | cons token ahead => exact ⟨ahead ++ [⟨.eof, finish⟩], rfl⟩

/-- All tokens that have another one behind them can be moved over. -/
theorem passes_before {c : Cursor} {t : Token} {ts rest : List Token}
    (h : c.ahead ++ [⟨.eof, c.finish⟩] = ts ++ t :: rest) : ∃ d, c.Passes ts d ∧ d.current = t := by
  obtain ⟨more, hahead, hmore⟩ : ∃ more, c.ahead = ts ++ more ∧
      more ++ [⟨.eof, c.finish⟩] = t :: rest := by
    obtain ⟨more, rfl, hlast⟩ | ⟨more, hahead, hmore⟩ := List.append_eq_append_iff.mp h
    · obtain ⟨rfl, hlast⟩ : more = [] ∧ _ := by simpa [List.append_eq_cons_iff] using hlast.symm
      exact ⟨[], by simp, by simp [hlast]⟩
    · exact ⟨more, hahead, hmore.symm⟩
  refine ⟨⟨ts.reverse ++ c.behind, more, c.finish⟩, ⟨hahead, rfl, rfl⟩, ?_⟩
  obtain ⟨rest', hrest⟩ := ahead_current ⟨ts.reverse ++ c.behind, more, c.finish⟩
  exact (List.cons.inj (hrest.symm.trans hmore)).1

/-- Where the tokens of two inputs agree up to the one behind a reading, the reading has moved over tokens
    of the second input too, and stops at the same one. -/
theorem Passes.elsewhere {c c' d : Cursor} {ts : List Token} (h : c.Passes ts d)
    (hposition : c'.position = c.position)
    (hsame : c'.tokens.take (d.position + 1) = c.tokens.take (d.position + 1)) :
    ∃ d', c'.Passes ts d' ∧ d'.current = d.current := by
  have hlength : d.position + 1 - c.position = ts.length + 1 := by
    rw [h.position]
    omega
  have htokens {c'' : Cursor} (hc : c''.position = c.position) :
      (c''.tokens.take (d.position + 1)).drop c.position =
        List.take (ts.length + 1) (c''.ahead ++ [⟨.eof, c''.finish⟩]) := by
    rw [List.drop_take, hlength, ← hc, drop_tokens]
  obtain ⟨rest, hrest⟩ := d.ahead_current
  have hfront : List.take (ts.length + 1) (c'.ahead ++ [⟨.eof, c'.finish⟩]) = ts ++ [d.current] := by
    rw [← htokens hposition, hsame, htokens rfl, h.ahead, ← h.finish, List.append_assoc, hrest,
      List.take_length_add_append, List.take_succ_cons, List.take_zero]
  have hall := List.take_append_drop (ts.length + 1) (c'.ahead ++ [⟨.eof, c'.finish⟩])
  rw [hfront, List.append_assoc] at hall
  exact passes_before hall.symm

end Cursor

/-! ## The tables of operators -/

namespace Power

/-- The powers of a token that can follow an operand: with the first it takes the operand before it, with
    the second it reads the one behind it. -/
def powers? : Token.Kind → Option (Nat × Nat)
  | .keyword .or => some (1, 2)
  | .keyword .and => some (3, 4)
  | .symbol .equal | .symbol .notEqual | .symbol .lessGreater | .symbol .hash | .symbol .less
  | .symbol .lessEqual | .symbol .greater | .symbol .greaterEqual => some (7, 8)
  | .keyword .not | .keyword .between | .keyword .like | .keyword .in => some (9, testOperand)
  | .keyword .is => some (11, 12)
  | .symbol .plus | .symbol .minus | .symbol .concat => some (13, 14)
  | .symbol .star | .symbol .slash => some (15, 16)
  | .symbol .power => some (17, 18)
  | _ => none

/-- Whether a token compares the operands around it. -/
def compares : Token.Kind → Bool
  | .symbol .equal | .symbol .notEqual | .symbol .lessGreater | .symbol .hash | .symbol .less
  | .symbol .lessEqual | .symbol .greater | .symbol .greaterEqual => true
  | _ => false

/-- The text of the operator that a token between two operands stands for. -/
def operator? : Token.Kind → Option String
  | .keyword .or => some Operator.or
  | .keyword .and => some Operator.and
  | .symbol .equal => some Operator.equal
  | .symbol .notEqual => some Operator.notEqual
  | .symbol .lessGreater => some Operator.lessGreater
  | .symbol .hash => some Operator.hash
  | .symbol .less => some Operator.less
  | .symbol .lessEqual => some Operator.lessEqual
  | .symbol .greater => some Operator.greater
  | .symbol .greaterEqual => some Operator.greaterEqual
  | .symbol .plus => some Operator.plus
  | .symbol .minus => some Operator.minus
  | .symbol .concat => some Operator.concat
  | .symbol .star => some Operator.times
  | .symbol .slash => some Operator.divide
  | .symbol .power => some Operator.power
  | _ => none

/-- The tokens that a test with BETWEEN, LIKE or IN goes on with. -/
def tests : List Token.Kind :=
  [.keyword .not, .keyword .between, .keyword .like, .keyword .in]

/-- What the tables say of a token, looked up one after the other. -/
inductive Tabled (k : Token.Kind) : Option Power → Prop
  | nothing : powers? k = none → Tabled k none
  | nullTest {left right} : powers? k = some (left, right) → k = .keyword .is →
      Tabled k (some ⟨left, right, .nullTest⟩)
  | test {left right} : powers? k = some (left, right) → k ≠ .keyword .is → k ∈ tests →
      Tabled k (some ⟨left, right, .test⟩)
  | comparison {left right operator} : powers? k = some (left, right) → k ≠ .keyword .is →
      k ∉ tests → compares k = true → operator? k = some operator →
      Tabled k (some ⟨left, right, .comparison operator⟩)
  | chain {left right operator} : powers? k = some (left, right) → k ≠ .keyword .is → k ∉ tests →
      compares k = false → operator? k = some operator →
      Tabled k (some ⟨left, right, .chain operator⟩)

/-- The tables agree: a token that has powers and belongs to no test has an operator. -/
theorem of?_tabled (k : Token.Kind) : Tabled k (of? k) := by
  have hchain {left right : Nat} {operator : String} (hpowers : powers? k = some (left, right))
      (hk : compares k = false) (ho : operator? k = some operator) (hno : k ≠ .keyword .is ∧ k ∉ tests) :
      Tabled k (some ⟨left, right, .chain operator⟩) := .chain hpowers hno.1 hno.2 hk ho
  have hcomparison {operator : String} (hpowers : powers? k = some (7, 8))
      (hk : compares k = true) (ho : operator? k = some operator) (hno : k ≠ .keyword .is ∧ k ∉ tests) :
      Tabled k (some ⟨7, 8, .comparison operator⟩) := .comparison hpowers hno.1 hno.2 hk ho
  cases k with
  | number | string | name | eof | invalid => exact .nothing rfl
  | keyword word =>
    cases word with
    | or | and => exact hchain rfl rfl rfl (by decide)
    | not | between | like | «in» => exact .test rfl (by decide) (by decide)
    | is => exact .nullTest rfl rfl
    | _ => exact .nothing rfl
  | symbol sign =>
    cases sign with
    | plus | minus | star | power | slash | concat => exact hchain rfl rfl rfl (by decide)
    | equal | notEqual | lessGreater | hash | less | lessEqual | greater | greaterEqual =>
      exact hcomparison rfl rfl rfl (by decide)
    | _ => exact .nothing rfl

/-- The power with which a token takes the operand before it is the first of its powers. -/
theorem of?_powers {k : Token.Kind} {left right : Nat} (h : powers? k = some (left, right)) :
    ∃ p, of? k = some p ∧ p.left = left := by
  have htabled := of?_tabled k
  generalize of? k = p at htabled
  cases htabled with
  | nothing hnone => rw [hnone] at h; cases h
  | nullTest hpowers | test hpowers | comparison hpowers | chain hpowers =>
    rw [hpowers] at h
    cases h
    exact ⟨_, rfl, rfl⟩

end Power

namespace Grammar

open Reading

variable (part : Readers)

/-- Why the loop of an expression stops. -/
inductive Ending where
  /-- The token has no powers. -/
  | noOperator
  /-- The token takes the operand before it with less than the given power. -/
  | tooLoose
  /-- The token compares but stands for no operator. -/
  | namelessComparison
  /-- The token joins operands but stands for no operator. -/
  | namelessJoint

/-- A turn of the loop of an expression with the tables looked up one after the other: how the chain goes
    on, or why it stops. -/
def tableTurn (power : Nat) (chain : Chain) : Reading (Ending ⊕ Chain) := do
  let token ← kind
  match Power.powers? token with
  | none => return .inl .noOperator
  | some (left, right) =>
    if left < power then return .inl .tooLoose
    if token = .keyword .is then
      return .inr { chain with expr := ← nullTest chain.expr, run := none }
    else if token ∈ Power.tests then
      return .inr { chain with expr := ← test part chain.expr, run := none }
    else if Power.compares token then
      if chain.compared then failAt .chainedComparison (← span)
      else
        match Power.operator? token with
        | none => return .inl .namelessComparison
        | some operator =>
          advance
          let operand ← comparand part right
          return .inr ⟨.binary operator chain.expr operand, none, true⟩
    else
      match Power.operator? token with
      | none => return .inl .namelessJoint
      | some operator =>
        advance
        return .inr (chain.join operator (← part.expression right))

/-- How a chain goes on with a token of the given power. -/
def goOn (chain : Chain) (p : Power) : Reading Chain := do
  match p.continuation with
  | .nullTest => return { chain with expr := ← nullTest chain.expr, run := none }
  | .test => return { chain with expr := ← test part chain.expr, run := none }
  | .comparison operator =>
    if chain.compared then failAt .chainedComparison (← span)
    else
      advance
      let operand ← comparand part p.right
      return ⟨.binary operator chain.expr operand, none, true⟩
  | .chain operator =>
    advance
    return chain.join operator (← part.expression p.right)

variable {part} {power : Nat} {chain : Chain} {c d : Cursor}

theorem chainStep_apply : chainStep part power chain c =
    match Power.of? c.current.kind with
    | none => (.ok (.done chain), c)
    | some p =>
      if p.left < power then (.ok (.done chain), c)
      else (goOn part chain p >>= fun next => pure (.yield next)) c := by
  rw [chainStep, kind_bind]
  cases Power.of? c.current.kind with
  | none => rfl
  | some p =>
    dsimp only
    split
    · rfl
    · rw [goOn]
      cases p.continuation with
      | nullTest | test | chain =>
        simp only [Reading.bind_assoc]
        rfl
      | comparison =>
        dsimp only
        split
        · rfl
        · simp only [Reading.bind_assoc]
          rfl

/-- The tables, looked up one after the other, tell the same as the power of a token, and the two breaks
    are not among them. -/
theorem tableTurn_apply : tableTurn part power chain c =
    match Power.of? c.current.kind with
    | none => (.ok (.inl .noOperator), c)
    | some p =>
      if p.left < power then (.ok (.inl .tooLoose), c)
      else (goOn part chain p >>= fun next => pure (.inr next)) c := by
  rw [tableTurn, kind_bind]
  have htabled := Power.of?_tabled c.current.kind
  generalize Power.of? c.current.kind = p at htabled ⊢
  cases htabled with
  | nothing hpowers =>
    simp only [hpowers]
    rfl
  | nullTest hpowers his =>
    simp only [hpowers, if_pos his, goOn, Reading.bind_assoc]
    split <;> rfl
  | test hpowers his htest =>
    simp only [hpowers, if_neg his, if_pos htest, goOn, Reading.bind_assoc]
    split <;> rfl
  | comparison hpowers his htest hcompares ho =>
    simp only [hpowers, if_neg his, if_neg htest, if_pos hcompares, ho, goOn]
    split
    · rfl
    · split
      · rfl
      · simp only [Reading.bind_assoc]
        rfl
  | chain hpowers his htest hcompares ho =>
    simp only [hpowers, if_neg his, if_neg htest, if_neg (Bool.eq_false_iff.mp hcompares), ho, goOn,
      Reading.bind_assoc]
    split <;> rfl

/-- The loop takes the turns that the tables give one after the other. -/
theorem chainStep_tables (part : Readers) (power : Nat) (chain : Chain) :
    chainStep part power chain = tableTurn part power chain >>= fun
      | .inl _ => pure (.done chain)
      | .inr next => pure (.yield next) := by
  apply ext
  intro c
  rw [chainStep_apply, bind_apply, tableTurn_apply]
  cases Power.of? c.current.kind with
  | none => rfl
  | some p =>
    dsimp only
    split
    · rfl
    · rw [bind_apply, bind_apply]
      rcases goOn part chain p c with ⟨_ | next, d⟩ <;> rfl

/-- A turn never comes to a token that has powers and stands for no operator. -/
theorem tableTurn_named {ending : Ending} (h : tableTurn part power chain c = (.ok (.inl ending), d)) :
    ending = .noOperator ∨ ending = .tooLoose := by
  rw [tableTurn_apply] at h
  cases hp : Power.of? c.current.kind with
  | none =>
    rw [hp] at h
    cases h
    exact .inl rfl
  | some p =>
    simp only [hp] at h
    split at h
    · cases h
      exact .inr rfl
    · simp [bind_ok, pure_ok] at h

theorem readers_stop (r : Registry) : (readers r).Stop :=
  fun _ _ _ _ h => (readersOfDepth_ordered r _).stop h

/-- An expression that is read takes in a token at least, and stops at one without powers or with too small
    a first one. It is the same expression in every input that has the same tokens up to there. Its loop
    takes the turns that the tables of operators give one after the other, and these never come to an
    operator without a text. -/
theorem expression_contract (r : Registry) :
    (∀ power c d e, (readers r).expression power c = (.ok e, d) →
      c.position < d.position ∧ d.tokens = c.tokens ∧
      (∀ left right, Power.powers? d.current.kind = some (left, right) → left < power) ∧
      ∀ c' : Cursor, c'.position = c.position →
        c'.tokens.take (d.position + 1) = c.tokens.take (d.position + 1) →
        ∃ d', (readers r).expression power c' = (.ok e, d') ∧ d'.position = d.position ∧
          d'.tokens = c'.tokens) ∧
    ∀ part power chain,
      (chainStep part power chain = tableTurn part power chain >>= fun
        | .inl _ => pure (.done chain)
        | .inr next => pure (.yield next)) ∧
      ∀ c d ending, tableTurn part power chain c = (.ok (.inl ending), d) →
        ending ≠ .namelessComparison ∧ ending ≠ .namelessJoint := by
  constructor
  · intro power c d e h
    obtain ⟨ts, hpasses⟩ := ((readers r).expression power).forward c
    rw [h] at hpasses
    obtain ⟨ks, hm, hne⟩ := readersOfDepth_takes r _ power h
    obtain rfl := hm.kinds_unique hpasses.moves
    have hlength : 0 < ts.length := List.length_pos_iff.mpr (by simpa using hne)
    refine ⟨by rw [hpasses.position]; omega, hpasses.tokens, ?_, ?_⟩
    · intro left right hpowers
      obtain ⟨p, hp, rfl⟩ := Power.of?_powers hpowers
      exact readers_stop r h p hp
    · intro c' hposition hsame
      obtain ⟨d', hpasses', hcurrent⟩ := hpasses.elsewhere hposition hsame
      have hread := readers_expression_local r power h hpasses.moves hpasses'.moves
        (congrArg Token.kind hcurrent)
      exact ⟨d', hread, by rw [hpasses'.position, hpasses.position, hposition], hpasses'.tokens⟩
  · intro part power chain
    refine ⟨chainStep_tables part power chain, fun c d ending h => ?_⟩
    obtain rfl | rfl := tableTurn_named h <;> exact ⟨nofun, nofun⟩

theorem expression_contract_product :
    ∃ c c' d d' e, c = (Cursor.ofText "x + a * - b ** 2 * c - d").advance.advance ∧
      c' = (Cursor.ofText "x + a * - b ** 2 * c - , 'y' not").advance.advance ∧
      (readers Registry.builtin).expression 14 c = (.ok e, d) ∧ c.position = 2 ∧ d.position = 10 ∧
      (∀ left right, Power.powers? d.current.kind = some (left, right) → left < 14) ∧
      (readers Registry.builtin).expression 14 c' = (.ok e, d') ∧ d'.position = 10 := by
  obtain ⟨c, hc⟩ : ∃ c, c = (Cursor.ofText "x + a * - b ** 2 * c - d").advance.advance := ⟨_, rfl⟩
  obtain ⟨c', hc'⟩ : ∃ c', c' = (Cursor.ofText "x + a * - b ** 2 * c - , 'y' not").advance.advance :=
    ⟨_, rfl⟩
  have hstart : c.position = 2 ∧ c'.position = 2 := by
    rw [hc, hc']
    decide +kernel
  have hread : ((readers Registry.builtin).expression 14 c).1.toOption.isSome = true ∧
      ((readers Registry.builtin).expression 14 c).2.position = 10 := by
    rw [hc]
    decide +kernel
  have hsame : c'.tokens.take (10 + 1) = c.tokens.take (10 + 1) := by
    rw [hc, hc']
    decide +kernel
  obtain ⟨hsome, hposition⟩ := hread
  obtain ⟨e, he⟩ := Option.isSome_iff_exists.mp hsome
  have he : (readers Registry.builtin).expression 14 c =
      (.ok e, ((readers Registry.builtin).expression 14 c).2) := Prod.ext (ok_of_toOption he) rfl
  obtain ⟨-, -, hstop, hreplaced⟩ := (expression_contract Registry.builtin).1 14 c _ e he
  rw [hposition] at hreplaced
  obtain ⟨d', hread', hposition', -⟩ := hreplaced c' (hstart.2.trans hstart.1.symm) hsame
  exact ⟨c, c', _, d', e, hc, hc', he, hstart.1, hposition, hstop, hread', hposition'⟩

end Grammar

end SqlFront
