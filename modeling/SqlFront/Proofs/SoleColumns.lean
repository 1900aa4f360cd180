import Mathlib.Data.List.Chain
import SqlFront.Proofs.Operands
import SqlFront.Proofs.Takes

/-! # Columns by themselves

An expression may be a column and nothing else. Its tokens tell: in a column every name, and the `*` at
its end, has a dot before it or stands first, so no operator, list or call looks like one. Main
statement: what is read from a row of tokens is a column exactly if the row is that column, with
parentheses around it and plus signs before it, neither of which leaves a trace.
-/

namespace SqlFront

namespace Rule

open Token

/-! ## Rows in parentheses -/

/-- A row as described, with parentheses around it and plus signs before it or before these. -/
inductive Grouped (R : List Kind → Prop) : List Kind → Prop
  | plain {ks} : R ks → Grouped R ks
  | group {ks} : Grouped R ks → Grouped R (.symbol .leftParen :: ks ++ [.symbol .rightParen])
  | plus {ks} : Grouped R ks → Grouped R (.symbol .plus :: ks)

theorem Grouped.imp {R S : List Kind → Prop} {ks : List Kind} (h : Grouped R ks)
    (hRS : ∀ row, row ⊆ ks → R row → S row) : Grouped S ks := by
  induction h with
  | plain h => exact .plain (hRS _ (List.Subset.refl _) h)
  | group _ ih =>
    refine .group (ih fun row hrow => hRS row fun k hk => ?_)
    exact List.mem_cons_of_mem _ (List.mem_append_left _ (hrow hk))
  | plus _ ih => exact .plus (ih fun row hrow => hRS row fun k hk => List.mem_cons_of_mem _ (hrow hk))

theorem grouped_or {R S : List Kind → Prop} {ks : List Kind} :
    Grouped (fun ks => R ks ∨ S ks) ks ↔ Grouped R ks ∨ Grouped S ks := by
  constructor
  · intro h
    induction h with
    | plain h => exact h.imp .plain .plain
    | group _ ih => exact ih.imp .group .group
    | plus _ ih => exact ih.imp .plus .plus
  · rintro (h | h)
    · exact h.imp fun _ _ => .inl
    · exact h.imp fun _ _ => .inr

theorem grouped_exists {α : Type} {R : Rule α} {P : α → Prop} {ks : List Kind} :
    Grouped (fun ks => ∃ a, R ks a ∧ P a) ks ↔ ∃ a, Grouped (R · a) ks ∧ P a := by
  constructor
  · intro h
    induction h with
    | plain h =>
      obtain ⟨a, h, ha⟩ := h
      exact ⟨a, .plain h, ha⟩
    | group _ ih =>
      obtain ⟨a, h, ha⟩ := ih
      exact ⟨a, .group h, ha⟩
    | plus _ ih =>
      obtain ⟨a, h, ha⟩ := ih
      exact ⟨a, .plus h, ha⟩
  · rintro ⟨a, h, ha⟩
    exact h.imp fun _ _ h => ⟨a, h, ha⟩

/-- A grouped row is the row itself between parentheses and plus signs. -/
theorem Grouped.around {R : List Kind → Prop} {ks : List Kind} (h : Grouped R ks) :
    ∃ before row after, ks = before ++ row ++ after ∧
      (∀ k ∈ before, k = .symbol .leftParen ∨ k = .symbol .plus) ∧ R row ∧
      ∀ k ∈ after, k = .symbol .rightParen := by
  induction h with
  | @plain ks h => exact ⟨[], ks, [], by simp, nofun, h, nofun⟩
  | group _ ih =>
    obtain ⟨before, row, after, rfl, hbefore, hrow, hafter⟩ := ih
    refine ⟨.symbol .leftParen :: before, row, after ++ [.symbol .rightParen], by simp,
      by simpa using hbefore, hrow, ?_⟩
    simpa [or_imp, forall_and] using hafter
  | plus _ ih =>
    obtain ⟨before, row, after, rfl, hbefore, hrow, hafter⟩ := ih
    exact ⟨.symbol .plus :: before, row, after, by simp, by simpa using hbefore, hrow, hafter⟩

/-! ## What follows what in a column -/

/-- The row ends with a token that an expression may end with. -/
def Finished (ks : List Kind) : Prop :=
  ∃ k ∈ ks.getLast?, k ≠ .symbol .leftParen ∧ k ≠ .symbol .plus ∧ k ≠ .symbol .dot

theorem finished_concat {k : Kind} (ks : List Kind)
    (h : k ≠ .symbol .leftParen ∧ k ≠ .symbol .plus ∧ k ≠ .symbol .dot) : Finished (ks ++ [k]) :=
  ⟨k, List.getLast?_concat, h⟩

theorem Finished.append {ks' : List Kind} (h : Finished ks') (ks : List Kind) :
    Finished (ks ++ ks') := by
  obtain ⟨k, hk, hend⟩ := h
  refine ⟨k, ?_, hend⟩
  obtain ⟨front, rfl⟩ := List.getLast?_eq_some_iff.mp hk
  rw [← List.append_assoc]
  exact List.getLast?_concat

theorem Finished.cons {ks : List Kind} (h : Finished ks) (k : Kind) : Finished (k :: ks) :=
  h.append [k]

theorem Dotted.finished {ks : List Kind} {t : String} (h : Dotted ks t) : Finished ks := by
  cases h with
  | one => exact finished_concat [] (by simp)
  | @more ks t n _ => exact (finished_concat [.symbol .dot] (by simp)).append ks

theorem Column.finished {ks : List Kind} {t : String} (h : Column ks t) : Finished ks := by
  cases h with
  | dotted h => exact h.finished
  | @all ks t h => exact (finished_concat [.symbol .dot] (by simp)).append ks

/-- In a column, with or without parentheses, the second token may stand behind the first one. -/
def Follows (k k' : Kind) : Prop :=
  k = .symbol .leftParen ∨ k = .symbol .plus ∨ k = .symbol .dot ∨ k' = .symbol .dot ∨
    k' = .symbol .rightParen

theorem Dotted.isChain {ks : List Kind} {t : String} (h : Dotted ks t) : ks.IsChain Follows := by
  induction h with
  | one => exact .singleton _
  | more _ ih => exact List.isChain_append.mpr ⟨ih, by simp [Follows], by simp [Follows]⟩

theorem Column.isChain {ks : List Kind} {t : String} (h : Column ks t) : ks.IsChain Follows := by
  cases h with
  | dotted h => exact h.isChain
  | all h => exact List.isChain_append.mpr ⟨h.isChain, by simp [Follows], by simp [Follows]⟩

variable {ks ks' : List Kind} {t : String}

theorem Grouped.isChain (h : Grouped (Column · t) ks) : ks.IsChain Follows := by
  induction h with
  | plain h => exact h.isChain
  | group _ ih =>
    refine List.isChain_append.mpr ⟨List.isChain_cons.mpr ⟨?_, ih⟩, .singleton _, ?_⟩
    · exact fun _ _ => .inl rfl
    · simp [Follows]
  | plus _ ih => exact List.isChain_cons.mpr ⟨fun _ _ => .inr (.inl rfl), ih⟩

/-- Behind a finished part of a column only a dot or a closing parenthesis stands. -/
theorem Grouped.next {k : Kind} (h : Grouped (Column · t) (ks ++ k :: ks')) (hks : Finished ks) :
    k = .symbol .dot ∨ k = .symbol .rightParen := by
  obtain ⟨last, hlast, hparen, hplus, hdot⟩ := hks
  obtain ⟨-, -, hnext⟩ := List.isChain_append.mp h.isChain
  obtain h | h | h | h := hnext last hlast k rfl
  · exact absurd h hparen
  · exact absurd h hplus
  · exact absurd h hdot
  · exact h

/-- What a grouped row begins with tells how it is made. -/
theorem Grouped.cases_cons {k : Kind} (h : Grouped (Column · t) (k :: ks)) :
    (∃ n, k = .name n) ∧ Column (k :: ks) t ∨
      (k = .symbol .leftParen ∧ ∃ ks', ks = ks' ++ [.symbol .rightParen] ∧ Grouped (Column · t) ks') ∨
      k = .symbol .plus ∧ Grouped (Column · t) ks := by
  generalize hrow : k :: ks = row at h
  cases h with
  | plain h =>
    obtain ⟨n, rest, hname, -⟩ := Grammar.column_cons h
    obtain ⟨rfl, rfl⟩ := List.cons.inj (hrow.trans hname)
    exact .inl ⟨⟨n, rfl⟩, hname ▸ h⟩
  | group h =>
    obtain ⟨rfl, rfl⟩ := List.cons.inj hrow
    exact .inr (.inl ⟨rfl, _, rfl, h⟩)
  | plus h =>
    obtain ⟨rfl, rfl⟩ := List.cons.inj hrow
    exact .inr (.inr ⟨rfl, h⟩)

theorem not_grouped {k : Kind} (hname : ∀ n, k ≠ .name n) (hparen : k ≠ .symbol .leftParen)
    (hplus : k ≠ .symbol .plus) : ¬ Grouped (Column · t) (k :: ks) := by
  intro h
  obtain ⟨⟨n, hk⟩, -⟩ | ⟨hk, -⟩ | ⟨hk, -⟩ := h.cases_cons
  · exact hname n hk
  · exact hparen hk
  · exact hplus hk

theorem grouped_group :
    Grouped (Column · t) (.symbol .leftParen :: ks ++ [.symbol .rightParen]) ↔
      Grouped (Column · t) ks := by
  refine ⟨fun h => ?_, .group⟩
  obtain ⟨⟨n, hk⟩, -⟩ | ⟨-, ks', hks, h⟩ | ⟨hk, -⟩ := h.cases_cons
  · cases hk
  · rwa [List.append_cancel_right hks]
  · cases hk

theorem grouped_plus : Grouped (Column · t) (.symbol .plus :: ks) ↔ Grouped (Column · t) ks := by
  refine ⟨fun h => ?_, .plus⟩
  obtain ⟨⟨n, hk⟩, -⟩ | ⟨hk, -⟩ | ⟨-, h⟩ := h.cases_cons
  · cases hk
  · cases hk
  · exact h

/-- The tokens of a column spell one text only. -/
theorem Column.unique {t' : String} (h : Column ks t) (h' : Column ks t') : t = t' := by
  obtain ⟨n, rest, rfl, -⟩ := Grammar.column_cons h
  have hend : ([] : List Kind).headD .eof ≠ .symbol .dot := by simp
  obtain ⟨heq, -⟩ := Reading.reads_unique (Grammar.columnRest_reads h rfl)
    (Grammar.columnRest_reads h' rfl) rfl hend hend
  exact (Constant.mk.inj (Expr.constant.inj heq)).2

/-! ## Columns among other expressions -/

/-- What is said of the rows of expressions: they end as they should, and are those of a column exactly
    if the expression is that column. -/
def sole : Rules where
  expression _ ks e := Finished ks ∧ ∀ t, e = .column t ↔ Grouped (Column · t) ks
  query ks _ := ∃ rest, ks = .keyword .select :: rest

variable {r : Registry} {e : Expr}

theorem Enclosed.finished {α : Type} {R : Rule α} {a : α} (h : Enclosed R ks a) : Finished ks := by
  obtain ⟨h⟩ := h
  exact finished_concat _ (by simp)

theorem Primary.finished (h : Primary r sole ks e) : Finished ks := by
  cases h with
  | number | string | null | placeholder => exact finished_concat [] (by simp)
  | «exists» h => exact h.finished.cons _
  | subquery h => exact h.finished
  | group h => exact h.finished
  | list h => exact h.finished
  | column h => exact h.finished
  | call _ h => exact h.finished.cons _

theorem Operand.finished (h : Operand r sole ks e) : Finished ks := by
  cases h with
  | not h => exact h.1.cons _
  | minus h => exact h.1.cons _
  | plus h => exact h.1.cons _
  | primary h => exact h.finished

theorem Comparand.finished {power : Nat} (h : Comparand sole power ks e) : Finished ks := by
  cases h with
  | quantified _ h => exact h.finished.cons _
  | expression h => exact h.1

theorem Test.finished {left : Expr} (h : Test sole left ks e) : Finished ks := by
  cases h with
  | between _ _ h => exact (h.1.cons _).append _
  | like _ h => exact (h.1.cons _).append _
  | membership _ h => exact (h.finished.cons _).append _

theorem NullTest.finished {left : Expr} (h : NullTest left ks e) : Finished ks := by
  cases h with
  | plain => exact finished_concat [.keyword .is] (by simp)
  | negative => exact finished_concat [.keyword .is, .keyword .not] (by simp)

theorem Link.finished {power : Nat} {chain next : Grammar.Chain} (h : Link sole power chain ks next) :
    Finished ks := by
  cases h with
  | nullTest h => exact h.finished
  | test h => exact h.finished
  | comparison _ _ _ _ h => exact h.finished.cons _
  | chain _ _ _ h => exact h.1.cons _

theorem Links.finished {power : Nat} {start chain : Grammar.Chain}
    (h : Links sole power start ks' chain) (hks : Finished ks) : Finished (ks ++ ks') := by
  cases h with
  | none => simpa using hks
  | more _ h => exact (h.finished.append _).append ks

theorem Link.isColumn {rules : Rules} {power : Nat} {chain next : Grammar.Chain}
    {ks : List Token.Kind} (h : Link rules power chain ks next) : next.expr.isColumn = false := by
  cases h with
  | nullTest h => cases h <;> rfl
  | test h => cases h <;> rfl
  | comparison => rfl
  | chain =>
    rw [Grammar.Chain.join]
    split <;> rfl

/-- No operator stands where a column goes on. -/
theorem Link.first {power : Nat} {chain next : Grammar.Chain} (h : Link sole power chain ks next) :
    ∃ k rest, ks = k :: rest ∧ k ≠ .symbol .dot ∧ k ≠ .symbol .rightParen := by
  have hpower {k : Kind} {p : Power} (hp : Power.of? k = some p) :
      k ≠ .symbol .dot ∧ k ≠ .symbol .rightParen := by
    constructor <;> (rintro rfl; cases hp)
  cases h with
  | nullTest h => cases h <;> exact ⟨_, _, rfl, by simp⟩
  | test h =>
    cases h with
    | between hnot | like hnot | membership hnot => cases hnot <;> exact ⟨_, _, rfl, by simp⟩
  | comparison hp => exact ⟨_, _, rfl, hpower hp⟩
  | chain hp => exact ⟨_, _, rfl, hpower hp⟩

theorem Listed.column_iff {t : String} (h : Listed (sole.expression 0) ks [e]) :
    e = .column t ↔ Grouped (Column · t) ks := by
  generalize hes : [e] = es at h
  cases h with
  | one h =>
    obtain rfl := List.singleton_inj.mp hes
    exact h.2 t
  | more h _ => exact absurd (by simpa using congrArg List.length hes) h.ne_nil

/-- Values with commas between them are not a column. -/
theorem Listed.not_grouped {es : List Expr} (h : Listed (sole.expression 0) ks es)
    (hlength : 2 ≤ es.length) : ¬ Grouped (Column · t) ks := by
  have hfinished {ks : List Kind} {es : List Expr} (h : Listed (sole.expression 0) ks es) :
      Finished ks := by
    cases h with
    | one h => exact h.1
    | more _ h => exact (h.1.cons _).append _
  intro hks
  cases h with
  | one => simp at hlength
  | more h _ =>
    obtain hk | hk := hks.next (hfinished h)
    · cases hk
    · cases hk

theorem Primary.column_iff (h : Primary r sole ks e) : e = .column t ↔ Grouped (Column · t) ks := by
  have hneither {ks : List Kind} {e : Expr} (he : e.isColumn = false)
      (hks : ¬ Grouped (Column · t) ks) : e = .column t ↔ Grouped (Column · t) ks := by
    refine iff_of_false ?_ hks
    rintro rfl
    cases he
  cases h with
  | number | string | null | placeholder =>
    exact hneither rfl (not_grouped (by simp) (by simp) (by simp))
  | «exists» => exact hneither rfl (not_grouped (by simp) (by simp) (by simp))
  | subquery h =>
    obtain ⟨rest, rfl⟩ := h
    refine hneither rfl fun h => ?_
    exact not_grouped (by simp) (by simp) (by simp) (grouped_group.mp h)
  | group h =>
    obtain ⟨h⟩ := h
    rw [grouped_group]
    exact h.column_iff
  | list h hlength =>
    obtain ⟨h⟩ := h
    rw [grouped_group]
    exact hneither rfl (h.not_grouped hlength)
  | @column _ t' h =>
    constructor
    · intro heq
      cases heq
      exact .plain h
    · intro hks
      obtain ⟨n, rest, rfl, -⟩ := Grammar.column_cons h
      obtain ⟨-, h'⟩ | ⟨hk, -⟩ | ⟨hk, -⟩ := hks.cases_cons
      · rw [h.unique h']
      · cases hk
      · cases hk
  | @call name _ _ _ _ h _ =>
    obtain ⟨h⟩ := h
    have hname : Finished [.name name] := finished_concat [] (by simp)
    refine hneither rfl fun hks => ?_
    obtain hk | hk := hks.next hname
    · cases hk
    · cases hk

theorem Operand.column_iff (h : Operand r sole ks e) : e = .column t ↔ Grouped (Column · t) ks := by
  cases h with
  | not | minus =>
    exact iff_of_false nofun (not_grouped (by simp) (by simp) (by simp))
  | plus h =>
    rw [grouped_plus]
    exact h.2 t
  | primary h => exact h.column_iff

theorem readers_sole (r : Registry) : (Grammar.readers r).Follow sole := by
  refine Grammar.readers_follow ?_ ?_
  · rintro power _ _ @⟨first, e, links, chain, hfirst, hlinks⟩
    refine ⟨hlinks.finished hfirst.finished, fun t => ?_⟩
    cases hlinks with
    | none =>
      rw [List.append_nil]
      exact hfirst.column_iff
    | @more front _ _ _ hfront h =>
      -- The last operator stands behind something finished, where a column has a dot.
      have hcolumn := h.isColumn
      obtain ⟨k, rest, rfl, hdot, hparen⟩ := h.first
      constructor
      · intro ht
        rw [ht] at hcolumn
        cases hcolumn
      · intro hks
        rw [← List.append_assoc] at hks
        exact ((hks.next (hfront.finished hfirst.finished)).elim hdot hparen).elim
  · rintro _ _ ⟨⟩
    exact ⟨_, rfl⟩

end Rule

end SqlFront
