import Mathlib.Data.List.Induction
import SqlFront.Proofs.Assignments
import SqlFront.Proofs.MarksKept
import SqlFront.Proofs.Places
import SqlFront.Proofs.Rows
import SqlFront.Proofs.Termination
import SqlFront.Tree.Build

/-! # The last assignment counts

An UPDATE that is put together step by step, or read from a text, has each column once, where it was
first assigned to, with the value that it was last assigned. Main statement: this describes the UPDATE
that is built from any steps, and the UPDATE that is read from any row of assignments; its table, alias
and condition have nothing to do with the assignments.
-/

namespace SqlFront

namespace Update

variable {made : List (String × Expr)} {u v : Update} {table : String} {aliasName : Option String}
  {condition : Option Expr}

/-- The value of the last of the assignments to a column. -/
def lastValue (made : List (String × Expr)) (column : String) : Option Expr :=
  made.reverse.lookup column

/-- The UPDATE has the columns of the assignments that were made, each once in the order of their first
    assignments, with the values of their last ones. -/
structure LastWins (u : Update) (table : String) (aliasName : Option String)
    (made : List (String × Expr)) (condition : Option Expr) : Prop where
  table : u.table = table
  aliasName : u.aliasName = aliasName
  condition : u.condition = condition
  columns : u.assignments.map Prod.fst = (made.map Prod.fst).eraseDups
  distinct : (u.assignments.map Prod.fst).Nodup
  values : ∀ a ∈ u.assignments, lastValue made a.1 = some a.2
  value? : ∀ column, u.value? column = lastValue made column
  unassigned : ∀ column, u.value? column = none ↔ column ∉ made.map Prod.fst

/-! ## One assignment more -/

theorem lookup_assign (column : String) (value : Expr) (assignments : List (String × Expr))
    (other : String) :
    (assign column value assignments).lookup other =
      if other = column then some value else assignments.lookup other := by
  fun_induction assign column value assignments <;> grind

/-- Where each column stands once, an assignment leaves no other value of its column. -/
theorem mem_assign_iff {column : String} {value : Expr} {assignments : List (String × Expr)}
    (h : (assignments.map Prod.fst).Nodup) (a : String × Expr) :
    a ∈ assign column value assignments ↔
      a = (column, value) ∨ a ∈ assignments ∧ a.1 ≠ column := by
  fun_induction assign column value assignments <;> grind

theorem merge_concat (made : List (String × Expr)) (column : String) (value : Expr) :
    merge (made ++ [(column, value)]) = assign column value (merge made) := by
  rw [merge, List.foldl_append]
  rfl

theorem lastValue_concat (made : List (String × Expr)) (column : String) (value : Expr)
    (other : String) :
    lastValue (made ++ [(column, value)]) other =
      if other = column then some value else lastValue made other := by
  rw [lastValue, List.reverse_concat, List.lookup_cons]
  by_cases h : other = column
  · simp [h]
  · simp [h, beq_false_of_ne h, lastValue]

/-! ## All assignments -/

theorem columns_merge (made : List (String × Expr)) :
    (merge made).map Prod.fst = (made.map Prod.fst).eraseDups := by
  induction made using List.reverseRecOn with
  | nil => rfl
  | append_singleton made a ih =>
    rw [merge_concat, columns_assign, List.map_append, List.map_singleton, Row.eraseDups_concat, ih]

theorem lookup_merge (made : List (String × Expr)) (column : String) :
    (merge made).lookup column = lastValue made column := by
  induction made using List.reverseRecOn with
  | nil => rfl
  | append_singleton made a ih => rw [merge_concat, lookup_assign, lastValue_concat, ih]

theorem lastValue_of_mem_merge {a : String × Expr} (h : a ∈ merge made) :
    lastValue made a.1 = some a.2 := by
  induction made using List.reverseRecOn with
  | nil => cases h
  | append_singleton made b ih =>
    rw [merge_concat, mem_assign_iff (nodup_merge made)] at h
    rw [lastValue_concat]
    obtain rfl | ⟨h, hne⟩ := h
    · exact if_pos rfl
    · rw [if_neg hne, ih h]

theorem lastValue_eq_none {column : String} :
    lastValue made column = none ↔ column ∉ made.map Prod.fst := by
  induction made using List.reverseRecOn with
  | nil => simp [lastValue]
  | append_singleton made a ih =>
    rw [lastValue_concat]
    split <;> simp_all

theorem lastWins_merge :
    LastWins ⟨table, aliasName, merge made, condition⟩ table aliasName made condition where
  table := rfl
  aliasName := rfl
  condition := rfl
  columns := columns_merge made
  distinct := nodup_merge made
  values _ h := lastValue_of_mem_merge h
  value? := lookup_merge made
  unassigned column := by rw [value?, lookup_merge, lastValue_eq_none]

/-- Columns and values leave nothing open. -/
theorem LastWins.unique (hu : u.LastWins table aliasName made condition)
    (hv : v.LastWins table aliasName made condition) : u = v := by
  have hpairs {w : Update} (hw : w.LastWins table aliasName made condition) :
      w.assignments.map (fun a => (a.1, some a.2)) =
        (made.map Prod.fst).eraseDups.map fun column => (column, lastValue made column) := by
    rw [← hw.columns, List.map_map]
    exact List.map_congr_left fun a ha => congrArg (Prod.mk a.1) (hw.values a ha).symm
  have hinjective : Function.Injective fun a : String × Expr => (a.1, some a.2) := by
    rintro ⟨c, e⟩ ⟨c', e'⟩ h
    simpa using h
  have hassignments := hinjective.list_map ((hpairs hu).trans (hpairs hv).symm)
  obtain ⟨t, a, as, c⟩ := u
  obtain ⟨t', a', as', c'⟩ := v
  obtain rfl : t = t' := hu.table.trans hv.table.symm
  obtain rfl : a = a' := hu.aliasName.trans hv.aliasName.symm
  obtain rfl : c = c' := hu.condition.trans hv.condition.symm
  obtain rfl : as = as' := hassignments
  rfl

/-! ## Step by step -/

/-- A step of putting an UPDATE together. -/
inductive Step where
  | rename (aliasName : String)
  | set (column : String) (value : Expr)
  | restrict (condition : Expr)

/-- The UPDATE with nothing in it yet. -/
def blank (table : String) : Update := ⟨table, none, [], none⟩

/-- The UPDATE after a step. A column that has a value keeps its place and takes the new one. -/
def take (u : Update) : Step → Update
  | .rename aliasName => { u with aliasName }
  | .set column value => { u with assignments := assign column value u.assignments }
  | .restrict condition => { u with condition }

/-- The UPDATE, if it assigns something. -/
def finish (u : Update) : Except BuildError Update :=
  if u.assignments.isEmpty then .error (.noAssignments u.table) else .ok u

/-- The alias given last. -/
def lastAlias (steps : List Step) : Option String :=
  (steps.filterMap fun | .rename aliasName => some aliasName | _ => none).getLast?

/-- The assignments made, in their order. -/
def madeBy (steps : List Step) : List (String × Expr) :=
  steps.filterMap fun | .set column value => some (column, value) | _ => none

/-- The condition given last. -/
def lastCondition (steps : List Step) : Option Expr :=
  (steps.filterMap fun | .restrict condition => some condition | _ => none).getLast?

theorem run_eq (table : String) (steps : List Step) :
    steps.foldl take (blank table) =
      ⟨table, lastAlias steps, merge (madeBy steps), lastCondition steps⟩ := by
  induction steps using List.reverseRecOn with
  | nil => rfl
  | append_singleton steps step ih =>
    rw [List.foldl_append, ih]
    cases step with
    | rename => simp [take, lastAlias, madeBy, lastCondition]
    | set => simp [take, lastAlias, madeBy, lastCondition, merge_concat]
    | restrict => simp [take, lastAlias, madeBy, lastCondition]

/-- The steps build what is built from their assignments, their last alias and their last condition. -/
theorem finish_run (table : String) (steps : List Step) :
    (steps.foldl take (blank table)).finish =
      build table (lastAlias steps) (madeBy steps) (lastCondition steps) := by
  rw [run_eq, finish, build]
  cases merge (madeBy steps) <;> rfl

theorem build_lastWins (h : made ≠ []) :
    ∃ u, build table aliasName made condition = .ok u ∧ u.LastWins table aliasName made condition := by
  refine ⟨_, ?_, lastWins_merge⟩
  rw [build]
  cases hmerge : merge made with
  | nil => exact absurd hmerge (merge_ne_nil h)
  | cons => rfl

end Update

/-- Whenever the reading succeeds in front of a token of the class, the rule holds of what it has moved
    over and its value. -/
def Reading.TakesBefore {α : Type} (p : Reading α) (N : Token.Kind → Prop) (R : Rule α) : Prop :=
  ∀ ⦃c a d⦄, p c = (.ok a, d) → N d.current.kind → ∃ ks, c.Moves ks d ∧ R ks a

namespace Grammar

open Reading Token Kind

variable {r : Registry} {ks : List Kind} {c d : Cursor}

section

variable {α : Type} {item : Reading α} {N : Kind → Prop} {R : Rule α} (hitem : item.TakesBefore N R)
  (hcomma : N (.symbol .comma))

include hitem hcomma

/-- The turns of a list stand before a comma or before what the list stands before. -/
theorem listTurns_takesBefore {limit : Nat} {done items : List α}
    (h : iterateAtMost (listTurn item) limit done c = (.ok items, d)) (hd : N d.current.kind) :
    N c.current.kind ∧ ∃ ks, c.Moves ks d ∧
      ∀ first, Rule.Listed R first done → Rule.Listed R (first ++ ks) items := by
  induction limit generalizing done c with
  | zero =>
    obtain ⟨rfl, rfl⟩ := pure_ok.mp h
    exact ⟨hd, [], .refl c, fun first hfirst => by simpa using hfirst⟩
  | succ limit ih =>
    obtain ⟨turn, e, hturn, h⟩ := bind_ok.mp h
    rw [listTurn] at hturn
    simp only [↓acceptSymbol_ite, bind_ok, pure_ok] at hturn
    obtain ⟨c₁, m₁, a, c₂, ha, rfl, rfl⟩ | ⟨-, rfl, rfl⟩ := hturn
    · -- What stands behind the item is known once the turns behind it are.
      obtain ⟨he, ks', m₃, hlist⟩ := ih h
      obtain ⟨ks, m₂, hR⟩ := hitem ha he
      refine ⟨m₁.current_cons ▸ hcomma, _, (m₁.trans m₂).trans m₃, fun first hfirst => ?_⟩
      simpa using hlist _ (.more hfirst hR)
    · obtain ⟨rfl, rfl⟩ := pure_ok.mp h
      exact ⟨hd, [], .refl c, fun first hfirst => by simpa using hfirst⟩

theorem commaList_takesBefore : (commaList item).TakesBefore N (Rule.Listed R) := by
  intro c items d h hd
  rw [commaList_turns] at h
  obtain ⟨a, e, ha, h⟩ := bind_ok.mp h
  change iterateAtMost (listTurn item) (e.ahead.length + 1) [a] e = (.ok items, d) at h
  obtain ⟨he, ks', hm', hlist⟩ := listTurns_takesBefore hitem hcomma h hd
  obtain ⟨ks, hm, hR⟩ := hitem ha he
  exact ⟨_, hm.trans hm', hlist _ (.one hR)⟩

end

/-- What an expression is read from before a token with which no expression goes on stands for it by
    itself. -/
theorem expression_takesBefore (r : Registry) :
    ((readers r).expression 0).TakesBefore (·.stops 0 = true) (ByItself r) := by
  intro c e d h hd
  obtain ⟨ks, hm⟩ := moved h
  exact ⟨ks, hm, byItself_iff.mpr (readers_expression_loose r 0 h hm hd)⟩

theorem assignment_takesBefore (r : Registry) :
    (assignment r).TakesBefore (·.stops 0 = true) (Rule.Assignment (.placed r)) := by
  intro c a d h hd
  simp only [assignment, bind_ok, symbol_ok, pure_ok] at h
  obtain ⟨column, c₁, h₁, _, c₂, m₂, e, c₃, h₃, rfl, rfl⟩ := h
  obtain ⟨_, m₁, r₁⟩ := dottedName_takes h₁
  obtain ⟨_, m₃, r₃⟩ := expression_takesBefore r h₃ hd
  exact ⟨_, by simpa using (m₁.trans m₂).trans m₃, .mk r₁ r₃⟩

/-- A clause, if there is one, begins with its word; if not, what follows is at hand. -/
theorem clause?_takesBefore {word : Keyword} (hword : Kind.stops 0 (.keyword word) = true)
    {o : Option Expr} (h : clause? (readers r) word c = (.ok o, d))
    (hd : d.current.kind.stops 0 = true) :
    c.current.kind.stops 0 = true ∧
      ∃ ks, c.Moves ks d ∧ Rule.Optional (Rule.Condition (.placed r) word) ks o := by
  rw [clause?] at h
  simp only [↓acceptKeyword_ite, bind_ok, pure_ok] at h
  obtain ⟨d, h₁, e, f, h₂, rfl, rfl⟩ | ⟨-, rfl, rfl⟩ := h
  · obtain ⟨ks, hm, hR⟩ := expression_takesBefore r h₂ hd
    exact ⟨h₁.current_cons ▸ hword, _, h₁.trans hm, .present (.mk hR)⟩
  · exact ⟨hd, [], .refl c, .absent⟩

theorem updateAsWritten_takesBefore (r : Registry) :
    (updateAsWritten r).TakesBefore (·.stops 0 = true) (Rule.Change (.placed r)) := by
  intro c u d h hd
  simp only [updateAsWritten, bind_ok, keyword_ok, pure_ok] at h
  obtain ⟨_, c₁, m₁, table, c₂, h₂, aliasName, c₃, h₃, _, c₄, m₄, assignments, c₅, h₅, condition, c₆,
    h₆, rfl, rfl⟩ := h
  obtain ⟨_, m₂, r₂⟩ := dottedName_takes h₂
  obtain ⟨_, m₃, r₃⟩ := name?_takes h₃
  obtain ⟨hwhere, _, m₆, r₆⟩ := clause?_takesBefore rfl h₆ hd
  obtain ⟨_, m₅, r₅⟩ := commaList_takesBefore (assignment_takesBefore r) rfl h₅ hwhere
  exact ⟨_, by simpa using ((((m₁.trans m₂).trans m₃).trans m₄).trans m₅).trans m₆,
    .mk r₂ r₃ r₅ r₆⟩

/-- A row that is an UPDATE is read as one behind any semicolons and before the end or a semicolon. -/
theorem statement?_reads_change {before rest : List Kind} {w : Update}
    (hbefore : ∀ k ∈ before, k = .symbol .semicolon) (hw : Rule.Change (.placed r) ks w)
    (hc : c.kinds = before ++ (ks ++ rest)) (hrest : rest.headD .eof ∈ behindStatement) :
    (statement? r c).1 = .ok (some (.update { w with assignments := Update.merge w.assignments })) := by
  induction before generalizing c with
  | nil =>
    obtain ⟨d, hm, hd⟩ : ∃ d, c.Moves ks d ∧ d.kinds = rest := Cursor.exists_moves hc
    have hkind : d.current.kind ∈ behindStatement := by rwa [Cursor.current_kind, hd]
    obtain ⟨e, hterminator⟩ : ∃ e, terminator d = (.ok (), e) := by
      obtain hsemicolon | hend : d.current.kind = .symbol .semicolon ∨ d.current.kind = .eof := by
        simpa [behindStatement] using hkind
      · exact ⟨_, terminator_ok.mpr (.inl (Cursor.current_moves hsemicolon (by simp)))⟩
      · exact ⟨_, terminator_ok.mpr (.inr ⟨hend, rfl⟩)⟩
    rw [statement?_of_statement (statement_reads (.update hw) hm hkind) hterminator]
  | cons k before ih =>
    obtain rfl := hbefore k (List.mem_cons_self ..)
    obtain ⟨d, hm, hd⟩ : ∃ d, c.Moves [.symbol .semicolon] d ∧ d.kinds = before ++ (ks ++ rest) :=
      Cursor.exists_moves hc
    rw [statement?_semicolon hm.current_cons, hm.advance]
    exact ih (fun k hk => hbefore k (List.mem_cons_of_mem _ hk)) hd

/-- An UPDATE is read from a row that is one. -/
theorem change_of_statement? {u : Update} (h : (statement? r c).1 = .ok (some (.update u))) :
    ∃ before ks rest w, (∀ k ∈ before, k = .symbol .semicolon) ∧ c.kinds = before ++ (ks ++ rest) ∧
      rest.headD .eof ∈ behindStatement ∧ Rule.Change (.placed r) ks w ∧
      u = { w with assignments := Update.merge w.assignments } := by
  obtain ⟨c₁, c₂, h₁, h₂, h₃⟩ := statement?_parts (Prod.ext h rfl)
  obtain ⟨before, m₁, hbefore⟩ := emptyStatements_takes h₁
  obtain ⟨w, hw, hu⟩ := statement_update h₂
  have hend : c₂.current.kind ∈ behindStatement := by
    obtain hm | ⟨hend, -⟩ := terminator_ok.mp h₃
    · simp [hm.current_cons, behindStatement]
    · simp [hend, behindStatement]
  have hstops : ∀ k ∈ behindStatement, k.stops 0 = true := by decide
  obtain ⟨ks, m₂, hchange⟩ := updateAsWritten_takesBefore r hw (hstops _ hend)
  refine ⟨before, ks, c₂.kinds, w, hbefore, by rw [m₁.kinds, m₂.kinds], ?_, hchange, hu⟩
  rwa [← Cursor.current_kind]

/-- An UPDATE is built by any steps with at least one assignment, and is read exactly from the rows with
    a list of assignments, in which each value is a row that stands for it by itself. Either way it has
    each column once, in the order of the first assignments and with the last values; other columns have
    none. Its table, alias and condition are those given, whatever the assignments. -/
theorem updates_last_wins (r : Registry) :
    (∀ table steps, Update.madeBy steps ≠ [] →
      ∃ u, (steps.foldl Update.take (Update.blank table)).finish = .ok u ∧
        u.LastWins table (Update.lastAlias steps) (Update.madeBy steps) (Update.lastCondition steps)) ∧
    ∀ (c : Cursor) u, (statement? r c).1 = .ok (some (.update u)) ↔
      ∃ before ks rest w, (∀ k ∈ before, k = .symbol .semicolon) ∧ c.kinds = before ++ (ks ++ rest) ∧
        rest.headD .eof ∈ behindStatement ∧ Rule.Change (.placed r) ks w ∧ w.assignments ≠ [] ∧
        u.LastWins w.table w.aliasName w.assignments w.condition := by
  refine ⟨fun table steps h => ?_, fun c u => ⟨fun h => ?_, ?_⟩⟩
  · rw [Update.finish_run]
    exact Update.build_lastWins h
  · obtain ⟨before, ks, rest, w, hbefore, hc, hrest, hchange, rfl⟩ := change_of_statement? h
    have hne : w.assignments ≠ [] := by
      obtain ⟨-, -, hset, -⟩ := hchange
      exact hset.ne_nil
    exact ⟨before, ks, rest, w, hbefore, hc, hrest, hchange, hne, Update.lastWins_merge⟩
  · rintro ⟨before, ks, rest, w, hbefore, hc, hrest, hchange, -, hu⟩
    rw [hu.unique Update.lastWins_merge]
    exact statement?_reads_change hbefore hchange hc hrest

/-- A column assigned twice, by steps and in a text. -/
theorem updates_last_wins_twice :
    let steps : List Update.Step :=
      [.set "a" (.number "1"), .rename "u", .set "b" (.number "2"), .set "a" (.number "3")]
    Update.madeBy steps ≠ [] ∧
    (∃ u, (steps.foldl Update.take (Update.blank "t")).finish = .ok u ∧ u.aliasName = some "u" ∧
      u.assignments.map Prod.fst = ["a", "b"] ∧ u.value? "a" = some (.number "3") ∧
      u.value? "b" = some (.number "2") ∧ u.value? "A" = none) ∧
    (statement? Registry.builtin (Cursor.ofText "; update t u set a = 1, b = 2, a = 3 where c")).1 =
      .ok (some (.update
        ⟨"t", some "u", [("a", .number "3"), ("b", .number "2")], some (.column "c")⟩)) := by
  intro steps
  obtain ⟨hsteps, hread⟩ := updates_last_wins Registry.builtin
  have hmade : Update.madeBy steps = [("a", .number "1"), ("b", .number "2"), ("a", .number "3")] := rfl
  refine ⟨by simp [hmade], ?_, ?_⟩
  · obtain ⟨u, hu, hwins⟩ := hsteps "t" steps (by simp [hmade])
    refine ⟨u, hu, hwins.aliasName, hwins.columns.trans (by decide), ?_, ?_, ?_⟩
    · exact (hwins.value? "a").trans rfl
    · exact (hwins.value? "b").trans rfl
    · exact (hwins.value? "A").trans rfl
  · have hnumber (n : String) (hn : n ∈ ["1", "2", "3"]) :
        ByItself Registry.builtin [.number n] (.number n) := by
      refine ⟨⟨Cursor.ofText n, ?_, ?_⟩, by simp, by simp, by simp⟩ <;>
        · simp only [List.mem_cons, List.not_mem_nil, or_false] at hn
          obtain rfl | rfl | rfl := hn <;> decide +kernel
    have hcolumn : ByItself Registry.builtin [.name "c"] (.column "c") :=
      ⟨⟨Cursor.ofText "c", by decide +kernel, rfl⟩, by simp, by simp, by simp⟩
    have hassigned (column n : String) (hn : n ∈ ["1", "2", "3"]) :
        Rule.Assignment (.placed Registry.builtin)
          ([.name column] ++ .symbol .equal :: [.number n]) (column, .number n) :=
      .mk .one (hnumber n hn)
    have hset := Rule.Listed.more (.more (.one (hassigned "a" "1" (by simp)))
      (hassigned "b" "2" (by simp))) (hassigned "a" "3" (by simp))
    have hchange := Rule.Change.mk (.one (n := "t")) (.present (.mk (n := "u"))) hset
      (.present (.mk hcolumn))
    have hmerge : Update.merge (Update.madeBy steps) = [("a", .number "3"), ("b", .number "2")] := rfl
    refine (hread _ _).mpr ⟨[.symbol .semicolon], _, [], _, by simp, by decide +kernel,
      by simp [behindStatement], hchange, by simp, ?_⟩
    rw [← hmerge]
    exact Update.lastWins_merge

end Grammar

end SqlFront
