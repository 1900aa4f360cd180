import SqlFront.Proofs.OtherFunctions
import SqlFront.Proofs.RoundTrip

/-! # Expressions that are put together by hand

An expression is stable if it is read from its own text. Main statement: operators and calls over stable
expressions are stable however they are nested, although the parser itself would have made one row out of
some of the nestings.
-/

namespace SqlFront

namespace Expr

/-- The expression is what is read from its own text. -/
def Stable (r : Registry) (e : Expr) : Prop :=
  (Grammar.condition r (Cursor.ofText (e.render r))).1 = .ok e

instance (r : Registry) (e : Expr) : Decidable (e.Stable r) :=
  decidable_of_iff ((Grammar.condition r (Cursor.ofText (e.render r))).1.toOption = some e) (by
    rw [Stable]
    cases (Grammar.condition r (Cursor.ofText (e.render r))).1 <;> simp [Except.toOption])

/-- The ways to join two expressions. -/
def pairings : List (Expr → Expr → Expr) :=
  [equal, notEqual, less, lessEqual, greater, greaterEqual, and, or, like]

/-- The ways to test a single expression. -/
def tests : List (Expr → Expr) := [negate, isNull, isNotNull]

/-- What can be put together from stable expressions. The name of a call is one that a token of some
    text carries. -/
inductive Assembled (r : Registry) : Expr → Prop
  | stable {e} : e.Stable r → Assembled r e
  | pairing {build a b} : build ∈ pairings → Assembled r a → Assembled r b → Assembled r (build a b)
  | test {build a} : build ∈ tests → Assembled r a → Assembled r (build a)
  | between {a low high} : Assembled r a → Assembled r low → Assembled r high →
      Assembled r (a.between low high)
  | isIn {a es} : Assembled r a → es ≠ [] → (∀ e ∈ es, Assembled r e) → Assembled r (a.isIn es)
  | call {text name arity args} : .name name ∈ (Cursor.ofText text).kinds →
      r.arity? name = some arity → arity.accepts args.length = true →
      (∀ e ∈ args, Assembled r e) → Assembled r (.call name args)

variable {r : Registry}

/-- The stable expressions are those that keep the invariant of what is read. -/
theorem stable_iff_free (hr : r.SparesOperators) {e : Expr} : e.Stable r ↔ e.Free r := by
  constructor
  · intro h
    have hread : Grammar.condition r (Cursor.ofText (e.render r)) = (.ok e, _) := Prod.ext h rfl
    exact Grammar.condition_free (.refl _) hread
  · intro h
    obtain ⟨d, hread, -⟩ := (Grammar.condition_restores hr h).ofText
    rw [Stable, hread]

theorem free_binary {o : String} {a b : Expr} (ho : o ∈ Operator.comparisons ∨ o ∈ Operator.likes ∨
    o ∈ Operator.chains) (ha : a.Free r) (hb : b.Free r) : (Expr.binary o a b).Free r := by
  have hoperands : ∀ e ∈ [a, b], e.Formed r := by simp [ha.1, hb.1]
  obtain ho | ho | ho := ho
  · have hno : ∀ o ∈ Operator.comparisons, o ∉ Operator.quantifiers := by decide
    exact Rule.free_operation (.comparison ho ha.2 (.inl hb.2)) hoperands (hno o ho)
  · have hno : ∀ o ∈ Operator.likes, o ∉ Operator.quantifiers := by decide
    exact Rule.free_operation (.like ho ha.2 hb.2) hoperands (hno o ho)
  · exact Rule.free_chain ho (by simp) (by simp [ha, hb])

theorem free_pairing {build : Expr → Expr → Expr} (h : build ∈ pairings) {a b : Expr}
    (ha : a.Free r) (hb : b.Free r) : (build a b).Free r := by
  simp only [pairings, List.mem_cons, List.not_mem_nil, or_false] at h
  obtain rfl | rfl | rfl | rfl | rfl | rfl | rfl | rfl | rfl := h
  all_goals
    apply free_binary _ ha hb
    decide

theorem free_test {build : Expr → Expr} (h : build ∈ tests) {a : Expr} (ha : a.Free r) :
    (build a).Free r := by
  have hoperands : ∀ e ∈ [a], e.Formed r := by simp [ha.1]
  simp only [tests, List.mem_cons, List.not_mem_nil, or_false] at h
  obtain rfl | rfl | rfl := h
  · exact Rule.free_operation (.not ha.2) hoperands
  · exact Rule.free_operation (.nullTest (by decide) ha.2) hoperands
  · exact Rule.free_operation (.nullTest (by decide) ha.2) hoperands

/-- Whatever is put together keeps the invariant. -/
theorem Assembled.free (hr : r.SparesOperators) {e : Expr} (h : e.Assembled r) : e.Free r := by
  induction h with
  | stable h => exact (stable_iff_free hr).mp h
  | pairing hbuild _ _ iha ihb => exact free_pairing hbuild iha ihb
  | test hbuild _ iha => exact free_test hbuild iha
  | between _ _ _ iha ihlow ihhigh =>
    apply Rule.free_operation (.range (by decide) iha.2 ihlow.2 ihhigh.2)
    simp [iha.1, ihlow.1, ihhigh.1]
  | isIn _ hne _ iha ihes =>
    apply Rule.free_operation (.membership (by decide) iha.2 hne fun e he => (ihes e he).2)
    exact List.forall_mem_cons.mpr ⟨iha.1, fun e he => (ihes e he).1⟩
  | @call text name arity args hname harity haccepts _ ihargs =>
    have hname : Token.IsName name := Cursor.written_ofText text _ hname
    have hno : Text.upper name ∉ Operator.quantifiers := fun hmem =>
      hname.upper.not_operator (Operator.quantifiers_subset _ hmem)
    exact Rule.free_operation (.call hname harity haccepts fun e he => .inl (ihargs e he).2)
      (fun e he => (ihargs e he).1) hno

end Expr

/-- However operators and calls over stable expressions are nested, the result is read from its own
    text. So an AND whose first operand is an AND keeps its two operands. -/
theorem assembled_stable (r : Registry) (hr : r.SparesOperators) :
    (∀ e : Expr, e.Assembled r → e.Stable r) ∧
      ∀ a b c : Expr, a.Stable r → b.Stable r → c.Stable r →
        ((a.and b).and c).Stable r ∧
          (Grammar.condition r (Cursor.ofText (((a.and b).and c).render r))).1 ≠
            .ok (.applied Operator.and [a, b, c]) := by
  have hall (e : Expr) (h : e.Assembled r) : e.Stable r :=
    (Expr.stable_iff_free hr).mpr (h.free hr)
  refine ⟨hall, fun a b c ha hb hc => ?_⟩
  have hand : Expr.and ∈ Expr.pairings := by simp [Expr.pairings]
  have hnested : ((a.and b).and c).Stable r :=
    hall _ (.pairing hand (.pairing hand (.stable ha) (.stable hb)) (.stable hc))
  refine ⟨hnested, fun hflat => ?_⟩
  have hsame : (a.and b).and c = .applied Operator.and [a, b, c] :=
    Except.ok.inj (hnested.symm.trans hflat)
  simp [Expr.and, Expr.binary, Expr.applied] at hsame

theorem assembled_stable_nested :
    let sum := Expr.call "sum" [(Expr.column "a").less (.number "1")]
    let e := (((sum.and .placeholder).and (.column "a")).negate.isIn [sum.isNull, .null]).between sum
      (.column "a")
    e.Stable Registry.builtin := by
  intro sum e
  have hcolumn : (Expr.column "a").Stable Registry.builtin := by decide +kernel
  have hnumber : (Expr.number "1").Stable Registry.builtin := by decide +kernel
  have hparameter : Expr.placeholder.Stable Registry.builtin := by decide +kernel
  have hnull : Expr.null.Stable Registry.builtin := by decide +kernel
  have hless : ((Expr.column "a").less (.number "1")).Assembled Registry.builtin :=
    .pairing (by simp [Expr.pairings]) (.stable hcolumn) (.stable hnumber)
  have hsum : sum.Assembled Registry.builtin := by
    have hname : .name "sum" ∈ (Cursor.ofText "sum").kinds := by decide +kernel
    have harity : Registry.builtin.arity? "sum" = some (.fixed 1) := by decide +kernel
    exact .call hname harity (by decide) (by simpa using hless)
  have hand : Expr.and ∈ Expr.pairings := by simp [Expr.pairings]
  have hconjunction : ((sum.and .placeholder).and (.column "a")).Assembled Registry.builtin :=
    .pairing hand (.pairing hand hsum (.stable hparameter)) (.stable hcolumn)
  have hlist : ∀ x ∈ [sum.isNull, .null], x.Assembled Registry.builtin := by
    simp only [List.forall_mem_cons]
    exact ⟨.test (by simp [Expr.tests]) hsum, .stable hnull, by simp⟩
  apply (assembled_stable _ Registry.builtin_sparesOperators).1
  apply Expr.Assembled.between _ hsum (.stable hcolumn)
  exact .isIn (.test (by simp [Expr.tests]) hconjunction) (by simp) hlist

end SqlFront
