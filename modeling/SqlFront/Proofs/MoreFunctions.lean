import Mathlib.Data.List.TakeWhile
import SqlFront.Proofs.Couplings
import SqlFront.Proofs.OtherFunctions

/-! # What has been read stays with more functions

Functions that are registered later could change what a text is read as: the registry is asked when a
call is read, when a select item is named by its text, and when a function is looked for in that text.
Main statement: a text that can be read is read in the same way after new functions have been
registered, if none of them is named like an operator or with a quote in its name.
-/

namespace SqlFront

namespace Text

/-- What is no white space is not cut off. -/
theorem mem_trimChars {c : Char} (h : isSpace c = false) (cs : List Char) :
    c ∈ trimChars cs ↔ c ∈ cs := by
  have hdrop (ds : List Char) : c ∈ ds.dropWhile isSpace ↔ c ∈ ds := by
    induction ds with
    | nil => rfl
    | cons d ds ih =>
      by_cases hd : isSpace d = true
      · have hne : c ≠ d := fun heq => by simp [heq, hd] at h
        simp [hd, ih, hne]
      · simp [hd]
  rw [trimChars, List.mem_reverse, hdrop, List.mem_reverse, hdrop]

theorem not_space_of_head {c : Char} (cs : List Char) (h : c ∈ (cs.dropWhile isSpace).head?) :
    isSpace c = false := by
  have hhead := List.head?_dropWhile_not isSpace cs
  rw [Option.mem_def.mp h] at hhead
  simpa using hhead

theorem trimChars_front (cs : List Char) : trimChars cs <+: cs.dropWhile isSpace := by
  simpa [trimChars] using (List.dropWhile_suffix isSpace (l := (cs.dropWhile isSpace).reverse)).reverse

/-- A text is trimmed once and for all. -/
theorem trimChars_trimChars (cs : List Char) : trimChars (trimChars cs) = trimChars cs := by
  have hlast : (trimChars cs).reverse.dropWhile isSpace = (trimChars cs).reverse := by
    refine Token.dropWhile_of_head fun c hc => not_space_of_head (cs.dropWhile isSpace).reverse ?_
    rwa [trimChars, List.reverse_reverse] at hc
  have hfirst : (trimChars cs).dropWhile isSpace = trimChars cs := by
    refine Token.dropWhile_of_head fun c hc => not_space_of_head cs ?_
    obtain ⟨rest, hrest⟩ := trimChars_front cs
    rw [← hrest, List.head?_append, Option.mem_def.mp hc]
    rfl
  rw [trimChars, hfirst, hlast, List.reverse_reverse]

/-- Nothing is cut off where no white space stands. -/
theorem trimChars_eq_self {cs : List Char} (hfirst : ∀ c ∈ cs.head?, isSpace c = false)
    (hlast : ∀ c ∈ cs.getLast?, isSpace c = false) : trimChars cs = cs := by
  rw [← List.head?_reverse] at hlast
  rw [trimChars, Token.dropWhile_of_head hfirst, Token.dropWhile_of_head hlast, List.reverse_reverse]

/-- Up to a character that is not there is everything. -/
theorem takeWhile_ne {c : Char} {cs : List Char} (h : c ∉ cs) : cs.takeWhile (· != c) = cs := by
  rw [List.takeWhile_eq_self_iff]
  exact fun d hd => by simpa using fun heq : d = c => h (heq ▸ hd)

end Text

/-- No white space stands in a word. -/
theorem Lexeme.continuesName_not_space {c : Char} (h : continuesName c = true) :
    Text.isSpace c = false := by
  have hspaces : ∀ n ∈ spaces, Text.inRanges Text.numeralRanges n = false := by decide +kernel
  rw [← Bool.not_eq_true]
  intro hspace
  simp only [continuesName, Bool.or_eq_true, beq_iff_eq] at h
  obtain ((hletter | hnumeral) | rfl) | rfl := h
  · rw [(isLetter_separate hletter).1] at hspace
    cases hspace
  · unfold Text.isNumeral at hnumeral
    split at hnumeral
    · have hdigit := isDigit_iff.mp hnumeral
      simp [Text.isSpace] at hspace
      omega
    · rename_i hlarge
      rw [hspaces _ (mem_spaces hspace (by omega))] at hnumeral
      cases hnumeral
  · cases hspace
  · cases hspace

theorem Lexeme.continuesName_of_startsName {c : Char} (h : startsName c = true) :
    continuesName c = true := by
  simp only [startsName, Bool.or_eq_true] at h
  simp only [continuesName, Bool.or_eq_true]
  exact h.elim (fun h => .inl (.inl (.inl h))) fun h => .inl (.inr h)

theorem Text.continuesName_of_isWordText {s : String} (h : isWordText s = true) {c : Char}
    (hc : c ∈ s.toList) : Lexeme.continuesName c = true := by
  obtain ⟨d, cs, hs, hd, hcs⟩ := isWordText_iff.mp h
  rw [hs] at hc
  obtain rfl | hc := List.mem_cons.mp hc
  · exact Lexeme.continuesName_of_startsName hd
  · exact hcs c hc

/-- A name begins and ends with a character of a word or with a double quote. -/
theorem Token.IsName.edges {name : String} (h : IsName name) {c : Char}
    (hc : c ∈ name.toList.head? ∨ c ∈ name.toList.getLast?) :
    Lexeme.continuesName c = true ∨ c = '\x22' := by
  cases h with
  | word hword _ =>
    have hmem : c ∈ name.toList := hc.elim List.mem_of_mem_head? List.mem_of_mem_getLast?
    exact .inl (Text.continuesName_of_isWordText hword hmem)
  | quoted cs =>
    rw [String.toList_ofList] at hc
    refine .inr ?_
    obtain hc | hc := hc
    · exact (Option.some.inj hc).symm
    · rw [← List.cons_append, List.getLast?_concat] at hc
      exact (Option.some.inj hc).symm

/-- A name is trimmed. -/
theorem Token.IsName.trim {name : String} (h : IsName name) : Text.trim name = name := by
  have hspace {c : Char} (hc : c ∈ name.toList.head? ∨ c ∈ name.toList.getLast?) :
      Text.isSpace c = false := by
    obtain hc | rfl := h.edges hc
    · exact Lexeme.continuesName_not_space hc
    · rfl
  have htrim := Text.trimChars_eq_self (fun _ hc => hspace (.inl hc)) fun _ hc => hspace (.inr hc)
  rw [Text.trim, htrim, String.ofList_toList]

namespace Registry

variable {r r' : Registry}

/-! ## Registering -/

/-- The registry with more functions, registered one after another. -/
def registerAll (r : Registry) (signatures : List Signature) : Registry :=
  signatures.foldl (fun r s => r.register s.name s.arity) r

/-- Whether a text has a quote in it. -/
def Quoted (name : String) : Prop := '\x27' ∈ name.toList ∨ '\x22' ∈ name.toList

/-- A function that may be registered later: not known yet, not named like an operator, and without a
    quote in its name. -/
structure Fresh (r : Registry) (name : String) : Prop where
  unknown : r.isFunction name = false
  spares : normalName name ∉ Operator.texts
  unquoted : ¬ Quoted name

/-- The second registry knows more functions, but none of the new ones is named like an operator or
    with a quote in its name. -/
structure Extends (r' r : Registry) : Prop where
  includes : r'.Includes r
  operators : r.AgreeOnOperators r'
  quoted : ∀ name, Quoted name → r.isFunction name = r'.isFunction name

theorem arity?_register (r : Registry) (name other : String) (arity : Arity) :
    (r.register name arity).arity? other =
      if normalName other = normalName name then some arity else r.arity? other :=
  lookup_insertEntry ..

/-- A function is known as before unless it has been registered since. -/
theorem arity?_registerAll (r : Registry) (signatures : List Signature) (name : String) :
    (r.registerAll signatures).arity? name = r.arity? name ∨
      ∃ s ∈ signatures, normalName name = normalName s.name := by
  induction signatures generalizing r with
  | nil => exact .inl rfl
  | cons s signatures ih =>
    obtain h | ⟨s', hs', hname⟩ := ih (r.register s.name s.arity)
    · by_cases hname : normalName name = normalName s.name
      · exact .inr ⟨s, List.mem_cons_self .., hname⟩
      · refine .inl (h.trans ?_)
        rw [arity?_register, if_neg hname]
    · exact .inr ⟨s', List.mem_cons_of_mem _ hs', hname⟩

theorem normalName_trim (name : String) : normalName (Text.trim name) = normalName name := by
  rw [normalName, normalName, Text.trim, Text.trim, String.toList_ofList, Text.trimChars_trimChars]

theorem isFunction_trim (r : Registry) (name : String) :
    r.isFunction (Text.trim name) = r.isFunction name := by
  rw [isFunction, isFunction, arity?, arity?, normalName_trim]

theorem isFunction_upper (r : Registry) (name : String) :
    r.isFunction (Text.upper name) = r.isFunction name := by
  rw [isFunction, isFunction, arity?_upper]

theorem Includes.isFunction (h : r'.Includes r) {name : String} (hname : r.isFunction name = true) :
    r'.isFunction name = true := by
  obtain ⟨arity, harity⟩ := Option.isSome_iff_exists.mp hname
  rw [Registry.isFunction, h name arity harity]
  rfl

/-- Signs and numerals of a name are those of the name as it is given. -/
theorem mem_normalName {c : Char} (hsmall : c.toNat < 65) (hspace : Text.isSpace c = false)
    (name : String) : c ∈ (normalName name).toList ↔ c ∈ name.toList := by
  rw [normalName, Text.upper, Text.trim, String.toList_ofList, String.toList_ofList,
    ← Text.mem_trimChars hspace name.toList]
  simp [Text.toUpper_eq_iff hsmall]

theorem quoted_normalName {name : String} : Quoted (normalName name) ↔ Quoted name := by
  rw [Quoted, Quoted, mem_normalName (by decide) rfl, mem_normalName (by decide) rfl]

theorem normalName_operator : ∀ o ∈ Operator.texts, normalName o = o := by decide

theorem registerAll_extends {signatures : List Signature} (h : ∀ s ∈ signatures, r.Fresh s.name) :
    (r.registerAll signatures).Extends r := by
  have hkept {name : String} (hname : ∀ s ∈ signatures, normalName name ≠ normalName s.name) :
      (r.registerAll signatures).arity? name = r.arity? name :=
    (arity?_registerAll r signatures name).resolve_right fun ⟨s, hs, heq⟩ => hname s hs heq
  constructor
  · intro name arity harity
    rw [hkept, harity]
    intro s hs heq
    have hunknown := (h s hs).unknown
    rw [isFunction, arity?, ← heq, ← arity?, harity] at hunknown
    cases hunknown
  · intro o ho
    rw [isFunction, isFunction, hkept]
    intro s hs heq
    rw [normalName_operator o ho] at heq
    exact (h s hs).spares (heq ▸ ho)
  · intro name hname
    rw [isFunction, isFunction, hkept]
    intro s hs heq
    exact (h s hs).unquoted (quoted_normalName.mp (heq ▸ quoted_normalName.mpr hname))

/-! ## The function that a text calls -/

/-- What stands before the first parenthesis of a text. -/
def callee (text : String) : String :=
  String.ofList (text.toList.takeWhile (· != '('))

theorem call?_congr {text : String} (h : r.isFunction (callee text) = r'.isFunction (callee text)) :
    r.call? text = r'.call? text := by
  rw [callee] at h
  simp only [call?, isFunction_trim, h]

/-- A text without parentheses calls nothing. -/
theorem call?_bare {text : String} (h : '(' ∉ text.toList) : r.call? text = none := by
  simp [call?, Text.takeWhile_ne h]

/-- A text that starts with a parenthesis calls nothing. -/
theorem call?_paren (rest : String) : r.call? ("(" ++ rest) = none := by
  simp [call?]

theorem callee_append {name : String} (h : '(' ∉ name.toList) (rest : String) :
    callee (name ++ "(" ++ rest) = name := by
  have hall : ∀ c ∈ name.toList, (c != '(') = true := fun c hc => by
    simpa using fun heq : c = '(' => h (heq ▸ hc)
  simp [callee, List.takeWhile_append_of_pos hall]

/-- The first character of a text stands before its first parenthesis. -/
theorem mem_callee {c : Char} (hc : c ≠ '(') {text : String} (h : c ∈ text.toList.head?) :
    c ∈ (callee text).toList := by
  obtain ⟨cs, htext⟩ := List.head?_eq_some_iff.mp h
  simp [callee, htext, hc]

end Registry

/-! ## Select items -/

open Registry

variable {r r' : Registry}

theorem Token.IsNumber.no_paren {s : String} (h : Token.IsNumber s) : '(' ∉ s.toList := by
  have hdigits {ds : List Char} (hds : ∀ c ∈ ds, c.isDigit = true) : '(' ∉ ds := fun hmem =>
    absurd (hds _ hmem) (by decide)
  obtain ⟨hwhole, hplaces, hpower, -⟩ := h
  rw [String.toList_ofList, List.mem_append, List.mem_append]
  rintro ((hmem | hmem) | hmem)
  · exact hdigits hwhole hmem
  · cases hplaces with
    | absent => cases hmem
    | present hds => exact hdigits hds (by simpa using hmem)
  · cases hpower with
    | absent => cases hmem
    | present he hsigns hds =>
      refine hdigits hds ?_
      rcases he with rfl | rfl <;> rcases hsigns with rfl | rfl | rfl <;> simpa using hmem

/-- A name that is called stands before the parenthesis, or there is a quote. -/
theorem Token.IsName.callee {name : String} (h : Token.IsName name) (rest : String) :
    callee (name ++ "(" ++ rest) = name ∨ Quoted (callee (name ++ "(" ++ rest)) := by
  cases h with
  | word hword _ =>
    refine .inl (callee_append (fun hmem => ?_) rest)
    exact absurd (Text.continuesName_of_isWordText hword hmem) (by decide)
  | quoted cs =>
    exact .inr (.inr (mem_callee (by decide) (by simp)))

theorem Operator.bracketed_plain : ∀ o ∈ bracketed, '(' ∉ o.toList ∧
    (isQuantifier o || Text.sameWord o union) = false := by
  decide

/-- The text of an operation between parentheses, unless it is written as a call. -/
theorem Operation.layout_bracketed {op : Operation Expr} (h : op.operator ∈ Operator.bracketed)
    (texts : List String) :
    (∃ rest, op.layout r texts = op.operator ++ "(" ++ rest) ∨
      ∃ rest, op.layout r texts = "(" ++ rest := by
  unfold Operation.layout
  simp only [(Operator.bracketed_plain _ h).2, Bool.false_eq_true, if_false]
  split
  · exact .inl ⟨_, String.append_assoc ..⟩
  iterate 7 exact .inr ⟨_, String.append_assoc ..⟩

namespace Registry.Extends

variable (h : r'.Extends r)

include h

theorem call?_quoted {text : String} (ht : Quoted (callee text)) : r.call? text = r'.call? text :=
  call?_congr (h.quoted _ ht)

theorem call?_constant {c : Constant} (hform : c.Form) (hcolumn : c.kind ≠ .column) :
    r.call? c.render = r'.call? c.render := by
  cases hform with
  | star | column => exact absurd rfl hcolumn
  | null => rw [call?_bare (by decide), call?_bare (by decide)]
  | number hnumber => rw [Constant.render, call?_bare hnumber.no_paren, call?_bare hnumber.no_paren]
  | string => exact h.call?_quoted (.inl (mem_callee (by decide) (by simp [Constant.render])))

/-- A call names a function that stays known. -/
theorem call?_name {name : String} (hname : Token.IsName name) (hknown : r.isFunction name = true)
    (rest : String) :
    r.call? (Text.upper name ++ "(" ++ rest) = r'.call? (Text.upper name ++ "(" ++ rest) := by
  obtain hcallee | hcallee := hname.upper.callee rest
  · refine call?_congr ?_
    rw [hcallee, isFunction_upper, isFunction_upper, hknown, h.includes.isFunction hknown]
  · exact h.call?_quoted hcallee

theorem call?_bracketed {op : Operation Expr} (ho : op.operator ∈ Operator.bracketed)
    (texts : List String) : r.call? (op.layout r texts) = r'.call? (op.layout r texts) := by
  obtain ⟨rest, hrest⟩ | ⟨rest, hrest⟩ := op.layout_bracketed ho texts
  · rw [hrest]
    refine call?_congr ?_
    rw [callee_append (Operator.bracketed_plain _ ho).1]
    exact h.operators _ (Operator.bracketed_subset _ ho)
  · rw [hrest, call?_paren, call?_paren]

/-- The text of an expression that may stand anywhere calls the same function, if any, when more
    functions are known. -/
theorem call?_render {e : Expr} (he : e.Free r) (hcolumn : e.isColumn = false) :
    r.call? (e.render r) = r'.call? (e.render r) := by
  obtain ⟨hformed, -, hplain⟩ := he
  cases hformed with
  | placeholder => rw [Expr.render, call?_bare (by decide), call?_bare (by decide)]
  | query => rw [Expr.render_query, String.append_assoc, call?_paren, call?_paren]
  | @constant c hform =>
    rw [Expr.render]
    exact h.call?_constant hform (by rintro hkind; simp [Expr.isColumn, hkind] at hcolumn)
  | @operation op hform _ =>
    rw [Expr.render_operation]
    obtain ⟨hcall, name, hname, hknown, hop⟩ | ho | ho := hform.operator_cases
    · obtain ⟨o, operands, call⟩ := op
      obtain rfl : call = true := hcall
      obtain rfl : o = Text.upper name := hop
      rw [Operation.layout_call, String.append_assoc]
      exact h.call?_name hname hknown _
    · exact h.call?_bracketed ho _
    · exact absurd ho (hplain op rfl)

end Registry.Extends

/-- An item is named alike, with the same function, when more functions are known. -/
theorem SelectItem.ofExpr_congr (h : r'.Extends r) {e : Expr} (he : e.Free r) :
    SelectItem.ofExpr r e = SelectItem.ofExpr r' e := by
  have hrender := (he.1.render_congr h.operators).1
  unfold SelectItem.ofExpr
  split
  · rfl
  · rename_i hother
    have hcolumn : e.isColumn = false := by
      by_contra hcolumn
      obtain ⟨t, rfl, -⟩ := he.1.column he.2 (by simpa using hcolumn)
      exact hother t rfl
    simp only [← hrender, h.call?_render he hcolumn]

/-! ## What is read -/

/-- Readings over a registry and over one with more functions, from places in a text. -/
def growing : Coupling where
  stands c := Token.Written c.kinds
  failure _ _ := True
  stands_reaches hc hd := by
    obtain ⟨tokens, hpasses⟩ := hd
    rw [hpasses.moves.kinds] at hc
    exact (Token.written_append.mp hc).2
  unexpected _ _ := trivial
  other _ _ := trivial

namespace Grammar

open Coupling

/-- Expressions that are read have the same names in both registries. -/
theorem growing_names (h : r'.Extends r) (depth : Nat) :
    growing.Names r r' (readersOfDepth r depth) := by
  intro c e d hc he
  have hfollow : (readersOfDepth r depth).Follow (Rule.formed r) :=
    readersOfDepth_follow (fun _ _ _ h hks => h.free hks) (fun _ _ h hks => h.formed hks) depth
  obtain ⟨ks, hmoves, hfree⟩ := hfollow.expression 0 he
  have hwritten : Token.Written c.kinds := hc
  rw [hmoves.kinds] at hwritten
  exact SelectItem.ofExpr_congr h (hfree (Token.written_append.mp hwritten).1)

theorem growing_parts (h : r'.Extends r) : growing.Parts (readers r) (readers r') :=
  readers_coupled h.includes (growing_names h)

end Grammar

/-- What can be read from any place of a text, a statement, all statements or an expression, is read in
    the same way, up to the same place, after any functions that are new, that are not named like an
    operator, and that have no quote in their names have been registered. -/
theorem read_with_more_functions (r : Registry) (signatures : List Signature)
    (hfresh : ∀ s ∈ signatures, r.Fresh s.name) (text : String) (c d : Cursor)
    (hc : (Cursor.ofText text).Reaches c) :
    (∀ s, Grammar.statement? r c = (.ok s, d) →
      Grammar.statement? (r.registerAll signatures) c = (.ok s, d)) ∧
    (∀ ss, Grammar.statements r c = (.ok ss, d) →
      Grammar.statements (r.registerAll signatures) c = (.ok ss, d)) ∧
    ∀ e, Grammar.condition r c = (.ok e, d) →
      Grammar.condition (r.registerAll signatures) c = (.ok e, d) := by
  have hparts := Grammar.growing_parts (registerAll_extends hfresh)
  have hstands : growing.stands c := growing.stands_reaches (Cursor.written_ofText text) hc
  exact ⟨fun _ h => (Grammar.statement?_coupled hparts).ok hstands h,
    fun _ h => (Grammar.statements_coupled hparts).ok hstands h,
    fun _ h => (Grammar.condition_coupled hparts).ok hstands h⟩

theorem read_with_more_functions_calls :
    ∃ s d, Grammar.statement? Registry.builtin
        (Cursor.ofText "select sum(t.a) s, 'left(', (a + max(b)) from t") = (.ok (some s), d) ∧
      Grammar.statement? (Registry.builtin.registerAll [⟨"left", .variadic⟩, ⟨" a b ", .fixed 2⟩])
        (Cursor.ofText "select sum(t.a) s, 'left(', (a + max(b)) from t") = (.ok (some s), d) := by
  have hfresh : ∀ s ∈ [⟨"left", .variadic⟩, (⟨" a b ", .fixed 2⟩ : Signature)],
      Registry.builtin.Fresh s.name := by
    intro s hs
    have hall : ∀ s ∈ [⟨"left", .variadic⟩, (⟨" a b ", .fixed 2⟩ : Signature)],
        Registry.builtin.isFunction s.name = false ∧ normalName s.name ∉ Operator.texts ∧
          ¬ ('\x27' ∈ s.name.toList ∨ '\x22' ∈ s.name.toList) := by
      decide
    exact ⟨(hall s hs).1, (hall s hs).2.1, (hall s hs).2.2⟩
  have hread : ((Grammar.statement? Registry.builtin (Cursor.ofText
      "select sum(t.a) s, 'left(', (a + max(b)) from t")).1.toOption.bind id).isSome = true := by
    decide +kernel
  obtain ⟨s, hs⟩ := ok_of_isSome hread
  refine ⟨s, _, Prod.ext hs rfl, ?_⟩
  exact (read_with_more_functions _ _ hfresh _ _ _ (.refl _)).1 _ (Prod.ext hs rfl)

end SqlFront
