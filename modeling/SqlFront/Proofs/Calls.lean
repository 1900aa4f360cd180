import SqlFront.Proofs.Joining
import SqlFront.Proofs.MoreFunctions
import SqlFront.Proofs.RoundTrip

/-! # Calls

A name with an argument list behind it is a call. Main statement: with arguments written as they have
been read, the call gives an error that covers the name if no such function is registered, an error
that covers the whole call if the function does not take that many arguments, and otherwise the call
with just these arguments.
-/

namespace SqlFront

/-! ## Where the last token ends -/

/-- An open quote takes in everything. -/
theorem Lexeme.rest_of_unclosed {c : Char} {cs : List Char} (h : (first c cs).kind.Unclosed) :
    (first c cs).rest = [] := by
  have hstands := first_standsOn c cs
  have happend := first_append c cs
  obtain hkind | hkind := h
  all_goals
    rw [hkind] at hstands
    obtain ⟨ds, hchars, -⟩ := hstands
    rw [hchars, List.cons_append] at happend
    obtain ⟨rfl, -⟩ := List.cons.inj happend
  · have hstring : first '\x27' cs = string cs := rfl
    rw [hstring, string] at hkind ⊢
    split at hkind
    · cases hkind
    · rfl
  · have hname : first '\x22' cs = quotedName cs := rfl
    rw [hname, quotedName] at hkind ⊢
    split at hkind
    · cases hkind
    · rfl

/-- Only before the slash of its closing sign is a comment about to be closed. -/
theorem Layout.after?_closing {layout : Layout} {c : Char} {cs : List Char}
    (h : layout.after? c cs = some .closing) : cs.head? = some '/' := by
  cases layout <;> grind [after?]

/-- If there is nothing but layout up to a parenthesis, the parenthesis stands in a comment, and the
    comment takes in what follows. -/
theorem Layout.skip_paren (layout : Layout) (cs : List Char)
    (hclosing : layout = .closing → (cs ++ [')']).head? = some '/')
    (h : (layout.skip (cs ++ [')'])).2 = []) : (layout.skip (cs ++ [')'] ++ [' ', '('])).2 = [] := by
  induction cs generalizing layout with
  | nil =>
    cases layout with
    | blank => cases h
    | line | opening | block => rfl
    | closing => exact absurd (hclosing rfl) (by decide)
  | cons c cs ih =>
    have hhead : (cs ++ [')'] ++ [' ', '(']).head? = (cs ++ [')']).head? := by cases cs <;> rfl
    have hsame : layout.after? c (cs ++ [')'] ++ [' ', '(']) = layout.after? c (cs ++ [')']) := by
      cases layout <;> simp only [after?, hhead]
    rw [List.cons_append, skip] at h
    rw [List.cons_append, List.cons_append, skip, hsame]
    split at h
    · cases h
    · rename_i next hnext
      exact ih next (fun hclosing => after?_closing (hclosing ▸ hnext)) h

namespace Scanner

open Token

/-- A text that ends with a parenthesis ends with its last token, if another parenthesis behind it
    would be read as one. -/
theorem Cuts.rest_eq_nil {s last : Scanner} {ts : List Token} (h : Cuts s ts last)
    (hrest : s.rest = [] ∨ [')'] <:+ s.rest)
    (hlex : Lexes (s.rest ++ [' ', '(']) (ts.map (·.kind) ++ [.symbol .leftParen])) :
    last.rest = [] := by
  induction h with
  | @finish s heof =>
    obtain hrest | ⟨front, hrest⟩ := hrest
    · exact hrest
    · have hskip := next_eof_iff.mp heof
      rw [← hrest] at hskip hlex
      cases hlex.unique (.done (Layout.skip_paren .blank front nofun hskip))
  | @token s ts last hne _ ih =>
    cases hskip : (Layout.skip .blank s.rest).2 with
    | nil => exact absurd (next_eof_iff.mpr hskip) hne
    | cons c cs =>
      have hbreak := break_space ['(']
      obtain ⟨start, -, hnext⟩ := next_token hskip
      obtain ⟨hkind, hbehind⟩ := hlex.of_skip (congrArg Prod.snd (Layout.skip_before hbreak hskip))
      rw [hnext] at ih hkind
      -- The token is closed, since the parenthesis behind the text is not part of it.
      have hclosed : ¬ (Lexeme.first c cs).kind.Unclosed := by
        intro hopen
        rw [Lexeme.rest_of_unclosed (hkind ▸ hopen)] at hbehind
        cases (List.append_ne_nil_of_right_ne_nil _ (List.cons_ne_nil _ _)) (hbehind.unique (.done rfl))
      rw [Lexeme.first_before hbreak hclosed] at hbehind
      refine ih ?_ hbehind
      have hparts := Layout.skip_append .blank s.rest
      rw [hskip, ← Lexeme.first_append c cs, ← List.append_assoc] at hparts
      obtain hrest | hrest := hrest
      · rw [hrest] at hparts
        exact .inl (List.append_eq_nil_iff.mp hparts).2
      · have hsuffix : (Lexeme.first c cs).rest <:+ s.rest := ⟨_, hparts⟩
        obtain hshort | hlong := List.suffix_or_suffix_of_suffix hsuffix hrest
        · obtain heq | hnil := List.suffix_cons_iff.mp hshort
          · exact .inr (heq ▸ List.suffix_rfl)
          · exact .inl (List.suffix_nil.mp hnil)
        · exact .inr hlong

end Scanner

namespace Token

theorem stop_append (start : Nat) (tokens : List Token) (t : Token) :
    stop start (tokens ++ [t]) = t.span.stop := by
  induction tokens generalizing start with
  | nil => rfl
  | cons u tokens ih => exact ih _

/-- The last token of a text between parentheses ends with the text. -/
theorem stop_of_spells {s : String} {ks : List Kind} (h : Spells (s ++ ")") ks) :
    stop 0 (scan (s ++ ")")).1 = Text.byteLength (s ++ ")").toList := by
  have hcuts := Scanner.cuts_tokens (s := Scanner.start (s ++ ")")) (Nat.le_of_eq String.length_toList)
  obtain ⟨-, hin, hstop, -⟩ := tiles_of_cuts hcuts (Scanner.in_start _)
  have hkinds : (Scanner.tokens (s ++ ")").length (Scanner.start (s ++ ")"))).1.map (·.kind) = ks :=
    Cursor.kinds_ofText h.lexes
  have hskip : (Layout.skip .blank [' ', '(']).2 = ['('] := rfl
  have hopen : Lexes [' ', '('] [.symbol .leftParen] := .token hskip (.done rfl)
  have hend := hcuts.rest_eq_nil (.inr ⟨s.toList, by simp [Scanner.start]⟩)
    (hkinds ▸ h _ _ (by simp [Boundary]) hopen)
  rw [← hin.end_eq, hend, Text.byteLength_nil, Nat.add_zero, hstop]
  rfl

end Token

namespace Cursor

/-- A cursor at the beginning of a text stands at its first token. -/
theorem current_ofText (text : String) : (ofText text).current = (Scanner.start text).next.1 := by
  have hcuts := Scanner.cuts_tokens (s := Scanner.start text) (Nat.le_of_eq String.length_toList)
  generalize (Scanner.start text).tokens text.length = result at hcuts
  obtain ⟨tokens, last⟩ := result
  obtain ⟨-, -, -, heof⟩ := Token.tiles_of_cuts hcuts (Scanner.in_start text)
  have hfirst : (Scanner.start text).next.1 = tokens[0]?.getD last.next.1 := hcuts.after_next 0
  rw [hfirst, current, ofText, Token.scan_of_cuts hcuts]
  cases tokens with
  | nil => simp [← heof]
  | cons t ts => rfl

/-- A name at the beginning of a text covers its characters. -/
theorem span_ofText {name : String} (hname : Token.IsName name) {rest : String}
    (h : (ofText (name ++ rest)).current.kind = .name name) :
    (ofText (name ++ rest)).current.span = ⟨0, Text.byteLength name.toList⟩ := by
  rw [current_ofText] at h ⊢
  obtain ⟨c, cs, hcs, hc⟩ := hname.first
  have hlayout : Layout.after? .blank c (cs ++ rest.toList) = none := by
    obtain hc | rfl := hc
    · exact Lexeme.after?_of_startsName hc
    · rfl
  have hskip : Layout.skip .blank (Scanner.start (name ++ rest)).rest =
      ([], c :: (cs ++ rest.toList)) := by
    rw [Scanner.start, String.toList_append, hcs, List.cons_append, Layout.skip, hlayout]
  obtain ⟨start, hstart, hnext⟩ := Scanner.next_token (congrArg Prod.snd hskip)
  rw [hskip] at hstart
  obtain rfl : start = 0 := hstart
  rw [hnext] at h ⊢
  have hstands := Lexeme.first_standsOn c (cs ++ rest.toList)
  have hkind : (Lexeme.first c (cs ++ rest.toList)).kind = .name name := h
  rw [hkind] at hstands
  simp [hstands.1]

/-- Behind all tokens of a text that ends with a parenthesis the last one ends with the text. -/
theorem lastSpan_ofText {s : String} {ks : List Token.Kind} (h : Token.Spells (s ++ ")") ks)
    (hne : ks ≠ []) {d : Cursor} (hm : (ofText (s ++ ")")).Moves ks d) :
    d.lastSpan.stop = Text.byteLength (s ++ ")").toList := by
  have hend : d.kinds = [] := by
    have hkinds := hm.kinds
    rw [kinds_ofText h.lexes] at hkinds
    exact List.append_cancel_left (hkinds.symm.trans (List.append_nil ks).symm)
  obtain ⟨tokens, hpasses, rfl⟩ := hm
  have hall : (Token.scan (s ++ ")")).1 = tokens := by
    have hahead := hpasses.ahead
    rwa [List.map_eq_nil_iff.mp hend, List.append_nil] at hahead
  obtain ⟨front, last, rfl⟩ := (List.eq_nil_or_concat' tokens).resolve_left fun hnil => hne (by rw [hnil]; rfl)
  rw [← Token.stop_of_spells h, hall, Token.stop_append, lastSpan, hpasses.behind, List.reverse_append]
  rfl

end Cursor

namespace Grammar

open Reading Token Kind

variable {r : Registry} {part : Readers} {ks : List Kind}

/-! ## Conditions that are calls -/

/-- Where an operand cannot be read, no condition can. -/
theorem condition_error {c d : Cursor} {error : ReadError}
    (hstart : c.current.kind.startsPrimary = true)
    (h : primary r (readers r) c = (.error error, d)) : condition r c = (.error error, d) := by
  have hwhere : c.current.kind ≠ .keyword .where := by
    intro hk
    rw [hk] at hstart
    cases hstart
  have hskip : discard (acceptKeyword .where) c = (.ok (), c) :=
    discard_ok.mpr ⟨false, acceptKeyword_ok.mpr (.inr ⟨rfl, hwhere, rfl⟩)⟩
  have hexpression : (readers r).expression 0 c = (.error error, d) := by
    rw [expression_readers, expression, bind_apply, operand_of_primary hstart, h]
  rw [condition, bind_apply, hskip]
  dsimp only
  rw [bind_apply, hexpression]

/-- A call by itself is read as a condition. -/
theorem condition_reads_call {name : String} {arity : Arity} {args : List Expr}
    (harity : r.arity? name = some arity) (haccepts : arity.accepts args.length = true)
    (hargs : Reads (arguments (readers r)) (· = .symbol .rightParen) ks args) :
    Reads (condition r) (· = .eof) (.name name :: (.symbol .leftParen :: ks ++ [.symbol .rightParen]))
      (.call name args) := by
  have hexpression : Reads (expression r (readers r) 0) (·.stops 0 = true) _ (.call name args) :=
    expression_reads_primary (call_reads harity haccepts hargs)
  rw [← expression_readers] at hexpression
  refine condition_reads (hexpression.weaken ?_)
  rintro _ rfl
  rfl

/-- What can be read anywhere in a text as an expression. -/
def IsRead (r : Registry) (e : Expr) : Prop :=
  ∃ text c d power, (Cursor.ofText text).Reaches c ∧ (readers r).expression power c = (.ok e, d)

theorem IsRead.free {e : Expr} (h : IsRead r e) : e.Free r := by
  obtain ⟨text, c, d, power, hc, he⟩ := h
  obtain ⟨ks, hm, hfree⟩ := (Rule.readers_formed r).expression power he
  exact hfree (hc.written hm)

theorem IsRead.of_condition {text : String} {c d : Cursor} {e : Expr}
    (hc : (Cursor.ofText text).Reaches c) (h : condition r c = (.ok e, d)) : IsRead r e := by
  rw [condition] at h
  obtain ⟨_, c', hwhere, h⟩ := bind_ok.mp h
  obtain ⟨_, d', he, h⟩ := bind_ok.mp h
  obtain ⟨_, f, -, h⟩ := bind_ok.mp h
  obtain ⟨rfl, rfl⟩ := pure_ok.mp h
  have hforward := (discard (acceptKeyword .where)).forward c
  rw [hwhere] at hforward
  exact ⟨text, c', d', 0, hc.trans hforward, he⟩

/-- A name with arguments behind it in parentheses. -/
def callText (r : Registry) (name : String) (args : List Expr) : String :=
  name ++ "(" ++ Text.join "," (args.map (Expr.render r)) ++ ")"

theorem callText_spelled (hr : r.SparesOperators) {name : String} (hname : IsName name)
    {args : List Expr} (hargs : ∀ e ∈ args, e = Expr.star ∨ IsRead r e) :
    ∃ ks, Spells (callText r name args)
        (.name name :: (.symbol .leftParen :: ks ++ [.symbol .rightParen])) ∧
      Reads (arguments (readers r)) (· = .symbol .rightParen) ks args := by
  obtain ⟨ks, hs, hread⟩ := arguments_restores fun e he =>
    (hargs e he).symm.imp_left fun h => restored_of_free hr h.free
  have hcallee : Spells name [.name name] := (spells_name hname).weaken fun _ => Boundary.nameEnd
  have hall := hcallee.append (hs.parens.weaken fun _ _ => trivial) (by
    rw [String.append_assoc]
    exact separate_append _ (by decide))
  rw [← String.append_assoc, ← String.append_assoc] at hall
  exact ⟨ks, hall, hread⟩

/-- The tokens of a call, and the places where the name and the whole text end. -/
theorem callText_moves {name : String} {args : List Expr} {ks : List Kind} (hname : IsName name)
    (h : Spells (callText r name args)
      (.name name :: (.symbol .leftParen :: ks ++ [.symbol .rightParen]))) :
    ∃ c d, (Cursor.ofText (callText r name args)).Moves [.name name] c ∧
      c.Moves (.symbol .leftParen :: ks ++ [.symbol .rightParen]) d ∧ d.kinds = [] ∧
      (Cursor.ofText (callText r name args)).current.span = ⟨0, Text.byteLength name.toList⟩ ∧
      (Span.mk 0 (Text.byteLength name.toList)).merge d.lastSpan =
        ⟨0, Text.byteLength (callText r name args).toList⟩ := by
  have hkinds := Cursor.kinds_ofText h.lexes
  rw [← List.singleton_append] at hkinds
  obtain ⟨c, hm, hc⟩ := Cursor.exists_moves hkinds
  obtain ⟨d, hm', hd⟩ := Cursor.exists_moves (hc.trans (List.append_nil _).symm)
  refine ⟨c, d, hm, hm', hd, ?_, ?_⟩
  · have hfirst := hm.current_cons
    rw [callText, String.append_assoc, String.append_assoc] at hfirst ⊢
    exact Cursor.span_ofText hname hfirst
  · have hlast : d.lastSpan.stop = Text.byteLength (callText r name args).toList :=
      Cursor.lastSpan_ofText h (List.cons_ne_nil _ _) (hm.trans hm')
    have hless : Text.byteLength name.toList ≤ Text.byteLength (callText r name args).toList := by
      simp only [callText, String.toList_append, Text.byteLength_append]
      omega
    rw [Span.merge, hlast, Nat.zero_min, Nat.max_eq_right hless]

end Grammar

theorem Registry.arity?_eq_none {r : Registry} {name : String} (h : Token.IsName name) :
    r.arity? name = none ↔ Text.upper name ∉ r.names := by
  rw [arity?, normalName, h.trim, List.lookup_eq_none_iff, names, List.mem_map, not_exists]
  refine forall_congr' fun entry => ?_
  rw [not_and, bne_iff_ne, ne_comm]

open Grammar in
/-- A name with arguments behind it, each a star or written as an expression that has been read, is an
    error that covers the name if no function of that name is known in any capitals, an error from the
    name to the closing parenthesis if the function does not take so many arguments, and otherwise the
    call in capitals with just these arguments in their order. -/
theorem call_recognised (r : Registry) (hr : r.SparesOperators) (source name : String)
    (hname : .name name ∈ (Cursor.ofText source).kinds) (args : List Expr)
    (hargs : ∀ e ∈ args, e = Expr.star ∨ IsRead r e) :
    (r.arity? name = none ↔ Text.upper name ∉ r.names) ∧
    (∀ other, Text.sameWord other name = true → r.arity? other = r.arity? name) ∧
    (Fault.unknownFunction name).message = "unknown function " ++ name ∧
    (Grammar.condition r (Cursor.ofText (callText r name args))).1 =
      match r.arity? name with
      | none => .error (.malformed (.unknownFunction name) ⟨0, Text.byteLength name.toList⟩)
      | some arity =>
        if arity.accepts args.length then .ok (.operation ⟨Text.upper name, args, true⟩)
        else .error (.malformed (.argumentCount name arity args.length)
          ⟨0, Text.byteLength (callText r name args).toList⟩) := by
  have hspelled : Token.IsName name := Cursor.written_ofText source _ hname
  refine ⟨Registry.arity?_eq_none hspelled, fun other hother => ?_, rfl, ?_⟩
  · rw [← Registry.arity?_upper, Text.sameWord_iff.mp hother, Registry.arity?_upper]
  obtain ⟨ks, hspells, hread⟩ := callText_spelled hr hspelled hargs
  obtain ⟨c, d, hm, hm', hd, hplace, hmerge⟩ := callText_moves hspelled hspells
  have hstart : (Cursor.ofText (callText r name args)).current.kind.startsPrimary = true := by
    rw [hm.current_cons]
    rfl
  have hcall : primary r (readers r) _ = callRest r (readers r) name _ c :=
    primary_call hm hm'.current_cons
  rw [hplace] at hcall
  cases harity : r.arity? name with
  | none =>
    simp only [callRest, harity] at hcall
    rw [condition_error hstart hcall]
  | some arity =>
    rw [callRest_apply harity hread hm'] at hcall
    dsimp only
    cases haccepts : arity.accepts args.length with
    | true =>
      have heof : d.current.kind = .eof := by rw [Cursor.current_kind, hd, List.headD_nil]
      have hcondition : condition r (Cursor.ofText (callText r name args)) = (.ok (.call name args), d) :=
        condition_reads_call harity haccepts hread (hm.trans hm') heof
      rw [hcondition, if_pos rfl]
      rfl
    | false =>
      rw [haccepts] at hcall
      rw [condition_error hstart hcall, hmerge, if_neg Bool.false_ne_true]

theorem call_recognised_sum :
    ∃ e, Grammar.IsRead Registry.builtin e ∧
      (Grammar.condition Registry.builtin
        (Cursor.ofText (Grammar.callText Registry.builtin "Sum" [e]))).1 =
          .ok (.operation ⟨"SUM", [e], true⟩) := by
  have hname : .name "Sum" ∈ (Cursor.ofText "Sum").kinds := by decide +kernel
  have hread : (Grammar.condition Registry.builtin (Cursor.ofText "a + max(*)")).1.toOption.isSome = true := by
    decide +kernel
  obtain ⟨e, he⟩ := Option.isSome_iff_exists.mp hread
  have hargument : Grammar.IsRead Registry.builtin e :=
    .of_condition (.refl _) (Prod.ext (ok_of_toOption he) rfl)
  have hcall := (call_recognised _ Registry.builtin_sparesOperators "Sum" "Sum" hname [e]
    (by simpa using .inr hargument)).2.2.2
  have harity : Registry.builtin.arity? "Sum" = some (.fixed 1) := by decide
  rw [harity] at hcall
  exact ⟨e, hargument, hcall⟩

end SqlFront
