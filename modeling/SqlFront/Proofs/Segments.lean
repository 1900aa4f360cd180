import Mathlib.Data.List.Induction
import SqlFront.Proofs.Calls
import SqlFront.Proofs.SoleColumns

/-! # Segments of names

The parser reads the segments of a dotted name as tokens, joins them, and the text is cut at its dots
again. Main statement: the segments are those tokens exactly if no name has a parenthesis, no name that
becomes a segment by itself has a dot, and no other name has two dots behind one another.
-/

namespace SqlFront

namespace Text

/-- What stands behind a separator is cut by itself. -/
theorem pieces_append_cons (separator : Char) (front back : List Char) :
    pieces separator (front ++ separator :: back) = pieces separator front ++ pieces separator back := by
  induction front with
  | nil => simp [pieces]
  | cons c cs ih =>
    obtain ⟨first, rest, hfirst⟩ := List.exists_cons_of_ne_nil (pieces_ne_nil separator cs)
    rw [List.cons_append, pieces, pieces, ih, hfirst]
    split <;> rfl

end Text

namespace QualifiedName

open Text

/-! ## Cutting and joining -/

theorem joinDots_cons (piece : List Char) {rest : List (List Char)} (h : rest ≠ []) :
    joinDots (piece :: rest) = piece ++ '.' :: joinDots rest := by
  cases rest with
  | nil => exact absurd rfl h
  | cons => rfl

theorem joinDots_append {front back : List (List Char)} (hfront : front ≠ []) (hback : back ≠ []) :
    joinDots (front ++ back) = joinDots front ++ '.' :: joinDots back := by
  induction front with
  | nil => exact absurd rfl hfront
  | cons piece front ih =>
    rw [List.cons_append, joinDots_cons _ (by simp [hback])]
    cases front with
    | nil => rfl
    | cons other rest =>
      rw [ih (List.cons_ne_nil _ _), joinDots_cons _ (List.cons_ne_nil _ _)]
      simp

theorem inside_joinDots {cs : List Char} {texts : List (List Char)} (h : cs ∈ texts) :
    cs <:+: joinDots texts := by
  induction texts with
  | nil => cases h
  | cons text rest ih =>
    cases rest with
    | nil =>
      obtain rfl := List.mem_singleton.mp h
      exact List.infix_rfl
    | cons other rest =>
      rw [joinDots_cons _ (List.cons_ne_nil _ _)]
      obtain rfl | h := List.mem_cons.mp h
      · exact (List.prefix_append _ _).isInfix
      · exact ((ih h).trans (List.suffix_cons _ _).isInfix).trans (List.suffix_append _ _).isInfix

theorem mem_joinDots {c : Char} {texts : List (List Char)} (h : c ∈ joinDots texts) :
    c = '.' ∨ ∃ cs ∈ texts, c ∈ cs := by
  induction texts with
  | nil => cases h
  | cons text rest ih =>
    cases rest with
    | nil => exact .inr ⟨text, List.mem_cons_self .., h⟩
    | cons other rest =>
      rw [joinDots_cons _ (List.cons_ne_nil _ _), List.mem_append, List.mem_cons] at h
      obtain h | rfl | h := h
      · exact .inr ⟨text, List.mem_cons_self .., h⟩
      · exact .inl rfl
      · exact (ih h).imp_right fun ⟨cs, hcs, hc⟩ => ⟨cs, List.mem_cons_of_mem _ hcs, hc⟩

/-- Pieces put together again are what has been cut. -/
theorem joinDots_pieces (cs : List Char) : joinDots (pieces '.' cs) = cs := by
  induction cs with
  | nil => rfl
  | cons c cs ih =>
    obtain ⟨first, rest, hfirst⟩ := List.exists_cons_of_ne_nil (pieces_ne_nil '.' cs)
    rw [hfirst] at ih
    rw [pieces, hfirst]
    split
    · rename_i hdot
      rw [joinDots_cons _ (List.cons_ne_nil _ _), ih, hdot]
      rfl
    · cases rest with
      | nil => simpa [joinDots] using ih
      | cons other rest =>
        rw [joinDots_cons _ (List.cons_ne_nil _ _)] at ih ⊢
        rw [List.cons_append, ih]

/-- The pieces of texts that have been joined are those of each text. -/
theorem pieces_joinDots {texts : List (List Char)} (h : texts ≠ []) :
    pieces '.' (joinDots texts) = texts.flatMap (pieces '.') := by
  induction texts with
  | nil => exact absurd rfl h
  | cons cs rest ih =>
    cases rest with
    | nil => simp [joinDots]
    | cons other rest =>
      rw [joinDots_cons _ (List.cons_ne_nil _ _), pieces_append_cons, ih (List.cons_ne_nil _ _)]
      rfl

/-- Two dots behind one another. -/
def Gapped (cs : List Char) : Prop := ['.', '.'] <:+: cs

/-- A text without a dot at its ends or two dots behind one another has no empty piece. -/
theorem pieces_ne_nil_of_not_gapped {cs : List Char} (hne : cs ≠ []) (hfirst : '.' ∉ cs.head?)
    (hlast : '.' ∉ cs.getLast?) (hgap : ¬ Gapped cs) : ∀ piece ∈ pieces '.' cs, piece ≠ [] := by
  rintro _ hpiece rfl
  obtain ⟨front, back, hpieces⟩ := List.append_of_mem hpiece
  have hjoined := joinDots_pieces cs
  rw [hpieces] at hjoined
  subst hjoined
  cases front with
  | nil =>
    cases back with
    | nil => exact hne rfl
    | cons => exact hfirst rfl
  | cons piece front =>
    rw [joinDots_append (List.cons_ne_nil _ _) (List.cons_ne_nil _ _)] at hlast hgap
    cases back with
    | nil => exact hlast List.getLast?_concat
    | cons other back =>
      have hjoined : joinDots ([] :: other :: back) = '.' :: joinDots (other :: back) := rfl
      rw [hjoined] at hgap
      exact hgap ⟨joinDots (piece :: front), joinDots (other :: back), by simp⟩

/-- Between two dots behind one another stands an empty piece. -/
theorem nil_mem_pieces {cs : List Char} (h : Gapped cs) : [] ∈ pieces '.' cs := by
  obtain ⟨front, back, rfl⟩ := h
  have hempty : pieces '.' ('.' :: back) = [] :: pieces '.' back := rfl
  rw [List.append_assoc, List.cons_append, List.cons_append, List.nil_append, pieces_append_cons, hempty]
  exact List.mem_append_right _ (List.mem_cons_self ..)

/-- No two dots behind one another come from pieces that are not empty. -/
theorem joinDots_not_gapped {texts : List (List Char)} (htexts : texts ≠ [])
    (hne : ∀ cs ∈ texts, cs ≠ []) (hdot : ∀ cs ∈ texts, '.' ∉ cs) : ¬ Gapped (joinDots texts) := by
  intro hgap
  have hempty := nil_mem_pieces hgap
  rw [pieces_joinDots htexts, List.mem_flatMap] at hempty
  obtain ⟨cs, hcs, hpiece⟩ := hempty
  rw [pieces_of_not_mem (hdot cs hcs)] at hpiece
  exact hne cs hcs (List.mem_singleton.mp hpiece).symm

/-! ## What is left of a segment -/

theorem trimChars_inside (cs : List Char) : trimChars cs <:+: cs :=
  (trimChars_front cs).isInfix.trans (List.dropWhile_suffix isSpace).isInfix

/-- A part of a segment is left, and no parenthesis in it. -/
theorem argument_spec (cs : List Char) :
    argument cs <:+: cs ∧ '(' ∉ argument cs ∧ ')' ∉ argument cs := by
  have hinner : (cs.reverse.takeWhile (· != '(')).reverse <:+ cs := by
    simpa using (List.takeWhile_prefix (· != '(') (l := cs.reverse)).reverse
  have hpart := trimChars_inside
    ((cs.reverse.takeWhile (· != '(')).reverse.takeWhile (· != ')'))
  have htake := List.takeWhile_prefix (· != ')') (l := (cs.reverse.takeWhile (· != '(')).reverse)
  refine ⟨(hpart.trans htake.isInfix).trans hinner.isInfix, fun hmem => ?_, fun hmem => ?_⟩
  · have hopen := (htake.isInfix.subset (hpart.subset hmem))
    simpa using List.mem_takeWhile_imp (List.mem_reverse.mp hopen)
  · simpa using List.mem_takeWhile_imp (hpart.subset hmem)

/-- A segment without parentheses and white space at its ends is left as it is. -/
theorem argument_eq_self {cs : List Char} (hopen : '(' ∉ cs) (hclose : ')' ∉ cs)
    (htrim : trimChars cs = cs) : argument cs = cs := by
  have hopen : '(' ∉ cs.reverse := by simpa using hopen
  rw [argument, takeWhile_ne hopen, List.reverse_reverse, takeWhile_ne hclose, htrim]

/-! ## Names and their segments -/

/-- The name with the given segments, the last of them first. The last two stand for themselves; the
    others make up the schema. -/
def assemble {α : Type} (text : String) (form : NameForm) (schema : List α → String)
    (segment : α → String) : List α → QualifiedName
  | [] => { whole text with form }
  | [only] =>
    match form with
    | .table => { whole text with form := .table, table := some (segment only) }
    | .column => { whole text with form := .column, column := some (segment only) }
  | [second, first] =>
    match form with
    | .table =>
      { whole text with
        form := .table
        schema := some (segment first)
        table := some (segment second) }
    | .column =>
      { whole text with
        form := .column
        table := some (segment first)
        column := some (segment second) }
  | column :: table :: leading =>
    { whole text with
      form
      schema := some (schema leading)
      table := some (segment table)
      column := some (segment column) }

/-- The name of a table or column that has the given names for segments. -/
def ofNames (names : List String) (form : NameForm) : QualifiedName :=
  assemble (Text.join "." names) form (fun leading => Text.join "." leading.reverse) id names.reverse

/-- The segments that a name has, in the order in which they are written. -/
def segments (n : QualifiedName) : List String :=
  [n.schema, n.table, n.column].filterMap id

/-- What is left of a part of a text as a segment. -/
def segment (cs : List Char) : String := String.ofList (argument cs)

theorem ofText_eq (text : String) (form : NameForm) :
    ofText text form =
      assemble text form (fun leading => segment (joinDots leading.reverse)) segment
        (parts text).reverse := by
  unfold ofText
  generalize (parts text).reverse = back
  match back, form with
  | [], _ | [_], .table | [_], .column | [_, _], .table | [_, _], .column | _ :: _ :: _ :: _, _ => rfl

/-- There is no parenthesis in the text. -/
def Unbracketed (s : String) : Prop := '(' ∉ s.toList ∧ ')' ∉ s.toList

/-- Names that come out of their text again: no parentheses in any of them, no dots in the last two,
    and no two dots behind one another in the others. -/
structure Separable (names : List String) : Prop where
  unbracketed : ∀ n ∈ names, Unbracketed n
  last : ∀ n ∈ names.reverse.take 2, '.' ∉ n.toList
  leading : ∀ n ∈ names.reverse.drop 2, ¬ Gapped n.toList

theorem toList_join (names : List String) :
    (Text.join "." names).toList = joinDots (names.map String.toList) := by
  induction names with
  | nil => rfl
  | cons n rest ih =>
    cases rest with
    | nil => rfl
    | cons other rest =>
      rw [Text.join, String.toList_append, String.toList_append, ih]
      · simp [joinDots]
      · simp

/-- The segments of a name, joined again, are its text. -/
theorem segments_join (names : List String) (form : NameForm) :
    Text.join "." (ofNames names form).segments = Text.join "." names := by
  rcases hback : names.reverse with _ | ⟨last, _ | ⟨other, _ | ⟨third, rest⟩⟩⟩
  · cases form <;> simp_all [ofNames, assemble, segments, whole]
  · cases form <;> simp_all [ofNames, assemble, segments, whole]
  · cases form <;> simp_all [ofNames, assemble, segments, whole]
  · have hnames : names = (third :: rest).reverse ++ [other, last] := by
      rw [← List.reverse_reverse names, hback]
      simp
    have hsegments : (ofNames names form).segments =
        [Text.join "." (third :: rest).reverse, other, last] := by
      simp [ofNames, assemble, segments, hback]
    rw [← String.toList_inj, hsegments, toList_join, toList_join, hnames, List.map_append,
      joinDots_append (by simp) (by simp)]
    simp [joinDots, toList_join]

/-! ## Names cut at their dots -/

theorem not_gapped_of_not_mem {cs : List Char} (h : '.' ∉ cs) : ¬ Gapped cs :=
  fun hgap => h (hgap.subset (List.mem_cons_self ..))

/-- What can be said of the segments of a name that has been cut out of a text. -/
@[mk_iff]
structure IsCut (n : QualifiedName) : Prop where
  schema : ∀ s ∈ n.schema, Unbracketed s ∧ ¬ Gapped s.toList ∧ (n.column = none → '.' ∉ s.toList)
  table : ∀ s ∈ n.table, Unbracketed s ∧ '.' ∉ s.toList
  column : ∀ s ∈ n.column, Unbracketed s ∧ '.' ∉ s.toList

theorem segment_inside (cs : List Char) : (segment cs).toList <:+: cs := by
  rw [segment, String.toList_ofList]
  exact (argument_spec cs).1

theorem segment_unbracketed (cs : List Char) : Unbracketed (segment cs) := by
  rw [Unbracketed, segment, String.toList_ofList]
  exact (argument_spec cs).2

theorem assemble_isCut {α : Type} {text : String} {form : NameForm} {schema : List α → String}
    {segment : α → String} {back : List α} :
    (assemble text form schema segment back).IsCut ↔
      (∀ x ∈ back.take 2, Unbracketed (segment x) ∧ '.' ∉ (segment x).toList) ∧
      (back.drop 2 ≠ [] → Unbracketed (schema (back.drop 2)) ∧ ¬ Gapped (schema (back.drop 2)).toList) := by
  have hgap (s : String) (h : '.' ∉ s.toList) : ¬ Gapped s.toList := not_gapped_of_not_mem h
  match back, form with
  | [], _ | [_], .table | [_], .column | [_, _], .column =>
    simp [isCut_iff, assemble, whole, and_comm]
  | [second, first], .table =>
    simp [isCut_iff, assemble, whole]
    grind
  | _ :: _ :: _ :: _, _ =>
    simp [isCut_iff, assemble, whole]
    grind

theorem ofText_isCut (text : String) (form : NameForm) : (ofText text form).IsCut := by
  have hpart {piece : List Char} (h : piece ∈ (parts text).reverse) : piece ≠ [] ∧ '.' ∉ piece := by
    obtain ⟨hpiece, hne⟩ := List.mem_filter.mp (List.mem_reverse.mp h)
    exact ⟨by simpa using hne, not_mem_of_mem_pieces hpiece⟩
  rw [ofText_eq, assemble_isCut]
  refine ⟨fun piece hpiece => ?_, fun hleading => ?_⟩
  · obtain ⟨-, hdot⟩ := hpart (List.mem_of_mem_take hpiece)
    exact ⟨segment_unbracketed piece, fun hmem => hdot ((segment_inside piece).subset hmem)⟩
  · have hrest {piece : List Char} (h : piece ∈ ((parts text).reverse.drop 2).reverse) :
        piece ≠ [] ∧ '.' ∉ piece :=
      hpart (List.mem_of_mem_drop (List.mem_reverse.mp h))
    have hgap := joinDots_not_gapped (by simpa using hleading) (fun _ h => (hrest h).1)
      fun _ h => (hrest h).2
    exact ⟨segment_unbracketed _, fun hmem => hgap (hmem.trans (segment_inside _))⟩

theorem separable_of_isCut {names : List String} {form : NameForm}
    (h : (ofNames names form).IsCut) : Separable names := by
  rw [ofNames, assemble_isCut] at h
  obtain ⟨hlast, hleading⟩ := h
  have hinside {n : String} (hn : n ∈ names.reverse.drop 2) :
      n.toList <:+: (Text.join "." (names.reverse.drop 2).reverse).toList := by
    rw [toList_join]
    exact inside_joinDots (List.mem_map_of_mem (List.mem_reverse.mpr hn))
  refine ⟨fun n hn => ?_, fun n hn => (hlast n hn).2, fun n hn hgap => ?_⟩
  · rw [← List.mem_reverse, ← List.take_append_drop 2 names.reverse, List.mem_append] at hn
    obtain hn | hn := hn
    · exact (hlast n hn).1
    · obtain ⟨hopen, hclose⟩ := (hleading (List.ne_nil_of_mem hn)).1
      exact ⟨fun hmem => hopen ((hinside hn).subset hmem), fun hmem => hclose ((hinside hn).subset hmem)⟩
  · exact (hleading (List.ne_nil_of_mem hn)).2 (hgap.trans (hinside hn))

/-- No piece of a name without two dots behind one another is empty. -/
theorem pieces_of_name {name : String} (h : Token.IsName name) (hgap : ¬ Gapped name.toList) :
    ∀ piece ∈ pieces '.' name.toList, piece ≠ [] := by
  have hdot {c : Char} (hc : c ∈ name.toList.head? ∨ c ∈ name.toList.getLast?) : c ≠ '.' := by
    rintro rfl
    obtain hc | hc := h.edges hc
    · revert hc
      decide
    · cases hc
  obtain ⟨c, cs, hs, -⟩ := h.first
  exact pieces_ne_nil_of_not_gapped (by simp [hs]) (fun hc => hdot (.inl hc) rfl)
    (fun hc => hdot (.inr hc) rfl) hgap

/-- Names joined by dots begin and end like names. -/
theorem joinDots_edges {names : List String} (hnames : ∀ n ∈ names, Token.IsName n) {c : Char}
    (hc : c ∈ (joinDots (names.map String.toList)).head? ∨
      c ∈ (joinDots (names.map String.toList)).getLast?) :
    Lexeme.continuesName c = true ∨ c = '\x22' := by
  have hne {n : String} (hn : n ∈ names) : n.toList ≠ [] := by
    obtain ⟨c, cs, hs, -⟩ := (hnames n hn).first
    simp [hs]
  obtain hc | hc := hc
  · cases names with
    | nil => cases hc
    | cons n rest =>
      refine (hnames n (List.mem_cons_self ..)).edges (.inl ?_)
      cases rest with
      | nil => exact hc
      | cons other rest =>
        rwa [List.map_cons, joinDots_cons _ (by simp),
          List.head?_append_of_ne_nil _ (hne (List.mem_cons_self ..))] at hc
  · obtain rfl | ⟨front, n, rfl⟩ := List.eq_nil_or_concat' names
    · cases hc
    · have hn : n ∈ front ++ [n] := by simp
      refine (hnames n hn).edges (.inr ?_)
      cases front with
      | nil => exact hc
      | cons other front =>
        have hjoined : joinDots ((other :: front ++ [n]).map String.toList) =
            joinDots ((other :: front).map String.toList) ++ ['.'] ++ n.toList := by
          rw [List.map_append, joinDots_append (by simp) (by simp), List.append_assoc]
          rfl
        rwa [hjoined, List.getLast?_append_of_ne_nil _ (hne hn)] at hc

theorem trimChars_join {names : List String} (hnames : ∀ n ∈ names, Token.IsName n) :
    trimChars (joinDots (names.map String.toList)) = joinDots (names.map String.toList) := by
  have hspace {c : Char} (hc : Lexeme.continuesName c = true ∨ c = '\x22') : isSpace c = false := by
    obtain hc | rfl := hc
    · exact Lexeme.continuesName_not_space hc
    · rfl
  exact trimChars_eq_self (fun _ hc => hspace (joinDots_edges hnames (.inl hc)))
    fun _ hc => hspace (joinDots_edges hnames (.inr hc))

/-- Names without parentheses, joined by dots, are left as they are. -/
theorem segment_join {names : List String} (hnames : ∀ n ∈ names, Token.IsName n)
    (hbrackets : ∀ n ∈ names, Unbracketed n) :
    segment (joinDots (names.map String.toList)) = Text.join "." names := by
  have hmem {c : Char} (hc : c ≠ '.') (h : ∀ n ∈ names, c ∉ n.toList) :
      c ∉ joinDots (names.map String.toList) := by
    intro hjoined
    obtain rfl | ⟨cs, hcs, hchar⟩ := mem_joinDots hjoined
    · exact hc rfl
    · obtain ⟨n, hn, rfl⟩ := List.mem_map.mp hcs
      exact h n hn hchar
  rw [segment, argument_eq_self (hmem (by decide) fun n hn => (hbrackets n hn).1)
    (hmem (by decide) fun n hn => (hbrackets n hn).2) (trimChars_join hnames), ← toList_join,
    String.ofList_toList]

/-- Separable names come out of their text again. -/
theorem ofText_eq_ofNames {names : List String} (hne : names ≠ [])
    (hnames : ∀ n ∈ names, Token.IsName n) (h : Separable names) (form : NameForm) :
    ofText (Text.join "." names) form = ofNames names form := by
  obtain ⟨hbrackets, hlast, hleading⟩ := h
  have hsegment (n : String) (hn : n ∈ names) : segment n.toList = n := by
    have hjoin : segment (joinDots ([n].map String.toList)) = Text.join "." [n] :=
      segment_join (by simpa using hnames n hn) (by simpa using hbrackets n hn)
    simpa [joinDots, Text.join] using hjoin
  have hwhole (n : String) (hn : n ∈ names.reverse.take 2) : pieces '.' n.toList = [n.toList] :=
    pieces_of_not_mem (hlast n hn)
  have hparts : parts (Text.join "." names) = (names.map String.toList).flatMap (pieces '.') := by
    rw [parts, toList_join, pieces_joinDots (by simpa using hne), List.filter_eq_self]
    intro piece hpiece
    obtain ⟨cs, hcs, hpiece⟩ := List.mem_flatMap.mp hpiece
    obtain ⟨n, hn, rfl⟩ := List.mem_map.mp hcs
    have hgap : ¬ Gapped n.toList := by
      rw [← List.mem_reverse, ← List.take_append_drop 2 names.reverse, List.mem_append] at hn
      exact hn.elim (fun hn => not_gapped_of_not_mem (hlast n hn)) (hleading n)
    simpa using pieces_of_name (hnames n hn) hgap piece hpiece
  rw [ofText_eq, ofNames, hparts]
  obtain ⟨back, rfl⟩ : ∃ back, names = back.reverse := ⟨names.reverse, by simp⟩
  rw [List.reverse_reverse] at *
  rcases back with _ | ⟨column, _ | ⟨table, _ | ⟨other, leading⟩⟩⟩
  · exact absurd rfl hne
  · cases form <;> simp [assemble, hwhole column (by simp), hsegment column (by simp)]
  · cases form <;> simp [assemble, hwhole column (by simp), hwhole table (by simp),
      hsegment column (by simp), hsegment table (by simp)]
  · have hmem {n : String} (hn : n ∈ (other :: leading).reverse) :
        n ∈ (column :: table :: other :: leading).reverse := by
      rw [List.mem_reverse] at hn ⊢
      exact List.mem_cons_of_mem _ (List.mem_cons_of_mem _ hn)
    have hjoined : pieces '.' (joinDots ((other :: leading).reverse.map String.toList)) =
        ((other :: leading).reverse.map String.toList).flatMap (pieces '.') :=
      pieces_joinDots (by simp)
    -- The pieces of the leading names put together again are those names with their dots.
    have hschema : segment (joinDots (((other :: leading).reverse.map String.toList).flatMap (pieces '.'))) =
        Text.join "." (other :: leading).reverse := by
      rw [← hjoined, joinDots_pieces]
      exact segment_join (fun n hn => hnames n (hmem hn)) fun n hn => hbrackets n (hmem hn)
    have hall : ((column :: table :: other :: leading).reverse.map String.toList).flatMap (pieces '.') =
        ((other :: leading).reverse.map String.toList).flatMap (pieces '.') ++
          [table.toList, column.toList] := by
      simp [hwhole table (by simp), hwhole column (by simp)]
    have hnonempty : ((other :: leading).reverse.map String.toList).flatMap (pieces '.') ≠ [] :=
      hjoined ▸ pieces_ne_nil _ _
    obtain ⟨front, piece, hpieces⟩ := (List.eq_nil_or_concat' _).resolve_left hnonempty
    rw [hpieces] at hall hschema
    rw [hall]
    simp [assemble, hsegment table (by simp), hsegment column (by simp), hschema]

end QualifiedName

/-! ## Names as they are read -/

/-- The tokens of a dotted name. -/
def Token.dotted : List String → List Token.Kind
  | [] => []
  | [n] => [.name n]
  | n :: rest => .name n :: .symbol .dot :: dotted rest

theorem Token.dotted_concat {names : List String} (h : names ≠ []) (n : String) :
    dotted (names ++ [n]) = dotted names ++ [.symbol .dot, .name n] := by
  induction names with
  | nil => exact absurd rfl h
  | cons m rest ih =>
    cases rest with
    | nil => rfl
    | cons other rest =>
      rw [List.cons_append, dotted, ih (List.cons_ne_nil _ _)]
      · rfl
      · simp

theorem Token.mem_dotted {names : List String} {n : String} (h : n ∈ names) :
    .name n ∈ dotted names := by
  induction names with
  | nil => cases h
  | cons m rest ih =>
    cases rest with
    | nil => simpa [dotted] using h
    | cons other rest =>
      rw [dotted]
      · obtain rfl | h := List.mem_cons.mp h
        · exact List.mem_cons_self ..
        · exact List.mem_cons_of_mem _ (List.mem_cons_of_mem _ (ih h))
      · simp

theorem QualifiedName.join_concat {names : List String} (h : names ≠ []) (n : String) :
    Text.join "." (names ++ [n]) = Text.join "." names ++ "." ++ n := by
  rw [← String.toList_inj, toList_join, List.map_append, joinDots_append (by simpa using h) (by simp)]
  simp [toList_join, joinDots]

/-- A dotted name is made of the tokens that are its names, and its text of these with dots. -/
theorem Rule.Dotted.names {ks : List Token.Kind} {t : String} (h : Rule.Dotted ks t) :
    ∃ names, names ≠ [] ∧ ks = Token.dotted names ∧ t = Text.join "." names := by
  induction h with
  | @one n => exact ⟨[n], List.cons_ne_nil _ _, rfl, rfl⟩
  | @more ks t n _ ih =>
    obtain ⟨names, hne, rfl, rfl⟩ := ih
    exact ⟨names ++ [n], by simp, (Token.dotted_concat hne n).symm,
      (QualifiedName.join_concat hne n).symm⟩

theorem Rule.dotted_names {names : List String} (h : names ≠ []) :
    Rule.Dotted (Token.dotted names) (Text.join "." names) := by
  induction names using List.reverseRecOn with
  | nil => exact absurd rfl h
  | append_singleton front n ih =>
    by_cases hfront : front = []
    · subst hfront
      exact .one
    · rw [Token.dotted_concat hfront, QualifiedName.join_concat hfront]
      exact .more (ih hfront)

namespace QualifiedName

open Text

theorem aliased_text (n : QualifiedName) (a : Option String) : (n.aliased a).text = n.text := by
  cases a <;> rfl

theorem aliased_column (n : QualifiedName) (a : Option String) : (n.aliased a).column = n.column := by
  cases a <;> rfl

theorem aliased_inj {n m : QualifiedName} (hn : n.aliasName = none) (hm : m.aliasName = none)
    {a : Option String} : n.aliased a = m.aliased a ↔ n = m := by
  refine ⟨fun h => ?_, fun h => h ▸ rfl⟩
  obtain ⟨text, schema, table, column, aliasName, form⟩ := n
  obtain ⟨text', schema', table', column', aliasName', form'⟩ := m
  obtain rfl : aliasName = none := hn
  obtain rfl : aliasName' = none := hm
  cases a <;> simpa [aliased, withAlias] using h

theorem ofNames_aliasName (names : List String) (form : NameForm) :
    (ofNames names form).aliasName = none := by
  rw [ofNames]
  generalize names.reverse = back
  match back, form with
  | [], _ | [_], .table | [_], .column | [_, _], .table | [_, _], .column | _ :: _ :: _ :: _, _ => rfl

/-- The segments of a name that is read are its tokens exactly if the names are separable. -/
theorem ofText_eq_ofNames_iff {names : List String} (hne : names ≠ [])
    (hnames : ∀ n ∈ names, Token.IsName n) (form : NameForm) (a : Option String) :
    (ofText (Text.join "." names) form).aliased a = (ofNames names form).aliased a ↔
      Separable names := by
  rw [aliased_inj (ofText_written _ _).2 (ofNames_aliasName _ _)]
  refine ⟨fun h => ?_, fun h => ofText_eq_ofNames hne hnames h form⟩
  have hcut := ofText_isCut (Text.join "." names) form
  rw [h] at hcut
  exact separable_of_isCut hcut

/-- The column is what is left of the last part. -/
theorem column_ofText {text : String} {front : List (List Char)} {last : List Char}
    (h : parts text = front ++ [last]) : (ofText text .column).column = some (segment last) := by
  rw [ofText_eq, h, List.reverse_concat]
  match front.reverse with
  | [] | [_] | _ :: _ :: _ => rfl

/-- Behind a dot the star is a column by itself. -/
theorem ofText_star (t : String) : (ofText (t ++ ".*") .column).column = some "*" := by
  have hparts : parts (t ++ ".*") = parts t ++ [['*']] := by
    have hstar : pieces '.' ['*'] = [['*']] := rfl
    have htext : (t ++ ".*").toList = t.toList ++ '.' :: ['*'] := by simp
    rw [parts, htext, pieces_append_cons, hstar, List.filter_append]
    rfl
  exact column_ofText hparts

end QualifiedName

theorem SelectItem.name_column (t : String) (a : Option String) :
    ((column t).aliased a).name = (QualifiedName.ofText t .column).aliased a := by
  cases a <;> rfl

/-- An item that names a column was made of that column. -/
theorem SelectItem.column_of_aliased {r : Registry} {e : Expr} {a a' : Option String} {t : String}
    (h : (ofExpr r e).aliased a = (column t).aliased a') : ∃ t', e = .column t' := by
  obtain ⟨hsome, hcolumn⟩ | ⟨t', he, -⟩ := ofExpr_cases r e
  · have hsame := congrArg SelectItem.expression h
    rw [expression_aliased, expression_aliased, hsome] at hsame
    obtain rfl := expression_column (Option.mem_def.mpr hsame.symm)
    cases hcolumn
  · exact ⟨t', he⟩

/-- Whenever a table of a FROM clause is read, and whenever an item is read that is a column and no
    star, its tokens are names with dots between them, and but for an alias and for parentheses and plus
    signs around a column nothing else. The text of the name is these names with their dots, and its
    segments are these names, the leading ones with their dots, exactly if the names are separable;
    joined again these segments are the text. -/
theorem segments_of_dotted_names (r : Registry) (text : String) (c : Cursor)
    (hc : (Cursor.ofText text).Reaches c) :
    (∀ n d, Grammar.source c = (.ok n, d) →
      ∃ names ks a, names ≠ [] ∧ c.Moves (Token.dotted names ++ ks) d ∧
        Rule.Optional Rule.Alias ks a ∧ n.text = Text.join "." names ∧
        (n = (QualifiedName.ofNames names .table).aliased a ↔ QualifiedName.Separable names)) ∧
    (∀ item d, Grammar.selectItem r (Grammar.readers r) c = (.ok item, d) →
      (∃ t a, item = (SelectItem.column t).aliased a) →
      item.name.column = some "*" ∨
      ∃ names before after ks a, names ≠ [] ∧
        c.Moves (before ++ Token.dotted names ++ after ++ ks) d ∧
        (∀ k ∈ before, k = .symbol .leftParen ∨ k = .symbol .plus) ∧
        (∀ k ∈ after, k = .symbol .rightParen) ∧
        Rule.Optional Rule.Alias ks a ∧ item.name.text = Text.join "." names ∧
        (item.name = (QualifiedName.ofNames names .column).aliased a ↔
          QualifiedName.Separable names)) ∧
    ∀ names form, Text.join "." (QualifiedName.ofNames names form).segments = Text.join "." names := by
  have hspelled {names : List String} {ks : List Token.Kind} (hks : Token.Written ks)
      (hsub : Token.dotted names ⊆ ks) : ∀ n ∈ names, Token.IsName n :=
    fun n hn => hks (.name n) (hsub (Token.mem_dotted hn))
  refine ⟨fun n d h => ?_, fun item d h hcolumn => ?_, QualifiedName.segments_join⟩
  · obtain ⟨_, hm, @⟨ks, t, ks', a, ht, ha⟩⟩ := Grammar.source_takes h
    obtain ⟨names, hne, rfl, rfl⟩ := ht.names
    have hnames := hspelled (hc.written hm) (List.subset_append_left ..)
    refine ⟨names, ks', a, hne, hm, ha, ?_, QualifiedName.ofText_eq_ofNames_iff hne hnames _ a⟩
    rw [QualifiedName.aliased_text, (QualifiedName.ofText_written _ _).1]
  · obtain ⟨_, hm, hitem⟩ := Grammar.selectItem_takes (Rule.readers_sole r) h
    cases hitem with
    | all => exact .inl rfl
    | @expression _ e ks' a he ha =>
      obtain ⟨_, _, hsame⟩ := hcolumn
      obtain ⟨t, rfl⟩ := SelectItem.column_of_aliased hsame
      have hname : ((SelectItem.ofExpr r (.column t)).aliased a).name =
          (QualifiedName.ofText t .column).aliased a := SelectItem.name_column t a
      rw [hname]
      obtain ⟨before, row, after, rfl, hbefore, hrow, hafter⟩ := ((he.2 t).mp rfl).around
      cases hrow with
      | all => exact .inl (by rw [QualifiedName.aliased_column, QualifiedName.ofText_star])
      | dotted hrow =>
        obtain ⟨names, hne, rfl, rfl⟩ := hrow.names
        have hnames : ∀ n ∈ names, Token.IsName n :=
          hspelled (hc.written hm) fun k hk => by simp [hk]
        refine .inr ⟨names, before, after, ks', a, hne, hm, hbefore, hafter, ha, ?_,
          QualifiedName.ofText_eq_ofNames_iff hne hnames _ a⟩
        rw [QualifiedName.aliased_text, (QualifiedName.ofText_written _ _).1]

theorem segments_of_dotted_names_two :
    ∃ n d, Grammar.source (Cursor.ofText "s.\x22t u\x22 v") = (.ok n, d) ∧
      ∃ names ks a, names ≠ [] ∧
        (Cursor.ofText "s.\x22t u\x22 v").Moves (Token.dotted names ++ ks) d ∧
        Rule.Optional Rule.Alias ks a ∧ n.text = Text.join "." names ∧
        (n = (QualifiedName.ofNames names .table).aliased a ↔ QualifiedName.Separable names) := by
  have hread : (Grammar.source (Cursor.ofText "s.\x22t u\x22 v")).1.toOption.isSome = true := by
    decide +kernel
  obtain ⟨n, hn⟩ := Option.isSome_iff_exists.mp hread
  have hsource : Grammar.source (Cursor.ofText "s.\x22t u\x22 v") = (.ok n, _) :=
    Prod.ext (ok_of_toOption hn) rfl
  exact ⟨n, _, hsource, (segments_of_dotted_names Registry.builtin _ _ (.refl _)).1 _ _ hsource⟩

/-- Within its quotes a name is cut at its dot, too. -/
theorem quoted_name_cut :
    (Cursor.ofText "\x22a.b\x22").kinds = Token.dotted ["\x22a.b\x22"] ∧
    ∃ n, (Grammar.source (Cursor.ofText "\x22a.b\x22")).1 = .ok n ∧
      n.segments = ["\x22a", "b\x22"] ∧ n ≠ QualifiedName.ofNames ["\x22a.b\x22"] .table := by
  have hread : (Grammar.source (Cursor.ofText "\x22a.b\x22")).1.toOption =
      some (QualifiedName.ofNames ["\x22a", "b\x22"] .table) := by
    decide +kernel
  exact ⟨by decide +kernel, _, ok_of_toOption hread, by decide +kernel, by decide +kernel⟩

end SqlFront
