import SqlFront.Proofs.Joining
import SqlFront.Proofs.Statements

/-! # Rows of statements behind one another

Statements that have been read up to the end of a text are read alike where a semicolon and more text
stand behind it. Main statement: the statements of two texts with a semicolon on a line of its own
between them are those of the first and then those of the second, or the error of the second, farther on
by the bytes in front of it.
-/

namespace SqlFront

namespace Grammar

open Reading Lockstep

variable {r : Registry}

/-- The given statements are read one after another, from one place to another one. -/
inductive Stream (r : Registry) : Cursor → List Statement → Cursor → Prop
  | stop {c} : Stream r c [] c
  | next {c d e s ss} : statement? r c = (.ok (some s), d) → Stream r d ss e → Stream r c (s :: ss) e

/-- Statements are read one after another until there is none. -/
theorem statements_stream {c e : Cursor} {ss : List Statement} (h : statements r c = (.ok ss, e)) :
    ∃ d, Stream r c ss d ∧ statement? r d = (.ok none, e) := by
  induction ss generalizing c with
  | nil =>
    obtain ⟨-, hnone⟩ | ⟨_, _, _, heq, -⟩ := statements_ok.mp h
    · exact ⟨c, .stop, hnone⟩
    · cases heq
  | cons s ss ih =>
    obtain ⟨heq, -⟩ | ⟨_, _, d, heq, hnext, hrest⟩ := statements_ok.mp h
    · cases heq
    · obtain ⟨rfl, rfl⟩ := List.cons.inj heq
      obtain ⟨f, hstream, hnone⟩ := ih hrest
      exact ⟨f, .next hnext hstream, hnone⟩

theorem Stream.unique {c d d' : Cursor} {ss : List Statement} (h : Stream r c ss d)
    (h' : Stream r c ss d') : d = d' := by
  induction h with
  | stop =>
    cases h'
    rfl
  | next hread _ ih =>
    cases h' with
    | next hread' hstream' =>
      have heq := congrArg Prod.snd (hread.symm.trans hread')
      dsimp only at heq
      subst heq
      exact ih hstream'

/-- Where only semicolons are left, one is at the end or may pass the first of them. -/
theorem semicolons_cases {c : Cursor} (h : ∀ k ∈ c.kinds, k = .symbol .semicolon) :
    c.current.kind = .eof ∨ c.current.kind = .symbol .semicolon ∧
      (∀ k ∈ c.advance.kinds, k = .symbol .semicolon) ∧
      c.ahead.length = c.advance.ahead.length + 1 := by
  obtain ⟨behind, ahead, finish⟩ := c
  cases ahead with
  | nil => exact .inl rfl
  | cons t rest =>
    refine .inr ⟨h _ (List.mem_cons_self ..), fun k hk => h k (List.mem_cons_of_mem _ hk), rfl⟩

theorem statements_at_end {c : Cursor} (h : ∀ k ∈ c.kinds, k = .symbol .semicolon) :
    (statements r c).1 = .ok [] := by
  generalize hlength : c.ahead.length = n
  induction n using Nat.strongRecOn generalizing c with
  | ind n ih =>
    obtain hend | ⟨hsemicolon, hrest, hless⟩ := semicolons_cases h
    · rw [statements_ok.mpr (.inl ⟨rfl, statement?_at_end hend⟩)]
    · rw [statements_semicolon hsemicolon]
      exact ih _ (by omega) hrest rfl

/-- If only semicolons are left behind some statements, these are all. -/
theorem Stream.statements {c d : Cursor} {ss : List Statement} (h : Stream r c ss d)
    (hrest : ∀ k ∈ d.kinds, k = .symbol .semicolon) : (statements r c).1 = .ok ss := by
  induction h with
  | stop => exact statements_at_end hrest
  | next hread _ ih =>
    rw [statements_some hread, ih hrest]
    rfl

/-- Statements are read from tokens of which statements are made, and semicolons. -/
theorem Stream.moves {c d : Cursor} {ss : List Statement} (h : Stream r c ss d) :
    ∃ ks, c.Moves ks d ∧ ∀ k ∈ ks, k.inner = true ∨ k = .symbol .semicolon := by
  induction h with
  | stop => exact ⟨[], .refl _, nofun⟩
  | next hread _ ih =>
    obtain ⟨before, body, after, hm, hbefore, -, hbody, hafter⟩ := statement?_moves hread
    obtain ⟨ks, hm', hks⟩ := ih
    have hlast : ∀ k ∈ after, k = .symbol .semicolon := by
      obtain rfl | ⟨rfl, -⟩ := hafter
      · simp
      · exact nofun
    refine ⟨_, hm.trans hm', fun k hk => ?_⟩
    simp only [List.mem_append] at hk
    obtain ((hk | hk) | hk) | hk := hk
    · exact .inr (hbefore k hk)
    · exact .inl (hbody k hk)
    · exact .inr (hlast k hk)
    · exact hks k hk

/-! ## A semicolon in place of the end -/

/-- The first run ends where the second one finds the given semicolon and more tokens. -/
def closing (semicolon : Token) (more : List Token) (finish : Span) : Lockstep where
  rel c c' := (∀ t ∈ c.ahead, t.kind ≠ .eof) ∧ semicolon.kind = .symbol .semicolon ∧
    c'.ahead = c.ahead ++ semicolon :: more ∧ c'.finish = finish
  escaped _ := False
  place _ _ := True
  fault _ _ := True
  escaped_reaches h _ := h
  current := by
    rintro ⟨behind, ahead, last⟩ ⟨behind', ahead', last'⟩ ⟨-, hkind, rfl, -⟩
    cases ahead with
    | nil => exact .inr ⟨.eof, hkind ▸ .semicolon⟩
    | cons t rest => exact .inl rfl
  span _ := trivial
  merge _ _ := trivial
  fault_refl _ := trivial
  unexpected _ _ := trivial
  advance := by
    rintro ⟨behind, ahead, last⟩ ⟨behind', ahead', last'⟩ ⟨hahead, hkind, rfl, hfinish⟩ hinner
    cases ahead with
    | nil => cases hinner
    | cons t rest => exact .inr ⟨fun u hu => hahead u (List.mem_cons_of_mem _ hu), hkind, rfl, hfinish⟩

section

variable {semicolon : Token} {more : List Token} {finish : Span}

/-- Where the first run is not at the end, both runs may pass the token there, even a semicolon. -/
theorem closing_pass {c c' : Cursor} (h : (closing semicolon more finish).rel c c')
    (hne : c.current.kind ≠ .eof) : c.current.kind = c'.current.kind ∧
      (closing semicolon more finish).rel c.advance c'.advance := by
  obtain ⟨behind, ahead, last⟩ := c
  obtain ⟨behind', ahead', last'⟩ := c'
  obtain ⟨hahead, hkind, rfl, hfinish⟩ := h
  cases ahead with
  | nil => exact absurd rfl hne
  | cons t rest => exact ⟨rfl, fun u hu => hahead u (List.mem_cons_of_mem _ hu), hkind, rfl, hfinish⟩

/-- Where the first run is at the end, the second one is at the semicolon. -/
theorem closing_end {c c' : Cursor} (h : (closing semicolon more finish).rel c c')
    (hend : c.current.kind = .eof) : c.ahead = [] ∧ c'.current.kind = .symbol .semicolon ∧
      c'.advance.ahead = more ∧ c'.advance.finish = finish := by
  obtain ⟨behind, ahead, last⟩ := c
  obtain ⟨behind', ahead', last'⟩ := c'
  obtain ⟨hahead, hkind, rfl, hfinish⟩ := h
  cases ahead with
  | nil => exact ⟨rfl, hkind, rfl, hfinish⟩
  | cons t rest => exact absurd hend (hahead t (List.mem_cons_self ..))

/-- A statement that ends with the text ends with the semicolon, which the second run passes. -/
theorem closing_statement {c c' d : Cursor} {s : Statement}
    (h : (closing semicolon more finish).rel c c') (hread : statement? r c = (.ok (some s), d)) :
    ∃ d', statement? r c' = (.ok (some s), d') ∧ ((closing semicolon more finish).rel d d' ∨
      d.ahead = [] ∧ d'.ahead = more ∧ d'.finish = finish) := by
  generalize hlength : c.ahead.length = n
  induction n generalizing c c' with
  | zero =>
    have hless := statement?_shorter hread
    omega
  | succ n ih =>
    have hne : c.current.kind ≠ .eof := by
      intro hend
      rw [(closing_end h hend).1] at hlength
      cases hlength
    obtain ⟨hkind, hadvance⟩ := closing_pass h hne
    by_cases hsemicolon : c.current.kind = .symbol .semicolon
    · rw [statement?_semicolon hsemicolon] at hread
      rw [statement?_semicolon (hkind ▸ hsemicolon)]
      have hless := (Cursor.moves_advance hne).length
      simp only [List.length_singleton] at hless
      exact ih hadvance hread (by omega)
    · obtain ⟨c₁, c₂, h₁, h₂, h₃⟩ := statement?_parts hread
      rw [emptyStatements_other hsemicolon] at h₁
      cases h₁
      have htrack := statement_tracks (r := r) (fun _ h => h) h trivial (Nat.le_refl _) (Nat.le_refl _)
      rw [h₂] at htrack
      rcases hread' : statement r c' with ⟨x, c₂'⟩
      rw [hread'] at htrack
      obtain ⟨hsame, hrel⟩ := htrack.resolve_left id
      obtain e | s' := x
      · exact hsame.elim
      obtain rfl : s = s' := hsame
      obtain hm | ⟨hend, rfl⟩ := terminator_ok.mp h₃
      · obtain ⟨hkind₂, hrel₂⟩ := closing_pass hrel (by rw [hm.current_cons]; simp)
        rw [hm.current_cons] at hkind₂
        have hterminator : terminator c₂' = (.ok (), c₂'.advance) :=
          terminator_ok.mpr (.inl (Cursor.current_moves hkind₂.symm (by simp)))
        rw [hm.advance] at hrel₂
        exact ⟨_, statement?_of_statement hread' hterminator, .inl hrel₂⟩
      · obtain ⟨hahead, hkind₂, hmore⟩ := closing_end hrel hend
        have hterminator : terminator c₂' = (.ok (), c₂'.advance) :=
          terminator_ok.mpr (.inl (Cursor.current_moves hkind₂ (by simp)))
        exact ⟨_, statement?_of_statement hread' hterminator, .inr ⟨hahead, hmore⟩⟩

/-- Where only semicolons are left in the first run, the second one goes on behind its own. -/
theorem closing_rest {c c' : Cursor} (h : (closing semicolon more finish).rel c c')
    (hrest : ∀ k ∈ c.kinds, k = .symbol .semicolon) :
    ∃ d, d.ahead = more ∧ d.finish = finish ∧ statements r c' = statements r d := by
  generalize hlength : c.ahead.length = n
  induction n using Nat.strongRecOn generalizing c c' with
  | ind n ih =>
    obtain hend | ⟨hsemicolon, hrest, hless⟩ := semicolons_cases hrest
    · obtain ⟨-, hkind, hmore, hfinish⟩ := closing_end h hend
      exact ⟨_, hmore, hfinish, statements_semicolon hkind⟩
    · obtain ⟨hkind, hadvance⟩ := closing_pass h (by simp [hsemicolon])
      rw [statements_semicolon (hkind ▸ hsemicolon)]
      exact ih _ (by omega) hadvance hrest rfl

/-- Statements up to the end of the first run are those of the second one up to its semicolon. -/
theorem closing_stream {c c' d : Cursor} {ss : List Statement} (hstream : Stream r c ss d)
    (hrest : ∀ k ∈ d.kinds, k = .symbol .semicolon) (h : (closing semicolon more finish).rel c c') :
    ∃ e, e.ahead = more ∧ e.finish = finish ∧
      (statements r c').1 = (statements r e).1.map (ss ++ ·) := by
  induction hstream generalizing c' with
  | stop =>
    obtain ⟨e, hmore, hfinish, hread⟩ := closing_rest (r := r) h hrest
    refine ⟨e, hmore, hfinish, ?_⟩
    rw [hread]
    cases (statements r e).1 <;> rfl
  | next hread hstream ih =>
    obtain ⟨d', hread', hrel | ⟨hahead, hmore, hfinish⟩⟩ := closing_statement h hread
    · obtain ⟨e, hmore, hfinish, hrest⟩ := ih hrest hrel
      refine ⟨e, hmore, hfinish, ?_⟩
      rw [statements_some hread', hrest]
      cases (statements r e).1 <;> rfl
    · cases hstream with
      | stop => exact ⟨d', hmore, hfinish, statements_some hread'⟩
      | next hmore _ =>
        have hless := statement?_shorter hmore
        rw [hahead] at hless
        cases hless

end

/-! ## A text farther on -/

/-- Places with the same tokens ahead, so many bytes farther on in the second run. -/
def shifted (bytes : Nat) : Lockstep where
  rel c c' := c'.ahead = c.ahead.map (·.shift bytes) ∧ c'.finish = c.finish.shift bytes
  escaped _ := False
  place s s' := s' = s.shift bytes
  fault f f' := f = f'
  escaped_reaches h _ := h
  current := by
    rintro ⟨behind, ahead, last⟩ ⟨behind', ahead', last'⟩ ⟨rfl, rfl⟩
    cases ahead <;> exact .inl rfl
  span := by
    rintro ⟨behind, ahead, last⟩ ⟨behind', ahead', last'⟩ ⟨rfl, rfl⟩
    cases ahead <;> rfl
  merge := by
    rintro s _ t _ rfl rfl
    simp [Span.merge, Span.shift]
  fault_refl _ := rfl
  unexpected := by
    rintro ⟨behind, ahead, last⟩ ⟨behind', ahead', last'⟩ ⟨rfl, rfl⟩ expected
    cases ahead <;> rfl
  advance := by
    rintro ⟨behind, ahead, last⟩ ⟨behind', ahead', last'⟩ ⟨rfl, rfl⟩ -
    cases ahead <;> exact .inr ⟨rfl, rfl⟩

theorem shifted_even (bytes : Nat) : (shifted bytes).Even where
  stays _ h := h
  current := by
    rintro ⟨behind, ahead, last⟩ ⟨behind', ahead', last'⟩ ⟨rfl, rfl⟩
    cases ahead <;> rfl
  advance := by
    rintro ⟨behind, ahead, last⟩ ⟨behind', ahead', last'⟩ ⟨rfl, rfl⟩
    cases ahead <;> exact ⟨rfl, rfl⟩
  toEnd := by
    rintro ⟨behind, ahead, last⟩ ⟨behind', ahead', last'⟩ ⟨rfl, rfl⟩
    exact ⟨rfl, rfl⟩

end Grammar

/-- The error so many bytes farther on. -/
def ReadError.shift (bytes : Nat) : ReadError → ReadError
  | .malformed fault span => .malformed fault (span.shift bytes)
  | e => e

namespace Grammar

theorem shift_of_same {α : Type} {bytes : Nat} {x x' : Except ReadError α}
    (h : (shifted bytes).Same x x') : x' = x.mapError (·.shift bytes) := by
  obtain e | a := x <;> obtain e' | a' := x'
  · cases h with
    | malformed hfault hplace =>
      rw [← show _ = _ from hfault, show _ = _ from hplace]
      rfl
    | noInput | unreadable => rfl
  · exact h.elim
  · exact h.elim
  · rw [show a = a' from h]
    rfl

/-- Statements farther on are the same, with their errors farther on. -/
theorem statements_shift (r : Registry) {bytes : Nat} {c c' : Cursor} (h : (shifted bytes).rel c c') :
    (statements r c').1 = (statements r c).1.mapError (·.shift bytes) := by
  have htrack := statements_tracks (r := r) (shifted_even bytes) h trivial (Nat.le_refl _)
    (Nat.le_refl _)
  exact shift_of_same (htrack.resolve_left id).1

theorem not_unclosed {k : Token.Kind} (h : k.inner = true ∨ k = .symbol .semicolon) :
    ¬ k.Unclosed := by
  rintro (rfl | rfl) <;> obtain h | h := h <;> cases h

theorem not_eof {k : Token.Kind} (h : k.inner = true ∨ k = .symbol .semicolon) : k ≠ .eof := by
  rintro rfl
  obtain h | h := h <;> cases h

/-- Where all statements of a text have been read up to its end, more statements may follow behind a
    semicolon. They are read as they would be by themselves, or not. -/
theorem statements_joined (r : Registry) (first second : String) (ss : List Statement)
    (h : (statements r (Cursor.ofText first)).1 = .ok ss)
    (hend : ∀ d, Stream r (Cursor.ofText first) ss d → ∀ k ∈ d.kinds, k = .symbol .semicolon)
    (hblock : ¬ Layout.block.Fills (Token.trailing first)) :
    (statements r (Cursor.ofText (first ++ "\n;\n" ++ second))).1 =
      ((statements r (Cursor.ofText second)).1.map (ss ++ ·)).mapError
        (·.shift (Text.byteLength first.toList + 3)) := by
  obtain ⟨d, hstream, -⟩ := statements_stream (Prod.ext h rfl)
  have hrest := hend d hstream
  obtain ⟨ks, hm, hks⟩ := hstream.moves
  have hkinds : ∀ t ∈ (Token.scan first).1, t.kind.inner = true ∨ t.kind = .symbol .semicolon := by
    intro t ht
    have hk : t.kind ∈ (Cursor.ofText first).kinds := List.mem_map_of_mem ht
    rw [hm.kinds] at hk
    obtain hk | hk := List.mem_append.mp hk
    · exact hks _ hk
    · exact .inr (hrest _ hk)
  have hjoined := Token.scan_joined second hblock fun t ht => not_unclosed (hkinds t ht)
  have hclosing : (closing ⟨.symbol .semicolon, _⟩ _ _).rel (Cursor.ofText first)
      (Cursor.ofText (first ++ "\n;\n" ++ second)) :=
    ⟨fun t ht => not_eof (hkinds t ht), rfl, congrArg Prod.fst hjoined,
      congrArg (·.2.span) hjoined⟩
  obtain ⟨e, hmore, hfinish, hread⟩ := closing_stream hstream hrest hclosing
  have hshifted : (shifted (Text.byteLength first.toList + 3)).rel (Cursor.ofText second) e :=
    ⟨hmore, hfinish⟩
  rw [hread, statements_shift r hshifted]
  cases (statements r (Cursor.ofText second)).1 <;> rfl

theorem statements_joined_delete :
    ∃ s, (statements Registry.builtin (Cursor.ofText "/* all */ delete t ")).1 = .ok [s] ∧
      (statements Registry.builtin
        (Cursor.ofText ("/* all */ delete t " ++ "\n;\n" ++ "drop t"))).1 =
          .error (.malformed (.unexpected .statement (.name "drop")) ⟨22, 26⟩) := by
  have hread : ((statement? Registry.builtin (Cursor.ofText "/* all */ delete t ")).1.toOption.bind
      id).isSome = true := by decide +kernel
  have hnil : (statement? Registry.builtin (Cursor.ofText "/* all */ delete t ")).2.kinds = [] := by
    decide +kernel
  have htrailing : Token.trailing "/* all */ delete t " = [' '] := by decide +kernel
  have herror : (match (statements Registry.builtin (Cursor.ofText "drop t")).1 with
      | .error e => some e
      | .ok _ => none) = some (.malformed (.unexpected .statement (.name "drop")) ⟨0, 4⟩) := by
    decide +kernel
  obtain ⟨s, hs⟩ := Option.isSome_iff_exists.mp hread
  obtain ⟨o, ho, rfl⟩ := Option.bind_eq_some_iff.mp hs
  have hstream := Stream.next (Prod.ext (ok_of_toOption ho) rfl) .stop
  have hrest : ∀ k ∈ (statement? Registry.builtin (Cursor.ofText "/* all */ delete t ")).2.kinds,
      k = .symbol .semicolon := by
    rw [hnil]
    exact nofun
  have hblock : ¬ Layout.block.Fills (Token.trailing "/* all */ delete t ") := by
    rw [htrailing]
    rintro (_ | ⟨-, hnone⟩)
    cases hnone
  refine ⟨s, hstream.statements hrest, ?_⟩
  rw [statements_joined _ _ "drop t" _ (hstream.statements hrest)
    (fun d hd => hd.unique hstream ▸ hrest) hblock]
  cases hdrop : (statements Registry.builtin (Cursor.ofText "drop t")).1 with
  | ok ss =>
    rw [hdrop] at herror
    cases herror
  | error e =>
    rw [hdrop] at herror
    cases herror
    rfl

end Grammar

end SqlFront
