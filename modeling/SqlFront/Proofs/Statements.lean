import Mathlib.Data.List.Forall2
import SqlFront.Proofs.Lockstep

/-! # Statements in lockstep

The rules of statements keep in step like those of their parts. Semicolons and the end have no part in a
statement itself; what looks at them keeps in step where the runs see the same tokens, `Lockstep.Even`.
Main statements: then the next statement, all statements that are left and a single condition are read
alike, with what is left behind them.
-/

namespace SqlFront

/-- Both runs see the same tokens, up to the end, and none of them escapes. -/
structure Lockstep.Even (L : Lockstep) : Prop where
  stays : ∀ c, ¬ L.escaped c
  current : ∀ {c c'}, L.rel c c' → c.current.kind = c'.current.kind
  advance : ∀ {c c'}, L.rel c c' → L.rel c.advance c'.advance
  toEnd : ∀ {c c'}, L.rel c c' → L.rel c.toEnd c'.toEnd

namespace Reading

/-- A name spells only one word. -/
theorem isWord_other {k : Token.Kind} {w w' : String} (h : k.isWord w = true)
    (hne : Text.upper w ≠ Text.upper w') : k.isWord w' = false := by
  obtain ⟨text, rfl, hw⟩ := isWord_iff.mp h
  rw [← Bool.not_eq_true, isWord_iff]
  rintro ⟨_, ⟨⟩, hw'⟩
  exact hne ((Text.sameWord_iff.mp hw).symm.trans (Text.sameWord_iff.mp hw'))

end Reading

namespace Grammar

open Reading Lockstep

variable {r : Registry}

/-! ## What statements start with -/

/-- What a statement starts with is no semicolon and ends no input. -/
theorem statement_starts {c d : Cursor} {s : Statement} (h : statement r c = (.ok s, d)) :
    c.current.kind ≠ .symbol .semicolon ∧ c.current.kind ≠ .eof ∧
      (c.current.kind.isWord "EXIT" || c.current.kind.isWord "QUIT") = false := by
  have hword {w : String} (hw : c.current.kind.isWord w = true)
      (hexit : Text.upper w ≠ Text.upper "EXIT") (hquit : Text.upper w ≠ Text.upper "QUIT") :
      c.current.kind ≠ .symbol .semicolon ∧ c.current.kind ≠ .eof ∧
        (c.current.kind.isWord "EXIT" || c.current.kind.isWord "QUIT") = false := by
    have hother := And.intro (isWord_other hw hexit) (isWord_other hw hquit)
    obtain ⟨text, hk, -⟩ := isWord_iff.mp hw
    rw [hk] at hother ⊢
    simp [hother]
  rw [statement, kind_bind] at h
  split at h
  iterate 5
    rename_i hk
    rw [hk]
    simp [Token.Kind.isWord]
  split at h
  · rename_i hlock
    exact hword hlock (by decide) (by decide)
  · split at h
    · rename_i hend
      obtain hend | hend := Bool.or_eq_true_iff.mp hend
      · exact hword hend (by decide) (by decide)
      · exact hword hend (by decide) (by decide)
    · exact absurd h (by simp [unexpected_ok])

theorem emptyStatements_progress : Progress fun _ : Unit => do
    if ← acceptSymbol .semicolon then return .yield () else return .done () := by
  intro u c t d h
  simp only [↓acceptSymbol_ite, pure_ok] at h
  obtain ⟨e, hm, -, rfl⟩ | ⟨-, heq, -⟩ := h
  · have hless := hm.length
    simp only [List.length_cons, List.length_nil] at hless
    omega
  · cases heq

theorem terminator_ok {c d : Cursor} {u : Unit} :
    terminator c = (.ok u, d) ↔ c.Moves [.symbol .semicolon] d ∨ c.current.kind = .eof ∧ c = d := by
  rw [terminator]
  simp only [↓acceptSymbol_ite, pure_ok, kind_bind]
  constructor
  · rintro (⟨e, hm, -, rfl⟩ | ⟨-, h⟩)
    · exact .inl hm
    · split at h
      · exact .inr ⟨‹_›, (pure_ok.mp h).2⟩
      · exact absurd h (by simp [unexpected_ok])
  · rintro (hm | ⟨hend, rfl⟩)
    · exact .inl ⟨d, hm, trivial, rfl⟩
    · simp [hend, pure_apply]

/-- A statement is made of one token at least. -/
theorem statement_shorter {c d : Cursor} {s : Statement} {u : Unit}
    (h : statement r c = (.ok s, d)) {e : Cursor} (hterminator : terminator d = (.ok u, e)) :
    e.ahead.length < c.ahead.length := by
  obtain ⟨ks, hm⟩ := (statement r).moves c
  rw [h] at hm
  have hlength : c.ahead.length = ks.length + d.ahead.length := hm.length
  obtain hsemicolon | ⟨hend, rfl⟩ := terminator_ok.mp hterminator
  · have hless := hsemicolon.length
    simp only [List.length_cons, List.length_nil] at hless
    omega
  · have hne : ks ≠ [] := by
      rintro rfl
      obtain rfl := Cursor.moves_nil.mp hm
      exact (statement_starts h).2.1 hend
    have hpos := List.length_pos_iff.mpr hne
    omega

theorem statement?_shorter {c d : Cursor} {s : Statement}
    (h : statement? r c = (.ok (some s), d)) : d.ahead.length < c.ahead.length := by
  obtain ⟨c₁, c₂, h₁, h₂, h₃⟩ := statement?_parts h
  have hless := Reading.length_le emptyStatements c
  rw [h₁] at hless
  exact Nat.lt_of_lt_of_le (statement_shorter h₂ h₃) hless

/-- One turn of reading the statements that are left. -/
def turn (r : Registry) (done : List Statement) : Reading (ForInStep (List Statement)) := do
  match ← statement? r with
  | some statement => return .yield (done ++ [statement])
  | none => return .done done

theorem statements_turns (r : Registry) : statements r = iterate (turn r) [] := rfl

theorem turn_apply (done : List Statement) (c : Cursor) :
    turn r done c = match statement? r c with
      | (.ok (some s), d) => (.ok (.yield (done ++ [s])), d)
      | (.ok none, d) => (.ok (.done done), d)
      | (.error e, d) => (.error e, d) := by
  rw [turn, bind_apply]
  rcases statement? r c with ⟨_ | _ | s, d⟩ <;> rfl

theorem turn_progress (r : Registry) : Progress (turn r) := by
  intro done c t d h
  rw [turn_apply] at h
  rcases hnext : statement? r c with ⟨_ | _ | s, e⟩ <;> rw [hnext] at h <;> cases h
  exact statement?_shorter hnext

/-! ## Statements -/

section

variable {L : Lockstep} {n m : Nat}

theorem insertColumns?_tracks (hstays : ∀ c, ¬ L.escaped c) :
    L.Tracks n m insertColumns? insertColumns? := by
  refine tracks_kind_bind rfl fun k => ?_
  split
  · rename_i hk
    have hcolumns : L.TracksFrom (· = .symbol .leftParen) n m
        (do
          advance
          let columns ← commaList dottedName
          symbol .rightParen
          return some columns : Reading (Option (List String)))
        (do
          advance
          let columns ← commaList dottedName
          symbol .rightParen
          return some columns) :=
      tracks_advance_then rfl ((tracks_commaList dottedName_tracks).bind fun _ =>
        (tracks_symbol rfl).bind fun _ => tracks_pure _)
    intro c c' hrel hc hn hm
    have hparen : c.current.kind = .symbol .leftParen := hc.trans hk
    rw [nextKind_bind, nextKind_bind]
    have hrel' := (L.advance hrel (by rw [hparen]; rfl)).resolve_left (hstays _)
    simp only [current_iff hrel' (k := .keyword .select) rfl]
    split
    · exact tracks_pure (P := fun _ => True) _ hrel trivial hn hm
    · exact hcolumns hrel hparen hn hm
  · exact tracks_pure _

theorem insertSource_tracks : L.Tracks n m (insertSource r) (insertSource r) := by
  have hparts := readers_tracks (L := L) r n m
  refine tracks_kind_bind rfl fun k => ?_
  split
  · exact tracks_advance_then rfl ((tracks_symbol rfl).bind fun _ => (expressions_tracks hparts).bind
      fun _ => (tracks_symbol rfl).bind fun _ => tracks_pure _)
  · exact TracksFrom.bind hparts.query.at fun _ => tracks_pure _
  · refine TracksFrom.bind ?_ fun _ => tracks_pure _
    exact (enclosedQuery_tracks hparts).mono (Nat.le_succ n) (Nat.le_succ m) fun _ h => h
  · exact tracks_unexpected _

theorem insert_tracks (hstays : ∀ c, ¬ L.escaped c) : L.Tracks n m (insert r) (insert r) :=
  (tracks_keyword _).bind fun _ =>
    (tracks_keyword _).bind fun _ =>
    dottedName_tracks.bind fun _ =>
    (insertColumns?_tracks hstays).bind fun _ =>
    insertSource_tracks.bind fun _ => tracks_pure _

theorem assignment_tracks : L.Tracks n m (assignment r) (assignment r) :=
  dottedName_tracks.bind fun _ =>
    (tracks_symbol rfl).bind fun _ =>
    ((readers_tracks r n m).expression 0).bind fun _ => tracks_pure _

theorem update_tracks : L.Tracks n m (update r) (update r) := by
  refine TracksFrom.bind ?_ fun _ => tracks_pure _
  exact (tracks_keyword _).bind fun _ =>
    dottedName_tracks.bind fun _ =>
    TracksFrom.bind name?_tracks fun _ =>
    (tracks_keyword _).bind fun _ =>
    (tracks_commaList assignment_tracks).bind fun _ =>
    (clause?_tracks (readers_tracks r n m) .where).bind fun _ => tracks_pure _

/-- A token that may be left out and leaves no trace. -/
theorem tracks_discard {α : Type} {P : Token.Kind → Prop} {p : Reading α}
    (h : L.TracksFrom P n m p p) : L.TracksFrom P n m (discard p) (discard p) :=
  h.bind fun _ => tracks_pure ()

theorem delete_tracks : L.Tracks n m (delete r) (delete r) :=
  (tracks_keyword _).bind fun _ =>
    (tracks_discard (tracks_acceptKeyword _)).bind fun _ =>
    dottedName_tracks.bind fun _ =>
    (clause?_tracks (readers_tracks r n m) .where).bind fun _ => tracks_pure _

theorem lockMode_tracks : L.Tracks n m lockMode lockMode := by
  refine (tracks_acceptWord _).bind fun row => ?_
  cases row
  · refine (tracks_acceptWord _).bind fun share => ?_
    cases share
    · refine (tracks_acceptWord _).bind fun exclusive => ?_
      cases exclusive
      · exact tracks_unexpected _
      · exact tracks_pure _
    · refine (tracks_acceptKeyword _).bind fun update => ?_
      cases update
      · refine (tracks_acceptWord _).bind fun row => ?_
        cases row
        · exact tracks_pure _
        · exact (tracks_word _).bind fun _ => tracks_pure _
      · exact tracks_pure _
  · refine (tracks_acceptWord _).bind fun share => ?_
    cases share
    · exact (tracks_word _).bind fun _ => tracks_pure _
    · exact tracks_pure _

theorem lock_tracks : L.Tracks n m lock lock :=
  (tracks_word _).bind fun _ =>
    (tracks_word _).bind fun _ =>
    (tracks_commaList dottedName_tracks).bind fun _ =>
    (tracks_keyword _).bind fun _ =>
    lockMode_tracks.bind fun _ =>
    (tracks_word _).bind fun _ =>
    (tracks_acceptWord _).bind fun _ => tracks_pure _

theorem ending_tracks : L.Tracks n m ending ending := by
  refine (tracks_acceptWord _).bind fun commit => ?_
  cases commit
  · exact (tracks_word _).bind fun _ => tracks_pure _
  · exact tracks_pure _

theorem comment?_tracks : L.Tracks n m comment? comment? := by
  refine (tracks_acceptWord _).bind fun comment => ?_
  cases comment
  · exact tracks_pure _
  · refine tracks_kind_bind rfl fun k => ?_
    split
    · exact tracks_advance_then rfl (tracks_pure _)
    · exact tracks_unexpected _

theorem endTransaction_tracks : L.Tracks n m endTransaction endTransaction :=
  ending_tracks.bind fun _ =>
    (tracks_discard (tracks_acceptWord _)).bind fun _ =>
    comment?_tracks.bind fun _ => tracks_pure _

theorem setTransaction_tracks : L.Tracks n m setTransaction setTransaction := by
  refine (tracks_keyword _).bind fun _ => (tracks_word _).bind fun _ =>
    (tracks_word _).bind fun _ => (tracks_acceptWord _).bind fun only => ?_
  cases only
  · exact (tracks_word _).bind fun _ => tracks_pure _
  · exact tracks_pure _

theorem statement_tracks (hstays : ∀ c, ¬ L.escaped c) :
    L.Tracks n m (statement r) (statement r) := by
  refine tracks_kind_bind rfl fun k => ?_
  split
  · exact TracksFrom.bind (readers_tracks r n m).query.at fun _ => tracks_pure _
  · exact TracksFrom.bind (insert_tracks hstays).at fun _ => tracks_pure _
  · exact TracksFrom.bind update_tracks.at fun _ => tracks_pure _
  · exact TracksFrom.bind delete_tracks.at fun _ => tracks_pure _
  · exact TracksFrom.bind setTransaction_tracks.at fun _ => tracks_pure _
  · split
    · exact TracksFrom.bind lock_tracks.at fun _ => tracks_pure _
    · split
      · exact TracksFrom.bind endTransaction_tracks.at fun _ => tracks_pure _
      · exact tracks_unexpected _

end

/-- The places that are reached from a given one over tokens of statements alone. -/
def within (start : Cursor) : Lockstep where
  rel c c' := c = c' ∧ ∃ ks, start.Moves ks c ∧ ∀ k ∈ ks, k.inner = true
  escaped _ := False
  place _ _ := True
  fault _ _ := True
  escaped_reaches h _ := h
  current h := .inl (h.1 ▸ rfl)
  span _ := trivial
  merge _ _ := trivial
  fault_refl _ := trivial
  unexpected _ _ := trivial
  advance h hinner := by
    obtain ⟨rfl, ks, hm, hks⟩ := h
    refine .inr ⟨rfl, _, hm.trans (Cursor.moves_advance (ne_eof_of_inner hinner)), fun k hk => ?_⟩
    obtain hk | hk := List.mem_append.mp hk
    · exact hks k hk
    · rwa [List.mem_singleton.mp hk]

/-- A statement passes only tokens of which statements are made, also if it fails. -/
theorem statement_inner (r : Registry) (c : Cursor) :
    ∃ ks, c.Moves ks (statement r c).2 ∧ ∀ k ∈ ks, k.inner = true := by
  have htrack := statement_tracks (r := r) (L := within c) (fun _ h => h) ⟨rfl, [], .refl c, nofun⟩
    trivial (Nat.le_refl _) (Nat.le_refl _)
  exact (htrack.resolve_left id).2.2

/-- What a next statement has passed: semicolons, the tokens of the statement, and the semicolon behind
    it if the end does not follow. -/
theorem statement?_moves {c d : Cursor} {s : Statement} (h : statement? r c = (.ok (some s), d)) :
    ∃ before body after, c.Moves (before ++ body ++ after) d ∧
      (∀ k ∈ before, k = .symbol .semicolon) ∧ body ≠ [] ∧ (∀ k ∈ body, k.inner = true) ∧
      (after = [.symbol .semicolon] ∨ after = [] ∧ d.current.kind = .eof) := by
  obtain ⟨c₁, c₂, h₁, h₂, h₃⟩ := statement?_parts h
  obtain ⟨before, hm₁, hbefore⟩ := emptyStatements_takes h₁
  obtain ⟨body, hm₂, hbody⟩ := statement_inner r c₁
  rw [h₂] at hm₂
  have hne : c₁.current.kind.Ends → False := fun hk => by
    have hstarts := statement_starts h₂
    cases hk' : c₁.current.kind <;> rw [hk'] at hk hstarts <;> cases hk <;> simp at hstarts
  have hbody' : c₂.current.kind.Ends → body ≠ [] := by
    rintro hk rfl
    obtain rfl := Cursor.moves_nil.mp hm₂
    exact hne hk
  obtain hm₃ | ⟨hend, rfl⟩ := terminator_ok.mp h₃
  · refine ⟨before, body, _, (hm₁.trans hm₂).trans hm₃, hbefore, hbody' ?_, hbody, .inl rfl⟩
    rw [hm₃.current_cons]
    exact .semicolon
  · refine ⟨before, body, [], ?_, hbefore, hbody' ?_, hbody, .inr ⟨rfl, hend⟩⟩
    · simpa using hm₁.trans hm₂
    · rw [hend]
      exact .eof

/-! ## Rows of statements -/

theorem emptyStatements_semicolon {c : Cursor} (h : c.current.kind = .symbol .semicolon) :
    emptyStatements c = emptyStatements c.advance := by
  conv_lhs => rw [emptyStatements, iterate_eq emptyStatements_progress, bind_apply, bind_apply]
  simp only [acceptSymbol, accept, h, beq_self_eq_true, ↓reduceIte]
  rfl

theorem emptyStatements_other {c : Cursor} (h : c.current.kind ≠ .symbol .semicolon) :
    emptyStatements c = (.ok (), c) := by
  rw [emptyStatements, iterate_eq emptyStatements_progress, bind_apply]
  simp [acceptSymbol, accept, bind_apply, h, pure_apply]

/-- Where a statement starts, the next one is this one. -/
theorem statement?_of_statement {c d e : Cursor} {s : Statement} (h : statement r c = (.ok s, d))
    (hterminator : terminator d = (.ok (), e)) : statement? r c = (.ok (some s), e) := by
  obtain ⟨hsemicolon, hend, hexit⟩ := statement_starts h
  rw [statement?, bind_apply, emptyStatements_other hsemicolon]
  dsimp only
  rw [kind_bind, if_neg hend, if_neg (by simp [hexit]), bind_apply, h]
  dsimp only
  rw [bind_apply, hterminator]
  rfl

theorem statement?_semicolon {c : Cursor} (h : c.current.kind = .symbol .semicolon) :
    statement? r c = statement? r c.advance := by
  rw [statement?, bind_apply, bind_apply, emptyStatements_semicolon h]

/-- No statement is left at the end. -/
theorem statement?_at_end {c : Cursor} (h : c.current.kind = .eof) :
    statement? r c = (.ok none, c) := by
  rw [statement?, bind_apply, emptyStatements_other (by simp [h])]
  dsimp only
  rw [kind_bind, if_pos h]
  rfl

/-- What has been read stands in front of what is left. -/
theorem turns_from (done : List Statement) (c : Cursor) :
    iterate (turn r) done c = match statements r c with
      | (.ok rest, d) => (.ok (done ++ rest), d)
      | (.error e, d) => (.error e, d) := by
  generalize hlength : c.ahead.length = n
  induction n using Nat.strongRecOn generalizing done c with
  | ind n ih =>
    rw [statements_turns, iterate_eq (turn_progress r), iterate_eq (turn_progress r), bind_apply,
      bind_apply, turn_apply, turn_apply]
    rcases hnext : statement? r c with ⟨_ | _ | s, d⟩
    · rfl
    · simp [pure_apply]
    · have hless := statement?_shorter hnext
      have hright := ih d.ahead.length (by omega) [s] d rfl
      have hleft := ih d.ahead.length (by omega) (done ++ [s]) d rfl
      simp only [List.nil_append]
      rw [hleft, hright]
      rcases statements r d with ⟨_ | rest, e⟩
      · rfl
      · simp

/-- All statements are the next one, if there is one, and those behind it. -/
theorem statements_apply (r : Registry) (c : Cursor) :
    statements r c = match statement? r c with
      | (.ok (some s), d) => match statements r d with
        | (.ok rest, e) => (.ok (s :: rest), e)
        | (.error err, e) => (.error err, e)
      | (.ok none, d) => (.ok [], d)
      | (.error err, d) => (.error err, d) := by
  conv_lhs => rw [statements_turns, iterate_eq (turn_progress r), bind_apply, turn_apply]
  rcases statement? r c with ⟨_ | _ | s, d⟩
  · rfl
  · rfl
  · exact turns_from [s] d

theorem statements_some {c d : Cursor} {s : Statement} (h : statement? r c = (.ok (some s), d)) :
    (statements r c).1 = (statements r d).1.map (s :: ·) := by
  rw [statements_apply, h]
  dsimp only
  rcases statements r d with ⟨_ | rest, e⟩ <;> rfl

theorem statements_ok {c e : Cursor} {ss : List Statement} :
    statements r c = (.ok ss, e) ↔ ss = [] ∧ statement? r c = (.ok none, e) ∨
      ∃ s rest d, ss = s :: rest ∧ statement? r c = (.ok (some s), d) ∧
        statements r d = (.ok rest, e) := by
  rw [statements_apply]
  rcases statement? r c with ⟨_ | _ | s, d⟩
  · simp
  · simp [eq_comm]
  · rcases hrest : statements r d with ⟨_ | rest, f⟩
    · simp [hrest]
    · simp [hrest, eq_comm]

theorem statements_semicolon {c : Cursor} (h : c.current.kind = .symbol .semicolon) :
    statements r c = statements r c.advance := by
  rw [statements_apply, statements_apply r c.advance, statement?_semicolon h]

section

variable {L : Lockstep} {n m : Nat} (hL : L.Even)

include hL

theorem acceptSemicolon_tracks :
    L.Tracks n m (acceptSymbol .semicolon) (acceptSymbol .semicolon) := by
  intro c c' hrel _ _ _
  simp only [acceptSymbol, accept, ← hL.current hrel]
  split
  · exact .ok (hL.advance hrel)
  · exact .ok hrel

/-- What is done at a token may tell a semicolon from the end. -/
theorem kind_tracks {α : Type} {P : Token.Kind → Prop} {f f' : Token.Kind → Reading α}
    (h : ∀ k, L.Tracks n m (f k) (f' k)) : L.TracksFrom P n m (kind >>= f) (kind >>= f') := by
  intro c c' hrel _ hn hm
  rw [kind_bind, kind_bind, ← hL.current hrel]
  exact h _ hrel trivial hn hm

theorem terminator_tracks : L.Tracks n m terminator terminator := by
  refine (acceptSemicolon_tracks hL).bind fun semicolon => ?_
  cases semicolon
  · refine kind_tracks hL fun k => ?_
    split
    · exact tracks_pure _
    · exact tracks_unexpected _
  · exact tracks_pure _

theorem emptyStatements_tracks : L.Tracks n m emptyStatements emptyStatements := by
  refine tracks_iterate (fun _ => ?_) emptyStatements_progress emptyStatements_progress ()
  refine (acceptSemicolon_tracks hL).bind fun semicolon => ?_
  cases semicolon
  · exact tracks_pure _
  · exact tracks_pure _

theorem statement?_tracks : L.Tracks n m (statement? r) (statement? r) := by
  have hrest : L.Tracks n m toEnd toEnd := fun _ _ hrel _ _ _ => .ok (hL.toEnd hrel)
  refine (emptyStatements_tracks hL).bind fun _ => kind_tracks hL fun k => ?_
  split
  · exact tracks_pure _
  · split
    · exact hrest.bind fun _ => tracks_pure _
    · exact (statement_tracks hL.stays).bind fun _ => (terminator_tracks hL).bind fun _ =>
        tracks_pure _

theorem statements_tracks : L.Tracks n m (statements r) (statements r) := by
  refine tracks_iterate (fun done => ?_) (turn_progress r) (turn_progress r) []
  refine (statement?_tracks hL).bind fun next => ?_
  cases next
  · exact tracks_pure _
  · exact tracks_pure _

theorem condition_tracks : L.Tracks n m (condition r) (condition r) :=
  (tracks_discard (tracks_acceptKeyword _)).bind fun _ =>
    ((readers_tracks r n m).expression 0).bind fun _ =>
    (terminator_tracks hL).bind fun _ => tracks_pure _

end

/-! ## Calls -/

/-- The ways to read from a parser. -/
inductive Call where
  /-- The next statement. -/
  | statement
  /-- All statements that are left. -/
  | statements
  /-- A single expression. -/
  | condition
  deriving DecidableEq, Repr

/-- What a call gives if it succeeds. -/
inductive Answer where
  | statement (next : Option Statement)
  | statements (all : List Statement)
  | condition (e : Expr)

/-- What is read when a parser is called. -/
def Call.reading (r : Registry) : Call → Reading Answer
  | .statement => return .statement (← statement? r)
  | .statements => return .statements (← Grammar.statements r)
  | .condition => return .condition (← Grammar.condition r)

/-- The answers to calls one after another, each from where the one before it has stopped, whether it
    has succeeded or not. -/
def answers (r : Registry) : List Call → Cursor → List (Except ReadError Answer)
  | [], _ => []
  | call :: calls, c => (call.reading r c).1 :: answers r calls (call.reading r c).2

theorem call_tracks {L : Lockstep} {n m : Nat} (hL : L.Even) (call : Call) :
    L.Tracks n m (call.reading r) (call.reading r) := by
  cases call with
  | statement => exact (statement?_tracks hL).bind fun _ => tracks_pure _
  | statements => exact (statements_tracks hL).bind fun _ => tracks_pure _
  | condition => exact (condition_tracks hL).bind fun _ => tracks_pure _

/-- From places that belong together, calls are answered alike. -/
theorem answers_track {L : Lockstep} (hL : L.Even) (calls : List Call) {c c' : Cursor}
    (h : L.rel c c') : List.Forall₂ L.Same (answers r calls c) (answers r calls c') := by
  induction calls generalizing c c' with
  | nil => exact .nil
  | cons call calls ih =>
    have hcall := call_tracks (r := r) hL call h trivial (Nat.le_refl _) (Nat.le_refl _)
    obtain ⟨hsame, hrel⟩ := hcall.resolve_left (hL.stays _)
    exact .cons hsame (ih hrel)

end Grammar

end SqlFront
