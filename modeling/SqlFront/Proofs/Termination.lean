import SqlFront.Proofs.Statements

/-! # Reading comes to an end

The grammar bounds its loops by the tokens ahead, and the depth of expressions and queries in one
another too. Main statement: no bound is ever met. Every turn of a loop that goes on has passed a token,
and so has a rule before it reads a part; loops and rules without bounds have a single meaning, which is
that of the readings with bounds.
-/

namespace SqlFront

namespace Grammar

open Reading Lockstep

/-! ## Loops -/

/-- One turn of a list with commas. -/
def listTurn {α : Type} (item : Reading α) (items : List α) : Reading (ForInStep (List α)) := do
  if ← acceptSymbol .comma then return .yield (items ++ [← item]) else return .done items

/-- One turn of a column with dots. -/
def columnTurn (text : String) : Reading (ForInStep String) := do
  if ← acceptSymbol .dot then
    if ← acceptSymbol .star then return .done (text ++ ".*")
    else return .yield (text ++ "." ++ (← name))
  else return .done text

/-- One turn of a name with dots. -/
def dottedTurn (text : String) : Reading (ForInStep String) := do
  if ← acceptSymbol .dot then return .yield (text ++ "." ++ (← name)) else return .done text

/-- One turn of passing semicolons. -/
def emptyTurn (_ : Unit) : Reading (ForInStep Unit) := do
  if ← acceptSymbol .semicolon then return .yield () else return .done ()

theorem commaList_turns {α : Type} (item : Reading α) :
    commaList item = item >>= fun first => iterate (listTurn item) [first] := rfl

theorem columnRest_turns (first : String) :
    columnRest first = iterate columnTurn first >>= fun name => pure (.column name) := rfl

theorem dottedName_turns : dottedName = name >>= iterate dottedTurn := rfl

theorem expression_turns (r : Registry) (part : Readers) (power : Nat) :
    expression r part power = operand r part >>= fun first =>
      iterate (chainStep part power) ⟨first, none, false⟩ >>= fun chain => pure chain.expr := rfl

theorem emptyStatements_turns : emptyStatements = iterate emptyTurn () := rfl

/-- The loops of the grammar. -/
inductive Loop (r : Registry) : {σ : Type} → (σ → Reading (ForInStep σ)) → Prop
  | list {α : Type} (item : Reading α) : Loop r (listTurn item)
  | column : Loop r columnTurn
  | dotted : Loop r dottedTurn
  | chain (part : Readers) (power : Nat) : Loop r (chainStep part power)
  | empty : Loop r emptyTurn
  | statements : Loop r (turn r)

/-- Every turn of a loop that goes on has passed a token. -/
theorem Loop.progress {r : Registry} {σ : Type} {step : σ → Reading (ForInStep σ)}
    (h : Loop r step) : Progress step := by
  cases h with
  | list item => exact progress_commaList item
  | column => exact columnRest_progress
  | dotted => exact dottedName_progress
  | chain part power => exact chainStep_progress part power
  | empty => exact emptyStatements_progress
  | statements => exact turn_progress r

/-- A loop is a turn and, if that goes on, the loop again. -/
def Unrolls {σ : Type} (step : σ → Reading (ForInStep σ)) (loop : σ → Reading σ) : Prop :=
  ∀ s, loop s = step s >>= fun
    | .done t => pure t
    | .yield t => loop t

/-- If turns make progress, there is only one way to repeat them. -/
theorem unrolls_iff {σ : Type} {step : σ → Reading (ForInStep σ)} (h : Progress step)
    {loop : σ → Reading σ} : Unrolls step loop ↔ loop = iterate step := by
  constructor
  · intro hloop
    apply funext
    intro s
    apply ext
    intro c
    generalize hlength : c.ahead.length = n
    induction n using Nat.strongRecOn generalizing s c with
    | ind n ih =>
      rw [hloop s, iterate_eq h, bind_apply, bind_apply]
      rcases hturn : step s c with ⟨_ | _ | t, d⟩
      · rfl
      · rfl
      · have hless := h hturn
        exact ih _ (by omega) t d rfl
  · rintro rfl
    exact fun s => iterate_eq h s

/-! ## Parts of parts -/

/-- How expressions and queries are read by their rules, with the given readers of their parts. -/
def rules (r : Registry) (part : Readers) : Readers := ⟨expression r part, query r part⟩

/-- The readers read alike where there are at most so many tokens ahead. -/
structure AgreeUpTo (n : Nat) (part part' : Readers) : Prop where
  expression : ∀ power c, c.ahead.length ≤ n → part.expression power c = part'.expression power c
  query : ∀ c, c.ahead.length ≤ n → part.query c = part'.query c

variable {r : Registry} {part part' : Readers} {n : Nat}

theorem AgreeUpTo.tracks (h : AgreeUpTo n part part') : sameCursor.TracksParts n n part part' where
  expression power c c' hrel _ hn _ := by
    obtain rfl : c = c' := hrel
    exact agree_of_eq (h.expression power c hn)
  query c c' hrel _ hn _ := by
    obtain rfl : c = c' := hrel
    exact agree_of_eq (h.query c hn)

/-- Rules read their parts behind a token that has been passed. -/
theorem AgreeUpTo.rules (h : AgreeUpTo n part part') :
    AgreeUpTo (n + 1) (rules r part) (rules r part') where
  expression power _ hn := eq_of_agree (expression_tracks h.tracks power rfl trivial hn hn)
  query _ hn := eq_of_agree (query_tracks h.tracks rfl trivial hn hn)

theorem readers_eq_rules (r : Registry) : readers r = rules r (readers r) := by
  rw [rules, ← query_readers, ← show (readers r).expression = _ from funext (expression_readers r)]

theorem agreeUpTo_of_eq_rules (h : part = rules r part) (h' : part' = rules r part') (n : Nat) :
    AgreeUpTo n part part' := by
  induction n with
  | zero =>
    have hend {c : Cursor} (hc : c.ahead.length ≤ 0) : c.current.kind.Ends := by
      rw [Cursor.current, List.eq_nil_of_length_eq_zero (Nat.le_zero.mp hc)]
      exact .eof
    constructor
    · intro power c hc
      rw [h, h']
      exact (expression_at_end r part power (hend hc)).trans
        (expression_at_end r part' power (hend hc)).symm
    · intro c hc
      rw [h, h']
      exact (query_at_end r part (hend hc)).trans (query_at_end r part' (hend hc)).symm
  | succ n ih =>
    rw [h, h']
    exact ih.rules

/-- There is only one way to read parts by the rules they are parts of. -/
theorem eq_rules_iff : part = rules r part ↔ part = readers r := by
  constructor
  · intro h
    have hagree := agreeUpTo_of_eq_rules h (readers_eq_rules r)
    have hexpression : part.expression = (readers r).expression :=
      funext fun power => ext fun c => (hagree c.ahead.length).expression power c (Nat.le_refl _)
    have hquery : part.query = (readers r).query :=
      ext fun c => (hagree c.ahead.length).query c (Nat.le_refl _)
    obtain ⟨expression, query⟩ := part
    obtain rfl : expression = _ := hexpression
    obtain rfl : query = _ := hquery
    rfl
  · rintro rfl
    exact readers_eq_rules r

/-- No loop and no descent of the grammar goes on for ever. -/
structure Terminates (r : Registry) : Prop where
  /-- Every turn of a loop that goes on has passed a token. -/
  turn : ∀ {σ : Type} {step : σ → Reading (ForInStep σ)}, Loop r step →
    ∀ {s c t d}, step s c = (.ok (.yield t), d) → d.ahead.length < c.ahead.length
  /-- So a loop without a bound is the one with the bound. -/
  loop : ∀ {σ : Type} {step : σ → Reading (ForInStep σ)}, Loop r step →
    ∀ {loop : σ → Reading σ}, Unrolls step loop ↔ loop = iterate step
  /-- Before a part is read, a token has been passed. -/
  descent : ∀ {n part part'}, AgreeUpTo n part part' →
    AgreeUpTo (n + 1) (rules r part) (rules r part')
  /-- So the rules without a bound on their depth are those with the bound. -/
  recursion : ∀ {part}, part = rules r part ↔ part = readers r

theorem terminates (r : Registry) : Terminates r where
  turn h _ _ _ _ hstep := h.progress hstep
  loop h := unrolls_iff h.progress
  descent h := h.rules
  recursion := eq_rules_iff

end Grammar

end SqlFront
