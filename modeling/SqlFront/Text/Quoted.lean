/-!
# Quoted text

Between quotes, a quote that belongs to the text is written twice. Main statement: what is written
between two quotes is read back, whatever follows that does not start with a quote.
-/

namespace SqlFront.Text

/-- The text as it is written between quotes: every quote is doubled. -/
def doubled (quote : Char) : List Char → List Char
  | [] => []
  | c :: cs => if c = quote then quote :: quote :: doubled quote cs else c :: doubled quote cs

/-- The text that the characters between two quotes stand for: every doubled quote counts once. -/
def undoubled (quote : Char) : List Char → List Char
  | [] => []
  | [c] => [c]
  | c :: d :: rest =>
    if c = quote ∧ d = quote then quote :: undoubled quote rest
    else c :: undoubled quote (d :: rest)

/-- Cut a text after its first quote that is not doubled. The first part holds the characters
    before that quote; there is none if the text has no such quote. -/
def cutQuoted? (quote : Char) : List Char → Option (List Char × List Char)
  | [] => none
  | [c] => if c = quote then some ([], []) else none
  | c :: d :: rest =>
    if c = quote then
      if d = quote then
        (cutQuoted? quote rest).map fun (inside, after) => (quote :: quote :: inside, after)
      else some ([], d :: rest)
    else (cutQuoted? quote (d :: rest)).map fun (inside, after) => (c :: inside, after)

/-- Reading the characters between quotes gives back the text they were written for. -/
theorem undoubled_doubled (quote : Char) (cs : List Char) :
    undoubled quote (doubled quote cs) = cs := by
  induction cs with
  | nil => rfl
  | cons c cs ih =>
    by_cases h : c = quote
    · simp [doubled, undoubled, h, ih]
    · rw [doubled, if_neg h]
      cases hd : doubled quote cs with
      | nil =>
        rw [hd] at ih
        simp only [undoubled] at ih ⊢
        rw [← ih]
      | cons d rest =>
        rw [undoubled, if_neg (by simp [h]), ← hd, ih]

/-- A text written between quotes ends at its closing quote, unless another quote follows. -/
theorem cutQuoted?_doubled (quote : Char) (cs rest : List Char) (h : rest.head? ≠ some quote) :
    cutQuoted? quote (doubled quote cs ++ quote :: rest) = some (doubled quote cs, rest) := by
  induction cs with
  | nil =>
    cases rest with
    | nil => simp [doubled, cutQuoted?]
    | cons c rest =>
      have : ¬ c = quote := by simpa using h
      simp [doubled, cutQuoted?, this]
  | cons c cs ih =>
    by_cases hc : c = quote
    · subst hc
      simp [doubled, cutQuoted?, ih]
    · rw [doubled, if_neg hc, List.cons_append]
      obtain ⟨d, tail, ht⟩ : ∃ d tail, doubled quote cs ++ quote :: rest = d :: tail := by
        cases doubled quote cs <;> simp
      rw [ht, cutQuoted?, if_neg hc, ← ht, ih]
      rfl

end SqlFront.Text
