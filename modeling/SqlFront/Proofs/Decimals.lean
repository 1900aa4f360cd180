import SqlFront.Decimal.Reader
import SqlFront.Proofs.Lexing

/-! # What can be read as a number

The reader of numbers cuts a text into its parts and fails where one of them is missing. Main statement:
it reads exactly the texts that have an optional sign, digits with at most one point and a digit on one of
its sides, and an optional exponent, and besides them the words for numbers without digits.
-/

namespace SqlFront.Decimal

open Token

/-- A plus, a minus or nothing. -/
def IsSign (cs : List Char) : Prop := cs = [] ∨ cs = ['+'] ∨ cs = ['-']

/-- Digits with at most one point and a digit on one of its sides, and an optional exponent. -/
inductive IsNumeral : List Char → Prop
  | whole {digits power} : (∀ c ∈ digits, c.isDigit = true) → digits ≠ [] → IsExponent power →
      IsNumeral (digits ++ power)
  | point {whole places power} : (∀ c ∈ whole, c.isDigit = true) →
      (∀ c ∈ places, c.isDigit = true) → whole ++ places ≠ [] → IsExponent power →
      IsNumeral (whole ++ '.' :: (places ++ power))

/-- A word for a number without digits, in any case of its letters. -/
def IsNumberWord (cs : List Char) : Prop :=
  Text.lower (String.ofList cs) ∈ ["inf", "infinity", "nan"]

/-- What can be read as a number. -/
def Readable (cs : List Char) : Prop :=
  ∃ signs number, cs = signs ++ number ∧ IsSign signs ∧ (IsNumeral number ∨ IsNumberWord number)

/-! ## Parts of a number -/

theorem signOf_split (cs : List Char) : ∃ signs, IsSign signs ∧ cs = signs ++ (signOf cs).2 := by
  unfold signOf
  split
  · exact ⟨['-'], .inr (.inr rfl), rfl⟩
  · exact ⟨['+'], .inr (.inl rfl), rfl⟩
  · exact ⟨[], .inl rfl, rfl⟩

theorem signOf_append {signs cs : List Char} (h : IsSign signs)
    (hcs : ∀ c ∈ cs.head?, c ≠ '+' ∧ c ≠ '-') : (signOf (signs ++ cs)).2 = cs := by
  obtain rfl | rfl | rfl := h
  · rw [List.nil_append]
    unfold signOf
    split
    · exact absurd rfl (hcs _ rfl).2
    · exact absurd rfl (hcs _ rfl).1
    · rfl
  · rfl
  · rfl

theorem digit_not_sign {c : Char} (h : c.isDigit = true) : c ≠ '+' ∧ c ≠ '-' := by
  constructor <;> rintro rfl <;> cases h

/-- The exponent is read if it is spelled as one. -/
theorem exponentOf?_isSome_iff (cs : List Char) : (exponentOf? cs).isSome = true ↔ IsExponent cs := by
  constructor
  · intro h
    cases cs with
    | nil => exact .absent
    | cons e cs =>
      obtain ⟨signs, hsigns, hcs⟩ := signOf_split cs
      rw [exponentOf?] at h
      dsimp only at h
      split at h
      · rename_i hparts
        obtain ⟨he, hne, hdigits⟩ := hparts
        obtain ⟨d, ds, hds⟩ := List.exists_cons_of_ne_nil hne
        rw [hcs, hds]
        rw [hds] at hdigits
        exact .present he hsigns (List.all_eq_true.mp hdigits)
      · cases h
  · intro h
    cases h with
    | absent => rfl
    | @present e signs d ds he hsigns hdigits =>
      have hd := hdigits d (List.mem_cons_self ..)
      have hsign : (signOf (signs ++ d :: ds)).2 = d :: ds := by
        refine signOf_append hsigns fun c hc => ?_
        obtain rfl := Option.some.inj hc
        exact digit_not_sign hd
      rw [exponentOf?]
      dsimp only
      rw [hsign, if_pos ⟨he, by simp, List.all_eq_true.mpr hdigits⟩]
      rfl

/-- What stands behind the digits of a number is no digit. -/
theorem exponent_head {power : List Char} (h : IsExponent power) :
    ∀ c ∈ power.head?, c.isDigit = false ∧ c ≠ '.' := by
  simpa using h.head boundary_nil

/-- The digits behind a point, if there is one, and what stands behind them. -/
def afterPoint : List Char → List Char × List Char
  | '.' :: tail => (tail.takeWhile Char.isDigit, tail.dropWhile Char.isDigit)
  | cs => ([], cs)

theorem ofChars?_isSome (cs : List Char) : (Written.ofChars? cs).isSome = true ↔
    cs.takeWhile Char.isDigit ++ (afterPoint (cs.dropWhile Char.isDigit)).1 ≠ [] ∧
      IsExponent (afterPoint (cs.dropWhile Char.isDigit)).2 := by
  have hread : Written.ofChars? cs =
      if cs.takeWhile Char.isDigit ++ (afterPoint (cs.dropWhile Char.isDigit)).1 = [] then none
      else (exponentOf? (afterPoint (cs.dropWhile Char.isDigit)).2).map fun e =>
        ⟨cs.takeWhile Char.isDigit ++ (afterPoint (cs.dropWhile Char.isDigit)).1,
          e - (afterPoint (cs.dropWhile Char.isDigit)).1.length⟩ := rfl
  rw [hread, ← exponentOf?_isSome_iff]
  split <;> simp_all

theorem all_takeWhile_digits (cs : List Char) : ∀ c ∈ cs.takeWhile Char.isDigit, c.isDigit = true :=
  List.all_eq_true.mp List.all_takeWhile

/-- Without its sign and without words, a number is read exactly if it is a numeral. -/
theorem ofChars?_isSome_iff (cs : List Char) :
    (Written.ofChars? cs).isSome = true ↔ IsNumeral cs := by
  rw [ofChars?_isSome]
  constructor
  · rintro ⟨hne, hpower⟩
    have hwhole := all_takeWhile_digits cs
    rw [← cs.takeWhile_append_dropWhile (p := Char.isDigit)]
    generalize cs.takeWhile Char.isDigit = whole at hne hwhole ⊢
    generalize cs.dropWhile Char.isDigit = rest at hne hpower ⊢
    revert hne hpower
    unfold afterPoint
    split
    · rename_i tail
      intro hne hpower
      rw [← tail.takeWhile_append_dropWhile (p := Char.isDigit)]
      exact .point hwhole (all_takeWhile_digits tail) hne hpower
    · intro hne hpower
      exact .whole hwhole (by simpa using hne) hpower
  · intro h
    cases h with
    | @whole digits power hdigits hne hpower =>
      have hhead := exponent_head hpower
      obtain ⟨htake, hdrop⟩ := takeWhile_digits hdigits fun c hc => (hhead c hc).1
      have hafter : afterPoint power = ([], power) := by
        unfold afterPoint
        split
        · exact absurd rfl (hhead _ rfl).2
        · rfl
      rw [htake, hdrop, hafter, List.append_nil]
      exact ⟨hne, hpower⟩
    | @point whole places power hwhole hplaces hne hpower =>
      have hhead := exponent_head hpower
      have hpoint : ∀ c ∈ ('.' :: (places ++ power)).head?, c.isDigit = false := by
        intro c hc
        obtain rfl := Option.some.inj hc
        rfl
      obtain ⟨htake, hdrop⟩ := takeWhile_digits hwhole hpoint
      obtain ⟨htake', hdrop'⟩ := takeWhile_digits hplaces fun c hc => (hhead c hc).1
      rw [htake, hdrop, afterPoint, htake', hdrop']
      exact ⟨hne, hpower⟩

/-! ## Signs and words -/

theorem IsNumeral.head {cs : List Char} (h : IsNumeral cs) : ∀ c ∈ cs.head?, c ≠ '+' ∧ c ≠ '-' := by
  intro c hc
  cases h with
  | whole hdigits hne =>
    obtain ⟨d, ds, rfl⟩ := List.exists_cons_of_ne_nil hne
    obtain rfl := Option.some.inj hc
    exact digit_not_sign (hdigits d (List.mem_cons_self ..))
  | @point whole places power hwhole =>
    cases whole with
    | nil =>
      obtain rfl := Option.some.inj hc
      decide
    | cons d ds =>
      obtain rfl := Option.some.inj hc
      exact digit_not_sign (hwhole d (List.mem_cons_self ..))

theorem IsNumberWord.head {cs : List Char} (h : IsNumberWord cs) :
    ∀ c ∈ cs.head?, c ≠ '+' ∧ c ≠ '-' := by
  have hletter : ∀ s ∈ ["inf", "infinity", "nan"],
      s.toList.head? ≠ some '+' ∧ s.toList.head? ≠ some '-' := by
    decide
  intro c hc
  obtain ⟨rest, rfl⟩ := List.head?_eq_some_iff.mp hc
  have hhead : (Text.lower (String.ofList (c :: rest))).toList.head? = some c.toLower := by
    simp [Text.lower]
  have hlower := hletter _ h
  rw [hhead] at hlower
  constructor <;> rintro rfl
  · exact hlower.1 rfl
  · exact hlower.2 rfl

theorem wordBits?_isSome_iff (cs : List Char) : (wordBits? cs).isSome = true ↔ IsNumberWord cs := by
  rw [wordBits?, IsNumberWord]
  split
  · rename_i h
    obtain h | h := h <;> simp [h]
  · split <;> simp_all

/-- The reader gives a number for just what can be read as one. -/
theorem read?_isSome_iff (s : String) : (read? s).isSome = true ↔ Readable s.toList := by
  have hparts : (read? s).isSome = true ↔
      IsNumeral (signOf s.toList).2 ∨ IsNumberWord (signOf s.toList).2 := by
    rw [← ofChars?_isSome_iff, ← wordBits?_isSome_iff, read?]
    dsimp only
    cases wordBits? (signOf s.toList).2 <;> simp
  rw [hparts]
  constructor
  · intro h
    obtain ⟨signs, hsigns, hs⟩ := signOf_split s.toList
    exact ⟨signs, _, hs, hsigns, h⟩
  · rintro ⟨signs, number, hs, hsigns, hnumber⟩
    rw [hs, signOf_append hsigns]
    · exact hnumber
    · obtain h | h := hnumber
      · exact h.head
      · exact h.head

/-- The text of a token for a number can be read as one. -/
theorem readable_of_isNumber {s : String} (h : IsNumber s) : Readable s.toList := by
  obtain @⟨whole, places, power, hwhole, hplaces, hpower, hne⟩ := h
  rw [String.toList_ofList]
  refine ⟨[], whole ++ places ++ power, rfl, .inl rfl, .inl ?_⟩
  cases hplaces with
  | absent =>
    rw [List.append_nil] at hne ⊢
    exact .whole hwhole hne hpower
  | @present d ds hdigits =>
    rw [List.append_assoc]
    exact .point hwhole hdigits (by simp) hpower

end SqlFront.Decimal
