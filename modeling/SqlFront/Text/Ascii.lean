/-!
# Case of ASCII letters

SQL words are compared without regard to the case of the letters `a` to `z`. Every other
character, accented letters included, counts as it is written.
-/

namespace SqlFront.Text

/-- The text with `a` to `z` in upper case. -/
def upper (s : String) : String :=
  String.ofList (s.toList.map Char.toUpper)

/-- The text with `A` to `Z` in lower case. -/
def lower (s : String) : String :=
  String.ofList (s.toList.map Char.toLower)

/-- Whether two texts differ at most in the case of ASCII letters. -/
def sameWord (a b : String) : Bool :=
  upper a == upper b

/-- Only the letters `a` to `z` change, each to its capital. -/
theorem toUpper_cases (c : Char) :
    (¬ (97 ≤ c.toNat ∧ c.toNat ≤ 122) ∧ c.toUpper = c) ∨
      97 ≤ c.toNat ∧ c.toNat ≤ 122 ∧ c.toUpper.toNat = c.toNat - 32 := by
  have hlow : 'a'.val ≤ c.val ↔ 97 ≤ c.toNat := UInt32.le_iff_toNat_le
  have hhigh : c.val ≤ 'z'.val ↔ c.toNat ≤ 122 := UInt32.le_iff_toNat_le
  unfold Char.toUpper
  split
  · rename_i h
    right
    have h₁ := hlow.mp h.1
    have h₂ := hhigh.mp h.2
    refine ⟨h₁, h₂, ?_⟩
    change (c.val + _).toNat = c.val.toNat - 32
    rw [UInt32.toNat_add, Char.toNat_val, show ('A'.val - 'a'.val).toNat = 4294967264 from rfl]
    omega
  · rename_i h
    rw [hlow, hhigh] at h
    exact .inl ⟨h, rfl⟩

theorem toUpper_toUpper (c : Char) : c.toUpper.toUpper = c.toUpper := by
  rcases toUpper_cases c.toUpper with ⟨_, h⟩ | ⟨h₁, h₂, _⟩
  · exact h
  · rcases toUpper_cases c with ⟨_, h⟩ | ⟨_, _, h⟩
    · rw [h, h]
    · omega

/-- A sign, space or digit is a capital only of itself. -/
theorem toUpper_eq_iff {c d : Char} (hd : d.toNat < 65) : c.toUpper = d ↔ c = d := by
  rcases toUpper_cases c with ⟨_, h⟩ | ⟨_, _, h⟩
  · rw [h]
  · constructor <;> rintro rfl <;> omega

/-- Capitals stay as they are. -/
theorem upper_upper (s : String) : upper (upper s) = upper s := by
  have h : Char.toUpper ∘ Char.toUpper = Char.toUpper := funext toUpper_toUpper
  simp [upper, h]

/-- Texts are the same word if their capitals agree. -/
theorem sameWord_iff {a b : String} : sameWord a b = true ↔ upper a = upper b := by
  simp [sameWord]

@[simp] theorem sameWord_self (a : String) : sameWord a a = true := by
  simp [sameWord]

theorem sameWord_comm (a b : String) : sameWord a b = sameWord b a := by
  simp [sameWord, Bool.beq_comm]

end SqlFront.Text
