import SqlFront.Proofs.Reads

/-! # Texts with gaps

A text may depend on a value that is put into it as a string literal. `Woven` says that the value shows
in its tokens only there: they are those of a template, with the value in its gaps. Templates are put
together like the tokens of pieces. Main statement: where there is one gap, the tokens before and behind
it do not depend on the value.
-/

namespace SqlFront

namespace Token

/-- Kinds of tokens in a row, with gaps for string literals. -/
abbrev Template := List (Option Kind)

/-- The kinds with the given value in each gap. -/
def Template.fill (template : Template) (value : String) : List Kind :=
  template.map (·.getD (.string value))

theorem Template.fill_append (first second : Template) (value : String) :
    Template.fill (first ++ second) value = first.fill value ++ second.fill value :=
  List.map_append

/-- Kinds without gaps. -/
theorem Template.fill_some (ks : List Kind) (value : String) :
    Template.fill (ks.map some) value = ks := by
  rw [fill, List.map_map]
  exact List.map_id ks

theorem Template.count_some (ks : List Kind) : (ks.map some).count none = 0 := by
  simp [List.count_eq_zero]

/-- One gap has the same tokens before and behind it, whatever its value. -/
theorem Template.around {template : Template} (h : template.count none = 1) :
    ∃ ks ks', ∀ value, template.fill value = ks ++ .string value :: ks' := by
  have hfull {template : Template} (h : template.count none = 0) (value : String) :
      template.fill value = template.filterMap id := by
    induction template with
    | nil => rfl
    | cons o template ih =>
      cases o with
      | none => simp at h
      | some k => simpa [fill] using ih (by simpa using h)
  induction template with
  | nil => cases h
  | cons o template ih =>
    cases o with
    | none =>
      have hrest : template.count none = 0 := by simpa using h
      exact ⟨[], template.filterMap id, fun value => congrArg (_ :: ·) (hfull hrest value)⟩
    | some k =>
      obtain ⟨ks, ks', hall⟩ := ih (by simpa using h)
      exact ⟨k :: ks, ks', fun value => congrArg (k :: ·) (hall value)⟩

/-- Whatever the value, the text has the tokens of one template with so many gaps. -/
def Woven (gaps : Nat) (t : String → String) : Prop :=
  ∃ template : Template, template.count none = gaps ∧ ∀ value, Spells (t value) (template.fill value)

/-- The same of a text that can follow another one. -/
def Trailing (gaps : Nat) (t : String → String) : Prop :=
  Woven gaps t ∧ ∀ value, Separate (t value)

variable {m n : Nat} {s : String} {t t' : String → String} {ks : List Kind}

theorem Woven.congr (h : Woven n t') (ht : ∀ value, t value = t' value) : Woven n t := by
  rwa [funext ht]

theorem Trailing.congr (h : Trailing n t') (ht : ∀ value, t value = t' value) : Trailing n t := by
  rwa [funext ht]

theorem woven_const (h : Spells s ks) : Woven 0 fun _ => s :=
  ⟨ks.map some, Template.count_some ks, fun value => by rwa [Template.fill_some]⟩

theorem woven_string : Woven 1 fun value => Constant.render ⟨.string, value⟩ :=
  ⟨[none], rfl, fun value => (spells_string value).weaken boundary_no_quote⟩

theorem Woven.spells (h : Woven n t) (value : String) : ∃ ks, Spells (t value) ks := by
  obtain ⟨template, -, hspells⟩ := h
  exact ⟨_, hspells value⟩

theorem Woven.append (h : Woven m t) (h' : Trailing n t') :
    Woven (m + n) fun value => t value ++ t' value := by
  obtain ⟨first, hfirst, hspells⟩ := h
  obtain ⟨⟨second, hsecond, hspells'⟩, hseparate⟩ := h'
  refine ⟨first ++ second, by rw [List.count_append, hfirst, hsecond], fun value => ?_⟩
  rw [Template.fill_append]
  exact (hspells value).append (hspells' value) (hseparate value)

theorem Trailing.after (h : Trailing n t) (hs : Spells s ks) : Woven n fun value => s ++ t value := by
  have happend := (woven_const hs).append h
  rwa [Nat.zero_add] at happend

theorem Trailing.append (h : Trailing m t) (h' : Trailing n t') :
    Trailing (m + n) fun value => t value ++ t' value := by
  refine ⟨h.1.append h', fun value rest hrest => ?_⟩
  rw [String.toList_append, List.append_assoc]
  exact h.2 value _ (h'.2 value _ hrest)

theorem trailing_nil : Trailing 0 fun _ => "" :=
  ⟨woven_const spells_nil, fun _ => separate_nil⟩

/-- A text behind a piece that nothing runs into. -/
theorem Woven.behind (hs : SpellsAlways s ks) (h : Woven n t) : Woven n fun value => s ++ t value := by
  obtain ⟨template, hcount, hspells⟩ := h
  refine ⟨ks.map some ++ template, ?_, fun value => ?_⟩
  · rw [List.count_append, Template.count_some, hcount, Nat.zero_add]
  · rw [Template.fill_append, Template.fill_some]
    exact SpellsAlways.append hs (hspells value)

/-- A text behind words or signs that set it apart. -/
theorem Woven.trailing (h : Woven n t) (hs : SpellsAlways s ks) (hstart : startsBoundary s = true) :
    Trailing n fun value => s ++ t value :=
  ⟨h.behind hs, fun _ => separate_append _ hstart⟩

theorem trailing_const (h : Spells s ks) (hseparate : Separate s) : Trailing 0 fun _ => s :=
  ⟨woven_const h, fun _ => hseparate⟩

theorem Woven.parens (h : Woven n t) : Woven n fun value => "(" ++ t value ++ ")" := by
  have hclose : Trailing 0 fun _ => ")" :=
    trailing_const (spells_rightParen.weaken fun _ _ => trivial) (fun rest _ => boundary_of_starts (by decide) rest)
  exact (h.behind spells_leftParen).append hclose

/-! ## Lists of texts -/

/-- Texts in a row, with so many gaps in all of them. -/
inductive WovenList : Nat → (String → List String) → Prop
  | nil : WovenList 0 fun _ => []
  | cons {m n t ts} : Woven m t → WovenList n ts → WovenList (m + n) fun value => t value :: ts value

variable {α : Type} {write : α → String}

theorem wovenList_const {as : List α} (h : ∀ a ∈ as, ∃ ks, Spells (write a) ks) :
    WovenList 0 fun _ => as.map write := by
  induction as with
  | nil => exact .nil
  | cons a as ih =>
    obtain ⟨ks, hs⟩ := h a (List.mem_cons_self ..)
    exact .cons (woven_const hs) (ih fun a ha => h a (List.mem_cons_of_mem _ ha))

/-- One text among others without gaps. -/
theorem Woven.among {hole : String → α} (h : Woven n fun value => write (hole value)) {before after : List α}
    (hrest : ∀ a, a ∈ before ∨ a ∈ after → ∃ ks, Spells (write a) ks) :
    WovenList n fun value => (before ++ hole value :: after).map write := by
  induction before with
  | nil => exact .cons h (wovenList_const fun a ha => hrest a (.inr ha))
  | cons a before ih =>
    obtain ⟨ks, hs⟩ := hrest a (.inl (List.mem_cons_self ..))
    have htail := WovenList.cons (woven_const hs)
      (ih fun a ha => hrest a (ha.imp_left (List.mem_cons_of_mem _)))
    rwa [Nat.zero_add] at htail

variable {separator : String} {ts : String → List String}

theorem WovenList.uncons (h : WovenList n ts) (hne : ∀ value, ts value ≠ []) :
    ∃ m k t ts', n = m + k ∧ Woven m t ∧ WovenList k ts' ∧ ∀ value, ts value = t value :: ts' value := by
  cases h with
  | nil => exact absurd rfl (hne "")
  | cons h hrest => exact ⟨_, _, _, _, rfl, h, hrest, fun _ => rfl⟩

theorem WovenList.single (h : WovenList n ts) (hlength : ∀ value, (ts value).length = 1) :
    ∃ t, Woven n t ∧ ∀ value, ts value = [t value] := by
  cases h with
  | nil => exact absurd (hlength "") (by simp)
  | cons h hrest =>
    cases hrest with
    | nil => exact ⟨_, h, fun _ => rfl⟩
    | cons => exact absurd (hlength "") (by simp)

theorem WovenList.behind (h : WovenList n ts) (hs : SpellsAlways separator ks)
    (hstart : startsBoundary separator = true) :
    Trailing n fun value => Reading.behind separator (ts value) := by
  induction h with
  | nil => exact trailing_nil
  | cons h _ ih => exact (h.trailing hs hstart).append ih

/-- Texts with a separator between any two. -/
theorem WovenList.join (h : WovenList n ts) (hs : SpellsAlways separator ks)
    (hstart : startsBoundary separator = true) :
    Woven n fun value => Text.join separator (ts value) := by
  cases h with
  | nil => exact trailing_nil.1
  | cons h hrest =>
    simp only [Reading.join_cons]
    exact h.append (hrest.behind hs hstart)

end Token

end SqlFront
