import SqlFront.Proofs.Lexing
import SqlFront.Proofs.Lockstep

/-! # Reading given tokens

`Reads` says that a reading takes in tokens of the given kinds and gives the given value, provided
the token behind them is as described. What stands behind matters because lists, names and operands
go on as long as they can.
-/

namespace SqlFront

namespace Reading

open Token

variable {α β σ : Type}

/-- The reading takes in tokens of these kinds and gives the value, if the token behind them is as
    described. -/
def Reads (p : Reading α) (N : Kind → Prop) (ks : List Kind) (a : α) : Prop :=
  ∀ ⦃c d⦄, c.Moves ks d → N d.current.kind → p c = (.ok a, d)

variable {p q : Reading α} {f : α → Reading β} {a : α} {b : β} {ks ks' : List Kind} {k : Kind}
  {M N : Kind → Prop}

theorem Reads.weaken (h : Reads p M ks a) (hN : ∀ k, N k → M k) : Reads p N ks a :=
  fun _ _ hm hd => h hm (hN _ hd)

/-- What is read of the same tokens is the same, if both readings may end where they do. -/
theorem reads_unique {a' : α} {X X' : List Kind} (h : Reads p N ks a) (h' : Reads p N ks' a')
    (heq : ks ++ X = ks' ++ X') (hX : N (X.headD .eof)) (hX' : N (X'.headD .eof)) :
    a = a' ∧ X = X' := by
  let c : Cursor := ⟨[], (ks ++ X).map (⟨·, ⟨0, 0⟩⟩), ⟨0, 0⟩⟩
  have hc : c.kinds = ks ++ X := by simp [c, Cursor.kinds, Function.comp_def]
  obtain ⟨d, hm, hd⟩ := Cursor.exists_moves hc
  obtain ⟨d', hm', hd'⟩ := Cursor.exists_moves (hc.trans heq)
  have hread := h hm (by rwa [Cursor.current_kind, hd])
  rw [h' hm' (by rwa [Cursor.current_kind, hd'])] at hread
  cases hread
  exact ⟨rfl, hd.symm.trans hd'⟩

theorem reads_pure (a : α) : Reads (pure a) N [] a := by
  intro c d hm _
  rw [Cursor.moves_nil.mp hm, pure_apply]

theorem Reads.bind (hp : Reads p M ks a) (hf : Reads (f a) N ks' b)
    (h : ∀ k, N k → M (ks'.headD k)) : Reads (p >>= f) N (ks ++ ks') b := by
  intro c d hm hd
  obtain ⟨e, hm, hm'⟩ := hm.split
  have hfirst := hp hm (hm'.current ▸ h _ hd)
  rw [bind_apply, hfirst]
  exact hf hm' hd

/-- What is read and only turned into something else. -/
theorem Reads.map {g : α → β} (hp : Reads p N ks a) :
    Reads (p >>= fun a => pure (g a)) N ks (g a) := by
  intro c d hm hd
  rw [bind_apply, hp hm hd]
  rfl

theorem reads_kind_bind {f : Kind → Reading β} (h : Reads (f k) N (k :: ks) b) :
    Reads (kind >>= f) N (k :: ks) b := by
  intro c d hm hd
  rw [kind_bind, hm.current_cons]
  exact h hm hd

theorem reads_advance_bind {f : Unit → Reading β} (h : Reads (f ()) N ks b) :
    Reads (Reading.advance >>= f) N (k :: ks) b := by
  intro c d hm hd
  obtain ⟨e, hm, hm'⟩ := hm.cons
  rw [advance_bind, hm.advance]
  exact h hm' hd

theorem reads_accept_bind {test : Kind → Bool} {f : Bool → Reading β} (h : Reads (f true) N ks b)
    (hk : test k = true) : Reads (accept test >>= f) N (k :: ks) b := by
  intro c d hm hd
  obtain ⟨e, hm, hm'⟩ := hm.cons
  have haccept : accept test c = (.ok true, e) :=
    accept_ok.mpr (.inl ⟨rfl, hm.current_cons ▸ hk, hm.advance⟩)
  rw [bind_apply, haccept]
  exact h hm' hd

theorem reads_accept_skip {test : Kind → Bool} {f : Bool → Reading β} (h : Reads (f false) N ks b)
    (hk : ∀ k, N k → test (ks.headD k) = false) : Reads (accept test >>= f) N ks b := by
  intro c d hm hd
  have haccept : accept test c = (.ok false, c) :=
    accept_ok.mpr (.inr ⟨rfl, hm.current ▸ hk _ hd, rfl⟩)
  rw [bind_apply, haccept]
  exact h hm hd

/-- A token that is asked for and there. -/
theorem reads_accept_then {test : Kind → Bool} (h : Reads p N ks a) (hk : test k = true) :
    Reads (accept test >>= fun accepted => if accepted = true then p else q) N (k :: ks) a :=
  reads_accept_bind (by simpa using h) hk

/-- A token that is asked for and not there. -/
theorem reads_accept_else {test : Kind → Bool} (h : Reads q N ks a)
    (hk : ∀ k, N k → test (ks.headD k) = false) :
    Reads (accept test >>= fun accepted => if accepted = true then p else q) N ks a :=
  reads_accept_skip (by simpa using h) hk

/-- A token that is asked for where another one is. -/
theorem reads_accept_other {test : Kind → Bool} (h : Reads q N (k :: ks) a) (hk : test k = false) :
    Reads (accept test >>= fun accepted => if accepted = true then p else q) N (k :: ks) a :=
  reads_accept_else h fun _ _ => hk

/-- A token that may be missing and is there. -/
theorem reads_discard_bind {test : Kind → Bool} {f : Unit → Reading β} (h : Reads (f ()) N ks b)
    (hk : test k = true) : Reads (discard (accept test) >>= f) N (k :: ks) b := by
  intro c d hm hd
  obtain ⟨e, hm, hm'⟩ := hm.cons
  have haccept : discard (accept test) c = (.ok (), e) :=
    discard_ok.mpr ⟨true, accept_ok.mpr (.inl ⟨rfl, hm.current_cons ▸ hk, hm.advance⟩)⟩
  rw [bind_apply, haccept]
  exact h hm' hd

/-- A token that may be missing and is. -/
theorem reads_discard_skip {test : Kind → Bool} {f : Unit → Reading β} (h : Reads (f ()) N ks b)
    (hk : ∀ k, N k → test (ks.headD k) = false) : Reads (discard (accept test) >>= f) N ks b := by
  intro c d hm hd
  have haccept : discard (accept test) c = (.ok (), c) :=
    discard_ok.mpr ⟨false, accept_ok.mpr (.inr ⟨rfl, hm.current ▸ hk _ hd, rfl⟩)⟩
  rw [bind_apply, haccept]
  exact h hm hd

theorem reads_symbol (sign : Symbol) : Reads (symbol sign) N [.symbol sign] () :=
  fun _ _ hm _ => symbol_ok.mpr hm

theorem reads_symbol_bind {sign : Symbol} {f : Unit → Reading β} (h : Reads (f ()) N ks b) :
    Reads (symbol sign >>= f) N (.symbol sign :: ks) b :=
  (reads_symbol (N := fun _ => True) sign).bind h fun _ _ => trivial

theorem reads_keyword_bind {word : Keyword} {f : Unit → Reading β} (h : Reads (f ()) N ks b) :
    Reads (keyword word >>= f) N (.keyword word :: ks) b := by
  have hfirst : Reads (keyword word) (fun _ => True) [.keyword word] () :=
    fun _ _ hm _ => keyword_ok.mpr hm
  exact hfirst.bind h fun _ _ => trivial

theorem reads_word_bind {text n : String} {f : Unit → Reading β} (h : Reads (f ()) N ks b)
    (hn : Text.sameWord n text = true) : Reads (word text >>= f) N (.name n :: ks) b := by
  have hfirst : Reads (word text) (fun _ => True) [.name n] () :=
    fun _ _ hm _ => word_ok.mpr ⟨n, hn, hm⟩
  exact hfirst.bind h fun _ _ => trivial

theorem reads_name (n : String) : Reads name N [.name n] n :=
  fun _ _ hm _ => name_ok.mpr hm

/-- What is read between parentheses. -/
theorem Reads.parens {f : α → Reading β} (h : Reads p (· = .symbol .rightParen) ks a)
    (hf : Reads (f a) N [] b) :
    Reads (symbol .leftParen >>= fun _ => p >>= fun a => symbol .rightParen >>= fun _ => f a) N
      (.symbol .leftParen :: ks ++ [.symbol .rightParen]) b :=
  reads_symbol_bind (h.bind (reads_symbol_bind hf) fun _ _ => rfl)

/-- Tokens that a reading takes in can stand somewhere. -/
theorem Reads.exists (h : Reads p N ks a) (hk : N k) :
    ∃ c d, p c = (.ok a, d) ∧ c.current.kind = ks.headD k := by
  let tokens : List Token := (ks ++ [k]).map (⟨·, ⟨0, 0⟩⟩)
  have hkinds : (⟨[], tokens, ⟨0, 0⟩⟩ : Cursor).kinds = ks ++ [k] := by
    simp [Cursor.kinds, tokens, Function.comp_def]
  obtain ⟨d, hm, hd⟩ := Cursor.exists_moves hkinds
  have hlast : d.current.kind = k := by rw [Cursor.current_kind, hd, List.headD_cons]
  exact ⟨_, d, h hm (hlast ▸ hk), by rw [hm.current, hlast]⟩

/-! ## Loops -/

/-- A loop goes on from one state to another over tokens of these kinds, if the token behind them is
    as described. -/
def Goes (step : σ → Reading (ForInStep σ)) (N : Kind → Prop) (s : σ) (ks : List Kind) (t : σ) :
    Prop :=
  ∀ ⦃c d⦄, c.Moves ks d → N d.current.kind → iterate step s c = iterate step t d

variable {step : σ → Reading (ForInStep σ)} {s t u : σ}

theorem goes_refl (s : σ) : Goes step N s [] s := by
  intro c d hm _
  rw [Cursor.moves_nil.mp hm]

theorem Goes.trans (h : Goes step M s ks t) (h' : Goes step N t ks' u)
    (hM : ∀ k, N k → M (ks'.headD k)) : Goes step N s (ks ++ ks') u := by
  intro c d hm hd
  obtain ⟨e, hm, hm'⟩ := hm.split
  rw [h hm (hm'.current ▸ hM _ hd), h' hm' hd]

theorem Reads.goes (h : Reads (step s) N ks (.yield t)) (hstep : Progress step) :
    Goes step N s ks t := by
  intro c d hm hd
  rw [iterate_eq hstep s, bind_apply, h hm hd]

theorem Goes.reads (h : Goes step M s ks t) (hdone : Reads (step t) N ks' (.done u))
    (hM : ∀ k, N k → M (ks'.headD k)) (hstep : Progress step) :
    Reads (iterate step s) N (ks ++ ks') u := by
  intro c d hm hd
  obtain ⟨e, hm, hm'⟩ := hm.split
  rw [h hm (hm'.current ▸ hM _ hd), iterate_eq hstep t, bind_apply, hdone hm' hd]
  rfl

/-- A loop that has gone on and stops there. -/
theorem Goes.stop (h : Goes step M s ks t) (hdone : Reads (step t) N [] (.done u))
    (hM : ∀ k, N k → M k) (hstep : Progress step) : Reads (iterate step s) N ks u := by
  simpa using h.reads hdone hM hstep

/-! ## Texts that are read back -/

/-- The text holds tokens that the reading takes in and gives the value for, if the token behind them
    is as described. -/
def Restores (p : Reading α) (N : Kind → Prop) (s : String) (a : α) : Prop :=
  ∃ ks, Spells s ks ∧ Reads p N ks a

theorem Restores.weaken {s : String} (h : Restores p M s a) (hN : ∀ k, N k → M k) :
    Restores p N s a := by
  obtain ⟨ks, hs, hp⟩ := h
  exact ⟨ks, hs, hp.weaken hN⟩

/-- The text holds tokens that the reading takes in behind something else, and can follow it: it runs
    into nothing, and its first token, or the one behind it if it has none, is as described. -/
def Continues (p : Reading α) (M N : Kind → Prop) (s : String) (a : α) : Prop :=
  ∃ ks, Spells s ks ∧ Separate s ∧ (∀ k, N k → M (ks.headD k)) ∧ Reads p N ks a

theorem Restores.bind {s s' : String} (h : Restores p M s a) (h' : Continues (f a) M N s' b) :
    Restores (p >>= f) N (s ++ s') b := by
  obtain ⟨ks, hs, hp⟩ := h
  obtain ⟨ks', hs', hseparate, hhead, hf⟩ := h'
  exact ⟨ks ++ ks', hs.append hs' hseparate, hp.bind hf hhead⟩

theorem Continues.bind {L : Kind → Prop} {s s' : String} (h : Continues p L M s a)
    (h' : Continues (f a) M N s' b) : Continues (p >>= f) L N (s ++ s') b := by
  obtain ⟨ks, hs, hseparate, hhead, hp⟩ := h
  obtain ⟨ks', hs', hseparate', hhead', hf⟩ := h'
  refine ⟨ks ++ ks', hs.append hs' hseparate', ?_, fun k hk => ?_, hp.bind hf hhead'⟩
  · intro rest hrest
    rw [String.toList_append, List.append_assoc]
    exact hseparate _ (hseparate' _ hrest)
  · have hk := hhead _ (hhead' k hk)
    cases ks <;> exact hk

theorem Continues.map {s : String} {g : α → β} (h : Continues p M N s a) :
    Continues (p >>= fun a => pure (g a)) M N s (g a) := by
  obtain ⟨ks, hs, hseparate, hhead, hp⟩ := h
  exact ⟨ks, hs, hseparate, hhead, hp.map⟩

/-- A part that is not there. -/
theorem continues_absent (h : Reads p N [] a) (hM : ∀ k, N k → M k) : Continues p M N "" a :=
  ⟨[], spells_nil, separate_nil, hM, h⟩

/-- A part behind words of its own. -/
theorem Restores.behind_words {s t : String} {L : Kind → Prop} (h : Restores p L t a)
    (hs : SpellsAlways s (k :: ks)) (hk : M k) {q : Reading β}
    (hread : ∀ ks', Reads p L ks' a → Reads q N (k :: ks ++ ks') b)
    (hstart : startsBoundary s = true := by decide) : Continues q M N (s ++ t) b := by
  obtain ⟨ks', ht, hp⟩ := h
  exact ⟨k :: ks ++ ks', SpellsAlways.append hs ht, separate_append _ hstart, fun _ _ => hk,
    hread ks' hp⟩

/-- A whole text is read to its end. -/
theorem Restores.ofText {α : Type} {p : Reading α} {text : String} {a : α}
    (h : Restores p (· = .eof) text a) :
    ∃ d, p (Cursor.ofText text) = (.ok a, d) ∧ d.current.kind = .eof := by
  obtain ⟨ks, hs, hread⟩ := h
  have hkinds := Cursor.kinds_ofText hs.lexes
  obtain ⟨d, hm, hd⟩ := Cursor.exists_moves (hkinds.trans (List.append_nil ks).symm)
  have heof : d.current.kind = .eof := by rw [Cursor.current_kind, hd, List.headD_nil]
  exact ⟨d, hread hm heof, heof⟩

/-- The texts with the separator before each of them. -/
def behind (separator : String) : List String → String
  | [] => ""
  | s :: rest => separator ++ s ++ behind separator rest

theorem join_cons (separator s : String) (rest : List String) :
    Text.join separator (s :: rest) = s ++ behind separator rest := by
  induction rest generalizing s with
  | nil => simp [Text.join, behind]
  | cons t rest ih =>
    rw [Text.join, ih, behind, String.append_assoc, String.append_assoc]
    exact List.cons_ne_nil _ _

theorem join_pair (separator s t : String) :
    Text.join separator [s, t] = s ++ (separator ++ t) := by
  rw [join_cons, behind, behind, String.append_empty]

theorem separate_behind {separator : String} (h : startsBoundary separator = true)
    (texts : List String) : Separate (behind separator texts) := by
  cases texts with
  | nil => exact separate_nil
  | cons s rest =>
    rw [behind, String.append_assoc]
    exact separate_append _ h

/-- A loop takes in one value after the other, each behind the same token. -/
theorem goes_behind (text : α → String) (join : σ → α → σ) {separator : String}
    (hspells : SpellsAlways separator [k]) (hstart : startsBoundary separator = true) (hk : M k)
    {as : List α} (h : ∀ a ∈ as, ∃ ks, Spells (text a) ks ∧
      ∀ s, Reads (step s) M (k :: ks) (.yield (join s a))) (hstep : Progress step) :
    ∃ ks, Spells (behind separator (as.map text)) ks ∧ (∀ k', M k' → M (ks.headD k')) ∧
      ∀ s, Goes step M s ks (as.foldl join s) := by
  induction as with
  | nil => exact ⟨[], spells_nil, fun _ hk' => hk', fun s => goes_refl s⟩
  | cons a as ih =>
    obtain ⟨ks, hs, ha⟩ := h a (List.mem_cons_self ..)
    obtain ⟨ks', hs', hhead, hgoes⟩ := ih fun a ha => h a (List.mem_cons_of_mem _ ha)
    refine ⟨k :: ks ++ ks', ?_, fun _ _ => hk, fun s => ?_⟩
    · exact (SpellsAlways.append hspells hs).append hs' (separate_behind hstart _)
    · exact ((ha s).goes hstep).trans (hgoes _) hhead

/-- A list with commas is read back if its items are. -/
theorem restores_commaList (text : α → String) {item : Reading α} {separator : String}
    (hspells : SpellsAlways separator [.symbol .comma]) (hstart : startsBoundary separator = true)
    {as : List α} (h : ∀ a ∈ as, Restores item M (text a) a) (hne : as ≠ [])
    (hcomma : M (.symbol .comma)) (hN : ∀ k, N k → M k) (hstop : ¬ N (.symbol .comma)) :
    Restores (commaList item) N (Text.join separator (as.map text)) as := by
  obtain _ | ⟨a, as⟩ := as
  · exact absurd rfl hne
  obtain ⟨ks, hs, ha⟩ := h a (List.mem_cons_self ..)
  obtain ⟨ks', hs', hhead, hgoes⟩ := goes_behind text (fun items a => items ++ [a]) hspells hstart
    hcomma (fun a ha => by
      obtain ⟨ks, hs, ha⟩ := h a (List.mem_cons_of_mem _ ha)
      exact ⟨ks, hs, fun items => reads_accept_then ha.map (by simp)⟩)
    (progress_commaList item)
  refine ⟨ks ++ ks', ?_, ?_⟩
  · rw [List.map_cons, join_cons]
    exact hs.append hs' (separate_behind hstart _)
  · have hall : as.foldl (fun items a => items ++ [a]) [a] = a :: as := by
      rw [List.foldl_append_eq_append, ← List.flatMap_def, List.flatMap_singleton',
        List.singleton_append]
    have hloop := (hgoes [a]).stop (u := a :: as) (N := N) (hall ▸ reads_accept_else (reads_pure _)
      fun k hk => by
        have hother : k ≠ .symbol .comma := by
          rintro rfl
          exact hstop hk
        simpa using hother) hN (progress_commaList item)
    exact ha.bind hloop fun k hk => hhead k (hN k hk)

end Reading

end SqlFront
