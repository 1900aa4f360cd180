import SqlFront.Proofs.Marks
import SqlFront.Proofs.RoundTrip

/-! # Canonical texts keep the marks

Main statement: the numbers, texts, names and parameters of a statement stand in its canonical text
as they stood in the text from which it was read, each of them once and in the same order.
-/

namespace SqlFront

open Token

namespace Grammar

open Reading Rule

variable {r : Registry} {c d : Cursor} {ks : List Kind}

/-- The tokens that a text is read from are all of its tokens. -/
theorem takes_of_spells {α : Type} {p : Reading α} {R : Rule α} {text : String} {a : α}
    (hs : Spells text ks) (hread : Reads p (· = .eof) ks a) (hp : p.Takes R) :
    R ks a ∧ Written ks := by
  have hkinds := Cursor.kinds_ofText hs.lexes
  obtain ⟨d, hm, hd⟩ := Cursor.exists_moves (hkinds.trans (List.append_nil ks).symm)
  have heof : d.current.kind = .eof := by rw [Cursor.current_kind, hd, List.headD_nil]
  obtain ⟨ks', hm', hR⟩ := hp (hread hm heof)
  obtain rfl : ks = ks' := List.append_cancel_right (hm.kinds.symm.trans hm'.kinds)
  exact ⟨hR, hkinds ▸ Cursor.written_ofText text⟩

/-- Without the word WORK every mark counts. -/
theorem filter_counts_of_workless {t : Transaction} (h : Workless ks) :
    (marks ks).filter (Statement.transaction t).counts = marks ks := by
  refine List.filter_eq_self.mpr fun m hm => ?_
  obtain ⟨k, hk, hmark⟩ := List.mem_filterMap.mp hm
  rw [Statement.counts, decide_eq_true_iff]
  rintro rfl
  obtain ⟨text, rfl, htext⟩ := mark?_name hmark
  have hword : Kind.isWord "WORK" (.name text) = true :=
    isWord_iff.mpr ⟨text, rfl, Text.sameWord_iff.mpr htext⟩
  rw [h _ hk] at hword
  cases hword

/-- The canonical text of a statement has its marks. -/
theorem marks_render (hr : r.SparesOperators) {s : Statement} (h : s.Formed r) :
    textMarks (s.render r) = s.marks := by
  have hfollow := readers_marking r
  cases s with
  | update u =>
    obtain ⟨ks, hs, hread⟩ := update_restores hr h
    obtain ⟨hchange, hks⟩ := takes_of_spells hs hread (updateAsWritten_takes hfollow)
    exact (textMarks_of_spells hs).trans (hchange.marks hks)
  | transaction t =>
    cases h with
    | transaction ht =>
      obtain ⟨ks, hs, hwork, hread⟩ := transaction_restores (r := r) ht
      obtain ⟨hsentence, hks⟩ := takes_of_spells hs hread (statement_takes hfollow)
      have hmarks := hsentence.marks hks (by simp)
      rw [filter_counts_of_workless hwork] at hmarks
      exact (textMarks_of_spells hs).trans hmarks
  | _ =>
    obtain ⟨ks, hs, hread⟩ := statement_restores hr h
    obtain ⟨hsentence, hks⟩ := takes_of_spells hs hread (statement_takes hfollow)
    have hmarks := hsentence.marks hks (by simp)
    rw [textMarks_of_spells hs, ← hmarks]
    exact (List.filter_eq_self.mpr fun _ _ => rfl).symm

/-- An UPDATE has its assignments as they were written, those to one column made one. -/
theorem statement_update {u : Update} (h : statement r c = (.ok (.update u), d)) :
    ∃ w, updateAsWritten r c = (.ok w, d) ∧
      u = { w with assignments := Update.merge w.assignments } := by
  rw [statement, kind_bind] at h
  split at h
  case h_3 =>
    obtain ⟨v, e, h₁, h₂⟩ := bind_ok.mp h
    obtain ⟨hv, rfl⟩ := pure_ok.mp h₂
    cases hv
    obtain ⟨w, e, h₃, h₄⟩ := bind_ok.mp h₁
    obtain ⟨rfl, rfl⟩ := pure_ok.mp h₄
    exact ⟨w, h₃, rfl⟩
  case h_6 =>
    split at h
    · simp [bind_ok, pure_ok] at h
    · split at h
      · simp [bind_ok, pure_ok] at h
      · exact absurd h (by simp [unexpected_ok])
  all_goals simp [bind_ok, pure_ok] at h

/-- What a statement is read from has its marks. -/
theorem statement_marks {s : Statement} (h : statement r c = (.ok s, d)) (hm : c.Moves ks d)
    (hks : Written ks)
    (honce : ∀ u, (updateAsWritten r c).1 = .ok u → (u.assignments.map Prod.fst).Nodup) :
    (marks ks).filter s.counts = s.marks := by
  cases s with
  | update u =>
    obtain ⟨w, hw, rfl⟩ := statement_update h
    obtain ⟨ks', hm', hchange⟩ := updateAsWritten_takes (readers_marking r) hw
    obtain rfl : ks = ks' := List.append_cancel_right (hm.kinds.symm.trans hm'.kinds)
    rw [Update.merge_of_nodup (honce w (by rw [hw]))]
    exact (List.filter_eq_self.mpr fun _ _ => rfl).trans (hchange.marks hks)
  | _ =>
    obtain ⟨ks', hm', hsentence⟩ := statement_takes (readers_marking r) h
    obtain rfl : ks = ks' := List.append_cancel_right (hm.kinds.symm.trans hm'.kinds)
    exact hsentence.marks hks (by simp)

/-- What the next statement is read from, with the semicolons around it, has its marks. -/
theorem statement?_marks {s : Statement} (h : statement? r c = (.ok (some s), d))
    (hm : c.Moves ks d) (hks : Written ks)
    (honce : ∀ u, (updateAsWritten r (emptyStatements c).2).1 = .ok u →
      (u.assignments.map Prod.fst).Nodup) :
    (marks ks).filter s.counts = s.marks := by
  obtain ⟨c₁, c₂, h₁, h₂, h₃⟩ := statement?_parts h
  obtain ⟨before, m₁, hbefore⟩ := emptyStatements_takes h₁
  obtain ⟨between, m₂⟩ := (statement r).moves c₁
  obtain ⟨after, m₃, hafter⟩ := terminator_takes h₃
  rw [h₁] at honce
  rw [h₂] at m₂
  have hall := (m₁.trans m₂).trans m₃
  obtain rfl : ks = before ++ between ++ after :=
    List.append_cancel_right (hm.kinds.symm.trans hall.kinds)
  have hbetween := (written_append.mp (written_append.mp hks).1).2
  rw [marks_append, marks_append, marks_semicolons hbefore, hafter.marks, List.nil_append,
    List.append_nil]
  exact statement_marks h₂ m₂ hbetween honce

end Grammar

/-- The numbers, texts, names and parameters that a statement is read from, but for the word WORK of a
    COMMIT or ROLLBACK, are in order those of its canonical text, unless it is an UPDATE that assigns
    to one column twice. -/
theorem marks_kept (r : Registry) (hr : r.SparesOperators) (text : String) (c d : Cursor)
    (hc : (Cursor.ofText text).Reaches c) (s : Statement)
    (hread : Grammar.statement? r c = (.ok (some s), d))
    (honce : ∀ u, (Grammar.updateAsWritten r (Grammar.emptyStatements c).2).1 = .ok u →
      (u.assignments.map Prod.fst).Nodup)
    (tokens : List Token) (htokens : c.Passes tokens d) :
    (marks (tokens.map (·.kind))).filter s.counts =
      marks ((tokenize (s.render r)).map (·.kind)) := by
  have hks := hc.written htokens.moves
  have hformed := Grammar.statement?_formed hc hread
  rw [Grammar.statement?_marks hread htokens.moves hks honce]
  exact (Grammar.marks_render hr hformed).symm

theorem marks_kept_update :
    ∃ s d tokens,
      Grammar.statement? Registry.builtin
        (Cursor.ofText ";update t set a=-?,B=\x27it\x27\x27s\x27 where sum((c+?)*1.50)>=2;commit") =
          (.ok (some s), d) ∧
      (Cursor.ofText ";update t set a=-?,B=\x27it\x27\x27s\x27 where sum((c+?)*1.50)>=2;commit").Passes
        tokens d ∧
      (marks (tokens.map (·.kind))).filter s.counts =
        marks ((tokenize (s.render Registry.builtin)).map (·.kind)) := by
  have hspares : Registry.builtin.SparesOperators := by
    unfold Registry.SparesOperators
    decide
  let start :=
    Cursor.ofText ";update t set a=-?,B=\x27it\x27\x27s\x27 where sum((c+?)*1.50)>=2;commit"
  have hread : ((Grammar.statement? Registry.builtin start).1.toOption.bind id).isSome = true := by
    decide +kernel
  have honce : ((Grammar.updateAsWritten Registry.builtin
      (Grammar.emptyStatements start).2).1.toOption.all
        fun u => decide (u.assignments.map Prod.fst).Nodup) = true := by decide +kernel
  obtain ⟨s, hs⟩ := Option.isSome_iff_exists.mp hread
  obtain ⟨o, ho, rfl⟩ := Option.bind_eq_some_iff.mp hs
  have hs : Grammar.statement? Registry.builtin start = (.ok (some s), _) :=
    Prod.ext (ok_of_toOption ho) rfl
  obtain ⟨tokens, htokens⟩ := (Grammar.statement? Registry.builtin).forward start
  refine ⟨s, _, tokens, hs, htokens, marks_kept _ hspares _ _ _ (.refl _) s hs ?_ tokens htokens⟩
  intro u hu
  rw [hu] at honce
  simpa [Except.toOption] using honce

end SqlFront
