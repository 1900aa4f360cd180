import SqlFront.Tree.Statement

/-! # Assignments to columns

Of several assignments to one column the last one counts, at the place of the first. Assignments to
different columns stay as they are written.
-/

namespace SqlFront.Update

variable {assignments : List (String × Expr)}

theorem mem_assign {column : String} {value : Expr} {a : String × Expr}
    (h : a ∈ assign column value assignments) : a = (column, value) ∨ a ∈ assignments := by
  fun_induction assign column value assignments <;> grind

/-- An assignment adds its column if it is new, and no other. -/
theorem columns_assign (column : String) (value : Expr) (assignments : List (String × Expr)) :
    (assign column value assignments).map Prod.fst =
      if column ∈ assignments.map Prod.fst then assignments.map Prod.fst
      else assignments.map Prod.fst ++ [column] := by
  fun_induction assign column value assignments <;> grind

/-- An assignment to a new column is added at the end. -/
theorem assign_new {column : String} {value : Expr} (h : column ∉ assignments.map Prod.fst) :
    assign column value assignments = assignments ++ [(column, value)] := by
  fun_induction assign column value assignments <;> grind

/-- Some assignments, then the others one after the other. -/
def mergeInto (done assignments : List (String × Expr)) : List (String × Expr) :=
  assignments.foldl (fun done a => assign a.1 a.2 done) done

theorem merge_eq (assignments : List (String × Expr)) :
    merge assignments = mergeInto [] assignments := rfl

theorem mem_mergeInto {done : List (String × Expr)} {a : String × Expr}
    (h : a ∈ mergeInto done assignments) : a ∈ done ∨ a ∈ assignments := by
  induction assignments generalizing done with
  | nil => exact .inl h
  | cons first rest ih =>
    obtain h | h := ih h
    · obtain rfl | h := mem_assign h
      · exact .inr (List.mem_cons_self ..)
      · exact .inl h
    · exact .inr (List.mem_cons_of_mem _ h)

theorem mem_of_mem_merge {a : String × Expr} (h : a ∈ merge assignments) : a ∈ assignments := by
  obtain h | h := mem_mergeInto (merge_eq assignments ▸ h)
  · cases h
  · exact h

theorem nodup_mergeInto {done : List (String × Expr)} (h : (done.map Prod.fst).Nodup) :
    ((mergeInto done assignments).map Prod.fst).Nodup := by
  induction assignments generalizing done with
  | nil => exact h
  | cons first rest ih =>
    refine ih ?_
    rw [columns_assign]
    split
    · exact h
    · rename_i hnew
      rw [List.nodup_append]
      refine ⟨h, by simp, fun c hc d hd heq => hnew ?_⟩
      obtain rfl := List.mem_singleton.mp hd
      exact heq ▸ hc

theorem nodup_merge (assignments : List (String × Expr)) :
    ((merge assignments).map Prod.fst).Nodup :=
  nodup_mergeInto .nil

theorem mergeInto_of_nodup {done : List (String × Expr)}
    (h : ((done ++ assignments).map Prod.fst).Nodup) :
    mergeInto done assignments = done ++ assignments := by
  induction assignments generalizing done with
  | nil => exact (List.append_nil done).symm
  | cons first rest ih =>
    have hnew : first.1 ∉ done.map Prod.fst := by
      rw [List.map_append, List.nodup_append] at h
      exact fun hmem => h.2.2 _ hmem _ (List.mem_cons_self ..) rfl
    change mergeInto (assign first.1 first.2 done) rest = _
    rw [assign_new hnew, ih (by simpa using h), List.append_assoc, List.singleton_append]

/-- Assignments to different columns stay as they are. -/
theorem merge_of_nodup (h : (assignments.map Prod.fst).Nodup) : merge assignments = assignments :=
  mergeInto_of_nodup h

theorem mergeInto_ne_nil {done : List (String × Expr)} (h : done ≠ []) :
    mergeInto done assignments ≠ [] := by
  induction assignments generalizing done with
  | nil => exact h
  | cons first rest ih =>
    refine ih fun hnil => ?_
    have hcolumns := columns_assign first.1 first.2 done
    rw [show assign first.1 first.2 done = [] from hnil] at hcolumns
    split at hcolumns
    · exact h (List.map_eq_nil_iff.mp hcolumns.symm)
    · simp at hcolumns

theorem merge_ne_nil (h : assignments ≠ []) : merge assignments ≠ [] := by
  cases assignments with
  | nil => exact absurd rfl h
  | cons first rest =>
    exact @mergeInto_ne_nil rest [first] (List.cons_ne_nil _ _)

theorem mem_assign_self (column : String) (value : Expr) (assignments : List (String × Expr)) :
    (column, value) ∈ assign column value assignments := by
  fun_induction assign column value assignments <;> grind

theorem mem_assign_of_ne {column : String} {value : Expr} {a : String × Expr} (h : a ∈ assignments)
    (hne : a.1 ≠ column) : a ∈ assign column value assignments := by
  fun_induction assign column value assignments <;> grind

theorem mem_mergeInto_of_new {done : List (String × Expr)} {a : String × Expr} (h : a ∈ done)
    (hnew : a.1 ∉ assignments.map Prod.fst) : a ∈ mergeInto done assignments := by
  induction assignments generalizing done with
  | nil => exact h
  | cons first rest ih =>
    obtain ⟨hfirst, hrest⟩ := not_or.mp fun h => hnew (List.mem_cons.mpr h)
    exact ih (mem_assign_of_ne h hfirst) hrest

/-- The last assignment to a column is kept. -/
theorem mem_merge_last (before : List (String × Expr)) {column : String} (value : Expr)
    {after : List (String × Expr)} (h : column ∉ after.map Prod.fst) :
    (column, value) ∈ merge (before ++ (column, value) :: after) := by
  rw [merge_eq, mergeInto, List.foldl_append, List.foldl_cons]
  exact mem_mergeInto_of_new (mem_assign_self column value _) h

end SqlFront.Update
