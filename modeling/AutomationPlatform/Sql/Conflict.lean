/-
Rows under a primary key, and inserts that leave the rows there are alone.

A table is a list of rows, in no particular order.  With one row a key it is known by
what is found under each key: two tables with the same finds hold the same rows.

`INSERT ... ON CONFLICT DO NOTHING` finds what was there, and what is new where nothing
was (`find_insertAbsent`).  That it may be repeated, and in which order inserts come, is
read off from the finds.
-/
import Mathlib.Data.List.Nodup

namespace Sql

variable {R I : Type}

/-- One row a key. -/
def Keyed (key : R → I) (table : List R) : Prop := (table.map key).Nodup

section Find

variable [DecidableEq I] {key : R → I}

/-- The row under a key. -/
def find (key : R → I) (table : List R) (i : I) : Option R :=
  table.find? fun r => key r = i

theorem find_eq_none {table : List R} {i : I} :
    find key table i = none ↔ ∀ r ∈ table, key r ≠ i := by
  simp [find]

theorem isSome_find {table : List R} {i : I} :
    (find key table i).isSome = true ↔ ∃ r ∈ table, key r = i := by
  simp [find]

theorem key_of_find {table : List R} {i : I} {r : R} (h : find key table i = some r) :
    key r = i := by
  simpa using List.find?_some h

theorem mem_of_find {table : List R} {i : I} {r : R} (h : find key table i = some r) :
    r ∈ table :=
  List.mem_of_find?_eq_some h

theorem find_of_mem {table : List R} (h : Keyed key table) {r : R} (hr : r ∈ table) :
    find key table (key r) = some r := by
  have hsome : (find key table (key r)).isSome = true := isSome_find.mpr ⟨r, hr, rfl⟩
  obtain ⟨r', hr'⟩ := Option.isSome_iff_exists.mp hsome
  rw [hr']
  exact congrArg some (List.inj_on_of_nodup_map h (mem_of_find hr') hr (key_of_find hr'))

/-- Two tables that find the same rows hold the same rows. -/
theorem perm_of_find {a b : List R} (ha : Keyed key a) (hb : Keyed key b)
    (h : ∀ i, find key a i = find key b i) : a.Perm b := by
  have hsub : ∀ {a b : List R}, Keyed key a → (∀ i, find key a i = find key b i) →
      ∀ r ∈ a, r ∈ b := by
    intro a b ha h r hr
    have hfind : find key b (key r) = some r := (h (key r)).symm.trans (find_of_mem ha hr)
    exact mem_of_find hfind
  exact (List.perm_ext_iff_of_nodup ha.of_map hb.of_map).mpr fun r =>
    ⟨hsub ha h r, hsub hb (fun i => (h i).symm) r⟩

/-- The rows under a key are the one that is found. -/
theorem filter_key {table : List R} (h : Keyed key table) (i : I) :
    table.filter (fun r => key r = i) = (find key table i).toList := by
  cases hf : find key table i with
  | none =>
      rw [Option.toList_none, List.filter_eq_nil_iff]
      exact fun r hr => by simpa using find_eq_none.mp hf r hr
  | some r =>
      have hmem : ∀ r', r' ∈ table.filter (fun r => key r = i) ↔ r' ∈ [r] := by
        intro r'
        rw [List.mem_filter, List.mem_singleton, decide_eq_true_eq]
        constructor
        · rintro ⟨hr', rfl⟩
          exact Option.some.inj ((find_of_mem h hr').symm.trans hf)
        · rintro rfl
          exact ⟨mem_of_find hf, key_of_find hf⟩
      exact List.perm_singleton.mp
        ((List.perm_ext_iff_of_nodup (h.of_map.filter _) (by simp)).mpr hmem)

end Find

section InsertAbsent

variable [DecidableEq I] {key : R → I}

/-- `INSERT ... ON CONFLICT DO NOTHING`. -/
def insertAbsent (key : R → I) (table new : List R) : List R :=
  new.foldl (fun table r => if table.any (key · = key r) then table else table ++ [r]) table

theorem insertAbsent_cons (table rest : List R) (r : R) :
    insertAbsent key table (r :: rest) = insertAbsent key (insertAbsent key table [r]) rest := rfl

theorem insertAbsent_append (table xs ys : List R) :
    insertAbsent key table (xs ++ ys) = insertAbsent key (insertAbsent key table xs) ys :=
  List.foldl_append

/-- Inserting one row. -/
theorem insertAbsent_singleton (table : List R) (r : R) :
    insertAbsent key table [r] = if (find key table (key r)).isSome then table else table ++ [r] := by
  have hany : table.any (key · = key r) = (find key table (key r)).isSome := by
    rw [Bool.eq_iff_iff, isSome_find]
    simp
  rw [← hany]
  rfl

theorem find_cons (r : R) (rest : List R) (i : I) :
    find key (r :: rest) i = if key r = i then some r else find key rest i := by
  by_cases hi : key r = i <;> simp [find, hi]

theorem find_insertAbsent_singleton (table : List R) (r : R) (i : I) :
    find key (insertAbsent key table [r]) i =
      (find key table i).or (if key r = i then some r else none) := by
  rw [insertAbsent_singleton]
  by_cases hi : key r = i
  · subst hi
    cases hf : find key table (key r) with
    | none =>
        rw [find] at hf ⊢
        simp [List.find?_append, hf]
    | some r' => simp [hf]
  · split <;> simp [find, hi]

/-- **What was there is found, and what is new where nothing was.** -/
theorem find_insertAbsent (table new : List R) (i : I) :
    find key (insertAbsent key table new) i = (find key table i).or (find key new i) := by
  induction new generalizing table with
  | nil => simp [insertAbsent, find]
  | cons r rest ih =>
      rw [insertAbsent_cons, ih, find_insertAbsent_singleton, Option.or_assoc, find_cons]
      split <;> rfl

/-- An insert keeps one row a key. -/
theorem Keyed.insertAbsent {table : List R} (h : Keyed key table) (new : List R) :
    Keyed key (insertAbsent key table new) := by
  induction new generalizing table with
  | nil => exact h
  | cons r rest ih =>
      rw [insertAbsent_cons]
      refine ih ?_
      rw [insertAbsent_singleton]
      split
      · exact h
      · rename_i hnone
        rw [Option.not_isSome_iff_eq_none, find_eq_none] at hnone
        unfold Keyed
        rw [List.map_append, List.nodup_append]
        refine ⟨h, by simp, ?_⟩
        intro i hi j hj
        obtain ⟨r', hr', rfl⟩ := List.mem_map.mp hi
        obtain rfl : j = key r := by simpa using hj
        exact hnone r' hr'

/-- The rows after an insert are the old ones, and the first new one under each new key. -/
theorem mem_insertAbsent {table new : List R} {r : R} :
    r ∈ insertAbsent key table new ↔
      r ∈ table ∨ find key table (key r) = none ∧ find key new (key r) = some r := by
  induction new generalizing table with
  | nil => simp [insertAbsent, find]
  | cons x rest ih =>
      have hone : r ∈ insertAbsent key table [x] ↔
          r ∈ table ∨ find key table (key r) = none ∧ r = x := by
        rw [insertAbsent_singleton]
        split
        · rename_i hsome
          refine ⟨Or.inl, ?_⟩
          rintro (hr | ⟨hnone, rfl⟩)
          · exact hr
          · simp [hnone] at hsome
        · rename_i hnone
          rw [Option.not_isSome_iff_eq_none] at hnone
          rw [List.mem_append, List.mem_singleton]
          refine or_congr_right ⟨?_, And.right⟩
          rintro rfl
          exact ⟨hnone, rfl⟩
      rw [insertAbsent_cons, ih, hone, find_insertAbsent_singleton, find_cons]
      by_cases hx : key x = key r <;> grind

/-- Rows whose keys are all there add nothing. -/
theorem insertAbsent_of_present {table new : List R}
    (h : ∀ r ∈ new, (find key table (key r)).isSome = true) :
    insertAbsent key table new = table := by
  induction new with
  | nil => rfl
  | cons r rest ih =>
      rw [insertAbsent_cons, insertAbsent_singleton, if_pos (h r (by simp))]
      exact ih fun r' hr' => h r' (by simp [hr'])

end InsertAbsent

end Sql
