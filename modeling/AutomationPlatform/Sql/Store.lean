/-
Rows under their primary keys.

A store is the committed content of a database: the keys in the order a scan
meets them, and the row each key holds.  Keys range over one type for all tables,
and the type of a row depends on its key, so a store with several tables is still
one store.

An uncommitted change is never a change of the store.  It is a set of writes,
new versions of rows kept next to the store, and what a transaction sees is the
store with its own writes laid over it.  Publishing the writes is the same
operation, done once at commit.
-/
import Mathlib.Data.List.Sigma

namespace Sql

/-- The rows of a database, each under its primary key. -/
structure Store (K : Type) (Row : K → Type) where
  /-- The keys in the order a scan meets them. -/
  keys : List K
  row : (k : K) → Option (Row k)
  nodup : keys.Nodup
  mem_keys : ∀ k, k ∈ keys ↔ (row k).isSome = true

/-- New versions of rows, not yet published. -/
abbrev Writes (K : Type) (Row : K → Type) := (k : K) → Option (Row k)

/-- No row is written. -/
def Writes.empty {K : Type} {Row : K → Type} : Writes K Row := fun _ => none

/-- One more written row. -/
def Writes.set {K : Type} {Row : K → Type} [DecidableEq K] (w : Writes K Row) (k : K)
    (v : Row k) : Writes K Row :=
  Function.update w k (some v)

namespace Writes

variable {K : Type} {Row : K → Type}

@[simp] theorem empty_apply (k : K) : (empty : Writes K Row) k = none := rfl

variable [DecidableEq K]

@[simp] theorem set_self (w : Writes K Row) (k : K) (v : Row k) : w.set k v k = some v := by
  simp [set]

theorem set_ne (w : Writes K Row) {k j : K} (v : Row k) (h : j ≠ k) : w.set k v j = w j := by
  simp [set, Function.update_of_ne h]

end Writes

namespace Store

variable {K : Type} {Row : K → Type}

/-- A store with nothing in it. -/
def empty : Store K Row where
  keys := []
  row := fun _ => none
  nodup := List.nodup_nil
  mem_keys := by simp

/-- The same keys with every row changed. -/
def mapRows (s : Store K Row) (f : (k : K) → Row k → Row k) : Store K Row where
  keys := s.keys
  row := fun k => (s.row k).map (f k)
  nodup := s.nodup
  mem_keys := by simp [s.mem_keys]

/-- The store as a transaction with the writes `w` sees it, and as their commit leaves it. -/
def overlay (s : Store K Row) (w : Writes K Row) : Store K Row :=
  s.mapRows fun k v => (w k).getD v

/-- An `INSERT`, refused when a primary key is taken or given twice. -/
def insert? [DecidableEq K] (s : Store K Row) (rows : List (Sigma Row)) :
    Option (Store K Row) :=
  if h : rows.keys.Nodup ∧ ∀ k ∈ rows.keys, k ∉ s.keys then
    some
      { keys := s.keys ++ rows.keys
        row := fun k => (rows.dlookup k).or (s.row k)
        nodup := List.nodup_append.mpr ⟨s.nodup, h.1, fun a ha b hb hab => h.2 b hb (hab ▸ ha)⟩
        mem_keys := by
          intro k
          rw [List.mem_append, s.mem_keys, ← List.dlookup_isSome]
          cases rows.dlookup k <;> simp }
  else
    none

/-- An `UPDATE` of the row with a key; without such a row nothing is written. -/
def set [DecidableEq K] (s : Store K Row) (k : K) (v : Row k) : Store K Row :=
  s.overlay (Writes.empty.set k v)

/-- The store with a row under a key, whether there was one or not. -/
def put [DecidableEq K] (s : Store K Row) (k : K) (v : Row k) : Store K Row where
  keys := if k ∈ s.keys then s.keys else s.keys ++ [k]
  row := Function.update s.row k (some v)
  nodup := by
    split
    · exact s.nodup
    · rename_i hk
      refine List.nodup_append.mpr ⟨s.nodup, by simp, fun a ha b hb hab => ?_⟩
      rw [List.mem_singleton] at hb
      exact hk (hb ▸ hab ▸ ha)
  mem_keys := by
    intro j
    by_cases hj : j = k
    · subst hj
      split <;> simp_all
    · rw [Function.update_of_ne hj, ← s.mem_keys]
      split
      · rfl
      · simp [hj]

/-- A `DELETE` of the rows that a condition selects. -/
def deleteWhere (s : Store K Row) (cond : (k : K) → Row k → Bool) : Store K Row where
  keys := s.keys.filter fun k => !(s.row k).any (cond k)
  row := fun k => (s.row k).filter fun v => !cond k v
  nodup := s.nodup.filter _
  mem_keys := by
    intro k
    rw [List.mem_filter, s.mem_keys]
    cases s.row k <;> simp

/-- The results of a `SELECT`: what `f` makes of each row, in the order of the scan. -/
def scan {β : Type} (s : Store K Row) (f : (k : K) → Row k → Option β) : List β :=
  s.keys.filterMap fun k => (s.row k).bind (f k)

@[ext] theorem ext {s t : Store K Row} (hkeys : s.keys = t.keys)
    (hrow : ∀ k, s.row k = t.row k) : s = t := by
  cases s
  cases t
  obtain rfl : _ = _ := hkeys
  obtain rfl : _ = _ := funext hrow
  rfl

@[simp] theorem empty_row (k : K) : (empty : Store K Row).row k = none := rfl

@[simp] theorem empty_keys : (empty : Store K Row).keys = [] := rfl

@[simp] theorem mapRows_keys (s : Store K Row) (f : (k : K) → Row k → Row k) :
    (s.mapRows f).keys = s.keys := rfl

@[simp] theorem mapRows_row (s : Store K Row) (f : (k : K) → Row k → Row k) (k : K) :
    (s.mapRows f).row k = (s.row k).map (f k) := rfl

@[simp] theorem overlay_keys (s : Store K Row) (w : Writes K Row) :
    (s.overlay w).keys = s.keys := rfl

theorem overlay_row (s : Store K Row) (w : Writes K Row) (k : K) :
    (s.overlay w).row k = (s.row k).map fun v => (w k).getD v := rfl

theorem mem_keys_of_row {s : Store K Row} {k : K} {v : Row k} (h : s.row k = some v) :
    k ∈ s.keys := by
  rw [s.mem_keys, h]
  rfl

theorem overlay_row_none {s : Store K Row} {w : Writes K Row} {k : K} (h : w k = none) :
    (s.overlay w).row k = s.row k := by
  simp [overlay_row, h]

theorem overlay_row_some {s : Store K Row} {w : Writes K Row} {k : K} {v₀ v : Row k}
    (hs : s.row k = some v₀) (hw : w k = some v) : (s.overlay w).row k = some v := by
  simp [overlay_row, hs, hw]

@[simp] theorem overlay_empty (s : Store K Row) : s.overlay Writes.empty = s := by
  refine Store.ext rfl fun k => ?_
  exact overlay_row_none rfl

/-- A row the view shows is the transaction's own version or the committed one. -/
theorem row_of_overlay {s : Store K Row} {w : Writes K Row} {k : K} {v : Row k}
    (h : (s.overlay w).row k = some v) :
    w k = some v ∨ (w k = none ∧ s.row k = some v) := by
  rw [overlay_row] at h
  cases hs : s.row k with
  | none => simp [hs] at h
  | some v₀ =>
      cases hw : w k with
      | none => simp only [hs, hw, Option.map_some, Option.getD_none] at h; exact Or.inr ⟨rfl, h⟩
      | some v₁ => simp only [hs, hw, Option.map_some, Option.getD_some] at h; exact Or.inl h

@[simp] theorem set_keys [DecidableEq K] (s : Store K Row) (k : K) (v : Row k) :
    (s.set k v).keys = s.keys := rfl

theorem set_row_self [DecidableEq K] {s : Store K Row} {k : K} {v₀ : Row k}
    (h : s.row k = some v₀) (v : Row k) : (s.set k v).row k = some v :=
  overlay_row_some h (Writes.set_self ..)

theorem set_row_ne [DecidableEq K] (s : Store K Row) {k j : K} (v : Row k) (h : j ≠ k) :
    (s.set k v).row j = s.row j :=
  overlay_row_none (Writes.set_ne _ v h)

@[simp] theorem put_row_self [DecidableEq K] (s : Store K Row) (k : K) (v : Row k) :
    (s.put k v).row k = some v := by
  simp [put]

theorem put_row_ne [DecidableEq K] (s : Store K Row) {k j : K} (v : Row k) (h : j ≠ k) :
    (s.put k v).row j = s.row j := by
  simp [put, Function.update_of_ne h]

/-- What is in a store is still found after a row was put in it. -/
theorem put_isSome [DecidableEq K] (s : Store K Row) (k j : K) (v : Row k) :
    ((s.put k v).row j).isSome = true ↔ j = k ∨ (s.row j).isSome = true := by
  by_cases hj : j = k
  · subst hj; simp
  · rw [put_row_ne s v hj]; simp [hj]

theorem deleteWhere_row (s : Store K Row) (cond : (k : K) → Row k → Bool) (k : K) :
    (s.deleteWhere cond).row k = (s.row k).filter fun v => !cond k v := rfl

theorem deleteWhere_row_keep {s : Store K Row} {cond : (k : K) → Row k → Bool} {k : K}
    (h : ∀ v, s.row k = some v → cond k v = false) : (s.deleteWhere cond).row k = s.row k := by
  rw [deleteWhere_row]
  cases hk : s.row k with
  | none => rfl
  | some v => simp [h v hk]

theorem deleteWhere_row_drop {s : Store K Row} {cond : (k : K) → Row k → Bool} {k : K}
    (h : ∀ v, s.row k = some v → cond k v = true) : (s.deleteWhere cond).row k = none := by
  rw [deleteWhere_row]
  cases hk : s.row k with
  | none => rfl
  | some v => simp [h v hk]

/-- Rows that change and stay selected may be selected first. -/
theorem deleteWhere_mapRows {s : Store K Row} {cond : (k : K) → Row k → Bool}
    {f : (k : K) → Row k → Row k} (h : ∀ k v, s.row k = some v → cond k (f k v) = cond k v) :
    (s.mapRows f).deleteWhere cond = (s.deleteWhere cond).mapRows f := by
  have hkeys : ((s.mapRows f).deleteWhere cond).keys = (s.deleteWhere cond).keys := by
    refine List.filter_congr fun k _ => ?_
    rw [mapRows_row]
    cases hk : s.row k with
    | none => rfl
    | some v => simp [h k v hk]
  refine ext hkeys fun k => ?_
  rw [mapRows_row, deleteWhere_row, deleteWhere_row, mapRows_row]
  cases hk : s.row k with
  | none => rfl
  | some v => by_cases hc : cond k v = true <;> simp [Option.filter, h k v hk, hc]

/-- Rows that are not kept may change. -/
theorem deleteWhere_mapRows_frame {s : Store K Row} {cond : (k : K) → Row k → Bool}
    {f : (k : K) → Row k → Row k} (h : ∀ k v, s.row k = some v → cond k (f k v) = cond k v)
    (hframe : ∀ k v, s.row k = some v → cond k v = false → f k v = v) :
    (s.mapRows f).deleteWhere cond = s.deleteWhere cond := by
  rw [deleteWhere_mapRows h]
  refine ext rfl fun k => ?_
  rw [mapRows_row, deleteWhere_row]
  cases hk : s.row k with
  | none => rfl
  | some v =>
      cases hc : cond k v with
      | true => simp [Option.filter, hc]
      | false => simp [Option.filter, hc, hframe k v hk hc]

theorem mem_scan {β : Type} {s : Store K Row} {f : (k : K) → Row k → Option β} {b : β} :
    b ∈ s.scan f ↔ ∃ k v, s.row k = some v ∧ f k v = some b := by
  unfold scan
  rw [List.mem_filterMap]
  constructor
  · intro ⟨k, _, hb⟩
    obtain ⟨v, hv, hf⟩ := Option.bind_eq_some_iff.mp hb
    exact ⟨k, v, hv, hf⟩
  · intro ⟨k, v, hv, hf⟩
    exact ⟨k, mem_keys_of_row hv, by rw [hv, Option.bind_some, hf]⟩

/-- What tells the key of a result is in no two results of a scan. -/
theorem scan_map_nodup {β γ : Type} {s : Store K Row} {f : (k : K) → Row k → Option β}
    (p : β → γ) (key : γ → K) (h : ∀ k v b, f k v = some b → k = key (p b)) :
    ((s.scan f).map p).Nodup := by
  unfold scan
  rw [List.map_filterMap]
  refine s.nodup.filterMap fun j k c hj hk => ?_
  obtain ⟨b, hb, rfl⟩ := Option.map_eq_some_iff.mp hj
  obtain ⟨d, hd, hdc⟩ := Option.map_eq_some_iff.mp hk
  obtain ⟨v, _, hv⟩ := Option.bind_eq_some_iff.mp hb
  obtain ⟨w, _, hw⟩ := Option.bind_eq_some_iff.mp hd
  rw [h j v b hv, h k w d hw, hdc]

/-- A scan sees nothing of a store but its keys and what it makes of each row. -/
theorem scan_congr {β : Type} {s t : Store K Row} {f g : (k : K) → Row k → Option β}
    (hkeys : s.keys = t.keys) (h : ∀ k, (s.row k).bind (f k) = (t.row k).bind (g k)) :
    s.scan f = t.scan g := by
  unfold scan
  rw [hkeys]
  exact List.filterMap_congr fun k _ => h k

section Insert

variable [DecidableEq K] {s s' : Store K Row} {rows : List (Sigma Row)}

/-- An insert that goes through had only free keys to fill. -/
theorem insert?_cases (h : s.insert? rows = some s') :
    rows.NodupKeys ∧ (∀ k ∈ rows.keys, k ∉ s.keys) ∧
      s'.keys = s.keys ++ rows.keys ∧ ∀ k, s'.row k = (rows.dlookup k).or (s.row k) := by
  unfold insert? at h
  split at h
  · rename_i hfree
    rw [Option.some.injEq] at h
    subst h
    exact ⟨hfree.1, hfree.2, rfl, fun _ => rfl⟩
  · simp at h

/-- Rows already there are not touched by an insert. -/
theorem row_insert?_old (h : s.insert? rows = some s') {k : K} {v : Row k}
    (hk : s.row k = some v) : s'.row k = some v := by
  obtain ⟨-, hfree, -, hrow⟩ := insert?_cases h
  have hnew : rows.dlookup k = none :=
    List.dlookup_eq_none.mpr fun hc => hfree k hc (mem_keys_of_row hk)
  rw [hrow, hnew, Option.none_or, hk]

/-- A row found after an insert is one of the inserted rows or was there before. -/
theorem row_insert?_cases (h : s.insert? rows = some s') {k : K} {v : Row k}
    (hk : s'.row k = some v) :
    (⟨k, v⟩ ∈ rows ∧ s.row k = none) ∨ s.row k = some v := by
  obtain ⟨hnd, hfree, -, hrow⟩ := insert?_cases h
  rw [hrow] at hk
  cases hd : rows.dlookup k with
  | none => rw [hd, Option.none_or] at hk; exact Or.inr hk
  | some v' =>
      rw [hd, Option.some_or, Option.some.injEq] at hk
      subst hk
      refine Or.inl ⟨(List.mem_dlookup_iff hnd).mp hd, ?_⟩
      have hkey : k ∈ rows.keys := List.dlookup_isSome.mp (by rw [hd]; rfl)
      have hold := hfree k hkey
      rw [s.mem_keys] at hold
      simpa using hold

/-- The store with these rows; without any, when two of them have one key. -/
def ofRows (rows : List (Sigma Row)) : Store K Row :=
  ((empty : Store K Row).insert? rows).getD empty

theorem mem_of_row_ofRows {k : K} {v : Row k} (h : (ofRows rows).row k = some v) :
    ⟨k, v⟩ ∈ rows := by
  unfold ofRows at h
  cases hs : (empty : Store K Row).insert? rows with
  | none => simp [hs] at h
  | some s =>
      rw [hs, Option.getD_some] at h
      rcases row_insert?_cases hs h with ⟨hmem, -⟩ | hold
      · exact hmem
      · simp at hold

theorem row_insert?_new (h : s.insert? rows = some s') {k : K} {v : Row k}
    (hk : ⟨k, v⟩ ∈ rows) : s'.row k = some v := by
  obtain ⟨hnd, -, -, hrow⟩ := insert?_cases h
  rw [hrow, (List.mem_dlookup_iff hnd).mpr hk, Option.some_or]

/-- The rows a selection keeps of a store and of what is inserted into it. -/
theorem deleteWhere_insert? (h : s.insert? rows = some s') (cond : (k : K) → Row k → Bool) :
    (s'.deleteWhere cond).keys = (s.deleteWhere cond).keys ++
        rows.keys.filter (fun k => !(s'.row k).any (cond k)) ∧
      ∀ k ∈ s.keys, (s'.deleteWhere cond).row k = (s.deleteWhere cond).row k := by
  obtain ⟨-, -, hkeys, -⟩ := insert?_cases h
  have hold : ∀ k ∈ s.keys, s'.row k = s.row k := by
    intro k hk
    rw [s.mem_keys] at hk
    obtain ⟨v, hv⟩ := Option.isSome_iff_exists.mp hk
    rw [row_insert?_old h hv, hv]
  constructor
  · show s'.keys.filter _ = s.keys.filter _ ++ _
    rw [hkeys, List.filter_append]
    refine congrArg (· ++ _) (List.filter_congr fun k hk => ?_)
    rw [hold k hk]
  · intro k hk
    rw [deleteWhere_row, deleteWhere_row, hold k hk]

/-- Rows that are not kept need not be inserted. -/
theorem deleteWhere_insert?_drop (h : s.insert? rows = some s') {cond : (k : K) → Row k → Bool}
    (hdrop : ∀ r ∈ rows, cond r.1 r.2 = true) : s'.deleteWhere cond = s.deleteWhere cond := by
  obtain ⟨hkeys, hold⟩ := deleteWhere_insert? h cond
  have hnew : ∀ k v, s'.row k = some v → k ∉ s.keys → cond k v = true := by
    intro k v hv hk
    rcases row_insert?_cases h hv with ⟨hmem, -⟩ | hrow
    · exact hdrop _ hmem
    · exact absurd (mem_keys_of_row hrow) hk
  refine ext ?_ fun k => ?_
  · rw [hkeys, List.append_right_eq_self, List.filter_eq_nil_iff]
    intro k hk
    obtain ⟨r, hr, rfl⟩ := List.mem_map.mp hk
    rw [row_insert?_new h (v := r.2) hr]
    simp [hdrop r hr]
  · by_cases hk : k ∈ s.keys
    · exact hold k hk
    · rw [deleteWhere_row_drop fun v hv => hnew k v hv hk, deleteWhere_row_drop]
      intro v hv
      exact absurd (mem_keys_of_row hv) hk

/-- Rows that are kept may be inserted after the selection. -/
theorem insert?_deleteWhere_keep (h : s.insert? rows = some s') {cond : (k : K) → Row k → Bool}
    (hkeep : ∀ r ∈ rows, cond r.1 r.2 = false) :
    (s.deleteWhere cond).insert? rows = some (s'.deleteWhere cond) := by
  obtain ⟨hkeys, hold⟩ := deleteWhere_insert? h cond
  obtain ⟨hnd, hfree, -, hrow⟩ := insert?_cases h
  unfold insert?
  rw [dif_pos ⟨hnd, fun k hk hmem => hfree k hk (List.mem_of_mem_filter hmem)⟩, Option.some.injEq]
  refine ext ?_ fun k => ?_
  · rw [hkeys]
    refine congrArg _ (List.filter_eq_self.mpr fun k hk => ?_).symm
    obtain ⟨r, hr, rfl⟩ := List.mem_map.mp hk
    rw [row_insert?_new h (v := r.2) hr]
    simp [hkeep r hr]
  · show (rows.dlookup k).or ((s.deleteWhere cond).row k) = _
    cases hd : rows.dlookup k with
    | none =>
        rw [Option.none_or, deleteWhere_row, deleteWhere_row, hrow, hd, Option.none_or]
    | some v =>
        have hmem := (List.mem_dlookup_iff hnd).mp hd
        rw [Option.some_or, deleteWhere_row, row_insert?_new h hmem]
        simp [Option.filter, hkeep _ hmem]

end Insert

end Store

/-! ### Order of rows -/

/-- How a statement without `ORDER BY` lists the rows it finds: all of them, in whatever order the
database meets them. -/
structure RowOrder (α : Type) where
  list : List α → List α
  perm : ∀ rows, (list rows).Perm rows

/-- The rows as they are in the store. -/
def RowOrder.stored {α : Type} : RowOrder α := ⟨id, fun _ => .refl _⟩

@[simp] theorem RowOrder.mem_list {α : Type} (order : RowOrder α) {rows : List α} {a : α} :
    a ∈ order.list rows ↔ a ∈ rows :=
  (order.perm rows).mem_iff

/-! ### Evolution

What a row may become over time: a reflexive and transitive relation for each
key.  A store evolves when its rows do; rows may be added and none is lost.
-/

/-- How the version of a row may change over time. -/
structure Evolution (K : Type) (Row : K → Type) where
  rel : (k : K) → Row k → Row k → Prop
  refl : ∀ k v, rel k v v
  trans : ∀ k {a b c}, rel k a b → rel k b c → rel k a c

/-- Every row of the first store is still there in the second, possibly evolved. -/
def Store.Le {K : Type} {Row : K → Type} (E : Evolution K Row) (s t : Store K Row) : Prop :=
  ∀ k v, s.row k = some v → ∃ v', t.row k = some v' ∧ E.rel k v v'

namespace Store

variable {K : Type} {Row : K → Type} {E : Evolution K Row} {s t u : Store K Row}

theorem Le.refl (E : Evolution K Row) (s : Store K Row) : s.Le E s :=
  fun k v h => ⟨v, h, E.refl k v⟩

theorem Le.trans (h : s.Le E t) (h' : t.Le E u) : s.Le E u := by
  intro k v hk
  obtain ⟨v', hk', hv⟩ := h k v hk
  obtain ⟨v'', hk'', hv'⟩ := h' k v' hk'
  exact ⟨v'', hk'', E.trans k hv hv'⟩

/-- What is absent later was absent before. -/
theorem Le.none (h : s.Le E t) {k : K} (hk : t.row k = Option.none) : s.row k = Option.none := by
  cases hs : s.row k with
  | none => rfl
  | some v =>
      obtain ⟨v', hk', -⟩ := h k v hs
      rw [hk] at hk'
      simp at hk'

/-- Publishing writes that each continue the committed row is an evolution. -/
theorem le_overlay {w : Writes K Row}
    (h : ∀ k v₀ v, s.row k = some v₀ → w k = some v → E.rel k v₀ v) : s.Le E (s.overlay w) := by
  intro k v₀ hk
  cases hw : w k with
  | none => exact ⟨v₀, by rw [overlay_row_none hw, hk], E.refl k v₀⟩
  | some v => exact ⟨v, overlay_row_some hk hw, h k v₀ v hk hw⟩

theorem le_insert? [DecidableEq K] {rows : List (Sigma Row)} (h : s.insert? rows = some t) :
    s.Le E t :=
  fun k v hk => ⟨v, row_insert?_old h hk, E.refl k v⟩

end Store

/--
The order in which committed stores may follow each other.  It implies that rows
evolve, and may say more about what is never added: publishing new versions of
rows moves along it, and so must every insert the application makes.
-/
structure Timeline (K : Type) (Row : K → Type) extends Evolution K Row where
  before : Store K Row → Store K Row → Prop
  before_refl : ∀ s, before s s
  before_trans : ∀ {s t u}, before s t → before t u → before s u
  le : ∀ {s t}, before s t → s.Le toEvolution t
  before_overlay : ∀ {s : Store K Row} {w : Writes K Row},
    (∀ k v₀ v, s.row k = some v₀ → w k = some v → rel k v₀ v) → before s (s.overlay w)

end Sql
