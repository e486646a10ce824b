/-
Constraints between rows, and the session of an object-relational mapper on top.

A statement is checked when it is executed.  A row that is written must fit its columns,
its value under a unique constraint must be free, and the rows it refers to must be
there already, in its own table or another.  A row that others refer to cannot be
deleted, unless they go with it.

A session does not write at once.  What it adds or merges stays pending until a flush
turns it into statements, in the order in which it came.  A flush is asked for, or
happens by itself: before a lookup, before a statement of its own, and at the commit.
So a statement can fail long after the call that is responsible for it, and also much
earlier than the end of the unit of work.

There is one session here and it works on what its transaction sees.  If it ends
without a commit, nothing of it is kept.  All that ever matters of it is what a flush
would make of it now, and `settle` is that: a session under way is as good as one that
has been settled.
-/
import AutomationPlatform.Sql.Store

namespace Sql

/-- The constraints of a schema, beside its primary keys. -/
structure Schema (K : Type) (Row : K → Type) (U : Type) where
  /-- The rows a row refers to. -/
  references : (k : K) → Row k → List K
  /-- The value of a row under the unique constraint of its table. -/
  unique : (k : K) → Row k → Option U
  /-- A row goes when a row it refers to goes: `ON DELETE CASCADE`. -/
  cascades : K → Bool
  /-- Rows of other stores refer to the row. -/
  pinned : K → Bool
  /-- The row fits the types of its columns. -/
  fits : (k : K) → Row k → Bool

inductive Violation where
  | primaryKey
  | unique
  | foreignKey
  /-- A value is outside the range of its column. -/
  | data
  /-- The row to be changed is gone. -/
  | stale
  deriving DecidableEq, Repr

variable {K : Type} {Row : K → Type} {U : Type} [DecidableEq K] [DecidableEq U]

namespace Schema

variable (schema : Schema K Row U)

/-- Another row has the same value under the unique constraint. -/
def taken (s : Store K Row) (k : K) (v : Row k) : Bool :=
  (schema.unique k v).any fun value =>
    (s.scan fun j w => if j = k then none else schema.unique j w).contains value

/-- The rows a row refers to are there. -/
def resolved (s : Store K Row) (k : K) (v : Row k) : Bool :=
  (schema.references k v).all fun j => (s.row j).isSome

/-- Write a row, if the constraints allow it. -/
def write (s : Store K Row) (r : Sigma Row) : Except Violation (Store K Row) :=
  if schema.fits r.1 r.2 = false then .error .data
  else if schema.taken s r.1 r.2 = true then .error .unique
  else if schema.resolved (s.put r.1 r.2) r.1 r.2 = false then .error .foreignKey
  else .ok (s.put r.1 r.2)

/-- `INSERT` of one row. -/
def insert (s : Store K Row) (r : Sigma Row) : Except Violation (Store K Row) :=
  if (s.row r.1).isSome then .error .primaryKey else schema.write s r

/-- `UPDATE` of one row, all columns. -/
def update (s : Store K Row) (r : Sigma Row) : Except Violation (Store K Row) :=
  if (s.row r.1).isSome then schema.write s r else .error .stale

/-- The rows that go with those deleted; nothing refers to a row that does. -/
def cascade (s : Store K Row) : Store K Row :=
  s.deleteWhere fun k v => schema.cascades k && !schema.resolved s k v

/-- Rows that a deletion would leave without a row they refer to. -/
def dangling (s : Store K Row) : List K :=
  s.scan fun k v => if schema.resolved s k v then none else some k

/-- `DELETE` of the rows a condition selects. -/
def delete (s : Store K Row) (cond : (k : K) → Row k → Bool) : Except Violation (Store K Row) :=
  if (s.scan fun k v => if cond k v && schema.pinned k then some k else none) ≠ [] then
    .error .foreignKey
  else if schema.dangling (schema.cascade (s.deleteWhere cond)) ≠ [] then .error .foreignKey
  else .ok (schema.cascade (s.deleteWhere cond))

/-- `DELETE` of the row with a key. -/
def deleteKey (s : Store K Row) (k : K) : Except Violation (Store K Row) :=
  schema.delete s fun j _ => j = k

end Schema

theorem bind_eq_ok {ε α β : Type} {x : Except ε α} {f : α → Except ε β} {b : β} :
    x >>= f = .ok b ↔ ∃ a, x = .ok a ∧ f a = .ok b := by
  cases x with
  | error e => simp [bind, Except.bind]
  | ok a => simp [bind, Except.bind]

theorem bind_eq_error {ε α β : Type} {x : Except ε α} {f : α → Except ε β} {e : ε} :
    x >>= f = .error e ↔ x = .error e ∨ ∃ a, x = .ok a ∧ f a = .error e := by
  cases x with
  | error e' => simp [bind, Except.bind]
  | ok a => simp [bind, Except.bind]

/-- A loop that fails fails in one of its rounds. -/
theorem exists_of_foldlM_error {ε α β : Type} {f : β → α → Except ε β} {l : List α} {b : β} {e : ε}
    (h : l.foldlM f b = .error e) : ∃ a ∈ l, ∃ b, f b a = .error e := by
  induction l generalizing b with
  | nil => simp [pure, Except.pure] at h
  | cons a rest ih =>
      rw [List.foldlM_cons] at h
      rcases bind_eq_error.mp h with hstep | ⟨b', -, hrest⟩
      · exact ⟨a, by simp, b, hstep⟩
      · obtain ⟨a', ha', hfails⟩ := ih hrest
        exact ⟨a', by simp [ha'], hfails⟩

/-! ### Sessions -/

/-- What a flush will do to a row. -/
inductive Change (K : Type) (Row : K → Type) where
  | insert (r : Sigma Row)
  | update (r : Sigma Row)
  | delete (k : K)

structure OrmSession (K : Type) (Row : K → Type) where
  /-- The rows as the transaction sees them. -/
  store : Store K Row
  pending : List (Change K Row) := []

namespace OrmSession

variable (schema : Schema K Row U)

def add (x : OrmSession K Row) (r : Sigma Row) : OrmSession K Row :=
  { x with pending := x.pending ++ [.insert r] }

/-- The statement of one pending change. -/
def write (s : Store K Row) : Change K Row → Except Violation (Store K Row)
  | .insert r => schema.insert s r
  | .update r => schema.update s r
  | .delete k => schema.deleteKey s k

/-- The rows after the statements of everything pending. -/
def settle (x : OrmSession K Row) : Except Violation (Store K Row) :=
  x.pending.foldlM (write schema) x.store

def flush (x : OrmSession K Row) : Except Violation (OrmSession K Row) := do
  let store ← x.settle schema
  pure { store := store }

/-- Look the row up, and add it or change it. -/
def merge (x : OrmSession K Row) (r : Sigma Row) : Except Violation (OrmSession K Row) := do
  let x ← x.flush schema
  if (x.store.row r.1).isSome then pure { x with pending := [.update r] }
  else pure { x with pending := [.insert r] }

/-- Mark rows for deletion, in the order in which a flush deletes them. -/
def delete (x : OrmSession K Row) (keys : List K) : OrmSession K Row :=
  { x with pending := x.pending ++ keys.map .delete }

/-- Execute a `DELETE`. -/
def executeDelete (x : OrmSession K Row) (cond : (k : K) → Row k → Bool) :
    Except Violation (OrmSession K Row) := do
  let x ← x.flush schema
  let store ← schema.delete x.store cond
  pure { store := store }

/-- The rows the commit publishes. -/
def commit (x : OrmSession K Row) : Except Violation (Store K Row) := x.settle schema

variable {schema}

/-- A merge, settled, is a write on the settled rows. -/
theorem settle_merge (x : OrmSession K Row) (r : Sigma Row) :
    (do (← x.merge schema r).settle schema) = (do schema.write (← x.settle schema) r) := by
  unfold merge flush
  cases x.settle schema with
  | error e => rfl
  | ok s =>
      by_cases h : (s.row r.1).isSome = true
      · have hsettle : ({ store := s, pending := [.update r] } : OrmSession K Row).settle schema =
            schema.write s r := by
          simp only [settle, List.foldlM_cons, List.foldlM_nil, write, Schema.update, if_pos h,
            bind_pure]
        simpa only [bind, Except.bind, pure, Except.pure, if_pos h] using hsettle
      · have hsettle : ({ store := s, pending := [.insert r] } : OrmSession K Row).settle schema =
            schema.write s r := by
          simp only [settle, List.foldlM_cons, List.foldlM_nil, write, Schema.insert, if_neg h,
            bind_pure]
        simpa only [bind, Except.bind, pure, Except.pure, if_neg h] using hsettle

/-- And so is a deletion. -/
theorem settle_executeDelete (x : OrmSession K Row) (cond : (k : K) → Row k → Bool) :
    (do (← x.executeDelete schema cond).settle schema) =
      (do schema.delete (← x.settle schema) cond) := by
  unfold executeDelete flush
  cases x.settle schema with
  | error e => rfl
  | ok s =>
      simp only [bind, Except.bind, pure, Except.pure]
      cases schema.delete s cond <;> rfl

/-- What a session does, settled, is what a function of stores does. -/
def Settles (schema : Schema K Row U)
    (f : OrmSession K Row → Except Violation (OrmSession K Row))
    (g : Store K Row → Except Violation (Store K Row)) : Prop :=
  ∀ x, (do (← f x).settle schema) = (do g (← x.settle schema))

theorem Settles.merge (r : Sigma Row) :
    Settles schema (·.merge schema r) (schema.write · r) :=
  fun x => settle_merge x r

theorem Settles.executeDelete (cond : (k : K) → Row k → Bool) :
    Settles schema (·.executeDelete schema cond) (schema.delete · cond) :=
  fun x => settle_executeDelete x cond

theorem Settles.bind {f f' : OrmSession K Row → Except Violation (OrmSession K Row)}
    {g g' : Store K Row → Except Violation (Store K Row)} (h : Settles schema f g)
    (h' : Settles schema f' g') :
    Settles schema (fun x => do f' (← f x)) (fun s => do g' (← g s)) := by
  intro x
  rw [← bind_assoc, ← h x, bind_assoc, bind_assoc]
  exact congrArg _ (funext h')

theorem Settles.foldlM {α : Type} {l : List α}
    {f : OrmSession K Row → α → Except Violation (OrmSession K Row)}
    {g : Store K Row → α → Except Violation (Store K Row)}
    (h : ∀ a, Settles schema (f · a) (g · a)) :
    Settles schema (fun x => l.foldlM f x) (fun s => l.foldlM g s) := by
  induction l with
  | nil =>
      intro x
      simp only [List.foldlM_nil, pure_bind, bind_pure]
  | cons a rest ih =>
      simp only [List.foldlM_cons]
      exact (h a).bind ih

end OrmSession

/-! ### What the statements do -/

namespace Schema

variable {schema : Schema K Row U} {s : Store K Row}

/-- Every row refers to rows that are there, and unique values are. -/
structure Consistent (schema : Schema K Row U) (s : Store K Row) : Prop where
  resolved : ∀ k v, s.row k = some v → ∀ j ∈ schema.references k v, (s.row j).isSome = true
  unique : ∀ j k v w value, s.row j = some v → s.row k = some w →
    schema.unique j v = some value → schema.unique k w = some value → j = k

theorem taken_iff {k : K} {v : Row k} : schema.taken s k v = true ↔
    ∃ value, schema.unique k v = some value ∧
      ∃ j w, j ≠ k ∧ s.row j = some w ∧ schema.unique j w = some value := by
  unfold taken
  rw [Option.any_eq_true]
  constructor
  · intro ⟨value, hvalue, hmem⟩
    rw [List.contains_iff_mem, Store.mem_scan] at hmem
    obtain ⟨j, w, hw, hj⟩ := hmem
    split at hj
    · simp at hj
    · exact ⟨value, hvalue, j, w, ‹_›, hw, hj⟩
  · intro ⟨value, hvalue, j, w, hne, hw, hj⟩
    refine ⟨value, hvalue, ?_⟩
    rw [List.contains_iff_mem, Store.mem_scan]
    exact ⟨j, w, hw, by rw [if_neg hne]; exact hj⟩

omit [DecidableEq K] [DecidableEq U] in
theorem resolved_iff {k : K} {v : Row k} : schema.resolved s k v = true ↔
    ∀ j ∈ schema.references k v, (s.row j).isSome = true := by
  unfold resolved
  rw [List.all_eq_true]

/-- A row can be written when it fits, its unique value is free, and what it refers to is there. -/
structure Writable (schema : Schema K Row U) (s : Store K Row) (k : K) (v : Row k) : Prop where
  fits : schema.fits k v = true
  free : ∀ value, schema.unique k v = some value → ∀ j w, j ≠ k → s.row j = some w →
    schema.unique j w ≠ some value
  resolved : ∀ j ∈ schema.references k v, j = k ∨ (s.row j).isSome = true

theorem write_ok {k : K} {v : Row k} (h : schema.Writable s k v) :
    schema.write s ⟨k, v⟩ = .ok (s.put k v) := by
  have hfree : schema.taken s k v ≠ true := by
    intro htaken
    obtain ⟨value, hvalue, j, w, hne, hw, hj⟩ := taken_iff.mp htaken
    exact h.free value hvalue j w hne hw hj
  have hresolved : schema.resolved (s.put k v) k v = true :=
    resolved_iff.mpr fun j hj => (Store.put_isSome s k j v).mpr (h.resolved j hj)
  unfold write
  simp only [h.fits, hfree, hresolved, Bool.true_eq_false, if_false, Bool.false_eq_true]

theorem writable_of_ok {k : K} {v : Row k} {s' : Store K Row}
    (h : schema.write s ⟨k, v⟩ = .ok s') : schema.Writable s k v ∧ s' = s.put k v := by
  unfold write at h
  split at h
  · simp at h
  rename_i hfits
  split at h
  · simp at h
  rename_i hfree
  split at h
  · simp at h
  rename_i hresolved
  rw [Except.ok.injEq] at h
  refine ⟨⟨by simpa using hfits, ?_, ?_⟩, h.symm⟩
  · intro value hvalue j w hne hw hj
    exact hfree (taken_iff.mpr ⟨value, hvalue, j, w, hne, hw, hj⟩)
  · intro j hj
    rw [Bool.not_eq_false] at hresolved
    exact (Store.put_isSome s k j v).mp (resolved_iff.mp hresolved j hj)

omit [DecidableEq U] in
/-- Writing keeps the constraints. -/
theorem Consistent.put (h : schema.Consistent s) {k : K} {v : Row k}
    (hw : schema.Writable s k v) : schema.Consistent (s.put k v) where
  resolved := by
    intro i u hi j hj
    rw [Store.put_isSome]
    by_cases hik : i = k
    · subst hik
      rw [Store.put_row_self, Option.some.injEq] at hi
      exact hw.resolved j (hi ▸ hj)
    · rw [Store.put_row_ne s v hik] at hi
      exact Or.inr (h.resolved i u hi j hj)
  unique := by
    intro i j u w value hi hj hu hw'
    by_cases hik : i = k
    · subst hik
      rw [Store.put_row_self, Option.some.injEq] at hi
      subst hi
      by_cases hji : j = i
      · exact hji.symm
      · rw [Store.put_row_ne s v hji] at hj
        exact absurd hw' (hw.free value hu j w hji hj)
    · rw [Store.put_row_ne s v hik] at hi
      by_cases hjk : j = k
      · subst hjk
        rw [Store.put_row_self, Option.some.injEq] at hj
        subst hj
        exact absurd hu (hw.free value hw' i u hik hi)
      · rw [Store.put_row_ne s v hjk] at hj
        exact h.unique i j u w value hi hj hu hw'

/-- A row that stays needs no row that goes. -/
structure Deletable (schema : Schema K Row U) (s : Store K Row)
    (cond : (k : K) → Row k → Bool) : Prop where
  unpinned : ∀ k v, s.row k = some v → cond k v = true → schema.pinned k = false
  unreferred : ∀ k v, s.row k = some v → cond k v = false → schema.cascades k = false →
    ∀ j ∈ schema.references k v, ∀ w, s.row j = some w → cond j w = false

omit [DecidableEq K] [DecidableEq U] in
/-- The rows after a deletion and its cascade. -/
theorem cascade_row (schema : Schema K Row U) (s : Store K Row) (cond : (k : K) → Row k → Bool)
    (k : K) : (schema.cascade (s.deleteWhere cond)).row k = (s.row k).filter fun v =>
      !cond k v && !(schema.cascades k && !schema.resolved (s.deleteWhere cond) k v) := by
  unfold cascade
  rw [Store.deleteWhere_row, Store.deleteWhere_row]
  cases s.row k with
  | none => rfl
  | some v => simp

omit [DecidableEq K] [DecidableEq U] in
/-- The rows a deletion leaves were there before. -/
theorem row_of_cascade {cond : (k : K) → Row k → Bool} {k : K} {v : Row k}
    (h : (schema.cascade (s.deleteWhere cond)).row k = some v) :
    s.row k = some v ∧ cond k v = false ∧
      (schema.cascades k = true → schema.resolved (s.deleteWhere cond) k v = true) := by
  rw [cascade_row, Option.filter_eq_some_iff] at h
  obtain ⟨hs, hv⟩ := h
  simp only [Bool.and_eq_true, Bool.not_eq_true', Bool.and_eq_false_imp, Bool.not_eq_false'] at hv
  exact ⟨hs, hv.1, hv.2⟩

omit [DecidableEq K] [DecidableEq U] in
theorem delete_cases {cond : (k : K) → Row k → Bool} {s' : Store K Row}
    (h : schema.delete s cond = .ok s') :
    schema.Deletable s cond ∧ s' = schema.cascade (s.deleteWhere cond) := by
  unfold delete at h
  split at h
  · simp at h
  rename_i hpinned
  split at h
  · simp at h
  rename_i hdangling
  rw [Except.ok.injEq] at h
  rw [not_not] at hpinned hdangling
  refine ⟨⟨?_, ?_⟩, h.symm⟩
  · intro k v hk hcond
    by_contra hp
    have hmem : k ∈ s.scan fun k v => if cond k v && schema.pinned k then some k else none :=
      Store.mem_scan.mpr ⟨k, v, hk, by simpa [hcond] using hp⟩
    rw [hpinned] at hmem
    simp at hmem
  · intro k v hk hcond hkeep j hj w hw
    by_contra hcw
    -- The row stays, and a row it refers to does not.
    have hrow : (schema.cascade (s.deleteWhere cond)).row k = some v := by
      rw [cascade_row, hk]
      simp [hcond, hkeep]
    have hgone : (schema.cascade (s.deleteWhere cond)).row j = none := by
      rw [cascade_row, hw]
      simp [hcw]
    have hmem : k ∈ schema.dangling (schema.cascade (s.deleteWhere cond)) := by
      refine Store.mem_scan.mpr ⟨k, v, hrow, ?_⟩
      rw [if_neg]
      intro hres
      have := resolved_iff.mp hres j hj
      rw [hgone] at this
      simp at this
    rw [hdangling] at hmem
    simp at hmem

omit [DecidableEq K] [DecidableEq U] in
theorem delete_ok {cond : (k : K) → Row k → Bool}
    (hshallow : ∀ k v j, j ∈ schema.references k v → schema.cascades j = false)
    (hs : schema.Consistent s) (h : schema.Deletable s cond) :
    schema.delete s cond = .ok (schema.cascade (s.deleteWhere cond)) ∧
      schema.Consistent (schema.cascade (s.deleteWhere cond)) := by
  have hresolved : ∀ k v, (schema.cascade (s.deleteWhere cond)).row k = some v →
      ∀ j ∈ schema.references k v,
        ((schema.cascade (s.deleteWhere cond)).row j).isSome = true := by
    intro k v hk j hj
    obtain ⟨hrow, hcond, hcas⟩ := row_of_cascade hk
    obtain ⟨w, hw⟩ := Option.isSome_iff_exists.mp (hs.resolved k v hrow j hj)
    have hstays : cond j w = false := by
      cases hck : schema.cascades k with
      | false => exact h.unreferred k v hrow hcond hck j hj w hw
      | true =>
          have := resolved_iff.mp (hcas hck) j hj
          rw [Store.deleteWhere_row, hw] at this
          by_contra hc
          simp [hc] at this
    rw [cascade_row, hw]
    simp [hstays, hshallow k v j hj]
  refine ⟨?_, ⟨hresolved, ?_⟩⟩
  · unfold delete
    rw [if_neg, if_neg]
    · rw [not_not, List.eq_nil_iff_forall_not_mem]
      intro k hmem
      obtain ⟨k', v, hv, hd⟩ := Store.mem_scan.mp hmem
      rw [if_pos (resolved_iff.mpr (hresolved k' v hv))] at hd
      simp at hd
    · rw [not_not, List.eq_nil_iff_forall_not_mem]
      intro k hmem
      obtain ⟨k', v, hv, hd⟩ := Store.mem_scan.mp hmem
      split at hd
      · rename_i hc
        rw [Bool.and_eq_true] at hc
        rw [h.unpinned k' v hv hc.1] at hc
        simp at hc
      · simp at hd
  · intro j k v w value hj hk hu hw
    exact hs.unique j k v w value (row_of_cascade hj).1 (row_of_cascade hk).1 hu hw

omit [DecidableEq K] [DecidableEq U] in
/-- Without a row that cascades, a deletion takes the rows it selects and no others. -/
theorem cascade_row_of_kept (hs : schema.Consistent s) {cond : (k : K) → Row k → Bool}
    (hkept : ∀ k v, s.row k = some v → schema.cascades k = true →
      ∀ j ∈ schema.references k v, ∀ w, s.row j = some w → cond j w = false) (k : K) :
    (schema.cascade (s.deleteWhere cond)).row k = (s.row k).filter fun v => !cond k v := by
  rw [cascade_row]
  cases hk : s.row k with
  | none => rfl
  | some v =>
      have hresolved : schema.cascades k = true →
          schema.resolved (s.deleteWhere cond) k v = true := by
        intro hcas
        refine resolved_iff.mpr fun j hj => ?_
        rw [Store.deleteWhere_row_keep (hkept k v hk hcas j hj)]
        exact hs.resolved k v hk j hj
      cases hcas : schema.cascades k with
      | false => simp
      | true => simp [Option.filter_some, hresolved hcas]

/-! ### Several rows -/

/-- Rows that refer to rows already there, and claim nothing under a unique constraint. -/
theorem writeEach_ok {rows : List (Sigma Row)} (hs : schema.Consistent s)
    (hfits : ∀ r ∈ rows, schema.fits r.1 r.2 = true)
    (hunique : ∀ r ∈ rows, schema.unique r.1 r.2 = none)
    (hresolved : ∀ r ∈ rows, ∀ j ∈ schema.references r.1 r.2, (s.row j).isSome = true) :
    ∃ s', rows.foldlM schema.write s = .ok s' := by
  induction rows generalizing s with
  | nil => exact ⟨s, rfl⟩
  | cons r rest ih =>
      have hw : schema.Writable s r.1 r.2 := by
        refine ⟨hfits r (by simp), ?_, fun j hj => Or.inr (hresolved r (by simp) j hj)⟩
        intro value hvalue
        rw [hunique r (by simp)] at hvalue
        simp at hvalue
      rw [List.foldlM_cons, show schema.write s r = .ok (s.put r.1 r.2) from write_ok hw]
      refine ih (hs.put hw) (fun q hq => hfits q (by simp [hq]))
        (fun q hq => hunique q (by simp [hq])) fun q hq j hj => ?_
      exact (Store.put_isSome s r.1 j r.2).mpr (Or.inr (hresolved q (by simp [hq]) j hj))

/-- What a sequence of writes leaves, and what it needed. -/
theorem writeEach_cases {rows : List (Sigma Row)} {s' : Store K Row} (hs : schema.Consistent s)
    (hnd : rows.NodupKeys) (h : rows.foldlM schema.write s = .ok s') :
    schema.Consistent s' ∧ (∀ k, s'.row k = (rows.dlookup k).or (s.row k)) ∧
      ∀ r ∈ rows, ∀ j ∈ schema.references r.1 r.2, j ∈ rows.keys ∨ (s.row j).isSome = true := by
  induction rows generalizing s with
  | nil =>
      obtain rfl : s = s' := by simpa [pure, Except.pure] using h
      exact ⟨hs, by simp, by simp⟩
  | cons r rest ih =>
      obtain ⟨k₀, v₀⟩ := r
      rw [List.foldlM_cons] at h
      cases hstep : schema.write s ⟨k₀, v₀⟩ with
      | error e => rw [hstep] at h; simp [bind, Except.bind] at h
      | ok s₁ =>
          rw [hstep] at h
          obtain ⟨hw, rfl⟩ := writable_of_ok hstep
          obtain ⟨hnot, hrest⟩ := List.nodupKeys_cons.mp hnd
          obtain ⟨hc, hrow, hneeded⟩ := ih (hs.put hw) hrest h
          refine ⟨hc, ?_, ?_⟩
          · intro k
            rw [hrow k]
            by_cases hk : k = k₀
            · subst hk
              rw [List.dlookup_eq_none.mpr hnot, List.dlookup_cons_eq, Store.put_row_self]
              rfl
            · rw [List.dlookup_cons_ne _ _ hk, Store.put_row_ne s v₀ hk]
          · intro q hq j hj
            rcases List.mem_cons.mp hq with rfl | hq
            · rcases hw.resolved j hj with rfl | hrow'
              · exact Or.inl (by simp)
              · exact Or.inr hrow'
            · rcases hneeded q hq j hj with hkey | hput
              · exact Or.inl (by simp [hkey])
              · rcases (Store.put_isSome s k₀ j v₀).mp hput with rfl | hrow'
                · exact Or.inl (by simp)
                · exact Or.inr hrow'

/-- New rows, each inserted once, are written. -/
theorem settle_inserts {rows : List (Sigma Row)} (hnd : rows.NodupKeys)
    (hnew : ∀ k ∈ rows.keys, s.row k = none) :
    ({ store := s, pending := rows.map .insert } : OrmSession K Row).settle schema =
      rows.foldlM schema.write s := by
  unfold OrmSession.settle
  rw [List.foldlM_map]
  induction rows generalizing s with
  | nil => rfl
  | cons r rest ih =>
      obtain ⟨hnot, hrest⟩ := List.nodupKeys_cons.mp hnd
      have hinsert : schema.insert s r = schema.write s r := by
        unfold insert
        rw [hnew r.1 (by simp)]
        rfl
      rw [List.foldlM_cons, List.foldlM_cons, show OrmSession.write schema s (.insert r) = _ from
        hinsert]
      cases hwrite : schema.write s r with
      | error e => rfl
      | ok s₁ =>
          obtain ⟨-, rfl⟩ := writable_of_ok hwrite
          refine ih hrest fun k hk => ?_
          have hne : k ≠ r.1 := fun heq => hnot (heq ▸ hk)
          exact (Store.put_row_ne s r.2 hne).trans (hnew k (by simp [hk]))

/-! ### Deletion by key -/

omit [DecidableEq U] in
theorem deletable_key_iff (hs : schema.Consistent s) {k : K} :
    schema.Deletable s (fun j _ => j = k) ↔
      ((s.row k).isSome = true → schema.pinned k = false) ∧
        ∀ j v, s.row j = some v → j ≠ k → schema.cascades j = false →
          k ∉ schema.references j v := by
  constructor
  · intro h
    refine ⟨?_, ?_⟩
    · intro hk
      obtain ⟨v, hv⟩ := Option.isSome_iff_exists.mp hk
      exact h.unpinned k v hv (by simp)
    · intro j v hj hne hcas href
      obtain ⟨w, hw⟩ := Option.isSome_iff_exists.mp (hs.resolved j v hj k href)
      have := h.unreferred j v hj (by simpa using hne) hcas k href w hw
      simp at this
  · intro ⟨hunpinned, hunreferred⟩
    refine ⟨?_, ?_⟩
    · intro j v hj hcond
      obtain rfl : j = k := by simpa using hcond
      exact hunpinned (by rw [hj]; rfl)
    · intro j v hj hcond hcas i hi w hw
      by_contra hik
      obtain rfl : i = k := by simpa using hik
      exact hunreferred j v hj (by simpa using hcond) hcas hi

omit [DecidableEq U] in
/-- The rows after one row and what cascades from it are gone. -/
theorem deleteKey_row (hs : schema.Consistent s) {k : K} {s' : Store K Row}
    (h : schema.deleteKey s k = .ok s') (j : K) :
    s'.row j = (s.row j).filter fun v =>
      j ≠ k ∧ ¬ (schema.cascades j = true ∧ k ∈ schema.references j v) := by
  obtain ⟨-, rfl⟩ := delete_cases h
  rw [cascade_row]
  cases hj : s.row j with
  | none => rfl
  | some v =>
      have hresolved : schema.resolved (s.deleteWhere fun j _ => j = k) j v = true ↔
          k ∉ schema.references j v := by
        rw [resolved_iff]
        constructor
        · intro hall hmem
          have := hall k hmem
          rw [Store.deleteWhere_row_drop (by simp)] at this
          simp at this
        · intro hnot i hi
          have hik : i ≠ k := fun heq => hnot (heq ▸ hi)
          rw [Store.deleteWhere_row_keep (by simp [hik])]
          exact hs.resolved j v hj i hi
      rw [Option.filter_some, Option.filter_some]
      refine if_congr ?_ rfl rfl
      simp only [Bool.and_eq_true, Bool.not_eq_true', decide_eq_false_iff_not, decide_eq_true_eq,
        Bool.and_eq_false_imp, Bool.not_eq_false', hresolved, not_and, ne_eq]

omit [DecidableEq U] in
/-- Rows are deleted one after the other, when whatever refers to one is gone before it or
cascades. -/
theorem deleteEach_ok {keys : List K}
    (hshallow : ∀ k v j, j ∈ schema.references k v → schema.cascades j = false)
    (hs : schema.Consistent s) (hunpinned : ∀ k ∈ keys, schema.pinned k = false)
    (horder : ∀ a k b, keys = a ++ k :: b → ∀ j v, s.row j = some v → j ≠ k →
      schema.cascades j = false → k ∈ schema.references j v → j ∈ a) :
    ∃ s', keys.foldlM schema.deleteKey s = .ok s' := by
  induction keys generalizing s with
  | nil => exact ⟨s, rfl⟩
  | cons k rest ih =>
      have hdeletable : schema.Deletable s (fun j _ => j = k) := by
        refine (deletable_key_iff hs).mpr ⟨fun _ => hunpinned k (by simp), ?_⟩
        intro j v hj hne hcas href
        simpa using horder [] k rest rfl j v hj hne hcas href
      obtain ⟨hok, hs₁⟩ := delete_ok hshallow hs hdeletable
      have hrow := deleteKey_row hs hok
      have horder₁ : ∀ a i b, rest = a ++ i :: b → ∀ j v,
          (schema.cascade (s.deleteWhere fun j _ => j = k)).row j = some v → j ≠ i →
          schema.cascades j = false → i ∈ schema.references j v → j ∈ a := by
        intro a i b hsplit j v hj hne hcas href
        rw [hrow] at hj
        obtain ⟨hj, hkept⟩ := Option.filter_eq_some_iff.mp hj
        have hjk : j ≠ k := by
          simp only [decide_eq_true_eq] at hkept
          exact hkept.1
        have := horder (k :: a) i b (by rw [hsplit]; rfl) j v hj hne hcas href
        simpa [hjk] using this
      obtain ⟨s', hs'⟩ := ih hs₁ (fun i hi => hunpinned i (by simp [hi])) horder₁
      refine ⟨s', ?_⟩
      rw [List.foldlM_cons]
      exact bind_eq_ok.mpr ⟨_, hok, hs'⟩

omit [DecidableEq U] in
/-- What it needed, and what is left. -/
theorem deleteEach_cases {keys : List K} {s' : Store K Row}
    (hshallow : ∀ k v j, j ∈ schema.references k v → schema.cascades j = false)
    (hkeys : ∀ k ∈ keys, schema.cascades k = false)
    (hs : schema.Consistent s) (h : keys.foldlM schema.deleteKey s = .ok s') :
    (∀ k ∈ keys, (s.row k).isSome = true → schema.pinned k = false) ∧
      (∀ k ∈ keys, ∀ j v, s.row j = some v → schema.cascades j = false →
        k ∈ schema.references j v → j ∈ keys) ∧
      ∀ j, s'.row j = (s.row j).filter fun v =>
        j ∉ keys ∧ ¬ (schema.cascades j = true ∧ ∃ k ∈ keys, k ∈ schema.references j v) := by
  induction keys generalizing s with
  | nil =>
      obtain rfl : s = s' := by simpa [pure, Except.pure] using h
      refine ⟨by simp, by simp, fun j => ?_⟩
      cases s.row j <;> simp [Option.filter_some]
  | cons k rest ih =>
      rw [List.foldlM_cons] at h
      obtain ⟨s₁, hstep, h⟩ := bind_eq_ok.mp h
      have hdeletable := (delete_cases hstep).1
      have hs₁ : schema.Consistent s₁ := by
        obtain ⟨-, rfl⟩ := delete_cases hstep
        exact (delete_ok hshallow hs hdeletable).2
      have hrow := deleteKey_row hs hstep
      have hkept : ∀ j v, s.row j = some v → j ≠ k → schema.cascades j = false →
          s₁.row j = some v := by
        intro j v hj hne hcas
        rw [hrow, hj, Option.filter_some]
        simp [hne, hcas]
      obtain ⟨hunpinned, hunreferred⟩ := (deletable_key_iff hs).mp hdeletable
      obtain ⟨hpinned, hneeded, hrow'⟩ := ih (fun i hi => hkeys i (by simp [hi])) hs₁ h
      refine ⟨?_, ?_, ?_⟩
      · intro i hi hsome
        by_cases hik : i = k
        · exact hik ▸ hunpinned (hik ▸ hsome)
        · have hi' : i ∈ rest := by simpa [hik] using hi
          obtain ⟨v, hv⟩ := Option.isSome_iff_exists.mp hsome
          exact hpinned i hi' (by rw [hkept i v hv hik (hkeys i hi)]; rfl)
      · intro i hi j v hj hcas href
        by_cases hjk : j = k
        · exact hjk ▸ List.mem_cons_self
        · have hik : i ≠ k := fun heq => hunreferred j v hj hjk hcas (heq ▸ href)
          have hi' : i ∈ rest := by simpa [hik] using hi
          exact List.mem_cons_of_mem _ (hneeded i hi' j v (hkept j v hj hjk hcas) hcas href)
      · intro j
        rw [hrow', hrow]
        cases s.row j with
        | none => rfl
        | some v =>
            rw [Option.filter_some, Option.filter_some]
            by_cases hjk : j = k
            · simp [hjk]
            · by_cases href : k ∈ schema.references j v
              · cases schema.cascades j <;> simp [hjk, href, Option.filter_some]
              · simp [hjk, href, Option.filter_some]

omit [DecidableEq U] in
theorem Consistent.deleteEach {keys : List K} {s' : Store K Row}
    (hshallow : ∀ k v j, j ∈ schema.references k v → schema.cascades j = false)
    (hs : schema.Consistent s) (h : keys.foldlM schema.deleteKey s = .ok s') :
    schema.Consistent s' := by
  induction keys generalizing s with
  | nil =>
      obtain rfl : s = s' := by simpa [pure, Except.pure] using h
      exact hs
  | cons k rest ih =>
      rw [List.foldlM_cons] at h
      obtain ⟨s₁, hstep, h⟩ := bind_eq_ok.mp h
      obtain ⟨hdeletable, rfl⟩ := delete_cases hstep
      exact ih (delete_ok hshallow hs hdeletable).2 h

/-! ### Values out of range -/

/-- What has been written fits its columns. -/
theorem fits_of_writeEach {rows : List (Sigma Row)} {s' : Store K Row}
    (h : rows.foldlM schema.write s = .ok s') : ∀ r ∈ rows, schema.fits r.1 r.2 = true := by
  induction rows generalizing s with
  | nil => simp
  | cons r rest ih =>
      rw [List.foldlM_cons] at h
      obtain ⟨s₁, hwrite, h⟩ := bind_eq_ok.mp h
      exact List.forall_mem_cons.mpr ⟨(writable_of_ok hwrite).1.fits, ih h⟩

/-- Only a row that does not fit its columns is refused for its values. -/
theorem fits_of_write_data {r : Sigma Row} (h : schema.write s r = .error .data) :
    schema.fits r.1 r.2 = false := by
  unfold write at h
  split at h
  · assumption
  split at h
  · simp at h
  split at h
  · simp at h
  · simp at h

omit [DecidableEq K] [DecidableEq U] in
theorem delete_not_data {cond : (k : K) → Row k → Bool} :
    schema.delete s cond ≠ .error .data := by
  unfold delete
  split
  · simp
  split
  · simp
  · simp

theorem fits_of_insert_data {r : Sigma Row} (h : schema.insert s r = .error .data) :
    schema.fits r.1 r.2 = false := by
  unfold insert at h
  split at h
  · simp at h
  · exact fits_of_write_data h

/-- A flush of new rows is refused for a value only if one of them does not fit. -/
theorem exists_of_settle_data {rows : List (Sigma Row)}
    (h : ({ store := s, pending := rows.map .insert } : OrmSession K Row).settle schema =
      .error .data) : ∃ r ∈ rows, schema.fits r.1 r.2 = false := by
  obtain ⟨change, hchange, s', hwrite⟩ := exists_of_foldlM_error h
  obtain ⟨r, hr, rfl⟩ := List.mem_map.mp hchange
  exact ⟨r, hr, fits_of_insert_data hwrite⟩

end Schema

end Sql
