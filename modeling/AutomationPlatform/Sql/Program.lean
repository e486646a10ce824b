/-
The body of a transaction, one SQL statement after another.

A program is a tree: a statement, and for everything the statement can return the
program that follows.  Three statements are enough here.

  * `query` reads.  What follows depends on what the statement sees.
  * `updateRow` is an `UPDATE` of the one row its `WHERE` clause names by primary
    key, with the further conditions the clause puts on it and an uncorrelated
    subquery over the whole database.  It returns the new row, if there was one.
  * `updateRows` is an `UPDATE` of every row that meets a condition.

`raise` is an exception that leaves the unit of work: nothing of what was written
may be published.

`run` executes a program alone on a fixed committed store.  How statements of
several programs interleave is `Sql/ReadCommitted.lean`.
-/
import AutomationPlatform.Sql.Store

namespace Sql

/-- `UPDATE ... WHERE key = .. AND cond AND subquery`, for one primary key. -/
structure RowUpdate (K : Type) (Row : K → Type) where
  key : K
  subquery : Store K Row → Bool
  cond : Row key → Bool
  set : Row key → Row key

/-- `UPDATE ... WHERE cond`, over all rows. -/
structure BulkUpdate (K : Type) (Row : K → Type) where
  cond : (k : K) → Row k → Bool
  set : (k : K) → Row k → Row k

/-- The row the `WHERE` clause selects in what the statement sees. -/
def RowUpdate.matched {K : Type} {Row : K → Type} (u : RowUpdate K Row) (s : Store K Row) :
    Option (Row u.key) :=
  if u.subquery s then (s.row u.key).filter u.cond else none

/-- The row the `WHERE` clause selects under one key. -/
def BulkUpdate.matched {K : Type} {Row : K → Type} (u : BulkUpdate K Row) (s : Store K Row)
    (k : K) : Option (Row k) :=
  (s.row k).filter (u.cond k)

/-- The writes after the statement, from the writes before it and what it sees. -/
def BulkUpdate.apply {K : Type} {Row : K → Type} (u : BulkUpdate K Row) (s : Store K Row)
    (w : Writes K Row) : Writes K Row :=
  fun k => match u.matched s k with
    | some v => some (u.set k v)
    | none => w k

/-- A transaction body that returns an `α`. -/
inductive Program (K : Type) (Row : K → Type) (α : Type) : Type where
  | done (a : α)
  | raise (error : String)
  | query (next : Store K Row → Program K Row α)
  | updateRow (u : RowUpdate K Row) (next : Option (Row u.key) → Program K Row α)
  | updateRows (u : BulkUpdate K Row) (next : Program K Row α)

namespace Program

variable {K : Type} {Row : K → Type} {α β : Type}

/-- One body after another. -/
def bind (p : Program K Row α) (f : α → Program K Row β) : Program K Row β :=
  match p with
  | .done a => f a
  | .raise error => .raise error
  | .query next => .query fun s => (next s).bind f
  | .updateRow u next => .updateRow u fun r => (next r).bind f
  | .updateRows u next => .updateRows u (next.bind f)

instance : Monad (Program K Row) where
  pure := .done
  bind := .bind

/-- Nothing is left to do. -/
def Finished : Program K Row α → Prop
  | .done _ => True
  | .raise _ => True
  | _ => False

/-- A single `SELECT`. -/
def select (f : Store K Row → α) : Program K Row α := .query fun s => .done (f s)

/-- A single `UPDATE` of one row, `RETURNING` it. -/
def update (u : RowUpdate K Row) : Program K Row (Option (Row u.key)) := .updateRow u .done

/-- A single `UPDATE` of all rows that match. -/
def updateAll (u : BulkUpdate K Row) : Program K Row Unit := .updateRows u (.done ())

theorem finished_done (a : α) : (Program.done a : Program K Row α).Finished := trivial

theorem finished_raise (e : String) : (Program.raise e : Program K Row α).Finished := trivial

@[simp] theorem pure_eq (a : α) : (pure a : Program K Row α) = .done a := rfl

@[simp] theorem bind_eq (p : Program K Row α) (f : α → Program K Row β) :
    p >>= f = p.bind f := rfl

@[simp] theorem done_bind (a : α) (f : α → Program K Row β) :
    (Program.done a).bind f = f a := rfl

@[simp] theorem raise_bind (e : String) (f : α → Program K Row β) :
    (Program.raise e : Program K Row α).bind f = .raise e := rfl

@[simp] theorem query_bind (next : Store K Row → Program K Row α) (f : α → Program K Row β) :
    (Program.query next).bind f = .query fun s => (next s).bind f := rfl

@[simp] theorem updateRow_bind (u : RowUpdate K Row)
    (next : Option (Row u.key) → Program K Row α) (f : α → Program K Row β) :
    (Program.updateRow u next).bind f = .updateRow u fun r => (next r).bind f := rfl

@[simp] theorem updateRows_bind (u : BulkUpdate K Row) (next : Program K Row α)
    (f : α → Program K Row β) :
    (Program.updateRows u next).bind f = .updateRows u (next.bind f) := rfl

theorem bind_assoc {γ : Type} (p : Program K Row α) (f : α → Program K Row β)
    (g : β → Program K Row γ) : (p.bind f).bind g = p.bind fun a => (f a).bind g := by
  induction p with
  | done a => rfl
  | raise e => rfl
  | query next ih => simp only [query_bind, ih]
  | updateRow u next ih => simp only [updateRow_bind, ih]
  | updateRows u next ih => simp only [updateRows_bind, ih]

/-- What a body returns that only reads, when its statements see these stores one after another. -/
def reads : Program K Row α → List (Store K Row) → Option (Except String α)
  | .done a, _ => some (.ok a)
  | .raise error, _ => some (.error error)
  | .query next, s :: rest => (next s).reads rest
  | _, _ => none

/-! ### Running alone -/

variable [DecidableEq K]

/-- The result and the writes of a body that runs alone on the committed store `s`. -/
def run (s : Store K Row) : Program K Row α → Writes K Row → Except String (α × Writes K Row)
  | .done a, w => .ok (a, w)
  | .raise error, _ => .error error
  | .query next, w => (next (s.overlay w)).run s w
  | .updateRow u next, w =>
      match u.matched (s.overlay w) with
      | some v => (next (some (u.set v))).run s (w.set u.key (u.set v))
      | none => (next none).run s w
  | .updateRows u next, w => next.run s (u.apply (s.overlay w) w)

/-- A unit of work around a body: its writes are published, or an exception rolls them back. -/
def exec (p : Program K Row α) (s : Store K Row) : Store K Row × Except String α :=
  match p.run s Writes.empty with
  | .ok (a, w) => (s.overlay w, .ok a)
  | .error e => (s, .error e)

/-- No statement of the body is followed by an exception. -/
def NeverRaises : Program K Row α → Prop
  | .done _ => True
  | .raise _ => False
  | .query next => ∀ s, (next s).NeverRaises
  | .updateRow _ next => ∀ r, (next r).NeverRaises
  | .updateRows _ next => next.NeverRaises

omit [DecidableEq K] in
theorem NeverRaises.bind {f : α → Program K Row β} (hf : ∀ a, (f a).NeverRaises) :
    ∀ {p : Program K Row α}, p.NeverRaises → (p.bind f).NeverRaises := by
  intro p
  induction p with
  | done a => intro _; exact hf a
  | raise e => intro h; exact h.elim
  | query next ih => intro h s; exact ih s (h s)
  | updateRow u next ih => intro h r; exact ih r (h r)
  | updateRows u next ih => intro h; exact ih h

/-- A body that never raises has a result. -/
theorem NeverRaises.run_ok : ∀ {p : Program K Row α}, p.NeverRaises →
    ∀ (s : Store K Row) (w : Writes K Row), ∃ a w', p.run s w = .ok (a, w') := by
  intro p
  induction p with
  | done a => intro _ s w; exact ⟨a, w, rfl⟩
  | raise e => intro h; exact h.elim
  | query next ih => intro h s w; exact ih _ (h _) s w
  | updateRow u next ih =>
      intro h s w
      unfold run
      split
      · exact ih _ (h _) s _
      · exact ih _ (h _) s _
  | updateRows u next ih => intro h s w; exact ih h s _

/-! ### What every statement of a body satisfies -/

/-- Every single-row `UPDATE` of the body satisfies `P`, every bulk `UPDATE` satisfies `Q`. -/
def Forall (P : RowUpdate K Row → Prop) (Q : BulkUpdate K Row → Prop) :
    Program K Row α → Prop
  | .done _ => True
  | .raise _ => True
  | .query next => ∀ s, (next s).Forall P Q
  | .updateRow u next => P u ∧ ∀ r, (next r).Forall P Q
  | .updateRows u next => Q u ∧ next.Forall P Q

omit [DecidableEq K] in
theorem forall_bind {P : RowUpdate K Row → Prop} {Q : BulkUpdate K Row → Prop}
    {f : α → Program K Row β} (hf : ∀ a, (f a).Forall P Q) :
    ∀ {p : Program K Row α}, p.Forall P Q → (p.bind f).Forall P Q := by
  intro p
  induction p with
  | done a => intro _; exact hf a
  | raise e => intro _; trivial
  | query next ih => intro h s; exact ih s (h s)
  | updateRow u next ih => intro h; exact ⟨h.1, fun r => ih r (h.2 r)⟩
  | updateRows u next ih => intro h; exact ⟨h.1, ih h.2⟩

end Program

/-- Every `UPDATE` of the body takes a row only to a version that continues it. -/
def Program.Respects {K : Type} {Row : K → Type} {α : Type} (E : Evolution K Row)
    (p : Program K Row α) : Prop :=
  p.Forall (fun u => ∀ v, u.cond v = true → E.rel u.key v (u.set v))
    (fun u => ∀ k v, u.cond k v = true → E.rel k v (u.set k v))

section Matched

variable {K : Type} {Row : K → Type}

theorem RowUpdate.matched_some {u : RowUpdate K Row} {s : Store K Row} {v : Row u.key} :
    u.matched s = some v ↔
      u.subquery s = true ∧ s.row u.key = some v ∧ u.cond v = true := by
  unfold RowUpdate.matched
  by_cases hsub : u.subquery s = true
  · simp [hsub, Option.filter_eq_some_iff]
  · simp [hsub]

theorem BulkUpdate.matched_some {u : BulkUpdate K Row} {s : Store K Row} {k : K} {v : Row k} :
    u.matched s k = some v ↔ s.row k = some v ∧ u.cond k v = true := by
  simp [BulkUpdate.matched, Option.filter_eq_some_iff]

theorem BulkUpdate.apply_some {u : BulkUpdate K Row} {s : Store K Row} {w : Writes K Row}
    {k : K} {v : Row k} (h : u.matched s k = some v) : u.apply s w k = some (u.set k v) := by
  simp [BulkUpdate.apply, h]

theorem BulkUpdate.apply_none {u : BulkUpdate K Row} {s : Store K Row} {w : Writes K Row}
    {k : K} (h : u.matched s k = none) : u.apply s w k = w k := by
  simp [BulkUpdate.apply, h]

end Matched

end Sql
