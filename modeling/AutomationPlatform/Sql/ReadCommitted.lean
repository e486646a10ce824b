/-
Transactions under READ COMMITTED.

The state is the committed store, the transactions in flight and the row locks.
A transaction keeps its writes to itself until it commits.  Every statement sees
the store as it is committed when the statement begins, with the transaction's own
writes over it.

An `UPDATE` takes two kinds of step.  When it is issued it picks its rows from what
it sees; an `UPDATE` that finds none is over, and has locked nothing.  A picked row
is then processed when no other transaction holds its lock: the condition is
evaluated again on the version that is committed by now, and the row is written and
locked if it still holds.  Locks are held until the transaction ends.

`step` is one step of the system under a label that says which transaction moves.
A transaction may be aborted at any time, as a deadlock victim or because its
client is gone, and then leaves nothing behind.  Rows are added by `insert`, the
commit of a transaction that only inserts.

The log is a ghost: what was committed, in commit order, with the committed store
around each commit.
-/
import AutomationPlatform.Sql.Lax

namespace Sql

/-- Where a transaction stands. -/
inductive Phase (K : Type) (Row : K → Type) (α : Type) where
  /-- Between two statements, or finished. -/
  | ready (p : Program K Row α)
  /-- An `UPDATE` of one row has picked its row and is after the row's lock. -/
  | waiting (u : RowUpdate K Row) (next : Option (Row u.key) → Program K Row α)
  /-- A bulk `UPDATE` still has these rows to process. -/
  | sweeping (u : BulkUpdate K Row) (todo : List K) (next : Program K Row α)

/-- A transaction in flight. -/
structure Txn (K : Type) (Row : K → Type) (C α : Type) where
  call : C
  /-- The committed store when the transaction began. -/
  base : Store K Row
  writes : Writes K Row
  /-- The rows named by the single-row `UPDATE`s issued so far, the last one first. -/
  issued : List K
  phase : Phase K Row α

/-- One commit. -/
inductive Event (K : Type) (Row : K → Type) (C α : Type) where
  | committed (call : C) (result : α) (base before after : Store K Row)
  | inserted (before after : Store K Row)

/-- The database and the transactions in flight on it. -/
structure Db (K : Type) (Row : K → Type) (C α : Type) where
  store : Store K Row
  txns : Nat → Option (Txn K Row C α)
  locks : K → Option Nat
  log : List (Event K Row C α)

/-- Which transaction takes which step. -/
inductive Action (K : Type) (Row : K → Type) (C : Type) where
  | begin (t : Nat) (call : C)
  | statement (t : Nat)
  | row (t : Nat) (k : K)
  | commit (t : Nat)
  | abort (t : Nat)
  | insert (rows : List (Sigma Row))

section Step

variable {K : Type} {Row : K → Type} {C α : Type}

/-- Issue the next statement, on what it sees; a bulk `UPDATE` with no row left ends. -/
def Txn.issue (x : Txn K Row C α) (view : Store K Row) : Option (Txn K Row C α) :=
  match x.phase with
  | .ready (.query next) => some { x with phase := .ready (next view) }
  | .ready (.updateRow u next) =>
      match u.matched view with
      | some _ => some { x with issued := u.key :: x.issued, phase := .waiting u next }
      | none => some { x with issued := u.key :: x.issued, phase := .ready (next none) }
  | .ready (.updateRows u next) =>
      some { x with
        phase := .sweeping u (view.keys.filter fun k => (u.matched view k).isSome) next }
  | .sweeping _ [] next => some { x with phase := .ready next }
  | _ => none

/-- What the body returned, once it is finished. -/
def Txn.result (x : Txn K Row C α) : Option α :=
  match x.phase with
  | .ready (.done a) => some a
  | _ => none

namespace Db

/-- A database with nothing in it. -/
def init : Db K Row C α where
  store := .empty
  txns := fun _ => none
  locks := fun _ => none
  log := []

/-- The locks without those of one transaction. -/
def unlock (locks : K → Option Nat) (t : Nat) : K → Option Nat :=
  fun k => if locks k = some t then none else locks k

def setTxn (db : Db K Row C α) (t : Nat) (x : Option (Txn K Row C α)) : Db K Row C α :=
  { db with txns := Function.update db.txns t x }

@[simp] theorem setTxn_store (db : Db K Row C α) (t : Nat) (x : Option (Txn K Row C α)) :
    (db.setTxn t x).store = db.store := rfl

@[simp] theorem setTxn_locks (db : Db K Row C α) (t : Nat) (x : Option (Txn K Row C α)) :
    (db.setTxn t x).locks = db.locks := rfl

@[simp] theorem setTxn_log (db : Db K Row C α) (t : Nat) (x : Option (Txn K Row C α)) :
    (db.setTxn t x).log = db.log := rfl

@[simp] theorem setTxn_self (db : Db K Row C α) (t : Nat) (x : Option (Txn K Row C α)) :
    (db.setTxn t x).txns t = x := by
  simp [setTxn]

theorem setTxn_ne (db : Db K Row C α) {t u : Nat} (x : Option (Txn K Row C α)) (h : u ≠ t) :
    (db.setTxn t x).txns u = db.txns u := by
  simp [setTxn, Function.update_of_ne h]

/-- A transaction in flight is the one that was set, or one that was left alone. -/
theorem setTxn_cases (db : Db K Row C α) {t u : Nat} {x : Option (Txn K Row C α)}
    {y : Txn K Row C α} (h : (db.setTxn t x).txns u = some y) :
    (u = t ∧ x = some y) ∨ (u ≠ t ∧ db.txns u = some y) := by
  by_cases hu : u = t
  · subst hu
    rw [setTxn_self] at h
    exact Or.inl ⟨rfl, h⟩
  · rw [setTxn_ne db x hu] at h
    exact Or.inr ⟨hu, h⟩

/-- A transaction that is in flight after the end of one is another. -/
theorem setTxn_none_cases (db : Db K Row C α) {t u : Nat} {y : Txn K Row C α}
    (h : (db.setTxn t none).txns u = some y) : u ≠ t ∧ db.txns u = some y := by
  rcases db.setTxn_cases h with ⟨-, hnone⟩ | hother
  · simp at hnone
  · exact hother

/-- A transaction that has just begun. -/
def started (body : C → Program K Row α) (db : Db K Row C α) (call : C) : Txn K Row C α where
  call := call
  base := db.store
  writes := .empty
  issued := []
  phase := .ready (body call)

end Db

variable [DecidableEq K]

/-- Process one picked row: its condition is evaluated again on the version now visible. -/
def Txn.process (x : Txn K Row C α) (s : Store K Row) (k : K) : Option (Txn K Row C α) :=
  match x.phase with
  | .waiting u next =>
      if k = u.key then
        match ((s.overlay x.writes).row u.key).filter u.cond with
        | some v => some { x with
            writes := x.writes.set u.key (u.set v)
            phase := .ready (next (some (u.set v))) }
        | none => some { x with phase := .ready (next none) }
      else none
  | .sweeping u todo next =>
      if k ∈ todo then
        match u.matched (s.overlay x.writes) k with
        | some v => some { x with
            writes := x.writes.set k (u.set k v)
            phase := .sweeping u (todo.filter (· ≠ k)) next }
        | none => some { x with phase := .sweeping u (todo.filter (· ≠ k)) next }
      else none
  | _ => none

namespace Db

/-- One step of the system; `none` when the step is not possible. -/
def step (body : C → Program K Row α) (db : Db K Row C α) :
    Action K Row C → Option (Db K Row C α)
  | .begin t call =>
      match db.txns t with
      | none => some (db.setTxn t (some (db.started body call)))
      | some _ => none
  | .statement t => do
      let x ← db.txns t
      let x' ← x.issue (db.store.overlay x.writes)
      some (db.setTxn t (some x'))
  | .row t k => do
      let x ← db.txns t
      if db.locks k = none ∨ db.locks k = some t then
        let x' ← x.process db.store k
        some { db.setTxn t (some x') with
          locks := if (x'.writes k).isSome then Function.update db.locks k (some t)
            else db.locks }
      else none
  | .commit t => do
      let x ← db.txns t
      let a ← x.result
      some
        { store := db.store.overlay x.writes
          txns := Function.update db.txns t none
          locks := unlock db.locks t
          log := db.log ++
            [.committed x.call a x.base db.store (db.store.overlay x.writes)] }
  | .abort t => do
      let _ ← db.txns t
      some { db.setTxn t none with locks := unlock db.locks t }
  | .insert rows => do
      let s ← db.store.insert? rows
      some { db with store := s, log := db.log ++ [.inserted db.store s] }

/-- Several steps in a row. -/
def steps (body : C → Program K Row α) (db : Db K Row C α) (acts : List (Action K Row C)) :
    Option (Db K Row C α) :=
  acts.foldlM (step body) db

end Db

/-- The states reached from an empty database by steps that `ok` admits. -/
inductive Reachable (body : C → Program K Row α) (ok : Db K Row C α → Action K Row C → Prop) :
    Db K Row C α → Prop
  | init : Reachable body ok Db.init
  | step {db db' : Db K Row C α} (h : Reachable body ok db) (a : Action K Row C)
      (ha : ok db a) (hs : db.step body a = some db') : Reachable body ok db'

theorem Reachable.mono {body : C → Program K Row α} {ok ok' : Db K Row C α → Action K Row C → Prop}
    (hok : ∀ db a, ok db a → ok' db a) {db : Db K Row C α} (h : Reachable body ok db) :
    Reachable body ok' db := by
  induction h with
  | init => exact .init
  | step _ a ha hs ih => exact .step ih a (hok _ a ha) hs

/-- A run of admitted steps stays among the reachable states. -/
theorem Reachable.steps {body : C → Program K Row α} {ok : Db K Row C α → Action K Row C → Prop} :
    ∀ {acts : List (Action K Row C)} {db db' : Db K Row C α}, Reachable body ok db →
      (∀ db a, a ∈ acts → ok db a) → db.steps body acts = some db' → Reachable body ok db' := by
  intro acts
  induction acts with
  | nil =>
      intro db db' h _ hs
      simp only [Db.steps, List.foldlM_nil, Option.pure_def, Option.some.injEq] at hs
      exact hs ▸ h
  | cons a rest ih =>
      intro db db' h hok hs
      simp only [Db.steps, List.foldlM_cons, Option.bind_eq_bind, Option.bind_eq_some_iff] at hs
      obtain ⟨db₁, h₁, hrest⟩ := hs
      exact ih (.step h a (hok db a (by simp)) h₁) (fun db b hb => hok db b (by simp [hb])) hrest

end Step

/-! ### What a step does, read back -/

section Cases

variable {K : Type} {Row : K → Type} {C α : Type} [DecidableEq K]
  {body : C → Program K Row α} {db db' : Db K Row C α}

omit [DecidableEq K] in
theorem Txn.phase_of_result {x : Txn K Row C α} {a : α} (h : x.result = some a) :
    x.phase = .ready (.done a) := by
  unfold Txn.result at h
  split at h
  · rename_i b hb
    rw [Option.some.injEq] at h
    rw [hb, h]
  · simp at h

theorem step_begin {t : Nat} {call : C} (h : db.step body (.begin t call) = some db') :
    db.txns t = none ∧ db' = db.setTxn t (some (db.started body call)) := by
  simp only [Db.step] at h
  cases hx : db.txns t with
  | none => rw [hx] at h; exact ⟨rfl, by simpa using h.symm⟩
  | some x => rw [hx] at h; simp at h

theorem step_statement {t : Nat} (h : db.step body (.statement t) = some db') :
    ∃ x x', db.txns t = some x ∧ x.issue (db.store.overlay x.writes) = some x' ∧
      db' = db.setTxn t (some x') := by
  simp only [Db.step, Option.bind_eq_bind, Option.bind_eq_some_iff, Option.some.injEq] at h
  obtain ⟨x, hx, x', hx', rfl⟩ := h
  exact ⟨x, x', hx, hx', rfl⟩

theorem step_row {t : Nat} {k : K} (h : db.step body (.row t k) = some db') :
    ∃ x x', db.txns t = some x ∧ (db.locks k = none ∨ db.locks k = some t) ∧
      x.process db.store k = some x' ∧
      db' = { db.setTxn t (some x') with
        locks := if (x'.writes k).isSome then Function.update db.locks k (some t)
          else db.locks } := by
  simp only [Db.step, Option.bind_eq_bind, Option.bind_eq_some_iff] at h
  obtain ⟨x, hx, h⟩ := h
  split at h
  · rename_i hfree
    simp only [Option.bind_eq_some_iff, Option.some.injEq] at h
    obtain ⟨x', hx', rfl⟩ := h
    exact ⟨x, x', hx, hfree, hx', rfl⟩
  · simp at h

theorem step_commit {t : Nat} (h : db.step body (.commit t) = some db') :
    ∃ x a, db.txns t = some x ∧ x.phase = .ready (.done a) ∧
      db' =
        { store := db.store.overlay x.writes
          txns := Function.update db.txns t none
          locks := Db.unlock db.locks t
          log := db.log ++
            [.committed x.call a x.base db.store (db.store.overlay x.writes)] } := by
  simp only [Db.step, Option.bind_eq_bind, Option.bind_eq_some_iff, Option.some.injEq] at h
  obtain ⟨x, hx, a, ha, rfl⟩ := h
  exact ⟨x, a, hx, x.phase_of_result ha, rfl⟩

/-- What the commit of a known transaction leaves. -/
theorem step_commit_of {t : Nat} {x : Txn K Row C α} {a : α} (hx : db.txns t = some x)
    (ha : x.result = some a) (h : db.step body (.commit t) = some db') :
    db' =
      { store := db.store.overlay x.writes
        txns := Function.update db.txns t none
        locks := Db.unlock db.locks t
        log := db.log ++
          [.committed x.call a x.base db.store (db.store.overlay x.writes)] } := by
  simp only [Db.step, hx, ha, Option.bind_eq_bind, Option.bind_some, Option.some.injEq] at h
  exact h.symm

theorem step_abort {t : Nat} (h : db.step body (.abort t) = some db') :
    ∃ x, db.txns t = some x ∧
      db' = { db.setTxn t none with locks := Db.unlock db.locks t } := by
  simp only [Db.step, Option.bind_eq_bind, Option.bind_eq_some_iff, Option.some.injEq] at h
  obtain ⟨x, hx, rfl⟩ := h
  exact ⟨x, hx, rfl⟩

theorem step_insert {rows : List (Sigma Row)} (h : db.step body (.insert rows) = some db') :
    ∃ s, db.store.insert? rows = some s ∧
      db' = { db with store := s, log := db.log ++ [.inserted db.store s] } := by
  simp only [Db.step, Option.bind_eq_bind, Option.bind_eq_some_iff, Option.some.injEq] at h
  obtain ⟨s, hs, rfl⟩ := h
  exact ⟨s, hs, rfl⟩

omit [DecidableEq K] in
/-- What issuing a statement can be. -/
theorem issue_cases {x x' : Txn K Row C α} {view : Store K Row} (h : x.issue view = some x') :
    (∃ next, x.phase = .ready (.query next) ∧ x' = { x with phase := .ready (next view) }) ∨
    (∃ u next v, x.phase = .ready (.updateRow u next) ∧ u.matched view = some v ∧
      x' = { x with issued := u.key :: x.issued, phase := .waiting u next }) ∨
    (∃ u next, x.phase = .ready (.updateRow u next) ∧ u.matched view = none ∧
      x' = { x with issued := u.key :: x.issued, phase := .ready (next none) }) ∨
    (∃ u next, x.phase = .ready (.updateRows u next) ∧
      x' = { x with
        phase := .sweeping u (view.keys.filter fun k => (u.matched view k).isSome) next }) ∨
    (∃ u next, x.phase = .sweeping u [] next ∧ x' = { x with phase := .ready next }) := by
  unfold Txn.issue at h
  split at h
  · rename_i next hp
    exact Or.inl ⟨next, hp, by simpa using h.symm⟩
  · rename_i u next hp
    split at h
    · rename_i v hv
      exact Or.inr (Or.inl ⟨u, next, v, hp, hv, by simpa using h.symm⟩)
    · rename_i hv
      exact Or.inr (Or.inr (Or.inl ⟨u, next, hp, hv, by simpa using h.symm⟩))
  · rename_i u next hp
    exact Or.inr (Or.inr (Or.inr (Or.inl ⟨u, next, hp, by simpa using h.symm⟩)))
  · rename_i u next hp
    exact Or.inr (Or.inr (Or.inr (Or.inr ⟨u, next, hp, by simpa using h.symm⟩)))
  · simp at h

/-- What processing a row can be. -/
theorem process_cases {x x' : Txn K Row C α} {s : Store K Row} {k : K}
    (h : x.process s k = some x') :
    (∃ u next v, x.phase = .waiting u next ∧ k = u.key ∧
      (s.overlay x.writes).row u.key = some v ∧ u.cond v = true ∧
      x' = { x with
        writes := x.writes.set u.key (u.set v), phase := .ready (next (some (u.set v))) }) ∨
    (∃ u next, x.phase = .waiting u next ∧ k = u.key ∧
      (∀ v, (s.overlay x.writes).row u.key = some v → u.cond v = false) ∧
      x' = { x with phase := .ready (next none) }) ∨
    (∃ u todo next v, x.phase = .sweeping u todo next ∧ k ∈ todo ∧
      u.matched (s.overlay x.writes) k = some v ∧
      x' = { x with
        writes := x.writes.set k (u.set k v)
        phase := .sweeping u (todo.filter (· ≠ k)) next }) ∨
    (∃ u todo next, x.phase = .sweeping u todo next ∧ k ∈ todo ∧
      u.matched (s.overlay x.writes) k = none ∧
      x' = { x with phase := .sweeping u (todo.filter (· ≠ k)) next }) := by
  unfold Txn.process at h
  split at h
  · rename_i u next hp
    split at h
    · rename_i hk
      split at h
      · rename_i v hv
        obtain ⟨hrow, hcond⟩ := Option.filter_eq_some_iff.mp hv
        exact Or.inl ⟨u, next, v, hp, hk, hrow, hcond, by simpa using h.symm⟩
      · rename_i hv
        refine Or.inr (Or.inl ⟨u, next, hp, hk, fun v hrow => ?_, by simpa using h.symm⟩)
        rw [hrow] at hv
        simpa using hv
    · simp at h
  · rename_i u todo next hp
    split at h
    · rename_i hk
      split at h
      · rename_i v hv
        exact Or.inr (Or.inr (Or.inl ⟨u, todo, next, v, hp, hk, hv, by simpa using h.symm⟩))
      · rename_i hv
        exact Or.inr (Or.inr (Or.inr ⟨u, todo, next, hp, hk, hv, by simpa using h.symm⟩))
    · simp at h
  · simp at h

/-- What a transaction keeps from its beginning to its end. -/
def Txn.begun (x : Txn K Row C α) : C × Store K Row := (x.call, x.base)

omit [DecidableEq K] in
theorem Txn.begun_issue {x x' : Txn K Row C α} {view : Store K Row}
    (h : x.issue view = some x') : x'.begun = x.begun := by
  rcases issue_cases h with ⟨_, -, rfl⟩ | ⟨_, _, _, -, -, rfl⟩ | ⟨_, _, -, -, rfl⟩ |
    ⟨_, _, -, rfl⟩ | ⟨_, _, -, rfl⟩ <;> rfl

theorem Txn.begun_process {x x' : Txn K Row C α} {s : Store K Row} {k : K}
    (h : x.process s k = some x') : x'.begun = x.begun := by
  rcases process_cases h with ⟨_, _, _, -, -, -, -, rfl⟩ | ⟨_, _, -, -, -, rfl⟩ |
    ⟨_, _, _, _, -, -, -, rfl⟩ | ⟨_, _, _, -, -, -, rfl⟩ <;> rfl

omit [DecidableEq K] in
/-- A transaction that moves on is the one that was there. -/
theorem begun_setTxn {t : Nat} {x x' : Txn K Row C α} (hx : db.txns t = some x)
    (h : x'.begun = x.begun) (u : Nat) :
    ((db.setTxn t (some x')).txns u).map Txn.begun = (db.txns u).map Txn.begun := by
  by_cases hu : u = t
  · subst hu
    rw [Db.setTxn_self, hx, Option.map_some, Option.map_some, h]
  · rw [Db.setTxn_ne db _ hu]

omit [DecidableEq K] in
/-- A transaction that is in flight after the end of one is one that was there. -/
theorem begun_setTxn_none {t u : Nat} {b : C × Store K Row}
    (h : ((db.setTxn t none).txns u).map Txn.begun = some b) :
    (db.txns u).map Txn.begun = some b := by
  obtain ⟨y, hy, hb⟩ := Option.map_eq_some_iff.mp h
  obtain ⟨-, hother⟩ := db.setTxn_none_cases hy
  exact Option.map_eq_some_iff.mpr ⟨y, hother, hb⟩

/-- A step begins no transaction but the one it says. -/
theorem txns_step_none {a : Action K Row C} {t : Nat} (ha : ∀ call, a ≠ .begin t call)
    (ht : db.txns t = none) (h : db.step body a = some db') : db'.txns t = none := by
  have hset : ∀ (u : Nat) (x y : Txn K Row C α), db.txns u = some x →
      (db.setTxn u (some y)).txns t = none := by
    intro u x y hx
    have hne : t ≠ u := fun htu => by rw [← htu, ht] at hx; simp at hx
    rw [Db.setTxn_ne db _ hne, ht]
  have hend : ∀ u : Nat, Function.update db.txns u none t = none := by
    intro u
    by_cases hu : t = u
    · subst hu; simp
    · rw [Function.update_of_ne hu, ht]
  cases a with
  | begin u call =>
      obtain ⟨-, rfl⟩ := step_begin h
      rw [Db.setTxn_ne db _ (fun hu => ha call (by rw [hu])), ht]
  | statement u =>
      obtain ⟨x, x', hx, -, rfl⟩ := step_statement h
      exact hset u x x' hx
  | row u k =>
      obtain ⟨x, x', hx, -, -, rfl⟩ := step_row h
      exact hset u x x' hx
  | commit u =>
      obtain ⟨x, a, -, -, rfl⟩ := step_commit h
      exact hend u
  | abort u =>
      obtain ⟨x, -, rfl⟩ := step_abort h
      exact hend u
  | insert rows =>
      obtain ⟨s, -, rfl⟩ := step_insert h
      exact ht

/-- A transaction that no step begins is not in flight after them. -/
theorem txns_steps_none {t : Nat} : ∀ {acts : List (Action K Row C)} {db : Db K Row C α},
    (∀ call, .begin t call ∉ acts) → db.txns t = none → db.steps body acts = some db' →
      db'.txns t = none := by
  intro acts
  induction acts with
  | nil =>
      intro db _ ht h
      simp only [Db.steps, List.foldlM_nil, Option.pure_def, Option.some.injEq] at h
      exact h ▸ ht
  | cons a rest ih =>
      intro db hacts ht h
      simp only [Db.steps, List.foldlM_cons, Option.bind_eq_bind, Option.bind_eq_some_iff] at h
      obtain ⟨db₁, h₁, hrest⟩ := h
      refine ih (fun call hc => hacts call (by simp [hc])) ?_ hrest
      exact txns_step_none (fun call hc => hacts call (by simp [hc])) ht h₁

end Cases

end Sql
