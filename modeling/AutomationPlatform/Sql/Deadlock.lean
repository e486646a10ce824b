/-
Waiting for locks.

A transaction waits for another one when it has picked a row that the other has locked.
Transactions that wait for each other in a circle will wait for ever.  Where there is no
circle, somebody waits for nobody, and whoever waits for nobody can go on.

That there is no circle is best shown by a rank that every waiting transaction leaves
below that of the one it waits for: how far it has come in an order that all of them lock
their rows in.
-/
import AutomationPlatform.Graph.Order
import AutomationPlatform.Sql.ReadCommitted

namespace Sql

variable {K : Type} {Row : K → Type} {C α : Type}

/-- The `UPDATE` the transaction is in has picked the row, and has not processed it yet. -/
def Txn.Picks (x : Txn K Row C α) (k : K) : Prop :=
  match x.phase with
  | .ready _ => False
  | .waiting u _ => k = u.key
  | .sweeping _ todo _ => k ∈ todo

/-- Transaction `t` waits for a row that transaction `u` has locked. -/
def Db.Waits (db : Db K Row C α) (t u : Nat) : Prop :=
  u ≠ t ∧ ∃ x k, db.txns t = some x ∧ x.Picks k ∧ db.locks k = some u

section Proceeds

variable [DecidableEq K] {body : C → Program K Row α} {db : Db K Row C α}

/-- The transaction can take a step of its own, or an exception has ended it. -/
def Db.Proceeds (body : C → Program K Row α) (db : Db K Row C α) (t : Nat) : Prop :=
  (∃ x e, db.txns t = some x ∧ x.phase = .ready (.raise e)) ∨
    ∃ a, (a = .statement t ∨ (∃ k, a = .row t k) ∨ a = .commit t) ∧ (db.step body a).isSome = true

theorem isSome_step_row {t : Nat} {x x' : Txn K Row C α} {k : K} (hx : db.txns t = some x)
    (hlock : db.locks k = none ∨ db.locks k = some t) (hx' : x.process db.store k = some x') :
    (db.step body (.row t k)).isSome = true := by
  simp only [Db.step, hx, Option.bind_eq_bind, Option.bind_some, if_pos hlock, hx']
  rfl

theorem isSome_step_statement {t : Nat} {x x' : Txn K Row C α} (hx : db.txns t = some x)
    (hx' : x.issue (db.store.overlay x.writes) = some x') :
    (db.step body (.statement t)).isSome = true := by
  simp only [Db.step, hx, Option.bind_eq_bind, Option.bind_some, hx']
  rfl

/-- A picked row can be processed. -/
theorem exists_process {x : Txn K Row C α} {k : K} (h : x.Picks k) (s : Store K Row) :
    ∃ x', x.process s k = some x' := by
  unfold Txn.Picks at h
  unfold Txn.process
  split at h
  · exact h.elim
  · rename_i u next hp
    subst h
    rw [hp]
    dsimp only
    rw [if_pos rfl]
    split <;> exact ⟨_, rfl⟩
  · rename_i u todo next hp
    rw [hp]
    dsimp only
    rw [if_pos h]
    split <;> exact ⟨_, rfl⟩

/-- **Who waits for nobody can go on.** -/
theorem proceeds_of_not_waits {t : Nat} {x : Txn K Row C α} (hx : db.txns t = some x)
    (hfree : ∀ u, ¬ db.Waits t u) : db.Proceeds body t := by
  have hlock : ∀ k, x.Picks k → db.locks k = none ∨ db.locks k = some t := by
    intro k hk
    cases hl : db.locks k with
    | none => exact Or.inl rfl
    | some u =>
        refine Or.inr (congrArg some ?_)
        by_contra hne
        exact hfree u ⟨hne, x, k, hx, hk, hl⟩
  have hrow : ∀ k, x.Picks k → db.Proceeds body t := by
    intro k hk
    obtain ⟨x', hx'⟩ := exists_process hk db.store
    exact Or.inr ⟨_, Or.inr (Or.inl ⟨k, rfl⟩), isSome_step_row hx (hlock k hk) hx'⟩
  have hstatement : (x.issue (db.store.overlay x.writes)).isSome = true → db.Proceeds body t := by
    intro hsome
    obtain ⟨x', hx'⟩ := Option.isSome_iff_exists.mp hsome
    exact Or.inr ⟨_, Or.inl rfl, isSome_step_statement hx hx'⟩
  cases hp : x.phase with
  | ready p =>
      cases p with
      | done a =>
          refine Or.inr ⟨_, Or.inr (Or.inr rfl), ?_⟩
          simp [Db.step, hx, Txn.result, hp]
      | raise e => exact Or.inl ⟨x, e, hx, hp⟩
      | query next => exact hstatement (by simp [Txn.issue, hp])
      | updateRow u next =>
          cases hm : u.matched (db.store.overlay x.writes) with
          | none => exact hstatement (by simp [Txn.issue, hp, hm])
          | some v => exact hstatement (by simp [Txn.issue, hp, hm])
      | updateRows u next => exact hstatement (by simp [Txn.issue, hp])
  | waiting u next => exact hrow u.key (by simp [Txn.Picks, hp])
  | sweeping u todo next =>
      cases todo with
      | nil => exact hstatement (by simp [Txn.issue, hp])
      | cons k rest => exact hrow k (by simp [Txn.Picks, hp])

/-- Finitely many transactions are in flight. -/
theorem exists_inFlight {ok : Db K Row C α → Action K Row C → Prop} (h : Reachable body ok db) :
    ∃ S : Finset Nat, ∀ t, t ∈ S ↔ (db.txns t).isSome = true := by
  induction h with
  | init => exact ⟨∅, by simp [Db.init]⟩
  | @step db db' _ a _ hs ih =>
      obtain ⟨S, hS⟩ := ih
      -- Whatever the step does to one transaction, it does nothing to the others.
      have hupdate : ∀ t x, ∃ S : Finset Nat, ∀ u,
          u ∈ S ↔ (Function.update db.txns t x u).isSome = true := by
        intro t x
        refine ⟨if x.isSome then insert t S else S.erase t, fun u => ?_⟩
        by_cases hu : u = t
        · subst hu
          cases x <;> simp
        · rw [Function.update_of_ne hu, ← hS]
          cases x <;> simp [hu]
      cases a with
      | begin t call => obtain ⟨-, rfl⟩ := step_begin hs; exact hupdate t _
      | statement t => obtain ⟨_, _, -, -, rfl⟩ := step_statement hs; exact hupdate t _
      | row t k => obtain ⟨_, _, -, -, -, rfl⟩ := step_row hs; exact hupdate t _
      | commit t => obtain ⟨_, _, -, -, rfl⟩ := step_commit hs; exact hupdate t _
      | abort t => obtain ⟨_, -, rfl⟩ := step_abort hs; exact hupdate t _
      | insert rows => obtain ⟨_, -, rfl⟩ := step_insert hs; exact ⟨S, hS⟩

/-- **Without a circle somebody can go on.** -/
theorem exists_proceeds {ok : Db K Row C α → Action K Row C → Prop} (h : Reachable body ok db)
    (hheld : ∀ t k, db.txns t = none → db.locks k ≠ some t)
    (hacyclic : ∀ t, ¬ Relation.TransGen db.Waits t t) (hsome : ∃ t, (db.txns t).isSome = true) :
    ∃ t, (db.txns t).isSome = true ∧ db.Proceeds body t := by
  obtain ⟨S, hS⟩ := exists_inFlight h
  obtain ⟨t, ht⟩ := hsome
  obtain ⟨m, hm, hsource⟩ := Graph.exists_source hacyclic S ⟨t, (hS t).mpr ht⟩
  obtain ⟨x, hx⟩ := Option.isSome_iff_exists.mp ((hS m).mp hm)
  refine ⟨m, (hS m).mp hm, proceeds_of_not_waits hx fun u hu => ?_⟩
  -- A row is locked by a transaction in flight.
  have hin : u ∈ S := by
    obtain ⟨-, _, k, -, -, hl⟩ := hu
    rw [hS, ← Option.ne_none_iff_isSome]
    exact fun hnone => hheld u k hnone hl
  exact hsource u hin hu

end Proceeds

end Sql
