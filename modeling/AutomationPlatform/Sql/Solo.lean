/-
A transaction by itself.

`Program.exec` runs a body at once; the database takes it through one statement and one row
after another.  Where no other transaction holds a lock the two come to the same: some steps of
the transaction take it to its end, with the result and the writes of `exec`, and change nothing
else.

So what is shown of bodies that run alone can be used of the database.
-/
import AutomationPlatform.Sql.ReadCommitted
import Mathlib.Logic.Relation

namespace Sql

variable {K : Type} {Row : K → Type} {C α : Type} [DecidableEq K]

/-- A step that takes the body of a transaction further. -/
inductive Db.Turn (body : C → Program K Row α) (t : Nat) (db : Db K Row C α) :
    Db K Row C α → Prop
  | statement {db' : Db K Row C α} (h : db.step body (.statement t) = some db') :
      Turn body t db db'
  | row (k : K) {db' : Db K Row C α} (h : db.step body (.row t k) = some db') :
      Turn body t db db'

/-- Where a transaction stands, and that no other holds a lock. -/
structure Solo (t : Nat) (x : Txn K Row C α) (db : Db K Row C α) : Prop where
  txn : db.txns t = some x
  locks : ∀ k u, db.locks k = some u → u = t

/-- Some turns take the transaction there, and nothing else has changed. -/
structure Gets (body : C → Program K Row α) (t : Nat) (db : Db K Row C α) (x' : Txn K Row C α)
    (db' : Db K Row C α) : Prop where
  run : Relation.ReflTransGen (Db.Turn body t) db db'
  solo : Solo t x' db'
  store : db'.store = db.store
  log : db'.log = db.log
  others : ∀ u, u ≠ t → db'.txns u = db.txns u

section Turns

variable {body : C → Program K Row α} {t : Nat} {x x' x'' : Txn K Row C α}
  {db db' db'' : Db K Row C α}

theorem Gets.refl (h : Solo t x db) : Gets body t db x db :=
  ⟨.refl, h, rfl, rfl, fun _ _ => rfl⟩

theorem Gets.trans (h : Gets body t db x' db') (h' : Gets body t db' x'' db'') :
    Gets body t db x'' db'' where
  run := h.run.trans h'.run
  solo := h'.solo
  store := h'.store.trans h.store
  log := h'.log.trans h.log
  others := fun u hu => (h'.others u hu).trans (h.others u hu)

variable (body) in
theorem Solo.statement (h : Solo t x db) (hissue : x.issue (db.store.overlay x.writes) = some x') :
    ∃ db', Gets body t db x' db' := by
  refine ⟨db.setTxn t (some x'), .single (.statement ?_), ⟨db.setTxn_self t _, h.locks⟩, rfl, rfl,
    fun u hu => db.setTxn_ne _ hu⟩
  simp [Db.step, h.txn, hissue]

variable (body) in
theorem Solo.row (h : Solo t x db) {k : K} (hprocess : x.process db.store k = some x') :
    ∃ db', Gets body t db x' db' := by
  have hfree : db.locks k = none ∨ db.locks k = some t := by
    cases hk : db.locks k with
    | none => exact Or.inl rfl
    | some u => exact Or.inr (by rw [h.locks k u hk])
  have hstep : db.step body (.row t k) = some { db.setTxn t (some x') with
      locks := if (x'.writes k).isSome then Function.update db.locks k (some t)
        else db.locks } := by
    simp only [Db.step, h.txn, hfree, hprocess, Option.bind_eq_bind, Option.bind_some, if_true]
  refine ⟨_, .single (.row k hstep), ⟨db.setTxn_self t _, fun j u hj => ?_⟩, rfl, rfl,
    fun u hu => db.setTxn_ne _ hu⟩
  dsimp only at hj
  split at hj
  · by_cases hjk : j = k
    · rw [hjk, Function.update_self, Option.some.injEq] at hj
      exact hj.symm
    · rw [Function.update_of_ne hjk] at hj
      exact h.locks j u hj
  · exact h.locks j u hj

/-- The writes of a bulk `UPDATE` that has these rows still to process. -/
def swept (u : BulkUpdate K Row) (s : Store K Row) (w : Writes K Row) (todo : List K) :
    Writes K Row :=
  fun k => if k ∈ todo then u.apply (s.overlay w) w k else w k

omit [DecidableEq K] in
/-- What it makes of a row depends on what is known of that row only. -/
theorem BulkUpdate.apply_congr (u : BulkUpdate K Row) {s : Store K Row} {w w' : Writes K Row}
    {k : K} (h : w' k = w k) : u.apply (s.overlay w') w' k = u.apply (s.overlay w) w k := by
  have hmatched : u.matched (s.overlay w') k = u.matched (s.overlay w) k := by
    unfold BulkUpdate.matched
    rw [Store.overlay_row, Store.overlay_row, h]
  unfold BulkUpdate.apply
  rw [hmatched, h]

variable (body) in
/-- The rows are processed in the order of the list. -/
theorem Solo.sweep {u : BulkUpdate K Row} {next : Program K Row α} {todo : List K}
    (h : Solo t x db) (hphase : x.phase = .sweeping u todo next) :
    ∃ x' db', Gets body t db x' db' ∧ x'.phase = .ready next ∧
      x'.writes = swept u db.store x.writes todo := by
  induction hn : todo.length using Nat.strong_induction_on generalizing todo x db with
  | _ n ih =>
      cases todo with
      | nil =>
          have hissue : x.issue (db.store.overlay x.writes) =
              some { x with phase := .ready next } := by
            simp [Txn.issue, hphase]
          obtain ⟨db', hgets⟩ := h.statement body hissue
          refine ⟨_, db', hgets, rfl, ?_⟩
          funext k
          simp [swept]
      | cons k rest =>
          -- The row written, and the others as they were.
          obtain ⟨w, hprocess, hself, hother⟩ : ∃ w : Writes K Row,
              x.process db.store k = some { x with
                writes := w, phase := .sweeping u ((k :: rest).filter (· ≠ k)) next } ∧
              w k = u.apply (db.store.overlay x.writes) x.writes k ∧
              ∀ j, j ≠ k → w j = x.writes j := by
            cases hmatched : u.matched (db.store.overlay x.writes) k with
            | none =>
                refine ⟨x.writes, ?_, (u.apply_none hmatched).symm, fun _ _ => rfl⟩
                simp only [Txn.process, hphase, hmatched, List.mem_cons_self, if_true]
            | some v =>
                refine ⟨x.writes.set k (u.set k v), ?_, ?_, fun j hj => Writes.set_ne _ _ hj⟩
                · simp only [Txn.process, hphase, hmatched, List.mem_cons_self, if_true]
                · rw [Writes.set_self, u.apply_some hmatched]
          obtain ⟨db₁, hgets⟩ := h.row body hprocess
          have hshorter : ((k :: rest).filter (· ≠ k)).length < n := by
            rw [← hn, List.filter_cons_of_neg (by simp)]
            exact Nat.lt_succ_of_le (List.length_filter_le _ _)
          obtain ⟨x', db', hgets', hready, hwrites⟩ := ih _ hshorter hgets.solo rfl rfl
          refine ⟨x', db', hgets.trans hgets', hready, ?_⟩
          rw [hwrites, hgets.store]
          funext j
          unfold swept
          by_cases hj : j = k
          · subst hj
            simp [hself]
          · simp only [List.mem_filter, List.mem_cons, hj, decide_not, decide_false, Bool.not_false,
              and_true, false_or]
            rw [u.apply_congr (hother j hj), hother j hj]

/-- All rows that match are to be processed. -/
theorem swept_matched (u : BulkUpdate K Row) (s : Store K Row) (w : Writes K Row) :
    swept u s w ((s.overlay w).keys.filter fun k => (u.matched (s.overlay w) k).isSome) =
      u.apply (s.overlay w) w := by
  funext k
  unfold swept
  split
  · rfl
  · rename_i hnot
    cases hmatched : u.matched (s.overlay w) k with
    | none => rw [u.apply_none hmatched]
    | some v =>
        refine absurd (List.mem_filter.mpr ⟨?_, by rw [hmatched]; rfl⟩) hnot
        exact Store.mem_keys_of_row (BulkUpdate.matched_some.mp hmatched).1

variable (body) in
/-- **A body that is alone comes to what `run` says.** -/
theorem Solo.finish {p : Program K Row α} {a : α} {w : Writes K Row} (h : Solo t x db)
    (hphase : x.phase = .ready p) (hrun : p.run db.store x.writes = .ok (a, w)) :
    ∃ x' db', Gets body t db x' db' ∧ x'.phase = .ready (.done a) ∧ x'.writes = w := by
  induction p generalizing x db with
  | done b =>
      simp only [Program.run, Except.ok.injEq, Prod.mk.injEq] at hrun
      obtain ⟨rfl, rfl⟩ := hrun
      exact ⟨x, db, .refl h, hphase, rfl⟩
  | raise e => simp [Program.run] at hrun
  | query next ih =>
      have hissue : x.issue (db.store.overlay x.writes) =
          some { x with phase := .ready (next (db.store.overlay x.writes)) } := by
        simp [Txn.issue, hphase]
      obtain ⟨db₁, hgets⟩ := h.statement body hissue
      obtain ⟨x', db', hgets', hrest⟩ := ih _ hgets.solo rfl (by rw [hgets.store]; exact hrun)
      exact ⟨x', db', hgets.trans hgets', hrest⟩
  | updateRow u next ih =>
      simp only [Program.run] at hrun
      cases hmatched : u.matched (db.store.overlay x.writes) with
      | none =>
          rw [hmatched] at hrun
          have hissue : x.issue (db.store.overlay x.writes) =
              some { x with issued := u.key :: x.issued, phase := .ready (next none) } := by
            simp [Txn.issue, hphase, hmatched]
          obtain ⟨db₁, hgets⟩ := h.statement body hissue
          obtain ⟨x', db', hgets', hrest⟩ := ih _ hgets.solo rfl (by rw [hgets.store]; exact hrun)
          exact ⟨x', db', hgets.trans hgets', hrest⟩
      | some v =>
          rw [hmatched] at hrun
          have hissue : x.issue (db.store.overlay x.writes) =
              some { x with issued := u.key :: x.issued, phase := .waiting u next } := by
            simp [Txn.issue, hphase, hmatched]
          obtain ⟨db₁, hgets⟩ := h.statement body hissue
          -- The row is as the statement has seen it.
          obtain ⟨-, hv, hcond⟩ := RowUpdate.matched_some.mp hmatched
          have hprocess : Txn.process { x with
                issued := u.key :: x.issued, phase := .waiting u next } db₁.store u.key =
              some { x with
                issued := u.key :: x.issued
                writes := x.writes.set u.key (u.set v)
                phase := .ready (next (some (u.set v))) } := by
            simp only [Txn.process, hgets.store, hv, Option.filter_some, hcond, if_true]
          obtain ⟨db₂, hgets₂⟩ := hgets.solo.row body hprocess
          obtain ⟨x', db', hgets', hrest⟩ := ih _ hgets₂.solo rfl
            (by rw [hgets₂.store, hgets.store]; exact hrun)
          exact ⟨x', db', (hgets.trans hgets₂).trans hgets', hrest⟩
  | updateRows u next ih =>
      have hissue : x.issue (db.store.overlay x.writes) = some { x with
          phase := .sweeping u ((db.store.overlay x.writes).keys.filter fun k =>
            (u.matched (db.store.overlay x.writes) k).isSome) next } := by
        simp [Txn.issue, hphase]
      obtain ⟨db₁, hgets⟩ := h.statement body hissue
      obtain ⟨x₂, db₂, hgets₂, hready, hwrites⟩ := hgets.solo.sweep body rfl
      have hrest : next.run db₂.store x₂.writes = .ok (a, w) := by
        rw [hgets₂.store, hwrites, hgets.store]
        rw [show swept u db.store x.writes _ = _ from swept_matched u db.store x.writes]
        exact hrun
      obtain ⟨x', db', hgets', hdone⟩ := ih hgets₂.solo hready hrest
      exact ⟨x', db', (hgets.trans hgets₂).trans hgets', hdone⟩

/-- Nobody is at work. -/
structure Db.Quiet (db : Db K Row C α) : Prop where
  txns : ∀ u, db.txns u = none
  locks : ∀ k, db.locks k = none

/-- A call that begins when nobody is at work has the result of `exec`, and its writes. -/
theorem Db.Quiet.call (h : db.Quiet) (t : Nat) {call : C} {s : Store K Row} {a : α}
    (hexec : (body call).exec db.store = (s, .ok a)) :
    ∃ db₀ x db', db.step body (.begin t call) = some db₀ ∧ Gets body t db₀ x db' ∧
      x.result = some a ∧ db'.store = db.store ∧ db'.store.overlay x.writes = s ∧
      ∀ u, u ≠ t → db'.txns u = none := by
  have hrun : ∃ w, (body call).run db.store Writes.empty = .ok (a, w) ∧
      db.store.overlay w = s := by
    unfold Program.exec at hexec
    cases hr : (body call).run db.store Writes.empty with
    | error e => simp [hr] at hexec
    | ok r =>
        obtain ⟨b, w⟩ := r
        simp only [hr, Prod.mk.injEq, Except.ok.injEq] at hexec
        exact ⟨w, by rw [hexec.2], hexec.1⟩
  obtain ⟨w, hrun, rfl⟩ := hrun
  have hsolo : Solo t (db.started body call) (db.setTxn t (some (db.started body call))) := by
    refine ⟨db.setTxn_self t _, fun k u hk => ?_⟩
    rw [setTxn_locks, h.locks k] at hk
    simp at hk
  obtain ⟨x, db', hgets, hphase, rfl⟩ := hsolo.finish body rfl hrun
  have hstore : db'.store = db.store := hgets.store
  refine ⟨_, x, db', by simp [step, h.txns t], hgets, by rw [Txn.result, hphase], hstore,
    by rw [hstore], fun u hu => ?_⟩
  rw [hgets.others u hu, db.setTxn_ne _ hu, h.txns u]

omit [DecidableEq K] in
/-- When it has ended, nobody is at work again. -/
theorem Solo.quiet (h : Solo t x db) (hothers : ∀ u, u ≠ t → db.txns u = none)
    (hend : db'.txns = Function.update db.txns t none) (hlocks : db'.locks = Db.unlock db.locks t) :
    db'.Quiet := by
  refine ⟨fun u => ?_, fun k => ?_⟩
  · rw [hend]
    by_cases hu : u = t
    · rw [hu, Function.update_self]
    · rw [Function.update_of_ne hu, hothers u hu]
  · rw [hlocks, Db.unlock]
    cases hk : db.locks k with
    | none => simp
    | some u => simp [h.locks k u hk]

variable (body) in
theorem Solo.commit (h : Solo t x db) (hothers : ∀ u, u ≠ t → db.txns u = none) {a : α}
    (hresult : x.result = some a) :
    ∃ db', db.step body (.commit t) = some db' ∧ db'.Quiet ∧
      db'.store = db.store.overlay x.writes := by
  obtain ⟨db', hs⟩ : ∃ db', db.step body (.commit t) = some db' := by
    simp [Db.step, h.txn, hresult]
  obtain rfl := step_commit_of h.txn hresult hs
  exact ⟨_, hs, h.quiet hothers rfl rfl, rfl⟩

variable (body) in
theorem Solo.abort (h : Solo t x db) (hothers : ∀ u, u ≠ t → db.txns u = none) :
    ∃ db', db.step body (.abort t) = some db' ∧ db'.Quiet ∧ db'.store = db.store := by
  obtain ⟨db', hs⟩ : ∃ db', db.step body (.abort t) = some db' := by
    simp [Db.step, h.txn]
  obtain ⟨-, -, rfl⟩ := step_abort hs
  exact ⟨_, hs, h.quiet hothers rfl rfl, rfl⟩

end Turns

end Sql
