/-
What is true of a transaction at every point of its body.

What a statement may assume often depends on what the transaction has already done:
which rows it has written, and which updates it has issued.  `Program.Always` walks
the body and carries both along.  It takes nothing from the database but that a row
the transaction has written is seen as it was written, so it is a property of the
body alone; `always_reachable` then gives it to every transaction in flight, in
every reachable state.
-/
import AutomationPlatform.Sql.ReadCommitted

namespace Sql

variable {K : Type} {Row : K → Type} {C α : Type}

/-- The transaction may see `v` under `k`: its own version, if it has written one. -/
def Writes.Shows (w : Writes K Row) (k : K) (v : Row k) : Prop := ∀ v₀, w k = some v₀ → v₀ = v

/-- What a bulk `UPDATE` may leave as the write of one row. -/
def BulkUpdate.MayLeave (u : BulkUpdate K Row) (w : Writes K Row) (k : K) (r : Option (Row k)) :
    Prop :=
  r = w k ∨ ∃ v, u.cond k v = true ∧ w.Shows k v ∧ r = some (u.set k v)

theorem shows_of_overlay {s : Store K Row} {w : Writes K Row} {k : K} {v : Row k}
    (h : (s.overlay w).row k = some v) : w.Shows k v := by
  intro v₀ hv₀
  rcases Store.row_of_overlay h with hw | ⟨hw, -⟩
  · rw [hv₀, Option.some.injEq] at hw; exact hw
  · rw [hv₀] at hw; simp at hw

section Always

variable [DecidableEq K]

/-- `Φ` holds wherever the body can be between two statements. -/
def Program.Always (Φ : List K → Writes K Row → Program K Row α → Prop) :
    List K → Writes K Row → Program K Row α → Prop
  | issued, w, .done a => Φ issued w (.done a)
  | issued, w, .raise e => Φ issued w (.raise e)
  | issued, w, .query next => Φ issued w (.query next) ∧ ∀ s, (next s).Always Φ issued w
  | issued, w, .updateRow u next => Φ issued w (.updateRow u next) ∧
      (next none).Always Φ (u.key :: issued) w ∧
      ∀ v, u.cond v = true → w.Shows u.key v →
        (next (some (u.set v))).Always Φ (u.key :: issued) (w.set u.key (u.set v))
  | issued, w, .updateRows u next => Φ issued w (.updateRows u next) ∧
      ∀ w', (∀ k, u.MayLeave w k (w' k)) → next.Always Φ issued w'

theorem Program.Always.here {Φ : List K → Writes K Row → Program K Row α → Prop}
    {issued : List K} {w : Writes K Row} {p : Program K Row α} (h : p.Always Φ issued w) :
    Φ issued w p := by
  cases p with
  | done a => exact h
  | raise e => exact h
  | query next => exact h.1
  | updateRow u next => exact h.1
  | updateRows u next => exact h.1

/-- A body after another one: what holds throughout the first must lead to the second. -/
theorem Program.always_bind {β : Type} {Φ : List K → Writes K Row → Program K Row β → Prop}
    {Ψ : List K → Writes K Row → Program K Row α → Prop} {f : α → Program K Row β}
    (hΨ : ∀ issued w p, Ψ issued w p → (∀ a, p ≠ .done a) → Φ issued w (p.bind f))
    (hdone : ∀ issued w a, Ψ issued w (.done a) → (f a).Always Φ issued w) :
    ∀ {p : Program K Row α} {issued : List K} {w : Writes K Row}, p.Always Ψ issued w →
      (p.bind f).Always Φ issued w := by
  intro p
  induction p with
  | done a => intro issued w h; exact hdone issued w a h
  | raise e => intro issued w h; exact hΨ issued w (.raise e) h (by simp)
  | query next ih =>
      intro issued w h
      exact ⟨hΨ issued w (.query next) h.1 (by simp), fun s => ih s (h.2 s)⟩
  | updateRow u next ih =>
      intro issued w h
      exact ⟨hΨ issued w (.updateRow u next) h.1 (by simp), ih _ h.2.1,
        fun v hv hs => ih _ (h.2.2 v hv hs)⟩
  | updateRows u next ih =>
      intro issued w h
      exact ⟨hΨ issued w (.updateRows u next) h.1 (by simp), fun w' hw => ih (h.2 w' hw)⟩

/-- The same of a transaction in flight, wherever it stands. -/
def Txn.Always (Φ : List K → Writes K Row → Program K Row α → Prop) (x : Txn K Row C α) : Prop :=
  match x.phase with
  | .ready p => p.Always Φ x.issued x.writes
  | .waiting u next => ∃ issued, x.issued = u.key :: issued ∧
      (Program.updateRow u next).Always Φ issued x.writes
  | .sweeping u todo next => ∃ w, (Program.updateRows u next).Always Φ x.issued w ∧
      ∀ k, (k ∈ todo → x.writes k = w k) ∧ u.MayLeave w k (x.writes k)

variable {Φ : List K → Writes K Row → Program K Row α → Prop} {x x' : Txn K Row C α}

theorem Txn.Always.issue (h : x.Always Φ) {view : Store K Row}
    (hx : x.issue view = some x') : x'.Always Φ := by
  unfold Txn.Always at h
  rcases issue_cases hx with ⟨next, hp, rfl⟩ | ⟨u, next, v, hp, hv, rfl⟩ | ⟨u, next, hp, hv, rfl⟩ |
    ⟨u, next, hp, rfl⟩ | ⟨u, next, hp, rfl⟩ <;> rw [hp] at h
  · exact h.2 view
  · exact ⟨x.issued, rfl, h⟩
  · exact h.2.1
  · exact ⟨x.writes, h, fun k => ⟨fun _ => rfl, Or.inl rfl⟩⟩
  · obtain ⟨w, hw, hleft⟩ := h
    exact hw.2 _ fun k => (hleft k).2

theorem Txn.Always.process (h : x.Always Φ) {s : Store K Row} {k : K}
    (hx : x.process s k = some x') : x'.Always Φ := by
  unfold Txn.Always at h
  rcases process_cases hx with ⟨u, next, v, hp, rfl, hrow, hcond, rfl⟩ |
    ⟨u, next, hp, rfl, hfalse, rfl⟩ | ⟨u, todo, next, v, hp, hk, hv, rfl⟩ |
    ⟨u, todo, next, hp, hk, hv, rfl⟩ <;> rw [hp] at h
  · obtain ⟨issued, hissued, h⟩ := h
    show Program.Always Φ x.issued _ _
    rw [hissued]
    exact h.2.2 v hcond (shows_of_overlay hrow)
  · obtain ⟨issued, hissued, h⟩ := h
    show Program.Always Φ x.issued _ _
    rw [hissued]
    exact h.2.1
  · obtain ⟨w, hw, hleft⟩ := h
    obtain ⟨hrow, hcond⟩ := BulkUpdate.matched_some.mp hv
    refine ⟨w, hw, fun j => ?_⟩
    by_cases hj : j = k
    · subst hj
      refine ⟨fun hmem => by simp at hmem, Or.inr ⟨v, hcond, fun v₀ hv₀ => ?_, by simp⟩⟩
      exact shows_of_overlay hrow v₀ (((hleft j).1 hk).trans hv₀)
    · simp only [List.mem_filter, decide_eq_true_eq, ne_eq, hj, not_false_eq_true, and_true,
        Writes.set_ne _ _ hj]
      exact hleft j
  · obtain ⟨w, hw, hleft⟩ := h
    refine ⟨w, hw, fun j => ⟨fun hmem => (hleft j).1 (List.mem_of_mem_filter hmem), (hleft j).2⟩⟩

/-- **What the body of a call always does, every transaction in flight does.** -/
theorem always_call {body : C → Program K Row α} {ok : Db K Row C α → Action K Row C → Prop}
    {Q : C → List K → Writes K Row → Program K Row α → Prop}
    (hbody : ∀ db t c, ok db (.begin t c) → (body c).Always (Q c) [] .empty) {db : Db K Row C α}
    (h : Reachable body ok db) : ∀ t x, db.txns t = some x → x.Always (Q x.call) := by
  induction h with
  | init => intro t x hx; simp [Db.init] at hx
  | @step db db' _ a ha hs ih =>
      -- The transaction that moves, and the others, which do not.
      have hset : ∀ (t : Nat) (x : Txn K Row C α), x.Always (Q x.call) →
          ∀ u y, (db.setTxn t (some x)).txns u = some y → y.Always (Q y.call) := by
        intro t x hx u y hy
        rcases db.setTxn_cases hy with ⟨-, hself⟩ | ⟨-, hother⟩
        · obtain rfl := Option.some.inj hself
          exact hx
        · exact ih u y hother
      have hend : ∀ (t : Nat) u y, (db.setTxn t none).txns u = some y → y.Always (Q y.call) :=
        fun t u y hy => ih u y (db.setTxn_none_cases hy).2
      cases a with
      | begin t call =>
          obtain ⟨-, rfl⟩ := step_begin hs
          exact hset t _ (hbody db t call ha)
      | statement t =>
          obtain ⟨x, x', hx, hx', rfl⟩ := step_statement hs
          have hcall : x'.call = x.call := congrArg Prod.fst (Txn.begun_issue hx')
          exact hset t _ (hcall ▸ (ih t x hx).issue hx')
      | row t k =>
          obtain ⟨x, x', hx, -, hx', rfl⟩ := step_row hs
          have hcall : x'.call = x.call := congrArg Prod.fst (Txn.begun_process hx')
          exact hset t _ (hcall ▸ (ih t x hx).process hx')
      | commit t =>
          obtain ⟨x, a, -, -, rfl⟩ := step_commit hs
          exact hend t
      | abort t =>
          obtain ⟨x, -, rfl⟩ := step_abort hs
          exact hend t
      | insert rows =>
          obtain ⟨s, -, rfl⟩ := step_insert hs
          exact ih

/-- The same of something that every body always does. -/
theorem always_reachable {body : C → Program K Row α} {ok : Db K Row C α → Action K Row C → Prop}
    (hbody : ∀ c, (body c).Always Φ [] .empty) {db : Db K Row C α} (h : Reachable body ok db) :
    ∀ t x, db.txns t = some x → x.Always Φ :=
  always_call (Q := fun _ => Φ) (fun _ _ c _ => hbody c) h

end Always

end Sql
