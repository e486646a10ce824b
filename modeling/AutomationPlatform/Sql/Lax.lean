/-
What a transaction amounts to on the committed store of one moment.

Under READ COMMITTED the statements of a transaction see committed stores of
different moments, so a transaction is in general not one that ran alone.  It is
close to one.  A row it wrote is locked, so nobody else changed it since, and the
write is what the statement would do now.  Only where a statement found nothing
to write, or only read, may the store it saw be an older one.

`Lax` says exactly that: it is a run on the committed store `s` in which a read
may see any earlier committed store, and a row may be passed over if some earlier
committed store justifies it.  The stores a run looks at only move forward, from
the lower bound `lb` on.

Nothing here speaks of interleaving.  That the transactions of an interleaved run
satisfy `Lax` is `Sql/Serialization.lean`; that a condition which once false stays
false leaves no freedom at all is `Lax.updateRow_exact` below.
-/
import AutomationPlatform.Sql.Program

namespace Sql

variable {K : Type} {Row : K → Type} {α β : Type}

/-- A committed store met on the way from `lb` to `s`. -/
structure Past (T : Timeline K Row) (Good : Store K Row → Prop) (lb s V : Store K Row) :
    Prop where
  after : T.before lb V
  before : T.before V s
  good : Good V

theorem Past.mono {T : Timeline K Row} {Good : Store K Row → Prop} {lb s s' V : Store K Row}
    (h : Past T Good lb s V) (hs : T.before s s') : Past T Good lb s' V :=
  ⟨h.after, T.before_trans h.before hs, h.good⟩

/-- What is met after one that was met before. -/
theorem Past.trans {T : Timeline K Row} {Good : Store K Row → Prop} {lb s V V' : Store K Row}
    (h : Past T Good lb s V) (h' : Past T Good V s V') : Past T Good lb s V' :=
  ⟨T.before_trans h.after h'.after, h'.before, h'.good⟩

/-- What a bulk `UPDATE` left as the write of one row: the change, or nothing for a reason. -/
def Swept (T : Timeline K Row) (Good : Store K Row → Prop) (lb s : Store K Row)
    (u : BulkUpdate K Row) (w : Writes K Row) (k : K) (r : Option (Row k)) : Prop :=
  (∃ v, u.matched (s.overlay w) k = some v ∧ r = some (u.set k v)) ∨
    (r = w k ∧ ∃ V, Past T Good lb s V ∧ u.matched (V.overlay w) k = none)

section Definition

variable [DecidableEq K]

/-- A run on `s` that may have looked at earlier committed stores, none before `lb`. -/
inductive Lax (T : Timeline K Row) (Good : Store K Row → Prop) (s : Store K Row) :
    Store K Row → Program K Row α → Writes K Row →
      Store K Row → Program K Row α → Writes K Row → Prop
  | refl (lb : Store K Row) (p : Program K Row α) (w : Writes K Row) :
      Lax T Good s lb p w lb p w
  | query {lb V lb' : Store K Row} {next : Store K Row → Program K Row α} {w w' : Writes K Row}
      {p' : Program K Row α} (hV : Past T Good lb s V)
      (h : Lax T Good s V (next (V.overlay w)) w lb' p' w') :
      Lax T Good s lb (.query next) w lb' p' w'
  | hit {lb V lb' : Store K Row} {u : RowUpdate K Row}
      {next : Option (Row u.key) → Program K Row α} {w w' : Writes K Row}
      {p' : Program K Row α} {v : Row u.key} (hV : Past T Good lb s V)
      (hpick : (u.matched (V.overlay w)).isSome = true)
      (hrow : (s.overlay w).row u.key = some v) (hcond : u.cond v = true)
      (h : Lax T Good s V (next (some (u.set v))) (w.set u.key (u.set v)) lb' p' w') :
      Lax T Good s lb (.updateRow u next) w lb' p' w'
  | miss {lb V lb' : Store K Row} {u : RowUpdate K Row}
      {next : Option (Row u.key) → Program K Row α} {w w' : Writes K Row}
      {p' : Program K Row α} (hV : Past T Good lb s V)
      (hmiss : u.matched (V.overlay w) = none) (h : Lax T Good s V (next none) w lb' p' w') :
      Lax T Good s lb (.updateRow u next) w lb' p' w'
  | sweep {lb lb' : Store K Row} {u : BulkUpdate K Row} {next : Program K Row α}
      {w w₁ w' : Writes K Row} {p' : Program K Row α}
      (hsweep : ∀ k, Swept T Good lb s u w k (w₁ k)) (h : Lax T Good s lb next w₁ lb' p' w') :
      Lax T Good s lb (.updateRows u next) w lb' p' w'

end Definition

namespace Lax

variable [DecidableEq K] {T : Timeline K Row} {Good : Store K Row → Prop}
  {s s' lb lb' lb₁ : Store K Row} {p p' p₁ : Program K Row α} {w w' w₁ : Writes K Row}

/-- Runs compose. -/
theorem trans (h : Lax T Good s lb p w lb₁ p₁ w₁) (h' : Lax T Good s lb₁ p₁ w₁ lb' p' w') :
    Lax T Good s lb p w lb' p' w' := by
  induction h with
  | refl => exact h'
  | query hV _ ih => exact .query hV (ih h')
  | hit hV hpick hrow hcond _ ih => exact .hit hV hpick hrow hcond (ih h')
  | miss hV hmiss _ ih => exact .miss hV hmiss (ih h')
  | sweep hsweep _ ih => exact .sweep hsweep (ih h')

/-- The lower bound only moves forward. -/
theorem le_bound (h : Lax T Good s lb p w lb' p' w') : T.before lb lb' := by
  induction h with
  | refl lb => exact T.before_refl lb
  | query hV _ ih => exact T.before_trans hV.after ih
  | hit hV _ _ _ _ ih => exact T.before_trans hV.after ih
  | miss hV _ _ ih => exact T.before_trans hV.after ih
  | sweep _ _ ih => exact ih

/-- The lower bound never passes the store the run is on. -/
theorem bound_le (h : Lax T Good s lb p w lb' p' w') (hlb : T.before lb s) :
    T.before lb' s := by
  induction h with
  | refl => exact hlb
  | query hV _ ih => exact ih hV.before
  | hit hV _ _ _ _ ih => exact ih hV.before
  | miss hV _ _ ih => exact ih hV.before
  | sweep _ _ ih => exact ih hlb

/-- A written row stays written. -/
theorem writes_mono (h : Lax T Good s lb p w lb' p' w') :
    ∀ k, (w k).isSome = true → (w' k).isSome = true := by
  induction h with
  | refl => exact fun _ hk => hk
  | query _ _ ih => exact ih
  | @hit _ _ _ u _ w _ _ v _ _ _ _ _ ih =>
      intro k hk
      refine ih k ?_
      by_cases hku : k = u.key
      · subst hku; simp
      · rw [Writes.set_ne w _ hku]; exact hk
  | miss _ _ _ ih => exact ih
  | @sweep _ _ u _ w w₁ _ _ hsweep _ ih =>
      intro k hk
      refine ih k ?_
      rcases hsweep k with ⟨v, -, hr⟩ | ⟨hr, -⟩
      · rw [hr]; rfl
      · rw [hr]; exact hk

/--
**A run survives what others commit.**  The written rows are locked, so they read
the same in the later store; everything else a run may look at is still earlier.
-/
theorem stable (h : Lax T Good s lb p w lb' p' w') (hs : T.before s s')
    (hlock : ∀ k, (w' k).isSome = true → s'.row k = s.row k) :
    Lax T Good s' lb p w lb' p' w' := by
  have hview : ∀ (w : Writes K Row) k, s'.row k = s.row k →
      (s'.overlay w).row k = (s.overlay w).row k := by
    intro w k hk
    rw [Store.overlay_row, Store.overlay_row, hk]
  induction h with
  | refl => exact .refl _ _ _
  | query hV _ ih => exact .query (hV.mono hs) (ih hlock)
  | @hit _ _ _ u _ w _ _ v hV hpick hrow hcond h ih =>
      have hsame : s'.row u.key = s.row u.key := hlock _ (h.writes_mono _ (by simp))
      exact .hit (hV.mono hs) hpick (by rw [hview w _ hsame, hrow]) hcond (ih hlock)
  | miss hV hmiss _ ih => exact .miss (hV.mono hs) hmiss (ih hlock)
  | @sweep _ _ u _ w w₁ _ _ hsweep h ih =>
      refine .sweep (fun k => ?_) (ih hlock)
      rcases hsweep k with ⟨v, hv, hr⟩ | ⟨hr, V, hV, hmiss⟩
      · have hsame : s'.row k = s.row k := hlock k (h.writes_mono k (by rw [hr]; rfl))
        refine Or.inl ⟨v, ?_, hr⟩
        rw [BulkUpdate.matched, hview w k hsame]
        exact hv
      · exact Or.inr ⟨hr, V, hV.mono hs, hmiss⟩

/-! ### Reading a finished run back -/

theorem done_inv {a b : α} (h : Lax T Good s lb (.done a) w lb' (.done b) w') :
    lb = lb' ∧ a = b ∧ w = w' := by
  cases h with
  | refl => exact ⟨rfl, rfl, rfl⟩

theorem raise_inv {e : String} {b : α} (h : Lax T Good s lb (.raise e) w lb' (.done b) w') :
    False := by
  cases h

theorem query_inv {next : Store K Row → Program K Row α}
    (h : Lax T Good s lb (.query next) w lb' p' w') (hp' : p'.Finished) :
    ∃ V, Past T Good lb s V ∧ Lax T Good s V (next (V.overlay w)) w lb' p' w' := by
  cases h with
  | refl => exact hp'.elim
  | query hV h => exact ⟨_, hV, h⟩

theorem updateRow_inv {u : RowUpdate K Row} {next : Option (Row u.key) → Program K Row α}
    (hp' : p'.Finished) (h : Lax T Good s lb (.updateRow u next) w lb' p' w') :
    ∃ V, Past T Good lb s V ∧
      ((∃ v, (u.matched (V.overlay w)).isSome = true ∧
          (s.overlay w).row u.key = some v ∧ u.cond v = true ∧
          Lax T Good s V (next (some (u.set v))) (w.set u.key (u.set v)) lb' p' w') ∨
        (u.matched (V.overlay w) = none ∧ Lax T Good s V (next none) w lb' p' w')) := by
  cases h with
  | refl => exact hp'.elim
  | hit hV hpick hrow hcond h => exact ⟨_, hV, Or.inl ⟨_, hpick, hrow, hcond, h⟩⟩
  | miss hV hmiss h => exact ⟨_, hV, Or.inr ⟨hmiss, h⟩⟩

theorem updateRows_inv {u : BulkUpdate K Row} {next : Program K Row α}
    (h : Lax T Good s lb (.updateRows u next) w lb' p' w') (hp' : p'.Finished) :
    ∃ w₁, (∀ k, Swept T Good lb s u w k (w₁ k)) ∧ Lax T Good s lb next w₁ lb' p' w' := by
  cases h with
  | refl => exact hp'.elim
  | sweep hsweep h => exact ⟨_, hsweep, h⟩

/-- Nothing follows a body that is finished. -/
theorem finished_inv (h : Lax T Good s lb p w lb' p' w') (hp : p.Finished) : w' = w := by
  cases h with
  | refl => rfl
  | query => exact hp.elim
  | hit => exact hp.elim
  | miss => exact hp.elim
  | sweep => exact hp.elim

/-- Where a body is over unless its `UPDATE` finds a row, whatever was written since came after
the row was found. -/
theorem hit_of_written {u : RowUpdate K Row} {next : Option (Row u.key) → Program K Row α}
    (h : Lax T Good s lb (.updateRow u next) w lb' p' w') (hend : (next none).Finished) {k : K}
    (hk : w' k ≠ w k) : ∃ v, (s.overlay w).row u.key = some v ∧ u.cond v = true := by
  cases h with
  | refl => exact absurd rfl hk
  | hit _ _ hrow hcond _ => exact ⟨_, hrow, hcond⟩
  | miss _ _ h => exact absurd (congrFun (h.finished_inv hend) k) hk

/-- A finished run of two bodies in a row is a finished run of each. -/
theorem bind_inv {f : α → Program K Row β} {b : β} :
    ∀ {p : Program K Row α} {lb : Store K Row} {w : Writes K Row},
      Lax T Good s lb (p.bind f) w lb' (.done b) w' →
      ∃ a lb₁ w₁, Lax T Good s lb p w lb₁ (.done a) w₁ ∧
        Lax T Good s lb₁ (f a) w₁ lb' (.done b) w' := by
  intro p
  induction p with
  | done a => intro lb w h; exact ⟨a, lb, w, .refl _ _ _, h⟩
  | raise e => intro lb w h; exact absurd h fun h => h.raise_inv
  | query next ih =>
      intro lb w h
      obtain ⟨V, hV, h⟩ := h.query_inv (Program.finished_done b)
      obtain ⟨a, lb₁, w₁, h₁, h₂⟩ := ih _ h
      exact ⟨a, lb₁, w₁, .query hV h₁, h₂⟩
  | updateRow u next ih =>
      intro lb w h
      obtain ⟨V, hV, ⟨v, hpick, hrow, hcond, h⟩ | ⟨hmiss, h⟩⟩ := h.updateRow_inv (Program.finished_done b)
      · obtain ⟨a, lb₁, w₁, h₁, h₂⟩ := ih _ h
        exact ⟨a, lb₁, w₁, .hit hV hpick hrow hcond h₁, h₂⟩
      · obtain ⟨a, lb₁, w₁, h₁, h₂⟩ := ih _ h
        exact ⟨a, lb₁, w₁, .miss hV hmiss h₁, h₂⟩
  | updateRows u next ih =>
      intro lb w h
      obtain ⟨w₂, hsweep, h⟩ := h.updateRows_inv (Program.finished_done b)
      obtain ⟨a, lb₁, w₁, h₁, h₂⟩ := ih h
      exact ⟨a, lb₁, w₁, .sweep hsweep h₁, h₂⟩

/-! ### Running alone is a special case -/

/-- A body that ran alone on `s` is a lax run in which every statement saw `s` itself. -/
theorem of_run (hgood : Good s) {a : α} :
    ∀ {p : Program K Row α} {lb : Store K Row} {w : Writes K Row}, T.before lb s →
      p.run s w = .ok (a, w') → ∃ lb', Lax T Good s lb p w lb' (.done a) w' := by
  have hpast : ∀ {lb : Store K Row}, T.before lb s → Past T Good lb s s := fun hlb =>
    ⟨hlb, T.before_refl s, hgood⟩
  intro p
  induction p with
  | done b =>
      intro lb w _ h
      simp only [Program.run, Except.ok.injEq, Prod.mk.injEq] at h
      obtain ⟨rfl, rfl⟩ := h
      exact ⟨lb, .refl _ _ _⟩
  | raise e => intro lb w _ h; simp [Program.run] at h
  | query next ih =>
      intro lb w hlb h
      obtain ⟨lb', h'⟩ := ih _ (T.before_refl s) h
      exact ⟨lb', .query (hpast hlb) h'⟩
  | updateRow u next ih =>
      intro lb w hlb h
      rw [Program.run] at h
      cases hm : u.matched (s.overlay w) with
      | none =>
          rw [hm] at h
          obtain ⟨lb', h'⟩ := ih _ (T.before_refl s) h
          exact ⟨lb', .miss (hpast hlb) hm h'⟩
      | some v =>
          rw [hm] at h
          obtain ⟨-, hrow, hcond⟩ := RowUpdate.matched_some.mp hm
          obtain ⟨lb', h'⟩ := ih _ (T.before_refl s) h
          exact ⟨lb', .hit (hpast hlb) (by rw [hm]; rfl) hrow hcond h'⟩
  | updateRows u next ih =>
      intro lb w hlb h
      rw [Program.run] at h
      obtain ⟨lb', h'⟩ := ih hlb h
      refine ⟨lb', .sweep (fun k => ?_) h'⟩
      cases hm : u.matched (s.overlay w) k with
      | none => exact Or.inr ⟨BulkUpdate.apply_none hm, s, hpast hlb, hm⟩
      | some v => exact Or.inl ⟨v, hm, BulkUpdate.apply_some hm⟩

end Lax

/-! ### Conditions that stay false -/

/-- A condition on a row that no evolution of the row makes true again. -/
def Stable (E : Evolution K Row) (k : K) (cond : Row k → Bool) : Prop :=
  ∀ v v', E.rel k v v' → cond v = false → cond v' = false

/-- A stable condition that failed on an earlier version of a row fails on it now. -/
theorem cond_false_of_stable {E : Evolution K Row} {s V : Store K Row} {k : K}
    {cond : Row k → Bool} (hstable : Stable E k cond) (hle : V.Le E s) {v₀ v : Row k}
    (hV : V.row k = some v₀) (hfalse : cond v₀ = false) (hs : s.row k = some v) :
    cond v = false := by
  obtain ⟨v', hv', hrel⟩ := hle k v₀ hV
  rw [hs, Option.some.injEq] at hv'
  subst hv'
  exact hstable _ _ hrel hfalse

section Exact

variable [DecidableEq K] {T : Timeline K Row} {Good : Store K Row → Prop}
  {s lb lb' : Store K Row} {w w' : Writes K Row}

/--
**A stable condition leaves an `UPDATE` no freedom.**  On a row that was there when
the statement was issued, and that the transaction had not written, the statement
does exactly what it would do on the present store.
-/
theorem Lax.updateRow_exact {u : RowUpdate K Row}
    {next : Option (Row u.key) → Program K Row α} {p' : Program K Row α}
    (h : Lax T Good s lb (.updateRow u next) w lb' p' w') (hp' : p'.Finished)
    (hstable : Stable T.toEvolution u.key u.cond) (hsub : ∀ s, u.subquery s = true)
    (hfree : w u.key = none) (hrow : (lb.row u.key).isSome = true) :
    ∃ V v, Past T Good lb s V ∧ s.row u.key = some v ∧
      ((u.cond v = true ∧
          Lax T Good s V (next (some (u.set v))) (w.set u.key (u.set v)) lb' p' w') ∨
        (u.cond v = false ∧ Lax T Good s V (next none) w lb' p' w')) := by
  obtain ⟨V, hV, ⟨v, -, hv, hcond, h⟩ | ⟨hmiss, h⟩⟩ := h.updateRow_inv hp'
  · rw [Store.overlay_row_none hfree] at hv
    exact ⟨V, v, hV, hv, Or.inl ⟨hcond, h⟩⟩
  · obtain ⟨v₀, hv₀⟩ := Option.isSome_iff_exists.mp hrow
    obtain ⟨v₁, hv₁, -⟩ := T.le hV.after _ _ hv₀
    obtain ⟨v, hv, -⟩ := T.le hV.before _ _ hv₁
    have hfalse : u.cond v₁ = false := by
      rw [RowUpdate.matched, if_pos (hsub _), Store.overlay_row_none hfree, hv₁] at hmiss
      simpa using hmiss
    exact ⟨V, v, hV, hv,
      Or.inr ⟨cond_false_of_stable hstable (T.le hV.before) hv₁ hfalse hv, h⟩⟩

omit [DecidableEq K] in
/-- The same for one row of a bulk `UPDATE`. -/
theorem Swept.exact {u : BulkUpdate K Row} {k : K} {r : Option (Row k)}
    (h : Swept T Good lb s u w k r) (hstable : Stable T.toEvolution k (u.cond k))
    (hfree : w k = none) (hrow : (lb.row k).isSome = true) :
    ∃ v, s.row k = some v ∧ r = if u.cond k v then some (u.set k v) else none := by
  rcases h with ⟨v, hv, hr⟩ | ⟨hr, V, hV, hmiss⟩
  · rw [BulkUpdate.matched_some, Store.overlay_row_none hfree] at hv
    exact ⟨v, hv.1, by rw [hr, if_pos hv.2]⟩
  · obtain ⟨v₀, hv₀⟩ := Option.isSome_iff_exists.mp hrow
    obtain ⟨v₁, hv₁, -⟩ := T.le hV.after _ _ hv₀
    obtain ⟨v, hv, -⟩ := T.le hV.before _ _ hv₁
    have hfalse : u.cond k v₁ = false := by
      rw [BulkUpdate.matched, Store.overlay_row_none hfree, hv₁] at hmiss
      simpa using hmiss
    have hnow := cond_false_of_stable hstable (T.le hV.before) hv₁ hfalse hv
    exact ⟨v, hv, by rw [hr, hfree, hnow]; rfl⟩

end Exact

end Sql
