/-
Every commit is a lax run on the store it commits to.

This is the theorem the interleaved system is understood through.  Whatever the
statements of the transactions in flight do between each other, a transaction
that commits has done what its body does, run laxly, on the store that is
committed at that moment.  So a property of the committed stores may be proved
commit by commit, as if transactions were atomic: `published` takes any such
property from the empty store to every reachable state.

The invariant behind it, `Db.Sound`, says of every transaction in flight that it
is somewhere on a lax run on the present committed store.  A step of the
transaction itself takes it one statement further; a commit of another one moves
the store below it, and `Lax.stable` is why that does no harm: the rows it has
written are locked.
-/
import AutomationPlatform.Sql.ReadCommitted

namespace Sql

variable {K : Type} {Row : K → Type} {C α : Type}

/-- What is left of a body still takes rows only to versions that continue them. -/
def Phase.Respects (E : Evolution K Row) : Phase K Row α → Prop
  | .ready p => p.Respects E
  | .waiting u next => (Program.updateRow u next).Respects E
  | .sweeping u _ next => (Program.updateRows u next).Respects E

/-- Where the transaction stands, against a lax run that has come to `p` with the writes `w`. -/
def Phase.At (T : Timeline K Row) (Good : Store K Row → Prop) (s lb : Store K Row)
    (p : Program K Row α) (w writes : Writes K Row) : Phase K Row α → Prop
  | .ready p' => p = p' ∧ writes = w
  | .waiting u next => p = .updateRow u next ∧ writes = w ∧
      ∃ V, Past T Good lb s V ∧ (u.matched (V.overlay w)).isSome = true
  | .sweeping u todo next => p = .updateRows u next ∧
      ∀ k, (k ∈ todo → writes k = w k) ∧ (k ∉ todo → Swept T Good lb s u w k (writes k))

section Sound

variable [DecidableEq K]

/-- A transaction in flight, seen from the committed store. -/
structure Txn.Sound (T : Timeline K Row) (Good : Store K Row → Prop)
    (body : C → Program K Row α) (s : Store K Row) (x : Txn K Row C α) : Prop where
  base_le : T.before x.base s
  base_good : Good x.base
  /-- Every uncommitted version continues the committed one. -/
  evolves : ∀ k v, x.writes k = some v → ∃ v₀, s.row k = some v₀ ∧ T.rel k v₀ v
  respects : x.phase.Respects T.toEvolution
  run : ∃ lb p w, Lax T Good s x.base (body x.call) .empty lb p w ∧
    x.phase.At T Good s lb p w x.writes

/-- The system invariant: good committed stores, sound transactions, exclusive locks. -/
structure Db.Sound (T : Timeline K Row) (P : List (Event K Row C α) → Store K Row → Prop)
    (body : C → Program K Row α) (db : Db K Row C α) : Prop where
  good : P db.log db.store
  txn : ∀ t x, db.txns t = some x → x.Sound T (fun s => ∃ log, P log s) body db.store
  lock : ∀ t x k, db.txns t = some x → ((x.writes k).isSome = true ↔ db.locks k = some t)
  unheld : ∀ t k, db.txns t = none → db.locks k ≠ some t

/-- A property of committed stores that every insert and every lax run publishes. -/
structure Publishes (T : Timeline K Row) (body : C → Program K Row α)
    (allowed : List (Sigma Row) → Prop)
    (P : List (Event K Row C α) → Store K Row → Prop) : Prop where
  respects : ∀ c, (body c).Respects T.toEvolution
  init : P [] .empty
  insert : ∀ {log : List (Event K Row C α)} {s s' : Store K Row} {rows : List (Sigma Row)},
    P log s → allowed rows → s.insert? rows = some s' →
      T.before s s' ∧ P (log ++ [.inserted s s']) s'
  commit : ∀ {log : List (Event K Row C α)} {s base lb : Store K Row} {c : C} {a : α}
    {w : Writes K Row}, P log s → T.before base s → (∃ log, P log base) →
      Lax T (fun s => ∃ log, P log s) s base (body c) .empty lb (.done a) w →
      P (log ++ [.committed c a base s (s.overlay w)]) (s.overlay w)

/-! ### What others commit does no harm -/

omit [DecidableEq K] in
theorem Phase.At.stable {T : Timeline K Row} {Good : Store K Row → Prop} {s s' lb : Store K Row}
    {p : Program K Row α} {w writes : Writes K Row} {ph : Phase K Row α}
    (h : ph.At T Good s lb p w writes) (hs : T.before s s')
    (hlock : ∀ k, (writes k).isSome = true → s'.row k = s.row k) :
    ph.At T Good s' lb p w writes := by
  cases ph with
  | ready p' => exact h
  | waiting u next =>
      obtain ⟨hp, hw, V, hV, hsub⟩ := h
      exact ⟨hp, hw, V, hV.mono hs, hsub⟩
  | sweeping u todo next =>
      refine ⟨h.1, fun k => ⟨(h.2 k).1, fun hk => ?_⟩⟩
      rcases (h.2 k).2 hk with ⟨v, hv, hr⟩ | ⟨hr, V, hV, hmiss⟩
      · refine Or.inl ⟨v, ?_, hr⟩
        rw [BulkUpdate.matched, Store.overlay_row, hlock k (by rw [hr]; rfl),
          ← Store.overlay_row]
        exact hv
      · exact Or.inr ⟨hr, V, hV.mono hs, hmiss⟩

/-- The writes a lax run had come to are among the writes of the transaction. -/
theorem Phase.At.writes_of {T : Timeline K Row} {Good : Store K Row → Prop}
    {s lb : Store K Row} {p : Program K Row α} {w writes : Writes K Row} {ph : Phase K Row α}
    (h : ph.At T Good s lb p w writes) {k : K} (hk : (w k).isSome = true) :
    (writes k).isSome = true := by
  cases ph with
  | ready p' => rw [h.2]; exact hk
  | waiting u next => rw [h.2.1]; exact hk
  | sweeping u todo next =>
      by_cases hmem : k ∈ todo
      · rw [(h.2 k).1 hmem]; exact hk
      · rcases (h.2 k).2 hmem with ⟨v, -, hr⟩ | ⟨hr, -⟩
        · rw [hr]; rfl
        · rw [hr]; exact hk

theorem Txn.Sound.stable {T : Timeline K Row} {Good : Store K Row → Prop}
    {body : C → Program K Row α} {s s' : Store K Row} {x : Txn K Row C α}
    (h : x.Sound T Good body s) (hs : T.before s s')
    (hlock : ∀ k, (x.writes k).isSome = true → s'.row k = s.row k) :
    x.Sound T Good body s' := by
  obtain ⟨lb, p, w, hlax, hat⟩ := h.run
  refine ⟨T.before_trans h.base_le hs, h.base_good, ?_, h.respects, lb, p, w, ?_, hat.stable hs hlock⟩
  · intro k v hk
    obtain ⟨v₀, hv₀, hrel⟩ := h.evolves k v hk
    exact ⟨v₀, by rw [hlock k (by rw [hk]; rfl), hv₀], hrel⟩
  · exact hlax.stable hs fun k hk => hlock k (hat.writes_of hk)

/-! ### A transaction's own steps -/

/-- A version that continues what the view shows continues the committed version. -/
theorem Txn.Sound.evolves_set {T : Timeline K Row} {Good : Store K Row → Prop}
    {body : C → Program K Row α} {s : Store K Row} {x : Txn K Row C α}
    (h : x.Sound T Good body s) {k : K} {v v' : Row k}
    (hrow : (s.overlay x.writes).row k = some v) (hrel : T.rel k v v') :
    ∀ j r, x.writes.set k v' j = some r → ∃ v₀, s.row j = some v₀ ∧ T.rel j v₀ r := by
  intro j r hj
  by_cases hjk : j = k
  · subst hjk
    rw [Writes.set_self, Option.some.injEq] at hj
    subst hj
    rcases Store.row_of_overlay hrow with hw | ⟨-, hs⟩
    · obtain ⟨v₀, hv₀, hrel₀⟩ := h.evolves j v hw
      exact ⟨v₀, hv₀, T.trans j hrel₀ hrel⟩
    · exact ⟨v, hs, hrel⟩
  · rw [Writes.set_ne _ _ hjk] at hj
    exact h.evolves j r hj

theorem Txn.Sound.issue {T : Timeline K Row} {Good : Store K Row → Prop}
    {body : C → Program K Row α} {s : Store K Row} {x x' : Txn K Row C α}
    (h : x.Sound T Good body s) (hgood : Good s)
    (hx : x.issue (s.overlay x.writes) = some x') : x'.Sound T Good body s := by
  obtain ⟨lb, p, w, hlax, hat⟩ := h.run
  have hlb : T.before lb s := hlax.bound_le h.base_le
  have hnow : Past T Good lb s s := ⟨hlb, T.before_refl s, hgood⟩
  rcases issue_cases hx with ⟨next, hp, rfl⟩ | ⟨u, next, v, hp, hv, rfl⟩ | ⟨u, next, hp, hv, rfl⟩ |
    ⟨u, next, hp, rfl⟩ | ⟨u, next, hp, rfl⟩
  · have hresp := h.respects
    rw [hp] at hat hresp
    obtain ⟨rfl, rfl⟩ := hat
    exact ⟨h.base_le, h.base_good, h.evolves, hresp _, s, _, _,
      hlax.trans (.query hnow (.refl _ _ _)), rfl, rfl⟩
  · have hresp := h.respects
    rw [hp] at hat hresp
    obtain ⟨rfl, rfl⟩ := hat
    exact ⟨h.base_le, h.base_good, h.evolves, hresp, lb, _, _, hlax, rfl, rfl, s, hnow,
      by rw [hv]; rfl⟩
  · have hresp := h.respects
    rw [hp] at hat hresp
    obtain ⟨rfl, rfl⟩ := hat
    exact ⟨h.base_le, h.base_good, h.evolves, hresp.2 none, s, _, _,
      hlax.trans (.miss hnow hv (.refl _ _ _)), rfl, rfl⟩
  · have hresp := h.respects
    rw [hp] at hat hresp
    obtain ⟨rfl, rfl⟩ := hat
    refine ⟨h.base_le, h.base_good, h.evolves, hresp, lb, _, _, hlax, rfl, fun k =>
      ⟨fun _ => rfl, fun hk => Or.inr ⟨rfl, s, hnow, ?_⟩⟩⟩
    cases hm : u.matched (s.overlay x.writes) k with
    | none => rfl
    | some v =>
        refine absurd ?_ hk
        rw [List.mem_filter, hm]
        exact ⟨Store.mem_keys_of_row (BulkUpdate.matched_some.mp hm).1, rfl⟩
  · have hresp := h.respects
    rw [hp] at hat hresp
    obtain ⟨rfl, hat⟩ := hat
    exact ⟨h.base_le, h.base_good, h.evolves, hresp.2, lb, _, _,
      hlax.trans (.sweep (fun k => (hat k).2 (by simp)) (.refl _ _ _)), rfl, rfl⟩

theorem Txn.Sound.process {T : Timeline K Row} {Good : Store K Row → Prop}
    {body : C → Program K Row α} {s : Store K Row} {x x' : Txn K Row C α} {k : K}
    (h : x.Sound T Good body s) (hgood : Good s)
    (hx : x.process s k = some x') : x'.Sound T Good body s := by
  obtain ⟨lb, p, w, hlax, hat⟩ := h.run
  have hlb : T.before lb s := hlax.bound_le h.base_le
  have hnow : Past T Good lb s s := ⟨hlb, T.before_refl s, hgood⟩
  rcases process_cases hx with ⟨u, next, v, hp, rfl, hrow, hcond, rfl⟩ |
    ⟨u, next, hp, rfl, hfalse, rfl⟩ | ⟨u, todo, next, v, hp, hk, hv, rfl⟩ |
    ⟨u, todo, next, hp, hk, hv, rfl⟩
  · have hresp := h.respects
    rw [hp] at hat hresp
    obtain ⟨rfl, rfl, V, hV, hsub⟩ := hat
    exact ⟨h.base_le, h.base_good, h.evolves_set hrow (hresp.1 v hcond), hresp.2 _, V, _, _,
      hlax.trans (.hit hV hsub hrow hcond (.refl _ _ _)), rfl, rfl⟩
  · have hresp := h.respects
    rw [hp] at hat hresp
    obtain ⟨rfl, rfl, -⟩ := hat
    -- The second look at the row is the one that counts: it sees the present store.
    have hmiss : u.matched (s.overlay x.writes) = none := by
      cases hm : u.matched (s.overlay x.writes) with
      | none => rfl
      | some v =>
          obtain ⟨-, hrow, hcond⟩ := RowUpdate.matched_some.mp hm
          rw [hfalse v hrow] at hcond
          exact absurd hcond (by simp)
    exact ⟨h.base_le, h.base_good, h.evolves, hresp.2 none, s, _, _,
      hlax.trans (.miss hnow hmiss (.refl _ _ _)), rfl, rfl⟩
  · have hresp := h.respects
    rw [hp] at hat hresp
    obtain ⟨rfl, hat⟩ := hat
    obtain ⟨hrow, hcond⟩ := BulkUpdate.matched_some.mp hv
    refine ⟨h.base_le, h.base_good, h.evolves_set hrow (hresp.1 k v hcond), hresp, lb, _, _,
      hlax, rfl, fun j => ?_⟩
    by_cases hjk : j = k
    · subst hjk
      refine ⟨fun hj => by simp at hj, fun _ => Or.inl ⟨v, ?_, by simp⟩⟩
      rw [BulkUpdate.matched, Store.overlay_row, ← (hat j).1 hk, ← Store.overlay_row]
      exact hv
    · simp only [List.mem_filter, decide_eq_true_eq, hjk, ne_eq, not_false_eq_true, and_true,
        Writes.set_ne _ _ hjk]
      exact hat j
  · have hresp := h.respects
    rw [hp] at hat hresp
    obtain ⟨rfl, hat⟩ := hat
    refine ⟨h.base_le, h.base_good, h.evolves, hresp, lb, _, _, hlax, rfl, fun j => ?_⟩
    by_cases hjk : j = k
    · subst hjk
      refine ⟨fun hj => by simp at hj, fun _ => Or.inr ⟨(hat j).1 hk, s, hnow, ?_⟩⟩
      rw [BulkUpdate.matched, Store.overlay_row, ← (hat j).1 hk, ← Store.overlay_row]
      exact hv
    · simp only [List.mem_filter, decide_eq_true_eq, hjk, ne_eq, not_false_eq_true, and_true]
      exact hat j

/-- Processing a row writes that row or nothing. -/
theorem writes_process {x x' : Txn K Row C α} {s : Store K Row} {k : K}
    (hx : x.process s k = some x') {j : K} (hj : j ≠ k) : x'.writes j = x.writes j := by
  rcases process_cases hx with ⟨u, next, v, -, rfl, -, -, rfl⟩ | ⟨u, next, -, -, -, rfl⟩ |
    ⟨u, todo, next, v, -, -, -, rfl⟩ | ⟨u, todo, next, -, -, -, rfl⟩
  · exact Writes.set_ne _ _ hj
  · rfl
  · exact Writes.set_ne _ _ hj
  · rfl

/-- Processing a row keeps what was written. -/
theorem writes_process_mono {x x' : Txn K Row C α} {s : Store K Row} {k : K}
    (hx : x.process s k = some x') {j : K} (hj : (x.writes j).isSome = true) :
    (x'.writes j).isSome = true := by
  by_cases hjk : j = k
  · subst hjk
    rcases process_cases hx with ⟨u, next, v, -, rfl, -, -, rfl⟩ | ⟨u, next, -, -, -, rfl⟩ |
      ⟨u, todo, next, v, -, -, -, rfl⟩ | ⟨u, todo, next, -, -, -, rfl⟩
    · simp
    · exact hj
    · simp
    · exact hj
  · rw [writes_process hx hjk]
    exact hj

omit [DecidableEq K] in
theorem writes_issue {x x' : Txn K Row C α} {view : Store K Row} (hx : x.issue view = some x') :
    x'.writes = x.writes := by
  rcases issue_cases hx with ⟨next, -, rfl⟩ | ⟨u, next, v, -, -, rfl⟩ | ⟨u, next, -, -, rfl⟩ |
    ⟨u, next, -, rfl⟩ | ⟨u, next, -, rfl⟩ <;> rfl

/-! ### The system invariant -/

variable {T : Timeline K Row} {body : C → Program K Row α} {allowed : List (Sigma Row) → Prop}
  {P : List (Event K Row C α) → Store K Row → Prop} {db db' : Db K Row C α}

theorem sound_init (hP : Publishes T body allowed P) : (Db.init : Db K Row C α).Sound T P body where
  good := hP.init
  txn := by intro t x hx; simp [Db.init] at hx
  lock := by intro t x k hx; simp [Db.init] at hx
  unheld := by intro t k _; simp [Db.init]

/-- Two transactions never hold the same row. -/
theorem Db.Sound.exclusive (h : db.Sound T P body) {t u : Nat} {x y : Txn K Row C α} {k : K}
    (hx : db.txns t = some x) (hy : db.txns u = some y) (hxk : (x.writes k).isSome = true)
    (hyk : (y.writes k).isSome = true) : t = u := by
  have ht := (h.lock t x k hx).mp hxk
  rw [(h.lock u y k hy).mp hyk, Option.some.injEq] at ht
  exact ht.symm

/-- Committing the writes of a transaction evolves the store. -/
theorem Db.Sound.le_commit (h : db.Sound T P body) {t : Nat} {x : Txn K Row C α}
    (hx : db.txns t = some x) : T.before db.store (db.store.overlay x.writes) := by
  refine T.before_overlay fun k v₀ v hk hw => ?_
  obtain ⟨v₁, hv₁, hrel⟩ := (h.txn t x hx).evolves k v hw
  rw [hk, Option.some.injEq] at hv₁
  exact hv₁ ▸ hrel

omit [DecidableEq K] in
theorem unlock_eq {locks : K → Option Nat} {t u : Nat} {k : K} (h : u ≠ t) :
    Db.unlock locks t k = some u ↔ locks k = some u := by
  unfold Db.unlock
  by_cases hk : locks k = some t
  · rw [if_pos hk, hk]
    simp only [reduceCtorEq, Option.some.injEq, false_iff]
    exact fun hc => h hc.symm
  · rw [if_neg hk]

omit [DecidableEq K] in
theorem unlock_self {locks : K → Option Nat} {t : Nat} {k : K} :
    Db.unlock locks t k ≠ some t := by
  unfold Db.unlock
  by_cases hk : locks k = some t
  · rw [if_pos hk]; simp
  · rw [if_neg hk]; exact hk

/-- Ending a transaction, and whatever it publishes, leaves the others sound. -/
theorem sound_end (h : db.Sound T P body) {t : Nat} {x : Txn K Row C α}
    (hx : db.txns t = some x) {s : Store K Row} {log : List (Event K Row C α)} (hgood : P log s)
    (hs : T.before db.store s) (hrow : ∀ k, x.writes k = none → s.row k = db.store.row k) :
    Db.Sound T P body
      { store := s, txns := Function.update db.txns t none, locks := Db.unlock db.locks t,
        log := log } where
  good := hgood
  txn := by
    intro u y hy
    obtain ⟨hut, hy⟩ := db.setTxn_none_cases hy
    refine (h.txn u y hy).stable hs fun k hk => hrow k ?_
    cases hw : x.writes k with
    | none => rfl
    | some v => exact absurd (h.exclusive hy hx hk (by rw [hw]; rfl)) hut
  lock := by
    intro u y k hy
    obtain ⟨hut, hy⟩ := db.setTxn_none_cases hy
    rw [h.lock u y k hy, unlock_eq hut]
  unheld := by
    intro u k hu
    by_cases hut : u = t
    · subst hut; exact unlock_self
    · simp only [Function.update_of_ne hut] at hu
      rw [ne_eq, unlock_eq hut]
      exact h.unheld u k hu

/-- A transaction that moves on by itself, and locks what it writes, leaves the others sound. -/
theorem sound_setTxn (h : db.Sound T P body) {t : Nat} {x' : Txn K Row C α}
    {locks : K → Option Nat} (hx' : x'.Sound T (fun s => ∃ log, P log s) body db.store)
    (hlocked : ∀ k, (x'.writes k).isSome = true ↔ locks k = some t)
    (hothers : ∀ u k, u ≠ t → (locks k = some u ↔ db.locks k = some u)) :
    Db.Sound T P body { db.setTxn t (some x') with locks := locks } where
  good := h.good
  txn := by
    intro u y hy
    rcases db.setTxn_cases hy with ⟨-, hself⟩ | ⟨-, hother⟩
    · obtain rfl := Option.some.inj hself
      exact hx'
    · exact h.txn u y hother
  lock := by
    intro u y k hy
    rcases db.setTxn_cases hy with ⟨rfl, hself⟩ | ⟨hut, hother⟩
    · obtain rfl := Option.some.inj hself
      exact hlocked k
    · rw [h.lock u y k hother]
      exact (hothers u k hut).symm
  unheld := by
    intro u k hu
    have hut : u ≠ t := fun hc => by subst hc; simp at hu
    rw [ne_eq, hothers u k hut]
    exact h.unheld u k ((db.setTxn_ne _ hut).symm.trans hu)

theorem sound_step (hP : Publishes T body allowed P) (h : db.Sound T P body)
    {a : Action K Row C} (ha : ∀ rows, a = .insert rows → allowed rows)
    (hs : db.step body a = some db') : db'.Sound T P body := by
  have hgood : ∃ log, P log db.store := ⟨db.log, h.good⟩
  cases a with
  | begin t call =>
      obtain ⟨hnone, rfl⟩ := step_begin hs
      refine sound_setTxn h ?_ (fun k => ?_) fun _ _ _ => Iff.rfl
      · exact ⟨T.before_refl _, hgood, by intro k v hk; simp [Db.started] at hk,
          hP.respects call, db.store, _, _, .refl _ _ _, rfl, rfl⟩
      · simpa [Db.started] using h.unheld t k hnone
  | statement t =>
      obtain ⟨x, x', hx, hx', rfl⟩ := step_statement hs
      refine sound_setTxn h ((h.txn t x hx).issue hgood hx') (fun k => ?_) fun _ _ _ => Iff.rfl
      rw [writes_issue hx']
      exact h.lock t x k hx
  | row t k =>
      obtain ⟨x, x', hx, hfree, hx', rfl⟩ := step_row hs
      have hlocked : ∀ j, (x'.writes j).isSome = true ↔
          (if (x'.writes k).isSome then Function.update db.locks k (some t) else db.locks) j
            = some t := by
        intro j
        by_cases hj : j = k
        · subst hj
          by_cases hw : (x'.writes j).isSome = true
          · simp [hw]
          · simp only [hw, Bool.false_eq_true, if_false, false_iff]
            intro hc
            exact hw (writes_process_mono hx' ((h.lock t x j hx).mpr hc))
        · rw [writes_process hx' hj, h.lock t x j hx]
          by_cases hw : (x'.writes k).isSome = true
          · simp [hw, Function.update_of_ne hj]
          · simp [hw]
      have hother : ∀ u j, u ≠ t →
          ((if (x'.writes k).isSome then Function.update db.locks k (some t) else db.locks) j
            = some u ↔ db.locks j = some u) := by
        intro u j hut
        by_cases hw : (x'.writes k).isSome = true
        · rw [if_pos hw]
          by_cases hj : j = k
          · subst hj
            rw [Function.update_self]
            rcases hfree with hf | hf
            · rw [hf]; simpa using fun hc => hut hc.symm
            · rw [hf]
          · rw [Function.update_of_ne hj]
        · rw [if_neg hw]
      exact sound_setTxn h ((h.txn t x hx).process hgood hx') hlocked hother
  | commit t =>
      obtain ⟨x, a, hx, hphase, rfl⟩ := step_commit hs
      have hsound := h.txn t x hx
      obtain ⟨lb, p, w, hlax, hat⟩ := hsound.run
      rw [hphase] at hat
      obtain ⟨rfl, rfl⟩ := hat
      exact sound_end h hx (hP.commit h.good hsound.base_le hsound.base_good hlax)
        (h.le_commit hx) fun k hk => Store.overlay_row_none hk
  | abort t =>
      obtain ⟨x, hx, rfl⟩ := step_abort hs
      exact sound_end h hx h.good (T.before_refl _) fun _ _ => rfl
  | insert rows =>
      obtain ⟨s, hins, rfl⟩ := step_insert hs
      obtain ⟨hbefore, hP'⟩ := hP.insert h.good (ha rows rfl) hins
      refine ⟨hP', ?_, h.lock, h.unheld⟩
      intro t x hx
      refine (h.txn t x hx).stable hbefore fun k hk => ?_
      obtain ⟨v, hv⟩ := Option.isSome_iff_exists.mp hk
      obtain ⟨v₀, hv₀, -⟩ := (h.txn t x hx).evolves k v hv
      rw [hv₀, Store.row_insert?_old hins hv₀]

/--
**Committed stores may be understood commit by commit.**  A property that holds of
the empty store, and that every insert and every lax run publishes, holds of the
log and the committed store of every reachable state, whatever the interleaving.
-/
theorem published {ok : Db K Row C α → Action K Row C → Prop} (hP : Publishes T body allowed P)
    (hok : ∀ db rows, ok db (.insert rows) → allowed rows) (h : Reachable body ok db) :
    db.Sound T P body := by
  induction h with
  | init => exact sound_init hP
  | @step db db' _ a ha hs ih =>
      exact sound_step hP ih (fun rows hrows => hok db rows (hrows ▸ ha)) hs

/-! ### What was overwritten

A row is written when its version meets the condition of an `UPDATE`, and locked
from then on.  So the committed version under a write is one that met a condition.
-/

/-- Every `UPDATE` of the body changes only rows that satisfy `Open`. -/
def Program.Opens (Open : (k : K) → Row k → Prop) (p : Program K Row α) : Prop :=
  p.Forall (fun u => ∀ v, u.cond v = true → Open u.key v)
    (fun u => ∀ k v, u.cond k v = true → Open k v)

/-- The committed version of every written row satisfies `Open`. -/
def Writes.Over (w : Writes K Row) (s : Store K Row) (Open : (k : K) → Row k → Prop) : Prop :=
  ∀ k v, w k = some v → ∃ v₀, s.row k = some v₀ ∧ Open k v₀

omit [DecidableEq K] in
theorem Swept.over {T : Timeline K Row} {Good : Store K Row → Prop} {lb s : Store K Row}
    {Open : (k : K) → Row k → Prop} {u : BulkUpdate K Row} {w : Writes K Row} {k : K}
    {r : Option (Row k)} (hu : ∀ v, u.cond k v = true → Open k v) (hw : w.Over s Open)
    (h : Swept T Good lb s u w k r) {v : Row k} (hr : r = some v) :
    ∃ v₀, s.row k = some v₀ ∧ Open k v₀ := by
  rcases h with ⟨v', hv', -⟩ | ⟨hr', -⟩
  · obtain ⟨hrow, hcond⟩ := BulkUpdate.matched_some.mp hv'
    rcases Store.row_of_overlay hrow with hwk | ⟨-, hs⟩
    · exact hw k v' hwk
    · exact ⟨v', hs, hu v' hcond⟩
  · exact hw k v (by rw [← hr', hr])

theorem Lax.over {T : Timeline K Row} {Good : Store K Row → Prop} {s lb lb' : Store K Row}
    {p p' : Program K Row α} {w w' : Writes K Row} {Open : (k : K) → Row k → Prop}
    (h : Lax T Good s lb p w lb' p' w') :
    p.Opens Open → w.Over s Open → p'.Opens Open ∧ w'.Over s Open := by
  induction h with
  | refl => exact fun hp hw => ⟨hp, hw⟩
  | query _ _ ih => exact fun hp hw => ih (hp _) hw
  | @hit _ _ _ u _ w _ _ v _ _ hrow hcond _ ih =>
      intro hp hw
      refine ih (hp.2 _) fun k r hk => ?_
      by_cases hku : k = u.key
      · subst hku
        rcases Store.row_of_overlay hrow with hwk | ⟨-, hs⟩
        · exact hw _ v hwk
        · exact ⟨v, hs, hp.1 v hcond⟩
      · rw [Writes.set_ne _ _ hku] at hk
        exact hw k r hk
  | miss _ _ _ ih => exact fun hp hw => ih (hp.2 none) hw
  | sweep hsweep _ ih =>
      intro hp hw
      exact ih hp.2 fun k v hk => (hsweep k).over (hp.1 k) hw hk

/-- The committed versions under the writes of a transaction in flight. -/
theorem Txn.Sound.over {T : Timeline K Row} {Good : Store K Row → Prop}
    {body : C → Program K Row α} {s : Store K Row} {x : Txn K Row C α}
    {Open : (k : K) → Row k → Prop} (h : x.Sound T Good body s)
    (hbody : ∀ c, (body c).Opens Open) : x.writes.Over s Open := by
  obtain ⟨lb, p, w, hlax, hat⟩ := h.run
  obtain ⟨hp, hw⟩ := hlax.over (hbody x.call) (by intro k v hk; simp at hk)
  cases hphase : x.phase with
  | ready p' =>
      rw [hphase] at hat
      rw [hat.2]; exact hw
  | waiting u next =>
      rw [hphase] at hat
      rw [hat.2.1]; exact hw
  | sweeping u todo next =>
      rw [hphase] at hat
      obtain ⟨rfl, hleft⟩ := hat
      intro k v hk
      by_cases hmem : k ∈ todo
      · exact hw k v (by rw [← (hleft k).1 hmem, hk])
      · exact ((hleft k).2 hmem).over (hp.1 k) hw hk

end Sound

end Sql
