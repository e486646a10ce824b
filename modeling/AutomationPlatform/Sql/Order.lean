/-
The order in which a scan meets the rows.

A statement takes some keys out and puts new ones at the end.  So rows that stay keep their
places, and a scan meets them in the order in which it has met them before: what is read of
them is the same list, whatever happens to the rows around them.
-/
import AutomationPlatform.Sql.Schema

namespace Sql

variable {K : Type} {Row : K → Type}

namespace Store

/-- The keys are some of those of the first store, in their order, and then new ones. -/
def Grows (new : K → Prop) (s s' : Store K Row) : Prop :=
  ∃ kept added, s'.keys = kept ++ added ∧ kept.Sublist s.keys ∧ ∀ k ∈ added, new k

variable {new : K → Prop} {s s' s'' : Store K Row}

theorem Grows.of_sublist (h : s'.keys.Sublist s.keys) : Grows new s s' :=
  ⟨s'.keys, [], (List.append_nil _).symm, h, by simp⟩

theorem Grows.refl (s : Store K Row) : Grows new s s :=
  .of_sublist (List.Sublist.refl _)

theorem Grows.trans (h : Grows new s s') (h' : Grows new s' s'') : Grows new s s'' := by
  obtain ⟨kept, added, hkeys, hkept, hadded⟩ := h
  obtain ⟨kept', added', hkeys', hkept', hadded'⟩ := h'
  rw [hkeys] at hkept'
  obtain ⟨a, b, rfl, ha, hb⟩ := List.sublist_append_iff.mp hkept'
  refine ⟨a, b ++ added', by rw [hkeys', List.append_assoc], ha.trans hkept, fun k hk => ?_⟩
  rcases List.mem_append.mp hk with hkb | hka
  · exact hadded k (hb.subset hkb)
  · exact hadded' k hka

theorem grows_deleteWhere (s : Store K Row) (cond : (k : K) → Row k → Bool) :
    Grows new s (s.deleteWhere cond) :=
  .of_sublist List.filter_sublist

theorem grows_put [DecidableEq K] (s : Store K Row) {k : K} (v : Row k) (hk : new k) :
    Grows new s (s.put k v) := by
  by_cases hmem : k ∈ s.keys
  · refine .of_sublist ?_
    rw [show (s.put k v).keys = s.keys from if_pos hmem]
  · refine ⟨s.keys, [k], if_neg hmem, List.Sublist.refl _, fun j hj => ?_⟩
    rw [List.mem_singleton] at hj
    exact hj ▸ hk

/-- A loop whose rounds put rows at the end puts rows at the end. -/
theorem grows_foldlM {ε α : Type} {f : Store K Row → α → Except ε (Store K Row)} {l : List α}
    (hf : ∀ a ∈ l, ∀ s s', f s a = .ok s' → Grows new s s') (h : l.foldlM f s = .ok s') :
    Grows new s s' := by
  induction l generalizing s with
  | nil =>
      obtain rfl : s = s' := Except.ok.inj h
      exact .refl s
  | cons a rest ih =>
      rw [List.foldlM_cons] at h
      obtain ⟨mid, hmid, hrest⟩ := bind_eq_ok.mp h
      exact (hf a (by simp) s mid hmid).trans (ih (fun b hb => hf b (by simp [hb])) hrest)

/-- Keys that are in both stores and not new are met in the same order. -/
theorem Grows.filter_keys {p : K → Bool} (h : Grows new s s') (hold : ∀ k, p k = true → ¬ new k)
    (hkept : ∀ k, p k = true → k ∈ s.keys → k ∈ s'.keys) :
    s'.keys.filter p = s.keys.filter p := by
  obtain ⟨kept, added, hkeys, hsub, hadded⟩ := h
  have hnone : added.filter p = [] :=
    List.filter_eq_nil_iff.mpr fun k hk hp => hold k hp (hadded k hk)
  have hsub' : (s'.keys.filter p).Sublist (s.keys.filter p) := by
    rw [hkeys, List.filter_append, hnone, List.append_nil]
    exact hsub.filter p
  -- Nothing that is selected is lost, and no key comes twice.
  have hback : s.keys.filter p ⊆ s'.keys.filter p := by
    intro k hk
    obtain ⟨hmem, hp⟩ := List.mem_filter.mp hk
    exact List.mem_filter.mpr ⟨hkept k hp hmem, hp⟩
  exact hsub'.eq_of_length_le (List.subperm_of_subset (s.nodup.filter p) hback).length_le

/-- A scan is decided by the rows it takes, and the order of their keys. -/
theorem scan_congr_filter {β : Type} {f g : (k : K) → Row k → Option β} (p : K → Bool)
    (hkeys : s'.keys.filter p = s.keys.filter p)
    (hrow : ∀ k, p k = true → (s'.row k).bind (f k) = (s.row k).bind (g k))
    (hleft : ∀ k, p k = false → (s'.row k).bind (f k) = none)
    (hright : ∀ k, p k = false → (s.row k).bind (g k) = none) :
    s'.scan f = s.scan g := by
  have honly : ∀ (keys : List K) (h : K → Option β), (∀ k, p k = false → h k = none) →
      keys.filterMap h = (keys.filter p).filterMap h := by
    intro keys h hnone
    rw [List.filterMap_filter]
    refine List.filterMap_congr fun k _ => ?_
    by_cases hp : p k = true
    · rw [if_pos hp]
    · rw [if_neg hp, hnone k (by simpa using hp)]
  unfold scan
  rw [honly _ _ hleft, honly _ _ hright, hkeys]
  exact List.filterMap_congr fun k hk => hrow k (List.mem_filter.mp hk).2

end Store

namespace Schema

variable {U : Type} [DecidableEq K] [DecidableEq U] {schema : Schema K Row U} {new : K → Prop}
  {s s' : Store K Row}

theorem grows_write {r : Sigma Row} (h : schema.write s r = .ok s') (hr : new r.1) :
    Store.Grows new s s' := by
  rw [(writable_of_ok h).2]
  exact Store.grows_put s r.2 hr

theorem grows_insert {r : Sigma Row} (h : schema.insert s r = .ok s') (hr : new r.1) :
    Store.Grows new s s' := by
  unfold insert at h
  split at h
  · simp at h
  · exact grows_write h hr

omit [DecidableEq K] [DecidableEq U] in
theorem grows_delete {cond : (k : K) → Row k → Bool} (h : schema.delete s cond = .ok s') :
    Store.Grows new s s' := by
  unfold delete at h
  split at h
  · simp at h
  split at h
  · simp at h
  obtain rfl := Except.ok.inj h
  exact (Store.grows_deleteWhere s cond).trans (Store.grows_deleteWhere _ _)

end Schema

end Sql
