/-
Items that depend on each other, and the orders in which they can be taken.

Every item has a name and lists the names of the items it depends on.  A list is in order
when everything an item depends on comes before it.  Where a list can be put in order
there is no cycle, and without a cycle there is an item to begin with.
-/
import Mathlib.Data.Fintype.Card
import Mathlib.Data.Fintype.EquivFin
import Mathlib.Data.List.Nodup
import Mathlib.Logic.Relation
import Mathlib.Order.WellFounded

namespace Graph

variable {α κ : Type}

/-- An item of the list depends on a name. -/
def DependsOn (name : α → κ) (dependencies : α → List κ) (items : List α) (child parent : κ) :
    Prop :=
  ∃ t ∈ items, name t = child ∧ parent ∈ dependencies t

/-- Every item comes after all it depends on. -/
def InOrder (name : α → κ) (dependencies : α → List κ) (items : List α) : Prop :=
  ∀ a t b, items = a ++ t :: b → ∀ d ∈ dependencies t, d ∈ a.map name

variable {name : α → κ} {dependencies : α → List κ} {items : List α}

theorem inOrder_nil : InOrder name dependencies [] := by
  intro a t b h
  simp at h

theorem InOrder.snoc (h : InOrder name dependencies items) {t : α}
    (ht : ∀ d ∈ dependencies t, d ∈ items.map name) :
    InOrder name dependencies (items ++ [t]) := by
  intro a u b hsplit
  rcases List.eq_nil_or_concat b with rfl | ⟨b', x, rfl⟩
  · obtain ⟨rfl, hu⟩ := List.append_inj' hsplit rfl
    obtain rfl : t = u := by simpa using hu
    exact ht
  · rw [List.concat_eq_append, ← List.cons_append, ← List.append_assoc] at hsplit
    exact h a u b' (List.append_inj' hsplit rfl).1

/-- Other names for the same items change nothing. -/
theorem inOrder_map_iff {β μ : Type} {name' : β → μ} {dependencies' : β → List μ} {f : α → β}
    {g : κ → μ} (hg : Function.Injective g) (hname : ∀ t, name' (f t) = g (name t))
    (hdependencies : ∀ t, dependencies' (f t) = (dependencies t).map g) :
    InOrder name' dependencies' (items.map f) ↔ InOrder name dependencies items := by
  have hnames : ∀ l : List α, (l.map f).map name' = (l.map name).map g := by
    intro l
    rw [List.map_map, List.map_map]
    exact List.map_congr_left fun t _ => hname t
  constructor
  · intro h a t b hsplit d hd
    have := h (a.map f) (f t) (b.map f) (by rw [hsplit]; simp) (g d)
      (by rw [hdependencies]; exact List.mem_map_of_mem hd)
    rw [hnames] at this
    exact (List.mem_map_of_injective hg).mp this
  · intro h a t b hsplit d hd
    obtain ⟨a', l, rfl, rfl, hl⟩ := List.map_eq_append_iff.mp hsplit
    obtain ⟨t', b', rfl, rfl, rfl⟩ := List.map_eq_cons_iff.mp hl
    rw [hdependencies] at hd
    obtain ⟨e, he, rfl⟩ := List.mem_map.mp hd
    rw [hnames]
    exact List.mem_map_of_mem (h a' t' b' rfl e he)

/-- A list in order has no cycle. -/
theorem InOrder.acyclic (h : InOrder name dependencies items) (hnd : (items.map name).Nodup)
    (k : κ) : ¬ Relation.TransGen (DependsOn name dependencies items) k k := by
  -- Along a dependency, the place in the list falls.
  have hfall : ∀ {x y}, Relation.TransGen (DependsOn name dependencies items) x y →
      ∀ a t b, items = a ++ t :: b → name t = x → y ∈ a.map name := by
    intro x y hxy
    induction hxy with
    | single hstep =>
        intro a t b hsplit hname
        obtain ⟨u, hu, hux, hdep⟩ := hstep
        have ht : t ∈ items := by rw [hsplit]; simp
        rw [List.inj_on_of_nodup_map hnd hu ht (hux.trans hname.symm)] at hdep
        exact h a t b hsplit _ hdep
    | tail _ hstep ih =>
        intro a t b hsplit hname
        obtain ⟨u, hu, hux, hdep⟩ := hstep
        obtain ⟨v, hv, hvx⟩ := List.mem_map.mp (ih a t b hsplit hname)
        have hmem : v ∈ items := by rw [hsplit]; simp [hv]
        obtain rfl : u = v := List.inj_on_of_nodup_map hnd hu hmem (hux.trans hvx.symm)
        obtain ⟨a₁, a₂, rfl⟩ := List.append_of_mem hv
        have := h a₁ u (a₂ ++ t :: b) (by rw [hsplit]; simp) _ hdep
        simp only [List.map_append, List.mem_append]
        exact Or.inl this
  intro hcycle
  obtain ⟨x, ⟨t, ht, rfl, hdep⟩, -⟩ := Relation.TransGen.head'_iff.mp hcycle
  obtain ⟨a, b, hsplit⟩ := List.append_of_mem ht
  have hmem := hfall hcycle a t b hsplit rfl
  rw [hsplit, List.map_append, List.map_cons] at hnd
  exact (List.nodup_append.mp hnd).2.2 _ hmem _ (by simp) rfl

/-- A rank that falls along every step rules cycles out. -/
theorem acyclic_of_rank {r : κ → κ → Prop} (rank : κ → Nat) (h : ∀ a b, r a b → rank b < rank a)
    (k : κ) : ¬ Relation.TransGen r k k := by
  intro hcycle
  have hfall : Relation.TransGen (· > ·) (rank k) (rank k) := hcycle.lift rank h
  rw [Relation.transGen_eq_self] at hfall
  exact Nat.lt_irrefl _ hfall

/-- Without a cycle, something in a finite collection depends on nothing else in it. -/
theorem exists_source {r : κ → κ → Prop} (hacyclic : ∀ k, ¬ Relation.TransGen r k k)
    (S : Finset κ) (hS : S.Nonempty) : ∃ m ∈ S, ∀ x ∈ S, ¬ r m x := by
  let below : S → S → Prop := fun x y => Relation.TransGen r y.1 x.1
  have : IsTrans S below := ⟨fun _ _ _ hab hbc => hbc.trans hab⟩
  have : Std.Irrefl below := ⟨fun x hx => hacyclic x.1 hx⟩
  have hwf : WellFounded below := Finite.wellFounded_of_trans_of_irrefl below
  obtain ⟨k, hk⟩ := hS
  obtain ⟨m, -, hm⟩ := hwf.has_min Set.univ ⟨⟨k, hk⟩, trivial⟩
  exact ⟨m.1, m.2, fun x hx hr => hm ⟨x, hx⟩ trivial (Relation.TransGen.single hr)⟩

/-- Without a cycle, what passes from all that something depends on to itself holds throughout. -/
theorem acyclic_induction {r : κ → κ → Prop} (hacyclic : ∀ k, ¬ Relation.TransGen r k k)
    (S : Finset κ) {P : κ → Prop} (h : ∀ k ∈ S, (∀ j ∈ S, r k j → P j) → P k) :
    ∀ k ∈ S, P k := by
  classical
  intro k hk
  by_contra hnot
  obtain ⟨m, hm, hsource⟩ := exists_source hacyclic (S.filter fun j => ¬ P j)
    ⟨k, Finset.mem_filter.mpr ⟨hk, hnot⟩⟩
  rw [Finset.mem_filter] at hm
  refine hm.2 (h m hm.1 fun j hj hr => ?_)
  by_contra hj'
  exact hsource j (Finset.mem_filter.mpr ⟨hj, hj'⟩) hr

/-- Without a cycle, the items can be put in order. -/
theorem exists_inOrder
    (hknown : ∀ t ∈ items, ∀ d ∈ dependencies t, d ∈ items.map name)
    (hacyclic : ∀ k, ¬ Relation.TransGen (DependsOn name dependencies items) k k) :
    ∃ order, order.Perm items ∧ InOrder name dependencies order := by
  classical
  -- Some are in order already, and among the rest there is always one to go on with.
  have hgo : ∀ n done rest, rest.length = n → (done ++ rest).Perm items →
      InOrder name dependencies done → ∃ order, order.Perm items ∧
        InOrder name dependencies order := by
    intro n
    induction n with
    | zero =>
        intro done rest hlength hperm hdone
        rw [List.length_eq_zero_iff.mp hlength, List.append_nil] at hperm
        exact ⟨done, hperm, hdone⟩
    | succ n ih =>
        intro done rest hlength hperm hdone
        have hmem : ∀ t ∈ rest, t ∈ items := fun t ht => hperm.mem_iff.mp (by simp [ht])
        obtain ⟨m, hm, hsource⟩ := exists_source hacyclic (rest.map name).toFinset
          (by simpa [← List.length_pos_iff] using by omega)
        obtain ⟨t, ht, rfl⟩ := List.mem_map.mp (List.mem_toFinset.mp hm)
        have hdeps : ∀ d ∈ dependencies t, d ∈ done.map name := by
          intro d hd
          obtain ⟨u, hu, rfl⟩ := List.mem_map.mp (hknown t (hmem t ht) d hd)
          rcases List.mem_append.mp (hperm.mem_iff.mpr hu) with hdone | hrest
          · exact List.mem_map_of_mem hdone
          · exact absurd ⟨t, hmem t ht, rfl, hd⟩
              (hsource _ (List.mem_toFinset.mpr (List.mem_map_of_mem hrest)))
        obtain ⟨a, b, rfl⟩ := List.append_of_mem ht
        refine ih (done ++ [t]) (a ++ b) ?_ ?_ (hdone.snoc hdeps)
        · simp only [List.length_append, List.length_cons] at hlength ⊢
          omega
        · rw [List.append_assoc]
          have hmiddle : (a ++ t :: b).Perm (t :: (a ++ b)) := List.perm_middle
          exact (hmiddle.symm.append_left done).trans hperm
  exact hgo _ [] items rfl (.refl _) inOrder_nil

/-! ### Evaluation

Every item has a value that is computed from those of the items it depends on.
-/

section Evaluate

variable {β : Type} [DecidableEq κ]

/-- The value of one more item. -/
def evaluateItem (name : α → κ) (compute : (κ → Option β) → α → β) (values : κ → Option β)
    (t : α) : κ → Option β :=
  Function.update values (name t) (some (compute values t))

/-- The values of the items, one after the other. -/
def evaluate (name : α → κ) (compute : (κ → Option β) → α → β) (order : List α) : κ → Option β :=
  order.foldl (evaluateItem name compute) fun _ => none

/-- **One value fits.**  Values that are computed from each other as they should be are those
that evaluation in any order comes to. -/
theorem evaluate_eq {compute : (κ → Option β) → α → β} (horder : InOrder name dependencies items)
    {value : κ → β}
    (hvalue : ∀ t ∈ items, ∀ values : κ → Option β,
      (∀ d ∈ dependencies t, values d = some (value d)) → compute values t = value (name t)) :
    ∀ t ∈ items, evaluate name compute items (name t) = some (value (name t)) := by
  have hgo : ∀ rest done values, items = done ++ rest →
      (∀ t ∈ done, values (name t) = some (value (name t))) →
      ∀ t ∈ items, rest.foldl (evaluateItem name compute) values (name t) =
        some (value (name t)) := by
    intro rest
    induction rest with
    | nil =>
        intro done values hsplit hdone
        rw [List.append_nil] at hsplit
        exact fun t ht => hdone t (hsplit ▸ ht)
    | cons u rest ih =>
        intro done values hsplit hdone
        refine ih (done ++ [u]) _ (by rw [hsplit, List.append_assoc]; rfl) fun t ht => ?_
        have hu : u ∈ items := by rw [hsplit]; simp
        have hcompute : compute values u = value (name u) := by
          refine hvalue u hu values fun d hd => ?_
          obtain ⟨v, hv, rfl⟩ := List.mem_map.mp (horder done u rest hsplit d hd)
          exact hdone v hv
        unfold evaluateItem
        by_cases htu : name t = name u
        · rw [htu, Function.update_self, hcompute]
        · rw [Function.update_of_ne htu]
          rcases List.mem_append.mp ht with ht | ht
          · exact hdone t ht
          · rw [List.mem_singleton.mp ht] at htu
            exact absurd rfl htu
  exact hgo items [] _ rfl (by simp)

end Evaluate

end Graph
