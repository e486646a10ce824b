/-
The search for a dependency cycle.

The loop takes tasks off a stack and counts down what their children still wait for.  Three
things are kept.  The tasks taken off so far are in order, each after all it depends on.  The
count of a task is the number of its dependencies not taken off yet.  And a task has been
taken off or waits on the stack exactly when all its dependencies have been taken off.

No task gets on the stack twice, so there are no more rounds than tasks.  When the stack is
empty and tasks are left, each of them depends on another that is left, which is only
possible in a circle.
-/
import AutomationPlatform.Application.WorkflowDefinitions
import AutomationPlatform.Graph.Order
import Mathlib.Data.List.Perm.Subperm

namespace AutomationPlatform

namespace WorkflowDefinitionService

variable {tasks : List CreateTaskDefinition}

/-- What the checks before the search establish of the dependencies. -/
structure WellLinked (tasks : List CreateTaskDefinition) : Prop where
  keys : (tasks.map (·.key)).Nodup
  duplicates : ∀ t ∈ tasks, t.dependencies.Nodup
  known : ∀ t ∈ tasks, ∀ d ∈ t.dependencies, d ∈ tasks.map (·.key)

/-- No task depends on itself, directly or through others. -/
def Acyclic (tasks : List CreateTaskDefinition) : Prop :=
  ∀ key, ¬ Relation.TransGen (Graph.DependsOn (·.key) (·.dependencies) tasks) key key

/-- The tasks can be put in order, each after all it depends on. -/
def Orderable (tasks : List CreateTaskDefinition) : Prop :=
  ∃ order, order.Perm tasks ∧ Graph.InOrder (·.key) (·.dependencies) order

/-! ### The children -/

/-- The keys of the tasks in a list that depend on a key. -/
def childrenOf (tasks : List CreateTaskDefinition) (key : String) : List String :=
  (tasks.filter fun t => key ∈ t.dependencies).map (·.key)

theorem appendChild_foldlM (child : String) {parents : List String} (hnd : parents.Nodup)
    {children : Dict String (List String)}
    (hrow : ∀ p ∈ parents, (children.row p).isSome = true) :
    ∃ children', parents.foldlM (appendChild child) children = .ok children' ∧
      ∀ key, children'.row key =
        if key ∈ parents then (children.row key).map (· ++ [child]) else children.row key := by
  induction parents generalizing children with
  | nil => exact ⟨children, rfl, by simp⟩
  | cons p rest ih =>
      obtain ⟨hp, hrest⟩ := List.nodup_cons.mp hnd
      obtain ⟨keys, hkeys⟩ := Option.isSome_iff_exists.mp (hrow p (by simp))
      have hstep : appendChild child children p = .ok (children.put p (keys ++ [child])) := by
        unfold appendChild
        rw [Dict.get_eq_ok.mpr hkeys]
        rfl
      have hrow₁ : ∀ q ∈ rest, ((children.put p (keys ++ [child])).row q).isSome = true :=
        fun q hq => (Sql.Store.put_isSome _ _ _ _).mpr (Or.inr (hrow q (by simp [hq])))
      obtain ⟨children', hfold, hrow'⟩ := ih hrest hrow₁
      refine ⟨children', by rw [List.foldlM_cons, hstep]; exact hfold, fun key => ?_⟩
      rw [hrow']
      by_cases hk : key = p
      · subst hk
        simp [hp, hkeys]
      · rw [Sql.Store.put_row_ne _ _ hk]
        simp [hk]

theorem appendToParents_foldlM (hlinked : WellLinked tasks) {tds : List CreateTaskDefinition}
    (hmem : ∀ t ∈ tds, t ∈ tasks) {children : Dict String (List String)}
    {f : String → List String} (hrow : ∀ key ∈ tasks.map (·.key), children.row key = some (f key)) :
    ∃ children', tds.foldlM appendToParents children = .ok children' ∧
      ∀ key ∈ tasks.map (·.key), children'.row key = some (f key ++ childrenOf tds key) := by
  induction tds generalizing children f with
  | nil => exact ⟨children, rfl, by simpa [childrenOf] using hrow⟩
  | cons t rest ih =>
      have ht := hmem t (by simp)
      have hparents : ∀ p ∈ t.dependencies, (children.row p).isSome = true :=
        fun p hp => by rw [hrow p (hlinked.known t ht p hp)]; rfl
      obtain ⟨children₁, hstep, hrow₁⟩ :=
        appendChild_foldlM t.key (hlinked.duplicates t ht) hparents
      have hnext : ∀ key ∈ tasks.map (·.key), children₁.row key =
          some (f key ++ if key ∈ t.dependencies then [t.key] else []) := by
        intro key hkey
        rw [hrow₁, hrow key hkey]
        by_cases hd : key ∈ t.dependencies <;> simp [hd]
      obtain ⟨children', hfold, hrow'⟩ := ih (fun u hu => hmem u (by simp [hu])) hnext
      refine ⟨children', ?_, fun key hkey => ?_⟩
      · rw [List.foldlM_cons, show appendToParents children t = _ from hstep]
        exact hfold
      · rw [hrow' key hkey]
        by_cases hd : key ∈ t.dependencies <;> simp [childrenOf, hd]

/-- The child keys of every task. -/
theorem childKeys_ok (hlinked : WellLinked tasks) :
    ∃ children, childKeys tasks = .ok children ∧
      ∀ key ∈ tasks.map (·.key), children.row key = some (childrenOf tasks key) := by
  have hstart : ∀ key ∈ tasks.map (·.key),
      (Dict.ofList (tasks.map fun task => (task.key, ([] : List String)))).row key = some [] := by
    intro key hkey
    obtain ⟨t, ht, rfl⟩ := List.mem_map.mp hkey
    refine Dict.ofList_row ?_ (List.mem_map.mpr ⟨t, ht, rfl⟩)
    rw [List.map_map]
    exact hlinked.keys
  obtain ⟨children, hfold, hrow⟩ := appendToParents_foldlM hlinked (fun t ht => ht) hstart
  exact ⟨children, hfold, by simpa using hrow⟩

/-! ### One round -/

/-- How many dependencies of a task have not been taken off. -/
def waiting (done : List CreateTaskDefinition) (t : CreateTaskDefinition) : List String :=
  t.dependencies.filter (· ∉ done.map (·.key))

/-- What the loop keeps: `done` are the tasks taken off, in this order. -/
structure Eliminated (tasks done : List CreateTaskDefinition) (x : Elimination) : Prop where
  processed : x.processed = done.length
  subset : ∀ t ∈ done, t ∈ tasks
  ready : ∀ key ∈ x.ready, key ∈ tasks.map (·.key)
  nodup : (done.map (·.key) ++ x.ready).Nodup
  order : Graph.InOrder (·.key) (·.dependencies) done
  counts : ∀ t ∈ tasks,
    x.remainingDependencies.row t.key = some ((waiting done t).length : Int)
  free : ∀ t ∈ tasks, t.key ∈ done.map (·.key) ++ x.ready ↔ waiting done t = []

/-- Counting down some tasks, each once. -/
theorem decrement_foldlM {keys : List String} (hnd : keys.Nodup) {x : Elimination}
    {count : String → Int} (hrow : ∀ key ∈ keys, x.remainingDependencies.row key = some (count key)) :
    ∃ x', keys.foldlM decrement x = .ok x' ∧ x'.processed = x.processed ∧
      x'.ready = (keys.filter fun key => count key = 1).reverse ++ x.ready ∧
      ∀ key, x'.remainingDependencies.row key =
        if key ∈ keys then some (count key - 1) else x.remainingDependencies.row key := by
  induction keys generalizing x with
  | nil => exact ⟨x, rfl, rfl, by simp, by simp⟩
  | cons k rest ih =>
      obtain ⟨hk, hrest⟩ := List.nodup_cons.mp hnd
      have hget : x.remainingDependencies.get k = .ok (count k) :=
        Dict.get_eq_ok.mpr (hrow k (by simp))
      let x₁ : Elimination :=
        { x with
          remainingDependencies := x.remainingDependencies.put k (count k - 1)
          ready := if count k - 1 = 0 then k :: x.ready else x.ready }
      have hstep : decrement x k = .ok x₁ := by
        unfold decrement
        rw [hget]
        rfl
      have hrow₁ : ∀ key ∈ rest, x₁.remainingDependencies.row key = some (count key) := by
        intro key hkey
        have hne : key ≠ k := fun heq => hk (heq ▸ hkey)
        exact (Sql.Store.put_row_ne _ _ hne).trans (hrow key (by simp [hkey]))
      obtain ⟨x', hfold, hprocessed, hready, hrow'⟩ := ih hrest hrow₁
      refine ⟨x', by rw [List.foldlM_cons, hstep]; exact hfold, hprocessed, ?_, ?_⟩
      · rw [hready]
        by_cases h1 : count k = 1
        · simp [x₁, h1]
        · have h0 : count k - 1 ≠ 0 := by omega
          simp [x₁, h1, h0]
      · intro key
        rw [hrow']
        by_cases hkey : key = k
        · subst hkey
          simp [x₁, hk]
        · simp [x₁, hkey, Sql.Store.put_row_ne]

theorem waiting_eq_nil {done : List CreateTaskDefinition} {t : CreateTaskDefinition} :
    waiting done t = [] ↔ ∀ d ∈ t.dependencies, d ∈ done.map (·.key) := by
  unfold waiting
  rw [List.filter_eq_nil_iff]
  simp

/-- A task waits for one dependency less when that has been taken off. -/
theorem waiting_snoc {done : List CreateTaskDefinition} {t u : CreateTaskDefinition}
    (hnd : t.dependencies.Nodup) : waiting (done ++ [u]) t = (waiting done t).erase u.key := by
  unfold waiting
  rw [(hnd.filter _).erase_eq_filter, List.filter_filter]
  refine List.filter_congr fun d _ => ?_
  rw [Bool.eq_iff_iff, List.map_append]
  simp only [List.map_cons, List.map_nil, List.mem_append, List.mem_singleton, not_or,
    decide_eq_true_eq, Bool.and_eq_true, bne_iff_ne]
  exact and_comm

theorem mem_childrenOf (hnd : (tasks.map (·.key)).Nodup) {t : CreateTaskDefinition}
    (ht : t ∈ tasks) {key : String} : t.key ∈ childrenOf tasks key ↔ key ∈ t.dependencies := by
  unfold childrenOf
  rw [List.mem_map]
  constructor
  · intro ⟨u, hu, hkey⟩
    rw [List.mem_filter] at hu
    obtain rfl := List.inj_on_of_nodup_map hnd hu.1 ht hkey
    simpa using hu.2
  · intro hd
    exact ⟨t, List.mem_filter.mpr ⟨ht, by simpa using hd⟩, rfl⟩

/-- The count of the task with a key. -/
def countOf (tasks done : List CreateTaskDefinition) (key : String) : Int :=
  match tasks.find? (·.key = key) with
  | some t => (waiting done t).length
  | none => 0

theorem countOf_eq (hnd : (tasks.map (·.key)).Nodup) {done : List CreateTaskDefinition}
    {t : CreateTaskDefinition} (ht : t ∈ tasks) :
    countOf tasks done t.key = ((waiting done t).length : Int) := by
  unfold countOf
  cases h : tasks.find? (·.key = t.key) with
  | none =>
      have hne := List.find?_eq_none.mp h t ht
      simp at hne
  | some u =>
      have hkey : u.key = t.key := by simpa using List.find?_some h
      obtain rfl := List.inj_on_of_nodup_map hnd (List.mem_of_find?_eq_some h) ht hkey
      rfl

/-- **One round of the loop** takes one more task off. -/
theorem Eliminated.round (hlinked : WellLinked tasks) {done : List CreateTaskDefinition}
    {x : Elimination} (h : Eliminated tasks done x) {key : String} {ready : List String}
    (hready : x.ready = key :: ready) :
    ∃ u x', u ∈ tasks ∧ u.key = key ∧
      (childrenOf tasks key).foldlM decrement
        { x with ready := ready, processed := x.processed + 1 } = .ok x' ∧
      Eliminated tasks (done ++ [u]) x' := by
  obtain ⟨u, hu, rfl⟩ := List.mem_map.mp (h.ready key (by rw [hready]; simp))
  have hchild : ∀ t ∈ tasks, t.key ∈ childrenOf tasks u.key ↔ u.key ∈ t.dependencies :=
    fun t ht => mem_childrenOf hlinked.keys ht
  have hnd : (childrenOf tasks u.key).Nodup :=
    hlinked.keys.sublist (List.filter_sublist.map _)
  have hsub : ∀ k ∈ childrenOf tasks u.key, ∃ t ∈ tasks, t.key = k := by
    intro k hk
    obtain ⟨t, ht, rfl⟩ := List.mem_map.mp hk
    exact ⟨t, List.mem_of_mem_filter ht, rfl⟩
  have hrow : ∀ k ∈ childrenOf tasks u.key,
      x.remainingDependencies.row k = some (countOf tasks done k) := by
    intro k hk
    obtain ⟨t, ht, rfl⟩ := hsub k hk
    rw [h.counts t ht, countOf_eq hlinked.keys ht]
  obtain ⟨x', hfold, hprocessed, hready', hrow'⟩ := decrement_foldlM hnd
    (x := { x with ready := ready, processed := x.processed + 1 }) hrow
  have hnodup := h.nodup
  rw [hready] at hnodup
  have hfresh : u.key ∉ done.map (·.key) := by
    intro hmem
    exact (List.nodup_append.mp hnodup).2.2 _ hmem u.key (by simp) rfl
  have hmet : waiting done u = [] := (h.free u hu).mp (by rw [hready]; simp)
  -- What gets ready now was waiting for this task alone.
  let released := (childrenOf tasks u.key).filter fun k => countOf tasks done k = 1
  have hreleased : ∀ t ∈ tasks, t.key ∈ released ↔
      u.key ∈ t.dependencies ∧ (waiting done t).length = 1 := by
    intro t ht
    simp only [released, List.mem_filter, hchild t ht, countOf_eq hlinked.keys ht,
      decide_eq_true_eq]
    rw [Nat.cast_eq_one]
  have hshorter : ∀ t ∈ tasks, u.key ∈ t.dependencies →
      (waiting (done ++ [u]) t).length + 1 = (waiting done t).length := by
    intro t ht hd
    have hmem : u.key ∈ waiting done t := List.mem_filter.mpr ⟨hd, by simpa using hfresh⟩
    rw [waiting_snoc (hlinked.duplicates t ht), List.length_erase_of_mem hmem]
    have := List.length_pos_of_mem hmem
    omega
  have hsame : ∀ t ∈ tasks, u.key ∉ t.dependencies →
      waiting (done ++ [u]) t = waiting done t := by
    intro t ht hd
    rw [waiting_snoc (hlinked.duplicates t ht)]
    exact List.erase_of_not_mem fun hmem => hd (List.mem_of_mem_filter hmem)
  refine ⟨u, x', hu, rfl, hfold, ?_, ?_, ?_, ?_, ?_, ?_, ?_⟩
  · rw [hprocessed, List.length_append]
    exact congrArg (· + 1) h.processed
  · intro t ht
    rcases List.mem_append.mp ht with ht | ht
    · exact h.subset t ht
    · rw [List.mem_singleton] at ht
      exact ht ▸ hu
  · intro k hk
    rw [hready', List.mem_append, List.mem_reverse] at hk
    rcases hk with hk | hk
    · obtain ⟨t, ht, rfl⟩ := hsub k (List.mem_of_mem_filter hk)
      exact List.mem_map_of_mem ht
    · exact h.ready k (by rw [hready]; exact List.mem_cons_of_mem _ hk)
  · rw [hready']
    have hperm : ((done ++ [u]).map (·.key) ++ (released.reverse ++ ready)).Perm
        (released ++ (done.map (·.key) ++ u.key :: ready)) := by
      rw [List.map_append, List.append_assoc]
      refine (List.Perm.append_left _ ?_).trans (List.perm_append_comm_assoc _ _ _)
      show (u.key :: (released.reverse ++ ready)).Perm (released ++ u.key :: ready)
      exact (((List.reverse_perm _).append_right _).cons _).trans List.perm_middle.symm
    refine hperm.nodup_iff.mpr (List.nodup_append.mpr ⟨hnd.filter _, hnodup, ?_⟩)
    intro k hk j hj hkj
    subst hkj
    obtain ⟨t, ht, rfl⟩ := hsub k (List.mem_of_mem_filter hk)
    rw [← hready] at hj
    have hlen := ((hreleased t ht).mp hk).2
    rw [(h.free t ht).mp hj] at hlen
    simp at hlen
  · exact h.order.snoc (waiting_eq_nil.mp hmet)
  · intro t ht
    rw [hrow']
    by_cases hd : u.key ∈ t.dependencies
    · rw [if_pos ((hchild t ht).mpr hd), countOf_eq hlinked.keys ht]
      have := hshorter t ht hd
      simp only [Option.some.injEq]
      omega
    · rw [if_neg fun hc => hd ((hchild t ht).mp hc), hsame t ht hd]
      exact h.counts t ht
  · intro t ht
    have hold := h.free t ht
    rw [hready, List.mem_append, List.mem_cons] at hold
    rw [hready', List.map_append, List.mem_append, List.mem_append, List.mem_append,
      List.mem_reverse, hreleased t ht, List.map_singleton, List.mem_singleton]
    by_cases hd : u.key ∈ t.dependencies
    · have hlen := hshorter t ht hd
      have hpos : waiting done t ≠ [] := by
        intro hnil
        rw [hnil] at hlen
        simp at hlen
      rw [← List.length_eq_zero_iff]
      have hnot := hold.not.mpr hpos
      constructor
      · rintro ((hk | hk) | (⟨-, hone⟩ | hk))
        · exact absurd (Or.inl hk) hnot
        · exact absurd (Or.inr (Or.inl hk)) hnot
        · omega
        · exact absurd (Or.inr (Or.inr hk)) hnot
      · intro hzero
        exact Or.inr (Or.inl ⟨hd, by omega⟩)
    · rw [hsame t ht hd, ← hold]
      simp only [hd, false_and, false_or, or_assoc]

/-! ### The whole loop -/

theorem Eliminated.start (hlinked : WellLinked tasks) :
    Eliminated tasks [] (startElimination tasks) := by
  have hkeys : ((tasks.map fun t => (t.key, (t.dependencies.length : Int))).map (·.1)).Nodup := by
    rw [List.map_map]
    exact hlinked.keys
  have hcounts : ∀ t ∈ tasks, (startElimination tasks).remainingDependencies.row t.key =
      some (t.dependencies.length : Int) :=
    fun t ht => Dict.ofList_row hkeys (List.mem_map.mpr ⟨t, ht, rfl⟩)
  have hmem : ∀ key, key ∈ (startElimination tasks).ready ↔ key ∈ tasks.map (·.key) ∧
      (startElimination tasks).remainingDependencies.row key = some 0 := by
    intro key
    simp only [startElimination, List.mem_reverse, List.mem_filter, Dict.ofList_keys hkeys,
      List.map_map, Function.comp_def, decide_eq_true_eq]
  refine ⟨rfl, by simp, fun key hkey => ((hmem key).mp hkey).1, ?_, Graph.inOrder_nil, ?_, ?_⟩
  · show (startElimination tasks).ready.Nodup
    unfold startElimination
    rw [List.nodup_reverse]
    exact (Sql.Store.nodup _).filter _
  · intro t ht
    rw [hcounts t ht]
    simp [waiting]
  · intro t ht
    rw [List.map_nil, List.nil_append, hmem, hcounts t ht, waiting_eq_nil]
    constructor
    · intro ⟨_, hzero⟩ d hd
      have := List.length_pos_of_mem hd
      simp only [Option.some.injEq] at hzero
      omega
    · intro hall
      have hnil : t.dependencies = [] := List.eq_nil_iff_forall_not_mem.mpr fun d hd => by
        simpa using hall d hd
      exact ⟨List.mem_map_of_mem ht, by rw [hnil]; rfl⟩

/-- There are at most as many rounds as tasks. -/
theorem Eliminated.length_le {done : List CreateTaskDefinition} {x : Elimination}
    (h : Eliminated tasks done x) : done.length + x.ready.length ≤ tasks.length := by
  have hsub : (done.map (·.key) ++ x.ready) ⊆ tasks.map (·.key) := by
    intro key hkey
    rcases List.mem_append.mp hkey with hkey | hkey
    · obtain ⟨t, ht, rfl⟩ := List.mem_map.mp hkey
      exact List.mem_map_of_mem (h.subset t ht)
    · exact h.ready key hkey
  have := (List.subperm_of_subset h.nodup hsub).length_le
  simpa using this

/-- **The loop ends**: after enough rounds nothing is ready any more. -/
theorem eliminate_ends (hlinked : WellLinked tasks) {children : Dict String (List String)}
    (hchildren : ∀ key ∈ tasks.map (·.key), children.row key = some (childrenOf tasks key))
    {rounds : Nat} {done : List CreateTaskDefinition} {x : Elimination}
    (h : Eliminated tasks done x) (hrounds : tasks.length ≤ done.length + rounds) :
    ∃ done' x', eliminate children rounds x = .ok x' ∧ Eliminated tasks done' x' ∧
      x'.ready = [] := by
  induction rounds generalizing done x with
  | zero =>
      have := h.length_le
      exact ⟨done, x, rfl, h, List.length_eq_zero_iff.mp (by omega)⟩
  | succ rounds ih =>
      cases hready : x.ready with
      | nil => exact ⟨done, x, by simp only [eliminate, hready]; rfl, h, hready⟩
      | cons key ready =>
          obtain ⟨u, x₁, hu, rfl, hfold, h₁⟩ := h.round hlinked hready
          obtain ⟨done', x', hrest, h', hnil⟩ := ih h₁ (by simp; omega)
          refine ⟨done', x', ?_, h', hnil⟩
          simp only [eliminate, hready]
          rw [Dict.get_eq_ok.mpr (hchildren _ (List.mem_map_of_mem hu))]
          show (do let x ← (childrenOf tasks u.key).foldlM decrement _; _) = _
          rw [hfold]
          exact hrest

/-- When all tasks have been taken off, they were in order. -/
theorem Eliminated.orderable {done : List CreateTaskDefinition} {x : Elimination}
    (h : Eliminated tasks done x) (hlength : tasks.length = done.length) : Orderable tasks := by
  have hnd : done.Nodup := (List.nodup_append.mp h.nodup).1.of_map
  exact ⟨done, (List.subperm_of_subset hnd h.subset).perm_of_length_le hlength.le, h.order⟩

theorem Orderable.acyclic (h : Orderable tasks) (hnd : (tasks.map (·.key)).Nodup) :
    Acyclic tasks := by
  obtain ⟨order, hperm, horder⟩ := h
  intro key hcycle
  have hle : Graph.DependsOn (·.key) (·.dependencies) tasks ≤
      Graph.DependsOn (·.key) (·.dependencies) order :=
    fun a b ⟨t, ht, hab⟩ => ⟨t, hperm.mem_iff.mpr ht, hab⟩
  exact horder.acyclic ((hperm.map _).nodup_iff.mpr hnd) key
    (Relation.TransGen.mono hle key key hcycle)

/-- Without a cycle all tasks are taken off: of those left, one waits for nothing left. -/
theorem Eliminated.all (hlinked : WellLinked tasks) (hacyclic : Acyclic tasks)
    {done : List CreateTaskDefinition} {x : Elimination} (h : Eliminated tasks done x)
    (hready : x.ready = []) : done.length = tasks.length := by
  have hall : ∀ t ∈ tasks, t.key ∈ done.map (·.key) := by
    intro t₀ ht₀
    by_contra hleft₀
    obtain ⟨m, hm, hsource⟩ := Graph.exists_source hacyclic
      ((tasks.map (·.key)).toFinset.filter (· ∉ done.map (·.key)))
      ⟨t₀.key, Finset.mem_filter.mpr ⟨List.mem_toFinset.mpr (List.mem_map_of_mem ht₀), hleft₀⟩⟩
    obtain ⟨hm, hundone⟩ := Finset.mem_filter.mp hm
    obtain ⟨t, ht, rfl⟩ := List.mem_map.mp (List.mem_toFinset.mp hm)
    have hfree := (h.free t ht).mpr (waiting_eq_nil.mpr fun d hd => ?_)
    · rw [hready, List.append_nil] at hfree
      exact hundone hfree
    · by_contra hd'
      exact hsource d (Finset.mem_filter.mpr ⟨List.mem_toFinset.mpr (hlinked.known t ht d hd), hd'⟩)
        ⟨t, ht, rfl, hd⟩
  have hle : tasks.length ≤ done.length := by
    have hsub : tasks.map (·.key) ⊆ done.map (·.key) := by
      intro key hkey
      obtain ⟨t, ht, rfl⟩ := List.mem_map.mp hkey
      exact hall t ht
    simpa using (List.subperm_of_subset hlinked.keys hsub).length_le
  have := h.length_le
  omega

/-- **The search is exact**: it finds no cycle when the tasks can be put in order, and when
no task depends on itself. -/
theorem hasDependencyCycle_spec (hlinked : WellLinked tasks) :
    ∃ cyclic, hasDependencyCycle tasks = .ok cyclic ∧ (cyclic = false ↔ Acyclic tasks) ∧
      (cyclic = false ↔ Orderable tasks) := by
  obtain ⟨children, hkeys, hchildren⟩ := childKeys_ok hlinked
  obtain ⟨done, x, hend, h, hready⟩ := eliminate_ends hlinked hchildren (Eliminated.start hlinked)
    (show tasks.length ≤ [].length + tasks.length by simp)
  have hcycle : hasDependencyCycle tasks = .ok (x.processed != tasks.length) := by
    unfold hasDependencyCycle
    rw [hkeys]
    show (do let x ← eliminate children tasks.length (startElimination tasks); _) = _
    rw [hend]
    rfl
  have hfalse : (x.processed != tasks.length) = false ↔ done.length = tasks.length := by
    rw [h.processed]
    simp
  refine ⟨_, hcycle, ?_, ?_⟩
  · rw [hfalse]
    constructor
    · intro hlength
      exact (h.orderable hlength.symm).acyclic hlinked.keys
    · intro hacyclic
      exact h.all hlinked hacyclic hready
  · rw [hfalse]
    constructor
    · intro hlength
      exact h.orderable hlength.symm
    · intro horder
      exact h.all hlinked (horder.acyclic hlinked.keys) hready

end WorkflowDefinitionService

end AutomationPlatform
