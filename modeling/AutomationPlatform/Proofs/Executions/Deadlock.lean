/-
Completions do not deadlock.

Two tasks that are completed at once may have children in common, and each completion
locks its task, then the children one by one, then the workflow.  Three things keep the
completions from waiting for each other in a circle.

  * The children of every task are listed in the order in which the rows of the execution
    were stored, so whoever holds a child and waits for another one waits for a later one.
  * Nobody waits for anything after the workflow row.
  * A task is completed only when all its parents have been, so while a parent is still
    being completed, no child of it is.
-/
import AutomationPlatform.Proofs.Executions.Timestamps
import AutomationPlatform.Proofs.Executions.Inputs
import AutomationPlatform.Proofs.Executions.Release
import AutomationPlatform.Sql.Always
import AutomationPlatform.Sql.Deadlock

namespace AutomationPlatform

open WorkflowExecutionRepository

/-! ### What has been started has its parents behind it -/

/-- The parents of every task that has been started are completed. -/
def Fed (s : ExecutionStore) : Prop :=
  ∀ i t, taskRow s i = some t → t.startedAt.isSome = true → ParentsCompleted s t

theorem collectOutputs_some :
    ∀ {parents : List TaskExecutionModel} {acc outputs : List (String × TaskOutput)},
      collectOutputs acc parents = .ok outputs → ∀ t ∈ parents, t.output.isSome = true := by
  intro parents
  induction parents with
  | nil => intro acc outputs _ t ht; simp at ht
  | cons u rest ih =>
      intro acc outputs h t ht
      unfold collectOutputs at h
      split at h
      · simp at h
      · rename_i output houtput
        rcases List.mem_cons.mp ht with rfl | ht
        · rw [houtput]; rfl
        · exact ih h t ht

/-- A `start_task` that took its task up had found the outputs of all its parents. -/
theorem startTask_taken {Good : ExecutionStore → Prop} {s base lb' : ExecutionStore}
    {w : Sql.Writes RowId Row} {id : UUID} {startedAt : Datetime} {result : CallResult}
    (hs : Coherent s)
    (h : Sql.Lax executionTimeline Good s base (Call.startTask id startedAt).body .empty lb'
      (.done result) w) (hw : (w (.task id)).isSome = true) :
    ∃ t V outputs, taskRow s id = some t ∧ Sql.Past executionTimeline Good base s V ∧
      (∃ tV, taskRow V id = some tV) ∧
      collectOutputs [] (parentModels V t.parentTaskIds) = .ok outputs := by
  rw [startTask_body] at h
  obtain ⟨V₀, hV₀, ⟨tV, t, hrowV, hrow, -, h⟩ | ⟨-, h⟩⟩ :=
    updateTask_inv h (Sql.Program.finished_done result)
  · rw [Sql.Store.overlay_empty] at hrow hrowV
    obtain ⟨-, V, hV, htV, ⟨r, -, hdata⟩ | ⟨e, key, hr, -⟩⟩ :=
      startRest_taken hs (Sql.Program.finished_done result) hV₀ hrowV hrow h
    · exact ⟨t, V, r.parentOutputs, hrow, hV, htV, hdata.parentOutputs⟩
    · cases hr
  · obtain ⟨V₁, hV₁, h⟩ := h.query_inv (Sql.Program.finished_done result)
    obtain ⟨rfl, -⟩ :=
      startRest_run (Sql.Program.finished_done result) (hV₀.trans hV₁) (fun _ _ _ _ => rfl) h
    simp at hw

/-- The parents whose outputs were found are completed. -/
theorem parentsCompleted_of_outputs {s V : ExecutionStore} {id : UUID}
    {t tV : TaskExecutionModel} {outputs : List (String × TaskOutput)} (hV : Coherent V)
    (hle : V.Le executionEvolution s) (hrow : taskRow s id = some t) (hrowV : taskRow V id = some tV)
    (hok : collectOutputs [] (parentModels V t.parentTaskIds) = .ok outputs) :
    ParentsCompleted s t := by
  intro p hp
  obtain ⟨t', ht', hev⟩ := taskRow_le hle hrowV
  obtain rfl : t = t' := Option.some.inj (hrow.symm.trans ht')
  obtain ⟨tp, htp, -, -⟩ := hV.parents id tV hrowV p (hev.same.parentTaskIds ▸ hp)
  have hmem : tp ∈ parentModels V t.parentTaskIds := by
    unfold parentModels
    exact List.mem_map.mpr ⟨(p, tp),
      List.mem_filter.mpr ⟨mem_taskTable.mpr htp, by simpa using hp⟩, rfl⟩
  have hcompleted : completed V p = true :=
    completed_iff.mpr ⟨tp, htp, (hV.ok p tp htp).output.mpr (collectOutputs_some hok tp hmem)⟩
  rw [completed, row_of_completed hle hcompleted]
  exact hcompleted

/-- The parents of a task stay completed. -/
theorem ParentsCompleted.mono {s s' : ExecutionStore} {t t' : TaskExecutionModel}
    (h : ParentsCompleted s t) (hkept : ∀ p, completed s p = true → completed s' p = true)
    (hsame : t'.parentTaskIds = t.parentTaskIds) : ParentsCompleted s' t' := by
  intro p hp
  rw [hsame] at hp
  exact hkept p (h p hp)

/-- **A started task has all its parents completed**, in every history. -/
theorem fed_publishes : Sql.Publishes executionTimeline Call.body CompiledRows
    (fun log s => Run log s ∧ Fed s) where
  respects := call_respects
  init := ⟨.empty, by simp [Fed, taskRow]⟩
  insert := by
    intro log s s' rows h hrows hins
    obtain ⟨hbefore, hrun⟩ := run_publishes.insert h.1 hrows hins
    refine ⟨hbefore, hrun, fun i t hi hstarted => ?_⟩
    obtain ⟨_, hc⟩ := hrows.created hins
    rcases hc.cases h.1.coherent.toLinked hi with ⟨hold, -⟩ | ⟨-, hnew⟩
    · refine (h.2 i t hold hstarted).mono (fun p hp => ?_) rfl
      obtain ⟨tp, htp, hcp⟩ := completed_iff.mp hp
      exact completed_iff.mpr ⟨tp, hc.old p tp htp, hcp⟩
    · rw [hnew.startedAt] at hstarted
      simp at hstarted
  commit := by
    intro log s base lb call result w h hbefore hbase hlax
    have hgood : ∀ V, (∃ log, Run log V ∧ Fed V) → Coherent V := fun V ⟨_, hV, _⟩ => hV.coherent
    have heffect := effect_of_lax hgood h.1.coherent hlax
    obtain ⟨log₀, hbase, -⟩ := hbase
    refine ⟨.commit h.1 hbase hbefore heffect, fun i t' hi' hstarted => ?_⟩
    obtain ⟨t, hi⟩ := Option.isSome_iff_exists.mp
      ((heffect.isSome_taskRow i).symm.trans (by rw [hi']; rfl))
    have hmove := heffect.storeMove h.1.coherent
    obtain ⟨t'', hi'', htm⟩ := hmove.task i t hi
    obtain rfl : t' = t'' := Option.some.inj (hi'.symm.trans hi'')
    suffices hparents : ParentsCompleted s t from
      hparents.mono (fun p hp => hmove.completed hp) htm.same.parentTaskIds
    rcases (heffect.taskStep hi hi').startedAt.mp hstarted with
      hold | ⟨⟨startedAt, rfl⟩, hpending, hrunning⟩
    · exact h.2 i t hi hold
    · -- The call has written the row, so it has found its parents' outputs.
      have hw : (w (.task i)).isSome = true := by
        rw [← Option.ne_none_iff_isSome]
        intro hnone
        have hsame : taskRow (s.overlay w) i = taskRow s i := Sql.Store.overlay_row_none hnone
        rw [hi', hi, Option.some.injEq] at hsame
        rw [← hsame, hrunning] at hpending
        simp at hpending
      obtain ⟨u, V, outputs, hu, hV, ⟨tV, htV⟩, hok⟩ := startTask_taken h.1.coherent hlax hw
      obtain rfl : t = u := Option.some.inj (hi.symm.trans hu)
      exact parentsCompleted_of_outputs (hgood V hV.good) hV.before.1 hi htV hok

theorem reachable_fed {db : ExecutionDb} (h : ReachableDb db) : Fed db.store :=
  (Sql.published fed_publishes (fun _ _ h => h) h).good.2

/-! ### The order of the rows -/

/-- Every task lists its children in the order of the rows. -/
def Ordered (s : ExecutionStore) : Prop :=
  ∀ i t, taskRow s i = some t → (t.childTaskIds.map RowId.task).Sublist s.keys

theorem CompiledRows.ordered {rows : List (Sigma Row)} (h : CompiledRows rows) {i : UUID}
    {t : TaskExecutionModel} (hmem : (⟨.task i, t⟩ : Sigma Row) ∈ rows) :
    (t.childTaskIds.map RowId.task).Sublist rows.keys := by
  obtain ⟨draws, now, wd, -, rfl⟩ := h.closed
  obtain ⟨d, -, -, rfl⟩ := mem_compiled_task.mp hmem
  rw [keys_compiled]
  refine List.Sublist.cons _ ?_
  show ((WorkflowStartService.childrenOf draws wd.taskDefinitions d.id).map RowId.task).Sublist _
  rw [WorkflowStartService.childrenOf, List.map_map]
  exact List.Sublist.map _ List.filter_sublist

theorem Run.ordered {log : History} {s : ExecutionStore} (h : Run log s) : Ordered s := by
  induction h with
  | empty => intro i t hi; simp [taskRow] at hi
  | @insert log s s' rows hrun hrows hins ih =>
      intro i t hi
      obtain ⟨-, -, hkeys, -⟩ := Sql.Store.insert?_cases hins
      rw [hkeys]
      rcases Sql.Store.row_insert?_cases hins hi with ⟨hmem, -⟩ | hold
      · exact (hrows.ordered hmem).trans (List.sublist_append_right _ _)
      · exact (ih i t hold).trans (List.sublist_append_left _ _)
  | commit hrun _ _ heffect ih _ =>
      have hmove := heffect.storeMove hrun.coherent
      intro i t' hi'
      obtain ⟨t, hi⟩ := Option.isSome_iff_exists.mp
        ((heffect.isSome_taskRow i).symm.trans (by rw [hi']; rfl))
      obtain ⟨t'', hi'', htm⟩ := hmove.task i t hi
      obtain rfl := Option.some.inj (hi'.symm.trans hi'')
      rw [htm.same.childTaskIds, hmove.keys]
      exact ih i t hi

/-- Of two elements of a list without repetitions, the one listed first has the smaller index. -/
theorem idxOf_lt_of_sublist {α : Type} [DecidableEq α] {a b : α} {l : List α} (hl : l.Nodup)
    (h : [a, b].Sublist l) : l.idxOf a < l.idxOf b := by
  obtain ⟨l₁, l₂, rfl, ha, hb⟩ := List.cons_sublist_iff.mp h
  have hb : b ∈ l₂ := hb.subset (by simp)
  have hnot : b ∉ l₁ := fun hmem => (List.nodup_append.mp hl).2.2 b hmem b hb rfl
  rw [List.idxOf_append_of_mem ha, List.idxOf_append_of_notMem hnot]
  exact Nat.lt_of_lt_of_le (List.idxOf_lt_length_of_mem ha) (Nat.le_add_right _ _)

/-- A child that is listed after another one is stored after it. -/
theorem Ordered.idxOf_lt {s : ExecutionStore} (h : Ordered s) {i : UUID} {t : TaskExecutionModel}
    (hi : taskRow s i = some t) {earlier later : List UUID} {c d : UUID}
    (hchildren : t.childTaskIds = earlier ++ c :: later) (hd : d ∈ earlier) :
    s.keys.idxOf (.task d) < s.keys.idxOf (.task c) := by
  refine idxOf_lt_of_sublist s.nodup (List.Sublist.trans ?_ (h i t hi))
  have hpair : [d, c].Sublist (earlier ++ c :: later) :=
    List.Sublist.append (List.singleton_sublist.mpr hd) (by simp)
  rw [hchildren]
  exact hpair.map RowId.task

/-! ### The order of the locks -/

/-- An update of a call in its place: first the call's own task, then the children one by one,
then the workflow.  Only rows before it have been written. -/
inductive InPlace (call : Call) (w : Sql.Writes RowId Row) (u : Sql.RowUpdate RowId Row) : Prop
  | own (hkey : u.key = .task call.taskExecutionId) (hheld : ∀ k, w k = none)
  | child {t : TaskExecutionModel} {earlier later : List UUID} {c : UUID}
      (hcall : ∃ request, call = .completeTask request)
      (hown : w (.task call.taskExecutionId) = some t)
      (hchildren : t.childTaskIds = earlier ++ c :: later) (hkey : u.key = .task c)
      (hheld : ∀ k, (w k).isSome = true →
        k = .task call.taskExecutionId ∨ ∃ d ∈ earlier, k = .task d)
  | workflow {i : UUID} (hkey : u.key = .workflow i) (hheld : ∀ j, w (.workflow j) = none)

/-- What the body of a call satisfies between two statements. -/
def Locking (call : Call) (_ : List RowId) (w : Sql.Writes RowId Row) :
    Session CallResult → Prop
  | .updateRow u _ => InPlace call w u
  | .updateRows _ _ => False
  | _ => True

theorem startTask_locking (id : UUID) (startedAt : Datetime) :
    (Call.startTask id startedAt).body.Always (Locking (.startTask id startedAt)) [] .empty := by
  have hrest : ∀ {issued : List RowId} {w : Sql.Writes RowId Row},
      (Sql.Program.query (startRest id)).Always (Locking (.startTask id startedAt)) issued w := by
    intro issued w
    refine ⟨trivial, fun view => ?_⟩
    unfold startRest
    split
    · trivial
    · unfold loadParentOutputs
      split
      · trivial
      · refine ⟨trivial, fun v => ?_⟩
        dsimp only
        split <;> trivial
  rw [startTask_body]
  exact ⟨.own rfl fun _ => rfl, hrest, fun _ _ _ => hrest⟩

/-- What a completion has written when it comes to the child after `earlier`. -/
structure Buffered (request : CompleteTaskExecutionRequest) (children earlier : List UUID)
    (w : Sql.Writes RowId Row) : Prop where
  own : ∃ t, w (.task request.taskExecutionId) = some t ∧ t.childTaskIds = children
  held : ∀ k, (w k).isSome = true →
    k = .task request.taskExecutionId ∨ ∃ d ∈ earlier, k = .task d

namespace Buffered

variable {request : CompleteTaskExecutionRequest} {children earlier later : List UUID}
  {w : Sql.Writes RowId Row} {c : UUID}

theorem workflow (h : Buffered request children earlier w) (j : UUID) : w (.workflow j) = none := by
  rw [← Option.not_isSome_iff_eq_none]
  intro hsome
  rcases h.held _ hsome with hk | ⟨_, -, hk⟩ <;> cases hk

theorem skip (h : Buffered request children earlier w) :
    Buffered request children (earlier ++ [c]) w := by
  refine ⟨h.own, fun k hk => (h.held k hk).imp_right ?_⟩
  rintro ⟨d, hd, rfl⟩
  exact ⟨d, by simp [hd], rfl⟩

theorem set (h : Buffered request children earlier w) {t : TaskExecutionModel}
    (hshow : w.Shows (.task c) t) :
    Buffered request children (earlier ++ [c]) (w.set (.task c) t.release) where
  own := by
    obtain ⟨t₀, ht₀, hchildren⟩ := h.own
    by_cases hc : request.taskExecutionId = c
    · subst hc
      refine ⟨t.release, Sql.Writes.set_self _ _ _, ?_⟩
      rw [← hchildren, hshow t₀ ht₀]
      rfl
    · exact ⟨t₀, by rw [Sql.Writes.set_ne _ _ (by simpa using hc), ht₀], hchildren⟩
  held := by
    intro k hk
    by_cases hkc : k = .task c
    · exact Or.inr ⟨c, by simp, hkc⟩
    · rw [Sql.Writes.set_ne _ _ hkc] at hk
      exact h.skip.held k hk

end Buffered

/-- The point between the completion of a task and the look at its workflow. -/
def AmongChildren (request : CompleteTaskExecutionRequest) {α : Type} (_ : List RowId)
    (w : Sql.Writes RowId Row) : Session α → Prop
  | .updateRow u _ => InPlace (.completeTask request) w u
  | .updateRows _ _ => False
  | .done _ => ∀ j, w (.workflow j) = none
  | _ => True

/-- The loop over the children that are left. -/
theorem releaseChildren_locking {request : CompleteTaskExecutionRequest} {children : List UUID} :
    ∀ {later earlier acc : List UUID} {issued : List RowId} {w : Sql.Writes RowId Row},
      children = earlier ++ later → Buffered request children earlier w →
      (later.foldlM releaseChild acc).Always (AmongChildren request) issued w := by
  intro later
  induction later with
  | nil => intro earlier acc issued w _ h; exact h.workflow
  | cons c rest ih =>
      intro earlier acc issued w hsplit h
      have hnext : children = (earlier ++ [c]) ++ rest := by rw [hsplit]; simp
      rw [List.foldlM_cons, releaseChild_eq]
      refine ⟨?_, ih hnext h.skip, fun t _ hshow => ?_⟩
      · obtain ⟨t, ht, hchildren⟩ := h.own
        exact .child ⟨request, rfl⟩ ht (hchildren.trans hsplit) rfl h.held
      · change TaskExecutionModel at t
        dsimp only
        split <;> exact ih hnext (h.set hshow)

theorem completeTask_locking (request : CompleteTaskExecutionRequest) :
    (Call.completeTask request).body.Always (Locking (.completeTask request)) [] .empty := by
  rw [completeTask_body]
  refine ⟨.own rfl fun _ => rfl, trivial, fun t _ _ => ?_⟩
  change TaskExecutionModel at t
  have hheld : Buffered request t.childTaskIds []
      (Sql.Writes.empty.set (.task request.taskExecutionId) (t.complete request)) := by
    refine ⟨⟨_, Sql.Writes.set_self _ _ _, rfl⟩, fun k hk => Or.inl ?_⟩
    by_contra hne
    rw [Sql.Writes.set_ne _ _ hne] at hk
    simp at hk
  have hloop : (t.childTaskIds.foldlM releaseChild []).Always (AmongChildren request)
      [.task request.taskExecutionId]
      (Sql.Writes.empty.set (.task request.taskExecutionId) (t.complete request)) :=
    releaseChildren_locking (List.nil_append _).symm hheld
  refine Sql.Program.always_bind (fun issued w p hΨ hp => ?_) (fun issued w runnable hΨ => ?_)
    hloop
  · cases p with
    | done a => exact absurd rfl (hp a)
    | raise e => trivial
    | query next => trivial
    | updateRow u next => exact hΨ
    | updateRows u next => exact hΨ.elim
  · exact ⟨.workflow rfl hΨ, trivial, fun _ _ _ => trivial⟩

/-! ### No circle -/

/-- Sessions that start and complete tasks of executions. -/
def Completing (_ : ExecutionDb) : Sql.Action RowId Row Call → Prop
  | .insert rows => CompiledRows rows
  | .begin _ (.retryTask _) => False
  | _ => True

theorem Completing.allowed {db : ExecutionDb} {a : Sql.Action RowId Row Call}
    (h : Completing db a) : Allowed db a := by
  cases a with
  | insert rows => exact h
  | _ => trivial

/-- Every transaction in flight issues its updates in their place. -/
theorem locking_reachable {db : ExecutionDb} (h : Sql.Reachable Call.body Completing db) :
    ∀ t x, db.txns t = some x → x.Always (Locking x.call) := by
  refine Sql.always_call (fun _ _ call hbegin => ?_) h
  cases call with
  | startTask id startedAt => exact startTask_locking id startedAt
  | completeTask request => exact completeTask_locking request
  | retryTask request => exact hbegin.elim

/-- How far a transaction that waits is from holding all its locks. -/
def ahead (db : ExecutionDb) (t : Nat) : Nat :=
  match db.txns t with
  | none => 0
  | some x =>
      match x.phase with
      | .waiting u _ =>
          match u.key with
          | .workflow _ => 1
          | .task c =>
              if (x.writes (.task x.call.taskExecutionId)).isSome then
                db.store.keys.length + 2 - db.store.keys.idxOf (.task c)
              else db.store.keys.length + 3
      | _ => 0

section Ahead

variable {db : ExecutionDb} {t : Nat} {x : Sql.Txn RowId Row Call CallResult}
  {u : Sql.RowUpdate RowId Row} {next : Option (Row u.key) → Session CallResult}

theorem ahead_workflow (hx : db.txns t = some x) (hp : x.phase = .waiting u next) {i : UUID}
    (hkey : u.key = .workflow i) : ahead db t = 1 := by
  simp only [ahead, hx, hp, hkey]

theorem ahead_own (hx : db.txns t = some x) (hp : x.phase = .waiting u next) {c : UUID}
    (hkey : u.key = .task c) (hheld : ∀ k, x.writes k = none) :
    ahead db t = db.store.keys.length + 3 := by
  simp [ahead, hx, hp, hkey, hheld]

theorem ahead_child (hx : db.txns t = some x) (hp : x.phase = .waiting u next) {c : UUID}
    (hkey : u.key = .task c) {r : TaskExecutionModel}
    (hown : x.writes (.task x.call.taskExecutionId) = some r) :
    ahead db t = db.store.keys.length + 2 - db.store.keys.idxOf (.task c) := by
  simp [ahead, hx, hp, hkey, hown]

theorem ahead_pos (hx : db.txns t = some x) (hp : x.phase = .waiting u next) : 0 < ahead db t := by
  cases hkey : u.key with
  | workflow i => rw [ahead_workflow hx hp hkey]; omega
  | task c =>
      have hle : db.store.keys.idxOf (RowId.task c) ≤ db.store.keys.length := List.idxOf_le_length
      simp only [ahead, hx, hp, hkey]
      split <;> omega

end Ahead

section Circle

variable {db : ExecutionDb} {x y : Sql.Txn RowId Row Call CallResult}
  {u : Sql.RowUpdate RowId Row} {next : Option (Row u.key) → Session CallResult}
  {request : CompleteTaskExecutionRequest}

/-- A completion that has written anything has found its task running, and still does. -/
theorem running_of_held {s : ExecutionStore} {Good : ExecutionStore → Prop}
    (h : x.Sound executionTimeline Good Call.body s) (hp : x.phase = .waiting u next)
    (hcall : x.call = .completeTask request) {k : RowId} (hk : (x.writes k).isSome = true) :
    ∃ t, taskRow s request.taskExecutionId = some t ∧ t.status = .running := by
  obtain ⟨lb, p, w, hlax, hat⟩ := h.run
  rw [hp] at hat
  obtain ⟨-, hw, -⟩ := hat
  rw [hcall, completeTask_body] at hlax
  have hwritten : w k ≠ Sql.Writes.empty k := by
    rw [← hw]
    exact Option.ne_none_iff_isSome.mpr hk
  obtain ⟨t, ht, hcond⟩ := hlax.hit_of_written (Sql.Program.finished_done _) hwritten
  rw [Sql.Store.overlay_empty] at ht
  exact ⟨t, ht, by simpa [completeUpdate, updateTask] using hcond⟩

/-- **While a parent is being completed, no child of it is running.** -/
theorem child_not_running (h : ReachableDb db) {t : Nat} (hx : db.txns t = some x)
    (hp : x.phase = .waiting u next) (hcall : x.call = .completeTask request)
    {r : TaskExecutionModel} (hown : x.writes (.task request.taskExecutionId) = some r) {c : UUID}
    (hc : c ∈ r.childTaskIds) {tc : TaskExecutionModel} (htc : taskRow db.store c = some tc) :
    tc.status ≠ .running := by
  intro hrunning
  have hsound := (reachable_sound h).txn t x hx
  obtain ⟨v, hv, hev⟩ := hsound.evolves _ _ hown
  have hev : TaskEvolves v r := hev
  obtain ⟨v', hv', hvr⟩ := running_of_held hsound hp hcall (by rw [hown]; rfl)
  obtain rfl : v = v' := Option.some.inj (hv.symm.trans hv')
  -- The child has been started, so its parents are completed.
  rw [hev.same.childTaskIds] at hc
  obtain ⟨tc', htc', -, hparent⟩ := (reachable_coherent h).children _ _ hv c hc
  obtain rfl : tc = tc' := Option.some.inj (htc.symm.trans htc')
  have hstarted := ((reachable_run h).timed.task c tc htc).started (Or.inl hrunning)
  obtain ⟨v', hv', hcompleted⟩ := completed_iff.mp (reachable_fed h c tc htc hstarted _ hparent)
  obtain rfl : v = v' := Option.some.inj (hv.symm.trans hv')
  rw [hvr] at hcompleted
  simp at hcompleted

/-- The update a transaction waits in is in its place. -/
theorem inPlace_of_waiting (h : Sql.Reachable Call.body Completing db) {t : Nat}
    (hx : db.txns t = some x) (hp : x.phase = .waiting u next) : InPlace x.call x.writes u := by
  have hlocking := locking_reachable h t x hx
  unfold Sql.Txn.Always at hlocking
  rw [hp] at hlocking
  obtain ⟨_, -, hlocking⟩ := hlocking
  exact hlocking.here

/-- Whoever waits for a row in its place has more ahead than whoever holds the row. -/
theorem ahead_lt_of_inPlace (h : ReachableDb db) {t v : Nat} {u' : Sql.RowUpdate RowId Row}
    {next' : Option (Row u'.key) → Session CallResult} (hx : db.txns t = some x)
    (hp : x.phase = .waiting u next) (hplace : InPlace x.call x.writes u)
    (hy : db.txns v = some y) (hq : y.phase = .waiting u' next')
    (hplace' : InPlace y.call y.writes u') (hheld : (y.writes u.key).isSome = true) :
    ahead db v < ahead db t := by
  have hle : ∀ c, db.store.keys.idxOf (RowId.task c) ≤ db.store.keys.length :=
    fun c => List.idxOf_le_length
  -- What the holder waits for itself.
  cases hplace' with
  | own _ hnone => rw [hnone] at hheld; simp at hheld
  | workflow hkey' hnone' =>
      rw [ahead_workflow hy hq hkey']
      cases hplace with
      | own hkey hnone => rw [ahead_own hx hp hkey hnone]; omega
      | @child _ _ _ c _ hown _ hkey _ =>
          rw [ahead_child hx hp hkey hown]
          have := hle c
          omega
      | workflow hkey _ => rw [hkey, hnone'] at hheld; simp at hheld
  | @child r' earlier' later' c' hcall' hown' hchildren' hkey' hheld' =>
      obtain ⟨request', hcall'⟩ := hcall'
      rw [ahead_child hy hq hkey' hown']
      cases hplace with
      | own hkey hnone => rw [ahead_own hx hp hkey hnone]; omega
      | workflow hkey _ =>
          rcases hheld' _ hheld with hk | ⟨_, -, hk⟩ <;> rw [hkey] at hk <;> cases hk
      | @child r earlier later c hcall hown hchildren hkey _ =>
          obtain ⟨request, hcall⟩ := hcall
          rw [ahead_child hx hp hkey hown]
          have hsound := (reachable_sound h).txn v y hy
          rcases hheld' _ hheld with hk | ⟨d, hd, hk⟩
          · -- The holder completes the child, and so has found it running.
            exfalso
            rw [hkey, hcall'] at hk
            obtain rfl : c = request'.taskExecutionId := RowId.task.inj hk
            obtain ⟨tc, htc, hrunning⟩ := running_of_held hsound hq hcall' hheld
            rw [hcall] at hown
            exact child_not_running h hx hp hcall hown (by rw [hchildren]; simp) htc hrunning
          · -- The holder has locked the child before the one it waits for.
            rw [hkey] at hk
            obtain rfl : c = d := RowId.task.inj hk
            obtain ⟨v₀, hv₀, hev⟩ := hsound.evolves _ _ hown'
            have hev : TaskEvolves v₀ r' := hev
            rw [hev.same.childTaskIds] at hchildren'
            have hlt := (reachable_run h).ordered.idxOf_lt hv₀ hchildren' hd
            have := hle c'
            omega

/-- **Whoever waits has more ahead than the one it waits for.** -/
theorem ahead_lt (h : Sql.Reachable Call.body Completing db) {t v : Nat} (hw : db.Waits t v) :
    ahead db v < ahead db t := by
  have hdb : ReachableDb db := h.mono fun _ _ ha => ha.allowed
  obtain ⟨-, x, k, hx, hk, hlock⟩ := hw
  have hflight : (db.txns v).isSome = true := by
    rw [← Option.ne_none_iff_isSome]
    exact fun hnone => (reachable_sound hdb).unheld v k hnone hlock
  obtain ⟨y, hy⟩ := Option.isSome_iff_exists.mp hflight
  have hheld := ((reachable_sound hdb).lock v y k hy).mpr hlock
  unfold Sql.Txn.Picks at hk
  cases hp : x.phase with
  | ready p => rw [hp] at hk; exact hk.elim
  | sweeping u todo next =>
      have hlocking := locking_reachable h t x hx
      unfold Sql.Txn.Always at hlocking
      rw [hp] at hlocking
      obtain ⟨_, hlocking, -⟩ := hlocking
      exact hlocking.here.elim
  | waiting u next =>
      rw [hp] at hk
      have hk : k = u.key := hk
      subst hk
      have hpos := ahead_pos hx hp
      cases hq : y.phase with
      | ready p => simpa only [ahead, hy, hq] using hpos
      | sweeping u' todo next' => simpa only [ahead, hy, hq] using hpos
      | waiting u' next' =>
          exact ahead_lt_of_inPlace hdb hx hp (inPlace_of_waiting h hx hp) hy hq
            (inPlace_of_waiting h hy hq) hheld

end Circle

/--
**Starting and completing tasks never deadlocks.**  No transactions wait for each other
in a circle, so as long as one is in flight, there is one that can go on.
-/
theorem completions_never_deadlock {db : ExecutionDb} (h : Sql.Reachable Call.body Completing db) :
    (∀ t, ¬ Relation.TransGen db.Waits t t) ∧
      ((∃ t, (db.txns t).isSome = true) →
        ∃ t, (db.txns t).isSome = true ∧ db.Proceeds Call.body t) := by
  have hacyclic := Graph.acyclic_of_rank (ahead db) fun _ _ hw => ahead_lt h hw
  have hdb : ReachableDb db := h.mono fun _ _ ha => ha.allowed
  exact ⟨hacyclic, Sql.exists_proceeds h (reachable_sound hdb).unheld hacyclic⟩

/-- Two tasks with a child in common. -/
def joinDefinition : WorkflowDefinition where
  id := 0
  name := "join"
  taskDefinitions :=
    [{ id := 1, pluginType := "noop", key := "left" },
     { id := 2, pluginType := "noop", key := "right" },
     { id := 3, pluginType := "noop", key := "join", dependencies := [1, 2] }]

theorem joinDefinition_valid : joinDefinition.Valid where
  nonempty := by decide
  ids := by decide
  keys := by decide
  duplicates := by decide
  known := by decide
  acyclic := acyclic_of_rank id (by decide)
  maxTries := by decide

/-- The rows of an execution of it, under the identifiers of its definitions. -/
def joinRows : List (Sigma Row) :=
  WorkflowExecutionMapper.workflowToRows (WorkflowStartService.compiled
    { workflowExecutionId := 0, taskExecutionId := id } 0 joinDefinition)

theorem joinRows_compiled : CompiledRows joinRows :=
  ⟨{ workflowExecutionId := 0, taskExecutionId := id }, 0, joinDefinition, _, _,
    joinDefinition_valid,
    WorkflowStartService.createWorkflowExecution_eq _ _ joinDefinition_valid.linked, rfl⟩

/-- Both parents are started and completed; session 0 holds the child when session 1 picks it. -/
def joinSteps : List (Sql.Action RowId Row Call) :=
  [.insert joinRows,
   .begin 0 (.startTask 1 10), .statement 0, .row 0 (.task 1), .statement 0, .commit 0,
   .begin 1 (.startTask 2 10), .statement 1, .row 1 (.task 2), .statement 1, .commit 1,
   .begin 0 (.completeTask { taskExecutionId := 1, output := {}, completedAt := 20 }),
   .begin 1 (.completeTask { taskExecutionId := 2, output := {}, completedAt := 20 }),
   .statement 0, .row 0 (.task 1), .statement 1, .row 1 (.task 2),
   .statement 0, .row 0 (.task 3), .statement 1]

theorem joinSteps_completing (db : ExecutionDb) : ∀ a ∈ joinSteps, Completing db a := by
  simp [joinSteps, Completing, joinRows_compiled]

/-- Session 1 waits for session 0, and not the other way round. -/
theorem completions_never_deadlock_sample :
    (dbAfter joinSteps).Waits 1 0 ∧ (∀ t, ¬ Relation.TransGen (dbAfter joinSteps).Waits t t) ∧
      ((∃ t, ((dbAfter joinSteps).txns t).isSome = true) →
        ∃ t, ((dbAfter joinSteps).txns t).isSome = true ∧
          (dbAfter joinSteps).Proceeds Call.body t) :=
  ⟨⟨by decide, _, .task 3, rfl, rfl, rfl⟩,
    completions_never_deadlock (Sql.Reachable.steps .init joinSteps_completing (steps_dbAfter rfl))⟩

end AutomationPlatform
