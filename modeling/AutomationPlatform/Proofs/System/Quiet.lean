/-
How the system comes to rest.

Whoever is at work on the two stores may go down at any time, and takes its transaction and its
lock with it.  So from any state there is a way to one in which nobody is at work, and nothing
is lost on it: the rows of both stores are those of before.

Only so many workers have ever taken a claim, and only a worker that is claiming has locked a
row of the queue.
-/
import AutomationPlatform.Proofs.System.Outcomes
import AutomationPlatform.Sql.Solo

namespace AutomationPlatform

/-! ### Steps that start nothing -/

namespace Platform

variable {leaseTimeout : Timedelta} {p p' : Platform}

/-- A step that starts nothing, and that the driver takes as it is. -/
inductive Goes (leaseTimeout : Timedelta) (p p' : Platform) : Prop
  | run (action : PlatformAction) (hother : action.starts = false)
      (hsilent : ∀ w result completedAt, action ≠ .report w result completedAt)
      (hs : p.step leaseTimeout action = some p')
      (hdriver : p.driverStep leaseTimeout action = some p') : Goes leaseTimeout p p'
  /-- What is reported is what the plugin returned. -/
  | report (w : Nat) (completedAt : Datetime) {claim : Claim} {untrusted : Bool}
      {task : StartTaskExecutionResult} {result : TaskResult}
      (hworker : p.workers w = .processing claim untrusted (.executing task))
      (hexecute : TaskProcessingService.executeTask .discovered task = .ok result)
      (hs : p.step leaseTimeout (.report w result completedAt) = some p') :
      Goes leaseTimeout p p'

/-- It is a step of the system, whatever is defined. -/
theorem Goes.system (h : p.Goes leaseTimeout p') (definitions : DefinitionStore) :
    ∃ action : SystemAction, action.executes = true ∧
      System.step leaseTimeout { definitions, platform := p } action =
        some { definitions, platform := p' } ∧
      System.driverStep leaseTimeout { definitions, platform := p } action =
        some { definitions, platform := p' } := by
  cases h with
  | run action hother hsilent hs hdriver =>
      refine ⟨.run action, rfl, ?_, ?_⟩
      · cases action with
        | start => simp [PlatformAction.starts] at hother
        | report w result completedAt => exact absurd rfl (hsilent w result completedAt)
        | _ => simp only [System.step, hs, Option.bind_eq_bind, Option.bind_some]
      · cases action with
        | start => simp [PlatformAction.starts] at hother
        | report w result completedAt => exact absurd rfl (hsilent w result completedAt)
        | _ => simp only [System.driverStep, hdriver, Option.bind_eq_bind, Option.bind_some]
  | report w completedAt hworker hexecute hs =>
      have hstep : System.step leaseTimeout { definitions, platform := p } (.report w completedAt) =
          some { definitions, platform := p' } := by
        simp only [System.step, hworker, hexecute, hs, Option.bind_eq_bind, Option.bind_some]
      exact ⟨.report w completedAt, rfl, hstep, hstep⟩

/-- Some such steps. -/
abbrev Continues (leaseTimeout : Timedelta) : Platform → Platform → Prop :=
  Relation.ReflTransGen (Goes leaseTimeout)

theorem Goes.reachable (h : p.Goes leaseTimeout p') {definitions : DefinitionStore}
    (hreach : System.Reachable leaseTimeout { definitions, platform := p }) :
    System.Reachable leaseTimeout { definitions, platform := p' } := by
  obtain ⟨action, hexecutes, hs, -⟩ := h.system definitions
  refine .step hreach action ?_ hs
  cases action with
  | create => simp [SystemAction.executes] at hexecutes
  | _ => trivial

theorem Continues.reachable (h : p.Continues leaseTimeout p') {definitions : DefinitionStore}
    (hreach : System.Reachable leaseTimeout { definitions, platform := p }) :
    System.Reachable leaseTimeout { definitions, platform := p' } := by
  induction h with
  | refl => exact hreach
  | tail _ hstep ih => exact hstep.reachable ih

/-- The actions of such a run. -/
theorem Continues.actions (h : p.Continues leaseTimeout p') (definitions : DefinitionStore) :
    ∃ actions : List SystemAction, (∀ a ∈ actions, a.executes = true) ∧
      System.driverSteps leaseTimeout { definitions, platform := p } actions =
        some { definitions, platform := p' } := by
  induction h using Relation.ReflTransGen.head_induction_on with
  | refl => exact ⟨[], by simp, rfl⟩
  | head hstep _ ih =>
      obtain ⟨action, hexecutes, -, hdriver⟩ := hstep.system definitions
      obtain ⟨actions, hall, hsteps⟩ := ih
      refine ⟨action :: actions, fun a ha => ?_, ?_⟩
      · rcases List.mem_cons.mp ha with rfl | hrest
        · exact hexecutes
        · exact hall a hrest
      · rw [System.driverSteps, List.foldlM_cons, hdriver]
        exact hsteps

end Platform

/-! ### Who is at work -/

/-- The locks on the queue are those of claims in flight. -/
theorem QueueDb.Reachable.locked {leaseTimeout : Timedelta} {db : QueueDb}
    (h : db.Reachable leaseTimeout) :
    ∀ i session, db.locks i = some session → (db.claiming session).isSome = true := by
  induction h with
  | init clock => simp [QueueDb.init]
  | @step db db' _ action hs ih =>
      intro i session hi
      -- A session that gives up its claim gives up its locks.
      have hunlock : ∀ ended, db.unlock ended i = some session →
          (Function.update db.claiming ended none session).isSome = true := by
        intro ended hlock
        unfold QueueDb.unlock at hlock
        split at hlock
        · simp at hlock
        · rename_i hne
          rw [Function.update_of_ne]
          · exact ih i session hlock
          · rintro rfl
            exact hne hlock
      cases action with
      | enqueue ids now => obtain ⟨-, rfl⟩ := QueueDb.step_enqueue hs; exact ih i session hi
      | heartbeat claim now =>
          obtain ⟨-, -, rfl⟩ := QueueDb.step_heartbeat hs; exact ih i session hi
      | release claim => obtain ⟨-, rfl⟩ := QueueDb.step_release hs; exact ih i session hi
      | finish claim ids now => obtain ⟨-, -, rfl⟩ := QueueDb.step_finish hs; exact ih i session hi
      | grant ended claimToken =>
          obtain ⟨_, -, -, rfl⟩ := QueueDb.step_grant hs
          exact hunlock ended hi
      | abort ended =>
          rw [QueueDb.step_abort hs] at hi ⊢
          exact hunlock ended hi
      | lock other workerId skipped now =>
          obtain ⟨-, hnone, rfl | ⟨entry, -, -, -, rfl⟩⟩ := QueueDb.step_lock hs
          · exact ih i session hi
          · dsimp only at hi ⊢
            by_cases hother : session = other
            · rw [hother, Function.update_self]
              rfl
            · rw [Function.update_of_ne hother]
              by_cases hentry : i = entry.taskExecutionId
              · rw [hentry, Function.update_self, Option.some.injEq] at hi
                exact absurd hi.symm hother
              · rw [Function.update_of_ne hentry] at hi
                exact ih i session hi

/-- A session that breaks off has no claim in flight. -/
theorem abort_claiming {leaseTimeout : Timedelta} (db : QueueDb) (session : Nat) :
    ((db.step leaseTimeout (.abort session)).getD db).claiming session = none := by
  cases h : db.claiming session with
  | none => simp [QueueDb.step, h]
  | some x => simp [QueueDb.step, h]

namespace Platform

variable {leaseTimeout : Timedelta} {p p' : Platform}

/-- From this one on no worker is at work, and only workers that are claiming have locked rows
of the queue. -/
structure Staffed (p : Platform) (n : Nat) : Prop where
  workers : ∀ w, n ≤ w → p.workers w = .idle
  claiming : ∀ w, (p.queue.claiming w).isSome = true → p.workers w = .claiming

variable {n : Nat}

/-- A step of something else. -/
theorem Staffed.congr (h : p.Staffed n) (hworkers : p'.workers = p.workers)
    (hclaiming : p'.queue.claiming = p.queue.claiming) : p'.Staffed n :=
  ⟨fun w hw => by rw [hworkers]; exact h.workers w hw,
    fun w hw => by rw [hworkers]; exact h.claiming w (hclaiming ▸ hw)⟩

/-- A step of one worker. -/
theorem Staffed.update (h : p.Staffed n) (w : Nat)
    (hworkers : ∀ u, u ≠ w → p'.workers u = p.workers u)
    (hclaiming : ∀ u, u ≠ w → p'.queue.claiming u = p.queue.claiming u)
    (hself : (p'.queue.claiming w).isSome = true → p'.workers w = .claiming) :
    p'.Staffed (max n (w + 1)) := by
  refine ⟨fun u hu => ?_, fun u hu => ?_⟩
  · rw [hworkers u (by omega)]
    exact h.workers u (by omega)
  · by_cases huw : u = w
    · exact huw ▸ hself (huw ▸ hu)
    · rw [hworkers u huw]
      exact h.claiming u (hclaiming u huw ▸ hu)

/-- A worker that is not claiming goes on to something else. -/
theorem Staffed.setWorker (h : p.Staffed n) {w : Nat} (worker : Worker)
    (hbefore : p.workers w ≠ .claiming) (hworkers : p'.workers = (p.setWorker w worker).workers)
    (hclaiming : p'.queue.claiming = p.queue.claiming) : p'.Staffed (max n (w + 1)) := by
  refine h.update w (fun u hu => ?_) (fun u _ => by rw [hclaiming]) fun hw => ?_
  · rw [hworkers, setWorker_ne worker hu]
  · exact absurd (h.claiming w (hclaiming ▸ hw)) hbefore

theorem Staffed.step (h : p.Staffed n) {action : PlatformAction}
    (hs : p.step leaseTimeout action = some p') : ∃ m, p'.Staffed m := by
  cases action with
  | start publisher draws now wd =>
      simp only [Platform.step] at hs
      split at hs
      · simp only [Option.bind_eq_bind, Option.bind_eq_some_iff, Option.some.injEq] at hs
        obtain ⟨_, -, rfl⟩ := hs
        exact ⟨n, h.congr rfl rfl⟩
      · simp at hs
  | find publisher =>
      simp only [Platform.step] at hs
      split at hs
      · obtain rfl := Option.some.inj hs
        exact ⟨n, h.congr rfl rfl⟩
      · simp at hs
  | publish publisher now =>
      simp only [Platform.step] at hs
      split at hs
      · simp at hs
      · simp only [Option.bind_eq_bind, Option.bind_eq_some_iff, Option.some.injEq] at hs
        obtain ⟨_, hqueue, rfl⟩ := hs
        obtain ⟨-, rfl⟩ := QueueDb.step_enqueue hqueue
        exact ⟨n, h.congr rfl rfl⟩
  | lose publisher =>
      obtain rfl := Option.some.inj hs
      exact ⟨n, h.congr rfl rfl⟩
  | lock w workerId skipped now =>
      simp only [Platform.step] at hs
      split at hs
      · simp only [Option.bind_eq_bind, Option.bind_eq_some_iff, Option.some.injEq] at hs
        obtain ⟨queue, hqueue, rfl⟩ := hs
        refine ⟨_, h.update w (fun u hu => setWorker_ne _ hu) (fun u hu => ?_) fun hw => ?_⟩
        · obtain ⟨-, -, rfl | ⟨_, -, -, -, rfl⟩⟩ := QueueDb.step_lock hqueue
          · rfl
          · exact Function.update_of_ne hu ..
        · show (p.setWorker w _).workers w = _
          rw [setWorker_self, if_pos hw]
      · simp at hs
  | grant w claimToken =>
      simp only [Platform.step] at hs
      split at hs
      · simp only [Option.bind_eq_bind, Option.bind_eq_some_iff, Option.some.injEq] at hs
        obtain ⟨queue, hqueue, rfl⟩ := hs
        obtain ⟨_, -, -, rfl⟩ := QueueDb.step_grant hqueue
        refine ⟨_, h.update w (fun u hu => setWorker_ne _ hu)
          (fun u hu => Function.update_of_ne hu ..) fun hw => ?_⟩
        simp at hw
      · simp at hs
  | startTask w startedAt =>
      simp only [Platform.step] at hs
      split at hs
      · rename_i hworker
        simp only [Option.bind_eq_bind, Option.bind_eq_some_iff, Option.some.injEq] at hs
        obtain ⟨_, -, rfl⟩ := hs
        exact ⟨_, h.setWorker _ (by simp [hworker]) rfl rfl⟩
      · simp at hs
  | report w result completedAt =>
      simp only [Platform.step] at hs
      split at hs
      · rename_i hworker
        simp only [Option.bind_eq_bind, Option.bind_eq_some_iff, Option.some.injEq] at hs
        obtain ⟨_, -, rfl⟩ := hs
        exact ⟨_, h.setWorker _ (by simp [hworker]) rfl rfl⟩
      · simp at hs
  | statement w =>
      simp only [Platform.step, Option.bind_eq_bind, Option.bind_eq_some_iff,
        Option.some.injEq] at hs
      obtain ⟨_, -, rfl⟩ := hs
      exact ⟨n, h.congr rfl rfl⟩
  | row w k =>
      simp only [Platform.step, Option.bind_eq_bind, Option.bind_eq_some_iff,
        Option.some.injEq] at hs
      obtain ⟨_, -, rfl⟩ := hs
      exact ⟨n, h.congr rfl rfl⟩
  | endTransaction w =>
      simp only [Platform.step] at hs
      split at hs
      · rename_i hworker
        simp only [Option.bind_eq_bind, Option.bind_eq_some_iff, Option.some.injEq] at hs
        obtain ⟨_, -, _, -, ⟨_, _⟩, -, _, -, rfl⟩ := hs
        exact ⟨_, h.setWorker _ (by simp [hworker]) rfl rfl⟩
      · simp at hs
  | heartbeat w now =>
      simp only [Platform.step] at hs
      split at hs
      · rename_i hworker
        simp only [Option.bind_eq_bind, Option.bind_eq_some_iff, Option.some.injEq] at hs
        obtain ⟨_, hqueue, rfl⟩ := hs
        obtain ⟨-, -, rfl⟩ := QueueDb.step_heartbeat hqueue
        exact ⟨_, h.setWorker _ (by simp [hworker]) rfl rfl⟩
      · simp at hs
  | heartbeatFailed w =>
      simp only [Platform.step] at hs
      split at hs
      · rename_i hworker
        obtain rfl := Option.some.inj hs
        exact ⟨_, h.setWorker _ (by simp [hworker]) rfl rfl⟩
      · simp at hs
  | dispose w now =>
      simp only [Platform.step] at hs
      split at hs
      · rename_i hworker
        obtain rfl := Option.some.inj hs
        exact ⟨_, h.setWorker _ (by simp [hworker]) rfl rfl⟩
      · rename_i hworker
        simp only [Option.bind_eq_bind, Option.bind_eq_some_iff, Option.some.injEq] at hs
        obtain ⟨_, hqueue, rfl⟩ := hs
        refine ⟨_, h.setWorker .idle (by simp [hworker]) rfl ?_⟩
        split at hqueue
        · obtain ⟨-, rfl⟩ := QueueDb.step_release hqueue
          rfl
        · obtain ⟨-, -, rfl⟩ := QueueDb.step_finish hqueue
          rfl
      · simp at hs
  | crash w =>
      obtain rfl := Option.some.inj hs
      have hgone : ∀ u, u ≠ w →
          ((p.queue.step leaseTimeout (.abort w)).getD p.queue).claiming u =
            p.queue.claiming u := by
        intro u hu
        cases hqueue : p.queue.step leaseTimeout (.abort w) with
        | none => rfl
        | some queue =>
            rw [QueueDb.step_abort hqueue]
            exact Function.update_of_ne hu ..
      refine ⟨_, h.update w (fun u hu => setWorker_ne _ hu) hgone fun hw => ?_⟩
      dsimp only at hw
      rw [abort_claiming] at hw
      simp at hw

/-- Nobody is at work. -/
structure Quiet (p : Platform) : Prop where
  db : p.db.Quiet
  workers : ∀ w, p.workers w = .idle
  claiming : ∀ w, p.queue.claiming w = none
  locks : ∀ i, p.queue.locks i = none

/-- The rows of both stores are the same. -/
structure SameRows (p p' : Platform) : Prop where
  store : p'.db.store = p.db.store
  queue : p'.queue.queue = p.queue.queue

theorem SameRows.trans {p'' : Platform} (h : p.SameRows p') (h' : p'.SameRows p'') :
    p.SameRows p'' :=
  ⟨h'.store.trans h.store, h'.queue.trans h.queue⟩

/-- Where no worker is at work, nobody is. -/
theorem Staffed.quiet (h : p.Staffed 0) (hp : p.Sound leaseTimeout) : p.Quiet := by
  have hidle : ∀ w, p.workers w = .idle := fun w => h.workers w (Nat.zero_le w)
  have hclaiming : ∀ w, p.queue.claiming w = none := by
    intro w
    by_contra hsome
    have hworker := h.claiming w (Option.isSome_iff_ne_none.mpr hsome)
    rw [hidle w] at hworker
    simp at hworker
  have htxns : ∀ w, p.db.txns w = none := by
    intro w
    have hw := hp.workers w
    rw [hidle w] at hw
    exact Option.map_eq_none_iff.mp hw
  refine ⟨⟨htxns, fun k => ?_⟩, hidle, hclaiming, fun i => ?_⟩
  · cases hk : p.db.locks k with
    | none => rfl
    | some w => exact absurd hk ((reachable_sound hp.db).unheld w k (htxns w))
  · cases hi : p.queue.locks i with
    | none => rfl
    | some w =>
        have hsome := hp.queue.locked i w hi
        rw [hclaiming w] at hsome
        simp at hsome

variable (leaseTimeout) in
/-- A worker goes down, with its transaction and its lock, and the rows are as before. -/
theorem Staffed.crash (h : p.Staffed (n + 1)) :
    ∃ p', p.Goes leaseTimeout p' ∧ p'.Staffed n ∧ p.SameRows p' := by
  have hs : ∃ p', p.step leaseTimeout (.crash n) = some p' := ⟨_, rfl⟩
  obtain ⟨p', hs⟩ := hs
  refine ⟨p', .run (.crash n) rfl (by simp) hs hs, ?_, ?_⟩
  · obtain rfl := Option.some.inj hs
    refine ⟨fun w hw => ?_, fun w hw => ?_⟩
    · show (p.setWorker n .idle).workers w = .idle
      by_cases hwn : w = n
      · rw [hwn, setWorker_self]
      · rw [setWorker_ne _ hwn, h.workers w (by omega)]
    · dsimp only at hw ⊢
      have hwn : w ≠ n := by
        rintro rfl
        rw [abort_claiming] at hw
        simp at hw
      rw [setWorker_ne _ hwn]
      refine h.claiming w ?_
      cases hqueue : p.queue.step leaseTimeout (.abort n) with
      | none => simpa [hqueue] using hw
      | some queue =>
          rw [hqueue, Option.getD_some, QueueDb.step_abort hqueue] at hw
          dsimp only at hw
          rwa [Function.update_of_ne hwn] at hw
  · obtain rfl := Option.some.inj hs
    constructor
    · show ((p.db.step Call.body (.abort n)).getD p.db).store = _
      cases hdb : p.db.step Call.body (.abort n) with
      | none => rfl
      | some db =>
          obtain ⟨_, -, rfl⟩ := Sql.step_abort hdb
          rfl
    · show ((p.queue.step leaseTimeout (.abort n)).getD p.queue).queue = _
      cases hqueue : p.queue.step leaseTimeout (.abort n) with
      | none => rfl
      | some queue =>
          rw [Option.getD_some, QueueDb.step_abort hqueue]

end Platform

end AutomationPlatform
