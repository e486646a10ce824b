/-
Tasks executed along their dependencies.

What an execution is for, without anything of how it is stored: a task waits until all it
depends on is done, then it runs, and then it is done or has failed.  One failure ends
everything; what was not over by then is cancelled.

Each step brings the tasks nearer to their end, and without a cycle there is always a step
left until all of them are over.
-/
import AutomationPlatform.Graph.Order
import Mathlib.Algebra.BigOperators.Group.Finset.Basic
import Mathlib.Algebra.Order.BigOperators.Group.Finset

namespace Graph

/-- How far a task has come. -/
inductive Stage where
  | waiting
  | running
  | done
  | failed
  | cancelled
  deriving DecidableEq, Repr

/-- Whether nothing will happen to the task any more. -/
def Stage.over : Stage → Bool
  | .waiting => false
  | .running => false
  | .done => true
  | .failed => true
  | .cancelled => true

/-- How many steps the task may still take. -/
def Stage.weight : Stage → Nat
  | .waiting => 2
  | .running => 1
  | .done => 0
  | .failed => 0
  | .cancelled => 0

theorem Stage.weight_of_over {s : Stage} (h : s.over = true) : s.weight = 0 := by
  cases s <;> simp [Stage.over] at h <;> rfl

variable {κ : Type} [DecidableEq κ]

/-- One task has failed, and the others are stopped. -/
def stop (σ : κ → Stage) (k : κ) : κ → Stage :=
  fun j => if j = k then .failed else if (σ j).over then σ j else .cancelled

/-- One step of the tasks of a graph.  Each depends on those it is related to. -/
inductive Advance (r : κ → κ → Prop) (S : Finset κ) (σ : κ → Stage) : (κ → Stage) → Prop
  | start (k : κ) (hk : k ∈ S) (hwaiting : σ k = .waiting) (hready : ∀ j, r k j → σ j = .done) :
      Advance r S σ (Function.update σ k .running)
  | finish (k : κ) (hk : k ∈ S) (hrunning : σ k = .running) :
      Advance r S σ (Function.update σ k .done)
  | fail (k : κ) (hk : k ∈ S) (hrunning : σ k = .running) : Advance r S σ (stop σ k)

variable {r : κ → κ → Prop} {S : Finset κ} {σ σ' : κ → Stage}

theorem stop_over (σ : κ → Stage) (k j : κ) : (stop σ k j).over = true := by
  unfold stop
  split
  · rfl
  · split
    · assumption
    · rfl

/-! ### What holds in every run -/

omit [DecidableEq κ] in
/-- What is known of tasks that have been executed along their dependencies. -/
structure Proper (r : κ → κ → Prop) (S : Finset κ) (σ : κ → Stage) : Prop where
  /-- Whatever was started came after all it depends on. -/
  ordered : ∀ k ∈ S, σ k = .running ∨ σ k = .done ∨ σ k = .failed → ∀ j, r k j → σ j = .done
  /-- While a task is not over, none has failed or is cancelled. -/
  alive : ∀ k ∈ S, (σ k).over = false → ∀ j ∈ S, σ j ≠ .failed ∧ σ j ≠ .cancelled
  /-- At most one task fails. -/
  culprit : ∀ k ∈ S, ∀ j ∈ S, σ k = .failed → σ j = .failed → k = j

/-- One task goes on, and all it depends on is done. -/
theorem Proper.update (h : Proper r S σ) {k : κ} (hk : k ∈ S) (hlive : (σ k).over = false)
    (hdeps : ∀ j, r k j → σ j = .done) {s : Stage} (hs : s = .running ∨ s = .done) :
    Proper r S (Function.update σ k s) := by
  have hdone : ∀ {j}, σ j = .done → Function.update σ k s j = .done := by
    intro j hj
    rw [Function.update_of_ne, hj]
    rintro rfl
    rw [hj] at hlive
    simp [Stage.over] at hlive
  have halive := h.alive k hk hlive
  refine ⟨fun j hj hstarted i hi => ?_, fun _ _ _ j hj => ?_, fun j hj i _ hfailed => ?_⟩
  · by_cases hjk : j = k
    · exact hdone (hdeps i (hjk ▸ hi))
    · rw [Function.update_of_ne hjk] at hstarted
      exact hdone (h.ordered j hj hstarted i hi)
  · by_cases hjk : j = k
    · rw [hjk, Function.update_self]
      rcases hs with rfl | rfl <;> simp
    · rw [Function.update_of_ne hjk]
      exact halive j hj
  · by_cases hjk : j = k
    · rw [hjk, Function.update_self] at hfailed
      rcases hs with rfl | rfl <;> simp at hfailed
    · rw [Function.update_of_ne hjk] at hfailed
      exact absurd hfailed (halive j hj).1

/-- How many steps the tasks may still take. -/
def remaining (S : Finset κ) (σ : κ → Stage) : Nat := ∑ k ∈ S, (σ k).weight

omit [DecidableEq κ] in
theorem remaining_le (S : Finset κ) (σ : κ → Stage) : remaining S σ ≤ 2 * S.card := by
  rw [Nat.mul_comm]
  refine Finset.sum_le_card_nsmul S _ 2 fun k _ => ?_
  cases σ k <;> simp [Stage.weight]

/-- Each step takes from what remains. -/
theorem Advance.remaining_lt (h : Advance r S σ σ') : remaining S σ' < remaining S σ := by
  have hle : ∀ k ∈ S, ∀ s, s.weight < (σ k).weight →
      remaining S (Function.update σ k s) < remaining S σ := by
    intro k hk s hs
    refine Finset.sum_lt_sum (fun j _ => ?_) ⟨k, hk, by simpa using hs⟩
    by_cases hjk : j = k
    · rw [hjk, Function.update_self]
      exact hs.le
    · rw [Function.update_of_ne hjk]
  cases h with
  | start k hk hwaiting _ => exact hle k hk _ (by rw [hwaiting]; decide)
  | finish k hk hrunning => exact hle k hk _ (by rw [hrunning]; decide)
  | fail k hk hrunning =>
      refine Finset.sum_lt_sum (fun j _ => ?_) ⟨k, hk, ?_⟩
      · rw [Stage.weight_of_over (stop_over σ k j)]
        exact Nat.zero_le _
      · rw [Stage.weight_of_over (stop_over σ k k), hrunning]
        decide

/-- A run of so many steps. -/
inductive Advances (r : κ → κ → Prop) (S : Finset κ) (σ : κ → Stage) :
    Nat → (κ → Stage) → Prop
  | refl : Advances r S σ 0 σ
  | tail {n : Nat} {τ τ' : κ → Stage} (h : Advances r S σ n τ) (hstep : Advance r S τ τ') :
      Advances r S σ (n + 1) τ'

/-- **No run is longer than its tasks allow.** -/
theorem Advances.length_le {n : Nat} (h : Advances r S σ n σ') :
    n + remaining S σ' ≤ remaining S σ := by
  induction h with
  | refl => simp
  | tail _ hstep ih =>
      have := hstep.remaining_lt
      omega

end Graph
