/-
Trigger plugins and their registry.

A plugin is a class with two class methods, and a registry resolves a plugin type to
the class.  Of `issubclass` one question is ever asked: whether a trigger plugin is a
chronological one, which is to say whether it has a `next_occurrence`.

The registry fills itself from the implementations the package holds.  There is one,
the interval trigger.
-/
import AutomationPlatform.Domain
import AutomationPlatform.Exceptions
import Mathlib.Tactic.Linarith

namespace AutomationPlatform

/-- `next_occurrence`: the occurrence after a time, `none` when there is none. -/
abbrev NextOccurrence := JsonObject → Datetime → Except Raised (Option Datetime)

structure TriggerPlugin where
  validateConfiguration : JsonObject → Except Raised Unit
  /-- What makes the plugin a `ChronologicalTrigger`. -/
  nextOccurrence : Option NextOccurrence

/-- The implementations by plugin type. -/
abbrev TriggerRegistry := String → Option TriggerPlugin

namespace TriggerRegistry

def get (registry : TriggerRegistry) (pluginType : String) : Except Raised TriggerPlugin :=
  match registry pluginType with
  | some plugin => .ok plugin
  | none => .error { class_ := .key, message := "Unknown plugin type '" ++ pluginType ++ "'." }

def contains (registry : TriggerRegistry) (pluginType : String) : Bool :=
  (registry pluginType).isSome

end TriggerRegistry

/-! ### Times

Python's `timedelta` is bounded in days, and its `datetime` in years.
-/

namespace Datetime

/-- The first microsecond of the year 1. -/
def min : Datetime := -62135596800000000

/-- The last microsecond of the year 9999. -/
def max : Datetime := 253402300799999999

/-- `timedelta(seconds=n)`. -/
def seconds (n : Int) : Except Raised Timedelta :=
  if -999999999 ≤ n / 86400 ∧ n / 86400 ≤ 999999999 then .ok (n * 1000000)
  else .error { class_ := .overflow }

/-- `after + delta`. -/
def add (after : Datetime) (delta : Timedelta) : Except Raised Datetime :=
  if min ≤ after + delta ∧ after + delta ≤ max then .ok (after + delta)
  else .error { class_ := .overflow }

end Datetime

namespace IntervalTrigger

def pluginType : String := "interval"

def validateConfiguration (configuration : JsonObject) : Except Raised Unit :=
  match configuration.lookup "interval_seconds" with
  | some (.int intervalSeconds) =>
      if intervalSeconds ≤ 0 then
        .error
          { class_ := .invalidPluginConfiguration
            message := "interval_seconds must be greater than zero." }
      else if configuration.any (·.1 != "interval_seconds") then
        .error
          { class_ := .invalidPluginConfiguration
            message := "Interval trigger configuration must contain only interval_seconds." }
      else .ok ()
  | _ =>
      .error
        { class_ := .invalidPluginConfiguration
          message := "interval_seconds must be an integer." }

def nextOccurrence (configuration : JsonObject) (after : Datetime) :
    Except Raised (Option Datetime) :=
  match configuration.lookup "interval_seconds" with
  | some (.int intervalSeconds) => do
      let delta ← Datetime.seconds intervalSeconds
      let next ← Datetime.add after delta
      pure (some next)
  | some _ => .error { class_ := .type }  -- validation leaves no value that is not an integer
  | none => .error { class_ := .key }

def plugin : TriggerPlugin where
  validateConfiguration := validateConfiguration
  nextOccurrence := some nextOccurrence

end IntervalTrigger

/-- The registry as it fills itself. -/
def TriggerRegistry.discovered : TriggerRegistry :=
  fun pluginType => if pluginType = IntervalTrigger.pluginType then some IntervalTrigger.plugin else none

/-- There is no other. -/
theorem TriggerRegistry.eq_interval_of_discovered {pluginType : String} {plugin : TriggerPlugin}
    (h : discovered pluginType = some plugin) : plugin = IntervalTrigger.plugin := by
  unfold discovered at h
  split at h
  · exact (Option.some.inj h).symm
  · simp at h

/-! ### The interval trigger -/

namespace IntervalTrigger

/-- A configuration that passes the validation has a positive interval. -/
theorem validateConfiguration_ok {configuration : JsonObject}
    (h : validateConfiguration configuration = .ok ()) :
    ∃ n : Int, configuration.lookup "interval_seconds" = some (.int n) ∧ 0 < n := by
  unfold validateConfiguration at h
  split at h
  · rename_i n hn
    refine ⟨n, hn, ?_⟩
    by_contra hle
    rw [if_pos (Int.not_lt.mp hle)] at h
    simp at h
  · simp at h

/-- The next occurrence is one interval later, if Python can represent both. -/
theorem nextOccurrence_eq_ok {configuration : JsonObject} {after : Datetime} {n : Int}
    {next : Option Datetime} (hn : configuration.lookup "interval_seconds" = some (.int n)) :
    nextOccurrence configuration after = .ok next ↔
      (-999999999 ≤ n / 86400 ∧ n / 86400 ≤ 999999999) ∧
        (Datetime.min ≤ after + n * 1000000 ∧ after + n * 1000000 ≤ Datetime.max) ∧
        next = some (after + n * 1000000) := by
  simp only [nextOccurrence, hn]
  by_cases hdays : -999999999 ≤ n / 86400 ∧ n / 86400 ≤ 999999999
  · rw [show Datetime.seconds n = .ok (n * 1000000) from if_pos hdays]
    by_cases hrange : Datetime.min ≤ after + n * 1000000 ∧ after + n * 1000000 ≤ Datetime.max
    · have hadd : Datetime.add after (n * 1000000) = .ok (after + n * 1000000) := if_pos hrange
      simp [bind, Except.bind, pure, Except.pure, hadd, hdays, hrange, eq_comm]
    · have hadd : Datetime.add after (n * 1000000) = .error { class_ := .overflow } :=
        if_neg hrange
      simp only [bind, Except.bind, hadd, reduceCtorEq, false_iff]
      exact fun h => hrange h.2.1
  · rw [show Datetime.seconds n = .error { class_ := .overflow } from if_neg hdays]
    simp only [bind, Except.bind, reduceCtorEq, false_iff]
    exact fun h => hdays h.1

/-- What follows an occurrence is later than it, and there is always something that follows. -/
theorem nextOccurrence_ok {configuration : JsonObject} {after : Datetime}
    {next : Option Datetime} (hvalid : validateConfiguration configuration = .ok ())
    (h : nextOccurrence configuration after = .ok next) :
    ∃ o, next = some o ∧ after < o := by
  obtain ⟨n, hn, hpos⟩ := validateConfiguration_ok hvalid
  obtain ⟨-, -, rfl⟩ := (nextOccurrence_eq_ok hn).mp h
  exact ⟨_, rfl, by linarith⟩

/-- A positive interval can be carried as far as there are dates.  The bound on timedeltas is
never what stops it: there are fewer days between the first date and the last. -/
theorem nextOccurrence_in_range {configuration : JsonObject} {after : Datetime} {n : Int}
    (hn : configuration.lookup "interval_seconds" = some (.int n)) (hpos : 0 < n)
    (hafter : Datetime.min ≤ after) (hmax : after + n * 1000000 ≤ Datetime.max) :
    nextOccurrence configuration after = .ok (some (after + n * 1000000)) := by
  have hbelow : n * 1000000 ≤ 315537897599999999 := by
    unfold Datetime.min at hafter
    unfold Datetime.max at hmax
    linarith
  have hdays : -999999999 ≤ n / 86400 ∧ n / 86400 ≤ 999999999 := by omega
  exact (nextOccurrence_eq_ok hn).mpr ⟨hdays, ⟨by linarith, hmax⟩, rfl⟩

theorem nextOccurrence_iff {configuration : JsonObject} {after : Datetime} {n : Int}
    (hn : configuration.lookup "interval_seconds" = some (.int n)) (hpos : 0 < n)
    (hafter : Datetime.min ≤ after) :
    (∃ next, nextOccurrence configuration after = .ok (some next) ∧ after < next) ↔
      after + n * 1000000 ≤ Datetime.max := by
  constructor
  · intro ⟨next, hnext, _⟩
    exact ((nextOccurrence_eq_ok hn).mp hnext).2.1.2
  · intro hmax
    exact ⟨_, nextOccurrence_in_range hn hpos hafter hmax, by linarith⟩

end IntervalTrigger

end AutomationPlatform
