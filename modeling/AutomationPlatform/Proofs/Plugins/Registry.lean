/-
What a registry holds once it has filled itself.

The registration of a list of classes is a fold, and what is proved of it is what one more class
does to a registry of those before it.  A registry is then known by the list alone, and its order
does not matter to a lookup.  For this package it is the registry the services work with.
-/
import AutomationPlatform.Plugins.Registry

namespace AutomationPlatform

/-! ### What a registry holds -/

/-- A class that says what type it is of. -/
def PluginClass.Typed {α : Type} (c : PluginClass α) : Prop :=
  ∃ pluginType, c.pluginType = some pluginType ∧ blank pluginType = false

namespace PluginRegistry

variable {α : Type}

/-- A registry of exactly these classes, each under a type of its own. -/
structure Registered (registry : PluginRegistry α) (classes : List (PluginClass α)) : Prop where
  row : ∀ pluginType c, registry.row pluginType = some c ↔
    c ∈ classes ∧ c.pluginType = some pluginType
  typed : ∀ c ∈ classes, c.Typed
  distinct : (classes.map (·.pluginType)).Nodup

variable {registry registry' : PluginRegistry α} {c : PluginClass α}
  {classes : List (PluginClass α)}

theorem register_eq_ok : register registry c = .ok registry' ↔
    ∃ pluginType, c.pluginType = some pluginType ∧ blank pluginType = false ∧
      registry.row pluginType = none ∧ registry.put pluginType c = registry' := by
  unfold register
  cases c.pluginType with
  | none => simp
  | some pluginType =>
      cases hblank : blank pluginType <;> cases hrow : registry.row pluginType <;>
        simp [hblank, hrow]

theorem register_eq_error {exc : Raised} : register registry c = .error exc ↔
    c.pluginType = none ∧ { class_ := .attribute } = exc ∨
    (∃ pluginType, c.pluginType = some pluginType ∧ blank pluginType = true ∧
      emptyPluginType c = exc) ∨
    ∃ pluginType existing, c.pluginType = some pluginType ∧ blank pluginType = false ∧
      registry.row pluginType = some existing ∧
      duplicatePluginType pluginType existing c = exc := by
  unfold register
  cases c.pluginType with
  | none => simp
  | some pluginType =>
      cases hblank : blank pluginType <;> cases hrow : registry.row pluginType <;>
        simp [hblank, hrow]

theorem registered_nil : Registered (.empty : PluginRegistry α) [] where
  row := by simp
  typed := by simp
  distinct := List.nodup_nil

/-- One more class. -/
theorem Registered.register (h : Registered registry classes)
    (hc : register registry c = .ok registry') : Registered registry' (classes ++ [c]) := by
  obtain ⟨pluginType, htype, hblank, hnone, rfl⟩ := register_eq_ok.mp hc
  have hfree : ∀ d ∈ classes, d.pluginType ≠ some pluginType := by
    intro d hd hsame
    rw [(h.row pluginType d).mpr ⟨hd, hsame⟩] at hnone
    simp at hnone
  refine ⟨?_, ?_, ?_⟩
  · intro other d
    by_cases hother : other = pluginType
    · subst hother
      rw [Sql.Store.put_row_self]
      constructor
      · intro hd
        obtain rfl := Option.some.inj hd
        exact ⟨by simp, htype⟩
      · rintro ⟨hd, hsame⟩
        rcases List.mem_append.mp hd with hd | hd
        · exact absurd hsame (hfree d hd)
        · rw [List.mem_singleton.mp hd]
    · rw [Sql.Store.put_row_ne _ _ hother, h.row]
      constructor
      · rintro ⟨hd, hsame⟩
        exact ⟨List.mem_append_left _ hd, hsame⟩
      · rintro ⟨hd, hsame⟩
        rcases List.mem_append.mp hd with hd | hd
        · exact ⟨hd, hsame⟩
        · rw [List.mem_singleton.mp hd, htype] at hsame
          exact absurd (Option.some.inj hsame).symm hother
  · intro d hd
    rcases List.mem_append.mp hd with hd | hd
    · exact h.typed d hd
    · exact ⟨pluginType, List.mem_singleton.mp hd ▸ htype, hblank⟩
  · rw [List.map_append, List.nodup_append]
    refine ⟨h.distinct, by simp, fun a ha b hb hab => ?_⟩
    obtain ⟨d, hd, rfl⟩ := List.mem_map.mp ha
    refine hfree d hd ?_
    rw [List.map_singleton, List.mem_singleton] at hb
    exact hab.trans (hb.trans htype)

theorem foldlM_snoc (rest : List (PluginClass α)) (c : PluginClass α) :
    (rest ++ [c]).foldlM register (.empty : PluginRegistry α) =
      rest.foldlM register .empty >>= fun earlier => register earlier c := by
  simp [List.foldlM_append]

/-- And so all of them. -/
theorem registered_of_foldlM (h : classes.foldlM register .empty = .ok registry) :
    Registered registry classes := by
  induction classes using List.reverseRecOn generalizing registry with
  | nil =>
      obtain rfl := Except.ok.inj h
      exact registered_nil
  | append_singleton rest c ih =>
      rw [foldlM_snoc] at h
      cases hrest : rest.foldlM register (.empty : PluginRegistry α) with
      | error exc =>
          rw [hrest] at h
          cases h
      | ok earlier =>
          rw [hrest] at h
          exact (ih hrest).register h

/-- Classes with types of their own can be registered. -/
theorem exists_registry (htyped : ∀ c ∈ classes, c.Typed)
    (hdistinct : (classes.map (·.pluginType)).Nodup) :
    ∃ registry, classes.foldlM register (.empty : PluginRegistry α) = .ok registry := by
  induction classes using List.reverseRecOn with
  | nil => exact ⟨_, rfl⟩
  | append_singleton rest c ih =>
      rw [List.map_append, List.nodup_append] at hdistinct
      obtain ⟨hrest, -, hapart⟩ := hdistinct
      obtain ⟨earlier, hearlier⟩ := ih (fun d hd => htyped d (List.mem_append_left _ hd)) hrest
      obtain ⟨pluginType, htype, hblank⟩ := htyped c (by simp)
      have hregistered := registered_of_foldlM hearlier
      have hnone : earlier.row pluginType = none := by
        cases hrow : earlier.row pluginType with
        | none => rfl
        | some d =>
            obtain ⟨hd, hsame⟩ := (hregistered.row pluginType d).mp hrow
            refine absurd (hsame.trans htype.symm) (hapart _ (List.mem_map_of_mem hd) _ ?_)
            simp
      refine ⟨earlier.put pluginType c, ?_⟩
      rw [foldlM_snoc, hearlier]
      exact register_eq_ok.mpr ⟨pluginType, htype, hblank, hnone, rfl⟩

/-- Why a class cannot be registered after these. -/
inductive Refused (before : List (PluginClass α)) (c : PluginClass α) : Raised → Prop where
  | untyped (htype : c.pluginType = none) : Refused before c { class_ := .attribute }
  | empty (pluginType : String) (htype : c.pluginType = some pluginType)
      (hblank : blank pluginType = true) : Refused before c (emptyPluginType c)
  | duplicate (pluginType : String) (existing : PluginClass α) (hmem : existing ∈ before)
      (hexisting : existing.pluginType = some pluginType)
      (htype : c.pluginType = some pluginType) (hblank : blank pluginType = false) :
      Refused before c (duplicatePluginType pluginType existing c)

/-- The first class that does not fit to those before it ends the registration. -/
theorem refused_of_foldlM {exc : Raised}
    (h : classes.foldlM register (.empty : PluginRegistry α) = .error exc) :
    ∃ before c after, classes = before ++ c :: after ∧
      (∃ registry, before.foldlM register (.empty : PluginRegistry α) = .ok registry) ∧
      Refused before c exc := by
  induction classes using List.reverseRecOn with
  | nil => cases h
  | append_singleton rest c ih =>
      rw [foldlM_snoc] at h
      cases hrest : rest.foldlM register (.empty : PluginRegistry α) with
      | error earlier =>
          rw [hrest] at h
          obtain rfl := Except.error.inj h
          obtain ⟨before, d, after, rfl, hbefore, hrefused⟩ := ih hrest
          exact ⟨before, d, after ++ [c], by simp, hbefore, hrefused⟩
      | ok registry =>
          rw [hrest] at h
          refine ⟨rest, c, [], rfl, ⟨registry, hrest⟩, ?_⟩
          rcases register_eq_error.mp h with ⟨htype, rfl⟩ | ⟨pluginType, htype, hblank, rfl⟩ |
            ⟨pluginType, existing, htype, hblank, hrow, rfl⟩
          · exact .untyped htype
          · exact .empty pluginType htype hblank
          · obtain ⟨hmem, hexisting⟩ := ((registered_of_foldlM hrest).row _ _).mp hrow
            exact .duplicate pluginType existing hmem hexisting htype hblank

theorem get_eq_ok {pluginType : String} :
    get registry pluginType = .ok c ↔ registry.row pluginType = some c := by
  unfold get
  cases registry.row pluginType <;> simp

theorem contains_iff {pluginType : String} :
    contains registry pluginType = true ↔ ∃ c, get registry pluginType = .ok c := by
  simp only [contains, get_eq_ok, Option.isSome_iff_exists]

theorem mem_supportedTypes {pluginType : String} :
    pluginType ∈ supportedTypes registry ↔ contains registry pluginType = true := by
  rw [supportedTypes, List.mem_toFinset, registry.mem_keys, contains]

/-- A lookup does not depend on the order of the registration. -/
theorem Registered.row_perm {classes' : List (PluginClass α)} (h : Registered registry classes)
    (h' : Registered registry' classes') (hsame : ∀ c, c ∈ classes ↔ c ∈ classes')
    (pluginType : String) : registry'.row pluginType = registry.row pluginType := by
  refine Option.ext fun c => ?_
  rw [h.row, h'.row, hsame]

/-- A lookup goes through what was discovered. -/
theorem Registered.row_eq_find (h : Registered registry classes) (pluginType : String) :
    registry.row pluginType = classes.find? fun c => c.pluginType == some pluginType := by
  cases hfind : classes.find? fun c => c.pluginType == some pluginType with
  | some c =>
      obtain ⟨htype, -⟩ := List.find?_eq_some_iff_append.mp hfind
      exact (h.row pluginType c).mpr ⟨List.mem_of_find?_eq_some hfind, by simpa using htype⟩
  | none =>
      rw [← Option.not_isSome_iff_eq_none, Option.isSome_iff_exists]
      rintro ⟨c, hc⟩
      obtain ⟨hmem, htype⟩ := (h.row pluginType c).mp hc
      exact absurd (by simpa using htype) (List.find?_eq_none.mp hfind c hmem)

end PluginRegistry

/-! ### The registries of the package -/

namespace TaskRegistry

theorem discoverPlugins_modules :
    discoverPlugins pluginInterface modules = [collectInputs, fail, produceValue] := by
  simp [discoverPlugins, findPluginImplementations, modules, imports, pluginInterface,
    implementation, collectInputs, fail, produceValue, PluginClass.imported, PluginClass.any,
    PluginClass.invalidPluginConfigurationError]

/-- The registry the services are given is the one that fills itself from the package. -/
theorem discovered_eq : ∃ registry, PluginRegistry.init pluginInterface modules = .ok registry ∧
    ∀ pluginType, discovered pluginType = (registry.row pluginType).bind (·.plugin) := by
  have htyped : ∀ c ∈ [collectInputs, fail, produceValue], c.Typed := by
    intro c hc
    simp only [List.mem_cons, List.not_mem_nil, or_false] at hc
    rcases hc with rfl | rfl | rfl
    · exact ⟨_, rfl, by decide⟩
    · exact ⟨_, rfl, by decide⟩
    · exact ⟨_, rfl, by decide⟩
  obtain ⟨registry, h⟩ := PluginRegistry.exists_registry htyped (by decide)
  rw [PluginRegistry.init, discoverPlugins_modules]
  refine ⟨registry, h, fun pluginType => ?_⟩
  rw [(PluginRegistry.registered_of_foldlM h).row_eq_find]
  by_cases hproduce : pluginType = ProduceValueTask.pluginType
  · subst hproduce
    rfl
  by_cases hcollect : pluginType = CollectInputsTask.pluginType
  · subst hcollect
    rfl
  by_cases hfail : pluginType = FailTask.pluginType
  · subst hfail
    rfl
  simp [discovered, collectInputs, fail, produceValue, implementation, hproduce, hcollect, hfail,
    Ne.symm hproduce, Ne.symm hcollect, Ne.symm hfail]

end TaskRegistry

namespace TriggerRegistry

theorem discoverPlugins_modules : discoverPlugins pluginInterface modules = [interval] := by
  simp [discoverPlugins, findPluginImplementations, modules, pluginInterface, interval,
    chronologicalTrigger, PluginClass.imported, PluginClass.any,
    PluginClass.invalidPluginConfigurationError]

/-- And so it is with triggers. -/
theorem discovered_eq : ∃ registry, PluginRegistry.init pluginInterface modules = .ok registry ∧
    ∀ pluginType, discovered pluginType = (registry.row pluginType).bind (·.plugin) := by
  have htyped : ∀ c ∈ [interval], c.Typed := by
    intro c hc
    rw [List.mem_singleton.mp hc]
    exact ⟨_, rfl, by decide⟩
  obtain ⟨registry, h⟩ := PluginRegistry.exists_registry htyped (List.nodup_singleton _)
  rw [PluginRegistry.init, discoverPlugins_modules]
  refine ⟨registry, h, fun pluginType => ?_⟩
  rw [(PluginRegistry.registered_of_foldlM h).row_eq_find]
  by_cases hinterval : pluginType = IntervalTrigger.pluginType
  · subst hinterval
    rfl
  simp [discovered, interval, hinterval, Ne.symm hinterval]

end TriggerRegistry

/-! ### What is resolved -/

namespace PluginRegistry

variable {α : Type}

/--
**A registry resolves exactly what its package implements.**  It can be built when every
implementation that is discovered has a plugin type of its own, not a blank one, and otherwise the
first that has none is named.  Then a plugin type resolves to the class of that type which a module
defines itself and which implements the interface, in whatever order the modules are imported.
The two registries the services are given are built so from the modules of the package.
-/
theorem registry_resolves (pluginInterface : ClassName) (modules : List (PluginModule α)) :
    ((∃ registry, init pluginInterface modules = .ok registry) ↔
      (∀ c ∈ discoverPlugins pluginInterface modules, c.Typed) ∧
      ((discoverPlugins pluginInterface modules).map (·.pluginType)).Nodup) ∧
    (∀ exc, init pluginInterface modules = .error exc → ∃ before c after,
      discoverPlugins pluginInterface modules = before ++ c :: after ∧
      (∃ registry, before.foldlM register (.empty : PluginRegistry α) = .ok registry) ∧
      Refused before c exc) ∧
    (∀ registry, init pluginInterface modules = .ok registry →
      (∀ pluginType c, get registry pluginType = .ok c ↔ c.pluginType = some pluginType ∧
        ∃ module ∈ modules, c ∈ module.classes ∧ c.className.1 = module.name ∧
          c.className ≠ pluginInterface ∧ pluginInterface ∈ c.superclasses) ∧
      (∀ pluginType, contains registry pluginType = true ↔
        ∃ c, get registry pluginType = .ok c) ∧
      (∀ pluginType, pluginType ∈ supportedTypes registry ↔
        contains registry pluginType = true) ∧
      ∀ modules', modules.Perm modules' → ∃ registry',
        init pluginInterface modules' = .ok registry' ∧
        ∀ pluginType, get registry' pluginType = get registry pluginType) ∧
    (∃ registry, init TaskRegistry.pluginInterface TaskRegistry.modules = .ok registry ∧
      ∀ pluginType, TaskRegistry.discovered pluginType =
        (registry.row pluginType).bind (·.plugin)) ∧
    ∃ registry, init TriggerRegistry.pluginInterface TriggerRegistry.modules = .ok registry ∧
      ∀ pluginType, TriggerRegistry.discovered pluginType =
        (registry.row pluginType).bind (·.plugin) := by
  refine ⟨⟨?_, fun ⟨htyped, hdistinct⟩ => exists_registry htyped hdistinct⟩,
    fun exc h => refused_of_foldlM h, fun registry h => ?_, TaskRegistry.discovered_eq,
    TriggerRegistry.discovered_eq⟩
  · rintro ⟨registry, h⟩
    have hregistered := registered_of_foldlM h
    exact ⟨hregistered.typed, hregistered.distinct⟩
  · have hregistered := registered_of_foldlM h
    refine ⟨fun pluginType c => ?_, fun _ => contains_iff, fun _ => mem_supportedTypes,
      fun modules' hperm => ?_⟩
    · rw [get_eq_ok, hregistered.row, mem_discoverPlugins, and_comm]
    · have hdiscovered : (discoverPlugins pluginInterface modules).Perm
          (discoverPlugins pluginInterface modules') := hperm.flatMap_right _
      obtain ⟨registry', h'⟩ := exists_registry
        (fun c hc => hregistered.typed c (hdiscovered.mem_iff.mpr hc))
        ((hdiscovered.map _).nodup_iff.mp hregistered.distinct)
      refine ⟨registry', h', fun pluginType => ?_⟩
      have hrow := hregistered.row_perm (registered_of_foldlM h')
        (fun c => hdiscovered.mem_iff) pluginType
      unfold get
      rw [hrow]

end PluginRegistry

end AutomationPlatform
