/-
Several series of appointments and one clerk.

Each series is a strictly increasing sequence of times, finite or not.  The clerk knows
how far each series has been worked off.  In every round he takes the earliest
appointment that is not after a fixed time, the smallest index first where two are at
the same time, and works it off if that is possible.  If it is not, the appointment
stays, and he will take it again.

Two facts are proved of such a run.  An appointment is reached exactly when it and all
that come before it are possible.  And where all are possible, they are worked off in
order, each once, in as many rounds as there are appointments.
-/
import Mathlib.Algebra.BigOperators.Group.Finset.Piecewise
import Mathlib.Algebra.Order.BigOperators.Group.Finset
import Mathlib.Data.Int.Order.Basic
import Mathlib.Tactic.Linarith

/-- Series of times, indexed, and which of their appointments are possible. -/
structure Agenda (ι T : Type) where
  time : ι → Nat → Option T
  possible : ι → Nat → Prop

namespace Agenda

variable {ι T : Type} [LinearOrder ι] [LinearOrder T]

/-- The order in which appointments are taken. -/
def Earlier (t : T) (i : ι) (u : T) (j : ι) : Prop := t < u ∨ (t = u ∧ i ≤ j)

theorem Earlier.trans_le {t u v : T} {i j : ι} (h : Earlier t i u j) (huv : u ≤ v) :
    Earlier t i v j := by
  rcases h with h | ⟨rfl, hij⟩
  · exact Or.inl (lt_of_lt_of_le h huv)
  · rcases lt_or_eq_of_le huv with hlt | heq
    · exact Or.inl hlt
    · exact Or.inr ⟨heq, hij⟩

theorem Earlier.le {t u : T} {i j : ι} (h : Earlier t i u j) : t ≤ u := by
  rcases h with h | ⟨rfl, -⟩
  · exact le_of_lt h
  · exact le_refl _

theorem Earlier.of_le {t u v : T} {i j : ι} (h : Earlier u i v j) (htu : t ≤ u) :
    Earlier t i v j := by
  rcases h with h | ⟨rfl, hij⟩
  · exact Or.inl (lt_of_le_of_lt htu h)
  · rcases lt_or_eq_of_le htu with hlt | heq
    · exact Or.inl hlt
    · exact Or.inr ⟨heq, hij⟩

theorem Earlier.trans {t u v : T} {i j k : ι} (h : Earlier t i u j) (h' : Earlier u j v k) :
    Earlier t i v k := by
  rcases h with h | ⟨rfl, hij⟩
  · exact Or.inl (lt_of_lt_of_le h h'.le)
  · rcases h' with h' | ⟨rfl, hjk⟩
    · exact Or.inl h'
    · exact Or.inr ⟨rfl, le_trans hij hjk⟩

theorem Earlier.antisymm {t u : T} {i j : ι} (h : Earlier t i u j) (h' : Earlier u j t i) :
    t = u ∧ i = j := by
  rcases h with h | ⟨heq, hij⟩
  · exact absurd h'.le (not_le_of_gt h)
  · rcases h' with h' | ⟨-, hji⟩
    · exact absurd heq (ne_of_gt h')
    · exact ⟨heq, le_antisymm hij hji⟩

variable (a : Agenda ι T) (now : T)

/-- Times increase along a series, and what has ended does not go on. -/
structure Increasing : Prop where
  lt : ∀ i k t u, a.time i k = some t → a.time i (k + 1) = some u → t < u
  ended : ∀ i k, a.time i k = none → a.time i (k + 1) = none

/-- The appointment of a series that comes first, of those that are due. -/
structure First (pos : ι → Nat) (i : ι) (t : T) : Prop where
  time : a.time i (pos i) = some t
  due : t ≤ now
  least : ∀ j u, a.time j (pos j) = some u → u ≤ now → Earlier t i u j

/-- One round: what was worked off, and how far the series are afterwards. -/
inductive Round (pos : ι → Nat) : Option (ι × T) → (ι → Nat) → Prop
  | idle (h : ∀ i t, a.time i (pos i) = some t → now < t) : Round pos none pos
  | stuck (i : ι) (t : T) (hfirst : a.First now pos i t) (hnot : ¬ a.possible i (pos i)) :
      Round pos none pos
  | moved (i : ι) (t : T) (hfirst : a.First now pos i t) (hpossible : a.possible i (pos i)) :
      Round pos (some (i, t)) (Function.update pos i (pos i + 1))

/-- Rounds from the beginning of every series. -/
structure Run (pos : Nat → ι → Nat) (out : Nat → Option (ι × T)) : Prop where
  start : ∀ i, pos 0 i = 0
  round : ∀ n, a.Round now (pos n) (out n) (pos (n + 1))

variable {a now}

/-! ### Series -/

omit [LinearOrder ι] in
/-- Up to any appointment of a series there are appointments, and they are earlier. -/
theorem Increasing.before (h : a.Increasing) {i : ι} {k l : Nat} {u : T} (hkl : k < l)
    (hu : a.time i l = some u) : ∃ t, a.time i k = some t ∧ t < u := by
  induction l generalizing u with
  | zero => exact absurd hkl (Nat.not_lt_zero k)
  | succ l ih =>
      cases hl : a.time i l with
      | none =>
          rw [h.ended i l hl] at hu
          simp at hu
      | some v =>
          have hvu : v < u := h.lt i l v u hl hu
          rcases Nat.lt_succ_iff_lt_or_eq.mp hkl with hlt | heq
          · obtain ⟨t, ht, htv⟩ := ih hlt hl
            exact ⟨t, ht, lt_trans htv hvu⟩
          · subst heq
            exact ⟨v, hl, hvu⟩

/-! ### Positions along a run -/

namespace Run

variable {pos : Nat → ι → Nat} {out : Nat → Option (ι × T)}

/-- A round that works off an appointment moves its series on by one. -/
theorem moved (h : a.Run now pos out) {n : Nat} {i : ι} {t : T} (ho : out n = some (i, t)) :
    a.First now (pos n) i t ∧ a.possible i (pos n i) ∧
      pos (n + 1) = Function.update (pos n) i (pos n i + 1) := by
  have hround := h.round n
  rw [ho] at hround
  generalize hpos' : pos (n + 1) = pos' at hround
  cases hround with
  | moved _ _ hfirst hpossible => exact ⟨hfirst, hpossible, rfl⟩

/-- A round that works off nothing moves nothing. -/
theorem unmoved (h : a.Run now pos out) {n : Nat} (ho : out n = none) : pos (n + 1) = pos n := by
  have hround := h.round n
  rw [ho] at hround
  generalize hpos' : pos (n + 1) = pos' at hround
  cases hround with
  | idle _ => rfl
  | stuck _ _ _ _ => rfl

theorem le_succ (h : a.Run now pos out) (n : Nat) (i : ι) : pos n i ≤ pos (n + 1) i := by
  cases ho : out n with
  | none => rw [h.unmoved ho]
  | some e =>
      obtain ⟨j, t⟩ := e
      rw [(h.moved ho).2.2]
      by_cases hij : i = j
      · subst hij; simp
      · rw [Function.update_of_ne hij]

theorem le_of_le (h : a.Run now pos out) {m n : Nat} (hmn : m ≤ n) (i : ι) :
    pos m i ≤ pos n i := by
  induction n, hmn using Nat.le_induction with
  | base => exact Nat.le_refl _
  | succ n _ ih => exact Nat.le_trans ih (h.le_succ n i)

/-- What a series has passed was due, was possible, and was worked off in some round. -/
theorem passed (h : a.Run now pos out) :
    ∀ {n : Nat} {i : ι} {k : Nat}, k < pos n i →
      ∃ m t, m < n ∧ out m = some (i, t) ∧ pos m i = k ∧ a.possible i k ∧
        a.time i k = some t ∧ t ≤ now := by
  intro n
  induction n with
  | zero =>
      intro i k hk
      rw [h.start i] at hk
      exact absurd hk (Nat.not_lt_zero k)
  | succ n ih =>
      intro i k hk
      by_cases hold : k < pos n i
      · obtain ⟨m, t, hmn, hrest⟩ := ih hold
        exact ⟨m, t, Nat.lt_succ_of_lt hmn, hrest⟩
      cases ho : out n with
      | none => rw [h.unmoved ho] at hk; exact absurd hk hold
      | some e =>
          obtain ⟨j, t⟩ := e
          obtain ⟨hfirst, hpossible, hpos⟩ := h.moved ho
          rw [hpos] at hk
          by_cases hij : i = j
          · subst hij
            rw [Function.update_self] at hk
            have hkeq : pos n i = k := by omega
            subst hkeq
            exact ⟨n, t, Nat.lt_succ_self n, ho, rfl, hpossible, hfirst.time, hfirst.due⟩
          · rw [Function.update_of_ne hij] at hk
            exact absurd hk hold

/-! ### What blocks an appointment -/

/-- Where an appointment is worked off, all that come no later are possible. -/
theorem possible_of_out (h : a.Run now pos out) (hinc : a.Increasing) {n : Nat} {x : ι} {o : T}
    (ho : out n = some (x, o)) {i : ι} {k : Nat} {t : T} (ht : a.time i k = some t)
    (hearlier : Earlier t i o x) : a.possible i k := by
  obtain ⟨hfirst, hpossible, -⟩ := h.moved ho
  rcases Nat.lt_trichotomy k (pos n i) with hlt | heq | hgt
  · obtain ⟨m, u, -, -, -, hp, -⟩ := h.passed hlt
    exact hp
  · -- The series stands there, so it is the appointment itself.
    subst heq
    have hleast := hfirst.least i t ht (le_trans hearlier.le hfirst.due)
    obtain ⟨-, rfl⟩ := hleast.antisymm hearlier
    exact hpossible
  · -- The series stands before it, at something that would have been taken first.
    obtain ⟨u, hu, hut⟩ := hinc.before hgt ht
    have hleast := hfirst.least i u hu
      (le_trans (le_of_lt hut) (le_trans hearlier.le hfirst.due))
    have hback : Earlier u i o x := hearlier.of_le (le_of_lt hut)
    obtain ⟨hou, hxi⟩ := hleast.antisymm hback
    subst hxi
    rw [hou] at hearlier
    exact absurd hearlier.le (not_le_of_gt hut)

end Run

/-! ### Finite agendas

Only finitely many appointments are due: `limit i` of the series `i`, for the series in
a finite set.
-/

/-- How many appointments of each series are due. -/
structure Limited (a : Agenda ι T) (now : T) (ids : Finset ι) (limit : ι → Nat) : Prop where
  due : ∀ i k, (∃ t, a.time i k = some t ∧ t ≤ now) ↔ k < limit i
  outside : ∀ i, i ∉ ids → limit i = 0

namespace Run

variable {pos : Nat → ι → Nat} {out : Nat → Option (ι × T)} {ids : Finset ι} {limit : ι → Nat}

theorem le_limit (h : a.Run now pos out) (hl : a.Limited now ids limit) (n : Nat) (i : ι) :
    pos n i ≤ limit i := by
  by_contra hgt
  obtain ⟨m, t, -, -, -, -, ht, hnow⟩ := h.passed (Nat.lt_of_not_le hgt)
  exact Nat.lt_irrefl _ ((hl.due i (limit i)).mp ⟨t, ht, hnow⟩)

/-- A round that works something off adds one to the positions' sum. -/
theorem sum_succ (h : a.Run now pos out) (hl : a.Limited now ids limit) {n : Nat} {i : ι} {t : T}
    (ho : out n = some (i, t)) : ∑ j ∈ ids, pos (n + 1) j = (∑ j ∈ ids, pos n j) + 1 := by
  obtain ⟨hfirst, -, hpos⟩ := h.moved ho
  have hmem : i ∈ ids := by
    by_contra hout
    have hlt := (hl.due i (pos n i)).mp ⟨t, hfirst.time, hfirst.due⟩
    rw [hl.outside i hout] at hlt
    exact absurd hlt (Nat.not_lt_zero _)
  rw [hpos, Finset.sum_update_of_mem hmem,
    ← Finset.sum_sdiff (Finset.singleton_subset_iff.mpr hmem), Finset.sum_singleton]
  omega

/-- **An appointment is reached when all that come no later are possible.** -/
theorem reached (h : a.Run now pos out) (hl : a.Limited now ids limit) {x : ι} {o : T}
    (ho : a.time x 0 = some o) (hnow : o ≤ now)
    (hpossible : ∀ i k t, a.time i k = some t → Earlier t i o x → a.possible i k) :
    ∃ n, out n = some (x, o) := by
  by_contra hnever
  -- As long as it is not reached, every round works something off.
  have hbusy : ∀ n, pos n x = 0 ∧ ∑ j ∈ ids, pos n j = n := by
    intro n
    induction n with
    | zero => exact ⟨h.start x, Finset.sum_eq_zero fun i _ => h.start i⟩
    | succ n ih =>
        obtain ⟨hx, hsum⟩ := ih
        have htime : a.time x (pos n x) = some o := by rw [hx]; exact ho
        have hround := h.round n
        cases hout : out n with
        | none =>
            exfalso
            rw [hout] at hround
            generalize pos (n + 1) = pos' at hround
            cases hround with
            | idle hidle => exact absurd hnow (not_le_of_gt (hidle x o htime))
            | stuck i t hfirst hnot =>
                exact hnot (hpossible i _ t hfirst.time (hfirst.least x o htime hnow))
        | some e =>
            obtain ⟨i, t⟩ := e
            obtain ⟨hfirst, -, hpos⟩ := h.moved hout
            refine ⟨?_, by rw [h.sum_succ hl hout, hsum]⟩
            have hix : x ≠ i := by
              intro hc
              subst hc
              have := hfirst.time
              rw [htime, Option.some.injEq] at this
              exact hnever ⟨n, by rw [hout, this]⟩
            rw [hpos, Function.update_of_ne hix, hx]
  have hbound : ∑ j ∈ ids, pos ((∑ j ∈ ids, limit j) + 1) j ≤ ∑ j ∈ ids, limit j :=
    Finset.sum_le_sum fun i _ => h.le_limit hl _ i
  rw [(hbusy _).2] at hbound
  omega

/-! ### Working off everything -/

/-- As long as something is due, and all is possible, every round works something off. -/
theorem sum_eq (h : a.Run now pos out) (hl : a.Limited now ids limit)
    (hpossible : ∀ i k, k < limit i → a.possible i k) :
    ∀ n, n ≤ ∑ i ∈ ids, limit i → ∑ i ∈ ids, pos n i = n := by
  intro n
  induction n with
  | zero => intro _; exact Finset.sum_eq_zero fun i _ => h.start i
  | succ n ih =>
      intro hn
      have hsum := ih (by omega)
      cases hout : out n with
      | some e =>
          obtain ⟨i, t⟩ := e
          rw [h.sum_succ hl hout, hsum]
      | none =>
          exfalso
          have hround := h.round n
          rw [hout] at hround
          generalize pos (n + 1) = pos' at hround
          cases hround with
          | idle hidle =>
              -- Nothing is due, so every series is at its limit.
              have hall : ∑ i ∈ ids, limit i ≤ ∑ i ∈ ids, pos n i := by
                refine Finset.sum_le_sum fun i _ => ?_
                by_contra hlt
                obtain ⟨t, ht, hnow⟩ := (hl.due i (pos n i)).mpr (Nat.lt_of_not_le hlt)
                exact absurd hnow (not_le_of_gt (hidle i t ht))
              omega
          | stuck i t hfirst hnot =>
              exact hnot (hpossible i _ ((hl.due i _).mp ⟨t, hfirst.time, hfirst.due⟩))

/-- After as many rounds as there are appointments every series is at its limit. -/
theorem finished (h : a.Run now pos out) (hl : a.Limited now ids limit)
    (hpossible : ∀ i k, k < limit i → a.possible i k) (i : ι) :
    pos (∑ i ∈ ids, limit i) i = limit i := by
  have hsum := h.sum_eq hl hpossible _ (Nat.le_refl _)
  by_cases hi : i ∈ ids
  · by_contra hne
    have hlt : ∑ i ∈ ids, pos (∑ i ∈ ids, limit i) i < ∑ i ∈ ids, limit i :=
      Finset.sum_lt_sum (fun j _ => h.le_limit hl _ j)
        ⟨i, hi, Nat.lt_of_le_of_ne (h.le_limit hl _ i) hne⟩
    omega
  · have := h.le_limit hl (∑ i ∈ ids, limit i) i
    rw [hl.outside i hi] at this ⊢
    omega

/-- Every round before works off an appointment. -/
theorem out_some (h : a.Run now pos out) (hl : a.Limited now ids limit)
    (hpossible : ∀ i k, k < limit i → a.possible i k) {n : Nat} (hn : n < ∑ i ∈ ids, limit i) :
    ∃ e, out n = some e := by
  cases hout : out n with
  | some e => exact ⟨e, rfl⟩
  | none =>
      exfalso
      have hsum := h.sum_eq hl hpossible n (by omega)
      have hsum' := h.sum_eq hl hpossible (n + 1) (by omega)
      rw [h.unmoved hout, hsum] at hsum'
      omega

/-- **Appointments are worked off in their order.** -/
theorem ordered (h : a.Run now pos out) (hinc : a.Increasing) {m n : Nat} (hmn : m < n)
    {i j : ι} {t u : T} (hm : out m = some (i, t)) (hn : out n = some (j, u)) :
    Earlier t i u j ∧ ¬ (t = u ∧ i = j) := by
  obtain ⟨hfirst, -, hpos⟩ := h.moved hm
  obtain ⟨hfirst', -, -⟩ := h.moved hn
  have hle : pos (m + 1) j ≤ pos n j := h.le_of_le hmn j
  by_cases hij : i = j
  · subst hij
    rw [hpos, Function.update_self] at hle
    obtain ⟨t', ht', htu⟩ := hinc.before (Nat.lt_of_succ_le hle) hfirst'.time
    rw [hfirst.time, Option.some.injEq] at ht'
    subst ht'
    exact ⟨Or.inl htu, fun hc => absurd hc.1 (ne_of_lt htu)⟩
  · refine ⟨?_, fun hc => hij hc.2⟩
    rw [hpos, Function.update_of_ne (Ne.symm hij)] at hle
    rcases Nat.lt_or_eq_of_le hle with hlt | heq
    · obtain ⟨u', hu', hlt'⟩ := hinc.before hlt hfirst'.time
      exact (hfirst.least j u' hu' (le_trans (le_of_lt hlt') hfirst'.due)).trans_le (le_of_lt hlt')
    · exact hfirst.least j u (by rw [heq]; exact hfirst'.time) hfirst'.due

/-- **Each due appointment is worked off once, and nothing else is.** -/
theorem out_iff (h : a.Run now pos out) (hl : a.Limited now ids limit)
    (hpossible : ∀ i k, k < limit i → a.possible i k) {i : ι} {t : T} :
    (∃ n < ∑ i ∈ ids, limit i, out n = some (i, t)) ↔ t ≤ now ∧ ∃ k, a.time i k = some t := by
  constructor
  · intro ⟨n, _, hn⟩
    obtain ⟨hfirst, -, -⟩ := h.moved hn
    exact ⟨hfirst.due, _, hfirst.time⟩
  · intro ⟨hnow, k, hk⟩
    have hlt : k < pos (∑ i ∈ ids, limit i) i := by
      rw [h.finished hl hpossible]
      exact (hl.due i k).mp ⟨t, hk, hnow⟩
    obtain ⟨m, t', hm, hout, -, -, ht', -⟩ := h.passed hlt
    rw [hk, Option.some.injEq] at ht'
    subst ht'
    exact ⟨m, hm, hout⟩

end Run

/-! ### Integer times -/

omit [LinearOrder ι] in
/-- Of an increasing series of integers only finitely many are due. -/
theorem exists_limit {a : Agenda ι Int} (hinc : a.Increasing) (now : Int) (i : ι) :
    ∃ limit, ∀ k, (∃ t, a.time i k = some t ∧ t ≤ now) ↔ k < limit := by
  have hgrow : ∀ k t u, a.time i 0 = some t → a.time i k = some u → t + k ≤ u := by
    intro k
    induction k with
    | zero => intro t u ht hu; rw [ht, Option.some.injEq] at hu; simp [hu]
    | succ k ih =>
        intro t u ht hu
        obtain ⟨v, hv, hvu⟩ := hinc.before (Nat.lt_succ_self k) hu
        have := ih t v ht hv
        push_cast
        linarith [Int.add_one_le_of_lt hvu]
  have hstop : ∃ k, ¬ ∃ t, a.time i k = some t ∧ t ≤ now := by
    cases h0 : a.time i 0 with
    | none => exact ⟨0, by simp [h0]⟩
    | some t =>
        refine ⟨(now - t + 1).toNat, ?_⟩
        intro ⟨u, hu, hnow⟩
        have := hgrow _ t u h0 hu
        have hself := Int.self_le_toNat (now - t + 1)
        linarith
  classical
  refine ⟨Nat.find hstop, fun k => ⟨?_, ?_⟩⟩
  · intro ⟨t, ht, hnow⟩
    by_contra hge
    apply Nat.find_spec hstop
    rcases Nat.lt_or_eq_of_le (Nat.le_of_not_lt hge) with hlt | heq
    · obtain ⟨u, hu, hut⟩ := hinc.before hlt ht
      exact ⟨u, hu, le_trans (le_of_lt hut) hnow⟩
    · exact ⟨t, heq ▸ ht, hnow⟩
  · intro hlt
    by_contra hnot
    exact Nat.find_min hstop hlt hnot

end Agenda
