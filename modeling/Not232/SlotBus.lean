import Mathlib.Data.List.Basic

/-!
# Devices on a wire with timed slots

A controller and any number of devices share a wire that each of them can pull low. A slot begins
where the wire falls, and its value is zero if the wire stays low for long. A device that offers a
zero holds the wire for some time, so that the value of a slot is the conjunction of the bits that
are offered in it. A very long low is a reset, which the devices answer with a pulse of their own.
-/

namespace Not232.SlotBus

inductive WireEvent
  | reset
  | slot (bit : Bool)
  deriving DecidableEq

/-- The times of a device in samples, and the bit that it offers in the next slot by what has
happened on the wire. A device that listens offers a one. -/
structure Device where
  sample : ℕ
  hold : ℕ
  reset : ℕ
  wait : ℕ
  presence : ℕ
  offer : List WireEvent → Bool

inductive Phase
  | idle
  | low (time : ℕ) (offered : Bool)
  | present (time : ℕ)
  deriving DecidableEq

structure Station where
  device : Device
  phase : Phase
  history : List WireEvent

namespace Station

def pulls (s : Station) : Bool :=
  match s.phase with
  | .idle => false
  | .low time offered => !offered && decide (time ≤ s.device.hold)
  | .present time =>
    decide (s.device.wait ≤ time) && decide (time < s.device.wait + s.device.presence)

/-- What a device makes of a sample of the wire. -/
def see (level : Bool) (s : Station) : Station :=
  match s.phase with
  | .idle => if level then s else { s with phase := .low 1 (s.device.offer s.history) }
  | .low time offered =>
    if level then
      if s.device.reset ≤ time then
        { s with phase := .present 0, history := s.history ++ [.reset] }
      else
        { s with
          phase := .idle
          history := s.history ++ [.slot (decide (time < s.device.sample))] }
    else { s with phase := .low (time + 1) offered }
  | .present time =>
    if level ∧ s.device.wait + s.device.presence ≤ time then { s with phase := .idle }
    else { s with phase := .present (time + 1) }

end Station

/-- The level of the wire. -/
def level (stations : List Station) (controller : Bool) : Bool :=
  controller && stations.all fun s => !s.pulls

def turn (stations : List Station) (controller : Bool) : List Station :=
  stations.map (Station.see (level stations controller))

/-- The devices behind the levels of the controller, newest first. -/
def observe (stations : List Station) (levels : List Bool) : List Station :=
  levels.foldr (fun controller stations => turn stations controller) stations

/-- The level of the wire at the newest sample. -/
def lineLevel (stations : List Station) : List Bool → Bool
  | [] => true
  | controller :: older => level (observe stations older) controller

theorem observe_append (stations : List Station) (newer older : List Bool) :
    observe stations (newer ++ older) = observe (observe stations older) newer :=
  List.foldr_append

/-- Devices that are in step. -/
def together (devices : List Device) (phase : Device → Phase) (h : List WireEvent) :
    List Station := devices.map fun d => ⟨d, phase d, h⟩

/-- The wire is high and no slot is under way. -/
def resting (devices : List Device) (h : List WireEvent) : List Station :=
  together devices (fun _ => .idle) h

/-- The wire has been low for `t` samples. -/
def pulled (devices : List Device) (h : List WireEvent) (t : ℕ) : List Station :=
  together devices (fun d => .low t (d.offer h)) h

/-- A reset ended `t` samples ago. -/
def answering (devices : List Device) (h : List WireEvent) (t : ℕ) : List Station :=
  together devices (fun _ => .present t) h

variable {devices : List Device} {h h' : List WireEvent} {phase phase' : Device → Phase}
  {controller bit : Bool} {t n : ℕ}

theorem level_false (stations : List Station) : level stations false = false := rfl

theorem level_together (devices : List Device) (phase : Device → Phase) (h : List WireEvent) :
    level (together devices phase h) true = true ↔
      ∀ d ∈ devices, Station.pulls ⟨d, phase d, h⟩ = false := by
  rw [level, Bool.true_and, together, List.all_map, List.all_eq_true]
  simp only [Function.comp_apply, Bool.not_eq_true']

/-- Devices that all do the same stay in step. -/
theorem turn_together {value : Bool} (hlevel : level (together devices phase h) controller = value)
    (hsee : ∀ d ∈ devices, Station.see value ⟨d, phase d, h⟩ = ⟨d, phase' d, h'⟩) :
    turn (together devices phase h) controller = together devices phase' h' := by
  rw [turn, hlevel, together, together, List.map_map]
  apply List.map_congr_left
  exact hsee

/-! ### Slots -/

theorem level_resting (devices : List Device) (h : List WireEvent) :
    level (resting devices h) true = true := by
  rw [resting, level_together]
  intro d _
  rfl

theorem observe_resting (n : ℕ) :
    observe (resting devices h) (List.replicate n true) = resting devices h := by
  induction n with
  | zero => rfl
  | succ n ih =>
    have hturn : turn (resting devices h) true = resting devices h :=
      turn_together (level_resting devices h) fun _ _ => rfl
    rw [List.replicate_succ, ← List.singleton_append, observe_append, ih]
    exact hturn

/-- The controller pulls the wire from rest. -/
theorem observe_pull (n : ℕ) :
    observe (resting devices h) (List.replicate (n + 1) false) = pulled devices h (n + 1) := by
  induction n with
  | zero =>
    apply turn_together (level_false _)
    intro d _
    rfl
  | succ n ih =>
    have hturn : turn (pulled devices h (n + 1)) false = pulled devices h (n + 2) :=
      turn_together (level_false _) fun _ _ => rfl
    rw [List.replicate_succ, ← List.singleton_append, observe_append, ih]
    exact hturn

/-- Some device holds the wire. -/
def Held (devices : List Device) (h : List WireEvent) (t : ℕ) : Prop :=
  ∃ d ∈ devices, d.offer h = false ∧ t ≤ d.hold

theorem level_held (hheld : Held devices h t) : level (pulled devices h t) true = false := by
  rw [Bool.eq_false_iff, pulled, ne_eq, level_together]
  intro hnone
  rcases hheld with ⟨d, hd, hoffer, htime⟩
  have hpulls := hnone d hd
  change (!d.offer h && decide (t ≤ d.hold)) = false at hpulls
  rw [hoffer, decide_eq_true htime] at hpulls
  cases hpulls

theorem level_released (hfree : ¬ Held devices h t) :
    level (pulled devices h t) true = true := by
  rw [pulled, level_together]
  intro d hd
  change (!d.offer h && decide (t ≤ d.hold)) = false
  cases hoffer : d.offer h with
  | true => rfl
  | false =>
    rw [Bool.not_false, Bool.true_and, decide_eq_false_iff_not]
    intro htime
    exact hfree ⟨d, hd, hoffer, htime⟩

theorem turn_held (hheld : Held devices h t) :
    turn (pulled devices h t) true = pulled devices h (t + 1) :=
  turn_together (level_held hheld) fun _ _ => rfl

/-- The low was one of a slot with the value. -/
def Times (devices : List Device) (t : ℕ) (bit : Bool) : Prop :=
  ∀ d ∈ devices, t < d.reset ∧ decide (t < d.sample) = bit

theorem turn_released (hfree : ¬ Held devices h t) (htimes : Times devices t bit) :
    turn (pulled devices h t) true = resting devices (h ++ [.slot bit]) := by
  apply turn_together (level_released hfree)
  intro d hd
  obtain ⟨hreset, hsample⟩ := htimes d hd
  change (if d.reset ≤ t then _ else _) = _
  rw [if_neg (Nat.not_le_of_lt hreset), hsample]

/-- From time `t` on the wire is held up to the time `u`. -/
structure Rises (devices : List Device) (h : List WireEvent) (t u : ℕ) : Prop where
  after : t ≤ u
  free : ¬ Held devices h u
  held : ∀ w, t ≤ w → w < u → Held devices h w

theorem Held.earlier {u : ℕ} (hheld : Held devices h t) (hle : u ≤ t) : Held devices h u := by
  rcases hheld with ⟨d, hd, hoffer, htime⟩
  exact ⟨d, hd, hoffer, Nat.le_trans hle htime⟩

/-- Behind the controller's low the wire stays low while it is held. -/
theorem observe_release (htimes : ∀ u < t + n, Rises devices h t u → Times devices u bit) :
    (∀ w, t ≤ w → w < t + n → Held devices h w) ∧
        observe (pulled devices h t) (List.replicate n true) = pulled devices h (t + n) ∨
      ¬ Held devices h (t + n) ∧
        observe (pulled devices h t) (List.replicate n true) =
          resting devices (h ++ [.slot bit]) := by
  induction n with
  | zero =>
    left
    exact ⟨fun w hw hlt => absurd hw (Nat.not_le_of_lt hlt), rfl⟩
  | succ n ih =>
    have hbefore : ∀ u < t + n, Rises devices h t u → Times devices u bit :=
      fun u hu => htimes u (Nat.lt_succ_of_lt hu)
    rw [List.replicate_succ, ← List.singleton_append, observe_append]
    rcases ih hbefore with ⟨hheld, hstate⟩ | ⟨hfree, hstate⟩
    · rw [hstate]
      by_cases hlast : Held devices h (t + n)
      · left
        constructor
        · intro w hw hlt
          rcases Nat.lt_succ_iff_lt_or_eq.mp hlt with hearlier | rfl
          · exact hheld w hw hearlier
          · exact hlast
        · exact turn_held hlast
      · right
        have hrises : Rises devices h t (t + n) := ⟨Nat.le_add_right t n, hlast, hheld⟩
        exact ⟨fun hlater => hlast (hlater.earlier (Nat.le_succ (t + n))),
          turn_released hlast (htimes (t + n) (Nat.lt_succ_self (t + n)) hrises)⟩
    · right
      rw [hstate]
      exact ⟨fun hlater => hfree (hlater.earlier (Nat.le_succ (t + n))), observe_resting 1⟩

section Slot

variable {low : ℕ} (htimes : ∀ u ≤ low + n, Rises devices h (low + 1) u → Times devices u bit)
include htimes

/-- What the controller's low and the samples behind it leave. -/
theorem observe_low :
    (∀ w, low < w → w ≤ low + n → Held devices h w) ∧
        observe (resting devices h) (List.replicate n true ++ List.replicate (low + 1) false) =
          pulled devices h (low + 1 + n) ∨
      ¬ Held devices h (low + 1 + n) ∧
        observe (resting devices h) (List.replicate n true ++ List.replicate (low + 1) false) =
          resting devices (h ++ [.slot bit]) := by
  rw [observe_append, observe_pull]
  have hrelease : ∀ u < low + 1 + n, Rises devices h (low + 1) u → Times devices u bit :=
    fun u hu => htimes u (by omega)
  rcases observe_release hrelease with ⟨hheld, hstate⟩ | hreleased
  · left
    exact ⟨fun w hw hle => hheld w hw (by omega), hstate⟩
  · exact Or.inr hreleased

/-- The wire in a slot shows whether it is still held. -/
theorem level_slot :
    level (observe (resting devices h)
        (List.replicate n true ++ List.replicate (low + 1) false)) true = true ↔
      ¬ Held devices h (low + 1 + n) := by
  rcases observe_low htimes with ⟨-, hstate⟩ | ⟨hfree, hstate⟩
  · rw [hstate]
    constructor
    · intro hlevel hheld
      rw [level_held hheld] at hlevel
      cases hlevel
    · exact level_released
  · rw [hstate]
    exact ⟨fun _ => hfree, fun _ => level_resting devices (h ++ [.slot bit])⟩

/-- A slot of which the end is not held. -/
theorem observe_slot (hn : 0 < n) (hend : ¬ Held devices h (low + n)) :
    observe (resting devices h) (List.replicate n true ++ List.replicate (low + 1) false) =
      resting devices (h ++ [.slot bit]) := by
  rcases observe_low htimes with ⟨hheld, -⟩ | ⟨-, hstate⟩
  · exact absurd (hheld (low + n) (by omega) (Nat.le_refl (low + n))) hend
  · exact hstate

end Slot

/-! ### Resets -/

theorem observe_reset {low : ℕ} (hfree : ¬ Held devices h (low + 1))
    (hreset : ∀ d ∈ devices, d.reset ≤ low + 1) :
    observe (resting devices h) (true :: List.replicate (low + 1) false) =
      answering devices (h ++ [.reset]) 0 := by
  rw [← List.singleton_append, observe_append, observe_pull]
  apply turn_together (level_released hfree)
  intro d hd
  change (if d.reset ≤ low + 1 then _ else _) = _
  rw [if_pos (hreset d hd)]

/-- Every answer covers the times from `first` up to `last`, at which all answers are over. -/
structure Overlap (devices : List Device) (first last : ℕ) : Prop where
  covers : ∀ d ∈ devices, d.wait ≤ first ∧ first < d.wait + d.presence
  ends : ∀ d ∈ devices, d.wait + d.presence ≤ last

section Answer

variable {first last : ℕ} (hoverlap : Overlap devices first last)
include hoverlap

theorem level_answering (h : List WireEvent) :
    level (answering devices h first) true = devices.isEmpty := by
  rw [Bool.eq_iff_iff, answering, level_together, List.isEmpty_iff]
  constructor
  · intro hnone
    apply List.eq_nil_iff_forall_not_mem.mpr
    intro d hd
    have hpulls := hnone d hd
    obtain ⟨hwait, hpresence⟩ := hoverlap.covers d hd
    change (decide (d.wait ≤ first) && decide (first < d.wait + d.presence)) = false at hpulls
    rw [decide_eq_true hwait, decide_eq_true hpresence] at hpulls
    cases hpulls
  · rintro rfl d hd
    cases hd

omit hoverlap in
theorem turn_answered (hover : ∀ d ∈ devices, d.wait + d.presence ≤ t) :
    turn (answering devices h t) true = resting devices h := by
  have hlevel : level (answering devices h t) true = true := by
    rw [answering, level_together]
    intro d hd
    change (decide (d.wait ≤ t) && decide (t < d.wait + d.presence)) = false
    rw [decide_eq_false (Nat.not_lt_of_le (hover d hd)), Bool.and_false]
  apply turn_together hlevel
  intro d hd
  change (if true = true ∧ d.wait + d.presence ≤ t then _ else _) = _
  rw [if_pos ⟨rfl, hover d hd⟩]

/-- No device is ready for a slot before the last answer is over. -/
theorem turn_answering (hpending : ¬ ∀ d ∈ devices, d.wait + d.presence ≤ t) :
    turn (answering devices h t) true = answering devices h (t + 1) := by
  apply turn_together rfl
  intro d hd
  change (if level (answering devices h t) true = true ∧ d.wait + d.presence ≤ t then _
    else _) = _
  apply if_neg
  rintro ⟨hlevel, hend⟩
  apply hpending
  intro other hother
  rw [answering, level_together] at hlevel
  have hquiet := hlevel other hother
  change (decide (other.wait ≤ t) && decide (t < other.wait + other.presence)) = false at hquiet
  -- An answer that is over has ended behind the beginning of every other one.
  have hbegun : other.wait ≤ t := by
    have hfirst := (hoverlap.covers d hd).2
    have hwait := (hoverlap.covers other hother).1
    omega
  rw [decide_eq_true hbegun, Bool.true_and, decide_eq_false_iff_not] at hquiet
  exact Nat.le_of_not_lt hquiet

/-- All devices are still there when the wire is read. -/
theorem observe_answering (h : List WireEvent) (hn : n ≤ first) :
    observe (answering devices h 0) (List.replicate n true) = answering devices h n := by
  induction n with
  | zero => rfl
  | succ n ih =>
    rw [List.replicate_succ, ← List.singleton_append, observe_append, ih (Nat.le_of_lt hn)]
    cases devices with
    | nil => rfl
    | cons d devices =>
      apply turn_answering hoverlap
      intro hover
      have hend := hover d List.mem_cons_self
      have hcovers := (hoverlap.covers d List.mem_cons_self).2
      omega

/-- The wire is at rest again once all answers are over. -/
theorem observe_answered (h : List WireEvent) (hn : last < n) :
    observe (answering devices h 0) (List.replicate n true) = resting devices h := by
  have hwithin : ∀ k, observe (answering devices h 0) (List.replicate k true) =
      answering devices h k ∨
        observe (answering devices h 0) (List.replicate k true) = resting devices h := by
    intro k
    induction k with
    | zero => exact Or.inl rfl
    | succ k ih =>
      rw [List.replicate_succ, ← List.singleton_append, observe_append]
      rcases ih with hstate | hstate
      · rw [hstate]
        by_cases hover : ∀ d ∈ devices, d.wait + d.presence ≤ k
        · exact Or.inr (turn_answered hover)
        · exact Or.inl (turn_answering hoverlap hover)
      · rw [hstate]
        exact Or.inr (observe_resting 1)
  obtain ⟨k, rfl⟩ : ∃ k, n = k + 1 := ⟨n - 1, by omega⟩
  rw [List.replicate_succ, ← List.singleton_append, observe_append]
  rcases hwithin k with hstate | hstate
  · rw [hstate]
    apply turn_answered
    intro d hd
    exact Nat.le_trans (hoverlap.ends d hd) (Nat.le_of_lt_succ hn)
  · rw [hstate]
    exact observe_resting 1

end Answer

end Not232.SlotBus
