import Not232.TwoWire

/-!
# An observer of a two-wire bus

The observer samples a bit when the clock rises and takes a change of the data line while the clock
is high for a start or a stop condition. Nine bits are a byte and its acknowledge bit; a condition
discards the bits of an unfinished byte. A slave is described by the level it presents, by what has
been observed so far, once the clock is low.
-/

namespace Not232.TwoWire

/-- A byte comes with the level of its ninth bit, which is high when it is not acknowledged. -/
inductive BusEvent
  | start
  | stop
  | byte (bits : List Bool) (nack : Bool)
  deriving DecidableEq

/-- The bits sampled since the last condition or the last complete byte, and the events so far. The
nine bits of a complete byte stay until the next clock. -/
structure Observation where
  bits : List Bool
  events : List BusEvent
  deriving DecidableEq

namespace Observation

def clock (o : Observation) (bit : Bool) : Observation :=
  if o.bits.length < 8 then { o with bits := o.bits ++ [bit] }
  else if o.bits.length = 8 then ⟨o.bits ++ [bit], o.events ++ [.byte o.bits bit]⟩
  else { o with bits := [bit] }

def condition (o : Observation) (event : BusEvent) : Observation := ⟨[], o.events ++ [event]⟩

/-- The next sample behind the sample `before`. -/
def sample (o : Observation) (before now : Wires) : Observation :=
  if now.scl then
    if before.scl then
      if before.sda = now.sda then o
      else o.condition (if now.sda then .stop else .start)
    else o.clock now.sda
  else o

/-- Several clocks in a row. -/
def clocks (o : Observation) (bits : List Bool) : Observation := bits.foldl clock o

/-- Between two bytes. -/
def Aligned (o : Observation) : Prop := o.bits.length = 0 ∨ o.bits.length = 9

end Observation

/-- What has been observed of a trace. -/
def observe : List Wires → Observation
  | now :: before :: trace => (observe (before :: trace)).sample before now
  | _ => ⟨[], []⟩

/-- The slave changes the data line only while the clock is low, and from the second low sample on
it presents a level that depends on what has been observed. -/
structure Presents (slave : Slave) (level : Observation → Bool) : Prop where
  obeys : Obeys slave
  settles : ∀ x y trace, x.scl = false → y.scl = false →
    slave (x :: y :: trace) = level (observe (x :: y :: trace))

/-- The slave that keeps its level until the second low sample. -/
def follow (level : Observation → Bool) : Slave
  | x :: y :: trace =>
    if x.scl || y.scl then follow level (y :: trace) else level (observe (x :: y :: trace))
  | _ => true

theorem presents_follow (level : Observation → Bool) : Presents (follow level) level where
  obeys x trace hx := by
    cases trace with
    | nil => rfl
    | cons y trace => rw [follow, hx, Bool.true_or, if_pos rfl]
  settles x y trace hx hy := by
    rw [follow, hx, hy, Bool.or_false]
    rfl

section Observe

variable {trace : List Wires} {now before : Wires}

theorem observe_low (h : now.scl = false) : observe (now :: trace) = observe trace := by
  cases trace with
  | nil => rfl
  | cons before trace =>
    rw [observe, Observation.sample, h]
    rfl

theorem observe_rise (hnow : now.scl = true) (hbefore : before.scl = false) :
    observe (now :: before :: trace) = (observe (before :: trace)).clock now.sda := by
  rw [observe, Observation.sample, hnow, hbefore]
  rfl

theorem observe_hold (now : Wires) (trace : List Wires) :
    observe (now :: now :: trace) = observe (now :: trace) := by
  rw [observe, Observation.sample]
  cases now.scl <;> simp

theorem observe_start (trace : List Wires) :
    observe (⟨false, true⟩ :: ⟨true, true⟩ :: trace) =
      (observe (⟨true, true⟩ :: trace)).condition .start := rfl

end Observe

namespace Observation

variable {o : Observation} {bits : List Bool}

@[simp] theorem clocks_nil (o : Observation) : o.clocks [] = o := rfl

theorem clocks_concat (o : Observation) (bits : List Bool) (bit : Bool) :
    o.clocks (bits ++ [bit]) = (o.clocks bits).clock bit := List.foldl_concat ..

/-- The bits of a byte collect behind a byte boundary. -/
theorem clocks_of_aligned (ho : o.Aligned) (hlen : bits.length ≤ 8) (hne : bits ≠ []) :
    o.clocks bits = ⟨bits, o.events⟩ := by
  induction bits using List.reverseRecOn with
  | nil => exact absurd rfl hne
  | append_singleton bits bit ih =>
    rw [List.length_append, List.length_singleton] at hlen
    rw [clocks_concat]
    by_cases hnil : bits = []
    · subst hnil
      rw [clocks_nil, clock]
      rcases ho with hzero | hnine
      · rw [if_pos (by omega), List.length_eq_zero_iff.mp hzero]
      · rw [if_neg (by omega), if_neg (by omega)]
        rfl
    · have hlt : bits.length < 8 := by omega
      rw [ih hlt.le hnil, clock, if_pos hlt]

/-- A clock at a byte boundary begins a byte. -/
theorem clock_of_aligned (ho : o.Aligned) (bit : Bool) : o.clock bit = ⟨[bit], o.events⟩ := by
  have hlen : [bit].length ≤ 8 := by simp
  exact clocks_of_aligned ho hlen (List.cons_ne_nil bit [])

/-- Eight bits and an acknowledge bit are a byte. -/
theorem clocks_byte (ho : o.Aligned) (hlen : bits.length = 8) (nack : Bool) :
    (o.clocks bits).clock nack = ⟨bits ++ [nack], o.events ++ [.byte bits nack]⟩ := by
  have hne : bits ≠ [] := by
    rintro rfl
    cases hlen
  have hnot : ¬ bits.length < 8 := by omega
  rw [clocks_of_aligned ho hlen.le hne, clock, if_neg hnot, if_pos hlen]

end Observation

end Not232.TwoWire
