import Mathlib.Data.List.Basic
import Mathlib.Data.UInt

/-!
# Receiving over the I2C peripheral

`i2c_device_read` polls the flags of the peripheral one after the other while the master goes on.
A schedule says who moves next. What the device has not stored of a transaction is in the data
register or still with the master, and the poll for the STOP must not miss the former.
-/

namespace Not232

structure I2cFlags where
  addr : Bool
  rxne : Bool
  stopf : Bool
  datar : UInt8
  deriving DecidableEq

/-- The next access of `i2c_device_read` to the peripheral. -/
inductive DevicePc
  | pollAddr
  | readStar1
  | readStar2
  | pollRxne
  | receiveData
  | pollStopf
  | readStop
  | writeCtlr1
  | returned
  deriving DecidableEq

/-- What the master has still to do: address the device and send bytes, send bytes, or nothing. -/
inductive Master
  | address (bytes : List UInt8)
  | send (bytes : List UInt8)
  | stopped
  deriving DecidableEq

structure DeviceRead where
  pc : DevicePc
  buffer : List UInt8
  flags : I2cFlags
  master : Master
  deriving DecidableEq

inductive Mover
  | device
  | master
  deriving DecidableEq

namespace DeviceRead

/-- The next access of the device. `buffer` holds the bytes stored so far, `i` of the source in
number. -/
def poll (size : ℕ) (s : DeviceRead) : DeviceRead :=
  match s.pc with
  | .pollAddr => { s with pc := if s.flags.addr then .readStar1 else .pollAddr }
  | .readStar1 => { s with pc := .readStar2 }
  | .readStar2 => { s with pc := .pollRxne, flags := { s.flags with addr := false } }
  | .pollRxne => { s with pc := if s.flags.rxne then .receiveData else .pollStopf }
  | .receiveData =>
    { s with
      pc := .pollStopf
      buffer := if s.buffer.length < size then s.buffer ++ [s.flags.datar] else s.buffer
      flags := { s.flags with rxne := false } }
  | .pollStopf => { s with pc := if s.flags.stopf then .readStop else .pollRxne }
  | .readStop => { s with pc := .writeCtlr1 }
  | .writeCtlr1 => { s with pc := .returned, flags := { s.flags with stopf := false } }
  | .returned => s

/-- The next event on the bus. The clock is stretched while a byte has not been read. -/
def event (s : DeviceRead) : DeviceRead :=
  match s.master with
  | .address bytes => { s with master := .send bytes, flags := { s.flags with addr := true } }
  | .send (byte :: bytes) =>
    if s.flags.rxne then s
    else { s with
      master := .send bytes
      flags := { s.flags with rxne := true, datar := byte } }
  | .send [] => { s with master := .stopped, flags := { s.flags with stopf := true } }
  | .stopped => s

def move (size : ℕ) (s : DeviceRead) : Mover → DeviceRead
  | .device => s.poll size
  | .master => s.event

def run (size : ℕ) (schedule : List Mover) (s : DeviceRead) : DeviceRead :=
  schedule.foldl (move size) s

/-- Before a transaction of the bytes. -/
def start (size : ℕ) (bytes : List UInt8) : DeviceRead :=
  ⟨if size = 0 then .returned else .pollAddr, [], ⟨false, false, false, 0⟩, .address bytes⟩

/-- The master sends the STOP between the two polls, and they have not seen its last byte. -/
def StopsUnseen (s : DeviceRead) : Mover → Prop
  | .device => False
  | .master => s.master = .send [] ∧ s.flags.rxne = true ∧ s.pc = .pollStopf

/-- Along the schedule the STOP is never sent while the device has an unread byte behind it. -/
def StopsSeen (size : ℕ) : List Mover → DeviceRead → Prop
  | [], _ => True
  | mover :: rest, s => ¬ s.StopsUnseen mover ∧ StopsSeen size rest (s.move size mover)

/-! ### One move -/

/-- The bytes that the device has not read. -/
def unread (s : DeviceRead) : List UInt8 :=
  (if s.flags.rxne then [s.flags.datar] else []) ++
    match s.master with
    | .address bytes | .send bytes => bytes
    | .stopped => []

/-- What holds in every state of a transaction. -/
structure Receives (size : ℕ) (bytes : List UInt8) (s : DeviceRead) : Prop where
  split : ∃ read, bytes = read ++ s.unread ∧ s.buffer = read.take size
  addressed : s.pc = .pollAddr → s.flags.addr = false → ∃ rest, s.master = .address rest
  receiving : s.pc = .receiveData → s.flags.rxne = true
  stopf : s.flags.stopf = true → s.master = .stopped
  stopped : s.master = .stopped → s.flags.stopf = true ∨ s.pc = .returned
  ending : s.pc = .readStop ∨ s.pc = .writeCtlr1 ∨ s.pc = .returned → s.master = .stopped

/-- Behind the poll for the last byte there is none. -/
def Seen (s : DeviceRead) : Prop :=
  s.master = .stopped →
    s.pc = .pollStopf ∨ s.pc = .readStop ∨ s.pc = .writeCtlr1 ∨ s.pc = .returned →
      s.flags.rxne = false

/-- The last byte is in the data register, and the device is behind the poll for it. -/
structure Missed (s : DeviceRead) : Prop where
  stopped : s.master = .stopped
  rxne : s.flags.rxne = true
  stopf : s.pc = .pollStopf → s.flags.stopf = true
  pc : s.pc = .pollStopf ∨ s.pc = .readStop ∨ s.pc = .writeCtlr1 ∨ s.pc = .returned

variable {size : ℕ} {bytes : List UInt8} {s : DeviceRead}

/-- A byte that is stored while there is room. -/
theorem take_concat (size : ℕ) (read : List UInt8) (byte : UInt8) :
    (read ++ [byte]).take size =
      if (read.take size).length < size then read.take size ++ [byte] else read.take size := by
  rw [List.length_take]
  by_cases hroom : read.length < size
  · rw [if_pos (by omega), List.take_of_length_le (by simp; omega),
      List.take_of_length_le (Nat.le_of_lt hroom)]
  · rw [if_neg (by omega), List.take_append_of_le_length (Nat.le_of_not_lt hroom)]

theorem receives_start (hsize : size ≠ 0) (bytes : List UInt8) :
    Receives size bytes (start size bytes) := by
  rw [start, if_neg hsize]
  exact {
    split := ⟨[], rfl, List.take_nil.symm⟩
    addressed := fun _ _ => ⟨bytes, rfl⟩
    receiving := nofun
    stopf := nofun
    stopped := nofun
    ending := nofun }

/-- A move of the device that reads no byte and leaves the flags of the STOP alone. -/
theorem Receives.keep {pc pc' : DevicePc} {buffer : List UInt8} {flags flags' : I2cFlags}
    {master : Master} (h : Receives size bytes ⟨pc, buffer, flags, master⟩)
    (hrxne : flags'.rxne = flags.rxne) (hdatar : flags'.datar = flags.datar)
    (hstopf : flags'.stopf = flags.stopf)
    (haddressed : pc' = .pollAddr → flags'.addr = false → ∃ rest, master = .address rest)
    (hreceiving : pc' = .receiveData → flags.rxne = true)
    (hreturned : pc = .returned → pc' = .returned)
    (hending : pc' = .readStop ∨ pc' = .writeCtlr1 ∨ pc' = .returned → master = .stopped) :
    Receives size bytes ⟨pc', buffer, flags', master⟩ where
  split := by
    obtain ⟨read, hbytes, hbuffer⟩ := h.split
    exact ⟨read, by simpa only [unread, hrxne, hdatar] using hbytes, hbuffer⟩
  addressed := haddressed
  receiving := fun hpc => hrxne.trans (hreceiving hpc)
  stopf := fun hset => h.stopf (hstopf.symm.trans hset)
  stopped := fun hover => (h.stopped hover).imp hstopf.trans hreturned
  ending := hending

theorem Receives.poll (h : Receives size bytes s) : Receives size bytes (s.poll size) := by
  rcases s with ⟨pc, buffer, flags, master⟩
  cases pc with
  | pollAddr =>
    rw [DeviceRead.poll]
    cases haddr : flags.addr with
    | true => exact h.keep rfl rfl rfl nofun nofun nofun nofun
    | false => exact h
  | readStar1 => exact h.keep rfl rfl rfl nofun nofun nofun nofun
  | readStar2 => exact h.keep rfl rfl rfl nofun nofun nofun nofun
  | pollRxne =>
    rw [DeviceRead.poll]
    cases hrxne : flags.rxne with
    | true => exact h.keep rfl rfl rfl nofun (fun _ => hrxne) nofun nofun
    | false => exact h.keep rfl rfl rfl nofun nofun nofun nofun
  | receiveData =>
    obtain ⟨read, hbytes, hbuffer⟩ := h.split
    have hrxne : flags.rxne = true := h.receiving rfl
    exact {
      split := by
        refine ⟨read ++ [flags.datar], ?_, ?_⟩
        · simp only [unread, hrxne, if_true] at hbytes
          rw [List.append_assoc]
          exact hbytes
        · rw [take_concat]
          exact hbuffer ▸ rfl
      addressed := nofun
      receiving := nofun
      stopf := h.stopf
      stopped := fun hover => (h.stopped hover).imp_right nofun
      ending := nofun }
  | pollStopf =>
    rw [DeviceRead.poll]
    cases hstopf : flags.stopf with
    | true => exact h.keep rfl rfl rfl nofun nofun nofun fun _ => h.stopf hstopf
    | false => exact h.keep rfl rfl rfl nofun nofun nofun nofun
  | readStop => exact h.keep rfl rfl rfl nofun nofun nofun fun _ => h.ending (.inl rfl)
  | writeCtlr1 =>
    exact {
      split := h.split
      addressed := nofun
      receiving := nofun
      stopf := nofun
      stopped := fun _ => .inr rfl
      ending := fun _ => h.ending (.inr (.inl rfl)) }
  | returned => exact h

theorem Receives.event (h : Receives size bytes s) : Receives size bytes s.event := by
  rcases s with ⟨pc, buffer, flags, master⟩
  cases master with
  | address rest =>
    have hrunning : ¬ (pc = .readStop ∨ pc = .writeCtlr1 ∨ pc = .returned) := fun hpc =>
      nomatch h.ending hpc
    exact {
      split := h.split
      addressed := nofun
      receiving := h.receiving
      stopf := fun hset => nomatch h.stopf hset
      stopped := nofun
      ending := fun hpc => absurd hpc hrunning }
  | send rest =>
    have hrunning : ¬ (pc = .readStop ∨ pc = .writeCtlr1 ∨ pc = .returned) := fun hpc =>
      nomatch h.ending hpc
    have haddressed : pc = .pollAddr → flags.addr = false → False := fun hpc haddr =>
      nomatch h.addressed hpc haddr
    obtain ⟨read, hbytes, hbuffer⟩ := h.split
    cases rest with
    | nil =>
      exact {
        split := ⟨read, hbytes, hbuffer⟩
        addressed := fun hpc haddr => (haddressed hpc haddr).elim
        receiving := h.receiving
        stopf := fun _ => rfl
        stopped := fun _ => .inl rfl
        ending := fun _ => rfl }
    | cons byte rest =>
      rw [DeviceRead.event]
      cases hrxne : flags.rxne with
      | true => exact h
      | false =>
        exact {
          split := ⟨read, by simpa [unread, hrxne] using hbytes, hbuffer⟩
          addressed := fun hpc haddr => (haddressed hpc haddr).elim
          receiving := fun _ => rfl
          stopf := fun hset => nomatch h.stopf hset
          stopped := nofun
          ending := fun hpc => absurd hpc hrunning }
  | stopped => exact h

theorem Receives.move (h : Receives size bytes s) (mover : Mover) :
    Receives size bytes (s.move size mover) := by
  cases mover with
  | device => exact h.poll
  | master => exact h.event

theorem Receives.run (schedule : List Mover) {s : DeviceRead} (h : Receives size bytes s) :
    Receives size bytes (run size schedule s) := by
  induction schedule generalizing s with
  | nil => exact h
  | cons mover schedule ih => exact ih (h.move mover)

/-! ### The last byte -/

theorem Seen.move (hreceives : Receives size bytes s) (h : s.Seen) {mover : Mover}
    (hseen : ¬ s.StopsUnseen mover) : (s.move size mover).Seen := by
  rcases s with ⟨pc, buffer, flags, master⟩
  cases mover with
  | device =>
    cases pc with
    | pollAddr => cases haddr : flags.addr <;> simp [DeviceRead.move, poll, Seen, haddr]
    | readStar1 => simp [DeviceRead.move, poll, Seen]
    | readStar2 => simp [DeviceRead.move, poll, Seen]
    | pollRxne => cases hrxne : flags.rxne <;> simp [DeviceRead.move, poll, Seen, hrxne]
    | receiveData => exact fun _ _ => rfl
    | pollStopf =>
      intro hover _
      exact h hover (.inl rfl)
    | readStop => exact fun hover _ => h hover (.inr (.inl rfl))
    | writeCtlr1 => exact fun hover _ => h hover (.inr (.inr (.inl rfl)))
    | returned => exact h
  | master =>
    cases master with
    | address rest => exact nofun
    | send rest =>
      cases rest with
      | nil =>
        rintro - (hpc | hpc)
        · exact Bool.eq_false_iff.mpr fun hrxne => hseen ⟨rfl, hrxne, hpc⟩
        · exact nomatch hreceives.ending hpc
      | cons byte rest =>
        cases hrxne : flags.rxne <;> simp [DeviceRead.move, event, Seen, hrxne]
    | stopped => exact h

theorem missed_of_stopsUnseen {mover : Mover} (h : s.StopsUnseen mover) :
    (s.move size mover).Missed := by
  rcases s with ⟨pc, buffer, flags, master⟩
  cases mover with
  | device => exact h.elim
  | master =>
    obtain ⟨rfl, hrxne, rfl⟩ := h
    exact ⟨rfl, hrxne, fun _ => rfl, .inl rfl⟩

theorem Missed.move (h : s.Missed) (mover : Mover) : (s.move size mover).Missed := by
  rcases s with ⟨pc, buffer, flags, master⟩
  obtain ⟨rfl, hrxne, hstopf, hpc⟩ := h
  cases mover with
  | master => exact ⟨rfl, hrxne, hstopf, hpc⟩
  | device =>
    rcases hpc with rfl | rfl | rfl | rfl
    · have hset : flags.stopf = true := hstopf rfl
      rw [DeviceRead.move, poll]
      dsimp only
      rw [if_pos hset]
      exact ⟨rfl, hrxne, nofun, .inr (.inl rfl)⟩
    · exact ⟨rfl, hrxne, nofun, .inr (.inr (.inl rfl))⟩
    · exact ⟨rfl, hrxne, nofun, .inr (.inr (.inr rfl))⟩
    · exact ⟨rfl, hrxne, nofun, .inr (.inr (.inr rfl))⟩

theorem Missed.run (schedule : List Mover) {s : DeviceRead} (h : s.Missed) :
    (run size schedule s).Missed := by
  induction schedule generalizing s with
  | nil => exact h
  | cons mover schedule ih => exact ih (h.move mover)

/-- A run either sees the last byte or misses it for good. -/
theorem seen_or_missed (schedule : List Mover) {s : DeviceRead} (hreceives : Receives size bytes s)
    (h : s.Seen) :
    (StopsSeen size schedule s ∧ (run size schedule s).Seen) ∨
      (¬ StopsSeen size schedule s ∧ (run size schedule s).Missed) := by
  induction schedule generalizing s with
  | nil => exact .inl ⟨trivial, h⟩
  | cons mover schedule ih =>
    by_cases hunseen : s.StopsUnseen mover
    · exact .inr ⟨fun hall => hall.1 hunseen, (missed_of_stopsUnseen hunseen).run schedule⟩
    · have hnext := ih (hreceives.move mover) (h.move hreceives hunseen)
      exact hnext.imp (fun h => ⟨⟨hunseen, h.1⟩, h.2⟩) fun h => ⟨fun hall => h.1 hall.2, h.2⟩

/-! ### The return -/

/-- The accesses before the device returns, once the STOP has been sent. -/
def remaining : DevicePc → ℕ
  | .pollAddr => 8
  | .readStar1 => 7
  | .readStar2 => 6
  | .pollRxne => 5
  | .receiveData => 4
  | .pollStopf => 3
  | .readStop => 2
  | .writeCtlr1 => 1
  | .returned => 0

theorem remaining_poll (h : Receives size bytes s) (hover : s.master = .stopped) :
    (s.poll size).master = .stopped ∧ remaining (s.poll size).pc ≤ remaining s.pc - 1 := by
  rcases s with ⟨pc, buffer, flags, master⟩
  subst hover
  cases pc with
  | pollAddr =>
    have haddr : flags.addr = true := by
      by_contra hclear
      exact nomatch h.addressed rfl (Bool.eq_false_iff.mpr hclear)
    simp [poll, haddr, remaining]
  | pollRxne => cases hrxne : flags.rxne <;> simp [poll, hrxne, remaining]
  | pollStopf =>
    have hstopf : flags.stopf = true := (h.stopped rfl).resolve_right nofun
    simp [poll, hstopf, remaining]
  | _ => exact ⟨rfl, le_refl _⟩

/-- Behind the STOP the device returns with its eighth access at the latest. -/
theorem returned_of_stopped (more : List Mover) {s : DeviceRead} (h : Receives size bytes s)
    (hover : s.master = .stopped) (hcount : remaining s.pc ≤ more.count .device) :
    (run size more s).pc = .returned := by
  induction more generalizing s with
  | nil =>
    have hzero : remaining s.pc = 0 := Nat.le_zero.mp hcount
    rcases s with ⟨pc, buffer, flags, master⟩
    cases pc with
    | returned => rfl
    | _ => cases hzero
  | cons mover more ih =>
    cases mover with
    | device =>
      obtain ⟨hstopped, hless⟩ := remaining_poll h hover
      rw [List.count_cons_self] at hcount
      exact ih h.poll hstopped (hless.trans (Nat.sub_le_of_le_add hcount))
    | master =>
      have hsame : s.move size .master = s := by
        rw [move, event, hover]
      rw [List.count_cons_of_ne (by decide)] at hcount
      rw [run, List.foldl_cons, hsame]
      exact ih h hover hcount

/-- For every schedule: the device returns behind the STOP only, and then at the latest with its
eighth access; and it has stored the bytes of the transaction, with none left behind, exactly when
no STOP was sent between the two polls over an unread byte. -/
theorem i2cDeviceRead_keeps_iff {size : ℕ} (hsize : size ≠ 0) (bytes : List UInt8)
    (schedule : List Mover) :
    let s := run size schedule (start size bytes)
    (s.pc = .returned → s.master = .stopped ∧
      ((s.buffer = bytes.take size ∧ s.flags.rxne = false) ↔
        StopsSeen size schedule (start size bytes))) ∧
    ∀ more : List Mover, s.master = .stopped → 8 ≤ more.count .device →
      (run size more s).pc = .returned := by
  have hstart := receives_start hsize bytes
  have hs := hstart.run schedule
  have hfresh : (start size bytes).Seen := by
    rw [start, if_neg hsize]
    exact nofun
  refine ⟨fun hreturned => ?_, fun more hover hcount => ?_⟩
  · have hover := hs.ending (.inr (.inr hreturned))
    refine ⟨hover, ?_⟩
    rcases seen_or_missed schedule hstart hfresh with ⟨hall, hseen⟩ | ⟨hnot, hmissed⟩
    · have hrxne := hseen hover (.inr (.inr (.inr hreturned)))
      obtain ⟨read, hbytes, hbuffer⟩ := hs.split
      have hnone : (run size schedule (start size bytes)).unread = [] := by
        rw [unread, hrxne, hover]
        rfl
      rw [hnone, List.append_nil] at hbytes
      exact iff_of_true ⟨hbytes ▸ hbuffer, hrxne⟩ hall
    · exact iff_of_false (fun hkept => nomatch hkept.2.symm.trans hmissed.rxne) hnot
  · have hbound : ∀ pc, remaining pc ≤ 8 := fun pc => by cases pc <;> decide
    exact returned_of_stopped more hs hover ((hbound _).trans hcount)

/-- The address, a byte and the STOP, each at once. -/
theorem i2cDeviceRead_keeps_one :
    (run 4 [.master, .device, .device, .device, .master, .device, .device, .master, .device,
      .device, .device] (start 4 [0x2A])).buffer = [0x2A] :=
  (((i2cDeviceRead_keeps_iff (show 4 ≠ 0 by decide) [0x2A] [.master, .device, .device, .device,
    .master, .device, .device, .master, .device, .device, .device]).1 (by decide)).2.mpr
      (by simp [StopsSeen, StopsUnseen, start, move, poll, event])).1

/-- The byte and the STOP come between the two polls: the device returns with nothing stored and
the byte in the data register. -/
theorem i2cDeviceRead_misses :
    let s := run 4 [.master, .device, .device, .device, .device, .master, .master, .device,
      .device, .device] (start 4 [0x2A])
    s.pc = .returned ∧ s.buffer = [] ∧ s.flags.rxne = true ∧ s.flags.datar = 0x2A := by
  decide

end DeviceRead

end Not232
