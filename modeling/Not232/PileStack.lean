import Not232.LastWriter
import Not232.TwoEndedStack
import Not232.VmBounds

/-!
# The piles as stacks

A push stores a bit at the end of the receive pile that its direction names, and a pop reads one
from the transmit pile. One counter serves both ends, so a sequence of pushes in both directions has
room for half as many bits.
-/

namespace Not232

open TwoEndedStack

def PileDir.toEnd : PileDir → End
  | up => .bottom
  | down => .top

/-- Bit `k` of a pile. -/
def pileBit (pile : Vector UInt8 pileSize) (k : ℕ) : Bool := byteBit (pile[k / 8]?.getD 0) (k % 8)

/-- The operands of a push or a pop, and what the machine sees while it executes it. -/
structure PileOp where
  dir : PileDir
  pin : UInt8
  input : VmInput

namespace PileOp

def push (x : PileOp) : Instr × VmInput := (.push x.dir x.pin, x.input)

/-- The bit that a push reads. -/
def bit (x : PileOp) : Bool := readPin x.input x.pin

def entry (x : PileOp) : End × Bool := (x.dir.toEnd, x.bit)

end PileOp

/-- The bits of the pile that pushes on an empty pile address. -/
def pushedCells (xs : List PileOp) : List ℕ :=
  addresses (cell (pileSize * 8)) (xs.map fun x => x.dir.toEnd) 0

/-- Pops executed one after the other, with the level that each drives its pin to. -/
inductive Pops : List PileOp → List Bool → VmState → VmState → Prop
  | nil (s : VmState) : Pops [] [] s s
  | cons {x : PileOp} {rest : List PileOp} {b : Bool} {bits : List Bool} {s t u : VmState}
      (hstep : execute (.pop x.dir x.pin) x.input s = .running t)
      (hgpio : t.gpio = (s.drivePin x.pin b).gpio) (hrest : Pops rest bits t u) :
      Pops (x :: rest) (b :: bits) s u

theorem toNat_pileIndex (dir : PileDir) {count : UInt32} (h : count.toNat < pileSize * 8) :
    (pileIndex dir count).toNat = cell (pileSize * 8) dir.toEnd count.toNat := by
  cases dir with
  | up => rfl
  | down =>
    have htop : (UInt32.ofNat (pileSize * 8 - 1)).toNat = 2047 := rfl
    have hsize : pileSize * 8 = 2048 := rfl
    rw [pileIndex, UInt32.toNat_sub, htop, PileDir.toEnd, cell, hsize]
    omega

/-! ### Bits of bytes -/

theorem byteBit_or (a b : UInt8) (j : ℕ) : byteBit (a ||| b) j = (byteBit a j || byteBit b j) := by
  simp [byteBit]

theorem byteBit_and_not (a b : UInt8) {j : ℕ} (hj : j < 8) :
    byteBit (a &&& ~~~b) j = (byteBit a j && !byteBit b j) := by
  simp [byteBit, hj]

theorem byteBit_pileMask (index : UInt32) {j : ℕ} (hj : j < 8) :
    byteBit (pileMask index) j = decide (j = (index % 8).toNat) := by
  have hlt : (index % 8).toNat < 8 := by
    rw [UInt32.toNat_mod]
    exact Nat.mod_lt _ (by decide)
  have h : ∀ n j : Fin 8,
      byteBit (1 <<< (UInt32.ofNat n).toUInt8) j = decide (j.val = n.val) := by decide
  have hmask := h ⟨_, hlt⟩ ⟨j, hj⟩
  rwa [UInt32.ofNat_toNat] at hmask

/-- A push replaces one bit of a byte. -/
theorem byteBit_replace (lipo : UInt8) (index : UInt32) (level : Bool) {j : ℕ} (hj : j < 8) :
    byteBit (if level then lipo ||| pileMask index else lipo &&& ~~~pileMask index) j =
      if j = (index % 8).toNat then level else byteBit lipo j := by
  cases level with
  | true =>
    rw [if_pos rfl, byteBit_or, byteBit_pileMask index hj]
    by_cases h : j = (index % 8).toNat
    · rw [if_pos h, decide_eq_true h, Bool.or_true]
    · rw [if_neg h, decide_eq_false h, Bool.or_false]
  | false =>
    rw [if_neg Bool.false_ne_true, byteBit_and_not _ _ hj, byteBit_pileMask index hj]
    by_cases h : j = (index % 8).toNat
    · rw [if_pos h, decide_eq_true h, Bool.not_true, Bool.and_false]
    · rw [if_neg h, decide_eq_false h, Bool.not_false, Bool.and_true]

section Pile

variable {s : VmState}

/-- A push with room replaces the addressed bit of the receive pile. -/
theorem execute_push (dir : PileDir) (pin : UInt8) (input : VmInput)
    (hrp : s.rp.toNat < pileSize * 8) :
    ∃ t, execute (.push dir pin) input s = .running t ∧ t.rp.toNat = s.rp.toNat + 1 ∧
      pileBit t.pileR = Function.update (pileBit s.pileR)
        (cell (pileSize * 8) dir.toEnd s.rp.toNat) (readPin input pin) := by
  have hindex := (pileIndex_lt_iff dir s.rp).mpr hrp
  have hcell := toNat_pileIndex dir hrp
  have hbyte : (pileIndex dir s.rp / 8).toNat < pileSize := by
    rw [toNat_div_eight]
    omega
  obtain ⟨t, hpush, hcount, hpile⟩ : ∃ t, push dir pin input s = some t ∧ t.rp = s.rp + 1 ∧
      t.pileR = s.pileR.setIfInBounds (pileIndex dir s.rp / 8).toNat
        (if readPin input pin then s.pileR[(pileIndex dir s.rp / 8).toNat] |||
            pileMask (pileIndex dir s.rp)
          else s.pileR[(pileIndex dir s.rp / 8).toNat] &&& ~~~pileMask (pileIndex dir s.rp)) := by
    rw [push, Vector.getElem?_eq_getElem hbyte]
    exact ⟨_, rfl, rfl, rfl⟩
  have hsize : pileSize * 8 = 2048 := rfl
  refine ⟨t, ofOption_eq_running.mpr hpush, ?_, ?_⟩
  · rw [hcount]
    exact toNat_add_one (by omega)
  funext k
  have hmod : (pileIndex dir s.rp % 8).toNat = (pileIndex dir s.rp).toNat % 8 :=
    UInt32.toNat_mod _ 8
  rw [Function.update_apply, ← hcell, hpile, pileBit, Vector.getElem?_setIfInBounds]
  by_cases hk : (pileIndex dir s.rp / 8).toNat = k / 8
  · rw [if_pos hk, if_pos hbyte, Option.getD_some,
      byteBit_replace _ _ _ (Nat.mod_lt k (by decide)), hmod]
    rw [toNat_div_eight] at hk
    refine if_congr ⟨fun h => by omega, fun h => by rw [h]⟩ rfl ?_
    rw [pileBit, ← hk, ← toNat_div_eight, Vector.getElem?_eq_getElem hbyte, Option.getD_some]
  · have hne : ¬ k = (pileIndex dir s.rp).toNat := fun h => hk (by rw [h, toNat_div_eight])
    rw [if_neg hk, if_neg hne, pileBit]

/-- A pop of a bit that is there drives the pin to it. -/
theorem execute_pop (dir : PileDir) (pin : UInt8) (input : VmInput) (hpos : 0 < s.tp.toNat)
    (hsize : s.tp.toNat ≤ pileSize * 8) :
    ∃ t, execute (.pop dir pin) input s = .running t ∧ t.tp.toNat = s.tp.toNat - 1 ∧
      t.pileT = s.pileT ∧ t.gpio = (s.drivePin pin (pileBit s.pileT
        (cell (pileSize * 8) dir.toEnd (s.tp.toNat - 1)))).gpio := by
  have htp : (s.tp - 1).toNat + 1 = s.tp.toNat := toNat_sub_one hpos
  have hlt : (s.tp - 1).toNat < pileSize * 8 := by omega
  have hcell := toNat_pileIndex dir hlt
  have hindex := (pileIndex_lt_iff dir (s.tp - 1)).mpr hlt
  have hbyte : (pileIndex dir (s.tp - 1) / 8).toNat < pileSize := by
    rw [toNat_div_eight]
    omega
  obtain ⟨t, ht, htop, hpile⟩ :
      ∃ t, pop dir pin s = some t ∧ t.tp = s.tp - 1 ∧ t.pileT = s.pileT := by
    simp only [pop, Vector.getElem?_eq_getElem hbyte]
    exact ⟨_, rfl, rfl, rfl⟩
  have hmod : (pileIndex dir (s.tp - 1) % 8).toNat = (pileIndex dir (s.tp - 1)).toNat % 8 :=
    UInt32.toNat_mod _ 8
  have hbit : s.poppedBit dir =
      pileBit s.pileT (cell (pileSize * 8) dir.toEnd (s.tp.toNat - 1)) := by
    rw [VmState.poppedBit, toNat_div_eight, hmod, hcell, ← htp, Nat.add_sub_cancel]
    rfl
  refine ⟨t, ofOption_eq_running.mpr ht, ?_, hpile, ?_⟩
  · rw [htop]
    omega
  · rw [gpio_pop ht, hbit]

/-- Pushes with room for all of them. -/
theorem executeSeq_push (xs : List PileOp) (hroom : s.rp.toNat + xs.length ≤ pileSize * 8) :
    ∃ s', executeSeq (xs.map PileOp.push) s = .running s' ∧
      s'.rp.toNat = s.rp.toNat + xs.length ∧
      pileBit s'.pileR =
        pushAll (cell (pileSize * 8)) (xs.map PileOp.entry) s.rp.toNat (pileBit s.pileR) := by
  induction xs generalizing s with
  | nil => exact ⟨s, rfl, rfl, rfl⟩
  | cons x rest ih =>
    rw [List.length_cons] at hroom
    have hlt : s.rp.toNat < pileSize * 8 := by omega
    obtain ⟨t, hstep, hrp, hbits⟩ := execute_push x.dir x.pin x.input hlt
    obtain ⟨s', hseq, hcount, hpile⟩ := ih (s := t) (by omega)
    refine ⟨s', ?_, ?_, ?_⟩
    · rw [List.map_cons, PileOp.push, executeSeq, hstep]
      exact hseq
    · rw [hcount, hrp, List.length_cons]
      omega
    · rw [hpile, hbits, hrp]
      rfl

/-- Pops of at most as many bits as the pile holds. -/
theorem pops_spec (xs : List PileOp) (hfew : xs.length ≤ s.tp.toNat)
    (hsize : s.tp.toNat ≤ pileSize * 8) :
    ∃ u, Pops xs ((popAddresses (cell (pileSize * 8)) (xs.map fun x => x.dir.toEnd)
        s.tp.toNat).map (pileBit s.pileT)) s u ∧ u.tp.toNat = s.tp.toNat - xs.length := by
  induction xs generalizing s with
  | nil => exact ⟨s, .nil s, rfl⟩
  | cons x rest ih =>
    rw [List.length_cons] at hfew ⊢
    have hpos : 0 < s.tp.toNat := by omega
    obtain ⟨t, hstep, htp, hpile, hgpio⟩ := execute_pop x.dir x.pin x.input hpos hsize
    obtain ⟨u, hpops, hcount⟩ := ih (s := t) (by omega) (by omega)
    rw [htp, hpile] at hpops
    exact ⟨u, .cons hstep hgpio hpops, by omega⟩

end Pile

theorem fits_of_length {xs : List PileOp}
    (h : (∀ x ∈ xs, ∀ y ∈ xs, x.dir = y.dir) ∧ xs.length ≤ pileSize * 8 ∨
      2 * xs.length ≤ pileSize * 8) :
    Fits (pileSize * 8) (xs.map fun x => x.dir.toEnd) 0 := by
  unfold Fits
  rw [List.length_map, Nat.zero_add]
  refine h.imp (fun ⟨hsame, hlen⟩ => ⟨?_, hlen⟩) id
  cases xs with
  | nil => exact ⟨.bottom, fun d hd => absurd hd List.not_mem_nil⟩
  | cons x rest =>
    refine ⟨x.dir.toEnd, fun d hd => ?_⟩
    obtain ⟨y, hy, rfl⟩ := List.mem_map.mp hd
    rw [hsame y hy x List.mem_cons_self]

/-- Up to 2048 pushes in one direction, or 1024 in both, address different bits and store what they
read there, and pops in the reverse directions output it in reverse order. -/
theorem pile_lifo (xs : List PileOp) (s : VmState) (hrp : s.rp = 0)
    (hlen : (∀ x ∈ xs, ∀ y ∈ xs, x.dir = y.dir) ∧ xs.length ≤ 2048 ∨ xs.length ≤ 1024) :
    ∃ s', executeSeq (xs.map PileOp.push) s = .running s' ∧ s'.rp.toNat = xs.length ∧
      (pushedCells xs).Nodup ∧ (pushedCells xs).map (pileBit s'.pileR) = xs.map PileOp.bit ∧
      (∀ k, k ∉ pushedCells xs → pileBit s'.pileR k = pileBit s.pileR k) ∧
      ∀ (ys : List PileOp) (t : VmState),
        ys.map PileOp.dir = (xs.map PileOp.dir).reverse → t.pileT = s'.pileR → t.tp = s'.rp →
          ∃ u, Pops ys (xs.map PileOp.bit).reverse t u ∧ u.tp = 0 := by
  have hsize : pileSize * 8 = 2048 := rfl
  have hfits : Fits (pileSize * 8) (xs.map fun x => x.dir.toEnd) 0 :=
    fits_of_length (hlen.imp id fun h => by omega)
  have hnodup : (pushedCells xs).Nodup := nodup_addresses hfits
  have hends : (xs.map PileOp.entry).map Prod.fst = xs.map fun x => x.dir.toEnd := List.map_map
  have hbits : (xs.map PileOp.entry).map Prod.snd = xs.map PileOp.bit := List.map_map
  have hdistinct : (addresses (cell (pileSize * 8)) ((xs.map PileOp.entry).map Prod.fst)
      0).Nodup := by
    rw [hends]
    exact hnodup
  have hzero : s.rp.toNat = 0 := by rw [hrp]; rfl
  obtain ⟨s', hseq, hcount, hpile⟩ := executeSeq_push (s := s) xs (by omega)
  rw [hzero, Nat.zero_add] at hcount
  rw [hzero] at hpile
  refine ⟨s', hseq, hcount, hnodup, ?_, fun k hk => ?_, fun ys t hys hpileT htp => ?_⟩
  · rw [hpile, ← hbits, ← map_pushAll hdistinct, hends]
    rfl
  · rw [hpile]
    exact pushAll_of_not_mem (by rwa [hends])
  · have hys' : (ys.map fun y => y.dir.toEnd) = (xs.map fun x => x.dir.toEnd).reverse := by
      have h := congrArg (List.map PileDir.toEnd) hys
      rwa [List.map_reverse, List.map_map, List.map_map] at h
    have hlen' : ys.length = xs.length := by
      have h := congrArg List.length hys
      rwa [List.length_map, List.length_reverse, List.length_map] at h
    have htp' : t.tp.toNat = xs.length := by rw [htp, hcount]
    obtain ⟨u, hpops, hu⟩ := pops_spec (s := t) ys (by omega) (by omega)
    rw [hys', htp', hpileT, hpile] at hpops
    have hread := map_pushAll_reverse (pileBit s.pileR) hdistinct
    rw [hends, hbits, List.length_map] at hread
    rw [hread] at hpops
    refine ⟨u, hpops, UInt32.toNat_inj.mp ?_⟩
    rw [hu, htp', hlen', Nat.sub_self]
    rfl

/-- A high pin pushed up and a low one pushed down. -/
def pushUpDown : List PileOp := [⟨.up, 0, ⟨1, false⟩⟩, ⟨.down, 0, ⟨0, false⟩⟩]

theorem pile_lifo_up_down :
    ∃ s', executeSeq (pushUpDown.map PileOp.push) (machineWithLatch 0) = .running s' ∧
      s'.rp.toNat = 2 ∧ (pushedCells pushUpDown).Nodup ∧
      (pushedCells pushUpDown).map (pileBit s'.pileR) = [true, false] ∧
      (∀ k, k ∉ pushedCells pushUpDown →
        pileBit s'.pileR k = pileBit (machineWithLatch 0).pileR k) ∧
      ∀ (ys : List PileOp) (t : VmState), ys.map PileOp.dir = [.down, .up] →
        t.pileT = s'.pileR → t.tp = s'.rp → ∃ u, Pops ys [false, true] t u ∧ u.tp = 0 :=
  pile_lifo pushUpDown (machineWithLatch 0) rfl (.inr (by decide))

end Not232
