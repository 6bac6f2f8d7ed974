import Not232.ControlSession

/-!
# What the control endpoint refuses and what it never sends

A SETUP packet is either refused as a whole or never stalled. As long as a host sends standard
requests only, nothing that lies behind the descriptor arrays reaches the bus.
-/

namespace Not232

/-! ### Tokens on the bus -/

inductive DataToken
  | dataIn
  | dataOut (tog : Bool) (bytes : List UInt8)

inductive BusToken
  | setup (address : UInt8) (req : UsbSetupReq)
  | data (address : UInt8) (token : DataToken)
  | reset
  | suspend (suspended : Bool)

inductive BusAnswer
  | dataIn (answer : InAnswer)
  | dataOut (answer : OutAnswer)
  | unanswered
  deriving DecidableEq

def BusToken.IsStandard : BusToken → Prop
  | setup _ req => req.bRequestType &&& usbReqTypMask = usbReqTypStandard
  | _ => True

def BusAnswer.IsStall (a : BusAnswer) : Prop := a = dataIn .stall ∨ a = dataOut .stall

namespace ControlEndpoint

variable (beyond : DescrArray → ℕ → UInt8)

def busStep (s : ControlEndpoint) : BusToken → BusAnswer × ControlEndpoint
  | .setup address req => (.unanswered, s.setupToken beyond address req)
  | .data address .dataIn => (.dataIn (s.inToken beyond address).1, (s.inToken beyond address).2)
  | .data address (.dataOut tog bytes) =>
    (.dataOut (s.outToken address tog bytes).1, (s.outToken address tog bytes).2)
  | .reset => (.unanswered, s.irqBusReset)
  | .suspend suspended => (.unanswered, s.irqSuspend suspended)

def busRun (s : ControlEndpoint) : List BusToken → List BusAnswer × ControlEndpoint
  | [] => ([], s)
  | token :: tokens =>
    let r := s.busStep beyond token
    (r.1 :: (r.2.busRun tokens).1, (r.2.busRun tokens).2)

/-! ### Refusals -/

structure Refusing (s : ControlEndpoint) : Prop where
  tx : s.uep0TxCtrl &&& uepResMask = uepResStall
  rx : s.uep0RxCtrl &&& uepResMask = uepResStall

structure Accepting (s : ControlEndpoint) : Prop where
  tx : s.uep0TxCtrl &&& uepResMask ≠ uepResStall
  rx : s.uep0RxCtrl &&& uepResMask ≠ uepResStall

theorem Refusing.busStep {s : ControlEndpoint} (h : s.Refusing) (token : DataToken) :
    (s.busStep beyond (.data s.device.address token)).1.IsStall ∧
      (s.busStep beyond (.data s.device.address token)).2 = s := by
  have htx := h.tx
  have hrx := h.rx
  cases token with
  | dataIn =>
    have hin : s.inToken beyond s.device.address = (.stall, s) := by
      simp +decide [inToken, hasAddress, htx]
    simp [ControlEndpoint.busStep, hin, BusAnswer.IsStall]
  | dataOut tog bytes =>
    have hout : s.outToken s.device.address tog bytes = (.stall, s) := by
      simp +decide [outToken, hasAddress, hrx]
    simp [ControlEndpoint.busStep, hout, BusAnswer.IsStall]

theorem Refusing.busRun {s : ControlEndpoint} (h : s.Refusing) (tokens : List DataToken) :
    (∀ answer ∈ (s.busRun beyond (tokens.map (.data s.device.address))).1, answer.IsStall) ∧
      (s.busRun beyond (tokens.map (.data s.device.address))).2 = s := by
  induction tokens with
  | nil => simp [ControlEndpoint.busRun]
  | cons token tokens ih =>
    have hstep := h.busStep beyond token
    simp only [List.map_cons, ControlEndpoint.busRun, hstep.2]
    refine ⟨?_, ih.2⟩
    intro answer hmem
    rcases List.mem_cons.mp hmem with rfl | hrest
    · exact hstep.1
    · exact ih.1 answer hrest

theorem toggle_and_mask (ctrl : UInt8) :
    (ctrl ^^^ uepTog) &&& uepResMask = ctrl &&& uepResMask := by
  apply UInt8.toBitVec_inj.mp
  apply BitVec.eq_of_getLsbD_eq
  intro i hi
  have htog : (uepTog.toBitVec.getLsbD i && uepResMask.toBitVec.getLsbD i) = false := by
    interval_cases i <;> rfl
  revert htog
  simp only [UInt8.toBitVec_and, UInt8.toBitVec_xor, BitVec.getLsbD_and, BitVec.getLsbD_xor]
  cases ctrl.toBitVec.getLsbD i <;> cases uepTog.toBitVec.getLsbD i <;>
    cases uepResMask.toBitVec.getLsbD i <;> decide

theorem Accepting.irqEp0In {s : ControlEndpoint} (h : s.Accepting) :
    (s.irqEp0In beyond).Accepting := by
  have hack : (uepTog ||| uepResAck) &&& uepResMask ≠ uepResStall := by decide
  have htoggle : (s.uep0TxCtrl ^^^ uepTog) &&& uepResMask ≠ uepResStall := by
    rw [toggle_and_mask]
    exact h.tx
  by_cases hlen : s.setupReqLen = 0
  · simp only [ControlEndpoint.irqEp0In, if_pos hlen]
    split_ifs
    · exact ⟨h.tx, hack⟩
    · exact ⟨htoggle, hack⟩
    · exact ⟨h.tx, hack⟩
    · exact ⟨h.tx, hack⟩
  · simp only [ControlEndpoint.irqEp0In, if_neg hlen]
    split_ifs
    · exact h
    · exact ⟨htoggle, h.rx⟩
    · exact ⟨h.tx, h.rx⟩
    · exact h

theorem Accepting.irqEp0Out {s : ControlEndpoint} (h : s.Accepting) (togOk : Bool) :
    (s.irqEp0Out togOk).Accepting := by
  have hack : (uepTog ||| uepResAck) &&& uepResMask ≠ uepResStall := by decide
  simp only [ControlEndpoint.irqEp0Out]
  split_ifs <;> first | exact ⟨h.tx, h.rx⟩ | exact ⟨hack, h.rx⟩

theorem Accepting.busStep {s : ControlEndpoint} (h : s.Accepting) (address : UInt8)
    (token : DataToken) : ¬ (s.busStep beyond (.data address token)).1.IsStall ∧
      (s.busStep beyond (.data address token)).2.Accepting := by
  cases token with
  | dataIn =>
    simp only [ControlEndpoint.busStep, inToken, if_neg h.tx, BusAnswer.IsStall]
    split_ifs
    · exact ⟨by simp, h.irqEp0In beyond⟩
    · exact ⟨by simp, h⟩
    · exact ⟨by simp, h⟩
    · exact ⟨by simp, h⟩
  | dataOut tog bytes =>
    have hwrite : (s.writeEp0 bytes).Accepting := ⟨h.tx, h.rx⟩
    simp only [ControlEndpoint.busStep, outToken, if_neg h.rx, BusAnswer.IsStall]
    split_ifs
    · exact ⟨by simp, hwrite.irqEp0Out _⟩
    · exact ⟨by simp, h⟩
    · exact ⟨by simp, h⟩
    · exact ⟨by simp, h⟩

theorem Accepting.busRun {address : UInt8} (tokens : List DataToken) : ∀ {s : ControlEndpoint},
    s.Accepting → ∀ answer ∈ (s.busRun beyond (tokens.map (.data address))).1,
      ¬ answer.IsStall := by
  induction tokens with
  | nil => simp [ControlEndpoint.busRun]
  | cons token tokens ih =>
    intro s h answer hmem
    rcases List.mem_cons.mp hmem with rfl | hrest
    · exact (h.busStep beyond address token).1
    · exact ih (h.busStep beyond address token).2 answer hrest

theorem Accepting.getDescriptor {s : ControlEndpoint} (h : s.Accepting) :
    (s.getDescriptor beyond).1.Accepting := by
  unfold ControlEndpoint.getDescriptor
  split <;> exact ⟨h.tx, h.rx⟩

theorem Accepting.getStatus {s : ControlEndpoint} (h : s.Accepting) : s.getStatus.1.Accepting := by
  unfold ControlEndpoint.getStatus
  split_ifs <;> exact ⟨h.tx, h.rx⟩

theorem Accepting.clearFeature {s : ControlEndpoint} (h : s.Accepting) :
    s.clearFeature.1.Accepting := by
  unfold ControlEndpoint.clearFeature
  split_ifs <;> exact ⟨h.tx, h.rx⟩

theorem Accepting.setFeature {s : ControlEndpoint} (h : s.Accepting) :
    s.setFeature.1.Accepting := by
  unfold ControlEndpoint.setFeature
  split_ifs <;> exact ⟨h.tx, h.rx⟩

theorem Accepting.standardRequest {s : ControlEndpoint} (h : s.Accepting) :
    (s.standardRequest beyond).1.Accepting := by
  unfold ControlEndpoint.standardRequest
  split_ifs
  · exact h.getDescriptor beyond
  · exact ⟨h.tx, h.rx⟩
  · exact ⟨h.tx, h.rx⟩
  · exact ⟨h.tx, h.rx⟩
  · exact h.clearFeature
  · exact h.setFeature
  · exact ⟨h.tx, h.rx⟩
  · exact h
  · exact h.getStatus
  · exact h

theorem Accepting.nonStandardRequest {s : ControlEndpoint} (h : s.Accepting) :
    (s.nonStandardRequest beyond).1.Accepting := by
  unfold ControlEndpoint.nonStandardRequest
  split_ifs <;> exact ⟨h.tx, h.rx⟩

theorem Accepting.setupDone {s : ControlEndpoint} (h : s.Accepting) :
    (setupDone false s).Accepting := by
  have hack : (uepTog ||| uepResAck) &&& uepResMask ≠ uepResStall := by decide
  simp only [ControlEndpoint.setupDone, Bool.false_eq_true, if_false]
  split_ifs
  · exact ⟨hack, h.rx⟩
  · exact ⟨hack, h.rx⟩
  · exact ⟨h.tx, hack⟩

theorem refusing_setupDone (s : ControlEndpoint) : (setupDone true s).Refusing :=
  ⟨show (uepTog ||| uepResStall) &&& uepResMask = _ by decide,
    show (uepTog ||| uepResStall) &&& uepResMask = _ by decide⟩

theorem accepting_storeSetup (req : UsbSetupReq) (s : ControlEndpoint) :
    (s.storeSetup req).Accepting :=
  ⟨show (uepTog ||| uepResNak) &&& uepResMask ≠ _ by decide,
    show (uepTog ||| uepResNak) &&& uepResMask ≠ _ by decide⟩

theorem clearFeature_refused {s : ControlEndpoint} (h : s.clearFeature.2 = true) :
    s.clearFeature.1 = s := by
  unfold clearFeature at h ⊢
  split_ifs at h ⊢ <;> rfl

theorem setFeature_refused {s : ControlEndpoint} (h : s.setFeature.2 = true) :
    s.setFeature.1 = s := by
  unfold setFeature at h ⊢
  split_ifs at h ⊢ <;> rfl

theorem device_standardRequest_refused {s : ControlEndpoint}
    (h : (s.standardRequest beyond).2 = true) : (s.standardRequest beyond).1.device = s.device := by
  by_cases hclear : s.setupReqCode = usbClearFeature
  · rw [standardRequest_clearFeature beyond hclear] at h ⊢
    rw [clearFeature_refused h]
  · by_cases hset : s.setupReqCode = usbSetFeature
    · rw [standardRequest_setFeature beyond hset] at h ⊢
      rw [setFeature_refused h]
    · apply device_standardRequest beyond _ hclear hset
      intro hconf
      simp +decide only [standardRequest, hconf, if_true, if_false] at h

/-- A SETUP token is refused as a whole, or it is not stalled. -/
theorem irqSetup_cases (req : UsbSetupReq) (s : ControlEndpoint) :
    ((s.irqSetup beyond req).Refusing ∧ (s.irqSetup beyond req).device = s.device) ∨
      (s.irqSetup beyond req).Accepting := by
  by_cases hstd : req.bRequestType &&& usbReqTypMask = usbReqTypStandard
  · rw [irqSetup_standard beyond s hstd]
    cases herr : ((s.storeSetup req).standardRequest beyond).2 with
    | true =>
      apply Or.inl
      refine ⟨refusing_setupDone _, ?_⟩
      rw [device_setupDone]
      exact device_standardRequest_refused beyond herr
    | false => exact Or.inr ((accepting_storeSetup req s).standardRequest beyond).setupDone
  · rw [irqSetup_nonStandard beyond s hstd]
    cases ((s.storeSetup req).nonStandardRequest beyond).2 with
    | true =>
      apply Or.inl
      refine ⟨refusing_setupDone _, ?_⟩
      rw [device_setupDone]
      exact device_nonStandardRequest beyond _
    | false => exact Or.inr ((accepting_storeSetup req s).nonStandardRequest beyond).setupDone

theorem setup_refused_or_served (req : UsbSetupReq) (tokens : List DataToken)
    (s : ControlEndpoint) :
    ((∀ answer ∈ ((s.setupToken beyond s.device.address req).busRun beyond
          (tokens.map (.data s.device.address))).1, answer.IsStall) ∧
        ((s.setupToken beyond s.device.address req).busRun beyond
          (tokens.map (.data s.device.address))).2.device = s.device) ∨
      ∀ answer ∈ ((s.setupToken beyond s.device.address req).busRun beyond
        (tokens.map (.data s.device.address))).1, ¬ answer.IsStall := by
  have hsetup : s.setupToken beyond s.device.address req = s.irqSetup beyond req := by
    simp [setupToken, hasAddress]
  rw [hsetup]
  rcases irqSetup_cases beyond req s with ⟨hrefusing, hdev⟩ | haccepting
  · apply Or.inl
    have hrun := hrefusing.busRun beyond tokens
    rw [hdev] at hrun
    exact ⟨hrun.1, by rw [hrun.2, hdev]⟩
  · exact Or.inr (haccepting.busRun beyond tokens)

/-! ### Isolation -/

/-- What is left of a descriptor that the host can still fetch lies in its array. -/
def InBounds (s : ControlEndpoint) : Prop :=
  s.setupReqType &&& usbReqTypMask = usbReqTypStandard → s.setupReqCode = usbGetDescriptor →
    s.uep0TxCtrl &&& uepResMask = uepResAck →
      s.pDescr.2 + s.setupReqLen.toNat ≤ (s.array s.pDescr.1).length ∨ s.setupReqLen = 0

theorem copyDescr_congr {s : ControlEndpoint} {len : UInt16}
    (h : s.pDescr.2 + len.toNat ≤ (s.array s.pDescr.1).length)
    (beyond' : DescrArray → ℕ → UInt8) : s.copyDescr beyond len = s.copyDescr beyond' len := by
  have hread : (List.range len.toNat).map (s.descrByte beyond) =
      (List.range len.toNat).map (s.descrByte beyond') := by
    apply List.map_congr_left
    intro i hi
    have hlt : s.pDescr.2 + i < (s.array s.pDescr.1).length := by
      have := List.mem_range.mp hi
      omega
    simp [descrByte, hlt]
  rw [copyDescr, hread, copyDescr]

theorem toNat_packetLen_le (len : UInt16) : (packetLen len).toNat ≤ len.toNat := by
  rw [toNat_packetLen]
  exact min_le_left _ _

theorem irqEp0In_congr {s : ControlEndpoint} (h : s.InBounds)
    (hack : s.uep0TxCtrl &&& uepResMask = uepResAck) (beyond' : DescrArray → ℕ → UInt8) :
    s.irqEp0In beyond = s.irqEp0In beyond' := by
  by_cases hstd : s.setupReqType &&& usbReqTypMask = usbReqTypStandard
  · by_cases hcode : s.setupReqCode = usbGetDescriptor
    · have hcopy : s.copyDescr beyond (packetLen s.setupReqLen) =
          s.copyDescr beyond' (packetLen s.setupReqLen) := by
        rcases h hstd hcode hack with hle | hzero
        · exact copyDescr_congr beyond ((Nat.add_le_add_left (toNat_packetLen_le _) _).trans hle) _
        · rw [hzero]
          rfl
      rw [irqEp0In_getDescriptor beyond s hstd hcode, irqEp0In_getDescriptor beyond' s hstd hcode,
        hcopy]
    · simp only [irqEp0In]
      split_ifs <;> rfl
  · simp only [irqEp0In]
    split_ifs <;> rfl

/-- The request at hand. -/
def request (s : ControlEndpoint) : UInt8 × UInt8 := (s.setupReqType, s.setupReqCode)

theorem inBounds_of_request {s s' : ControlEndpoint} (h : s'.request = s.request)
    (hne : s.setupReqType &&& usbReqTypMask = usbReqTypStandard →
      s.setupReqCode ≠ usbGetDescriptor) : s'.InBounds := by
  intro hstd hcode
  have htype : s'.setupReqType = s.setupReqType := congrArg Prod.fst h
  have hsame : s'.setupReqCode = s.setupReqCode := congrArg Prod.snd h
  rw [htype] at hstd
  rw [hsame] at hcode
  exact absurd hcode (hne hstd)

theorem request_irqEp0In (s : ControlEndpoint) : (s.irqEp0In beyond).request = s.request := by
  simp only [irqEp0In]
  split_ifs <;> rfl

theorem InBounds.irqEp0In {s : ControlEndpoint} (h : s.InBounds)
    (hack : s.uep0TxCtrl &&& uepResMask = uepResAck) : (s.irqEp0In beyond).InBounds := by
  by_cases hdescr : s.setupReqType &&& usbReqTypMask = usbReqTypStandard ∧
      s.setupReqCode = usbGetDescriptor
  · rw [irqEp0In_getDescriptor beyond s hdescr.1 hdescr.2]
    intro _ _ _
    rcases h hdescr.1 hdescr.2 hack with hle | hzero
    · apply Or.inl
      show s.pDescr.2 + (packetLen s.setupReqLen).toNat +
        (s.setupReqLen - packetLen s.setupReqLen).toNat ≤ (s.array s.pDescr.1).length
      rw [toNat_sub_packetLen, toNat_packetLen]
      omega
    · apply Or.inr
      show s.setupReqLen - packetLen s.setupReqLen = 0
      rw [hzero]
      rfl
  · apply inBounds_of_request (request_irqEp0In beyond s)
    exact fun hstd hcode => hdescr ⟨hstd, hcode⟩

theorem InBounds.writeEp0 {s : ControlEndpoint} (h : s.InBounds) (bytes : List UInt8) :
    (s.writeEp0 bytes).InBounds := h

theorem InBounds.irqEp0Out {s : ControlEndpoint} (h : s.InBounds) (togOk : Bool) :
    (s.irqEp0Out togOk).InBounds := by
  by_cases hstd : s.setupReqType &&& usbReqTypMask = usbReqTypStandard
  · simp only [ControlEndpoint.irqEp0Out, if_neg (not_not.mpr hstd)]
    split_ifs with htog hlen
    · exact fun _ _ _ => Or.inr hlen
    · exact h
    · exact h
  · apply inBounds_of_request _ (fun h' => absurd h' hstd)
    simp only [ControlEndpoint.irqEp0Out]
    split_ifs <;> rfl

theorem length_selectDescr {value : UInt16} {a : DescrArray} {len : UInt16}
    (h : selectDescr value = some (a, len)) (s : ControlEndpoint) :
    (s.array a).length = len.toNat := by
  simp only [selectDescr] at h
  split_ifs at h <;> cases h <;> rfl

theorem min_zero (len : UInt16) : min len 0 = 0 := by
  apply UInt16.toNat_inj.mp
  rw [toNat_min]
  exact Nat.min_zero _

theorem getDescriptor_congr (s : ControlEndpoint) (beyond' : DescrArray → ℕ → UInt8) :
    s.getDescriptor beyond = s.getDescriptor beyond' := by
  cases hselect : selectDescr s.setupReqValue with
  | none =>
    simp only [getDescriptor, hselect, min_zero]
    rfl
  | some chosen =>
    have hlen := length_selectDescr hselect s
    have hcopy : copyDescr beyond (packetLen (min s.setupReqLen chosen.2))
        { s with pDescr := (chosen.1, 0), setupReqLen := min s.setupReqLen chosen.2 } =
        copyDescr beyond' (packetLen (min s.setupReqLen chosen.2))
        { s with pDescr := (chosen.1, 0), setupReqLen := min s.setupReqLen chosen.2 } := by
      apply copyDescr_congr
      show 0 + (packetLen (min s.setupReqLen chosen.2)).toNat ≤ (s.array chosen.1).length
      have hle := toNat_packetLen_le (min s.setupReqLen chosen.2)
      rw [toNat_min] at hle
      omega
    simp only [getDescriptor, hselect, hcopy]

theorem standardRequest_congr (s : ControlEndpoint) (beyond' : DescrArray → ℕ → UInt8) :
    s.standardRequest beyond = s.standardRequest beyond' := by
  simp only [standardRequest, getDescriptor_congr beyond s beyond']

theorem request_getDescriptor (s : ControlEndpoint) :
    (s.getDescriptor beyond).1.request = s.request := by
  unfold getDescriptor
  split <;> rfl

theorem request_features (s : ControlEndpoint) : s.clearFeature.1.request = s.request ∧
    s.setFeature.1.request = s.request ∧ s.getStatus.1.request = s.request := by
  refine ⟨?_, ?_, ?_⟩
  · unfold clearFeature
    split_ifs <;> rfl
  · unfold setFeature
    split_ifs <;> rfl
  · unfold getStatus
    split_ifs <;> rfl

theorem request_standardRequest (s : ControlEndpoint) :
    (s.standardRequest beyond).1.request = s.request := by
  have hfeatures := request_features s
  unfold standardRequest
  split_ifs
  · exact request_getDescriptor beyond s
  · rfl
  · rfl
  · rfl
  · exact hfeatures.1
  · exact hfeatures.2.1
  · rfl
  · rfl
  · exact hfeatures.2.2
  · rfl

theorem request_setupDone (errflag : Bool) (s : ControlEndpoint) :
    (setupDone errflag s).request = s.request := by
  unfold setupDone
  split_ifs <;> rfl

theorem inBounds_setupDone {s : ControlEndpoint} (hnak : s.uep0TxCtrl = uepTog ||| uepResNak)
    (hbound : s.setupReqLen.toNat ≤ (s.array s.pDescr.1).length) (hstart : s.pDescr.2 = 0) :
    (setupDone false (s.copyDescr beyond (packetLen s.setupReqLen))).InBounds := by
  by_cases hin : s.setupReqType &&& defUepIn = 0
  · by_cases hlen : s.setupReqLen = 0
    · rw [setupDone_out (s := s.copyDescr beyond _) hin hlen]
      exact fun _ _ _ => Or.inr hlen
    · rw [setupDone_data (s := s.copyDescr beyond _) hin hlen]
      have hidle : s.uep0TxCtrl &&& uepResMask ≠ uepResAck := by
        rw [hnak]
        decide
      exact fun _ _ hack => absurd hack hidle
  · rw [setupDone_in (s := s.copyDescr beyond _) hin]
    intro _ _ _
    apply Or.inl
    show s.pDescr.2 + (packetLen s.setupReqLen).toNat +
      (s.setupReqLen - packetLen s.setupReqLen).toNat ≤ (s.array s.pDescr.1).length
    rw [toNat_sub_packetLen, toNat_packetLen]
    omega

theorem inBounds_irqSetup {req : UsbSetupReq}
    (hstd : req.bRequestType &&& usbReqTypMask = usbReqTypStandard) (s : ControlEndpoint) :
    (s.irqSetup beyond req).InBounds := by
  rw [irqSetup_standard beyond s hstd]
  by_cases hcode : req.bRequest = usbGetDescriptor
  · have hreq : (s.storeSetup req).standardRequest beyond =
        (s.storeSetup req).getDescriptor beyond := by
      rw [standardRequest, if_pos (show (s.storeSetup req).setupReqCode = _ from hcode)]
    rw [hreq]
    cases hselect : selectDescr (s.storeSetup req).setupReqValue with
    | none =>
      simp only [getDescriptor, hselect, min_zero]
      exact fun _ _ _ => Or.inr rfl
    | some chosen =>
      simp only [getDescriptor, hselect]
      apply inBounds_setupDone beyond rfl _ rfl
      have hlen := length_selectDescr hselect s
      show (min req.wLength chosen.2).toNat ≤ (s.array chosen.1).length
      rw [toNat_min, hlen]
      exact min_le_right _ _
  · apply inBounds_of_request
      ((request_setupDone _ _).trans (request_standardRequest beyond (s.storeSetup req)))
    exact fun _ => hcode

theorem irqSetup_congr {req : UsbSetupReq}
    (hstd : req.bRequestType &&& usbReqTypMask = usbReqTypStandard) (s : ControlEndpoint)
    (beyond' : DescrArray → ℕ → UInt8) : s.irqSetup beyond req = s.irqSetup beyond' req := by
  rw [irqSetup_standard beyond s hstd, irqSetup_standard beyond' s hstd,
    standardRequest_congr beyond _ beyond']

theorem inBounds_usbfsDeviceEndpInit (s : ControlEndpoint) : s.usbfsDeviceEndpInit.InBounds :=
  fun _ _ hack => absurd hack (show ¬ (uepResNak &&& uepResMask = uepResAck) by decide)

theorem busStep_congr {s : ControlEndpoint} (h : s.InBounds) {token : BusToken}
    (hstd : token.IsStandard) (beyond' : DescrArray → ℕ → UInt8) :
    s.busStep beyond token = s.busStep beyond' token ∧ (s.busStep beyond token).2.InBounds := by
  cases token with
  | setup address req =>
    simp only [busStep, setupToken]
    split_ifs
    · exact ⟨by rw [irqSetup_congr beyond hstd s beyond'], inBounds_irqSetup beyond hstd s⟩
    · exact ⟨rfl, h⟩
  | data address token =>
    cases token with
    | dataIn =>
      by_cases haccept : s.hasAddress address ∧ s.uep0TxCtrl &&& uepResMask = uepResAck
      · simp only [busStep, inToken, if_pos haccept.1, if_pos haccept.2]
        refine ⟨?_, h.irqEp0In beyond haccept.2⟩
        rw [irqEp0In_congr beyond h haccept.2 beyond']
      · simp only [busStep, inToken]
        split_ifs with haddr hack
        · exact absurd ⟨haddr, hack⟩ haccept
        · exact ⟨rfl, h⟩
        · exact ⟨rfl, h⟩
        · exact ⟨rfl, h⟩
        · exact ⟨rfl, h⟩
    | dataOut tog bytes =>
      simp only [busStep, outToken]
      split_ifs
      · exact ⟨trivial, (h.writeEp0 bytes).irqEp0Out _⟩
      · exact ⟨trivial, h⟩
      · exact ⟨trivial, h⟩
      · exact ⟨trivial, h⟩
      · exact ⟨trivial, h⟩
  | reset => exact ⟨rfl, inBounds_usbfsDeviceEndpInit _⟩
  | suspend suspended =>
    refine ⟨rfl, ?_⟩
    cases suspended <;> exact h

theorem busRun_congr (beyond' : DescrArray → ℕ → UInt8) (tokens : List BusToken) :
    ∀ s : ControlEndpoint, s.InBounds → (∀ token ∈ tokens, token.IsStandard) →
      s.busRun beyond tokens = s.busRun beyond' tokens := by
  induction tokens with
  | nil => exact fun _ _ _ => rfl
  | cons token tokens ih =>
    intro s h hstd
    have hstep := busStep_congr beyond h (hstd token List.mem_cons_self) beyond'
    have hrest := ih _ hstep.2 fun t ht => hstd t (List.mem_cons_of_mem _ ht)
    simp only [busRun]
    rw [hrest, hstep.1]

/-- A host that only sends standard requests learns nothing about what lies behind the arrays. -/
theorem standard_runs_isolated (beyond' : DescrArray → ℕ → UInt8) (tokens : List BusToken)
    (s : ControlEndpoint) (hstd : ∀ token ∈ tokens, token.IsStandard) :
    s.usbfsDeviceEndpInit.busRun beyond tokens = s.usbfsDeviceEndpInit.busRun beyond' tokens :=
  busRun_congr beyond beyond' tokens _ (inBounds_usbfsDeviceEndpInit s) hstd

theorem standard_runs_isolated_descriptor :
    powerOn.usbfsDeviceEndpInit.busRun (fun _ _ => 0x00)
        [.setup 0 (ControlRequest.getDescriptor .device 0 255).packet, .data 0 .dataIn] =
      powerOn.usbfsDeviceEndpInit.busRun (fun _ _ => 0xFF)
        [.setup 0 (ControlRequest.getDescriptor .device 0 255).packet, .data 0 .dataIn] := by
  apply standard_runs_isolated
  intro token hmem
  rcases List.mem_cons.mp hmem with rfl | hmem
  · exact show (0x80 : UInt8) &&& _ = _ by decide
  · rcases List.mem_singleton.mp hmem with rfl
    exact trivial

end ControlEndpoint

end Not232
