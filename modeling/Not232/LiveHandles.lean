import Not232.FsHandles

/-!
# Live file handles

An open that succeeds returns a handle of its own table that no open file or directory has, and
its flag stays 1 until the handle is closed. The results of a call are told apart by the sign bit:
handles are below ten, littlefs errors and the refusal of a full table are at least 2^31.
-/

namespace Not232

/-- The negative members of `lfs_error`. -/
inductive LfsError
  | io | corrupt | noent | exist | notdir | isdir | notempty | badf | fbig | inval | nospc | nomem
  | noattr | nametoolong
  deriving DecidableEq

def LfsError.code : LfsError → Int32
  | io => -5
  | corrupt => -84
  | noent => -2
  | exist => -17
  | notdir => -20
  | isdir => -21
  | notempty => -39
  | badf => -9
  | fbig => -27
  | inval => -22
  | nospc => -28
  | nomem => -12
  | noattr => -61
  | nametoolong => -36

/-- What littlefs can return. -/
def LfsOutcome (code : Int32) : Prop := 0 ≤ code ∨ ∃ e : LfsError, code = e.code

theorem LfsError.code_ne (e : LfsError) : e.code.toUInt32 ≠ -1 := by
  cases e <;> decide

theorem LfsOutcome.toUInt32_ne {code : Int32} (h : LfsOutcome code) (hneg : code < 0) :
    code.toUInt32 ≠ -1 := by
  rcases h with h | ⟨e, rfl⟩
  · exact absurd hneg (Int32.not_lt.mpr h)
  · exact e.code_ne

theorem toNat_toUInt32_of_neg {code : Int32} (h : code < 0) : 2 ^ 31 ≤ code.toUInt32.toNat := by
  have hneg : code.toInt < 0 := by simpa [Int32.lt_iff_toInt_lt] using h
  have hval : code.toInt = code.toBitVec.toInt := rfl
  have hnat : code.toUInt32.toNat = code.toBitVec.toNat := rfl
  rw [hval, BitVec.toInt_neg_iff] at hneg
  omega

namespace HandleTable

variable {n : ℕ}

/-- The flag of every open handle is 1. -/
def Marked (t : HandleTable n) : Prop :=
  ∀ h ∈ t.live, ∃ hlt : h.toNat < n, t.taken[h.toNat] = 1

/-- What an open returns, and what it does to the open handles. -/
structure OpensApart (code : Int32) (t : HandleTable n) : Prop where
  success : 0 < t.free → 0 ≤ code → (t.openHandle code).1.toNat < n ∧
    (t.openHandle code).1 ∉ t.live ∧ (t.openHandle code).2.live = (t.openHandle code).1 :: t.live
  error : t.free = 0 ∨ code < 0 →
    2 ^ 31 ≤ (t.openHandle code).1.toNat ∧ (t.openHandle code).2.live = t.live
  refusal : (t.openHandle code).1 = 0xFFFFFFFF → t.free = 0

/-- What a close returns, and what it leaves alone. -/
structure ClosesAlone (h : UInt32) (code : Int32) (t : HandleTable n) : Prop where
  flags : ∀ i (hi : i < n), i ≠ h.toNat → (t.closeHandle h code).2.taken[i] = t.taken[i]
  others : ∀ h' ≠ h, h' ∈ (t.closeHandle h code).2.live ↔ h' ∈ t.live
  closed : h ∉ (t.closeHandle h code).2.live
  error : code < 0 → 2 ^ 31 ≤ (t.closeHandle h code).1.toNat

theorem Marked.set_one {t : HandleTable n} (hm : t.Marked) (i : Fin n) :
    Marked { t with taken := t.taken.set i.val 1 i.isLt } := by
  intro h hh
  obtain ⟨hlt, hone⟩ := hm h hh
  refine ⟨hlt, ?_⟩
  rw [Vector.getElem_set]
  by_cases hi : i.val = h.toNat
  · rw [if_pos hi]
  · rw [if_neg hi]
    exact hone

theorem Marked.openHandle (hn : n < 2 ^ 31) {t : HandleTable n} (hm : t.Marked) (code : Int32) :
    (t.openHandle code).2.Marked := by
  rcases openHandle_cases hn code t with ⟨_, ho⟩ | ⟨i, _, _, ho⟩ | ⟨i, _, _, ho⟩
  · rw [ho]
    exact hm
  · rw [ho]
    exact hm.set_one i
  · rw [ho]
    intro h hh
    rcases List.mem_cons.mp hh with rfl | hh
    · have hi := toNat_ofNat_fin hn i
      refine ⟨hi.trans_lt i.isLt, ?_⟩
      simp only [hi, Vector.getElem_set_self]
    · exact hm.set_one i h hh

theorem Marked.closeHandle {t : HandleTable n} (hs : t.Sound) (hm : t.Marked) (h : UInt32)
    (code : Int32) : (t.closeHandle h code).2.Marked := by
  intro h' hh'
  obtain ⟨hne, hmem⟩ := (List.Nodup.mem_erase_iff hs.nodup).mp hh'
  obtain ⟨hlt, hone⟩ := hm h' hmem
  refine ⟨hlt, ?_⟩
  change (t.taken.setIfInBounds h.toNat 0)[h'.toNat] = 1
  rw [Vector.getElem_setIfInBounds, if_neg fun he => hne (UInt32.toNat_inj.mp he).symm]
  exact hone

theorem opensApart (hn : n < 2 ^ 31) {t : HandleTable n} (hs : t.Sound) {code : Int32}
    (hcode : LfsOutcome code) : t.OpensApart code := by
  rcases openHandle_cases hn code t with ⟨hfree, ho⟩ | ⟨i, hi, hneg, ho⟩ | ⟨i, hi, hneg, ho⟩
  · refine ⟨fun hpos => absurd hfree hpos.ne', fun _ => ?_, fun _ => hfree⟩
    rw [ho]
    have hlarge : 2 ^ 31 ≤ (-1 : UInt32).toNat := by decide
    exact ⟨hlarge, rfl⟩
  · refine ⟨fun _ h => absurd hneg (Int32.not_lt.mpr h), fun _ => ?_, fun h => ?_⟩
    · rw [ho]
      exact ⟨toNat_toUInt32_of_neg hneg, rfl⟩
    · rw [ho] at h
      exact absurd h (hcode.toUInt32_ne hneg)
  · have hset := free_set_one i hi
    refine ⟨fun _ _ => ?_, fun h => ?_, fun h => ?_⟩
    · rw [ho]
      exact ⟨(toNat_ofNat_fin hn i).trans_lt i.isLt, hs.not_mem_of_free hn hi, rfl⟩
    · rcases h with h | h
      · omega
      · exact absurd h hneg
    · rw [ho] at h
      exact absurd h (ofNat_fin_ne hn i)

theorem closesAlone {t : HandleTable n} (hs : t.Sound) (h : UInt32) (code : Int32) :
    t.ClosesAlone h code where
  flags i hi hne := by
    change (t.taken.setIfInBounds h.toNat 0)[i] = t.taken[i]
    rw [Vector.getElem_setIfInBounds, if_neg hne.symm]
  others h' hne := List.mem_erase_of_ne hne
  closed := hs.nodup.not_mem_erase
  error := toNat_toUInt32_of_neg

end HandleTable

namespace FsState

def Marked (s : FsState) : Prop := s.files.Marked ∧ s.dirs.Marked

end FsState

namespace FsCall

def outcome : FsCall → Int32
  | fileOpen code | dirOpen code | fileClose _ code | dirClose _ code => code

/-- The table of the other kind is left alone. -/
def Apart : FsCall → FsState → Prop
  | fileOpen code, s => s.files.OpensApart code ∧ (flashfsFileOpen code s).2.dirs = s.dirs
  | fileClose fh code, s =>
    s.files.ClosesAlone fh code ∧ (flashfsFileClose fh code s).2.dirs = s.dirs
  | dirOpen code, s => s.dirs.OpensApart code ∧ (flashfsDirOpen code s).2.files = s.files
  | dirClose dh code, s =>
    s.dirs.ClosesAlone dh code ∧ (flashfsDirClose dh code s).2.files = s.files

theorem apart {s : FsState} (hs : s.Sound) (call : FsCall) (hcode : LfsOutcome call.outcome) :
    call.Apart s := by
  cases call with
  | fileOpen code => exact ⟨HandleTable.opensApart (by decide) hs.1 hcode, rfl⟩
  | fileClose fh code => exact ⟨HandleTable.closesAlone hs.1 fh code, rfl⟩
  | dirOpen code => exact ⟨HandleTable.opensApart (by decide) hs.2 hcode, rfl⟩
  | dirClose dh code => exact ⟨HandleTable.closesAlone hs.2 dh code, rfl⟩

theorem marked_run {s : FsState} (hs : s.Sound) (hm : s.Marked) (call : FsCall) :
    (call.run s).2.Marked := by
  cases call with
  | fileOpen code => exact ⟨hm.1.openHandle (by decide) code, hm.2⟩
  | fileClose fh code => exact ⟨hm.1.closeHandle hs.1 fh code, hm.2⟩
  | dirOpen code => exact ⟨hm.1, hm.2.openHandle (by decide) code⟩
  | dirClose dh code => exact ⟨hm.1, hm.2.closeHandle hs.2 dh code⟩

end FsCall

theorem allCalls_apart (calls : List FsCall) (s : FsState) (hs : s.Sound) (hm : s.Marked)
    (hlive : AllCalls FsCall.Live s calls) (hcode : ∀ call ∈ calls, LfsOutcome call.outcome) :
    AllCalls (fun call s => s.Marked ∧ call.Apart s ∧ (call.run s).2.Marked) s calls := by
  induction calls generalizing s with
  | nil => exact trivial
  | cons call rest ih =>
    have hnext := FsCall.marked_run hs hm call
    refine ⟨⟨hm, call.apart hs (hcode call List.mem_cons_self), hnext⟩, ?_⟩
    exact ih _ (FsCall.sound_run hs call hlive.1) hnext hlive.2
      fun call hmem => hcode call (List.mem_cons_of_mem _ hmem)

theorem start_marked : FsState.start.Marked :=
  ⟨fun _ h => absurd h List.not_mem_nil, fun _ h => absurd h List.not_mem_nil⟩

/-- Through every sequence of opens and closes no two open files, and no two open directories, have
the same handle. -/
theorem handles_never_shared (calls : List FsCall)
    (hlive : AllCalls FsCall.Live FsState.start calls)
    (hcode : ∀ call ∈ calls, LfsOutcome call.outcome) :
    AllCalls (fun call s => s.Marked ∧ call.Apart s ∧ (call.run s).2.Marked) FsState.start
      calls :=
  allCalls_apart calls FsState.start start_sound start_marked hlive hcode

theorem handles_never_shared_open_fail_close :
    AllCalls (fun call s => s.Marked ∧ call.Apart s ∧ (call.run s).2.Marked) FsState.start
      [.fileOpen 0, .dirOpen (-2), .fileClose 0 (-5)] := by
  apply handles_never_shared
  · exact ⟨trivial, trivial, List.mem_singleton.mpr rfl, trivial⟩
  · intro call hcall
    simp only [List.mem_cons, List.not_mem_nil, or_false] at hcall
    rcases hcall with rfl | rfl | rfl
    · exact .inl (by decide)
    · exact .inr ⟨.noent, rfl⟩
    · exact .inr ⟨.io, rfl⟩

end Not232
