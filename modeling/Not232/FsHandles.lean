import Mathlib.Data.List.FinRange
import Mathlib.Tactic

/-!
# The handle tables of the flash file system

Files and directories each have a table of ten handles, whose `taken` fields say which are in use.
An open takes a handle before it calls littlefs; when littlefs fails, the handle stays taken. The
littlefs results are inputs, and the handles that are open are an auxiliary variable.
-/

namespace Not232

def maxFileHandles : ℕ := 10
def maxDirHandles : ℕ := 10

/-- A table of `n` handles; `live` are those whose open succeeded and that are not yet closed. -/
structure HandleTable (n : ℕ) where
  taken : Vector UInt32 n
  live : List UInt32

namespace HandleTable

variable {n : ℕ}

/-- Takes the first handle that is not taken; -1 when there is none. -/
def allocate (t : HandleTable n) : UInt32 × HandleTable n :=
  match (List.finRange n).find? fun i => t.taken[i] = 0 with
  | some i => (UInt32.ofNat i, { t with taken := t.taken.set i 1 })
  | none => (-1, t)

def release (h : UInt32) (t : HandleTable n) : HandleTable n :=
  { t with taken := t.taken.setIfInBounds h.toNat 0 }

/-- An open for which littlefs, if it is called, returns `code`. -/
def openHandle (code : Int32) (t : HandleTable n) : UInt32 × HandleTable n :=
  let (h, t) := t.allocate
  if h = -1 then (-1, t)
  else if code < 0 then (code.toUInt32, t)
  else (h, { t with live := h :: t.live })

/-- A close for which littlefs returns `code`. -/
def closeHandle (h : UInt32) (code : Int32) (t : HandleTable n) : UInt32 × HandleTable n :=
  let t := release h t
  (code.toUInt32, { t with live := t.live.erase h })

def empty : HandleTable n := ⟨Vector.replicate n 0, []⟩

def free (t : HandleTable n) : ℕ := t.taken.count 0

/-- As many handles are free as are not open. -/
def Exact (t : HandleTable n) : Prop := t.free + t.live.length = n

/-- The open handles are taken. -/
structure Sound (t : HandleTable n) : Prop where
  nodup : t.live.Nodup
  taken : ∀ h ∈ t.live, ∃ hlt : h.toNat < n, t.taken[h.toNat] ≠ 0

/-- Littlefs fails after a handle has been taken. -/
def Leaks (code : Int32) (t : HandleTable n) : Prop := code < 0 ∧ 0 < t.free

theorem allocate_cases (t : HandleTable n) :
    (∃ i : Fin n, t.taken[i] = 0 ∧
      t.allocate = (UInt32.ofNat i, { t with taken := t.taken.set i 1 })) ∨
    t.free = 0 ∧ t.allocate = (-1, t) := by
  unfold allocate
  cases hfind : (List.finRange n).find? fun i => t.taken[i] = 0 with
  | some i =>
    have hi := List.find?_some hfind
    exact .inl ⟨i, by simpa using hi, rfl⟩
  | none =>
    refine .inr ⟨?_, rfl⟩
    rw [free, Vector.count_eq_zero]
    intro hmem
    obtain ⟨i, hi, h0⟩ := Vector.mem_iff_getElem.mp hmem
    have hne := List.find?_eq_none.mp hfind ⟨i, hi⟩ (List.mem_finRange _)
    exact hne (by simpa using h0)

theorem free_set_one {t : HandleTable n} (i : Fin n) (h : t.taken[i] = 0) :
    (t.taken.set i 1).count 0 + 1 = t.free := by
  have hmem : (0 : UInt32) ∈ t.taken := Vector.mem_iff_getElem.mpr ⟨i, i.isLt, h⟩
  have hpos : 0 < t.free := Vector.count_pos_iff.mpr hmem
  have h' : t.taken[i.val] = 0 := h
  rw [Vector.count_set, h', if_pos (by decide), if_neg (by decide)]
  unfold free at *
  omega

theorem toNat_ofNat_fin (hn : n < 2 ^ 31) (i : Fin n) : (UInt32.ofNat i).toNat = i :=
  UInt32.toNat_ofNat_of_lt' (lt_trans (lt_trans i.isLt hn) (by decide))

theorem ofNat_fin_not_neg (hn : n < 2 ^ 31) (i : Fin n) : ¬ (UInt32.ofNat i).toInt32 < 0 := by
  rw [UInt32.toInt32_ofNat', Int32.lt_iff_toInt_lt, Int32.toInt_ofNat_of_lt (lt_trans i.isLt hn)]
  simp

theorem ofNat_fin_ne (hn : n < 2 ^ 31) (i : Fin n) : UInt32.ofNat i ≠ -1 := by
  intro h
  have hneg := ofNat_fin_not_neg hn i
  rw [h] at hneg
  exact hneg (by decide)

/-- What an open can do: find no handle, fail with one taken, or succeed. -/
theorem openHandle_cases (hn : n < 2 ^ 31) (code : Int32) (t : HandleTable n) :
    t.free = 0 ∧ t.openHandle code = (-1, t) ∨
    (∃ i : Fin n, t.taken[i] = 0 ∧ code < 0 ∧
      t.openHandle code = (code.toUInt32, { t with taken := t.taken.set i 1 })) ∨
    ∃ i : Fin n, t.taken[i] = 0 ∧ ¬ code < 0 ∧
      t.openHandle code =
        (UInt32.ofNat i, { taken := t.taken.set i 1, live := UInt32.ofNat i :: t.live }) := by
  rcases t.allocate_cases with ⟨i, hi, ha⟩ | ⟨hfree, ha⟩
  · have hne := ofNat_fin_ne hn i
    by_cases hcode : code < 0
    · refine .inr (.inl ⟨i, hi, hcode, ?_⟩)
      rw [openHandle, ha]
      dsimp only
      rw [if_neg hne, if_pos hcode]
    · refine .inr (.inr ⟨i, hi, hcode, ?_⟩)
      rw [openHandle, ha]
      dsimp only
      rw [if_neg hne, if_neg hcode]
  · refine .inl ⟨hfree, ?_⟩
    rw [openHandle, ha]
    rfl

theorem Sound.set_one {t : HandleTable n} (hs : t.Sound) (i : Fin n) :
    Sound { t with taken := t.taken.set i 1 } where
  nodup := hs.nodup
  taken h hh := by
    obtain ⟨hlt, hne⟩ := hs.taken h hh
    refine ⟨hlt, ?_⟩
    rw [Vector.getElem_set]
    split_ifs
    · decide
    · exact hne

theorem Sound.not_mem_of_free {t : HandleTable n} (hn : n < 2 ^ 31) (hs : t.Sound) {i : Fin n}
    (hi : t.taken[i] = 0) : UInt32.ofNat i ∉ t.live := by
  intro hmem
  obtain ⟨_, hne⟩ := hs.taken _ hmem
  simp only [toNat_ofNat_fin hn i] at hne
  exact hne hi

theorem Sound.openHandle (hn : n < 2 ^ 31) {t : HandleTable n} (hs : t.Sound) (code : Int32) :
    (t.openHandle code).2.Sound := by
  rcases openHandle_cases hn code t with ⟨_, ho⟩ | ⟨i, hi, _, ho⟩ | ⟨i, hi, _, ho⟩
  · rw [ho]
    exact hs
  · rw [ho]
    exact hs.set_one i
  · rw [ho]
    have hi' := toNat_ofNat_fin hn i
    refine ⟨List.nodup_cons.mpr ⟨hs.not_mem_of_free hn hi, hs.nodup⟩, fun h hh => ?_⟩
    rcases List.mem_cons.mp hh with rfl | hh
    · refine ⟨hi'.trans_lt i.isLt, ?_⟩
      simp only [hi', Vector.getElem_set_self]
      decide
    · exact (hs.set_one i).taken h hh

/-- A close of an open handle makes it free. -/
theorem free_closeHandle {t : HandleTable n} (hs : t.Sound) {h : UInt32} (hh : h ∈ t.live)
    (code : Int32) : (t.closeHandle h code).2.free = t.free + 1 := by
  obtain ⟨hlt, hne⟩ := hs.taken h hh
  have hset : t.taken.setIfInBounds h.toNat 0 = t.taken.set h.toNat 0 hlt := by
    ext i hi
    rw [Vector.getElem_setIfInBounds, Vector.getElem_set]
  change (t.taken.setIfInBounds h.toNat 0).count 0 = t.taken.count 0 + 1
  rw [hset, Vector.count_set, if_neg (by simpa using hne), if_pos (by decide)]
  rfl

theorem Sound.closeHandle {t : HandleTable n} (hs : t.Sound) {h : UInt32} (hh : h ∈ t.live)
    (code : Int32) : (t.closeHandle h code).2.Sound := by
  obtain ⟨hlt, _⟩ := hs.taken h hh
  refine ⟨hs.nodup.erase h, fun h' hh' => ?_⟩
  obtain ⟨hneh, hmem⟩ := (List.Nodup.mem_erase_iff hs.nodup).mp hh'
  obtain ⟨hlt', hne'⟩ := hs.taken h' hmem
  refine ⟨hlt', ?_⟩
  change (t.taken.setIfInBounds h.toNat 0)[h'.toNat] ≠ 0
  rw [Vector.getElem_setIfInBounds, if_neg fun he => hneh (UInt32.toNat_inj.mp he).symm]
  exact hne'

theorem Exact.closeHandle {t : HandleTable n} (hs : t.Sound) (hexact : t.Exact) {h : UInt32}
    (hh : h ∈ t.live) (code : Int32) : (t.closeHandle h code).2.Exact := by
  have hfree := free_closeHandle hs hh code
  have hpos := List.length_pos_of_mem hh
  have hlen : (t.closeHandle h code).2.live.length = t.live.length - 1 :=
    List.length_erase_of_mem hh
  unfold Exact at *
  omega

/-- An open keeps the count of an exact table unless littlefs fails after a handle was taken. -/
theorem exact_openHandle_iff (hn : n < 2 ^ 31) {t : HandleTable n} (hexact : t.Exact)
    (code : Int32) : (t.openHandle code).2.Exact ↔ ¬ t.Leaks code := by
  rcases openHandle_cases hn code t with ⟨hfree, ho⟩ | ⟨i, hi, hcode, ho⟩ | ⟨i, hi, hcode, ho⟩
  · rw [ho]
    exact ⟨fun _ h => absurd h.2 (by omega), fun _ => hexact⟩
  · have hset := free_set_one i hi
    have hlt : ¬ (t.taken.set i 1).count 0 + t.live.length = n := by
      unfold Exact at hexact
      omega
    rw [ho]
    exact ⟨fun h => absurd h hlt, fun h => absurd ⟨hcode, by omega⟩ h⟩
  · have hset := free_set_one i hi
    have heq : (t.taken.set i 1).count 0 + (t.live.length + 1) = n := by
      unfold Exact at hexact
      omega
    rw [ho]
    exact ⟨fun _ h => hcode h.1, fun _ => heq⟩

/-- An open that returns an error and does not leak leaves the flags as they were. -/
theorem taken_openHandle_of_error (hn : n < 2 ^ 31) {t : HandleTable n} {code : Int32}
    (hleak : ¬ t.Leaks code) (herr : (t.openHandle code).1.toInt32 < 0) :
    (t.openHandle code).2.taken = t.taken := by
  rcases openHandle_cases hn code t with ⟨_, ho⟩ | ⟨i, hi, hcode, _⟩ | ⟨i, _, _, ho⟩
  · rw [ho]
  · have hset := free_set_one i hi
    exact absurd ⟨hcode, by omega⟩ hleak
  · rw [ho] at herr
    exact absurd herr (ofNat_fin_not_neg hn i)

/-- An exact table with fewer than `n` open handles has one to give. -/
theorem allocate_ne_of_exact (hn : n < 2 ^ 31) {t : HandleTable n} (hexact : t.Exact)
    (hlt : t.live.length < n) : t.allocate.1 ≠ -1 := by
  rcases t.allocate_cases with ⟨i, _, ha⟩ | ⟨hfree, _⟩
  · rw [ha]
    exact ofNat_fin_ne hn i
  · unfold Exact at hexact
    omega

end HandleTable

structure FsState where
  files : HandleTable maxFileHandles
  dirs : HandleTable maxDirHandles

namespace FsState

def onFiles {α : Type} (f : HandleTable maxFileHandles → α × HandleTable maxFileHandles)
    (s : FsState) : α × FsState :=
  ((f s.files).1, { s with files := (f s.files).2 })

def onDirs {α : Type} (f : HandleTable maxDirHandles → α × HandleTable maxDirHandles)
    (s : FsState) : α × FsState :=
  ((f s.dirs).1, { s with dirs := (f s.dirs).2 })

def start : FsState := ⟨.empty, .empty⟩

def Exact (s : FsState) : Prop := s.files.Exact ∧ s.dirs.Exact

def Sound (s : FsState) : Prop := s.files.Sound ∧ s.dirs.Sound

end FsState

def allocateFh : FsState → UInt32 × FsState := FsState.onFiles HandleTable.allocate

def allocateDh : FsState → UInt32 × FsState := FsState.onDirs HandleTable.allocate

def flashfsFileOpen (code : Int32) : FsState → UInt32 × FsState :=
  FsState.onFiles (HandleTable.openHandle code)

def flashfsFileClose (fh : UInt32) (code : Int32) : FsState → UInt32 × FsState :=
  FsState.onFiles (HandleTable.closeHandle fh code)

def flashfsDirOpen (code : Int32) : FsState → UInt32 × FsState :=
  FsState.onDirs (HandleTable.openHandle code)

def flashfsDirClose (dh : UInt32) (code : Int32) : FsState → UInt32 × FsState :=
  FsState.onDirs (HandleTable.closeHandle dh code)

/-- A call, with the code that littlefs returns if it is called. -/
inductive FsCall
  | fileOpen (code : Int32)
  | fileClose (fh : UInt32) (code : Int32)
  | dirOpen (code : Int32)
  | dirClose (dh : UInt32) (code : Int32)

namespace FsCall

def run : FsCall → FsState → UInt32 × FsState
  | fileOpen code => flashfsFileOpen code
  | fileClose fh code => flashfsFileClose fh code
  | dirOpen code => flashfsDirOpen code
  | dirClose dh code => flashfsDirClose dh code

/-- Closes are applied to open handles. -/
def Live : FsCall → FsState → Prop
  | fileClose fh _, s => fh ∈ s.files.live
  | dirClose dh _, s => dh ∈ s.dirs.live
  | _, _ => True

def Leaks : FsCall → FsState → Prop
  | fileOpen code, s => s.files.Leaks code
  | dirOpen code, s => s.dirs.Leaks code
  | _, _ => False

def isOpen : FsCall → Bool
  | fileOpen _ | dirOpen _ => true
  | fileClose _ _ | dirClose _ _ => false

/-- After the call the free handles are those not open, an open that returned an error has left the
flags alone, and the next open finds a handle unless ten are open. -/
structure Kept (call : FsCall) (s : FsState) : Prop where
  exact : (call.run s).2.Exact
  error : call.isOpen → (call.run s).1.toInt32 < 0 →
    (call.run s).2.files.taken = s.files.taken ∧ (call.run s).2.dirs.taken = s.dirs.taken
  file : (call.run s).2.files.live.length < maxFileHandles → (allocateFh (call.run s).2).1 ≠ -1
  dir : (call.run s).2.dirs.live.length < maxDirHandles → (allocateDh (call.run s).2).1 ≠ -1

theorem sound_run {s : FsState} (hs : s.Sound) (call : FsCall) (hlive : call.Live s) :
    (call.run s).2.Sound := by
  cases call with
  | fileOpen code => exact ⟨hs.1.openHandle (by decide) code, hs.2⟩
  | fileClose fh code => exact ⟨hs.1.closeHandle hlive code, hs.2⟩
  | dirOpen code => exact ⟨hs.1, hs.2.openHandle (by decide) code⟩
  | dirClose dh code => exact ⟨hs.1, hs.2.closeHandle hlive code⟩

theorem exact_run_iff {s : FsState} (hs : s.Sound) (hexact : s.Exact) (call : FsCall)
    (hlive : call.Live s) : (call.run s).2.Exact ↔ ¬ call.Leaks s := by
  cases call with
  | fileOpen code =>
    have h := HandleTable.exact_openHandle_iff (by decide) hexact.1 code
    exact ⟨fun he => h.mp he.1, fun hl => ⟨h.mpr hl, hexact.2⟩⟩
  | fileClose fh code =>
    exact ⟨fun _ h => h, fun _ =>
      ⟨HandleTable.Exact.closeHandle hs.1 hexact.1 hlive code, hexact.2⟩⟩
  | dirOpen code =>
    have h := HandleTable.exact_openHandle_iff (by decide) hexact.2 code
    exact ⟨fun he => h.mp he.2, fun hl => ⟨hexact.1, h.mpr hl⟩⟩
  | dirClose dh code =>
    exact ⟨fun _ h => h, fun _ =>
      ⟨hexact.1, HandleTable.Exact.closeHandle hs.2 hexact.2 hlive code⟩⟩

/-- A call keeps the books of an exact state exactly when it does not leak. -/
theorem kept_iff {s : FsState} (hs : s.Sound) (hexact : s.Exact) (call : FsCall)
    (hlive : call.Live s) : call.Kept s ↔ ¬ call.Leaks s := by
  have hiff := exact_run_iff hs hexact call hlive
  refine ⟨fun h => hiff.mp h.exact, fun hleak => ?_⟩
  have hnext := hiff.mpr hleak
  refine ⟨hnext, fun hopen herr => ?_, fun hlt => ?_, fun hlt => ?_⟩
  · cases call with
    | fileOpen code =>
      exact ⟨HandleTable.taken_openHandle_of_error (by decide) hleak herr, rfl⟩
    | dirOpen code =>
      exact ⟨rfl, HandleTable.taken_openHandle_of_error (by decide) hleak herr⟩
    | fileClose fh code => cases hopen
    | dirClose dh code => cases hopen
  · exact HandleTable.allocate_ne_of_exact (by decide) hnext.1 hlt
  · exact HandleTable.allocate_ne_of_exact (by decide) hnext.2 hlt

end FsCall

/-- Every call of a sequence satisfies `P` in the state in which it is made. -/
def AllCalls (P : FsCall → FsState → Prop) : FsState → List FsCall → Prop
  | _, [] => True
  | s, call :: rest => P call s ∧ AllCalls P (call.run s).2 rest

/-- The handle bookkeeping stays exact through a sequence of calls if and only if none of its opens
fails in littlefs while a handle is free. -/
theorem kept_iff_not_leaks (calls : List FsCall) (s : FsState) (hs : s.Sound) (hexact : s.Exact)
    (hlive : AllCalls FsCall.Live s calls) :
    AllCalls FsCall.Kept s calls ↔ AllCalls (fun call s => ¬ call.Leaks s) s calls := by
  induction calls generalizing s with
  | nil => exact Iff.rfl
  | cons call rest ih =>
    have hiff := FsCall.kept_iff hs hexact call hlive.1
    have hsound := FsCall.sound_run hs call hlive.1
    constructor
    · intro h
      exact ⟨hiff.mp h.1, (ih _ hsound h.1.exact hlive.2).mp h.2⟩
    · intro h
      have hkept := hiff.mpr h.1
      exact ⟨hkept, (ih _ hsound hkept.exact hlive.2).mpr h.2⟩

theorem start_sound : FsState.start.Sound :=
  ⟨⟨List.nodup_nil, fun _ h => absurd h List.not_mem_nil⟩,
    ⟨List.nodup_nil, fun _ h => absurd h List.not_mem_nil⟩⟩

theorem start_exact : FsState.start.Exact := ⟨rfl, rfl⟩

theorem kept_iff_not_leaks_open_close :
    AllCalls FsCall.Kept FsState.start [.fileOpen 0, .fileClose 0 0] ↔
      AllCalls (fun call s => ¬ call.Leaks s) FsState.start [.fileOpen 0, .fileClose 0 0] :=
  kept_iff_not_leaks [.fileOpen 0, .fileClose 0 0] FsState.start start_sound start_exact
    ⟨trivial, List.mem_singleton.mpr rfl, trivial⟩

/-- The table after ten opens that littlefs refuses. -/
def tenFailedOpens : FsState := (fun s => (flashfsFileOpen (-2) s).2)^[10] FsState.start

/-- One failed open already loses a handle, and after ten of them the next open finds none although
no file is open. -/
theorem failed_open_not_kept :
    AllCalls FsCall.Live FsState.start [.fileOpen (-2)] ∧
      ¬ AllCalls FsCall.Kept FsState.start [.fileOpen (-2)] ∧
      tenFailedOpens.files.live = [] ∧ (flashfsFileOpen 0 tenFailedOpens).1 = -1 := by
  let s := ((FsCall.fileOpen (-2)).run FsState.start).2
  have hcount : s.files.free = 9 := by decide +kernel
  have hnone : tenFailedOpens.files.live = [] := by decide +kernel
  have hlast : (flashfsFileOpen 0 tenFailedOpens).1 = -1 := by decide +kernel
  refine ⟨⟨trivial, trivial⟩, fun h => ?_, hnone, hlast⟩
  have hexact : s.files.free + 0 = 10 := h.1.exact.1
  omega

end Not232
