import Not232.LfsCtz

/-!
# Reading a file

A file handle keeps a position, the block that holds it and an offset in that block. A read walks
through the blocks, and a seek inside the cached window of a block only moves the offset. Abstractly
the handle is a position in an array of bytes, which every sequence of reads and seeks refines.
-/

namespace Not232

def lfsFileMax : ℕ := 2147483647

/-- The handle of a file that is in blocks of its own and is only read. -/
structure LfsFile where
  head : UInt32
  size : ℕ
  pos : ℕ
  reading : Bool
  block : UInt32
  off : ℕ
  cache : LfsCache

/-- A turn looks for the block of the position if it is not in the block that is read. -/
def fileBlock (f : Flash) (file : LfsFile) : Option (Int32 × LfsFile) :=
  if file.reading = false ∨ file.off = blockSize then
    match lfsCtzFind f none file.cache file.head file.size file.pos with
    | none => none
    | some (err, block, off, cache) =>
      if err ≠ 0 then some (err, { file with cache := cache })
      else some (0, { file with block := block, off := off, cache := cache, reading := true })
  else some (0, file)

/-- The loop of `lfs_file_flushedread`, if `fuel` turns are enough. -/
def flushedreadLoop (f : Flash) :
    (fuel nsize : ℕ) → LfsFile → Option (Except Int32 (List UInt8) × LfsFile)
  | fuel, nsize, file =>
    if nsize = 0 then some (.ok [], file)
    else
      match fuel with
      | 0 => none
      | fuel + 1 =>
        match fileBlock f file with
        | none => none
        | some (err, file) =>
          if err ≠ 0 then some (.error err, file)
          else
            let diff := min nsize (blockSize - file.off)
            match lfsBdRead f none file.cache blockSize file.block file.off diff with
            | none => none
            | some (err, data, cache) =>
              let file := { file with cache := cache }
              if err ≠ 0 then some (.error err, file)
              else
                (flushedreadLoop f fuel (nsize - diff)
                    { file with pos := file.pos + diff, off := file.off + diff }).map
                  fun r => (r.1.map (data ++ ·), r.2)

/-- The bytes that are read, as many as are returned. -/
def lfsFileFlushedread (f : Flash) (size : ℕ) (file : LfsFile) :
    Option (Except Int32 (List UInt8) × LfsFile) :=
  if file.pos ≥ file.size then some (.ok [], file)
  else
    let size := min size (file.size - file.pos)
    flushedreadLoop f size size file

def lfsFileFlush (file : LfsFile) : LfsFile :=
  if file.reading then { file with cache := file.cache.drop, reading := false } else file

/-- The position that a seek asks for. -/
def seekTarget (off whence pos size : ℕ) : ℕ :=
  if whence = 0 then off
  else if whence = 1 then (pos + off) % 2 ^ 32
  else if whence = 2 then (size + off) % 2 ^ 32
  else pos

/-- The position afterwards, or an error. -/
def lfsFileSeek (off whence : ℕ) (file : LfsFile) : Except Int32 ℕ × LfsFile :=
  let npos := seekTarget off whence file.pos file.size
  if npos > lfsFileMax then (.error lfsErrInval, file)
  else if file.pos = npos then (.ok npos, file)
  else if file.reading = true ∧ file.off ≠ blockSize ∧
      (lfsCtzIndex file.pos).1 = (lfsCtzIndex npos).1 ∧ (lfsCtzIndex npos).2 ≥ file.cache.off ∧
      (lfsCtzIndex npos).2 < file.cache.off + file.cache.size then
    (.ok npos, { file with pos := npos, off := (lfsCtzIndex npos).2 })
  else (.ok npos, { lfsFileFlush file with pos := npos })

inductive FileCall
  | read (size : ℕ)
  | seek (off whence : ℕ)

inductive FileReply
  | bytes (r : Except Int32 (List UInt8))
  | pos (r : Except Int32 ℕ)

def FileCall.run (f : Flash) (file : LfsFile) : FileCall → Option (FileReply × LfsFile)
  | read size => (lfsFileFlushedread f size file).map fun r => (.bytes r.1, r.2)
  | seek off whence =>
    some (.pos (lfsFileSeek off whence file).1, (lfsFileSeek off whence file).2)

def runFile (f : Flash) : List FileCall → LfsFile → Option (List FileReply × LfsFile)
  | [], file => some ([], file)
  | c :: calls, file =>
    match c.run f file with
    | none => none
    | some (reply, file) => (runFile f calls file).map fun r => (reply :: r.1, r.2)

/-! ### A position in an array -/

/-- What a call returns for an array of bytes, and the position afterwards. -/
def FileCall.spec (data : List UInt8) (pos : ℕ) : FileCall → FileReply × ℕ
  | read size =>
    (.bytes (.ok ((data.drop pos).take size)), pos + ((data.drop pos).take size).length)
  | seek off whence =>
    if seekTarget off whence pos data.length > lfsFileMax then (.pos (.error lfsErrInval), pos)
    else
      (.pos (.ok (seekTarget off whence pos data.length)), seekTarget off whence pos data.length)

def specFile (data : List UInt8) : List FileCall → ℕ → List FileReply
  | [], _ => []
  | c :: calls, pos => (c.spec data pos).1 :: specFile data calls (c.spec data pos).2

/-- The blocks hold the bytes of a file. -/
structure StoredFile (stored : Programmed) (node : ℕ → UInt32) (data : List UInt8) : Prop where
  length : data.length ≤ lfsFileMax
  list : ∀ n last, 0 < data.length → CtzAt (data.length - 1) n last → CtzList stored node n
  content : ∀ pos i off, pos < data.length → CtzAt pos i off → stored (node i) off = data[pos]?

/-- A file of one block. -/
theorem StoredFile.single {stored : Programmed} {block : UInt32} {data : List UInt8}
    (hblock : block < 40) (hlength : data.length ≤ 4096)
    (hstored : ∀ o < data.length, stored block o = data[o]?) :
    StoredFile stored (fun _ => block) data where
  length := by
    have hmax : lfsFileMax = 2147483647 := rfl
    omega
  list := by
    intro n last hpos hlast
    obtain rfl : n = 0 := hlast.index_eq (ctzAt_first (by omega))
    exact ⟨fun _ _ => hblock, fun i hi _ _ hpositive => absurd hpositive (Nat.not_lt.mpr hi)⟩
  content := by
    intro pos i off hpos hat
    have hfirst := ctzAt_first (by omega : pos < 4096)
    obtain rfl : i = 0 := hat.index_eq hfirst
    rw [hat.off, ← hfirst.off]
    exact hstored pos hpos

/-- The handle is at a position of the file. -/
structure OpenAt (stored : Programmed) (node : ℕ → UInt32) (data : List UInt8) (pos : ℕ)
    (file : LfsFile) : Prop where
  head : ∀ n last, 0 < data.length → CtzAt (data.length - 1) n last → file.head = node n
  size : file.size = data.length
  position : file.pos = pos
  max : pos ≤ lfsFileMax
  coherent : Coherent stored file.cache
  reading : file.reading = true → ∃ i < 2 ^ 32, node i < 40 ∧ file.block = node i ∧
    ctzStart i ≤ pos ∧ pos ≤ ctzStart (i + 1) ∧ file.off = ctzHeader i + (pos - ctzStart i)

section Read

variable {stored : Programmed} {f : Flash} {node : ℕ → UInt32} {data : List UInt8} {pos : ℕ}
  {file : LfsFile}

theorem overlay_none (stored : Programmed) : overlay none stored = stored := rfl

/-- Where the offset is inside the block, the position is in it. -/
theorem ctzAt_of_off {i off : ℕ} (hi : i < 2 ^ 32) (hstart : ctzStart i ≤ pos)
    (hstop : pos ≤ ctzStart (i + 1)) (hoff : off = ctzHeader i + (pos - ctzStart i)) :
    off ≤ 4096 ∧ (off ≠ 4096 → CtzAt pos i off) := by
  have hheader := ctzHeader_le hi
  have hsucc := ctzStart_succ i
  have hblock : blockSize = 4096 := rfl
  refine ⟨by omega, fun hne => ⟨hstart, by omega, hoff⟩⟩

/-- Behind the search the handle is in the block of its position. -/
theorem fileBlock_finds (hstores : Stores stored f) (hfile : StoredFile stored node data)
    (hopen : OpenAt stored node data pos file) (hpos : pos < data.length) :
    ∃ i file', fileBlock f file = some (0, file') ∧ OpenAt stored node data pos file' ∧
      i < 2 ^ 32 ∧ node i < 40 ∧ file'.block = node i ∧ CtzAt pos i file'.off := by
  have hmax : data.length ≤ 2147483647 := hfile.length
  have hword : data.length - 1 < 2 ^ 32 := by omega
  by_cases hsearch : file.reading = false ∨ file.off = blockSize
  · have hlast : CtzAt (data.length - 1) _ _ := lfsCtzIndex_at hword
    have hat : CtzAt pos _ _ := lfsCtzIndex_at (by omega)
    have hlist := hfile.list _ _ (by omega) hlast
    have hi : (lfsCtzIndex pos).1 < 2 ^ 32 := lfsCtzIndex_lt (by omega)
    have hnone : ∀ p ∈ (none : Option LfsCache), p.off % 2 = 0 := by
      intro p hp
      cases hp
    have hblock := hlist.block _ (hat.index_mono hlast (by omega))
    rw [← overlay_none stored] at hlist
    obtain ⟨cache, hfind, hcoherent⟩ := lfsCtzFind_finds hstores hnone hlist (by omega) hlast hpos
      hat hopen.coherent
    refine ⟨_, { file with
      block := node (lfsCtzIndex pos).1, off := (lfsCtzIndex pos).2, cache := cache,
      reading := true }, ?_, ⟨hopen.head, hopen.size, hopen.position, hopen.max, hcoherent, fun _ =>
        ⟨_, hi, hblock, rfl, hat.start, hat.stop.le, hat.off⟩⟩, hi, hblock, rfl, hat⟩
    rw [fileBlock, if_pos hsearch, hopen.size, hopen.position, hopen.head _ _ (by omega) hlast,
      hfind]
    rfl
  · have hreading : file.reading = true := by
      by_contra hne
      exact hsearch (.inl (Bool.eq_false_iff.mpr hne))
    have hoff : file.off ≠ 4096 := fun h => hsearch (.inr h)
    obtain ⟨i, hi, hblock, hb, hstart, hstop, heq⟩ := hopen.reading hreading
    have hat := (ctzAt_of_off hi hstart hstop heq).2 hoff
    exact ⟨i, file, by rw [fileBlock, if_neg hsearch], hopen, hi, hblock, hb, hat⟩

/-- The bytes of a block are those of the file. -/
theorem eq_take_drop (hfile : StoredFile stored node data) {i off diff : ℕ} {bytes : List UInt8}
    (hi : i < 2 ^ 32) (hat : CtzAt pos i off) (hdiff : off + diff ≤ 4096)
    (hend : pos + diff ≤ data.length) (hlength : bytes.length = diff)
    (hagrees : Agrees stored (node i) off bytes) : bytes = (data.drop pos).take diff := by
  apply List.ext_getElem?
  intro j
  by_cases hj : j < diff
  · have hheader := ctzHeader_le hi
    have hsucc := ctzStart_succ i
    have hblock : blockSize = 4096 := rfl
    have hstart := hat.start
    have hoff := hat.off
    have hat' : CtzAt (pos + j) i (off + j) := ⟨by omega, by omega, by omega⟩
    have hin : pos + j < data.length := by omega
    have hcontent := hfile.content (pos + j) i (off + j) hin hat'
    rw [List.getElem?_take_of_lt hj, List.getElem?_drop]
    rw [List.getElem?_eq_getElem hin] at hcontent ⊢
    exact hagrees j (by omega) _ hcontent
  · rw [List.getElem?_eq_none (by omega),
      List.getElem?_eq_none (by rw [List.length_take]; omega)]

theorem flushedreadLoop_reads (hstores : Stores stored f) (hfile : StoredFile stored node data)
    (fuel nsize pos : ℕ) (file : LfsFile) (hopen : OpenAt stored node data pos file)
    (hend : pos + nsize ≤ data.length) (hfuel : nsize ≤ fuel) :
    ∃ file', flushedreadLoop f fuel nsize file = some (.ok ((data.drop pos).take nsize), file') ∧
      OpenAt stored node data (pos + nsize) file' := by
  induction fuel generalizing nsize pos file with
  | zero =>
    obtain rfl : nsize = 0 := by omega
    exact ⟨file, by rw [flushedreadLoop, if_pos rfl, List.take_zero], hopen⟩
  | succ fuel ih =>
    by_cases hsize : nsize = 0
    · subst hsize
      exact ⟨file, by rw [flushedreadLoop, if_pos rfl, List.take_zero], hopen⟩
    obtain ⟨i, file', hfind, hopen', hi, hblock, hb, hat⟩ :=
      fileBlock_finds hstores hfile hopen (by omega)
    have hoff := (hat.off_lt hi).2
    generalize hdiff : min nsize (blockSize - file'.off) = diff
    have hblockSize : blockSize = 4096 := rfl
    have hfits : file'.off + diff ≤ 4096 := by omega
    have hnone : ∀ p ∈ (none : Option LfsCache), p.off % 2 = 0 := by
      intro p hp
      cases hp
    obtain ⟨bytes, cache, hread, hlength, hagrees, hcoherent⟩ :=
      lfsBdRead_reads hstores hblock (by decide : 1 ≤ blockSize) (by decide) hnone hfits
        hopen'.coherent
    have hbytes := eq_take_drop hfile hi hat hfits (by omega) hlength hagrees
    rw [← hb] at hread
    have hheader := ctzHeader_le hi
    have hsucc := ctzStart_succ i
    have hstart := hat.start
    have hoffset := hat.off
    have hmax : pos + diff ≤ lfsFileMax := by
      have hle := hfile.length
      omega
    obtain ⟨file'', hloop, hopen''⟩ := ih (nsize - diff) (pos + diff)
      { file' with cache := cache, pos := file'.pos + diff, off := file'.off + diff }
      ⟨hopen'.head, hopen'.size, by rw [← hopen'.position], hmax, hcoherent, fun _ =>
        ⟨i, hi, hblock, hb, by omega, by omega, by dsimp only; omega⟩⟩ (by omega) (by omega)
    have hsum : pos + diff + (nsize - diff) = pos + nsize := by omega
    rw [hsum] at hopen''
    refine ⟨file'', ?_, hopen''⟩
    have hsplit : (data.drop pos).take nsize =
        (data.drop pos).take diff ++ (data.drop (pos + diff)).take (nsize - diff) := by
      rw [← List.drop_drop, ← List.take_add]
      congr 1
      omega
    rw [flushedreadLoop, if_neg hsize]
    dsimp only
    rw [hfind]
    dsimp only
    rw [if_neg (by decide), hdiff, hread]
    dsimp only
    rw [if_neg (by decide), hloop, Option.map_some, hsplit, hbytes]
    rfl

/-- A read at the end of the file or behind it returns nothing. -/
theorem lfsFileFlushedread_reads (hstores : Stores stored f) (hfile : StoredFile stored node data)
    (hopen : OpenAt stored node data pos file) (size : ℕ) :
    ∃ file', lfsFileFlushedread f size file = some (.ok ((data.drop pos).take size), file') ∧
      OpenAt stored node data (pos + ((data.drop pos).take size).length) file' := by
  have hlength : ((data.drop pos).take size).length = min size (data.length - pos) := by
    rw [List.length_take, List.length_drop]
  rw [lfsFileFlushedread, hopen.size, hopen.position, hlength]
  by_cases hend : pos ≥ data.length
  · have hnone : data.drop pos = [] := List.drop_eq_nil_of_le hend
    have hzero : min size (data.length - pos) = 0 := by omega
    rw [if_pos hend, hnone, List.take_nil, hzero]
    exact ⟨file, rfl, hopen⟩
  · rw [if_neg hend]
    have hclip : (data.drop pos).take size =
        (data.drop pos).take (min size (data.length - pos)) := by
      rw [← List.length_drop, List.take_eq_take_min]
    rw [hclip]
    exact flushedreadLoop_reads hstores hfile _ _ pos file hopen (by omega) le_rfl

/-- A seek inside the cached window keeps the block; any other seek gives it up. -/
theorem lfsFileSeek_seeks (hopen : OpenAt stored node data pos file) (off whence : ℕ) :
    (FileReply.pos (lfsFileSeek off whence file).1, ((FileCall.seek off whence).spec data pos).2) =
        (FileCall.seek off whence).spec data pos ∧
      OpenAt stored node data ((FileCall.seek off whence).spec data pos).2
        (lfsFileSeek off whence file).2 := by
  have hposition := hopen.position
  have hsize := hopen.size
  rw [lfsFileSeek, FileCall.spec, hposition, hsize]
  generalize seekTarget off whence pos data.length = npos
  dsimp only
  by_cases hmax : npos > lfsFileMax
  · rw [if_pos hmax, if_pos hmax]
    exact ⟨rfl, hopen⟩
  rw [if_neg hmax, if_neg hmax]
  have hle : npos ≤ lfsFileMax := Nat.le_of_not_lt hmax
  by_cases hsame : pos = npos
  · subst hsame
    rw [if_pos rfl]
    exact ⟨rfl, hopen⟩
  rw [if_neg hsame]
  by_cases hstays : file.reading = true ∧ file.off ≠ blockSize ∧
      (lfsCtzIndex pos).1 = (lfsCtzIndex npos).1 ∧ (lfsCtzIndex npos).2 ≥ file.cache.off ∧
      (lfsCtzIndex npos).2 < file.cache.off + file.cache.size
  · rw [if_pos hstays]
    refine ⟨rfl, hopen.head, rfl, rfl, hle, hopen.coherent, fun _ => ?_⟩
    obtain ⟨hreading, hoff, hindex, -⟩ := hstays
    obtain ⟨i, hi, hblock, hb, hstart, hstop, heq⟩ := hopen.reading hreading
    have hat := (ctzAt_of_off hi hstart hstop heq).2 hoff
    have hbound := hopen.max
    have hword : lfsFileMax < 2 ^ 32 := by decide
    have hat' : CtzAt npos _ _ := lfsCtzIndex_at (by omega)
    have hat'' : CtzAt pos _ _ := lfsCtzIndex_at (by omega)
    have hi' : (lfsCtzIndex npos).1 = i := hindex.symm.trans (hat''.index_eq hat)
    rw [hi'] at hat'
    exact ⟨i, hi, hblock, hb, hat'.start, hat'.stop.le, hat'.off⟩
  · rw [if_neg hstays]
    refine ⟨rfl, ?_⟩
    rw [lfsFileFlush]
    by_cases hreading : file.reading = true
    · rw [if_pos hreading]
      refine ⟨hopen.head, hsize, rfl, hle, ⟨hopen.coherent.even, ?_⟩, fun h => by cases h⟩
      rintro b hb o v ⟨hnull, -⟩
      change b = lfsBlockNull at hnull
      rw [hnull] at hb
      exact absurd hb (by decide)
    · rw [if_neg hreading]
      exact ⟨hopen.head, hsize, rfl, hle, hopen.coherent, fun h => absurd h hreading⟩

theorem FileCall.run_spec (hstores : Stores stored f) (hfile : StoredFile stored node data)
    (hopen : OpenAt stored node data pos file) (c : FileCall) :
    ∃ file', c.run f file = some ((c.spec data pos).1, file') ∧
      OpenAt stored node data (c.spec data pos).2 file' := by
  cases c with
  | read size =>
    obtain ⟨file', hread, hopen'⟩ := lfsFileFlushedread_reads hstores hfile hopen size
    exact ⟨file', by rw [FileCall.run, hread]; rfl, hopen'⟩
  | seek off whence =>
    obtain ⟨hreply, hopen'⟩ := lfsFileSeek_seeks hopen off whence
    exact ⟨_, by rw [FileCall.run, ← hreply], hopen'⟩

/-- Every sequence of reads and seeks on a file in the flash returns what it would return on the
array of its bytes. -/
theorem file_reads (hstores : Stores stored f) (hfile : StoredFile stored node data)
    (hopen : OpenAt stored node data pos file) (calls : List FileCall) :
    ∃ file', runFile f calls file = some (specFile data calls pos, file') := by
  induction calls generalizing pos file with
  | nil => exact ⟨file, rfl⟩
  | cons c calls ih =>
    obtain ⟨file', hrun, hopen'⟩ := c.run_spec hstores hfile hopen
    obtain ⟨file'', hrest⟩ := ih hopen'
    refine ⟨file'', ?_⟩
    rw [runFile, hrun]
    dsimp only
    rw [hrest, Option.map_some, specFile]

end Read

/-- Three bytes in one block. -/
theorem file_reads_three :
    ∃ file', runFile ⟨fun a => [7, 8, 9].getD (a - blockAddr 5) 0, fun _ => false, true⟩
        [.read 2, .seek 1 0, .read 5] ⟨5, 3, 0, false, 0, 0, ⟨lfsBlockNull, 0, 0, fun _ => 0xFF⟩⟩ =
      some (specFile [7, 8, 9] [.read 2, .seek 1 0, .read 5] 0, file') := by
  have hstores : Stores (fun b o => if b = 5 then [7, 8, 9][o]? else none)
      ⟨fun a => [7, 8, 9].getD (a - blockAddr 5) 0, fun _ => false, true⟩ := by
    refine ⟨rfl, fun b _ o _ v hv => ⟨?_, rfl⟩⟩
    by_cases hb : b = 5
    · subst hb
      rw [if_pos rfl] at hv
      dsimp only
      rw [Nat.add_sub_cancel_left, List.getD_eq_getElem?_getD, hv, Option.getD_some]
    · rw [if_neg hb] at hv
      cases hv
  have hfile : StoredFile (fun b o => if b = 5 then [7, 8, 9][o]? else none) (fun _ => 5)
      [7, 8, 9] := .single (by decide) (by decide) fun _ _ => if_pos rfl
  refine file_reads hstores hfile ⟨fun _ _ _ _ => rfl, rfl, rfl, by decide, ⟨rfl, ?_⟩,
    fun h => by cases h⟩ _
  rintro b hb o v ⟨rfl, -⟩
  exact absurd hb (by decide)

end Not232
