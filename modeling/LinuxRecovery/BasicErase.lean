import LinuxRecovery.SysinfoSave

namespace LinuxRecovery.BasicErase

open Loops ByteMemory Libmtd BlockMap BasicWrite SysinfoSave

def jffs2Cleanmarker : List UInt8 := [0x85, 0x19, 0x03, 0x20, 0x0c, 0, 0, 0, 0xb1, 0xb0, 0x1e, 0xe4]

variable (dev : Device) (bm : PartInfo) (mtd : MtdDevInfo) (fs : FsKind)

structure EraseCursor where
  eb : ℕ
  erasedBytes : ℕ
  badUnlockNeraseEbs : ℕ
  st : BmState

def EraseCursor.withChip (c : EraseCursor) (chip : Chip) : EraseCursor :=
  { c with st := { c.st with toChip := chip } }

def EraseCursor.skipped (c : EraseCursor) : EraseCursor :=
  { c with eb := c.eb + 1, badUnlockNeraseEbs := c.badUnlockNeraseEbs + 1 }

def jffs2WriteCleanmarker (eb : ℕ) (s : Chip) : Option Errno × Chip :=
  let calls := s.calls ++ [.cleanMarker mtd.start eb]
  match dev.reply calls with
  | none =>
    let mem := if mtdTypeIsNand mtd then s.mem else writeBytes s.mem (address mtd eb 0) jffs2Cleanmarker
    (none, ⟨mem, calls⟩)
  | some e => (some e, { s with calls := calls })

def formatBlock (c : EraseCursor) : Step EraseCursor (Ret × BmState) :=
  let c := { c with st := mtdBmBlockMapSet (mtdEbRelativeToAbsolute mtd c.eb) .erased c.st }
  let next (c : EraseCursor) : Step EraseCursor (Ret × BmState) :=
    .next { c with eb := c.eb + 1, erasedBytes := c.erasedBytes + mtd.ebSize }
  if fs.isJffs2 then
    match jffs2WriteCleanmarker dev mtd c.eb c.st.toChip with
    | (none, chip) => next (c.withChip chip)
    | (some _, chip) => .done (.fail, (c.withChip chip).st)
  else next c

def eraseBlock (c : EraseCursor) : Step EraseCursor (Ret × BmState) :=
  match sysinfoTraversalSave dev bm (c.eb * mtd.ebSize + mtd.start) mtd.ebSize c.st with
  | (false, st) => .done (.fail, st)
  | (true, st) =>
    let (err, chip) := mtdErase dev mtd c.eb st.toChip
    let c := { c with st := { st with toChip := chip } }
    match err with
    | none => formatBlock dev mtd fs c
    | some .eio =>
      let (err, chip) := mtdMarkBad dev mtd c.eb c.st.toChip
      let c := c.withChip chip
      if err ≠ none then .done (.fail, c.st)
      else .next { c.skipped with st := mtdBmBlockMapSet (mtdEbRelativeToAbsolute mtd c.eb) .bad c.st }
    | some _ => .done (.fail, c.st)

def eraseExit (totalBytes : ℕ) (c : EraseCursor) : Ret × BmState :=
  if mtd.ebCnt ≤ c.eb ∧ c.erasedBytes + c.badUnlockNeraseEbs * mtd.ebSize < totalBytes then (.fail, c.st)
  else
    match setProcessInfo totalBytes with
    | none => (.trap, c.st)
    | some () => (.off (mtdEbRelativeToAbsolute mtd c.eb * mtd.ebSize), c.st)

def eraseStep (totalBytes : ℕ) (c : EraseCursor) : Step EraseCursor (Ret × BmState) :=
  if totalBytes ≤ c.erasedBytes ∨ mtd.ebCnt ≤ c.eb then .done (eraseExit mtd totalBytes c)
  else if (mtdTypeIsNand mtd && !fs.flag.noskipbad &&
      mtdBmBlockMapIsBad c.st (mtdEbRelativeToAbsolute mtd c.eb)) = true then .next c.skipped
  else if fs.flag.unlock = true then
    match mtdUnlock dev mtd c.eb c.st.toChip with
    | (none, chip) => eraseBlock dev bm mtd fs (c.withChip chip)
    | (some _, chip) => .next (c.withChip chip).skipped
  else eraseBlock dev bm mtd fs c

theorem formatBlock_next {c d : EraseCursor} (h : formatBlock dev mtd fs c = .next d) :
    d.eb = c.eb + 1 := by
  unfold formatBlock at h
  dsimp only at h
  split_ifs at h
  · split at h <;> cases h
    rfl
  · cases h
    rfl

theorem eraseBlock_next {c d : EraseCursor} (h : eraseBlock dev bm mtd fs c = .next d) :
    d.eb = c.eb + 1 := by
  unfold eraseBlock at h
  split at h
  · cases h
  · dsimp only at h
    split at h
    · have hd := formatBlock_next dev mtd fs h
      exact hd
    · split_ifs at h
      cases h
      rfl
    · cases h

theorem eraseStep_next {totalBytes : ℕ} {c d : EraseCursor}
    (h : eraseStep dev bm mtd fs totalBytes c = .next d) : c.eb < mtd.ebCnt ∧ d.eb = c.eb + 1 := by
  unfold eraseStep at h
  split_ifs at h with h1 h2 h3
  · cases h
    exact ⟨by omega, rfl⟩
  · split at h
    · have hd := eraseBlock_next dev bm mtd fs h
      exact ⟨by omega, hd⟩
    · cases h
      exact ⟨by omega, rfl⟩
  · exact ⟨by omega, eraseBlock_next dev bm mtd fs h⟩

def eraseLoop (totalBytes : ℕ) : Loop EraseCursor (Ret × BmState) where
  step := eraseStep dev bm mtd fs totalBytes
  measure c := mtd.ebCnt - c.eb
  decreasing := by
    intro c d h
    obtain ⟨hlt, heq⟩ := eraseStep_next dev bm mtd fs h
    omega

/-- The erase starts at the partition's own start, whatever `params->offset` says. A failure also closes the
partition's descriptor: the device then serves no request. -/
def mtdBasicErase (length : ℕ) (st : BmState) : Ret × BmState :=
  if fs.isJffs2 = true ∧ mtd.type = .mlcNandflash then (.fail, st)
  else if fs.isJffs2 = true ∧ mtdTypeIsNand mtd = true ∧ dev.oobInfo = false then (.fail, st)
  else
    let first := mtdOffsetToEbIndex mtd mtd.start
    let last := mtdOffsetToEbIndex mtd (mtdBlockAlign mtd (mtd.start + length + mtd.ebSize - 1))
    if mtd.ebCnt < last - first then (.fail, st)
    else if !mtdBmBlockMapIsValid st then (.fail, st)
    else
      let totalBytes := (last - first) * mtd.ebSize
      (eraseLoop dev bm mtd fs totalBytes).exec ⟨0, 0, 0, st⟩

end LinuxRecovery.BasicErase
