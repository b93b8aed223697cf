import LinuxRecovery.BasicRead

namespace LinuxRecovery.BlockScan

open Loops Libmtd BlockMap BasicWrite

inductive OperationMethod where
  | partition
  | random
  deriving DecidableEq

variable (dev : Device) (mtd : MtdDevInfo) (noskipbad : Bool) (method : OperationMethod)

structure ScanCursor where
  eb : ℕ
  pass : ℕ
  st : BmState

def ScanCursor.exit (startEb : ℕ) (c : ScanCursor) : Ret × BmState :=
  if method ≠ .partition ∧ mtd.ebCnt ≤ c.eb then (.fail, c.st)
  else (.off ((c.eb - startEb + 1) * mtd.ebSize), c.st)

def scanPass (startEb totalBytes : ℕ) (c : ScanCursor) : Step ScanCursor (Ret × BmState) :=
  let pass := c.pass + mtd.ebSize
  if totalBytes ≤ pass then .done (c.exit mtd method startEb)
  else .next { c with eb := c.eb + 1, pass := pass }

def scanStep (startEb totalBytes : ℕ) (c : ScanCursor) : Step ScanCursor (Ret × BmState) :=
  if mtd.ebCnt ≤ c.eb then .done (c.exit mtd method startEb)
  else
    let eb := mtdEbRelativeToAbsolute mtd c.eb
    if mtdBmBlockMapIsTaged c.st eb && !mtdBmBlockMapIsBad c.st eb then
      scanPass mtd method startEb totalBytes c
    else
      let c := { c with st := mtdBmBlockMapSet eb .scan c.st }
      if mtd.type = .norflash ∨ noskipbad = true then scanPass mtd method startEb totalBytes c
      else
        let (reply, chip) := mtdIsBad dev mtd c.eb c.st.toChip
        let c := { c with st := { c.st with toChip := chip } }
        match reply with
        | .good => scanPass mtd method startEb totalBytes c
        | .bad => .next { c with eb := c.eb + 1, st := mtdBmBlockMapSet eb .bad c.st }
        | .error => .done (.fail, c.st)
        | .unsupported => .done (.fail, c.st)

theorem scanPass_next {startEb totalBytes : ℕ} {c d : ScanCursor}
    (h : scanPass mtd method startEb totalBytes c = .next d) :
    d = { c with eb := c.eb + 1, pass := c.pass + mtd.ebSize } := by
  unfold scanPass at h
  dsimp only at h
  split_ifs at h
  cases h
  rfl

theorem scanPass_done {startEb totalBytes : ℕ} {c : ScanCursor} {r : Ret × BmState}
    (h : scanPass mtd method startEb totalBytes c = .done r) : r.2 = c.st := by
  unfold scanPass at h
  dsimp only at h
  split_ifs at h
  cases h
  unfold ScanCursor.exit
  split_ifs <;> rfl

inductive ScanMove (mtd : MtdDevInfo) (eb : ℕ) : BmState → BmState → Prop where
  | keep (st : BmState) : ScanMove mtd eb st st
  | tag (st : BmState) (calls : List DevCall) :
      ScanMove mtd eb st (mtdBmBlockMapSet (mtdEbRelativeToAbsolute mtd eb) .scan
        { st with toChip := ⟨st.mem, calls⟩ })
  | bad (st : BmState) (calls : List DevCall) :
      ScanMove mtd eb st (mtdBmBlockMapSet (mtdEbRelativeToAbsolute mtd eb) .bad
        (mtdBmBlockMapSet (mtdEbRelativeToAbsolute mtd eb) .scan { st with toChip := ⟨st.mem, calls⟩ }))

theorem mtdIsBad_mem (eb : ℕ) (s : Chip) : ∃ calls, (mtdIsBad dev mtd eb s).2 = ⟨s.mem, calls⟩ := by
  unfold mtdIsBad
  split_ifs
  · exact ⟨s.calls, rfl⟩
  · exact ⟨s.calls, rfl⟩
  · exact ⟨_, rfl⟩

theorem scanStep_next {startEb totalBytes : ℕ} {c d : ScanCursor}
    (h : scanStep dev mtd noskipbad method startEb totalBytes c = .next d) :
    c.eb < mtd.ebCnt ∧ d.eb = c.eb + 1 ∧ ScanMove mtd c.eb c.st d.st := by
  unfold scanStep at h
  dsimp only at h
  split_ifs at h with h1 h2 h3
  · obtain rfl := scanPass_next mtd method h
    exact ⟨by omega, rfl, .keep _⟩
  · obtain rfl := scanPass_next mtd method h
    exact ⟨by omega, rfl, .tag c.st c.st.calls⟩
  · obtain ⟨calls, hcalls⟩ := mtdIsBad_mem dev mtd c.eb c.st.toChip
    rw [set_toChip, hcalls] at h
    split at h
    · obtain rfl := scanPass_next mtd method h
      exact ⟨by omega, rfl, .tag c.st calls⟩
    · cases h
      exact ⟨by omega, rfl, .bad c.st calls⟩
    · cases h
    · cases h

def scanLoop (startEb totalBytes : ℕ) : Loop ScanCursor (Ret × BmState) where
  step := scanStep dev mtd noskipbad method startEb totalBytes
  measure c := mtd.ebCnt - c.eb
  decreasing := by
    intro c d h
    obtain ⟨hlt, heq, -⟩ := scanStep_next dev mtd noskipbad method h
    omega

/-- `capacity` is what the whole device holds: the size of the map when the first scan makes it. -/
def mtdBlockScan (capacity offset length : ℕ) (st : BmState) : Ret × BmState :=
  if method = .random ∧ length = 0 then (.fail, st)
  else
    let startEb := mtdOffsetToEbIndex mtd offset
    let endEb :=
      match method with
      | .partition => mtdOffsetToEbIndex mtd (mtd.start + mtd.size)
      | .random => mtdOffsetToEbIndex mtd (offset + length + mtd.ebSize - 1)
    let totalBytes := (endEb - startEb) * mtd.ebSize
    let first := mtdOffsetToEbIndex mtd mtd.start
    if startEb < first ∨ first + mtd.ebCnt < endEb then (.fail, st)
    else
      (scanLoop dev mtd noskipbad method (startEb - first) totalBytes).exec
        ⟨startEb - first, 0, mtdBmBlockMapInit (capacity / mtd.ebSize) st⟩

end LinuxRecovery.BlockScan
