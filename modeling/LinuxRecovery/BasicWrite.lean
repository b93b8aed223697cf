import LinuxRecovery.GoodBlocks
import LinuxRecovery.Sysinfo

namespace LinuxRecovery.BasicWrite

open Loops ByteMemory GoodBlocks Libmtd BlockMap Sysinfo

structure FsFlags where
  noskipbad : Bool
  noecc : Bool
  autoplace : Bool
  writeoob : Bool
  pad : Bool
  markbad : Bool
  unlock : Bool
  deriving DecidableEq

/-- A registered file system: its flags and the tag size that overrides the chip's own. -/
structure FsKind where
  isJffs2 : Bool
  flag : FsFlags
  tagsize : ℕ
  deriving DecidableEq

def fsNormal : FsKind := ⟨false, ⟨false, false, false, false, true, true, false⟩, 0⟩

def fsCramfs : FsKind := ⟨false, ⟨false, false, false, false, true, true, false⟩, 0⟩

def fsJffs2 : FsKind := ⟨true, ⟨false, false, false, false, true, true, false⟩, 0⟩

def fsYaffs2 : FsKind := ⟨false, ⟨false, false, true, true, false, true, false⟩, 28⟩

inductive Ret where
  | off (n : ℕ)
  | fail
  | trap
  deriving DecidableEq

/-- What a driver call hands back: its return value, `params->progress_size` and the state. -/
structure Outcome where
  ret : Ret
  progressSize : ℕ
  st : BmState

variable (dev : Device) (mtd : MtdDevInfo) (fs : FsKind) (maxSize : ℕ)

def mtdTypeIsNand : Bool := mtd.type == .nandflash || mtd.type == .mlcNandflash

def oobsize : ℕ := if fs.tagsize = 0 then mtd.oobSize else fs.tagsize

def pagelen : ℕ :=
  if mtdTypeIsNand mtd && fs.flag.writeoob then mtd.minIoSize + oobsize mtd fs else mtd.minIoSize

def writeMode : MtdOps :=
  if fs.flag.noecc then .raw else if fs.flag.autoplace then .autoOob else .placeOob

structure Cursor where
  wOffset : ℕ
  wLength : ℕ
  wBuffer : List UInt8
  inPad : Bool
  blockstart : Option ℕ
  writeoob : Bool
  progressSize : ℕ
  st : BmState

def Cursor.outcome (c : Cursor) (r : Ret) : Outcome := ⟨r, c.progressSize, c.st⟩

def setProcessInfo (total : ℕ) : Option Unit := if total = 0 then none else some ()

def skipBad (st : BmState) (w : ℕ) : ℕ :=
  skip (mtdBmBlockMapIsBad st) mtd.size mtd.ebSize_pos w

def enterBlock (c : Cursor) : Option Cursor :=
  if c.blockstart = some (mtdBlockAlign mtd c.wOffset) then some c
  else if !mtdTypeIsNand mtd then some { c with blockstart := some (mtdBlockAlign mtd c.wOffset) }
  else
    let w := skipBad mtd c.st c.wOffset
    if mtd.size ≤ w then none
    else some { c with wOffset := w, blockstart := some (mtdBlockAlign mtd w) }

def writen (c : Cursor) : ℕ := if pagelen mtd fs < c.wLength then pagelen mtd fs else c.wLength

/-- The tail goes through `pad_buffer`, refilled with `0xFF` before it is copied; on a retry
the source of that copy is `pad_buffer` itself. -/
def padTail (c : Cursor) : Cursor :=
  let n := writen mtd fs c
  if n % pagelen mtd fs = 0 then c
  else
    let src := if c.inPad then List.replicate n 0xFF else c.wBuffer.take n
    { c with wBuffer := src ++ List.replicate (pagelen mtd fs - n) 0xFF, inPad := true }

def takeOob (c : Cursor) : Option (List UInt8) × Cursor :=
  if mtd.minIoSize < writen mtd fs c ∧ c.writeoob = true then
    (some ((c.wBuffer.drop mtd.minIoSize).take (oobsize mtd fs)), c)
  else (none, { c with writeoob := false })

def mergePage (c : Cursor) : Option (List UInt8) :=
  let page := c.wBuffer.take mtd.minIoSize
  match c.st.sysinfo with
  | none => some page
  | some layouts => sysinfoTraversalMerge layouts page (c.wOffset + mtd.start) mtd.minIoSize

def markBad (eb : ℕ) (s : Chip) : Option Errno × Chip :=
  if fs.flag.markbad then mtdMarkBad dev mtd eb s else (none, s)

@[simps wOffset wLength wBuffer inPad blockstart writeoob progressSize st]
def Cursor.sent (c : Cursor) (n : ℕ) (data : List UInt8) (chip : Chip) : Cursor :=
  { c with wBuffer := data ++ c.wBuffer.drop n, st := { c.st with toChip := chip } }

def retireBlock (eb : ℕ) (st : BmState) : Bool × BmState :=
  let (err, chip) := mtdErase dev mtd eb st.toChip
  let st := { st with toChip := chip }
  if err ≠ none ∧ err ≠ some .eio then (false, st)
  else
    let (err, chip) := markBad dev mtd fs eb st.toChip
    let st := { st with toChip := chip }
    if err ≠ none then (false, st) else (true, mtdBmBlockMapSet eb .bad st)

def relocate (c : Cursor) : Step Cursor Outcome :=
  match retireBlock dev mtd fs (mtdOffsetToEbIndex mtd c.wOffset) c.st with
  | (false, st) => .done ({ c with st := st }.outcome .fail)
  | (true, st) => .next { c with wOffset := mtdBlockAlign mtd (c.wOffset + mtd.ebSize), st := st }

@[simps wOffset wLength wBuffer inPad blockstart writeoob progressSize st]
def advance (c : Cursor) : Cursor :=
  { c with
    wOffset := c.wOffset + mtd.minIoSize
    wLength := c.wLength - writen mtd fs c
    wBuffer := c.wBuffer.drop (pagelen mtd fs)
    progressSize := c.progressSize + writen mtd fs c }

def programPage (data : List UInt8) (oob : Option (List UInt8)) (c : Cursor) : Step Cursor Outcome :=
  let (err, chip) := mtdWrite dev mtd (mtdOffsetToEbIndex mtd c.wOffset) (c.wOffset % mtd.ebSize)
    data oob (writeMode fs) c.st.toChip
  let c := c.sent mtd.minIoSize data chip
  match err with
  | none => .next (advance mtd fs c)
  | some .eio => relocate dev mtd fs c
  | some _ => .done (c.outcome .fail)

def writePage (c : Cursor) : Step Cursor Outcome :=
  let (oob, c) := takeOob mtd fs (padTail mtd fs c)
  match setProcessInfo maxSize with
  | none => .done (c.outcome .trap)
  | some () =>
    match mergePage mtd c with
    | none => .done (c.outcome .fail)
    | some data => programPage dev mtd fs data oob c

def writeStep (c : Cursor) : Step Cursor Outcome :=
  if c.wLength = 0 ∨ mtd.size ≤ c.wOffset then
    match setProcessInfo maxSize with
    | none => .done (c.outcome .trap)
    | some () => .done (c.outcome (.off (c.wOffset + mtd.start)))
  else
    match enterBlock mtd c with
    | none => .done (c.outcome .fail)
    | some c => writePage dev mtd fs maxSize c

theorem setProcessInfo_pos (h : maxSize ≠ 0) : setProcessInfo maxSize = some () := if_neg h

theorem minIoSize_le_pagelen : mtd.minIoSize ≤ pagelen mtd fs := by
  unfold pagelen
  split_ifs <;> omega

theorem pagelen_pos : 0 < pagelen mtd fs :=
  mtd.minIoSize_pos.trans_le (minIoSize_le_pagelen mtd fs)

theorem writen_le (c : Cursor) : writen mtd fs c ≤ c.wLength := by
  unfold writen
  split_ifs <;> omega

theorem writen_le_pagelen (c : Cursor) : writen mtd fs c ≤ pagelen mtd fs := by
  unfold writen
  split_ifs <;> omega

theorem pagelen_of_oob (h : mtd.minIoSize < pagelen mtd fs) :
    mtd.minIoSize + oobsize mtd fs ≤ pagelen mtd fs := by
  unfold pagelen at h ⊢
  split_ifs at h ⊢ <;> omega

theorem writen_whole {c : Cursor} (h : pagelen mtd fs ≤ c.wLength) : writen mtd fs c = pagelen mtd fs := by
  unfold writen
  split_ifs <;> omega

theorem writen_congr {s t : Cursor} (h : s.wLength = t.wLength) : writen mtd fs s = writen mtd fs t := by
  rw [writen, writen, h]

theorem padTail_whole {c : Cursor} (h : pagelen mtd fs ≤ c.wLength) : padTail mtd fs c = c := by
  unfold padTail
  simp [writen_whole mtd fs h]

theorem mergePage_length {t : Cursor} {data : List UInt8} (hl : mtd.minIoSize ≤ t.wBuffer.length)
    (h : mergePage mtd t = some data) : data.length = mtd.minIoSize := by
  have hp : (t.wBuffer.take mtd.minIoSize).length = mtd.minIoSize := by simp; omega
  unfold mergePage at h
  split at h
  · cases h; exact hp
  · exact merge_length hp h

theorem retireBlock_true {eb : ℕ} {st st' : BmState} (h : retireBlock dev mtd fs eb st = (true, st')) :
    ∃ err chip chip', mtdErase dev mtd eb st.toChip = (err, chip) ∧ (err = none ∨ err = some .eio) ∧
      markBad dev mtd fs eb chip = (none, chip') ∧
      st' = mtdBmBlockMapSet eb .bad { st with toChip := chip' } := by
  unfold retireBlock at h
  dsimp only at h
  split_ifs at h with h1 h2
  · simp at h
  · simp at h
  · simp only [Prod.mk.injEq, true_and] at h
    subst h
    refine ⟨_, _, _, rfl, ?_, Prod.ext (not_not.mp h2) rfl, rfl⟩
    by_contra hne
    exact h1 (not_or.mp hne)

theorem relocate_eq {c : Cursor} {st : BmState}
    (h : retireBlock dev mtd fs (mtdOffsetToEbIndex mtd c.wOffset) c.st = (true, st)) :
    relocate dev mtd fs c = .next { c with wOffset := nextBlock mtd.ebSize c.wOffset, st := st } := by
  unfold relocate
  rw [h]
  rfl

theorem relocate_next {c d : Cursor} (h : relocate dev mtd fs c = .next d) :
    ∃ st, retireBlock dev mtd fs (mtdOffsetToEbIndex mtd c.wOffset) c.st = (true, st) ∧
      d = { c with wOffset := nextBlock mtd.ebSize c.wOffset, st := st } := by
  unfold relocate at h
  split at h
  · cases h
  · rename_i st hr
    cases h
    exact ⟨st, hr, rfl⟩

theorem programPage_next {data : List UInt8} {oob : Option (List UInt8)} {c d : Cursor}
    (h : programPage dev mtd fs data oob c = .next d) :
    ∃ err chip,
      mtdWrite dev mtd (mtdOffsetToEbIndex mtd c.wOffset) (c.wOffset % mtd.ebSize) data oob
        (writeMode fs) c.st.toChip = (err, chip) ∧
      ((err = none ∧
          d = advance mtd fs (c.sent mtd.minIoSize data chip)) ∨
        (err = some .eio ∧ relocate dev mtd fs (c.sent mtd.minIoSize data chip) = .next d)) := by
  unfold programPage at h
  dsimp only at h
  refine ⟨_, _, rfl, ?_⟩
  split at h
  · rename_i he
    cases h
    exact .inl ⟨he, rfl⟩
  · rename_i he
    exact .inr ⟨he, h⟩
  · cases h

theorem programPage_lt {data : List UInt8} {oob : Option (List UInt8)} {c d : Cursor}
    (h : programPage dev mtd fs data oob c = .next d) : c.wOffset < d.wOffset := by
  obtain ⟨err, chip, -, ⟨-, rfl⟩ | ⟨-, h⟩⟩ := programPage_next dev mtd fs h
  · exact Nat.lt_add_of_pos_right mtd.minIoSize_pos
  · obtain ⟨st, -, rfl⟩ := relocate_next dev mtd fs h
    exact lt_nextBlock mtd.ebSize_pos _

def prepared (c : Cursor) : Cursor := (takeOob mtd fs (padTail mtd fs c)).2

theorem padTail_frame (c : Cursor) :
    padTail mtd fs c = { c with wBuffer := (padTail mtd fs c).wBuffer, inPad := (padTail mtd fs c).inPad } := by
  unfold padTail
  dsimp only
  split_ifs <;> rfl

@[simp] theorem padTail_wOffset (c : Cursor) : (padTail mtd fs c).wOffset = c.wOffset := by
  rw [padTail_frame]

@[simp] theorem padTail_wLength (c : Cursor) : (padTail mtd fs c).wLength = c.wLength := by
  rw [padTail_frame]

@[simp] theorem padTail_writeoob (c : Cursor) : (padTail mtd fs c).writeoob = c.writeoob := by
  rw [padTail_frame]

@[simp] theorem padTail_st (c : Cursor) : (padTail mtd fs c).st = c.st := by
  rw [padTail_frame]

theorem takeOob_frame (c : Cursor) :
    (takeOob mtd fs c).2 = { c with writeoob := (takeOob mtd fs c).2.writeoob } := by
  unfold takeOob
  split_ifs <;> rfl

theorem prepared_frame (c : Cursor) :
    prepared mtd fs c = { c with
      wBuffer := (prepared mtd fs c).wBuffer
      inPad := (prepared mtd fs c).inPad
      writeoob := (prepared mtd fs c).writeoob } := by
  unfold prepared
  rw [takeOob_frame, padTail_frame]

@[simp] theorem prepared_wOffset (c : Cursor) : (prepared mtd fs c).wOffset = c.wOffset := by
  rw [prepared_frame]

@[simp] theorem prepared_wLength (c : Cursor) : (prepared mtd fs c).wLength = c.wLength := by
  rw [prepared_frame]

@[simp] theorem prepared_progressSize (c : Cursor) :
    (prepared mtd fs c).progressSize = c.progressSize := by
  rw [prepared_frame]

@[simp] theorem prepared_st (c : Cursor) : (prepared mtd fs c).st = c.st := by
  rw [prepared_frame]

@[simp] theorem prepared_blockstart (c : Cursor) : (prepared mtd fs c).blockstart = c.blockstart := by
  rw [prepared_frame]

theorem writePage_eq (c : Cursor) : writePage dev mtd fs maxSize c =
    match setProcessInfo maxSize with
    | none => .done ((prepared mtd fs c).outcome .trap)
    | some () =>
      match mergePage mtd (prepared mtd fs c) with
      | none => .done ((prepared mtd fs c).outcome .fail)
      | some data =>
        programPage dev mtd fs data (takeOob mtd fs (padTail mtd fs c)).1 (prepared mtd fs c) := rfl

theorem writePage_next {c d : Cursor} (h : writePage dev mtd fs maxSize c = .next d) :
    maxSize ≠ 0 ∧ ∃ data, mergePage mtd (prepared mtd fs c) = some data ∧
      programPage dev mtd fs data (takeOob mtd fs (padTail mtd fs c)).1 (prepared mtd fs c) = .next d := by
  unfold writePage at h
  dsimp only at h
  split at h
  · cases h
  · rename_i hp
    split at h
    · cases h
    · rename_i data hd
      refine ⟨?_, data, hd, h⟩
      rintro rfl
      simp [setProcessInfo] at hp

theorem writeStep_next {c d : Cursor} (h : writeStep dev mtd fs maxSize c = .next d) :
    c.wLength ≠ 0 ∧ c.wOffset < mtd.size ∧
      ∃ e, enterBlock mtd c = some e ∧ writePage dev mtd fs maxSize e = .next d := by
  unfold writeStep at h
  split_ifs at h with hexit
  · split at h <;> cases h
  · split at h
    · cases h
    · rename_i e he
      exact ⟨by omega, by omega, e, he, h⟩

theorem enterBlock_le {c d : Cursor} (h : enterBlock mtd c = some d) : c.wOffset ≤ d.wOffset := by
  unfold enterBlock at h
  dsimp only at h
  split_ifs at h
  · cases h; exact le_rfl
  · cases h; exact le_rfl
  · cases h; exact le_skip _ _ _

def Settled (c : Cursor) : Prop :=
  c.blockstart = some (mtdBlockAlign mtd c.wOffset) → mtdTypeIsNand mtd = true →
    mtdBmBlockMapIsBad c.st (mtdOffsetToEbIndex mtd c.wOffset) = false

theorem enterBlock_settled {c : Cursor} (h : Settled mtd c) (hw : c.wOffset < mtd.size) :
    enterBlock mtd c = enterBlock mtd { c with blockstart := none } := by
  by_cases hb : c.blockstart = some (mtdBlockAlign mtd c.wOffset)
  · rw [enterBlock, if_pos hb, enterBlock, if_neg (by simp)]
    cases hn : mtdTypeIsNand mtd with
    | false => simp [← hb]
    | true =>
      have hs : skipBad mtd c.st c.wOffset = c.wOffset := skip_good _ _ (h hb hn)
      simp [hs, ← hb, hw]
  · simp [enterBlock, hb]

def writeLoop : Loop Cursor Outcome where
  step := writeStep dev mtd fs maxSize
  measure c := mtd.size - c.wOffset
  decreasing := by
    intro c d h
    obtain ⟨-, hw, e, he, h⟩ := writeStep_next dev mtd fs maxSize h
    obtain ⟨-, data, -, h⟩ := writePage_next dev mtd fs maxSize h
    have h1 := enterBlock_le mtd he
    have h2 := programPage_lt dev mtd fs h
    rw [prepared_wOffset] at h2
    omega

structure Entered (e : Cursor) : Prop where
  blockstart : e.blockstart = some (mtdBlockAlign mtd e.wOffset)
  good : mtdTypeIsNand mtd = true → mtdBmBlockMapIsBad e.st (mtdOffsetToEbIndex mtd e.wOffset) = false
  inside : e.wOffset < mtd.size

theorem enterBlock_entered {c e : Cursor} (h : enterBlock mtd c = some e) (hs : Settled mtd c)
    (hw : c.wOffset < mtd.size) : Entered mtd e := by
  unfold enterBlock at h
  dsimp only at h
  split_ifs at h with h1 h2 h3
  · cases h
    exact ⟨h1, hs h1, hw⟩
  · cases h
    exact ⟨rfl, fun hn => by simp [hn] at h2, hw⟩
  · cases h
    exact ⟨rfl, fun _ => skip_notBad _ mtd.ebSize_pos (not_le.mp h3), not_le.mp h3⟩

theorem enterBlock_frame {c e : Cursor} (h : enterBlock mtd c = some e) :
    e = { c with wOffset := e.wOffset, blockstart := e.blockstart } := by
  unfold enterBlock at h
  dsimp only at h
  split_ifs at h <;> cases h <;> rfl

theorem writeStep_moves {c d : Cursor} (h : writeStep dev mtd fs maxSize c = .next d) :
    ∃ e, enterBlock mtd c = some e ∧ d.blockstart = e.blockstart ∧
      ((d.wOffset = e.wOffset + mtd.minIoSize ∧ d.st.map = c.st.map ∧
          d.wLength = c.wLength - writen mtd fs c ∧ d.progressSize = c.progressSize + writen mtd fs c) ∨
        (d.wOffset = nextBlock mtd.ebSize e.wOffset ∧
          d.st.map = (mtdBmBlockMapSet (mtdOffsetToEbIndex mtd e.wOffset) .bad c.st).map ∧
          d.wLength = c.wLength ∧ d.progressSize = c.progressSize)) := by
  obtain ⟨-, -, e, he, h⟩ := writeStep_next dev mtd fs maxSize h
  obtain ⟨-, data, -, h⟩ := writePage_next dev mtd fs maxSize h
  have hf := enterBlock_frame mtd he
  have hl : (prepared mtd fs e).wLength = c.wLength := by rw [prepared_wLength, hf]
  have hpr : (prepared mtd fs e).progressSize = c.progressSize := by rw [prepared_progressSize, hf]
  have hst : e.st = c.st := by rw [hf]
  refine ⟨e, he, ?_⟩
  obtain ⟨err, chip, -, ⟨-, rfl⟩ | ⟨-, h⟩⟩ := programPage_next dev mtd fs h
  · refine ⟨prepared_blockstart mtd fs e, .inl ⟨?_, ?_, ?_, ?_⟩⟩
    · simp
    · simp [hst]
    · exact congrArg₂ HSub.hSub hl (writen_congr mtd fs hl)
    · exact congrArg₂ HAdd.hAdd hpr (writen_congr mtd fs hl)
  · obtain ⟨st, hst', rfl⟩ := relocate_next dev mtd fs h
    obtain ⟨_, _, _, -, -, -, rfl⟩ := retireBlock_true dev mtd fs hst'
    refine ⟨prepared_blockstart mtd fs e, .inr ⟨?_, ?_, hl, hpr⟩⟩
    · simp
    · simp [mtdBmBlockMapSet, hst]

theorem settled_next {c d : Cursor} (hs : Settled mtd c) (h : writeStep dev mtd fs maxSize c = .next d) :
    Settled mtd d := by
  obtain ⟨-, hw, -⟩ := writeStep_next dev mtd fs maxSize h
  obtain ⟨e, he, hb, hd⟩ := writeStep_moves dev mtd fs maxSize h
  have hent := enterBlock_entered mtd he hs hw
  intro hbs hn
  rw [hb, hent.blockstart, Option.some_inj] at hbs
  have hidx : mtdOffsetToEbIndex mtd d.wOffset = mtdOffsetToEbIndex mtd e.wOffset :=
    (Nat.eq_of_mul_eq_mul_right mtd.ebSize_pos hbs).symm
  rcases hd with ⟨-, hm, -⟩ | ⟨ho, -⟩
  · have hg := hent.good hn
    rw [enterBlock_frame mtd he] at hg
    rwa [hidx, mtdBmBlockMapIsBad, hm]
  · rw [ho, mtdOffsetToEbIndex, div_nextBlock mtd.ebSize_pos, mtdOffsetToEbIndex] at hidx
    omega

theorem relocate_done {c : Cursor} {r : Outcome} (h : relocate dev mtd fs c = .done r) : r.ret = .fail := by
  unfold relocate at h
  split at h <;> cases h
  rfl

theorem programPage_done {data : List UInt8} {oob : Option (List UInt8)} {c : Cursor} {r : Outcome}
    (h : programPage dev mtd fs data oob c = .done r) : r.ret = .fail := by
  unfold programPage at h
  dsimp only at h
  split at h
  · cases h
  · exact relocate_done dev mtd fs h
  · cases h; rfl

theorem writePage_done {c : Cursor} {r : Outcome} (h : writePage dev mtd fs maxSize c = .done r) (n : ℕ) :
    r.ret ≠ .off n := by
  rw [writePage_eq] at h
  split at h
  · cases h; simp [Cursor.outcome]
  · split at h
    · cases h; simp [Cursor.outcome]
    · simp [programPage_done dev mtd fs h]

theorem writeStep_off {c : Cursor} {r : Outcome} {n : ℕ} (h : writeStep dev mtd fs maxSize c = .done r)
    (hr : r.ret = .off n) :
    (c.wLength = 0 ∨ mtd.size ≤ c.wOffset) ∧ maxSize ≠ 0 ∧ r = c.outcome (.off (c.wOffset + mtd.start)) := by
  unfold writeStep at h
  split_ifs at h with hexit
  · split at h
    · cases h; simp [Cursor.outcome] at hr
    · rename_i hp
      cases h
      refine ⟨hexit, ?_, rfl⟩
      rintro rfl
      simp [setProcessInfo] at hp
  · split at h
    · cases h; simp [Cursor.outcome] at hr
    · exact absurd hr (writePage_done dev mtd fs maxSize h n)

theorem writeStep_finish {c : Cursor} (hm : maxSize ≠ 0) (h : c.wLength = 0 ∨ mtd.size ≤ c.wOffset) :
    writeStep dev mtd fs maxSize c = .done (c.outcome (.off (c.wOffset + mtd.start))) := by
  unfold writeStep
  rw [if_pos h, setProcessInfo_pos maxSize hm]

theorem writeLoop_off {c : Cursor} {n : ℕ} (hr : ((writeLoop dev mtd fs maxSize).exec c).ret = .off n) :
    maxSize ≠ 0 := by
  obtain ⟨u, r, -, hu, he⟩ := (writeLoop dev mtd fs maxSize).reaches_exit c
  exact (writeStep_off dev mtd fs maxSize hu (he ▸ hr)).2.1

structure Healthy (total : ℕ) (c : Cursor) : Prop where
  aligned : mtd.minIoSize ∣ c.wOffset
  inside : c.wOffset ≤ mtd.size
  mapped : c.st.map.isSome = true
  total : c.progressSize + c.wLength = total

theorem enterBlock_aligned {c e : Cursor} (h : enterBlock mtd c = some e) (hc : mtd.minIoSize ∣ c.wOffset) :
    mtd.minIoSize ∣ e.wOffset := by
  unfold enterBlock at h
  dsimp only at h
  split_ifs at h <;> cases h
  · exact hc
  · exact hc
  · exact skip_dvd _ _ mtd.minIoSize_dvd hc

theorem enterBlock_inside {c e : Cursor} (h : enterBlock mtd c = some e) (hc : c.wOffset < mtd.size) :
    e.wOffset < mtd.size := by
  unfold enterBlock at h
  dsimp only at h
  split_ifs at h with _ _ hs <;> cases h
  · exact hc
  · exact hc
  · exact not_le.mp hs

theorem page_inside {w : ℕ} (h : w < mtd.size) (hd : mtd.minIoSize ∣ w) : w + mtd.minIoSize ≤ mtd.size := by
  obtain ⟨k, rfl⟩ := hd
  obtain ⟨l, hl⟩ := mtd.minIoSize_dvd.trans mtd.size_dvd
  rw [hl] at h ⊢
  rw [← Nat.mul_succ]
  exact Nat.mul_le_mul_left _ (Nat.lt_of_mul_lt_mul_left h)

theorem healthy_next {total : ℕ} {c d : Cursor} (hc : Healthy mtd total c)
    (h : writeStep dev mtd fs maxSize c = .next d) : Healthy mtd total d := by
  obtain ⟨-, hw, -⟩ := writeStep_next dev mtd fs maxSize h
  obtain ⟨e, he, -, hd⟩ := writeStep_moves dev mtd fs maxSize h
  have hea := enterBlock_aligned mtd he hc.aligned
  have hei := enterBlock_inside mtd he hw
  have hn := writen_le mtd fs c
  have ht := hc.total
  rcases hd with ⟨ho, hm, hl, hp⟩ | ⟨ho, hm, hl, hp⟩
  · exact ⟨ho ▸ (Nat.dvd_add hea dvd_rfl), ho ▸ page_inside mtd hei hea, hm ▸ hc.mapped, by omega⟩
  · exact ⟨ho ▸ mtd.minIoSize_dvd.trans (nextBlock_dvd _),
      ho ▸ nextBlock_le mtd.ebSize_pos mtd.size_dvd hei, by simp [hm, hc.mapped], by omega⟩

theorem consumed_fits {total : ℕ} {c : Cursor} {n : ℕ} (hc : Healthy mtd total c)
    (hr : ((writeLoop dev mtd fs maxSize).exec c).ret = .off n)
    (ht : ((writeLoop dev mtd fs maxSize).exec c).progressSize = total) :
    c.wOffset + c.wLength / pagelen mtd fs * mtd.minIoSize ≤ mtd.size := by
  induction c using (writeLoop dev mtd fs maxSize).induct with
  | h c ih =>
    cases hstep : (writeLoop dev mtd fs maxSize).step c with
    | done r =>
      rw [Loop.exec_done _ hstep] at hr ht
      obtain ⟨-, -, rfl⟩ := writeStep_off dev mtd fs maxSize hstep hr
      have h1 := hc.total
      have h2 : c.progressSize = total := ht
      have h0 : c.wLength = 0 := by omega
      simpa [h0] using hc.inside
    | next d =>
      rw [Loop.exec_next _ hstep] at hr ht
      have hd := healthy_next dev mtd fs maxSize hc hstep
      have hfit := ih d hstep hd hr ht
      obtain ⟨e, he, -, hmove⟩ := writeStep_moves dev mtd fs maxSize hstep
      have hle := enterBlock_le mtd he
      have hp := pagelen_pos mtd fs
      rcases hmove with ⟨ho, -, hl, -⟩ | ⟨ho, -, hl, -⟩
      · have hdiv : c.wLength / pagelen mtd fs ≤ d.wLength / pagelen mtd fs + 1 := by
          rw [hl, ← Nat.add_div_right _ hp]
          apply Nat.div_le_div_right
          have := writen_le_pagelen mtd fs c
          omega
        have := Nat.mul_le_mul_right mtd.minIoSize hdiv
        rw [Nat.add_mul, Nat.one_mul] at this
        omega
      · have := lt_nextBlock mtd.ebSize_pos e.wOffset
        rw [hl] at hfit
        omega

@[simps wOffset wLength wBuffer inPad blockstart writeoob progressSize st]
def writeStart (w progressSize : ℕ) (buf : List UInt8) (st : BmState) : Cursor :=
  ⟨w, buf.length, buf, false, none, fs.flag.writeoob, progressSize, st⟩

theorem writeStart_settled (w progressSize : ℕ) (buf : List UInt8) (st : BmState) :
    Settled mtd (writeStart fs w progressSize buf st) := by
  rintro ⟨⟩

/-- A failure also closes the partition's descriptor, which nothing opens again: the device then serves no request. -/
def mtdBasicWrite (progressSize : ℕ) (offset : ℤ) (buf : List UInt8) (st : BmState) : Outcome :=
  let w := offset - mtd.start
  if w < 0 then ⟨.fail, progressSize, st⟩
  else if w.toNat % mtd.minIoSize ≠ 0 then ⟨.fail, progressSize, st⟩
  else if fs.flag.noecc ∧ dev.fileMode ≠ none then ⟨.fail, progressSize, st⟩
  else if fs.flag.pad = false ∧ buf.length % pagelen mtd fs ≠ 0 then ⟨.fail, progressSize, st⟩
  else if (mtd.size : ℤ) - w < (buf.length / pagelen mtd fs * mtd.minIoSize : ℕ) then ⟨.fail, progressSize, st⟩
  else if !mtdBmBlockMapIsValid st then ⟨.fail, progressSize, st⟩
  else (writeLoop dev mtd fs maxSize).exec (writeStart fs w.toNat progressSize buf st)

theorem basicWrite_off {progressSize : ℕ} {offset : ℤ} {buf : List UInt8} {st : BmState} {n : ℕ}
    (h : (mtdBasicWrite dev mtd fs maxSize progressSize offset buf st).ret = .off n) :
    ∃ w : ℕ, offset = (w + mtd.start : ℕ) ∧
      Healthy mtd (progressSize + buf.length) (writeStart fs w progressSize buf st) ∧
      ¬(fs.flag.noecc = true ∧ dev.fileMode ≠ none) ∧
      (fs.flag.pad = false → pagelen mtd fs ∣ buf.length) ∧
      mtdBasicWrite dev mtd fs maxSize progressSize offset buf st =
        (writeLoop dev mtd fs maxSize).exec (writeStart fs w progressSize buf st) := by
  unfold mtdBasicWrite at h ⊢
  dsimp only at h ⊢
  split_ifs at h ⊢ with h1 h2 h3 h4 h5 h6
  refine ⟨(offset - mtd.start).toNat, by omega, ⟨?_, ?_, ?_, rfl⟩, h3, ?_, rfl⟩
  · exact Nat.dvd_of_mod_eq_zero (not_not.mp h2)
  · exact (by omega : (offset - mtd.start).toNat ≤ mtd.size)
  · simpa [mtdBmBlockMapIsValid, Option.isSome_iff_ne_none] using h6
  · intro hpad
    by_contra hd
    exact h4 ⟨hpad, fun h0 => hd (Nat.dvd_of_mod_eq_zero h0)⟩

end LinuxRecovery.BasicWrite
