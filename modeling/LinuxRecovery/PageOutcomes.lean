import LinuxRecovery.BasicWrite
import LinuxRecovery.ProgrammablePages

namespace LinuxRecovery.PageOutcomes

open Loops ByteMemory GoodBlocks ProgrammablePages Libmtd BlockMap Sysinfo BasicWrite

/-- A chip on which programs of the pages in `weak` fail with `EIO` and every other request is served.
A call programs no page twice, so this is every sequence of page outcomes. -/
structure PageFaults (dev : Device) (mtd : MtdDevInfo) (weak : ℕ → Bool) : Prop where
  write : ∀ calls start eb offs data oob mode,
    dev.reply (calls ++ [.write start eb offs data oob mode]) =
      if weak (eb * mtd.ebSize + offs) = true then some .eio else none
  erase : ∀ calls start eb, dev.reply (calls ++ [.erase start eb]) = none
  markBad : ∀ calls start eb, dev.reply (calls ++ [.markBad start eb]) = none
  read : ∀ calls start eb offs len, dev.reply (calls ++ [.read start eb offs len]) = none
  fileMode : dev.fileMode = none

def faultyDevice (ebSize : ℕ) (weak : ℕ → Bool) : Device where
  reply calls :=
    match calls.getLast? with
    | some (.write _ eb offs _ _ _) => if weak (eb * ebSize + offs) then some .eio else none
    | _ => none
  junk _ _ := 0
  badBlock _ := .good
  fileMode := none
  oobInfo := true

theorem faultyDevice_faults (mtd : MtdDevInfo) (weak : ℕ → Bool) :
    PageFaults (faultyDevice mtd.ebSize weak) mtd weak := by
  constructor <;> simp [faultyDevice]

structure PlainNand (mtd : MtdDevInfo) (fs : FsKind) : Prop where
  nand : mtdTypeIsNand mtd = true
  writeoob : fs.flag.writeoob = false

variable {dev : Device} {mtd : MtdDevInfo} {fs : FsKind} {maxSize : ℕ} {weak : ℕ → Bool}

theorem PlainNand.pagelen (h : PlainNand mtd fs) : pagelen mtd fs = mtd.minIoSize := by
  simp [BasicWrite.pagelen, h.writeoob]

theorem PlainNand.bbAllowed (h : PlainNand mtd fs) : mtd.bbAllowed = true := h.nand

section Chip

variable {w : ℕ} (s : Chip)

theorem address_block (w : ℕ) : address mtd (mtdOffsetToEbIndex mtd w) (w % mtd.ebSize) = mtd.start + w := by
  have := Nat.div_add_mod' w mtd.ebSize
  simp only [address, mtdOffsetToEbIndex]
  omega

theorem page_in_block (hp : mtd.minIoSize ∣ w) : w % mtd.ebSize + mtd.minIoSize ≤ mtd.ebSize := by
  have hd : mtd.minIoSize ∣ w % mtd.ebSize := (Nat.dvd_mod_iff mtd.minIoSize_dvd).mpr hp
  obtain ⟨k, hk⟩ := hd
  obtain ⟨l, hl⟩ := mtd.minIoSize_dvd
  have hlt := Nat.mod_lt w mtd.ebSize_pos
  rw [hk, hl] at hlt ⊢
  rw [← Nat.mul_succ]
  exact Nat.mul_le_mul_left _ (Nat.lt_of_mul_lt_mul_left hlt)

theorem validEraseBlock (hw : w < mtd.size) : mtdValidEraseBlock mtd (mtdOffsetToEbIndex mtd w) = true :=
  decide_eq_true (mtd.lt_ebCnt hw)

theorem mtdWrite_page (hf : PageFaults dev mtd weak) (hw : w < mtd.size) (hp : mtd.minIoSize ∣ w)
    {data : List UInt8} (hd : data.length = mtd.minIoSize) (oob : Option (List UInt8)) (mode : MtdOps) :
    ∃ junk calls, mtdWrite dev mtd (mtdOffsetToEbIndex mtd w) (w % mtd.ebSize) data oob mode s =
      if weak w = true then (some .eio, ⟨fillBytes s.mem (mtd.start + w) mtd.minIoSize junk, calls⟩)
      else (none, ⟨writeBytes s.mem (mtd.start + w) data, calls⟩) := by
  have hblock := page_in_block hp
  have hsub : (w % mtd.ebSize) % mtd.subpageSize = 0 := Nat.mod_eq_zero_of_dvd
    ((Nat.dvd_mod_iff (mtd.subpageSize_dvd.trans mtd.minIoSize_dvd)).mpr (mtd.subpageSize_dvd.trans hp))
  have haddr : mtdOffsetToEbIndex mtd w * mtd.ebSize + w % mtd.ebSize = w := Nat.div_add_mod' w mtd.ebSize
  let calls := s.calls ++ [.write mtd.start (mtdOffsetToEbIndex mtd w) (w % mtd.ebSize) data oob mode]
  refine ⟨dev.junk calls, calls, ?_⟩
  unfold mtdWrite
  rw [validEraseBlock hw, if_neg (by simp), if_neg (by omega), if_neg (by omega),
    if_neg (by simp [hd, Nat.mod_eq_zero_of_dvd mtd.subpageSize_dvd])]
  dsimp only
  rw [hf.write, haddr, address_block, hd]
  split_ifs <;> rfl

theorem mtdErase_block (hf : PageFaults dev mtd weak) (hw : w < mtd.size) :
    ∃ calls, mtdErase dev mtd (mtdOffsetToEbIndex mtd w) s =
      (none, ⟨fillBytes s.mem (mtd.start + mtdBlockAlign mtd w) mtd.ebSize (fun _ => 0xFF), calls⟩) := by
  refine ⟨s.calls ++ [.erase mtd.start (mtdOffsetToEbIndex mtd w)], ?_⟩
  unfold mtdErase
  rw [validEraseBlock hw, if_neg (by simp)]
  dsimp only
  rw [hf.erase]
  rfl

theorem markBad_block (hf : PageFaults dev mtd weak) (hn : PlainNand mtd fs) (hw : w < mtd.size) :
    ∃ calls, markBad dev mtd fs (mtdOffsetToEbIndex mtd w) s = (none, ⟨s.mem, calls⟩) := by
  cases hm : fs.flag.markbad with
  | false => exact ⟨s.calls, by simp [markBad, hm]⟩
  | true =>
    refine ⟨s.calls ++ [.markBad mtd.start (mtdOffsetToEbIndex mtd w)], ?_⟩
    unfold markBad mtdMarkBad
    rw [hm, if_pos rfl, hn.bbAllowed, validEraseBlock hw, if_neg (by simp), if_neg (by simp)]
    dsimp only
    rw [hf.markBad]

theorem retireBlock_block (hf : PageFaults dev mtd weak) (hn : PlainNand mtd fs) (hw : w < mtd.size)
    (st : BmState) :
    ∃ calls, retireBlock dev mtd fs (mtdOffsetToEbIndex mtd w) st =
      (true, mtdBmBlockMapSet (mtdOffsetToEbIndex mtd w) .bad
        { st with toChip :=
          ⟨fillBytes st.mem (mtd.start + mtdBlockAlign mtd w) mtd.ebSize (fun _ => 0xFF), calls⟩ }) := by
  obtain ⟨calls, he⟩ := mtdErase_block st.toChip hf hw
  obtain ⟨calls', hm⟩ := markBad_block
    ⟨fillBytes st.mem (mtd.start + mtdBlockAlign mtd w) mtd.ebSize (fun _ => 0xFF), calls⟩ hf hn hw
  refine ⟨calls', ?_⟩
  unfold retireBlock
  simp [he, hm]

end Chip

def Unreserved (mtd : MtdDevInfo) (w : ℕ) (st : BmState) : Prop :=
  ∀ layouts, st.sysinfo = some layouts → ∀ l ∈ layouts, l.reserve = .reserved →
    SysinfoLayout.outside l (w + mtd.start) (mtd.size + mtd.start) = true

structure Buffered (mtd : MtdDevInfo) (c : Cursor) : Prop where
  writeoob : c.writeoob = false
  whole : c.inPad = false → c.wBuffer.length = c.wLength
  tail : c.inPad = true → c.wLength < mtd.minIoSize

def page (mtd : MtdDevInfo) (fs : FsKind) (c : Cursor) : List UInt8 :=
  (padTail mtd fs c).wBuffer.take mtd.minIoSize

section Step

variable {c e : Cursor}

theorem Buffered.not_inPad (h : Buffered mtd c) (hl : mtd.minIoSize ≤ c.wLength) : c.inPad = false := by
  cases hi : c.inPad with
  | false => rfl
  | true => have := h.tail hi; omega

theorem page_whole (hn : PlainNand mtd fs) (hl : mtd.minIoSize ≤ c.wLength) :
    page mtd fs c = c.wBuffer.take mtd.minIoSize := by
  rw [page, padTail_whole mtd fs (hn.pagelen ▸ hl)]

theorem padTail_short (hn : PlainNand mtd fs) (h0 : c.wLength ≠ 0) (hl : c.wLength < mtd.minIoSize) :
    padTail mtd fs c = { c with
      wBuffer := (if c.inPad then List.replicate c.wLength 0xFF else c.wBuffer.take c.wLength) ++
        List.replicate (mtd.minIoSize - c.wLength) 0xFF
      inPad := true } := by
  have hw : writen mtd fs c = c.wLength := by rw [writen, hn.pagelen, if_neg (by omega)]
  unfold padTail
  dsimp only
  rw [hw, hn.pagelen, if_neg (by rw [Nat.mod_eq_of_lt hl]; exact h0)]

theorem padTail_length (hn : PlainNand mtd fs) (hb : Buffered mtd c) (h0 : c.wLength ≠ 0) :
    mtd.minIoSize ≤ (padTail mtd fs c).wBuffer.length := by
  by_cases hl : mtd.minIoSize ≤ c.wLength
  · rw [padTail_whole mtd fs (hn.pagelen ▸ hl), hb.whole (hb.not_inPad hl)]
    exact hl
  · rw [padTail_short hn h0 (by omega)]
    cases hi : c.inPad with
    | false =>
      have := hb.whole hi
      simp
      omega
    | true => simp; omega

theorem page_length (hn : PlainNand mtd fs) (hb : Buffered mtd c) (h0 : c.wLength ≠ 0) :
    (page mtd fs c).length = mtd.minIoSize := by
  have := padTail_length hn hb h0
  rw [page, List.length_take]
  omega

theorem prepared_plain (hb : Buffered mtd c) :
    prepared mtd fs c = padTail mtd fs c ∧ (takeOob mtd fs (padTail mtd fs c)).1 = none := by
  have hw : (padTail mtd fs c).writeoob = false := (padTail_writeoob mtd fs c).trans hb.writeoob
  unfold prepared
  generalize padTail mtd fs c = d at hw
  obtain ⟨⟩ := d
  subst hw
  simp [takeOob]

theorem mergePage_plain {w : ℕ} (hu : Unreserved mtd w c.st) (hw : w ≤ c.wOffset)
    (hs : c.wOffset + mtd.minIoSize ≤ mtd.size) :
    mergePage mtd (padTail mtd fs c) = some (page mtd fs c) := by
  rw [padTail_frame]
  unfold mergePage
  dsimp only
  split
  · rfl
  · rename_i layouts hl
    apply merge_outside
    intro l hmem hres
    exact SysinfoLayout.outside_mono (hu layouts hl l hmem hres) (by omega) (by omega)

theorem enterBlock_nand (hn : mtdTypeIsNand mtd = true) (hs : Settled mtd c) (hw : c.wOffset < mtd.size) :
    enterBlock mtd c =
      if mtd.size ≤ skipBad mtd c.st c.wOffset then none
      else some { c with
        wOffset := skipBad mtd c.st c.wOffset
        blockstart := some (mtdBlockAlign mtd (skipBad mtd c.st c.wOffset)) } := by
  rw [enterBlock_settled mtd hs hw]
  simp [enterBlock, hn]

structure Programmed (mtd : MtdDevInfo) (fs : FsKind) (v : ℕ) (c d : Cursor) : Prop where
  wOffset : d.wOffset = v + mtd.minIoSize
  wLength : d.wLength = c.wLength - mtd.minIoSize
  wBuffer : d.wBuffer = (padTail mtd fs c).wBuffer.drop mtd.minIoSize
  inPad : d.inPad = (padTail mtd fs c).inPad
  writeoob : d.writeoob = c.writeoob
  mem : d.st.mem = writeBytes c.st.mem (mtd.start + v) (page mtd fs c)
  map : d.st.map = c.st.map
  sysinfo : d.st.sysinfo = c.st.sysinfo

structure Relocated (mtd : MtdDevInfo) (fs : FsKind) (v : ℕ) (c d : Cursor) : Prop where
  wOffset : d.wOffset = nextBlock mtd.ebSize v
  wLength : d.wLength = c.wLength
  wBuffer : d.wBuffer = (padTail mtd fs c).wBuffer
  inPad : d.inPad = (padTail mtd fs c).inPad
  writeoob : d.writeoob = c.writeoob
  mem : ∃ junk, d.st.mem =
    fillBytes (fillBytes c.st.mem (mtd.start + v) mtd.minIoSize junk)
      (mtd.start + mtdBlockAlign mtd v) mtd.ebSize (fun _ => 0xFF)
  map : d.st.map = (mtdBmBlockMapSet (mtdOffsetToEbIndex mtd v) .bad c.st).map
  sysinfo : d.st.sysinfo = c.st.sysinfo

theorem padTail_moved (w : ℕ) (b : Option ℕ) :
    padTail mtd fs { c with wOffset := w, blockstart := b } =
      { padTail mtd fs c with wOffset := w, blockstart := b } := by
  have hw : writen mtd fs { c with wOffset := w, blockstart := b } = writen mtd fs c := rfl
  unfold padTail
  dsimp only
  rw [hw]
  split_ifs <;> rfl

theorem writeStep_pass (hf : PageFaults dev mtd weak) (hn : PlainNand mtd fs) (hm : maxSize ≠ 0)
    {w : ℕ} (hu : Unreserved mtd w c.st) (hwc : w ≤ c.wOffset) (hs : Settled mtd c)
    (hb : Buffered mtd c) (hp : mtd.minIoSize ∣ c.wOffset) (h0 : c.wLength ≠ 0)
    (hv : skipBad mtd c.st c.wOffset < mtd.size) :
    ∃ d, writeStep dev mtd fs maxSize c = .next d ∧
      if weak (skipBad mtd c.st c.wOffset) = true then Relocated mtd fs (skipBad mtd c.st c.wOffset) c d
      else Programmed mtd fs (skipBad mtd c.st c.wOffset) c d := by
  have hle : c.wOffset ≤ skipBad mtd c.st c.wOffset := le_skip _ _ _
  have hvp : mtd.minIoSize ∣ skipBad mtd c.st c.wOffset := skip_dvd _ _ mtd.minIoSize_dvd hp
  have henter := enterBlock_nand hn.nand hs (by omega : c.wOffset < mtd.size)
  rw [if_neg (by omega)] at henter
  generalize skipBad mtd c.st c.wOffset = v at *
  set e : Cursor := { c with wOffset := v, blockstart := some (mtdBlockAlign mtd v) } with he
  have hpad : padTail mtd fs e = { padTail mtd fs c with wOffset := v, blockstart := e.blockstart } :=
    padTail_moved _ _
  have hpage : page mtd fs e = page mtd fs c := by rw [page, page, hpad]
  have hbe : Buffered mtd e := ⟨hb.writeoob, hb.whole, hb.tail⟩
  have hfit := page_inside mtd hv hvp
  have hmerge : mergePage mtd (padTail mtd fs e) = some (page mtd fs e) :=
    mergePage_plain hu (hwc.trans hle) hfit
  have hlen := page_length hn hbe (c := e) h0
  obtain ⟨junk, calls, hwrite⟩ := mtdWrite_page c.st.toChip hf hv hvp hlen none (writeMode fs)
  obtain ⟨hprep, hoob⟩ : prepared mtd fs e = padTail mtd fs e ∧
    (takeOob mtd fs (padTail mtd fs e)).1 = none := prepared_plain hbe
  have hstep : writeStep dev mtd fs maxSize c =
      programPage dev mtd fs (page mtd fs e) none (padTail mtd fs e) := by
    unfold writeStep
    rw [if_neg (by omega), henter]
    dsimp only
    rw [writePage_eq, setProcessInfo_pos maxSize hm, hprep, hoob, hmerge]
  have hst : (padTail mtd fs e).st = c.st := padTail_st mtd fs e
  have hvo : (padTail mtd fs e).wOffset = v := padTail_wOffset mtd fs e
  have hwl : (padTail mtd fs e).wLength = c.wLength := padTail_wLength mtd fs e
  have hwo : (padTail mtd fs e).writeoob = c.writeoob := padTail_writeoob mtd fs e
  have hip : (padTail mtd fs e).inPad = (padTail mtd fs c).inPad := by rw [hpad]
  have hsent (chip : Chip) : ((padTail mtd fs e).sent mtd.minIoSize (page mtd fs e) chip).wBuffer =
      (padTail mtd fs c).wBuffer := by
    rw [Cursor.sent_wBuffer, page, List.take_append_drop, hpad]
  rw [hstep]
  unfold programPage
  dsimp only
  rw [hvo, hst, hwrite]
  split_ifs with hweak
  · let chip : Chip := ⟨fillBytes c.st.mem (mtd.start + v) mtd.minIoSize junk, calls⟩
    obtain ⟨calls', hret⟩ := retireBlock_block hf hn hv { c.st with toChip := chip }
    have hrel := relocate_eq dev mtd fs
      (c := (padTail mtd fs e).sent mtd.minIoSize (page mtd fs e) chip)
      (by rw [Cursor.sent_wOffset, hvo, Cursor.sent_st, hst]; exact hret)
    rw [Cursor.sent_wOffset, hvo] at hrel
    exact ⟨_, hrel, ⟨rfl, hwl, hsent chip, hip, hwo, ⟨junk, rfl⟩, rfl, rfl⟩⟩
  · refine ⟨_, rfl, ?_⟩
    have hwr : c.wLength - writen mtd fs c = c.wLength - mtd.minIoSize := by
      unfold writen
      rw [hn.pagelen]
      split_ifs <;> omega
    refine ⟨?_, ?_, ?_, ?_, ?_, ?_, ?_, ?_⟩
    · rw [advance_wOffset, Cursor.sent_wOffset, hvo]
    · rw [advance_wLength, Cursor.sent_wLength, hwl, writen_congr mtd fs (t := c) (by simpa using hwl), hwr]
    · rw [advance_wBuffer, hsent, hn.pagelen]
    · rw [advance_inPad, Cursor.sent_inPad, hip]
    · rw [advance_writeoob, Cursor.sent_writeoob, hwo]
    · rw [advance_st, Cursor.sent_st, hpage]
    · rw [advance_st, Cursor.sent_st, hst]
    · rw [advance_st, Cursor.sent_st, hst]

end Step

end LinuxRecovery.PageOutcomes
