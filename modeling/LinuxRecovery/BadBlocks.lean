import LinuxRecovery.BasicErase

namespace LinuxRecovery.BadBlocks

open Loops GoodBlocks Libmtd BlockMap Sysinfo BasicWrite BasicRead BlockScan SysinfoSave BasicErase

variable (dev : Device) (bm : PartInfo) (mtd : MtdDevInfo) (fs : FsKind) (maxSize : ℕ)

def recordedBad (st : BmState) (eb : ℕ) : Bool := mtdBmBlockMapIsBad st (mtdEbRelativeToAbsolute mtd eb)

def AgreeFrom (st : BmState) (w : ℕ) : Prop :=
  ∀ b, w / mtd.ebSize ≤ b → b < mtd.ebCnt → mtdBmBlockMapIsBad st b = recordedBad mtd st b

structure PassSafe (st : BmState) (w : ℕ) (entered : Option ℕ) (after : Chip) : Prop where
  skipped : ∀ a, w ≤ a → a < entered.getD mtd.size → recordedBad mtd st (a / mtd.ebSize) = true
  good : ∀ v, entered = some v → recordedBad mtd st (v / mtd.ebSize) = false
  issued : ∀ v, entered = some v → IssuesTo mtd.start (v / mtd.ebSize) st.toChip after
  idle : entered = none → after = st.toChip

def writeChip : Step Cursor Outcome → Chip
  | .next d => d.st.toChip
  | .done r => r.st.toChip

def readChip : Step ReadCursor ReadOutcome → Chip
  | .next d => d.st.toChip
  | .done r => r.st.toChip

def WriteSafe (progressSize w : ℕ) (buf : List UInt8) (st : BmState) : Prop :=
  ∀ c, (writeLoop dev mtd fs maxSize).Reaches (writeStart fs w progressSize buf st) c →
    c.wLength ≠ 0 → c.wOffset < mtd.size →
    PassSafe mtd c.st c.wOffset ((enterBlock mtd c).map (·.wOffset))
      (writeChip (writeStep dev mtd fs maxSize c))

def ReadSafe (w length : ℕ) (st : BmState) : Prop :=
  ∀ c, (readLoop dev mtd).Reaches (readStart w length st) c → c.length ≠ 0 → c.offset < mtd.size →
    PassSafe mtd c.st c.offset ((readEnterBlock mtd c).map (·.offset)) (readChip (readStep dev mtd c))

section Pass

variable {dev mtd fs maxSize}

theorem relocate_issues (c : Cursor) :
    IssuesTo mtd.start (c.wOffset / mtd.ebSize) c.st.toChip (writeChip (relocate dev mtd fs c)) := by
  have hret (st : BmState) (eb : ℕ) :
      IssuesTo mtd.start eb st.toChip (retireBlock dev mtd fs eb st).2.toChip := by
    have he := mtdErase_issues dev mtd eb st.toChip
    have hm : IssuesTo mtd.start eb (mtdErase dev mtd eb st.toChip).2
        (markBad dev mtd fs eb (mtdErase dev mtd eb st.toChip).2).2 := by
      unfold markBad
      split_ifs
      · exact mtdMarkBad_issues dev mtd eb _
      · exact .refl _
    unfold retireBlock
    dsimp only
    split_ifs
    · exact he
    · exact he.trans hm
    · exact he.trans hm
  have h := hret c.st (mtdOffsetToEbIndex mtd c.wOffset)
  unfold relocate
  split
  · rename_i hr
    rw [hr] at h
    exact h
  · rename_i hr
    rw [hr] at h
    exact h

theorem programPage_issues (data : List UInt8) (oob : Option (List UInt8)) (c : Cursor) :
    IssuesTo mtd.start (c.wOffset / mtd.ebSize) c.st.toChip
      (writeChip (programPage dev mtd fs data oob c)) := by
  have hw := mtdWrite_issues dev mtd (mtdOffsetToEbIndex mtd c.wOffset) (c.wOffset % mtd.ebSize) data oob
    (writeMode fs) c.st.toChip
  unfold programPage
  dsimp only
  split
  · exact hw
  · exact hw.trans (relocate_issues (c.sent mtd.minIoSize data _))
  · exact hw

theorem writePage_issues (c : Cursor) :
    IssuesTo mtd.start (c.wOffset / mtd.ebSize) c.st.toChip (writeChip (writePage dev mtd fs maxSize c)) := by
  rw [writePage_eq]
  split
  · exact (prepared_st mtd fs c) ▸ .refl _
  · split
    · exact (prepared_st mtd fs c) ▸ .refl _
    · rename_i data _
      have h : IssuesTo mtd.start ((prepared mtd fs c).wOffset / mtd.ebSize) (prepared mtd fs c).st.toChip
          (writeChip (programPage dev mtd fs data (takeOob mtd fs (padTail mtd fs c)).1 (prepared mtd fs c))) :=
        programPage_issues data _ _
      rwa [prepared_wOffset, prepared_st] at h

theorem readBlock_issues (c : ReadCursor) :
    IssuesTo mtd.start (c.offset / mtd.ebSize) c.st.toChip (readChip (readBlock dev mtd c)) := by
  have h := mtdRead_issues dev mtd (mtdOffsetToEbIndex mtd c.offset) (c.offset % mtd.ebSize)
    (readUnit mtd c) c.st.toChip
  unfold readBlock
  dsimp only
  split <;> exact h

theorem AgreeFrom.mono {st : BmState} {w v : ℕ} (h : AgreeFrom mtd st w) (hwv : w ≤ v) : AgreeFrom mtd st v :=
  fun b hb => h b ((Nat.div_le_div_right hwv).trans hb)

theorem AgreeFrom.congr {st st' : BmState} {w : ℕ} (h : AgreeFrom mtd st w) (hm : st'.map = st.map) :
    AgreeFrom mtd st' w := by
  intro b hb hlt
  simpa only [recordedBad, mtdBmBlockMapIsBad, hm] using h b hb hlt

theorem AgreeFrom.retire {st : BmState} {w : ℕ} (h : AgreeFrom mtd st w) :
    AgreeFrom mtd (mtdBmBlockMapSet (w / mtd.ebSize) .bad st) (nextBlock mtd.ebSize w) := by
  intro b hb hlt
  rw [div_nextBlock mtd.ebSize_pos] at hb
  have hab := h b (by omega) hlt
  have hne : b ≠ w / mtd.ebSize := by omega
  have hne' : mtdEbRelativeToAbsolute mtd b ≠ w / mtd.ebSize := by
    unfold mtdEbRelativeToAbsolute
    omega
  simp only [recordedBad, set_isBad_bad, hne, hne', decide_false, Bool.false_and, Bool.false_or] at hab ⊢
  exact hab

theorem passSafe_skip {st : BmState} {w : ℕ} {entered : Option ℕ} {after : Chip} (ha : AgreeFrom mtd st w)
    (he : entered = if mtd.size ≤ skipBad mtd st w then none else some (skipBad mtd st w))
    (hissued : ∀ v, entered = some v → IssuesTo mtd.start (v / mtd.ebSize) st.toChip after)
    (hidle : entered = none → after = st.toChip) : PassSafe mtd st w entered after := by
  have hle : w ≤ skipBad mtd st w := le_skip _ _ _
  have hagree (a : ℕ) (hwa : w ≤ a) (hs : a < mtd.size) :
      recordedBad mtd st (a / mtd.ebSize) = mtdBmBlockMapIsBad st (a / mtd.ebSize) :=
    (ha _ (Nat.div_le_div_right hwa) (mtd.lt_ebCnt hs)).symm
  refine ⟨?_, ?_, hissued, hidle⟩
  · intro a hwa hlt
    have hbounds : a < skipBad mtd st w ∧ a < mtd.size := by
      rw [he] at hlt
      split_ifs at hlt with hs
      · exact ⟨hlt.trans_le hs, hlt⟩
      · exact ⟨hlt, lt_trans hlt (not_le.mp hs)⟩
    rw [hagree a hwa hbounds.2]
    exact skip_skipped _ mtd.ebSize_pos hwa hbounds.1
  · intro v hv
    rw [he] at hv
    split_ifs at hv with hs
    cases hv
    rw [hagree _ hle (not_le.mp hs)]
    exact skip_notBad _ mtd.ebSize_pos (not_le.mp hs)

theorem enterBlock_nand {c : Cursor} (hn : mtdTypeIsNand mtd = true) (hs : Settled mtd c)
    (hw : c.wOffset < mtd.size) :
    (enterBlock mtd c).map (·.wOffset) =
      if mtd.size ≤ skipBad mtd c.st c.wOffset then none else some (skipBad mtd c.st c.wOffset) := by
  rw [enterBlock_settled mtd hs hw, enterBlock, if_neg (by simp)]
  simp only [hn, Bool.not_true, Bool.false_eq_true, if_false]
  split_ifs <;> rfl

theorem writeStep_safe {c : Cursor} (hn : mtdTypeIsNand mtd = true) (hs : Settled mtd c)
    (ha : AgreeFrom mtd c.st c.wOffset) (h0 : c.wLength ≠ 0) (hw : c.wOffset < mtd.size) :
    PassSafe mtd c.st c.wOffset ((enterBlock mtd c).map (·.wOffset))
      (writeChip (writeStep dev mtd fs maxSize c)) := by
  have hexit : ¬(c.wLength = 0 ∨ mtd.size ≤ c.wOffset) := by omega
  apply passSafe_skip ha (enterBlock_nand hn hs hw)
  · intro v hv
    obtain ⟨e, he, rfl⟩ := Option.map_eq_some_iff.mp hv
    have h : IssuesTo mtd.start (e.wOffset / mtd.ebSize) e.st.toChip
        (writeChip (writePage dev mtd fs maxSize e)) := writePage_issues e
    have hst : e.st = c.st := by rw [enterBlock_frame mtd he]
    rw [writeStep, if_neg hexit, he, ← hst]
    exact h
  · intro hnone
    rw [writeStep, if_neg hexit, Option.map_eq_none_iff.mp hnone]
    rfl

theorem readEnterBlock_frame {c e : ReadCursor} (h : readEnterBlock mtd c = some e) :
    e = { c with offset := e.offset, blockstart := e.blockstart } := by
  unfold readEnterBlock at h
  dsimp only at h
  split_ifs at h <;> cases h <;> rfl

theorem readStep_safe {c : ReadCursor} (hn : mtdTypeIsNand mtd = true) (hs : ReadSettled mtd c)
    (ha : AgreeFrom mtd c.st c.offset) (h0 : c.length ≠ 0) (hw : c.offset < mtd.size) :
    PassSafe mtd c.st c.offset ((readEnterBlock mtd c).map (·.offset)) (readChip (readStep dev mtd c)) := by
  have hexit : ¬(c.length = 0 ∨ mtd.size ≤ c.offset) := by omega
  have henter := readEnterBlock_nand mtd hn hs hw
  apply passSafe_skip ha
  · rw [henter]
    split_ifs <;> rfl
  · intro v hv
    obtain ⟨e, he, rfl⟩ := Option.map_eq_some_iff.mp hv
    have h : IssuesTo mtd.start (e.offset / mtd.ebSize) e.st.toChip (readChip (readBlock dev mtd e)) :=
      readBlock_issues e
    have hst : e.st = c.st := by rw [readEnterBlock_frame he]
    rw [readStep, if_neg hexit, he, ← hst]
    exact h
  · intro hnone
    rw [readStep, if_neg hexit, Option.map_eq_none_iff.mp hnone]
    rfl

theorem agreeFrom_next {c d : Cursor} (ha : AgreeFrom mtd c.st c.wOffset)
    (h : writeStep dev mtd fs maxSize c = .next d) : AgreeFrom mtd d.st d.wOffset := by
  obtain ⟨e, he, -, hmove⟩ := writeStep_moves dev mtd fs maxSize h
  have hle := enterBlock_le mtd he
  rcases hmove with ⟨ho, hm, -⟩ | ⟨ho, hm, -⟩
  · exact (ha.mono (by omega)).congr hm
  · rw [ho]
    exact (ha.mono hle).retire.congr hm

theorem readSettled_next {c d : ReadCursor} (hn : mtdTypeIsNand mtd = true) (hs : ReadSettled mtd c)
    (h : readStep dev mtd c = .next d) : ReadSettled mtd d := by
  obtain ⟨-, hw, e, he, bytes, chip, -, rfl⟩ := readStep_next dev mtd h
  rw [readEnterBlock_nand mtd hn hs hw] at he
  split_ifs at he with hsize
  cases he
  have hgood : mtdBmBlockMapIsBad c.st (mtdOffsetToEbIndex mtd (skipBad mtd c.st c.offset)) = false :=
    skip_notBad _ mtd.ebSize_pos (not_le.mp hsize)
  intro hb _
  rw [Option.some_inj] at hb
  have hidx := Nat.eq_of_mul_eq_mul_right mtd.ebSize_pos hb
  rw [mtdOffsetToEbIndex, ← hidx]
  exact hgood

theorem agreeFrom_readNext {c d : ReadCursor} (ha : AgreeFrom mtd c.st c.offset)
    (h : readStep dev mtd c = .next d) : AgreeFrom mtd d.st d.offset := by
  obtain ⟨-, -, e, he, bytes, chip, -, rfl⟩ := readStep_next dev mtd h
  have hle := (readEnterBlock_le mtd he).1
  rw [readEnterBlock_frame he] at hle ⊢
  exact (ha.mono (hle.trans (Nat.le_add_right _ _))).congr rfl

theorem writeSafe {progressSize w : ℕ} {buf : List UInt8} {st : BmState} (hn : mtdTypeIsNand mtd = true)
    (ha : AgreeFrom mtd st w) : WriteSafe dev mtd fs maxSize progressSize w buf st := by
  intro c hc h0 hw
  have hinv := (writeLoop dev mtd fs maxSize).reaches_invariant
    (I := fun c => Settled mtd c ∧ AgreeFrom mtd c.st c.wOffset)
    (fun c d hi h => ⟨settled_next dev mtd fs maxSize hi.1 h, agreeFrom_next hi.2 h⟩) hc
    ⟨writeStart_settled mtd fs w progressSize buf st, ha⟩
  exact writeStep_safe hn hinv.1 hinv.2 h0 hw

theorem readSafe {w length : ℕ} {st : BmState} (hn : mtdTypeIsNand mtd = true) (ha : AgreeFrom mtd st w) :
    ReadSafe dev mtd w length st := by
  intro c hc h0 hw
  have hinv := (readLoop dev mtd).reaches_invariant
    (I := fun c => ReadSettled mtd c ∧ AgreeFrom mtd c.st c.offset)
    (fun c d hi h => ⟨readSettled_next hn hi.1 h, agreeFrom_readNext hi.2 h⟩) hc ⟨by rintro ⟨⟩, ha⟩
  exact readStep_safe hn hinv.1 hinv.2 h0 hw

def OnlyAsks (s s' : Chip) : Prop :=
  ∃ new, s'.calls = s.calls ++ new ∧ ∀ call ∈ new, ∃ start eb, call = .isBad start eb

variable (dev mtd) in
theorem mtdIsBad_asks (eb : ℕ) (s : Chip) : OnlyAsks s (mtdIsBad dev mtd eb s).2 := by
  unfold mtdIsBad
  split_ifs
  · exact ⟨[], by simp, by simp⟩
  · exact ⟨[], by simp, by simp⟩
  · exact ⟨[.isBad mtd.start eb], rfl, by simp⟩

def scanChip : Step ScanCursor (Ret × BmState) → Chip
  | .next d => d.st.toChip
  | .done r => r.2.toChip

theorem scanPass_chip (method : OperationMethod) (startEb totalBytes : ℕ) (c : ScanCursor) :
    scanChip (scanPass mtd method startEb totalBytes c) = c.st.toChip := by
  cases h : scanPass mtd method startEb totalBytes c with
  | next d => rw [scanPass_next mtd method h]; rfl
  | done r => rw [scanChip, scanPass_done mtd method h]

variable (dev mtd) in
theorem scanStep_asks (noskipbad : Bool) (method : OperationMethod) (startEb totalBytes : ℕ) (c : ScanCursor) :
    OnlyAsks c.st.toChip (scanChip (scanStep dev mtd noskipbad method startEb totalBytes c)) := by
  have hsame : OnlyAsks c.st.toChip c.st.toChip := ⟨[], by simp, by simp⟩
  have hask := mtdIsBad_asks dev mtd c.eb c.st.toChip
  unfold scanStep
  dsimp only
  split_ifs
  · unfold ScanCursor.exit
    split_ifs <;> exact hsame
  · rw [scanPass_chip]
    exact hsame
  · rw [scanPass_chip]
    exact hsame
  · split
    · rw [scanPass_chip]
      exact hask
    · exact hask
    · exact hask
    · exact hask

theorem OnlyAsks.trans {s t u : Chip} (h : OnlyAsks s t) (h' : OnlyAsks t u) : OnlyAsks s u := by
  obtain ⟨new, hn, ha⟩ := h
  obtain ⟨new', hn', ha'⟩ := h'
  refine ⟨new ++ new', by rw [hn', hn, List.append_assoc], ?_⟩
  intro call hc
  exact (List.mem_append.mp hc).elim (ha call) (ha' call)

theorem scanLoop_asks (noskipbad : Bool) (method : OperationMethod) (startEb totalBytes : ℕ) (c : ScanCursor) :
    OnlyAsks c.st.toChip ((scanLoop dev mtd noskipbad method startEb totalBytes).exec c).2.toChip := by
  induction c using (scanLoop dev mtd noskipbad method startEb totalBytes).induct with
  | h c ih =>
    have h := scanStep_asks dev mtd noskipbad method startEb totalBytes c
    cases hstep : (scanLoop dev mtd noskipbad method startEb totalBytes).step c with
    | done r =>
      rw [Loop.exec_done _ hstep]
      rwa [show scanStep dev mtd noskipbad method startEb totalBytes c = .done r from hstep] at h
    | next d =>
      rw [Loop.exec_next _ hstep]
      rw [show scanStep dev mtd noskipbad method startEb totalBytes c = .next d from hstep] at h
      exact h.trans (ih d hstep)

theorem scan_asks (noskipbad : Bool) (method : OperationMethod) (capacity offset length : ℕ) (st : BmState) :
    OnlyAsks st.toChip (mtdBlockScan dev mtd noskipbad method capacity offset length st).2.toChip := by
  have hsame : OnlyAsks st.toChip st.toChip := ⟨[], by simp, by simp⟩
  have hinit : (mtdBmBlockMapInit (capacity / mtd.ebSize) st).toChip = st.toChip := by
    unfold mtdBmBlockMapInit
    split <;> rfl
  unfold mtdBlockScan
  dsimp only
  split_ifs
  · exact hsame
  · exact hsame
  · rw [← hinit]
    exact scanLoop_asks noskipbad method _ _ _

end Pass

section Erase

def SaveReads (P : MtdDevInfo → SysinfoLayout → BmState → Prop) (start length : ℕ) :
    ℕ → List SysinfoLayout → BmState → Prop
  | _, [], _ => True
  | i, l :: ls, st =>
    if SysinfoLayout.outside l start (start + length) = true ∨ l.reserve ≠ .reserved then
      SaveReads P start length (i + 1) ls st
    else
      (∀ part n st', mtdGetDevInfoByOffset bm l.offset = some part →
        mtdBlockScan dev part false .random bm.capacity l.offset l.length
          (setValue i (l.value.getD (List.replicate l.length 0)) st) = (.off (n + 1), st') → P part l st') ∧
      ∀ st', sysinfoGetValue dev bm i l st = (true, st') → SaveReads P start length (i + 1) ls st'

def HookReads (P : MtdDevInfo → SysinfoLayout → BmState → Prop) (c : EraseCursor) : Prop :=
  ∀ layouts, c.st.sysinfo = some layouts →
    SaveReads dev bm P (c.eb * mtd.ebSize + mtd.start) mtd.ebSize 0 layouts c.st

structure EraseSafe (totalBytes : ℕ) (c : EraseCursor) : Prop where
  skipped : recordedBad mtd c.st c.eb = true → eraseStep dev bm mtd fs totalBytes c = .next c.skipped
  erased : recordedBad mtd c.st c.eb = false → ∀ d, eraseStep dev bm mtd fs totalBytes c = .next d →
    ∃ st new, sysinfoTraversalSave dev bm (c.eb * mtd.ebSize + mtd.start) mtd.ebSize c.st = (true, st) ∧
      d.st.calls = st.calls ++ .erase mtd.start c.eb :: new
  saved : recordedBad mtd c.st c.eb = false →
    HookReads dev bm mtd (fun part l st => ReadSafe dev part (l.offset - part.start) l.length st) c

variable {dev bm mtd fs}

theorem SaveReads.mono {P Q : MtdDevInfo → SysinfoLayout → BmState → Prop}
    (hpq : ∀ part ∈ bm.parts, ∀ l st, P part l st → Q part l st) {start length i : ℕ} {ls : List SysinfoLayout} {st : BmState}
    (h : SaveReads dev bm P start length i ls st) : SaveReads dev bm Q start length i ls st := by
  induction ls generalizing i st with
  | nil => trivial
  | cons l ls ih =>
    unfold SaveReads at h ⊢
    split_ifs at h ⊢
    · exact ih h
    · exact ⟨fun part n st' hp hs => hpq part (mtdGetDevInfoByOffset_mem hp) _ _ (h.1 part n st' hp hs),
        fun st' hv => ih (h.2 st' hv)⟩

theorem formatBlock_calls {c d : EraseCursor} (h : formatBlock dev mtd fs c = .next d) :
    ∃ new, d.st.calls = c.st.calls ++ new := by
  unfold formatBlock at h
  dsimp only at h
  split_ifs at h
  · unfold jffs2WriteCleanmarker at h
    dsimp only at h
    split at h
    · rename_i hm
      cases h
      split at hm <;> cases hm
      exact ⟨_, rfl⟩
    · cases h
  · cases h
    exact ⟨[], by simp⟩

theorem eraseBlock_calls {c d : EraseCursor} (hv : c.eb < mtd.ebCnt)
    (h : eraseBlock dev bm mtd fs c = .next d) :
    ∃ st new, sysinfoTraversalSave dev bm (c.eb * mtd.ebSize + mtd.start) mtd.ebSize c.st = (true, st) ∧
      d.st.calls = st.calls ++ .erase mtd.start c.eb :: new := by
  unfold eraseBlock at h
  split at h
  · cases h
  · rename_i st hsave
    have hcalls : (mtdErase dev mtd c.eb st.toChip).2.calls = st.calls ++ [.erase mtd.start c.eb] := by
      rw [mtdErase, mtdValidEraseBlock, decide_eq_true hv, if_neg (by simp)]
      dsimp only
      split <;> rfl
    refine ⟨st, ?_⟩
    dsimp only at h
    split at h
    · obtain ⟨new, hn⟩ := formatBlock_calls h
      exact ⟨new, hsave, by rw [hn, hcalls, List.append_assoc]; rfl⟩
    · split_ifs at h
      cases h
      obtain ⟨new, hn, -⟩ := mtdMarkBad_issues dev mtd c.eb (mtdErase dev mtd c.eb st.toChip).2
      exact ⟨new, hsave, by
        rw [show (mtdErase dev mtd c.eb st.toChip).2.calls = _ from hcalls, List.append_assoc] at hn
        exact hn⟩
    · cases h

theorem eraseStep_safe {totalBytes : ℕ} {c : EraseCursor} (hn : mtdTypeIsNand mtd = true)
    (hskip : fs.flag.noskipbad = false) (hunlock : fs.flag.unlock = false) (hlt : c.erasedBytes < totalBytes)
    (hv : c.eb < mtd.ebCnt)
    (hsave : recordedBad mtd c.st c.eb = false →
      HookReads dev bm mtd (fun part l st => ReadSafe dev part (l.offset - part.start) l.length st) c) :
    EraseSafe dev bm mtd fs totalBytes c := by
  have hgo : ¬(totalBytes ≤ c.erasedBytes ∨ mtd.ebCnt ≤ c.eb) := by omega
  refine ⟨?_, ?_, hsave⟩
  · intro hbad
    have hcond : (mtdTypeIsNand mtd && !fs.flag.noskipbad &&
        mtdBmBlockMapIsBad c.st (mtdEbRelativeToAbsolute mtd c.eb)) = true := by
      rw [hn, hskip]
      exact hbad
    rw [eraseStep, if_neg hgo, if_pos hcond]
  · intro hgood d h
    have hcond : ¬(mtdTypeIsNand mtd && !fs.flag.noskipbad &&
        mtdBmBlockMapIsBad c.st (mtdEbRelativeToAbsolute mtd c.eb)) = true := by
      rw [hn, hskip]
      intro hbad
      exact absurd (hgood.symm.trans hbad) (by decide)
    rw [eraseStep, if_neg hgo, if_neg hcond, if_neg (by simp [hunlock])] at h
    exact eraseBlock_calls hv h

end Erase

inductive Op where
  | scan (mtd : MtdDevInfo) (noskipbad : Bool) (method : OperationMethod) (offset length : ℕ)
  | erase (mtd : MtdDevInfo) (fs : FsKind) (length : ℕ)
  | write (mtd : MtdDevInfo) (fs : FsKind) (maxSize progressSize : ℕ) (offset : ℤ) (buf : List UInt8)
  | read (mtd : MtdDevInfo) (offset : ℤ) (length : ℕ)

namespace Op

def exec : Op → BmState → BmState
  | scan mtd noskipbad method offset length, st =>
    (mtdBlockScan dev mtd noskipbad method bm.capacity offset length st).2
  | erase mtd fs length, st => (mtdBasicErase dev bm mtd fs length st).2
  | write mtd fs maxSize progressSize offset buf, st =>
    (mtdBasicWrite dev mtd fs maxSize progressSize offset buf st).st
  | read mtd offset length, st => (mtdBasicRead dev mtd offset length st).st

def OnNand : Op → Prop
  | scan mtd _ _ _ _ => mtdTypeIsNand mtd = true
  | erase mtd fs _ => mtdTypeIsNand mtd = true ∧ fs.flag.noskipbad = false
  | write mtd _ _ _ _ _ => mtdTypeIsNand mtd = true
  | read mtd _ _ => mtdTypeIsNand mtd = true

def totalBytes (mtd : MtdDevInfo) (length : ℕ) : ℕ :=
  (mtdOffsetToEbIndex mtd (mtdBlockAlign mtd (mtd.start + length + mtd.ebSize - 1)) -
    mtdOffsetToEbIndex mtd mtd.start) * mtd.ebSize

def Erases (mtd : MtdDevInfo) (fs : FsKind) (length : ℕ) (st : BmState) (c : EraseCursor) : Prop :=
  (eraseLoop dev bm mtd fs (totalBytes mtd length)).Reaches ⟨0, 0, 0, st⟩ c ∧
    c.erasedBytes < totalBytes mtd length ∧ c.eb < mtd.ebCnt

/-- Every pass of the call keeps off the blocks recorded bad, and passes over no other. -/
def Safe : Op → BmState → Prop
  | op@(scan ..), st => OnlyAsks st.toChip (op.exec dev bm st).toChip
  | erase mtd fs length, st => ∀ c, Erases dev bm mtd fs length st c →
      EraseSafe dev bm mtd fs (totalBytes mtd length) c
  | write mtd fs maxSize progressSize offset buf, st =>
    WriteSafe dev mtd fs maxSize progressSize (offset - mtd.start).toNat buf st
  | read mtd offset length, st => ReadSafe dev mtd (offset - mtd.start).toNat length st

/-- The state before a write or a read, those of the save hook included, has the entries of the
two numberings agree; the erase does not have to unlock. -/
def Agrees : Op → BmState → Prop
  | scan .., _ => True
  | erase mtd fs length, st => fs.flag.unlock = false ∧ ∀ c, Erases dev bm mtd fs length st c →
      recordedBad mtd c.st c.eb = false →
        HookReads dev bm mtd (fun part l st => AgreeFrom part st (l.offset - part.start)) c
  | write mtd _ _ _ offset _, st => AgreeFrom mtd st (offset - mtd.start).toNat
  | read mtd offset _, st => AgreeFrom mtd st (offset - mtd.start).toNat

def Along (P : Op → BmState → Prop) : List Op → BmState → Prop
  | [], _ => True
  | op :: ops, st => P op st ∧ Along P ops (op.exec dev bm st)

variable {dev bm}

theorem Along.imp {P Q : Op → BmState → Prop} {ops : List Op} {st : BmState}
    (hpq : ∀ op ∈ ops, ∀ st, P op st → Q op st) (h : Along dev bm P ops st) : Along dev bm Q ops st := by
  induction ops generalizing st with
  | nil => trivial
  | cons op ops ih =>
    exact ⟨hpq op List.mem_cons_self st h.1, ih (fun op hop => hpq op (List.mem_cons_of_mem _ hop)) h.2⟩

theorem safe_of_agrees (hparts : ∀ part ∈ bm.parts, mtdTypeIsNand part = true) {op : Op} {st : BmState}
    (hn : op.OnNand) (h : op.Agrees dev bm st) : op.Safe dev bm st := by
  cases op with
  | scan mtd noskipbad method offset length => exact scan_asks noskipbad method bm.capacity offset length st
  | erase mtd fs length =>
    intro c hc
    refine eraseStep_safe hn.1 hn.2 h.1 hc.2.1 hc.2.2 (fun hgood layouts hl => ?_)
    exact (h.2 c hc hgood layouts hl).mono (fun part hp l st => readSafe (hparts part hp))
  | write mtd fs maxSize progressSize offset buf => exact writeSafe hn h
  | read mtd offset length => exact readSafe hn h

/-- No run programs, reads or passes over the wrong block while the two numberings agree. -/
theorem along_safe (hparts : ∀ part ∈ bm.parts, mtdTypeIsNand part = true) {ops : List Op} {st : BmState}
    (hn : ∀ op ∈ ops, op.OnNand) (h : Along dev bm (Agrees dev bm) ops st) : Along dev bm (Safe dev bm) ops st :=
  h.imp (fun op hop _ => safe_of_agrees hparts (hn op hop))

def secondBlocksBad : Device :=
  { failsAt [] with badBlock := fun calls =>
      if calls.getLast? = some (.isBad 0 1) ∨ calls.getLast? = some (.isBad 16 1) then .bad else .good }

theorem along_safe_small :
    Along secondBlocksBad ⟨[smallNand 0 (by decide), smallNand 16 (by decide)], 32⟩
      (Safe secondBlocksBad ⟨[smallNand 0 (by decide), smallNand 16 (by decide)], 32⟩)
      [.scan (smallNand 0 (by decide)) false .partition 0 16, .scan (smallNand 16 (by decide)) false .partition 16 16,
        .write (smallNand 16 (by decide)) fsNormal 4 0 16 [1, 2, 3, 4, 5, 6],
        .read (smallNand 16 (by decide)) 16 6] ⟨⟨fun _ => 0xFF, []⟩, none, none⟩ := by
  have hagree (st : BmState) (w : ℕ) (h : ∀ b < 4, mtdBmBlockMapIsBad st b = mtdBmBlockMapIsBad st (b + 4)) :
      AgreeFrom (smallNand 16 (by decide)) st w := by
    intro b _ hb
    exact h b hb
  apply along_safe
  · intro part hpart
    fin_cases hpart <;> rfl
  · intro op hop
    fin_cases hop <;> rfl
  · exact ⟨trivial, trivial, hagree _ _ (by decide), hagree _ _ (by decide), trivial⟩

/-- The chip calls the first block of a partition that starts at block 4 bad; the scan records it
as block 4, and the write asks for entry 0. -/
def firstBlockBad : Device :=
  { failsAt [] with badBlock := fun calls => if calls.getLast? = some (.isBad 16 0) then .bad else .good }

theorem bad_block_programmed :
    ¬Along firstBlockBad ⟨[smallNand 0 (by decide), smallNand 16 (by decide)], 32⟩
      (Safe firstBlockBad ⟨[smallNand 0 (by decide), smallNand 16 (by decide)], 32⟩)
      [.scan (smallNand 16 (by decide)) false .partition 16 16,
        .write (smallNand 16 (by decide)) fsNormal 4 0 16 [1, 2]] ⟨⟨fun _ => 0xFF, []⟩, none, none⟩ := by
  rintro ⟨-, hwrite, -⟩
  have hgood := (hwrite _ .refl (by decide) (by decide)).good 0 (by decide)
  exact absurd hgood (by decide)

end Op

end LinuxRecovery.BadBlocks
