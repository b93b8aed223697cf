import LinuxRecovery.BasicWrite

namespace LinuxRecovery.BasicRead

open Loops ByteMemory GoodBlocks Libmtd BlockMap BasicWrite

variable (dev : Device) (mtd : MtdDevInfo)

structure ReadCursor where
  offset : ℕ
  length : ℕ
  buffer : List UInt8
  blockstart : Option ℕ
  st : BmState

structure ReadOutcome where
  ret : Ret
  buffer : List UInt8
  st : BmState

def ReadCursor.outcome (c : ReadCursor) (r : Ret) : ReadOutcome := ⟨r, c.buffer, c.st⟩

def readEnterBlock (c : ReadCursor) : Option ReadCursor :=
  if c.blockstart = some (mtdBlockAlign mtd c.offset) then some c
  else if !mtdTypeIsNand mtd then some { c with blockstart := some (mtdBlockAlign mtd c.offset) }
  else
    let w := skipBad mtd c.st c.offset
    if mtd.size ≤ w then none
    else some { c with offset := w, blockstart := some (mtdBlockAlign mtd w) }

def readUnit (c : ReadCursor) : ℕ :=
  if mtd.ebSize - c.offset % mtd.ebSize < c.length then mtd.ebSize - c.offset % mtd.ebSize else c.length

def readBlock (c : ReadCursor) : Step ReadCursor ReadOutcome :=
  let n := readUnit mtd c
  let (err, bytes, chip) :=
    mtdRead dev mtd (mtdOffsetToEbIndex mtd c.offset) (c.offset % mtd.ebSize) n c.st.toChip
  match err with
  | some _ => .done (ReadCursor.outcome { c with buffer := c.buffer ++ bytes, st := { c.st with toChip := chip } } .fail)
  | none =>
    .next { c with
      offset := c.offset + n
      length := c.length - n
      buffer := c.buffer ++ bytes
      st := { c.st with toChip := chip } }

def readStep (c : ReadCursor) : Step ReadCursor ReadOutcome :=
  if c.length = 0 ∨ mtd.size ≤ c.offset then .done (c.outcome (.off (c.offset + mtd.start)))
  else
    match readEnterBlock mtd c with
    | none => .done (c.outcome .fail)
    | some c => readBlock dev mtd c

theorem readUnit_pos {c : ReadCursor} (h : c.length ≠ 0) : 0 < readUnit mtd c := by
  have := Nat.mod_lt c.offset mtd.ebSize_pos
  unfold readUnit
  split_ifs <;> omega

theorem readUnit_le (c : ReadCursor) : readUnit mtd c ≤ c.length := by
  unfold readUnit
  split_ifs <;> omega

theorem readUnit_block (c : ReadCursor) : c.offset % mtd.ebSize + readUnit mtd c ≤ mtd.ebSize := by
  have := Nat.mod_lt c.offset mtd.ebSize_pos
  unfold readUnit
  split_ifs <;> omega

theorem readEnterBlock_le {c e : ReadCursor} (h : readEnterBlock mtd c = some e) :
    c.offset ≤ e.offset ∧ e.length = c.length := by
  unfold readEnterBlock at h
  dsimp only at h
  split_ifs at h <;> cases h
  · exact ⟨le_rfl, rfl⟩
  · exact ⟨le_rfl, rfl⟩
  · exact ⟨le_skip _ _ _, rfl⟩

theorem readStep_next {c d : ReadCursor} (h : readStep dev mtd c = .next d) :
    c.length ≠ 0 ∧ c.offset < mtd.size ∧ ∃ e, readEnterBlock mtd c = some e ∧
      ∃ bytes chip,
        mtdRead dev mtd (mtdOffsetToEbIndex mtd e.offset) (e.offset % mtd.ebSize) (readUnit mtd e)
          e.st.toChip = (none, bytes, chip) ∧
        d = { e with
          offset := e.offset + readUnit mtd e
          length := e.length - readUnit mtd e
          buffer := e.buffer ++ bytes
          st := { e.st with toChip := chip } } := by
  unfold readStep at h
  split_ifs at h with hexit
  split at h
  · cases h
  · rename_i e he
    unfold readBlock at h
    dsimp only at h
    split at h
    · cases h
    · rename_i herr
      cases h
      exact ⟨by omega, by omega, e, he, _, _, Prod.ext herr rfl, rfl⟩

def readLoop : Loop ReadCursor ReadOutcome where
  step := readStep dev mtd
  measure c := mtd.size - c.offset
  decreasing := by
    intro c d h
    obtain ⟨hl, hw, e, he, bytes, chip, -, rfl⟩ := readStep_next dev mtd h
    obtain ⟨hle, hlen⟩ := readEnterBlock_le mtd he
    have := readUnit_pos mtd (c := e) (hlen ▸ hl)
    dsimp only
    omega

def readStart (w length : ℕ) (st : BmState) : ReadCursor := ⟨w, length, [], none, st⟩

/-- In front of the partition the driver refuses the read, unless the cursor, whose block index is
truncated towards zero, steps over a bad first block into it. A failure also closes the partition's descriptor:
the device then serves no request. -/
def mtdBasicRead (offset : ℤ) (length : ℕ) (st : BmState) : ReadOutcome :=
  let w := offset - mtd.start
  if !mtdBmBlockMapIsValid st then ⟨.fail, [], st⟩
  else if 0 ≤ w then (readLoop dev mtd).exec (readStart w.toNat length st)
  else if length = 0 then ⟨if 0 ≤ offset then .off offset.toNat else .fail, [], st⟩
  else if -(mtd.ebSize : ℤ) < w ∧ mtdTypeIsNand mtd = true ∧ mtdBmBlockMapIsBad st 0 = true then
    (readLoop dev mtd).exec (readStart 0 length st)
  else ⟨.fail, [], st⟩

def ReadSettled (c : ReadCursor) : Prop :=
  c.blockstart = some (mtdBlockAlign mtd c.offset) → mtdTypeIsNand mtd = true →
    mtdBmBlockMapIsBad c.st (mtdOffsetToEbIndex mtd c.offset) = false

theorem readEnterBlock_nand {c : ReadCursor} (hn : mtdTypeIsNand mtd = true) (hs : ReadSettled mtd c)
    (hw : c.offset < mtd.size) :
    readEnterBlock mtd c =
      if mtd.size ≤ skipBad mtd c.st c.offset then none
      else some { c with
        offset := skipBad mtd c.st c.offset
        blockstart := some (mtdBlockAlign mtd (skipBad mtd c.st c.offset)) } := by
  by_cases hb : c.blockstart = some (mtdBlockAlign mtd c.offset)
  · have hskip : skipBad mtd c.st c.offset = c.offset := skip_good _ _ (hs hb hn)
    rw [readEnterBlock, if_pos hb, hskip, if_neg (by omega), ← hb]
  · simp [readEnterBlock, hb, hn]

theorem mtdRead_unit (hread : ∀ calls start eb offs len, dev.reply (calls ++ [.read start eb offs len]) = none)
    (s : Chip) {w n : ℕ} (hw : w < mtd.size) (hn : w % mtd.ebSize + n ≤ mtd.ebSize) :
    ∃ calls, mtdRead dev mtd (mtdOffsetToEbIndex mtd w) (w % mtd.ebSize) n s =
      (none, readBytes s.mem (mtd.start + w) n, ⟨s.mem, calls⟩) := by
  have haddr : address mtd (mtdOffsetToEbIndex mtd w) (w % mtd.ebSize) = mtd.start + w := by
    have := Nat.div_add_mod' w mtd.ebSize
    simp only [address, mtdOffsetToEbIndex]
    omega
  refine ⟨s.calls ++ [.read mtd.start (mtdOffsetToEbIndex mtd w) (w % mtd.ebSize) n], ?_⟩
  unfold mtdRead
  rw [mtdValidEraseBlock, mtdOffsetToEbIndex, decide_eq_true (mtd.lt_ebCnt hw), if_neg (by simp),
    if_neg (by omega)]
  dsimp only
  rw [hread]
  rw [mtdOffsetToEbIndex] at haddr
  rw [haddr]

@[simps offset length buffer blockstart]
def ReadCursor.filled (c : ReadCursor) (v : ℕ) (bytes : List UInt8) (calls : List DevCall) : ReadCursor where
  offset := v + bytes.length
  length := c.length - bytes.length
  buffer := c.buffer ++ bytes
  blockstart := some (mtdBlockAlign mtd v)
  st := { c.st with toChip := ⟨c.st.mem, calls⟩ }

@[simp] theorem filled_isBad (c : ReadCursor) (v : ℕ) (bytes : List UInt8) (calls : List DevCall) :
    mtdBmBlockMapIsBad (c.filled mtd v bytes calls).st = mtdBmBlockMapIsBad c.st := rfl

@[simp] theorem filled_mem (c : ReadCursor) (v : ℕ) (bytes : List UInt8) (calls : List DevCall) :
    (c.filled mtd v bytes calls).st.mem = c.st.mem := rfl

section Pass

variable (hn : mtdTypeIsNand mtd = true)
  (hread : ∀ calls start eb offs len, dev.reply (calls ++ [.read start eb offs len]) = none)
  {c : ReadCursor} (hs : ReadSettled mtd c)
include hn hread hs

theorem readStep_unit (h0 : c.length ≠ 0) (hv : skipBad mtd c.st c.offset < mtd.size) :
    ∃ n calls, 0 < n ∧ n ≤ c.length ∧ skipBad mtd c.st c.offset % mtd.ebSize + n ≤ mtd.ebSize ∧
      readStep dev mtd c = .next (c.filled mtd (skipBad mtd c.st c.offset)
        (readBytes c.st.mem (mtd.start + skipBad mtd c.st c.offset) n) calls) := by
  have hle : c.offset ≤ skipBad mtd c.st c.offset := le_skip _ _ _
  have henter := readEnterBlock_nand mtd hn hs (by omega)
  rw [if_neg (by omega)] at henter
  generalize skipBad mtd c.st c.offset = v at *
  let e : ReadCursor := { c with offset := v, blockstart := some (mtdBlockAlign mtd v) }
  have hunit : v % mtd.ebSize + readUnit mtd e ≤ mtd.ebSize := readUnit_block mtd e
  obtain ⟨calls, hrd⟩ := mtdRead_unit dev mtd hread c.st.toChip hv hunit
  refine ⟨readUnit mtd e, calls, readUnit_pos mtd (c := e) h0, readUnit_le mtd e, hunit, ?_⟩
  rw [readStep, if_neg (by omega), henter]
  dsimp only
  rw [readBlock]
  dsimp only
  rw [hrd]
  simp [ReadCursor.filled, e]

theorem readLoop_usable :
    ((readLoop dev mtd).exec c).buffer = c.buffer ++
        ((usable (mtdBmBlockMapIsBad c.st) mtd.ebSize mtd.size c.offset).take c.length).map
          (fun a => c.st.mem (mtd.start + a)) ∧
      (c.length ≤ (usable (mtdBmBlockMapIsBad c.st) mtd.ebSize mtd.size c.offset).length →
        ∃ n, ((readLoop dev mtd).exec c).ret = .off n) := by
  induction c using (readLoop dev mtd).induct with
  | h c ih =>
    by_cases hexit : c.length = 0 ∨ mtd.size ≤ c.offset
    · have hdone : readStep dev mtd c = .done (c.outcome (.off (c.offset + mtd.start))) := if_pos hexit
      rw [Loop.exec_done _ hdone]
      refine ⟨?_, fun _ => ⟨_, rfl⟩⟩
      rcases hexit with h0 | hend
      · simp [ReadCursor.outcome, h0]
      · simp [ReadCursor.outcome, usable_end _ hend]
    · rw [not_or, not_le] at hexit
      have huse : usable (mtdBmBlockMapIsBad c.st) mtd.ebSize mtd.size (skipBad mtd c.st c.offset) =
          usable (mtdBmBlockMapIsBad c.st) mtd.ebSize mtd.size c.offset := usable_skip_eq _ mtd.ebSize_pos _
      by_cases hv : skipBad mtd c.st c.offset < mtd.size
      · obtain ⟨n, calls, hpos, hle, hblock, hstep⟩ := readStep_unit dev mtd hn hread hs hexit.1 hv
        have hgood : mtdBmBlockMapIsBad c.st (skipBad mtd c.st c.offset / mtd.ebSize) = false :=
          skip_notBad _ mtd.ebSize_pos hv
        rw [← huse]
        generalize skipBad mtd c.st c.offset = v at *
        have hfits : v + n ≤ mtd.size := by
          have h1 := nextBlock_le mtd.ebSize_pos mtd.size_dvd hv
          rw [nextBlock_eq mtd.ebSize_pos] at h1
          have h2 := Nat.mod_le v mtd.ebSize
          omega
        have hrun := usable_run (mtdBmBlockMapIsBad c.st) hgood hblock hfits
        have hset : ReadSettled mtd (c.filled mtd v (readBytes c.st.mem (mtd.start + v) n) calls) := by
          intro hb _
          have hidx : v / mtd.ebSize = (v + n) / mtd.ebSize := by
            apply Nat.eq_of_mul_eq_mul_right mtd.ebSize_pos
            simpa [mtdBlockAlign] using hb
          simpa [mtdOffsetToEbIndex, ← hidx] using hgood
        have hnext := ih _ hstep hset
        simp only [ReadCursor.filled_buffer, ReadCursor.filled_length, ReadCursor.filled_offset,
          filled_isBad, filled_mem, readBytes_length] at hnext
        rw [Loop.exec_next _ hstep, hrun]
        refine ⟨?_, fun h => hnext.2 ?_⟩
        · rw [hnext.1, List.take_append, List.map_append, List.length_range',
            List.take_of_length_le (l := List.range' v n) (by simpa using hle), List.append_assoc, readBytes,
            ← List.map_add_range', List.map_map]
          rfl
        · rw [List.length_append, List.length_range'] at h
          exact (by omega : c.length - n ≤ (usable (mtdBmBlockMapIsBad c.st) mtd.ebSize mtd.size (v + n)).length)
      · have hdone : readStep dev mtd c = .done (c.outcome .fail) := by
          rw [readStep, if_neg (by omega), readEnterBlock_nand mtd hn hs hexit.2, if_pos (by omega)]
        rw [Loop.exec_done _ hdone, ← huse, usable_end _ (by omega)]
        exact ⟨by simp [ReadCursor.outcome], fun h => absurd (Nat.le_zero.mp h) hexit.1⟩

end Pass

theorem basicRead_usable (hn : mtdTypeIsNand mtd = true)
    (hread : ∀ calls start eb offs len, dev.reply (calls ++ [.read start eb offs len]) = none)
    {st : BmState} (hm : st.map.isSome = true) (w length : ℕ) :
    (mtdBasicRead dev mtd ((w + mtd.start : ℕ) : ℤ) length st).buffer =
        ((usable (mtdBmBlockMapIsBad st) mtd.ebSize mtd.size w).take length).map
          (fun a => st.mem (mtd.start + a)) ∧
      (length ≤ (usable (mtdBmBlockMapIsBad st) mtd.ebSize mtd.size w).length →
        ∃ n, (mtdBasicRead dev mtd ((w + mtd.start : ℕ) : ℤ) length st).ret = .off n) := by
  have hsub : ((w + mtd.start : ℕ) : ℤ) - mtd.start = w := by omega
  have heq : mtdBasicRead dev mtd ((w + mtd.start : ℕ) : ℤ) length st =
      (readLoop dev mtd).exec (readStart w length st) := by
    unfold mtdBasicRead
    dsimp only
    rw [hsub, if_neg (by simp [mtdBmBlockMapIsValid, hm]), if_pos (by omega), Int.toNat_natCast]
  rw [heq]
  have h := readLoop_usable dev mtd hn hread (c := readStart w length st) (by rintro ⟨⟩)
  simpa [readStart] using h

end LinuxRecovery.BasicRead
