import LinuxRecovery.SysinfoSave

namespace LinuxRecovery.SysinfoHook

open Loops ByteMemory Libmtd BlockMap Sysinfo BasicWrite BasicRead BlockScan SysinfoSave

def Numbered (mtd : MtdDevInfo) (b n : ℕ) : Prop := n = b ∨ n = mtdEbRelativeToAbsolute mtd b

/-- No request for block `b` fails, nor one for a block that shares a number with it, and the chip
calls none of them bad. -/
structure Steady (dev : Device) (mtd : MtdDevInfo) (b : ℕ) : Prop where
  reply : ∀ calls call, Numbered mtd b call.target.2 ∨
    Numbered mtd b (call.target.2 + call.target.1 / mtd.ebSize) → dev.reply (calls ++ [call]) = none
  good : ∀ calls start eb, Numbered mtd b (eb + start / mtd.ebSize) →
    dev.badBlock (calls ++ [.isBad start eb]) = .good

structure InBlock (mtd : MtdDevInfo) (l : SysinfoLayout) (b : ℕ) : Prop where
  valid : b < mtd.ebCnt
  low : mtd.start + b * mtd.ebSize ≤ l.offset
  high : l.offset + l.length ≤ mtd.start + (b + 1) * mtd.ebSize
  nonempty : 0 < l.length

def SameTable (ls ls' : List SysinfoLayout) : Prop :=
  List.Forall₂ (fun l l' => l'.offset = l.offset ∧ l'.length = l.length ∧ l'.reserve = l.reserve) ls ls'

/-- The map serves block `b` under both of its numbers, the layout table is in place, and a value
cached for the layout at index `i` is as long as its region. -/
structure Held (mtd : MtdDevInfo) (b : ℕ) (table : List SysinfoLayout) (i : ℕ) (st : BmState) : Prop where
  mapped : st.map.isSome = true
  good : ∀ n, Numbered mtd b n → mtdBmBlockMapIsBad st n = false
  table : ∃ ls, st.sysinfo = some ls ∧ SameTable table ls ∧
    ∀ l, ls[i]? = some l → ∀ v, l.value = some v → v.length = l.length

/-- Every reserved region begins in the partition. -/
def AllIn (bm : PartInfo) (mtd : MtdDevInfo) (ls : List SysinfoLayout) : Prop :=
  ∀ l ∈ ls, l.reserve = .reserved → mtdGetDevInfoByOffset bm l.offset = some mtd

def isChange : DevCall → Bool
  | .erase _ _ => true
  | .write .. => true
  | _ => false

structure Calm (mtd : MtdDevInfo) (b : ℕ) (st st' : BmState) : Prop where
  mem : st'.mem = st.mem
  calls : ∃ new, st'.calls = st.calls ++ new ∧ ∀ call ∈ new, isChange call = false
  mapped : st.map.isSome = true → st'.map.isSome = true
  good : (∀ n, Numbered mtd b n → mtdBmBlockMapIsBad st n = false) →
    ∀ n, Numbered mtd b n → mtdBmBlockMapIsBad st' n = false

variable {dev : Device} {bm : PartInfo} {mtd part : MtdDevInfo} {b i : ℕ} {table : List SysinfoLayout}
  {st st' st'' : BmState}

theorem Calm.refl (st : BmState) : Calm mtd b st st := ⟨rfl, ⟨[], by simp, by simp⟩, id, id⟩

theorem Calm.trans (h : Calm mtd b st st') (h' : Calm mtd b st' st'') : Calm mtd b st st'' := by
  obtain ⟨new, hn, hc⟩ := h.calls
  obtain ⟨new', hn', hc'⟩ := h'.calls
  refine ⟨h'.mem.trans h.mem, ⟨new ++ new', by rw [hn', hn, List.append_assoc], ?_⟩,
    fun hm => h'.mapped (h.mapped hm), fun hg => h'.good (h.good hg)⟩
  intro call hcall
  exact (List.mem_append.mp hcall).elim (hc call) (hc' call)

theorem Calm.held (h : Calm mtd b st st') (hs : st'.sysinfo = st.sysinfo) (hh : Held mtd b table i st) :
    Held mtd b table i st' := ⟨h.mapped hh.mapped, h.good hh.good, hs ▸ hh.table⟩

theorem calm_set {eb : ℕ} {status : BlkStatus} (h : status ≠ .bad ∨ ¬Numbered mtd b eb) (st : BmState) :
    Calm mtd b st (mtdBmBlockMapSet eb status st) := by
  refine ⟨rfl, ⟨[], by simp, by simp⟩, by simp, fun hg n hn => ?_⟩
  by_cases hbad : status = .bad
  · have hne : n ≠ eb := by
      rintro rfl
      exact (h.resolve_left (not_not.mpr hbad)) hn
    rw [hbad, set_isBad_bad]
    simp [hne, hg n hn]
  · rw [set_isBad_other st eb n status hbad, hg n hn]

theorem calm_chip {chip : Chip} (hm : chip.mem = st.mem)
    (hc : ∃ new, chip.calls = st.calls ++ new ∧ ∀ call ∈ new, isChange call = false) :
    Calm mtd b st { st with toChip := chip } := ⟨hm, hc, id, fun hg => hg⟩

variable (dev part mtd b) in
theorem calm_isBad (eb : ℕ) (st : BmState) :
    Calm mtd b st { st with toChip := (mtdIsBad dev part eb st.toChip).2 } := by
  apply calm_chip
  · unfold mtdIsBad
    split_ifs <;> rfl
  · unfold mtdIsBad
    split_ifs
    · exact ⟨[], by simp, by simp⟩
    · exact ⟨[], by simp, by simp⟩
    · exact ⟨[.isBad part.start eb], rfl, by simp [isChange]⟩

theorem mtdIsBad_bad (hs : Steady dev mtd b) (hp : part.ebSize = mtd.ebSize) {eb : ℕ} {s : Chip}
    (h : (mtdIsBad dev part eb s).1 = .bad) : ¬Numbered mtd b (mtdEbRelativeToAbsolute part eb) := by
  intro hn
  unfold mtdIsBad at h
  split_ifs at h
  rw [mtdEbRelativeToAbsolute, mtdOffsetToEbIndex, hp] at hn
  dsimp only at h
  rw [hs.good _ _ _ hn] at h
  cases h

theorem init_calm (count : ℕ) (st : BmState) : Calm mtd b st (mtdBmBlockMapInit count st) ∧
    (mtdBmBlockMapInit count st).sysinfo = st.sysinfo := by
  unfold mtdBmBlockMapInit
  cases hm : st.map with
  | some m => exact ⟨.refl _, rfl⟩
  | none => exact ⟨⟨rfl, ⟨[], by simp, by simp⟩, fun _ => rfl, fun _ n _ => rfl⟩, rfl⟩

section Scan

variable (hs : Steady dev mtd b) (hp : part.ebSize = mtd.ebSize) (noskipbad : Bool) (method : OperationMethod)
include hs hp

theorem scanStep_calm (startEb totalBytes : ℕ) (c : ScanCursor) :
    match scanStep dev part noskipbad method startEb totalBytes c with
    | .next d => Calm mtd b c.st d.st ∧ d.st.sysinfo = c.st.sysinfo
    | .done r => Calm mtd b c.st r.2 ∧ r.2.sysinfo = c.st.sysinfo := by
  have hpass (c' : ScanCursor) (h : Calm mtd b c.st c'.st ∧ c'.st.sysinfo = c.st.sysinfo) :
      match scanPass part method startEb totalBytes c' with
      | .next d => Calm mtd b c.st d.st ∧ d.st.sysinfo = c.st.sysinfo
      | .done r => Calm mtd b c.st r.2 ∧ r.2.sysinfo = c.st.sysinfo := by
    cases hr : scanPass part method startEb totalBytes c' with
    | next d =>
      rw [scanPass_next part method hr]
      exact h
    | done r =>
      dsimp only
      rw [scanPass_done part method hr]
      exact h
  unfold scanStep
  by_cases h1 : part.ebCnt ≤ c.eb
  · rw [if_pos h1]
    dsimp only
    unfold ScanCursor.exit
    split_ifs <;> exact ⟨.refl _, rfl⟩
  · rw [if_neg h1]
    dsimp only
    have htag : Calm mtd b c.st (mtdBmBlockMapSet (mtdEbRelativeToAbsolute part c.eb) .scan c.st) :=
      calm_set (.inl (by simp)) c.st
    have hask := htag.trans (calm_isBad dev mtd part b c.eb _)
    by_cases h2 : (mtdBmBlockMapIsTaged c.st (mtdEbRelativeToAbsolute part c.eb) &&
        !mtdBmBlockMapIsBad c.st (mtdEbRelativeToAbsolute part c.eb)) = true
    · rw [if_pos h2]
      exact hpass c ⟨.refl _, rfl⟩
    · rw [if_neg h2]
      by_cases h3 : part.type = .norflash ∨ noskipbad = true
      · rw [if_pos h3]
        exact hpass _ ⟨htag, rfl⟩
      · rw [if_neg h3]
        cases hr : (mtdIsBad dev part c.eb
            (mtdBmBlockMapSet (mtdEbRelativeToAbsolute part c.eb) .scan c.st).toChip).1 with
        | good => exact hpass _ ⟨hask, rfl⟩
        | bad =>
          exact ⟨hask.trans (calm_set (.inr (mtdIsBad_bad hs hp hr)) _), rfl⟩
        | error => exact ⟨hask, rfl⟩
        | unsupported => exact ⟨hask, rfl⟩

theorem scanLoop_calm (startEb totalBytes : ℕ) (c : ScanCursor) :
    Calm mtd b c.st ((scanLoop dev part noskipbad method startEb totalBytes).exec c).2 ∧
      ((scanLoop dev part noskipbad method startEb totalBytes).exec c).2.sysinfo = c.st.sysinfo := by
  apply Loop.exec_compose (scanLoop dev part noskipbad method startEb totalBytes)
    (R := fun c d => Calm mtd b c.st d.st ∧ d.st.sysinfo = c.st.sysinfo)
    (S := fun c r => Calm mtd b c.st r.2 ∧ r.2.sysinfo = c.st.sysinfo)
  · intro c d hd
    have h := scanStep_calm hs hp noskipbad method startEb totalBytes c
    rwa [show scanStep dev part noskipbad method startEb totalBytes c = .next d from hd] at h
  · intro c r hr
    have h := scanStep_calm hs hp noskipbad method startEb totalBytes c
    rwa [show scanStep dev part noskipbad method startEb totalBytes c = .done r from hr] at h
  · exact fun c d r h h' => ⟨h.1.trans h'.1, h'.2.trans h.2⟩

theorem scan_calm (capacity offset length : ℕ) (st : BmState) :
    Calm mtd b st (mtdBlockScan dev part noskipbad method capacity offset length st).2 ∧
      (mtdBlockScan dev part noskipbad method capacity offset length st).2.sysinfo = st.sysinfo := by
  have hinit : Calm mtd b st (mtdBmBlockMapInit (capacity / part.ebSize) st) ∧
      (mtdBmBlockMapInit (capacity / part.ebSize) st).sysinfo = st.sysinfo := init_calm _ st
  unfold mtdBlockScan
  dsimp only
  split_ifs
  · exact ⟨.refl _, rfl⟩
  · exact ⟨.refl _, rfl⟩
  · let c : ScanCursor := ⟨mtdOffsetToEbIndex part offset - mtdOffsetToEbIndex part part.start, 0,
      mtdBmBlockMapInit (capacity / part.ebSize) st⟩
    exact ⟨hinit.1.trans (scanLoop_calm hs hp noskipbad method _ _ c).1,
      (scanLoop_calm hs hp noskipbad method _ _ c).2.trans hinit.2⟩

end Scan

section Read

variable (dev part mtd b) in
theorem calm_read (eb offs len : ℕ) (st : BmState) :
    Calm mtd b st { st with toChip := (mtdRead dev part eb offs len st.toChip).2.2 } := by
  apply calm_chip
  · unfold mtdRead
    split_ifs <;> rfl
  · unfold mtdRead
    split_ifs
    · exact ⟨[], by simp, by simp⟩
    · exact ⟨[], by simp, by simp⟩
    · exact ⟨[.read part.start eb offs len], rfl, by simp [isChange]⟩

variable (dev part mtd b) in
theorem readStep_calm (c : ReadCursor) :
    match readStep dev part c with
    | .next d => Calm mtd b c.st d.st ∧ d.st.sysinfo = c.st.sysinfo
    | .done r => Calm mtd b c.st r.st ∧ r.st.sysinfo = c.st.sysinfo := by
  unfold readStep
  by_cases hexit : c.length = 0 ∨ part.size ≤ c.offset
  · rw [if_pos hexit]
    exact ⟨.refl _, rfl⟩
  · rw [if_neg hexit]
    cases he : readEnterBlock part c with
    | none => exact ⟨.refl _, rfl⟩
    | some e =>
      have hst : e.st = c.st := by
        unfold readEnterBlock at he
        dsimp only at he
        split_ifs at he <;> cases he <;> rfl
      have hread := calm_read dev mtd part b
        (mtdOffsetToEbIndex part e.offset) (e.offset % part.ebSize) (readUnit part e) e.st
      rw [← hst]
      dsimp only
      unfold readBlock
      dsimp only
      cases (mtdRead dev part (mtdOffsetToEbIndex part e.offset) (e.offset % part.ebSize) (readUnit part e)
        e.st.toChip).1 with
      | none => exact ⟨hread, rfl⟩
      | some err => exact ⟨hread, rfl⟩

theorem readLoop_calm (c : ReadCursor) : Calm mtd b c.st ((readLoop dev part).exec c).st ∧
    ((readLoop dev part).exec c).st.sysinfo = c.st.sysinfo := by
  apply Loop.exec_compose (readLoop dev part) (R := fun c d => Calm mtd b c.st d.st ∧ d.st.sysinfo = c.st.sysinfo)
    (S := fun c r => Calm mtd b c.st r.st ∧ r.st.sysinfo = c.st.sysinfo)
  · intro c d hd
    have h := readStep_calm dev mtd part b c
    rwa [show readStep dev part c = .next d from hd] at h
  · intro c r hr
    have h := readStep_calm dev mtd part b c
    rwa [show readStep dev part c = .done r from hr] at h
  · exact fun c d r h h' => ⟨h.1.trans h'.1, h'.2.trans h.2⟩

theorem read_calm (offset : ℤ) (length : ℕ) (st : BmState) :
    Calm mtd b st (mtdBasicRead dev part offset length st).st ∧
      (mtdBasicRead dev part offset length st).st.sysinfo = st.sysinfo := by
  unfold mtdBasicRead
  dsimp only
  split_ifs
  · exact ⟨.refl _, rfl⟩
  · exact readLoop_calm (readStart _ length st)
  · exact ⟨.refl _, rfl⟩
  · exact ⟨.refl _, rfl⟩
  · exact readLoop_calm (readStart _ length st)
  · exact ⟨.refl _, rfl⟩

end Read

section Own

variable {l : SysinfoLayout}

theorem InBlock.start_index (h : InBlock mtd l b) :
    mtdOffsetToEbIndex mtd l.offset = mtdOffsetToEbIndex mtd mtd.start + b := by
  have hE := mtd.ebSize_pos
  have hstart := Nat.div_mul_cancel mtd.start_dvd
  have hlow := h.low
  have hhigh := h.high
  have hne := h.nonempty
  rw [Nat.add_mul, Nat.one_mul] at hhigh
  apply Nat.div_eq_of_lt_le
  · rw [mtdOffsetToEbIndex, Nat.add_mul]
    omega
  · rw [mtdOffsetToEbIndex, Nat.add_mul, Nat.add_mul, Nat.one_mul]
    omega

theorem InBlock.stop_index (h : InBlock mtd l b) :
    mtdOffsetToEbIndex mtd (l.offset + l.length + mtd.ebSize - 1) = mtdOffsetToEbIndex mtd mtd.start + b + 1 := by
  have hE := mtd.ebSize_pos
  have hstart := Nat.div_mul_cancel mtd.start_dvd
  have hlow := h.low
  have hhigh := h.high
  have hne := h.nonempty
  rw [Nat.add_mul, Nat.one_mul] at hhigh
  apply Nat.div_eq_of_lt_le
  · rw [mtdOffsetToEbIndex, Nat.add_mul, Nat.add_mul, Nat.one_mul]
    omega
  · rw [mtdOffsetToEbIndex, Nat.add_mul, Nat.add_mul, Nat.add_mul, Nat.one_mul]
    omega

theorem scanPass_enough (method : OperationMethod) {startEb totalBytes : ℕ} {c : ScanCursor}
    (ht : totalBytes ≤ c.pass + mtd.ebSize) (hv : c.eb < mtd.ebCnt) :
    scanPass mtd method startEb totalBytes c = .done (.off ((c.eb - startEb + 1) * mtd.ebSize), c.st) := by
  rw [scanPass, if_pos ht, ScanCursor.exit, if_neg (by omega)]

theorem scan_own (hs : Steady dev mtd b) (hl : InBlock mtd l b) (hh : Held mtd b table i st) (capacity : ℕ) :
    (mtdBlockScan dev mtd false .random capacity l.offset l.length st).1 = .off mtd.ebSize := by
  have hE := mtd.ebSize_pos
  have hne := hl.nonempty
  obtain ⟨m, hm⟩ := Option.isSome_iff_exists.mp hh.mapped
  have hinit : mtdBmBlockMapInit (capacity / mtd.ebSize) st = st := by rw [mtdBmBlockMapInit, hm]
  have hgood : mtdBmBlockMapIsBad st (mtdEbRelativeToAbsolute mtd b) = false := hh.good _ (.inr rfl)
  unfold mtdBlockScan
  rw [if_neg (by simp; omega)]
  dsimp only
  rw [hl.start_index, hl.stop_index, if_neg (by have := hl.valid; omega), hinit,
    show mtdOffsetToEbIndex mtd mtd.start + b - mtdOffsetToEbIndex mtd mtd.start = b by omega,
    show mtdOffsetToEbIndex mtd mtd.start + b + 1 - (mtdOffsetToEbIndex mtd mtd.start + b) = 1 by omega,
    Nat.one_mul]
  have hdone (st' : BmState) : scanPass mtd .random b mtd.ebSize ⟨b, 0, st'⟩ = .done (.off mtd.ebSize, st') := by
    rw [scanPass_enough _ (by omega) hl.valid]
    simp
  have hstep : ∃ st', (scanLoop dev mtd false .random b mtd.ebSize).step ⟨b, 0, st⟩ = .done (.off mtd.ebSize, st') := by
    change ∃ st', scanStep dev mtd false .random b mtd.ebSize ⟨b, 0, st⟩ = _
    unfold scanStep
    rw [if_neg (not_le.mpr hl.valid)]
    dsimp only
    split_ifs with h1 h2
    · exact ⟨_, hdone _⟩
    · exact ⟨_, hdone _⟩
    · have hreply : (mtdIsBad dev mtd b
          (mtdBmBlockMapSet (mtdEbRelativeToAbsolute mtd b) .scan st).toChip).1 = .good := by
        unfold mtdIsBad
        rw [mtdValidEraseBlock, decide_eq_true hl.valid]
        split_ifs with h3 h4
        · simp at h3
        · rfl
        · exact hs.good _ _ _ (.inr rfl)
      rw [hreply]
      exact ⟨_, hdone _⟩
  obtain ⟨st', hst'⟩ := hstep
  rw [Loop.exec_done _ hst']

theorem read_own (hs : Steady dev mtd b) (hl : InBlock mtd l b) (hh : Held mtd b table i st) :
    (mtdBasicRead dev mtd l.offset l.length st).buffer = readBytes st.mem l.offset l.length ∧
      ∃ n, (mtdBasicRead dev mtd l.offset l.length st).ret = .off n := by
  have hE := mtd.ebSize_pos
  have hlow := hl.low
  have hhigh := hl.high
  have hne := hl.nonempty
  rw [Nat.add_mul, Nat.one_mul] at hhigh
  obtain ⟨w, hw⟩ : ∃ w, l.offset = mtd.start + w := ⟨l.offset - mtd.start, by omega⟩
  have hidx : w / mtd.ebSize = b := by
    apply Nat.div_eq_of_lt_le
    · omega
    · rw [Nat.add_mul, Nat.one_mul]; omega
  have hmod := Nat.div_add_mod' w mtd.ebSize
  rw [hidx] at hmod
  have hsize : w < mtd.size := by
    rw [← mtd.ebCnt_mul]
    have := Nat.mul_le_mul_right mtd.ebSize (Nat.succ_le_of_lt hl.valid)
    rw [Nat.succ_mul] at this
    have := Nat.mod_lt w hE
    omega
  have hgood : mtdBmBlockMapIsBad st (w / mtd.ebSize) = false := by rw [hidx]; exact hh.good b (.inl rfl)
  have henter : readEnterBlock mtd (readStart w l.length st) =
      some { readStart w l.length st with blockstart := some (mtdBlockAlign mtd w) } := by
    have hskip : skipBad mtd st w = w := GoodBlocks.skip_good _ _ hgood
    unfold readEnterBlock readStart
    rw [if_neg (by simp)]
    dsimp only
    rw [hskip, if_neg (by omega : ¬mtd.size ≤ w)]
    split_ifs <;> rfl
  have hunit : readUnit mtd { readStart w l.length st with blockstart := some (mtdBlockAlign mtd w) } = l.length := by
    unfold readUnit readStart
    dsimp only
    rw [if_neg (by omega)]
  have hread : ∃ calls, mtdRead dev mtd (mtdOffsetToEbIndex mtd w) (w % mtd.ebSize) l.length st.toChip =
      (none, readBytes st.mem l.offset l.length, ⟨st.mem, calls⟩) := by
    refine ⟨st.calls ++ [.read mtd.start (mtdOffsetToEbIndex mtd w) (w % mtd.ebSize) l.length], ?_⟩
    have haddr : address mtd (mtdOffsetToEbIndex mtd w) (w % mtd.ebSize) = l.offset := by
      simp only [address, mtdOffsetToEbIndex, hidx]
      omega
    have hvalid : mtdValidEraseBlock mtd (mtdOffsetToEbIndex mtd w) = true := decide_eq_true (mtd.lt_ebCnt hsize)
    unfold mtdRead
    rw [hvalid, if_neg (by simp), if_neg (by omega), haddr]
    dsimp only
    rw [hs.reply _ (.read mtd.start (mtdOffsetToEbIndex mtd w) (w % mtd.ebSize) l.length) (.inl (.inl hidx))]
  obtain ⟨calls, hread⟩ := hread
  let d : ReadCursor := ⟨w + l.length, 0, readBytes st.mem l.offset l.length, some (mtdBlockAlign mtd w),
    { st with toChip := ⟨st.mem, calls⟩ }⟩
  have hstep : (readLoop dev mtd).step (readStart w l.length st) = .next d := by
    change readStep dev mtd (readStart w l.length st) = _
    rw [readStep, if_neg (by simp [readStart]; omega), henter]
    dsimp only
    rw [readBlock, hunit]
    simp only [readStart] at hread ⊢
    rw [hread]
    simp [d]
  have hdone : (readLoop dev mtd).step d = .done (d.outcome (.off (d.offset + mtd.start))) := by
    change readStep dev mtd d = _
    rw [readStep, if_pos (.inl rfl)]
  have hexec : (readLoop dev mtd).exec (readStart w l.length st) = d.outcome (.off (d.offset + mtd.start)) := by
    rw [Loop.exec_next _ hstep, Loop.exec_done _ hdone]
  have heq : mtdBasicRead dev mtd l.offset l.length st = (readLoop dev mtd).exec (readStart w l.length st) := by
    unfold mtdBasicRead
    dsimp only
    rw [hw, show ((mtd.start + w : ℕ) : ℤ) - mtd.start = w by omega,
      if_neg (by simp [mtdBmBlockMapIsValid, hh.mapped]), if_pos (by omega), Int.toNat_natCast]
  rw [heq, hexec]
  exact ⟨rfl, _, rfl⟩

end Own

def Cached (i : ℕ) (v : List UInt8) (st : BmState) : Prop :=
  ∃ ls l, st.sysinfo = some ls ∧ ls[i]? = some l ∧ l.value = some v

section Value

variable {j : ℕ} {v w : List UInt8} {l : SysinfoLayout}

theorem SameTable.modify {ls : List SysinfoLayout} (h : SameTable table ls) (j : ℕ) (w : List UInt8) :
    SameTable table (ls.modify j (fun l => { l with value := some w })) := by
  induction h generalizing j with
  | nil => simp [SameTable]
  | cons hl h ih =>
    cases j with
    | zero => exact .cons hl h
    | succ j => exact .cons hl (ih j)

theorem held_setValue (h : Held mtd b table i st) (hij : i ≠ j) (w : List UInt8) :
    Held mtd b table i (setValue j w st) := by
  obtain ⟨ls, hls, ht, hlen⟩ := h.table
  refine ⟨h.mapped, h.good, _, by rw [setValue, hls]; rfl, ht.modify j w, ?_⟩
  intro l hl
  exact hlen l (by simpa [hij.symm] using hl)

theorem SameTable.getElem? {ls : List SysinfoLayout} (h : SameTable table ls) (ht : table[i]? = some l) :
    ∃ l', ls[i]? = some l' ∧ l'.offset = l.offset ∧ l'.length = l.length ∧ l'.reserve = l.reserve := by
  induction h generalizing i with
  | nil => simp at ht
  | cons hl h ih =>
    cases i with
    | zero =>
      cases ht
      exact ⟨_, rfl, hl⟩
    | succ i => exact ih (by simpa using ht)

theorem setValue_own (h : Held mtd b table i st) (ht : table[i]? = some l) (hw : w.length = l.length) :
    Held mtd b table i (setValue i w st) ∧ Cached i w (setValue i w st) := by
  obtain ⟨ls, hls, htab, -⟩ := h.table
  obtain ⟨l', hl', -, hlen, -⟩ := htab.getElem? ht
  have hset : (ls.modify i (fun l => { l with value := some w }))[i]? = some { l' with value := some w } := by
    rw [List.getElem?_modify_eq, hl']
    rfl
  refine ⟨⟨h.mapped, h.good, _, by rw [setValue, hls]; rfl, htab.modify i w, ?_⟩, _, _, by rw [setValue, hls]; rfl, hset, rfl⟩
  intro l'' hl'' v hv
  rw [hset] at hl''
  cases hl''
  cases hv
  exact hw.trans hlen.symm

theorem calm_setValue (j : ℕ) (w : List UInt8) (st : BmState) : Calm mtd b st (setValue j w st) :=
  ⟨rfl, ⟨[], by simp [setValue], by simp⟩, id, fun hg => hg⟩

theorem cached_setValue (hij : i ≠ j) (h : Cached i v st) (w : List UInt8) : Cached i v (setValue j w st) := by
  obtain ⟨ls, l, hls, hl, hv⟩ := h
  refine ⟨_, l, by rw [setValue, hls]; rfl, ?_, hv⟩
  simp [hij.symm, hl]

theorem Cached.congr (h : Cached i v st) (hs : st'.sysinfo = st.sysinfo) : Cached i v st' := by
  unfold Cached
  rwa [hs]

structure Fetch (mtd : MtdDevInfo) (b : ℕ) (table : List SysinfoLayout) (i : ℕ) (st st' : BmState) : Prop where
  calm : Calm mtd b st st'
  held : Held mtd b table i st → Held mtd b table i st'
  cached : ∀ v, Cached i v st → Cached i v st'

theorem Fetch.trans (h : Fetch mtd b table i st st') (h' : Fetch mtd b table i st' st'') :
    Fetch mtd b table i st st'' :=
  ⟨h.calm.trans h'.calm, fun hh => h'.held (h.held hh), fun v hc => h'.cached v (h.cached v hc)⟩

theorem fetch_setValue (hij : i ≠ j) (w : List UInt8) (st : BmState) :
    Fetch mtd b table i st (setValue j w st) :=
  ⟨calm_setValue j w st, fun hh => held_setValue hh hij w, fun _ hc => cached_setValue hij hc w⟩

theorem fetch_calm (h : Calm mtd b st st' ∧ st'.sysinfo = st.sysinfo) : Fetch mtd b table i st st' :=
  ⟨h.1, h.1.held h.2, fun _ hc => hc.congr h.2⟩

variable (table) in
theorem sysinfoGetValue_fetch (hs : Steady dev mtd b) (hij : i ≠ j) {l : SysinfoLayout}
    (hpart : mtdGetDevInfoByOffset bm l.offset = some mtd) (st : BmState) :
    Fetch mtd b table i st (sysinfoGetValue dev bm j l st).2 := by
  have hset : Fetch mtd b table i st (setValue j (l.value.getD (List.replicate l.length 0)) st) :=
    fetch_setValue hij _ st
  unfold sysinfoGetValue
  dsimp only
  rw [hpart]
  dsimp only
  have hscan : Fetch mtd b table i (setValue j (l.value.getD (List.replicate l.length 0)) st)
      (mtdBlockScan dev mtd false .random bm.capacity l.offset l.length
        (setValue j (l.value.getD (List.replicate l.length 0)) st)).2 :=
    fetch_calm (scan_calm hs rfl false .random bm.capacity l.offset l.length _)
  split
  · rename_i heq
    rw [heq] at hscan
    split <;> exact hset.trans (hscan.trans ((fetch_calm (read_calm l.offset l.length _)).trans (fetch_setValue hij _ _)))
  · rename_i heq
    rw [heq] at hscan
    exact hset.trans hscan

theorem sysinfoGetValue_own (hs : Steady dev mtd b) (hl : InBlock mtd l b)
    (hpart : mtdGetDevInfoByOffset bm l.offset = some mtd) (hh : Held mtd b table i st) (ht : table[i]? = some l)
    {value : Option (List UInt8)} (hvalue : ∀ v, value = some v → v.length = l.length) :
    ∃ st', sysinfoGetValue dev bm i { l with value := value } st = (true, st') ∧ Calm mtd b st st' ∧
      Held mtd b table i st' ∧ Cached i (readBytes st.mem l.offset l.length) st' := by
  let old := value.getD (List.replicate l.length 0)
  have hold : old.length = l.length := by
    cases hv : value with
    | none => simp [old, hv]
    | some v => simpa [old, hv] using hvalue v hv
  have hset := (setValue_own hh ht hold).1
  have hscanCalm := scan_calm hs rfl false .random bm.capacity l.offset l.length (setValue i old st)
  obtain ⟨k, hk⟩ : ∃ k, mtd.ebSize = k + 1 := ⟨mtd.ebSize - 1, by have := mtd.ebSize_pos; omega⟩
  obtain ⟨st₁, hscan⟩ : ∃ st₁, mtdBlockScan dev mtd false .random bm.capacity l.offset l.length
      (setValue i old st) = (.off (k + 1), st₁) :=
    ⟨_, Prod.ext ((scan_own hs hl hset bm.capacity).trans (by rw [hk])) rfl⟩
  rw [hscan] at hscanCalm
  have hheld₁ := hscanCalm.1.held hscanCalm.2 hset
  obtain ⟨hbuf, n, hret⟩ := read_own hs hl hheld₁
  have hread : Calm mtd b st₁ (mtdBasicRead dev mtd l.offset l.length st₁).st ∧
    (mtdBasicRead dev mtd l.offset l.length st₁).st.sysinfo = st₁.sysinfo := read_calm l.offset l.length st₁
  have hmem : st₁.mem = st.mem := hscanCalm.1.mem
  have hnew : (mtdBasicRead dev mtd l.offset l.length st₁).buffer ++
      old.drop (mtdBasicRead dev mtd l.offset l.length st₁).buffer.length = readBytes st.mem l.offset l.length := by
    rw [hbuf, hmem, readBytes_length, List.drop_eq_nil_iff.mpr hold.le, List.append_nil]
  obtain ⟨hheld, hcached⟩ := setValue_own (hread.1.held hread.2 hheld₁) ht
    (readBytes_length st.mem l.offset l.length)
  refine ⟨_, ?_, ?_, hheld, hcached⟩
  · unfold sysinfoGetValue
    dsimp only
    rw [hpart]
    dsimp only
    rw [hscan]
    dsimp only
    rw [hret, hnew]
  · exact (calm_setValue i old st).trans (hscanCalm.1.trans (hread.1.trans (calm_setValue i _ _)))

end Value

section Save

variable {l : SysinfoLayout} {start length : ℕ}

theorem saveLayouts_other (hs : Steady dev mtd b) {ls : List SysinfoLayout} (hparts : AllIn bm mtd ls) {j : ℕ}
    (hout : ∀ k l, ls[k]? = some l → j + k = i → SysinfoLayout.outside l start (start + length) = true) (st : BmState) :
    Fetch mtd b table i st (saveLayouts dev bm start length j ls st).2 := by
  induction ls generalizing j st with
  | nil => exact fetch_calm ⟨.refl st, rfl⟩
  | cons l ls ih =>
    have hout' : ∀ k l, ls[k]? = some l → j + 1 + k = i → SysinfoLayout.outside l start (start + length) = true :=
      fun k l hk hi => hout (k + 1) l (by simpa using hk) (by omega)
    have hrest : AllIn bm mtd ls := fun l hl => hparts l (List.mem_cons_of_mem _ hl)
    unfold saveLayouts
    by_cases hskip : SysinfoLayout.outside l start (start + length) = true ∨ l.reserve ≠ .reserved
    · rw [if_pos hskip]
      exact ih hrest hout' st
    · rw [if_neg hskip]
      have hij : i ≠ j := fun h => hskip (.inl (hout 0 l rfl (by omega)))
      have hreserved : l.reserve = .reserved := not_not.mp (not_or.mp hskip).2
      have hfetch := sysinfoGetValue_fetch table hs hij (hparts l List.mem_cons_self hreserved) st
      split
      · rename_i heq
        rw [heq] at hfetch
        exact hfetch.trans (ih hrest hout' _)
      · rename_i heq
        rw [heq] at hfetch
        exact hfetch

theorem saveLayouts_own (hs : Steady dev mtd b) (hl : InBlock mtd l b) (ht : table[i]? = some l)
    (hr : l.reserve = .reserved) (hin : ¬SysinfoLayout.outside l start (start + length) = true)
    {ls : List SysinfoLayout} (hparts : AllIn bm mtd ls) {j k : ℕ} {value : Option (List UInt8)}
    (hk : ls[k]? = some { l with value := value }) (hi : j + k = i)
    (hvalue : ∀ v, value = some v → v.length = l.length) (hh : Held mtd b table i st) :
    Calm mtd b st (saveLayouts dev bm start length j ls st).2 ∧
      Held mtd b table i (saveLayouts dev bm start length j ls st).2 ∧
      ((saveLayouts dev bm start length j ls st).1 = true →
        Cached i (readBytes st.mem l.offset l.length) (saveLayouts dev bm start length j ls st).2) := by
  induction ls generalizing j k st with
  | nil => simp at hk
  | cons l' ls ih =>
    have hlater : AllIn bm mtd ls := fun l hl => hparts l (List.mem_cons_of_mem _ hl)
    unfold saveLayouts
    cases k with
    | zero =>
      obtain rfl : l' = { l with value := value } := by simpa using hk
      obtain rfl : j = i := by omega
      rw [if_neg (by rw [not_or, not_not]; exact ⟨hin, hr⟩)]
      obtain ⟨st₁, hget, hcalm, hheld, hcached⟩ :=
        sysinfoGetValue_own hs hl (hparts { l with value := value } List.mem_cons_self hr) hh ht hvalue
      rw [hget]
      have hrest : Fetch mtd b table j st₁ (saveLayouts dev bm start length (j + 1) ls st₁).2 :=
        saveLayouts_other hs hlater (fun k _ _ hk => by omega) st₁
      exact ⟨hcalm.trans hrest.calm, hrest.held hheld, fun _ => hrest.cached _ hcached⟩
    | succ k =>
      have hk' : ls[k]? = some { l with value := value } := by simpa using hk
      by_cases hskip : SysinfoLayout.outside l' start (start + length) = true ∨ l'.reserve ≠ .reserved
      · rw [if_pos hskip]
        exact ih hlater hk' (by omega) hh
      · rw [if_neg hskip]
        have hreserved : l'.reserve = .reserved := not_not.mp (not_or.mp hskip).2
        have hfetch := sysinfoGetValue_fetch table hs (show i ≠ j by omega) (hparts l' List.mem_cons_self hreserved) st
        split
        · rename_i st₁ heq
          rw [heq] at hfetch
          have hrest := ih hlater (j := j + 1) hk' (by omega) (hfetch.held hh)
          have hmem : st₁.mem = st.mem := hfetch.calm.mem
          rw [hmem] at hrest
          exact ⟨hfetch.calm.trans hrest.1, hrest.2⟩
        · rename_i heq
          rw [heq] at hfetch
          exact ⟨hfetch.calm, hfetch.held hh, fun h => by cases h⟩

theorem SameTable.disjoint {ls : List SysinfoLayout} (h : SameTable table ls) (hd : DisjointLayouts table) :
    DisjointLayouts ls := by
  induction h with
  | nil => exact .nil
  | @cons l l' table ls hl h ih =>
    obtain ⟨hfirst, hrest⟩ := List.pairwise_cons.mp hd
    refine List.pairwise_cons.mpr ⟨?_, ih hrest⟩
    intro m' hm'
    obtain ⟨k, hk⟩ := List.mem_iff_getElem?.mp hm'
    have hlen := h.length_eq
    obtain ⟨hklt, -⟩ := List.getElem?_eq_some_iff.mp hk
    obtain ⟨m'', hm'', hoff, -, -⟩ := SameTable.getElem? h (List.getElem?_eq_getElem (show k < table.length by omega))
    rw [hk] at hm''
    cases hm''
    have := hfirst _ (List.getElem_mem (show k < table.length by omega))
    rw [hl.1, hl.2.1, hoff]
    exact this

theorem SameTable.allIn {ls : List SysinfoLayout} (h : SameTable table ls) (hparts : AllIn bm mtd table) :
    AllIn bm mtd ls := by
  induction h with
  | nil => exact fun l hl => absurd hl List.not_mem_nil
  | @cons l l' table ls hl h ih =>
    refine List.forall_mem_cons.mpr ⟨fun hr => ?_, ih (fun l hl => hparts l (List.mem_cons_of_mem _ hl))⟩
    rw [hl.1]
    exact hparts l List.mem_cons_self (hl.2.2.symm.trans hr)

theorem hook_other (hs : Steady dev mtd b) (hparts : AllIn bm mtd table) (hl : InBlock mtd l b) (ht : table[i]? = some l)
    {eb : ℕ} (heb : eb ≠ b) (hh : Held mtd b table i st) :
    Fetch mtd b table i st (sysinfoTraversalSave dev bm (eb * mtd.ebSize + mtd.start) mtd.ebSize st).2 := by
  obtain ⟨ls, hls, htab, -⟩ := hh.table
  unfold sysinfoTraversalSave
  rw [hls]
  dsimp only
  split_ifs
  · exact fetch_calm ⟨.refl st, rfl⟩
  · apply saveLayouts_other hs (htab.allIn hparts)
    intro k l' hk hi
    obtain rfl : k = i := by omega
    obtain ⟨l'', hl'', hoff, hlen, -⟩ := htab.getElem? ht
    rw [hk] at hl''
    cases hl''
    have hlow := hl.low
    have hhigh := hl.high
    simp only [SysinfoLayout.outside, Bool.or_eq_true, decide_eq_true_eq, hoff, hlen]
    rw [Nat.add_mul, Nat.one_mul] at hhigh
    rcases Nat.lt_or_gt_of_ne heb with hlt | hgt
    · have := Nat.mul_le_mul_right mtd.ebSize (Nat.succ_le_of_lt hlt)
      rw [Nat.succ_mul] at this
      omega
    · have := Nat.mul_le_mul_right mtd.ebSize (Nat.succ_le_of_lt hgt)
      rw [Nat.succ_mul] at this
      omega

theorem hook_own (hs : Steady dev mtd b) (hparts : AllIn bm mtd table) (hl : InBlock mtd l b)
    (hd : DisjointLayouts table) (ht : table[i]? = some l) (hr : l.reserve = .reserved) (hh : Held mtd b table i st) :
    Calm mtd b st (sysinfoTraversalSave dev bm (b * mtd.ebSize + mtd.start) mtd.ebSize st).2 ∧
      Held mtd b table i (sysinfoTraversalSave dev bm (b * mtd.ebSize + mtd.start) mtd.ebSize st).2 ∧
      ((sysinfoTraversalSave dev bm (b * mtd.ebSize + mtd.start) mtd.ebSize st).1 = true →
        Cached i (readBytes st.mem l.offset l.length)
          (sysinfoTraversalSave dev bm (b * mtd.ebSize + mtd.start) mtd.ebSize st).2) := by
  obtain ⟨ls, hls, htab, hlen⟩ := hh.table
  obtain ⟨l', hl', hoff', hlen', hres'⟩ := htab.getElem? ht
  have hvalue : l' = { l with value := l'.value } := by
    cases l'
    cases l
    simp only at hoff' hlen' hres'
    subst hoff' hlen' hres'
    rfl
  have hlow := hl.low
  have hhigh := hl.high
  have hne := hl.nonempty
  rw [Nat.add_mul, Nat.one_mul] at hhigh
  have hin : ¬SysinfoLayout.outside l (b * mtd.ebSize + mtd.start) (b * mtd.ebSize + mtd.start + mtd.ebSize) = true := by
    simp only [SysinfoLayout.outside, Bool.or_eq_true, decide_eq_true_eq]
    omega
  unfold sysinfoTraversalSave
  rw [hls]
  dsimp only
  split_ifs with hlast
  · exfalso
    obtain ⟨hi, hget⟩ := List.getElem?_eq_some_iff.mp hl'
    have hne' : ls ≠ [] := List.ne_nil_of_length_pos (by omega)
    rw [List.getLast?_eq_some_getLast hne', Option.any_some, decide_eq_true_eq] at hlast
    have hpair := List.pairwise_iff_getElem.mp (htab.disjoint hd)
    rw [List.getLast_eq_getElem] at hlast
    by_cases hend : i = ls.length - 1
    · subst hend
      rw [hget] at hlast
      omega
    · have := hpair i (ls.length - 1) hi (by omega) (by omega)
      rw [hget] at this
      omega
  · exact saveLayouts_own hs hl ht hr hin (htab.allIn hparts) (by rw [hl', ← hvalue]) (by omega)
      (fun v hv => by rw [hlen l' hl' v hv, hlen']) hh

end Save

end LinuxRecovery.SysinfoHook
