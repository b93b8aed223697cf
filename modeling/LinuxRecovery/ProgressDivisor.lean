import LinuxRecovery.ManifestRoundTrip
import LinuxRecovery.MtdBlock
import LinuxRecovery.VolumeSize

namespace LinuxRecovery.ProgressDivisor

open Loops Libmtd BlockMap BasicWrite BlockScan SysinfoSave BasicErase Ubigen UbiPrepare UbiVolume MtdBlock
open UbiPeb (UbiState blankUbiState UbiState.withBm ubiWriteOnePeb SameUbi writeOnePeb_same erasePeb programPeb nextEc)

variable {dev : Device} {mtd : MtdDevInfo}

theorem setProcessInfo_none {total : ℕ} : setProcessInfo total = none ↔ total = 0 := by
  unfold setProcessInfo
  split_ifs with h
  · simp only [h]
  · simp only [h]

section Erase

variable {bm : PartInfo} {fs : FsKind}

theorem formatBlock_ret {c : EraseCursor} {r : Ret × BmState} (h : formatBlock dev mtd fs c = .done r) :
    r.1 = .fail := by
  unfold formatBlock at h
  dsimp only at h
  split_ifs at h
  split at h <;> cases h
  rfl

theorem eraseBlock_ret {c : EraseCursor} {r : Ret × BmState} (h : eraseBlock dev bm mtd fs c = .done r) :
    r.1 = .fail := by
  unfold eraseBlock at h
  split at h
  · cases h
    rfl
  · dsimp only at h
    split at h
    · exact formatBlock_ret h
    · split_ifs at h
      cases h
      rfl
    · cases h
      rfl

theorem eraseStep_ret {totalBytes : ℕ} (hne : totalBytes ≠ 0) {c : EraseCursor} {r : Ret × BmState}
    (h : eraseStep dev bm mtd fs totalBytes c = .done r) : r.1 ≠ .trap := by
  have hexit : (eraseExit mtd totalBytes c).1 ≠ .trap := by
    unfold eraseExit
    split_ifs
    · exact Ret.noConfusion
    · rw [setProcessInfo_pos totalBytes hne]
      exact Ret.noConfusion
  unfold eraseStep at h
  split_ifs at h
  · cases h
    exact hexit
  · split at h
    · rw [eraseBlock_ret h]
      exact Ret.noConfusion
    · cases h
  · rw [eraseBlock_ret h]
    exact Ret.noConfusion

theorem basicErase_ret (hsize : 0 < mtd.size) (st : BmState) : (mtdBasicErase dev bm mtd fs mtd.size st).1 ≠ .trap := by
  have htotal : (mtdOffsetToEbIndex mtd (mtdBlockAlign mtd (mtd.start + mtd.size + mtd.ebSize - 1)) -
      mtdOffsetToEbIndex mtd mtd.start) * mtd.ebSize ≠ 0 := by
    have hpos := mtd.ebSize_pos
    have hle := Nat.le_of_dvd hsize mtd.size_dvd
    have hlast : mtd.start / mtd.ebSize + 1 ≤ (mtd.start + mtd.size + mtd.ebSize - 1) / mtd.ebSize := by
      rw [← Nat.add_div_right _ hpos]
      exact Nat.div_le_div_right (by omega)
    rw [mtdBlockAlign, mtdOffsetToEbIndex, mtdOffsetToEbIndex, Nat.mul_div_cancel _ hpos]
    exact (Nat.mul_pos (by omega) hpos).ne'
  unfold mtdBasicErase
  dsimp only
  split_ifs
  · exact Ret.noConfusion
  · exact Ret.noConfusion
  · exact Ret.noConfusion
  · exact Ret.noConfusion
  · exact (eraseLoop dev bm mtd fs _).exec_rule (I := fun _ => True) (Q := fun r => r.1 ≠ .trap)
      (fun _ _ _ _ => trivial) (fun c r _ h => eraseStep_ret htotal h) trivial

end Erase

section Write

variable {fs : FsKind} {maxSize : ℕ}

theorem writeStep_ret (hne : maxSize ≠ 0) {c : Cursor} {r : Outcome} (h : writeStep dev mtd fs maxSize c = .done r) :
    r.ret ≠ .trap := by
  unfold writeStep at h
  rw [setProcessInfo_pos maxSize hne] at h
  split_ifs at h
  · cases h
    exact Ret.noConfusion
  · split at h
    · cases h
      exact Ret.noConfusion
    · rw [writePage_eq, setProcessInfo_pos maxSize hne] at h
      dsimp only at h
      split at h
      · cases h
        exact Ret.noConfusion
      · rw [programPage_done dev mtd fs h]
        exact Ret.noConfusion

def Begins (mtd : MtdDevInfo) (w length : ℕ) (st : BmState) : Prop :=
  length = 0 ∨ mtd.size ≤ w ∨ mtdTypeIsNand mtd = false ∨ skipBad mtd st w < mtd.size

theorem writeStep_zero (c : Cursor) (hstart : c.blockstart = none) :
    ∃ r, writeStep dev mtd fs 0 c = .done r ∧ (r.ret = .trap ↔ Begins mtd c.wOffset c.wLength c.st) := by
  unfold writeStep
  by_cases hexit : c.wLength = 0 ∨ mtd.size ≤ c.wOffset
  · rw [if_pos hexit]
    refine ⟨_, rfl, fun _ => ?_, fun _ => rfl⟩
    exact hexit.imp_right .inl
  · rw [if_neg hexit]
    obtain ⟨hlength, hsize⟩ := not_or.mp hexit
    unfold enterBlock
    rw [hstart, if_neg (by simp)]
    cases hn : mtdTypeIsNand mtd with
    | false => exact ⟨_, rfl, fun _ => .inr (.inr (.inl hn)), fun _ => rfl⟩
    | true =>
      rw [if_neg (by simp)]
      dsimp only
      by_cases hskip : mtd.size ≤ skipBad mtd c.st c.wOffset
      · rw [if_pos hskip]
        refine ⟨_, rfl, fun h => Ret.noConfusion h, fun h => ?_⟩
        rcases h with h | h | h | h
        · exact absurd h hlength
        · exact absurd h hsize
        · rw [hn] at h
          cases h
        · exact absurd h (not_lt.mpr hskip)
      · rw [if_neg hskip]
        exact ⟨_, rfl, fun _ => .inr (.inr (.inr (not_le.mp hskip))), fun _ => rfl⟩

structure Accepted (dev : Device) (mtd : MtdDevInfo) (fs : FsKind) (offset : ℤ) (length : ℕ) (st : BmState) : Prop where
  inside : (mtd.start : ℤ) ≤ offset
  aligned : (offset - mtd.start).toNat % mtd.minIoSize = 0
  mode : ¬(fs.flag.noecc = true ∧ dev.fileMode ≠ none)
  paged : ¬(fs.flag.pad = false ∧ length % pagelen mtd fs ≠ 0)
  fits : (length / pagelen mtd fs * mtd.minIoSize : ℕ) ≤ (mtd.size : ℤ) - (offset - mtd.start)
  mapped : mtdBmBlockMapIsValid st = true

theorem basicWrite_accepted {progressSize : ℕ} {offset : ℤ} {buf : List UInt8} {st : BmState}
    (h : Accepted dev mtd fs offset buf.length st) : mtdBasicWrite dev mtd fs maxSize progressSize offset buf st =
      (writeLoop dev mtd fs maxSize).exec (writeStart fs (offset - mtd.start).toNat progressSize buf st) := by
  have h1 := h.inside
  unfold mtdBasicWrite
  dsimp only
  rw [if_neg (by omega), if_neg (not_not.mpr h.aligned), if_neg h.mode, if_neg h.paged, if_neg (not_lt.mpr h.fits),
    if_neg (by rw [h.mapped]; simp)]

theorem basicWrite_refused {progressSize : ℕ} {offset : ℤ} {buf : List UInt8} {st : BmState}
    (h : ¬Accepted dev mtd fs offset buf.length st) :
    (mtdBasicWrite dev mtd fs maxSize progressSize offset buf st).ret = .fail := by
  unfold mtdBasicWrite
  dsimp only
  split_ifs with h1 h2 h3 h4 h5 h6
  · rfl
  · rfl
  · rfl
  · rfl
  · rfl
  · rfl
  · refine absurd ⟨by omega, not_not.mp h2, h3, h4, not_lt.mp h5, ?_⟩ h
    rwa [Bool.not_eq_true', Bool.not_eq_false] at h6

theorem basicWrite_trap {progressSize : ℕ} {offset : ℤ} {buf : List UInt8} {st : BmState} :
    (mtdBasicWrite dev mtd fs maxSize progressSize offset buf st).ret = .trap ↔
      maxSize = 0 ∧ Accepted dev mtd fs offset buf.length st ∧ Begins mtd (offset - mtd.start).toNat buf.length st := by
  by_cases ha : Accepted dev mtd fs offset buf.length st
  · rw [basicWrite_accepted ha]
    by_cases hzero : maxSize = 0
    · subst hzero
      obtain ⟨r, hr, htrap⟩ := @writeStep_zero dev mtd fs
        (writeStart fs (offset - mtd.start).toNat progressSize buf st) rfl
      rw [Loop.exec_done _ hr, htrap]
      exact ⟨fun h => ⟨rfl, ha, h⟩, fun h => h.2.2⟩
    · refine ⟨fun h => absurd h ?_, fun h => absurd h.1 hzero⟩
      exact (writeLoop dev mtd fs maxSize).exec_rule (I := fun _ => True) (Q := fun r => r.ret ≠ .trap)
        (fun _ _ _ _ => trivial) (fun c r _ h => writeStep_ret hzero h) trivial
  · rw [basicWrite_refused ha]
    exact ⟨fun h => Ret.noConfusion h, fun h => absurd h.2.1 ha⟩

end Write

section Volume

variable {crc32 : List UInt8 → ℕ} {maxSize : ℕ}

theorem writeLebs_zero (vi : UbigenVolInfo) (n : ℕ) (c : VolCursor) : (writeLebs dev mtd crc32 0 vi n c).ret = .trap := by
  cases n <;> rfl

theorem writeLebs_ret (hne : maxSize ≠ 0) (vi : UbigenVolInfo) (n : ℕ) (c : VolCursor) :
    (writeLebs dev mtd crc32 maxSize vi n c).ret ≠ .trap := by
  induction n generalizing c with
  | zero =>
    rw [writeLebs, setProcessInfo_pos maxSize hne]
    exact Ret.noConfusion
  | succ n ih =>
    rw [writeLebs, setProcessInfo_pos maxSize hne]
    dsimp only
    split
    · exact Ret.noConfusion
    · exact ih _

theorem writeLebs_vi (vi : UbigenVolInfo) (n : ℕ) (c : VolCursor) :
    (writeLebs dev mtd crc32 maxSize vi n c).st.ubi.vi = c.st.ubi.vi := by
  induction n generalizing c with
  | zero =>
    rw [writeLebs]
    split <;> rfl
  | succ n ih =>
    obtain ⟨si, hsi⟩ := @writeOnePeb_same dev mtd crc32 c.eb
      (fillOutbuf crc32 c.st.ubi.ui vi c.lnum (c.inbuf.take vi.usableLebSize) c.st.ubi.outbuf) c.st
    rw [writeLebs]
    split
    · rfl
    · dsimp only
      split
      · rename_i heq
        rw [heq] at hsi
        exact (congrArg UbiParams.vi hsi :)
      · rename_i heq
        rw [heq] at hsi
        rw [ih]
        exact (congrArg UbiParams.vi hsi :)

theorem ubifsWrite_ret (maxSize progressSize offset : ℕ) (data : List UInt8) (st : UbiState) :
    (ubifsWrite dev mtd crc32 maxSize progressSize offset data st).ret = .trap ↔
      (ubiWriteVolume dev mtd crc32 maxSize progressSize (mtdOffsetToEbIndex mtd offset - mtdOffsetToEbIndex mtd mtd.start)
        data st).ret = .trap := by
  unfold ubifsWrite
  dsimp only
  split
  · rename_i heq
    rw [heq]
    exact ⟨fun h => Ret.noConfusion h, fun h => Ret.noConfusion h⟩
  · rfl

theorem ubifsWrite_vi (maxSize progressSize offset : ℕ) (data : List UInt8) (st : UbiState) :
    (ubifsWrite dev mtd crc32 maxSize progressSize offset data st).st.ubi.vi = st.ubi.vi := by
  have hvolume : (ubiWriteVolume dev mtd crc32 maxSize progressSize
      (mtdOffsetToEbIndex mtd offset - mtdOffsetToEbIndex mtd mtd.start) data st).st.ubi.vi = st.ubi.vi := by
    unfold ubiWriteVolume
    split
    · rfl
    · split_ifs
      · rfl
      · exact writeLebs_vi _ _ _
  unfold ubifsWrite
  dsimp only
  split
  · rename_i heq
    rw [heq] at hvolume
    exact hvolume
  · exact hvolume

theorem ubifsWrite_trap {progressSize offset : ℕ} {data : List UInt8} {st : UbiState} {vi : UbigenVolInfo}
    (hvi : st.ubi.vi = some vi) : (ubifsWrite dev mtd crc32 maxSize progressSize offset data st).ret = .trap ↔
      maxSize = 0 ∧ vi.usableLebSize ∣ data.length := by
  rw [ubifsWrite_ret, ubiWriteVolume, hvi]
  dsimp only
  split_ifs with hdvd
  · exact ⟨fun h => h.elim, fun h => absurd (Nat.mod_eq_zero_of_dvd h.2) hdvd⟩
  · have hdvd := Nat.dvd_of_mod_eq_zero (not_not.mp hdvd)
    by_cases hzero : maxSize = 0
    · subst hzero
      exact ⟨fun _ => ⟨rfl, hdvd⟩, fun _ => writeLebs_zero vi _ _⟩
    · exact ⟨fun h => absurd h (writeLebs_ret hzero vi _ _), fun h => absurd h.1 hzero⟩

theorem formatStep_ret {startEb : ℕ} (hne : startEb ≠ mtd.ebCnt) {c : FormatCursor} {r : Ret × UbiState}
    (h : formatStep dev mtd crc32 startEb c = .done r) : r.1 ≠ .trap := by
  have hprogress : formatProgress mtd startEb = some () := setProcessInfo_pos _ (by omega)
  unfold formatStep at h
  rw [hprogress] at h
  dsimp only at h
  split_ifs at h
  · cases h
    exact Ret.noConfusion
  · split at h
    · cases h
      exact Ret.noConfusion
    · cases h
    · split at h
      · cases h
        exact Ret.noConfusion
      · cases h
      · cases h

theorem format_trap {startEb : ℕ} {st : UbiState} : (format dev mtd crc32 startEb st).1 = .trap ↔ startEb = mtd.ebCnt := by
  constructor
  · intro h
    by_contra hne
    exact (formatLoop dev mtd crc32 startEb).exec_rule (I := fun _ => True) (Q := fun r => r.1 ≠ .trap)
      (fun _ _ _ _ => trivial) (fun c r _ h => formatStep_ret hne h) (s := ⟨startEb, st⟩) trivial h
  · rintro rfl
    have hprogress : formatProgress mtd mtd.ebCnt = none := setProcessInfo_none.mpr (by omega)
    have hstep : formatStep dev mtd crc32 mtd.ebCnt ⟨mtd.ebCnt, st⟩ = .done (.trap, st) := by
      unfold formatStep
      rw [hprogress]
    exact congrArg Prod.fst ((formatLoop dev mtd crc32 mtd.ebCnt).exec_done hstep)

theorem layoutVol_same (eb ec1 ec2 : ℕ) (vtbl : List UbiVtblRecord) (st : UbiState) :
    SameUbi st (ubiWriteLayoutVol dev mtd crc32 eb ec1 ec2 vtbl st).2 := by
  have h1 := @writeOnePeb_same dev mtd crc32 eb (layoutBuf crc32 st.ubi.ui vtbl 0 ec1) st
  unfold ubiWriteLayoutVol
  split
  · rename_i heq
    rw [heq] at h1
    exact h1
  · rename_i eb' _ st' heq
    rw [heq] at h1
    have h2 := @writeOnePeb_same dev mtd crc32 eb' (layoutBuf crc32 st'.ubi.ui vtbl 1 ec2) st'
    split
    · rename_i heq'
      rw [heq'] at h2
      exact h1.trans h2
    · rename_i heq'
      rw [heq'] at h2
      exact h1.trans h2

def Filled (dev : Device) (mtd : MtdDevInfo) (crc32 : List UInt8 → ℕ) (st : UbiState) : Prop :=
  st.ubi.formatEb = mtd.ebCnt ∧
    (ubiWriteLayoutVol dev mtd crc32 st.ubi.startEb st.ubi.ec st.ubi.ec st.ubi.vtbl st).1 = true

theorem ubifsDone_trap {st : UbiState} : (ubifsDone dev mtd crc32 st).1 = .trap ↔ Filled dev mtd crc32 st := by
  obtain ⟨si, hsi⟩ := @layoutVol_same dev mtd crc32 st.ubi.startEb st.ubi.ec st.ubi.ec
    st.ubi.vtbl st
  unfold ubifsDone Filled
  split
  · rename_i heq
    rw [heq]
    exact ⟨fun h => Ret.noConfusion h, fun h => Bool.noConfusion h.2⟩
  · rename_i st' heq
    rw [heq] at hsi ⊢
    have hformat : st'.ubi.formatEb = st.ubi.formatEb := (congrArg UbiParams.formatEb hsi :)
    have htrap := @format_trap dev mtd crc32 st'.ubi.formatEb st'
    rw [hformat] at htrap ⊢
    split
    · rename_i heq'
      rw [heq'] at htrap
      exact ⟨fun h => Ret.noConfusion h, fun h => Ret.noConfusion (htrap.mpr h.1)⟩
    · exact ⟨fun h => ⟨htrap.mp h, rfl⟩, fun h => htrap.mpr h.1⟩

end Volume

/-- What an update asks of the block manager once the partition is prepared; the erase is one of the whole of it. -/
inductive Request where
  | erase (offset : ℕ)
  | write (offset : ℕ) (data : List UInt8)
  | finish

namespace Request

variable (dev : Device) (bm : PartInfo) (crc32 : List UInt8 → ℕ) (info : PrepareInfo)

def exec (progressSize : ℕ) (st : UbiState) : Request → VolOutcome
  | .erase offset => mtdBlockErase dev bm info offset info.mtd.size progressSize st
  | .write offset data => mtdBlockWrite dev crc32 info offset data progressSize st
  | .finish => mtdBlockFinish dev crc32 info progressSize st

/-- The requests made, with the progress and the state before each: none follows one that fails, or the last. -/
def trace : List Request → ℕ → UbiState → List (Request × ℕ × UbiState)
  | [], _, _ => []
  | .finish :: _, progressSize, st => [(.finish, progressSize, st)]
  | r :: rs, progressSize, st =>
    (r, progressSize, st) ::
      match r.exec dev bm crc32 info progressSize st with
      | ⟨.off _, progressSize, st⟩ => trace rs progressSize st
      | _ => []

/-- The request is a write that is not refused, of an image without a size, or the end of one that has filled
the partition. -/
def Divides (st : UbiState) : Request → Prop
  | .erase _ => False
  | .write offset data => info.maxSize = 0 ∧
    match info.fs.kind with
    | some kind => Accepted dev info.mtd kind offset data.length st.toBmState ∧
        Begins info.mtd ((offset : ℤ) - info.mtd.start).toNat data.length st.toBmState
    | none => ∃ vi, st.ubi.vi = some vi ∧ vi.usableLebSize ∣ data.length
  | .finish => info.fs.kind = none ∧ Filled dev info.mtd crc32 st

variable {dev bm crc32 info}

theorem exec_trap (hsize : 0 < info.mtd.size) {progressSize : ℕ} {st : UbiState}
    (hvi : info.fs.kind = none → ∃ vi, st.ubi.vi = some vi) (r : Request) :
    (r.exec dev bm crc32 info progressSize st).ret = .trap ↔ r.Divides dev crc32 info st := by
  cases r with
  | erase offset =>
    rw [exec, mtdBlockErase, narrowRet_trap, fsErase, Divides]
    refine iff_of_false ?_ id
    cases info.fs.kind with
    | some kind => exact basicErase_ret hsize st.toBmState
    | none => exact Ret.noConfusion
  | write offset data =>
    rw [exec, mtdBlockWrite, narrowRet_trap, fsWrite, Divides]
    cases hkind : info.fs.kind with
    | some kind => exact basicWrite_trap
    | none =>
      obtain ⟨vi, hvi⟩ := hvi hkind
      rw [ubifsWrite_trap hvi, hvi]
      simp only [Option.some.injEq, exists_eq_left']
  | finish =>
    rw [exec, mtdBlockFinish, Divides]
    cases info.fs.kind with
    | some kind => exact iff_of_false Ret.noConfusion fun h => absurd h.1 (Option.some_ne_none kind)
    | none => exact ubifsDone_trap.trans (and_iff_right rfl).symm

theorem exec_vi {progressSize : ℕ} {st : UbiState} {r : Request} (hr : r ≠ .finish) :
    (r.exec dev bm crc32 info progressSize st).st.ubi.vi = st.ubi.vi := by
  cases r with
  | erase offset =>
    rw [exec, mtdBlockErase, fsErase]
    split <;> rfl
  | write offset data =>
    rw [exec, mtdBlockWrite, fsWrite]
    split
    · rfl
    · exact ubifsWrite_vi _ _ _ _ _
  | finish => exact absurd rfl hr

theorem trace_invariant {I : UbiState → Prop} (hkept : ∀ r : Request, r ≠ .finish → ∀ progressSize st, I st →
      I (r.exec dev bm crc32 info progressSize st).st) (rs : List Request) {progressSize : ℕ} {st : UbiState} (hst : I st) :
    ∀ p ∈ trace dev bm crc32 info rs progressSize st, I p.2.2 := by
  induction rs generalizing progressSize st with
  | nil =>
    intro p hp
    cases hp
  | cons r rs ih =>
    intro p hp
    by_cases hr : r = .finish
    · subst hr
      rw [trace, List.mem_singleton] at hp
      rwa [hp]
    · rw [trace, List.mem_cons] at hp
      · rcases hp with rfl | hp
        · exact hst
        · have hnext := hkept r hr progressSize st hst
          split at hp
          · rename_i heq
            rw [heq] at hnext
            exact ih hnext p hp
          · cases hp
      · exact hr

theorem trace_trap (hsize : 0 < info.mtd.size) (rs : List Request) {progressSize : ℕ} {st : UbiState}
    (hvi : info.fs.kind = none → ∃ vi, st.ubi.vi = some vi) :
    ∀ p ∈ trace dev bm crc32 info rs progressSize st,
      (p.1.exec dev bm crc32 info p.2.1 p.2.2).ret = .trap ↔ p.1.Divides dev crc32 info p.2.2 := by
  intro p hp
  refine exec_trap hsize ?_ p.1
  refine trace_invariant (I := fun st => info.fs.kind = none → ∃ vi, st.ubi.vi = some vi) ?_ rs hvi p hp
  intro r hr progressSize st hst hkind
  rw [exec_vi hr]
  exact hst hkind

end Request

theorem prepared_vi {bm : PartInfo} {crc32 : List UInt8 → ℕ} {fs : Filesystem} {source : UbiSource}
    {method : OperationMethod} {offset length : ℕ} {st st' : UbiState} {info : PrepareInfo}
    (h : mtdBlockPrepare dev bm crc32 fs source method offset length st = some (info, st')) :
    info.fs.kind = none → ∃ vi, st'.ubi.vi = some vi := by
  intro hkind
  obtain ⟨-, hfs, -, start, st₁, n, -, hmapped, -⟩ := mtdBlockPrepare_some dev bm crc32 h
  unfold getMaxMappedSizeInPartition at hmapped
  rw [← hfs, hkind] at hmapped
  dsimp only at hmapped
  unfold ubifsGetMaxMappedSizeInPartition at hmapped
  split at hmapped
  · cases hmapped
  · rename_i params hparams
    obtain ⟨leb, -, -, -, -, -, -, ⟨vi, hvi, -⟩, -⟩ := VolumeSize.ubiVolumeParamsSet_some hparams
    split_ifs at hmapped
    dsimp only at hmapped
    split at hmapped
    · cases hmapped
      exact ⟨vi, hvi⟩
    · cases hmapped

/-- In the update of a partition, from a prepare that succeeds to the end, no report divides by zero, but for the
requests that `Divides` tells by the state they are made in. -/
theorem reports_iff {bm : PartInfo} {crc32 : List UInt8 → ℕ} {fs : Filesystem} {source : UbiSource}
    {method : OperationMethod} {offset length : ℕ} {st st' : UbiState} {info : PrepareInfo}
    (h : mtdBlockPrepare dev bm crc32 fs source method offset length st = some (info, st')) (rs : List Request) :
    (∀ p ∈ Request.trace dev bm crc32 info rs 0 st', (p.1.exec dev bm crc32 info p.2.1 p.2.2).ret ≠ .trap) ↔
      ∀ p ∈ Request.trace dev bm crc32 info rs 0 st', ¬p.1.Divides dev crc32 info p.2.2 := by
  have htrap := @Request.trace_trap dev bm crc32 _ (mtdBlockPrepare_some dev bm crc32 h).1
    rs 0 _ (prepared_vi h)
  constructor
  · exact fun hret p hp hd => hret p hp ((htrap p hp).mpr hd)
  · exact fun hdiv p hp hr => hdiv p hp ((htrap p hp).mp hr)

section Small

open Packager ManifestRead ManifestRoundTrip Mxml

def fourPebs : MtdDevInfo where
  type := .nandflash
  size := 2048
  ebSize := 512
  minIoSize := 64
  subpageSize := 64
  oobSize := 1
  start := 0
  ebSize_pow := ⟨9, rfl⟩
  minIoSize_pow := ⟨6, rfl⟩
  minIoSize_dvd := by decide
  subpageSize_dvd := by decide
  size_dvd := by decide
  start_dvd := by decide

def fourScanned : UbiSource := ⟨[], 7, some ⟨fun _ => 1, 1, 4, 0, 0, 4⟩⟩

def fourPrepared (length : ℕ) : Option (PrepareInfo × UbiState) :=
  mtdBlockPrepare (failsAt []) ⟨[fourPebs], 2048⟩ (fun _ => 0) .ubifs fourScanned .partition 0 length blankUbiState

theorem reports_iff_four : ∃ info st, fourPrepared 384 = some (info, st) ∧
    ((∀ p ∈ Request.trace (failsAt []) ⟨[fourPebs], 2048⟩ (fun _ => 0) info
          [.erase 0, .write 1024 (List.replicate 384 1), .finish] 0 st,
        (p.1.exec (failsAt []) ⟨[fourPebs], 2048⟩ (fun _ => 0) info p.2.1 p.2.2).ret ≠ .trap) ↔
      ∀ p ∈ Request.trace (failsAt []) ⟨[fourPebs], 2048⟩ (fun _ => 0) info
          [.erase 0, .write 1024 (List.replicate 384 1), .finish] 0 st,
        ¬p.1.Divides (failsAt []) (fun _ => 0) info p.2.2) := by
  have hsome : (fourPrepared 384).isSome = true := by decide +kernel
  obtain ⟨⟨info, st⟩, h⟩ := Option.isSome_iff_exists.mp hsome
  exact ⟨info, st, h, reports_iff h _⟩

def sizelessImage : Image := ⟨"nand", 1, 1, [⟨"boot.bin", 0, "normal", 16, ⟨.full, 0, 0⟩⟩]⟩

theorem sizelessImage_carried : Carried sizelessImage smallDevice where
  imageJudged := rfl
  deviceJudged := (@smallImage_carried 0 (by decide)).deviceJudged
  images p hp := by
    rcases List.mem_singleton.mp hp with rfl
    exact ⟨(by decide : FitsName "boot.bin"), (by decide : 0 < 2 ^ 64), (by decide : (16 : ℤ) < 2 ^ 64),
      (by decide : 0 < 2 ^ 32), (by decide : 0 < 2 ^ 32)⟩
  imgcnt := (by decide : 1 < 2 ^ 32)
  partitions := (@smallImage_carried 0 (by decide)).partitions
  partCount := by decide
  capacity := by decide

/-- The manifest of an image without a size is read, and the first write of the update divides by zero; so does the
end of an update of UBI that has written the last PEB. -/
theorem zero_divisors :
    (parseUpdateXml 32 (loadFile 32 (sizelessImage.generate "nand")) ⟨"nand", 0, 0, []⟩ =
        some (true, ⟨"nand", 1, 1, [⟨⟨"boot.bin", "normal", 16, 0, 0, 1⟩, updateModeFull⟩]⟩) ∧
      ∃ info st, mtdBlockPrepare (failsAt []) twoParts (fun _ => 0) .normal fourScanned .partition 16 0 blankUbiState =
          some (info, st) ∧
        ¬∀ p ∈ Request.trace (failsAt []) twoParts (fun _ => 0) info [.erase 16, .write 16 [1]] 0 st,
          (p.1.exec (failsAt []) twoParts (fun _ => 0) info p.2.1 p.2.2).ret ≠ .trap) ∧
    ∃ info st, fourPrepared 768 = some (info, st) ∧
      ¬∀ p ∈ Request.trace (failsAt []) ⟨[fourPebs], 2048⟩ (fun _ => 0) info
          [.erase 0, .write 1024 (List.replicate 768 1), .finish] 0 st,
        (p.1.exec (failsAt []) ⟨[fourPebs], 2048⟩ (fun _ => 0) info p.2.1 p.2.2).ret ≠ .trap := by
  have htraps {bm : PartInfo} {rs : List Request} {prepared : Option (PrepareInfo × UbiState)} (rets : List Ret)
      (h : prepared.map (fun p => (Request.trace (failsAt []) bm (fun _ => 0) p.1 rs 0 p.2).map
        (fun q => (q.1.exec (failsAt []) bm (fun _ => 0) p.1 q.2.1 q.2.2).ret)) = some rets) (hmem : .trap ∈ rets) :
      ∃ info st, prepared = some (info, st) ∧ ¬∀ p ∈ Request.trace (failsAt []) bm (fun _ => 0) info rs 0 st,
        (p.1.exec (failsAt []) bm (fun _ => 0) info p.2.1 p.2.2).ret ≠ .trap := by
    obtain ⟨⟨info, st⟩, hp, rfl⟩ := Option.map_eq_some_iff.mp h
    obtain ⟨q, hq, htrap⟩ := List.mem_map.mp hmem
    exact ⟨info, st, hp, fun hall => hall q hq htrap⟩
  refine ⟨⟨?_, ?_⟩, ?_⟩
  · rw [parse_update (.inl rfl) sizelessImage_carried]
    decide
  · exact htraps [.off 32, .trap] (by decide +kernel) (by decide)
  · exact htraps [.off 2560, .off 2048, .trap] (by decide +kernel) (by decide)

end Small

end LinuxRecovery.ProgressDivisor
