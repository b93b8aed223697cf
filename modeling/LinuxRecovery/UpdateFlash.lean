import LinuxRecovery.PrepareRuns
import LinuxRecovery.ProgrammedBytes
import LinuxRecovery.WritePackage

namespace LinuxRecovery.UpdateFlash

open Libmtd BlockMap BasicWrite BlockScan SysinfoSave MtdManager PageOutcomes ProgrammedBytes Traces
open MtdBlock (Filesystem UbiSource narrow narrowRet)
open WritePackage (Event)
open UpdateFile (ImageInfo)

def int64 (n : UInt64) : ℤ := n.toBitVec.toInt

section Calls

variable (dev : Device) (bm : PartInfo) (crc32 : List UInt8 → ℕ) (source : MtdDevInfo → Chip → UbiSource) (order : Order)

def preparation (offset length : UInt64) (filetype : String) (m : Manager) : Option (Bool × Manager) :=
  mtdBlockPrepare dev bm crc32 source (int64 offset) (int64 length) (some ⟨.partition, filetype⟩) order m

/-- What a call of `write_update_pkg` comes to; after one that does not return nothing follows. -/
def step (m : Manager) : WritePackage.Call → Manager
  | .prepare _ offset length filetype => (preparation dev bm crc32 source order offset length filetype m).elim m Prod.snd
  | .erase _ offset length => (mtdBlockErase dev bm offset.toNat length m).elim m Prod.snd
  | .write _ _ offset buffer => (mtdBlockWrite dev crc32 offset buffer m).elim m Prod.snd
  | .finish _ => (mtdBlockFinish dev crc32 m).elim m Prod.snd

/-- The block manager behind the calls made so far, `m` its state in front of them. -/
def after (m : Manager) (tr : List Event) : Manager := replay (step dev bm crc32 source order) m tr

def record (m : Manager) : WritePackage.Call → Option PrepareRecord
  | .prepare _ offset length filetype =>
    match preparation dev bm crc32 source order offset length filetype m with
    | some (true, m) => some m.prepareInfo
    | _ => none
  | _ => none

def offsetOf : Option (Ret × Manager) → Option ℕ
  | some (.off n, _) => some n
  | _ => none

/-- The block manager that `write_update_pkg` works on; `read` says which reads of the chunk files succeed. -/
def mtdBm (m : Manager) (read : List Event → Bool) : WritePackage.BlockManager where
  registered filetype := (fsGetRegisteredByName filetype).isSome
  operateStartAddress tr call :=
    (record dev bm crc32 source order (after dev bm crc32 source order m tr) call).map (fun r => r.writeStart.toNat)
  blocksize offset := UInt32.ofInt (blocksize bm (int64 offset))
  lebSize tr call :=
    (record dev bm crc32 source order (after dev bm crc32 source order m tr) call).elim 0
      (fun r => UInt32.ofInt r.logicalUnitSize)
  maxMappedSize tr call :=
    (record dev bm crc32 source order (after dev bm crc32 source order m tr) call).map
      (fun r => r.maxSizeMappedInPartition.toNat)
  partitionSize offset := (devInfoByOffset bm (int64 offset)).elim 0 MtdDevInfo.size
  read := read
  erase tr call :=
    match call with
    | .erase _ offset length =>
      (offsetOf (mtdBlockErase dev bm offset.toNat length (after dev bm crc32 source order m tr))).isSome
    | _ => false
  write tr call :=
    match call with
    | .write _ _ offset buffer => offsetOf (mtdBlockWrite dev crc32 offset buffer (after dev bm crc32 source order m tr))
    | _ => none
  finish tr call :=
    match call with
    | .finish _ => (offsetOf (mtdBlockFinish dev crc32 (after dev bm crc32 source order m tr))).isSome
    | _ => false

end Calls

variable {dev : Device} {bm : PartInfo} {crc32 : List UInt8 → ℕ} {source : MtdDevInfo → Chip → UbiSource} {order : Order}
  {mtd : MtdDevInfo} {m m' : Manager} {ret : Ret} {fs : Filesystem}

theorem int64_nonneg {n : UInt64} (h : 0 ≤ int64 n) : int64 n = n.toNat := by
  unfold int64 at h ⊢
  rw [BitVec.toInt_eq_toNat_cond] at h ⊢
  have := n.toBitVec.isLt
  split_ifs at h ⊢
  · rfl
  · omega

theorem ofInt_toNat {n : ℕ} (h : n < 2 ^ 32) : (UInt32.ofInt n).toNat = n := by
  rw [UInt32.ofInt, UInt32.toNat_ofNat']
  omega

theorem offsetOf_some {r : Option (Ret × Manager)} {n : ℕ} (h : offsetOf r = some n) : ∃ m, r = some (.off n, m) := by
  unfold offsetOf at h
  split at h
  · cases h
    exact ⟨_, rfl⟩
  · cases h

structure Opened (fs : Filesystem) (mtd : MtdDevInfo) (m : Manager) : Prop where
  prepared : m.prepared = true
  handle : m.prepareInfo.contextHandle = some fs
  mtd : (m.params fs).mtd = some mtd

theorem withParams_self (fs : Filesystem) (p : FsParams) : (m.withParams fs p).params fs = p := Function.update_self ..

theorem Opened.transfer (h : Opened fs mtd m) (offset length : ℕ) :
    ∃ s, dataTransferParamsSet offset length m = some (fs, s) ∧ Opened fs mtd s ∧ s.toBmState = m.toBmState := by
  refine ⟨m.withParams fs { m.params fs with offset := offset, length := length }, ?_, ?_, rfl⟩
  · rw [dataTransferParamsSet, contextHandle, if_pos h.prepared, h.handle]
    rfl
  · exact ⟨h.prepared, h.handle, by rw [withParams_self]; exact h.mtd⟩

theorem returned_off {r : Ret} {n : ℕ} (h : returned r m = some (.off n, m')) :
    m' = m ∧ ∃ k, r = .off k ∧ narrow k = some n := by
  unfold returned at h
  split_ifs at h
  cases r with
  | off k =>
    rw [narrowRet, Option.some_inj, Prod.mk.injEq] at h
    obtain ⟨hr, rfl⟩ := h
    cases hk : narrow k with
    | none =>
      rw [hk] at hr
      cases hr
    | some j =>
      rw [hk] at hr
      cases hr
      exact ⟨rfl, k, rfl, hk⟩
  | fail => cases h
  | trap => cases h

theorem gather_lebSize {offset : ℤ} {v : Argument → ℤ} (hmtd : (m.params .normal).mtd = some mtd)
    (h : gather dev bm crc32 source .normal offset order m = some (v, m')) : v .lebSize = mtd.ebSize := by
  refine (PartialSteps.evalArgs_kept (I := fun t => t.params = m.params) (fun _ _ _ _ hs hc => (call_kept hc).params.trans hs)
    (Q := fun a n => a = .lebSize → n = mtd.ebSize) ?_ rfl h).2 .lebSize (.inl (order.mem _)) rfl
  rintro a u n w hu hc rfl
  rw [Argument.call, lebSize, hu, hmtd] at hc
  cases hc
  rfl

theorem prepare_opened {offset length : ℤ} {filetype : String} (hfs : fsGetRegisteredByName filetype = some fs)
    (h : mtdBlockPrepare dev bm crc32 source offset length (some ⟨.partition, filetype⟩) order m = some (true, m'))
    (hmtd : devInfoByOffset bm offset = some mtd) :
    ∃ v t, Opened fs mtd m' ∧ Valid v ∧ gather dev bm crc32 source fs offset order
        (prepareConvertParams bm fs offset length .partition m) = some (v, t) ∧
      m'.prepareInfo = ⟨v .operateStart, v .blocksize, v .lebSize, v .maxMapped, some fs⟩ := by
  obtain ⟨fs', v, t, hfs', hg, hr⟩ := prepare_cases h
  obtain rfl : fs = fs' := Option.some.inj (hfs.symm.trans hfs')
  have hok : (mtdGetPrepareInfo fs v t).1 = true ↔ Valid v := prepareInfo_ok
  have hvalid : Valid v := by
    rw [← hok, ← hr]
  have hm' : m' = (mtdGetPrepareInfo fs v t).2 := congrArg Prod.snd hr
  have hrecord : (mtdGetPrepareInfo fs v t).2.prepareInfo = _ := prepareInfo_record
  rw [← hm', if_pos hvalid] at hrecord
  have hbound : (t.params fs).mtd = some mtd := by
    rw [(gather_kept hg).params, prepareConvertParams, hmtd]
    exact congrArg FsParams.mtd (withParams_self _ _)
  refine ⟨v, t, ⟨?_, by rw [hrecord], ?_⟩, hvalid, hg, hrecord⟩
  · rw [hm']
    exact prepareInfo_prepared
  · rw [hm', mtdGetPrepareInfo, if_pos hvalid]
    dsimp only
    rw [withParams_self]
    exact hbound

theorem prepare_opens {offset length : ℤ}
    (h : mtdBlockPrepare dev bm crc32 source offset length (some ⟨.partition, "normal"⟩) order m = some (true, m'))
    (hmtd : devInfoByOffset bm offset = some mtd) :
    Opened .normal mtd m' ∧ m'.prepareInfo.writeStart = offset ∧ 0 ≤ offset ∧ m'.prepareInfo.logicalUnitSize = mtd.ebSize := by
  have hname : fsGetRegisteredByName "normal" = some .normal := by decide
  obtain ⟨v, t, hopened, hvalid, hg, hrecord⟩ := prepare_opened hname h hmtd
  let s := prepareConvertParams bm .normal offset length .partition m
  have hparams : s.params .normal =
      { m.params .normal with mtd := some mtd, offset := offset, length := length, method := .partition } := by
    change (prepareConvertParams _ _ _ _ _ _).params _ = _
    rw [prepareConvertParams, hmtd]
    exact withParams_self _ _
  have hbound : (s.params .normal).mtd = some mtd := by rw [hparams]
  have hg' : gather dev bm crc32 source .normal offset order s = some (v, t) := hg
  obtain ⟨v', t', hvalues, hstart, -⟩ := @PrepareRuns.gather_basic dev bm crc32 source offset .normal s mtd fsNormal
    rfl hbound order
  rw [hg', Option.some_inj, Prod.mk.injEq] at hvalues
  obtain ⟨rfl, rfl⟩ := hvalues
  have hoffset : v .operateStart = offset := by rw [hstart, hparams]
  have hleb : v .lebSize = mtd.ebSize := gather_lebSize hbound hg'
  exact ⟨hopened, by rw [hrecord]; exact hoffset, hoffset ▸ hvalid.writeStart, by rw [hrecord]; exact hleb⟩

theorem erase_opened {offset length n : ℕ} (h : mtdBlockErase dev bm offset length m = some (.off n, m'))
    (ho : Opened .normal mtd m) : Opened .normal mtd m' := by
  obtain ⟨s, hs, hos, -⟩ := ho.transfer offset length
  rw [MtdManager.mtdBlockErase, hs] at h
  dsimp only [Filesystem.kind] at h
  rw [hos.mtd, Option.elim_some] at h
  obtain ⟨rfl, -⟩ := returned_off h
  exact ⟨hos.prepared, hos.handle, hos.mtd⟩

theorem write_written (hf : PageFaults dev mtd (fun _ => false)) (hn : mtdTypeIsNand mtd = true) {offset n : ℕ}
    {buf : List UInt8} (hu : Unreserved mtd 0 m.toBmState) (ho : Opened .normal mtd m)
    (h : mtdBlockWrite dev crc32 offset buf m = some (.off n, m')) :
    Opened .normal mtd m' ∧ ∃ w k, offset = mtd.start + w ∧ narrow k = some n ∧
      Written mtd m.toBmState w buf k m'.toBmState := by
  obtain ⟨s, hs, hos, hst⟩ := ho.transfer offset buf.length
  rw [MtdManager.mtdBlockWrite, hs] at h
  dsimp only [Filesystem.kind] at h
  rw [hos.mtd, Option.elim_some, hst] at h
  obtain ⟨rfl, k, hk, hnarrow⟩ := returned_off h
  obtain ⟨w, hw, hwritten⟩ := basicWrite_written hf ⟨hn, rfl⟩ hu hk
  exact ⟨⟨hos.prepared, hos.handle, by rw [withParams_self]⟩, w, k, by omega, hnarrow, hwritten⟩

theorem finish_bm {n : ℕ} (ho : Opened .normal mtd m) (h : mtdBlockFinish dev crc32 m = some (.off n, m')) :
    m'.toBmState = m.toBmState := by
  rw [MtdManager.mtdBlockFinish, if_neg (by rw [ho.prepared]; exact Bool.noConfusion), ho.handle] at h
  cases h
  rfl

end LinuxRecovery.UpdateFlash
