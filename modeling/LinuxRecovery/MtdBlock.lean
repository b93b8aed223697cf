import LinuxRecovery.BasicErase
import LinuxRecovery.BasicRead
import LinuxRecovery.UbiVolume

namespace LinuxRecovery.MtdBlock

open Libmtd BlockMap BasicWrite BasicRead BlockScan SysinfoSave BasicErase Ubigen UbiPrepare UbiPeb UbiVolume

inductive Filesystem where
  | normal
  | cramfs
  | jffs2
  | yaffs2
  | ubifs
  deriving DecidableEq

def Filesystem.name : Filesystem → String
  | .normal => "normal"
  | .cramfs => "cramfs"
  | .jffs2 => "jffs2"
  | .yaffs2 => "yaffs2"
  | .ubifs => "ubifs"

def Filesystem.kind : Filesystem → Option FsKind
  | .normal => some fsNormal
  | .cramfs => some fsCramfs
  | .jffs2 => some fsJffs2
  | .yaffs2 => some fsYaffs2
  | .ubifs => none

def yaffs2TagSize : ℕ := 28

def getLebSize (mtd : MtdDevInfo) (ubi : UbiParams) : Filesystem → ℕ
  | .normal => mtd.ebSize
  | .cramfs => mtd.ebSize
  | .jffs2 => mtd.ebSize
  | .yaffs2 => mtd.ebSize + yaffs2TagSize
  | .ubifs => (ubi.ui.lebSize % 2 ^ 32).toNat

structure UbiSource where
  volName : List UInt8
  imageSeq : ℕ
  scanned : Option UbiScanInfo

/-- What `prepare` keeps: the context with its parameters, and what it was told about the place. -/
structure PrepareInfo where
  mtd : MtdDevInfo
  fs : Filesystem
  writeStart : ℕ
  physicalUnitSize : ℕ
  logicalUnitSize : ℕ
  maxSizeMappedInPartition : ℕ
  maxSize : ℕ

variable (dev : Device) (bm : PartInfo) (crc32 : List UInt8 → ℕ) (mtd : MtdDevInfo)

def ubifsGetOperateStartAddress (source : UbiSource) (offset : ℕ) (st : UbiState) : Option (ℕ × UbiState) :=
  match ubiParamsInit crc32 mtd bm.capacity source.volName source.imageSeq source.scanned with
  | none => none
  | some params =>
    let eb := offset / params.ui.pebSize - mtdOffsetToEbIndex mtd mtd.start
    match ubiBypassLayoutVol dev mtd eb { st with ubi := params } with
    | (none, _) => none
    | (some next, st) =>
      some (mtdEbRelativeToAbsolute mtd next * st.ubi.ui.pebSize,
        { st with ubi := { st.ubi with vidHdrLnum := 0, startEb := eb, layoutVolumeStartEb := next } })

def ubifsGetMaxMappedSizeInPartition (method : OperationMethod) (offset length : ℕ) (st : UbiState) :
    Option (ℕ × UbiState) :=
  match ubiVolumeParamsSet length st.ubi with
  | none => none
  | some params =>
    if params.layoutVolumeStartEb = 0 then none
    else
      let bypassedBytes := params.ui.pebSize * (params.layoutVolumeStartEb - params.startEb)
      match mtdBlockScan dev mtd false method bm.capacity offset (length + bypassedBytes) st.toBmState with
      | (.off (n + 1), bmState) => some (n + 1, { st.withBm bmState with ubi := params })
      | _ => none

def getOperateStartAddress (fs : Filesystem) (source : UbiSource) (offset : ℕ) (st : UbiState) :
    Option (ℕ × UbiState) :=
  match fs.kind with
  | some _ => some (offset, st)
  | none => ubifsGetOperateStartAddress dev bm crc32 mtd source offset st

def getMaxMappedSizeInPartition (fs : Filesystem) (method : OperationMethod) (offset length : ℕ) (st : UbiState) :
    Option (ℕ × UbiState) :=
  match fs.kind with
  | some kind =>
    match mtdBlockScan dev mtd kind.flag.noskipbad method bm.capacity offset length st.toBmState with
    | (.off n, bmState) => some (n, st.withBm bmState)
    | _ => none
  | none => ubifsGetMaxMappedSizeInPartition dev bm mtd method offset length st

/-- The parts of the partition's information in the order in which they are asked for. -/
def mtdBlockPrepare (fs : Filesystem) (source : UbiSource) (method : OperationMethod) (offset length : ℕ)
    (st : UbiState) : Option (PrepareInfo × UbiState) :=
  match mtdGetDevInfoByOffset bm offset with
  | none => none
  | some mtd =>
    match getOperateStartAddress dev bm crc32 mtd fs source offset st with
    | none => none
    | some (writeStart, st) =>
      let lebSize := getLebSize mtd st.ubi fs
      match getMaxMappedSizeInPartition dev bm mtd fs method offset length st with
      | none => none
      | some (maxSize, st) =>
        if mtd.ebSize = 0 ∨ lebSize = 0 then none
        else some (⟨mtd, fs, writeStart, mtd.ebSize, lebSize, maxSize, length⟩, st)

def ubifsErase (offset length : ℕ) (st : UbiState) : Ret :=
  .off ((offset + length + st.ubi.ui.pebSize) / st.ubi.ui.pebSize * st.ubi.ui.pebSize)

def fsErase (info : PrepareInfo) (offset length progressSize : ℕ) (st : UbiState) : VolOutcome :=
  match info.fs.kind with
  | some kind =>
    let (ret, bmState) := mtdBasicErase dev bm info.mtd kind length st.toBmState
    ⟨ret, progressSize, st.withBm bmState⟩
  | none => ⟨ubifsErase offset length st, progressSize, st⟩

def fsWrite (info : PrepareInfo) (offset : ℕ) (data : List UInt8) (progressSize : ℕ) (st : UbiState) : VolOutcome :=
  match info.fs.kind with
  | some kind =>
    let out := mtdBasicWrite dev info.mtd kind info.maxSize progressSize offset data st.toBmState
    ⟨out.ret, out.progressSize, st.withBm out.st⟩
  | none => ubifsWrite dev info.mtd crc32 info.maxSize progressSize offset data st

def fsRead (info : PrepareInfo) (offset length : ℕ) (st : UbiState) : ReadOutcome :=
  match info.fs with
  | .normal => mtdBasicRead dev info.mtd offset length st.toBmState
  | _ => ⟨.trap, [], st.toBmState⟩

/-- `int retval`: what does not fit is cut off, and a negative rest is a failure. -/
def narrow (n : ℕ) : Option ℕ := if (n : ℤ).bmod (2 ^ 32) < 0 then none else some ((n : ℤ).bmod (2 ^ 32)).toNat

def narrowRet : Ret → Ret
  | .off n => (narrow n).elim .fail .off
  | ret => ret

def mtdBlockErase (info : PrepareInfo) (offset length progressSize : ℕ) (st : UbiState) : VolOutcome :=
  let out := fsErase dev bm info offset length progressSize st
  { out with ret := narrowRet out.ret }

def mtdBlockWrite (info : PrepareInfo) (offset : ℕ) (data : List UInt8) (progressSize : ℕ) (st : UbiState) : VolOutcome :=
  let out := fsWrite dev crc32 info offset data progressSize st
  { out with ret := narrowRet out.ret }

def mtdBlockRead (info : PrepareInfo) (offset length : ℕ) (st : UbiState) : ReadOutcome :=
  let out := fsRead dev info offset length st
  { out with ret := narrowRet out.ret }

def mtdBlockFinish (info : PrepareInfo) (progressSize : ℕ) (st : UbiState) : VolOutcome :=
  match info.fs.kind with
  | some _ => ⟨.off 0, progressSize, st⟩
  | none =>
    let (ret, st) := ubifsDone dev info.mtd crc32 st
    ⟨ret, progressSize, st⟩

theorem narrowRet_trap {ret : Ret} : narrowRet ret = .trap ↔ ret = .trap := by
  cases ret with
  | off n =>
    rw [narrowRet]
    cases narrow n <;> exact iff_of_false Ret.noConfusion Ret.noConfusion
  | fail => rfl
  | trap => rfl

theorem devInfoFrom_size {offset size : ℕ} {parts : List MtdDevInfo} {mtd : MtdDevInfo}
    (h : devInfoFrom offset size parts = some mtd) (hle : size ≤ offset) : 0 < mtd.size := by
  induction parts generalizing size with
  | nil => cases h
  | cons part parts ih =>
    unfold devInfoFrom at h
    split_ifs at h with hlt
    · cases h
      omega
    · exact ih h (by omega)

theorem mtdBlockPrepare_info {fs : Filesystem} {source : UbiSource} {method : OperationMethod} {offset length : ℕ}
    {st st' : UbiState} {info : PrepareInfo}
    (h : mtdBlockPrepare dev bm crc32 fs source method offset length st = some (info, st')) :
    mtdGetDevInfoByOffset bm offset = some info.mtd ∧ ∃ start st₁ n,
      getOperateStartAddress dev bm crc32 info.mtd fs source offset st = some (start, st₁) ∧
        getMaxMappedSizeInPartition dev bm info.mtd fs method offset length st₁ = some (n, st') ∧
        getLebSize info.mtd st₁.ubi fs ≠ 0 ∧
        info = ⟨info.mtd, fs, start, info.mtd.ebSize, getLebSize info.mtd st₁.ubi fs, n, length⟩ := by
  unfold mtdBlockPrepare at h
  split at h
  · cases h
  · rename_i mtd hmtd
    split at h
    · cases h
    · rename_i start st₁ hstart
      dsimp only at h
      split at h
      · cases h
      · rename_i n st₂ hmapped
        split_ifs at h with hzero
        cases h
        exact ⟨hmtd, start, st₁, n, hstart, hmapped, fun hleb => hzero (.inr hleb), rfl⟩

theorem mtdBlockPrepare_some {fs : Filesystem} {source : UbiSource} {method : OperationMethod} {offset length : ℕ}
    {st st' : UbiState} {info : PrepareInfo}
    (h : mtdBlockPrepare dev bm crc32 fs source method offset length st = some (info, st')) :
    0 < info.mtd.size ∧ info.fs = fs ∧ info.maxSize = length ∧ ∃ start st₁ n,
      getOperateStartAddress dev bm crc32 info.mtd fs source offset st = some (start, st₁) ∧
        getMaxMappedSizeInPartition dev bm info.mtd fs method offset length st₁ = some (n, st') ∧
        info.logicalUnitSize = getLebSize info.mtd st₁.ubi fs := by
  obtain ⟨hmtd, start, st₁, n, hstart, hmapped, -, hinfo⟩ := mtdBlockPrepare_info dev bm crc32 h
  exact ⟨devInfoFrom_size hmtd (Nat.zero_le _), congrArg PrepareInfo.fs hinfo, congrArg PrepareInfo.maxSize hinfo, start,
    st₁, n, hstart, hmapped, congrArg PrepareInfo.logicalUnitSize hinfo⟩

end LinuxRecovery.MtdBlock
