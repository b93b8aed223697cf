import LinuxRecovery.BasicWrite
import LinuxRecovery.Ubigen

namespace LinuxRecovery.UbiPrepare

open Libmtd Ubigen

structure UbiScanInfo where
  ec : ℕ → ℕ
  meanEc : ℕ
  okCnt : ℕ
  emptyCnt : ℕ
  badCnt : ℕ
  goodCnt : ℕ

def ebBad : ℕ := 0xFFFFFFFC

def ecMax : ℕ := 0x7FFFFFFF

structure UbiMtdDeviceInfo where
  pebSize : ℕ
  pageSize : ℕ
  subpageSize : ℕ
  partitionSize : ℕ
  deviceSize : ℕ
  deriving DecidableEq

structure UbiParams where
  volName : List UInt8
  maxBebPer1024 : ℕ
  ubiReservedBlks : ℕ
  lebsize : ℕ
  volSize : ℕ
  overrideEc : Bool
  ec : ℕ
  vidHdrLnum : ℕ
  startEb : ℕ
  layoutVolumeStartEb : ℕ
  formatEb : ℕ
  outbuf : List UInt8
  devinfo : UbiMtdDeviceInfo
  ui : UbigenInfo
  si : UbiScanInfo
  vtbl : List UbiVtblRecord
  vi : Option UbigenVolInfo

def configMtdUbiBebLimit : ℕ := 20

def ubiLayoutVolumeEbs : ℕ := 2

def wlReservedPebs : ℕ := 1

def ebaReservedPebs : ℕ := 1

def ubiVolNameMax : ℕ := 127

def multFrac (x numer denom : ℕ) : ℕ := x / denom * numer + x % denom * numer / denom

def getBadPebLimit (params : UbiParams) : ℕ :=
  if params.maxBebPer1024 = 0 then 0
  else
    let devicePebs := params.devinfo.deviceSize / params.devinfo.pebSize % 2 ^ 32
    let limit := multFrac devicePebs params.maxBebPer1024 1024
    if multFrac limit 1024 params.maxBebPer1024 < devicePebs then limit + 1 else limit

def sub32 (a b : ℕ) : ℕ := (((a : ℤ) - b) % 2 ^ 32).toNat

/-- The sizes in `ubi_volume_params_set`, all of them `unsigned int`. -/
def sizeVolume (params : UbiParams) : UbiParams :=
  let logicBlksize := sub32 params.devinfo.pebSize (2 * params.devinfo.pageSize)
  let params := { params with maxBebPer1024 := configMtdUbiBebLimit }
  let ubiReservedBlks := ubiLayoutVolumeEbs + wlReservedPebs + ebaReservedPebs + getBadPebLimit params
  let logicBlkcnt := sub32 params.si.goodCnt ubiReservedBlks
  { params with
    vtbl := ubigenCreateEmptyVtbl params.ui
    ubiReservedBlks := ubiReservedBlks
    lebsize := logicBlksize
    volSize := logicBlkcnt * logicBlksize % 2 ^ 32 }

def ubiGenerateViInfo (imageLength : ℕ) (params : UbiParams) : Option UbiParams :=
  let ui := params.ui
  let alignment : ℕ := 1
  if ui.maxVolumes ≤ 0 then none
  else if ubiVolNameMax < params.volName.length then none
  else if ui.lebSize ≤ (alignment : ℤ) then none
  else
    let dataPad := ui.lebSize.toNat % alignment
    let usableLebSize := ui.lebSize.toNat - dataPad
    if imageLength % usableLebSize ≠ 0 then none
    else
      let usedEbs := (params.volSize + usableLebSize - 1) / usableLebSize
      let vi : UbigenVolInfo := ⟨0, .dynamic, alignment, dataPad, usableLebSize, params.volName, 0, usedEbs, params.volSize, 0⟩
      match ubigenAddVolume ui vi params.vtbl with
      | none => none
      | some vtbl => some { params with vtbl := vtbl, vi := some vi }

def ubiVolumeParamsSet (imageLength : ℕ) (params : UbiParams) : Option UbiParams :=
  ubiGenerateViInfo imageLength (sizeVolume params)

section Init

-- `local_crc32` from `UBI_CRC32_INIT`
variable (crc32 : List UInt8 → ℕ)

def chooseEc (si : UbiScanInfo) (params : UbiParams) : UbiParams :=
  if params.overrideEc = false ∧ si.emptyCnt < si.goodCnt then
    let percent := si.okCnt * 100 / si.goodCnt
    if percent < 50 then { params with ec := 0, overrideEc := true }
    else if percent < 95 then { params with ec := si.meanEc, overrideEc := true }
    else params
  else params

def ubiMtdPartCheck (scanned : Option UbiScanInfo) (params : UbiParams) : Option UbiParams :=
  match scanned with
  | none => none
  | some si => if si.goodCnt < 2 then none else some { chooseEc si params with si := si }

/-- `capacity` is the device's, `scanned` what `ubi_scan` finds on a partition that is writable and free. -/
def ubiParamsInit (mtd : MtdDevInfo) (capacity : ℕ) (volName : List UInt8) (imageSeq : ℕ)
    (scanned : Option UbiScanInfo) : Option UbiParams :=
  let devinfo : UbiMtdDeviceInfo := ⟨mtd.ebSize, mtd.minIoSize, mtd.subpageSize, mtd.size, capacity⟩
  let ui := ubigenInfoInit devinfo.pebSize devinfo.pageSize devinfo.subpageSize 0 1 imageSeq
  let params : UbiParams := ⟨volName, 0, 0, 0, 0, false, 0, 0, 0, 0, 0, [], devinfo, ui, ⟨fun _ => 0, 0, 0, 0, 0, 0⟩, [], none⟩
  match ubiMtdPartCheck scanned params with
  | none => none
  | some params =>
    -- what lies behind the headers is not set before a volume is written
    let outbuf := List.replicate ui.pebSize 0xFF
    some { params with outbuf := Sysinfo.memcpy outbuf 0 (ubigenInitEcHdr crc32 ui params.ec) }

theorem ubiParamsInit_some {mtd : MtdDevInfo} {capacity : ℕ} {volName : List UInt8} {imageSeq : ℕ}
    {scanned : Option UbiScanInfo} {params : UbiParams}
    (h : ubiParamsInit crc32 mtd capacity volName imageSeq scanned = some params) :
    params.ui = ubigenInfoInit mtd.ebSize mtd.minIoSize mtd.subpageSize 0 1 imageSeq ∧
      params.devinfo = ⟨mtd.ebSize, mtd.minIoSize, mtd.subpageSize, mtd.size, capacity⟩ ∧
      params.layoutVolumeStartEb = 0 ∧ scanned = some params.si := by
  unfold ubiParamsInit ubiMtdPartCheck at h
  dsimp only at h
  cases scanned with
  | none => cases h
  | some si =>
    dsimp only at h
    split_ifs at h
    cases h
    unfold chooseEc
    dsimp only
    split_ifs
    · exact ⟨rfl, rfl, rfl, rfl⟩
    · exact ⟨rfl, rfl, rfl, rfl⟩
    · exact ⟨rfl, rfl, rfl, rfl⟩
    · exact ⟨rfl, rfl, rfl, rfl⟩

theorem ubiParamsInit_outbuf {mtd : MtdDevInfo} {capacity : ℕ} {volName : List UInt8} {imageSeq : ℕ}
    {scanned : Option UbiScanInfo} {params : UbiParams}
    (h : ubiParamsInit crc32 mtd capacity volName imageSeq scanned = some params) :
    ∃ ec, params.outbuf =
      Sysinfo.memcpy (List.replicate params.ui.pebSize 0xFF) 0 (ubigenInitEcHdr crc32 params.ui ec) := by
  obtain ⟨hui, -, -, -⟩ := ubiParamsInit_some crc32 h
  unfold ubiParamsInit at h
  dsimp only at h
  split at h
  · cases h
  · cases h
    dsimp only at hui
    rw [hui]
    exact ⟨_, rfl⟩

theorem ubiParamsInit_vi {mtd : MtdDevInfo} {capacity : ℕ} {volName : List UInt8} {imageSeq : ℕ}
    {scanned : Option UbiScanInfo} {params : UbiParams}
    (h : ubiParamsInit crc32 mtd capacity volName imageSeq scanned = some params) : params.vi = none := by
  unfold ubiParamsInit ubiMtdPartCheck at h
  dsimp only at h
  cases scanned with
  | none => cases h
  | some si =>
    dsimp only at h
    split_ifs at h
    cases h
    unfold chooseEc
    dsimp only
    split_ifs
    · rfl
    · rfl
    · rfl
    · rfl

end Init

theorem ubiVolumeParamsSet_kept {imageLength : ℕ} {params params' : UbiParams}
    (h : ubiVolumeParamsSet imageLength params = some params') : params'.ui = params.ui ∧ params'.outbuf = params.outbuf := by
  unfold ubiVolumeParamsSet ubiGenerateViInfo at h
  dsimp only at h
  split_ifs at h
  split at h
  · cases h
  · cases h
    exact ⟨rfl, rfl⟩

theorem ubiVolumeParamsSet_place {imageLength : ℕ} {params params' : UbiParams}
    (h : ubiVolumeParamsSet imageLength params = some params') :
    params'.startEb = params.startEb ∧ params'.layoutVolumeStartEb = params.layoutVolumeStartEb := by
  unfold ubiVolumeParamsSet ubiGenerateViInfo at h
  dsimp only at h
  split_ifs at h
  split at h
  · cases h
  · cases h
    exact ⟨rfl, rfl⟩

theorem ubiVolumeParamsSet_vi {imageLength : ℕ} {params params' : UbiParams}
    (h : ubiVolumeParamsSet imageLength params = some params') : params'.vi.isSome = true := by
  unfold ubiVolumeParamsSet ubiGenerateViInfo at h
  dsimp only at h
  split_ifs at h
  split at h
  · cases h
  · cases h
    rfl

theorem ubiVolumeParamsSet_roomless {imageLength : ℕ} {params : UbiParams} (h : params.ui.lebSize = 0) :
    ubiVolumeParamsSet imageLength params = none := by
  have hui : (sizeVolume params).ui.lebSize = 0 := h
  unfold ubiVolumeParamsSet ubiGenerateViInfo
  dsimp only
  rw [hui]
  split_ifs with h1 h2 h3
  · rfl
  · rfl
  · rfl
  · exact absurd (by decide : (0 : ℤ) ≤ ((1 : ℕ) : ℤ)) h3
  · exact absurd (by decide : (0 : ℤ) ≤ ((1 : ℕ) : ℤ)) h3

end LinuxRecovery.UbiPrepare
