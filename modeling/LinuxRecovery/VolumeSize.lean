import LinuxRecovery.UbiPrepare

namespace LinuxRecovery.VolumeSize

open Libmtd Ubigen UbiPrepare

theorem roundUp_dvd (n u : ℕ) : u ∣ roundUp n u := Dvd.intro_left _ rfl

theorem le_roundUp {u : ℕ} (n : ℕ) (hu : 0 < u) : n ≤ roundUp n u := by
  have hdiv := Nat.div_add_mod (n + u - 1) u
  have hmod := Nat.mod_lt (n + u - 1) hu
  rw [roundUp, Nat.mul_comm]
  omega

theorem roundUp_between {n u k : ℕ} (h : k * u < n) (h' : n ≤ (k + 1) * u) : roundUp n u = (k + 1) * u := by
  rw [roundUp]
  congr 1
  have hk : (k + 1) * u = k * u + u := by rw [Nat.add_mul, Nat.one_mul]
  apply Nat.div_eq_of_lt_le
  · omega
  · rw [Nat.add_mul (k + 1), Nat.one_mul]
    omega

structure OfDevice (mtd : MtdDevInfo) (capacity : ℕ) (params : UbiParams) : Prop where
  ui : ∃ imageSeq, params.ui = ubigenInfoInit mtd.ebSize mtd.minIoSize mtd.subpageSize 0 1 imageSeq
  devinfo : params.devinfo = ⟨mtd.ebSize, mtd.minIoSize, mtd.subpageSize, mtd.size, capacity⟩

variable {mtd : MtdDevInfo} {capacity : ℕ} {params params' : UbiParams}

def dataOffs (mtd : MtdDevInfo) : ℕ := roundUp (roundUp ubiEcHdrSize mtd.subpageSize + ubiVidHdrSize) mtd.minIoSize

theorem OfDevice.lebSize (h : OfDevice mtd capacity params) :
    params.ui.lebSize = (mtd.ebSize : ℤ) - dataOffs mtd := by
  obtain ⟨imageSeq, hui⟩ := h.ui
  rw [hui]
  rfl

section Sectors

variable (mtd)

theorem dataOffs_whole (hsub : mtd.subpageSize = mtd.minIoSize) (h64 : 64 ≤ mtd.minIoSize) :
    dataOffs mtd = 2 * mtd.minIoSize := by
  have hvid : roundUp ubiEcHdrSize mtd.minIoSize = mtd.minIoSize := by
    have h := roundUp_between (k := 0) (n := ubiEcHdrSize) (u := mtd.minIoSize) (by simp [ubiEcHdrSize])
      (by simpa [ubiEcHdrSize] using h64)
    simpa using h
  rw [dataOffs, hsub, hvid]
  apply roundUp_between (k := 1)
  · simp [ubiVidHdrSize]
  · simp only [ubiVidHdrSize]
    omega

theorem dataOffs_shared (hsub : mtd.subpageSize ≠ mtd.minIoSize) (h64 : 64 ≤ mtd.subpageSize) :
    dataOffs mtd = mtd.minIoSize := by
  have hvid : roundUp ubiEcHdrSize mtd.subpageSize = mtd.subpageSize := by
    have h := roundUp_between (k := 0) (n := ubiEcHdrSize) (u := mtd.subpageSize) (by simp [ubiEcHdrSize])
      (by simpa [ubiEcHdrSize] using h64)
    simpa using h
  have hhalf : 2 * mtd.subpageSize ≤ mtd.minIoSize := by
    obtain ⟨k, hk⟩ := mtd.subpageSize_dvd
    have hpos := mtd.minIoSize_pos
    have h2 : 2 ≤ k := by
      rcases k with _ | _ | k
      · omega
      · omega
      · omega
    rw [hk, Nat.mul_comm]
    exact Nat.mul_le_mul_left _ h2
  have h := roundUp_between (k := 0) (n := mtd.subpageSize + ubiVidHdrSize) (u := mtd.minIoSize)
    (by simp [ubiVidHdrSize]) (by simp only [ubiVidHdrSize]; omega)
  rw [dataOffs, hvid]
  simpa using h

theorem minIoSize_le_dataOffs : mtd.minIoSize ≤ dataOffs mtd := by
  have hpos : 0 < roundUp ubiEcHdrSize mtd.subpageSize + ubiVidHdrSize := by simp [ubiVidHdrSize]
  obtain ⟨k, hk⟩ := roundUp_dvd (roundUp ubiEcHdrSize mtd.subpageSize + ubiVidHdrSize) mtd.minIoSize
  have hle := le_roundUp (roundUp ubiEcHdrSize mtd.subpageSize + ubiVidHdrSize) mtd.minIoSize_pos
  rw [dataOffs]
  exact Nat.le_of_dvd (by omega) ⟨k, hk⟩

end Sectors

theorem sub32_of_le {a b : ℕ} (h : b ≤ a) (ha : a < 2 ^ 32) : sub32 a b = a - b := by
  rw [sub32]
  omega

theorem sub32_of_lt {a b : ℕ} (h : a < b) (hb : b ≤ 2 ^ 32) : sub32 a b = 2 ^ 32 - (b - a) := by
  rw [sub32]
  omega

theorem sizeVolume_lebsize (h : OfDevice mtd capacity params) :
    (sizeVolume params).lebsize = sub32 mtd.ebSize (2 * mtd.minIoSize) := by
  unfold sizeVolume
  dsimp only
  rw [h.devinfo]

/-- The two sizes of a logical block are one only where a header takes a page and two of them leave room. -/
theorem sameLeb_iff (h : OfDevice mtd capacity params) (h64 : 64 ≤ mtd.subpageSize) (hint : mtd.ebSize < 2 ^ 31) :
    ((sizeVolume params).lebsize : ℤ) = params.ui.lebSize ↔
      mtd.subpageSize = mtd.minIoSize ∧ 2 * mtd.minIoSize ≤ mtd.ebSize := by
  have hpage := mtd.minIoSize_le
  rw [sizeVolume_lebsize h, h.lebSize]
  by_cases hsub : mtd.subpageSize = mtd.minIoSize
  · rw [dataOffs_whole mtd hsub (hsub ▸ h64)]
    by_cases hroom : 2 * mtd.minIoSize ≤ mtd.ebSize
    · rw [sub32_of_le hroom (by omega)]
      omega
    · rw [sub32_of_lt (by omega) (by omega)]
      omega
  · have hpos := mtd.minIoSize_pos
    rw [dataOffs_shared mtd hsub h64]
    by_cases hroom : 2 * mtd.minIoSize ≤ mtd.ebSize
    · rw [sub32_of_le hroom (by omega)]
      omega
    · rw [sub32_of_lt (by omega) (by omega)]
      omega

theorem page_whole : 2048 ∣ 2048 := dvd_refl 2048

def pagedNand (subpageSize cnt : ℕ) (h : subpageSize ∣ 2048) : MtdDevInfo where
  type := .nandflash
  size := cnt * 131072
  ebSize := 131072
  minIoSize := 2048
  subpageSize := subpageSize
  oobSize := 64
  start := 0
  ebSize_pow := ⟨17, rfl⟩
  minIoSize_pow := page_pow
  minIoSize_dvd := ⟨64, rfl⟩
  subpageSize_dvd := h
  size_dvd := Dvd.intro_left cnt rfl
  start_dvd := Dvd.intro 0 rfl

def paramsOn (mtd : MtdDevInfo) (goodCnt : ℕ) : UbiParams :=
  ⟨[], 0, 0, 0, 0, false, 0, 0, 0, 0, 0, [], ⟨mtd.ebSize, mtd.minIoSize, mtd.subpageSize, mtd.size, 134217728⟩,
    ubigenInfoInit mtd.ebSize mtd.minIoSize mtd.subpageSize 0 1 0, ⟨fun _ => 0, 0, 0, goodCnt, 0, goodCnt⟩, [], none⟩

theorem paramsOn_ofDevice (mtd : MtdDevInfo) (goodCnt : ℕ) : OfDevice mtd 134217728 (paramsOn mtd goodCnt) :=
  ⟨⟨0, rfl⟩, rfl⟩

theorem sameLeb_iff_paged :
    ((sizeVolume (paramsOn (pagedNand 2048 100 (by decide)) 100)).lebsize : ℤ) =
      (paramsOn (pagedNand 2048 100 (by decide)) 100).ui.lebSize ↔
        (pagedNand 2048 100 (by decide)).subpageSize = (pagedNand 2048 100 (by decide)).minIoSize ∧
          2 * (pagedNand 2048 100 (by decide)).minIoSize ≤ (pagedNand 2048 100 (by decide)).ebSize :=
  sameLeb_iff (paramsOn_ofDevice _ 100) (by decide) (by decide)

/-- With four subpages to a page the volume is sized with 126976 bytes a block and written with 129024. -/
theorem subpage_leb_differs :
    ((sizeVolume (paramsOn (pagedNand 512 100 (by decide)) 100)).lebsize : ℤ) ≠
      (paramsOn (pagedNand 512 100 (by decide)) 100).ui.lebSize := by
  decide

theorem sizeVolume_frame (params : UbiParams) :
    (sizeVolume params).ui = params.ui ∧ (sizeVolume params).si = params.si ∧
      (sizeVolume params).vtbl = ubigenCreateEmptyVtbl params.ui := ⟨rfl, rfl, rfl⟩

theorem ubiVolumeParamsSet_some {imageLength : ℕ} (h : ubiVolumeParamsSet imageLength params = some params') :
    ∃ leb : ℕ, params.ui.lebSize = leb ∧ 1 < leb ∧ leb ∣ imageLength ∧ params'.si = params.si ∧
      params'.volSize = (sizeVolume params).volSize ∧ params'.ubiReservedBlks = (sizeVolume params).ubiReservedBlks ∧
      (∃ vi, params'.vi = some vi ∧ vi.usableLebSize = leb) ∧
      ∃ record, params'.vtbl[0]? = some record ∧
        record.reservedPebs = ((sizeVolume params).volSize + leb - 1) / leb % 2 ^ 32 := by
  obtain ⟨hui, hsi, hvtbl⟩ := sizeVolume_frame params
  unfold ubiVolumeParamsSet ubiGenerateViInfo at h
  rw [hui, hvtbl] at h
  dsimp only at h
  split_ifs at h with hmax hname hleb hdvd
  obtain ⟨leb, hl⟩ := Int.eq_ofNat_of_zero_le (show 0 ≤ params.ui.lebSize by omega)
  have hpad : params.ui.lebSize.toNat - params.ui.lebSize.toNat % 1 = leb := by
    rw [hl, Int.toNat_natCast, Nat.mod_one, Nat.sub_zero]
  refine ⟨leb, hl, by omega, ?_, ?_⟩
  · rw [hpad] at hdvd
    exact Nat.dvd_of_mod_eq_zero (not_not.mp hdvd)
  · rw [ubigenAddVolume, if_neg (by simpa using hmax), if_neg (by simpa using hleb)] at h
    cases h
    refine ⟨hsi, rfl, rfl, ⟨_, rfl, hpad⟩, _, List.getElem?_set_self ?_, ?_⟩
    · rw [ubigenCreateEmptyVtbl, List.length_replicate]
      exact Nat.lt_of_not_le hmax
    · dsimp only
      rw [hl, Int.toNat_natCast]

def Prepared (imageLength : ℕ) (params : UbiParams) : Prop :=
  ∃ record vi, params.vtbl[0]? = some record ∧ params.vi = some vi ∧
    record.reservedPebs + params.ubiReservedBlks ≤ params.si.goodCnt ∧
    params.volSize = record.reservedPebs * vi.usableLebSize ∧
    (imageLength + vi.usableLebSize - 1) / vi.usableLebSize ≤ record.reservedPebs

def reservedBlks (params : UbiParams) : ℕ :=
  ubiLayoutVolumeEbs + wlReservedPebs + ebaReservedPebs +
    getBadPebLimit { params with maxBebPer1024 := configMtdUbiBebLimit }

def volumeBytes (mtd : MtdDevInfo) (params : UbiParams) : ℕ :=
  (params.si.goodCnt - reservedBlks params) * (mtd.ebSize - 2 * mtd.minIoSize) % 2 ^ 32

structure Fits (mtd : MtdDevInfo) (imageLength : ℕ) (params : UbiParams) : Prop where
  reserve : reservedBlks params ≤ params.si.goodCnt
  whole : mtd.ebSize - dataOffs mtd ∣ volumeBytes mtd params
  room : volumeBytes mtd params ≤ (params.si.goodCnt - reservedBlks params) * (mtd.ebSize - dataOffs mtd)
  image : imageLength ≤ volumeBytes mtd params

theorem volSize_eq (h : OfDevice mtd capacity params) (hgood : params.si.goodCnt < 2 ^ 31)
    (hint : mtd.ebSize < 2 ^ 31) (hroom : 2 * mtd.minIoSize ≤ mtd.ebSize)
    (hreserve : reservedBlks params ≤ params.si.goodCnt) : (sizeVolume params).volSize = volumeBytes mtd params := by
  unfold sizeVolume
  dsimp only
  rw [h.devinfo]
  dsimp only
  rw [sub32_of_le hroom (by omega), volumeBytes, ← sub32_of_le hreserve (by omega)]
  unfold reservedBlks
  rw [h.devinfo]

theorem twoPages_le (h : OfDevice mtd capacity params) (hleb : 0 < params.ui.lebSize) :
    2 * mtd.minIoSize ≤ mtd.ebSize := by
  have hoffs := minIoSize_le_dataOffs mtd
  rw [h.lebSize] at hleb
  obtain ⟨k, hk⟩ := mtd.minIoSize_dvd
  have h2 : 2 ≤ k := by
    rcases k with _ | _ | k
    · omega
    · omega
    · omega
  rw [hk, Nat.mul_comm]
  exact Nat.mul_le_mul_left _ h2

theorem ceil_mul_iff {v leb : ℕ} (hleb : 0 < leb) : v = (v + leb - 1) / leb * leb ↔ leb ∣ v := by
  constructor
  · intro h
    exact h ▸ Dvd.intro_left _ rfl
  · rintro ⟨k, rfl⟩
    rw [Nat.add_sub_assoc hleb, Nat.mul_add_div hleb, Nat.div_eq_of_lt (by omega), Nat.add_zero, Nat.mul_comm]

theorem prepared_iff {imageLength : ℕ} (h : OfDevice mtd capacity params) (hgood : params.si.goodCnt < 2 ^ 31)
    (hint : mtd.ebSize < 2 ^ 31) (hset : ubiVolumeParamsSet imageLength params = some params') :
    Prepared imageLength params' ↔ Fits mtd imageLength params := by
  obtain ⟨leb, hl, hleb, ⟨n, rfl⟩, hsi, hvol, hblks, ⟨vi, hvi, husable⟩, record, hrecord, hpebs⟩ :=
    ubiVolumeParamsSet_some hset
  have hsize : mtd.ebSize - dataOffs mtd = leb := by
    have := h.lebSize
    omega
  have hpos : 0 < leb := by omega
  have hroom := twoPages_le h (by omega)
  have hcnt (v : ℕ) (hv : v < 2 ^ 32) : (v + leb - 1) / leb % 2 ^ 32 = (v + leb - 1) / leb := by
    apply Nat.mod_eq_of_lt
    rw [Nat.div_lt_iff_lt_mul hpos]
    omega
  have hprepared : Prepared (leb * n) params' ↔
      record.reservedPebs + reservedBlks params ≤ params.si.goodCnt ∧
        (sizeVolume params).volSize = record.reservedPebs * leb ∧ n ≤ record.reservedPebs := by
    have hceil : (leb * n + leb - 1) / leb = n := by
      rw [Nat.add_sub_assoc hpos, Nat.mul_add_div hpos, Nat.div_eq_of_lt (by omega), Nat.add_zero]
    unfold Prepared
    rw [hrecord, hvi, hsi, hvol, hblks]
    constructor
    · rintro ⟨_, _, ⟨⟩, ⟨⟩, h1, h2, h3⟩
      rw [husable] at h2 h3
      rw [hceil] at h3
      exact ⟨h1, h2, h3⟩
    · rintro ⟨h1, h2, h3⟩
      refine ⟨record, vi, rfl, rfl, h1, ?_, ?_⟩
      · rw [husable, h2]
      · rw [husable, hceil]
        exact h3
  rw [hprepared, hpebs]
  by_cases hreserve : reservedBlks params ≤ params.si.goodCnt
  · rw [volSize_eq h hgood hint hroom hreserve]
    have hlt : volumeBytes mtd params < 2 ^ 32 := Nat.mod_lt _ (by decide)
    rw [hcnt _ hlt, ceil_mul_iff hpos]
    constructor
    · rintro ⟨h1, hdvd, h3⟩
      have hexact := (ceil_mul_iff hpos).mpr hdvd
      refine ⟨hreserve, hsize ▸ hdvd, ?_, ?_⟩
      · rw [hsize, hexact]
        exact Nat.mul_le_mul_right _ (by omega)
      · rw [hexact, Nat.mul_comm]
        exact Nat.mul_le_mul_right _ h3
    · rintro ⟨-, hdvd, hle, himage⟩
      rw [hsize] at hdvd hle
      have hexact := (ceil_mul_iff hpos).mpr hdvd
      rw [hexact] at hle himage
      have h1 := Nat.le_of_mul_le_mul_right hle hpos
      rw [Nat.mul_comm] at himage
      have h3 := Nat.le_of_mul_le_mul_right himage hpos
      exact ⟨by omega, hdvd, h3⟩
  · constructor
    · rintro ⟨h1, -, -⟩
      omega
    · intro hfits
      exact absurd hfits.reserve hreserve

theorem prepared_iff_paged :
    ∃ params', ubiVolumeParamsSet 380928 (paramsOn (pagedNand 2048 100 (by decide)) 100) = some params' ∧
      (Prepared 380928 params' ↔
        Fits (pagedNand 2048 100 (by decide)) 380928 (paramsOn (pagedNand 2048 100 (by decide)) 100)) := by
  obtain ⟨params', h⟩ := Option.isSome_iff_exists.mp
    (show (ubiVolumeParamsSet 380928 (paramsOn (pagedNand 2048 100 (by decide)) 100)).isSome = true by decide)
  exact ⟨params', h, prepared_iff (paramsOn_ofDevice _ 100) (by decide) (by decide) h⟩

/-- A partition of 20 blocks is smaller than the reserve of its device, and the volume's size wraps around. -/
theorem small_partition_overcommitted :
    ∃ params', ubiVolumeParamsSet 380928 (paramsOn (pagedNand 2048 20 (by decide)) 20) = some params' ∧
      ¬Prepared 380928 params' := by
  obtain ⟨params', h⟩ := Option.isSome_iff_exists.mp
    (show (ubiVolumeParamsSet 380928 (paramsOn (pagedNand 2048 20 (by decide)) 20)).isSome = true by decide)
  refine ⟨params', h, ?_⟩
  rw [prepared_iff (paramsOn_ofDevice _ 20) (by decide) (by decide) h]
  intro hfits
  exact absurd hfits.reserve (by decide)

theorem fits_plain {imageLength : ℕ} (hsub : mtd.subpageSize = mtd.minIoSize) (h64 : 64 ≤ mtd.minIoSize)
    (hlt : (params.si.goodCnt - reservedBlks params) * (mtd.ebSize - 2 * mtd.minIoSize) < 2 ^ 32) :
    Fits mtd imageLength params ↔ reservedBlks params ≤ params.si.goodCnt ∧
      imageLength ≤ (params.si.goodCnt - reservedBlks params) * (mtd.ebSize - 2 * mtd.minIoSize) := by
  have hbytes : volumeBytes mtd params =
      (params.si.goodCnt - reservedBlks params) * (mtd.ebSize - 2 * mtd.minIoSize) := Nat.mod_eq_of_lt hlt
  have hoffs := dataOffs_whole mtd hsub h64
  constructor
  · rintro ⟨hreserve, -, -, himage⟩
    exact ⟨hreserve, hbytes ▸ himage⟩
  · rintro ⟨hreserve, himage⟩
    refine ⟨hreserve, ?_, ?_, hbytes ▸ himage⟩
    · rw [hbytes, hoffs]
      exact Dvd.intro_left _ rfl
    · rw [hbytes, hoffs]

end LinuxRecovery.VolumeSize
