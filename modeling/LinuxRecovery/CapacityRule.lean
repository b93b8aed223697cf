import LinuxRecovery.DeviceLayout
import LinuxRecovery.VolumeSize

namespace LinuxRecovery.CapacityRule

open Libmtd (MtdDevInfo)
open Ubigen UbiPrepare Packager PackagedImages

theorem blockSize_eq : nandflashBlockSize = 131072 := rfl

theorem lebSize_eq : Packager.ubiLebSize = 126976 := rfl

/-- The updater's parameters are those of a device with `n` of the packager's erase blocks. -/
structure OnBlocks (n : ℕ) (params : UbiParams) : Prop where
  deviceSize : params.devinfo.deviceSize = n * nandflashBlockSize
  pebSize : params.devinfo.pebSize = nandflashBlockSize
  limit : params.maxBebPer1024 = ubiMtdUbiBebLimitPer1024

section Reserve

variable {n : ℕ} {params : UbiParams}

theorem getBadPebLimit_eq (hpebs : params.devinfo.deviceSize / params.devinfo.pebSize = n)
    (hlimit : params.maxBebPer1024 = ubiMtdUbiBebLimitPer1024) :
    getBadPebLimit params = (n % 2 ^ 32 * 20 + 1023) / 1024 := by
  rw [getBadPebLimit, hpebs, hlimit, if_neg (by decide)]
  dsimp only
  generalize n % 2 ^ 32 = m
  have hforth : multFrac m ubiMtdUbiBebLimitPer1024 1024 = m * 20 / 1024 := by
    rw [multFrac, ubiMtdUbiBebLimitPer1024]
    omega
  have hback : multFrac (m * 20 / 1024) 1024 ubiMtdUbiBebLimitPer1024 = m * 20 / 1024 * 1024 / 20 := by
    rw [multFrac, ubiMtdUbiBebLimitPer1024]
    omega
  rw [hforth, hback]
  split_ifs <;> omega

theorem getNandReservedSize_eq (device : Packager.Device) (h : 0 < device.devsize) :
    device.getNandReservedSize =
      ((device.devsize / nandflashBlockSize * 20 / 1024 + 1) * nandflashBlockSize : ℤ) := by
  simp only [Device.getNandReservedSize, blockSize_eq, ubiMtdUbiBebLimitPer1024]
  push_cast
  split_ifs <;> omega

theorem getNandReservedSize_zero (device : Packager.Device) (h : device.devsize = 0) : device.getNandReservedSize = 0 := by
  simp only [Device.getNandReservedSize, h]
  decide

theorem rounding_eq (n : ℕ) :
    (n * 20 + 1023) / 1024 + (if 256 ∣ n then 1 else 0) = n * 20 / 1024 + 1 := by
  have hdvd : 256 ∣ n ↔ n * 5 % 256 = 0 := by
    rw [← Nat.dvd_iff_mod_eq_zero]
    exact (Nat.Coprime.dvd_mul_right (by decide)).symm
  have hfloor : n * 20 / 1024 = n * 5 / 256 := by omega
  have hceil : (n * 20 + 1023) / 1024 = (n * 5 + 255) / 256 := by omega
  rw [hfloor, hceil]
  simp only [hdvd]
  generalize n * 5 = w
  split_ifs <;> omega

theorem rounding_iff (n : ℕ) :
    n * 20 / 1024 + 1 = (n % 2 ^ 32 * 20 + 1023) / 1024 ↔ n < 2 ^ 32 ∧ ¬256 ∣ n := by
  by_cases hlt : n < 2 ^ 32
  · rw [Nat.mod_eq_of_lt hlt, and_iff_right hlt, ← rounding_eq]
    split_ifs with hdvd
    · simp [hdvd]
    · simp [hdvd]
  · have hmod := Nat.mod_lt n (show 0 < 2 ^ 32 by decide)
    generalize n % 2 ^ 32 = m at hmod ⊢
    omega

/-- Both sides reserve as many blocks exactly when the share of bad blocks is no whole number, and the updater can
count the blocks of the device. -/
theorem reserves_agree_iff (device : Packager.Device) (params : UbiParams) (n : ℕ)
    (hdevice : device.devsize = (n * nandflashBlockSize : ℕ)) (hparams : OnBlocks n params) :
    device.getNandReservedSize = (getBadPebLimit params * nandflashBlockSize : ℕ) ↔
      n = 0 ∨ (n < 2 ^ 32 ∧ ¬256 ∣ n) := by
  have hpebs : params.devinfo.deviceSize / params.devinfo.pebSize = n := by
    rw [hparams.deviceSize, hparams.pebSize, Nat.mul_div_cancel _ (by decide)]
  rw [getBadPebLimit_eq hpebs hparams.limit]
  rcases Nat.eq_zero_or_pos n with rfl | hn
  · rw [getNandReservedSize_zero device (by rw [hdevice]; rfl)]
    simp
  · have hquot : device.devsize / nandflashBlockSize = n := by
      rw [hdevice, blockSize_eq]
      omega
    have hreserved : device.getNandReservedSize = ((n * 20 / 1024 + 1) * nandflashBlockSize : ℕ) := by
      rw [getNandReservedSize_eq device (by rw [hdevice, blockSize_eq]; omega), hquot]
      push_cast
      rfl
    rw [hreserved, Nat.cast_inj, Nat.mul_left_inj (by decide), rounding_iff]
    omega

end Reserve

def paramsFor (size capacity : ℕ) : UbiParams :=
  ⟨[], 20, 0, 0, 0, false, 0, 0, 0, 0, 0, [],
    ⟨nandflashBlockSize, nandflashPageSize, nandflashPageSize, size, capacity⟩,
    ubigenInfoInit nandflashBlockSize nandflashPageSize nandflashPageSize 0 1 0,
    ⟨fun _ => 0, 0, 0, 0, 0, size / nandflashBlockSize⟩, [], none⟩

theorem paramsFor_onBlocks (size n : ℕ) : OnBlocks n (paramsFor size (n * nandflashBlockSize)) := ⟨rfl, rfl, rfl⟩

def bareDevice (n : ℕ) : Packager.Device := ⟨"nand", (n * nandflashBlockSize : ℕ), []⟩

theorem reserves_agree_iff_hundred :
    (bareDevice 100).getNandReservedSize =
      (getBadPebLimit (paramsFor 0 (100 * nandflashBlockSize)) * nandflashBlockSize : ℕ) ↔
        100 = 0 ∨ (100 < 2 ^ 32 ∧ ¬256 ∣ 100) :=
  reserves_agree_iff (bareDevice 100) _ 100 rfl (paramsFor_onBlocks 0 100)

theorem reserves_differ : (bareDevice 256).getNandReservedSize = 6 * 131072 ∧
    getBadPebLimit (paramsFor 0 (256 * nandflashBlockSize)) = 5 ∧
    ¬(bareDevice 256).getNandReservedSize =
      (getBadPebLimit (paramsFor 0 (256 * nandflashBlockSize)) * nandflashBlockSize : ℕ) := by
  decide

structure OnPartition (device : Packager.Device) (p : Partition) (params : UbiParams) : Prop where
  ui : ∃ imageSeq, params.ui = ubigenInfoInit nandflashBlockSize nandflashPageSize nandflashPageSize 0 1 imageSeq
  devinfo : params.devinfo =
    ⟨nandflashBlockSize, nandflashPageSize, nandflashPageSize, p.size.toNat, device.devsize.toNat⟩
  healthy : params.si.goodCnt = p.size.toNat / nandflashBlockSize

/-- The volume has room for every image of whole LEBs that the packager accepts at the partition's start. -/
def Sound (device : Packager.Device) (p : Partition) : Prop :=
  ∀ params, OnPartition device p params → ∀ m params',
    device.judgePartitionMapped p.offset (m * Packager.ubiLebSize) "ubifs" = true →
    ubiVolumeParamsSet (m * Packager.ubiLebSize) params = some params' →
    ∃ record, params'.vtbl[0]? = some record ∧ m ≤ record.reservedPebs

section Volume

variable {device : Packager.Device} {p : Partition} {params params' : UbiParams}

theorem accepted_iff (hjudge : device.judge = true) (hp : p ∈ device.partition)
    (size : ℕ) : device.judgePartitionMapped p.offset size "ubifs" = true ↔
      0 < p.getAvailableMappedContentSize "ubifs" ∧ (size : ℤ) ≤ DeviceLayout.usable device p "ubifs" := by
  obtain ⟨h0, hpos, hend⟩ := judged_part hjudge hp
  have hin : p.isMmapedIn p.offset = true := isMmapedIn_iff.mpr ⟨le_rfl, by omega⟩
  rw [DeviceLayout.judgePartitionMapped_eq, DeviceLayout.mapped_eq size "ubifs"
    (show _ = some p by rw [find_mapped hjudge hp hin, Option.some_or])]
  by_cases hroom : p.getAvailableMappedContentSize "ubifs" ≤ 0
  · rw [if_pos hroom]
    simp [not_lt.mpr hroom]
  · rw [if_neg hroom, Option.getD_some, decide_eq_true_eq]
    constructor
    · intro h
      exact ⟨by omega, by omega⟩
    · rintro ⟨-, h⟩
      omega

theorem usable_eq (hnand : device.devtype = "nand") (hdev : 0 < device.devsize) :
    p.getAvailableMappedContentSize "ubifs" = p.size - 4 * 131072 ∧ DeviceLayout.usable device p "ubifs" =
      p.size - 4 * 131072 - (device.devsize / 131072 * 20 / 1024 + 1) * 131072 := by
  have havail : p.getAvailableMappedContentSize "ubifs" = p.size - 4 * 131072 := by
    simp only [Partition.getAvailableMappedContentSize]
    rfl
  refine ⟨havail, ?_⟩
  rw [DeviceLayout.usable, if_pos ⟨hnand, rfl⟩, havail, getNandReservedSize_eq device hdev, blockSize_eq]
  rfl

theorem volume_wraps (k n : ℕ) : ((sub32 k (4 + (n % 2 ^ 32 * 20 + 1023) / 1024) * 126976 % 2 ^ 32 : ℕ) : ℤ) =
    ((k : ℤ) - 4 - ((n : ℤ) * 20 + 1023) / 1024) * 126976 % 2 ^ 32 := by
  obtain ⟨q, r, hr, rfl⟩ : ∃ q r, r < 2 ^ 32 ∧ n = 2 ^ 32 * q + r :=
    ⟨n / 2 ^ 32, n % 2 ^ 32, Nat.mod_lt _ (by decide), (Nat.div_add_mod n (2 ^ 32)).symm⟩
  have hmod : (2 ^ 32 * q + r) % 2 ^ 32 = r := by
    rw [Nat.mul_add_mod, Nat.mod_eq_of_lt hr]
  have hlost : (((2 ^ 32 * q + r : ℕ) : ℤ) * 20 + 1023) / 1024 = ((r * 20 + 1023) / 1024 : ℕ) + 83886080 * q := by
    push_cast
    omega
  rw [hmod, hlost]
  generalize (r * 20 + 1023) / 1024 = reserve
  have hsub : ((sub32 k (4 + reserve) : ℕ) : ℤ) = ((k : ℤ) - (4 + reserve : ℕ)) % 2 ^ 32 := by
    rw [sub32]
    omega
  have hdiv := Int.emod_add_mul_ediv ((k : ℤ) - (4 + reserve : ℕ)) (2 ^ 32)
  rw [← hsub] at hdiv
  generalize ((k : ℤ) - (4 + reserve : ℕ)) / 2 ^ 32 = u at hdiv
  have hvolume : ((k : ℤ) - 4 - ((reserve : ℤ) + 83886080 * q)) * 126976 =
      (sub32 k (4 + reserve) : ℕ) * 126976 + 2 ^ 32 * (126976 * u - 2480 * q) := by
    push_cast at hdiv
    linarith
  rw [hvolume, Int.add_mul_emod_self_left]
  push_cast
  rfl

theorem volSize_eq (h : OnPartition device p params) (hsize : 0 < p.size) (hdev : 0 < device.devsize) :
    ((sizeVolume params).volSize : ℤ) =
      (p.size / 131072 - 4 - (device.devsize / 131072 * 20 + 1023) / 1024) * 126976 % 2 ^ 32 := by
  have hlimit : getBadPebLimit { params with maxBebPer1024 := configMtdUbiBebLimit } =
      (device.devsize.toNat / 131072 % 2 ^ 32 * 20 + 1023) / 1024 := by
    rw [@getBadPebLimit_eq (device.devsize.toNat / 131072)]
    · simp only [h.devinfo, blockSize_eq]
    · rfl
  have hleb : sub32 params.devinfo.pebSize (2 * params.devinfo.pageSize) = 126976 := by
    simp only [h.devinfo, nandflashBlockSize, nandflashPageSize, nandflashPagesPerBlock]
    exact VolumeSize.sub32_of_le (by omega) (by omega)
  have hvol : (sizeVolume params).volSize = sub32 params.si.goodCnt (4 +
      getBadPebLimit { params with maxBebPer1024 := configMtdUbiBebLimit }) *
        sub32 params.devinfo.pebSize (2 * params.devinfo.pageSize) % 2 ^ 32 := rfl
  have hblocks : ((p.size.toNat / 131072 : ℕ) : ℤ) = p.size / 131072 := by omega
  have hpebs : ((device.devsize.toNat / 131072 : ℕ) : ℤ) = device.devsize / 131072 := by omega
  rw [hvol, hlimit, hleb, h.healthy, blockSize_eq, volume_wraps, hblocks, hpebs]

theorem lebSize_of (h : OnPartition device p params) : params.ui.lebSize = (126976 : ℕ) := by
  obtain ⟨imageSeq, hui⟩ := h.ui
  rw [hui]
  rfl

theorem volume_record (h : OnPartition device p params) {m : ℕ}
    (hset : ubiVolumeParamsSet (m * Packager.ubiLebSize) params = some params') :
    ∃ record, params'.vtbl[0]? = some record ∧
      record.reservedPebs = ((sizeVolume params).volSize + 126976 - 1) / 126976 % 2 ^ 32 := by
  obtain ⟨leb, hl, -, -, -, -, -, -, record, hrecord, hpebs⟩ := VolumeSize.ubiVolumeParamsSet_some hset
  rw [lebSize_of h] at hl
  obtain rfl : 126976 = leb := by exact_mod_cast hl
  exact ⟨record, hrecord, hpebs⟩

theorem paramsFor_set (size capacity m : ℕ) :
    (ubiVolumeParamsSet (m * Packager.ubiLebSize) (paramsFor size capacity)).isSome = true := by
  have hui : (sizeVolume (paramsFor size capacity)).ui = (paramsFor 0 0).ui := rfl
  have hmax : ¬(paramsFor 0 0).ui.maxVolumes ≤ 0 := by decide
  have hname : ¬ubiVolNameMax < (sizeVolume (paramsFor size capacity)).volName.length := Nat.not_lt_zero _
  have hleb : ¬(paramsFor 0 0).ui.lebSize ≤ ((1 : ℕ) : ℤ) := by decide
  have hsize : (paramsFor 0 0).ui.lebSize.toNat - (paramsFor 0 0).ui.lebSize.toNat % 1 = Packager.ubiLebSize := by decide
  unfold ubiVolumeParamsSet ubiGenerateViInfo
  rw [hui]
  dsimp only
  rw [if_neg hmax, if_neg hname, if_neg hleb, hsize, if_neg (by rw [Nat.mul_mod_left]; exact not_not.mpr rfl),
    ubigenAddVolume, if_neg hmax, if_neg hleb]
  rfl

end Volume

/-- The rule is sound where the bytes it lets an image fill hold no more LEBs than erase blocks, one more being good
where the packager's reserve is the greater. -/
theorem sound_iff_fits (device : Packager.Device) (p : Partition) (hjudge : device.judge = true)
    (hnand : device.devtype = "nand") (hp : p ∈ device.partition) : Sound device p ↔
      DeviceLayout.usable device p "ubifs" / Packager.ubiLebSize ≤
        DeviceLayout.usable device p "ubifs" / nandflashBlockSize +
          if 256 ∣ device.devsize / nandflashBlockSize then 1 else 0 := by
  obtain ⟨h0, hpos, hend⟩ := judged_part hjudge hp
  have hdev : 0 < device.devsize := by omega
  obtain ⟨havail, husable⟩ := @usable_eq device p hnand hdev
  -- the blocks left over by the updater are those left over by the packager, or one more
  have hleft : p.size / 131072 - 4 - (device.devsize / 131072 * 20 + 1023) / 1024 =
      DeviceLayout.usable device p "ubifs" / 131072 + if 256 ∣ device.devsize / 131072 then 1 else 0 := by
    obtain ⟨n, hn⟩ := Int.eq_ofNat_of_zero_le (show 0 ≤ device.devsize / 131072 by omega)
    have hround : ((n : ℤ) * 20 + 1023) / 1024 + (if (256 : ℤ) ∣ n then 1 else 0) = (n : ℤ) * 20 / 1024 + 1 := by
      exact_mod_cast rounding_eq n
    rw [husable, hn, ← hround]
    omega
  have hvol : ∀ params, OnPartition device p params → ((sizeVolume params).volSize : ℤ) =
      (p.size / 131072 - 4 - (device.devsize / 131072 * 20 + 1023) / 1024) * 126976 % 2 ^ 32 :=
    fun params hon => volSize_eq hon hpos hdev
  have hacc := fun m : ℕ => accepted_iff hjudge hp (m * Packager.ubiLebSize)
  rw [blockSize_eq, lebSize_eq]
  push_cast
  rw [← hleft]
  have hnear : DeviceLayout.usable device p "ubifs" / 131072 ≤
      p.size / 131072 - 4 - (device.devsize / 131072 * 20 + 1023) / 1024 ∧
      p.size / 131072 - 4 - (device.devsize / 131072 * 20 + 1023) / 1024 ≤
        DeviceLayout.usable device p "ubifs" / 131072 + 1 := by
    rw [hleft]
    split_ifs <;> omega
  have hroom : DeviceLayout.usable device p "ubifs" ≤ p.getAvailableMappedContentSize "ubifs" :=
    DeviceLayout.usable_le hdev.le
  clear hleft husable
  generalize p.size / 131072 - 4 - (device.devsize / 131072 * 20 + 1023) / 1024 = c at *
  generalize DeviceLayout.usable device p "ubifs" = y at *
  constructor
  · intro h
    by_contra hlt
    have hy : 0 ≤ c ∧ 0 ≤ y / 126976 := by omega
    obtain ⟨params', hset⟩ := Option.isSome_iff_exists.mp
      (paramsFor_set p.size.toNat device.devsize.toNat (y / 126976).toNat)
    have hon : OnPartition device p (paramsFor p.size.toNat device.devsize.toNat) := ⟨⟨0, rfl⟩, rfl, rfl⟩
    obtain ⟨record, hrecord, hle⟩ := h _ hon _ params'
      ((hacc _).mpr ⟨by omega, by rw [lebSize_eq]; push_cast; omega⟩) hset
    obtain ⟨record', hrecord', hpebs⟩ := volume_record hon hset
    obtain rfl : record = record' := Option.some.inj (hrecord.symm.trans hrecord')
    have hsize := hvol _ hon
    generalize (sizeVolume (paramsFor p.size.toNat device.devsize.toNat)).volSize = v at hsize hpebs
    have hv : (v : ℤ) ≤ c * 126976 := by
      have hdiv := Int.mul_ediv_add_emod (c * 126976) (2 ^ 32)
      have hquot : 0 ≤ c * 126976 / 2 ^ 32 := Int.ediv_nonneg (by omega) (by decide)
      rw [← hsize] at hdiv
      omega
    have hfew : record.reservedPebs ≤ (v + 126976 - 1) / 126976 := by
      rw [hpebs]
      exact Nat.mod_le _ _
    clear hsize hpebs
    omega
  · intro h params hon m params' hm hset
    obtain ⟨-, hm⟩ := (hacc m).mp hm
    rw [lebSize_eq] at hm
    push_cast at hm
    obtain ⟨record, hrecord, hpebs⟩ := volume_record hon hset
    refine ⟨record, hrecord, ?_⟩
    have hsize := hvol params hon
    rw [hpebs]
    generalize (sizeVolume params).volSize = v at hsize
    rcases Nat.eq_zero_or_pos m with rfl | hpos
    · exact Nat.zero_le _
    · have hsmall : 1 ≤ c ∧ c ≤ 63 := by omega
      have hv : (v : ℤ) = c * 126976 := by
        rw [hsize, Int.emod_eq_of_lt (by omega) (by omega)]
      omega

/-- What the four blocks of UBI and the packager's reserve leave of the partition. -/
def bytesLeft (device : Packager.Device) (p : Partition) : ℤ :=
  p.size - (5 + device.devsize / nandflashBlockSize * 20 / 1024) * nandflashBlockSize

/-- Each block left adds the two pages of its headers to what an image may fill and a volume has not. -/
theorem capacity_sound_iff (device : Packager.Device) (p : Partition) (hjudge : device.judge = true)
    (hnand : device.devtype = "nand") (hp : p ∈ device.partition) : Sound device p ↔
      bytesLeft device p / nandflashBlockSize * (2 * nandflashPageSize) + bytesLeft device p % nandflashBlockSize <
        if 256 ∣ device.devsize / nandflashBlockSize then 2 * Packager.ubiLebSize else Packager.ubiLebSize := by
  obtain ⟨h0, hpos, hend⟩ := judged_part hjudge hp
  have hleft : DeviceLayout.usable device p "ubifs" = bytesLeft device p := by
    rw [(@usable_eq device p hnand (by omega)).2, bytesLeft, blockSize_eq]
    push_cast
    omega
  have hpage : (2 * nandflashPageSize : ℤ) = 4096 := rfl
  rw [sound_iff_fits device p hjudge hnand hp, hleft, hpage, blockSize_eq, lebSize_eq]
  push_cast
  split_ifs <;> omega

def whole (n : ℕ) : Partition := ⟨"rootfs", 0, (n * nandflashBlockSize : ℕ), "MTD_MODE_RAW"⟩

def wholeDevice (n : ℕ) : Packager.Device := ⟨"nand", (n * nandflashBlockSize : ℕ), [whole n]⟩

theorem capacity_sound_iff_twenty : Sound (wholeDevice 20) (whole 20) ↔
    bytesLeft (wholeDevice 20) (whole 20) / nandflashBlockSize * (2 * nandflashPageSize) +
      bytesLeft (wholeDevice 20) (whole 20) % nandflashBlockSize <
        if 256 ∣ (wholeDevice 20).devsize / nandflashBlockSize then 2 * Packager.ubiLebSize
        else Packager.ubiLebSize :=
  capacity_sound_iff (wholeDevice 20) (whole 20) (by decide) rfl (List.mem_singleton.mpr rfl)

theorem whole_unsound :
    (wholeDevice 1024).judgePartitionMapped 0 (1031 * Packager.ubiLebSize) "ubifs" = true ∧
    ((ubiVolumeParamsSet (1031 * Packager.ubiLebSize)
      (paramsFor (1024 * nandflashBlockSize) (1024 * nandflashBlockSize))).bind (fun params => params.vtbl[0]?)).map
        (fun record => record.reservedPebs) = some 1000 ∧
    ¬Sound (wholeDevice 1024) (whole 1024) := by
  refine ⟨by decide, by decide +kernel, ?_⟩
  rw [sound_iff_fits _ _ (by decide) rfl (List.mem_singleton.mpr rfl)]
  decide

end LinuxRecovery.CapacityRule
