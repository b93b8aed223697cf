import LinuxRecovery.Sysinfo

namespace LinuxRecovery.Ubigen

open Sysinfo (memcpy)

structure UbigenInfo where
  lebSize : ℤ
  pebSize : ℕ
  minIoSize : ℕ
  vidHdrOffs : ℕ
  dataOffs : ℕ
  ubiVer : ℕ
  vtblSize : ℕ
  maxVolumes : ℕ
  imageSeq : ℕ
  deriving DecidableEq

inductive UbiVolType where
  | dynamic
  | static
  deriving DecidableEq

structure UbigenVolInfo where
  id : ℕ
  type : UbiVolType
  alignment : ℕ
  dataPad : ℕ
  usableLebSize : ℕ
  name : List UInt8
  compat : ℕ
  usedEbs : ℕ
  bytes : ℕ
  flags : ℕ
  deriving DecidableEq

structure UbiVtblRecord where
  reservedPebs : ℕ
  alignment : ℕ
  dataPad : ℕ
  volType : ℕ
  name : List UInt8
  flags : ℕ
  deriving DecidableEq

def ubiEcHdrSize : ℕ := 64

def ubiVidHdrSize : ℕ := 64

def ubiVtblRecordSize : ℕ := 172

def ubiMaxVolumes : ℕ := 128

def ubiEcHdrMagic : ℕ := 0x55424923

def ubiVidHdrMagic : ℕ := 0x55424921

def roundUp (n unit : ℕ) : ℕ := (n + unit - 1) / unit * unit

def ubigenInfoInit (pebSize minIoSize subpageSize vidHdrOffs ubiVer imageSeq : ℕ) : UbigenInfo :=
  let vidHdrOffs := if vidHdrOffs = 0 then roundUp ubiEcHdrSize subpageSize else vidHdrOffs
  let dataOffs := roundUp (vidHdrOffs + ubiVidHdrSize) minIoSize
  let lebSize := (pebSize : ℤ) - dataOffs
  -- the record size is a `sizeof`, so the division is one of 32-bit unsigned numbers
  let maxVolumes := min ((lebSize % 2 ^ 32).toNat / ubiVtblRecordSize) ubiMaxVolumes
  ⟨lebSize, pebSize, minIoSize, vidHdrOffs, dataOffs, ubiVer, maxVolumes * ubiVtblRecordSize, maxVolumes, imageSeq⟩

def be32 (n : ℕ) : List UInt8 := [.ofNat (n / 2 ^ 24), .ofNat (n / 2 ^ 16), .ofNat (n / 2 ^ 8), .ofNat n]

def be64 (n : ℕ) : List UInt8 := be32 (n / 2 ^ 32) ++ be32 n

@[simp] theorem be32_length (n : ℕ) : (be32 n).length = 4 := rfl

@[simp] theorem be64_length (n : ℕ) : (be64 n).length = 8 := rfl

def UbiVolType.code : UbiVolType → ℕ
  | .dynamic => 1
  | .static => 2

section Headers

-- `local_crc32` from `UBI_CRC32_INIT`
variable (crc32 : List UInt8 → ℕ)

def sealed (fields : List UInt8) : List UInt8 := fields ++ be32 (crc32 fields)

def ecHdrFields (ui : UbigenInfo) (ec : ℕ) : List UInt8 :=
  be32 ubiEcHdrMagic ++ [.ofNat ui.ubiVer, 0, 0, 0] ++ be64 ec ++ be32 ui.vidHdrOffs ++ be32 ui.dataOffs ++
    be32 ui.imageSeq ++ List.replicate 32 0

def ubigenInitEcHdr (ui : UbigenInfo) (ec : ℕ) : List UInt8 := sealed crc32 (ecHdrFields ui ec)

def vidHdrFields (ui : UbigenInfo) (vi : UbigenVolInfo) (lnum : ℕ) (data : List UInt8) : List UInt8 :=
  let (dataSize, usedEbs, dataCrc) :=
    match vi.type with
    | .static => (data.length, vi.usedEbs, crc32 data)
    | .dynamic => (0, 0, 0)
  be32 ubiVidHdrMagic ++ [.ofNat ui.ubiVer, .ofNat vi.type.code, 0, .ofNat vi.compat] ++ be32 vi.id ++ be32 lnum ++
    be32 0 ++ be32 dataSize ++ be32 usedEbs ++ be32 vi.dataPad ++ be32 dataCrc ++ List.replicate 4 0 ++ be64 0 ++
    List.replicate 12 0

def ubigenInitVidHdr (ui : UbigenInfo) (vi : UbigenVolInfo) (lnum : ℕ) (data : List UInt8) : List UInt8 :=
  sealed crc32 (vidHdrFields crc32 ui vi lnum data)

def changeEch (imageSeq ec : ℕ) (buf : List UInt8) : Option (List UInt8) :=
  if buf.take 4 ≠ be32 ubiEcHdrMagic then none
  else if (buf.drop 60).take 4 ≠ be32 (crc32 (buf.take 60)) then none
  else
    let buf := memcpy (memcpy buf 24 (be32 imageSeq)) 8 (be64 ec)
    some (memcpy buf 60 (be32 (crc32 (buf.take 60))))

@[simp] theorem ecHdrFields_length (ui : UbigenInfo) (ec : ℕ) : (ecHdrFields ui ec).length = 60 := by
  simp [ecHdrFields]

@[simp] theorem ubigenInitEcHdr_length (ui : UbigenInfo) (ec : ℕ) :
    (ubigenInitEcHdr crc32 ui ec).length = ubiEcHdrSize := by
  simp [ubigenInitEcHdr, sealed, ubiEcHdrSize]

@[simp] theorem ubigenInitVidHdr_length (ui : UbigenInfo) (vi : UbigenVolInfo) (lnum : ℕ) (data : List UInt8) :
    (ubigenInitVidHdr crc32 ui vi lnum data).length = ubiVidHdrSize := by
  simp [ubigenInitVidHdr, sealed, vidHdrFields, ubiVidHdrSize]

theorem memcpy_middle {before old new after : List UInt8} {at_ : ℕ} (hat : before.length = at_)
    (h : new.length = old.length) : memcpy (before ++ old ++ after) at_ new = before ++ new ++ after := by
  subst hat
  have hdrop : (before ++ old ++ after).drop (before.length + new.length) = after := by
    rw [h, ← List.length_append, List.drop_left]
  rw [memcpy, hdrop, List.append_assoc before, List.take_left]

theorem changeEch_generated (ui : UbigenInfo) (ec ec' : ℕ) (rest : List UInt8) :
    changeEch crc32 ui.imageSeq ec' (ubigenInitEcHdr crc32 ui ec ++ rest) =
      some (ubigenInitEcHdr crc32 ui ec' ++ rest) := by
  have hfields (buf : List UInt8) (ec : ℕ) : ((ecHdrFields ui ec ++ buf).take 60) = ecHdrFields ui ec :=
    List.take_left' (ecHdrFields_length ui ec)
  have hmagic : (ecHdrFields ui ec ++ be32 (crc32 (ecHdrFields ui ec)) ++ rest).take 4 = be32 ubiEcHdrMagic := by
    simp only [ecHdrFields, List.append_assoc]
    exact List.take_left' rfl
  have hcrc : ((ecHdrFields ui ec ++ be32 (crc32 (ecHdrFields ui ec)) ++ rest).drop 60).take 4 =
      be32 (crc32 (ecHdrFields ui ec)) := by
    rw [List.append_assoc, List.drop_left' (ecHdrFields_length ui ec)]
    exact List.take_left' rfl
  have hchange : memcpy (memcpy (ecHdrFields ui ec ++ be32 (crc32 (ecHdrFields ui ec)) ++ rest) 24 (be32 ui.imageSeq)) 8
      (be64 ec') = ecHdrFields ui ec' ++ be32 (crc32 (ecHdrFields ui ec)) ++ rest := by
    have hseq : ecHdrFields ui ec ++ be32 (crc32 (ecHdrFields ui ec)) ++ rest =
        (be32 ubiEcHdrMagic ++ [.ofNat ui.ubiVer, 0, 0, 0] ++ be64 ec ++ be32 ui.vidHdrOffs ++ be32 ui.dataOffs) ++
          be32 ui.imageSeq ++ (List.replicate 32 0 ++ be32 (crc32 (ecHdrFields ui ec)) ++ rest) := by
      simp only [ecHdrFields, List.append_assoc]
    have hec (ec₀ : ℕ) : ecHdrFields ui ec₀ ++ be32 (crc32 (ecHdrFields ui ec)) ++ rest =
        (be32 ubiEcHdrMagic ++ [.ofNat ui.ubiVer, 0, 0, 0]) ++ be64 ec₀ ++ (be32 ui.vidHdrOffs ++ be32 ui.dataOffs ++
          be32 ui.imageSeq ++ List.replicate 32 0 ++ be32 (crc32 (ecHdrFields ui ec)) ++ rest) := by
      simp only [ecHdrFields, List.append_assoc]
    have hkeep : memcpy (ecHdrFields ui ec ++ be32 (crc32 (ecHdrFields ui ec)) ++ rest) 24 (be32 ui.imageSeq) =
        ecHdrFields ui ec ++ be32 (crc32 (ecHdrFields ui ec)) ++ rest := by
      rw [hseq]
      exact memcpy_middle rfl rfl
    rw [hkeep, hec ec, hec ec']
    exact memcpy_middle rfl rfl
  unfold changeEch ubigenInitEcHdr sealed
  rw [if_neg (not_not.mpr hmagic), if_neg]
  · dsimp only
    rw [hchange, List.append_assoc (ecHdrFields ui ec') _ rest, hfields, ← List.append_assoc]
    exact congrArg some (memcpy_middle (ecHdrFields_length ui ec') rfl)
  · rw [hcrc, List.append_assoc, hfields, not_not]

def UbiVtblRecord.bytes (r : UbiVtblRecord) : List UInt8 :=
  sealed crc32 (be32 r.reservedPebs ++ be32 r.alignment ++ be32 r.dataPad ++ [.ofNat r.volType, 0] ++
    [.ofNat (r.name.length / 2 ^ 8), .ofNat r.name.length] ++ r.name ++ List.replicate (128 - r.name.length) 0 ++
    [.ofNat r.flags] ++ List.replicate 23 0)

end Headers

def ubigenCreateEmptyVtbl (ui : UbigenInfo) : List UbiVtblRecord :=
  List.replicate ui.maxVolumes ⟨0, 0, 0, 0, [], 0⟩

def ubigenAddVolume (ui : UbigenInfo) (vi : UbigenVolInfo) (vtbl : List UbiVtblRecord) : Option (List UbiVtblRecord) :=
  if ui.maxVolumes ≤ vi.id then none
  else if ui.lebSize ≤ vi.alignment then none
  else
    let leb := ui.lebSize.toNat
    some (vtbl.set vi.id ⟨(vi.bytes + leb - 1) / leb % 2 ^ 32, vi.alignment, leb % vi.alignment, vi.type.code,
      vi.name, vi.flags⟩)

end LinuxRecovery.Ubigen
