import LinuxRecovery.Mxml

namespace LinuxRecovery.Packager

open NumberText Mxml

def deviceTypes : List String := ["nor", "nand", "mmc"]

def imgTypes : List String := ["normal", "ubifs", "jffs2", "cramfs", "yaffs2"]

def devctls : List ℤ := [0, 1]

def nandflashPageSize : ℕ := 2048

def nandflashPagesPerBlock : ℕ := 64

def nandflashBlockSize : ℕ := nandflashPageSize * nandflashPagesPerBlock

def ubiLayoutVolumeEbs : ℕ := 2

def ubiWlReservedPebs : ℕ := 1

def ubiEbaReservedPebs : ℕ := 1

def ubiMtdUbiBebLimitPer1024 : ℕ := 20

def ubiLebSize : ℕ := nandflashPageSize * (nandflashPagesPerBlock - 2)

def yaffs2TagsizePerPage : ℕ := 28

def yaffs2PageSize : ℕ := nandflashPageSize + yaffs2TagsizePerPage

def yaffs2BlockSize : ℕ := yaffs2PageSize * nandflashPagesPerBlock

inductive UpdateType where
  | full
  | slice
  deriving DecidableEq

def UpdateType.code : UpdateType → ℕ
  | .full => 0x200
  | .slice => 0x201

structure UpdateMode where
  type : UpdateType
  size : ℕ
  count : ℕ
  deriving DecidableEq

def getSliceSize (imagetype : String) (size : ℕ) : ℕ :=
  let multiple := size / nandflashBlockSize
  let minimumSlice :=
    if imagetype = "ubifs" then ubiLebSize
    else if imagetype = "yaffs2" then yaffs2BlockSize
    else nandflashBlockSize
  minimumSlice * multiple

def UpdateMode.getDefault (imagetype : String) (updatemode : UpdateType) (imagesize slicesize : ℕ) : Option UpdateMode :=
  match updatemode with
  | .full => some ⟨.full, 0, 0⟩
  | .slice =>
    let size := getSliceSize imagetype slicesize
    if size = 0 then none else some ⟨.slice, size, (imagesize + size - 1) / size⟩

/-- An image of the configuration; an offset that is no number counts as negative. -/
structure Imageinfo where
  name : String
  size : ℕ
  type : String
  offset : ℤ
  updatemode : UpdateMode
  deriving DecidableEq

structure Image where
  mediumtype : String
  imgcnt : ℕ
  devctl : ℤ
  imageinfo : List Imageinfo
  deriving DecidableEq

structure Partition where
  name : String
  offset : ℤ
  size : ℤ
  type : String
  deriving DecidableEq

structure Device where
  devtype : String
  devsize : ℤ
  partition : List Partition
  deriving DecidableEq

def Imageinfo.judge (p : Imageinfo) : Bool := decide (p.type ∈ imgTypes) && decide (0 ≤ p.offset)

def judgeImages : List Imageinfo → Bool
  | [] => true
  | [p] => p.judge
  | p :: pnext :: ps =>
    p.judge && pnext.judge && decide (p.offset + p.size ≤ pnext.offset) && judgeImages (pnext :: ps)

def Image.judge (image : Image) : Bool :=
  decide (image.mediumtype ∈ deviceTypes) && decide (image.imgcnt = image.imageinfo.length) &&
    decide (image.devctl ∈ devctls) && judgeImages image.imageinfo

def Partition.judge (p : Partition) : Bool := decide (0 ≤ p.offset) && decide (0 < p.size)

def Partition.fits (totalsize : ℤ) (p : Partition) : Bool :=
  p.judge && decide (p.offset < totalsize) && decide (p.size ≤ totalsize) && decide (p.offset + p.size ≤ totalsize)

def judgePartitions (totalsize : ℤ) : List Partition → Bool
  | [] => true
  | [p] => p.fits totalsize
  | p :: pnext :: ps =>
    p.fits totalsize && pnext.judge && decide (p.offset + p.size ≤ pnext.offset) &&
      judgePartitions totalsize (pnext :: ps)

def Device.judge (device : Device) : Bool :=
  decide (device.devtype ∈ deviceTypes) && decide (device.devsize ≠ -1) &&
    judgePartitions device.devsize device.partition

def Partition.getAvailableMappedContentSize (p : Partition) (ftype : String) : ℤ :=
  let blksize : ℤ := nandflashPageSize * nandflashPagesPerBlock
  if ftype = "normal" then p.size
  else if ftype = "ubifs" then p.size - (ubiLayoutVolumeEbs + ubiWlReservedPebs + ubiEbaReservedPebs : ℕ) * blksize
  else if ftype = "jffs2" then p.size
  else if ftype = "cramfs" then p.size
  else if ftype = "yaffs2" then p.size / nandflashPageSize * (nandflashPageSize + yaffs2TagsizePerPage : ℕ)
  else -1

def Partition.isMmapedIn (p : Partition) (start : ℤ) : Bool :=
  decide (p.offset ≤ start) && decide (start < p.size + p.offset)

def Device.getNandReservedSize (device : Device) : ℤ :=
  let pebs := device.devsize / (nandflashBlockSize : ℤ)
  let quot := pebs / 1024
  let rem := pebs % 1024
  let reserved := quot * (ubiMtdUbiBebLimitPer1024 : ℤ) + rem * (ubiMtdUbiBebLimitPer1024 : ℤ) / 1024
  let reserved := if reserved < device.devsize then reserved + 1 else reserved
  reserved * (nandflashBlockSize : ℤ)

def Device.judgePartitionMapped (device : Device) (mapStart : ℤ) (mapSize : ℕ) (ftype : String) : Bool :=
  match (device.partition.find? (fun p => p.isMmapedIn mapStart)).or device.partition.getLast? with
  | none => false
  | some p =>
    let mappedMax := p.getAvailableMappedContentSize ftype
    if mappedMax ≤ 0 then false
    else
      let mappedMax :=
        if device.devtype = "nand" ∧ ftype = "ubifs" then mappedMax - device.getNandReservedSize else mappedMax
      decide (mapStart + mapSize ≤ p.offset + mappedMax)

def judge (device : Device) (image : Image) : Bool :=
  image.imageinfo.all (fun img => device.judgePartitionMapped img.offset img.size img.type)

def opaqueElement (tag text : String) : Element := .mk tag [("type", "opaque")] text.toList []

def integerElement (tag : String) (text : List Char) : Element := .mk tag [("type", "integer")] text []

def Imageinfo.generateConfig (p : Imageinfo) : Element :=
  .mk "image" [] []
    [opaqueElement "name" p.name,
      opaqueElement "type" p.type,
      .mk "offset" [] (hexadecimal p.offset.toNat) [],
      .mk "size" [] (decimal p.size) [],
      .mk "updatemode" [] []
        (integerElement "type" (hexadecimal p.updatemode.type.code) ::
          match p.updatemode.type with
          | .full => []
          | .slice => [integerElement "chunksize" (decimal p.updatemode.size),
              integerElement "chunkcount" (decimal p.updatemode.count)])]

def Image.generate (image : Image) (devtype : String) : Element :=
  .mk "update" [("devtype", devtype), ("devcontrol", String.ofList (hexadecimal image.devctl.toNat))] []
    [.mk "imagelist" [("count", String.ofList (decimal image.imgcnt))] []
      (image.imageinfo.map Imageinfo.generateConfig)]

def Partition.generateConfig (p : Partition) : Element :=
  .mk "item" [] []
    [opaqueElement "name" p.name,
      .mk "offset" [] (hexadecimal p.offset.toNat) [],
      .mk "size" [] (hexadecimal p.size.toNat) [],
      opaqueElement "blockname" p.type]

def Device.generate (device : Device) : Element :=
  .mk "device" [("type", device.devtype), ("capacity", String.ofList (hexadecimal device.devsize.toNat))] []
    [.mk "partition" [("count", String.ofList (decimal device.partition.length))] []
      (device.partition.map Partition.generateConfig)]

end LinuxRecovery.Packager
