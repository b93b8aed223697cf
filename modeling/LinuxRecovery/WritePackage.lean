import LinuxRecovery.Traces
import LinuxRecovery.UpdateFile

namespace LinuxRecovery.WritePackage

open Traces UpdateFile

/-- What `write_update_pkg` has the block manager do, for the chunk of `image` at hand; a write goes
through the file system of the prepared context, if there is one. -/
inductive Call where
  | prepare (image : ImageInfo) (offset length : UInt64) (filetype : String)
  | erase (image : ImageInfo) (offset : UInt64) (length : ℕ)
  | write (image : ImageInfo) (fs : Option String) (offset : ℕ) (buffer : List UInt8)
  | finish (image : ImageInfo)
  deriving DecidableEq

abbrev Event : Type := Call × Bool

structure PrepareInfo where
  fs : String
  writeStart : ℕ
  physicalUnitSize : UInt32
  logicalUnitSize : UInt32
  maxSizeMappedInPartition : ℕ
  deriving DecidableEq

/-- What the block manager and the files answer to a call; every answer may depend on all the calls before
it, and a negative one is none. -/
structure BlockManager where
  registered : String → Bool
  operateStartAddress : List Event → Call → Option ℕ
  blocksize : UInt64 → UInt32
  lebSize : List Event → Call → UInt32
  maxMappedSize : List Event → Call → Option ℕ
  partitionSize : UInt64 → ℕ
  read : List Event → Bool
  erase : List Event → Call → Bool
  write : List Event → Call → Option ℕ
  finish : List Event → Call → Bool

inductive WbufferMethod where
  | allowableMinimumSize
  | fixedWithChunkSize

def updateWbufferMethod : WbufferMethod := .allowableMinimumSize

structure Statics where
  nextWriteOffset : ℕ
  writeBuffer : Bool
  writeBufferSize : UInt32
  writeMediaLeap : UInt32
  prepared : Option PrepareInfo
  deriving DecidableEq

variable (bm : BlockManager)

def setOperationOption (filetype : String) : Option String :=
  if 19 < filetype.utf8ByteSize then none else some filetype

def mtdGetPrepareInfo (call : Call) (offset : UInt64) (filetype : String) (tr : List Event) : Option PrepareInfo := do
  let writeStart ← bm.operateStartAddress tr call
  let maxSize ← bm.maxMappedSize tr call
  if bm.blocksize offset = 0 ∨ bm.lebSize tr call = 0 then none
  else some ⟨filetype, writeStart, bm.blocksize offset, bm.lebSize tr call, maxSize⟩

/-- A file type that is not registered is looked for without end, so that nothing follows then either. -/
def mtdBlockPrepare (image : ImageInfo) (offset length : UInt64) (filetype : String) : Prog Call PrepareInfo :=
  let call := Call.prepare image offset length filetype
  Prog.perform (fun tr =>
    if bm.registered filetype = true then mtdGetPrepareInfo bm call offset filetype tr else none) call

def allocWriteBuffer (image : ImageInfo) (info : PrepareInfo) (blocksize : UInt32) (s : Statics) : Statics :=
  if s.writeBuffer = true then s
  else
    match updateWbufferMethod with
    | .allowableMinimumSize =>
      { s with writeBuffer := true, writeBufferSize := info.logicalUnitSize, writeMediaLeap := blocksize }
    | .fixedWithChunkSize =>
      { s with
        writeBuffer := true
        writeBufferSize := image.chunksize
        writeMediaLeap := image.chunksize / info.logicalUnitSize * blocksize }

def openPartition (image : ImageInfo) (s : Statics) : Prog Call (ℕ × Statics) := do
  let filetype ← Prog.query (fun _ => setOperationOption image.fsType)
  let info ← mtdBlockPrepare bm image image.offset image.size filetype
  let s := allocWriteBuffer image info (bm.blocksize image.offset) { s with prepared := some info }
  let call := Call.erase image image.offset (bm.partitionSize image.offset)
  Prog.perform (fun tr => if bm.erase tr call = true then some (info.writeStart, s) else none) call

def mtdBlockWrite (image : ImageInfo) (prepared : Option PrepareInfo) (offset : ℕ) (buffer : List UInt8) :
    Prog Call ℕ :=
  let call := Call.write image (prepared.map PrepareInfo.fs) offset buffer
  Prog.perform (fun tr => if prepared.isSome = true then bm.write tr call else none) call

def readBuffer (s : Statics) (readsize : ℕ) : Prog Call Unit :=
  if readsize = 0 then pure ()
  else do
    Prog.require (s.writeBuffer = true)
    Prog.query (fun tr => if bm.read tr = true then some () else none)

/-- The loop over a chunk file, `rest` still to be written: no more passes than bytes. A buffer of size 0
would go round for ever. -/
def writeChunk (image : ImageInfo) : ℕ → List UInt8 → ℕ → Statics → Prog Call Statics
  | _, [], _, s => pure s
  | 0, _, _, _ => Prog.query (fun _ => none)
  | n + 1, rest, offset, s => do
    let readsize := min rest.length s.writeBufferSize.toNat
    readBuffer bm s readsize
    let next ← mtdBlockWrite bm image s.prepared offset (rest.take readsize)
    writeChunk image n (rest.drop readsize) (offset + s.writeMediaLeap.toNat) { s with nextWriteOffset := next }

def closePartition (image : ImageInfo) (s : Statics) : Prog Call Statics :=
  let call := Call.finish image
  Prog.perform (fun tr =>
    if s.prepared.isSome = true ∧ bm.finish tr call = true then some { s with prepared := none, writeBuffer := false }
    else none) call

def isFirst (part : PartInfo) (image : ImageInfo) : Bool := part.list.head?.map ImageInfo.name == some image.name

def isLast (part : PartInfo) (image : ImageInfo) : Bool := part.list.getLast?.map ImageInfo.name == some image.name

def opens (part : PartInfo) (image : ImageInfo) (chunkIndex : ℕ) : Prop :=
  isFirst part image = true ∧ chunkIndex = 1

def closes (part : PartInfo) (image : ImageInfo) (chunkIndex : ℕ) : Prop :=
  isLast part image = true ∧ chunkIndex = image.chunkcount.toNat

instance (part : PartInfo) (image : ImageInfo) (chunkIndex : ℕ) : Decidable (opens part image chunkIndex) :=
  inferInstanceAs (Decidable (_ ∧ _))

instance (part : PartInfo) (image : ImageInfo) (chunkIndex : ℕ) : Decidable (closes part image chunkIndex) :=
  inferInstanceAs (Decidable (_ ∧ _))

def beginChunk (part : PartInfo) (image : ImageInfo) (chunkIndex : ℕ) (s : Statics) : Prog Call (ℕ × Statics) :=
  if opens part image chunkIndex then openPartition bm image s else pure (0, s)

def endChunk (part : PartInfo) (image : ImageInfo) (chunkIndex : ℕ) (s : Statics) : Prog Call Statics :=
  if closes part image chunkIndex then closePartition bm image s else pure s

def curWriteOffset (image : ImageInfo) (offset : ℕ) (s : Statics) : ℕ :=
  if s.nextWriteOffset ≠ 0 ∧ offset = 0 then max s.nextWriteOffset image.offset.toNat else offset

/-- `file` is what the path opens to; other device types than these end the process. -/
def writeUpdatePkg (devtype : String) (part : PartInfo) (image : ImageInfo) (file : Option (List UInt8))
    (chunkIndex : ℕ) (s : Statics) : Prog Call Statics := do
  let file ← Prog.query (fun _ => file)
  Prog.require (devtype = "nand" ∨ devtype = "nor")
  let (offset, s) ← beginChunk bm part image chunkIndex s
  Prog.require (s.nextWriteOffset ≤ (part.offset + part.size).toNat)
  let s ← writeChunk bm image file.length file (curWriteOffset image offset s) s
  endChunk bm part image chunkIndex s

def chunks (images : List ImageInfo) : List (ImageInfo × ℕ) :=
  images.flatMap (fun image => (List.range' 1 image.chunkcount.toNat).map (fun j => (image, j)))

/-- `file k` is what the package of the chunk with the running number `k` holds. -/
def updatePartition (devtype : String) (part : PartInfo) (file : ℕ → Option (List UInt8)) (s : Statics) :
    Prog Call Statics :=
  (chunks part.list).zipIdx.foldlM
    (fun s chunk => writeUpdatePkg bm devtype part chunk.1.1 (file chunk.2) chunk.1.2 s) s

end LinuxRecovery.WritePackage
