import LinuxRecovery.BlockScan
import LinuxRecovery.UbiPeb

namespace LinuxRecovery.UbiVolume

open Loops ByteMemory Libmtd BlockMap Ubigen UbiPrepare UbiPeb
open BasicWrite (Ret setProcessInfo)
open Sysinfo (memcpy)

structure VolOutcome where
  ret : Ret
  progressSize : ℕ
  st : UbiState

def ubiLayoutVolumeId : ℕ := 0x7FFFFFFF - 4096

def ubiCompatReject : ℕ := 5

def layoutVi (ui : UbigenInfo) : UbigenVolInfo :=
  ⟨ubiLayoutVolumeId, .dynamic, 1, 0, ui.lebSize.toNat, "layout volume".toUTF8.toList, ubiCompatReject, 0,
    ui.lebSize.toNat * ubiLayoutVolumeEbs, 0⟩

-- `local_crc32` from `UBI_CRC32_INIT`
variable (dev : Device) (mtd : MtdDevInfo) (crc32 : List UInt8 → ℕ)

def fillOutbuf (ui : UbigenInfo) (vi : UbigenVolInfo) (lnum : ℕ) (data : List UInt8) (outbuf : List UInt8) : List UInt8 :=
  let outbuf := memcpy outbuf ui.vidHdrOffs (ubigenInitVidHdr crc32 ui vi lnum data)
  let outbuf := memcpy outbuf ui.dataOffs data
  memcpy outbuf (ui.dataOffs + data.length) (List.replicate (ui.pebSize - ui.dataOffs - data.length) 0xFF)

def UbiState.setOutbuf (st : UbiState) (outbuf : List UInt8) : UbiState :=
  { st with ubi := { st.ubi with outbuf := outbuf } }

structure VolCursor where
  eb : ℕ
  lnum : ℕ
  inbuf : List UInt8
  progressSize : ℕ
  st : UbiState

def writeLebs (maxSize : ℕ) (vi : UbigenVolInfo) : ℕ → VolCursor → VolOutcome
  | 0, c =>
    match setProcessInfo maxSize with
    | none => ⟨.trap, c.progressSize, c.st⟩
    | some () =>
      ⟨.off c.eb, c.progressSize, { c.st with ubi := { c.st.ubi with vidHdrLnum := c.lnum, formatEb := c.eb } }⟩
  | n + 1, c =>
    match setProcessInfo maxSize with
    | none => ⟨.trap, c.progressSize, c.st⟩
    | some () =>
      let data := c.inbuf.take vi.usableLebSize
      let outbuf := fillOutbuf crc32 c.st.ubi.ui vi c.lnum data c.st.ubi.outbuf
      match ubiWriteOnePeb dev mtd crc32 c.eb outbuf c.st with
      | (none, outbuf, st) => ⟨.fail, c.progressSize, UbiState.setOutbuf st outbuf⟩
      | (some eb, outbuf, st) =>
        writeLebs maxSize vi n ⟨eb, c.lnum + 1, c.inbuf.drop vi.usableLebSize, c.progressSize + vi.usableLebSize,
          UbiState.setOutbuf st outbuf⟩

/-- `data` is the buffer with its length; a volume without information is a null pointer. -/
def ubiWriteVolume (maxSize progressSize : ℕ) (eb : ℕ) (data : List UInt8) (st : UbiState) : VolOutcome :=
  match st.ubi.vi with
  | none => ⟨.trap, progressSize, st⟩
  | some vi =>
    if data.length % vi.usableLebSize ≠ 0 then ⟨.fail, progressSize, st⟩
    else
      writeLebs dev mtd crc32 maxSize vi (data.length / vi.usableLebSize) ⟨eb, st.ubi.vidHdrLnum, data, progressSize, st⟩

def ubifsWrite (maxSize progressSize : ℕ) (offset : ℕ) (data : List UInt8) (st : UbiState) : VolOutcome :=
  let eb := mtdOffsetToEbIndex mtd offset - mtdOffsetToEbIndex mtd mtd.start
  match ubiWriteVolume dev mtd crc32 maxSize progressSize eb data st with
  | ⟨.off eb, progressSize, st⟩ => ⟨.off (mtdEbRelativeToAbsolute mtd eb * st.ubi.ui.pebSize), progressSize, st⟩
  | out => out

def layoutBuf (ui : UbigenInfo) (vtbl : List UbiVtblRecord) (lnum ec : ℕ) : List UInt8 :=
  let table := (vtbl.flatMap (UbiVtblRecord.bytes crc32)).take ui.vtblSize
  let outbuf := List.replicate ui.dataOffs 0xFF ++ table ++ List.replicate (ui.pebSize - ui.dataOffs - ui.vtblSize) 0xFF
  let outbuf := memcpy outbuf 0 (ubigenInitEcHdr crc32 ui ec)
  memcpy outbuf ui.vidHdrOffs (ubigenInitVidHdr crc32 ui (layoutVi ui) lnum [])

def ubiWriteLayoutVol (eb ec1 ec2 : ℕ) (vtbl : List UbiVtblRecord) (st : UbiState) : Bool × UbiState :=
  match ubiWriteOnePeb dev mtd crc32 eb (layoutBuf crc32 st.ubi.ui vtbl 0 ec1) st with
  | (none, _, st) => (false, st)
  | (some eb, _, st) =>
    match ubiWriteOnePeb dev mtd crc32 eb (layoutBuf crc32 st.ubi.ui vtbl 1 ec2) st with
    | (none, _, st) => (false, st)
    | (some _, _, st) => (true, st)

structure FormatCursor where
  eb : ℕ
  st : UbiState

def formatHdr (ui : UbigenInfo) (ec : ℕ) : List UInt8 :=
  memcpy (List.replicate (roundUp ubiEcHdrSize mtd.subpageSize) 0xFF) 0 (ubigenInitEcHdr crc32 ui ec)

def formatProgress (startEb : ℕ) : Option Unit := setProcessInfo ((mtd.ebCnt : ℤ) - startEb).natAbs

def formatStep (startEb : ℕ) (c : FormatCursor) : Step FormatCursor (Ret × UbiState) :=
  match formatProgress mtd startEb with
  | none => .done (.trap, c.st)
  | some () =>
    if mtd.ebCnt ≤ c.eb then .done (.off c.eb, c.st)
    else if c.st.isEbBad c.eb = true then .next ⟨c.eb + 1, c.st⟩
    else
      let hdr := formatHdr mtd crc32 c.st.ubi.ui (nextEc c.st c.eb)
      match erasePeb dev mtd c.eb c.st with
      | .fatal st => .done (.fail, st)
      | .bad st => .next ⟨c.eb + 1, st.mapSet (mtdEbRelativeToAbsolute mtd c.eb) .bad⟩
      | .ok st =>
        match programPeb dev mtd c.eb hdr (st.mapSet (mtdEbRelativeToAbsolute mtd c.eb) .erased) with
        | .fatal st => .done (.fail, st)
        | .bad st => .next ⟨c.eb + 1, st⟩
        | .ok st => .next ⟨c.eb + 1, st⟩

theorem formatStep_next {startEb : ℕ} {c d : FormatCursor} (h : formatStep dev mtd crc32 startEb c = .next d) :
    c.eb < mtd.ebCnt ∧ d.eb = c.eb + 1 := by
  unfold formatStep at h
  split at h
  · cases h
  · split_ifs at h with h1 h2
    · cases h
      exact ⟨by omega, rfl⟩
    · refine ⟨by omega, ?_⟩
      dsimp only at h
      split at h
      · cases h
      · cases h
        rfl
      · split at h
        · cases h
        · cases h
          rfl
        · cases h
          rfl

def formatLoop (startEb : ℕ) : Loop FormatCursor (Ret × UbiState) where
  step := formatStep dev mtd crc32 startEb
  measure c := mtd.ebCnt - c.eb
  decreasing := by
    intro c d h
    obtain ⟨hlt, heq⟩ := formatStep_next dev mtd crc32 h
    omega

def format (startEb : ℕ) (st : UbiState) : Ret × UbiState := (formatLoop dev mtd crc32 startEb).exec ⟨startEb, st⟩

def ubifsDone (st : UbiState) : Ret × UbiState :=
  match ubiWriteLayoutVol dev mtd crc32 st.ubi.startEb st.ubi.ec st.ubi.ec st.ubi.vtbl st with
  | (false, st) => (.fail, st)
  | (true, st) =>
    match format dev mtd crc32 st.ubi.formatEb st with
    | (.off eb, st) => (.off ((if 0 < eb then mtdEbRelativeToAbsolute mtd eb else eb) * st.ubi.ui.pebSize), st)
    | out => out

end LinuxRecovery.UbiVolume
