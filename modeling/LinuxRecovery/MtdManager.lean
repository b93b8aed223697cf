import LinuxRecovery.MtdBlock
import LinuxRecovery.PartialSteps

namespace LinuxRecovery.MtdManager

open Libmtd BlockMap BasicWrite BlockScan SysinfoSave BasicErase Ubigen UbiPrepare UbiPeb UbiVolume MtdBlock PartialSteps

structure FsParams where
  mtd : Option MtdDevInfo
  offset : ℤ
  length : ℤ
  method : OperationMethod
  contentStart : ℤ
  progressSize : ℕ
  maxSize : ℤ
  maxMappedSize : ℤ

structure PrepareRecord where
  writeStart : ℤ
  physicalUnitSize : ℤ
  logicalUnitSize : ℤ
  maxSizeMappedInPartition : ℤ
  contextHandle : Option Filesystem

structure OperationOption where
  method : OperationMethod
  filetype : String

/-- The block manager between two calls, with the UBI parameters of the ubifs callbacks. -/
structure Manager extends BmState where
  prevBb : Option ℕ
  consecutiveBadBlocks : ℕ
  ubi : Option UbiParams
  params : Filesystem → FsParams
  prepareInfo : PrepareRecord
  prepared : Bool

namespace Manager

def fresh (st : BmState) : Manager :=
  ⟨st, none, 0, none, fun _ => ⟨none, 0, 0, .random, 0, 0, 0, 0⟩, ⟨0, 0, 0, 0, none⟩, false⟩

def withBm (s : Manager) (st : BmState) : Manager := { s with toBmState := st }

def withParams (s : Manager) (fs : Filesystem) (p : FsParams) : Manager :=
  { s with params := Function.update s.params fs p }

def freeUbi (s : Manager) : Manager := { s with ubi := none }

def toUbi (s : Manager) (ubi : UbiParams) : UbiState := ⟨s.toBmState, ubi, s.prevBb, s.consecutiveBadBlocks⟩

def withUbi (s : Manager) (st : UbiState) : Manager :=
  { s with
    toBmState := st.toBmState
    prevBb := st.prevBb
    consecutiveBadBlocks := st.consecutiveBadBlocks
    ubi := some st.ubi }

end Manager

/-- The cells that link the file systems. The manager in use is a copy of `mtd_manager`: its head leads into the
circle, which closes at the head it was copied from. -/
inductive FsCell where
  | ownHead
  | managerHead
  | filesystem (fs : Filesystem)
  deriving DecidableEq

def FsCell.next : FsCell → FsCell
  | .ownHead => .filesystem .normal
  | .managerHead => .filesystem .normal
  | .filesystem .normal => .filesystem .cramfs
  | .filesystem .cramfs => .filesystem .jffs2
  | .filesystem .jffs2 => .filesystem .ubifs
  | .filesystem .ubifs => .filesystem .yaffs2
  | .filesystem .yaffs2 => .managerHead

def FsCell.named (filetype : String) : FsCell → Option Filesystem
  | .filesystem fs => if fs.name == filetype then some fs else none
  | _ => none

/-- `fs_get_registered_by_name` from a cell on: a file system or a null pointer, unless it takes more cells. -/
def fsLookup (filetype : String) : ℕ → FsCell → Option (Option Filesystem)
  | 0, _ => none
  | fuel + 1, cell =>
    if cell = .ownHead then some none
    else
      match cell.named filetype with
      | some fs => some (some fs)
      | none => fsLookup filetype fuel cell.next

def fsGetRegisteredByName (filetype : String) : Option Filesystem := (fsLookup filetype 5 FsCell.ownHead.next).join

theorem next_ne_ownHead (cell : FsCell) : cell.next ≠ .ownHead := by
  rcases cell with _ | _ | fs
  · exact FsCell.noConfusion
  · exact FsCell.noConfusion
  · cases fs <;> exact FsCell.noConfusion

theorem fsLookup_none {filetype : String} (h : ∀ fs : Filesystem, fs.name ≠ filetype) (fuel : ℕ) {cell : FsCell}
    (hcell : cell ≠ .ownHead) : fsLookup filetype fuel cell = none := by
  induction fuel generalizing cell with
  | zero => rfl
  | succ fuel ih =>
    have hnamed : cell.named filetype = none := by
      rcases cell with _ | _ | fs
      · rfl
      · rfl
      · exact if_neg (by simpa using h fs)
    rw [fsLookup, if_neg hcell, hnamed]
    exact ih (next_ne_ownHead cell)

theorem fsLookup_mono {filetype : String} {r : Option Filesystem} {fuel : ℕ} {cell : FsCell} (k : ℕ)
    (h : fsLookup filetype fuel cell = some r) : fsLookup filetype (fuel + k) cell = some r := by
  induction fuel generalizing cell with
  | zero => cases h
  | succ fuel ih =>
    rw [Nat.succ_add, fsLookup]
    rw [fsLookup] at h
    split_ifs at h ⊢
    · exact h
    · split at h
      · exact h
      · exact ih h

theorem fsLookup_name (fs : Filesystem) (fuel : ℕ) : fsLookup fs.name (fuel + 5) FsCell.ownHead.next = some (some fs) := by
  cases fs <;> rfl

theorem registered_iff {filetype : String} {fs : Filesystem} :
    fsGetRegisteredByName filetype = some fs ↔ fs.name = filetype := by
  constructor
  · intro hfs
    by_contra hne
    by_cases h : ∃ fs : Filesystem, fs.name = filetype
    · obtain ⟨fs', rfl⟩ := h
      rw [fsGetRegisteredByName, fsLookup_name fs' 0] at hfs
      exact hne (congrArg Filesystem.name (Option.some.inj hfs).symm)
    · rw [fsGetRegisteredByName, fsLookup_none (not_exists.mp h) 5 (next_ne_ownHead .ownHead)] at hfs
      cases hfs
  · rintro rfl
    rw [fsGetRegisteredByName, fsLookup_name fs 0]
    rfl

theorem fsLookup_iff (filetype : String) (r : Option Filesystem) :
    (∃ fuel, fsLookup filetype fuel FsCell.ownHead.next = some r) ↔
      ∃ fs, r = some fs ∧ fsGetRegisteredByName filetype = some fs := by
  constructor
  · rintro ⟨fuel, hr⟩
    by_cases h : ∃ fs : Filesystem, fs.name = filetype
    · obtain ⟨fs, rfl⟩ := h
      exact ⟨fs, Option.some.inj ((fsLookup_mono 5 hr).symm.trans (fsLookup_name fs fuel)), registered_iff.mpr rfl⟩
    · cases (fsLookup_none (not_exists.mp h) fuel (next_ne_ownHead .ownHead)).symm.trans hr
  · rintro ⟨fs, rfl, hfs⟩
    obtain rfl := registered_iff.mp hfs
    exact ⟨5, fsLookup_name fs 0⟩

def devInfoByOffset (bm : PartInfo) (offset : ℤ) : Option MtdDevInfo :=
  if offset < 0 then bm.parts.head? else mtdGetDevInfoByOffset bm offset.toNat

def mtdGetCapacity (bm : PartInfo) : ℕ := (bm.parts.map MtdDevInfo.size).sum

-- `source` is what the chip shows `ubi_params_init` of a partition
variable (dev : Device) (bm : PartInfo) (crc32 : List UInt8 → ℕ) (source : MtdDevInfo → Chip → UbiSource)

section Callbacks

variable (mtd : MtdDevInfo)

def scanParams (noskipbad : Bool) (method : OperationMethod) (offset length : ℤ) (st : BmState) : Ret × BmState :=
  if length < 0 ∨ (method = .random ∧ length = 0) then (.fail, st)
  else
    let startEb := offset.tdiv mtd.ebSize
    let endEb : ℤ :=
      match method with
      | .partition => mtdOffsetToEbIndex mtd (mtd.start + mtd.size)
      | .random => (offset + length + mtd.ebSize - 1).tdiv mtd.ebSize
    let totalBytes := (endEb - startEb) * mtd.ebSize
    let first : ℤ := mtdOffsetToEbIndex mtd mtd.start
    if startEb < first ∨ first + mtd.ebCnt < endEb then (.fail, st)
    else
      (scanLoop dev mtd noskipbad method (startEb - first).toNat totalBytes.toNat).exec
        ⟨(startEb - first).toNat, 0, mtdBmBlockMapInit (bm.capacity / mtd.ebSize) st⟩

def retval : Ret → ℤ
  | .off n => n
  | _ => -1

def ubifsStart (offset : ℤ) (s : Manager) : ℤ × Manager :=
  let src := source mtd s.toChip
  match ubiParamsInit crc32 mtd bm.capacity src.volName src.imageSeq src.scanned with
  | none => (-1, s.freeUbi)
  | some params =>
    let eb := offset.tdiv params.ui.pebSize - mtdOffsetToEbIndex mtd mtd.start
    if eb < 0 then (-1, s.freeUbi)
    else
      match ubiBypassLayoutVol dev mtd eb.toNat (s.toUbi params) with
      | (none, st) => (-1, (s.withUbi st).freeUbi)
      | (some next, st) =>
        ((mtdEbRelativeToAbsolute mtd next * st.ubi.ui.pebSize : ℕ),
          s.withUbi { st with ubi := { st.ubi with vidHdrLnum := 0, startEb := eb.toNat, layoutVolumeStartEb := next } })

end Callbacks

def operateStart (fs : Filesystem) (s : Manager) : Option (ℤ × Manager) :=
  match fs.kind with
  | some _ => some ((s.params fs).offset, s)
  | none => (s.params fs).mtd.map (fun mtd => ubifsStart dev bm crc32 source mtd (s.params fs).offset s)

def ubifsLebSize (ubi : Option UbiParams) : ℤ := ubi.elim 0 (fun params => params.ui.lebSize % 2 ^ 32)

def lebSize (fs : Filesystem) (s : Manager) : Option ℤ :=
  let mtd := (s.params fs).mtd
  match fs with
  | .normal => mtd.map fun mtd => mtd.ebSize
  | .cramfs => mtd.map fun mtd => mtd.ebSize
  | .jffs2 => mtd.map fun mtd => mtd.ebSize
  | .yaffs2 => mtd.map fun mtd => mtd.ebSize + yaffs2TagSize
  | .ubifs => some (ubifsLebSize s.ubi)

/-- The parameters survive a scan that fails, but not one that maps nothing. -/
def ubifsMapped (s : Manager) : Option (ℤ × Manager) :=
  let p := s.params .ubifs
  match s.ubi with
  | none => some (-1, s)
  | some ubi =>
    match ubiVolumeParamsSet p.length.natAbs ubi with
    | none => some (-1, s.freeUbi)
    | some params =>
      if params.layoutVolumeStartEb = 0 then some (-1, s.freeUbi)
      else
        p.mtd.map fun mtd =>
          let bypassedBytes : ℤ := params.ui.pebSize * (params.layoutVolumeStartEb - params.startEb)
          match scanParams dev bm mtd false p.method p.offset (p.length + bypassedBytes) s.toBmState with
          | (.off 0, st) => (-1, (s.withBm st).freeUbi)
          | (ret, st) => (retval ret, { s.withBm st with ubi := some params })

def maxMapped (fs : Filesystem) (s : Manager) : Option (ℤ × Manager) :=
  let p := s.params fs
  match fs.kind with
  | some kind =>
    p.mtd.map fun mtd =>
      let (ret, st) := scanParams dev bm mtd kind.flag.noskipbad p.method p.offset p.length s.toBmState
      (retval ret, s.withBm st)
  | none => ubifsMapped dev bm s

inductive Argument where
  | operateStart
  | blocksize
  | lebSize
  | maxMapped
  deriving DecidableEq

structure Order where
  args : List Argument
  perm : args.Perm [.operateStart, .blocksize, .lebSize, .maxMapped]

def listed : Order := ⟨[.operateStart, .blocksize, .lebSize, .maxMapped], .rfl⟩

def blocksize (offset : ℤ) : ℤ := (devInfoByOffset bm offset).elim (2 ^ 32 - 1) (fun mtd => mtd.ebSize)

def Argument.call (fs : Filesystem) (offset : ℤ) : Argument → Manager → Option (ℤ × Manager)
  | .operateStart, s => MtdManager.operateStart dev bm crc32 source fs s
  | .blocksize, s => some (MtdManager.blocksize bm offset, s)
  | .lebSize, s => (MtdManager.lebSize fs s).map (fun n => (n, s))
  | .maxMapped, s => MtdManager.maxMapped dev bm fs s

def OperationOption.given (option : Option OperationOption) : OperationOption := option.getD ⟨.random, "normal"⟩

def prepareConvertParams (fs : Filesystem) (offset length : ℤ) (method : OperationMethod) (s : Manager) : Manager :=
  match devInfoByOffset bm offset with
  | none => s
  | some mtd =>
    s.withParams fs { s.params fs with mtd := some mtd, offset := offset, length := length, method := method }

structure Valid (v : Argument → ℤ) : Prop where
  writeStart : 0 ≤ v .operateStart
  physicalUnitSize : v .blocksize ≠ 0
  logicalUnitSize : v .lebSize ≠ 0
  maxSizeMappedInPartition : 0 ≤ v .maxMapped

instance (v : Argument → ℤ) : Decidable (Valid v) :=
  decidable_of_iff (0 ≤ v .operateStart ∧ v .blocksize ≠ 0 ∧ v .lebSize ≠ 0 ∧ 0 ≤ v .maxMapped)
    ⟨fun h => ⟨h.1, h.2.1, h.2.2.1, h.2.2.2⟩, fun h => ⟨h.1, h.2, h.3, h.4⟩⟩

def mtdGetPrepareInfo (fs : Filesystem) (v : Argument → ℤ) (s : Manager) : Bool × Manager :=
  let record : PrepareRecord :=
    { s.prepareInfo with
      writeStart := v .operateStart
      physicalUnitSize := v .blocksize
      logicalUnitSize := v .lebSize
      maxSizeMappedInPartition := v .maxMapped }
  let p := s.params fs
  if Valid v then
    (true, { s.withParams fs
        { p with
          contentStart := v .operateStart
          progressSize := 0
          maxSize := p.length
          maxMappedSize := v .maxMapped } with
      prepareInfo := { record with contextHandle := some fs }
      prepared := true })
  else (false, { s with prepareInfo := record, prepared := true })

def gather (fs : Filesystem) (offset : ℤ) (order : Order) (s : Manager) : Option ((Argument → ℤ) × Manager) :=
  evalArgs (Argument.call dev bm crc32 source fs offset) order.args (fun _ => 0) s

def mtdBlockPrepare (offset length : ℤ) (option : Option OperationOption) (order : Order) (s : Manager) :
    Option (Bool × Manager) :=
  let option := OperationOption.given option
  match fsGetRegisteredByName option.filetype with
  | none => none
  | some fs =>
    (gather dev bm crc32 source fs offset order (prepareConvertParams bm fs offset length option.method s)).map
      fun r => mtdGetPrepareInfo fs r.1 r.2

def mtdGetPrepareLebSize (s : Manager) : ℤ := if s.prepared = true then s.prepareInfo.logicalUnitSize else 0

def mtdGetPrepareWriteStart (s : Manager) : ℤ := if s.prepared = true then s.prepareInfo.writeStart else -1

def mtdGetMaxSizeMappedIn (s : Manager) : ℤ :=
  if s.prepared = true then s.prepareInfo.maxSizeMappedInPartition else -1

def contextHandle (s : Manager) : Option Filesystem := if s.prepared = true then s.prepareInfo.contextHandle else none

def dataTransferParamsSet (offset length : ℕ) (s : Manager) : Option (Filesystem × Manager) :=
  (contextHandle s).map fun fs => (fs, s.withParams fs { s.params fs with offset := offset, length := length })

def returned (ret : Ret) (s : Manager) : Option (Ret × Manager) := if ret = .trap then none else some (narrowRet ret, s)

def mtdBlockErase (offset length : ℕ) (s : Manager) : Option (Ret × Manager) :=
  match dataTransferParamsSet offset length s with
  | none => some (.fail, s)
  | some (fs, s) =>
    match fs.kind with
    | some kind =>
      (s.params fs).mtd.elim none fun mtd =>
        let (ret, st) := mtdBasicErase dev bm mtd kind length s.toBmState
        returned ret (s.withBm st)
    | none => returned (s.ubi.elim .fail (fun ubi => ubifsErase offset length (s.toUbi ubi))) s

def mtdBlockWrite (offset : ℕ) (buf : List UInt8) (s : Manager) : Option (Ret × Manager) :=
  match dataTransferParamsSet offset buf.length s with
  | none => some (.fail, s)
  | some (fs, s) =>
    let p := s.params fs
    match fs.kind with
    | some kind =>
      p.mtd.elim none fun mtd =>
        let out := mtdBasicWrite dev mtd kind p.maxSize.natAbs p.progressSize offset buf s.toBmState
        returned out.ret ((s.withBm out.st).withParams fs { p with progressSize := out.progressSize })
    | none =>
      match s.ubi with
      | none => some (.fail, s)
      | some ubi =>
        p.mtd.elim none fun mtd =>
          let out := ubifsWrite dev mtd crc32 p.maxSize.natAbs p.progressSize offset buf (s.toUbi ubi)
          let s := (s.withUbi out.st).withParams fs { p with progressSize := out.progressSize }
          returned out.ret (if out.ret = .fail then s.freeUbi else s)

/-- A record that was never prepared is a null pointer, and so are UBI parameters that are gone. -/
def mtdBlockFinish (s : Manager) : Option (Ret × Manager) :=
  if s.prepared = false then none
  else
    match s.prepareInfo.contextHandle with
    | none => some (.fail, s)
    | some fs =>
      match fs.kind with
      | some _ => some (.off 0, { s with prepared := false })
      | none =>
        match s.ubi, (s.params fs).mtd with
        | some ubi, some mtd =>
          let (ret, st) := ubifsDone dev mtd crc32 (s.toUbi ubi)
          if ret = .trap then none else some (ret, { (s.withUbi st).freeUbi with prepared := false })
        | _, _ => none

inductive Call where
  | prepare (offset length : ℤ) (option : Option OperationOption) (order : Order)
  | erase (offset length : ℕ)
  | write (offset : ℕ) (buf : List UInt8)
  | finish

def Call.exec : Call → Manager → Option Manager
  | .prepare offset length option order, s =>
    (MtdManager.mtdBlockPrepare dev bm crc32 source offset length option order s).map Prod.snd
  | .erase offset length, s => (MtdManager.mtdBlockErase dev bm offset length s).map Prod.snd
  | .write offset buf, s => (MtdManager.mtdBlockWrite dev crc32 offset buf s).map Prod.snd
  | .finish, s => (MtdManager.mtdBlockFinish dev crc32 s).map Prod.snd

structure Kept (s t : Manager) : Prop where
  params : t.params = s.params
  prepareInfo : t.prepareInfo = s.prepareInfo
  prepared : t.prepared = s.prepared

theorem Kept.refl (s : Manager) : Kept s s := ⟨rfl, rfl, rfl⟩

theorem Kept.trans {s t u : Manager} (h : Kept s t) (h' : Kept t u) : Kept s u :=
  ⟨h'.params.trans h.params, h'.prepareInfo.trans h.prepareInfo, h'.prepared.trans h.prepared⟩

section Callbacks

variable {dev bm crc32 source} {fs : Filesystem} {offset : ℤ} {s t : Manager} {n : ℤ}

theorem ubifsStart_kept (mtd : MtdDevInfo) : Kept s (ubifsStart dev bm crc32 source mtd offset s).2 := by
  unfold ubifsStart
  dsimp only
  split
  · exact ⟨rfl, rfl, rfl⟩
  · split_ifs
    · exact ⟨rfl, rfl, rfl⟩
    · split
      · exact ⟨rfl, rfl, rfl⟩
      · exact ⟨rfl, rfl, rfl⟩

theorem ubifsMapped_kept (h : ubifsMapped dev bm s = some (n, t)) : Kept s t := by
  unfold ubifsMapped at h
  dsimp only at h
  split at h
  · cases h
    exact .refl s
  · split at h
    · cases h
      exact ⟨rfl, rfl, rfl⟩
    · split_ifs at h
      · cases h
        exact ⟨rfl, rfl, rfl⟩
      · obtain ⟨mtd, -, h⟩ := Option.map_eq_some_iff.mp h
        split at h
        · cases h
          exact ⟨rfl, rfl, rfl⟩
        · cases h
          exact ⟨rfl, rfl, rfl⟩

theorem call_kept {a : Argument} (h : a.call dev bm crc32 source fs offset s = some (n, t)) : Kept s t := by
  cases a with
  | operateStart =>
    rw [Argument.call, operateStart] at h
    split at h
    · cases h
      exact .refl s
    · obtain ⟨mtd, -, h⟩ := Option.map_eq_some_iff.mp h
      rw [← show (ubifsStart dev bm crc32 source mtd (s.params fs).offset s).2 = t from congrArg Prod.snd h]
      exact ubifsStart_kept mtd
  | blocksize =>
    cases h
    exact .refl s
  | lebSize =>
    obtain ⟨m, -, h⟩ := Option.map_eq_some_iff.mp h
    cases h
    exact .refl s
  | maxMapped =>
    rw [Argument.call, maxMapped] at h
    dsimp only at h
    split at h
    · obtain ⟨mtd, -, h⟩ := Option.map_eq_some_iff.mp h
      cases h
      exact ⟨rfl, rfl, rfl⟩
    · exact ubifsMapped_kept h

theorem call_isSome (a : Argument) (h : (s.params fs).mtd.isSome = true) :
    (a.call dev bm crc32 source fs offset s).isSome = true := by
  obtain ⟨mtd, hmtd⟩ := Option.isSome_iff_exists.mp h
  cases a with
  | operateStart =>
    rw [Argument.call, operateStart, hmtd]
    split
    · rfl
    · rfl
  | blocksize => rfl
  | lebSize =>
    rw [Argument.call, Option.isSome_map]
    cases fs with
    | ubifs => rfl
    | _ =>
      rw [lebSize, hmtd]
      rfl
  | maxMapped =>
    rw [Argument.call, maxMapped, hmtd]
    cases fs with
    | ubifs =>
      dsimp only [Filesystem.kind]
      unfold ubifsMapped
      dsimp only
      rw [hmtd]
      split
      · rfl
      · split
        · rfl
        · split_ifs
          · rfl
          · rfl
    | _ => rfl

theorem call_unbound (h : (s.params fs).mtd = none) :
    (if fs = .ubifs then Argument.operateStart else .lebSize).call dev bm crc32 source fs offset s = none := by
  cases fs with
  | ubifs =>
    rw [if_pos rfl, Argument.call, operateStart]
    dsimp only [Filesystem.kind]
    rw [h]
    rfl
  | _ =>
    rw [if_neg Filesystem.noConfusion, Argument.call, lebSize, h]
    rfl

variable {order : Order} {v : Argument → ℤ}

theorem gather_kept (h : gather dev bm crc32 source fs offset order s = some (v, t)) : Kept s t :=
  (evalArgs_kept (I := fun t => Kept s t) (fun _ _ _ _ hs hc => hs.trans (call_kept hc))
    (Q := fun _ _ => True) (fun _ _ _ _ _ _ => trivial) (.refl s) h).1

theorem Order.mem (order : Order) (a : Argument) : a ∈ order.args := by
  rw [order.perm.mem_iff]
  cases a <;> decide

theorem Order.nodup (order : Order) : order.args.Nodup := order.perm.nodup_iff.mpr (by decide)

theorem gather_blocksize (h : gather dev bm crc32 source fs offset order s = some (v, t)) :
    v .blocksize = blocksize bm offset := by
  refine (evalArgs_kept (I := fun _ => True) (fun _ _ _ _ _ _ => trivial)
    (Q := fun a n => a = .blocksize → n = blocksize bm offset) ?_ trivial h).2 .blocksize (.inl (order.mem _)) rfl
  rintro a s n t - hc rfl
  cases hc
  rfl

theorem blocksize_ne (offset : ℤ) : blocksize bm offset ≠ 0 := by
  unfold blocksize
  cases devInfoByOffset bm offset with
  | none => simp
  | some mtd =>
    have hpos := mtd.ebSize_pos
    simp only [Option.elim_some]
    omega

theorem gather_isSome (order : Order) (h : (s.params fs).mtd.isSome = true) :
    (gather dev bm crc32 source fs offset order s).isSome = true := by
  apply evalArgs_some (I := fun t => (t.params fs).mtd.isSome = true)
  · intro a s n t hs hc
    rwa [(call_kept hc).params]
  · exact fun a s hs => call_isSome a hs
  · exact h

theorem gather_unbound (order : Order) (h : (s.params fs).mtd = none) :
    gather dev bm crc32 source fs offset order s = none := by
  apply evalArgs_none (I := fun t => (t.params fs).mtd = none)
  · intro a s n t hs hc
    rwa [(call_kept hc).params]
  · exact fun s hs => call_unbound hs
  · exact order.mem _
  · exact h

variable {length : ℤ} {option : Option OperationOption}

theorem prepare_cases {r : Bool × Manager}
    (h : mtdBlockPrepare dev bm crc32 source offset length option order s = some r) :
    ∃ fs v t, fsGetRegisteredByName (OperationOption.given option).filetype = some fs ∧
      gather dev bm crc32 source fs offset order
        (prepareConvertParams bm fs offset length (OperationOption.given option).method s) = some (v, t) ∧
      r = mtdGetPrepareInfo fs v t := by
  unfold mtdBlockPrepare at h
  dsimp only at h
  split at h
  · cases h
  · rename_i fs hfs
    obtain ⟨⟨v, t⟩, hg, rfl⟩ := Option.map_eq_some_iff.mp h
    exact ⟨fs, v, t, hfs, hg, rfl⟩

theorem prepare_gathered (h : fsGetRegisteredByName (OperationOption.given option).filetype = some fs) :
    mtdBlockPrepare dev bm crc32 source offset length option order s =
      (gather dev bm crc32 source fs offset order
        (prepareConvertParams bm fs offset length (OperationOption.given option).method s)).map
          fun r => mtdGetPrepareInfo fs r.1 r.2 := by
  unfold mtdBlockPrepare
  dsimp only
  rw [h]

theorem prepareInfo_ok : (mtdGetPrepareInfo fs v s).1 = true ↔ Valid v := by
  unfold mtdGetPrepareInfo
  dsimp only
  by_cases hv : Valid v
  · rw [if_pos hv]
    exact iff_of_true rfl hv
  · rw [if_neg hv]
    exact iff_of_false (fun h => (nomatch h)) hv

theorem prepareInfo_record : (mtdGetPrepareInfo fs v s).2.prepareInfo =
    ⟨v .operateStart, v .blocksize, v .lebSize, v .maxMapped, if Valid v then some fs else s.prepareInfo.contextHandle⟩ := by
  unfold mtdGetPrepareInfo
  dsimp only
  split_ifs
  · rfl
  · rfl

theorem prepareInfo_prepared : (mtdGetPrepareInfo fs v s).2.prepared = true := by
  unfold mtdGetPrepareInfo
  dsimp only
  split_ifs
  · rfl
  · rfl

theorem prepareInfo_frame : (mtdGetPrepareInfo fs v s).2.toBmState = s.toBmState ∧
    (mtdGetPrepareInfo fs v s).2.ubi = s.ubi := by
  unfold mtdGetPrepareInfo
  dsimp only
  split_ifs
  · exact ⟨rfl, rfl⟩
  · exact ⟨rfl, rfl⟩

end Callbacks

end LinuxRecovery.MtdManager
