import LinuxRecovery.BlockScan

namespace LinuxRecovery.SysinfoSave

open Libmtd BlockMap Sysinfo BasicWrite BasicRead BlockScan

/-- The partitions of the block manager, each starting where the one before it ends, and the
capacity of the device. -/
structure PartInfo where
  parts : List MtdDevInfo
  capacity : ℕ

def devInfoFrom (offset : ℕ) : ℕ → List MtdDevInfo → Option MtdDevInfo
  | _, [] => none
  | size, mtd :: parts =>
    if offset < size + mtd.size then some mtd else devInfoFrom offset (size + mtd.size) parts

def mtdGetDevInfoByOffset (bm : PartInfo) (offset : ℕ) : Option MtdDevInfo := devInfoFrom offset 0 bm.parts

theorem mtdGetDevInfoByOffset_mem {bm : PartInfo} {offset : ℕ} {part : MtdDevInfo}
    (h : mtdGetDevInfoByOffset bm offset = some part) : part ∈ bm.parts := by
  have hfrom (size : ℕ) (parts : List MtdDevInfo) (h : devInfoFrom offset size parts = some part) :
      part ∈ parts := by
    induction parts generalizing size with
    | nil => cases h
    | cons mtd parts ih =>
      unfold devInfoFrom at h
      split_ifs at h
      · cases h
        exact List.mem_cons_self
      · exact List.mem_cons_of_mem _ (ih _ h)
  exact hfrom 0 bm.parts h

variable (dev : Device) (bm : PartInfo)

def setValue (i : ℕ) (value : List UInt8) (st : BmState) : BmState :=
  { st with sysinfo := st.sysinfo.map (fun ls => ls.modify i (fun l => { l with value := some value })) }

def sysinfoGetValue (i : ℕ) (l : SysinfoLayout) (st : BmState) : Bool × BmState :=
  let value := l.value.getD (List.replicate l.length 0)
  let st := setValue i value st
  match mtdGetDevInfoByOffset bm l.offset with
  | none => (false, st)
  | some mtd =>
    match mtdBlockScan dev mtd false .random bm.capacity l.offset l.length st with
    | (.off (_ + 1), st) =>
      let out := mtdBasicRead dev mtd l.offset l.length st
      let st := setValue i (out.buffer ++ value.drop out.buffer.length) out.st
      match out.ret with
      | .off _ => (true, st)
      | _ => (false, st)
    | (_, st) => (false, st)

def saveLayouts (start length : ℕ) : ℕ → List SysinfoLayout → BmState → Bool × BmState
  | _, [], st => (true, st)
  | i, l :: ls, st =>
    if SysinfoLayout.outside l start (start + length) = true ∨ l.reserve ≠ .reserved then
      saveLayouts start length (i + 1) ls st
    else
      match sysinfoGetValue dev bm i l st with
      | (true, st) => saveLayouts start length (i + 1) ls st
      | (false, st) => (false, st)

def sysinfoTraversalSave (offset length : ℕ) (st : BmState) : Bool × BmState :=
  match st.sysinfo with
  | none => (true, st)
  | some layouts =>
    if layouts.getLast?.any (fun last => last.offset + last.length < offset) then (true, st)
    else saveLayouts dev bm offset length 0 layouts st

def secondPart : MtdDevInfo := smallNand 16 ⟨4, rfl⟩

def twoParts : PartInfo := ⟨[smallNand 0 (by decide), secondPart], 32⟩

end LinuxRecovery.SysinfoSave
