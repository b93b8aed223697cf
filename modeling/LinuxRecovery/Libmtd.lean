import LinuxRecovery.ByteMemory

namespace LinuxRecovery.Libmtd

open ByteMemory

inductive MtdType where
  | nandflash
  | mlcNandflash
  | norflash
  | other
  deriving DecidableEq

/-- `struct mtd_dev_info` with the start recorded for it in `struct bm_part_info`. -/
structure MtdDevInfo where
  type : MtdType
  size : ℕ
  ebSize : ℕ
  minIoSize : ℕ
  subpageSize : ℕ
  oobSize : ℕ
  start : ℕ
  ebSize_pow : ∃ k, ebSize = 2 ^ k
  minIoSize_pow : ∃ k, minIoSize = 2 ^ k
  minIoSize_dvd : minIoSize ∣ ebSize
  subpageSize_dvd : subpageSize ∣ minIoSize
  size_dvd : ebSize ∣ size
  start_dvd : ebSize ∣ start

namespace MtdDevInfo

variable (mtd : MtdDevInfo)

def ebCnt : ℕ := mtd.size / mtd.ebSize

def bbAllowed : Bool := mtd.type == .nandflash || mtd.type == .mlcNandflash

theorem ebSize_pos : 0 < mtd.ebSize := by
  obtain ⟨k, hk⟩ := mtd.ebSize_pow
  exact hk ▸ Nat.two_pow_pos k

theorem minIoSize_pos : 0 < mtd.minIoSize := by
  obtain ⟨k, hk⟩ := mtd.minIoSize_pow
  exact hk ▸ Nat.two_pow_pos k

theorem minIoSize_le : mtd.minIoSize ≤ mtd.ebSize :=
  Nat.le_of_dvd mtd.ebSize_pos mtd.minIoSize_dvd

theorem ebCnt_mul : mtd.ebCnt * mtd.ebSize = mtd.size := Nat.div_mul_cancel mtd.size_dvd

theorem lt_ebCnt {w : ℕ} (h : w < mtd.size) : w / mtd.ebSize < mtd.ebCnt := by
  apply Nat.div_lt_of_lt_mul
  rwa [Nat.mul_comm, mtd.ebCnt_mul]

end MtdDevInfo

def mtdOffsetToEbIndex (mtd : MtdDevInfo) (off : ℕ) : ℕ := off / mtd.ebSize

def mtdBlockAlign (mtd : MtdDevInfo) (off : ℕ) : ℕ := off / mtd.ebSize * mtd.ebSize

def mtdEbRelativeToAbsolute (mtd : MtdDevInfo) (eb : ℕ) : ℕ := eb + mtdOffsetToEbIndex mtd mtd.start

theorem mtdBlockAlign_mask (mtd : MtdDevInfo) (off : ℕ) :
    Int.land off (-(mtd.ebSize : ℤ)) = mtdBlockAlign mtd off := by
  obtain ⟨k, hk⟩ := mtd.ebSize_pow
  have hpos := Nat.two_pow_pos k
  have hneg : (-(mtd.ebSize : ℤ)) = Int.negSucc (2 ^ k - 1) := by rw [hk]; omega
  rw [hneg, mtdBlockAlign, hk]
  change Int.ofNat (Nat.ldiff off (2 ^ k - 1)) = _
  congr 1
  apply Nat.eq_of_testBit_eq
  intro i
  rw [Nat.testBit_ldiff, Nat.testBit_two_pow_sub_one, Nat.testBit_mul_two_pow,
    Nat.testBit_div_two_pow]
  by_cases hi : i < k
  · simp [hi]
  · simp [hi, Nat.le_of_not_lt hi]

inductive Errno where
  | eio
  | einval
  | other
  deriving DecidableEq

inductive MtdOps where
  | placeOob
  | autoOob
  | raw
  deriving DecidableEq

inductive DevCall where
  | erase (start eb : ℕ)
  | write (start eb offs : ℕ) (data : List UInt8) (oob : Option (List UInt8)) (mode : MtdOps)
  | read (start eb offs len : ℕ)
  | markBad (start eb : ℕ)
  | isBad (start eb : ℕ)
  | unlock (start eb : ℕ)
  | cleanMarker (start eb : ℕ)
  deriving DecidableEq

def DevCall.target : DevCall → ℕ × ℕ
  | .erase start eb => (start, eb)
  | .write start eb _ _ _ _ => (start, eb)
  | .read start eb _ _ => (start, eb)
  | .markBad start eb => (start, eb)
  | .isBad start eb => (start, eb)
  | .unlock start eb => (start, eb)
  | .cleanMarker start eb => (start, eb)

inductive BadReply where
  | good
  | bad
  | error
  | unsupported
  deriving DecidableEq

structure Device where
  reply : List DevCall → Option Errno
  junk : List DevCall → ℕ → UInt8
  badBlock : List DevCall → BadReply
  fileMode : Option Errno
  oobInfo : Bool

structure Chip where
  mem : Memory
  calls : List DevCall

variable (dev : Device) (mtd : MtdDevInfo)

def mtdValidEraseBlock (eb : ℕ) : Bool := decide (eb < mtd.ebCnt)

def address (eb offs : ℕ) : ℕ := mtd.start + eb * mtd.ebSize + offs

def mtdErase (eb : ℕ) (s : Chip) : Option Errno × Chip :=
  if !mtdValidEraseBlock mtd eb then (some .einval, s)
  else
    let calls := s.calls ++ [.erase mtd.start eb]
    match dev.reply calls with
    | none => (none, ⟨fillBytes s.mem (address mtd eb 0) mtd.ebSize (fun _ => 0xFF), calls⟩)
    | some e => (some e, ⟨fillBytes s.mem (address mtd eb 0) mtd.ebSize (dev.junk calls), calls⟩)

def mtdWrite (eb offs : ℕ) (data : List UInt8) (oob : Option (List UInt8)) (mode : MtdOps)
    (s : Chip) : Option Errno × Chip :=
  if !mtdValidEraseBlock mtd eb then (some .einval, s)
  else if mtd.ebSize < offs + data.length then (some .einval, s)
  else if offs % mtd.subpageSize ≠ 0 then (some .einval, s)
  else if data.length % mtd.subpageSize ≠ 0 then (some .einval, s)
  else
    let calls := s.calls ++ [.write mtd.start eb offs data oob mode]
    match dev.reply calls with
    | none => (none, ⟨writeBytes s.mem (address mtd eb offs) data, calls⟩)
    | some e => (some e, ⟨fillBytes s.mem (address mtd eb offs) data.length (dev.junk calls), calls⟩)

def mtdRead (eb offs len : ℕ) (s : Chip) : Option Errno × List UInt8 × Chip :=
  if !mtdValidEraseBlock mtd eb then (some .einval, [], s)
  else if mtd.ebSize < offs + len then (some .einval, [], s)
  else
    let calls := s.calls ++ [.read mtd.start eb offs len]
    (dev.reply calls, readBytes s.mem (address mtd eb offs) len, { s with calls := calls })

def mtdMarkBad (eb : ℕ) (s : Chip) : Option Errno × Chip :=
  if !mtd.bbAllowed then (some .einval, s)
  else if !mtdValidEraseBlock mtd eb then (some .einval, s)
  else
    let calls := s.calls ++ [.markBad mtd.start eb]
    (dev.reply calls, { s with calls := calls })

def mtdIsBad (eb : ℕ) (s : Chip) : BadReply × Chip :=
  if !mtdValidEraseBlock mtd eb then (.error, s)
  else if !mtd.bbAllowed then (.good, s)
  else
    let calls := s.calls ++ [.isBad mtd.start eb]
    (dev.badBlock calls, { s with calls := calls })

def mtdUnlock (eb : ℕ) (s : Chip) : Option Errno × Chip :=
  if !mtdValidEraseBlock mtd eb then (some .einval, s)
  else
    let calls := s.calls ++ [.unlock mtd.start eb]
    (dev.reply calls, { s with calls := calls })

def IssuesTo (start eb : ℕ) (s s' : Chip) : Prop :=
  ∃ new, s'.calls = s.calls ++ new ∧ ∀ call ∈ new, call.target = (start, eb)

variable {start eb : ℕ}

theorem IssuesTo.refl (s : Chip) : IssuesTo start eb s s := ⟨[], by simp, by simp⟩

theorem IssuesTo.one {s s' : Chip} {call : DevCall} (h : s'.calls = s.calls ++ [call])
    (hc : call.target = (start, eb)) : IssuesTo start eb s s' :=
  ⟨[call], h, by simp [hc]⟩

theorem IssuesTo.trans {s t u : Chip} (h : IssuesTo start eb s t) (h' : IssuesTo start eb t u) :
    IssuesTo start eb s u := by
  obtain ⟨new, hn, ht⟩ := h
  obtain ⟨new', hn', ht'⟩ := h'
  refine ⟨new ++ new', by rw [hn', hn, List.append_assoc], ?_⟩
  intro call hc
  exact (List.mem_append.mp hc).elim (ht call) (ht' call)

theorem mtdErase_issues (eb : ℕ) (s : Chip) : IssuesTo mtd.start eb s (mtdErase dev mtd eb s).2 := by
  unfold mtdErase
  split_ifs
  · exact .refl s
  · dsimp only
    split <;> exact .one rfl rfl

theorem mtdWrite_issues (eb offs : ℕ) (data : List UInt8) (oob : Option (List UInt8)) (mode : MtdOps)
    (s : Chip) : IssuesTo mtd.start eb s (mtdWrite dev mtd eb offs data oob mode s).2 := by
  unfold mtdWrite
  split_ifs
  · exact .refl s
  · exact .refl s
  · exact .refl s
  · exact .refl s
  · dsimp only
    split <;> exact .one rfl rfl

theorem mtdRead_issues (eb offs len : ℕ) (s : Chip) :
    IssuesTo mtd.start eb s (mtdRead dev mtd eb offs len s).2.2 := by
  unfold mtdRead
  split_ifs
  · exact .refl s
  · exact .refl s
  · exact .one rfl rfl

theorem mtdMarkBad_issues (eb : ℕ) (s : Chip) : IssuesTo mtd.start eb s (mtdMarkBad dev mtd eb s).2 := by
  unfold mtdMarkBad
  split_ifs
  · exact .refl s
  · exact .refl s
  · exact .one rfl rfl

theorem page_pow : ∃ k, 2048 = 2 ^ k := ⟨11, rfl⟩

def smallNand (start : ℕ) (h : 4 ∣ start) : MtdDevInfo where
  type := .nandflash
  size := 16
  ebSize := 4
  minIoSize := 2
  subpageSize := 2
  oobSize := 1
  start := start
  ebSize_pow := ⟨2, rfl⟩
  minIoSize_pow := ⟨1, rfl⟩
  minIoSize_dvd := by decide
  subpageSize_dvd := by decide
  size_dvd := by decide
  start_dvd := h

def failsAt (bad : List ℕ) : Device where
  reply calls := if calls.length ∈ bad then some .eio else none
  junk _ _ := 0
  badBlock _ := .good
  fileMode := none
  oobInfo := true

end LinuxRecovery.Libmtd
