import Mathlib

namespace LinuxRecovery.PartitionTable

structure MtdDevInfo where
  mtdNum : ℤ
  size : ℤ
  ebSize : ℤ
  minIoSize : ℤ
  deriving DecidableEq

structure BmPartInfo where
  mtdDevInfo : MtdDevInfo
  start : ℤ
  fd : ℤ
  path : String
  id : ℕ
  deriving DecidableEq

structure Probe where
  libmtdOpen : Bool
  mtdGetInfo : Option ℕ
  mtdGetDevInfo1 : ℕ → Option MtdDevInfo
  openNode : String → ℤ

/-- The count of `struct mtd_info`, and the table with the entry behind the last partition. -/
structure BlockManager where
  mtdDevCnt : ℕ
  partInfo : List BmPartInfo

def mtdCharHead : String := "/dev/mtd"

/-- The sum of two `int64_t`; nothing is what an overflow leaves. -/
def add64 (a b : ℤ) : Option ℤ := if -2 ^ 63 ≤ a + b ∧ a + b < 2 ^ 63 then some (a + b) else none

section Init

variable (probe : Probe)

def initPart (i : ℕ) (size : ℤ) : Option (BmPartInfo × ℤ) := do
  let mtdDevInfo ← probe.mtdGetDevInfo1 i
  let path := mtdCharHead ++ toString mtdDevInfo.mtdNum
  let fd := probe.openNode path
  if fd < 0 then none
  else
    let next ← add64 size mtdDevInfo.size
    some (⟨mtdDevInfo, size, fd, path, i⟩, next)

def initParts : ℕ → ℕ → ℤ → Option (List BmPartInfo)
  | 0, i, size => some [⟨⟨0, 0, 0, 0⟩, size, 0, "", i⟩]
  | n + 1, i, size => do
    let (part, size) ← initPart probe i size
    let parts ← initParts n (i + 1) size
    some (part :: parts)

def mtdBlockInit : Option BlockManager := do
  if probe.libmtdOpen = false then none
  else
    let mtdDevCnt ← probe.mtdGetInfo
    let partInfo ← initParts probe mtdDevCnt 0 0
    some ⟨mtdDevCnt, partInfo⟩

end Init

def devInfoFrom (offset : ℤ) : ℕ → ℤ → List BmPartInfo → Option (Option ℕ)
  | _, _, [] => some none
  | i, size, part :: parts => do
    let size ← add64 size part.mtdDevInfo.size
    if offset < size then some (some i) else devInfoFrom offset (i + 1) size parts

def BlockManager.partitions (bm : BlockManager) : List BmPartInfo := bm.partInfo.take bm.mtdDevCnt

/-- The pointer into the table is an index here, and the null pointer is none. -/
def mtdGetDevInfoByOffset (bm : BlockManager) (offset : ℤ) : Option (Option ℕ) := devInfoFrom offset 0 0 bm.partitions

def mtdGetByOffset (field : BmPartInfo → ℤ) (bm : BlockManager) (offset : ℤ) : Option ℤ := do
  match ← mtdGetDevInfoByOffset bm offset with
  | none => some (-1)
  | some i => bm.partInfo[i]?.map field

def mtdGetPartitionSizeByOffset : BlockManager → ℤ → Option ℤ := mtdGetByOffset (fun part => part.mtdDevInfo.size)

def mtdGetPartitionStartByOffset : BlockManager → ℤ → Option ℤ := mtdGetByOffset BmPartInfo.start

def capacityFrom : ℤ → List BmPartInfo → Option ℤ
  | size, [] => some size
  | size, part :: parts => do
    let size ← add64 size part.mtdDevInfo.size
    capacityFrom size parts

def mtdGetCapacity (bm : BlockManager) : Option ℤ := capacityFrom 0 bm.partitions

def sizes (parts : List BmPartInfo) : List ℤ := parts.map (fun part => part.mtdDevInfo.size)

def BmPartInfo.Covers (part : BmPartInfo) (offset : ℤ) : Prop :=
  part.start ≤ offset ∧ offset < part.start + part.mtdDevInfo.size

/-- The offset lies in the partition with the index `i`, by the start that was recorded for it. -/
def Contains (bm : BlockManager) (offset : ℤ) (i : ℕ) : Prop :=
  ∃ part, bm.partitions[i]? = some part ∧ part.Covers offset

def Chained : ℤ → List BmPartInfo → Prop
  | _, [] => True
  | size, part :: parts =>
    part.start = size ∧ add64 size part.mtdDevInfo.size = some (size + part.mtdDevInfo.size) ∧
      Chained (size + part.mtdDevInfo.size) parts

variable {probe : Probe} {bm : BlockManager} {parts : List BmPartInfo} {part : BmPartInfo} {size offset : ℤ} {i n : ℕ}

theorem add64_some {a b c : ℤ} (h : add64 a b = some c) : c = a + b := by
  unfold add64 at h
  split_ifs at h
  cases h
  rfl

theorem initPart_some {next : ℤ} (h : initPart probe i size = some (part, next)) :
    part.start = size ∧ next = size + part.mtdDevInfo.size ∧
      add64 size part.mtdDevInfo.size = some (size + part.mtdDevInfo.size) := by
  unfold initPart at h
  simp only [Option.bind_eq_bind, Option.bind_eq_some_iff] at h
  obtain ⟨mtdDevInfo, -, h⟩ := h
  split_ifs at h
  obtain ⟨sum, hsum, h⟩ := Option.bind_eq_some_iff.mp h
  cases h
  obtain rfl := add64_some hsum
  exact ⟨rfl, rfl, hsum⟩

theorem initParts_chained (h : initParts probe n i size = some parts) :
    (parts.take n).length = n ∧ Chained size (parts.take n) := by
  induction n generalizing i size parts with
  | zero => exact ⟨rfl, trivial⟩
  | succ n ih =>
    simp only [initParts, Option.bind_eq_bind, Option.bind_eq_some_iff] at h
    obtain ⟨⟨part, next⟩, hpart, rest, hrest, h⟩ := h
    cases h
    obtain ⟨hstart, rfl, hsum⟩ := initPart_some hpart
    obtain ⟨hlen, hchain⟩ := ih hrest
    rw [List.take_succ_cons, List.length_cons, hlen]
    exact ⟨rfl, hstart, hsum, hchain⟩

theorem init_chained (h : mtdBlockInit probe = some bm) :
    bm.partitions.length = bm.mtdDevCnt ∧ Chained 0 bm.partitions := by
  unfold mtdBlockInit at h
  split_ifs at h
  simp only [Option.bind_eq_bind, Option.bind_eq_some_iff] at h
  obtain ⟨cnt, -, parts, hparts, h⟩ := h
  cases h
  exact initParts_chained hparts

theorem sizes_cons (part : BmPartInfo) (parts : List BmPartInfo) :
    sizes (part :: parts) = part.mtdDevInfo.size :: sizes parts := rfl

theorem capacityFrom_chained (h : Chained size parts) : capacityFrom size parts = some (size + (sizes parts).sum) := by
  induction parts generalizing size with
  | nil => simp [capacityFrom, sizes]
  | cons part parts ih =>
    obtain ⟨-, hsum, hrest⟩ := h
    rw [capacityFrom, hsum, Option.bind_eq_bind, Option.bind_some, ih hrest, sizes_cons, List.sum_cons, Int.add_assoc]

theorem chained_start (h : Chained size parts) (hpos : ∀ part ∈ parts, 0 < part.mtdDevInfo.size) :
    ∀ part ∈ parts, size ≤ part.start := by
  induction parts generalizing size with
  | nil => exact fun part hp => absurd hp List.not_mem_nil
  | cons part parts ih =>
    obtain ⟨hstart, -, hrest⟩ := h
    rw [List.forall_mem_cons] at hpos ⊢
    refine ⟨hstart.ge, fun q hq => ?_⟩
    have := ih hrest hpos.2 q hq
    omega

theorem devInfoFrom_chained (h : Chained size parts) (hpos : ∀ part ∈ parts, 0 < part.mtdDevInfo.size)
    (hle : size ≤ offset) : ∃ found, devInfoFrom offset i size parts = some found ∧
      (found = none ↔ size + (sizes parts).sum ≤ offset) ∧
      ∀ k, found = some k ↔ ∃ j part, k = i + j ∧ parts[j]? = some part ∧ part.Covers offset := by
  induction parts generalizing size i with
  | nil => exact ⟨none, rfl, by simpa [sizes] using hle, fun k => by simp⟩
  | cons part parts ih =>
    obtain ⟨hstart, hsum, hrest⟩ := h
    rw [List.forall_mem_cons] at hpos
    have hlater := chained_start hrest hpos.2
    rw [devInfoFrom, hsum, Option.bind_eq_bind, Option.bind_some, sizes_cons, List.sum_cons]
    by_cases hlt : offset < size + part.mtdDevInfo.size
    · have hsizes : 0 ≤ (sizes parts).sum := by
        apply List.sum_nonneg
        intro n hn
        obtain ⟨q, hq, rfl⟩ := List.mem_map.mp hn
        exact (hpos.2 q hq).le
      rw [if_pos hlt]
      refine ⟨some i, rfl, ?_, fun k => ?_⟩
      · simp only [reduceCtorEq, false_iff, not_le]
        omega
      · rw [Option.some_inj]
        constructor
        · rintro rfl
          exact ⟨0, part, rfl, rfl, by rw [BmPartInfo.Covers, hstart]; exact ⟨hle, hlt⟩⟩
        · rintro ⟨j, q, rfl, hq, hcovers⟩
          cases j with
          | zero => rfl
          | succ j =>
            have := hlater q (List.mem_of_getElem? hq)
            have := hcovers.1
            omega
    · rw [if_neg hlt]
      obtain ⟨found, hfound, hnone, hsome⟩ := ih hrest hpos.2 (not_lt.mp hlt) (i := i + 1)
      refine ⟨found, hfound, by rw [hnone, Int.add_assoc], fun k => ?_⟩
      rw [hsome]
      constructor
      · rintro ⟨j, q, rfl, hq, hcovers⟩
        exact ⟨j + 1, q, by omega, hq, hcovers⟩
      · rintro ⟨j, q, rfl, hq, hcovers⟩
        cases j with
        | zero =>
          rw [List.getElem?_cons_zero, Option.some_inj] at hq
          subst hq
          have := hcovers.2
          omega
        | succ j => exact ⟨j, q, by omega, hq, hcovers⟩

theorem partInfo_of_partitions (h : bm.partitions[i]? = some part) : bm.partInfo[i]? = some part := by
  rw [BlockManager.partitions, List.getElem?_take] at h
  split_ifs at h
  exact h

theorem getByOffset_found {field : BmPartInfo → ℤ} (h : mtdGetDevInfoByOffset bm offset = some (some i))
    (hpart : bm.partitions[i]? = some part) : mtdGetByOffset field bm offset = some (field part) := by
  rw [mtdGetByOffset, h]
  simp [partInfo_of_partitions hpart]

theorem getByOffset_none {field : BmPartInfo → ℤ} (h : mtdGetDevInfoByOffset bm offset = some none) :
    mtdGetByOffset field bm offset = some (-1) := by
  rw [mtdGetByOffset, h]
  rfl

/-- The lookup, the start table and the capacity agree, and none of the sums overflows. -/
theorem lookup_agrees (probe : Probe) (bm : BlockManager) (hinit : mtdBlockInit probe = some bm)
    (hpos : ∀ part ∈ bm.partitions, 0 < part.mtdDevInfo.size) (offset : ℤ) (h0 : 0 ≤ offset) :
    ∃ capacity found, mtdGetCapacity bm = some capacity ∧ mtdGetDevInfoByOffset bm offset = some found ∧
      (found = none ↔ capacity ≤ offset) ∧ (∀ i, found = some i ↔ Contains bm offset i) ∧
      (offset < capacity → ∃! i, Contains bm offset i) ∧
      (∀ i part, found = some i → bm.partitions[i]? = some part →
        mtdGetPartitionStartByOffset bm offset = some part.start ∧
          mtdGetPartitionSizeByOffset bm offset = some part.mtdDevInfo.size) ∧
      (found = none →
        mtdGetPartitionStartByOffset bm offset = some (-1) ∧ mtdGetPartitionSizeByOffset bm offset = some (-1)) := by
  obtain ⟨-, hchain⟩ := init_chained hinit
  obtain ⟨found, hfound, hnone, hsome⟩ := devInfoFrom_chained (i := 0) hchain hpos h0
  have hcontains (i : ℕ) : found = some i ↔ Contains bm offset i := by
    rw [hsome]
    simp only [Nat.zero_add, exists_and_left, exists_eq_left', Contains]
  rw [Int.zero_add] at hnone
  refine ⟨_, found, capacityFrom_chained hchain, hfound, by rw [Int.zero_add]; exact hnone, hcontains, ?_, ?_, ?_⟩
  · rw [Int.zero_add]
    intro hlt
    cases hf : found with
    | none => exact absurd (hnone.mp hf) (not_le.mpr hlt)
    | some i =>
      refine ⟨i, (hcontains i).mp hf, fun j hj => ?_⟩
      have hfj := (hcontains j).mpr hj
      rw [hf, Option.some_inj] at hfj
      exact hfj.symm
  · rintro i part rfl hpart
    exact ⟨getByOffset_found hfound hpart, getByOffset_found hfound hpart⟩
  · rintro rfl
    exact ⟨getByOffset_none hfound, getByOffset_none hfound⟩

def twoDevices : Probe where
  libmtdOpen := true
  mtdGetInfo := some 2
  mtdGetDevInfo1 i := some ⟨i, 32 - 16 * i, 4, 2⟩
  openNode _ := 3

def twoPartitions : BlockManager :=
  ⟨2, [⟨⟨0, 32, 4, 2⟩, 0, 3, "/dev/mtd0", 0⟩, ⟨⟨1, 16, 4, 2⟩, 32, 3, "/dev/mtd1", 1⟩, ⟨⟨0, 0, 0, 0⟩, 48, 0, "", 2⟩]⟩

theorem lookup_agrees_two :
    ∃ capacity found, mtdGetCapacity twoPartitions = some capacity ∧
      mtdGetDevInfoByOffset twoPartitions 40 = some found ∧ (found = none ↔ capacity ≤ 40) ∧
      (∀ i, found = some i ↔ Contains twoPartitions 40 i) ∧ (40 < capacity → ∃! i, Contains twoPartitions 40 i) ∧
      (∀ i part, found = some i → twoPartitions.partitions[i]? = some part →
        mtdGetPartitionStartByOffset twoPartitions 40 = some part.start ∧
          mtdGetPartitionSizeByOffset twoPartitions 40 = some part.mtdDevInfo.size) ∧
      (found = none → mtdGetPartitionStartByOffset twoPartitions 40 = some (-1) ∧
        mtdGetPartitionSizeByOffset twoPartitions 40 = some (-1)) :=
  lookup_agrees twoDevices twoPartitions rfl (by decide) 40 (by decide)

end LinuxRecovery.PartitionTable
