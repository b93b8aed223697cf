import LinuxRecovery.DeviceCheck

namespace LinuxRecovery.PartitionNames

open NumberText DeviceCheck

structure PartRecord where
  start : ℕ
  size : ℕ
  deriving DecidableEq

def initRecords : ℕ → List ℕ → List PartRecord
  | size, [] => [⟨size, 0⟩]
  | size, devSize :: sizes => ⟨size, devSize⟩ :: initRecords (size + devSize) sizes

def mtdBlockInit (sizes : List ℕ) : List PartRecord := initRecords 0 sizes

theorem initRecords_get (size : ℕ) (sizes : List ℕ) {i : ℕ} (hi : i ≤ sizes.length) :
    (initRecords size sizes)[i]? = some ⟨size + (sizes.take i).sum, sizes.getD i 0⟩ := by
  induction sizes generalizing size i with
  | nil =>
    obtain rfl : i = 0 := Nat.le_zero.mp hi
    rfl
  | cons devSize sizes ih =>
    cases i with
    | zero => rfl
    | succ i =>
      rw [initRecords, List.getElem?_cons_succ, ih _ (Nat.le_of_succ_le_succ hi), List.take_succ_cons, List.sum_cons,
        ← Nat.add_assoc, List.getD_cons_succ]

section Names

variable {mtd : MtdInfo} {i : ℕ}

def namedRecord (mtd : MtdInfo) (name : List Char) : Option PartRecord :=
  (mtdGetDevInfoByMtdstr mtd name).bind (fun i => (mtdBlockInit mtd.sizes)[i]?)

def mtdName (i : ℕ) : List Char := "mtd".toList ++ decimal i

theorem mtdName_found {j : ℕ} (h : mtdGetDevInfoByMtdstr mtd (mtdName i) = some j) : i = j ∧ i < 10 ∧ i ≤ mtd.devCnt := by
  rw [mtdName, ← intDecimal_natCast] at h
  obtain ⟨hij, hten, hcnt⟩ := lookup_found h
  have hij : i = j := by exact_mod_cast hij
  exact ⟨hij, hij ▸ hten, hij ▸ hcnt⟩

theorem mtdName_small (h : i < 10) (hle : i ≤ mtd.devCnt) : mtdGetDevInfoByMtdstr mtd (mtdName i) = some i := by
  rw [mtdName, ← intDecimal_natCast, lookup_small h, if_neg (not_lt.mpr hle)]

theorem getters_record (name : List Char) :
    mtdGetPartitionStartByName mtd name = (namedRecord mtd name).elim (-1) (fun r => (r.start : ℤ)) ∧
      mtdGetPartitionSizeByName mtd name = (namedRecord mtd name).elim (-1) (fun r => (r.size : ℤ)) := by
  unfold mtdGetPartitionStartByName mtdGetPartitionSizeByName namedRecord
  cases hname : mtdGetDevInfoByMtdstr mtd name with
  | none => exact ⟨rfl, rfl⟩
  | some i =>
    have hle : i ≤ mtd.sizes.length := by
      unfold mtdGetDevInfoByMtdstr at hname
      split_ifs at hname
      split at hname
      · cases hname
      · split_ifs at hname with hcnt
        cases hname
        exact not_lt.mp hcnt
    rw [Option.bind_some, mtdBlockInit, initRecords_get 0 mtd.sizes hle, Nat.zero_add]
    exact ⟨rfl, rfl⟩

/-- The record behind the partitions apart, just the first ten of them are found by their names. -/
theorem named_partition (hne : i ≠ mtd.devCnt) :
    (mtdGetPartitionSizeByName mtd (mtdName i) ≠ -1 ↔ i < mtd.devCnt ∧ i < 10) ∧
      (mtdGetPartitionStartByName mtd (mtdName i) ≠ -1 ↔ i < mtd.devCnt ∧ i < 10) ∧
      ∀ (hi : i < mtd.sizes.length), i < 10 →
        mtdGetPartitionSizeByName mtd (mtdName i) = mtd.sizes[i] ∧
          mtdGetPartitionStartByName mtd (mtdName i) = (mtd.sizes.take i).sum ∧
          namedRecord mtd (mtdName i) = some ⟨(mtd.sizes.take i).sum, mtd.sizes[i]⟩ := by
  have hfound (hi : i < mtd.sizes.length) (hten : i < 10) :
      namedRecord mtd (mtdName i) = some ⟨(mtd.sizes.take i).sum, mtd.sizes[i]⟩ := by
    rw [namedRecord, mtdName_small hten hi.le, Option.bind_some, mtdBlockInit, initRecords_get 0 mtd.sizes hi.le,
      Nat.zero_add, List.getD_eq_getElem _ _ hi]
  have hmissing (h : ¬(i < mtd.devCnt ∧ i < 10)) : namedRecord mtd (mtdName i) = none := by
    unfold namedRecord
    cases hname : mtdGetDevInfoByMtdstr mtd (mtdName i) with
    | none => rfl
    | some j =>
      obtain ⟨-, hten, hcnt⟩ := mtdName_found hname
      exact absurd ⟨lt_of_le_of_ne hcnt hne, hten⟩ h
  have hsucceeds (f : PartRecord → ℕ) :
      (namedRecord mtd (mtdName i)).elim (-1) (fun r => (f r : ℤ)) ≠ -1 ↔ i < mtd.devCnt ∧ i < 10 := by
    by_cases h : i < mtd.devCnt ∧ i < 10
    · rw [hfound h.1 h.2, Option.elim_some]
      exact ⟨fun _ => h, fun _ => by omega⟩
    · rw [hmissing h, Option.elim_none]
      exact ⟨fun hret => absurd rfl hret, fun hi => absurd hi h⟩
  obtain ⟨hstart, hsize⟩ := @getters_record mtd (mtdName i)
  rw [hstart, hsize]
  refine ⟨hsucceeds _, hsucceeds _, fun hi hten => ?_⟩
  rw [hfound hi hten]
  exact ⟨rfl, rfl, rfl⟩

theorem named_partition_second :
    mtdGetPartitionSizeByName smallMtd (mtdName 1) = 512 ∧ mtdGetPartitionStartByName smallMtd (mtdName 1) = 512 := by
  obtain ⟨hsize, hstart, -⟩ := (named_partition (by decide : 1 ≠ smallMtd.devCnt)).2.2 (by decide) (by decide)
  exact ⟨hsize, hstart⟩

def elevenParts : MtdInfo := ⟨List.replicate 11 512, by decide, by decide⟩

theorem eleventh_unnamed :
    ¬(mtdGetPartitionSizeByName elevenParts (mtdName 10) ≠ -1 ↔ 10 < elevenParts.devCnt) := by decide

end Names

end LinuxRecovery.PartitionNames
