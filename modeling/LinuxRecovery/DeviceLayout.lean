import LinuxRecovery.PackagedImages

namespace LinuxRecovery.DeviceLayout

open Packager PackagedImages

def Partition.extent (p : Partition) : Set ℤ := Set.Ico p.offset (p.offset + p.size)

def Imageinfo.extent (p : Imageinfo) : Set ℤ := Set.Ico p.offset (p.offset + p.size)

/-- Any two of the list, the earlier one first, have nothing in common and are in increasing order. -/
def Apart {α : Type} (extent : α → Set ℤ) (offset : α → ℤ) (xs : List α) : Prop :=
  xs.Pairwise (fun p q => Disjoint (extent p) (extent q) ∧ offset p < offset q)

theorem disjoint_behind {a b c d : ℤ} (h : b ≤ c) : Disjoint (Set.Ico a b) (Set.Ico c d) := by
  rw [Set.disjoint_left]
  intro x hx hx'
  exact absurd (lt_of_lt_of_le hx.2 h) (not_lt.mpr hx'.1)

theorem partitions_apart {device : Device} (h : device.judge = true) :
    Apart Partition.extent Partition.offset device.partition := by
  simp only [Device.judge, Bool.and_eq_true] at h
  apply (judgePartitions_pairwise h.2).imp
  rintro p q ⟨-, hpos, hle⟩
  exact ⟨disjoint_behind hle, by omega⟩

theorem images_apart {image : Image} (h : image.judge = true) (hpos : ∀ p ∈ image.imageinfo, 0 < p.size) :
    Apart Imageinfo.extent Imageinfo.offset image.imageinfo := by
  simp only [Image.judge, Bool.and_eq_true] at h
  apply (judgeImages_pairwise h.2).imp_of_mem
  rintro p q hp - ⟨-, hle⟩
  have := hpos p hp
  exact ⟨disjoint_behind hle, by omega⟩

/-- Checking neighbours is enough: accepted partitions lie apart inside the device, and accepted images apart. -/
theorem accepted_apart (device : Device) (image : Image) (hdevice : device.judge = true) (himage : image.judge = true)
    (hpos : ∀ p ∈ image.imageinfo, 0 < p.size) :
    Apart Partition.extent Partition.offset device.partition ∧
      (∀ p ∈ device.partition, (Partition.extent p).Nonempty ∧ Partition.extent p ⊆ Set.Ico 0 device.devsize) ∧
      Apart Imageinfo.extent Imageinfo.offset image.imageinfo := by
  refine ⟨partitions_apart hdevice, fun p hp => ?_, images_apart himage hpos⟩
  obtain ⟨h0, hsize, hend⟩ := judged_part hdevice hp
  exact ⟨⟨p.offset, le_rfl, by omega⟩, Set.Ico_subset_Ico h0 hend⟩

def twoParts : Device := ⟨"nand", 524288, [⟨"boot", 0, 131072, "mtdblock0"⟩, ⟨"root", 262144, 262144, "mtdblock1"⟩]⟩

def twoImages : Image :=
  ⟨"nand", 2, 0, [⟨"boot.img", 4096, "normal", 0, ⟨.full, 0, 0⟩⟩, ⟨"root.img", 8192, "normal", 262144, ⟨.full, 0, 0⟩⟩]⟩

theorem accepted_apart_two :
    Apart Partition.extent Partition.offset twoParts.partition ∧
      (∀ p ∈ twoParts.partition,
        (Partition.extent p).Nonempty ∧ Partition.extent p ⊆ Set.Ico 0 twoParts.devsize) ∧
      Apart Imageinfo.extent Imageinfo.offset twoImages.imageinfo :=
  accepted_apart twoParts twoImages (by decide) (by decide) (by decide)

/-- `judge_partititon_mapped` to its last line; nothing is what an exception leaves: the index of an empty loop,
or an error text with two placeholders and one value. -/
def judgePartititonMapped (device : Device) (mapStart : ℤ) (mapSize : ℕ) (ftype : String) : Option Bool :=
  match (device.partition.find? (fun p => p.isMmapedIn mapStart)).or device.partition.getLast? with
  | none => none
  | some p =>
    let mappedMax := p.getAvailableMappedContentSize ftype
    if mappedMax ≤ 0 then none
    else
      let mappedMax :=
        if device.devtype = "nand" ∧ ftype = "ubifs" then mappedMax - device.getNandReservedSize else mappedMax
      some (decide (mapStart + mapSize ≤ p.offset + mappedMax))

theorem judgePartitionMapped_eq (device : Device) (mapStart : ℤ) (mapSize : ℕ) (ftype : String) :
    device.judgePartitionMapped mapStart mapSize ftype =
      (judgePartititonMapped device mapStart mapSize ftype).getD false := by
  unfold Device.judgePartitionMapped judgePartititonMapped
  cases (device.partition.find? (fun p => p.isMmapedIn mapStart)).or device.partition.getLast? with
  | none => rfl
  | some p =>
    dsimp only
    by_cases h : p.getAvailableMappedContentSize ftype ≤ 0
    · rw [if_pos h, if_pos h]
      rfl
    · rw [if_neg h, if_neg h]
      rfl

structure Exact (device : Device) (mapStart : ℤ) (mapSize : ℕ) (ftype : String) : Prop where
  inside : judgePartititonMapped device mapStart mapSize ftype = some true →
    ∃ p ∈ device.partition, p.isMmapedIn mapStart = true ∧
      mapStart + mapSize ≤ p.offset + p.getAvailableMappedContentSize ftype
  outside : (∀ p ∈ device.partition, p.isMmapedIn mapStart = false) →
    judgePartititonMapped device mapStart mapSize ftype = some false
  full : (∃ p ∈ device.partition, p.isMmapedIn mapStart = true ∧ p.getAvailableMappedContentSize ftype ≤ 0) →
    judgePartititonMapped device mapStart mapSize ftype = some false

def usable (device : Device) (p : Partition) (ftype : String) : ℤ :=
  if device.devtype = "nand" ∧ ftype = "ubifs" then
    p.getAvailableMappedContentSize ftype - device.getNandReservedSize
  else p.getAvailableMappedContentSize ftype

section Mapped

variable {device : Device} {mapStart : ℤ} {mapSize : ℕ} {ftype : String} {p : Partition}

theorem mapped_eq (mapSize : ℕ) (ftype : String)
    (h : (device.partition.find? (fun p => p.isMmapedIn mapStart)).or device.partition.getLast? = some p) :
    judgePartititonMapped device mapStart mapSize ftype =
      if p.getAvailableMappedContentSize ftype ≤ 0 then none
      else some (decide (mapStart + mapSize ≤ p.offset + usable device p ftype)) := by
  rw [judgePartititonMapped, h]
  rfl

theorem usable_le (hdev : 0 ≤ device.devsize) : usable device p ftype ≤ p.getAvailableMappedContentSize ftype := by
  have := reservedSize_nonneg hdev
  unfold usable
  split_ifs
  · omega
  · exact le_rfl

end Mapped

/-- The check is right exactly for an image in a partition with room, and for one that is in no partition and ends
beyond the last one's. -/
theorem judged_exact_iff (device : Device) (mapStart : ℤ) (mapSize : ℕ) (ftype : String) (hjudge : device.judge = true)
    (hne : device.partition ≠ []) : Exact device mapStart mapSize ftype ↔
      (∃ p ∈ device.partition, p.isMmapedIn mapStart = true ∧ 0 < p.getAvailableMappedContentSize ftype) ∨
      ((∀ p ∈ device.partition, p.isMmapedIn mapStart = false) ∧
        0 < (device.partition.getLast hne).getAvailableMappedContentSize ftype ∧
        (device.partition.getLast hne).offset + usable device (device.partition.getLast hne) ftype <
          mapStart + mapSize) := by
  by_cases hin : ∃ p ∈ device.partition, p.isMmapedIn mapStart = true
  · obtain ⟨p, hp, hmapped⟩ := hin
    obtain ⟨h0, hpos, hend⟩ := judged_part hjudge hp
    have hle : usable device p ftype ≤ p.getAvailableMappedContentSize ftype := usable_le (by omega)
    have heq := mapped_eq mapSize ftype (show _ = some p by
      rw [find_mapped hjudge hp hmapped, Option.some_or])
    constructor
    · intro h
      refine .inl ⟨p, hp, hmapped, ?_⟩
      by_contra hfull
      have := h.full ⟨p, hp, hmapped, not_lt.mp hfull⟩
      rw [heq, if_pos (not_lt.mp hfull)] at this
      cases this
    · rintro (⟨q, hq, hqin, hroom⟩ | ⟨hout, -⟩)
      · obtain rfl := mapped_unique hjudge hp hq hmapped hqin
        rw [if_neg (not_le.mpr hroom)] at heq
        refine ⟨fun h => ⟨p, hp, hmapped, ?_⟩, fun hout => ?_, ?_⟩
        · rw [heq] at h
          have := of_decide_eq_true (Option.some.inj h)
          omega
        · exact absurd hmapped (by rw [hout p hp]; decide)
        · rintro ⟨q, hq, hqin, hfull⟩
          obtain rfl := mapped_unique hjudge hp hq hmapped hqin
          omega
      · exact absurd hmapped (by rw [hout p hp]; decide)
  · have hout : ∀ p ∈ device.partition, p.isMmapedIn mapStart = false := by
      intro p hp
      rw [← Bool.not_eq_true]
      exact fun h => hin ⟨p, hp, h⟩
    have hnone : device.partition.find? (fun p => p.isMmapedIn mapStart) = none :=
      List.find?_eq_none.mpr (fun p hp h => hin ⟨p, hp, h⟩)
    have heq := mapped_eq mapSize ftype (show _ = some (device.partition.getLast hne) by
      rw [hnone, Option.none_or, List.getLast?_eq_some_getLast hne])
    generalize device.partition.getLast hne = last at heq ⊢
    constructor
    · intro h
      have hfalse := h.outside hout
      rw [heq] at hfalse
      split_ifs at hfalse with hfull
      have := of_decide_eq_false (Option.some.inj hfalse)
      exact .inr ⟨hout, by omega, by omega⟩
    · rintro (⟨q, hq, hqin, -⟩ | ⟨-, hroom, hend⟩)
      · exact absurd ⟨q, hq, hqin⟩ hin
      · rw [if_neg (not_le.mpr hroom), decide_eq_false (not_le.mpr hend)] at heq
        exact ⟨fun h => absurd (heq.symm.trans h) (by decide), fun _ => heq, fun _ => heq⟩

theorem twoParts_nonempty : twoParts.partition ≠ [] := List.cons_ne_nil _ _

theorem judged_exact_iff_boot : Exact twoParts 0 4096 "normal" ↔
    (∃ p ∈ twoParts.partition, p.isMmapedIn 0 = true ∧ 0 < p.getAvailableMappedContentSize "normal") ∨
    ((∀ p ∈ twoParts.partition, p.isMmapedIn 0 = false) ∧
      0 < (twoParts.partition.getLast twoParts_nonempty).getAvailableMappedContentSize "normal" ∧
      (twoParts.partition.getLast twoParts_nonempty).offset +
        usable twoParts (twoParts.partition.getLast twoParts_nonempty) "normal" < 0 + (4096 : ℕ)) :=
  judged_exact_iff twoParts 0 4096 "normal" (by decide) twoParts_nonempty

/-- An image between the two partitions is accepted, by what the second one has to offer. -/
theorem gap_accepted : twoParts.judge = true ∧ (∀ p ∈ twoParts.partition, p.isMmapedIn 196608 = false) ∧
    judgePartititonMapped twoParts 196608 4096 "normal" = some true ∧ ¬Exact twoParts 196608 4096 "normal" := by
  have hout : ∀ p ∈ twoParts.partition, p.isMmapedIn 196608 = false := by decide
  have htrue : judgePartititonMapped twoParts 196608 4096 "normal" = some true := by decide
  refine ⟨by decide, hout, htrue, fun h => ?_⟩
  exact absurd (htrue.symm.trans (h.outside hout)) (by decide)

end LinuxRecovery.DeviceLayout
