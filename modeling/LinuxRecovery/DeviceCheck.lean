import LinuxRecovery.ManifestRoundTrip

namespace LinuxRecovery.DeviceCheck

open NumberText Mxml UpdateFile ManifestRead

structure MtdInfo where
  sizes : List ℕ
  devCnt_lt : sizes.length < 2 ^ 31
  capacity_lt : sizes.sum < 2 ^ 63

namespace MtdInfo

variable (info : MtdInfo)

def devCnt : ℕ := info.sizes.length

/-- One record follows those of the partitions: it starts at the end of the last one and has no size. -/
def start (i : ℕ) : ℕ := (info.sizes.take i).sum

def size (i : ℕ) : ℕ := info.sizes.getD i 0

theorem start_le (i : ℕ) : info.start i ≤ info.sizes.sum := (List.take_sublist i info.sizes).sum_le_sum (by simp)

theorem size_le (i : ℕ) : info.size i ≤ info.sizes.sum := by
  unfold size
  rw [List.getD_eq_getElem?_getD]
  cases h : info.sizes[i]? with
  | none => simp
  | some n => exact List.single_le_sum (by simp) n (List.mem_of_getElem? h)

end MtdInfo

inductive Scanned where
  | number (n : ℤ)
  | unassigned
  | overflow
  deriving DecidableEq

def scanBlknum (blockName : List Char) : Scanned :=
  match blockName.dropPrefix? "mtdblock".toList with
  | none => .unassigned
  | some t =>
    match readSign (t.dropWhile isSpace) with
    | (_, []) => .unassigned
    | (neg, c :: cs) =>
      match digitIn 10 c with
      | none => .unassigned
      | some d =>
        let n : ℤ := if neg then -((readDigits 10 d cs).1 : ℤ) else (readDigits 10 d cs).1
        if -(2 ^ 31) ≤ n ∧ n < 2 ^ 31 then .number n else .overflow

def intDecimal (n : ℤ) : List Char := if n < 0 then '-' :: decimal n.natAbs else decimal n.natAbs

def blkname (info : PartItem) : Option (List Char) :=
  let name (blknum : ℤ) := "mtd".toList ++ intDecimal blknum
  match scanBlknum info.blockName.toList with
  | .number n => if (name n).length < 8 then some (name n) else none
  | .unassigned => some (name 0)
  | .overflow => none

variable (mtd : MtdInfo)

def mtdGetDevInfoByMtdstr (name : List Char) : Option ℕ :=
  if !"mtd".toList.isPrefixOf name then none
  else if name.length ≠ "mtd".length + 1 then none
  else
    match (name[3]?).bind (digitIn 10) with
    | none => none
    | some i => if mtd.devCnt < i then none else some i

def mtdGetPartitionStartByName (name : List Char) : ℤ :=
  match mtdGetDevInfoByMtdstr mtd name with
  | none => -1
  | some i => mtd.start i

def mtdGetPartitionSizeByName (name : List Char) : ℤ :=
  match mtdGetDevInfoByMtdstr mtd name with
  | none => -1
  | some i => mtd.size i

def entryMatches (name : List Char) (info : PartItem) : Bool :=
  UInt64.ofInt (mtdGetPartitionStartByName mtd name) == info.offset &&
    UInt64.ofInt (mtdGetPartitionSizeByName mtd name) == info.size

def checkEntries : List PartItem → Option ℤ
  | [] => some 0
  | info :: infos =>
    match blkname info with
    | none => none
    | some name => if entryMatches mtd name info then checkEntries infos else some (-1)

/-- Nothing stands for an assertion that fails, or for a write past the end of `blkname`. -/
def checkDeviceInfo (device : DeviceManifest) : Option ℤ :=
  if device.type = "nand" ∨ device.type = "nor" then
    if device.partCount ≠ UInt32.ofNat mtd.devCnt then some (-1) else checkEntries mtd device.list
  else none

def blockNumber (info : PartItem) : Option ℤ :=
  match scanBlknum info.blockName.toList with
  | .number n => some n
  | _ => none

structure Describes (info : PartItem) (i : ℕ) : Prop where
  number : blockNumber info = some (i : ℤ)
  offset : info.offset.toNat = mtd.start i
  size : info.size.toNat = mtd.size i

def OneToOne (infos : List PartItem) : Prop :=
  ∃ is : List ℕ, is.Perm (List.range mtd.devCnt) ∧ List.Forall₂ (Describes mtd) infos is

structure TrueEntry (info : PartItem) (i : ℕ) : Prop where
  blockName : info.blockName.toList = "mtdblock".toList ++ decimal i
  offset : info.offset.toNat = mtd.start i
  size : info.size.toNat = mtd.size i

def TrueTable (infos : List PartItem) : Prop :=
  ∃ is : List ℕ, is.Perm (List.range mtd.devCnt) ∧ List.Forall₂ (TrueEntry mtd) infos is

def Checked (device : DeviceManifest) : Prop :=
  (checkDeviceInfo mtd device = some 0 → OneToOne mtd device.list) ∧
    (TrueTable mtd device.list → checkDeviceInfo mtd device = some 0)

def Passes (info : PartItem) : Prop := ∃ name, blkname info = some name ∧ entryMatches mtd name info = true

inductive Stray (info : PartItem) : Prop where
  | unnumbered (scanned : scanBlknum info.blockName.toList = .unassigned) (offset : info.offset.toNat = mtd.start 0)
      (size : info.size.toNat = mtd.size 0)
  | beyond (number : blockNumber info = some (mtd.devCnt : ℤ)) (small : mtd.devCnt < 10)
      (offset : info.offset.toNat = mtd.sizes.sum) (size : info.size.toNat = 0)
  | unknown (n : ℤ) (number : blockNumber info = some n) (range : n < 0 ∨ 10 ≤ n ∨ mtd.devCnt < n)
      (short : (intDecimal n).length < 5) (offset : info.offset.toNat = 2 ^ 64 - 1)
      (size : info.size.toNat = 2 ^ 64 - 1)

def Listed (info : PartItem) : Prop := ∃ i < mtd.devCnt, i < 10 ∧ Describes mtd info i

/-- As many entries as partitions, each of them a partition or a stray one: one is stray or two have one number. -/
structure Confused (device : DeviceManifest) : Prop where
  count : device.partCount = UInt32.ofNat mtd.devCnt
  entries : ∀ info ∈ device.list, Listed mtd info ∨ Stray mtd info
  wrong : (∃ info ∈ device.list, Stray mtd info) ∨ ¬(device.list.map blockNumber).Nodup

structure TooMany (device : DeviceManifest) : Prop where
  table : TrueTable mtd device.list
  many : 10 < mtd.devCnt

variable {mtd} {device : DeviceManifest} {info : PartItem} {infos : List PartItem} {i : ℕ} {n : ℤ}

theorem checkEntries_iff : checkEntries mtd infos = some 0 ↔ ∀ info ∈ infos, Passes mtd info := by
  induction infos with
  | nil => simp [checkEntries]
  | cons info infos ih =>
    rw [checkEntries, List.forall_mem_cons, ← ih]
    cases hn : blkname info with
    | none => simp [Passes, hn]
    | some name => by_cases hm : entryMatches mtd name info = true <;> simp [Passes, hn, hm]

theorem checkDeviceInfo_iff (h : device.type = "nand" ∨ device.type = "nor") :
    checkDeviceInfo mtd device = some 0 ↔
      device.partCount = UInt32.ofNat mtd.devCnt ∧ ∀ info ∈ device.list, Passes mtd info := by
  rw [checkDeviceInfo, if_pos h, ← checkEntries_iff]
  by_cases hc : device.partCount = UInt32.ofNat mtd.devCnt <;> simp [hc]

theorem intDecimal_natCast (i : ℕ) : intDecimal i = decimal i := by
  rw [intDecimal, if_neg (by omega), Int.natAbs_natCast]

theorem intDecimal_length (h : (intDecimal n).length = 1) : ∃ i : ℕ, n = i ∧ i < 10 := by
  unfold intDecimal at h
  split_ifs at h with hneg
  · simp [decimal_ne_nil] at h
  · refine ⟨n.natAbs, by omega, ?_⟩
    have := (Nat.length_toDigits_le_iff (b := 10) (n := n.natAbs) (by norm_num) one_pos).mp h.le
    simpa using this

theorem lookup_small (h : i < 10) : mtdGetDevInfoByMtdstr mtd ("mtd".toList ++ intDecimal i) =
    if mtd.devCnt < i then none else some i := by
  have hdigits : decimal i = [i.digitChar] := Nat.toDigits_of_lt_base h
  have hdigit : digitIn 10 i.digitChar = some i := digitIn_digitChar h (by norm_num)
  rw [intDecimal_natCast, hdigits]
  unfold mtdGetDevInfoByMtdstr
  have hlen : ("mtd".toList ++ [i.digitChar]).length = "mtd".length + 1 := rfl
  rw [if_neg (by simp), if_neg (by rw [hlen, Ne, not_not])]
  have hget : ("mtd".toList ++ [i.digitChar])[3]? = some i.digitChar := rfl
  rw [hget, Option.bind_some, hdigit]

theorem lookup_found {j : ℕ} (h : mtdGetDevInfoByMtdstr mtd ("mtd".toList ++ intDecimal n) = some j) :
    n = j ∧ j < 10 ∧ j ≤ mtd.devCnt := by
  have hlen : (intDecimal n).length = 1 := by
    unfold mtdGetDevInfoByMtdstr at h
    split_ifs at h with h1 h2
    have hprefix : "mtd".toList.length = 3 := rfl
    have hname : "mtd".length = 3 := rfl
    rw [List.length_append] at h2
    omega
  obtain ⟨i, rfl, hi⟩ := intDecimal_length hlen
  rw [lookup_small hi] at h
  split_ifs at h with hcnt
  cases h
  exact ⟨rfl, hi, by omega⟩

theorem lookup_none (h : n < 0 ∨ 10 ≤ n ∨ mtd.devCnt < n) :
    mtdGetDevInfoByMtdstr mtd ("mtd".toList ++ intDecimal n) = none := by
  cases hl : mtdGetDevInfoByMtdstr mtd ("mtd".toList ++ intDecimal n) with
  | none => rfl
  | some j =>
    have := lookup_found hl
    omega

theorem blkname_number (h : blockNumber info = some n) (hname : ("mtd".toList ++ intDecimal n).length < 8) :
    blkname info = some ("mtd".toList ++ intDecimal n) := by
  unfold blockNumber at h
  unfold blkname
  split at h
  · cases h
    rename_i heq
    rw [heq]
    exact if_pos hname
  · cases h

theorem toNat_ofInt_natCast {n : ℕ} (h : n < 2 ^ 64) : (UInt64.ofInt n).toNat = n := by
  rw [UInt64.ofInt, UInt64.toNat_ofNat']
  omega

theorem ofInt_natCast_iff {n : ℕ} (h : n < 2 ^ 64) (x : UInt64) : UInt64.ofInt n = x ↔ x.toNat = n := by
  rw [← UInt64.toNat_inj, toNat_ofInt_natCast h, eq_comm]

theorem entryMatches_some {name : List Char} (h : mtdGetDevInfoByMtdstr mtd name = some i) :
    entryMatches mtd name info = true ↔ info.offset.toNat = mtd.start i ∧ info.size.toNat = mtd.size i := by
  have hstart := (mtd.start_le i).trans_lt mtd.capacity_lt
  have hsize := (mtd.size_le i).trans_lt mtd.capacity_lt
  rw [entryMatches, mtdGetPartitionStartByName, mtdGetPartitionSizeByName, h, Bool.and_eq_true, beq_iff_eq,
    beq_iff_eq, ofInt_natCast_iff (by omega), ofInt_natCast_iff (by omega)]

theorem entryMatches_none {name : List Char} (h : mtdGetDevInfoByMtdstr mtd name = none) :
    entryMatches mtd name info = true ↔ info.offset.toNat = 2 ^ 64 - 1 ∧ info.size.toNat = 2 ^ 64 - 1 := by
  have hfail : UInt64.ofInt (-1) = UInt64.ofInt ((2 ^ 64 - 1 : ℕ) : ℤ) := by decide
  rw [entryMatches, mtdGetPartitionStartByName, mtdGetPartitionSizeByName, h, Bool.and_eq_true, beq_iff_eq, beq_iff_eq]
  dsimp only
  rw [hfail, ofInt_natCast_iff (by norm_num), ofInt_natCast_iff (by norm_num)]

theorem passes_of_name {name : List Char} (h : blkname info = some name) :
    Passes mtd info ↔ entryMatches mtd name info = true := by
  constructor
  · rintro ⟨name', hn, hm⟩
    rw [h] at hn
    cases hn
    exact hm
  · exact fun hm => ⟨_, h, hm⟩

theorem start_devCnt : mtd.start mtd.devCnt = mtd.sizes.sum := by rw [MtdInfo.start, MtdInfo.devCnt, List.take_length]

theorem size_devCnt : mtd.size mtd.devCnt = 0 := by simp [MtdInfo.size, MtdInfo.devCnt]

theorem passes_iff : Passes mtd info ↔ Listed mtd info ∨ Stray mtd info := by
  constructor
  · intro hp
    cases hscan : scanBlknum info.blockName.toList with
    | overflow =>
      obtain ⟨name, hname, -⟩ := hp
      simp [blkname, hscan] at hname
    | unassigned =>
      have hname : blkname info = some ("mtd".toList ++ intDecimal (0 : ℕ)) := by simp [blkname, hscan]
      have hlookup : mtdGetDevInfoByMtdstr mtd ("mtd".toList ++ intDecimal (0 : ℕ)) = some 0 := by
        rw [lookup_small (by norm_num), if_neg (by omega)]
      rw [passes_of_name hname, entryMatches_some hlookup] at hp
      exact .inr (.unnumbered hscan hp.1 hp.2)
    | number n =>
      have hnumber : blockNumber info = some n := by rw [blockNumber, hscan]
      obtain ⟨name, hname, hm⟩ := id hp
      have hshort : ("mtd".toList ++ intDecimal n).length < 8 := by
        by_contra hlong
        simp only [blkname, hscan] at hname
        rw [if_neg hlong] at hname
        cases hname
      rw [passes_of_name (blkname_number hnumber hshort)] at hp
      by_cases hrange : n < 0 ∨ 10 ≤ n ∨ mtd.devCnt < n
      · rw [entryMatches_none (lookup_none hrange)] at hp
        have hprefix : "mtd".toList.length = 3 := rfl
        rw [List.length_append] at hshort
        exact .inr (.unknown n hnumber hrange (by omega) hp.1 hp.2)
      · obtain ⟨i, rfl⟩ : ∃ i : ℕ, n = i := ⟨n.toNat, by omega⟩
        have hlookup : mtdGetDevInfoByMtdstr mtd ("mtd".toList ++ intDecimal i) = some i := by
          rw [lookup_small (by omega), if_neg (by omega)]
        rw [entryMatches_some hlookup] at hp
        by_cases hlast : i = mtd.devCnt
        · subst hlast
          rw [start_devCnt, size_devCnt] at hp
          exact .inr (.beyond hnumber (by omega) hp.1 hp.2)
        · exact .inl ⟨i, by omega, by omega, hnumber, hp.1, hp.2⟩
  · have hsmall : ∀ i : ℕ, i < 10 → i ≤ mtd.devCnt → blockNumber info = some (i : ℤ) →
        info.offset.toNat = mtd.start i → info.size.toNat = mtd.size i → Passes mtd info := by
      intro i hi hcnt hnumber hoffset hsize
      have hlen : ("mtd".toList ++ intDecimal i).length = 4 := by
        rw [intDecimal_natCast, decimal, Nat.toDigits_of_lt_base hi]
        rfl
      rw [passes_of_name (blkname_number hnumber (by omega))]
      have hlookup : mtdGetDevInfoByMtdstr mtd ("mtd".toList ++ intDecimal i) = some i := by
        rw [lookup_small hi, if_neg (by omega)]
      exact (entryMatches_some hlookup).mpr ⟨hoffset, hsize⟩
    rintro (⟨i, hi, hten, hdesc⟩ | hstray)
    · exact hsmall i hten hi.le hdesc.number hdesc.offset hdesc.size
    · cases hstray with
      | unnumbered hscan hoffset hsize =>
        have hname : blkname info = some ("mtd".toList ++ intDecimal (0 : ℕ)) := by simp [blkname, hscan]
        have hlookup : mtdGetDevInfoByMtdstr mtd ("mtd".toList ++ intDecimal (0 : ℕ)) = some 0 := by
          rw [lookup_small (by norm_num), if_neg (by omega)]
        rw [passes_of_name hname, entryMatches_some hlookup]
        exact ⟨hoffset, hsize⟩
      | beyond hnumber hten hoffset hsize =>
        exact hsmall mtd.devCnt hten le_rfl hnumber (by rw [start_devCnt, hoffset]) (by rw [size_devCnt, hsize])
      | unknown n hnumber hrange hshort hoffset hsize =>
        have hprefix : "mtd".toList.length = 3 := rfl
        rw [passes_of_name (blkname_number hnumber (by rw [List.length_append]; omega)),
          entryMatches_none (lookup_none hrange)]
        exact ⟨hoffset, hsize⟩

theorem Describes.not_stray (h : Describes mtd info i) (hi : i < mtd.devCnt) : ¬Stray mtd info := by
  have hnumber := h.number
  rintro (⟨hscan, -, -⟩ | ⟨hlast, -, -, -⟩ | ⟨n, hn, -, -, hoffset, -⟩)
  · simp [blockNumber, hscan] at hnumber
  · rw [hnumber] at hlast
    have := Option.some.inj hlast
    omega
  · have hstart := (mtd.start_le i).trans_lt mtd.capacity_lt
    rw [h.offset] at hoffset
    omega

theorem describes_mem {is : List ℕ} (hperm : is.Perm (List.range mtd.devCnt))
    (hall : List.Forall₂ (Describes mtd) infos is) :
    (infos.map blockNumber).Nodup ∧ ∀ info ∈ infos, ∃ i < mtd.devCnt, Describes mtd info i := by
  have hmap : infos.map blockNumber = is.map (fun i : ℕ => some (i : ℤ)) := by
    clear hperm
    induction hall with
    | nil => rfl
    | cons h _ ih => rw [List.map_cons, List.map_cons, h.number, ih]
  constructor
  · rw [hmap]
    refine List.Nodup.map ?_ (hperm.nodup_iff.mpr List.nodup_range)
    intro a b hab
    exact Int.natCast_inj.mp (Option.some.inj hab)
  · intro info hinfo
    obtain ⟨k, hk, rfl⟩ := List.mem_iff_getElem.mp hinfo
    have hk' : k < is.length := hall.length_eq ▸ hk
    have hmem : is[k] ∈ List.range mtd.devCnt := hperm.subset (List.getElem_mem hk')
    exact ⟨is[k], List.mem_range.mp hmem, (List.forall₂_iff_get.mp hall).2 k hk hk'⟩

theorem oneToOne_of_listed (hcount : UInt32.ofNat infos.length = UInt32.ofNat mtd.devCnt)
    (hnodup : (infos.map blockNumber).Nodup) (hall : ∀ info ∈ infos, ∃ i < mtd.devCnt, Describes mtd info i) :
    OneToOne mtd infos := by
  have hchoose : ∃ is : List ℕ, List.Forall₂ (Describes mtd) infos is ∧ ∀ i ∈ is, i < mtd.devCnt := by
    clear hcount hnodup
    induction infos with
    | nil => exact ⟨[], .nil, by simp⟩
    | cons info infos ih =>
      obtain ⟨i, hi, hdesc⟩ := hall info (by simp)
      obtain ⟨is, his, hlt⟩ := ih (fun info hinfo => hall info (by simp [hinfo]))
      exact ⟨i :: is, .cons hdesc his, by simpa [hi] using hlt⟩
  obtain ⟨is, his, hlt⟩ := hchoose
  have hmap : infos.map blockNumber = is.map (fun i : ℕ => some (i : ℤ)) := by
    clear hcount hnodup hall hlt
    induction his with
    | nil => rfl
    | cons h _ ih => rw [List.map_cons, List.map_cons, h.number, ih]
  rw [hmap] at hnodup
  have hsub : is ⊆ List.range mtd.devCnt := fun i hi => List.mem_range.mpr (hlt i hi)
  have hsubperm := List.subperm_of_subset hnodup.of_map hsub
  have hle := hsubperm.length_le
  have hlen := his.length_eq
  have hcnt : mtd.devCnt < 2 ^ 31 := mtd.devCnt_lt
  rw [List.length_range] at hle
  have hmod := congrArg UInt32.toNat hcount
  rw [UInt32.toNat_ofNat', UInt32.toNat_ofNat'] at hmod
  exact ⟨is, hsubperm.perm_of_length_le (by rw [List.length_range]; omega), his⟩

theorem TrueEntry.describes (h : TrueEntry mtd info i) (hi : i < 2 ^ 31) : Describes mtd info i := by
  refine ⟨?_, h.offset, h.size⟩
  have hdrop : ("mtdblock".toList ++ decimal i).dropPrefix? "mtdblock".toList = some (decimal i) := by
    simpa using List.dropPrefix?_append_of_beq (decimal i) (BEq.rfl : ("mtdblock".toList == "mtdblock".toList) = true)
  obtain ⟨d, cs, heq, hd, -⟩ := toDigits_head (by norm_num : 1 < 10) (by norm_num) i
  have hread := readDigits_toDigits (by norm_num : 1 < 10) (by norm_num) i
  rw [heq, readDigits, digitIn_digitChar hd (by norm_num)] at hread
  simp only [Nat.zero_mul, Nat.zero_add] at hread
  have hsign := readSign_decimal i
  have hscan : scanBlknum info.blockName.toList = .number i := by
    rw [h.blockName, scanBlknum, hdrop]
    dsimp only
    rw [hsign, decimal, heq]
    dsimp only
    rw [digitIn_digitChar hd (by norm_num)]
    dsimp only
    rw [hread]
    simp only [Bool.false_eq_true, if_false]
    rw [if_pos ⟨by omega, by omega⟩]
  rw [blockNumber, hscan]

theorem TrueTable.describes (h : TrueTable mtd infos) :
    ∃ is : List ℕ, is.Perm (List.range mtd.devCnt) ∧ List.Forall₂ (Describes mtd) infos is := by
  obtain ⟨is, hperm, hall⟩ := h
  refine ⟨is, hperm, ?_⟩
  have hlt : ∀ i ∈ is, i < 2 ^ 31 := fun i hi =>
    (List.mem_range.mp (hperm.subset hi)).trans mtd.devCnt_lt
  clear hperm
  induction hall with
  | nil => exact .nil
  | cons h _ ih => exact .cons (h.describes (hlt _ (by simp))) (ih fun i hi => hlt i (by simp [hi]))

theorem accepted_of_listed (htype : device.type = "nand" ∨ device.type = "nor")
    (hcount : device.partCount = UInt32.ofNat mtd.devCnt) (h : ∀ info ∈ device.list, Listed mtd info) :
    checkDeviceInfo mtd device = some 0 :=
  (checkDeviceInfo_iff htype).mpr ⟨hcount, fun info hinfo => passes_iff.mpr (.inl (h info hinfo))⟩

section Verdict

variable {bits : ℕ} {tree : Option Nodes} {type : String}

/-- The check tells the device's tables from others except for confused tables and for more than ten partitions. -/
theorem checked_iff (hparsed : parseDeviceXml bits tree ⟨type, 0, 0, []⟩ = some (true, device))
    (htype : type = "nand" ∨ type = "nor") :
    Checked mtd device ↔ ¬Confused mtd device ∧ ¬TooMany mtd device := by
  obtain ⟨rfl, hcount⟩ := parseDeviceXml_count hparsed
  constructor
  · intro h
    constructor
    · intro hconfused
      have haccepted := (checkDeviceInfo_iff htype).mpr
        ⟨hconfused.count, fun info hinfo => passes_iff.mpr (hconfused.entries info hinfo)⟩
      obtain ⟨is, hperm, hall⟩ := h.1 haccepted
      obtain ⟨hnodup, hdesc⟩ := describes_mem hperm hall
      rcases hconfused.wrong with ⟨info, hinfo, hstray⟩ | hrepeated
      · obtain ⟨i, hi, hi'⟩ := hdesc info hinfo
        exact hi'.not_stray hi hstray
      · exact hrepeated hnodup
    · intro hmany
      have haccepted := h.2 hmany.table
      obtain ⟨is, hperm, hall⟩ := hmany.table.describes
      have hmem : 10 ∈ is := hperm.mem_iff.mpr (List.mem_range.mpr hmany.many)
      obtain ⟨k, hk, hten⟩ := List.mem_iff_getElem.mp hmem
      have hk' : k < device.list.length := hall.length_eq ▸ hk
      have hdesc := (List.forall₂_iff_get.mp hall).2 k hk' hk
      have hpasses := ((checkDeviceInfo_iff htype).mp haccepted).2 _ (List.getElem_mem hk')
      rw [List.get_eq_getElem, List.get_eq_getElem, hten] at hdesc
      rcases passes_iff.mp hpasses with ⟨i, -, hi, hother⟩ | hstray
      · have := hdesc.number.symm.trans hother.number
        have := Option.some.inj this
        omega
      · exact hdesc.not_stray hmany.many hstray
  · rintro ⟨hconfused, hmany⟩
    constructor
    · intro haccepted
      obtain ⟨hcnt, hpasses⟩ := (checkDeviceInfo_iff htype).mp haccepted
      have hentries : ∀ info ∈ device.list, Listed mtd info ∨ Stray mtd info :=
        fun info hinfo => passes_iff.mp (hpasses info hinfo)
      have hwrong : ¬((∃ info ∈ device.list, Stray mtd info) ∨ ¬(device.list.map blockNumber).Nodup) :=
        fun hwrong => hconfused ⟨hcnt, hentries, hwrong⟩
      rw [not_or, not_exists, not_not] at hwrong
      apply oneToOne_of_listed (hcount.symm.trans hcnt) hwrong.2
      intro info hinfo
      obtain ⟨i, hi, -, hdesc⟩ := (hentries info hinfo).resolve_right fun hs => hwrong.1 info ⟨hinfo, hs⟩
      exact ⟨i, hi, hdesc⟩
    · intro htable
      have hten : mtd.devCnt ≤ 10 := by
        by_contra hlarge
        exact hmany ⟨htable, by omega⟩
      obtain ⟨is, hperm, hall⟩ := htable.describes
      obtain ⟨-, hdesc⟩ := describes_mem hperm hall
      have hlen : device.list.length = mtd.devCnt := by
        rw [hall.length_eq, hperm.length_eq, List.length_range]
      apply accepted_of_listed htype (by rw [hcount, hlen])
      intro info hinfo
      obtain ⟨i, hi, hi'⟩ := hdesc info hinfo
      exact ⟨i, hi, by omega, hi'⟩

end Verdict

def smallMtd : MtdInfo := ⟨[512, 512], by decide, by decide⟩

theorem checked_iff_small : Checked smallMtd (ManifestRoundTrip.recoveredDevice ManifestRoundTrip.smallDevice) ↔
    ¬Confused smallMtd (ManifestRoundTrip.recoveredDevice ManifestRoundTrip.smallDevice) ∧
      ¬TooMany smallMtd (ManifestRoundTrip.recoveredDevice ManifestRoundTrip.smallDevice) :=
  checked_iff
    (ManifestRoundTrip.parse_device (.inl rfl) (ManifestRoundTrip.smallImage_carried (by decide : 0 < 2 ^ 32)))
    (.inl rfl)

def twiceBoot : Packager.Device := ⟨"nand", 1024, [⟨"boot", 0, 512, "mtdblock0"⟩, ⟨"root", 0, 512, "mtdblock0"⟩]⟩

theorem twiceBoot_accepted :
    (Mxml.loadFile 32 twiceBoot.generate).bind
      (fun tree => parseDeviceXml 32 (some tree) ⟨"nand", 0, 0, []⟩) =
        some (true, ManifestRoundTrip.recoveredDevice twiceBoot) ∧
    checkDeviceInfo smallMtd (ManifestRoundTrip.recoveredDevice twiceBoot) = some 0 ∧
    ¬Checked smallMtd (ManifestRoundTrip.recoveredDevice twiceBoot) := by
  have haccepted : checkDeviceInfo smallMtd (ManifestRoundTrip.recoveredDevice twiceBoot) = some 0 := by decide
  refine ⟨by decide, haccepted, fun h => ?_⟩
  obtain ⟨is, hperm, hall⟩ := h.1 haccepted
  have hnodup := (describes_mem hperm hall).1
  revert hnodup
  decide

end LinuxRecovery.DeviceCheck
