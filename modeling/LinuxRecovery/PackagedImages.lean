import LinuxRecovery.ImageAttachment
import LinuxRecovery.ManifestRoundTrip

namespace LinuxRecovery.PackagedImages

open NumberText Mxml UpdateFile ManifestRead Packager

def held (n : ℤ) : ℕ := min n.toNat (2 ^ 64 - 1)

structure HoldsImage (bits : ℕ) (p : Imageinfo) (image : UpdateImage) : Prop where
  name : image.name = stored p.name p.type
  fits : p.name.utf8ByteSize ≤ nameMax
  typed : p.type ≠ ""
  offset : image.offset.toNat = held p.offset
  size : image.size.toNat = held p.size
  chunksize : bits = 32 ∨ bits = 64 → image.chunksize =
    if p.updatemode.type = .slice then ManifestRoundTrip.integerRead bits p.updatemode.size else 0
  chunkcount : bits = 32 ∨ bits = 64 → image.chunkcount =
    if p.updatemode.type = .slice then ManifestRoundTrip.integerRead bits p.updatemode.count else 1

def HoldsItem (p : Partition) (item : PartItem) : Prop :=
  item.offset.toNat = held p.offset ∧ item.size.toNat = held p.size

/-- The client's check of an image against a partition, sums taken modulo `2 ^ 64`. -/
def FitsHeld (part : Partition) (p : Imageinfo) : Prop :=
  held part.offset ≤ held p.offset ∧ held p.offset < (held part.offset + held part.size) % 2 ^ 64 ∧
    (held p.offset + held p.size) % 2 ^ 64 ≤ (held part.offset + held part.size) % 2 ^ 64

instance (part : Partition) (p : Imageinfo) : Decidable (FitsHeld part p) :=
  inferInstanceAs (Decidable (_ ∧ _ ∧ _))

section Read

variable {bits : ℕ} {parentChild : Nodes}

theorem toNat_held (n : ℤ) : (UInt64.ofNat (min n.toNat (2 ^ 64 - 1))).toNat = held n := by
  rw [UInt64.toNat_ofNat', held]
  omega

theorem bind_ok {ε α β : Type} {x : Except ε α} {f : α → Except ε β} {b : β} (h : x >>= f = .ok b) :
    ∃ a, x = .ok a ∧ f a = .ok b := by
  cases x with
  | error e => cases h
  | ok a => exact ⟨a, rfl, h⟩

theorem stringValue_ok {s t tag : String} {attrs : List (String × String)}
    (h : stringValue ⟨.element tag attrs, ManifestRoundTrip.opaqueBelow s, parentChild⟩ = .ok t) :
    t = s ∧ s ≠ "" ∧ s.utf8ByteSize ≤ nameMax := by
  by_cases hs : s = ""
  · rw [ManifestRoundTrip.opaqueBelow, if_pos hs] at h
    cases h
  · rw [ManifestRoundTrip.opaqueBelow, if_neg hs] at h
    unfold stringValue at h
    dsimp only [getOpaque, getText, firstChild, Option.some_or] at h
    split_ifs at h with hsize
    exact ⟨(Except.ok.inj h).symm, hs, hsize⟩

theorem HoldsImage.name_eq_iff {p : Imageinfo} {image : UpdateImage} (h : HoldsImage bits p image) :
    image.name = p.name ↔ p.name.utf8ByteSize < nameMax := by
  rw [h.name, stored_eq_iff]
  have hfits := h.fits
  constructor
  · intro hfull
    by_contra hlong
    exact h.typed (hfull (by omega))
  · intro hshort hfull
    omega

theorem parseImage_holds {p : Imageinfo} {image : UpdateImage}
    (h : parseImage ⟨.element "image" [], ManifestRoundTrip.imageChild bits p, parentChild⟩ = .ok image) :
    HoldsImage bits p image := by
  obtain ⟨hname, hfs, hoffset, hsize, hmode⟩ := ManifestRoundTrip.image_nodes bits p
  unfold parseImage at h
  obtain ⟨nameNode, hnode, h⟩ := bind_ok h
  rw [hname] at hnode
  cases hnode
  obtain ⟨name, hvalue, h⟩ := bind_ok h
  obtain ⟨rfl, -, hfits⟩ := stringValue_ok hvalue
  obtain ⟨typeNode, hnode, h⟩ := bind_ok h
  rw [hfs] at hnode
  cases hnode
  obtain ⟨fsType, hvalue, h⟩ := bind_ok h
  obtain ⟨rfl, htyped, -⟩ := stringValue_ok hvalue
  obtain ⟨offsetNode, hnode, h⟩ := bind_ok h
  rw [hoffset] at hnode
  cases hnode
  obtain ⟨offset, hvalue, h⟩ := bind_ok h
  rw [ManifestRoundTrip.numberValue_text (scan_hexadecimal _)] at hvalue
  cases hvalue
  obtain ⟨sizeNode, hnode, h⟩ := bind_ok h
  rw [hsize] at hnode
  cases hnode
  obtain ⟨size, hvalue, h⟩ := bind_ok h
  rw [ManifestRoundTrip.numberValue_text (scan_decimal _)] at hvalue
  cases hvalue
  obtain ⟨modeNode, hnode, h⟩ := bind_ok h
  rw [hmode] at hnode
  cases hnode
  obtain ⟨typeNode, hnode, h⟩ := bind_ok h
  obtain rfl := Except.ok.inj ((ManifestRoundTrip.mode_node bits p.updatemode).symm.trans hnode)
  obtain ⟨mode, hvalue, h⟩ := bind_ok h
  rw [ManifestRoundTrip.integerValue_integer] at hvalue
  obtain rfl := Except.ok.inj hvalue
  split_ifs at h with hcode
  · obtain ⟨sizeNode, hnode, h⟩ := bind_ok h
    rw [ManifestRoundTrip.holding_parentChild] at hnode
    cases htype : p.updatemode.type with
    | full =>
      rw [ManifestRoundTrip.full_nodes bits htype] at hnode
      cases hnode
    | slice =>
      obtain ⟨hchunk, hcount⟩ := ManifestRoundTrip.slice_nodes bits htype
      obtain rfl := Except.ok.inj (hchunk.symm.trans hnode)
      obtain ⟨chunksize, hvalue, h⟩ := bind_ok h
      rw [ManifestRoundTrip.integerValue_integer] at hvalue
      obtain rfl := Except.ok.inj hvalue
      obtain ⟨countNode, hnode, h⟩ := bind_ok h
      rw [ManifestRoundTrip.holding_parentChild] at hnode
      obtain rfl := Except.ok.inj (hcount.symm.trans hnode)
      obtain ⟨chunkcount, hvalue, h⟩ := bind_ok h
      rw [ManifestRoundTrip.integerValue_integer] at hvalue
      obtain rfl := Except.ok.inj hvalue
      cases h
      exact ⟨rfl, hfits, htyped, toNat_held p.offset, toNat_held p.size, fun _ => (if_pos htype).symm,
        fun _ => (if_pos htype).symm⟩
  · cases h
    have hfull (hbits : bits = 32 ∨ bits = 64) : p.updatemode.type ≠ .slice := by
      intro htype
      rw [ManifestRoundTrip.integerRead_code hbits, htype] at hcode
      exact hcode rfl
    exact ⟨rfl, hfits, htyped, toNat_held p.offset, toNat_held p.size, fun hbits => (if_neg (hfull hbits)).symm,
      fun hbits => (if_neg (hfull hbits)).symm⟩

theorem parseItem_holds {p : Partition} {item : PartItem}
    (h : parseItem ⟨.element "item" [], ManifestRoundTrip.itemChild p, parentChild⟩ = .ok item) :
    HoldsItem p item := by
  obtain ⟨-, hoffset, hsize, -⟩ := ManifestRoundTrip.item_nodes p
  unfold parseItem at h
  obtain ⟨_, -, h⟩ := bind_ok h
  obtain ⟨name, -, h⟩ := bind_ok h
  obtain ⟨offsetNode, hnode, h⟩ := bind_ok h
  rw [hoffset] at hnode
  cases hnode
  obtain ⟨offset, hvalue, h⟩ := bind_ok h
  rw [ManifestRoundTrip.numberValue_text (scan_hexadecimal _)] at hvalue
  cases hvalue
  obtain ⟨sizeNode, hnode, h⟩ := bind_ok h
  rw [hsize] at hnode
  cases hnode
  obtain ⟨size, hvalue, h⟩ := bind_ok h
  rw [ManifestRoundTrip.numberValue_text (scan_hexadecimal _)] at hvalue
  cases hvalue
  obtain ⟨_, -, h⟩ := bind_ok h
  obtain ⟨blockName, -, h⟩ := bind_ok h
  cases h
  exact ⟨toNat_held p.offset, toNat_held p.size⟩

theorem parseItems_some {α β : Type} {parse : Found → Parse α} {f : β → Found} {xs : List β} {items : List α}
    (h : parseItems parse (xs.map f) = some items) :
    items.length ≤ xs.length ∧ List.Forall₂ (fun x item => parse (f x) = .ok item) (xs.take items.length) items := by
  induction xs generalizing items with
  | nil =>
    cases h
    exact ⟨le_rfl, .nil⟩
  | cons x xs ih =>
    rw [List.map_cons, parseItems] at h
    split at h
    · obtain ⟨rest, hrest, rfl⟩ := Option.map_eq_some_iff.mp h
      obtain ⟨hle, hall⟩ := ih hrest
      exact ⟨by simpa using hle, .cons (by assumption) hall⟩
    · cases h
      exact ⟨Nat.zero_le _, .nil⟩
    · cases h

variable {devtype : String} {image : Image} {device : Device} {update : UpdateInfo} {info : DeviceManifest}

theorem update_holds
    (h : parseUpdateXml bits (loadFile bits (image.generate devtype)) ⟨devtype, 0, 0, []⟩ = some (true, update)) :
    update.list.length ≤ image.imageinfo.length ∧
      List.Forall₂ (HoldsImage bits) (image.imageinfo.take update.list.length) update.list := by
  rw [ManifestRoundTrip.parseUpdateXml_generate bits image ⟨devtype, 0, 0, []⟩] at h
  obtain ⟨images, himages, h⟩ := Option.map_eq_some_iff.mp h
  dsimp only at h
  split_ifs at h
  · cases h
  · cases h
    obtain ⟨hle, hall⟩ := parseItems_some himages
    exact ⟨hle, hall.imp fun p image hp => parseImage_holds hp⟩

theorem device_holds (hjudge : device.judge = true)
    (h : parseDeviceXml bits (loadFile bits device.generate) ⟨device.devtype, 0, 0, []⟩ = some (true, info)) :
    info.list.length ≤ device.partition.length ∧
      List.Forall₂ HoldsItem (device.partition.take info.list.length) info.list := by
  rw [ManifestRoundTrip.parseDeviceXml_generate bits hjudge ⟨device.devtype, 0, 0, []⟩ rfl] at h
  obtain ⟨items, hitems, h⟩ := Option.map_eq_some_iff.mp h
  dsimp only at h
  split_ifs at h
  · cases h
  · cases h
    obtain ⟨hle, hall⟩ := parseItems_some hitems
    exact ⟨hle, hall.imp fun p item hp => parseItem_holds hp⟩

end Read

theorem judgePartitions_pairwise {total : ℤ} {ps : List Partition} (h : judgePartitions total ps = true) :
    ps.Pairwise (fun p q => 0 ≤ p.offset ∧ 0 < p.size ∧ p.offset + p.size ≤ q.offset) := by
  induction ps with
  | nil => exact .nil
  | cons p ps ih =>
    cases ps with
    | nil => exact List.pairwise_singleton _ _
    | cons q ps =>
      simp only [judgePartitions, Partition.fits, Partition.judge, Bool.and_eq_true, decide_eq_true_eq] at h
      obtain ⟨⟨⟨⟨⟨⟨hp0, hp⟩, -⟩, -⟩, -⟩, hq0, hq⟩, hpq⟩ := h.1
      have hrest := ih h.2
      refine .cons (fun r hr => ⟨hp0, hp, ?_⟩) hrest
      rcases List.mem_cons.mp hr with rfl | hr
      · exact hpq
      · have := ((List.pairwise_cons.mp hrest).1 r hr).2.2
        omega

theorem judgeImages_pairwise {ps : List Imageinfo} (h : judgeImages ps = true) :
    ps.Pairwise (fun p q : Imageinfo => 0 ≤ p.offset ∧ p.offset + p.size ≤ q.offset) := by
  induction ps with
  | nil => exact .nil
  | cons p ps ih =>
    cases ps with
    | nil => exact List.pairwise_singleton _ _
    | cons q ps =>
      simp only [judgeImages, Imageinfo.judge, Bool.and_eq_true, decide_eq_true_eq] at h
      obtain ⟨⟨⟨-, hp0⟩, -⟩, hpq⟩ := h.1
      have hrest := ih h.2
      refine .cons (fun r hr => ⟨hp0, ?_⟩) hrest
      rcases List.mem_cons.mp hr with rfl | hr
      · exact hpq
      · have := ((List.pairwise_cons.mp hrest).1 r hr).2
        omega

theorem pairwise_forall₂ {α β : Type} {T : α → β → Prop} {R : α → α → Prop} {S : β → β → Prop} {xs : List α}
    {ys : List β} (h : List.Forall₂ T xs ys) (hR : xs.Pairwise R)
    (himp : ∀ a a' b b', T a b → T a' b' → R a a' → S b b') : ys.Pairwise S := by
  induction h with
  | nil => exact .nil
  | cons hab hall ih =>
    obtain ⟨hhead, htail⟩ := List.pairwise_cons.mp hR
    refine .cons (fun b' hb' => ?_) (ih htail)
    obtain ⟨k, hk, rfl⟩ := List.mem_iff_getElem.mp hb'
    have hk' := hall.length_eq ▸ hk
    exact himp _ _ _ _ hab ((List.forall₂_iff_get.mp hall).2 k hk' hk) (hhead _ (List.getElem_mem hk'))

theorem fits_iff {bits : ℕ} {part : Partition} {item : PartItem} {p : Imageinfo} {image : UpdateImage}
    (hitem : HoldsItem part item) (himage : HoldsImage bits p image) :
    MergeImages.Fits item image.toImageInfo ↔ FitsHeld part p := by
  rw [MergeImages.Fits, MergeImages.rightBoundary, UInt64.le_iff_toNat_le, UInt64.lt_iff_toNat_lt,
    UInt64.le_iff_toNat_le, UInt64.toNat_add, UInt64.toNat_add, hitem.1, hitem.2, himage.offset, himage.size, FitsHeld]

section Merge

variable {bits : ℕ} {devtype : String} {image : Image} {device : Device} {update : UpdateInfo} {info : DeviceManifest}

theorem successive (hjudge : device.judge = true)
    (h : List.Forall₂ HoldsItem (device.partition.take info.list.length) info.list) :
    ImageAttachment.Successive info.list := by
  simp only [Device.judge, Bool.and_eq_true] at hjudge
  have hpairwise := (judgePartitions_pairwise hjudge.2).sublist (List.take_sublist info.list.length device.partition)
  refine pairwise_forall₂ h hpairwise ?_
  intro p q item item' hp hq hpq
  obtain ⟨h1, h2, h3⟩ := hpq
  rw [MergeImages.PartItem.stop, hp.1, hp.2, hq.1]
  unfold held
  omega

theorem ascending (hjudge : image.judge = true)
    (h : List.Forall₂ (HoldsImage bits) (image.imageinfo.take update.list.length) update.list) :
    (update.list.map UpdateImage.toImageInfo).Pairwise (fun a b => a.offset.toNat ≤ b.offset.toNat) := by
  simp only [Image.judge, Bool.and_eq_true] at hjudge
  have hpairwise := (judgeImages_pairwise hjudge.2).sublist (List.take_sublist update.list.length image.imageinfo)
  rw [List.pairwise_map]
  refine pairwise_forall₂ h hpairwise ?_
  intro p q a b hp hq hpq
  obtain ⟨h1, h2⟩ := hpq
  rw [hp.offset, hq.offset]
  unfold held
  omega

/-- Accepted images are attached exactly if all are read and each passes the client's check, too. -/
theorem packaged_attaches_iff (hdevice : device.judge = true) (himage : image.judge = true)
    (hupdate : parseUpdateXml bits (loadFile bits (image.generate devtype)) ⟨devtype, 0, 0, []⟩ = some (true, update))
    (hinfo : parseDeviceXml bits (loadFile bits device.generate) ⟨device.devtype, 0, 0, []⟩ = some (true, info)) :
    ImageAttachment.Attaches info.list (update.list.map UpdateImage.toImageInfo) image.imageinfo.length ↔
      update.list.length = image.imageinfo.length ∧
        ∀ p ∈ image.imageinfo, ∃ part ∈ device.partition.take info.list.length, FitsHeld part p := by
  obtain ⟨hle, himages⟩ := update_holds hupdate
  obtain ⟨-, hitems⟩ := device_holds hdevice hinfo
  rw [ImageAttachment.attaches_iff_fits (successive hdevice hitems) (ascending himage himages) (by simpa using hle),
    List.length_map]
  refine and_congr_right fun hlen => ?_
  rw [hlen, List.take_length] at himages
  have hpart (p : Imageinfo) (a : UpdateImage) (hp : HoldsImage bits p a) :
      (∃ item ∈ info.list, MergeImages.Fits item a.toImageInfo) ↔
        ∃ part ∈ device.partition.take info.list.length, FitsHeld part p := by
    constructor
    · rintro ⟨item, hitem, hfit⟩
      obtain ⟨k, hk, rfl⟩ := List.mem_iff_getElem.mp hitem
      have hk' := hitems.length_eq.symm ▸ hk
      exact ⟨_, List.getElem_mem hk', (fits_iff ((List.forall₂_iff_get.mp hitems).2 k hk' hk) hp).mp hfit⟩
    · rintro ⟨part, hmem, hfit⟩
      obtain ⟨k, hk, rfl⟩ := List.mem_iff_getElem.mp hmem
      have hk' := hitems.length_eq ▸ hk
      exact ⟨_, List.getElem_mem hk', (fits_iff ((List.forall₂_iff_get.mp hitems).2 k hk hk') hp).mpr hfit⟩
  clear hupdate hle hlen
  rw [List.forall_mem_map]
  generalize image.imageinfo = ps at himages ⊢
  generalize update.list = images at himages ⊢
  induction himages with
  | nil => simp
  | cons hp _ ih =>
    rw [List.forall_mem_cons, List.forall_mem_cons]
    exact and_congr (hpart _ _ hp) ih

theorem isMmapedIn_iff {part : Partition} {start : ℤ} :
    part.isMmapedIn start = true ↔ part.offset ≤ start ∧ start < part.size + part.offset := by
  simp [Partition.isMmapedIn]

theorem mapped_unique (hjudge : device.judge = true) {part other : Partition} {start : ℤ}
    (hpart : part ∈ device.partition) (hother : other ∈ device.partition) (h : part.isMmapedIn start = true)
    (h' : other.isMmapedIn start = true) : part = other := by
  simp only [Device.judge, Bool.and_eq_true] at hjudge
  have hpairwise := List.pairwise_iff_getElem.mp (judgePartitions_pairwise hjudge.2)
  rw [isMmapedIn_iff] at h h'
  obtain ⟨j, hj, rfl⟩ := List.mem_iff_getElem.mp hpart
  obtain ⟨k, hk, rfl⟩ := List.mem_iff_getElem.mp hother
  rcases Nat.lt_trichotomy j k with hlt | rfl | hlt
  · have := hpairwise j k hj hk hlt
    omega
  · rfl
  · have := hpairwise k j hk hj hlt
    omega

theorem find_mapped (hjudge : device.judge = true) {part : Partition} {start : ℤ} (hpart : part ∈ device.partition)
    (hin : part.isMmapedIn start = true) : device.partition.find? (fun p => p.isMmapedIn start) = some part := by
  cases hf : device.partition.find? (fun p => p.isMmapedIn start) with
  | none => exact absurd hin (List.find?_eq_none.mp hf part hpart)
  | some q =>
    have hq : q.isMmapedIn start = true := by simpa using List.find?_some hf
    rw [mapped_unique hjudge (List.mem_of_find?_eq_some hf) hpart hq hin]

theorem judged_part (hjudge : device.judge = true) {part : Partition} (hpart : part ∈ device.partition) :
    0 ≤ part.offset ∧ 0 < part.size ∧ part.offset + part.size ≤ device.devsize := by
  simp only [Device.judge, Bool.and_eq_true] at hjudge
  have hfits := ManifestRoundTrip.mem_judgePartitions hjudge.2 part hpart
  simp only [Partition.fits, Partition.judge, Bool.and_eq_true, decide_eq_true_eq] at hfits
  exact ⟨hfits.1.1.1.1, hfits.1.1.1.2, hfits.2⟩

theorem reservedSize_nonneg (h : 0 ≤ device.devsize) : 0 ≤ device.getNandReservedSize := by
  simp only [Device.getNandReservedSize, nandflashBlockSize, nandflashPageSize, nandflashPagesPerBlock,
    ubiMtdUbiBebLimitPer1024]
  split_ifs <;> omega

theorem judged_end (hjudge : device.judge = true) {part : Partition} {start : ℤ} {size : ℕ} {ftype : String}
    (hpart : part ∈ device.partition) (hin : part.isMmapedIn start = true)
    (h : device.judgePartitionMapped start size ftype = true) :
    (ftype ≠ "yaffs2" → start + size ≤ part.offset + part.size) ∧
      start + size ≤ part.offset + part.size + part.size / 2 := by
  obtain ⟨h0, hpos, hend⟩ := judged_part hjudge hpart
  have hreserved : 0 ≤ device.getNandReservedSize := reservedSize_nonneg (by omega)
  rw [Device.judgePartitionMapped, find_mapped hjudge hpart hin] at h
  simp only [Option.some_or] at h
  have hroom : (if device.devtype = "nand" ∧ ftype = "ubifs" then
      part.getAvailableMappedContentSize ftype - device.getNandReservedSize
      else part.getAvailableMappedContentSize ftype) ≤ part.getAvailableMappedContentSize ftype := by
    split_ifs <;> omega
  have havail : start + size ≤ part.offset + part.getAvailableMappedContentSize ftype := by
    by_cases hzero : part.getAvailableMappedContentSize ftype ≤ 0
    · simp [hzero] at h
    · rw [if_neg hzero, decide_eq_true_eq] at h
      omega
  have hbound : (ftype ≠ "yaffs2" → part.getAvailableMappedContentSize ftype ≤ part.size) ∧
      part.getAvailableMappedContentSize ftype ≤ part.size + part.size / 2 := by
    simp only [Partition.getAvailableMappedContentSize, ubiLayoutVolumeEbs, ubiWlReservedPebs, ubiEbaReservedPebs,
      nandflashPageSize, nandflashPagesPerBlock, yaffs2TagsizePerPage]
    split_ifs <;> constructor <;> intros <;> first | omega | contradiction
  constructor
  · intro hne
    have := hbound.1 hne
    omega
  · omega

theorem packaged_attaches_iff_yaffs2 (hdevice : device.judge = true) (himage : image.judge = true)
    (hupdate : parseUpdateXml bits (loadFile bits (image.generate devtype)) ⟨devtype, 0, 0, []⟩ = some (true, update))
    (hinfo : parseDeviceXml bits (loadFile bits device.generate) ⟨device.devtype, 0, 0, []⟩ = some (true, info))
    (himages : update.list.length = image.imageinfo.length) (hparts : info.list.length = device.partition.length)
    (hmapped : judge device image = true)
    (hinside : ∀ p ∈ image.imageinfo, ∃ part ∈ device.partition, part.isMmapedIn p.offset = true)
    (hsize : device.devsize ≤ 2 ^ 63) :
    ImageAttachment.Attaches info.list (update.list.map UpdateImage.toImageInfo) image.imageinfo.length ↔
      ∀ p ∈ image.imageinfo, p.type = "yaffs2" → ∀ part ∈ device.partition, part.isMmapedIn p.offset = true →
        p.offset + p.size ≤ part.offset + part.size := by
  rw [packaged_attaches_iff hdevice himage hupdate hinfo, hparts, List.take_length, and_iff_right himages]
  have hend {p : Imageinfo} {part : Partition} (hp : p ∈ image.imageinfo) (hpart : part ∈ device.partition)
      (hin : part.isMmapedIn p.offset = true) := judged_end hdevice hpart hin (List.all_eq_true.mp hmapped p hp)
  constructor
  · intro hfits p hp _ part hpart hin
    obtain ⟨other, hother, hfit⟩ := hfits p hp
    obtain ⟨h0, hpos, hdev⟩ := judged_part hdevice hother
    obtain ⟨h1, h2, h3⟩ := hfit
    have hmapped' := isMmapedIn_iff.mp hin
    obtain ⟨h0', hpos', hdev'⟩ := judged_part hdevice hpart
    unfold held at h1 h2 h3
    have hother' : other.isMmapedIn p.offset = true := isMmapedIn_iff.mpr (by omega)
    obtain rfl := mapped_unique hdevice hpart hother hin hother'
    have hlimit := (hend hp hpart hin).2
    omega
  · intro hyaffs2 p hp
    obtain ⟨part, hpart, hin⟩ := hinside p hp
    obtain ⟨h0, hpos, hdev⟩ := judged_part hdevice hpart
    have hlast : p.offset + p.size ≤ part.offset + part.size := by
      by_cases htype : p.type = "yaffs2"
      · exact hyaffs2 p hp htype part hpart hin
      · exact (hend hp hpart hin).1 htype
    have hmapped' := isMmapedIn_iff.mp hin
    refine ⟨part, hpart, ?_⟩
    unfold FitsHeld held
    omega

def oneBlock : Device := ⟨"nand", 131072, [⟨"root", 0, 131072, "mtdblock0"⟩]⟩

def yaffs2Block : Image := ⟨"nand", 1, 1, [⟨"root.yaffs2", 132864, "yaffs2", 0, ⟨.full, 0, 0⟩⟩]⟩

theorem packaged_attaches_iff_yaffs2Block :
    ImageAttachment.Attaches (ManifestRoundTrip.recoveredDevice oneBlock).list
        ((ManifestRoundTrip.recoveredUpdate "nand" yaffs2Block).list.map UpdateImage.toImageInfo) 1 ↔
      (ManifestRoundTrip.recoveredUpdate "nand" yaffs2Block).list.length = 1 ∧
        ∀ p ∈ yaffs2Block.imageinfo, ∃ part ∈ oneBlock.partition.take
          (ManifestRoundTrip.recoveredDevice oneBlock).list.length, FitsHeld part p :=
  packaged_attaches_iff (by decide : oneBlock.judge = true) (by decide : yaffs2Block.judge = true)
    (by decide : parseUpdateXml 32 (loadFile 32 (yaffs2Block.generate "nand")) ⟨"nand", 0, 0, []⟩ =
      some (true, ManifestRoundTrip.recoveredUpdate "nand" yaffs2Block))
    (by decide : parseDeviceXml 32 (loadFile 32 oneBlock.generate) ⟨"nand", 0, 0, []⟩ =
      some (true, ManifestRoundTrip.recoveredDevice oneBlock))

theorem yaffs2Block_refused :
    oneBlock.judge = true ∧ yaffs2Block.judge = true ∧ judge oneBlock yaffs2Block = true ∧
      (∀ p ∈ yaffs2Block.imageinfo, ∃ part ∈ oneBlock.partition, part.isMmapedIn p.offset = true) ∧
      parseDeviceXml 32 (loadFile 32 oneBlock.generate) ⟨"nand", 0, 0, []⟩ =
        some (true, ManifestRoundTrip.recoveredDevice oneBlock) ∧
      parseUpdateXml 32 (loadFile 32 (yaffs2Block.generate "nand")) ⟨"nand", 0, 0, []⟩ =
        some (true, ManifestRoundTrip.recoveredUpdate "nand" yaffs2Block) ∧
      ¬ImageAttachment.Attaches (ManifestRoundTrip.recoveredDevice oneBlock).list
        ((ManifestRoundTrip.recoveredUpdate "nand" yaffs2Block).list.map UpdateImage.toImageInfo) 1 := by
  refine ⟨by decide, by decide, by decide, by decide, by decide, by decide, ?_⟩
  rintro ⟨st, hrun, -⟩
  cases hrun

end Merge

end LinuxRecovery.PackagedImages
