import LinuxRecovery.ProgressDivisor
import LinuxRecovery.VolumeImage

namespace LinuxRecovery.UbiImage

open Libmtd BlockMap BasicWrite BlockScan Ubigen UbiPrepare UbiPeb UbiVolume MtdBlock RequestLog PebWalks VolumeImage
open ProgressDivisor (fourPebs fourScanned)

variable {dev : Device} {mtd : MtdDevInfo} {crc32 : List UInt8 → ℕ} {vi : UbigenVolInfo} {st st' : UbiState} {a e : ℕ}

/-- A whole image from `a` on, with `data` as its volume on the PEBs `placed`. Every header names the image number of
`st.ubi.ui`. -/
structure ImageOn (crc32 : List UInt8 → ℕ) (mtd : MtdDevInfo) (vi : UbigenVolInfo) (data : List UInt8)
    (a p p' : ℕ) (placed rest : List ℕ) (st : UbiState) : Prop where
  pebs : goods st a mtd.ebCnt = p :: p' :: (placed ++ rest)
  first : Carries crc32 st.ubi.ui (layoutVi st.ubi.ui) 0 (layoutTable crc32 st) (pebBytes mtd st p)
  second : Carries crc32 st.ubi.ui (layoutVi st.ubi.ui) 1 (layoutTable crc32 st) (pebBytes mtd st p')
  count : placed.length * vi.usableLebSize = data.length
  lebs : ∀ i b, placed[i]? = some b → Carries crc32 st.ubi.ui vi i
    ((data.drop (i * vi.usableLebSize)).take vi.usableLebSize) (pebBytes mtd st b)
  blank : ∀ b ∈ rest, EcOnly crc32 mtd st.ubi.ui (pebBytes mtd st b)

def LayoutServed (dev : Device) (mtd : MtdDevInfo) (crc32 : List UInt8 → ℕ) (st : UbiState) : Prop :=
  ∃ log, Logged dev st.toChip
      (ubiWriteLayoutVol dev mtd crc32 st.ubi.startEb st.ubi.ec st.ubi.ec st.ubi.vtbl st).2.toChip log ∧
    ∀ answer ∈ log, answer.reply = none

section Prepare

theorem record_length {r : UbiVtblRecord} (h : r.name.length ≤ 128) :
    (UbiVtblRecord.bytes crc32 r).length = ubiVtblRecordSize := by
  simp only [UbiVtblRecord.bytes, sealed, List.length_append, be32_length, List.length_cons, List.length_nil,
    List.length_replicate, ubiVtblRecordSize]
  omega

theorem table_length {vtbl : List UbiVtblRecord} (h : ∀ r ∈ vtbl, r.name.length ≤ 128) :
    (vtbl.flatMap (UbiVtblRecord.bytes crc32)).length = vtbl.length * ubiVtblRecordSize := by
  induction vtbl with
  | nil => rw [List.flatMap_nil, List.length_nil, List.length_nil, Nat.zero_mul]
  | cons r vtbl ih =>
    rw [List.flatMap_cons, List.length_append, record_length (h r List.mem_cons_self),
      ih fun r hr => h r (List.mem_cons_of_mem _ hr), List.length_cons, Nat.succ_mul, Nat.add_comm]

theorem volumeParams_tabled {imageLength : ℕ} {params params' : UbiParams}
    (h : ubiVolumeParamsSet imageLength params = some params') :
    (params'.vtbl.flatMap (UbiVtblRecord.bytes crc32)).length = params'.ui.maxVolumes * ubiVtblRecordSize ∧
      params'.vidHdrLnum = params.vidHdrLnum ∧ ∀ vi, params'.vi = some vi → vi.id = 0 := by
  unfold ubiVolumeParamsSet ubiGenerateViInfo at h
  dsimp only at h
  split_ifs at h with hmax hname hleb hdvd
  rw [ubigenAddVolume, if_neg (by simpa using hmax), if_neg (by simpa using hleb)] at h
  cases h
  dsimp only
  refine ⟨?_, rfl, ?_⟩
  · rw [table_length]
    · rw [List.length_set, (VolumeSize.sizeVolume_frame params).2.2, ubigenCreateEmptyVtbl, List.length_replicate]
      rfl
    · intro r hr
      rcases List.mem_or_eq_of_mem_set hr with hr | rfl
      · rw [(VolumeSize.sizeVolume_frame params).2.2, ubigenCreateEmptyVtbl] at hr
        obtain rfl := List.eq_of_mem_replicate hr
        exact Nat.zero_le _
      · have hmaxName : ubiVolNameMax = 127 := rfl
        dsimp only
        omega
  · rintro vi ⟨⟩
    rfl

/-- A state that an image can be written from: two PEBs in front of `e` are kept for the layout volume, or the partition
ends there. -/
structure Started (crc32 : List UInt8 → ℕ) (mtd : MtdDevInfo) (vi : UbigenVolInfo) (e : ℕ) (st : UbiState) : Prop where
  ready : WriteUnits.Ready crc32 mtd st
  volume : st.ubi.vi = some vi
  id : vi.id = 0
  usable : (vi.usableLebSize : ℤ) = st.ubi.ui.lebSize
  tabled : Tabled crc32 st
  lnum : st.ubi.vidHdrLnum = 0
  le : st.ubi.startEb ≤ e
  room : e ≤ mtd.ebCnt
  place : st.ubi.layoutVolumeStartEb = e
  layout : (goods st st.ubi.startEb e).length = ubiLayoutVolumeEbs ∨
    e = mtd.ebCnt ∧ (goods st st.ubi.startEb e).length < ubiLayoutVolumeEbs

theorem prepare_started {bm : SysinfoSave.PartInfo} {source : UbiSource} {method : OperationMethod} {offset length : ℕ}
    {info : PrepareInfo}
    (h : mtdBlockPrepare dev bm crc32 .ubifs source method offset length st = some (info, st')) :
    ∃ vi e, Started crc32 info.mtd vi e st' ∧ info.writeStart = info.mtd.start + e * info.mtd.ebSize := by
  obtain ⟨-, start, st₁, n, hstart, hmapped, -, hinfo⟩ := mtdBlockPrepare_info dev bm crc32 h
  have hstart : ubifsGetOperateStartAddress dev bm crc32 info.mtd source offset st = some (start, st₁) := hstart
  have hmapped : ubifsGetMaxMappedSizeInPartition dev bm info.mtd method offset length st₁ = some (n, st') := hmapped
  obtain ⟨hready, hui⟩ := WriteUnits.ubifs_ready hstart hmapped
  obtain ⟨vi, hvi, husable⟩ := hready.vi
  -- the bypass leaves two good PEBs in front of the place it returns
  unfold ubifsGetOperateStartAddress at hstart
  split at hstart
  · cases hstart
  rename_i params hparams
  dsimp only at hstart
  split at hstart
  · cases hstart
  rename_i e st₂ hbypass
  obtain ⟨-, -, hfresh, -⟩ := ubiParamsInit_some crc32 hparams
  obtain ⟨k, hbypassed, hlayout⟩ := bypass_bypassed (show ({ st with ubi := params } : UbiState).ubi.layoutVolumeStartEb = 0
    from hfresh) hbypass
  obtain ⟨rfl, rfl⟩ := Prod.mk.inj (Option.some.inj hstart)
  -- what follows sets the volume and scans the blocks
  unfold ubifsGetMaxMappedSizeInPartition at hmapped
  split at hmapped
  · cases hmapped
  rename_i params' hparams'
  obtain ⟨hlength, hlnum, hid⟩ := @volumeParams_tabled crc32 _ _ _ hparams'
  obtain ⟨hstartEb, hlayoutEb⟩ := ubiVolumeParamsSet_place hparams'
  obtain ⟨-, -, -, -, hsi, -⟩ := VolumeSize.ubiVolumeParamsSet_some hparams'
  split_ifs at hmapped
  dsimp only at hmapped
  split at hmapped
  · rename_i bmState hscan
    obtain ⟨-, hst⟩ := Prod.mk.inj (Option.some.inj hmapped)
    have hubi : st'.ubi = params' := congrArg UbiState.ubi hst.symm
    have hgoods : ∀ i j, goods st' i j = goods st₂ i j := by
      intro i j
      apply goods_congr
      intro b _ _
      rw [UbiState.isEbBad, UbiState.isEbBad, hubi, hsi]
    refine ⟨vi, e, ⟨hready, hvi, hid vi (by rw [← hubi, hvi]), husable, ?_, by rw [hubi, hlnum], ?_, hbypassed.room,
      by rw [hubi, hlayoutEb], ?_⟩, ?_⟩
    · obtain ⟨imageSeq, hinit⟩ := hready.ui
      rw [hubi] at hinit
      rw [Tabled, hubi, hlength, hinit]
      rfl
    · rw [hubi, hstartEb]
      exact hbypassed.le
    · have hcount : (goods st' st'.ubi.startEb e).length = k := by
        rw [hubi, hstartEb, hgoods]
        exact hbypassed.count
      rw [hcount]
      exact hlayout
    · have hpeb := hready.pebSize
      rw [hui] at hpeb
      rw [hinfo, ← WriteUnits.absoluteOffset, ← hpeb]
  · cases hmapped

end Prepare

section Done

variable {st₁ st₂ : UbiState} {data : List UInt8}

theorem Written.tabled {i j lnum : ℕ} (h : Written crc32 mtd vi i j lnum data st st₁) (htable : Tabled crc32 st) :
    Tabled crc32 st₁ := by
  rw [Tabled, h.same.vtbl, h.same.ui]
  exact htable

theorem layoutTable_same (h : SameUbi st₁ st₂) : layoutTable crc32 st₂ = layoutTable crc32 st₁ := by
  obtain ⟨si, hsi⟩ := h
  rw [layoutTable, hsi]
  rfl

theorem done_ends {next : ℕ} (hready : WriteUnits.Ready crc32 mtd st₁) (htable : Tabled crc32 st₁)
    (hformat : st₁.ubi.formatEb ≤ mtd.ebCnt) (hdone : ubifsDone dev mtd crc32 st₁ = (.off next, st₂)) :
    ∃ e p p' stL, (ubiWriteLayoutVol dev mtd crc32 st₁.ubi.startEb st₁.ubi.ec st₁.ubi.ec st₁.ubi.vtbl st₁).2 = stL ∧
      Laid crc32 mtd dev st₁.ubi.startEb e st₁ stL p p' ∧
      Formatted crc32 mtd st₁.ubi.ui st₁.ubi.formatEb mtd.ebCnt stL st₂ := by
  unfold ubifsDone at hdone
  cases hlayout : ubiWriteLayoutVol dev mtd crc32 st₁.ubi.startEb st₁.ubi.ec st₁.ubi.ec st₁.ubi.vtbl st₁ with
  | mk ok stL =>
    rw [hlayout] at hdone
    cases ok with
    | false => cases hdone
    | true =>
      obtain ⟨e, p, p', hlaid⟩ := layoutVol_laid hready htable hlayout
      obtain ⟨si, hsi⟩ := hlaid.same
      dsimp only at hdone
      cases hrun : format dev mtd crc32 stL.ubi.formatEb stL with
      | mk ret st₃ =>
        rw [hrun] at hdone
        cases ret with
        | fail => cases hdone
        | trap => cases hdone
        | off eb =>
          obtain ⟨-, rfl⟩ := Prod.mk.inj hdone
          have hui : stL.ubi.ui = st₁.ubi.ui := by rw [hsi]
          have hfrom : stL.ubi.formatEb = st₁.ubi.formatEb := by rw [hsi]
          rw [hfrom] at hrun
          have hformatted := format_formatted hformat hrun
          rw [hui] at hformatted
          exact ⟨e, p, p', stL, rfl, hlaid, hformatted⟩

structure Filled (crc32 : List UInt8 → ℕ) (mtd : MtdDevInfo) (vi : UbigenVolInfo) (data : List UInt8) (e₀ e : ℕ)
    (st₁ : UbiState) : Prop where
  ready : WriteUnits.Ready crc32 mtd st₁
  tabled : Tabled crc32 st₁
  id : vi.id = 0
  start : st₁.ubi.startEb ≤ e₀
  le : e₀ ≤ e
  room : e ≤ mtd.ebCnt
  place : st₁.ubi.layoutVolumeStartEb = e₀
  format : st₁.ubi.formatEb = e
  layout : (goods st₁ st₁.ubi.startEb e₀).length = ubiLayoutVolumeEbs ∨
    e₀ = mtd.ebCnt ∧ (goods st₁ st₁.ubi.startEb e₀).length < ubiLayoutVolumeEbs
  count : (goods st₁ e₀ e).length * vi.usableLebSize = data.length
  lebs : ∀ i b, (goods st₁ e₀ e)[i]? = some b → Carries crc32 st₁.ubi.ui vi i
    ((data.drop (i * vi.usableLebSize)).take vi.usableLebSize) (pebBytes mtd st₁ b)

theorem written_filled {e₀ : ℕ} (hs : Started crc32 mtd vi e₀ st) (hw : Written crc32 mtd vi e₀ e 0 data st st₁)
    (hready : WriteUnits.Ready crc32 mtd st₁) (hformat : st₁.ubi.formatEb = e) :
    Filled crc32 mtd vi data e₀ e st₁ := by
  have hsame : goods st₁ st₁.ubi.startEb e₀ = goods st st.ubi.startEb e₀ := by
    rw [hw.same.startEb]
    exact goods_congr fun b _ hb => hw.within.flags b (.inl hb)
  have hroom := hw.room
  have hle := hw.le
  have hend := hs.room
  refine ⟨hready, Written.tabled hw hs.tabled, hs.id, by rw [hw.same.startEb]; exact hs.le, hle, by omega,
    hw.same.layoutEb.trans hs.place, hformat, by rw [hsame]; exact hs.layout, hw.count, fun i b hi => ?_⟩
  have hcarries := hw.lebs i b hi
  rwa [Nat.zero_add] at hcarries

def dataPebs (st : UbiState) : List ℕ := goods st st.ubi.layoutVolumeStartEb st.ubi.formatEb

section Copies

variable {stL : UbiState} {e₀ eL p p' : ℕ}

theorem Laid.sublist (h : Laid crc32 mtd dev a eL st stL p p') (he : eL ≤ e) : [p, p'].Sublist (goods st a e) := by
  rw [← h.goods, goods_append st h.room.1 he]
  refine List.Sublist.trans ?_ (List.sublist_append_left _ _)
  apply List.monotone_filter_right
  intro b hb
  rw [Bool.not_eq_true'] at hb ⊢
  rw [Bool.eq_false_iff]
  intro hbad
  rw [h.within.kept b hbad] at hb
  cases hb

theorem layoutServed_iff
    (hstL : (ubiWriteLayoutVol dev mtd crc32 st.ubi.startEb st.ubi.ec st.ubi.ec st.ubi.vtbl st).2 = stL)
    (hlaid : Laid crc32 mtd dev a eL st stL p p') :
    LayoutServed dev mtd crc32 st ↔ ∀ b, stL.isEbBad b = st.isEbBad b := by
  obtain ⟨log, hlog, hflags⟩ := hlaid.log.log
  rw [LayoutServed, hstL, ← hflags]
  constructor
  · rintro ⟨log', hlog', hserved⟩
    rwa [hlog.unique hlog']
  · exact fun hserved => ⟨log, hlog, hserved⟩

variable (h : Filled crc32 mtd vi data e₀ e st₁) (hlaid : Laid crc32 mtd dev st₁.ubi.startEb eL st₁ stL p p')

include h

theorem Filled.placed : dataPebs st₁ = goods st₁ e₀ e := by rw [dataPebs, h.place, h.format]

include hlaid

theorem Filled.two : (goods st₁ st₁.ubi.startEb e₀).length = ubiLayoutVolumeEbs := by
  rcases h.layout with htwo | ⟨hend, hfew⟩
  · exact htwo
  · have := (Laid.sublist hlaid (show eL ≤ e₀ by rw [hend]; exact hlaid.room.2)).length_le
    have htwo : ubiLayoutVolumeEbs = 2 := rfl
    rw [List.length_cons, List.length_cons, List.length_nil] at this
    omega

theorem Filled.kept (heL : eL ≤ e₀) : goods st₁ st₁.ubi.startEb e₀ = [p, p'] :=
  ((Laid.sublist hlaid heL).eq_of_length (h.two hlaid).symm).symm

theorem Filled.front (hflags : ∀ b, stL.isEbBad b = st₁.isEbBad b) : eL ≤ e₀ := by
  by_contra hgt
  have hlast := hlaid.last
  have hgoods : goods st₁ st₁.ubi.startEb eL = [p, p'] := by
    rw [← hlaid.goods]
    exact goods_congr fun b _ _ => (hflags b).symm
  have hsplit := congrArg List.length (goods_append st₁ h.start (show e₀ ≤ eL by omega))
  rw [hgoods, List.length_append, h.two hlaid] at hsplit
  have hmem : p' ∈ goods st₁ st₁.ubi.startEb eL := by
    rw [hgoods]
    exact List.mem_cons_of_mem _ List.mem_cons_self
  have hin : p' ∈ goods st₁ e₀ eL := mem_goods.mpr ⟨by omega, by omega, (mem_goods.mp hmem).2.2⟩
  have hpos := List.length_pos_of_mem hin
  have htwo : ubiLayoutVolumeEbs = 2 := rfl
  rw [List.length_cons, List.length_cons, List.length_nil] at hsplit
  omega

end Copies

theorem filled_image {e₀ next : ℕ} (h : Filled crc32 mtd vi data e₀ e st₁) (hserved : LayoutServed dev mtd crc32 st₁)
    (hdone : ubifsDone dev mtd crc32 st₁ = (.off next, st₂)) :
    ∃ p p' rest, ImageOn crc32 mtd vi data st₁.ubi.startEb p p' (dataPebs st₁) rest st₂ := by
  have hstart := h.start
  have hle := h.le
  have hroom := h.room
  obtain ⟨eL, p, p', stL, hstL, hlaid, hformatted⟩ := done_ends h.ready h.tabled (by rw [h.format]; exact hroom) hdone
  have hflags := (layoutServed_iff hstL hlaid).mp hserved
  rw [h.format] at hformatted
  have heL := h.front hlaid hflags
  have hkept := h.kept hlaid heL
  -- the data was left alone by the layout volume in front of it and the format behind it
  have hbefore : ∀ b, b < e → st₂.isEbBad b = st₁.isEbBad b := fun b hb =>
    (hformatted.within.flags b (.inl hb)).trans (hflags b)
  have hdata : ∀ b, e₀ ≤ b → b < e → pebBytes mtd st₂ b = pebBytes mtd st₁ b := fun b h1 h2 =>
    (hformatted.within.bytes b (.inl h2)).trans (hlaid.within.bytes b (.inr (by omega)))
  have hplaced : goods st₂ e₀ e = goods st₁ e₀ e := goods_congr fun b _ hb => hbefore b hb
  have hlayout : goods st₂ st₁.ubi.startEb e₀ = [p, p'] := by
    rw [← hkept]
    exact goods_congr fun b _ hb => hbefore b (by omega)
  have hui : st₂.ubi.ui = st₁.ubi.ui :=
    (WriteUnits.SameUbi.ui hformatted.same).trans (WriteUnits.SameUbi.ui hlaid.same)
  have htable : layoutTable crc32 st₂ = layoutTable crc32 st₁ := layoutTable_same (hlaid.same.trans hformatted.same)
  have hin : ∀ b ∈ [p, p'], b < e := fun b hb => by
    rw [← hkept] at hb
    have := (mem_goods.mp hb).2.1
    omega
  rw [h.placed]
  refine ⟨p, p', goods st₂ e mtd.ebCnt, ?_, ?_, ?_, h.count, fun i b hi => ?_, ?_⟩
  · rw [goods_append st₂ hstart (show e₀ ≤ mtd.ebCnt by omega), goods_append st₂ hle hroom, hlayout, hplaced]
    rfl
  · rw [hui, htable, hformatted.within.bytes p (.inl (hin p List.mem_cons_self))]
    exact hlaid.first
  · rw [hui, htable, hformatted.within.bytes p' (.inl (hin p' (List.mem_cons_of_mem _ List.mem_cons_self)))]
    exact hlaid.second
  · obtain ⟨h1, h2, -⟩ := mem_goods.mp (List.mem_of_getElem? hi)
    rw [hdata b h1 h2, hui]
    exact h.lebs i b hi
  · rw [hui]
    exact hformatted.blank

end Done

section Run

variable {bm : SysinfoSave.PartInfo} {source : UbiSource} {method : OperationMethod}
  {offset length progressSize : ℕ} {datas : List (List UInt8)} {info : PrepareInfo} {st₀ st₁ : UbiState}

theorem run_filled (hprepare : mtdBlockPrepare dev bm crc32 .ubifs source method offset length st = some (info, st₀))
    (hsome : datas ≠ [])
    (hwrites : writeChain dev info.mtd crc32 info.maxSize datas info.writeStart progressSize st₀ = some st₁) :
    ∃ vi e₀ e, st₀.ubi.vi = some vi ∧ st₁.ubi.startEb = st₀.ubi.startEb ∧
      Filled crc32 info.mtd vi datas.flatten e₀ e st₁ := by
  obtain ⟨vi, e₀, hs, hstart⟩ := prepare_started hprepare
  rw [hstart] at hwrites
  obtain ⟨e, hw, hformat, hready⟩ := writeChain_written hs.ready hs.volume hs.usable hwrites
  rw [hs.lnum] at hw
  exact ⟨vi, e₀, e, hs.volume, hw.same.startEb, written_filled hs hw hready (hformat fun hnil => absurd hnil hsome)⟩

end Run

theorem image_whole (dev : Device) (bm : SysinfoSave.PartInfo) (crc32 : List UInt8 → ℕ) (source : UbiSource)
    (method : OperationMethod) (offset length progressSize next : ℕ) (datas : List (List UInt8)) (info : PrepareInfo)
    (st st₀ st₁ st₂ : UbiState)
    (hprepare : mtdBlockPrepare dev bm crc32 .ubifs source method offset length st = some (info, st₀))
    (hsome : datas ≠ [])
    (hwrites : writeChain dev info.mtd crc32 info.maxSize datas info.writeStart progressSize st₀ = some st₁)
    (hserved : LayoutServed dev info.mtd crc32 st₁) (hdone : ubifsDone dev info.mtd crc32 st₁ = (.off next, st₂)) :
    ∃ vi p p' placed rest, st₀.ubi.vi = some vi ∧
      ImageOn crc32 info.mtd vi datas.flatten st₀.ubi.startEb p p' placed rest st₂ := by
  obtain ⟨vi, e₀, e, hvi, hstart, hfilled⟩ := run_filled hprepare hsome hwrites
  obtain ⟨p, p', rest, himage⟩ := filled_image hfilled hserved hdone
  rw [hstart] at himage
  exact ⟨vi, p, p', _, rest, hvi, himage⟩

section Small

/-- One LEB of data on four PEBs, written to the end while the requests numbered in `bad` fail: the states behind the
prepare, the write and the end. -/
def fourDone (bad : List ℕ) : Option (PrepareInfo × UbiState × UbiState × UbiState) :=
  (mtdBlockPrepare (failsAt bad) ⟨[fourPebs], 2048⟩ (fun _ => 0) .ubifs fourScanned .partition 0 384
    blankUbiState).bind fun p =>
      (writeChain (failsAt bad) p.1.mtd (fun _ => 0) p.1.maxSize [List.replicate 384 5] p.1.writeStart 0 p.2).bind
        fun st₁ =>
          match ubifsDone (failsAt bad) p.1.mtd (fun _ => 0) st₁ with
          | (.off _, st₂) => some (p.1, p.2, st₁, st₂)
          | _ => none

variable {bad : List ℕ} {info : PrepareInfo} {st₀ st₁ st₂ : UbiState}

theorem fourDone_some (h : fourDone bad = some (info, st₀, st₁, st₂)) :
    mtdBlockPrepare (failsAt bad) ⟨[fourPebs], 2048⟩ (fun _ => 0) .ubifs fourScanned .partition 0 384 blankUbiState =
      some (info, st₀) ∧
    writeChain (failsAt bad) info.mtd (fun _ => 0) info.maxSize [List.replicate 384 5] info.writeStart 0 st₀ = some st₁ ∧
    ∃ next, ubifsDone (failsAt bad) info.mtd (fun _ => 0) st₁ = (.off next, st₂) := by
  obtain ⟨⟨info', st₀'⟩, hprepare, h⟩ := Option.bind_eq_some_iff.mp h
  obtain ⟨st₁', hwrites, h⟩ := Option.bind_eq_some_iff.mp h
  dsimp only at hwrites h
  cases hdone : ubifsDone (failsAt bad) info'.mtd (fun _ => 0) st₁' with
  | mk ret st₂' =>
    rw [hdone] at h
    cases ret with
    | off next =>
      cases h
      exact ⟨hprepare, hwrites, next, hdone⟩
    | fail => cases h
    | trap => cases h

theorem answers_served {before new : List DevCall}
    (h : ∀ calls : List DevCall, calls.length ≤ before.length + new.length → dev.reply calls = none) :
    ∀ answer ∈ answers dev before new, answer.reply = none := by
  induction new generalizing before with
  | nil => exact fun answer hm => by cases hm
  | cons call new ih =>
    intro answer hm
    rcases List.mem_cons.mp hm with rfl | hm
    · apply h
      rw [List.length_append, List.length_singleton, List.length_cons]
      omega
    · refine ih (fun calls hcalls => h calls ?_) answer hm
      rw [List.length_append, List.length_singleton] at hcalls
      rw [List.length_cons]
      omega

def layoutCalls (dev : Device) : PrepareInfo × UbiState × UbiState × UbiState → ℕ
  | (info, _, st₁, _) =>
    (ubiWriteLayoutVol dev info.mtd (fun _ => 0) st₁.ubi.startEb st₁.ubi.ec st₁.ubi.ec st₁.ubi.vtbl st₁).2.calls.length

theorem layoutServed_of_early (h : fourDone bad = some (info, st₀, st₁, st₂))
    (hlate : ∀ n ∈ bad, layoutCalls (failsAt bad) (info, st₀, st₁, st₂) < n) :
    LayoutServed (failsAt bad) info.mtd (fun _ => 0) st₁ := by
  obtain ⟨hprepare, hwrites, next, hdone⟩ := fourDone_some h
  obtain ⟨vi, e₀, e, -, -, hfilled⟩ := run_filled hprepare (List.cons_ne_nil _ _) hwrites
  have hroom := hfilled.room
  obtain ⟨eL, p, p', stL, hstL, hlaid, -⟩ :=
    done_ends hfilled.ready hfilled.tabled (by rw [hfilled.format]; exact hroom) hdone
  obtain ⟨log, hlog, -⟩ := hlaid.log.log
  refine ⟨log, by rw [hstL]; exact hlog, ?_⟩
  obtain ⟨new, hcalls, rfl⟩ := hlog
  apply answers_served
  intro calls hfew
  have hnot : calls.length ∉ bad := by
    intro hmem
    have hlt := hlate _ hmem
    rw [layoutCalls, hstL, hcalls, List.length_append] at hlt
    omega
  exact if_neg hnot

def tailSpoiled (bad : List ℕ) (run : PrepareInfo × UbiState × UbiState × UbiState) : Bool :=
  run.2.2.2.isEbBad 3 && decide (∀ n ∈ bad, layoutCalls (failsAt bad) run < n)

end Small

theorem image_whole_four : ∃ info st₀ st₁ st₂, fourDone [13] = some (info, st₀, st₁, st₂) ∧
    st₂.isEbBad 3 = true ∧ ∃ vi p p' placed rest, st₀.ubi.vi = some vi ∧
      ImageOn (fun _ => 0) info.mtd vi [List.replicate 384 5].flatten st₀.ubi.startEb p p' placed rest st₂ := by
  have hrun : (fourDone [13]).any (tailSpoiled [13]) = true := by decide +kernel
  obtain ⟨⟨info, st₀, st₁, st₂⟩, h, hspoiled⟩ := (Option.any_eq_true _ _).mp hrun
  rw [tailSpoiled, Bool.and_eq_true, decide_eq_true_eq] at hspoiled
  obtain ⟨hprepare, hwrites, next, hdone⟩ := fourDone_some h
  exact ⟨info, st₀, st₁, st₂, h, hspoiled.1, image_whole (failsAt [13]) _ _ _ _ _ _ _ _ _ _ _ _ _ _ hprepare
    (List.cons_ne_nil _ _) hwrites (layoutServed_of_early h hspoiled.2) hdone⟩

structure DataOn (crc32 : List UInt8 → ℕ) (mtd : MtdDevInfo) (vi : UbigenVolInfo) (data : List UInt8)
    (placed : List ℕ) (st : UbiState) : Prop where
  good : ∀ b ∈ placed, st.isEbBad b = false
  count : placed.length * vi.usableLebSize = data.length
  lebs : ∀ i b, placed[i]? = some b → Carries crc32 st.ubi.ui vi i
    ((data.drop (i * vi.usableLebSize)).take vi.usableLebSize) (pebBytes mtd st b)

/-- Every LEB of the data is still on a good PEB, and so are both copies of the layout volume, on PEBs that held no
data. -/
structure Committed (crc32 : List UInt8 → ℕ) (mtd : MtdDevInfo) (vi : UbigenVolInfo) (data : List UInt8) (a : ℕ)
    (placed : List ℕ) (st : UbiState) : Prop where
  lebs : ∀ i < placed.length, ∃ b ∈ goods st a mtd.ebCnt, Carries crc32 st.ubi.ui vi i
    ((data.drop (i * vi.usableLebSize)).take vi.usableLebSize) (pebBytes mtd st b)
  copies : ∀ lnum < ubiLayoutVolumeEbs, ∃ b ∈ goods st a mtd.ebCnt, b ∉ placed ∧
    Carries crc32 st.ubi.ui (layoutVi st.ubi.ui) lnum (layoutTable crc32 st) (pebBytes mtd st b)

section Commit

variable {data table peb : List UInt8} {ui : UbigenInfo} {st₁ st₂ : UbiState} {e₀ next : ℕ}

theorem layoutHdr_lnum (lnum : ℕ) :
    (ubigenInitVidHdr crc32 ui (layoutVi ui) lnum table)[15]? = some (.ofNat lnum) := rfl

theorem carries_lnum {lnum lnum' : ℕ} (h : Carries crc32 ui (layoutVi ui) lnum table peb)
    (h' : Carries crc32 ui (layoutVi ui) lnum' table peb) : UInt8.ofNat lnum = UInt8.ofNat lnum' := by
  have hhdr := congrArg (·[15]?) (h.vidh.symm.trans h'.vidh)
  rw [layoutHdr_lnum, layoutHdr_lnum] at hhdr
  exact Option.some.inj hhdr

theorem vidHdr_mem (lnum : ℕ) : 0x55 ∈ ubigenInitVidHdr crc32 ui vi lnum data := List.mem_cons_self

theorem EcOnly.carries_nothing {lnum : ℕ} (h : EcOnly crc32 mtd ui peb) (hoffs : ubiEcHdrSize ≤ ui.vidHdrOffs) :
    ¬Carries crc32 ui vi lnum data peb := by
  intro hcarries
  obtain ⟨ec, rfl⟩ := h
  have hmem := @vidHdr_mem crc32 vi data ui lnum
  rw [← hcarries.vidh, List.drop_append, ubigenInitEcHdr_length,
    List.drop_eq_nil_of_le (by rw [ubigenInitEcHdr_length]; exact hoffs), List.nil_append] at hmem
  have := List.eq_of_mem_replicate (List.mem_of_mem_drop (List.mem_of_mem_take hmem))
  cases this

theorem goods_nodup (st : UbiState) (a e : ℕ) : (goods st a e).Nodup := List.Nodup.filter _ List.nodup_range'

theorem ImageOn.committed {p p' : ℕ} {placed rest : List ℕ}
    (h : ImageOn crc32 mtd vi data a p p' placed rest st) : Committed crc32 mtd vi data a placed st := by
  have hnodup := goods_nodup st a mtd.ebCnt
  rw [h.pebs, List.nodup_cons, List.nodup_cons] at hnodup
  have hmem (b : ℕ) (hb : b = p ∨ b = p' ∨ b ∈ placed) : b ∈ goods st a mtd.ebCnt := by
    rw [h.pebs, List.mem_cons, List.mem_cons, List.mem_append]
    tauto
  refine ⟨fun i hi => ?_, fun lnum hlnum => ?_⟩
  · exact ⟨placed[i], hmem _ (.inr (.inr (List.getElem_mem hi))), h.lebs i _ (List.getElem?_eq_getElem hi)⟩
  · obtain rfl | rfl : lnum = 0 ∨ lnum = 1 := Nat.le_one_iff_eq_zero_or_eq_one.mp (Nat.lt_succ_iff.mp hlnum)
    · refine ⟨p, hmem p (.inl rfl), fun hp => hnodup.1 ?_, h.first⟩
      exact List.mem_cons_of_mem _ (List.mem_append_left _ hp)
    · exact ⟨p', hmem p' (.inr (.inl rfl)), fun hp => hnodup.2.1 (List.mem_append_left _ hp), h.second⟩

theorem Filled.dataOn (h : Filled crc32 mtd vi data e₀ e st₁) : DataOn crc32 mtd vi data (dataPebs st₁) st₁ := by
  rw [h.placed]
  exact ⟨fun b hb => (mem_goods.mp hb).2.2, h.count, h.lebs⟩

theorem Filled.served (h : Filled crc32 mtd vi data e₀ e st₁) (hdone : ubifsDone dev mtd crc32 st₁ = (.off next, st₂))
    (hcommitted : Committed crc32 mtd vi data st₁.ubi.startEb (dataPebs st₁) st₂) : LayoutServed dev mtd crc32 st₁ := by
  have hroom := h.room
  obtain ⟨eL, p, p', stL, hstL, hlaid, hformatted⟩ := done_ends h.ready h.tabled (by rw [h.format]; exact hroom) hdone
  rw [h.format] at hformatted
  have hlast := hlaid.last
  have huiL : stL.ubi.ui = st₁.ubi.ui := WriteUnits.SameUbi.ui hlaid.same
  have hui : st₂.ubi.ui = st₁.ubi.ui := (WriteUnits.SameUbi.ui hformatted.same).trans huiL
  have htable : layoutTable crc32 st₂ = layoutTable crc32 st₁ := layoutTable_same (hlaid.same.trans hformatted.same)
  obtain ⟨b, hb, hfree, hcarries⟩ := hcommitted.copies 1 Nat.one_lt_two
  rw [hui, htable] at hcarries
  obtain ⟨hab, hbe, hgood⟩ := mem_goods.mp hb
  have hgoodL : stL.isEbBad b = false := Bool.eq_false_iff.mpr fun hbad => by
    rw [hformatted.within.kept b hbad] at hgood
    cases hgood
  have hgood₁ : st₁.isEbBad b = false := Bool.eq_false_iff.mpr fun hbad => by
    rw [hlaid.within.kept b hbad] at hgoodL
    cases hgoodL
  -- it is in front of the data, since it is not behind it and holds none of it
  have hbefore : b < e := by
    by_contra hge
    exact EcOnly.carries_nothing (hformatted.blank b (mem_goods.mpr ⟨not_lt.mp hge, hbe, hgood⟩)) h.ready.layout.1 hcarries
  have hfront : b < e₀ := by
    by_contra hge
    rw [h.placed] at hfree
    exact hfree (mem_goods.mpr ⟨not_lt.mp hge, hbefore, hgood₁⟩)
  have hwithin : b < eL := by
    by_contra hge
    have hin : b ∈ goods st₁ st₁.ubi.startEb e₀ := mem_goods.mpr ⟨hab, hfront, hgood₁⟩
    rw [h.kept hlaid (by omega), ← hlaid.goods] at hin
    exact hge (mem_goods.mp hin).2.1
  have hin : b ∈ goods stL st₁.ubi.startEb eL := mem_goods.mpr ⟨hab, hwithin, hgoodL⟩
  rw [hformatted.within.bytes b (.inl hbefore)] at hcarries
  rw [hlaid.goods, List.mem_cons, List.mem_singleton] at hin
  rcases hin with rfl | rfl
  · cases carries_lnum hlaid.first hcarries
  -- so both copies are, and those were the only good PEBs there
  · have hkept := h.kept hlaid (show eL ≤ e₀ by omega)
    refine (layoutServed_iff hstL hlaid).mpr fun i => ?_
    by_cases hi : i < st₁.ubi.startEb ∨ eL ≤ i
    · exact hlaid.within.flags i hi
    cases hflag : st₁.isEbBad i with
    | true => exact hlaid.within.kept i hflag
    | false =>
      have hmem : i ∈ goods st₁ st₁.ubi.startEb e₀ := mem_goods.mpr ⟨by omega, by omega, hflag⟩
      rw [hkept, ← hlaid.goods] at hmem
      exact (mem_goods.mp hmem).2.2

end Commit

/-- The commit of the layout volume leaves the data alone exactly where each of its requests is served. -/
theorem committed_iff (dev : Device) (bm : SysinfoSave.PartInfo) (crc32 : List UInt8 → ℕ) (source : UbiSource)
    (method : OperationMethod) (offset length progressSize next : ℕ) (datas : List (List UInt8)) (info : PrepareInfo)
    (st st₀ st₁ st₂ : UbiState)
    (hprepare : mtdBlockPrepare dev bm crc32 .ubifs source method offset length st = some (info, st₀))
    (hsome : datas ≠ [])
    (hwrites : writeChain dev info.mtd crc32 info.maxSize datas info.writeStart progressSize st₀ = some st₁)
    (hdone : ubifsDone dev info.mtd crc32 st₁ = (.off next, st₂)) :
    ∃ vi, st₀.ubi.vi = some vi ∧ DataOn crc32 info.mtd vi datas.flatten (dataPebs st₁) st₁ ∧
      (Committed crc32 info.mtd vi datas.flatten st₁.ubi.startEb (dataPebs st₁) st₂ ↔
        LayoutServed dev info.mtd crc32 st₁) := by
  obtain ⟨vi, e₀, e, hvi, -, hfilled⟩ := run_filled hprepare hsome hwrites
  refine ⟨vi, hvi, hfilled.dataOn, fun hcommitted => hfilled.served hdone hcommitted, fun hserved => ?_⟩
  obtain ⟨p, p', rest, himage⟩ := filled_image hfilled hserved hdone
  exact himage.committed

theorem committed_iff_four : ∃ info st₀ st₁ st₂, fourDone [] = some (info, st₀, st₁, st₂) ∧
    ∃ vi, st₀.ubi.vi = some vi ∧
      DataOn (fun _ => 0) info.mtd vi [List.replicate 384 5].flatten (dataPebs st₁) st₁ ∧
      (Committed (fun _ => 0) info.mtd vi [List.replicate 384 5].flatten st₁.ubi.startEb (dataPebs st₁) st₂ ↔
        LayoutServed (failsAt []) info.mtd (fun _ => 0) st₁) := by
  have hsome : (fourDone []).isSome = true := by decide +kernel
  obtain ⟨⟨info, st₀, st₁, st₂⟩, h⟩ := Option.isSome_iff_exists.mp hsome
  obtain ⟨hprepare, hwrites, next, hdone⟩ := fourDone_some h
  exact ⟨info, st₀, st₁, st₂, h, committed_iff (failsAt []) _ _ _ _ _ _ _ _ _ _ _ _ _ _ hprepare (List.cons_ne_nil _ _)
    hwrites hdone⟩

def lostAll : PrepareInfo × UbiState × UbiState × UbiState → Bool
  | (info, st₀, st₁, st₂) =>
    st₀.ubi.vi.any (fun vi => decide (vi.usableLebSize = 384)) &&
      decide (0 < (dataPebs st₁).length ∧ ∀ b ∈ goods st₂ st₁.ubi.startEb info.mtd.ebCnt,
        ((pebBytes info.mtd st₂ b).drop st₂.ubi.ui.dataOffs).take 384 ≠ List.replicate 384 5)

/-- The erase for the first copy fails: the copies go one PEB further, the second one to that of the data. -/
theorem copy_overwrites : ∃ info st₀ st₁ st₂ vi, fourDone [9] = some (info, st₀, st₁, st₂) ∧ st₀.ubi.vi = some vi ∧
    ¬Committed (fun _ => 0) info.mtd vi [List.replicate 384 5].flatten st₁.ubi.startEb (dataPebs st₁) st₂ := by
  have hlost : (fourDone [9]).any lostAll = true := by decide +kernel
  obtain ⟨⟨info, st₀, st₁, st₂⟩, h, hlost⟩ := (Option.any_eq_true _ _).mp hlost
  rw [lostAll, Bool.and_eq_true, Option.any_eq_true, decide_eq_true_eq] at hlost
  obtain ⟨⟨vi, hvi, husable⟩, hsome, hgone⟩ := hlost
  refine ⟨info, st₀, st₁, st₂, vi, h, hvi, fun hcommitted => ?_⟩
  obtain ⟨b, hb, hcarries⟩ := hcommitted.lebs 0 hsome
  have hdata := hcarries.data
  rw [Nat.zero_mul, List.drop_zero, of_decide_eq_true husable, List.flatten_singleton, List.take_replicate, Nat.min_self,
    List.length_replicate] at hdata
  exact hgone b hb hdata

end LinuxRecovery.UbiImage
