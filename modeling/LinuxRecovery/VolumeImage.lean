import LinuxRecovery.PebWalks

namespace LinuxRecovery.VolumeImage

open Loops ByteMemory Libmtd BlockMap BasicWrite Ubigen UbiPrepare UbiPeb UbiVolume MtdBlock RequestLog PebWalks
open WriteUnits (Headed)
open Sysinfo (memcpy memcpy_length memcpy_getElem?)

variable {dev : Device} {mtd : MtdDevInfo} {crc32 : List UInt8 → ℕ} {ui : UbigenInfo} {vi : UbigenVolInfo}
  {st st' st'' : UbiState} {a e m lnum : ℕ}

structure Carries (crc32 : List UInt8 → ℕ) (ui : UbigenInfo) (vi : UbigenVolInfo) (lnum : ℕ) (data peb : List UInt8) :
    Prop where
  ech : ∃ ec, peb.take ubiEcHdrSize = ubigenInitEcHdr crc32 ui ec
  vidh : (peb.drop ui.vidHdrOffs).take ubiVidHdrSize = ubigenInitVidHdr crc32 ui vi lnum data
  data : (peb.drop ui.dataOffs).take data.length = data

section Buffers

variable {buf bs : List UInt8} {i n : ℕ}

theorem memcpy_self (h : i + bs.length ≤ buf.length) : ((memcpy buf i bs).drop i).take bs.length = bs := by
  have htake : (buf.take i).length = i := by
    rw [List.length_take]
    omega
  rw [memcpy, List.append_assoc, List.drop_left' htake, List.take_left' rfl]

theorem memcpy_before {at_ : ℕ} (h : at_ + bs.length ≤ buf.length) (hi : i + n ≤ at_) :
    ((memcpy buf at_ bs).drop i).take n = (buf.drop i).take n := by
  apply List.ext_getElem?
  intro j
  rw [List.getElem?_take, List.getElem?_take, List.getElem?_drop, List.getElem?_drop]
  split_ifs with hj
  · rw [memcpy_getElem? h, if_neg (by omega)]
  · rfl

theorem drop_behind {buf' : List UInt8} (h : buf'.drop ubiEcHdrSize = buf.drop ubiEcHdrSize) (hi : ubiEcHdrSize ≤ i) :
    buf'.drop i = buf.drop i := by
  obtain ⟨k, rfl⟩ := Nat.exists_eq_add_of_le hi
  rw [← List.drop_drop, h, List.drop_drop]

theorem Headed.take (h : Headed crc32 ui n buf) : ∃ ec, buf.take ubiEcHdrSize = ubigenInitEcHdr crc32 ui ec := by
  obtain ⟨-, ec, rest, rfl⟩ := h
  exact ⟨ec, List.take_left' (ubigenInitEcHdr_length _ _ _)⟩

theorem Headed.carries {data buf' : List UInt8} (h : WriteUnits.Ready crc32 mtd st)
    (hheaded : Headed crc32 st.ubi.ui mtd.ebSize buf') (hdrop : buf'.drop ubiEcHdrSize = buf.drop ubiEcHdrSize)
    (hvid : (buf.drop st.ubi.ui.vidHdrOffs).take ubiVidHdrSize = ubigenInitVidHdr crc32 st.ubi.ui vi lnum data)
    (hdata : (buf.drop st.ubi.ui.dataOffs).take data.length = data) :
    Carries crc32 st.ubi.ui vi lnum data buf' := by
  obtain ⟨hoffs, hdataOffs, -⟩ := h.layout
  refine ⟨Headed.take hheaded, ?_, ?_⟩
  · rw [drop_behind hdrop hoffs, hvid]
  · rw [drop_behind hdrop (by omega), hdata]

theorem fillOutbuf_carries (h : WriteUnits.Ready crc32 mtd st) {data buf' : List UInt8}
    (hlen : (data.length : ℤ) ≤ st.ubi.ui.lebSize) (hheaded : Headed crc32 st.ubi.ui mtd.ebSize buf')
    (hdrop : buf'.drop ubiEcHdrSize = (fillOutbuf crc32 st.ubi.ui vi lnum data st.ubi.outbuf).drop ubiEcHdrSize) :
    Carries crc32 st.ubi.ui vi lnum data buf' := by
  obtain ⟨hoffs, hdataOffs, hleb⟩ := h.layout
  have hpeb := h.pebSize
  have hout := h.outbuf.1
  have hhdr : (ubigenInitVidHdr crc32 st.ubi.ui vi lnum data).length = ubiVidHdrSize := ubigenInitVidHdr_length _ _ _ _ _
  have h₁ : (memcpy st.ubi.outbuf st.ubi.ui.vidHdrOffs (ubigenInitVidHdr crc32 st.ubi.ui vi lnum data)).length =
      mtd.ebSize := by
    rw [memcpy_length _ _ _ (by omega), hout]
  have h₂ : (memcpy (memcpy st.ubi.outbuf st.ubi.ui.vidHdrOffs (ubigenInitVidHdr crc32 st.ubi.ui vi lnum data))
      st.ubi.ui.dataOffs data).length = mtd.ebSize := by
    rw [memcpy_length _ _ _ (by omega), h₁]
  have htail : (List.replicate (st.ubi.ui.pebSize - st.ubi.ui.dataOffs - data.length) (0xFF : UInt8)).length =
      mtd.ebSize - st.ubi.ui.dataOffs - data.length := by
    rw [List.length_replicate, hpeb]
  refine Headed.carries h hheaded hdrop ?_ ?_
  · rw [fillOutbuf]
    rw [memcpy_before (by omega) (by omega), memcpy_before (by omega) hdataOffs, ← hhdr, memcpy_self (by omega)]
  · rw [fillOutbuf]
    rw [memcpy_before (by omega) le_rfl, memcpy_self (by omega)]

end Buffers

structure SameVolume (st st' : UbiState) : Prop where
  ui : st'.ubi.ui = st.ubi.ui
  vi : st'.ubi.vi = st.ubi.vi
  vtbl : st'.ubi.vtbl = st.ubi.vtbl
  startEb : st'.ubi.startEb = st.ubi.startEb
  layoutEb : st'.ubi.layoutVolumeStartEb = st.ubi.layoutVolumeStartEb

theorem SameVolume.trans (h : SameVolume st st') (h' : SameVolume st' st'') : SameVolume st st'' :=
  ⟨h'.ui.trans h.ui, h'.vi.trans h.vi, h'.vtbl.trans h.vtbl, h'.startEb.trans h.startEb,
    h'.layoutEb.trans h.layoutEb⟩

theorem sameVolume_of_sameUbi (h : SameUbi st st') : SameVolume st st' := by
  obtain ⟨si, hsi⟩ := h
  exact ⟨by rw [hsi], by rw [hsi], by rw [hsi], by rw [hsi], by rw [hsi]⟩

structure Written (crc32 : List UInt8 → ℕ) (mtd : MtdDevInfo) (vi : UbigenVolInfo) (a e lnum : ℕ) (data : List UInt8)
    (st st' : UbiState) : Prop where
  le : a ≤ e
  room : e ≤ a ∨ e ≤ mtd.ebCnt
  within : Within mtd a e st st'
  same : SameVolume st st'
  count : (goods st' a e).length * vi.usableLebSize = data.length
  lebs : ∀ i b, (goods st' a e)[i]? = some b → Carries crc32 st'.ubi.ui vi (lnum + i)
    ((data.drop (i * vi.usableLebSize)).take vi.usableLebSize) (pebBytes mtd st' b)

section Writes

theorem written_nil (hmem : st'.mem = st.mem) (hsi : st'.ubi.si = st.ubi.si) (hsame : SameVolume st st') :
    Written crc32 mtd vi a a lnum [] st st' := by
  have hnil := goods_empty st' (le_refl a)
  refine ⟨le_rfl, .inl le_rfl, within_of_eq hmem hsi, hsame, ?_, fun i b hi => ?_⟩
  · rw [hnil]
    exact Nat.zero_mul _
  · rw [hnil] at hi
    cases hi

theorem Written.append {data data' : List UInt8} (h : Written crc32 mtd vi a m lnum data st st')
    (h' : Written crc32 mtd vi m e (lnum + (goods st' a m).length) data' st' st'') :
    Written crc32 mtd vi a e lnum (data ++ data') st st'' := by
  have hfront : goods st'' a m = goods st' a m := goods_congr fun b _ hb => h'.within.flags b (.inl hb)
  have hgoods : goods st'' a e = goods st' a m ++ goods st'' m e := by rw [goods_append st'' h.le h'.le, hfront]
  have hcount := h.count
  have hroom := h.room
  have hroom' := h'.room
  have hle := h.le
  have hle' := h'.le
  refine ⟨by omega, by omega, (h.within.mono le_rfl h'.le).trans (h'.within.mono h.le le_rfl), h.same.trans h'.same,
    ?_, fun i b hi => ?_⟩
  · rw [hgoods, List.length_append, Nat.add_mul, h.count, h'.count, List.length_append]
  · rw [hgoods, List.getElem?_append] at hi
    split_ifs at hi with hlt
    · obtain ⟨h1, h2, -⟩ := mem_goods.mp (List.mem_of_getElem? hi)
      have hbytes := h'.within.bytes b (.inl h2)
      have hpiece : ((data ++ data').drop (i * vi.usableLebSize)).take vi.usableLebSize =
          (data.drop (i * vi.usableLebSize)).take vi.usableLebSize := by
        have hend : (i + 1) * vi.usableLebSize ≤ data.length := by
          rw [← hcount]
          exact Nat.mul_le_mul_right _ hlt
        rw [Nat.succ_mul] at hend
        rw [List.drop_append_of_le_length (by omega), List.take_append_of_le_length (by rw [List.length_drop]; omega)]
      rw [hbytes, h'.same.ui, hpiece]
      exact h.lebs i b hi
    · obtain ⟨j, rfl⟩ := Nat.exists_eq_add_of_le (not_lt.mp hlt)
      rw [Nat.add_sub_cancel_left] at hi
      have hcarries := h'.lebs j b hi
      rw [Nat.add_assoc] at hcarries
      have hpiece : (data ++ data').drop (((goods st' a m).length + j) * vi.usableLebSize) =
          data'.drop (j * vi.usableLebSize) := by
        rw [Nat.add_mul, hcount, ← List.drop_drop, List.drop_left]
      rw [hpiece]
      exact hcarries

theorem leb_written (h : WriteUnits.Ready crc32 mtd st) (husable : (vi.usableLebSize : ℤ) = st.ubi.ui.lebSize)
    {data buf : List UInt8} (hlen : data.length = vi.usableLebSize)
    (hrun : ubiWriteOnePeb dev mtd crc32 a (fillOutbuf crc32 st.ubi.ui vi lnum data st.ubi.outbuf) st =
      (some e, buf, st')) :
    Written crc32 mtd vi a e lnum data st (UbiState.setOutbuf st' buf) ∧
      (goods (UbiState.setOutbuf st' buf) a e).length = 1 := by
  have hfill := @WriteUnits.Ready.fill _ _ _ h vi lnum data (by omega)
  obtain ⟨p, hplaced⟩ := writeOnePeb_placed hfill hrun
  have hheaded := @WriteUnits.writeOnePeb_headed dev mtd crc32 _ a _ _ hfill
  have hsame := @writeOnePeb_same dev mtd crc32 a (fillOutbuf crc32 st.ubi.ui vi lnum data st.ubi.outbuf) st
  rw [hrun] at hheaded hsame
  have hvolume := sameVolume_of_sameUbi hsame
  have hgoods : goods (UbiState.setOutbuf st' buf) a e = [p] := hplaced.goods
  have hnext := hplaced.next
  have hfirst := hplaced.first
  have hroom := hplaced.room
  refine ⟨⟨by omega, by omega, ⟨hplaced.within.flags, hplaced.within.bytes, hplaced.within.kept⟩,
    ⟨hvolume.ui, hvolume.vi, hvolume.vtbl, hvolume.startEb, hvolume.layoutEb⟩, ?_, fun i b hi => ?_⟩, by rw [hgoods]; rfl⟩
  · rw [hgoods, hlen]
    exact Nat.one_mul _
  · rw [hgoods] at hi
    obtain ⟨rfl, rfl⟩ : i = 0 ∧ p = b := by
      cases i with
      | zero => exact ⟨rfl, Option.some.inj hi⟩
      | succ i => cases hi
    have hbytes : pebBytes mtd (UbiState.setOutbuf st' buf) p = buf := hplaced.bytes
    have hui : (UbiState.setOutbuf st' buf).ubi.ui = st.ubi.ui := hvolume.ui
    rw [hbytes, hui, Nat.zero_mul, List.drop_zero, ← hlen, List.take_length, Nat.add_zero]
    exact fillOutbuf_carries h (by omega) hheaded hplaced.kept

theorem writeLebs_written {maxSize n : ℕ} {c : VolCursor} {ps : ℕ} (h : WriteUnits.Ready crc32 mtd c.st)
    (husable : (vi.usableLebSize : ℤ) = c.st.ubi.ui.lebSize) (hlen : c.inbuf.length = n * vi.usableLebSize)
    (hrun : writeLebs dev mtd crc32 maxSize vi n c = ⟨.off e, ps, st'⟩) :
    Written crc32 mtd vi c.eb e c.lnum c.inbuf c.st st' ∧ st'.ubi.vidHdrLnum = c.lnum + (goods st' c.eb e).length ∧
      st'.ubi.formatEb = e := by
  induction n generalizing c with
  | zero =>
    have hnil : c.inbuf = [] := List.length_eq_zero_iff.mp (by rw [hlen, Nat.zero_mul])
    rw [writeLebs] at hrun
    cases hinfo : setProcessInfo maxSize with
    | none =>
      rw [hinfo] at hrun
      cases hrun
    | some u =>
      rw [hinfo] at hrun
      cases hrun
      rw [hnil, goods_empty _ le_rfl]
      exact ⟨written_nil rfl rfl ⟨rfl, rfl, rfl, rfl, rfl⟩, rfl, rfl⟩
  | succ n ih =>
    rw [writeLebs] at hrun
    cases hinfo : setProcessInfo maxSize with
    | none =>
      rw [hinfo] at hrun
      cases hrun
    | some u =>
      rw [hinfo] at hrun
      dsimp only at hrun
      rw [Nat.succ_mul] at hlen
      have htake : (c.inbuf.take vi.usableLebSize).length = vi.usableLebSize := by
        rw [List.length_take]
        omega
      have hbuf := @WriteUnits.Ready.fill _ _ _ h vi c.lnum (c.inbuf.take vi.usableLebSize) (by omega)
      have hready := @WriteUnits.Ready.writeOnePeb dev _ _ _ h c.eb _ hbuf
      cases hpeb : ubiWriteOnePeb dev mtd crc32 c.eb (fillOutbuf crc32 c.st.ubi.ui vi c.lnum
          (c.inbuf.take vi.usableLebSize) c.st.ubi.outbuf) c.st with
      | mk next rest =>
        obtain ⟨buf, st₁⟩ := rest
        rw [hpeb] at hrun hready
        cases next with
        | none => cases hrun
        | some m =>
          obtain ⟨hfirst, hone⟩ := leb_written h husable htake hpeb
          have hui : (UbiState.setOutbuf st₁ buf).ubi.ui = c.st.ubi.ui := hfirst.same.ui
          obtain ⟨hrest, hlnum, hformat⟩ := ih hready (by rw [hui]; exact husable)
            (by dsimp only; rw [List.length_drop]; omega) hrun
          dsimp only at hrest hlnum
          have hfront : goods st' c.eb m = goods (UbiState.setOutbuf st₁ buf) c.eb m :=
            goods_congr fun b _ hb => hrest.within.flags b (.inl hb)
          rw [← hone] at hrest
          refine ⟨by rw [← List.take_append_drop vi.usableLebSize c.inbuf]; exact hfirst.append hrest, ?_, hformat⟩
          rw [goods_append st' hfirst.le hrest.le, List.length_append, hfront, hone, hlnum]
          omega

end Writes

/-- Writes one behind the other, each at the offset that the one before has returned. -/
def writeChain (dev : Device) (mtd : MtdDevInfo) (crc32 : List UInt8 → ℕ) (maxSize : ℕ) :
    List (List UInt8) → ℕ → ℕ → UbiState → Option UbiState
  | [], _, _, st => some st
  | data :: datas, offset, progressSize, st =>
    match ubifsWrite dev mtd crc32 maxSize progressSize offset data st with
    | ⟨.off offset, progressSize, st⟩ => writeChain dev mtd crc32 maxSize datas offset progressSize st
    | _ => none

section Chains

theorem ubifsWrite_written {maxSize ps ps' next : ℕ} {data : List UInt8} (h : WriteUnits.Ready crc32 mtd st)
    (hvi : st.ubi.vi = some vi) (husable : (vi.usableLebSize : ℤ) = st.ubi.ui.lebSize)
    (hrun : ubifsWrite dev mtd crc32 maxSize ps (mtd.start + a * mtd.ebSize) data st = ⟨.off next, ps', st'⟩) :
    ∃ e, next = mtd.start + e * mtd.ebSize ∧ Written crc32 mtd vi a e st.ubi.vidHdrLnum data st st' ∧
      st'.ubi.vidHdrLnum = st.ubi.vidHdrLnum + (goods st' a e).length ∧ st'.ubi.formatEb = e := by
  have hready := @WriteUnits.ubifsWrite_ready dev mtd crc32 st maxSize ps (mtd.start + a * mtd.ebSize) data h
  rw [hrun] at hready
  unfold ubifsWrite at hrun
  rw [WriteUnits.relativeEb] at hrun
  dsimp only at hrun
  cases hvol : ubiWriteVolume dev mtd crc32 maxSize ps a data st with
  | mk ret ps₁ st₁ =>
    rw [hvol] at hrun
    cases ret with
    | fail => cases hrun
    | trap => cases hrun
    | off e =>
      obtain ⟨hoff, -, rfl⟩ : Ret.off (mtdEbRelativeToAbsolute mtd e * st₁.ubi.ui.pebSize) = .off next ∧ ps₁ = ps' ∧
          st₁ = st' := by
        simpa only [VolOutcome.mk.injEq] using hrun
      unfold ubiWriteVolume at hvol
      rw [hvi] at hvol
      dsimp only at hvol
      split_ifs at hvol with hwhole
      · cases hvol
      · have hlen : data.length = data.length / vi.usableLebSize * vi.usableLebSize :=
          (Nat.div_mul_cancel (Nat.dvd_of_mod_eq_zero (not_not.mp hwhole))).symm
        obtain ⟨hwritten, hlnum, hformat⟩ := writeLebs_written h husable hlen hvol
        refine ⟨e, ?_, hwritten, hlnum, hformat⟩
        rw [← WriteUnits.absoluteOffset, ← hready.pebSize]
        exact (Ret.off.inj hoff).symm

theorem writeChain_written {maxSize ps : ℕ} {datas : List (List UInt8)} (h : WriteUnits.Ready crc32 mtd st)
    (hvi : st.ubi.vi = some vi) (husable : (vi.usableLebSize : ℤ) = st.ubi.ui.lebSize)
    (hrun : writeChain dev mtd crc32 maxSize datas (mtd.start + a * mtd.ebSize) ps st = some st') :
    ∃ e, Written crc32 mtd vi a e st.ubi.vidHdrLnum datas.flatten st st' ∧
      ((datas = [] → st.ubi.formatEb = a) → st'.ubi.formatEb = e) ∧
      WriteUnits.Ready crc32 mtd st' := by
  induction datas generalizing st a ps with
  | nil =>
    obtain rfl := Option.some.inj hrun
    exact ⟨a, written_nil rfl rfl ⟨rfl, rfl, rfl, rfl, rfl⟩, fun hformat => hformat rfl, h⟩
  | cons data datas ih =>
    have hready := @WriteUnits.ubifsWrite_ready dev mtd crc32 st maxSize ps (mtd.start + a * mtd.ebSize) data h
    rw [writeChain] at hrun
    cases hwrite : ubifsWrite dev mtd crc32 maxSize ps (mtd.start + a * mtd.ebSize) data st with
    | mk ret ps₁ st₁ =>
      rw [hwrite] at hrun hready
      cases ret with
      | fail => cases hrun
      | trap => cases hrun
      | off next =>
        dsimp only at hrun hready
        obtain ⟨m, rfl, hfirst, hlnum, hformat⟩ := ubifsWrite_written h hvi husable hwrite
        obtain ⟨e, hrest, hformat', hready'⟩ := ih hready (hfirst.same.vi.trans hvi)
          (by rw [hfirst.same.ui]; exact husable) hrun
        rw [hlnum] at hrest
        exact ⟨e, hfirst.append hrest, fun _ => hformat' fun _ => hformat, hready'⟩

end Chains

def Tabled (crc32 : List UInt8 → ℕ) (st : UbiState) : Prop :=
  (st.ubi.vtbl.flatMap (UbiVtblRecord.bytes crc32)).length = st.ubi.ui.vtblSize

section Layout

theorem memcpy_after {buf bs : List UInt8} {at_ i : ℕ} (h : at_ + bs.length ≤ buf.length) (hi : at_ + bs.length ≤ i) :
    (memcpy buf at_ bs).drop i = buf.drop i := by
  apply List.ext_getElem?
  intro j
  rw [List.getElem?_drop, List.getElem?_drop, memcpy_getElem? h, if_neg (by omega)]

theorem Ready.vtblSize_le (h : WriteUnits.Ready crc32 mtd st) : (st.ubi.ui.vtblSize : ℤ) ≤ st.ubi.ui.lebSize := by
  obtain ⟨imageSeq, hui⟩ := h.ui
  have hleb := h.leb
  have hsize : st.ubi.ui.vtblSize =
      min ((st.ubi.ui.lebSize % 2 ^ 32).toNat / ubiVtblRecordSize) ubiMaxVolumes * ubiVtblRecordSize := by
    rw [hui]
    rfl
  have hmin := Nat.min_le_left ((st.ubi.ui.lebSize % 2 ^ 32).toNat / ubiVtblRecordSize) ubiMaxVolumes
  have hmul := Nat.mul_le_mul_right ubiVtblRecordSize hmin
  have hdiv := Nat.div_mul_le_self (st.ubi.ui.lebSize % 2 ^ 32).toNat ubiVtblRecordSize
  have hmod : st.ubi.ui.lebSize % 2 ^ 32 ≤ st.ubi.ui.lebSize := by
    have hnonneg : 0 ≤ st.ubi.ui.lebSize / 2 ^ 32 := Int.ediv_nonneg (by omega) (by decide)
    have := Int.mul_ediv_add_emod st.ubi.ui.lebSize (2 ^ 32)
    omega
  have hpos := Int.emod_nonneg st.ubi.ui.lebSize (show (2 : ℤ) ^ 32 ≠ 0 by decide)
  rw [hsize]
  omega

def layoutTable (crc32 : List UInt8 → ℕ) (st : UbiState) : List UInt8 := st.ubi.vtbl.flatMap (UbiVtblRecord.bytes crc32)

theorem layoutBuf_carries (h : WriteUnits.Ready crc32 mtd st) (htable : Tabled crc32 st) (ec : ℕ) :
    Headed crc32 st.ubi.ui mtd.ebSize (layoutBuf crc32 st.ubi.ui st.ubi.vtbl lnum ec) ∧ ∀ buf,
      Headed crc32 st.ubi.ui mtd.ebSize buf →
      buf.drop ubiEcHdrSize = (layoutBuf crc32 st.ubi.ui st.ubi.vtbl lnum ec).drop ubiEcHdrSize →
        Carries crc32 st.ubi.ui (layoutVi st.ubi.ui) lnum (layoutTable crc32 st) buf := by
  obtain ⟨hoffs, hdataOffs, hleb⟩ := h.layout
  have hpeb := h.pebSize
  have hvtbl := Ready.vtblSize_le h
  have hhdr : ubiEcHdrSize = 64 := rfl
  have hvidLen : (ubigenInitVidHdr crc32 st.ubi.ui (layoutVi st.ubi.ui) lnum []).length = ubiVidHdrSize :=
    ubigenInitVidHdr_length _ _ _ _ _
  have hecLen : (ubigenInitEcHdr crc32 st.ubi.ui ec).length = ubiEcHdrSize := ubigenInitEcHdr_length _ _ _
  have htake : (layoutTable crc32 st).take st.ubi.ui.vtblSize = layoutTable crc32 st := List.take_of_length_le htable.le
  have hbuf : layoutBuf crc32 st.ubi.ui st.ubi.vtbl lnum ec =
      memcpy (memcpy (List.replicate st.ubi.ui.dataOffs 0xFF ++ layoutTable crc32 st ++
        List.replicate (st.ubi.ui.pebSize - st.ubi.ui.dataOffs - st.ubi.ui.vtblSize) 0xFF) 0
          (ubigenInitEcHdr crc32 st.ubi.ui ec)) st.ubi.ui.vidHdrOffs
            (ubigenInitVidHdr crc32 st.ubi.ui (layoutVi st.ubi.ui) lnum []) := by
    rw [layoutBuf]
    rw [show (st.ubi.vtbl.flatMap (UbiVtblRecord.bytes crc32)).take st.ubi.ui.vtblSize = layoutTable crc32 st from htake]
  have hlen : (List.replicate st.ubi.ui.dataOffs 0xFF ++ layoutTable crc32 st ++
      List.replicate (st.ubi.ui.pebSize - st.ubi.ui.dataOffs - st.ubi.ui.vtblSize) (0xFF : UInt8)).length = mtd.ebSize := by
    have := htable
    rw [Tabled] at this
    simp only [List.length_append, List.length_replicate, layoutTable]
    omega
  have hpiece : ((List.replicate st.ubi.ui.dataOffs 0xFF ++ layoutTable crc32 st ++
      List.replicate (st.ubi.ui.pebSize - st.ubi.ui.dataOffs - st.ubi.ui.vtblSize) (0xFF : UInt8)).drop
        st.ubi.ui.dataOffs).take (layoutTable crc32 st).length = layoutTable crc32 st := by
    rw [List.append_assoc, List.drop_left' List.length_replicate, List.take_left' rfl]
  generalize List.replicate st.ubi.ui.dataOffs 0xFF ++ layoutTable crc32 st ++
    List.replicate (st.ubi.ui.pebSize - st.ubi.ui.dataOffs - st.ubi.ui.vtblSize) (0xFF : UInt8) = blank at hbuf hlen hpiece
  have hmid : (memcpy blank 0 (ubigenInitEcHdr crc32 st.ubi.ui ec)).length = mtd.ebSize := by
    rw [memcpy_length _ _ _ (by omega), hlen]
  rw [hbuf]
  constructor
  · have hfirst : Headed crc32 st.ubi.ui mtd.ebSize (memcpy blank 0 (ubigenInitEcHdr crc32 st.ubi.ui ec)) :=
      ⟨hmid, ec, _, rfl⟩
    exact hfirst.memcpy hoffs (by omega)
  · intro buf hheaded hdrop
    refine Headed.carries h hheaded hdrop ?_ ?_
    · exact hvidLen ▸ memcpy_self (by omega)
    · rw [memcpy_after (by omega) (by omega), memcpy_after (by omega) (by omega), hpiece]

structure Laid (crc32 : List UInt8 → ℕ) (mtd : MtdDevInfo) (dev : Device) (a e : ℕ) (st st' : UbiState) (p p' : ℕ) :
    Prop where
  room : a ≤ e ∧ e ≤ mtd.ebCnt
  within : Within mtd a e st st'
  same : SameUbi st st'
  goods : goods st' a e = [p, p']
  last : p' + 1 = e
  first : Carries crc32 st.ubi.ui (layoutVi st.ubi.ui) 0 (layoutTable crc32 st) (pebBytes mtd st' p)
  second : Carries crc32 st.ubi.ui (layoutVi st.ubi.ui) 1 (layoutTable crc32 st) (pebBytes mtd st' p')
  log : FailuresMark dev st st'

theorem layoutVol_laid {ec ec' : ℕ} (h : WriteUnits.Ready crc32 mtd st) (htable : Tabled crc32 st)
    (hrun : ubiWriteLayoutVol dev mtd crc32 a ec ec' st.ubi.vtbl st = (true, st')) :
    ∃ e p p', Laid crc32 mtd dev a e st st' p p' := by
  obtain ⟨hheaded, hcarries⟩ := @layoutBuf_carries mtd crc32 st 0 h htable ec
  have hkept := @WriteUnits.writeOnePeb_headed dev mtd crc32 _ a _ _ hheaded
  have hsame := @writeOnePeb_same dev mtd crc32 a (layoutBuf crc32 st.ubi.ui st.ubi.vtbl 0 ec) st
  unfold ubiWriteLayoutVol at hrun
  cases hfirst : ubiWriteOnePeb dev mtd crc32 a (layoutBuf crc32 st.ubi.ui st.ubi.vtbl 0 ec) st with
  | mk next rest =>
    obtain ⟨buf, st₁⟩ := rest
    rw [hfirst] at hrun hkept hsame
    cases next with
    | none => cases hrun
    | some m =>
      dsimp only at hrun hkept hsame
      obtain ⟨p, hp⟩ := writeOnePeb_placed hheaded hfirst
      have hui := WriteUnits.SameUbi.ui hsame
      obtain ⟨hheaded', hcarries'⟩ := @layoutBuf_carries mtd crc32 st 1 h htable ec'
      rw [← hui] at hheaded'
      have hkept' := @WriteUnits.writeOnePeb_headed dev mtd crc32 _ m _ _ hheaded'
      have hsame' := @writeOnePeb_same dev mtd crc32 m (layoutBuf crc32 st₁.ubi.ui st.ubi.vtbl 1 ec') st₁
      cases hsecond : ubiWriteOnePeb dev mtd crc32 m (layoutBuf crc32 st₁.ubi.ui st.ubi.vtbl 1 ec') st₁ with
      | mk next' rest' =>
        obtain ⟨buf', st₂⟩ := rest'
        rw [hui] at hkept' hheaded' hsecond
        rw [hui, hsecond] at hrun
        rw [hui, hsecond] at hsame'
        rw [hsecond] at hkept'
        cases next' with
        | none => cases hrun
        | some e =>
          cases hrun
          dsimp only at hkept' hsame'
          obtain ⟨p', hp'⟩ := @writeOnePeb_placed dev mtd crc32 st₁ st' m e _ _ (by rw [hui]; exact hheaded') hsecond
          have h1 := hp.next
          have h2 := hp.first
          have h3 := hp'.next
          have h4 := hp'.first
          have h5 := hp'.room
          have hfront : PebWalks.goods st' a m = PebWalks.goods st₁ a m :=
            goods_congr fun b _ hb => hp'.within.flags b (.inl hb)
          refine ⟨e, p, p', ⟨by omega, by omega⟩, (hp.within.mono le_rfl (by omega)).trans (hp'.within.mono (by omega) le_rfl),
            hsame.trans hsame', ?_, hp'.next.symm, ?_, ?_, hp.log.trans hp'.log⟩
          · rw [goods_append st' (show a ≤ m by omega) (show m ≤ e by omega), hfront, hp.goods, hp'.goods]
            rfl
          · rw [hp'.within.bytes p (.inl (by omega)), hp.bytes]
            exact hcarries _ hkept hp.kept
          · rw [hp'.bytes]
            exact hcarries' _ hkept' hp'.kept

end Layout

def EcOnly (crc32 : List UInt8 → ℕ) (mtd : MtdDevInfo) (ui : UbigenInfo) (peb : List UInt8) : Prop :=
  ∃ ec, peb = ubigenInitEcHdr crc32 ui ec ++ List.replicate (mtd.ebSize - ubiEcHdrSize) 0xFF

section Format

theorem formatHdr_eq (ec : ℕ) : formatHdr mtd crc32 ui ec = ubigenInitEcHdr crc32 ui ec ++
    List.replicate (roundUp ubiEcHdrSize mtd.subpageSize - ubiEcHdrSize) 0xFF := by
  rw [formatHdr, memcpy, ubigenInitEcHdr_length, List.take_zero, List.nil_append, Nat.zero_add, List.drop_replicate]

theorem formatHdr_ecOnly {ec : ℕ} {peb : List UInt8} (hlen : (formatHdr mtd crc32 ui ec).length ≤ mtd.ebSize)
    (h : peb = formatHdr mtd crc32 ui ec ++
      List.replicate (mtd.ebSize - (formatHdr mtd crc32 ui ec).length) 0xFF) : EcOnly crc32 mtd ui peb := by
  have hsub : 0 < mtd.subpageSize := Nat.pos_of_dvd_of_pos mtd.subpageSize_dvd mtd.minIoSize_pos
  have hround := VolumeSize.le_roundUp ubiEcHdrSize hsub
  refine ⟨ec, ?_⟩
  rw [formatHdr_eq] at h hlen
  rw [h, List.append_assoc, List.replicate_append_replicate]
  rw [List.length_append, ubigenInitEcHdr_length, List.length_replicate] at hlen ⊢
  congr 2
  omega

structure Formatted (crc32 : List UInt8 → ℕ) (mtd : MtdDevInfo) (ui : UbigenInfo) (a e : ℕ) (st st' : UbiState) : Prop where
  within : Within mtd a e st st'
  same : SameUbi st st'
  blank : ∀ b ∈ goods st' a e, EcOnly crc32 mtd ui (pebBytes mtd st' b)

theorem Formatted.next (h : Formatted crc32 mtd ui a e st st') (hae : a ≤ e) (hwithin : Within mtd e (e + 1) st' st'')
    (hsame : SameUbi st' st'') (hpeb : st''.isEbBad e = true ∨ EcOnly crc32 mtd ui (pebBytes mtd st'' e)) :
    Formatted crc32 mtd ui a (e + 1) st st'' := by
  refine ⟨(h.within.mono le_rfl (by omega)).trans (hwithin.mono hae le_rfl), h.same.trans hsame, fun b hb => ?_⟩
  obtain ⟨h1, h2, h3⟩ := mem_goods.mp hb
  rcases Nat.lt_succ_iff_lt_or_eq.mp h2 with hlt | rfl
  · rw [hwithin.bytes b (.inl hlt)]
    rw [hwithin.flags b (.inl hlt)] at h3
    exact h.blank b (mem_goods.mpr ⟨h1, hlt, h3⟩)
  · rcases hpeb with hbad | hpeb
    · rw [hbad] at h3
      cases h3
    · exact hpeb

theorem formatStep_next_formatted {startEb : ℕ} {c d : FormatCursor} (hui : c.st.ubi.ui = ui)
    (hstep : formatStep dev mtd crc32 startEb c = .next d) :
    Within mtd c.eb (c.eb + 1) c.st d.st ∧ SameUbi c.st d.st ∧
      (d.st.isEbBad c.eb = true ∨ EcOnly crc32 mtd ui (pebBytes mtd d.st c.eb)) := by
  have hsame := @erasePeb_same dev mtd c.eb c.st
  unfold formatStep at hstep
  split at hstep
  · cases hstep
  split_ifs at hstep with hv hbad
  · cases hstep
    exact ⟨within_of_eq rfl rfl, sameUbi_of_eq rfl, .inl hbad⟩
  · dsimp only at hstep
    have hgood := Bool.eq_false_iff.mpr hbad
    obtain ⟨herase, hblank⟩ := @erasePeb_worked dev mtd _ _ hgood
    cases he : erasePeb dev mtd c.eb c.st with
    | fatal st =>
      rw [he] at hstep
      cases hstep
    | bad st =>
      rw [he] at hstep herase hsame
      cases hstep
      cases herase with
      | bad h hflag hlog => exact ⟨h.trans (mapSet_within _ _ _), hsame.trans (sameUbi_of_eq rfl), .inl hflag⟩
    | ok st =>
      rw [he] at hstep herase hsame
      have hblank := hblank st he
      dsimp only at hstep
      cases herase with
      | ok h hflag hlog =>
        have h₁ := h.trans (mapSet_within st (mtdEbRelativeToAbsolute mtd c.eb) .erased)
        have hsame₁ : SameUbi c.st (st.mapSet (mtdEbRelativeToAbsolute mtd c.eb) .erased) :=
          hsame.trans (sameUbi_of_eq rfl)
        obtain ⟨hprogram, hbytes⟩ := @programPeb_worked dev mtd (st.mapSet (mtdEbRelativeToAbsolute mtd c.eb) .erased) _
          (hflag.trans hgood) (formatHdr mtd crc32 c.st.ubi.ui (nextEc c.st c.eb))
        have hsame₂ := @programPeb_same dev mtd c.eb (formatHdr mtd crc32 c.st.ubi.ui (nextEc c.st c.eb))
          (st.mapSet (mtdEbRelativeToAbsolute mtd c.eb) .erased)
        cases hp : programPeb dev mtd c.eb (formatHdr mtd crc32 c.st.ubi.ui (nextEc c.st c.eb))
            (st.mapSet (mtdEbRelativeToAbsolute mtd c.eb) .erased) with
        | fatal st₂ =>
          rw [hp] at hstep
          cases hstep
        | bad st₂ =>
          rw [hp] at hstep hprogram hsame₂
          cases hstep
          cases hprogram with
          | bad h₂ hflag₂ hlog₂ => exact ⟨h₁.trans h₂, hsame₁.trans hsame₂, .inl hflag₂⟩
        | ok st₂ =>
          rw [hp] at hstep hprogram hsame₂
          obtain ⟨hlen, hpeb⟩ := hbytes st₂ hp hblank
          cases hstep
          cases hprogram with
          | ok h₂ hflag₂ hlog₂ =>
            rw [hui] at hlen hpeb
            exact ⟨h₁.trans h₂, hsame₁.trans hsame₂, .inr (formatHdr_ecOnly hlen hpeb)⟩

theorem format_formatted (hle : a ≤ mtd.ebCnt) (hrun : format dev mtd crc32 a st = (.off e, st')) :
    Formatted crc32 mtd st.ubi.ui a mtd.ebCnt st st' := by
  have h : ∀ r, (formatLoop dev mtd crc32 a).exec ⟨a, st⟩ = r → ∀ e, r.1 = .off e →
      Formatted crc32 mtd st.ubi.ui a mtd.ebCnt st r.2 := by
    rintro r rfl
    refine (formatLoop dev mtd crc32 a).exec_rule
      (I := fun c => (a ≤ c.eb ∧ c.eb ≤ mtd.ebCnt) ∧ Formatted crc32 mtd st.ubi.ui a c.eb st c.st)
      (Q := fun r => ∀ e, r.1 = .off e → Formatted crc32 mtd st.ubi.ui a mtd.ebCnt st r.2) ?_ ?_ ⟨⟨le_rfl, hle⟩, ?_⟩
    · rintro c d ⟨⟨h1, h2⟩, hformatted⟩ hstep
      obtain ⟨hv, heb⟩ := formatStep_next dev mtd crc32 hstep
      obtain ⟨hwithin, hsame, hpeb⟩ := formatStep_next_formatted (WriteUnits.SameUbi.ui hformatted.same) hstep
      rw [heb]
      exact ⟨⟨by omega, hv⟩, hformatted.next h1 hwithin hsame hpeb⟩
    · rintro c r ⟨⟨h1, h2⟩, hformatted⟩ hstep e he
      have hstep : formatStep dev mtd crc32 a c = .done r := hstep
      unfold formatStep at hstep
      split at hstep
      · cases hstep
        cases he
      split_ifs at hstep with hv
      · rw [le_antisymm h2 hv] at hformatted
        cases hstep
        exact hformatted
      · dsimp only at hstep
        split at hstep
        · cases hstep
          cases he
        · cases hstep
        · split at hstep
          · cases hstep
            cases he
          · cases hstep
          · cases hstep
    · refine ⟨within_of_eq rfl rfl, sameUbi_of_eq rfl, fun b hb => ?_⟩
      rw [goods_empty st le_rfl] at hb
      cases hb
  exact h _ hrun e rfl

end Format

section Bypass

theorem PebWorked.andThen {r : PebResult} {f : UbiState → PebResult} (h : PebWorked dev mtd a st r)
    (hgood : st.isEbBad a = false) (hf : ∀ st', st'.isEbBad a = false → PebWorked dev mtd a st' (f st')) :
    PebWorked dev mtd a st (r.andThen f) := by
  cases h with
  | fatal => exact .fatal
  | bad h hflag hlog => exact .bad h hflag hlog
  | ok h hflag hlog =>
    rename_i st'
    have hnext := hf st' (hflag.trans hgood)
    rw [PebResult.andThen]
    cases hr : f st' with
    | fatal st'' => exact .fatal
    | bad st'' =>
      rw [hr] at hnext
      cases hnext with
      | bad h' hflag' hlog' => exact .bad (h.trans h') hflag' (hlog.trans hlog')
    | ok st'' =>
      rw [hr] at hnext
      cases hnext with
      | ok h' hflag' hlog' => exact .ok (h.trans h') (hflag'.trans hflag) (hlog.trans hlog')

theorem bypassPeb_worked (hgood : st.isEbBad a = false) : PebWorked dev mtd a st (bypassPeb dev mtd a st) :=
  PebWorked.andThen (erasePeb_worked hgood).1 hgood fun _ h =>
    PebWorked.andThen (programPeb_worked h _).1 h fun _ h' => (erasePeb_worked h').1

structure Bypassed (mtd : MtdDevInfo) (a e n : ℕ) (st st' : UbiState) : Prop where
  le : a ≤ e
  room : e ≤ mtd.ebCnt
  within : Within mtd a e st st'
  count : (goods st' a e).length = n

theorem Bypassed.next {n k : ℕ} (h : Bypassed mtd a e n st st') (hv : e < mtd.ebCnt)
    (hwithin : Within mtd e (e + 1) st' st'') (hpeb : k = if st''.isEbBad e = true then 0 else 1) :
    Bypassed mtd a (e + 1) (n + k) st st'' := by
  have hle := h.le
  have hfront : goods st'' a e = goods st' a e := goods_congr fun b _ hb => hwithin.flags b (.inl hb)
  refine ⟨by omega, hv, (h.within.mono le_rfl (by omega)).trans (hwithin.mono hle le_rfl), ?_⟩
  rw [goods_append st'' hle (Nat.le_succ e), hfront, List.length_append, h.count, hpeb,
    goods_cons st'' (Nat.lt_succ_self e), goods_empty st'' le_rfl]
  split_ifs <;> rfl

def BypassEnds (mtd : MtdDevInfo) (a : ℕ) (st : UbiState) (r : Option ℕ × UbiState) : Prop :=
  ∀ e, r.1 = some e → ∃ n, Bypassed mtd a e n st r.2 ∧ (n = ubiLayoutVolumeEbs ∨ e = mtd.ebCnt ∧ n < ubiLayoutVolumeEbs)

theorem Bypassed.exit {c : BypassCursor} (h : Bypassed mtd a c.eb c.validEb st c.st)
    (hc : c.validEb = ubiLayoutVolumeEbs ∨ c.eb = mtd.ebCnt ∧ c.validEb < ubiLayoutVolumeEbs) :
    BypassEnds mtd a st (bypassExit mtd c) := by
  intro e he
  unfold bypassExit at he ⊢
  split_ifs at he ⊢ with hv
  obtain rfl := Option.some.inj he
  exact ⟨c.validEb, ⟨h.le, h.room, ⟨h.within.flags, h.within.bytes, h.within.kept⟩, h.count⟩, hc⟩

theorem bypass_bypassed (hfresh : st.ubi.layoutVolumeStartEb = 0)
    (hrun : ubiBypassLayoutVol dev mtd a st = (some e, st')) :
    ∃ n, Bypassed mtd a e n st st' ∧ (n = ubiLayoutVolumeEbs ∨ e = mtd.ebCnt ∧ n < ubiLayoutVolumeEbs) := by
  unfold ubiBypassLayoutVol at hrun
  rw [hfresh, if_neg (lt_irrefl 0)] at hrun
  by_cases hstart : mtd.ebCnt < a
  · have hnone : (bypassLoop dev mtd).exec ⟨a, 0, st⟩ = (none, st) := by
      rw [Loop.exec_done _ (@LayoutBypass.bypassStep_end dev _ ⟨a, 0, st⟩ hstart.le), bypassExit, if_pos hstart]
    rw [hnone] at hrun
    cases hrun
  · have h : ∀ r, (bypassLoop dev mtd).exec ⟨a, 0, st⟩ = r → BypassEnds mtd a st r := by
      rintro r rfl
      refine (bypassLoop dev mtd).exec_rule
        (I := fun c => Bypassed mtd a c.eb c.validEb st c.st ∧ c.validEb < ubiLayoutVolumeEbs)
        (Q := BypassEnds mtd a st) ?_ ?_ ⟨⟨le_rfl, not_lt.mp hstart, within_of_eq rfl rfl, ?_⟩, Nat.zero_lt_two⟩
      · rintro c d ⟨hpassed, hfew⟩ hstep
        have hv := (bypassStep_next dev mtd hstep).1
        have hstep : bypassStep dev mtd c = .next d := hstep
        unfold bypassStep at hstep
        split_ifs at hstep with h1 h2
        · cases hstep
          exact ⟨hpassed.next (k := 0) hv (within_of_eq rfl rfl) (by rw [if_pos h2]), hfew⟩
        · have hpeb := @bypassPeb_worked dev mtd _ _ (Bool.eq_false_iff.mpr h2)
          cases hr : bypassPeb dev mtd c.eb c.st with
          | fatal st₁ =>
            rw [hr] at hstep
            cases hstep
          | bad st₁ =>
            rw [hr] at hstep hpeb
            cases hstep
            cases hpeb with
            | bad h hflag hlog => exact ⟨hpassed.next (k := 0) hv h (by rw [if_pos hflag]), hfew⟩
          | ok st₁ =>
            rw [hr] at hstep hpeb
            dsimp only at hstep
            split_ifs at hstep with hfull
            cases hstep
            cases hpeb with
            | ok h hflag hlog =>
              exact ⟨hpassed.next (k := 1) hv h (by rw [hflag, if_neg h2]), not_le.mp hfull⟩
      · rintro c r ⟨hpassed, hfew⟩ hstep
        have hstep : bypassStep dev mtd c = .done r := hstep
        unfold bypassStep at hstep
        split_ifs at hstep with h1 h2
        · cases hstep
          exact hpassed.exit (.inr ⟨le_antisymm hpassed.room h1, hfew⟩)
        · have hpeb := @bypassPeb_worked dev mtd _ _ (Bool.eq_false_iff.mpr h2)
          cases hr : bypassPeb dev mtd c.eb c.st with
          | fatal st₁ =>
            rw [hr] at hstep
            cases hstep
            exact fun e he => by cases he
          | bad st₁ =>
            rw [hr] at hstep
            cases hstep
          | ok st₁ =>
            rw [hr] at hstep hpeb
            dsimp only at hstep
            split_ifs at hstep with hfull
            cases hstep
            cases hpeb with
            | ok h hflag hlog =>
              have hlast := hpassed.next (k := 1) (not_le.mp h1) h (by rw [hflag, if_neg h2])
              exact Bypassed.exit (c := ⟨c.eb + 1, c.validEb + 1, st₁⟩) hlast (.inl (le_antisymm hfew hfull))
      · rw [goods_empty st le_rfl]
        rfl
    exact h _ hrun e rfl

end Bypass

end LinuxRecovery.VolumeImage
