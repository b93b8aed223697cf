import LinuxRecovery.PageWrites
import LinuxRecovery.ProgressDivisor
import LinuxRecovery.RecordedBlocks

namespace LinuxRecovery.WriteUnits

open Loops ByteMemory GoodBlocks Libmtd BlockMap BasicWrite PageWrites MtdBlock
open ProgressDivisor (Accepted basicWrite_accepted basicWrite_refused)

/-- The call is accepted, asks the driver for this one block only, and hands back the start of the next. -/
def Occupies (mtd : MtdDevInfo) (b : ℕ) (ret : Ret) (s s' : Chip) : Prop :=
  ret = .off (mtd.start + (b + 1) * mtd.ebSize) ∧ IssuesTo mtd.start b s s'

section Basic

variable {dev : Device} {mtd : MtdDevInfo} {fs : FsKind} {maxSize : ℕ}

theorem writeLoop_reach {c : Cursor} {n : ℕ} (hr : ((writeLoop dev mtd fs maxSize).exec c).ret = .off n) :
    mtd.start + min (c.wOffset + span mtd fs c) mtd.size ≤ n := by
  induction c using (writeLoop dev mtd fs maxSize).induct with
  | h c ih =>
    cases hstep : (writeLoop dev mtd fs maxSize).step c with
    | done r =>
      rw [Loop.exec_done _ hstep] at hr
      obtain ⟨hexit, -, rfl⟩ := writeStep_off dev mtd fs maxSize hstep hr
      cases hr
      rcases hexit with h0 | hend
      · rw [span, h0, Nat.zero_div, Nat.zero_mul]
        omega
      · omega
    | next d =>
      rw [Loop.exec_next _ hstep] at hr
      have hrest := ih d hstep hr
      obtain ⟨e, he, -, hmove⟩ := writeStep_moves dev mtd fs maxSize hstep
      have hle := enterBlock_le mtd he
      have hspan : c.wOffset + span mtd fs c ≤ d.wOffset + span mtd fs d := by
        rcases hmove with ⟨ho, -, hl, -⟩ | ⟨ho, -, hl, -⟩
        · have hdiv : c.wLength / pagelen mtd fs ≤ d.wLength / pagelen mtd fs + 1 := by
            rw [hl, ← Nat.add_div_right _ (pagelen_pos mtd fs)]
            apply Nat.div_le_div_right
            have := writen_le_pagelen mtd fs c
            omega
          have hmul := Nat.mul_le_mul_right mtd.minIoSize hdiv
          rw [Nat.add_mul, Nat.one_mul] at hmul
          unfold span
          omega
        · have hnext := lt_nextBlock mtd.ebSize_pos e.wOffset
          unfold span
          rw [hl]
          omega
      omega

theorem writeLoop_skips {b progressSize n : ℕ} {buf : List UInt8} {st : BmState} (hb : b < mtd.ebCnt) (hne : buf ≠ [])
    (hnand : mtdTypeIsNand mtd = true) (hbad : mtdBmBlockMapIsBad st b = true)
    (hr : ((writeLoop dev mtd fs maxSize).exec (writeStart fs (b * mtd.ebSize) progressSize buf st)).ret = .off n) :
    mtd.start + (b + 1) * mtd.ebSize < n := by
  have hfits := @block_fits mtd _ hb
  have hpos := mtd.ebSize_pos
  have hio := mtd.minIoSize_pos
  set c := writeStart fs (b * mtd.ebSize) progressSize buf st
  cases hstep : (writeLoop dev mtd fs maxSize).step c with
  | done r =>
    rw [Loop.exec_done _ hstep] at hr
    obtain ⟨hexit, -, -⟩ := writeStep_off dev mtd fs maxSize hstep hr
    rcases hexit with h0 | hend
    · exact absurd (List.length_eq_zero_iff.mp h0) hne
    · have hend : mtd.size ≤ b * mtd.ebSize := hend
      omega
  | next d =>
    rw [Loop.exec_next _ hstep] at hr
    have hreach := writeLoop_reach hr
    obtain ⟨-, hw, -⟩ := writeStep_next dev mtd fs maxSize hstep
    obtain ⟨e, he, -, hmove⟩ := writeStep_moves dev mtd fs maxSize hstep
    have hle : b * mtd.ebSize ≤ e.wOffset := enterBlock_le mtd he
    have hent := enterBlock_entered mtd he (writeStart_settled mtd fs _ progressSize buf st) hw
    have hgood := hent.good hnand
    rw [enterBlock_frame mtd he] at hgood
    have hinside := hent.inside
    have hfar : (b + 1) * mtd.ebSize ≤ e.wOffset := by
      by_contra hlt
      have hidx : mtdOffsetToEbIndex mtd e.wOffset = b :=
        Nat.div_eq_of_lt_le hle (not_le.mp hlt)
      rw [hidx] at hgood
      exact absurd (hgood.symm.trans hbad) Bool.false_ne_true
    have hlt : e.wOffset < d.wOffset := by
      rcases hmove with ⟨ho, -⟩ | ⟨ho, -⟩
      · omega
      · have := lt_nextBlock mtd.ebSize_pos e.wOffset
        omega
    omega

theorem occupies_iff {b progressSize : ℕ} {buf : List UInt8} {st : BmState} (hb : b < mtd.ebCnt) (hne : buf ≠ [])
    (hserved : Served dev mtd (b * mtd.ebSize) mtd.ebSize) (hmapped : st.map.isSome = true)
    (htab : ∀ ls, st.sysinfo = some ls → Tabled ls) (hecc : fs.flag.noecc = false)
    (hpad : fs.flag.pad = true → pagelen mtd fs ∣ buf.length) {out : Outcome}
    (hout : mtdBasicWrite dev mtd fs maxSize progressSize (mtd.start + b * mtd.ebSize : ℕ) buf st = out) :
    Occupies mtd b out.ret st.toChip out.st.toChip ↔
      maxSize ≠ 0 ∧ (pagelen mtd fs ∣ buf.length ∧ buf.length / pagelen mtd fs * mtd.minIoSize = mtd.ebSize) ∧
        (mtdTypeIsNand mtd = true → mtdBmBlockMapIsBad st b = false) ∧
        Saved st (mtd.start + b * mtd.ebSize) mtd.ebSize := by
  have hfits := @block_fits mtd _ hb
  have hstart (hdvd : pagelen mtd fs ∣ buf.length)
      (hspan : b * mtd.ebSize + buf.length / pagelen mtd fs * mtd.minIoSize ≤ mtd.size) :
      (writeLoop dev mtd fs maxSize).exec (writeStart fs (b * mtd.ebSize) progressSize buf st) = out :=
    (basicWrite_start hspan hmapped (mtd.minIoSize_dvd.mul_left b) (Or.inr hdvd) hecc).symm.trans hout
  have hpaged (hdvd : pagelen mtd fs ∣ buf.length) (hle : buf.length / pagelen mtd fs * mtd.minIoSize ≤ mtd.ebSize)
      (hgood : mtdTypeIsNand mtd = true → mtdBmBlockMapIsBad st b = false) :
      Paged mtd fs (writeStart fs (b * mtd.ebSize) progressSize buf st) := by
    refine ⟨mtd.minIoSize_dvd.mul_left b, hdvd, rfl, ?_, ?_⟩
    · exact (by omega : b * mtd.ebSize + buf.length / pagelen mtd fs * mtd.minIoSize ≤ mtd.size)
    · intro hn x h1 h2
      have h1 : b * mtd.ebSize ≤ x := h1
      have h2 : x < b * mtd.ebSize + buf.length / pagelen mtd fs * mtd.minIoSize := h2
      have hidx : mtdOffsetToEbIndex mtd x = b := Nat.div_eq_of_lt_le h1 (by rw [Nat.succ_mul]; omega)
      rw [hidx]
      exact hgood hn
  constructor
  · rintro ⟨hret, -⟩
    have haccepted : Accepted dev mtd fs (mtd.start + b * mtd.ebSize : ℕ) buf.length st := by
      by_contra hrefused
      have hfail := @basicWrite_refused dev mtd fs maxSize progressSize _ _ _ hrefused
      rw [hout, hret] at hfail
      cases hfail
    have hdvd : pagelen mtd fs ∣ buf.length := by
      cases hp : fs.flag.pad with
      | true => exact hpad hp
      | false =>
        by_contra hne
        exact haccepted.paged ⟨hp, fun h0 => hne (Nat.dvd_of_mod_eq_zero h0)⟩
    have hspan : b * mtd.ebSize + buf.length / pagelen mtd fs * mtd.minIoSize ≤ mtd.size := by
      have hroom := haccepted.fits
      have hsub : ((mtd.start + b * mtd.ebSize : ℕ) : ℤ) - mtd.start = (b * mtd.ebSize : ℕ) := by push_cast; ring
      rw [hsub] at hroom
      omega
    have hloop := hstart hdvd hspan
    have hoff := (congrArg Outcome.ret hloop).trans hret
    have hreach : mtd.start + min (b * mtd.ebSize + buf.length / pagelen mtd fs * mtd.minIoSize) mtd.size ≤
        mtd.start + (b + 1) * mtd.ebSize := writeLoop_reach hoff
    rw [Nat.succ_mul] at hreach
    have hgood : mtdTypeIsNand mtd = true → mtdBmBlockMapIsBad st b = false := by
      intro hn
      by_contra hbad
      exact absurd (writeLoop_skips hb hne hn (by simpa using hbad) hoff) (lt_irrefl _)
    have hle : buf.length / pagelen mtd fs * mtd.minIoSize ≤ mtd.ebSize := by omega
    have hm := writeLoop_off dev mtd fs maxSize hoff
    rcases writeLoop_paged (fun x h1 h2 => hserved x h1 (Nat.lt_of_lt_of_le h2 (Nat.add_le_add_left hle _))) hm
      (hpaged hdvd hle hgood) htab hloop with ⟨hsaved, hret', -⟩ | ⟨-, hfail⟩
    · rw [hret] at hret'
      have heq : mtd.start + (b + 1) * mtd.ebSize =
          b * mtd.ebSize + buf.length / pagelen mtd fs * mtd.minIoSize + mtd.start := Ret.off.inj hret'
      rw [Nat.succ_mul] at heq
      have hfill : buf.length / pagelen mtd fs * mtd.minIoSize = mtd.ebSize := by omega
      have hsaved : Saved st (mtd.start + b * mtd.ebSize) (buf.length / pagelen mtd fs * mtd.minIoSize) := hsaved
      rw [hfill] at hsaved
      exact ⟨hm, ⟨hdvd, hfill⟩, hgood, hsaved⟩
    · rw [hret] at hfail
      cases hfail
  · rintro ⟨hm, ⟨hdvd, hfill⟩, hgood, hsaved⟩
    have hloop := hstart hdvd (by omega)
    have hspan : span mtd fs (writeStart fs (b * mtd.ebSize) progressSize buf st) = mtd.ebSize := hfill
    rcases writeLoop_paged (by rw [hspan]; exact hserved) hm (hpaged hdvd hfill.le hgood) htab hloop with
      ⟨-, hret, new, hnew, htarget⟩ | ⟨hunsaved, -⟩
    · rw [hspan] at hret htarget
      refine ⟨hret.trans (congrArg Ret.off ?_), new, hnew, ?_⟩
      · change b * mtd.ebSize + mtd.ebSize + mtd.start = _
        rw [Nat.succ_mul, Nat.add_comm]
      · intro call hcall
        obtain ⟨x, h1, h2, ht⟩ := htarget call hcall
        have h1 : b * mtd.ebSize ≤ x := h1
        have h2 : x < b * mtd.ebSize + mtd.ebSize := h2
        rw [ht, show mtdOffsetToEbIndex mtd x = b from Nat.div_eq_of_lt_le h1 (by rw [Nat.succ_mul]; omega)]
    · rw [hspan] at hunsaved
      exact absurd hsaved hunsaved

end Basic

section Geometry

variable {mtd : MtdDevInfo}

theorem block_fills {fs : FsKind} (h : fs.flag.writeoob = false) : pagelen mtd fs ∣ mtd.ebSize ∧
    mtd.ebSize / pagelen mtd fs * mtd.minIoSize = mtd.ebSize := by
  have hpage : pagelen mtd fs = mtd.minIoSize := by
    unfold pagelen
    rw [h, Bool.and_false, if_neg Bool.false_ne_true]
  rw [hpage]
  exact ⟨mtd.minIoSize_dvd, Nat.div_mul_cancel mtd.minIoSize_dvd⟩

theorem tagged_fills_iff : (pagelen mtd fsYaffs2 ∣ mtd.ebSize + yaffs2TagSize ∧
      (mtd.ebSize + yaffs2TagSize) / pagelen mtd fsYaffs2 * mtd.minIoSize = mtd.ebSize) ↔
    mtdTypeIsNand mtd = true ∧ mtd.ebSize = mtd.minIoSize := by
  have hpos := mtd.minIoSize_pos
  cases hn : mtdTypeIsNand mtd with
  | true =>
    have hpage : pagelen mtd fsYaffs2 = mtd.minIoSize + yaffs2TagSize := by
      unfold pagelen
      rw [hn]
      rfl
    rw [hpage]
    constructor
    · rintro ⟨⟨q, hq⟩, hfill⟩
      rw [hq, Nat.mul_div_cancel_left _ (by omega)] at hfill
      rw [Nat.add_mul, Nat.mul_comm mtd.minIoSize, hfill] at hq
      have hone : q = 1 := by
        unfold yaffs2TagSize at hq
        omega
      rw [hone, Nat.one_mul] at hfill
      exact ⟨rfl, hfill.symm⟩
    · rintro ⟨-, heq⟩
      rw [heq, Nat.div_self (by omega), Nat.one_mul]
      exact ⟨dvd_rfl, rfl⟩
  | false =>
    have hpage : pagelen mtd fsYaffs2 = mtd.minIoSize := by
      unfold pagelen
      rw [hn]
      rfl
    rw [hpage]
    constructor
    · rintro ⟨hdvd, hfill⟩
      rw [Nat.div_mul_cancel hdvd, yaffs2TagSize] at hfill
      omega
    · rintro ⟨h, -⟩
      cases h

end Geometry

section Volume

open Ubigen UbiPrepare UbiVolume
open Sysinfo (memcpy memcpy_length)
open UbiPeb (UbiState PebResult PebCursor erasePeb programPeb dropFfs nextEc ubiWriteOnePeb writePebStep writePebLoop
  writePebStep_next SameUbi erasePeb_same writePebStep_same writeOnePeb_same PebOutcome)

variable {dev : Device} {mtd : MtdDevInfo} {crc32 : List UInt8 → ℕ}

def Headed (crc32 : List UInt8 → ℕ) (ui : UbigenInfo) (n : ℕ) (buf : List UInt8) : Prop :=
  buf.length = n ∧ ∃ ec rest, buf = ubigenInitEcHdr crc32 ui ec ++ rest

theorem memcpy_behind {head rest data : List UInt8} {i : ℕ} (h : head.length ≤ i) :
    memcpy (head ++ rest) i data = head ++ memcpy rest (i - head.length) data := by
  unfold memcpy
  have htake : (head ++ rest).take i = head ++ rest.take (i - head.length) := by
    rw [List.take_append, List.take_of_length_le h]
  have hdrop : (head ++ rest).drop (i + data.length) = rest.drop (i - head.length + data.length) := by
    rw [List.drop_append, List.drop_eq_nil_of_le (by omega), List.nil_append]
    congr 1
    omega
  rw [htake, hdrop, List.append_assoc, List.append_assoc, List.append_assoc]

theorem Headed.memcpy {ui : UbigenInfo} {n i : ℕ} {buf data : List UInt8} (h : Headed crc32 ui n buf)
    (hi : ubiEcHdrSize ≤ i) (hn : i + data.length ≤ n) : Headed crc32 ui n (memcpy buf i data) := by
  obtain ⟨hlen, ec, rest, rfl⟩ := h
  refine ⟨(memcpy_length _ _ _ (by omega)).trans hlen, ec, _, memcpy_behind ?_⟩
  rwa [ubigenInitEcHdr_length]

theorem Headed.change {ui : UbigenInfo} {n : ℕ} {buf : List UInt8} (h : Headed crc32 ui n buf) (ec : ℕ) :
    ∃ buf', changeEch crc32 ui.imageSeq ec buf = some buf' ∧ Headed crc32 ui n buf' := by
  obtain ⟨hlen, ec₀, rest, rfl⟩ := h
  refine ⟨_, changeEch_generated crc32 ui ec₀ ec rest, ?_, ec, rest, rfl⟩
  rw [← hlen, List.length_append, List.length_append, ubigenInitEcHdr_length, ubigenInitEcHdr_length]

theorem dropFfs_take {buf : List UInt8} (h : buf.length = mtd.ebSize) :
    (buf.take (dropFfs mtd buf)).length ≤ mtd.ebSize ∧ (buf.take (dropFfs mtd buf)).length % mtd.subpageSize = 0 := by
  have hpos := mtd.minIoSize_pos
  have hlen : (buf.reverse.dropWhile (· == 0xFF)).length ≤ mtd.ebSize := by
    have := (List.dropWhile_sublist (l := buf.reverse) (· == 0xFF)).length_le
    rw [List.length_reverse] at this
    omega
  have hle : dropFfs mtd buf ≤ mtd.ebSize := by
    obtain ⟨k, hk⟩ := mtd.minIoSize_dvd
    rw [hk] at hlen ⊢
    unfold dropFfs
    rw [Nat.mul_comm mtd.minIoSize]
    apply Nat.mul_le_mul_right
    rw [← Nat.lt_succ_iff, Nat.div_lt_iff_lt_mul hpos, Nat.succ_mul, Nat.mul_comm k]
    omega
  have heq : (buf.take (dropFfs mtd buf)).length = dropFfs mtd buf := by rw [List.length_take]; omega
  rw [heq]
  refine ⟨hle, Nat.mod_eq_zero_of_dvd ?_⟩
  exact (mtd.subpageSize_dvd).trans (Dvd.intro_left _ rfl)

theorem SameUbi.ui {st st' : UbiState} (h : SameUbi st st') : st'.ubi.ui = st.ubi.ui := by
  obtain ⟨si, hsi⟩ := h
  rw [hsi]

theorem writePebStep_headed {ui : UbigenInfo} {n : ℕ} {c : PebCursor} (hui : c.st.ubi.ui = ui)
    (h : Headed crc32 ui n c.buf) :
    Headed crc32 ui n (after PebCursor.buf (fun r : PebOutcome => r.2.1) (writePebStep dev mtd crc32 c)) := by
  have herase := @erasePeb_same dev mtd c.eb c.st
  unfold writePebStep
  split_ifs
  · exact h
  · exact h
  · split
    · exact h
    · exact h
    · rename_i st heq
      rw [heq] at herase
      have hui : (st.mapSet (mtdEbRelativeToAbsolute mtd c.eb) .erased).ubi.ui = ui := (SameUbi.ui herase).trans hui
      obtain ⟨buf, hchange, hbuf⟩ := h.change (nextEc (st.mapSet (mtdEbRelativeToAbsolute mtd c.eb) .erased) c.eb)
      dsimp only
      rw [hui, hchange]
      dsimp only
      split
      · exact hbuf
      · exact hbuf
      · exact hbuf

theorem writeOnePeb_headed {n eb : ℕ} {buf : List UInt8} {st : UbiState} (h : Headed crc32 st.ubi.ui n buf) :
    Headed crc32 st.ubi.ui n (ubiWriteOnePeb dev mtd crc32 eb buf st).2.1 := by
  refine (writePebLoop dev mtd crc32).exec_rule
    (I := fun c => c.st.ubi.ui = st.ubi.ui ∧ Headed crc32 st.ubi.ui n c.buf)
    (Q := fun r => Headed crc32 st.ubi.ui n r.2.1) ?_ ?_ (s := ⟨eb, buf, st⟩) ⟨rfl, h⟩
  · rintro c d ⟨hc, hbuf⟩ hstep
    have hsame := @writePebStep_same dev mtd crc32 c
    have hkept := @writePebStep_headed dev mtd _ _ _ _ hc hbuf
    rw [show writePebStep dev mtd crc32 c = .next d from hstep] at hsame hkept
    exact ⟨(SameUbi.ui hsame).trans hc, hkept⟩
  · rintro c r ⟨hc, hbuf⟩ hstep
    have hkept := @writePebStep_headed dev mtd _ _ _ _ hc hbuf
    rwa [show writePebStep dev mtd crc32 c = .done r from hstep] at hkept

theorem writeOnePeb_later {eb e : ℕ} {buf : List UInt8} {st : UbiState}
    (h : (ubiWriteOnePeb dev mtd crc32 eb buf st).1 = some e) : eb + 1 ≤ e := by
  refine (writePebLoop dev mtd crc32).exec_rule (I := fun c => eb ≤ c.eb) (Q := fun r => ∀ e, r.1 = some e → eb + 1 ≤ e)
    ?_ ?_ (s := ⟨eb, buf, st⟩) le_rfl e h
  · intro c d hc hstep
    have := (writePebStep_next dev mtd crc32 hstep).2
    omega
  · intro c r hc hstep e he
    have hstep : writePebStep dev mtd crc32 c = .done r := hstep
    unfold writePebStep at hstep
    split_ifs at hstep
    · cases hstep
      cases he
    · split at hstep
      · cases hstep
        cases he
      · cases hstep
      · dsimp only at hstep
        split at hstep
        · cases hstep
          cases he
        · split at hstep
          · cases hstep
            cases he
          · cases hstep
          · cases hstep
            cases he
            omega

theorem writeOnePeb_skips {b e : ℕ} {buf : List UInt8} {st : UbiState} (hb : b < mtd.ebCnt) (hbad : st.isEbBad b = true)
    (h : (ubiWriteOnePeb dev mtd crc32 b buf st).1 = some e) : b + 2 ≤ e := by
  have hstep : writePebStep dev mtd crc32 ⟨b, buf, st⟩ = .next ⟨b + 1, buf, st⟩ := by
    unfold writePebStep
    rw [if_neg (not_le.mpr hb), if_pos hbad]
  have hnext : ubiWriteOnePeb dev mtd crc32 b buf st = ubiWriteOnePeb dev mtd crc32 (b + 1) buf st :=
    (writePebLoop dev mtd crc32).exec_next hstep
  rw [hnext] at h
  exact writeOnePeb_later h

theorem writeOnePeb_served {b : ℕ} {buf : List UInt8} {st : UbiState} (hb : b < mtd.ebCnt)
    (hserved : Served dev mtd (b * mtd.ebSize) mtd.ebSize) (hgood : st.isEbBad b = false)
    (h : Headed crc32 st.ubi.ui mtd.ebSize buf) :
    (ubiWriteOnePeb dev mtd crc32 b buf st).1 = some (b + 1) ∧
      IssuesTo mtd.start b st.toChip (ubiWriteOnePeb dev mtd crc32 b buf st).2.2.toChip := by
  have hvalid : mtdValidEraseBlock mtd b = true := decide_eq_true hb
  have hreply (calls : List DevCall) (call : DevCall) (ht : call.target = (mtd.start, b)) :
      dev.reply (calls ++ [call]) = none := by
    refine hserved (b * mtd.ebSize) le_rfl (by have := mtd.ebSize_pos; omega) calls call ?_
    rw [ht, mtdOffsetToEbIndex, Nat.mul_div_cancel _ mtd.ebSize_pos]
  have herased := mtdErase_issues dev mtd b st.toChip
  have herase : ∃ chip, erasePeb dev mtd b st = .ok (st.withChip chip) ∧ IssuesTo mtd.start b st.toChip chip := by
    refine ⟨(mtdErase dev mtd b st.toChip).2, ?_, herased⟩
    have hnone : (mtdErase dev mtd b st.toChip).1 = none := by
      unfold mtdErase
      rw [hvalid, if_neg (by simp)]
      dsimp only
      rw [hreply _ _ rfl]
    unfold erasePeb
    rw [show mtdErase dev mtd b st.toChip = (none, (mtdErase dev mtd b st.toChip).2) from Prod.ext hnone rfl]
  obtain ⟨chip, herase, hissued⟩ := herase
  set st₁ := (st.withChip chip).mapSet (mtdEbRelativeToAbsolute mtd b) .erased with hst₁
  obtain ⟨buf', hchange, hbuf'⟩ := h.change (nextEc st₁ b)
  obtain ⟨hroom, hwhole⟩ := @dropFfs_take mtd _ hbuf'.1
  have hprogram : programPeb dev mtd b (buf'.take (dropFfs mtd buf')) st₁ =
      .ok (st₁.withChip (mtdWrite dev mtd b 0 (buf'.take (dropFfs mtd buf')) none .placeOob st₁.toChip).2) := by
    have hnone : (mtdWrite dev mtd b 0 (buf'.take (dropFfs mtd buf')) none .placeOob st₁.toChip).1 = none := by
      unfold mtdWrite
      rw [hvalid, if_neg (by simp), if_neg (by omega), if_neg (by simp), if_neg (not_not.mpr hwhole)]
      dsimp only
      rw [hreply _ _ rfl]
    unfold programPeb
    rw [show mtdWrite dev mtd b 0 (buf'.take (dropFfs mtd buf')) none .placeOob st₁.toChip =
      (none, (mtdWrite dev mtd b 0 (buf'.take (dropFfs mtd buf')) none .placeOob st₁.toChip).2) from Prod.ext hnone rfl]
  have hstep : writePebStep dev mtd crc32 ⟨b, buf, st⟩ = .done (some (b + 1), buf',
      st₁.withChip (mtdWrite dev mtd b 0 (buf'.take (dropFfs mtd buf')) none .placeOob st₁.toChip).2) := by
    unfold writePebStep
    rw [if_neg (not_le.mpr hb), if_neg (by rw [hgood]; exact Bool.false_ne_true), herase]
    dsimp only
    rw [← hst₁, show st₁.ubi.ui.imageSeq = st.ubi.ui.imageSeq from rfl, hchange]
    dsimp only
    rw [hprogram]
  have hexec : ubiWriteOnePeb dev mtd crc32 b buf st = _ := (writePebLoop dev mtd crc32).exec_done hstep
  rw [hexec]
  exact ⟨rfl, hissued.trans (mtdWrite_issues dev mtd b 0 _ none .placeOob chip)⟩

/-- The parameters of a prepared image: those of the partition, a volume of whole LEBs, and a headed buffer. -/
structure Ready (crc32 : List UInt8 → ℕ) (mtd : MtdDevInfo) (st : UbiState) : Prop where
  ui : ∃ imageSeq, st.ubi.ui = ubigenInfoInit mtd.ebSize mtd.minIoSize mtd.subpageSize 0 1 imageSeq
  leb : 1 < st.ubi.ui.lebSize
  vi : ∃ vi, st.ubi.vi = some vi ∧ (vi.usableLebSize : ℤ) = st.ubi.ui.lebSize
  outbuf : Headed crc32 st.ubi.ui mtd.ebSize st.ubi.outbuf

section Layout

variable {st st' : UbiState}

theorem Ready.pebSize (h : Ready crc32 mtd st) : st.ubi.ui.pebSize = mtd.ebSize := by
  obtain ⟨imageSeq, hui⟩ := h.ui
  rw [hui]
  rfl

theorem Ready.layout (h : Ready crc32 mtd st) : ubiEcHdrSize ≤ st.ubi.ui.vidHdrOffs ∧
    st.ubi.ui.vidHdrOffs + ubiVidHdrSize ≤ st.ubi.ui.dataOffs ∧
    st.ubi.ui.lebSize = (mtd.ebSize : ℤ) - st.ubi.ui.dataOffs := by
  obtain ⟨imageSeq, hui⟩ := h.ui
  have hsub : 0 < mtd.subpageSize := Nat.pos_of_dvd_of_pos mtd.subpageSize_dvd mtd.minIoSize_pos
  rw [hui]
  exact ⟨VolumeSize.le_roundUp _ hsub, VolumeSize.le_roundUp _ mtd.minIoSize_pos, rfl⟩

theorem Ready.fill (h : Ready crc32 mtd st) {vi : UbigenVolInfo} (lnum : ℕ) {data : List UInt8}
    (hlen : (data.length : ℤ) ≤ st.ubi.ui.lebSize) :
    Headed crc32 st.ubi.ui mtd.ebSize (fillOutbuf crc32 st.ubi.ui vi lnum data st.ubi.outbuf) := by
  obtain ⟨hvid, hdata, hleb⟩ := h.layout
  have hpeb := h.pebSize
  have hhdr : ubiVidHdrSize = 64 := rfl
  unfold fillOutbuf
  refine ((h.outbuf.memcpy hvid ?_).memcpy (by omega) (by omega)).memcpy (by omega) ?_
  · rw [ubigenInitVidHdr_length]
    omega
  · rw [List.length_replicate]
    omega

theorem Ready.kept (h : Ready crc32 mtd st) (hui : st'.ubi.ui = st.ubi.ui) (hvi : st'.ubi.vi = st.ubi.vi)
    (hbuf : Headed crc32 st.ubi.ui mtd.ebSize st'.ubi.outbuf) : Ready crc32 mtd st' := by
  refine ⟨?_, ?_, ?_, ?_⟩
  · rw [hui]
    exact h.ui
  · rw [hui]
    exact h.leb
  · rw [hui, hvi]
    exact h.vi
  · rwa [hui]

theorem Ready.writeOnePeb (h : Ready crc32 mtd st) (eb : ℕ) {buf : List UInt8}
    (hbuf : Headed crc32 st.ubi.ui mtd.ebSize buf) :
    Ready crc32 mtd (UbiState.setOutbuf (ubiWriteOnePeb dev mtd crc32 eb buf st).2.2
      (ubiWriteOnePeb dev mtd crc32 eb buf st).2.1) := by
  obtain ⟨si, hsi⟩ := @writeOnePeb_same dev mtd crc32 eb buf st
  refine h.kept ?_ ?_ (writeOnePeb_headed hbuf)
  · exact (congrArg UbiParams.ui hsi :)
  · exact (congrArg UbiParams.vi hsi :)

theorem writeLebs_ready {maxSize : ℕ} {vi : UbigenVolInfo} (n : ℕ) {c : VolCursor} (h : Ready crc32 mtd c.st)
    (hvi : (vi.usableLebSize : ℤ) = c.st.ubi.ui.lebSize) :
    Ready crc32 mtd (writeLebs dev mtd crc32 maxSize vi n c).st := by
  induction n generalizing c with
  | zero =>
    rw [writeLebs]
    split
    · exact h
    · exact h.kept rfl rfl h.outbuf
  | succ n ih =>
    rw [writeLebs]
    split
    · exact h
    · dsimp only
      have hbuf := @Ready.fill _ _ _ h vi c.lnum (c.inbuf.take vi.usableLebSize)
        (by rw [List.length_take]; omega)
      have hnext := @Ready.writeOnePeb dev _ _ _ h c.eb _ hbuf
      have hui := SameUbi.ui (@writeOnePeb_same dev mtd crc32 c.eb
        (fillOutbuf crc32 c.st.ubi.ui vi c.lnum (c.inbuf.take vi.usableLebSize) c.st.ubi.outbuf) c.st)
      split
      · rename_i heq
        rw [heq] at hnext
        exact hnext
      · rename_i heq
        rw [heq] at hnext hui
        exact ih hnext (hvi.trans (congrArg UbigenInfo.lebSize hui).symm)

theorem ubifsWrite_ready {maxSize progressSize offset : ℕ} {data : List UInt8} (h : Ready crc32 mtd st) :
    Ready crc32 mtd (ubifsWrite dev mtd crc32 maxSize progressSize offset data st).st := by
  have hvolume : Ready crc32 mtd (ubiWriteVolume dev mtd crc32 maxSize progressSize
      (mtdOffsetToEbIndex mtd offset - mtdOffsetToEbIndex mtd mtd.start) data st).st := by
    obtain ⟨vi, hvi, husable⟩ := h.vi
    unfold ubiWriteVolume
    rw [hvi]
    dsimp only
    split_ifs
    · exact h
    · exact writeLebs_ready _ h husable
  unfold ubifsWrite
  dsimp only
  split
  · rename_i heq
    rw [heq] at hvolume
    exact hvolume
  · exact hvolume

theorem relativeEb (mtd : MtdDevInfo) (b : ℕ) :
    mtdOffsetToEbIndex mtd (mtd.start + b * mtd.ebSize) - mtdOffsetToEbIndex mtd mtd.start = b := by
  rw [mtdOffsetToEbIndex, Nat.add_mul_div_right _ _ mtd.ebSize_pos, mtdOffsetToEbIndex, Nat.add_sub_cancel_left]

theorem absoluteOffset (mtd : MtdDevInfo) (eb : ℕ) :
    mtdEbRelativeToAbsolute mtd eb * mtd.ebSize = mtd.start + eb * mtd.ebSize := by
  rw [mtdEbRelativeToAbsolute, mtdOffsetToEbIndex, Nat.add_mul, Nat.div_mul_cancel mtd.start_dvd, Nat.add_comm]

theorem ubifsWrite_leb {maxSize progressSize b : ℕ} {data : List UInt8} (h : Ready crc32 mtd st)
    (hlen : (data.length : ℤ) = st.ubi.ui.lebSize) (hm : maxSize ≠ 0) :
    ∃ buf, Headed crc32 st.ubi.ui mtd.ebSize buf ∧
      ((ubiWriteOnePeb dev mtd crc32 b buf st).1 = none →
        (ubifsWrite dev mtd crc32 maxSize progressSize (mtd.start + b * mtd.ebSize) data st).ret = .fail) ∧
      ∀ e, (ubiWriteOnePeb dev mtd crc32 b buf st).1 = some e →
        (ubifsWrite dev mtd crc32 maxSize progressSize (mtd.start + b * mtd.ebSize) data st).ret =
            .off (mtd.start + e * mtd.ebSize) ∧
          (ubifsWrite dev mtd crc32 maxSize progressSize (mtd.start + b * mtd.ebSize) data st).st.toChip =
            (ubiWriteOnePeb dev mtd crc32 b buf st).2.2.toChip := by
  obtain ⟨vi, hvi, husable⟩ := h.vi
  have hleb := h.leb
  have hlength : data.length = vi.usableLebSize := by omega
  have htake : data.take vi.usableLebSize = data := List.take_of_length_le hlength.le
  have hbuf := @Ready.fill _ _ _ h vi st.ubi.vidHdrLnum _ hlen.le
  refine ⟨_, hbuf, ?_⟩
  set buf := fillOutbuf crc32 st.ubi.ui vi st.ubi.vidHdrLnum data st.ubi.outbuf
  have hready := @Ready.writeOnePeb dev _ _ _ h b _ hbuf
  have hvolume : ubiWriteVolume dev mtd crc32 maxSize progressSize b data st =
      writeLebs dev mtd crc32 maxSize vi 1 ⟨b, st.ubi.vidHdrLnum, data, progressSize, st⟩ := by
    unfold ubiWriteVolume
    rw [hvi]
    dsimp only
    rw [hlength, Nat.mod_self, if_neg (by simp), Nat.div_self (by omega)]
  unfold ubifsWrite
  rw [relativeEb]
  dsimp only
  rw [hvolume, writeLebs, setProcessInfo_pos maxSize hm]
  dsimp only
  rw [htake]
  generalize ubiWriteOnePeb dev mtd crc32 b buf st = r at hready ⊢
  obtain ⟨e, outbuf, st'⟩ := r
  cases e with
  | none => exact ⟨fun _ => rfl, fun e he => by cases he⟩
  | some e' =>
    refine ⟨fun he => (by cases he), fun e he => ?_⟩
    obtain rfl : e' = e := Option.some.inj he
    dsimp only
    rw [writeLebs, setProcessInfo_pos maxSize hm]
    refine ⟨congrArg Ret.off ?_, rfl⟩
    rw [← absoluteOffset]
    exact congrArg (mtdEbRelativeToAbsolute mtd e' * ·) hready.pebSize

theorem ubifs_occupies_iff {maxSize progressSize b : ℕ} {data : List UInt8} (h : Ready crc32 mtd st) (hb : b < mtd.ebCnt)
    (hserved : Served dev mtd (b * mtd.ebSize) mtd.ebSize) (hlen : (data.length : ℤ) = st.ubi.ui.lebSize)
    {out : VolOutcome} (hout : ubifsWrite dev mtd crc32 maxSize progressSize (mtd.start + b * mtd.ebSize) data st = out) :
    Occupies mtd b out.ret st.toChip out.st.toChip ↔ maxSize ≠ 0 ∧ st.isEbBad b = false := by
  obtain ⟨vi, hvi, husable⟩ := h.vi
  by_cases hm : maxSize = 0
  · have htrap : out.ret = .trap := by
      rw [← hout, ProgressDivisor.ubifsWrite_trap hvi]
      exact ⟨hm, dvd_of_eq (by omega)⟩
    refine ⟨fun ⟨hret, _⟩ => ?_, fun hne => absurd hm hne.1⟩
    rw [htrap] at hret
    cases hret
  · obtain ⟨buf, hbuf, hnone, hsome⟩ := @ubifsWrite_leb dev _ _ _ _ progressSize b _ h hlen hm
    rw [hout] at hnone hsome
    cases hgood : st.isEbBad b with
    | false =>
      refine ⟨fun _ => ⟨hm, rfl⟩, fun _ => ?_⟩
      obtain ⟨hpeb, hissued⟩ := writeOnePeb_served hb hserved hgood hbuf
      obtain ⟨hret, hchip⟩ := hsome _ hpeb
      exact ⟨hret, hchip ▸ hissued⟩
    | true =>
      refine ⟨fun ⟨hret, _⟩ => ?_, fun hne => Bool.noConfusion hne.2⟩
      cases hpeb : (ubiWriteOnePeb dev mtd crc32 b buf st).1 with
      | none =>
        rw [hnone hpeb] at hret
        cases hret
      | some e =>
        have hfar := writeOnePeb_skips hb hgood hpeb
        rw [(hsome e hpeb).1] at hret
        have heq := Ret.off.inj hret
        have hlt := Nat.mul_lt_mul_of_pos_right (show b + 1 < e by omega) mtd.ebSize_pos
        omega

end Layout

end Volume

section Prepare

open Ubigen UbiPrepare UbiVolume BlockScan SysinfoSave
open Sysinfo (memcpy_length)
open UbiPeb (UbiState ubiBypassLayoutVol bypass_same)
open RecordedBlocks (loop_does scanStep_does basicErase_does basicWrite_does)

variable {dev : Device} {bm : PartInfo} {crc32 : List UInt8 → ℕ} {mtd : MtdDevInfo}

def SameLayout (st st' : UbiState) : Prop := st'.ubi.ui = st.ubi.ui ∧ st'.ubi.outbuf = st.ubi.outbuf

theorem bypass_layout (eb : ℕ) (st : UbiState) : SameLayout st (ubiBypassLayoutVol dev mtd eb st).2 := by
  obtain ⟨si, start, h⟩ := @bypass_same dev mtd eb st
  exact ⟨by rw [h], by rw [h]⟩

theorem scan_mapped {noskipbad : Bool} {method : OperationMethod} {capacity offset length n : ℕ} {st st' : BmState}
    (h : mtdBlockScan dev mtd noskipbad method capacity offset length st = (.off n, st')) : st'.map.isSome = true := by
  have hinit (k : ℕ) : (mtdBmBlockMapInit k st).map.isSome = true := by
    unfold mtdBmBlockMapInit
    split
    · rename_i hm
      rw [hm]
      rfl
    · rfl
  have hloop (startEb totalBytes : ℕ) (c : ScanCursor) (hc : c.st.map.isSome = true) :
      ((scanLoop dev mtd noskipbad method startEb totalBytes).exec c).2.map.isSome = true := by
    have hdoes := @loop_does dev mtd _ _ (scanLoop dev mtd noskipbad method startEb totalBytes) _ _
      (fun c _ => scanStep_does mtd noskipbad method startEb totalBytes c) c hc
    exact hdoes.isSome hc
  unfold mtdBlockScan at h
  dsimp only at h
  split_ifs at h
  · cases h
  · cases h
  · exact (congrArg (fun r => r.2.map.isSome) h).symm.trans (hloop _ _ _ (hinit _))

def Sound (crc32 : List UInt8 → ℕ) (info : PrepareInfo) (st : UbiState) : Prop :=
  match info.fs.kind with
  | some _ => st.map.isSome = true
  | none => Ready crc32 info.mtd st

theorem ubifs_ready {source : UbiSource} {method : OperationMethod} {offset length start n : ℕ} {st st₁ st' : UbiState}
    (hstart : ubifsGetOperateStartAddress dev bm crc32 mtd source offset st = some (start, st₁))
    (hmapped : ubifsGetMaxMappedSizeInPartition dev bm mtd method offset length st₁ = some (n, st')) :
    Ready crc32 mtd st' ∧ st'.ubi.ui = st₁.ubi.ui := by
  unfold ubifsGetOperateStartAddress at hstart
  split at hstart
  · cases hstart
  · rename_i params hparams
    have hbypass := @bypass_layout dev mtd
      (offset / params.ui.pebSize - mtdOffsetToEbIndex mtd mtd.start) { st with ubi := params }
    dsimp only at hstart
    split at hstart
    · cases hstart
    · rename_i heq
      rw [heq] at hbypass
      cases hstart
      unfold ubifsGetMaxMappedSizeInPartition at hmapped
      split at hmapped
      · cases hmapped
      · rename_i params' hparams'
        obtain ⟨hui, -, -, -⟩ := ubiParamsInit_some crc32 hparams
        obtain ⟨ec, hbuf⟩ := ubiParamsInit_outbuf crc32 hparams
        obtain ⟨hui', hbuf'⟩ := ubiVolumeParamsSet_kept hparams'
        obtain ⟨leb, hleb, hone, -, -, -, -, ⟨vi, hvi, husable⟩, -⟩ := VolumeSize.ubiVolumeParamsSet_some hparams'
        have hui'' : params'.ui = params.ui := hui'.trans hbypass.1
        have hbuf'' : params'.outbuf = params.outbuf := hbuf'.trans hbypass.2
        have hleb' : params'.ui.lebSize = leb := hui'.symm ▸ hleb
        have hui₀ : params'.ui = ubigenInfoInit mtd.ebSize mtd.minIoSize mtd.subpageSize 0 1 source.imageSeq :=
          hui''.trans hui
        have hroom : ubiEcHdrSize ≤ mtd.ebSize := by
          have hsub : 0 < mtd.subpageSize := Nat.pos_of_dvd_of_pos mtd.subpageSize_dvd mtd.minIoSize_pos
          have hvid := VolumeSize.le_roundUp ubiEcHdrSize hsub
          have hdata := VolumeSize.le_roundUp (roundUp ubiEcHdrSize mtd.subpageSize + ubiVidHdrSize) mtd.minIoSize_pos
          have hsize : params'.ui.lebSize = (mtd.ebSize : ℤ) -
              roundUp (roundUp ubiEcHdrSize mtd.subpageSize + ubiVidHdrSize) mtd.minIoSize := by rw [hui₀]; rfl
          omega
        have hready : Ready crc32 mtd { st' with ubi := params' } := by
          refine ⟨⟨_, hui₀⟩, by rw [hleb']; omega, ⟨vi, hvi, by rw [husable, hleb']⟩, ?_⟩
          change Headed crc32 params'.ui mtd.ebSize params'.outbuf
          have hpeb : params.ui.pebSize = mtd.ebSize := by rw [hui]; rfl
          rw [hui'', hbuf'', hbuf, hpeb]
          constructor
          · rw [memcpy_length _ _ _ (by rw [ubigenInitEcHdr_length, List.length_replicate]; omega), List.length_replicate]
          · exact ⟨ec, _, rfl⟩
        split_ifs at hmapped
        dsimp only at hmapped
        split at hmapped
        · cases hmapped
          exact ⟨hready, hui'⟩
        · cases hmapped

section Session

variable {fs : Filesystem} {source : UbiSource} {method : OperationMethod} {offset length : ℕ}
  {st st' : UbiState} {info : PrepareInfo}

theorem prepared_sound (h : mtdBlockPrepare dev bm crc32 fs source method offset length st = some (info, st')) :
    Sound crc32 info st' := by
  obtain ⟨-, hfs, -, start, st₁, n, hstart, hmapped, -⟩ := mtdBlockPrepare_some dev bm crc32 h
  unfold Sound
  unfold getOperateStartAddress at hstart
  unfold getMaxMappedSizeInPartition at hmapped
  rw [hfs]
  cases hkind : fs.kind with
  | some kind =>
    rw [hkind] at hmapped
    dsimp only at hmapped
    split at hmapped
    · rename_i hscan
      cases hmapped
      exact scan_mapped hscan
    · cases hmapped
  | none =>
    rw [hkind] at hstart hmapped
    exact (ubifs_ready hstart hmapped).1

theorem kind_flags {kind : FsKind} (h : fs.kind = some kind) : kind.flag.markbad = true ∧ kind.flag.noecc = false := by
  cases fs <;> cases h <;> exact ⟨rfl, rfl⟩

open ProgressDivisor (Request)

theorem request_sound {r : Request} (hr : r ≠ .finish) (progressSize : ℕ) (h : Sound crc32 info st) :
    Sound crc32 info (r.exec dev bm crc32 info progressSize st).st := by
  unfold Sound at h ⊢
  cases r with
  | erase offset =>
    rw [Request.exec, mtdBlockErase, fsErase]
    cases hkind : info.fs.kind with
    | some kind =>
      rw [hkind] at h
      exact (basicErase_does bm kind info.mtd.size st.toBmState).isSome h
    | none =>
      rw [hkind] at h
      exact h
  | write offset data =>
    rw [Request.exec, mtdBlockWrite, fsWrite]
    cases hkind : info.fs.kind with
    | some kind =>
      rw [hkind] at h
      obtain ⟨log, -, hmap, -⟩ := @basicWrite_does dev info.mtd _ (kind_flags hkind).1 info.maxSize
        progressSize offset data st.toBmState
      exact hmap.trans h
    | none =>
      rw [hkind] at h
      exact ubifsWrite_ready h
  | finish => exact absurd rfl hr

/-- A write of a unit at a block fills it: the image has a size, the block is not on record as bad, a tag per page
leaves a page per block, and no reserved region is still to be saved. -/
def UnitFits (info : PrepareInfo) (b : ℕ) (st : UbiState) : Prop :=
  info.maxSize ≠ 0 ∧
    match info.fs with
    | .ubifs => st.isEbBad b = false
    | fs =>
      (fs = .yaffs2 → mtdTypeIsNand info.mtd = true ∧ info.mtd.ebSize = info.mtd.minIoSize) ∧
        (mtdTypeIsNand info.mtd = true → mtdBmBlockMapIsBad st.toBmState b = false) ∧
        Saved st.toBmState (info.mtd.start + b * info.mtd.ebSize) info.mtd.ebSize

theorem Ready.lebSize {st : UbiState} (h : Ready crc32 mtd st) :
    st.ubi.ui.lebSize = (ubigenInfoInit mtd.ebSize mtd.minIoSize mtd.subpageSize 0 1 0).lebSize := by
  obtain ⟨imageSeq, hui⟩ := h.ui
  rw [hui]
  rfl

theorem prepared_unit (h : mtdBlockPrepare dev bm crc32 fs source method offset length st = some (info, st'))
    (hint : info.mtd.ebSize < 2 ^ 31) :
    match fs with
    | .yaffs2 => info.logicalUnitSize = info.mtd.ebSize + yaffs2TagSize
    | .ubifs => (info.logicalUnitSize : ℤ) =
        (ubigenInfoInit info.mtd.ebSize info.mtd.minIoSize info.mtd.subpageSize 0 1 0).lebSize
    | _ => info.logicalUnitSize = info.mtd.ebSize := by
  obtain ⟨-, -, -, start, st₁, n, hstart, hmapped, hunit⟩ := mtdBlockPrepare_some dev bm crc32 h
  cases fs with
  | normal => exact hunit
  | cramfs => exact hunit
  | jffs2 => exact hunit
  | yaffs2 => exact hunit
  | ubifs =>
    obtain ⟨hready, hui⟩ := ubifs_ready hstart hmapped
    obtain ⟨-, -, hleb⟩ := hready.layout
    have hone := hready.leb
    have hpos : st₁.ubi.ui.lebSize = st'.ubi.ui.lebSize := by rw [hui]
    rw [← hready.lebSize, hunit, getLebSize, hpos]
    omega

theorem made_occupies_iff (h : mtdBlockPrepare dev bm crc32 fs source method offset length st = some (info, st'))
    (hint : info.mtd.ebSize < 2 ^ 31) {rs : List Request} {b progressSize : ℕ} {data : List UInt8} {now : UbiState}
    (hmade : (Request.write (info.mtd.start + b * info.mtd.ebSize) data, progressSize, now) ∈
      Request.trace dev bm crc32 info rs 0 st')
    (hlen : data.length = info.logicalUnitSize) (hb : b < info.mtd.ebCnt)
    (hserved : Served dev info.mtd (b * info.mtd.ebSize) info.mtd.ebSize)
    (htab : ∀ ls, now.sysinfo = some ls → Tabled ls) {out : VolOutcome}
    (hout : fsWrite dev crc32 info (info.mtd.start + b * info.mtd.ebSize) data progressSize now = out) :
    Occupies info.mtd b out.ret now.toChip out.st.toChip ↔ UnitFits info b now := by
  have hsound : Sound crc32 info now := Request.trace_invariant (I := Sound crc32 info)
    (fun r hr n st hst => request_sound hr n hst) rs (prepared_sound h) _ hmade
  have hunit := prepared_unit h hint
  obtain ⟨-, hfs, -⟩ := mtdBlockPrepare_some dev bm crc32 h
  have hpos := info.mtd.ebSize_pos
  have hbasic (kind : FsKind) (hkind : info.fs.kind = some kind) (hne : data ≠ [])
      (hpad : kind.flag.pad = true → pagelen info.mtd kind ∣ data.length) :
      Occupies info.mtd b out.ret now.toChip out.st.toChip ↔ info.maxSize ≠ 0 ∧
        (pagelen info.mtd kind ∣ data.length ∧ data.length / pagelen info.mtd kind * info.mtd.minIoSize = info.mtd.ebSize) ∧
        (mtdTypeIsNand info.mtd = true → mtdBmBlockMapIsBad now.toBmState b = false) ∧
        Saved now.toBmState (info.mtd.start + b * info.mtd.ebSize) info.mtd.ebSize := by
    unfold Sound at hsound
    unfold fsWrite at hout
    rw [hkind] at hsound hout
    subst hout
    exact occupies_iff hb hne hserved hsound htab (kind_flags hkind).2 hpad rfl
  have hplain (kind : FsKind) (hkind : info.fs.kind = some kind) (hoob : kind.flag.writeoob = false)
      (hblock : info.logicalUnitSize = info.mtd.ebSize) :
      Occupies info.mtd b out.ret now.toChip out.st.toChip ↔ info.maxSize ≠ 0 ∧
        (mtdTypeIsNand info.mtd = true → mtdBmBlockMapIsBad now.toBmState b = false) ∧
        Saved now.toBmState (info.mtd.start + b * info.mtd.ebSize) info.mtd.ebSize := by
    have hfills := @block_fills info.mtd _ hoob
    have hlen : data.length = info.mtd.ebSize := hlen.trans hblock
    rw [hbasic kind hkind (by rintro rfl; rw [List.length_nil] at hlen; omega) (fun _ => by rw [hlen]; exact hfills.1), hlen]
    exact ⟨fun ⟨hm, _, hrest⟩ => ⟨hm, hrest⟩, fun ⟨hm, hrest⟩ => ⟨hm, hfills, hrest⟩⟩
  unfold UnitFits
  rw [hfs]
  cases fs with
  | normal =>
    rw [hplain fsNormal (by rw [hfs]; rfl) rfl hunit]
    simp only [reduceCtorEq, false_implies, true_and]
  | cramfs =>
    rw [hplain fsCramfs (by rw [hfs]; rfl) rfl hunit]
    simp only [reduceCtorEq, false_implies, true_and]
  | jffs2 =>
    rw [hplain fsJffs2 (by rw [hfs]; rfl) rfl hunit]
    simp only [reduceCtorEq, false_implies, true_and]
  | yaffs2 =>
    have hlen : data.length = info.mtd.ebSize + yaffs2TagSize := hlen.trans hunit
    have hne : data ≠ [] := by
      rintro rfl
      rw [List.length_nil] at hlen
      omega
    rw [hbasic fsYaffs2 (by rw [hfs]; rfl) hne (fun hp => by cases hp), hlen, tagged_fills_iff]
    simp only [true_implies]
  | ubifs =>
    unfold Sound at hsound
    unfold fsWrite at hout
    rw [hfs] at hsound hout
    have hready : Ready crc32 info.mtd now := hsound
    refine ubifs_occupies_iff hready hb hserved ?_ hout
    rw [hready.lebSize, ← hunit, hlen]

open Packager (getSliceSize nandflashBlockSize nandflashPageSize ubiLebSize)

theorem slice_units (h : mtdBlockPrepare dev bm crc32 fs source method offset length st = some (info, st'))
    (hblock : info.mtd.ebSize = nandflashBlockSize) (hpage : info.mtd.minIoSize = nandflashPageSize)
    (hsubpage : info.mtd.subpageSize = nandflashPageSize) (size : ℕ) :
    info.logicalUnitSize ∣ getSliceSize fs.name size ↔ (fs = .yaffs2 → 10925 ∣ size / nandflashBlockSize) := by
  have hunit := prepared_unit h (by rw [hblock]; decide)
  have hwhole {name : String} (hu : name ≠ "ubifs") (hy : name ≠ "yaffs2") :
      getSliceSize name size = nandflashBlockSize * (size / nandflashBlockSize) := by
    unfold getSliceSize
    rw [if_neg hu, if_neg hy]
  have hplain (hleb : info.logicalUnitSize = info.mtd.ebSize) (hu : fs.name ≠ "ubifs") (hy : fs.name ≠ "yaffs2") :
      info.logicalUnitSize ∣ getSliceSize fs.name size := by
    rw [hleb, hblock, hwhole hu hy]
    exact Nat.dvd_mul_right _ _
  cases fs with
  | normal => exact ⟨fun _ hfs => (by cases hfs), fun _ => hplain hunit (by decide) (by decide)⟩
  | cramfs => exact ⟨fun _ hfs => (by cases hfs), fun _ => hplain hunit (by decide) (by decide)⟩
  | jffs2 => exact ⟨fun _ hfs => (by cases hfs), fun _ => hplain hunit (by decide) (by decide)⟩
  | yaffs2 =>
    have hunit : info.logicalUnitSize = 131100 := by
      rw [show info.logicalUnitSize = _ from hunit, hblock]
      rfl
    have hslice : getSliceSize Filesystem.yaffs2.name size = 132864 * (size / nandflashBlockSize) := by
      unfold getSliceSize
      rw [if_neg (by decide), if_pos (show Filesystem.yaffs2.name = "yaffs2" from rfl)]
      rfl
    rw [hunit, hslice, imp_iff_right rfl]
    -- the two block sizes have 12 in common
    omega
  | ubifs =>
    have hunit : info.logicalUnitSize = ubiLebSize := by
      have hleb : (info.logicalUnitSize : ℤ) = _ := hunit
      rw [hblock, hpage, hsubpage, show (ubigenInfoInit nandflashBlockSize nandflashPageSize nandflashPageSize 0 1 0).lebSize
        = (ubiLebSize : ℤ) from by decide] at hleb
      exact_mod_cast hleb
    have hslice : getSliceSize Filesystem.ubifs.name size = ubiLebSize * (size / nandflashBlockSize) := by
      unfold getSliceSize
      rw [if_pos (show Filesystem.ubifs.name = "ubifs" from rfl)]
    rw [hunit, hslice]
    exact ⟨fun _ hfs => (by cases hfs), fun _ => Nat.dvd_mul_right _ _⟩

/-- A unit fills its block just when `UnitFits` holds, and the packager cuts units except for yaffs2. -/
theorem units_agree_iff (h : mtdBlockPrepare dev bm crc32 fs source method offset length st = some (info, st'))
    (hint : info.mtd.ebSize < 2 ^ 31) :
    (∀ (rs : List Request) (b progressSize : ℕ) (data : List UInt8) (now : UbiState),
      (Request.write (info.mtd.start + b * info.mtd.ebSize) data, progressSize, now) ∈
          Request.trace dev bm crc32 info rs 0 st' →
        data.length = info.logicalUnitSize → b < info.mtd.ebCnt →
          Served dev info.mtd (b * info.mtd.ebSize) info.mtd.ebSize → (∀ ls, now.sysinfo = some ls → Tabled ls) →
            (Occupies info.mtd b
              (fsWrite dev crc32 info (info.mtd.start + b * info.mtd.ebSize) data progressSize now).ret
              now.toChip
              (fsWrite dev crc32 info (info.mtd.start + b * info.mtd.ebSize) data progressSize now).st.toChip ↔
                UnitFits info b now)) ∧
      (info.mtd.ebSize = nandflashBlockSize → info.mtd.minIoSize = nandflashPageSize →
        info.mtd.subpageSize = nandflashPageSize → ∀ size,
          info.logicalUnitSize ∣ getSliceSize fs.name size ↔ (fs = .yaffs2 → 10925 ∣ size / nandflashBlockSize)) :=
  ⟨fun _ _ _ _ _ hmade hlen hb hserved htab => made_occupies_iff h hint hmade hlen hb hserved htab rfl,
    slice_units h⟩

end Session

section Small

open Packager (getSliceSize)
open UbiPeb (blankUbiState)
open ProgressDivisor (Request)

def packagerNand : MtdDevInfo := VolumeSize.pagedNand 2048 2 (dvd_refl 2048)

def packagerPrepared (fs : Filesystem) : Option (PrepareInfo × UbiState) :=
  mtdBlockPrepare (failsAt []) ⟨[packagerNand], 262144⟩ (fun _ => 0) fs ⟨[], 7, none⟩ .partition 0 131072 blankUbiState

theorem units_agree_normal : ∃ info st, packagerPrepared .normal = some (info, st) ∧
    (∃ out, fsWrite (failsAt []) (fun _ => 0) info (info.mtd.start + (0 : ℕ) * info.mtd.ebSize)
        (List.replicate info.logicalUnitSize 1) 0 st = out ∧ Occupies info.mtd 0 out.ret st.toChip out.st.toChip) ∧
    info.logicalUnitSize ∣ getSliceSize Filesystem.normal.name 131072 := by
  have hfacts : (packagerPrepared .normal).map (fun p => ((p.1.mtd.ebSize, p.1.mtd.minIoSize, p.1.mtd.subpageSize),
      (p.1.mtd.ebCnt, p.1.maxSize), mtdBmBlockMapIsBad p.2.toBmState 0, p.2.sysinfo.isNone)) =
        some ((131072, 2048, 2048), (2, 131072), false, true) := by decide +kernel
  obtain ⟨⟨info, st⟩, h, hfacts⟩ := Option.map_eq_some_iff.mp hfacts
  simp only [Prod.mk.injEq, Option.isNone_iff_eq_none] at hfacts
  obtain ⟨⟨hblock, hpage, hsubpage⟩, ⟨hcnt, hmax⟩, hgood, hsys⟩ := hfacts
  have hfs := (mtdBlockPrepare_some _ _ _ h).2.1
  obtain ⟨hfills, hslices⟩ := units_agree_iff h (by rw [hblock]; decide)
  refine ⟨info, st, h, ⟨_, rfl, ?_⟩, (hslices hblock hpage hsubpage 131072).mpr fun hy => (by cases hy)⟩
  refine (hfills [.write _ _] 0 0 _ st (by rw [Request.trace]; exact List.mem_cons_self; exact Request.noConfusion)
    List.length_replicate (by omega) (fun _ _ _ _ _ _ => rfl) fun ls hls => ?_).mpr ⟨by omega, ?_⟩
  · rw [hsys] at hls
    cases hls
  · rw [hfs]
    refine ⟨fun hy => (by cases hy), fun _ => hgood, fun ls hls => ?_⟩
    rw [hsys] at hls
    cases hls

/-- The unit of yaffs2 has the tag of one page, and its write asks for one in each page; the packager counts that. -/
theorem yaffs2_unit_refused : ∃ info st, packagerPrepared .yaffs2 = some (info, st) ∧
    (∀ data, data.length = info.logicalUnitSize →
      (fsWrite (failsAt []) (fun _ => 0) info 0 data 0 st).ret = .fail) ∧
    ¬info.logicalUnitSize ∣ getSliceSize Filesystem.yaffs2.name 131072 := by
  have hfacts : (packagerPrepared .yaffs2).map (fun p => (p.1.logicalUnitSize, pagelen p.1.mtd fsYaffs2)) =
      some (131100, 2076) := by decide +kernel
  obtain ⟨⟨info, st⟩, h, hfacts⟩ := Option.map_eq_some_iff.mp hfacts
  simp only [Prod.mk.injEq] at hfacts
  obtain ⟨hunit, hpage⟩ := hfacts
  have hfs := (mtdBlockPrepare_some _ _ _ h).2.1
  refine ⟨info, st, h, fun data hlen => ?_, by rw [hunit]; decide⟩
  have hrefused : ¬Accepted (failsAt []) info.mtd fsYaffs2 0 data.length st.toBmState := by
    intro haccepted
    have hpaged := haccepted.paged
    rw [hpage, hlen, hunit] at hpaged
    exact hpaged ⟨rfl, by decide⟩
  unfold fsWrite
  rw [hfs]
  exact basicWrite_refused hrefused

end Small

end Prepare

end LinuxRecovery.WriteUnits
