import LinuxRecovery.UbiImage

namespace LinuxRecovery.EraseCounts

open Libmtd BlockMap BlockScan Ubigen UbiPrepare UbiPeb UbiVolume MtdBlock PebWalks VolumeImage UbiImage
open BasicWrite (Ret setProcessInfo)
open WriteUnits (Headed Ready)
open Loops (after)

variable {dev : Device} {mtd : MtdDevInfo} {crc32 : List UInt8 → ℕ} {vi : UbigenVolInfo} {ui : UbigenInfo}
  {st st' st'' : UbiState} {S T : Set ℕ} {a e eb : ℕ}

def KeepsNext (st st' : UbiState) : Prop :=
  ∀ b, st'.isEbBad b = false → st.isEbBad b = false ∧ nextEc st' b = nextEc st b

section Keeps

theorem keepsNext_of_eq (hsi : st'.ubi.si = st.ubi.si) (hover : st'.ubi.overrideEc = st.ubi.overrideEc)
    (hec : st'.ubi.ec = st.ubi.ec) : KeepsNext st st' := by
  intro b hb
  rw [UbiState.isEbBad, hsi] at hb
  refine ⟨hb, ?_⟩
  rw [nextEc, nextEc, hsi, hover, hec]

theorem KeepsNext.trans (h : KeepsNext st st') (h' : KeepsNext st' st'') : KeepsNext st st'' := by
  intro b hb
  obtain ⟨hgood, hnext⟩ := h' b hb
  obtain ⟨hgood', hnext'⟩ := h b hgood
  exact ⟨hgood', hnext.trans hnext'⟩

theorem scanSetBad_keeps (h : st'.ubi = { st.ubi with si := scanSetBad st.ubi.si eb }) : KeepsNext st st' := by
  have hsi : st'.ubi.si = scanSetBad st.ubi.si eb := by rw [h]
  intro b hb
  by_cases heq : b = eb
  · have hec : (scanSetBad st.ubi.si b).ec b = ebBad := Function.update_self _ _ _
    rw [UbiState.isEbBad, hsi, ← heq, hec, beq_self_eq_true] at hb
    cases hb
  · have hec : (scanSetBad st.ubi.si eb).ec b = st.ubi.si.ec b := Function.update_of_ne heq _ _
    rw [UbiState.isEbBad, hsi, hec] at hb
    refine ⟨hb, ?_⟩
    rw [nextEc, nextEc, hsi, hec, h]
    rfl

theorem markBad_keeps (eb : ℕ) (st : UbiState) : KeepsNext st (markBad dev mtd eb st).st := by
  unfold markBad
  split_ifs
  · exact keepsNext_of_eq rfl rfl rfl
  · split
    · exact keepsNext_of_eq rfl rfl rfl
    · dsimp only
      split
      · rename_i heq
        exact scanSetBad_keeps (congrArg (fun p => p.2.ubi) heq).symm
      · rename_i heq
        exact scanSetBad_keeps (congrArg (fun p => p.2.ubi) heq).symm

theorem erasePeb_keeps (eb : ℕ) (st : UbiState) : KeepsNext st (erasePeb dev mtd eb st).st := by
  unfold erasePeb
  split
  · exact keepsNext_of_eq rfl rfl rfl
  · exact KeepsNext.trans (keepsNext_of_eq rfl rfl rfl) (markBad_keeps eb _)
  · exact keepsNext_of_eq rfl rfl rfl

theorem programPeb_keeps (eb : ℕ) (data : List UInt8) (st : UbiState) :
    KeepsNext st (programPeb dev mtd eb data st).st := by
  unfold programPeb
  split
  · exact keepsNext_of_eq rfl rfl rfl
  · exact KeepsNext.trans (keepsNext_of_eq rfl rfl rfl) (markBad_keeps eb _)
  · exact keepsNext_of_eq rfl rfl rfl

theorem erasePeb_ok_si (h : erasePeb dev mtd eb st = .ok st') : st'.ubi = st.ubi := by
  unfold erasePeb at h
  split at h
  · cases h
    rfl
  · have := @markBad_andThen dev mtd eb (st.withChip ‹Chip›) fun st => .fatal st
    rw [h] at this
    cases this
  · cases h

theorem writePebStep_keeps (c : PebCursor) :
    KeepsNext c.st (after PebCursor.st (fun r : PebOutcome => r.2.2) (writePebStep dev mtd crc32 c)) := by
  have hkeeps : KeepsNext c.st c.st := keepsNext_of_eq rfl rfl rfl
  have herase := @erasePeb_keeps dev mtd c.eb c.st
  unfold writePebStep
  by_cases h1 : mtd.ebCnt ≤ c.eb
  · rw [if_pos h1]
    exact hkeeps
  rw [if_neg h1]
  by_cases h2 : c.st.isEbBad c.eb = true
  · rw [if_pos h2]
    exact hkeeps
  rw [if_neg h2]
  cases he : erasePeb dev mtd c.eb c.st with
  | fatal st =>
    rw [he] at herase
    exact herase
  | bad st =>
    rw [he] at herase
    exact herase
  | ok st =>
    rw [he] at herase
    dsimp only
    have hset : KeepsNext c.st (st.mapSet (mtdEbRelativeToAbsolute mtd c.eb) .erased) :=
      KeepsNext.trans herase (keepsNext_of_eq rfl rfl rfl)
    generalize st.mapSet (mtdEbRelativeToAbsolute mtd c.eb) .erased = st₁ at hset
    cases changeEch crc32 st₁.ubi.ui.imageSeq (nextEc st₁ c.eb) c.buf with
    | none => exact hset
    | some buf =>
      have hprogram := @programPeb_keeps dev mtd c.eb (buf.take (dropFfs mtd buf)) st₁
      dsimp only
      cases hp : programPeb dev mtd c.eb (buf.take (dropFfs mtd buf)) st₁ with
      | fatal st₂ =>
        rw [hp] at hprogram
        exact KeepsNext.trans hset hprogram
      | bad st₂ =>
        rw [hp] at hprogram
        exact KeepsNext.trans hset hprogram
      | ok st₂ =>
        rw [hp] at hprogram
        exact KeepsNext.trans hset hprogram

end Keeps

structure Counted (crc32 : List UInt8 → ℕ) (mtd : MtdDevInfo) (S : Set ℕ) (st st' : UbiState) : Prop where
  ui : st'.ubi.ui = st.ubi.ui
  keeps : KeepsNext st st'
  bytes : ∀ b, b ∉ S → pebBytes mtd st' b = pebBytes mtd st b
  counts : ∀ b ∈ S, st'.isEbBad b = false →
    (pebBytes mtd st' b).take ubiEcHdrSize = ubigenInitEcHdr crc32 st.ubi.ui (nextEc st b)

section Counted

theorem Counted.trans (h : Counted crc32 mtd S st st') (h' : Counted crc32 mtd T st' st'') :
    Counted crc32 mtd (S ∪ T) st st'' := by
  refine ⟨h'.ui.trans h.ui, h.keeps.trans h'.keeps, fun b hb => ?_, fun b hb hgood => ?_⟩
  · rw [Set.mem_union, not_or] at hb
    exact (h'.bytes b hb.2).trans (h.bytes b hb.1)
  · obtain ⟨hgood', hnext⟩ := h'.keeps b hgood
    by_cases hT : b ∈ T
    · rw [h'.counts b hT hgood, h.ui, (h.keeps b hgood').2]
    · rw [h'.bytes b hT]
      exact h.counts b (hb.resolve_right hT) hgood'

theorem counted_empty (hmem : st'.mem = st.mem) (hsi : st'.ubi.si = st.ubi.si) (hui : st'.ubi.ui = st.ubi.ui)
    (hover : st'.ubi.overrideEc = st.ubi.overrideEc) (hec : st'.ubi.ec = st.ubi.ec) : Counted crc32 mtd ∅ st st' :=
  ⟨hui, keepsNext_of_eq hsi hover hec, fun b _ => by rw [pebBytes, hmem]; rfl, fun b hb => absurd hb (Set.notMem_empty b)⟩

theorem within_bytes (h : Within mtd a e st st') : ∀ b, b ∉ Set.Ico a e → pebBytes mtd st' b = pebBytes mtd st b := by
  intro b hb
  rw [Set.mem_Ico, not_and_or] at hb
  exact h.bytes b (hb.imp not_le.mp not_lt.mp)

end Counted

section Writes

theorem Headed.counted {n ec : ℕ} {buf buf' : List UInt8} (h : Headed crc32 ui n buf)
    (hchange : changeEch crc32 ui.imageSeq ec buf = some buf') :
    buf'.take ubiEcHdrSize = ubigenInitEcHdr crc32 ui ec := by
  obtain ⟨-, ec₀, rest, rfl⟩ := h
  rw [changeEch_generated] at hchange
  obtain rfl := Option.some.inj hchange
  exact List.take_left' (ubigenInitEcHdr_length _ _ _)

theorem writePebStep_header {n : ℕ} {c : PebCursor} {buf : List UInt8} (hui : c.st.ubi.ui = ui)
    (h : Headed crc32 ui n c.buf) (hstep : writePebStep dev mtd crc32 c = .done (some e, buf, st)) :
    buf.take ubiEcHdrSize = ubigenInitEcHdr crc32 ui (nextEc c.st c.eb) := by
  unfold writePebStep at hstep
  split_ifs at hstep
  · cases hstep
  split at hstep
  · cases hstep
  · cases hstep
  · rename_i st₁ herase
    have hubi := erasePeb_ok_si herase
    have hnext : nextEc (st₁.mapSet (mtdEbRelativeToAbsolute mtd c.eb) .erased) c.eb = nextEc c.st c.eb := by
      rw [nextEc, nextEc, show (st₁.mapSet (mtdEbRelativeToAbsolute mtd c.eb) .erased).ubi = c.st.ubi from hubi]
    have hseq : (st₁.mapSet (mtdEbRelativeToAbsolute mtd c.eb) .erased).ubi.ui = ui := by
      rw [show (st₁.mapSet (mtdEbRelativeToAbsolute mtd c.eb) .erased).ubi = c.st.ubi from hubi, hui]
    dsimp only at hstep
    rw [hnext, hseq] at hstep
    split at hstep
    · cases hstep
    · rename_i buf₁ hchange
      split at hstep
      · cases hstep
      · cases hstep
      · cases hstep
        exact Headed.counted h hchange

theorem writePebStep_counted {c : PebCursor} (hui : c.st.ubi.ui = ui) (h : Headed crc32 ui mtd.ebSize c.buf) :
    (∀ d, writePebStep dev mtd crc32 c = .next d → Counted crc32 mtd (Set.Ico c.eb (c.eb + 1)) c.st d.st) ∧
      ∀ e buf st, writePebStep dev mtd crc32 c = .done (some e, buf, st) →
        e = c.eb + 1 ∧ Counted crc32 mtd (Set.Ico c.eb (c.eb + 1)) c.st st := by
  have hpass := @writePebStep_passed dev mtd crc32 _ _ hui h
  have hkeeps := @writePebStep_keeps dev mtd crc32 c
  have hsame := @writePebStep_same dev mtd crc32 c
  have hin : ∀ b ∈ Set.Ico c.eb (c.eb + 1), b = c.eb := fun b hb => by
    rw [Set.mem_Ico] at hb
    omega
  constructor
  · intro d hstep
    rw [hstep] at hpass hkeeps hsame
    cases hpass with
    | next heb hwithin hflag hbuf hlog =>
      refine ⟨WriteUnits.SameUbi.ui hsame, hkeeps, within_bytes hwithin, fun b hb hgood => ?_⟩
      rw [hin b hb, hflag] at hgood
      cases hgood
  · intro e buf st hstep
    have hheader := writePebStep_header hui h hstep
    rw [hstep] at hpass hkeeps hsame
    cases hpass with
    | written hv hwithin hflag hbuf hlog hbytes =>
      refine ⟨rfl, WriteUnits.SameUbi.ui hsame, hkeeps, within_bytes hwithin, fun b hb _ => ?_⟩
      rw [hin b hb, hbytes, hui]
      exact hheader

theorem writeOnePeb_counted {buf buf' : List UInt8} (hbuf : Headed crc32 st.ubi.ui mtd.ebSize buf)
    (hrun : ubiWriteOnePeb dev mtd crc32 a buf st = (some e, buf', st')) :
    a ≤ e ∧ Counted crc32 mtd (Set.Ico a e) st st' := by
  have h : ∀ r, (writePebLoop dev mtd crc32).exec ⟨a, buf, st⟩ = r → ∀ e, r.1 = some e →
      a ≤ e ∧ Counted crc32 mtd (Set.Ico a e) st r.2.2 := by
    rintro r rfl
    refine (writePebLoop dev mtd crc32).exec_rule
      (I := fun c => a ≤ c.eb ∧ Headed crc32 st.ubi.ui mtd.ebSize c.buf ∧ Counted crc32 mtd (Set.Ico a c.eb) st c.st)
      (Q := fun r => ∀ e, r.1 = some e → a ≤ e ∧ Counted crc32 mtd (Set.Ico a e) st r.2.2) ?_ ?_
      ⟨le_rfl, hbuf, by rw [Set.Ico_self]; exact counted_empty rfl rfl rfl rfl rfl⟩
    · rintro c d ⟨hle, hheaded, hcounted⟩ hstep
      have hstep : writePebStep dev mtd crc32 c = .next d := hstep
      have hkept := @WriteUnits.writePebStep_headed dev mtd crc32 _ _ _ hcounted.ui hheaded
      have hnext := hcounted.trans ((writePebStep_counted hcounted.ui hheaded).1 d hstep)
      rw [hstep] at hkept
      rw [Set.Ico_union_Ico_eq_Ico hle (Nat.le_succ _)] at hnext
      rw [(writePebStep_next dev mtd crc32 hstep).2]
      exact ⟨hle.trans (Nat.le_succ _), hkept, hnext⟩
    · rintro c ⟨_ | e', buf₁, st₁⟩ ⟨hle, hheaded, hcounted⟩ hstep e he
      · cases he
      · obtain rfl := Option.some.inj he
        obtain ⟨rfl, hlast⟩ := (writePebStep_counted hcounted.ui hheaded).2 _ _ _ hstep
        have hall := hcounted.trans hlast
        rw [Set.Ico_union_Ico_eq_Ico hle (Nat.le_succ _)] at hall
        exact ⟨hle.trans (Nat.le_succ _), hall⟩
  exact h _ hrun e rfl

theorem Counted.setOutbuf {buf : List UInt8} (h : Counted crc32 mtd S st st') :
    Counted crc32 mtd S st (UbiState.setOutbuf st' buf) := ⟨h.ui, h.keeps, h.bytes, h.counts⟩

theorem writeLebs_counted {maxSize n : ℕ} {c : VolCursor} {ps : ℕ} (h : Ready crc32 mtd c.st)
    (husable : (vi.usableLebSize : ℤ) = c.st.ubi.ui.lebSize) (hlen : c.inbuf.length = n * vi.usableLebSize)
    (hrun : writeLebs dev mtd crc32 maxSize vi n c = ⟨.off e, ps, st'⟩) :
    c.eb ≤ e ∧ Counted crc32 mtd (Set.Ico c.eb e) c.st st' ∧ st'.ubi.formatEb = e := by
  induction n generalizing c with
  | zero =>
    rw [writeLebs] at hrun
    split at hrun
    · cases hrun
    · cases hrun
      rw [Set.Ico_self]
      exact ⟨le_rfl, counted_empty rfl rfl rfl rfl rfl, rfl⟩
  | succ n ih =>
    rw [writeLebs] at hrun
    split at hrun
    · cases hrun
    dsimp only at hrun
    rw [Nat.succ_mul] at hlen
    have htake : (c.inbuf.take vi.usableLebSize).length = vi.usableLebSize := by
      rw [List.length_take]
      omega
    have hbuf := @WriteUnits.Ready.fill _ _ _ h vi c.lnum (c.inbuf.take vi.usableLebSize) (by omega)
    have hready := @WriteUnits.Ready.writeOnePeb dev _ _ _ h c.eb _ hbuf
    cases hpeb : ubiWriteOnePeb dev mtd crc32 c.eb (fillOutbuf crc32 c.st.ubi.ui vi c.lnum
        (c.inbuf.take vi.usableLebSize) c.st.ubi.outbuf) c.st with
    | mk next rest =>
      obtain ⟨buf, st₁⟩ := rest
      rw [hpeb] at hrun hready
      cases next with
      | none => cases hrun
      | some m =>
        obtain ⟨hle, hfirst⟩ := writeOnePeb_counted hbuf hpeb
        have hfirst := @Counted.setOutbuf mtd crc32 c.st st₁ (Set.Ico c.eb m) buf hfirst
        obtain ⟨hle', hrest, hformat⟩ := ih hready (by rw [hfirst.ui]; exact husable)
          (by dsimp only; rw [List.length_drop]; omega) hrun
        have hall := hfirst.trans hrest
        rw [Set.Ico_union_Ico_eq_Ico hle hle'] at hall
        exact ⟨hle.trans hle', hall, hformat⟩

theorem ubifsWrite_counted {maxSize ps ps' next : ℕ} {data : List UInt8} (h : Ready crc32 mtd st)
    (hvi : st.ubi.vi = some vi) (husable : (vi.usableLebSize : ℤ) = st.ubi.ui.lebSize)
    (hrun : ubifsWrite dev mtd crc32 maxSize ps (mtd.start + a * mtd.ebSize) data st = ⟨.off next, ps', st'⟩) :
    ∃ e, next = mtd.start + e * mtd.ebSize ∧ a ≤ e ∧ Counted crc32 mtd (Set.Ico a e) st st' ∧ st'.ubi.formatEb = e := by
  have hready := @WriteUnits.ubifsWrite_ready dev mtd crc32 st maxSize ps (mtd.start + a * mtd.ebSize) data h
  rw [hrun] at hready
  unfold ubifsWrite at hrun
  rw [WriteUnits.relativeEb] at hrun
  dsimp only at hrun
  cases hvol : ubiWriteVolume dev mtd crc32 maxSize ps a data st with
  | mk ret ps₁ st₁ =>
    rw [hvol] at hrun
    cases ret with
    | fail => cases hrun
    | trap => cases hrun
    | off e =>
      obtain ⟨hoff, -, rfl⟩ : Ret.off (mtdEbRelativeToAbsolute mtd e * st₁.ubi.ui.pebSize) = .off next ∧ ps₁ = ps' ∧
          st₁ = st' := by
        simpa only [VolOutcome.mk.injEq] using hrun
      unfold ubiWriteVolume at hvol
      rw [hvi] at hvol
      dsimp only at hvol
      split_ifs at hvol with hwhole
      · cases hvol
      · have hlen : data.length = data.length / vi.usableLebSize * vi.usableLebSize :=
          (Nat.div_mul_cancel (Nat.dvd_of_mod_eq_zero (not_not.mp hwhole))).symm
        obtain ⟨hle, hcounted, hformat⟩ := writeLebs_counted h husable hlen hvol
        refine ⟨e, ?_, hle, hcounted, hformat⟩
        rw [← WriteUnits.absoluteOffset, ← hready.pebSize]
        exact (Ret.off.inj hoff).symm

theorem writeChain_counted {maxSize ps : ℕ} {datas : List (List UInt8)} (h : Ready crc32 mtd st)
    (hvi : st.ubi.vi = some vi) (husable : (vi.usableLebSize : ℤ) = st.ubi.ui.lebSize)
    (hrun : writeChain dev mtd crc32 maxSize datas (mtd.start + a * mtd.ebSize) ps st = some st') :
    ∃ e, a ≤ e ∧ Counted crc32 mtd (Set.Ico a e) st st' ∧
      ((datas = [] → st.ubi.formatEb = a) → st'.ubi.formatEb = e) := by
  induction datas generalizing st a ps with
  | nil =>
    obtain rfl := Option.some.inj hrun
    refine ⟨a, le_rfl, ?_, fun hformat => hformat rfl⟩
    rw [Set.Ico_self]
    exact counted_empty rfl rfl rfl rfl rfl
  | cons data datas ih =>
    have hready := @WriteUnits.ubifsWrite_ready dev mtd crc32 st maxSize ps (mtd.start + a * mtd.ebSize) data h
    rw [writeChain] at hrun
    cases hwrite : ubifsWrite dev mtd crc32 maxSize ps (mtd.start + a * mtd.ebSize) data st with
    | mk ret ps₁ st₁ =>
      rw [hwrite] at hrun hready
      cases ret with
      | fail => cases hrun
      | trap => cases hrun
      | off next =>
        dsimp only at hrun hready
        obtain ⟨m, hnext, hle, hfirst, hformat⟩ := ubifsWrite_counted h hvi husable hwrite
        obtain ⟨m', -, hwritten, -⟩ := ubifsWrite_written h hvi husable hwrite
        rw [hnext] at hrun
        obtain ⟨e, hle', hrest, hformat'⟩ := ih hready (hwritten.same.vi.trans hvi) (by rw [hfirst.ui]; exact husable) hrun
        have hall := hfirst.trans hrest
        rw [Set.Ico_union_Ico_eq_Ico hle hle'] at hall
        exact ⟨e, hle.trans hle', hall, fun _ => hformat' fun _ => hformat⟩

end Writes

section Ends

theorem layoutVol_counted {ec ec' : ℕ} (h : Ready crc32 mtd st) (htable : Tabled crc32 st)
    (hrun : ubiWriteLayoutVol dev mtd crc32 a ec ec' st.ubi.vtbl st = (true, st')) :
    ∃ e, a ≤ e ∧ Counted crc32 mtd (Set.Ico a e) st st' ∧ (goods st' a e).length = ubiLayoutVolumeEbs := by
  have hheaded := (@layoutBuf_carries mtd crc32 st 0 h htable ec).1
  have hheaded' := (@layoutBuf_carries mtd crc32 st 1 h htable ec').1
  unfold ubiWriteLayoutVol at hrun
  cases hfirst : ubiWriteOnePeb dev mtd crc32 a (layoutBuf crc32 st.ubi.ui st.ubi.vtbl 0 ec) st with
  | mk next rest =>
    obtain ⟨buf, st₁⟩ := rest
    rw [hfirst] at hrun
    cases next with
    | none => cases hrun
    | some m =>
      obtain ⟨hle, hcounted⟩ := writeOnePeb_counted hheaded hfirst
      obtain ⟨p, hp⟩ := writeOnePeb_placed hheaded hfirst
      rw [← hcounted.ui] at hheaded'
      dsimp only at hrun
      cases hsecond : ubiWriteOnePeb dev mtd crc32 m (layoutBuf crc32 st₁.ubi.ui st.ubi.vtbl 1 ec') st₁ with
      | mk next' rest' =>
        obtain ⟨buf', st₂⟩ := rest'
        rw [hsecond] at hrun
        cases next' with
        | none => cases hrun
        | some e =>
          cases hrun
          obtain ⟨hle', hcounted'⟩ := writeOnePeb_counted hheaded' hsecond
          obtain ⟨p', hp'⟩ := writeOnePeb_placed hheaded' hsecond
          have hall := hcounted.trans hcounted'
          rw [Set.Ico_union_Ico_eq_Ico hle hle'] at hall
          have hfront : PebWalks.goods st' a m = PebWalks.goods st₁ a m :=
            goods_congr fun b _ hb => hp'.within.flags b (.inl hb)
          refine ⟨e, hle.trans hle', hall, ?_⟩
          rw [goods_append st' hle hle', hfront, hp.goods, hp'.goods]
          rfl

theorem formatStep_counted {startEb : ℕ} {c d : FormatCursor} (hstep : formatStep dev mtd crc32 startEb c = .next d) :
    Counted crc32 mtd (Set.Ico c.eb (c.eb + 1)) c.st d.st := by
  obtain ⟨hwithin, hsame, -⟩ := formatStep_next_formatted rfl hstep
  have hin : ∀ b ∈ Set.Ico c.eb (c.eb + 1), b = c.eb := fun b hb => by
    rw [Set.mem_Ico] at hb
    omega
  suffices hpeb : KeepsNext c.st d.st ∧ (d.st.isEbBad c.eb = false →
      (pebBytes mtd d.st c.eb).take ubiEcHdrSize = ubigenInitEcHdr crc32 c.st.ubi.ui (nextEc c.st c.eb)) by
    refine ⟨WriteUnits.SameUbi.ui hsame, hpeb.1, within_bytes hwithin, fun b hb hgood => ?_⟩
    rw [hin b hb] at hgood ⊢
    exact hpeb.2 hgood
  have herased := @erasePeb_keeps dev mtd c.eb c.st
  unfold formatStep at hstep
  split at hstep
  · cases hstep
  split_ifs at hstep with hv hbad
  · cases hstep
    exact ⟨keepsNext_of_eq rfl rfl rfl, fun hgood => absurd (hgood.symm.trans hbad) Bool.false_ne_true⟩
  dsimp only at hstep
  have hgood := Bool.eq_false_iff.mpr hbad
  obtain ⟨herase, hblank⟩ := @erasePeb_worked dev mtd _ _ hgood
  cases he : erasePeb dev mtd c.eb c.st with
  | fatal st =>
    rw [he] at hstep
    cases hstep
  | bad st =>
    rw [he] at hstep herase herased
    cases hstep
    cases herase with
    | bad h hflag hlog =>
      exact ⟨KeepsNext.trans herased (keepsNext_of_eq rfl rfl rfl), fun hgood =>
        absurd (hgood.symm.trans hflag) Bool.false_ne_true⟩
  | ok st =>
    rw [he] at hstep herase herased
    have hblank := hblank st he
    dsimp only at hstep
    have hset : KeepsNext c.st (st.mapSet (mtdEbRelativeToAbsolute mtd c.eb) .erased) :=
      KeepsNext.trans herased (keepsNext_of_eq rfl rfl rfl)
    cases herase with
    | ok h hflag hlog =>
      obtain ⟨hprogram, hbytes⟩ := @programPeb_worked dev mtd (st.mapSet (mtdEbRelativeToAbsolute mtd c.eb) .erased) _
        (hflag.trans hgood) (formatHdr mtd crc32 c.st.ubi.ui (nextEc c.st c.eb))
      have hkeeps := @programPeb_keeps dev mtd c.eb (formatHdr mtd crc32 c.st.ubi.ui (nextEc c.st c.eb))
        (st.mapSet (mtdEbRelativeToAbsolute mtd c.eb) .erased)
      cases hp : programPeb dev mtd c.eb (formatHdr mtd crc32 c.st.ubi.ui (nextEc c.st c.eb))
          (st.mapSet (mtdEbRelativeToAbsolute mtd c.eb) .erased) with
      | fatal st₂ =>
        rw [hp] at hstep
        cases hstep
      | bad st₂ =>
        rw [hp] at hstep hprogram hkeeps
        cases hstep
        cases hprogram with
        | bad h₂ hflag₂ hlog₂ =>
          exact ⟨KeepsNext.trans hset hkeeps, fun hgood => absurd (hgood.symm.trans hflag₂) Bool.false_ne_true⟩
      | ok st₂ =>
        rw [hp] at hstep hkeeps
        cases hstep
        refine ⟨KeepsNext.trans hset hkeeps, fun _ => ?_⟩
        rw [(hbytes st₂ hp hblank).2, formatHdr_eq, List.append_assoc]
        exact List.take_left' (ubigenInitEcHdr_length _ _ _)

theorem format_counted (hle : a ≤ mtd.ebCnt) (hrun : format dev mtd crc32 a st = (.off e, st')) :
    Counted crc32 mtd (Set.Ico a mtd.ebCnt) st st' := by
  have h : ∀ r, (formatLoop dev mtd crc32 a).exec ⟨a, st⟩ = r → ∀ e, r.1 = .off e →
      Counted crc32 mtd (Set.Ico a mtd.ebCnt) st r.2 := by
    rintro r rfl
    refine (formatLoop dev mtd crc32 a).exec_rule
      (I := fun c => (a ≤ c.eb ∧ c.eb ≤ mtd.ebCnt) ∧ Counted crc32 mtd (Set.Ico a c.eb) st c.st)
      (Q := fun r => ∀ e, r.1 = .off e → Counted crc32 mtd (Set.Ico a mtd.ebCnt) st r.2) ?_ ?_ ⟨⟨le_rfl, hle⟩, ?_⟩
    · rintro c d ⟨⟨h1, h2⟩, hcounted⟩ hstep
      obtain ⟨hv, heb⟩ := formatStep_next dev mtd crc32 hstep
      have hall := hcounted.trans (formatStep_counted hstep)
      rw [Set.Ico_union_Ico_eq_Ico h1 (Nat.le_succ _)] at hall
      rw [heb]
      exact ⟨⟨by omega, hv⟩, hall⟩
    · rintro c r ⟨⟨h1, h2⟩, hcounted⟩ hstep e he
      have hstep : formatStep dev mtd crc32 a c = .done r := hstep
      unfold formatStep at hstep
      split at hstep
      · cases hstep
        cases he
      split_ifs at hstep with hv
      · rw [le_antisymm h2 hv] at hcounted
        cases hstep
        exact hcounted
      · dsimp only at hstep
        split at hstep
        · cases hstep
          cases he
        · cases hstep
        · split at hstep
          · cases hstep
            cases he
          · cases hstep
          · cases hstep
    · rw [Set.Ico_self]
      exact counted_empty rfl rfl rfl rfl rfl
  exact h _ hrun e rfl

end Ends

/-- The counter that a PEB is written with after a scan: one more than the one read, unless too few were read. -/
def plannedEc (si : UbiScanInfo) (b : ℕ) : ℕ :=
  if si.emptyCnt < si.goodCnt ∧ si.okCnt * 100 / si.goodCnt < 50 then 0
  else if si.emptyCnt < si.goodCnt ∧ si.okCnt * 100 / si.goodCnt < 95 then si.meanEc
  else if si.ec b ≤ ecMax then si.ec b + 1
  else si.meanEc

section Prepare

theorem andThen_keeps {r : PebResult} {f : UbiState → PebResult} (h : KeepsNext st r.st)
    (hf : ∀ st', KeepsNext st' (f st').st) : KeepsNext st (r.andThen f).st := by
  cases r with
  | ok st' => exact h.trans (hf st')
  | bad st' => exact h
  | fatal st' => exact h

theorem bypassPeb_keeps (eb : ℕ) (st : UbiState) : KeepsNext st (bypassPeb dev mtd eb st).st :=
  andThen_keeps (erasePeb_keeps eb st) fun st' =>
    andThen_keeps (programPeb_keeps eb _ st') fun st'' => erasePeb_keeps eb st''

theorem bypassExit_keeps (c : BypassCursor) : KeepsNext c.st (bypassExit mtd c).2 := by
  unfold bypassExit
  split_ifs
  · exact keepsNext_of_eq rfl rfl rfl
  · exact keepsNext_of_eq rfl rfl rfl

theorem bypassStep_keeps (c : BypassCursor) :
    KeepsNext c.st (after BypassCursor.st Prod.snd (bypassStep dev mtd c)) := by
  have hpeb := @bypassPeb_keeps dev mtd c.eb c.st
  unfold bypassStep
  split_ifs
  · exact bypassExit_keeps c
  · exact keepsNext_of_eq rfl rfl rfl
  · split
    · rename_i heq
      rw [heq] at hpeb
      exact hpeb
    · rename_i heq
      rw [heq] at hpeb
      exact hpeb
    · rename_i heq
      rw [heq] at hpeb
      dsimp only
      split_ifs
      · exact hpeb.trans (bypassExit_keeps _)
      · exact hpeb

theorem bypass_keeps (eb : ℕ) (st : UbiState) : KeepsNext st (ubiBypassLayoutVol dev mtd eb st).2 := by
  unfold ubiBypassLayoutVol
  split_ifs
  · exact keepsNext_of_eq rfl rfl rfl
  · refine (bypassLoop dev mtd).exec_compose (R := fun c d => KeepsNext c.st d.st) (S := fun c r => KeepsNext c.st r.2)
      ?_ ?_ (fun _ _ _ => KeepsNext.trans) ⟨eb, 0, st⟩
    · intro c d hd
      have h := @bypassStep_keeps dev mtd c
      rwa [show bypassStep dev mtd c = .next d from hd] at h
    · intro c r hr
      have h := @bypassStep_keeps dev mtd c
      rwa [show bypassStep dev mtd c = .done r from hr] at h

theorem chooseEc_planned (si : UbiScanInfo) {params : UbiParams} (hover : params.overrideEc = false) (b : ℕ) :
    (if (chooseEc si params).overrideEc = true then (chooseEc si params).ec
      else if si.ec b ≤ ecMax then si.ec b + 1 else si.meanEc) = plannedEc si b := by
  by_cases hsome : si.emptyCnt < si.goodCnt
  · by_cases hfew : si.okCnt * 100 / si.goodCnt < 50
    · have hchoose : chooseEc si params = { params with ec := 0, overrideEc := true } := by
        rw [chooseEc, if_pos ⟨hover, hsome⟩]
        exact if_pos hfew
      have hplan : plannedEc si b = 0 := if_pos ⟨hsome, hfew⟩
      rw [hchoose, hplan]
      exact if_pos rfl
    · by_cases hmost : si.okCnt * 100 / si.goodCnt < 95
      · have hchoose : chooseEc si params = { params with ec := si.meanEc, overrideEc := true } := by
          rw [chooseEc, if_pos ⟨hover, hsome⟩]
          exact (if_neg hfew).trans (if_pos hmost)
        have hplan : plannedEc si b = si.meanEc := (if_neg fun h => hfew h.2).trans (if_pos ⟨hsome, hmost⟩)
        rw [hchoose, hplan]
        exact if_pos rfl
      · have hchoose : chooseEc si params = params := by
          rw [chooseEc, if_pos ⟨hover, hsome⟩]
          exact (if_neg hfew).trans (if_neg hmost)
        have hplan : plannedEc si b = if si.ec b ≤ ecMax then si.ec b + 1 else si.meanEc :=
          (if_neg fun h => hfew h.2).trans (if_neg fun h => hmost h.2)
        rw [hchoose, hplan, hover]
        exact if_neg Bool.false_ne_true
  · have hchoose : chooseEc si params = params := if_neg fun h => hsome h.2
    have hplan : plannedEc si b = if si.ec b ≤ ecMax then si.ec b + 1 else si.meanEc :=
      (if_neg fun h => hsome h.1).trans (if_neg fun h => hsome h.1)
    rw [hchoose, hplan, hover]
    exact if_neg Bool.false_ne_true

theorem paramsInit_planned {capacity imageSeq : ℕ} {volName : List UInt8} {scanned : Option UbiScanInfo} {params : UbiParams}
    (h : ubiParamsInit crc32 mtd capacity volName imageSeq scanned = some params) (hst : st.ubi = params) (b : ℕ) :
    nextEc st b = plannedEc params.si b := by
  unfold ubiParamsInit ubiMtdPartCheck at h
  dsimp only at h
  cases scanned with
  | none => cases h
  | some si =>
    dsimp only at h
    split_ifs at h
    dsimp only at h
    rw [nextEc, hst, ← Option.some.inj h]
    exact chooseEc_planned si rfl b

theorem volumeParams_keeps {imageLength : ℕ} {params params' : UbiParams}
    (h : ubiVolumeParamsSet imageLength params = some params') :
    params'.si = params.si ∧ params'.overrideEc = params.overrideEc ∧ params'.ec = params.ec := by
  unfold ubiVolumeParamsSet ubiGenerateViInfo at h
  dsimp only at h
  split_ifs at h with hmax hname hleb hdvd
  split at h
  · cases h
  · cases h
    exact ⟨rfl, rfl, rfl⟩

theorem prepare_planned {bm : SysinfoSave.PartInfo} {source : UbiSource} {method : OperationMethod} {offset length : ℕ}
    {info : PrepareInfo} {si : UbiScanInfo} (hscan : source.scanned = some si)
    (h : mtdBlockPrepare dev bm crc32 .ubifs source method offset length st = some (info, st')) {b : ℕ}
    (hgood : st'.isEbBad b = false) : nextEc st' b = plannedEc si b := by
  obtain ⟨-, start, st₁, n, hstart, hmapped, -, -⟩ := mtdBlockPrepare_info dev bm crc32 h
  have hstart : ubifsGetOperateStartAddress dev bm crc32 info.mtd source offset st = some (start, st₁) := hstart
  have hmapped : ubifsGetMaxMappedSizeInPartition dev bm info.mtd method offset length st₁ = some (n, st') := hmapped
  unfold ubifsGetMaxMappedSizeInPartition at hmapped
  split at hmapped
  · cases hmapped
  rename_i params' hparams'
  obtain ⟨hsi, hover, hec⟩ := volumeParams_keeps hparams'
  split_ifs at hmapped
  dsimp only at hmapped
  split at hmapped
  · rename_i bmState hbmScan
    obtain ⟨-, hst⟩ := Prod.mk.inj (Option.some.inj hmapped)
    have hubi : st'.ubi = params' := congrArg UbiState.ubi hst.symm
    have hlast : KeepsNext st₁ st' := keepsNext_of_eq (by rw [hubi, hsi]) (by rw [hubi, hover]) (by rw [hubi, hec])
    unfold ubifsGetOperateStartAddress at hstart
    split at hstart
    · cases hstart
    rename_i params hparams
    dsimp only at hstart
    split at hstart
    · cases hstart
    rename_i e st₂ hbypass
    obtain ⟨-, hst₁⟩ := Prod.mk.inj (Option.some.inj hstart)
    have hkeeps := @bypass_keeps dev info.mtd (offset / params.ui.pebSize - mtdOffsetToEbIndex info.mtd info.mtd.start)
      { st with ubi := params }
    rw [hbypass] at hkeeps
    have hfirst : KeepsNext st₂ st₁ := by
      rw [← hst₁]
      exact keepsNext_of_eq rfl rfl rfl
    obtain ⟨-, -, -, hscanned⟩ := ubiParamsInit_some crc32 hparams
    have hparamsSi : params.si = si := Option.some.inj (hscanned.symm.trans hscan)
    rw [((hkeeps.trans hfirst).trans hlast b hgood).2, paramsInit_planned hparams rfl, hparamsSi]
  · cases hmapped

end Prepare

section Run

variable {bm : SysinfoSave.PartInfo} {source : UbiSource} {method : OperationMethod}
  {offset length progressSize next : ℕ} {datas : List (List UInt8)} {info : PrepareInfo} {st₀ st₁ st₂ : UbiState}

/-- Every PEB that is still good at the end of an image was given its counter: those kept for the layout volume are used
up by it, however many of them fail. -/
theorem image_counted (hprepare : mtdBlockPrepare dev bm crc32 .ubifs source method offset length st = some (info, st₀))
    (hsome : datas ≠ [])
    (hwrites : writeChain dev info.mtd crc32 info.maxSize datas info.writeStart progressSize st₀ = some st₁)
    (hdone : ubifsDone dev info.mtd crc32 st₁ = (.off next, st₂)) :
    ∃ S, Counted crc32 info.mtd S st₀ st₂ ∧
      ∀ b, st₀.ubi.startEb ≤ b → b < info.mtd.ebCnt → st₂.isEbBad b = false → b ∈ S := by
  obtain ⟨vi', -, -, -, hstartEb, -⟩ := run_filled hprepare hsome hwrites
  obtain ⟨vi, e₀, hs, hstart⟩ := prepare_started hprepare
  rw [hstart] at hwrites
  obtain ⟨e, hw, hformat, hready⟩ := writeChain_written hs.ready hs.volume hs.usable hwrites
  rw [hs.lnum] at hw
  have hfilled := written_filled hs hw hready (hformat fun hnil => absurd hnil hsome)
  obtain ⟨e', hle', hdata, hformat'⟩ := writeChain_counted hs.ready hs.volume hs.usable hwrites
  obtain rfl : e' = e := (hformat' fun hnil => absurd hnil hsome).symm.trans hfilled.format
  -- what follows the data
  unfold ubifsDone at hdone
  cases hlayout : ubiWriteLayoutVol dev info.mtd crc32 st₁.ubi.startEb st₁.ubi.ec st₁.ubi.ec st₁.ubi.vtbl st₁ with
  | mk ok stL =>
    rw [hlayout] at hdone
    cases ok with
    | false => cases hdone
    | true =>
      obtain ⟨eL, hleL, hcopies, htwo⟩ := layoutVol_counted hready hfilled.tabled hlayout
      obtain ⟨eL', p, p', hlaid⟩ := layoutVol_laid hready hfilled.tabled hlayout
      dsimp only at hdone
      cases hrun : format dev info.mtd crc32 stL.ubi.formatEb stL with
      | mk ret st₃ =>
        rw [hrun] at hdone
        cases ret with
        | fail => cases hdone
        | trap => cases hdone
        | off eb =>
          obtain ⟨-, rfl⟩ := Prod.mk.inj hdone
          obtain ⟨si, hsi⟩ := hlaid.same
          have hfrom : stL.ubi.formatEb = e' := by
            rw [hsi]
            exact hfilled.format
          rw [hfrom] at hrun
          have hblank := format_counted hfilled.room hrun
          refine ⟨_, (hdata.trans hcopies).trans hblank, fun b hb hbe hgood => ?_⟩
          by_cases hfront : e₀ ≤ b
          · rcases Nat.lt_or_ge b e' with hlt | hge
            · exact .inl (.inl ⟨hfront, hlt⟩)
            · exact .inr ⟨hge, hbe⟩
          -- a third good PEB in front of the data would be one too many
          · refine .inl (.inr ⟨by rw [hstartEb]; exact hb, ?_⟩)
            by_contra hge
            have hgoodL := (hblank.keeps b hgood).1
            have hsub : goods stL st₁.ubi.startEb e₀ ⊆ goods st₁ st₁.ubi.startEb e₀ := fun x hx => by
              obtain ⟨h1, h2, h3⟩ := mem_goods.mp hx
              exact mem_goods.mpr ⟨h1, h2, (hcopies.keeps x h3).1⟩
            have hlen := (List.subperm_of_subset (goods_nodup _ _ _) hsub).length_le
            have hmem : b ∈ goods stL eL e₀ := mem_goods.mpr ⟨not_lt.mp hge, not_le.mp hfront, hgoodL⟩
            have hpos := List.length_pos_of_mem hmem
            rw [goods_append stL hleL (by omega), List.length_append, htwo] at hlen
            rcases hfilled.layout with hkept | ⟨-, hfew⟩
            · omega
            · omega

end Run

end LinuxRecovery.EraseCounts
