import LinuxRecovery.LayoutBypass
import LinuxRecovery.WriteUnits

namespace LinuxRecovery.PebWalks

open Loops ByteMemory Libmtd BlockMap Ubigen UbiPrepare UbiPeb UbiVolume RequestLog
open EraseCoverage (Inside inside_unique)
open LayoutBypass (OnlyPeb onlyPeb_refl mtdErase_onlyPeb mtdWrite_onlyPeb mtdTorture_onlyPeb pick pick_empty pick_cons)
open WriteUnits (Headed)
open Sysinfo (memcpy)

variable {dev : Device} {mtd : MtdDevInfo} {crc32 : List UInt8 → ℕ} {st st' st'' : UbiState} {a b e eb : ℕ}

def pebBytes (mtd : MtdDevInfo) (st : UbiState) (eb : ℕ) : List UInt8 := readBytes st.mem (address mtd eb 0) mtd.ebSize

def goods (st : UbiState) (a e : ℕ) : List ℕ := pick (fun b => !st.isEbBad b) a e

structure Within (mtd : MtdDevInfo) (a e : ℕ) (st st' : UbiState) : Prop where
  flags : ∀ b, b < a ∨ e ≤ b → st'.isEbBad b = st.isEbBad b
  bytes : ∀ b, b < a ∨ e ≤ b → pebBytes mtd st' b = pebBytes mtd st b
  kept : ∀ b, st.isEbBad b = true → st'.isEbBad b = true

structure FailuresMark (dev : Device) (st st' : UbiState) : Prop where
  kept : ∀ b, st.isEbBad b = true → st'.isEbBad b = true
  log : ∃ log, Logged dev st.toChip st'.toChip log ∧
    ((∀ answer ∈ log, answer.reply = none) ↔ ∀ b, st'.isEbBad b = st.isEbBad b)

section Relations

theorem within_of_eq (h : st'.mem = st.mem) (hsi : st'.ubi.si = st.ubi.si) : Within mtd a e st st' := by
  have hflags (b : ℕ) : st'.isEbBad b = st.isEbBad b := by
    rw [UbiState.isEbBad, hsi]
    rfl
  refine ⟨fun b _ => hflags b, fun b _ => ?_, fun b hb => (hflags b).trans hb⟩
  rw [pebBytes, h]
  rfl

theorem Within.mono (h : Within mtd a e st st') {a' e' : ℕ} (ha : a' ≤ a) (he : e ≤ e') : Within mtd a' e' st st' :=
  ⟨fun b hb => h.flags b (by omega), fun b hb => h.bytes b (by omega), h.kept⟩

theorem Within.trans (h : Within mtd a e st st') (h' : Within mtd a e st' st'') : Within mtd a e st st'' :=
  ⟨fun b hb => (h'.flags b hb).trans (h.flags b hb), fun b hb => (h'.bytes b hb).trans (h.bytes b hb),
    fun b hb => h'.kept b (h.kept b hb)⟩

theorem failuresMark_refl (hsi : st'.ubi.si = st.ubi.si) (hchip : st'.toChip = st.toChip) :
    FailuresMark dev st st' := by
  have hflags (b : ℕ) : st'.isEbBad b = st.isEbBad b := by
    rw [UbiState.isEbBad, hsi]
    rfl
  refine ⟨fun b hb => (hflags b).trans hb, [], by rw [hchip]; exact logged_refl _, fun _ => hflags, fun _ answer hm => ?_⟩
  cases hm

theorem FailuresMark.trans (h : FailuresMark dev st st') (h' : FailuresMark dev st' st'') :
    FailuresMark dev st st'' := by
  obtain ⟨log, hlog, hflags⟩ := h.log
  obtain ⟨log', hlog', hflags'⟩ := h'.log
  refine ⟨fun b hb => h'.kept b (h.kept b hb), log ++ log', hlog.trans hlog', fun hall b => ?_, fun hsame => ?_⟩
  · exact (hflags'.mp (fun answer hm => hall answer (List.mem_append_right _ hm)) b).trans
      (hflags.mp (fun answer hm => hall answer (List.mem_append_left _ hm)) b)
  · -- what is marked on the way stays marked
    have hmiddle : ∀ b, st'.isEbBad b = st.isEbBad b := by
      intro b
      cases hb : st'.isEbBad b with
      | true => rw [← hsame b, h'.kept b hb]
      | false =>
        rw [eq_comm, Bool.eq_false_iff]
        intro hbad
        rw [h.kept b hbad] at hb
        cases hb
    intro answer hm
    rcases List.mem_append.mp hm with hm | hm
    · exact hflags.mpr hmiddle answer hm
    · exact hflags'.mpr (fun b => (hsame b).trans (hmiddle b).symm) answer hm

theorem goods_empty (st : UbiState) (h : e ≤ a) : goods st a e = [] := pick_empty _ h

theorem goods_cons (st : UbiState) (h : a < e) :
    goods st a e = if st.isEbBad a = true then goods st (a + 1) e else a :: goods st (a + 1) e := by
  rw [goods, pick_cons _ h]
  cases st.isEbBad a <;> rfl

theorem goods_append (st : UbiState) {m : ℕ} (ham : a ≤ m) (hme : m ≤ e) :
    goods st a e = goods st a m ++ goods st m e := by
  have hrange : List.range' a (e - a) = List.range' a (m - a) ++ List.range' m (e - m) := by
    rw [show e - a = (m - a) + (e - m) by omega, ← List.range'_append_1, show a + (m - a) = m by omega]
  rw [goods, pick, hrange, List.filter_append]
  rfl

theorem goods_congr (h : ∀ b, a ≤ b → b < e → st'.isEbBad b = st.isEbBad b) : goods st' a e = goods st a e := by
  apply List.filter_congr
  intro b hb
  obtain ⟨h1, h2⟩ := List.mem_range'_1.mp hb
  rw [h b h1 (by omega)]

theorem mem_goods : b ∈ goods st a e ↔ a ≤ b ∧ b < e ∧ st.isEbBad b = false := by
  rw [goods, pick, List.mem_filter, List.mem_range'_1, Bool.not_eq_true']
  constructor
  · rintro ⟨⟨h1, h2⟩, h3⟩
    exact ⟨h1, by omega, h3⟩
  · rintro ⟨h1, h2, h3⟩
    exact ⟨⟨h1, by omega⟩, h3⟩

theorem goods_nil (h : ∀ b, a ≤ b → b < e → st.isEbBad b = true) : goods st a e = [] := by
  apply List.eq_nil_iff_forall_not_mem.mpr
  intro b hb
  obtain ⟨h1, h2, h3⟩ := mem_goods.mp hb
  rw [h b h1 h2] at h3
  cases h3

theorem goods_last (hae : a ≤ b) (h : ∀ i, a ≤ i → i < b → st.isEbBad i = true) (hb : st.isEbBad b = false) :
    goods st a (b + 1) = [b] := by
  rw [goods_append st hae (Nat.le_succ b), goods_nil h, goods_cons st (Nat.lt_succ_self b), hb,
    goods_empty st le_rfl]
  rfl

end Relations

section Chips

theorem pebBytes_of_onlyPeb (h : OnlyPeb mtd eb st.toChip st'.toChip) (hb : b ≠ eb) :
    pebBytes mtd st' b = pebBytes mtd st b := by
  apply readBytes_congr
  intro i h1 h2
  exact h i fun hin => hb (inside_unique ⟨h1, h2⟩ hin)

theorem within_of_onlyPeb (h : OnlyPeb mtd eb st.toChip st'.toChip)
    (hothers : ∀ b, b ≠ eb → st'.isEbBad b = st.isEbBad b) (hkept : st.isEbBad eb = true → st'.isEbBad eb = true) :
    Within mtd eb (eb + 1) st st' := by
  refine ⟨fun b hb => hothers b (by omega), fun b hb => pebBytes_of_onlyPeb h (by omega), fun b hb => ?_⟩
  by_cases heq : b = eb
  · subst heq
    exact hkept hb
  · exact (hothers b heq).trans hb

theorem logged_served {s s' : Chip} {call : DevCall} (h : s'.calls = s.calls ++ [call])
    (hserved : dev.reply (s.calls ++ [call]) = none) :
    ∃ log, Logged dev s s' log ∧ ∀ answer ∈ log, answer.reply = none := by
  refine ⟨_, logged_one h, fun answer hm => ?_⟩
  obtain rfl := List.mem_singleton.mp hm
  exact hserved

theorem mtdErase_served {s s' : Chip} (h : mtdErase dev mtd eb s = (none, s')) :
    (∀ x, Inside mtd eb x → s'.mem x = 0xFF) ∧ ∃ log, Logged dev s s' log ∧ ∀ answer ∈ log, answer.reply = none := by
  unfold mtdErase at h
  split_ifs at h
  · cases h
  · dsimp only at h
    split at h
    · rename_i hreply
      cases h
      refine ⟨fun x hx => ?_, logged_served rfl hreply⟩
      exact fillBytes_inside s.mem (address mtd eb 0) mtd.ebSize x (fun _ => 0xFF) hx
    · cases h

theorem mtdWrite_served {data : List UInt8} {s s' : Chip} (h : mtdWrite dev mtd eb 0 data none .placeOob s = (none, s')) :
    ((∀ x, Inside mtd eb x → s.mem x = 0xFF) → data.length ≤ mtd.ebSize ∧
      readBytes s'.mem (address mtd eb 0) mtd.ebSize = data ++ List.replicate (mtd.ebSize - data.length) 0xFF) ∧
        ∃ log, Logged dev s s' log ∧ ∀ answer ∈ log, answer.reply = none := by
  unfold mtdWrite at h
  split_ifs at h with h1 h2 h3 h4
  · cases h
  · cases h
  · cases h
  · cases h
  · have hlen : data.length ≤ mtd.ebSize := by omega
    dsimp only at h
    split at h
    · rename_i hreply
      cases h
      refine ⟨fun hblank => ⟨hlen, ?_⟩, logged_served rfl hreply⟩
      have hsplit : mtd.ebSize = data.length + (mtd.ebSize - data.length) := by omega
      conv_lhs => rw [hsplit]
      rw [readBytes_add, readBytes_writeBytes]
      congr 1
      apply List.eq_replicate_iff.mpr
      refine ⟨readBytes_length _ _ _, fun x hx => ?_⟩
      obtain ⟨i, hi, rfl⟩ := List.mem_map.mp hx
      obtain ⟨h5, h6⟩ := List.mem_range'_1.mp hi
      dsimp only
      rw [writeBytes_outside _ _ _ _ (.inr h5)]
      exact hblank i ⟨by omega, by omega⟩
    · cases h

theorem dropFfs_blank (buf : List UInt8) : buf.drop (dropFfs mtd buf) =
    List.replicate (buf.length - dropFfs mtd buf) 0xFF := by
  have hpos := mtd.minIoSize_pos
  have hsplit : buf = (buf.reverse.dropWhile (· == 0xFF)).reverse ++ (buf.reverse.takeWhile (· == 0xFF)).reverse := by
    rw [← List.reverse_append, List.takeWhile_append_dropWhile, List.reverse_reverse]
  have hle : (buf.reverse.dropWhile (· == 0xFF)).length ≤ dropFfs mtd buf :=
    VolumeSize.le_roundUp _ hpos
  apply List.eq_replicate_iff.mpr
  refine ⟨List.length_drop, fun x hx => ?_⟩
  rw [hsplit, List.drop_append, List.drop_eq_nil_of_le (by rw [List.length_reverse, ← hsplit]; exact hle),
    List.nil_append] at hx
  have := List.mem_takeWhile_imp (List.mem_reverse.mp (List.mem_of_mem_drop hx))
  simpa using this

end Chips

inductive PebWorked (dev : Device) (mtd : MtdDevInfo) (eb : ℕ) (st : UbiState) : PebResult → Prop
  | ok {st' : UbiState} (h : Within mtd eb (eb + 1) st st') (hflag : st'.isEbBad eb = st.isEbBad eb)
      (hlog : FailuresMark dev st st') : PebWorked dev mtd eb st (.ok st')
  | bad {st' : UbiState} (h : Within mtd eb (eb + 1) st st') (hflag : st'.isEbBad eb = true)
      (hlog : FailuresMark dev st st') : PebWorked dev mtd eb st (.bad st')
  | fatal {st' : UbiState} : PebWorked dev mtd eb st (.fatal st')

section Pebs

open RecordedBlocks (mtdErase_unmarking mtdWrite_unmarking torture_unmarking mtdMarkBad_logged Unmarking)

theorem markBad_worked {chip : Chip} {log : List Answer} (hmem : OnlyPeb mtd eb st.toChip chip)
    (hlog : Logged dev st.toChip chip log) (hfail : ∃ answer ∈ log, answer.reply ≠ none)
    (hgood : st.isEbBad eb = false) : PebWorked dev mtd eb st (markBad dev mtd eb (st.withChip chip)) := by
  have hmark := @mtdMarkBad_logged dev mtd eb chip
  have hkeeps := @LayoutBypass.mtdMarkBad_mem dev mtd eb chip
  unfold markBad
  rw [withChip_toChip]
  split_ifs
  · exact .fatal
  · split
    · exact .fatal
    · rename_i chip' heq
      rw [heq] at hmark hkeeps
      obtain ⟨answer, hanswer, -⟩ := (hmark.resolve_left fun h => h.1 rfl).2
      dsimp only [consecutiveBadCheck]
      split
      · rename_i st' hcheck
        obtain ⟨-, rfl⟩ := Prod.mk.inj hcheck
        have hothers (b : ℕ) (hb : b ≠ eb) : ({ st.withChip chip' with
            ubi := { st.ubi with si := scanSetBad st.ubi.si eb } } : UbiState).isEbBad b = st.isEbBad b := by
          simp [UbiState.isEbBad, scanSetBad, hb]
        have hflag : ({ st.withChip chip' with
            ubi := { st.ubi with si := scanSetBad st.ubi.si eb } } : UbiState).isEbBad eb = true := by
          simp [UbiState.isEbBad, scanSetBad]
        have hwithin := within_of_onlyPeb (fun x hx => (congrFun hkeeps x).trans (hmem x hx)) hothers fun _ => hflag
        refine .bad ⟨hwithin.flags, hwithin.bytes, hwithin.kept⟩ hflag
          ⟨hwithin.kept, _, hlog.trans hanswer, fun hall => ?_, fun hsame => ?_⟩
        · obtain ⟨failed, hm, hne⟩ := hfail
          exact absurd (hall failed (List.mem_append_left _ hm)) hne
        · have := hflag.symm.trans (hsame eb)
          rw [hgood] at this
          cases this
      · exact .fatal

theorem erasePeb_worked (hgood : st.isEbBad eb = false) : PebWorked dev mtd eb st (erasePeb dev mtd eb st) ∧
    ∀ st', erasePeb dev mtd eb st = .ok st' → ∀ x, Inside mtd eb x → st'.mem x = 0xFF := by
  obtain ⟨log, hlog, hfail⟩ := @mtdErase_unmarking dev mtd eb st.toChip
  have hmem := @mtdErase_onlyPeb dev mtd eb st.toChip
  unfold erasePeb
  cases herase : mtdErase dev mtd eb st.toChip with
  | mk err chip =>
    rw [herase] at hlog hfail hmem
    cases err with
    | none =>
      obtain ⟨hblank, log', hlog', hserved⟩ := mtdErase_served herase
      refine ⟨.ok (within_of_onlyPeb hmem (fun _ _ => rfl) id) rfl
        ⟨fun _ => id, log', hlog', fun _ _ => rfl, fun _ => hserved⟩, ?_⟩
      rintro st' ⟨⟩
      exact hblank
    | some err =>
      cases err with
      | eio =>
        obtain ⟨answer, hanswer, hfails⟩ := hfail rfl
        refine ⟨markBad_worked hmem hlog.1 ⟨answer, hanswer, ?_⟩ hgood, fun st' h => ?_⟩
        · rw [hfails.1]
          exact Option.some_ne_none _
        · have := @markBad_andThen dev mtd eb (st.withChip chip) fun st => .fatal st
          dsimp only at h
          rw [h] at this
          cases this
      | einval => exact ⟨.fatal, fun st' h => by cases h⟩
      | other => exact ⟨.fatal, fun st' h => by cases h⟩

theorem programPeb_worked (hgood : st.isEbBad eb = false) (data : List UInt8) :
    PebWorked dev mtd eb st (programPeb dev mtd eb data st) ∧
      ∀ st', programPeb dev mtd eb data st = .ok st' → (∀ x, Inside mtd eb x → st.mem x = 0xFF) →
        data.length ≤ mtd.ebSize ∧ pebBytes mtd st' eb = data ++ List.replicate (mtd.ebSize - data.length) 0xFF := by
  obtain ⟨log, hlog, hfail⟩ := @mtdWrite_unmarking dev mtd eb 0 data none .placeOob st.toChip
  have hmem := @mtdWrite_onlyPeb dev mtd eb 0 data none .placeOob st.toChip
  unfold programPeb
  cases hwrite : mtdWrite dev mtd eb 0 data none .placeOob st.toChip with
  | mk err chip =>
    rw [hwrite] at hlog hfail hmem
    cases err with
    | none =>
      obtain ⟨hbytes, log', hlog', hserved⟩ := mtdWrite_served hwrite
      refine ⟨.ok (within_of_onlyPeb hmem (fun _ _ => rfl) id) rfl
        ⟨fun _ => id, log', hlog', fun _ _ => rfl, fun _ => hserved⟩, ?_⟩
      rintro st' ⟨⟩ hblank
      exact hbytes hblank
    | some err =>
      cases err with
      | eio =>
        obtain ⟨answer, hanswer, hfails⟩ := hfail rfl
        obtain ⟨log', hlog'⟩ := @torture_unmarking dev mtd eb chip
        refine ⟨markBad_worked (hmem.trans (mtdTorture_onlyPeb eb chip)) (hlog.1.trans hlog'.1)
          ⟨answer, List.mem_append_left _ hanswer, ?_⟩ hgood, fun st' h => ?_⟩
        · rw [hfails.1]
          exact Option.some_ne_none _
        · have := @markBad_andThen dev mtd eb (st.withChip (mtdTorture dev mtd eb chip)) fun st => .fatal st
          dsimp only at h
          rw [h] at this
          cases this
      | einval => exact ⟨.fatal, fun st' h => by cases h⟩
      | other => exact ⟨.fatal, fun st' h => by cases h⟩

end Pebs

section Write

theorem mapSet_within (st : UbiState) (i : ℕ) (status : BlkStatus) : Within mtd a e st (st.mapSet i status) :=
  within_of_eq rfl rfl

theorem mapSet_failuresMark (st : UbiState) (i : ℕ) (status : BlkStatus) : FailuresMark dev st (st.mapSet i status) :=
  failuresMark_refl rfl rfl

theorem Headed.change_drop {ui : UbigenInfo} {n ec : ℕ} {buf buf' : List UInt8} (h : Headed crc32 ui n buf)
    (hchange : changeEch crc32 ui.imageSeq ec buf = some buf') : buf'.drop ubiEcHdrSize = buf.drop ubiEcHdrSize := by
  obtain ⟨-, ec₀, rest, rfl⟩ := h
  rw [changeEch_generated] at hchange
  obtain rfl := Option.some.inj hchange
  rw [List.drop_left' (ubigenInitEcHdr_length _ _ _), List.drop_left' (ubigenInitEcHdr_length _ _ _)]

inductive PebPassed (dev : Device) (mtd : MtdDevInfo) (c : PebCursor) : Step PebCursor PebOutcome → Prop
  | next {d : PebCursor} (heb : d.eb = c.eb + 1) (h : Within mtd c.eb (c.eb + 1) c.st d.st)
      (hflag : d.st.isEbBad c.eb = true) (hbuf : d.buf.drop ubiEcHdrSize = c.buf.drop ubiEcHdrSize)
      (hlog : FailuresMark dev c.st d.st) : PebPassed dev mtd c (.next d)
  | written {buf : List UInt8} {st : UbiState} (hv : c.eb < mtd.ebCnt) (h : Within mtd c.eb (c.eb + 1) c.st st)
      (hflag : st.isEbBad c.eb = false) (hbuf : buf.drop ubiEcHdrSize = c.buf.drop ubiEcHdrSize)
      (hlog : FailuresMark dev c.st st) (hbytes : pebBytes mtd st c.eb = buf) :
      PebPassed dev mtd c (.done (some (c.eb + 1), buf, st))
  | failed {buf : List UInt8} {st : UbiState} : PebPassed dev mtd c (.done (none, buf, st))

theorem writePebStep_passed {ui : UbigenInfo} {c : PebCursor} (hui : c.st.ubi.ui = ui)
    (hbuf : Headed crc32 ui mtd.ebSize c.buf) : PebPassed dev mtd c (writePebStep dev mtd crc32 c) := by
  have hsame := @erasePeb_same dev mtd c.eb c.st
  unfold writePebStep
  by_cases hv : mtd.ebCnt ≤ c.eb
  · rw [if_pos hv]
    exact .failed
  rw [if_neg hv]
  by_cases hbad : c.st.isEbBad c.eb = true
  · rw [if_pos hbad]
    exact .next rfl (within_of_eq rfl rfl) hbad rfl (failuresMark_refl rfl rfl)
  rw [if_neg hbad]
  obtain ⟨herase, hblank⟩ := @erasePeb_worked dev mtd _ _ (Bool.eq_false_iff.mpr hbad)
  cases he : erasePeb dev mtd c.eb c.st with
  | fatal st => exact .failed
  | bad st =>
    rw [he] at herase
    cases herase with
    | bad h hflag hlog =>
      exact .next rfl (h.trans (mapSet_within _ _ _)) hflag rfl (hlog.trans (mapSet_failuresMark _ _ _))
  | ok st =>
    rw [he] at herase hsame
    have hblank := hblank st he
    dsimp only
    cases herase with
    | ok h hflag hlog =>
      have h₁ := h.trans (mapSet_within st (mtdEbRelativeToAbsolute mtd c.eb) .erased)
      have hlog₁ := hlog.trans (@mapSet_failuresMark dev st (mtdEbRelativeToAbsolute mtd c.eb) .erased)
      have hblank₁ : ∀ x, Inside mtd c.eb x → (st.mapSet (mtdEbRelativeToAbsolute mtd c.eb) .erased).mem x = 0xFF := hblank
      have hflag₁ : (st.mapSet (mtdEbRelativeToAbsolute mtd c.eb) .erased).isEbBad c.eb = c.st.isEbBad c.eb := hflag
      have hui₁ : (st.mapSet (mtdEbRelativeToAbsolute mtd c.eb) .erased).ubi.ui = ui :=
        (WriteUnits.SameUbi.ui hsame).trans hui
      generalize st.mapSet (mtdEbRelativeToAbsolute mtd c.eb) .erased = st₁ at h₁ hlog₁ hblank₁ hflag₁ hui₁
      obtain ⟨buf, hchange, hheaded⟩ := hbuf.change (nextEc st₁ c.eb)
      have hdrop := Headed.change_drop hbuf hchange
      rw [hui₁, hchange]
      dsimp only
      have hgood₁ : st₁.isEbBad c.eb = false := hflag₁.trans (Bool.eq_false_iff.mpr hbad)
      obtain ⟨hprogram, hbytes⟩ := @programPeb_worked dev mtd _ _ hgood₁ (buf.take (dropFfs mtd buf))
      cases hp : programPeb dev mtd c.eb (buf.take (dropFfs mtd buf)) st₁ with
      | fatal st₂ => exact .failed
      | bad st₂ =>
        rw [hp] at hprogram
        cases hprogram with
        | bad h₂ hflag₂ hlog₂ => exact .next rfl (h₁.trans h₂) hflag₂ hdrop (hlog₁.trans hlog₂)
      | ok st₂ =>
        rw [hp] at hprogram
        obtain ⟨hlen, hbytes⟩ := hbytes st₂ hp hblank₁
        cases hprogram with
        | ok h₂ hflag₂ hlog₂ =>
          refine .written (not_le.mp hv) (h₁.trans h₂) (hflag₂.trans hgood₁) hdrop (hlog₁.trans hlog₂) ?_
          have htail : List.replicate (mtd.ebSize - (buf.take (dropFfs mtd buf)).length) 0xFF =
              buf.drop (dropFfs mtd buf) := by
            rw [dropFfs_blank, List.length_take, hheaded.1]
            congr 1
            omega
          rw [hbytes, htail, List.take_append_drop]

/-- Where a buffer ends up: on the first PEB that is still good, with all PEBs in front of it bad. -/
structure Placed (dev : Device) (mtd : MtdDevInfo) (a e : ℕ) (buf buf' : List UInt8) (st st' : UbiState) (p : ℕ) :
    Prop where
  next : e = p + 1
  first : a ≤ p
  room : p < mtd.ebCnt
  within : Within mtd a e st st'
  goods : goods st' a e = [p]
  bytes : pebBytes mtd st' p = buf'
  kept : buf'.drop ubiEcHdrSize = buf.drop ubiEcHdrSize
  log : FailuresMark dev st st'

theorem writeOnePeb_placed {buf buf' : List UInt8} (hbuf : Headed crc32 st.ubi.ui mtd.ebSize buf)
    (hrun : ubiWriteOnePeb dev mtd crc32 a buf st = (some e, buf', st')) :
    ∃ p, Placed dev mtd a e buf buf' st st' p := by
  have h : ∀ r, (writePebLoop dev mtd crc32).exec ⟨a, buf, st⟩ = r → ∀ e, r.1 = some e →
      ∃ p, Placed dev mtd a e buf r.2.1 st r.2.2 p := by
    rintro r rfl
    refine (writePebLoop dev mtd crc32).exec_rule (I := fun c => a ≤ c.eb ∧ c.st.ubi.ui = st.ubi.ui ∧
      Headed crc32 st.ubi.ui mtd.ebSize c.buf ∧ Within mtd a c.eb st c.st ∧
      (∀ i, a ≤ i → i < c.eb → c.st.isEbBad i = true) ∧ c.buf.drop ubiEcHdrSize = buf.drop ubiEcHdrSize ∧
      FailuresMark dev st c.st) (Q := fun r => ∀ e, r.1 = some e → ∃ p, Placed dev mtd a e buf r.2.1 st r.2.2 p) ?_ ?_
      ⟨le_rfl, rfl, hbuf, within_of_eq rfl rfl, fun i h1 h2 => absurd h2 (not_lt.mpr h1), rfl, failuresMark_refl rfl rfl⟩
    · rintro c d ⟨hle, hui, hheaded, hwithin, hfront, hdrop, hlog⟩ hstep
      have hpass := @writePebStep_passed dev mtd crc32 _ _ hui hheaded
      have hkept := @WriteUnits.writePebStep_headed dev mtd crc32 _ _ _ hui hheaded
      have hsame := @writePebStep_same dev mtd crc32 c
      rw [show writePebStep dev mtd crc32 c = .next d from hstep] at hpass hkept hsame
      cases hpass with
      | next heb h hflag hbuf' hlog' =>
        rw [heb]
        refine ⟨by omega, (WriteUnits.SameUbi.ui hsame).trans hui, hkept,
          (hwithin.mono le_rfl (by omega)).trans (h.mono hle le_rfl), fun i h1 h2 => ?_, hbuf'.trans hdrop,
          hlog.trans hlog'⟩
        rcases Nat.lt_succ_iff_lt_or_eq.mp h2 with hlt | rfl
        · exact h.kept i (hfront i h1 hlt)
        · exact hflag
    · rintro c r ⟨hle, hui, hheaded, hwithin, hfront, hdrop, hlog⟩ hstep e he
      have hpass := @writePebStep_passed dev mtd crc32 _ _ hui hheaded
      rw [show writePebStep dev mtd crc32 c = .done r from hstep] at hpass
      cases hpass with
      | written hv h hflag hbuf' hlog' hbytes =>
        obtain rfl := Option.some.inj he
        exact ⟨c.eb, rfl, hle, hv, (hwithin.mono le_rfl (by omega)).trans (h.mono hle le_rfl),
          goods_last hle (fun i h1 h2 => h.kept i (hfront i h1 h2)) hflag, hbytes, hbuf'.trans hdrop, hlog.trans hlog'⟩
      | failed => cases he
  exact h _ hrun e rfl

end Write

end LinuxRecovery.PebWalks
