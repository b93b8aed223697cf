import LinuxRecovery.BasicRead
import LinuxRecovery.PageWrites

namespace LinuxRecovery.ShortTransfers

open Loops ByteMemory GoodBlocks Libmtd BlockMap Sysinfo BasicWrite BasicRead
open PageWrites (mtdWrite_working)

def Serves (dev : Device) : Prop := ∀ calls, dev.reply calls = none

section Room

variable (mtd : MtdDevInfo) (st : BmState)

def hides (b : ℕ) : Bool := mtdTypeIsNand mtd && mtdBmBlockMapIsBad st b

def room (w : ℕ) : List ℕ := usable (hides mtd st) mtd.ebSize mtd.size w

def landing (w : ℕ) : ℕ := skip (hides mtd st) mtd.size mtd.ebSize_pos w

def EndHidden (w : ℕ) : Prop := w < mtd.size ∧ hides mtd st ((mtd.size - 1) / mtd.ebSize) = true

variable {mtd st} {w : ℕ}

theorem room_landing : room mtd st (landing mtd st w) = room mtd st w := usable_skip_eq _ mtd.ebSize_pos w

theorem room_end (h : mtd.size ≤ w) : room mtd st w = [] := usable_end _ h

theorem room_run {n : ℕ} (hgood : hides mtd st (w / mtd.ebSize) = false) (hblock : w % mtd.ebSize + n ≤ mtd.ebSize)
    (hw : w + n ≤ mtd.size) : room mtd st w = List.range' w n ++ room mtd st (w + n) := usable_run _ hgood hblock hw

theorem room_congr {st' : BmState} (h : st'.map = st.map) : room mtd st' w = room mtd st w := by
  have hh : hides mtd st' = hides mtd st := by
    funext b
    rw [hides, hides, mtdBmBlockMapIsBad, mtdBmBlockMapIsBad, h]
  rw [room, room, hh]

theorem hides_congr {st' : BmState} (h : st'.map = st.map) : hides mtd st' = hides mtd st := by
  funext b
  rw [hides, hides, mtdBmBlockMapIsBad, mtdBmBlockMapIsBad, h]

theorem landing_hidden (h : landing mtd st w < mtd.size) : hides mtd st (landing mtd st w / mtd.ebSize) = false :=
  skip_notBad _ mtd.ebSize_pos h

theorem landing_end (hw : w < mtd.size) (h : mtd.size ≤ landing mtd st w) : EndHidden mtd st w :=
  ⟨hw, @skip_skipped (hides mtd st) _ mtd.size mtd.ebSize_pos _ (mtd.size - 1) (by omega)
    (show mtd.size - 1 < landing mtd st w by omega)⟩

theorem EndHidden.landing_block (h : EndHidden mtd st w) (hv : landing mtd st w < mtd.size) :
    nextBlock mtd.ebSize (landing mtd st w) < mtd.size := by
  have hgood := landing_hidden hv
  have hpos := mtd.ebSize_pos
  generalize landing mtd st w = v at hv hgood
  have hle : v / mtd.ebSize ≤ (mtd.size - 1) / mtd.ebSize := Nat.div_le_div_right (by omega)
  have hne : v / mtd.ebSize ≠ (mtd.size - 1) / mtd.ebSize := by
    intro he
    rw [he, h.2] at hgood
    cases hgood
  have hmul : (v / mtd.ebSize + 1) * mtd.ebSize ≤ (mtd.size - 1) / mtd.ebSize * mtd.ebSize :=
    Nat.mul_le_mul_right _ (by omega)
  have hlast := Nat.div_mul_le_self (mtd.size - 1) mtd.ebSize
  rw [nextBlock, Nat.add_div_right _ hpos]
  omega

theorem skipBad_landing (hn : mtdTypeIsNand mtd = true) : skipBad mtd st w = landing mtd st w := by
  have hh : hides mtd st = mtdBmBlockMapIsBad st := by
    funext b
    rw [hides, hn, Bool.true_and]
  rw [landing, hh]
  rfl

theorem landing_plain (hn : mtdTypeIsNand mtd = false) : landing mtd st w = w :=
  skip_good _ mtd.ebSize_pos (by rw [hides, hn, Bool.false_and])

end Room

section Write

variable {dev : Device} {mtd : MtdDevInfo} {fs : FsKind} {maxSize : ℕ} {c d : Cursor}

theorem enterBlock_landing (hs : Settled mtd c) (hw : c.wOffset < mtd.size) :
    enterBlock mtd c =
      if mtd.size ≤ landing mtd c.st c.wOffset then none
      else some { c with
        wOffset := landing mtd c.st c.wOffset
        blockstart := some (mtdBlockAlign mtd (landing mtd c.st c.wOffset)) } := by
  rw [enterBlock_settled mtd hs hw, enterBlock, if_neg (by simp)]
  dsimp only
  cases hn : mtdTypeIsNand mtd with
  | true =>
    rw [skipBad_landing hn]
    rfl
  | false =>
    rw [landing_plain hn, if_pos (by simp), if_neg (by omega)]

def merges (mtd : MtdDevInfo) (st : BmState) (x : ℕ) : Bool :=
  match st.sysinfo with
  | none => true
  | some ls => (sysinfoTraversalMerge ls (List.replicate mtd.minIoSize 0) (x + mtd.start) mtd.minIoSize).isSome

theorem mergeAll_isSome_congr (ls : List SysinfoLayout) (start length : ℕ) (buf buf' : List UInt8) :
    (ls.foldlM (mergeLayout start length) buf).isSome = (ls.foldlM (mergeLayout start length) buf').isSome := by
  induction ls generalizing buf buf' with
  | nil => rfl
  | cons l ls ih =>
    rw [List.foldlM_cons, List.foldlM_cons]
    unfold mergeLayout
    split_ifs
    · exact ih buf buf'
    · exact ih buf buf'
    · cases l.value with
      | none => rfl
      | some v =>
        dsimp only
        split_ifs
        · rfl
        · exact ih _ _

theorem mergePage_merges (c : Cursor) : (mergePage mtd c).isSome = merges mtd c.st c.wOffset := by
  unfold mergePage merges
  dsimp only
  cases c.st.sysinfo with
  | none => rfl
  | some ls =>
    dsimp only
    unfold sysinfoTraversalMerge
    split_ifs
    · rfl
    · exact mergeAll_isSome_congr ls _ _ _ _

structure Loaded (mtd : MtdDevInfo) (c : Cursor) : Prop where
  settled : Settled mtd c
  aligned : mtd.minIoSize ∣ c.wOffset
  inside : c.wOffset ≤ mtd.size
  inPad : c.wLength ≠ 0 → c.inPad = false
  buffer : c.wLength ≠ 0 → c.wBuffer.length = c.wLength

theorem prepared_wBuffer (c : Cursor) : (prepared mtd fs c).wBuffer = (padTail mtd fs c).wBuffer := by
  rw [prepared, takeOob_frame]

theorem Loaded.page (h : Loaded mtd c) (h0 : c.wLength ≠ 0) :
    mtd.minIoSize ≤ (padTail mtd fs c).wBuffer.length ∧
      (pagelen mtd fs ≤ c.wLength → padTail mtd fs c = c) := by
  have hle := minIoSize_le_pagelen mtd fs
  have hbuffer := h.buffer h0
  by_cases hlen : pagelen mtd fs ≤ c.wLength
  · rw [padTail_whole mtd fs hlen]
    exact ⟨by omega, fun _ => rfl⟩
  · have hw : writen mtd fs c = c.wLength := by rw [writen, if_neg (by omega)]
    refine ⟨?_, fun hl => absurd hl hlen⟩
    unfold padTail
    dsimp only
    rw [hw, h.inPad h0, Nat.mod_eq_of_lt (by omega), if_neg h0]
    simp only [Bool.false_eq_true, ↓reduceIte, List.length_append, List.length_take, List.length_replicate]
    omega

theorem writeStep_lands (hs : Serves dev) (hm : maxSize ≠ 0) (h : Loaded mtd c) (h0 : c.wLength ≠ 0)
    (hw : c.wOffset < mtd.size) :
    ((mtd.size ≤ landing mtd c.st c.wOffset ∨ merges mtd c.st (landing mtd c.st c.wOffset) = false) ∧
        ∃ r, writeStep dev mtd fs maxSize c = .done r ∧ r.ret = .fail) ∨
      (landing mtd c.st c.wOffset < mtd.size ∧ merges mtd c.st (landing mtd c.st c.wOffset) = true ∧
        ∃ d, writeStep dev mtd fs maxSize c = .next d ∧ Loaded mtd d ∧
          d.wOffset = landing mtd c.st c.wOffset + mtd.minIoSize ∧ d.wLength = c.wLength - writen mtd fs c ∧
          d.progressSize = c.progressSize + writen mtd fs c ∧ d.st.map = c.st.map ∧ d.st.sysinfo = c.st.sysinfo) := by
  have henter := enterBlock_landing h.settled hw
  have hal : mtd.minIoSize ∣ landing mtd c.st c.wOffset := skip_dvd _ mtd.ebSize_pos mtd.minIoSize_dvd h.aligned
  by_cases hv : mtd.size ≤ landing mtd c.st c.wOffset
  · rw [if_pos hv] at henter
    refine Or.inl ⟨Or.inl hv, c.outcome .fail, ?_, rfl⟩
    rw [writeStep, if_neg (by omega), henter]
  · rw [if_neg hv] at henter
    set e : Cursor := { c with
      wOffset := landing mtd c.st c.wOffset
      blockstart := some (mtdBlockAlign mtd (landing mtd c.st c.wOffset)) } with he
    have hstep : writeStep dev mtd fs maxSize c = writePage dev mtd fs maxSize e := by
      rw [writeStep, if_neg (by omega), henter]
    have hmerge : (mergePage mtd (prepared mtd fs e)).isSome = merges mtd c.st (landing mtd c.st c.wOffset) := by
      rw [mergePage_merges, prepared_st, prepared_wOffset]
    rw [hstep, writePage_eq, setProcessInfo_pos maxSize hm]
    cases hdata : mergePage mtd (prepared mtd fs e) with
    | none =>
      rw [hdata] at hmerge
      exact Or.inl ⟨Or.inr hmerge.symm, _, rfl, rfl⟩
    | some data =>
      rw [hdata] at hmerge
      have hloaded : Loaded mtd e := ⟨fun _ hn => by
        have := landing_hidden (not_le.mp hv)
        rwa [hides, hn, Bool.true_and] at this, hal, (not_le.mp hv).le, h.inPad, h.buffer⟩
      obtain ⟨hpage, hwhole⟩ := @hloaded.page _ fs _ h0
      have hlen : data.length = mtd.minIoSize := mergePage_length mtd (by rw [prepared_wBuffer]; exact hpage) hdata
      have hwrite := @mtdWrite_working dev mtd _ (fun _ _ _ => hs _) (not_le.mp hv) hal _ hlen
        (takeOob mtd fs (padTail mtd fs e)).1 (writeMode fs) c.st.toChip
      set d := advance mtd fs ((prepared mtd fs e).sent mtd.minIoSize data
        ⟨writeBytes c.st.mem (mtd.start + landing mtd c.st c.wOffset) data, c.st.calls ++
          [.write mtd.start (mtdOffsetToEbIndex mtd (landing mtd c.st c.wOffset))
            (landing mtd c.st c.wOffset % mtd.ebSize) data (takeOob mtd fs (padTail mtd fs e)).1 (writeMode fs)]⟩) with hd
      have hprogram : programPage dev mtd fs data (takeOob mtd fs (padTail mtd fs e)).1 (prepared mtd fs e) = .next d := by
        unfold programPage
        dsimp only
        rw [prepared_wOffset, prepared_st, show e.st = c.st from rfl,
          show e.wOffset = landing mtd c.st c.wOffset from rfl, hwrite]
      have hnext : writeStep dev mtd fs maxSize c = .next d := by
        rw [hstep, writePage_eq, setProcessInfo_pos maxSize hm, hdata]
        exact hprogram
      have hwriten : writen mtd fs ((prepared mtd fs e).sent mtd.minIoSize data ⟨writeBytes c.st.mem
          (mtd.start + landing mtd c.st c.wOffset) data, c.st.calls ++
          [.write mtd.start (mtdOffsetToEbIndex mtd (landing mtd c.st c.wOffset))
            (landing mtd c.st c.wOffset % mtd.ebSize) data (takeOob mtd fs (padTail mtd fs e)).1 (writeMode fs)]⟩) =
            writen mtd fs c := writen_congr mtd fs (by rw [Cursor.sent_wLength, prepared_wLength])
      have hoffset : d.wOffset = landing mtd c.st c.wOffset + mtd.minIoSize := by
        rw [hd, advance_wOffset, Cursor.sent_wOffset, prepared_wOffset]
      have hlength : d.wLength = c.wLength - writen mtd fs c := by
        rw [hd, advance_wLength, hwriten, Cursor.sent_wLength, prepared_wLength]
      have hlong : d.wLength ≠ 0 → pagelen mtd fs ≤ c.wLength := by
        intro hne
        by_contra hshort
        rw [hlength, writen, if_neg (by omega), Nat.sub_self] at hne
        exact hne rfl
      have hfull : d.wLength ≠ 0 → prepared mtd fs e = { e with writeoob := (prepared mtd fs e).writeoob } := by
        intro hne
        rw [prepared, takeOob_frame, hwhole (hlong hne)]
      refine Or.inr ⟨not_le.mp hv, hmerge.symm, d, ?_, ⟨settled_next dev mtd fs maxSize h.settled hnext, ?_, ?_, ?_, ?_⟩,
        hoffset, hlength, ?_, ?_, ?_⟩
      · exact hprogram
      · rw [hoffset]
        exact Nat.dvd_add hal dvd_rfl
      · rw [hoffset]
        exact page_inside mtd (not_le.mp hv) hal
      · intro hne
        rw [hd, advance_inPad, Cursor.sent_inPad, hfull hne]
        exact h.inPad h0
      · intro hne
        have hbuffer : e.wBuffer.length = c.wLength := h.buffer h0
        have hle := minIoSize_le_pagelen mtd fs
        have hpage := hlong hne
        rw [hlength, writen_whole mtd fs hpage, hd, advance_wBuffer, Cursor.sent_wBuffer, hfull hne, List.length_drop,
          List.length_append, List.length_drop, hlen, hbuffer]
        omega
      · rw [hd, advance_progressSize, hwriten, Cursor.sent_progressSize, prepared_progressSize]
      · rw [hd, advance_st, Cursor.sent_st, prepared_st]
      · rw [hd, advance_st, Cursor.sent_st, prepared_st]

def demand (mtd : MtdDevInfo) (fs : FsKind) (n : ℕ) : ℕ := (n + pagelen mtd fs - 1) / pagelen mtd fs * mtd.minIoSize

theorem demand_zero : demand mtd fs 0 = 0 := by
  have hp := pagelen_pos mtd fs
  rw [demand, Nat.div_eq_of_lt (by omega), Nat.zero_mul]

theorem demand_page (h0 : c.wLength ≠ 0) :
    demand mtd fs c.wLength = mtd.minIoSize + demand mtd fs (c.wLength - writen mtd fs c) := by
  have hp := pagelen_pos mtd fs
  have hdiv : (c.wLength + pagelen mtd fs - 1) / pagelen mtd fs =
      (c.wLength - writen mtd fs c + pagelen mtd fs - 1) / pagelen mtd fs + 1 := by
    rw [← Nat.add_div_right _ hp]
    unfold writen
    split_ifs with hlong
    · congr 1
      omega
    · rw [Nat.sub_self, Nat.zero_add, Nat.add_div_right _ hp, Nat.div_eq_of_lt (by omega : pagelen mtd fs - 1 < _)]
      apply Nat.div_eq_of_lt_le
      · omega
      · omega
  rw [demand, demand, hdiv, Nat.add_mul, Nat.one_mul, Nat.add_comm]

theorem room_page (hal : mtd.minIoSize ∣ c.wOffset) (hv : landing mtd c.st c.wOffset < mtd.size) :
    room mtd c.st c.wOffset = List.range' (landing mtd c.st c.wOffset) mtd.minIoSize ++
      room mtd c.st (landing mtd c.st c.wOffset + mtd.minIoSize) := by
  have hdvd : mtd.minIoSize ∣ landing mtd c.st c.wOffset := skip_dvd _ mtd.ebSize_pos mtd.minIoSize_dvd hal
  rw [← room_landing, room_run (landing_hidden hv) (PageOutcomes.page_in_block hdvd) (page_inside mtd hv hdvd)]

theorem writeLoop_fits (hs : Serves dev) (hm : maxSize ≠ 0) (h : Loaded mtd c)
    (hfits : demand mtd fs c.wLength ≤ (room mtd c.st c.wOffset).length) {n : ℕ}
    (hr : ((writeLoop dev mtd fs maxSize).exec c).ret = .off n) :
    ((writeLoop dev mtd fs maxSize).exec c).progressSize = c.progressSize + c.wLength := by
  induction c using (writeLoop dev mtd fs maxSize).induct with
  | h c ih =>
    have hpos := mtd.minIoSize_pos
    by_cases h0 : c.wLength = 0
    · rw [Loop.exec_done _ (writeStep_finish dev mtd fs maxSize hm (Or.inl h0)), h0]
      rfl
    · have hdemand := @demand_page mtd fs _ h0
      have hw : c.wOffset < mtd.size := by
        by_contra hend
        rw [room_end (not_lt.mp hend), List.length_nil] at hfits
        omega
      rcases @writeStep_lands _ _ fs _ _ hs hm h h0 hw with ⟨-, r, hstep, hfail⟩ |
        ⟨hv, -, d, hstep, hd, ho, hl, hp, hmap, -⟩
      · rw [Loop.exec_done _ hstep, hfail] at hr
        cases hr
      · rw [Loop.exec_next (writeLoop dev mtd fs maxSize) hstep] at hr ⊢
        rw [room_page h.aligned hv, List.length_append, List.length_range'] at hfits
        rw [ih d hstep hd (by rw [room_congr hmap, hl, ho]; omega) hr, hp, hl]
        have := writen_le mtd fs c
        omega

theorem writeLoop_short (hs : Serves dev) (hm : maxSize ≠ 0) (h : Loaded mtd c)
    (hshort : (room mtd c.st c.wOffset).length < demand mtd fs c.wLength) :
    (((∀ x ∈ room mtd c.st c.wOffset, mtd.minIoSize ∣ x → merges mtd c.st x = true) ∧ ¬EndHidden mtd c.st c.wOffset) ∧
        ∃ n, ((writeLoop dev mtd fs maxSize).exec c).ret = .off n ∧
          ((writeLoop dev mtd fs maxSize).exec c).progressSize < c.progressSize + c.wLength) ∨
      (¬((∀ x ∈ room mtd c.st c.wOffset, mtd.minIoSize ∣ x → merges mtd c.st x = true) ∧
          ¬EndHidden mtd c.st c.wOffset) ∧ ((writeLoop dev mtd fs maxSize).exec c).ret = .fail) := by
  induction c using (writeLoop dev mtd fs maxSize).induct with
  | h c ih =>
    have hpos := mtd.minIoSize_pos
    have h0 : c.wLength ≠ 0 := by
      intro h0
      rw [h0, demand_zero] at hshort
      omega
    by_cases hw : mtd.size ≤ c.wOffset
    · left
      rw [Loop.exec_done _ (writeStep_finish dev mtd fs maxSize hm (Or.inr hw)), room_end hw]
      refine ⟨⟨by simp, fun hidden => by have := hidden.1; omega⟩, _, rfl, ?_⟩
      exact (by omega : c.progressSize < c.progressSize + c.wLength)
    · rcases @writeStep_lands _ _ fs _ _ hs hm h h0 (not_le.mp hw) with ⟨hstop, r, hstep, hfail⟩ |
        ⟨hv, hmerges, d, hstep, hd, ho, hl, hp, hmap, hsys⟩
      · right
        rw [Loop.exec_done _ hstep]
        refine ⟨?_, hfail⟩
        rintro ⟨hall, hopen⟩
        by_cases hend : mtd.size ≤ landing mtd c.st c.wOffset
        · exact hopen (landing_end (not_le.mp hw) hend)
        · have hmem : landing mtd c.st c.wOffset ∈ room mtd c.st c.wOffset := by
            rw [room_page h.aligned (not_le.mp hend)]
            exact List.mem_append_left _ (List.mem_range'_1.mpr ⟨le_rfl, by omega⟩)
          have hdvd : mtd.minIoSize ∣ landing mtd c.st c.wOffset :=
            skip_dvd _ mtd.ebSize_pos mtd.minIoSize_dvd h.aligned
          have hmerge := hall _ hmem hdvd
          rw [hstop.resolve_left hend] at hmerge
          cases hmerge
      · rw [Loop.exec_next (writeLoop dev mtd fs maxSize) hstep]
        have hroom := room_page h.aligned hv
        have hrest : room mtd d.st d.wOffset = room mtd c.st (landing mtd c.st c.wOffset + mtd.minIoSize) := by
          rw [room_congr hmap, ho]
        have hmerge (x : ℕ) : merges mtd d.st x = merges mtd c.st x := by rw [merges, merges, hsys]
        have hall : (∀ x ∈ room mtd c.st c.wOffset, mtd.minIoSize ∣ x → merges mtd c.st x = true) ↔
            ∀ x ∈ room mtd d.st d.wOffset, mtd.minIoSize ∣ x → merges mtd d.st x = true := by
          rw [hrest, hroom]
          simp only [hmerge, List.mem_append]
          constructor
          · intro hx x hmem
            exact hx x (Or.inr hmem)
          · rintro hx x (hmem | hmem) hdvd
            · obtain ⟨h1, h2⟩ := List.mem_range'_1.mp hmem
              have hsame : x = landing mtd c.st c.wOffset := by
                have hl : mtd.minIoSize ∣ landing mtd c.st c.wOffset :=
                  skip_dvd _ mtd.ebSize_pos mtd.minIoSize_dvd h.aligned
                have := Nat.eq_zero_of_dvd_of_lt (Nat.dvd_sub hdvd hl) (by omega)
                omega
              rw [hsame]
              exact hmerges
            · exact hx x hmem hdvd
        have hopen : EndHidden mtd c.st c.wOffset ↔ EndHidden mtd d.st d.wOffset := by
          rw [EndHidden, EndHidden, hides_congr hmap]
          constructor
          · intro hidden
            refine ⟨?_, hidden.2⟩
            have hblock := EndHidden.landing_block hidden hv
            have hdvd : mtd.minIoSize ∣ landing mtd c.st c.wOffset :=
              skip_dvd _ mtd.ebSize_pos mtd.minIoSize_dvd h.aligned
            have hpage := PageOutcomes.page_in_block hdvd
            rw [nextBlock_eq mtd.ebSize_pos] at hblock
            have := Nat.mod_le (landing mtd c.st c.wOffset) mtd.ebSize
            omega
          · intro hidden
            exact ⟨not_le.mp hw, hidden.2⟩
        have hless : (room mtd d.st d.wOffset).length < demand mtd fs d.wLength := by
          rw [hroom, List.length_append, List.length_range', demand_page h0] at hshort
          rw [hrest, hl]
          omega
        rw [hall, hopen]
        rcases ih d hstep hd hless with ⟨hcond, n, hret, hprogress⟩ | ⟨hcond, hret⟩
        · have := writen_le mtd fs c
          exact Or.inl ⟨hcond, n, hret, by omega⟩
        · exact Or.inr ⟨hcond, hret⟩

theorem writeLoop_trap (hs : Settled mtd c) (h0 : c.wLength ≠ 0) :
    ((writeLoop dev mtd fs 0).exec c).ret =
      if c.wOffset < mtd.size ∧ mtd.size ≤ landing mtd c.st c.wOffset then .fail else .trap := by
  by_cases hw : mtd.size ≤ c.wOffset
  · have hstep : (writeLoop dev mtd fs 0).step c = .done (c.outcome .trap) := if_pos (Or.inr hw)
    rw [Loop.exec_done _ hstep, if_neg (by omega)]
    rfl
  · have henter := enterBlock_landing hs (not_le.mp hw)
    by_cases hv : mtd.size ≤ landing mtd c.st c.wOffset
    · rw [if_pos hv] at henter
      have hstep : (writeLoop dev mtd fs 0).step c = .done (c.outcome .fail) := by
        change writeStep dev mtd fs 0 c = _
        rw [writeStep, if_neg (by omega), henter]
      rw [Loop.exec_done _ hstep, if_pos ⟨not_le.mp hw, hv⟩]
      rfl
    · rw [if_neg hv] at henter
      have hstep : (writeLoop dev mtd fs 0).step c = .done ((prepared mtd fs
          { c with
            wOffset := landing mtd c.st c.wOffset
            blockstart := some (mtdBlockAlign mtd (landing mtd c.st c.wOffset)) }).outcome .trap) := by
        change writeStep dev mtd fs 0 c = _
        rw [writeStep, if_neg (by omega), henter]
        rfl
      rw [Loop.exec_done _ hstep, if_neg (fun h => hv h.2)]
      rfl

structure Accepted (dev : Device) (mtd : MtdDevInfo) (fs : FsKind) (offset : ℤ) (buf : List UInt8) (st : BmState) : Prop where
  start : (mtd.start : ℤ) ≤ offset
  aligned : mtd.minIoSize ∣ (offset - mtd.start).toNat
  fileMode : ¬(fs.flag.noecc = true ∧ dev.fileMode ≠ none)
  pages : fs.flag.pad = false → pagelen mtd fs ∣ buf.length
  size : ((buf.length / pagelen mtd fs * mtd.minIoSize : ℕ) : ℤ) ≤ mtd.size - (offset - mtd.start)
  mapped : st.map.isSome = true

theorem basicWrite_accepted {progressSize : ℕ} {offset : ℤ} {buf : List UInt8} {st : BmState}
    (h : Accepted dev mtd fs offset buf st) : mtdBasicWrite dev mtd fs maxSize progressSize offset buf st =
      (writeLoop dev mtd fs maxSize).exec (writeStart fs (offset - mtd.start).toNat progressSize buf st) := by
  have hstart := h.start
  have hsize := h.size
  unfold mtdBasicWrite
  dsimp only
  rw [if_neg (by omega), if_neg (not_not.mpr (Nat.mod_eq_zero_of_dvd h.aligned)), if_neg h.fileMode, if_neg, if_neg (by omega),
    if_neg (by simp [mtdBmBlockMapIsValid, h.mapped])]
  rintro ⟨hpad, hne⟩
  exact hne (Nat.mod_eq_zero_of_dvd (h.pages hpad))

theorem basicWrite_refused {progressSize : ℕ} {offset : ℤ} {buf : List UInt8} {st : BmState}
    (h : ¬Accepted dev mtd fs offset buf st) :
    (mtdBasicWrite dev mtd fs maxSize progressSize offset buf st).ret = .fail := by
  unfold mtdBasicWrite
  dsimp only
  split_ifs with h1 h2 h3 h4 h5 h6
  · rfl
  · rfl
  · rfl
  · rfl
  · rfl
  · rfl
  · refine absurd ⟨by omega, Nat.dvd_of_mod_eq_zero (not_not.mp h2), h3, ?_, by omega, ?_⟩ h
    · intro hpad
      by_contra hne
      exact h4 ⟨hpad, fun hmod => hne (Nat.dvd_of_mod_eq_zero hmod)⟩
    · rw [Bool.not_eq_true', Bool.not_eq_false] at h6
      exact h6

/-- A write that returns an offset has programmed the whole buffer, and one that finds too few good blocks fails. -/
def WriteComplete (dev : Device) (mtd : MtdDevInfo) (fs : FsKind) (maxSize progressSize : ℕ) (offset : ℤ)
    (buf : List UInt8) (st : BmState) : Prop :=
  let out := mtdBasicWrite dev mtd fs maxSize progressSize offset buf st
  (∀ n, out.ret = .off n → out.progressSize = progressSize + buf.length) ∧
    ((room mtd st (offset - mtd.start).toNat).length < demand mtd fs buf.length → out.ret = .fail)

/-- A write that passes the first checks fits, or is stopped: by system information in one of the
pages, or in front of a last block that is stepped over. -/
def WriteFits (dev : Device) (mtd : MtdDevInfo) (fs : FsKind) (maxSize : ℕ) (offset : ℤ) (buf : List UInt8)
    (st : BmState) : Prop :=
  let w := (offset - mtd.start).toNat
  Accepted dev mtd fs offset buf st → demand mtd fs buf.length ≤ (room mtd st w).length ∨
    (maxSize ≠ 0 ∧ ∃ x ∈ room mtd st w, mtd.minIoSize ∣ x ∧ merges mtd st x = false) ∨
    (EndHidden mtd st w ∧ (maxSize = 0 → room mtd st w = []))

theorem writeComplete_iff (hs : Serves dev) (progressSize : ℕ) (offset : ℤ) (buf : List UInt8) (st : BmState) :
    WriteComplete dev mtd fs maxSize progressSize offset buf st ↔ WriteFits dev mtd fs maxSize offset buf st := by
  unfold WriteComplete WriteFits
  dsimp only
  by_cases hacc : Accepted dev mtd fs offset buf st
  · rw [basicWrite_accepted hacc]
    have hstart := hacc.start
    have hsize := hacc.size
    generalize hw : (offset - mtd.start).toNat = w
    have haligned : mtd.minIoSize ∣ w := hw ▸ hacc.aligned
    have hloaded : Loaded mtd (writeStart fs w progressSize buf st) :=
      ⟨writeStart_settled mtd fs _ _ _ _, haligned, (by omega : w ≤ mtd.size), fun _ => rfl, fun _ => rfl⟩
    by_cases hfits : demand mtd fs buf.length ≤ (room mtd st w).length
    · refine iff_of_true ⟨?_, fun hshort => by omega⟩ (fun _ => Or.inl hfits)
      intro n hr
      exact writeLoop_fits hs (writeLoop_off dev mtd fs maxSize hr) hloaded hfits hr
    · have h0 : buf.length ≠ 0 := by
        intro h0
        rw [h0, demand_zero] at hfits
        omega
      by_cases hm : maxSize = 0
      · subst hm
        have htrap := @writeLoop_trap dev _ fs (writeStart fs w progressSize buf st)
          (writeStart_settled mtd fs _ _ _ _) h0
        rw [writeStart_wOffset, writeStart_st] at htrap
        rw [htrap]
        constructor
        · rintro ⟨-, hfail⟩ -
          have hstop := hfail (not_le.mp hfits)
          split_ifs at hstop with hland
          refine Or.inr (Or.inr ⟨landing_end hland.1 hland.2, fun _ => ?_⟩)
          rw [← room_landing, room_end hland.2]
        · intro hcond
          rcases (hcond hacc).resolve_left hfits with ⟨hm, -⟩ | ⟨hidden, hnone⟩
          · exact absurd rfl hm
          · have hland : mtd.size ≤ landing mtd st w := by
              by_contra hv
              have hroom := room_page (c := writeStart fs w progressSize buf st) haligned (not_le.mp hv)
              rw [writeStart_wOffset, writeStart_st, hnone rfl] at hroom
              have hlen := congrArg List.length hroom
              rw [List.length_nil, List.length_append, List.length_range'] at hlen
              have := mtd.minIoSize_pos
              omega
            rw [if_pos ⟨hidden.1, hland⟩]
            exact ⟨by simp, fun _ => rfl⟩
      · rcases writeLoop_short hs hm hloaded (not_le.mp hfits) with ⟨⟨hall, hopen⟩, n, hret, hprogress⟩ | ⟨hcond, hret⟩
        · rw [hret]
          refine iff_of_false ?_ ?_
          · rintro ⟨hcomplete, -⟩
            have hall := hcomplete n rfl
            simp only [writeStart_progressSize, writeStart_wLength] at hprogress
            omega
          · intro hcond
            rcases (hcond hacc).resolve_left hfits with ⟨-, x, hx, hdvd, hmerge⟩ | ⟨hidden, -⟩
            · have := hall x hx hdvd
              rw [writeStart_st, hmerge] at this
              cases this
            · exact hopen hidden
        · rw [hret]
          refine iff_of_true ⟨by simp, fun _ => rfl⟩ (fun _ => ?_)
          right
          by_cases hidden : EndHidden mtd st w
          · exact Or.inr ⟨hidden, fun h0 => absurd h0 hm⟩
          · left
            refine ⟨hm, ?_⟩
            by_contra hnone
            refine hcond ⟨?_, hidden⟩
            intro x hx hdvd
            by_contra hmerge
            exact hnone ⟨x, hx, hdvd, by simpa using hmerge⟩
  · refine iff_of_true ⟨?_, fun _ => basicWrite_refused hacc⟩ (fun h => absurd h hacc)
    intro n hr
    rw [basicWrite_refused hacc] at hr
    cases hr

theorem endHidden_next (hs : Settled mtd c) (hal : mtd.minIoSize ∣ c.wOffset) (h : EndHidden mtd c.st c.wOffset)
    (hstep : writeStep dev mtd fs maxSize c = .next d) :
    mtd.minIoSize ∣ d.wOffset ∧ EndHidden mtd d.st d.wOffset ∧ d.progressSize + d.wLength = c.progressSize + c.wLength := by
  obtain ⟨e, he, -, hmove⟩ := writeStep_moves dev mtd fs maxSize hstep
  have henter := enterBlock_landing hs h.1
  rw [he] at henter
  split_ifs at henter with hv
  have hoffset : e.wOffset = landing mtd c.st c.wOffset := by
    rw [Option.some_inj.mp henter]
  have hdvd : mtd.minIoSize ∣ landing mtd c.st c.wOffset := skip_dvd _ mtd.ebSize_pos mtd.minIoSize_dvd hal
  have hblock := h.landing_block (not_le.mp hv)
  have hpage := PageOutcomes.page_in_block hdvd
  have hwriten := writen_le mtd fs c
  rw [hoffset] at hmove
  rcases hmove with ⟨ho, hm, hl, hp⟩ | ⟨ho, hm, hl, hp⟩
  · rw [nextBlock_eq mtd.ebSize_pos] at hblock
    have := Nat.mod_le (landing mtd c.st c.wOffset) mtd.ebSize
    exact ⟨ho ▸ Nat.dvd_add hdvd dvd_rfl, ⟨by omega, hides_congr hm ▸ h.2⟩, by omega⟩
  · refine ⟨ho ▸ mtd.minIoSize_dvd.trans (nextBlock_dvd _), ⟨by omega, ?_⟩, by omega⟩
    have hlast := h.2
    rw [hides, Bool.and_eq_true] at hlast ⊢
    refine ⟨hlast.1, ?_⟩
    rw [mtdBmBlockMapIsBad, hm, ← mtdBmBlockMapIsBad, set_isBad_bad, hlast.2, Bool.or_true]

theorem endHidden_never_short (hs : Settled mtd c) (hal : mtd.minIoSize ∣ c.wOffset) (h : EndHidden mtd c.st c.wOffset)
    {n : ℕ} (hr : ((writeLoop dev mtd fs maxSize).exec c).ret = .off n) :
    ((writeLoop dev mtd fs maxSize).exec c).progressSize = c.progressSize + c.wLength := by
  revert hr
  apply (writeLoop dev mtd fs maxSize).exec_rule
    (I := fun d => Settled mtd d ∧ mtd.minIoSize ∣ d.wOffset ∧ EndHidden mtd d.st d.wOffset ∧
      d.progressSize + d.wLength = c.progressSize + c.wLength)
    (Q := fun out => out.ret = .off n → out.progressSize = c.progressSize + c.wLength)
  · rintro d d' ⟨hset, hdvd, hidden, htotal⟩ hstep
    obtain ⟨h1, h2, h3⟩ := endHidden_next hset hdvd hidden hstep
    exact ⟨settled_next dev mtd fs maxSize hset hstep, h1, h2, h3.trans htotal⟩
  · rintro d r ⟨-, -, hidden, htotal⟩ hstep hr
    obtain ⟨hexit, -, rfl⟩ := writeStep_off dev mtd fs maxSize hstep hr
    have := hidden.1
    exact (by omega : d.progressSize = c.progressSize + c.wLength)
  · exact ⟨hs, hal, h, rfl⟩

end Write

section Read

variable {dev : Device} {mtd : MtdDevInfo} {c d : ReadCursor}

theorem readEnterBlock_landing (hs : ReadSettled mtd c) (hw : c.offset < mtd.size) :
    readEnterBlock mtd c =
      if mtd.size ≤ landing mtd c.st c.offset then none
      else some { c with
        offset := landing mtd c.st c.offset
        blockstart := some (mtdBlockAlign mtd (landing mtd c.st c.offset)) } := by
  cases hn : mtdTypeIsNand mtd with
  | true =>
    rw [readEnterBlock_nand mtd hn hs hw, skipBad_landing hn]
  | false =>
    rw [landing_plain hn, if_neg (by omega), readEnterBlock]
    by_cases hb : c.blockstart = some (mtdBlockAlign mtd c.offset)
    · rw [if_pos hb, ← hb]
    · rw [if_neg hb, if_pos (by simp [hn])]

theorem readStep_lands (hs : Serves dev) (hset : ReadSettled mtd c) (h0 : c.length ≠ 0) (hw : c.offset < mtd.size) :
    (mtd.size ≤ landing mtd c.st c.offset ∧ readStep dev mtd c = .done (c.outcome .fail)) ∨
      (landing mtd c.st c.offset < mtd.size ∧ ∃ n d, readStep dev mtd c = .next d ∧ ReadSettled mtd d ∧ 0 < n ∧
        n ≤ c.length ∧ landing mtd c.st c.offset % mtd.ebSize + n ≤ mtd.ebSize ∧
        d.offset = landing mtd c.st c.offset + n ∧ d.length = c.length - n ∧
        d.buffer.length = c.buffer.length + n ∧ d.st.map = c.st.map) := by
  have henter := readEnterBlock_landing hset hw
  by_cases hv : mtd.size ≤ landing mtd c.st c.offset
  · rw [if_pos hv] at henter
    exact Or.inl ⟨hv, by rw [readStep, if_neg (by omega), henter]⟩
  · rw [if_neg hv] at henter
    have hhidden := landing_hidden (not_le.mp hv)
    generalize landing mtd c.st c.offset = v at *
    set e : ReadCursor := { c with offset := v, blockstart := some (mtdBlockAlign mtd v) } with he
    have hunit : v % mtd.ebSize + readUnit mtd e ≤ mtd.ebSize := readUnit_block mtd e
    obtain ⟨calls, hread⟩ := mtdRead_unit dev mtd (fun calls _ _ _ _ => hs _) c.st.toChip (not_le.mp hv) hunit
    refine Or.inr ⟨not_le.mp hv, readUnit mtd e, c.filled mtd v (readBytes c.st.mem (mtd.start + v) (readUnit mtd e)) calls,
      ?_, ?_, readUnit_pos mtd (c := e) h0, readUnit_le mtd e, hunit, ?_, ?_, ?_, rfl⟩
    · rw [readStep, if_neg (by omega), henter]
      dsimp only
      rw [readBlock]
      dsimp only
      rw [hread]
      simp [ReadCursor.filled, he]
    · intro hb hn
      rw [ReadCursor.filled_offset, ReadCursor.filled_blockstart, Option.some_inj] at hb
      have hidx : v / mtd.ebSize = mtdOffsetToEbIndex mtd (v + (readBytes c.st.mem (mtd.start + v) (readUnit mtd e)).length) :=
        Nat.eq_of_mul_eq_mul_right mtd.ebSize_pos hb
      rw [ReadCursor.filled_offset, filled_isBad, ← hidx]
      rwa [hides, hn, Bool.true_and] at hhidden
    · rw [ReadCursor.filled_offset, readBytes_length]
    · rw [ReadCursor.filled_length, readBytes_length]
    · rw [ReadCursor.filled_buffer, List.length_append, readBytes_length]

theorem readLoop_ends (hs : Serves dev) (hset : ReadSettled mtd c) :
    (c.length ≤ (room mtd c.st c.offset).length ∧
        ((readLoop dev mtd).exec c).buffer.length = c.buffer.length + c.length) ∨
      ((room mtd c.st c.offset).length < c.length ∧ ¬EndHidden mtd c.st c.offset ∧
        (∃ n, ((readLoop dev mtd).exec c).ret = .off n) ∧
          ((readLoop dev mtd).exec c).buffer.length < c.buffer.length + c.length) ∨
      ((room mtd c.st c.offset).length < c.length ∧ EndHidden mtd c.st c.offset ∧
        ((readLoop dev mtd).exec c).ret = .fail) := by
  induction c using (readLoop dev mtd).induct with
  | h c ih =>
    by_cases h0 : c.length = 0
    · have hstep : (readLoop dev mtd).step c = .done (c.outcome (.off (c.offset + mtd.start))) := if_pos (Or.inl h0)
      rw [Loop.exec_done _ hstep, h0]
      exact Or.inl ⟨Nat.zero_le _, rfl⟩
    · by_cases hw : mtd.size ≤ c.offset
      · have hstep : (readLoop dev mtd).step c = .done (c.outcome (.off (c.offset + mtd.start))) := if_pos (Or.inr hw)
        rw [Loop.exec_done _ hstep, room_end hw, List.length_nil]
        refine Or.inr (Or.inl ⟨by omega, fun hidden => by have := hidden.1; omega, ⟨_, rfl⟩, ?_⟩)
        exact (by omega : c.buffer.length < c.buffer.length + c.length)
      · rcases readStep_lands hs hset h0 (not_le.mp hw) with ⟨hend, hstep⟩ |
          ⟨hv, n, d, hstep, hd, hpos, hle, hblock, ho, hl, hbuf, hmap⟩
        · rw [Loop.exec_done (readLoop dev mtd) hstep, ← room_landing, room_end hend, List.length_nil]
          exact Or.inr (Or.inr ⟨by omega, landing_end (not_le.mp hw) hend, rfl⟩)
        · rw [Loop.exec_next (readLoop dev mtd) hstep]
          have hfit : landing mtd c.st c.offset + n ≤ mtd.size := by
            have hnext := nextBlock_le mtd.ebSize_pos mtd.size_dvd hv
            rw [nextBlock_eq mtd.ebSize_pos] at hnext
            have := Nat.mod_le (landing mtd c.st c.offset) mtd.ebSize
            omega
          have hroom : (room mtd c.st c.offset).length = n + (room mtd d.st d.offset).length := by
            rw [← room_landing, room_run (landing_hidden hv) hblock hfit, room_congr hmap, ho, List.length_append,
              List.length_range']
          have hopen : EndHidden mtd c.st c.offset ↔ EndHidden mtd d.st d.offset := by
            rw [EndHidden, EndHidden, hides_congr hmap]
            constructor
            · intro hidden
              refine ⟨?_, hidden.2⟩
              have hnext := EndHidden.landing_block hidden hv
              rw [nextBlock_eq mtd.ebSize_pos] at hnext
              have := Nat.mod_le (landing mtd c.st c.offset) mtd.ebSize
              omega
            · intro hidden
              exact ⟨not_le.mp hw, hidden.2⟩
          rw [hopen, hroom]
          rcases ih d hstep hd with ⟨h1, h2⟩ | ⟨h1, h2, h3, h4⟩ | ⟨h1, h2, h3⟩
          · exact Or.inl ⟨by omega, by omega⟩
          · exact Or.inr (Or.inl ⟨by omega, h2, h3, by omega⟩)
          · exact Or.inr (Or.inr ⟨by omega, h2, h3⟩)

/-- A read that returns an offset has filled the whole buffer, and one that finds too few good blocks fails. -/
def ReadComplete (dev : Device) (mtd : MtdDevInfo) (offset : ℤ) (length : ℕ) (st : BmState) : Prop :=
  let out := mtdBasicRead dev mtd offset length st
  (∀ n, out.ret = .off n → out.buffer.length = length) ∧
    ((room mtd st (offset - mtd.start).toNat).length < length → out.ret = .fail)

/-- A read that comes to its loop fits, or is stopped in front of a last block that is stepped over. -/
def ReadFits (mtd : MtdDevInfo) (offset : ℤ) (length : ℕ) (st : BmState) : Prop :=
  let w := (offset - mtd.start).toNat
  st.map.isSome = true →
    (mtd.start ≤ offset ∨ -(mtd.ebSize : ℤ) < offset - mtd.start ∧ mtdTypeIsNand mtd = true ∧ mtdBmBlockMapIsBad st 0 = true) →
    length ≤ (room mtd st w).length ∨ EndHidden mtd st w

theorem readLoop_complete_iff (hs : Serves dev) (w length : ℕ) (st : BmState) :
    ((∀ n, ((readLoop dev mtd).exec (readStart w length st)).ret = .off n →
        ((readLoop dev mtd).exec (readStart w length st)).buffer.length = length) ∧
      ((room mtd st w).length < length → ((readLoop dev mtd).exec (readStart w length st)).ret = .fail)) ↔
      length ≤ (room mtd st w).length ∨ EndHidden mtd st w := by
  have h := @readLoop_ends _ mtd (readStart w length st) hs (by rintro ⟨⟩)
  simp only [readStart, List.length_nil, Nat.zero_add] at h ⊢
  rcases h with ⟨h1, h2⟩ | ⟨h1, h2, ⟨n, h3⟩, h4⟩ | ⟨h1, h2, h3⟩
  · exact iff_of_true ⟨fun _ _ => h2, fun h => by omega⟩ (Or.inl h1)
  · refine iff_of_false ?_ ?_
    · rintro ⟨hall, -⟩
      have := hall n h3
      omega
    · rintro (h | h)
      · omega
      · exact h2 h
  · refine iff_of_true ⟨?_, fun _ => h3⟩ (Or.inr h2)
    intro n hr
    rw [h3] at hr
    cases hr

theorem readComplete_iff (hs : Serves dev) (offset : ℤ) (length : ℕ) (st : BmState) :
    ReadComplete dev mtd offset length st ↔ ReadFits mtd offset length st := by
  unfold ReadComplete ReadFits mtdBasicRead
  dsimp only
  split_ifs with hmap hw h0 hneg hfront
  · refine iff_of_true ⟨by simp, fun _ => rfl⟩ (fun hsome => ?_)
    rw [mtdBmBlockMapIsValid, hsome] at hmap
    cases hmap
  · rw [readLoop_complete_iff hs]
    constructor
    · intro h _ _
      exact h
    · intro h
      rw [Bool.not_eq_true', Bool.not_eq_false] at hmap
      exact h hmap (Or.inl (by omega))
  · exact iff_of_true ⟨fun _ _ => h0.symm, fun h => by omega⟩ (fun _ _ => Or.inl (by omega))
  · exact iff_of_true ⟨by simp, fun _ => rfl⟩ (fun _ _ => Or.inl (by omega))
  · rw [show (offset - mtd.start).toNat = 0 by omega, readLoop_complete_iff hs]
    constructor
    · intro h _ _
      exact h
    · intro h
      rw [Bool.not_eq_true', Bool.not_eq_false] at hmap
      exact h hmap (Or.inr hfront)
  · refine iff_of_true ⟨by simp, fun _ => rfl⟩ (fun _ hstart => ?_)
    rcases hstart with hstart | hstart
    · omega
    · exact absurd hstart hfront

end Read

/-- On a working device a transfer is complete exactly when it fits, or something stops it. -/
theorem transfers_complete_iff {dev : Device} (hs : Serves dev) (mtd : MtdDevInfo) (fs : FsKind)
    (maxSize progressSize : ℕ) (offset : ℤ) (buf : List UInt8) (length : ℕ) (st : BmState) :
    (WriteComplete dev mtd fs maxSize progressSize offset buf st ↔ WriteFits dev mtd fs maxSize offset buf st) ∧
      (ReadComplete dev mtd offset length st ↔ ReadFits mtd offset length st) :=
  ⟨writeComplete_iff hs progressSize offset buf st, readComplete_iff hs offset length st⟩

theorem transfers_complete_iff_small :
    (WriteComplete (failsAt []) (smallNand 0 (by decide)) fsNormal 4 0 4 [1, 2, 3] (blankState [2]) ↔
        WriteFits (failsAt []) (smallNand 0 (by decide)) fsNormal 4 4 [1, 2, 3] (blankState [2])) ∧
      (ReadComplete (failsAt []) (smallNand 0 (by decide)) 4 7 (blankState [2]) ↔
        ReadFits (smallNand 0 (by decide)) 4 7 (blankState [2])) :=
  transfers_complete_iff (fun _ => rfl) _ _ _ _ _ _ _ _

/-- Sixteen bytes to a chip with twelve in good blocks: the write stores twelve and returns the end of the partition. -/
theorem short_write_succeeds :
    (mtdBasicWrite (failsAt []) (smallNand 0 (by decide)) fsNormal 16 0 0 (List.replicate 16 7) (blankState [1])).ret =
        .off 16 ∧
      ¬WriteComplete (failsAt []) (smallNand 0 (by decide)) fsNormal 16 0 0 (List.replicate 16 7) (blankState [1]) := by
  have hret : (mtdBasicWrite (failsAt []) (smallNand 0 (by decide)) fsNormal 16 0 0 (List.replicate 16 7)
      (blankState [1])).ret = .off 16 := by decide
  refine ⟨hret, ?_⟩
  rintro ⟨hall, -⟩
  exact absurd (hall 16 hret) (by decide)

end LinuxRecovery.ShortTransfers
