import LinuxRecovery.ShortTransfers
import LinuxRecovery.SysinfoSurvival

namespace LinuxRecovery.SysinfoPlaces

open Loops ByteMemory GoodBlocks Libmtd BlockMap Sysinfo BasicWrite BasicErase SysinfoSave SysinfoHook SysinfoSurvival
open PageWrites ShortTransfers
open PageOutcomes (address_block)

section Pages

/-- Since the calls `tr` a page request has gone out that covers the byte `x` of the flash. -/
def Sent (mtd : MtdDevInfo) (tr : List DevCall) (x : ℕ) (st : BmState) : Prop :=
  ∃ new, st.calls = tr ++ new ∧ Programmed mtd new x

structure Ahead (mtd : MtdDevInfo) (fs : FsKind) (tr : List DevCall) (y : ℕ) (c : Cursor) : Prop where
  settled : Settled mtd c
  aligned : mtd.minIoSize ∣ c.wOffset
  ahead : Sent mtd tr (mtd.start + y) c.st ∨ y ∈ (room mtd c.st c.wOffset).take (demand mtd fs c.wLength)

variable {dev : Device} {mtd : MtdDevInfo} {fs : FsKind} {maxSize b i y n v : ℕ} {table : List SysinfoLayout}
  {l : SysinfoLayout} {R : Memory} {tr : List DevCall} {st st' : BmState} {c d : Cursor}

theorem Sent.more {x : ℕ} (h : Sent mtd tr x st) (hcalls : st.calls <+: st'.calls) : Sent mtd tr x st' := by
  obtain ⟨new, hn, hp⟩ := h
  obtain ⟨new', hn'⟩ := hcalls
  exact ⟨new ++ new', by rw [← hn', hn, List.append_assoc], programmed_append.mpr (.inl hp)⟩

theorem retireBlock_calls (eb : ℕ) (st : BmState) : st.calls <+: (retireBlock dev mtd fs eb st).2.calls := by
  have hother : ¬Numbered mtd (eb + 1) eb := by
    rw [Numbered, mtdEbRelativeToAbsolute]
    omega
  have helse : Elsewhere mtd (eb + 1) [] 0 st (retireBlock dev mtd fs eb st).2 := retireBlock_elsewhere hother st
  obtain ⟨new, hnew, -⟩ := helse.calls
  exact ⟨new, hnew.symm⟩

theorem programPage_calls (data : List UInt8) (oob : Option (List UInt8)) (c : Cursor) :
    c.st.calls <+: (after Cursor.st Outcome.st (programPage dev mtd fs data oob c)).calls := by
  unfold programPage
  cases hw : mtdWrite dev mtd (mtdOffsetToEbIndex mtd c.wOffset) (c.wOffset % mtd.ebSize) data oob (writeMode fs)
      c.st.toChip with
  | mk err chip =>
    have hchip : c.st.calls <+: chip.calls := by
      rcases @mtdWrite_chip dev mtd (mtdOffsetToEbIndex mtd c.wOffset) (c.wOffset % mtd.ebSize) data oob (writeMode fs)
        c.st.toChip with ⟨hsame, -⟩ | ⟨hcalls, -⟩
      · rw [hw] at hsame
        rw [show chip = c.st.toChip from hsame]
      · rw [hw] at hcalls
        exact ⟨_, hcalls.symm⟩
    cases err with
    | none => exact hchip
    | some e =>
      cases e with
      | eio =>
        have hretire : chip.calls <+: (retireBlock dev mtd fs (mtdOffsetToEbIndex mtd c.wOffset)
            { c.st with toChip := chip }).2.calls := retireBlock_calls _ { c.st with toChip := chip }
        dsimp only
        unfold relocate
        split
        · rename_i st' heq
          have heq' : retireBlock dev mtd fs (mtdOffsetToEbIndex mtd c.wOffset) { c.st with toChip := chip } = (false, st') :=
            heq
          rw [heq'] at hretire
          exact hchip.trans hretire
        · rename_i st' heq
          have heq' : retireBlock dev mtd fs (mtdOffsetToEbIndex mtd c.wOffset) { c.st with toChip := chip } = (true, st') :=
            heq
          rw [heq'] at hretire
          exact hchip.trans hretire
      | _ => exact hchip

theorem writeStep_calls (c : Cursor) :
    c.st.calls <+: (after Cursor.st Outcome.st (writeStep dev mtd fs maxSize c)).calls := by
  unfold writeStep
  split_ifs
  · split <;> exact List.prefix_rfl
  · split
    · exact List.prefix_rfl
    · rename_i e he
      have hst : (prepared mtd fs e).st = c.st := by rw [prepared_st, enterBlock_frame mtd he]
      rw [writePage_eq]
      split
      · exact ⟨[], by rw [List.append_nil]; exact congrArg (fun st : BmState => st.calls) hst.symm⟩
      · split
        · exact ⟨[], by rw [List.append_nil]; exact congrArg (fun st : BmState => st.calls) hst.symm⟩
        · rw [← hst]
          exact programPage_calls _ _ _

theorem basicWrite_calls (progressSize : ℕ) (offset : ℤ) (buf : List UInt8) (st : BmState) :
    st.calls <+: (mtdBasicWrite dev mtd fs maxSize progressSize offset buf st).st.calls := by
  unfold mtdBasicWrite
  dsimp only
  split_ifs
  · exact List.prefix_rfl
  · exact List.prefix_rfl
  · exact List.prefix_rfl
  · exact List.prefix_rfl
  · exact List.prefix_rfl
  · exact List.prefix_rfl
  · refine Loop.exec_rule (writeLoop dev mtd fs maxSize) (I := fun c => st.calls <+: c.st.calls)
      (Q := fun r => st.calls <+: r.st.calls) (fun c d hc h => ?_) (fun c r hc h => ?_) List.prefix_rfl
    · have hcalls : c.st.calls <+: (after Cursor.st Outcome.st (writeStep dev mtd fs maxSize c)).calls := writeStep_calls c
      rw [show writeStep dev mtd fs maxSize c = .next d from h] at hcalls
      exact hc.trans hcalls
    · have hcalls : c.st.calls <+: (after Cursor.st Outcome.st (writeStep dev mtd fs maxSize c)).calls := writeStep_calls c
      rw [show writeStep dev mtd fs maxSize c = .done r from h] at hcalls
      exact hc.trans hcalls

/-- A block that is left behind takes none of the places further on. -/
theorem room_retired (hv : v < mtd.size) (hy : y / mtd.ebSize ≠ v / mtd.ebSize)
    (hsame : ∀ k, k ≠ v / mtd.ebSize → mtdBmBlockMapIsBad st' k = mtdBmBlockMapIsBad st k)
    (h : y ∈ (room mtd st v).take n) : y ∈ (room mtd st' (nextBlock mtd.ebSize v)).take n := by
  have hpos := mtd.ebSize_pos
  have hlt := lt_nextBlock hpos v
  have hle := nextBlock_le hpos mtd.size_dvd hv
  have hroom : room mtd st' (nextBlock mtd.ebSize v) = room mtd st (nextBlock mtd.ebSize v) := by
    apply List.filter_congr
    intro a ha
    have hblock : a / mtd.ebSize ≠ v / mtd.ebSize := by
      have hdiv := Nat.div_le_div_right (c := mtd.ebSize) (List.mem_range'_1.mp ha).1
      rw [div_nextBlock hpos] at hdiv
      omega
    rw [hides, hides, hsame _ hblock]
  rw [hroom]
  rw [room, usable_split _ hlt.le hle, List.take_append, List.mem_append] at h
  rcases h with hbefore | hbehind
  · obtain ⟨hrange, -⟩ := List.mem_filter.mp (List.mem_of_mem_take hbefore)
    obtain ⟨h1, h2⟩ := List.mem_range'_1.mp hrange
    exact absurd (div_eq_of_lt_nextBlock hpos h1 (by omega)) hy
  · exact List.take_subset_take_left _ (Nat.sub_le _ _) hbehind

/-- The place is on the page that goes out next, or among those of the bytes behind it. -/
theorem room_cases (hal : mtd.minIoSize ∣ c.wOffset) (hv : landing mtd c.st c.wOffset < mtd.size) (h0 : c.wLength ≠ 0)
    (h : y ∈ (room mtd c.st c.wOffset).take (demand mtd fs c.wLength)) :
    (landing mtd c.st c.wOffset ≤ y ∧ y < landing mtd c.st c.wOffset + mtd.minIoSize) ∨
      y ∈ (room mtd c.st (landing mtd c.st c.wOffset + mtd.minIoSize)).take (demand mtd fs (c.wLength - writen mtd fs c)) := by
  rw [room_page hal hv, demand_page h0, List.take_append, List.mem_append, List.length_range', Nat.add_sub_cancel_left] at h
  exact h.imp_left fun hhere => List.mem_range'_1.mp (List.mem_of_mem_take hhere)

theorem program_sent {data : List UInt8} {oob : Option (List UInt8)} {mode : MtdOps} {chip : Chip} {w : ℕ}
    (hcalls : ∃ new, st.calls = tr ++ new) (hlow : w ≤ y) (hhigh : y < w + data.length)
    (h : mtdWrite dev mtd (mtdOffsetToEbIndex mtd w) (w % mtd.ebSize) data oob mode st.toChip = (none, chip)) :
    Sent mtd tr (mtd.start + y) { st with toChip := chip } := by
  obtain ⟨new, hnew⟩ := hcalls
  rcases @mtdWrite_chip dev mtd (mtdOffsetToEbIndex mtd w) (w % mtd.ebSize) data oob mode st.toChip with
    ⟨-, hinval⟩ | ⟨hlog, -⟩
  · rw [h] at hinval
    cases hinval
  · rw [h] at hlog
    refine ⟨new ++ [.write mtd.start (mtdOffsetToEbIndex mtd w) (w % mtd.ebSize) data oob mode], ?_, ?_⟩
    · dsimp only
      rw [hlog, hnew, List.append_assoc]
    · refine ⟨_, _, _, _, _, List.mem_append_right _ (List.mem_singleton_self _), ?_, ?_⟩
      · rw [address_block]
        omega
      · rw [address_block]
        omega

theorem ahead_next (hs : Steady dev mtd b) (hc : Writing mtd b i table l R tr c) (ha : Ahead mtd fs tr y c)
    (hy : y / mtd.ebSize = b) (hstep : writeStep dev mtd fs maxSize c = .next d) : Ahead mtd fs tr y d := by
  have hsettled := settled_next dev mtd fs maxSize ha.settled hstep
  have hcalls : c.st.calls <+: (after Cursor.st Outcome.st (writeStep dev mtd fs maxSize c)).calls := writeStep_calls c
  rw [hstep] at hcalls
  obtain ⟨h0, hw, e, he, hpage⟩ := writeStep_next dev mtd fs maxSize hstep
  have hframe := enterBlock_frame mtd he
  have hst : e.st = c.st := by rw [hframe]
  have hlength : e.wLength = c.wLength := by rw [hframe]
  have halign : mtd.minIoSize ∣ e.wOffset := enterBlock_aligned mtd he ha.aligned
  have hlands := enterBlock_landing ha.settled hw
  rw [he] at hlands
  split_ifs at hlands with hv
  rw [not_le] at hv
  have hoffset : e.wOffset = landing mtd c.st c.wOffset := by rw [Option.some_inj] at hlands; rw [hlands]
  obtain ⟨-, data, hmerge, hprogram⟩ := writePage_next dev mtd fs maxSize hpage
  obtain ⟨hlen, -⟩ := @prepared_full mtd fs e (by rw [hframe]; exact hc.full) (by rw [hlength]; exact h0)
  have hdata : data.length = mtd.minIoSize := mergePage_length mtd hlen hmerge
  obtain ⟨err, chip, hwrite, ⟨rfl, rfl⟩ | ⟨rfl, hrelocate⟩⟩ := programPage_next dev mtd fs hprogram
  · refine ⟨hsettled, ?_, ?_⟩
    · rw [advance_wOffset, Cursor.sent_wOffset, prepared_wOffset]
      exact Nat.dvd_add halign dvd_rfl
    · refine ha.ahead.elim (fun hsent => .inl (hsent.more hcalls)) (fun hin => ?_)
      rcases room_cases ha.aligned hv h0 hin with ⟨hlow, hhigh⟩ | hlater
      · obtain ⟨new, hnew, -⟩ := hc.behind.back
        rw [prepared_wOffset, prepared_st, hst] at hwrite
        left
        rw [advance_st, Cursor.sent_st, prepared_st, hst]
        exact program_sent ⟨new, hnew⟩ (by omega) (by omega) hwrite
      · right
        rw [advance_wOffset, Cursor.sent_wOffset, prepared_wOffset, hoffset, advance_wLength, Cursor.sent_wLength,
          prepared_wLength, hlength, advance_st, Cursor.sent_st]
        have hwriten : writen mtd fs ((prepared mtd fs e).sent mtd.minIoSize data chip) = writen mtd fs c :=
          writen_congr mtd fs (by rw [Cursor.sent_wLength, prepared_wLength, hlength])
        rw [hwriten, @room_congr mtd c.st]
        · exact hlater
        · dsimp only
          rw [prepared_st, hst]
  · have heb : ¬Numbered mtd b (mtdOffsetToEbIndex mtd e.wOffset) := by
      rw [prepared_wOffset] at hwrite
      exact write_failed hs (congrArg Prod.fst hwrite)
    obtain ⟨st', hretire, rfl⟩ := relocate_next dev mtd fs hrelocate
    obtain ⟨_, _, _, -, -, -, rfl⟩ := retireBlock_true dev mtd fs hretire
    refine ⟨hsettled, ?_, ?_⟩
    · exact mtd.minIoSize_dvd.trans (Dvd.intro_left _ rfl)
    · refine ha.ahead.elim (fun hsent => .inl (hsent.more hcalls)) (fun hin => .inr ?_)
      rw [← room_landing, ← hoffset] at hin
      dsimp only
      rw [Cursor.sent_wOffset, prepared_wOffset, Cursor.sent_wLength, prepared_wLength, hlength]
      refine room_retired (by omega) ?_ ?_ hin
      · rintro heq
        exact heb (.inl (heq.symm.trans hy))
      · intro k hk
        rw [set_isBad_bad, decide_eq_false (show ¬k = mtdOffsetToEbIndex mtd e.wOffset from hk), Bool.false_and, Bool.false_or]
        rw [← hst, ← @prepared_st mtd fs e]
        rfl

theorem basicWrite_sent {progressSize k : ℕ} {offset : ℤ} {buf : List UInt8} (hs : Steady dev mtd b) (hl : InBlock mtd l b)
    (hd : DisjointLayouts table) (ht : table[i]? = some l) (hr : l.reserve = .reserved) (hh : Held mtd b table i st)
    (hb : Behind mtd b i l R tr st) (hy : y / mtd.ebSize = b)
    (hin : y ∈ (room mtd st (offset - mtd.start).toNat).take (demand mtd fs buf.length))
    (hret : (mtdBasicWrite dev mtd fs maxSize progressSize offset buf st).ret = .off k) :
    Sent mtd tr (mtd.start + y) (mtdBasicWrite dev mtd fs maxSize progressSize offset buf st).st := by
  obtain ⟨w, hw, hhealthy, -, -, heq⟩ := basicWrite_off dev mtd fs maxSize hret
  rw [show (offset - mtd.start).toNat = w by omega] at hin
  rw [heq] at hret ⊢
  have hstart : Writing mtd b i table l R tr (writeStart fs w progressSize buf st) ∧
      Ahead mtd fs tr y (writeStart fs w progressSize buf st) :=
    ⟨⟨hh, hb, hhealthy.aligned, le_rfl⟩, writeStart_settled mtd fs w progressSize buf st, hhealthy.aligned, .inr hin⟩
  refine Loop.exec_rule (writeLoop dev mtd fs maxSize) (I := fun c => Writing mtd b i table l R tr c ∧ Ahead mtd fs tr y c)
    (Q := fun r => r.ret = .off k → Sent mtd tr (mtd.start + y) r.st) (fun c d hc h => ?_) (fun c r hc h hoff => ?_) hstart hret
  · exact ⟨(writeStep_writing hs hl hd ht hr hc.1).1 d h, ahead_next hs hc.1 hc.2 hy h⟩
  · -- at the end of the buffer or of the partition no place is left ahead
    obtain ⟨hexit, -, rfl⟩ := writeStep_off dev mtd fs maxSize h hoff
    refine hc.2.ahead.resolve_right (fun hleft => ?_)
    rcases hexit with h0 | hend
    · rw [h0, demand_zero, List.take_zero] at hleft
      cases hleft
    · rw [room_end hend, List.take_nil] at hleft
      cases hleft

end Pages

end LinuxRecovery.SysinfoPlaces
