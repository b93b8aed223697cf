import LinuxRecovery.BasicErase
import LinuxRecovery.RequestLog
import LinuxRecovery.UbiVolume

namespace LinuxRecovery.RecordedBlocks

open Loops ByteMemory Libmtd BlockMap BasicWrite BasicRead BlockScan SysinfoSave BasicErase RequestLog
open UbiPeb (UbiState)

variable {dev : Device} {mtd : MtdDevInfo}

def Unmarking (dev : Device) (mtd : MtdDevInfo) (s s' : Chip) (log : List Answer) : Prop :=
  Logged dev s s' log ∧ ∀ eb, ¬Marked mtd.start eb log

section Requests

variable {s s' s'' : Chip} {log log' : List Answer}

theorem unmarking_refl (s : Chip) : Unmarking dev mtd s s [] := ⟨logged_refl s, not_marked_nil _⟩

theorem Unmarking.trans (h : Unmarking dev mtd s s' log) (h' : Unmarking dev mtd s' s'' log') :
    Unmarking dev mtd s s'' (log ++ log') :=
  ⟨h.1.trans h'.1, fun eb hm => (marked_append.mp hm).elim (h.2 eb) (h'.2 eb)⟩

theorem unmarking_one {call : DevCall} (h : s'.calls = s.calls ++ [call]) (hne : ∀ eb, call ≠ .markBad mtd.start eb) :
    Unmarking dev mtd s s' [⟨call, dev.reply (s.calls ++ [call]), dev.badBlock (s.calls ++ [call])⟩] := by
  refine ⟨logged_one h, ?_⟩
  rintro eb ⟨a, ha, hm, -⟩
  obtain rfl := List.mem_singleton.mp ha
  exact hne eb hm

theorem mtdErase_unmarking (eb : ℕ) (s : Chip) : ∃ log, Unmarking dev mtd s (mtdErase dev mtd eb s).2 log ∧
    ((mtdErase dev mtd eb s).1 = some .eio → ∃ b ∈ log, b.fails mtd.start eb) := by
  unfold mtdErase
  split_ifs
  · exact ⟨[], unmarking_refl s, fun h => by cases h⟩
  · dsimp only
    cases hr : dev.reply (s.calls ++ [.erase mtd.start eb]) with
    | none => exact ⟨_, unmarking_one rfl (by simp), fun h => by cases h⟩
    | some e =>
      refine ⟨_, unmarking_one rfl (by simp), fun h => ⟨_, List.mem_singleton_self _, hr.trans h, .inl rfl⟩⟩

theorem mtdWrite_unmarking (eb offs : ℕ) (data : List UInt8) (oob : Option (List UInt8)) (mode : MtdOps) (s : Chip) :
    ∃ log, Unmarking dev mtd s (mtdWrite dev mtd eb offs data oob mode s).2 log ∧
      ((mtdWrite dev mtd eb offs data oob mode s).1 = some .eio → ∃ b ∈ log, b.failsProgram mtd.start eb) := by
  unfold mtdWrite
  split_ifs
  · exact ⟨[], unmarking_refl s, fun h => by cases h⟩
  · exact ⟨[], unmarking_refl s, fun h => by cases h⟩
  · exact ⟨[], unmarking_refl s, fun h => by cases h⟩
  · exact ⟨[], unmarking_refl s, fun h => by cases h⟩
  · dsimp only
    cases hr : dev.reply (s.calls ++ [.write mtd.start eb offs data oob mode]) with
    | none => exact ⟨_, unmarking_one rfl (by simp), fun h => by cases h⟩
    | some e =>
      exact ⟨_, unmarking_one rfl (by simp),
        fun h => ⟨_, List.mem_singleton_self _, hr.trans h, offs, data, oob, mode, rfl⟩⟩

theorem mtdRead_unmarking (part : MtdDevInfo) (eb offs len : ℕ) (s : Chip) :
    ∃ log, Unmarking dev mtd s (mtdRead dev part eb offs len s).2.2 log := by
  unfold mtdRead
  split_ifs
  · exact ⟨[], unmarking_refl s⟩
  · exact ⟨[], unmarking_refl s⟩
  · exact ⟨_, unmarking_one rfl (by simp)⟩

theorem mtdUnlock_unmarking (eb : ℕ) (s : Chip) : ∃ log, Unmarking dev mtd s (mtdUnlock dev mtd eb s).2 log := by
  unfold mtdUnlock
  split_ifs
  · exact ⟨[], unmarking_refl s⟩
  · exact ⟨_, unmarking_one rfl (by simp)⟩

theorem cleanmarker_unmarking (eb : ℕ) (s : Chip) :
    ∃ log, Unmarking dev mtd s (jffs2WriteCleanmarker dev mtd eb s).2 log := by
  unfold jffs2WriteCleanmarker
  dsimp only
  split
  · exact ⟨_, unmarking_one rfl (by simp)⟩
  · exact ⟨_, unmarking_one rfl (by simp)⟩

theorem mtdMarkBad_logged (eb : ℕ) (s : Chip) :
    ((mtdMarkBad dev mtd eb s).1 ≠ none ∧ ∃ log, Unmarking dev mtd s (mtdMarkBad dev mtd eb s).2 log) ∨
      (mtdMarkBad dev mtd eb s).1 = none ∧ ∃ a, Logged dev s (mtdMarkBad dev mtd eb s).2 [a] ∧ a.marks mtd.start eb := by
  unfold mtdMarkBad
  split_ifs
  · exact .inl ⟨by simp, [], unmarking_refl s⟩
  · exact .inl ⟨by simp, [], unmarking_refl s⟩
  · dsimp only
    cases hr : dev.reply (s.calls ++ [.markBad mtd.start eb]) with
    | none => exact .inr ⟨rfl, _, logged_one rfl, rfl, hr⟩
    | some e =>
      refine .inl ⟨by simp, _, logged_one rfl, ?_⟩
      rintro eb' ⟨a, ha, -, hm⟩
      obtain rfl := List.mem_singleton.mp ha
      cases hr.symm.trans hm

end Requests

def Does (dev : Device) (mtd : MtdDevInfo) (st st' : BmState) : Prop :=
  ∃ log, Logged dev st.toChip st'.toChip log ∧ Tracks mtd st st' log

section Doing

variable {st st' st'' : BmState}

theorem does_refl (st : BmState) : Does dev mtd st st := ⟨[], logged_refl _, tracks_refl st⟩

theorem Does.trans (h : Does dev mtd st st') (h' : Does dev mtd st' st'') : Does dev mtd st st'' := by
  obtain ⟨log, hl, ht⟩ := h
  obtain ⟨log', hl', ht'⟩ := h'
  exact ⟨log ++ log', hl.trans hl', ht.trans ht'⟩

theorem does_unmarking {log : List Answer} (h : Unmarking dev mtd st.toChip st'.toChip log) (hmap : st'.map = st.map) :
    Does dev mtd st st' := by
  refine ⟨log, h.1, tracks_quiet (by rw [hmap]) (fun i => ?_) h.2⟩
  unfold mtdBmBlockMapIsBad
  rw [hmap]

theorem does_set (st : BmState) (eb : ℕ) {status : BlkStatus} (h : status ≠ .bad) :
    Does dev mtd st (mtdBmBlockMapSet eb status st) :=
  ⟨[], logged_refl _, tracks_quiet (set_map_isSome _ _ _) (fun i => set_isBad_other _ eb i status h) (not_marked_nil _)⟩

theorem Does.isSome (h : Does dev mtd st st') (hmap : st.map.isSome = true) : st'.map.isSome = true := by
  obtain ⟨log, -, ht⟩ := h
  exact ht.map.trans hmap

theorem loop_does {σ ρ : Type} (L : Loop σ ρ) {f : σ → BmState} {g : ρ → BmState}
    (h : ∀ s, (f s).map.isSome = true → Does dev mtd (f s) (after f g (L.step s))) (s : σ)
    (hs : (f s).map.isSome = true) : Does dev mtd (f s) (g (L.exec s)) := by
  refine L.exec_compose (R := fun s t => (f s).map.isSome = true → Does dev mtd (f s) (f t))
    (S := fun s r => (f s).map.isSome = true → Does dev mtd (f s) (g r)) ?_ ?_ ?_ s hs
  · intro s t ht hmap
    have hstep := h s hmap
    rwa [ht] at hstep
  · intro s r hr hmap
    have hstep := h s hmap
    rwa [hr] at hstep
  · intro s t r hst htr hmap
    have hfirst := hst hmap
    exact hfirst.trans (htr (hfirst.isSome hmap))

end Doing

section Hook

variable {bm : PartInfo}

theorem readStep_does (part : MtdDevInfo) (c : ReadCursor) :
    Does dev mtd c.st (after ReadCursor.st ReadOutcome.st (readStep dev part c)) := by
  have hread (c : ReadCursor) : Does dev mtd c.st (after ReadCursor.st ReadOutcome.st (readBlock dev part c)) := by
    obtain ⟨log, hlog⟩ := @mtdRead_unmarking dev mtd part (mtdOffsetToEbIndex part c.offset)
      (c.offset % part.ebSize) (readUnit part c) c.st.toChip
    unfold readBlock
    dsimp only
    split <;> exact @does_unmarking _ _ _ _ log hlog rfl
  unfold readStep
  split_ifs
  · exact does_refl c.st
  · split
    · exact does_refl c.st
    · rename_i e he
      have hst : e.st = c.st := by
        unfold readEnterBlock at he
        dsimp only at he
        split_ifs at he <;> cases he <;> rfl
      exact hst ▸ hread e

theorem basicRead_does (part : MtdDevInfo) (offset : ℤ) (length : ℕ) (st : BmState) :
    Does dev mtd st (mtdBasicRead dev part offset length st).st := by
  have hloop (w : ℕ) (hvalid : ¬(!mtdBmBlockMapIsValid st) = true) :
      Does dev mtd st ((readLoop dev part).exec (readStart w length st)).st := by
    rw [Bool.not_eq_true', Bool.not_eq_false] at hvalid
    exact loop_does (readLoop dev part) (fun c _ => readStep_does part c) (readStart w length st) hvalid
  unfold mtdBasicRead
  dsimp only
  split_ifs with hvalid
  · exact does_refl st
  · exact hloop _ hvalid
  · exact does_refl st
  · exact does_refl st
  · exact hloop _ hvalid
  · exact does_refl st

theorem mtdIsBad_unmarking (part : MtdDevInfo) (eb : ℕ) (s : Chip) :
    ∃ log, Unmarking dev mtd s (mtdIsBad dev part eb s).2 log ∧
      ((mtdIsBad dev part eb s).1 = .bad → ∃ a ∈ log, a.reports (mtdEbRelativeToAbsolute part eb)) := by
  unfold mtdIsBad
  split_ifs
  · exact ⟨[], unmarking_refl s, fun h => by cases h⟩
  · exact ⟨[], unmarking_refl s, fun h => by cases h⟩
  · exact ⟨_, unmarking_one rfl (by simp), fun h => ⟨_, List.mem_singleton_self _, h, part, eb, rfl, rfl⟩⟩

theorem does_report {st st' : BmState} {log : List Answer} {i : ℕ} (h : Unmarking dev mtd st.toChip st'.toChip log)
    (hmap : st'.map = st.map) (hreport : ∃ a ∈ log, a.reports i) : Does dev mtd st (mtdBmBlockMapSet i .bad st') := by
  have hsame (i : ℕ) : mtdBmBlockMapIsBad st' i = mtdBmBlockMapIsBad st i := by
    unfold mtdBmBlockMapIsBad
    rw [hmap]
  refine ⟨log, h.1, by rw [set_map_isSome, hmap], ?_, ?_, fun _ eb hm => absurd hm (h.2 eb), ?_⟩
  · intro j hj
    rw [set_isBad_bad, hsame, hj, Bool.or_true]
  · intro j hj
    rw [set_isBad_bad, hsame, Bool.or_eq_true, Bool.and_eq_true, decide_eq_true_eq] at hj
    rcases hj with ⟨rfl, -⟩ | hj
    · exact .inr (.inr hreport)
    · exact .inl hj
  · rintro front a back rfl eb ha
    exact absurd ⟨a, by simp, ha⟩ (h.2 eb)

theorem scanPass_st (part : MtdDevInfo) (method : OperationMethod) (startEb totalBytes : ℕ) (c : ScanCursor) :
    after ScanCursor.st Prod.snd (scanPass part method startEb totalBytes c) = c.st := by
  cases h : scanPass part method startEb totalBytes c with
  | next d => rw [scanPass_next part method h]; rfl
  | done r => exact scanPass_done part method h

theorem scanStep_does (part : MtdDevInfo) (noskipbad : Bool) (method : OperationMethod) (startEb totalBytes : ℕ)
    (c : ScanCursor) :
    Does dev mtd c.st (after ScanCursor.st Prod.snd (scanStep dev part noskipbad method startEb totalBytes c)) := by
  have hexit (c : ScanCursor) : (c.exit part method startEb).2 = c.st := by
    unfold ScanCursor.exit
    split_ifs <;> rfl
  have htag : Does dev mtd c.st (mtdBmBlockMapSet (mtdEbRelativeToAbsolute part c.eb) .scan c.st) :=
    does_set _ _ (by decide)
  unfold scanStep
  dsimp only
  split_ifs
  · rw [after, hexit]
    exact does_refl c.st
  · rw [scanPass_st]
    exact does_refl c.st
  · rw [scanPass_st]
    exact htag
  · obtain ⟨log, hlog, hbad⟩ := @mtdIsBad_unmarking dev mtd part c.eb c.st.toChip
    refine htag.trans ?_
    split
    · rw [scanPass_st]
      exact @does_unmarking _ _ _ _ log hlog rfl
    · rename_i hreply
      exact @does_report _ _ _ _ log _ hlog rfl (hbad hreply)
    · exact @does_unmarking _ _ _ _ log hlog rfl
    · exact @does_unmarking _ _ _ _ log hlog rfl

theorem mapInit_does (n : ℕ) (st : BmState) (hmap : st.map.isSome = true) :
    Does dev mtd st (mtdBmBlockMapInit n st) := by
  obtain ⟨m, hm⟩ := Option.isSome_iff_exists.mp hmap
  rw [mtdBmBlockMapInit, hm]
  exact does_refl st

theorem blockScan_does (part : MtdDevInfo) (noskipbad : Bool) (method : OperationMethod) (capacity offset length : ℕ)
    (st : BmState) (hmap : st.map.isSome = true) :
    Does dev mtd st (mtdBlockScan dev part noskipbad method capacity offset length st).2 := by
  unfold mtdBlockScan
  dsimp only
  split_ifs
  · exact does_refl st
  · exact does_refl st
  · have hinit := @mapInit_does dev mtd (capacity / part.ebSize) st hmap
    exact hinit.trans (loop_does (scanLoop dev part noskipbad method _ _)
      (fun c _ => scanStep_does part noskipbad method _ _ c) ⟨_, 0, mtdBmBlockMapInit (capacity / part.ebSize) st⟩
      (hinit.isSome hmap))

theorem setValue_does (i : ℕ) (value : List UInt8) (st : BmState) : Does dev mtd st (setValue i value st) :=
  does_unmarking (unmarking_refl st.toChip) rfl

theorem getValue_does (i : ℕ) (l : SysinfoLayout) (st : BmState) (hmap : st.map.isSome = true) :
    Does dev mtd st (sysinfoGetValue dev bm i l st).2 := by
  unfold sysinfoGetValue
  dsimp only
  split
  · exact setValue_does i _ st
  · rename_i part hpart
    have hscan := (@setValue_does dev mtd i (l.value.getD (List.replicate l.length 0)) st).trans
      (blockScan_does part false .random bm.capacity l.offset l.length _ hmap)
    split
    · rename_i n st' hst
      rw [hst] at hscan
      have hread := hscan.trans ((basicRead_does part l.offset l.length st').trans (setValue_does i
        ((mtdBasicRead dev part l.offset l.length st').buffer ++
          (l.value.getD (List.replicate l.length 0)).drop (mtdBasicRead dev part l.offset l.length st').buffer.length) _))
      split <;> exact hread
    · rename_i r st' _ hst
      rw [hst] at hscan
      exact hscan

theorem saveLayouts_does (start length : ℕ) (ls : List SysinfoLayout) (i : ℕ) (st : BmState)
    (hmap : st.map.isSome = true) : Does dev mtd st (saveLayouts dev bm start length i ls st).2 := by
  induction ls generalizing i st with
  | nil => exact does_refl st
  | cons l ls ih =>
    unfold saveLayouts
    split_ifs
    · exact ih (i + 1) st hmap
    · have h := @getValue_does dev mtd bm i l st hmap
      split
      · rename_i st' hst
        rw [hst] at h
        exact h.trans (ih (i + 1) st' (h.isSome hmap))
      · rename_i st' hst
        rw [hst] at h
        exact h

theorem traversalSave_does (offset length : ℕ) (st : BmState) (hmap : st.map.isSome = true) :
    Does dev mtd st (sysinfoTraversalSave dev bm offset length st).2 := by
  unfold sysinfoTraversalSave
  split
  · exact does_refl st
  · split_ifs
    · exact does_refl st
    · exact saveLayouts_does offset length _ 0 st hmap

end Hook

section Erase

variable {bm : PartInfo} {fs : FsKind}

theorem formatBlock_does (c : EraseCursor) :
    Does dev mtd c.st (after EraseCursor.st Prod.snd (formatBlock dev mtd fs c)) := by
  have hset : Does dev mtd c.st (mtdBmBlockMapSet (mtdEbRelativeToAbsolute mtd c.eb) .erased c.st) :=
    does_set _ _ (by decide)
  obtain ⟨log, hlog⟩ := @cleanmarker_unmarking dev mtd c.eb
    (mtdBmBlockMapSet (mtdEbRelativeToAbsolute mtd c.eb) .erased c.st).toChip
  unfold formatBlock
  dsimp only
  split_ifs
  · refine hset.trans ?_
    split
    · rename_i hm
      rw [hm] at hlog
      exact @does_unmarking _ _ _ _ log hlog rfl
    · rename_i hm
      rw [hm] at hlog
      exact @does_unmarking _ _ _ _ log hlog rfl
  · exact hset

theorem mtdMarkBad_does {log : List Answer} {st st' : BmState} {eb : ℕ}
    (h : Unmarking dev mtd st.toChip st'.toChip log) (hmap : st'.map = st.map)
    (hfail : ∃ b ∈ log, b.fails mtd.start eb) {err : Option Errno} {chip : Chip}
    (hmark : mtdMarkBad dev mtd eb st'.toChip = (err, chip)) :
    (err ≠ none → Does dev mtd st { st' with toChip := chip }) ∧
      (err = none → Does dev mtd st
        (mtdBmBlockMapSet (mtdEbRelativeToAbsolute mtd eb) .bad { st' with toChip := chip })) := by
  rcases @mtdMarkBad_logged dev mtd eb st'.toChip with ⟨herr, log', hlog'⟩ | ⟨herr, a, hlog', ha⟩
  · rw [hmark] at herr hlog'
    refine ⟨fun _ => ?_, fun hnone => absurd hnone herr⟩
    exact @does_unmarking _ _ _ _ (log ++ log') (h.trans hlog') hmap
  · rw [hmark] at herr hlog'
    refine ⟨fun hsome => absurd herr hsome, fun _ => ⟨log ++ [a], h.1.trans hlog', ?_⟩⟩
    exact tracks_retire hmap h.2 hfail ha

theorem eraseBlock_does (c : EraseCursor) (hmap : c.st.map.isSome = true) :
    Does dev mtd c.st (after EraseCursor.st Prod.snd (eraseBlock dev bm mtd fs c)) := by
  have hsave := @traversalSave_does dev mtd bm (c.eb * mtd.ebSize + mtd.start) mtd.ebSize c.st hmap
  unfold eraseBlock
  split
  · rename_i st hst
    rw [hst] at hsave
    exact hsave
  · rename_i st hst
    rw [hst] at hsave
    refine hsave.trans ?_
    obtain ⟨log, hlog, hfail⟩ := @mtdErase_unmarking dev mtd c.eb st.toChip
    dsimp only
    have herase : Does dev mtd st { st with toChip := (mtdErase dev mtd c.eb st.toChip).2 } :=
      @does_unmarking _ _ _ _ log hlog rfl
    split
    · exact herase.trans (formatBlock_does { c with st := { st with toChip := (mtdErase dev mtd c.eb st.toChip).2 } })
    · rename_i heio
      have hmark := @mtdMarkBad_does dev mtd _ st { st with toChip := (mtdErase dev mtd c.eb st.toChip).2 } _
        hlog rfl (hfail heio) _ _ rfl
      split_ifs with herr
      · exact hmark.1 herr
      · exact hmark.2 (not_not.mp herr)
    · exact herase

theorem eraseStep_does (totalBytes : ℕ) (c : EraseCursor) (hmap : c.st.map.isSome = true) :
    Does dev mtd c.st (after EraseCursor.st Prod.snd (eraseStep dev bm mtd fs totalBytes c)) := by
  unfold eraseStep
  split_ifs
  · rw [after, eraseExit]
    split_ifs
    · exact does_refl c.st
    · split <;> exact does_refl c.st
  · exact does_refl c.st
  · obtain ⟨log, hlog⟩ := @mtdUnlock_unmarking dev mtd c.eb c.st.toChip
    split
    · rename_i chip hu
      rw [hu] at hlog
      have hunlock : Does dev mtd c.st (c.withChip chip).st := @does_unmarking _ _ _ _ log hlog rfl
      exact hunlock.trans (eraseBlock_does (c.withChip chip) hmap)
    · rename_i chip hu
      rw [hu] at hlog
      exact @does_unmarking _ _ _ _ log hlog rfl
  · exact eraseBlock_does c hmap

theorem basicErase_does (bm : PartInfo) (fs : FsKind) (length : ℕ) (st : BmState) :
    Does dev mtd st (mtdBasicErase dev bm mtd fs length st).2 := by
  unfold mtdBasicErase
  dsimp only
  split_ifs with h1 h2 h3 hvalid
  · exact does_refl st
  · exact does_refl st
  · exact does_refl st
  · exact does_refl st
  · rw [Bool.not_eq_true', Bool.not_eq_false] at hvalid
    exact loop_does (eraseLoop dev bm mtd fs _) (eraseStep_does _) ⟨0, 0, 0, st⟩ hvalid

end Erase

def DoesUnless (bad : List Answer → Prop) (dev : Device) (mtd : MtdDevInfo) (st st' : BmState) : Prop :=
  ∃ log, Logged dev st.toChip st'.toChip log ∧ st'.map.isSome = st.map.isSome ∧ (bad log ∨ Tracks mtd st st' log)

def Grows (bad : List Answer → Prop) : Prop := ∀ log log', bad log ∨ bad log' → bad (log ++ log')

section Unless

variable {bad : List Answer → Prop} {st st' st'' : BmState}

theorem Does.unless (h : Does dev mtd st st') : DoesUnless bad dev mtd st st' := by
  obtain ⟨log, hl, ht⟩ := h
  exact ⟨log, hl, ht.map, .inr ht⟩

theorem DoesUnless.trans (hbad : Grows bad) (h : DoesUnless bad dev mtd st st') (h' : DoesUnless bad dev mtd st' st'') :
    DoesUnless bad dev mtd st st'' := by
  obtain ⟨log, hl, hm, ht⟩ := h
  obtain ⟨log', hl', hm', ht'⟩ := h'
  refine ⟨log ++ log', hl.trans hl', hm'.trans hm, ?_⟩
  rcases ht with ht | ht
  · exact .inl (hbad log log' (.inl ht))
  · rcases ht' with ht' | ht'
    · exact .inl (hbad log log' (.inr ht'))
    · exact .inr (ht.trans ht')

theorem loop_unless {σ ρ : Type} (L : Loop σ ρ) (hbad : Grows bad) {f : σ → BmState} {g : ρ → BmState}
    (h : ∀ s, DoesUnless bad dev mtd (f s) (after f g (L.step s))) (s : σ) :
    DoesUnless bad dev mtd (f s) (g (L.exec s)) := by
  refine L.exec_compose (R := fun s t => DoesUnless bad dev mtd (f s) (f t))
    (S := fun s r => DoesUnless bad dev mtd (f s) (g r)) ?_ ?_ (fun s t r => DoesUnless.trans hbad) s
  · intro s t ht
    have hstep := h s
    rwa [ht] at hstep
  · intro s r hr
    have hstep := h s
    rwa [hr] at hstep

end Unless

section Write

variable {fs : FsKind}

def Shifted (mtd : MtdDevInfo) (log : List Answer) : Prop :=
  mtdOffsetToEbIndex mtd mtd.start ≠ 0 ∧ ∃ eb, Marked mtd.start eb log

theorem shifted_grows : Grows (Shifted mtd) := by
  rintro log log' (⟨h, eb, hm⟩ | ⟨h, eb, hm⟩)
  · exact ⟨h, eb, marked_append.mpr (.inl hm)⟩
  · exact ⟨h, eb, marked_append.mpr (.inr hm)⟩

theorem retireBlock_does (hflag : fs.flag.markbad = true) {st st' : BmState} {log : List Answer} {eb : ℕ}
    (h : Unmarking dev mtd st.toChip st'.toChip log) (hmap : st'.map = st.map) (hfail : ∃ b ∈ log, b.fails mtd.start eb) :
    DoesUnless (Shifted mtd) dev mtd st (retireBlock dev mtd fs eb st').2 := by
  obtain ⟨log₁, hlog₁, -⟩ := @mtdErase_unmarking dev mtd eb st'.toChip
  have hboth := h.trans hlog₁
  have hchip {chip : Chip} {log : List Answer} (h : Unmarking dev mtd st.toChip chip log) :
      DoesUnless (Shifted mtd) dev mtd st { st' with toChip := chip } := by
    have hdoes : Does dev mtd st { st' with toChip := chip } := does_unmarking h hmap
    exact hdoes.unless
  unfold retireBlock markBad
  dsimp only
  rw [if_pos hflag]
  by_cases h1 : (mtdErase dev mtd eb st'.toChip).1 ≠ none ∧ (mtdErase dev mtd eb st'.toChip).1 ≠ some .eio
  · rw [if_pos h1]
    exact hchip hboth
  · rw [if_neg h1]
    rcases @mtdMarkBad_logged dev mtd eb (mtdErase dev mtd eb st'.toChip).2 with
      ⟨herr, log₂, hlog₂⟩ | ⟨herr, a, hlog₂, ha⟩
    · rw [if_pos herr]
      exact hchip (hboth.trans hlog₂)
    · rw [if_neg (not_not.mpr herr)]
      refine ⟨log ++ log₁ ++ [a], hboth.1.trans hlog₂, by rw [set_map_isSome, hmap], ?_⟩
      by_cases hstart : mtdOffsetToEbIndex mtd mtd.start = 0
      · have habs : eb = mtdEbRelativeToAbsolute mtd eb := by rw [mtdEbRelativeToAbsolute, hstart, Nat.add_zero]
        obtain ⟨b, hb, hf⟩ := hfail
        have htracks := @tracks_retire _ st { st' with toChip :=
          (mtdMarkBad dev mtd eb (mtdErase dev mtd eb st'.toChip).2).2 } _ _ _ hmap hboth.2
            ⟨b, List.mem_append_left _ hb, hf⟩ ha
        rw [← habs] at htracks
        exact .inr htracks
      · exact .inl ⟨hstart, eb, a, by simp, ha⟩

theorem relocate_st (c : Cursor) : after Cursor.st Outcome.st (relocate dev mtd fs c) =
    (retireBlock dev mtd fs (mtdOffsetToEbIndex mtd c.wOffset) c.st).2 := by
  unfold relocate
  split
  · rename_i hr
    rw [hr]
    rfl
  · rename_i hr
    rw [hr]
    rfl

theorem programPage_does (hflag : fs.flag.markbad = true) (data : List UInt8) (oob : Option (List UInt8)) (c : Cursor) :
    DoesUnless (Shifted mtd) dev mtd c.st (after Cursor.st Outcome.st (programPage dev mtd fs data oob c)) := by
  obtain ⟨log, hlog, hfail⟩ := @mtdWrite_unmarking dev mtd (mtdOffsetToEbIndex mtd c.wOffset)
    (c.wOffset % mtd.ebSize) data oob (writeMode fs) c.st.toChip
  have hsent : Does dev mtd c.st { c.st with toChip := (mtdWrite dev mtd (mtdOffsetToEbIndex mtd c.wOffset)
      (c.wOffset % mtd.ebSize) data oob (writeMode fs) c.st.toChip).2 } := does_unmarking hlog rfl
  unfold programPage
  dsimp only
  split
  · exact hsent.unless
  · rename_i heio
    obtain ⟨b, hb, hreply, hcall⟩ := hfail heio
    have hretire := @retireBlock_does dev mtd fs hflag c.st { c.st with toChip := (mtdWrite dev mtd
      (mtdOffsetToEbIndex mtd c.wOffset) (c.wOffset % mtd.ebSize) data oob (writeMode fs) c.st.toChip).2 } _ _
      hlog rfl ⟨b, hb, hreply, .inr hcall⟩
    rw [relocate_st]
    exact hretire
  · exact hsent.unless

theorem writeStep_does (hflag : fs.flag.markbad = true) (maxSize : ℕ) (c : Cursor) :
    DoesUnless (Shifted mtd) dev mtd c.st (after Cursor.st Outcome.st (writeStep dev mtd fs maxSize c)) := by
  have hsame : DoesUnless (Shifted mtd) dev mtd c.st c.st := (does_refl c.st).unless
  have hpage (c : Cursor) : DoesUnless (Shifted mtd) dev mtd c.st
      (after Cursor.st Outcome.st (writePage dev mtd fs maxSize c)) := by
    have hsame : DoesUnless (Shifted mtd) dev mtd c.st c.st := (does_refl c.st).unless
    rw [writePage_eq]
    split
    · rw [after, Cursor.outcome, prepared_st]
      exact hsame
    · split
      · rw [after, Cursor.outcome, prepared_st]
        exact hsame
      · rename_i data _
        have h := @programPage_does dev mtd _ hflag data (takeOob mtd fs (padTail mtd fs c)).1
          (prepared mtd fs c)
        rwa [prepared_st] at h
  unfold writeStep
  split_ifs
  · split <;> exact hsame
  · split
    · exact hsame
    · rename_i e he
      have hst : e.st = c.st := by
        unfold enterBlock at he
        dsimp only at he
        split_ifs at he <;> cases he <;> rfl
      exact hst ▸ hpage e

theorem basicWrite_does (hflag : fs.flag.markbad = true) (maxSize progressSize : ℕ) (offset : ℤ) (buf : List UInt8)
    (st : BmState) :
    DoesUnless (Shifted mtd) dev mtd st (mtdBasicWrite dev mtd fs maxSize progressSize offset buf st).st := by
  have hsame : DoesUnless (Shifted mtd) dev mtd st st := (does_refl st).unless
  unfold mtdBasicWrite
  dsimp only
  split_ifs
  · exact hsame
  · exact hsame
  · exact hsame
  · exact hsame
  · exact hsame
  · exact hsame
  · exact loop_unless (writeLoop dev mtd fs maxSize) shifted_grows (writeStep_does hflag maxSize) (writeStart fs _ _ _ _)

end Write

section Peb

open UbiPeb UbiVolume

structure PebMarked (dev : Device) (mtd : MtdDevInfo) (eb : ℕ) (P : Answer → Prop) (st st' : UbiState) (log : List Answer)
    (a : Answer) : Prop where
  before : ∀ eb, ¬Marked mtd.start eb log
  failed : ∃ b ∈ log, P b
  mark : a.marks mtd.start eb
  logged : Logged dev st.toChip st'.toChip (log ++ [a])
  map : st'.map = st.map
  prevBb : st'.prevBb = some eb
  blocks : st'.consecutiveBadBlocks = if eb = st.prevBb.getD eb + 1 then st.consecutiveBadBlocks + 1 else 1

structure PebPlain (dev : Device) (mtd : MtdDevInfo) (st st' : UbiState) (log : List Answer) : Prop where
  unmarking : Unmarking dev mtd st.toChip st'.toChip log
  map : st'.map = st.map
  prevBb : st'.prevBb = st.prevBb
  blocks : st'.consecutiveBadBlocks = st.consecutiveBadBlocks

inductive PebEnds (dev : Device) (mtd : MtdDevInfo) (eb : ℕ) (P : Answer → Prop) (st : UbiState) : PebResult → Prop
  | ok {st' : UbiState} {log : List Answer} (h : PebPlain dev mtd st st' log) : PebEnds dev mtd eb P st (.ok st')
  | fatal {st' : UbiState} {log : List Answer} (h : PebPlain dev mtd st st' log) : PebEnds dev mtd eb P st (.fatal st')
  | bad {st' : UbiState} {log : List Answer} {a : Answer} (h : PebMarked dev mtd eb P st st' log a)
      (hlt : st'.consecutiveBadBlocks < maxConsecutiveBadBlocks) : PebEnds dev mtd eb P st (.bad st')
  | limit {st' : UbiState} {log : List Answer} {a : Answer} (h : PebMarked dev mtd eb P st st' log a)
      (hge : maxConsecutiveBadBlocks ≤ st'.consecutiveBadBlocks) : PebEnds dev mtd eb P st (.fatal st')

variable {eb : ℕ} {P : Answer → Prop} {st : UbiState}

theorem markBad_ends {chip : Chip} {log : List Answer} (h : Unmarking dev mtd st.toChip chip log)
    (hfail : ∃ b ∈ log, P b) : PebEnds dev mtd eb P st (UbiPeb.markBad dev mtd eb (st.withChip chip)) := by
  have hmark := @mtdMarkBad_logged dev mtd eb chip
  unfold UbiPeb.markBad
  rw [withChip_toChip]
  split_ifs
  · exact .fatal ⟨h, rfl, rfl, rfl⟩
  · split
    · rename_i err chip' heq
      rw [heq] at hmark
      rcases hmark with ⟨-, log', hlog'⟩ | ⟨hnone, -⟩
      · exact .fatal ⟨h.trans hlog', rfl, rfl, rfl⟩
      · cases hnone
    · rename_i chip' heq
      rw [heq] at hmark
      rcases hmark with ⟨hnone, -⟩ | ⟨-, a, hlog', ha⟩
      · exact absurd rfl hnone
      · dsimp only [consecutiveBadCheck]
        split
        · rename_i st' hcheck
          simp only [Prod.mk.injEq, decide_eq_true_eq] at hcheck
          obtain ⟨hlt, rfl⟩ := hcheck
          exact .bad ⟨h.2, hfail, ha, h.1.trans hlog', rfl, rfl, rfl⟩ hlt
        · rename_i st' hcheck
          simp only [Prod.mk.injEq, decide_eq_false_iff_not, not_lt] at hcheck
          obtain ⟨hge, rfl⟩ := hcheck
          exact .limit ⟨h.2, hfail, ha, h.1.trans hlog', rfl, rfl, rfl⟩ hge

theorem erasePeb_ends (eb : ℕ) (st : UbiState) :
    PebEnds dev mtd eb (fun b => b.fails mtd.start eb) st (erasePeb dev mtd eb st) := by
  obtain ⟨log, hlog, hfail⟩ := @mtdErase_unmarking dev mtd eb st.toChip
  unfold erasePeb
  split
  · rename_i heq
    rw [heq] at hlog
    exact .ok ⟨hlog, rfl, rfl, rfl⟩
  · rename_i heq
    rw [heq] at hlog hfail
    exact markBad_ends hlog (hfail rfl)
  · rename_i heq
    rw [heq] at hlog
    exact .fatal ⟨hlog, rfl, rfl, rfl⟩

theorem torture_unmarking (eb : ℕ) (s : Chip) : ∃ log, Unmarking dev mtd s (mtdTorture dev mtd eb s) log := by
  refine mtdTorture_rel (R := fun s s' => ∃ log, Unmarking dev mtd s s' log) ?_ ?_ ?_ ?_ ?_ s
  · rintro s t u ⟨log, h⟩ ⟨log', h'⟩
    exact ⟨log ++ log', h.trans h'⟩
  · intro s
    obtain ⟨log, h, -⟩ := @mtdErase_unmarking dev mtd eb s
    exact ⟨log, h⟩
  · exact fun s => mtdRead_unmarking mtd eb 0 mtd.ebSize s
  · intro data s
    obtain ⟨log, h, -⟩ := @mtdWrite_unmarking dev mtd eb 0 data none .placeOob s
    exact ⟨log, h⟩
  · exact fun s => ⟨[], unmarking_refl s⟩

theorem programPeb_ends (eb : ℕ) (data : List UInt8) (st : UbiState) :
    PebEnds dev mtd eb (fun b => b.failsProgram mtd.start eb) st (programPeb dev mtd eb data st) := by
  obtain ⟨log, hlog, hfail⟩ := @mtdWrite_unmarking dev mtd eb 0 data none .placeOob st.toChip
  unfold programPeb
  split
  · rename_i heq
    rw [heq] at hlog
    exact .ok ⟨hlog, rfl, rfl, rfl⟩
  · rename_i chip heq
    rw [heq] at hlog hfail
    obtain ⟨log', hlog'⟩ := @torture_unmarking dev mtd eb chip
    obtain ⟨b, hb, hf⟩ := hfail rfl
    exact markBad_ends (hlog.trans hlog') ⟨b, List.mem_append_left _ hb, hf⟩
  · rename_i heq
    rw [heq] at hlog
    exact .fatal ⟨hlog, rfl, rfl, rfl⟩

theorem PebPlain.does {st st' : UbiState} {log : List Answer} (h : PebPlain dev mtd st st' log) :
    Does dev mtd st.toBmState st'.toBmState := does_unmarking h.unmarking h.map

def Marks (mtd : MtdDevInfo) (log : List Answer) : Prop := ∃ eb, Marked mtd.start eb log

theorem marks_grows : Grows (Marks mtd) := by
  rintro log log' (⟨eb, hm⟩ | ⟨eb, hm⟩)
  · exact ⟨eb, marked_append.mpr (.inl hm)⟩
  · exact ⟨eb, marked_append.mpr (.inr hm)⟩

theorem PebMarked.marks {st st' st'' : UbiState} {log : List Answer} {a : Answer} (h : PebMarked dev mtd eb P st st' log a)
    (hchip : st''.toChip = st'.toChip) (hmap : st''.map.isSome = st'.map.isSome) :
    DoesUnless (Marks mtd) dev mtd st.toBmState st''.toBmState :=
  ⟨log ++ [a], by rw [hchip]; exact h.logged, by rw [hmap, h.map], .inl ⟨eb, a, by simp, h.mark⟩⟩

theorem writePebStep_does (crc32 : List UInt8 → ℕ) (c : PebCursor) :
    DoesUnless (Marks mtd) dev mtd c.st.toBmState (after (fun c : PebCursor => c.st.toBmState)
      (fun r : PebOutcome => r.2.2.toBmState) (writePebStep dev mtd crc32 c)) := by
  have hsame : DoesUnless (Marks mtd) dev mtd c.st.toBmState c.st.toBmState := (does_refl _).unless
  have herase := @erasePeb_ends dev mtd c.eb c.st
  unfold writePebStep
  split_ifs
  · exact hsame
  · exact hsame
  · split
    · rename_i st heq
      rw [heq] at herase
      cases herase with
      | fatal h => exact h.does.unless
      | limit h => exact h.marks rfl rfl
    · rename_i st heq
      rw [heq] at herase
      cases herase with
      | bad h => exact h.marks rfl (set_map_isSome _ _ _)
    · rename_i st heq
      rw [heq] at herase
      cases herase with
      | ok h =>
        have hset : Does dev mtd st.toBmState (st.mapSet (mtdEbRelativeToAbsolute mtd c.eb) .erased).toBmState :=
          does_set _ _ (by decide)
        have herased := h.does.trans hset
        dsimp only
        split
        · exact herased.unless
        · rename_i buf _
          have hprogram := @programPeb_ends dev mtd c.eb (buf.take (dropFfs mtd buf))
            (st.mapSet (mtdEbRelativeToAbsolute mtd c.eb) .erased)
          split
          · rename_i heq'
            rw [heq'] at hprogram
            cases hprogram with
            | fatal h' => exact (herased.trans h'.does).unless
            | limit h' => exact herased.unless.trans marks_grows (h'.marks rfl rfl)
          · rename_i heq'
            rw [heq'] at hprogram
            cases hprogram with
            | bad h' => exact herased.unless.trans marks_grows (h'.marks rfl rfl)
          · rename_i heq'
            rw [heq'] at hprogram
            cases hprogram with
            | ok h' => exact (herased.trans h'.does).unless

theorem writeOnePeb_does (crc32 : List UInt8 → ℕ) (eb : ℕ) (buf : List UInt8) (st : UbiState) :
    DoesUnless (Marks mtd) dev mtd st.toBmState (ubiWriteOnePeb dev mtd crc32 eb buf st).2.2.toBmState :=
  loop_unless (writePebLoop dev mtd crc32) marks_grows (writePebStep_does crc32) ⟨eb, buf, st⟩

end Peb

end LinuxRecovery.RecordedBlocks
