import LinuxRecovery.Attempts
import LinuxRecovery.BadBlocks

namespace LinuxRecovery.ScanResult

open Loops Attempts Libmtd BlockMap BasicWrite BlockScan
open BadBlocks (recordedBad)

structure Reports (dev : Device) (mtd : MtdDevInfo) (reported : ℕ → BadReply) : Prop where
  isBad : ∀ calls eb, dev.badBlock (calls ++ [.isBad mtd.start eb]) = reported eb

variable (dev : Device) (mtd : MtdDevInfo) (noskipbad : Bool) (method : OperationMethod) (reported : ℕ → BadReply)

def verdict (st : BmState) (eb : ℕ) : BadReply :=
  let abs := mtdEbRelativeToAbsolute mtd eb
  if (mtdBmBlockMapIsTaged st abs && !mtdBmBlockMapIsBad st abs) = true then .good
  else if mtd.type = .norflash ∨ noskipbad = true then .good
  else if mtd.bbAllowed = true then reported eb
  else .good

def blocks (eb : ℕ) : List ℕ := List.range' eb (mtd.ebCnt - eb)

variable {mtd} in
theorem blocks_cons {eb : ℕ} (h : eb < mtd.ebCnt) : blocks mtd eb = eb :: blocks mtd (eb + 1) := by
  rw [blocks, blocks, ← List.range'_succ]
  congr 1
  omega

variable {mtd} in
theorem blocks_end {eb : ℕ} (h : mtd.ebCnt ≤ eb) : blocks mtd eb = [] := by
  rw [blocks, Nat.sub_eq_zero_of_le h]
  rfl

def unfit (v : ℕ → BadReply) (eb : ℕ) : Bool := v eb != .good

structure Scanned (mtd : MtdDevInfo) (v : ℕ → BadReply) (ebs : List ℕ) (st st' : BmState) : Prop where
  mapped : st'.map.isSome = st.map.isSome
  judged : ∀ eb ∈ ebs, v eb = .good ∨ v eb = .bad
  taged : ∀ eb ∈ ebs, mtdBmBlockMapIsTaged st' (mtdEbRelativeToAbsolute mtd eb) = true
  bad : ∀ eb ∈ ebs, recordedBad mtd st' eb = (recordedBad mtd st eb || v eb == .bad)
  other : ∀ i, (∀ eb ∈ ebs, i ≠ mtdEbRelativeToAbsolute mtd eb) → entry st' i = entry st i

variable {dev mtd noskipbad method reported} {v : ℕ → BadReply} {st st' st'' : BmState} {eb : ℕ}

theorem absolute_ne {b : ℕ} (h : b ≠ eb) : mtdEbRelativeToAbsolute mtd b ≠ mtdEbRelativeToAbsolute mtd eb :=
  fun he => h (Nat.add_right_cancel he)

theorem scanned_nil (st : BmState) : Scanned mtd v [] st st := by
  refine ⟨rfl, ?_, ?_, ?_, fun _ _ => rfl⟩
  · intro eb h
    cases h
  · intro eb h
    cases h
  · intro eb h
    cases h

theorem recordedBad_congr {st st' : BmState} {b : ℕ}
    (h : entry st' (mtdEbRelativeToAbsolute mtd b) = entry st (mtdEbRelativeToAbsolute mtd b)) :
    recordedBad mtd st' b = recordedBad mtd st b := by
  unfold recordedBad
  rw [isBad_entry, isBad_entry, h]

theorem Scanned.verdict_eq (h : Scanned mtd v [eb] st st') {b : ℕ} (hne : b ≠ eb) :
    verdict mtd noskipbad reported st' b = verdict mtd noskipbad reported st b := by
  have he : entry st' (mtdEbRelativeToAbsolute mtd b) = entry st (mtdEbRelativeToAbsolute mtd b) := by
    apply h.other
    intro b' hb
    obtain rfl := List.mem_singleton.mp hb
    exact absolute_ne hne
  simp only [verdict, isBad_entry, isTaged_entry, he]

theorem Scanned.cons {ebs : List ℕ} (h : Scanned mtd v [eb] st st') (hrest : Scanned mtd v ebs st' st'')
    (hnew : eb ∉ ebs) : Scanned mtd v (eb :: ebs) st st'' := by
  have hself : eb ∈ [eb] := List.mem_singleton_self eb
  have hkeep : entry st'' (mtdEbRelativeToAbsolute mtd eb) = entry st' (mtdEbRelativeToAbsolute mtd eb) := by
    apply hrest.other
    intro b hb
    exact absolute_ne (fun he => hnew (he ▸ hb))
  refine ⟨hrest.mapped.trans h.mapped, ?_, ?_, ?_, ?_⟩
  · intro b hb
    rcases List.mem_cons.mp hb with rfl | hb
    · exact h.judged b hself
    · exact hrest.judged b hb
  · intro b hb
    rcases List.mem_cons.mp hb with rfl | hb
    · rw [isTaged_entry, hkeep, ← isTaged_entry]
      exact h.taged b hself
    · exact hrest.taged b hb
  · intro b hb
    rcases List.mem_cons.mp hb with rfl | hmem
    · rw [recordedBad_congr hkeep, h.bad b hself]
    · have hne : b ≠ eb := fun he => hnew (he ▸ hmem)
      rw [hrest.bad b hmem, recordedBad_congr (h.other _ ?_)]
      intro b' hb'
      rw [List.mem_singleton.mp hb']
      exact absolute_ne hne
  · intro i hi
    rw [hrest.other i (fun b hb => hi b (List.mem_cons_of_mem _ hb)), h.other]
    intro b hb
    obtain rfl := List.mem_singleton.mp hb
    exact hi b List.mem_cons_self

theorem set_taged (st : BmState) (eb : ℕ) {status : BlkStatus} (hs : status ≠ .untagged) (h : st.map.isSome = true) :
    mtdBmBlockMapIsTaged (mtdBmBlockMapSet eb status st) eb = true := by
  rw [isTaged_entry, entry_set_self st eb status h]
  split_ifs <;> simp [hs]

theorem scanned_keep (htag : mtdBmBlockMapIsTaged st (mtdEbRelativeToAbsolute mtd eb) = true) (hv : v eb = .good) :
    Scanned mtd v [eb] st st := by
  refine ⟨rfl, ?_, ?_, ?_, fun _ _ => rfl⟩
  · intro b hb
    obtain rfl := List.mem_singleton.mp hb
    exact .inl hv
  · intro b hb
    obtain rfl := List.mem_singleton.mp hb
    exact htag
  · intro b hb
    obtain rfl := List.mem_singleton.mp hb
    simp [hv]

theorem scanned_tag (chip : Chip) (hmap : st.map.isSome = true) (hv : v eb = .good) :
    Scanned mtd v [eb] st (mtdBmBlockMapSet (mtdEbRelativeToAbsolute mtd eb) .scan { st with toChip := chip }) := by
  refine ⟨set_map_isSome _ _ _, ?_, ?_, ?_, ?_⟩
  · intro b hb
    obtain rfl := List.mem_singleton.mp hb
    exact .inl hv
  · intro b hb
    obtain rfl := List.mem_singleton.mp hb
    exact set_taged _ _ (by decide) hmap
  · intro b hb
    obtain rfl := List.mem_singleton.mp hb
    rw [hv, recordedBad, set_isBad_other _ _ _ _ (by decide)]
    exact (Bool.or_false _).symm
  · intro i hi
    exact entry_set_other _ _ (hi eb (List.mem_singleton_self eb))

theorem scanned_bad (chip : Chip) (hmap : st.map.isSome = true) (hv : v eb = .bad) :
    Scanned mtd v [eb] st (mtdBmBlockMapSet (mtdEbRelativeToAbsolute mtd eb) .bad
      (mtdBmBlockMapSet (mtdEbRelativeToAbsolute mtd eb) .scan { st with toChip := chip })) := by
  have hmap' : (mtdBmBlockMapSet (mtdEbRelativeToAbsolute mtd eb) .scan { st with toChip := chip }).map.isSome = true := by
    rw [set_map_isSome]
    exact hmap
  refine ⟨?_, ?_, ?_, ?_, ?_⟩
  · rw [set_map_isSome, set_map_isSome]
  · intro b hb
    obtain rfl := List.mem_singleton.mp hb
    exact .inr hv
  · intro b hb
    obtain rfl := List.mem_singleton.mp hb
    exact set_taged _ _ (by decide) hmap'
  · intro b hb
    obtain rfl := List.mem_singleton.mp hb
    rw [recordedBad, set_isBad_bad, hmap', hv]
    simp
  · intro i hi
    have hne := hi eb (List.mem_singleton_self eb)
    rw [entry_set_other _ _ hne, entry_set_other _ _ hne]
    rfl

theorem scanStep_verdict (hr : Reports dev mtd reported) {startEb totalBytes : ℕ} {c : ScanCursor}
    (hv : c.eb < mtd.ebCnt) (hmap : c.st.map.isSome = true) (hjudge : verdict mtd noskipbad reported c.st c.eb = v c.eb) :
    ∃ st', scanStep dev mtd noskipbad method startEb totalBytes c =
        (match v c.eb with
          | .good => scanPass mtd method startEb totalBytes { c with st := st' }
          | .bad => .next { c with eb := c.eb + 1, st := st' }
          | _ => .done (.fail, st')) ∧
      (v c.eb = .good ∨ v c.eb = .bad → Scanned mtd v [c.eb] c.st st') := by
  unfold verdict at hjudge
  dsimp only at hjudge
  unfold scanStep
  rw [if_neg (by omega)]
  dsimp only
  split_ifs at hjudge ⊢ with htag hnor hbb
  · rw [← hjudge]
    exact ⟨c.st, rfl, fun _ => scanned_keep (Bool.and_eq_true_iff.mp htag).1 hjudge.symm⟩
  · rw [← hjudge]
    exact ⟨_, rfl, fun _ => scanned_tag c.st.toChip hmap hjudge.symm⟩
  · have hask : mtdIsBad dev mtd c.eb c.st.toChip =
        (v c.eb, { c.st.toChip with calls := c.st.calls ++ [.isBad mtd.start c.eb] }) := by
      simp [mtdIsBad, mtdValidEraseBlock, hv, hbb, hr.isBad, hjudge]
    rw [set_toChip, hask]
    dsimp only
    cases hvc : v c.eb with
    | good => exact ⟨_, rfl, fun _ => scanned_tag ⟨c.st.mem, c.st.calls ++ [.isBad mtd.start c.eb]⟩ hmap hvc⟩
    | bad => exact ⟨_, rfl, fun _ => scanned_bad ⟨c.st.mem, c.st.calls ++ [.isBad mtd.start c.eb]⟩ hmap hvc⟩
    | error => exact ⟨_, rfl, by simp⟩
    | unsupported => exact ⟨_, rfl, by simp⟩
  · have hask : mtdIsBad dev mtd c.eb c.st.toChip = (v c.eb, c.st.toChip) := by
      simp [mtdIsBad, mtdValidEraseBlock, hv, hbb, ← hjudge]
    rw [set_toChip, hask, ← hjudge]
    exact ⟨_, rfl, fun _ => scanned_tag c.st.toChip hmap hjudge.symm⟩

theorem scanLoop_off (hr : Reports dev mtd reported) {startEb totalBytes n m : ℕ} (c : ScanCursor) {st' : BmState}
    (hn : c.pass + n * mtd.ebSize = totalBytes) (hn0 : n ≠ 0) (hstart : startEb ≤ c.eb) (hmap : c.st.map.isSome = true)
    (hjudge : ∀ b, c.eb ≤ b → verdict mtd noskipbad reported c.st b = v b)
    (h : (scanLoop dev mtd noskipbad method startEb totalBytes).exec c = (.off m, st')) :
    Scanned mtd v (attempted (unfit v) n (blocks mtd c.eb)) c.st st' ∧
      if n ≤ ((blocks mtd c.eb).filter (fun b => !unfit v b)).length then
        m = (c.eb - startEb + (attempted (unfit v) n (blocks mtd c.eb)).length) * mtd.ebSize
      else method = .partition ∧ m = (c.eb - startEb + (blocks mtd c.eb).length + 1) * mtd.ebSize := by
  have hpos := mtd.ebSize_pos
  induction c using (scanLoop dev mtd noskipbad method startEb totalBytes).induct generalizing n with
  | h c ih =>
    by_cases hend : mtd.ebCnt ≤ c.eb
    · have hstep : (scanLoop dev mtd noskipbad method startEb totalBytes).step c =
          .done (c.exit mtd method startEb) := if_pos hend
      rw [Loop.exec_done _ hstep, ScanCursor.exit] at h
      rw [blocks_end hend, attempted_nil]
      split_ifs at h with hrandom
      · cases h
      · cases h
        refine ⟨scanned_nil _, ?_⟩
        rw [if_neg (by simpa using hn0)]
        exact ⟨not_not.mp (fun hne => hrandom ⟨hne, hend⟩), rfl⟩
    · have hlt : c.eb < mtd.ebCnt := by omega
      have hnew : c.eb ∉ attempted (unfit v) (if unfit v c.eb = true then n else n - 1) (blocks mtd (c.eb + 1)) := by
        intro hmem
        have hrange := (attempted_start (unfit v) _ _).subset hmem
        have := (List.mem_range'_1.mp hrange).1
        omega
      obtain ⟨st₁, hstep, hone⟩ := @scanStep_verdict _ _ _ method _ _
        hr startEb totalBytes _ hlt hmap (hjudge c.eb le_rfl)
      rw [blocks_cons hlt, attempted_cons _ hn0]
      rcases hvc : v c.eb with _ | _ | _ | _
      · have hfirst := hone (.inl hvc)
        have hfit : unfit v c.eb = false := by simp [unfit, hvc]
        rw [hvc] at hstep
        dsimp only at hstep
        rw [scanPass] at hstep
        dsimp only at hstep
        rw [hfit] at hnew ⊢
        simp only [Bool.false_eq_true, ↓reduceIte] at hnew ⊢
        rw [List.filter_cons_of_pos (by simp [hfit]), List.length_cons]
        obtain ⟨k, rfl⟩ := Nat.exists_eq_succ_of_ne_zero hn0
        rw [Nat.succ_mul] at hn
        by_cases hk : k = 0
        · subst hk
          rw [if_pos (by omega)] at hstep
          have hdone : (scanLoop dev mtd noskipbad method startEb totalBytes).step c = _ := hstep
          rw [Loop.exec_done _ hdone, ScanCursor.exit, if_neg (by simp only; omega)] at h
          cases h
          rw [Nat.succ_sub_one, attempted_zero, if_pos (by omega), List.length_singleton]
          exact ⟨hfirst, rfl⟩
        · have hkpos := Nat.mul_pos (Nat.pos_of_ne_zero hk) hpos
          rw [if_neg (by omega)] at hstep
          rw [Loop.exec_next (scanLoop dev mtd noskipbad method startEb totalBytes) hstep] at h
          obtain ⟨hrest, hm⟩ := ih _ hstep (n := k) (by simp only; omega) hk (by simp only; omega)
            (by simp only; rw [hfirst.mapped]; exact hmap)
            (fun b hb => (hfirst.verdict_eq (by simp only at hb; omega)).trans (hjudge b (by simp only at hb; omega))) h
          simp only at hrest hm
          rw [Nat.succ_sub_one] at hnew ⊢
          refine ⟨hfirst.cons hrest hnew, ?_⟩
          split_ifs at hm ⊢ with h1 h2 h2
          · rw [hm, List.length_cons]
            congr 1
            omega
          · omega
          · omega
          · rw [hm.2, List.length_cons]
            refine ⟨hm.1, ?_⟩
            congr 1
            omega
      · have hfirst := hone (.inr hvc)
        have hunfit : unfit v c.eb = true := by simp [unfit, hvc]
        rw [hvc] at hstep
        rw [hunfit, if_pos rfl] at hnew
        rw [if_pos hunfit, List.filter_cons_of_neg (by simp [hunfit])]
        rw [Loop.exec_next (scanLoop dev mtd noskipbad method startEb totalBytes) hstep] at h
        obtain ⟨hrest, hm⟩ := ih _ hstep (n := n) hn hn0 (by simp only; omega)
          (by simp only; rw [hfirst.mapped]; exact hmap)
          (fun b hb => (hfirst.verdict_eq (by simp only at hb; omega)).trans (hjudge b (by simp only at hb; omega))) h
        simp only at hrest hm
        refine ⟨hfirst.cons hrest hnew, ?_⟩
        split_ifs at hm ⊢
        · rw [hm, List.length_cons]
          congr 1
          omega
        · rw [hm.2, List.length_cons]
          refine ⟨hm.1, ?_⟩
          congr 1
          omega
      · rw [hvc] at hstep
        have hdone : (scanLoop dev mtd noskipbad method startEb totalBytes).step c = _ := hstep
        rw [Loop.exec_done _ hdone] at h
        cases h
      · rw [hvc] at hstep
        have hdone : (scanLoop dev mtd noskipbad method startEb totalBytes).step c = _ := hstep
        rw [Loop.exec_done _ hdone] at h
        cases h

theorem Scanned.good_count {ebs : List ℕ} (h : Scanned mtd v ebs st st') :
    (ebs.filter (fun eb => !recordedBad mtd st' eb)).length = (ebs.filter (fun eb => !unfit v eb)).length ↔
      ∀ eb ∈ ebs, recordedBad mtd st eb = true → v eb ≠ .good := by
  have hfilter : ebs.filter (fun eb => !recordedBad mtd st' eb) =
      (ebs.filter (fun eb => !unfit v eb)).filter (fun eb => !recordedBad mtd st eb) := by
    rw [List.filter_filter]
    apply List.filter_congr
    intro eb heb
    rw [h.bad eb heb]
    rcases h.judged eb heb with hv | hv <;> simp [unfit, hv]
  rw [hfilter, List.length_filter_eq_length_iff]
  constructor
  · intro hall eb heb hbad hv
    have hgood := hall eb (List.mem_filter.mpr ⟨heb, by simp [unfit, hv]⟩)
    rw [hbad] at hgood
    cases hgood
  · intro hall eb heb
    obtain ⟨hmem, hfit⟩ := List.mem_filter.mp heb
    cases hbad : recordedBad mtd st eb with
    | false => rfl
    | true => exact absurd (by simpa [unfit] using hfit) (hall eb hmem hbad)

theorem init_mapped (ebCnt : ℕ) (st : BmState) : (mtdBmBlockMapInit ebCnt st).map.isSome = true := by
  unfold mtdBmBlockMapInit
  split
  · rename_i m hm
    rw [hm]
    rfl
  · rfl

theorem init_entry (ebCnt : ℕ) (st : BmState) (i : ℕ) :
    mtdBmBlockMapIsTaged (mtdBmBlockMapInit ebCnt st) i = mtdBmBlockMapIsTaged st i ∧
      mtdBmBlockMapIsBad (mtdBmBlockMapInit ebCnt st) i = mtdBmBlockMapIsBad st i := by
  unfold mtdBmBlockMapInit
  split
  · exact ⟨rfl, rfl⟩
  · rename_i hm
    simp [mtdBmBlockMapIsTaged, mtdBmBlockMapIsBad, hm]

theorem init_verdict (ebCnt : ℕ) (st : BmState) (b : ℕ) :
    verdict mtd noskipbad reported (mtdBmBlockMapInit ebCnt st) b = verdict mtd noskipbad reported st b := by
  obtain ⟨htag, hbad⟩ := init_entry ebCnt st (mtdEbRelativeToAbsolute mtd b)
  rw [verdict, verdict, htag, hbad]

def firstBlock (mtd : MtdDevInfo) (offset : ℕ) : ℕ := mtdOffsetToEbIndex mtd offset - mtdOffsetToEbIndex mtd mtd.start

def touched (mtd : MtdDevInfo) (offset length : ℕ) : ℕ :=
  (offset + length - 1) / mtd.ebSize + 1 - offset / mtd.ebSize

structure RangeScanned (mtd : MtdDevInfo) (noskipbad : Bool) (method : OperationMethod) (reported : ℕ → BadReply)
    (offset length m : ℕ) (st st' : BmState) : Prop where
  whole : mtd.ebSize ∣ m
  inside : mtd.start ≤ mtdBlockAlign mtd offset ∧ mtdBlockAlign mtd offset + m ≤ mtd.start + mtd.size
  taged : ∀ eb, firstBlock mtd offset ≤ eb → eb < firstBlock mtd offset + m / mtd.ebSize →
    mtdBmBlockMapIsTaged st' (mtdEbRelativeToAbsolute mtd eb) = true
  bad : ∀ i, mtdBmBlockMapIsBad st' i = true → mtdBmBlockMapIsBad st i = true ∨
    ∃ eb < mtd.ebCnt, i = mtdEbRelativeToAbsolute mtd eb ∧ reported eb = .bad
  enough : method = .random → mtdTypeIsNand mtd = true → noskipbad = false →
    ((List.range' (firstBlock mtd offset) (m / mtd.ebSize)).filter (fun eb => !recordedBad mtd st' eb)).length =
      touched mtd offset length

/-- A scan of a partition starts inside it and finds every block from there on good; a random scan
comes to no block that is recorded bad although the chip calls it good. -/
structure ScanFits (mtd : MtdDevInfo) (noskipbad : Bool) (method : OperationMethod) (reported : ℕ → BadReply)
    (offset length : ℕ) (st : BmState) : Prop where
  partition : method = .partition → firstBlock mtd offset < mtd.ebCnt ∧
    ∀ eb ∈ blocks mtd (firstBlock mtd offset), verdict mtd noskipbad reported st eb = .good
  random : method = .random → mtdTypeIsNand mtd = true → noskipbad = false →
    ∀ eb ∈ attempted (unfit (verdict mtd noskipbad reported st)) (touched mtd offset length)
      (blocks mtd (firstBlock mtd offset)), recordedBad mtd st eb = true → reported eb ≠ .good

theorem touched_eq (mtd : MtdDevInfo) {offset length : ℕ} (h : length ≠ 0) :
    mtdOffsetToEbIndex mtd (offset + length + mtd.ebSize - 1) - mtdOffsetToEbIndex mtd offset =
      touched mtd offset length := by
  unfold mtdOffsetToEbIndex touched
  rw [show offset + length + mtd.ebSize - 1 = offset + length - 1 + mtd.ebSize by omega,
    Nat.add_div_right _ mtd.ebSize_pos]

theorem touched_pos (mtd : MtdDevInfo) {offset length : ℕ} (h : length ≠ 0) : touched mtd offset length ≠ 0 := by
  have hle : offset / mtd.ebSize ≤ (offset + length - 1) / mtd.ebSize := Nat.div_le_div_right (by omega)
  unfold touched
  omega

def wanted (mtd : MtdDevInfo) (method : OperationMethod) (offset length : ℕ) : ℕ :=
  match method with
  | .partition => mtd.ebCnt - firstBlock mtd offset
  | .random => touched mtd offset length

theorem start_eq (mtd : MtdDevInfo) : mtd.start = mtdOffsetToEbIndex mtd mtd.start * mtd.ebSize :=
  (Nat.div_mul_cancel mtd.start_dvd).symm

theorem end_eq (mtd : MtdDevInfo) : mtdOffsetToEbIndex mtd (mtd.start + mtd.size) =
    mtdOffsetToEbIndex mtd mtd.start + mtd.ebCnt :=
  Nat.add_div_of_dvd_left mtd.size_dvd

theorem mtdBlockScan_off {capacity offset length m : ℕ}
    (h : mtdBlockScan dev mtd noskipbad method capacity offset length st = (.off m, st')) :
    mtdOffsetToEbIndex mtd mtd.start ≤ mtdOffsetToEbIndex mtd offset ∧
      (method = .random → length ≠ 0 ∧ firstBlock mtd offset + touched mtd offset length ≤ mtd.ebCnt) ∧
      (scanLoop dev mtd noskipbad method (firstBlock mtd offset) (wanted mtd method offset length * mtd.ebSize)).exec
        ⟨firstBlock mtd offset, 0, mtdBmBlockMapInit (capacity / mtd.ebSize) st⟩ = (.off m, st') := by
  unfold mtdBlockScan at h
  dsimp only at h
  split_ifs at h with hlength hbound
  · cases h
  · cases h
  · cases method with
    | partition =>
      dsimp only at h hbound
      rw [end_eq] at h hbound
      refine ⟨by omega, by simp, ?_⟩
      rw [wanted, show mtd.ebCnt - firstBlock mtd offset =
        mtdOffsetToEbIndex mtd mtd.start + mtd.ebCnt - mtdOffsetToEbIndex mtd offset by unfold firstBlock; omega]
      exact h
    | random =>
      dsimp only at h hbound
      have hl : length ≠ 0 := by simpa using hlength
      have htouched := @touched_eq mtd offset _ hl
      have hpos := @touched_pos mtd offset _ hl
      rw [htouched] at h
      refine ⟨by omega, fun _ => ⟨hl, ?_⟩, h⟩
      unfold firstBlock
      omega

theorem verdict_bad (h : verdict mtd noskipbad reported st eb = .bad) : reported eb = .bad := by
  unfold verdict at h
  dsimp only at h
  split_ifs at h
  exact h

theorem verdict_recorded (hn : mtdTypeIsNand mtd = true) (hskip : noskipbad = false)
    (hbad : recordedBad mtd st eb = true) : verdict mtd noskipbad reported st eb = reported eb := by
  have hnor : ¬(mtd.type = .norflash ∨ noskipbad = true) := by
    rintro (h | h)
    · rw [mtdTypeIsNand, h] at hn
      exact absurd hn (by decide)
    · exact absurd (hskip.symm.trans h) (by decide)
  unfold recordedBad at hbad
  rw [verdict, hbad, if_neg (by simp), if_neg hnor, if_pos (show mtd.bbAllowed = true from hn)]

theorem inside_iff {offset k : ℕ} (h : mtdOffsetToEbIndex mtd mtd.start ≤ mtdOffsetToEbIndex mtd offset) :
    (mtd.start ≤ mtdBlockAlign mtd offset ∧ mtdBlockAlign mtd offset + k * mtd.ebSize ≤ mtd.start + mtd.size) ↔
      firstBlock mtd offset + k ≤ mtd.ebCnt := by
  have halign : mtdBlockAlign mtd offset = mtd.start + firstBlock mtd offset * mtd.ebSize := by
    conv_rhs => rw [start_eq mtd]
    rw [← Nat.add_mul, firstBlock, Nat.add_sub_cancel' h]
    rfl
  rw [halign, ← mtd.ebCnt_mul, Nat.add_assoc, ← Nat.add_mul]
  constructor
  · rintro ⟨-, hle⟩
    exact Nat.le_of_mul_le_mul_right (Nat.le_of_add_le_add_left hle) mtd.ebSize_pos
  · intro hle
    exact ⟨Nat.le_add_right _ _, Nat.add_le_add_left (Nat.mul_le_mul_right _ hle) _⟩

theorem prefix_blocks {ebs : List ℕ} (h : ebs <+: blocks mtd eb) :
    ebs = List.range' eb ebs.length ∧ eb + ebs.length ≤ max eb mtd.ebCnt := by
  have hle := h.length_le
  rw [blocks, List.length_range'] at hle
  refine ⟨?_, by omega⟩
  conv_lhs => rw [List.prefix_iff_eq_take.mp h, blocks, List.take_range'_of_length_ge hle]

theorem rangeScanned_iff (hr : Reports dev mtd reported) {capacity offset length m : ℕ}
    (h : mtdBlockScan dev mtd noskipbad method capacity offset length st = (.off m, st')) :
    RangeScanned mtd noskipbad method reported offset length m st st' ↔
      ScanFits mtd noskipbad method reported offset length st := by
  have hpos := mtd.ebSize_pos
  obtain ⟨hfirst, hrandom, hexec⟩ := mtdBlockScan_off h
  by_cases hs : mtd.ebCnt ≤ firstBlock mtd offset
  · -- nothing to scan: the result is one block, past the end
    have hpart : method = .partition := by
      cases method with
      | partition => rfl
      | random =>
        obtain ⟨hl, hle⟩ := hrandom rfl
        have := @touched_pos mtd offset _ hl
        omega
    have hm : m = 1 * mtd.ebSize := by
      have hstep : (scanLoop dev mtd noskipbad method (firstBlock mtd offset)
          (wanted mtd method offset length * mtd.ebSize)).step
            ⟨firstBlock mtd offset, 0, mtdBmBlockMapInit (capacity / mtd.ebSize) st⟩ = _ := if_pos hs
      rw [Loop.exec_done _ hstep, ScanCursor.exit, if_neg (by simp [hpart])] at hexec
      cases hexec
      rw [Nat.sub_self, Nat.zero_add]
    constructor
    · intro hscan
      have hin := hscan.inside
      rw [hm, inside_iff hfirst] at hin
      omega
    · intro hfits
      have := (hfits.partition hpart).1
      omega
  · have hv := @init_verdict mtd noskipbad reported (capacity / mtd.ebSize) st
    have hn0 : wanted mtd method offset length ≠ 0 := by
      cases method with
      | partition =>
        change mtd.ebCnt - firstBlock mtd offset ≠ 0
        omega
      | random => exact touched_pos mtd (hrandom rfl).1
    obtain ⟨hscan, hm⟩ := scanLoop_off (v := verdict mtd noskipbad reported st) hr
      ⟨firstBlock mtd offset, 0, mtdBmBlockMapInit (capacity / mtd.ebSize) st⟩ (Nat.zero_add _) hn0 le_rfl
      (init_mapped _ st) (fun b _ => hv b) hexec
    dsimp only at hscan hm
    rw [Nat.sub_self, Nat.zero_add] at hm
    have hlen : (blocks mtd (firstBlock mtd offset)).length = mtd.ebCnt - firstBlock mtd offset := by
      rw [blocks, List.length_range']
    split_ifs at hm with hcase
    · set ebs := attempted (unfit (verdict mtd noskipbad reported st)) (wanted mtd method offset length)
        (blocks mtd (firstBlock mtd offset)) with hebs
      obtain ⟨hrange, hle⟩ := prefix_blocks (attempted_start (unfit (verdict mtd noskipbad reported st))
        (wanted mtd method offset length) (blocks mtd (firstBlock mtd offset)))
      rw [← hebs] at hrange hle
      have hcount : (ebs.filter (fun eb => !unfit (verdict mtd noskipbad reported st) eb)).length =
          wanted mtd method offset length := by
        rw [hebs, attempted_filter, List.length_take, Nat.min_eq_left hcase]
      have hblocks : m / mtd.ebSize = ebs.length := by rw [hm, Nat.mul_div_cancel _ hpos]
      have hrec (eb : ℕ) : recordedBad mtd (mtdBmBlockMapInit (capacity / mtd.ebSize) st) eb = recordedBad mtd st eb :=
        (init_entry _ st _).2
      constructor
      · intro hscanned
        refine ⟨?_, ?_⟩
        · rintro rfl
          refine ⟨by omega, ?_⟩
          have hall := List.length_filter_eq_length_iff.mp (le_antisymm (List.length_filter_le _ _) (hlen.le.trans hcase))
          intro eb heb
          simpa [unfit] using hall eb heb
        · rintro rfl hn hskip eb heb hbad hgood
          have hgoods := hscanned.enough rfl hn hskip
          rw [hblocks, ← hrange] at hgoods
          have hnone := hscan.good_count.mp (hgoods.trans hcount.symm) eb heb (by rw [hrec]; exact hbad)
          exact hnone ((verdict_recorded hn hskip hbad).trans hgood)
      · intro hfits
        refine ⟨Dvd.intro_left _ hm.symm, ?_, ?_, ?_, ?_⟩
        · rw [hm, inside_iff hfirst]
          omega
        · intro eb h1 h2
          apply hscan.taged
          rw [hrange, List.mem_range'_1]
          omega
        · intro i hbad
          by_cases hi : ∃ eb ∈ ebs, i = mtdEbRelativeToAbsolute mtd eb
          · obtain ⟨eb, heb, rfl⟩ := hi
            have hor := (hscan.bad eb heb).symm.trans hbad
            rw [hrec, Bool.or_eq_true, beq_iff_eq] at hor
            rcases hor with hor | hor
            · exact .inl hor
            · rw [hrange, List.mem_range'_1] at heb
              exact .inr ⟨eb, by omega, rfl, verdict_bad hor⟩
          · have hkeep := hscan.other i (fun eb heb he => hi ⟨eb, heb, he⟩)
            rw [isBad_entry, hkeep, ← isBad_entry, (init_entry _ st i).2] at hbad
            exact .inl hbad
        · rintro rfl hn hskip
          rw [hblocks, ← hrange]
          refine (hscan.good_count.mpr ?_).trans hcount
          intro eb heb hbad
          rw [hrec] at hbad
          rw [verdict_recorded hn hskip hbad]
          exact hfits.random rfl hn hskip eb heb hbad
    · obtain ⟨hpart, hm⟩ := hm
      rw [Nat.zero_add, hlen] at hm
      subst hm
      constructor
      · intro hrange
        have hin := (inside_iff hfirst).mp hrange.inside
        omega
      · intro hfits
        have hall := (hfits.partition hpart).2
        exact absurd hcase (by
          rw [not_not, List.filter_eq_self.mpr (fun b hb => by simp [unfit, hall b hb]), hlen, hpart]
          exact le_rfl)

def reporting (reported : ℕ → BadReply) : Device :=
  { failsAt [] with
    badBlock := fun calls =>
      match calls.getLast? with
      | some (.isBad _ eb) => reported eb
      | _ => .good }

theorem reporting_reports (mtd : MtdDevInfo) (reported : ℕ → BadReply) : Reports (reporting reported) mtd reported := by
  constructor
  simp [reporting]

def secondBad (eb : ℕ) : BadReply := if eb = 1 then .bad else .good

theorem rangeScanned_iff_small :
    RangeScanned (smallNand 16 (by decide)) false .random secondBad 18 6 12 ⟨⟨fun _ => 0xFF, []⟩, none, none⟩
        (mtdBlockScan (reporting secondBad) (smallNand 16 (by decide)) false .random 32 18 6
          ⟨⟨fun _ => 0xFF, []⟩, none, none⟩).2 ↔
      ScanFits (smallNand 16 (by decide)) false .random secondBad 18 6 ⟨⟨fun _ => 0xFF, []⟩, none, none⟩ :=
  rangeScanned_iff (reporting_reports _ _) (Prod.ext (by decide) rfl)

theorem partition_overrun :
    ∃ st', mtdBlockScan (reporting secondBad) (smallNand 16 (by decide)) false .partition 32 16 16
        ⟨⟨fun _ => 0xFF, []⟩, none, none⟩ = (.off 20, st') ∧
      ¬RangeScanned (smallNand 16 (by decide)) false .partition secondBad 16 16 20
        ⟨⟨fun _ => 0xFF, []⟩, none, none⟩ st' :=
  ⟨_, Prod.ext (by decide) rfl, fun h => absurd h.inside (by decide)⟩

end LinuxRecovery.ScanResult
