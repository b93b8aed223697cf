import LinuxRecovery.Attempts
import LinuxRecovery.BadBlocks

namespace LinuxRecovery.EraseCoverage

open Loops ByteMemory Attempts Libmtd BlockMap BasicWrite SysinfoSave BasicErase
open BadBlocks (recordedBad)

/-- The erases of the blocks in `fails` end in `EIO`, and every block can be marked bad. -/
structure EraseFaults (dev : Device) (mtd : MtdDevInfo) (fails : ℕ → Bool) : Prop where
  erase : ∀ calls eb, dev.reply (calls ++ [.erase mtd.start eb]) = if fails eb = true then some .eio else none
  markBad : ∀ calls eb, dev.reply (calls ++ [.markBad mtd.start eb]) = none

def erasesFail (fails : ℕ → Bool) : Device where
  reply calls :=
    match calls.getLast? with
    | some (.erase _ eb) => if fails eb = true then some .eio else none
    | _ => none
  junk _ _ := 0
  badBlock _ := .good
  fileMode := none
  oobInfo := true

theorem erasesFail_faults (mtd : MtdDevInfo) (fails : ℕ → Bool) : EraseFaults (erasesFail fails) mtd fails := by
  constructor <;> simp [erasesFail]

variable (dev : Device) (bm : PartInfo) (mtd : MtdDevInfo) (fs : FsKind) (fails : ℕ → Bool)

def Inside (eb x : ℕ) : Prop := address mtd eb 0 ≤ x ∧ x < address mtd eb 0 + mtd.ebSize

def requests (eb : ℕ) : List DevCall :=
  if fails eb = true then [.erase mtd.start eb, .markBad mtd.start eb] else [.erase mtd.start eb]

def tryErase (st : BmState) (eb : ℕ) : BmState :=
  let content := if fails eb = true then dev.junk (st.calls ++ [.erase mtd.start eb]) else fun _ => 0xFF
  mtdBmBlockMapSet (mtdEbRelativeToAbsolute mtd eb) (if fails eb = true then .bad else .erased)
    { st with toChip := ⟨fillBytes st.mem (address mtd eb 0) mtd.ebSize content, st.calls ++ requests mtd fails eb⟩ }

def unrecorded (st : BmState) (eb : ℕ) : List ℕ :=
  (List.range' eb (mtd.ebCnt - eb)).filter (fun b => !recordedBad mtd st b)

variable {dev bm mtd fs fails}

theorem inside_unique {eb eb' x : ℕ} (h : Inside mtd eb x) (h' : Inside mtd eb' x) : eb = eb' := by
  have hblock (b : ℕ) (hb : Inside mtd b x) : (x - mtd.start) / mtd.ebSize = b := by
    obtain ⟨h1, h2⟩ := hb
    simp only [address, Nat.add_zero] at h1 h2
    apply Nat.div_eq_of_lt_le
    · omega
    · rw [Nat.add_mul, Nat.one_mul]
      omega
  rw [← hblock eb h, hblock eb' h']

theorem absolute_inj {eb eb' : ℕ} (h : mtdEbRelativeToAbsolute mtd eb = mtdEbRelativeToAbsolute mtd eb') :
    eb = eb' := Nat.add_right_cancel h

theorem tryErase_recordedBad (st : BmState) {eb b : ℕ} (h : b ≠ eb) :
    recordedBad mtd (tryErase dev mtd fails st eb) b = recordedBad mtd st b := by
  have hne : mtdEbRelativeToAbsolute mtd b ≠ mtdEbRelativeToAbsolute mtd eb := fun he => h (absolute_inj he)
  unfold recordedBad tryErase
  dsimp only
  split_ifs
  · rw [set_isBad_bad, decide_eq_false hne]
    rfl
  · exact set_isBad_other _ _ _ _ (by decide)

theorem unrecorded_end {st : BmState} {eb : ℕ} (h : mtd.ebCnt ≤ eb) : unrecorded mtd st eb = [] := by
  rw [unrecorded, Nat.sub_eq_zero_of_le h]
  rfl

theorem unrecorded_cons {st : BmState} {eb : ℕ} (h : eb < mtd.ebCnt) :
    unrecorded mtd st eb =
      if recordedBad mtd st eb = true then unrecorded mtd st (eb + 1) else eb :: unrecorded mtd st (eb + 1) := by
  have hrange : List.range' eb (mtd.ebCnt - eb) = eb :: List.range' (eb + 1) (mtd.ebCnt - (eb + 1)) := by
    rw [← List.range'_succ]
    congr 1
    omega
  rw [unrecorded, hrange, List.filter_cons]
  cases recordedBad mtd st eb <;> rfl

theorem unrecorded_congr {st st' : BmState} {eb : ℕ} (h : ∀ b, eb ≤ b → recordedBad mtd st' b = recordedBad mtd st b) :
    unrecorded mtd st' eb = unrecorded mtd st eb := by
  apply List.filter_congr
  intro b hb
  rw [h b (List.mem_range'_1.mp hb).1]

theorem eraseExit_st (totalBytes : ℕ) (c : EraseCursor) : (eraseExit mtd totalBytes c).2 = c.st := by
  unfold eraseExit
  split_ifs
  · rfl
  · split <;> rfl

/-- The calls the loop is run for: NAND, bad blocks skipped, nothing to unlock, no hook and no marker. -/
structure Plain (mtd : MtdDevInfo) (fs : FsKind) : Prop where
  nand : mtdTypeIsNand mtd = true
  noskipbad : fs.flag.noskipbad = false
  unlock : fs.flag.unlock = false
  isJffs2 : fs.isJffs2 = false

theorem eraseStep_recorded (hp : Plain mtd fs) {totalBytes : ℕ} {c : EraseCursor} (hlt : c.erasedBytes < totalBytes)
    (hv : c.eb < mtd.ebCnt) (hbad : recordedBad mtd c.st c.eb = true) :
    eraseStep dev bm mtd fs totalBytes c = .next c.skipped := by
  rw [eraseStep, if_neg (by omega), if_pos]
  rw [hp.nand, hp.noskipbad]
  exact hbad

theorem eraseStep_tries (hf : EraseFaults dev mtd fails) (hp : Plain mtd fs) {totalBytes : ℕ} {c : EraseCursor}
    (hsys : c.st.sysinfo = none) (hlt : c.erasedBytes < totalBytes) (hv : c.eb < mtd.ebCnt)
    (hgood : recordedBad mtd c.st c.eb = false) :
    ∃ neraseEbs, eraseStep dev bm mtd fs totalBytes c =
      .next ⟨c.eb + 1, c.erasedBytes + (if fails c.eb = true then 0 else mtd.ebSize), neraseEbs,
        tryErase dev mtd fails c.st c.eb⟩ := by
  have hskip : ¬(mtdTypeIsNand mtd && !fs.flag.noskipbad &&
      mtdBmBlockMapIsBad c.st (mtdEbRelativeToAbsolute mtd c.eb)) = true := by
    rw [hp.nand, hp.noskipbad]
    intro hbad
    exact absurd (hgood.symm.trans hbad) (by decide)
  have hsave : sysinfoTraversalSave dev bm (c.eb * mtd.ebSize + mtd.start) mtd.ebSize c.st = (true, c.st) := by
    rw [sysinfoTraversalSave, hsys]
  have hvalid : mtdValidEraseBlock mtd c.eb = true := decide_eq_true hv
  rw [eraseStep, if_neg (by omega), if_neg hskip, if_neg (by simp [hp.unlock]), eraseBlock, hsave]
  cases hfail : fails c.eb with
  | true =>
    have hmark : mtdMarkBad dev mtd c.eb
        ⟨fillBytes c.st.mem (address mtd c.eb 0) mtd.ebSize (dev.junk (c.st.calls ++ [.erase mtd.start c.eb])),
          c.st.calls ++ [.erase mtd.start c.eb]⟩ = (none, ⟨fillBytes c.st.mem (address mtd c.eb 0) mtd.ebSize
            (dev.junk (c.st.calls ++ [.erase mtd.start c.eb])), c.st.calls ++ requests mtd fails c.eb⟩) := by
      have hreply := hf.markBad (c.st.calls ++ [.erase mtd.start c.eb]) c.eb
      rw [List.append_assoc] at hreply
      simpa [mtdMarkBad, show mtd.bbAllowed = true from hp.nand, hvalid, requests, hfail] using hreply
    simp [mtdErase, hvalid, hf.erase, hfail, EraseCursor.withChip, hmark, EraseCursor.skipped, tryErase]
  | false =>
    simp [mtdErase, hvalid, hf.erase, hfail, formatBlock, hp.isJffs2, tryErase, requests]

theorem eraseLoop_st (hf : EraseFaults dev mtd fails) (hp : Plain mtd fs) {totalBytes n : ℕ} (c : EraseCursor)
    (hsys : c.st.sysinfo = none) (hn : c.erasedBytes + n * mtd.ebSize = totalBytes) :
    ((eraseLoop dev bm mtd fs totalBytes).exec c).2 =
      (attempted fails n (unrecorded mtd c.st c.eb)).foldl (tryErase dev mtd fails) c.st := by
  have hpos := mtd.ebSize_pos
  induction c using (eraseLoop dev bm mtd fs totalBytes).induct generalizing n with
  | h c ih =>
    by_cases hexit : totalBytes ≤ c.erasedBytes ∨ mtd.ebCnt ≤ c.eb
    · have hnone : attempted fails n (unrecorded mtd c.st c.eb) = [] := by
        rcases hexit with h | h
        · obtain rfl : n = 0 := by
            by_contra hne
            have := Nat.mul_pos (Nat.pos_of_ne_zero hne) hpos
            omega
          exact attempted_zero fails _
        · rw [unrecorded_end h]
          rfl
      have hstep : (eraseLoop dev bm mtd fs totalBytes).step c = .done (eraseExit mtd totalBytes c) :=
        if_pos hexit
      rw [Loop.exec_done _ hstep, eraseExit_st, hnone]
      rfl
    · obtain ⟨hlt, hv⟩ : c.erasedBytes < totalBytes ∧ c.eb < mtd.ebCnt := by omega
      rw [unrecorded_cons hv]
      cases hbad : recordedBad mtd c.st c.eb with
      | true =>
        have hstep := @eraseStep_recorded dev bm _ _ hp _ _ hlt hv hbad
        rw [Loop.exec_next (eraseLoop dev bm mtd fs totalBytes) hstep]
        exact ih _ hstep hsys hn
      | false =>
        obtain ⟨nerase, hstep⟩ := @eraseStep_tries _ bm _ _ _ hf hp _ _ hsys hlt hv hbad
        have hrest := @unrecorded_congr mtd _ (tryErase dev mtd fails c.st c.eb) _ (fun b (hb : c.eb + 1 ≤ b) =>
          @tryErase_recordedBad dev mtd fails c.st _ _ (show b ≠ c.eb by omega))
        have hn0 : n ≠ 0 := by
          rintro rfl
          omega
        rw [Loop.exec_next (eraseLoop dev bm mtd fs totalBytes) hstep]
        simp only [Bool.false_eq_true, ↓reduceIte]
        rw [attempted_cons fails hn0]
        have hleft : c.erasedBytes + (if fails c.eb = true then 0 else mtd.ebSize) +
            (if fails c.eb = true then n else n - 1) * mtd.ebSize = totalBytes := by
          obtain ⟨m, rfl⟩ := Nat.exists_eq_succ_of_ne_zero hn0
          rw [Nat.succ_mul] at hn
          split_ifs
          · rw [Nat.succ_mul]
            omega
          · rw [Nat.succ_sub_one]
            omega
        rw [ih _ hstep hsys hleft]
        exact congrArg (fun ebs => (attempted fails _ ebs).foldl (tryErase dev mtd fails) _) hrest

structure Tried (mtd : MtdDevInfo) (fails : ℕ → Bool) (ebs : List ℕ) (st st' : BmState) : Prop where
  calls : st'.calls = st.calls ++ ebs.flatMap (requests mtd fails)
  tagged : ∀ eb ∈ ebs, entry st' (mtdEbRelativeToAbsolute mtd eb) = some (if fails eb = true then .bad else .erased)
  blank : ∀ eb ∈ ebs, fails eb = false → ∀ x, Inside mtd eb x → st'.mem x = 0xFF
  entries : ∀ i, (∀ eb ∈ ebs, i ≠ mtdEbRelativeToAbsolute mtd eb) → entry st' i = entry st i
  mem : ∀ x, (∀ eb ∈ ebs, ¬Inside mtd eb x) → st'.mem x = st.mem x

theorem tryErase_tried {st : BmState} {eb : ℕ} (hmap : st.map.isSome = true) (hgood : recordedBad mtd st eb = false) :
    Tried mtd fails [eb] st (tryErase dev mtd fails st eb) := by
  refine ⟨by simp [tryErase], ?_, ?_, ?_, ?_⟩
  · intro b hb
    obtain rfl := List.mem_singleton.mp hb
    refine (entry_set_self _ _ _ (by exact hmap)).trans ?_
    rw [if_neg]
    exact fun hbad => absurd (hgood.symm.trans hbad) (by decide)
  · intro b hb hfail x hx
    obtain rfl := List.mem_singleton.mp hb
    obtain ⟨k, rfl⟩ := Nat.exists_eq_add_of_le hx.1
    simp only [tryErase, hfail, Bool.false_eq_true, ↓reduceIte, set_toChip]
    exact fillBytes_inside _ _ _ _ _ (by have := hx.2; omega)
  · intro i hi
    exact entry_set_other _ _ (hi eb (List.mem_singleton_self eb))
  · intro x hx
    have hout := hx eb (List.mem_singleton_self eb)
    exact fillBytes_outside _ _ _ _ _ (by unfold Inside at hout; omega)

theorem tried_nil (st : BmState) : Tried mtd fails [] st st := by
  refine ⟨by simp, ?_, ?_, fun _ _ => rfl, fun _ _ => rfl⟩
  · intro eb h
    cases h
  · intro eb h
    cases h

theorem Tried.cons {eb : ℕ} {ebs : List ℕ} {st st' st'' : BmState} (h : Tried mtd fails [eb] st st')
    (hrest : Tried mtd fails ebs st' st'') (hnew : eb ∉ ebs) : Tried mtd fails (eb :: ebs) st st'' := by
  have hself : eb ∈ [eb] := List.mem_singleton_self eb
  refine ⟨?_, ?_, ?_, ?_, ?_⟩
  · rw [hrest.calls, h.calls, List.flatMap_cons, List.flatMap_nil, List.append_nil, List.append_assoc,
      List.flatMap_cons]
  · intro b hb
    rcases List.mem_cons.mp hb with rfl | hb
    · rw [hrest.entries, h.tagged b hself]
      intro b' hb' he
      exact hnew (absolute_inj he ▸ hb')
    · exact hrest.tagged b hb
  · intro b hb hfail x hx
    rcases List.mem_cons.mp hb with rfl | hb
    · rw [hrest.mem, h.blank b hself hfail x hx]
      intro b' hb' hx'
      exact hnew (inside_unique hx hx' ▸ hb')
    · exact hrest.blank b hb hfail x hx
  · intro i hi
    rw [hrest.entries i (fun b hb => hi b (List.mem_cons_of_mem _ hb)), h.entries]
    intro b hb
    obtain rfl := List.mem_singleton.mp hb
    exact hi b List.mem_cons_self
  · intro x hx
    rw [hrest.mem x (fun b hb => hx b (List.mem_cons_of_mem _ hb)), h.mem]
    intro b hb
    obtain rfl := List.mem_singleton.mp hb
    exact hx b List.mem_cons_self

theorem foldl_tried {ebs : List ℕ} {st : BmState} (hmap : st.map.isSome = true) (hnodup : ebs.Nodup)
    (hgood : ∀ eb ∈ ebs, recordedBad mtd st eb = false) :
    Tried mtd fails ebs st (ebs.foldl (tryErase dev mtd fails) st) := by
  induction ebs generalizing st with
  | nil => exact tried_nil st
  | cons eb ebs ih =>
    obtain ⟨hnew, hnodup⟩ := List.nodup_cons.mp hnodup
    have hfirst := @tryErase_tried dev _ fails _ _ hmap (hgood eb List.mem_cons_self)
    refine hfirst.cons (ih ?_ hnodup ?_) hnew
    · rw [tryErase, set_map_isSome]
      exact hmap
    · intro b hb
      rw [tryErase_recordedBad st (fun he : b = eb => hnew (he ▸ hb))]
      exact hgood b (List.mem_cons_of_mem _ hb)

def soundBlocks (mtd : MtdDevInfo) (fails : ℕ → Bool) (st : BmState) : List ℕ :=
  (List.range mtd.ebCnt).filter (fun eb => !recordedBad mtd st eb && !fails eb)

/-- The first `n` sound blocks were erased, each once; all that was tried besides failed, and was not recorded bad. -/
def Covered (mtd : MtdDevInfo) (fails : ℕ → Bool) (n : ℕ) (st st' : BmState) : Prop :=
  ∃ ebs : List ℕ, ebs.filter (fun eb => !fails eb) = (soundBlocks mtd fails st).take n ∧ ebs.Nodup ∧
    (∀ eb ∈ ebs, eb < mtd.ebCnt ∧ recordedBad mtd st eb = false) ∧ Tried mtd fails ebs st st'

theorem soundBlocks_unrecorded (st : BmState) :
    soundBlocks mtd fails st = (unrecorded mtd st 0).filter (fun eb => !fails eb) := by
  rw [soundBlocks, unrecorded, List.filter_filter, List.range_eq_range', Nat.sub_zero]
  apply List.filter_congr
  intro eb _
  exact Bool.and_comm _ _

theorem blocks_requested (mtd : MtdDevInfo) (length : ℕ) :
    mtdOffsetToEbIndex mtd (mtdBlockAlign mtd (mtd.start + length + mtd.ebSize - 1)) -
      mtdOffsetToEbIndex mtd mtd.start = (length + mtd.ebSize - 1) / mtd.ebSize := by
  obtain ⟨k, hk⟩ := mtd.start_dvd
  have hpos := mtd.ebSize_pos
  unfold mtdOffsetToEbIndex mtdBlockAlign
  rw [Nat.mul_div_cancel _ hpos, hk, show mtd.ebSize * k + length + mtd.ebSize - 1 =
    mtd.ebSize * k + (length + mtd.ebSize - 1) by omega, Nat.mul_add_div hpos, Nat.mul_div_cancel_left _ hpos,
    Nat.add_sub_cancel_left]

theorem erase_covers (hf : EraseFaults dev mtd fails) (hp : Plain mtd fs) {length n : ℕ} {st st' : BmState}
    (hsys : st.sysinfo = none) (h : mtdBasicErase dev bm mtd fs length st = (.off n, st')) :
    Covered mtd fails ((length + mtd.ebSize - 1) / mtd.ebSize) st st' := by
  unfold mtdBasicErase at h
  dsimp only at h
  rw [blocks_requested] at h
  simp only [hp.isJffs2, Bool.false_eq_true, false_and, ↓reduceIte] at h
  split_ifs at h with hfit hvalid
  · cases h
  · cases h
  · have hmap : st.map.isSome = true := by
      rw [Bool.not_eq_true', Bool.not_eq_false] at hvalid
      exact hvalid
    have hst := @eraseLoop_st _ bm _ _ _ hf hp _ ((length + mtd.ebSize - 1) / mtd.ebSize) ⟨0, 0, 0, st⟩ hsys
      (Nat.zero_add _)
    rw [h] at hst
    dsimp only at hst
    set ebs := attempted fails ((length + mtd.ebSize - 1) / mtd.ebSize) (unrecorded mtd st 0) with hebs
    have hsub : ebs.Sublist (unrecorded mtd st 0) := (attempted_start fails _ _).sublist
    have hmem (eb : ℕ) (heb : eb ∈ ebs) : eb < mtd.ebCnt ∧ recordedBad mtd st eb = false := by
      obtain ⟨hrange, hgood⟩ := List.mem_filter.mp (hsub.subset heb)
      have := (List.mem_range'_1.mp hrange).2
      exact ⟨by omega, by simpa using hgood⟩
    have hnodup : ebs.Nodup := hsub.nodup (List.Nodup.filter _ List.nodup_range')
    refine ⟨ebs, ?_, hnodup, hmem, ?_⟩
    · rw [soundBlocks_unrecorded, hebs, attempted_filter]
    · rw [hst]
      exact foldl_tried hmap hnodup (fun eb heb => (hmem eb heb).2)

theorem erase_covers_small :
    Covered (smallNand 16 (by decide)) (fun eb => eb == 1) ((5 + 4 - 1) / 4) (blankState [6])
      (mtdBasicErase (erasesFail fun eb => eb == 1) ⟨[], 32⟩ (smallNand 16 (by decide)) fsNormal 5 (blankState [6])).2 :=
  erase_covers (n := 32) (erasesFail_faults _ _) ⟨rfl, rfl, rfl, rfl⟩ rfl (Prod.ext (by decide) rfl)

end LinuxRecovery.EraseCoverage
