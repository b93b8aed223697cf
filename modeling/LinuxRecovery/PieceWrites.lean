import LinuxRecovery.BasicWrite

namespace LinuxRecovery.PieceWrites

open Loops ByteMemory GoodBlocks Libmtd BlockMap Sysinfo BasicWrite

variable (dev : Device) (mtd : MtdDevInfo) (fs : FsKind) (maxSize : ℕ)

structure Paged (c : Cursor) : Prop where
  inPad : c.inPad = false
  length : c.wBuffer.length = c.wLength
  dvd : pagelen mtd fs ∣ c.wLength
  writeoob : c.writeoob = fs.flag.writeoob ∨ pagelen mtd fs = mtd.minIoSize

structure Extends (q : List UInt8) (s t : Cursor) : Prop where
  wOffset : s.wOffset = t.wOffset
  wLength : s.wLength = t.wLength + q.length
  wBuffer : s.wBuffer = t.wBuffer ++ q
  inPad : s.inPad = t.inPad
  writeoob : s.writeoob = t.writeoob ∨ pagelen mtd fs = mtd.minIoSize
  progressSize : s.progressSize = t.progressSize
  st : s.st = t.st
  paged : q ≠ [] → Paged mtd fs t

section Page

variable {mtd fs} {q : List UInt8} {s t : Cursor}

theorem Paged.le (h : Paged mtd fs t) (h0 : t.wLength ≠ 0) : pagelen mtd fs ≤ t.wLength :=
  Nat.le_of_dvd (Nat.pos_of_ne_zero h0) h.dvd

theorem Extends.le (h : Extends mtd fs q s t) (h0 : t.wLength ≠ 0) (hq : q ≠ []) :
    pagelen mtd fs ≤ t.wLength ∧ pagelen mtd fs ≤ s.wLength := by
  have hle := (h.paged hq).le h0
  exact ⟨hle, by rw [h.wLength]; omega⟩

theorem extends_padTail (h : Extends mtd fs q s t) (h0 : t.wLength ≠ 0) :
    Extends mtd fs q (padTail mtd fs s) (padTail mtd fs t) := by
  by_cases hq : q = []
  · subst hq
    have hw := writen_congr mtd fs (s := s) (t := t) (by simpa using h.wLength)
    have hb : s.wBuffer = t.wBuffer := by simpa using h.wBuffer
    have hpad (src : List UInt8) : Extends mtd fs [] { s with wBuffer := src, inPad := true }
        { t with wBuffer := src, inPad := true } :=
      ⟨h.wOffset, h.wLength, by simp, rfl, h.writeoob, h.progressSize, h.st, by simp⟩
    unfold padTail
    dsimp only
    rw [hw, h.inPad, hb]
    split_ifs
    · exact h
    · exact hpad _
    · exact hpad _
  · obtain ⟨hle, hle'⟩ := h.le h0 hq
    rw [padTail_whole mtd fs hle, padTail_whole mtd fs hle']
    exact h

theorem extends_take (h : Extends mtd fs q s t) (h0 : t.wLength ≠ 0) {n : ℕ}
    (hn : n ≤ pagelen mtd fs) : s.wBuffer.take n = t.wBuffer.take n := by
  by_cases hq : q = []
  · simp [h.wBuffer, hq]
  · have hle := (h.paged hq).le h0
    have hl := (h.paged hq).length
    rw [h.wBuffer, List.take_append_of_le_length (by omega)]

theorem writen_extends (h : Extends mtd fs q s t) (h0 : t.wLength ≠ 0) :
    writen mtd fs s = writen mtd fs t := by
  by_cases hq : q = []
  · exact writen_congr mtd fs (by simpa [hq] using h.wLength)
  · obtain ⟨hle, hle'⟩ := h.le h0 hq
    rw [writen_whole mtd fs hle, writen_whole mtd fs hle']

theorem paged_takeOob (h : Paged mtd fs t) (h0 : t.wLength ≠ 0) : Paged mtd fs (takeOob mtd fs t).2 := by
  have hle := minIoSize_le_pagelen mtd fs
  unfold takeOob
  rw [writen_whole mtd fs (h.le h0)]
  split_ifs with hc
  · exact h
  · refine ⟨h.inPad, h.length, h.dvd, ?_⟩
    by_cases hp : pagelen mtd fs = mtd.minIoSize
    · exact .inr hp
    · have hw : t.writeoob = false := by
        cases ht : t.writeoob with
        | false => rfl
        | true => exact absurd ⟨by omega, ht⟩ hc
      exact .inl (hw ▸ h.writeoob.resolve_right hp)

theorem extends_takeOob (h : Extends mtd fs q s t) (h0 : t.wLength ≠ 0) :
    (takeOob mtd fs s).1 = (takeOob mtd fs t).1 ∧
      Extends mtd fs q (takeOob mtd fs s).2 (takeOob mtd fs t).2 := by
  have hw := writen_extends h h0
  have hle := writen_le_pagelen mtd fs t
  have hoob (o : Bool) (ho : (takeOob mtd fs t).2 = { t with writeoob := o }) :
      Extends mtd fs q { s with writeoob := o } { t with writeoob := o } :=
    ⟨h.wOffset, h.wLength, h.wBuffer, h.inPad, .inl rfl, h.progressSize, h.st,
      fun hq => ho ▸ paged_takeOob (h.paged hq) h0⟩
  by_cases hc : mtd.minIoSize < writen mtd fs t
  · have ho : s.writeoob = t.writeoob := h.writeoob.resolve_right (by omega)
    have htk : (s.wBuffer.drop mtd.minIoSize).take (oobsize mtd fs) =
        (t.wBuffer.drop mtd.minIoSize).take (oobsize mtd fs) := by
      rw [List.take_drop, List.take_drop, extends_take h h0]
      exact pagelen_of_oob mtd fs (by omega)
    unfold takeOob at hoob ⊢
    rw [hw, ho, htk]
    split_ifs at hoob ⊢
    · exact ⟨rfl, h⟩
    · exact ⟨rfl, hoob false rfl⟩
  · unfold takeOob at hoob ⊢
    rw [if_neg (by simp [hc])] at hoob
    rw [hw, if_neg (by simp [hc]), if_neg (by simp [hc])]
    exact ⟨rfl, hoob false rfl⟩

theorem mergePage_extends (h : Extends mtd fs q s t) (h0 : t.wLength ≠ 0) :
    mergePage mtd s = mergePage mtd t := by
  unfold mergePage
  rw [extends_take h h0 (minIoSize_le_pagelen mtd fs), h.st, h.wOffset]

theorem extends_prepared (h : Extends mtd fs q s t) (h0 : t.wLength ≠ 0) :
    (takeOob mtd fs (padTail mtd fs s)).1 = (takeOob mtd fs (padTail mtd fs t)).1 ∧
      Extends mtd fs q (prepared mtd fs s) (prepared mtd fs t) := by
  have hl : (padTail mtd fs t).wLength = t.wLength := by rw [padTail_frame]
  exact extends_takeOob (extends_padTail h h0) (hl ▸ h0)

theorem extends_data (h : Extends mtd fs q s t) (h0 : t.wLength ≠ 0) {data : List UInt8}
    (hm : mergePage mtd t = some data) (chip : Chip) :
    Extends mtd fs q (s.sent mtd.minIoSize data chip) (t.sent mtd.minIoSize data chip) := by
  have hle := minIoSize_le_pagelen mtd fs
  refine ⟨h.wOffset, h.wLength, ?_, h.inPad, h.writeoob, h.progressSize,
    by simp [h.st], ?_⟩
  · by_cases hq : q = []
    · simp [h.wBuffer, hq]
    · have hp := (h.paged hq).le h0
      have hl := (h.paged hq).length
      rw [Cursor.sent_wBuffer, Cursor.sent_wBuffer, h.wBuffer,
        List.drop_append_of_le_length (by omega), List.append_assoc]
  · intro hq
    have hp := (h.paged hq).le h0
    have hl := (h.paged hq).length
    refine ⟨(h.paged hq).inPad, ?_, (h.paged hq).dvd, (h.paged hq).writeoob⟩
    rw [Cursor.sent_wBuffer, Cursor.sent_wLength, List.length_append, List.length_drop,
      mergePage_length mtd (by omega) hm]
    omega

theorem extends_advance (h : Extends mtd fs q s t) (h0 : t.wLength ≠ 0) :
    Extends mtd fs q (advance mtd fs s) (advance mtd fs t) := by
  have hw := writen_extends h h0
  have hle := writen_le mtd fs t
  refine ⟨by simp [h.wOffset], ?_, ?_, h.inPad, h.writeoob, by simp [h.progressSize, hw],
    h.st, ?_⟩
  · rw [advance_wLength, advance_wLength, hw, h.wLength]
    omega
  · by_cases hq : q = []
    · simp [h.wBuffer, hq]
    · have hp := (h.paged hq).le h0
      have hl := (h.paged hq).length
      rw [advance_wBuffer, advance_wBuffer, h.wBuffer, List.drop_append_of_le_length (by omega)]
  · intro hq
    have hp := writen_whole mtd fs ((h.paged hq).le h0)
    refine ⟨(h.paged hq).inPad, ?_, ?_, (h.paged hq).writeoob⟩
    · simp [hp, (h.paged hq).length]
    · rw [advance_wLength, hp]
      exact Nat.dvd_sub (h.paged hq).dvd dvd_rfl

end Page

def Together (q : List UInt8) : Step Cursor Outcome → Step Cursor Outcome → Prop
  | .done r, .done r' => r = r'
  | .next s, .next t => Extends mtd fs q s t
  | _, _ => False

section Pass

variable {q : List UInt8} {s t : Cursor}

theorem together_outcome (h : Extends mtd fs q s t) (r : Ret) :
    Together mtd fs q (.done (s.outcome r)) (.done (t.outcome r)) := by
  simp [Together, Cursor.outcome, h.progressSize, h.st]

theorem relocate_together (h : Extends mtd fs q s t) :
    Together mtd fs q (relocate dev mtd fs s) (relocate dev mtd fs t) := by
  unfold relocate
  rw [h.wOffset, h.st]
  split
  · simp [Together, Cursor.outcome, h.progressSize]
  · exact ⟨rfl, h.wLength, h.wBuffer, h.inPad, h.writeoob, h.progressSize, rfl,
      fun hq => ⟨(h.paged hq).inPad, (h.paged hq).length, (h.paged hq).dvd, (h.paged hq).writeoob⟩⟩

theorem programPage_together (h : Extends mtd fs q s t) (h0 : t.wLength ≠ 0) {data : List UInt8}
    (hm : mergePage mtd t = some data) (oob : Option (List UInt8)) :
    Together mtd fs q (programPage dev mtd fs data oob s) (programPage dev mtd fs data oob t) := by
  unfold programPage
  dsimp only
  rw [h.wOffset, h.st]
  have hd := extends_data h h0 hm
  split
  · exact extends_advance (hd _) h0
  · exact relocate_together dev mtd fs (hd _)
  · exact together_outcome mtd fs (hd _) _

theorem writePage_together (h : Extends mtd fs q s t) (h0 : t.wLength ≠ 0) :
    Together mtd fs q (writePage dev mtd fs maxSize s) (writePage dev mtd fs maxSize t) := by
  obtain ⟨ho, hp⟩ := extends_prepared h h0
  have h0' : (prepared mtd fs t).wLength ≠ 0 := by simpa using h0
  rw [writePage_eq, writePage_eq, ho, mergePage_extends hp h0']
  split
  · exact together_outcome mtd fs hp _
  · split
    · exact together_outcome mtd fs hp _
    · rename_i data hd
      exact programPage_together dev mtd fs hp h0' hd _

theorem enterBlock_together (h : Extends mtd fs q s t) (hs : Settled mtd s) (ht : Settled mtd t)
    (hw : t.wOffset < mtd.size) :
    (enterBlock mtd s = none ∧ enterBlock mtd t = none) ∨
      ∃ s' t', enterBlock mtd s = some s' ∧ enterBlock mtd t = some t' ∧ Extends mtd fs q s' t' ∧
        t'.wLength = t.wLength := by
  rw [enterBlock_settled mtd hs (h.wOffset ▸ hw), enterBlock_settled mtd ht hw]
  unfold enterBlock
  simp only [reduceCtorEq, if_false, h.wOffset, h.st]
  have hb (w : ℕ) (b : Option ℕ) : Extends mtd fs q { s with wOffset := w, blockstart := b }
      { t with wOffset := w, blockstart := b } :=
    ⟨rfl, h.wLength, h.wBuffer, h.inPad, h.writeoob, h.progressSize, h.st,
      fun hq => ⟨(h.paged hq).inPad, (h.paged hq).length, (h.paged hq).dvd, (h.paged hq).writeoob⟩⟩
  split_ifs
  · refine .inr ⟨_, _, rfl, rfl, ?_, rfl⟩
    simpa only [h.wOffset, h.st] using hb t.wOffset _
  · exact .inl ⟨rfl, rfl⟩
  · refine .inr ⟨_, _, rfl, rfl, ?_, rfl⟩
    simpa only [h.st] using hb _ _

theorem writeStep_together (h : Extends mtd fs q s t) (hs : Settled mtd s) (ht : Settled mtd t)
    (h0 : t.wLength ≠ 0) :
    Together mtd fs q (writeStep dev mtd fs maxSize s) (writeStep dev mtd fs maxSize t) := by
  have hs0 : s.wLength ≠ 0 := by rw [h.wLength]; omega
  unfold writeStep
  simp only [h0, hs0, h.wOffset, false_or]
  split_ifs with hw
  · split
    · exact together_outcome mtd fs h _
    · exact together_outcome mtd fs h _
  · obtain ⟨h1, h2⟩ | ⟨s', t', h1, h2, he, hl⟩ := enterBlock_together mtd fs h hs ht (by omega)
    · simp only [h1, h2]
      exact together_outcome mtd fs h _
    · simp only [h1, h2]
      exact writePage_together dev mtd fs maxSize he (by omega)

end Pass

theorem run_piece {q : List UInt8} (hq : q ≠ []) {s t : Cursor} (h : Extends mtd fs q s t)
    (hs : Settled mtd s) (ht : Settled mtd t) {total n : ℕ} (hh : Healthy mtd total s)
    (hr : ((writeLoop dev mtd fs maxSize).exec s).ret = .off n)
    (hall : ((writeLoop dev mtd fs maxSize).exec s).progressSize = total) :
    ∃ s', (writeLoop dev mtd fs maxSize).Reaches s s' ∧ Settled mtd s' ∧ Healthy mtd total s' ∧
      s'.wLength = q.length ∧ s'.wBuffer = q ∧ s'.inPad = false ∧
      (s'.writeoob = fs.flag.writeoob ∨ pagelen mtd fs = mtd.minIoSize) ∧
      (writeLoop dev mtd fs maxSize).exec t = s'.outcome (.off (s'.wOffset + mtd.start)) := by
  induction s using (writeLoop dev mtd fs maxSize).induct generalizing t with
  | h s ih =>
    have hp := h.paged hq
    by_cases h0 : t.wLength = 0
    · have hm := writeLoop_off dev mtd fs maxSize hr
      have hb : t.wBuffer = [] := List.length_eq_zero_iff.mp (hp.length.trans h0)
      refine ⟨s, .refl, hs, hh, by simp [h.wLength, h0], by simp [h.wBuffer, hb],
        h.inPad.trans hp.inPad, ?_, ?_⟩
      · rcases h.writeoob with ho | ho
        · exact ho ▸ hp.writeoob
        · exact .inr ho
      · rw [Loop.exec_done _ (writeStep_finish dev mtd fs maxSize hm (.inl h0))]
        simp [Cursor.outcome, h.wOffset, h.progressSize, h.st]
    · have hstep := writeStep_together dev mtd fs maxSize h hs ht h0
      cases hs' : writeStep dev mtd fs maxSize s with
      | done r =>
        rw [Loop.exec_done _ hs'] at hr hall
        obtain ⟨-, -, rfl⟩ := writeStep_off dev mtd fs maxSize hs' hr
        have htot := hh.total
        have hl := h.wLength
        have : s.progressSize = total := hall
        omega
      | next d =>
        rw [hs'] at hstep
        cases ht' : writeStep dev mtd fs maxSize t with
        | done r => rw [ht'] at hstep; exact hstep.elim
        | next d' =>
          rw [ht'] at hstep
          rw [Loop.exec_next _ hs'] at hr hall
          obtain ⟨u, hu, hrest⟩ := ih d hs' hstep (settled_next dev mtd fs maxSize hs hs')
            (settled_next dev mtd fs maxSize ht ht') (healthy_next dev mtd fs maxSize hh hs') hr hall
          rw [Loop.exec_next _ ht']
          exact ⟨u, .head hs' hu, hrest⟩

theorem run_last {s t : Cursor} (h : Extends mtd fs [] s t) (hs : Settled mtd s) (ht : Settled mtd t)
    {total n : ℕ} (hh : Healthy mtd total s)
    (hr : ((writeLoop dev mtd fs maxSize).exec s).ret = .off n)
    (hall : ((writeLoop dev mtd fs maxSize).exec s).progressSize = total) :
    (writeLoop dev mtd fs maxSize).exec t = (writeLoop dev mtd fs maxSize).exec s := by
  induction s using (writeLoop dev mtd fs maxSize).induct generalizing t with
  | h s ih =>
    cases hs' : writeStep dev mtd fs maxSize s with
    | done r =>
      rw [Loop.exec_done (s := s) _ hs'] at hr hall ⊢
      obtain ⟨-, hm, rfl⟩ := writeStep_off dev mtd fs maxSize hs' hr
      have htot := hh.total
      have : s.progressSize = total := hall
      have hl : s.wLength = t.wLength := by simpa using h.wLength
      rw [Loop.exec_done _ (writeStep_finish dev mtd fs maxSize hm (.inl (by omega)))]
      simp [Cursor.outcome, h.wOffset, h.progressSize, h.st]
    | next d =>
      have h0 : t.wLength ≠ 0 := by
        have hl : s.wLength = t.wLength := by simpa using h.wLength
        exact hl ▸ (writeStep_next dev mtd fs maxSize hs').1
      have hstep := writeStep_together dev mtd fs maxSize h hs ht h0
      rw [hs'] at hstep
      cases ht' : writeStep dev mtd fs maxSize t with
      | done r => rw [ht'] at hstep; exact hstep.elim
      | next d' =>
        rw [ht'] at hstep
        rw [Loop.exec_next (s := s) _ hs'] at hr hall ⊢
        rw [Loop.exec_next _ ht']
        exact ih d hs' hstep (settled_next dev mtd fs maxSize hs hs')
          (settled_next dev mtd fs maxSize ht ht') (healthy_next dev mtd fs maxSize hh hs') hr hall

def writePieces : ℕ → ℤ → List UInt8 → List (List UInt8) → BmState → Outcome
  | progressSize, offset, p, [], st => mtdBasicWrite dev mtd fs maxSize progressSize offset p st
  | progressSize, offset, p, p' :: ps, st =>
    match mtdBasicWrite dev mtd fs maxSize progressSize offset p st with
    | ⟨.off n, progressSize, st⟩ => writePieces progressSize n p' ps st
    | r => r

theorem basicWrite_piece {s : Cursor} {total : ℕ} (hh : Healthy mtd total s) (p : List UInt8)
    (hecc : ¬(fs.flag.noecc = true ∧ dev.fileMode ≠ none))
    (hpad : fs.flag.pad = false → pagelen mtd fs ∣ p.length)
    (hfit : s.wOffset + s.wLength / pagelen mtd fs * mtd.minIoSize ≤ mtd.size)
    (hle : p.length ≤ s.wLength) :
    mtdBasicWrite dev mtd fs maxSize s.progressSize ((s.wOffset + mtd.start : ℕ) : ℤ) p s.st =
      (writeLoop dev mtd fs maxSize).exec (writeStart fs s.wOffset s.progressSize p s.st) := by
  have hw : ((s.wOffset + mtd.start : ℕ) : ℤ) - mtd.start = s.wOffset := by omega
  have hmul := Nat.mul_le_mul_right mtd.minIoSize (Nat.div_le_div_right (c := pagelen mtd fs) hle)
  unfold mtdBasicWrite
  dsimp only
  rw [hw, if_neg (by omega), Int.toNat_natCast, if_neg (by simpa using Nat.mod_eq_zero_of_dvd hh.aligned),
    if_neg hecc, if_neg, if_neg, if_neg]
  · simp [mtdBmBlockMapIsValid, hh.mapped]
  · have hk : p.length / pagelen mtd fs * mtd.minIoSize + s.wOffset ≤ mtd.size := by omega
    exact not_lt.mpr (le_sub_iff_add_le.mpr (by exact_mod_cast hk))
  · rintro ⟨h1, h2⟩
    exact h2 (Nat.mod_eq_zero_of_dvd (hpad h1))

theorem writePieces_run {total n : ℕ} (hecc : ¬(fs.flag.noecc = true ∧ dev.fileMode ≠ none))
    (p : List UInt8) (ps : List (List UInt8)) (hne : ∀ x ∈ p :: ps, x ≠ [])
    (hpage : ∀ x ∈ (p :: ps).dropLast, pagelen mtd fs ∣ x.length)
    (hpad : fs.flag.pad = false → ∀ x ∈ p :: ps, pagelen mtd fs ∣ x.length)
    {s : Cursor} (hs : Settled mtd s) (hh : Healthy mtd total s)
    (hl : s.wLength = (p :: ps).flatten.length) (hb : s.wBuffer = (p :: ps).flatten)
    (hi : s.inPad = false) (ho : s.writeoob = fs.flag.writeoob ∨ pagelen mtd fs = mtd.minIoSize)
    (hr : ((writeLoop dev mtd fs maxSize).exec s).ret = .off n)
    (hall : ((writeLoop dev mtd fs maxSize).exec s).progressSize = total) :
    writePieces dev mtd fs maxSize s.progressSize ((s.wOffset + mtd.start : ℕ) : ℤ) p ps s.st =
      (writeLoop dev mtd fs maxSize).exec s := by
  induction ps generalizing p s with
  | nil =>
    have hx : Extends mtd fs [] s (writeStart fs s.wOffset s.progressSize p s.st) :=
      ⟨rfl, by simpa using hl, by simpa using hb, hi, ho, rfl, rfl, fun h => absurd rfl h⟩
    have hlen : s.wLength = p.length := by simpa using hl
    rw [writePieces, basicWrite_piece dev mtd fs maxSize hh p hecc (fun h => hpad h p (by simp))
      (consumed_fits dev mtd fs maxSize hh hr hall) hlen.ge]
    exact run_last dev mtd fs maxSize hx hs (writeStart_settled mtd fs _ _ _ _) hh hr hall
  | cons p' ps ih =>
    have hq : (p' :: ps).flatten ≠ [] := by
      have := hne p' (by simp)
      simp [this]
    have hx : Extends mtd fs (p' :: ps).flatten s (writeStart fs s.wOffset s.progressSize p s.st) :=
      ⟨rfl, by simpa using hl, by simpa using hb, hi, ho, rfl, rfl,
        fun _ => ⟨rfl, rfl, hpage p (by simp), .inl rfl⟩⟩
    obtain ⟨s', hreach, hs', hh', hl', hb', hi', ho', hexec⟩ :=
      run_piece dev mtd fs maxSize hq hx hs (writeStart_settled mtd fs _ _ _ _) hh hr hall
    have heq := (writeLoop dev mtd fs maxSize).exec_reaches hreach
    have hlen : p.length ≤ s.wLength := by simp [hl]
    rw [writePieces, basicWrite_piece dev mtd fs maxSize hh p hecc (fun h => hpad h p (by simp))
      (consumed_fits dev mtd fs maxSize hh hr hall) hlen, hexec]
    simp only [Cursor.outcome]
    rw [heq] at hr hall ⊢
    exact ih p' (fun x hx => hne x (by simp [hx])) (fun x hx => hpage x (by simp [hx]))
      (fun h x hx => hpad h x (by simp [hx])) hs' hh' hl' hb' hi' ho' hr hall

theorem pageless_last {p : List UInt8} {ps : List (List UInt8)} {n : ℕ}
    (hpage : ∀ x ∈ (p :: ps).dropLast, n ∣ x.length) (hall : n ∣ (p :: ps).flatten.length) :
    ∀ x ∈ p :: ps, n ∣ x.length := by
  induction ps generalizing p with
  | nil => simpa using hall
  | cons p' ps ih =>
    have hp : n ∣ p.length := hpage p (by simp)
    have hrest : n ∣ (p' :: ps).flatten.length := by
      rw [List.flatten_cons, List.length_append] at hall
      exact (Nat.dvd_add_right hp).mp hall
    intro x hx
    rcases List.mem_cons.mp hx with rfl | hx
    · exact hp
    · exact ih (fun y hy => hpage y (by simp [hy])) hrest x hx

/-- Whatever the driver answers, the pieces leave the state and the offset of the single call. -/
theorem writePieces_eq_write {progressSize n : ℕ} {offset : ℤ} (p : List UInt8) (ps : List (List UInt8))
    (st : BmState) (hne : ∀ x ∈ p :: ps, x ≠ [])
    (hpage : ∀ x ∈ (p :: ps).dropLast, pagelen mtd fs ∣ x.length)
    (hr : (mtdBasicWrite dev mtd fs maxSize progressSize offset (p :: ps).flatten st).ret = .off n)
    (hall : (mtdBasicWrite dev mtd fs maxSize progressSize offset (p :: ps).flatten st).progressSize =
      progressSize + (p :: ps).flatten.length) :
    writePieces dev mtd fs maxSize progressSize offset p ps st =
      mtdBasicWrite dev mtd fs maxSize progressSize offset (p :: ps).flatten st := by
  obtain ⟨w, rfl, hh, hecc, hpad, heq⟩ := basicWrite_off dev mtd fs maxSize hr
  rw [heq] at hr hall ⊢
  exact writePieces_run dev mtd fs maxSize hecc p ps hne hpage (fun h => pageless_last hpage (hpad h))
    (writeStart_settled mtd fs _ _ _ _) hh rfl rfl rfl (.inl rfl) hr hall

theorem writePieces_eq_write_small :
    writePieces (failsAt [3]) (smallNand 0 (by decide)) fsNormal 1 0 0 [1, 2] [[3, 4, 5, 6], [7]]
        (blankState [1]) =
      mtdBasicWrite (failsAt [3]) (smallNand 0 (by decide)) fsNormal 1 0 0 [1, 2, 3, 4, 5, 6, 7]
        (blankState [1]) :=
  writePieces_eq_write _ _ _ _ (n := 16) [1, 2] [[3, 4, 5, 6], [7]] _ (by decide) (by decide)
    (by decide) (by decide)

end LinuxRecovery.PieceWrites
