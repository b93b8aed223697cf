import LinuxRecovery.EraseCoverage
import LinuxRecovery.UbiPeb
import LinuxRecovery.VolumeSize

namespace LinuxRecovery.LayoutBypass

open Loops ByteMemory Libmtd BlockMap Ubigen UbiPrepare UbiPeb
open EraseCoverage (Inside inside_unique erasesFail)
open VolumeSize (pagedNand)

def PebFails (dev : Device) (mtd : MtdDevInfo) (eb : ℕ) (calls : List DevCall) : Prop :=
  let erased := calls ++ [.erase mtd.start eb]
  let programmed := erased ++ [.write mtd.start eb 0 (List.replicate mtd.ebSize 0) none .placeOob]
  dev.reply erased = some .eio ∨ dev.reply erased = none ∧ (dev.reply programmed = some .eio ∨
    dev.reply programmed = none ∧ dev.reply (programmed ++ [.erase mtd.start eb]) = some .eio)

/-- The PEBs in `fails` fail when they are tried, all others are served, and every PEB can be marked bad. -/
structure PebFaults (dev : Device) (mtd : MtdDevInfo) (fails : ℕ → Bool) : Prop where
  erase : ∀ eb, fails eb = false → ∀ calls, dev.reply (calls ++ [.erase mtd.start eb]) = none
  write : ∀ eb, fails eb = false → ∀ calls offs data oob mode,
    dev.reply (calls ++ [.write mtd.start eb offs data oob mode]) = none
  faulty : ∀ eb, fails eb = true → ∀ calls, PebFails dev mtd eb calls
  markBad : ∀ calls eb, dev.reply (calls ++ [.markBad mtd.start eb]) = none

variable {dev : Device} {mtd : MtdDevInfo} {fails : ℕ → Bool}

def OnlyPeb (mtd : MtdDevInfo) (eb : ℕ) (s s' : Chip) : Prop := ∀ x, ¬Inside mtd eb x → s'.mem x = s.mem x

section Chips

variable {eb : ℕ} {s : Chip}

theorem onlyPeb_refl (s : Chip) : OnlyPeb mtd eb s s := fun _ _ => rfl

theorem OnlyPeb.trans {s' s'' : Chip} (h : OnlyPeb mtd eb s s') (h' : OnlyPeb mtd eb s' s'') : OnlyPeb mtd eb s s'' :=
  fun x hx => (h' x hx).trans (h x hx)

theorem fill_onlyPeb {offs n : ℕ} (v : ℕ → UInt8) (calls : List DevCall) (h : offs + n ≤ mtd.ebSize) :
    OnlyPeb mtd eb s ⟨fillBytes s.mem (address mtd eb offs) n v, calls⟩ := by
  intro x hx
  apply fillBytes_outside
  unfold Inside address at *
  omega

theorem mtdErase_onlyPeb (eb : ℕ) (s : Chip) : OnlyPeb mtd eb s (mtdErase dev mtd eb s).2 := by
  unfold mtdErase
  split_ifs
  · exact onlyPeb_refl s
  · dsimp only
    split <;> exact fill_onlyPeb _ _ (by omega)

theorem mtdWrite_onlyPeb (eb offs : ℕ) (data : List UInt8) (oob : Option (List UInt8)) (mode : MtdOps) (s : Chip) :
    OnlyPeb mtd eb s (mtdWrite dev mtd eb offs data oob mode s).2 := by
  unfold mtdWrite
  split_ifs with h1 h2 h3 h4
  · exact onlyPeb_refl s
  · exact onlyPeb_refl s
  · exact onlyPeb_refl s
  · exact onlyPeb_refl s
  · dsimp only
    split
    · intro x hx
      apply writeBytes_outside
      unfold Inside address at *
      omega
    · exact fill_onlyPeb _ _ (by omega)

theorem mtdRead_mem (eb offs len : ℕ) (s : Chip) : (mtdRead dev mtd eb offs len s).2.2.mem = s.mem := by
  unfold mtdRead
  split_ifs <;> rfl

theorem mtdMarkBad_mem (eb : ℕ) (s : Chip) : (mtdMarkBad dev mtd eb s).2.mem = s.mem := by
  unfold mtdMarkBad
  split_ifs <;> rfl

theorem mtdTorture_onlyPeb (eb : ℕ) (s : Chip) : OnlyPeb mtd eb s (mtdTorture dev mtd eb s) := by
  apply mtdTorture_rel
  · exact fun _ _ _ => OnlyPeb.trans
  · exact mtdErase_onlyPeb eb
  · intro s x _
    rw [mtdRead_mem]
  · exact fun data => mtdWrite_onlyPeb eb 0 data none .placeOob
  · exact onlyPeb_refl

theorem mtdErase_replied (hv : eb < mtd.ebCnt) (s : Chip) :
    ∃ s', mtdErase dev mtd eb s = (dev.reply (s.calls ++ [.erase mtd.start eb]), s') ∧
      s'.calls = s.calls ++ [.erase mtd.start eb] ∧
      (dev.reply (s.calls ++ [.erase mtd.start eb]) = none → ∀ x, Inside mtd eb x → s'.mem x = 0xFF) := by
  have hvalid : mtdValidEraseBlock mtd eb = true := decide_eq_true hv
  cases hr : dev.reply (s.calls ++ [.erase mtd.start eb]) with
  | some e =>
    refine ⟨⟨fillBytes s.mem (address mtd eb 0) mtd.ebSize (dev.junk (s.calls ++ [.erase mtd.start eb])),
      s.calls ++ [.erase mtd.start eb]⟩, by simp [mtdErase, hvalid, hr], rfl, fun hn => by cases hn⟩
  | none =>
    refine ⟨⟨fillBytes s.mem (address mtd eb 0) mtd.ebSize (fun _ => 0xFF), s.calls ++ [.erase mtd.start eb]⟩,
      by simp [mtdErase, hvalid, hr], rfl, fun _ x hx => ?_⟩
    exact fillBytes_inside s.mem (address mtd eb 0) mtd.ebSize x (fun _ => 0xFF) hx

theorem mtdWrite_replied (hv : eb < mtd.ebCnt) (s : Chip) :
    ∃ s', mtdWrite dev mtd eb 0 (List.replicate mtd.ebSize 0) none .placeOob s =
        (dev.reply (s.calls ++ [.write mtd.start eb 0 (List.replicate mtd.ebSize 0) none .placeOob]), s') ∧
      s'.calls = s.calls ++ [.write mtd.start eb 0 (List.replicate mtd.ebSize 0) none .placeOob] := by
  have hvalid : mtdValidEraseBlock mtd eb = true := decide_eq_true hv
  have hdvd : mtd.ebSize % mtd.subpageSize = 0 := Nat.mod_eq_zero_of_dvd (mtd.subpageSize_dvd.trans mtd.minIoSize_dvd)
  unfold mtdWrite
  simp only [hvalid, List.length_replicate, Nat.zero_add, Nat.zero_mod, hdvd, Bool.not_true, Bool.false_eq_true,
    ↓reduceIte, lt_irrefl, ne_eq, not_true_eq_false]
  cases dev.reply (s.calls ++ [.write mtd.start eb 0 (List.replicate mtd.ebSize 0) none .placeOob]) with
  | none => exact ⟨_, rfl, rfl⟩
  | some e => exact ⟨_, rfl, rfl⟩

end Chips

section Peb

variable {eb : ℕ} {st : UbiState}

def retired (eb : ℕ) (st : UbiState) : UbiState :=
  { st with
    ubi := { st.ubi with si := scanSetBad st.ubi.si eb }
    prevBb := some eb
    consecutiveBadBlocks := if eb = st.prevBb.getD eb + 1 then st.consecutiveBadBlocks + 1 else 1 }

theorem markBad_served (hf : PebFaults dev mtd fails) (hbb : mtd.bbAllowed = true) (hv : eb < mtd.ebCnt)
    (st : UbiState) : ∃ chip, chip.mem = st.mem ∧ markBad dev mtd eb st =
      if (retired eb st).consecutiveBadBlocks < maxConsecutiveBadBlocks then .bad (retired eb (st.withChip chip))
      else .fatal (retired eb (st.withChip chip)) := by
  have hvalid : mtdValidEraseBlock mtd eb = true := decide_eq_true hv
  refine ⟨⟨st.mem, st.calls ++ [.markBad mtd.start eb]⟩, rfl, ?_⟩
  have hmark : mtdMarkBad dev mtd eb st.toChip = (none, ⟨st.mem, st.calls ++ [.markBad mtd.start eb]⟩) := by
    simp [mtdMarkBad, hbb, hvalid, hf.markBad]
  have hcheck (s : UbiState) : consecutiveBadCheck eb { s with ubi := { s.ubi with si := scanSetBad s.ubi.si eb } } =
      (decide ((retired eb s).consecutiveBadBlocks < maxConsecutiveBadBlocks), retired eb s) := rfl
  have hsame (chip : Chip) : (retired eb (st.withChip chip)).consecutiveBadBlocks = (retired eb st).consecutiveBadBlocks := rfl
  rw [markBad, hbb, hmark]
  simp only [Bool.not_true, Bool.false_eq_true, ↓reduceIte]
  rw [← withChip_ubi st ⟨st.mem, st.calls ++ [.markBad mtd.start eb]⟩, hcheck, hsame]
  by_cases hlt : (retired eb st).consecutiveBadBlocks < maxConsecutiveBadBlocks
  · rw [if_pos hlt, decide_eq_true hlt]
  · rw [if_neg hlt, decide_eq_false hlt]

theorem bypassPeb_served (hf : PebFaults dev mtd fails) (hv : eb < mtd.ebCnt) (hs : fails eb = false)
    (hpeb : st.ubi.ui.pebSize = mtd.ebSize) :
    ∃ chip, bypassPeb dev mtd eb st = .ok (st.withChip chip) ∧ OnlyPeb mtd eb st.toChip chip ∧
      ∀ x, Inside mtd eb x → chip.mem x = 0xFF := by
  obtain ⟨s₁, h1, -, -⟩ := @mtdErase_replied dev _ _ hv st.toChip
  obtain ⟨s₂, h2, -⟩ := @mtdWrite_replied dev _ _ hv s₁
  obtain ⟨s₃, h3, -, hblank⟩ := @mtdErase_replied dev _ _ hv s₂
  have o1 := @mtdErase_onlyPeb dev mtd eb st.toChip
  have o2 := @mtdWrite_onlyPeb dev mtd eb 0 (List.replicate mtd.ebSize 0) none .placeOob s₁
  have o3 := @mtdErase_onlyPeb dev mtd eb s₂
  rw [h1] at o1
  rw [h2] at o2
  rw [h3] at o3
  rw [hf.erase eb hs] at h1 h3 hblank
  rw [hf.write eb hs] at h2
  refine ⟨s₃, ?_, o1.trans (o2.trans o3), hblank rfl⟩
  rw [bypassPeb, erasePeb, h1]
  simp only [PebResult.andThen, withChip_ubi, hpeb, programPeb, withChip_toChip, h2, erasePeb, h3]
  rfl

theorem bypassPeb_faulty (hf : PebFaults dev mtd fails) (hv : eb < mtd.ebCnt) (hs : fails eb = true)
    (hpeb : st.ubi.ui.pebSize = mtd.ebSize) :
    ∃ chip, OnlyPeb mtd eb st.toChip chip ∧ bypassPeb dev mtd eb st = markBad dev mtd eb (st.withChip chip) := by
  obtain ⟨s₁, h1, c1, -⟩ := @mtdErase_replied dev _ _ hv st.toChip
  obtain ⟨s₂, h2, c2⟩ := @mtdWrite_replied dev _ _ hv s₁
  obtain ⟨s₃, h3, c3, -⟩ := @mtdErase_replied dev _ _ hv s₂
  have o1 := @mtdErase_onlyPeb dev mtd eb st.toChip
  have o2 := @mtdWrite_onlyPeb dev mtd eb 0 (List.replicate mtd.ebSize 0) none .placeOob s₁
  have o3 := @mtdErase_onlyPeb dev mtd eb s₂
  rw [h1] at o1
  rw [h2] at o2
  rw [h3] at o3
  rw [c1] at c2 h2
  rw [c2] at c3 h3
  rcases hf.faulty eb hs st.calls with r1 | ⟨r1, r2 | ⟨r2, r3⟩⟩
  · rw [r1] at h1
    refine ⟨s₁, o1, ?_⟩
    rw [bypassPeb, erasePeb, h1]
    exact markBad_andThen dev mtd eb _ _
  · rw [r1] at h1
    rw [r2] at h2
    refine ⟨mtdTorture dev mtd eb s₂, o1.trans (o2.trans (mtdTorture_onlyPeb eb s₂)), ?_⟩
    rw [bypassPeb, erasePeb, h1]
    rw [PebResult.andThen, withChip_ubi, hpeb, programPeb, withChip_toChip, h2]
    exact markBad_andThen dev mtd eb _ _
  · rw [r1] at h1
    rw [r2] at h2
    rw [r3] at h3
    refine ⟨s₃, o1.trans (o2.trans o3), ?_⟩
    rw [bypassPeb, erasePeb, h1]
    simp only [PebResult.andThen, withChip_ubi, hpeb, programPeb, withChip_toChip, h2, erasePeb, h3]
    rfl

end Peb

def Ready (mtd : MtdDevInfo) (st : UbiState) (eb : ℕ) : Prop :=
  st.isEbBad eb = false ∧ ∀ x, Inside mtd eb x → st.mem x = 0xFF

def usable (fails : ℕ → Bool) (st : UbiState) (eb : ℕ) : Bool := !st.isEbBad eb && !fails eb

def failing (fails : ℕ → Bool) (st : UbiState) (eb : ℕ) : Bool := !st.isEbBad eb && fails eb

def pick (test : ℕ → Bool) (a e : ℕ) : List ℕ := (List.range' a (e - a)).filter test

section Picks

variable {test : ℕ → Bool} {a e : ℕ}

theorem pick_empty (test : ℕ → Bool) (h : e ≤ a) : pick test a e = [] := by
  rw [pick, Nat.sub_eq_zero_of_le h]
  rfl

theorem pick_cons (test : ℕ → Bool) (h : a < e) :
    pick test a e = if test a = true then a :: pick test (a + 1) e else pick test (a + 1) e := by
  have hrange : List.range' a (e - a) = a :: List.range' (a + 1) (e - (a + 1)) := by
    rw [← List.range'_succ]
    congr 1
    omega
  rw [pick, hrange, List.filter_cons]
  rfl

theorem pick_congr {test' : ℕ → Bool} (h : ∀ b, a ≤ b → test' b = test b) : pick test' a e = pick test a e := by
  apply List.filter_congr
  intro b hb
  exact h b (List.mem_range'_1.mp hb).1

end Picks

structure PebTried (mtd : MtdDevInfo) (fails : ℕ → Bool) (eb : ℕ) (st st' : UbiState) : Prop where
  ready : usable fails st eb = true → Ready mtd st' eb
  bad : usable fails st eb = false → st'.isEbBad eb = true
  others : ∀ b, b ≠ eb → st'.isEbBad b = st.isEbBad b
  mem : OnlyPeb mtd eb st.toChip st'.toChip
  ui : st'.ubi.ui = st.ubi.ui

structure Surveyed (mtd : MtdDevInfo) (fails : ℕ → Bool) (a e : ℕ) (st st' : UbiState) : Prop where
  ready : ∀ b, a ≤ b → b < e → usable fails st b = true → Ready mtd st' b
  bad : ∀ b, a ≤ b → b < e → usable fails st b = false → st'.isEbBad b = true
  front : ∀ b < a, st'.isEbBad b = st.isEbBad b ∧ ∀ x, Inside mtd b x → st'.mem x = st.mem x

section Survey

variable {a e eb : ℕ} {st st' st'' : UbiState}

theorem surveyed_empty (h : st'.toChip = st.toChip) (hsi : st'.ubi.si = st.ubi.si) : Surveyed mtd fails a a st st' := by
  refine ⟨fun b h1 h2 => by omega, fun b h1 h2 => by omega, fun b _ => ⟨?_, fun x _ => by rw [h]⟩⟩
  rw [UbiState.isEbBad, hsi]
  rfl

theorem PebTried.usable_later (h : PebTried mtd fails a st st') {b : ℕ} (hb : a + 1 ≤ b) :
    usable fails st' b = usable fails st b := by
  rw [usable, usable, h.others b (by omega)]

theorem PebTried.failing_later (h : PebTried mtd fails a st st') {b : ℕ} (hb : a + 1 ≤ b) :
    failing fails st' b = failing fails st b := by
  rw [failing, failing, h.others b (by omega)]

theorem Surveyed.cons (h : PebTried mtd fails a st st') (hrest : Surveyed mtd fails (a + 1) e st' st'') :
    Surveyed mtd fails a e st st'' := by
  obtain ⟨hbad, hmem⟩ := hrest.front a (Nat.lt_succ_self a)
  refine ⟨?_, ?_, ?_⟩
  · intro b h1 h2 hu
    rcases Nat.eq_or_lt_of_le h1 with rfl | h1
    · obtain ⟨hgood, hblank⟩ := h.ready hu
      exact ⟨hbad.trans hgood, fun x hx => (hmem x hx).trans (hblank x hx)⟩
    · exact hrest.ready b h1 h2 ((h.usable_later h1).trans hu)
  · intro b h1 h2 hu
    rcases Nat.eq_or_lt_of_le h1 with rfl | h1
    · exact hbad.trans (h.bad hu)
    · exact hrest.bad b h1 h2 ((h.usable_later h1).trans hu)
  · intro b hb
    obtain ⟨g1, g2⟩ := hrest.front b (by omega)
    refine ⟨g1.trans (h.others b (by omega)), fun x hx => (g2 x hx).trans (h.mem x ?_)⟩
    intro hin
    have := inside_unique hx hin
    omega

theorem tried_recorded (hbad : st.isEbBad eb = true) : PebTried mtd fails eb st st :=
  ⟨fun hu => by simp [usable, hbad] at hu, fun _ => hbad, fun _ _ => rfl, onlyPeb_refl _, rfl⟩

theorem tried_served {chip : Chip} (hgood : st.isEbBad eb = false) (hs : fails eb = false)
    (hmem : OnlyPeb mtd eb st.toChip chip) (hblank : ∀ x, Inside mtd eb x → chip.mem x = 0xFF) :
    PebTried mtd fails eb st (st.withChip chip) :=
  ⟨fun _ => ⟨hgood, hblank⟩, fun hu => by simp [usable, hgood, hs] at hu, fun _ _ => rfl, hmem, rfl⟩

theorem tried_faulty {chip chip' : Chip} (hs : fails eb = true) (hmem : OnlyPeb mtd eb st.toChip chip)
    (hmem' : chip'.mem = chip.mem) : PebTried mtd fails eb st (retired eb (st.withChip chip')) := by
  refine ⟨fun hu => by simp [usable, hs] at hu, fun _ => ?_, fun b hb => ?_, fun x hx => ?_, rfl⟩
  · simp [UbiState.isEbBad, retired, scanSetBad]
  · simp [UbiState.isEbBad, retired, scanSetBad, hb]
  · exact (congrFun hmem' x).trans (hmem x hx)

end Survey

def MarksAll (mtd : MtdDevInfo) (fails : ℕ → Bool) (eb : ℕ) (st : UbiState) : Prop :=
  (pick (failing fails st) eb mtd.ebCnt ≠ [] → mtd.bbAllowed = true) ∧
    limitHit st.prevBb st.consecutiveBadBlocks (pick (failing fails st) eb mtd.ebCnt) = false

section Walk

variable (hf : PebFaults dev mtd fails) {c : BypassCursor} (hv : c.eb < mtd.ebCnt)
  (hpeb : c.st.ubi.ui.pebSize = mtd.ebSize)

theorem bypassStep_end (hv : mtd.ebCnt ≤ c.eb) : bypassStep dev mtd c = .done (bypassExit mtd c) := if_pos hv

include hv

theorem bypassStep_recorded (hbad : c.st.isEbBad c.eb = true) :
    bypassStep dev mtd c = .next { c with eb := c.eb + 1 } := by
  rw [bypassStep, if_neg (by omega), if_pos hbad]

include hf hpeb

theorem bypassStep_served (hgood : c.st.isEbBad c.eb = false) (hs : fails c.eb = false) :
    ∃ st', PebTried mtd fails c.eb c.st st' ∧ st'.prevBb = c.st.prevBb ∧
      st'.consecutiveBadBlocks = c.st.consecutiveBadBlocks ∧ bypassStep dev mtd c =
        if ubiLayoutVolumeEbs ≤ c.validEb + 1 then .done (bypassExit mtd ⟨c.eb + 1, c.validEb + 1, st'⟩)
        else .next ⟨c.eb + 1, c.validEb + 1, st'⟩ := by
  obtain ⟨chip, hrun, hmem, hblank⟩ := bypassPeb_served hf hv hs hpeb
  refine ⟨c.st.withChip chip, tried_served hgood hs hmem hblank, rfl, rfl, ?_⟩
  rw [bypassStep, if_neg (by omega), if_neg (by simp [hgood]), hrun]

theorem bypassStep_faulty (hgood : c.st.isEbBad c.eb = false) (hs : fails c.eb = true) :
    (mtd.bbAllowed = false ∧ ∃ st', bypassStep dev mtd c = .done (none, st')) ∨
      mtd.bbAllowed = true ∧ ∃ st', PebTried mtd fails c.eb c.st st' ∧ st'.prevBb = some c.eb ∧
        st'.consecutiveBadBlocks =
          (if c.eb = c.st.prevBb.getD c.eb + 1 then c.st.consecutiveBadBlocks + 1 else 1) ∧
        bypassStep dev mtd c = if st'.consecutiveBadBlocks < maxConsecutiveBadBlocks
          then .next ⟨c.eb + 1, c.validEb, st'⟩ else .done (none, st') := by
  obtain ⟨chip, hmem, hrun⟩ := bypassPeb_faulty hf hv hs hpeb
  have hnot : ¬c.st.isEbBad c.eb = true := by simp [hgood]
  cases hbb : mtd.bbAllowed with
  | false =>
    refine .inl ⟨rfl, c.st.withChip chip, ?_⟩
    have hfatal : markBad dev mtd c.eb (c.st.withChip chip) = .fatal (c.st.withChip chip) := by
      simp [markBad, hbb]
    rw [bypassStep, if_neg (by omega), if_neg hnot, hrun, hfatal]
  | true =>
    obtain ⟨chip', hmem', hmark⟩ := markBad_served hf hbb hv (c.st.withChip chip)
    refine .inr ⟨rfl, retired c.eb (c.st.withChip chip'), tried_faulty hs hmem hmem', rfl, rfl, ?_⟩
    have hsame : (retired c.eb (c.st.withChip chip)).consecutiveBadBlocks =
        (retired c.eb (c.st.withChip chip')).consecutiveBadBlocks := rfl
    rw [bypassStep, if_neg (by omega), if_neg hnot, hrun, hmark, hsame]
    split_ifs <;> rfl

end Walk

def count (fails : ℕ → Bool) (st : UbiState) (a e : ℕ) : ℕ := (pick (usable fails st) a e).length

section Run

variable {a e : ℕ} {st st' : UbiState}

theorem count_empty (h : e ≤ a) : count fails st a e = 0 := by
  rw [count, pick_empty _ h]
  rfl

theorem PebTried.count_cons (h : PebTried mtd fails a st st') (hae : a < e) :
    count fails st a e = count fails st' (a + 1) e + if usable fails st a = true then 1 else 0 := by
  rw [count, count, pick_cons _ hae, pick_congr (fun b hb => h.usable_later hb)]
  split_ifs <;> rfl

theorem PebTried.pick_failing (h : PebTried mtd fails a st st') (hae : a < e) :
    pick (failing fails st) a e = if failing fails st a = true then a :: pick (failing fails st') (a + 1) e
      else pick (failing fails st') (a + 1) e := by
  rw [pick_cons _ hae, pick_congr (fun b hb => h.failing_later hb)]

theorem PebTried.marksAll_kept (h : PebTried mtd fails a st st') (ha : a < mtd.ebCnt)
    (hfail : failing fails st a = false) (hprev : st'.prevBb = st.prevBb)
    (hn : st'.consecutiveBadBlocks = st.consecutiveBadBlocks) :
    MarksAll mtd fails a st ↔ MarksAll mtd fails (a + 1) st' := by
  unfold MarksAll
  rw [h.pick_failing ha, hfail, hprev, hn]
  rfl

theorem PebTried.marksAll_faulty (h : PebTried mtd fails a st st') (ha : a < mtd.ebCnt)
    (hfail : failing fails st a = true) (hbb : mtd.bbAllowed = true) (hprev : st'.prevBb = some a)
    (hn : st'.consecutiveBadBlocks = if a = st.prevBb.getD a + 1 then st.consecutiveBadBlocks + 1 else 1) :
    MarksAll mtd fails a st ↔ st'.consecutiveBadBlocks < maxConsecutiveBadBlocks ∧ MarksAll mtd fails (a + 1) st' := by
  unfold MarksAll
  rw [h.pick_failing ha, hfail, hprev]
  simp only [↓reduceIte, limitHit, ← hn, hbb, implies_true, true_and, Bool.or_eq_false_iff, decide_eq_false_iff_not,
    not_le]

structure Walked (mtd : MtdDevInfo) (fails : ℕ → Bool) (c : BypassCursor) (r : Option ℕ × UbiState) : Prop where
  found : ∀ e, r.1 = some e → c.eb ≤ e ∧ e ≤ mtd.ebCnt ∧ Surveyed mtd fails c.eb e c.st r.2 ∧
    (count fails c.st c.eb e + c.validEb = ubiLayoutVolumeEbs ∨
      count fails c.st c.eb mtd.ebCnt + c.validEb < ubiLayoutVolumeEbs)
  few : count fails c.st c.eb mtd.ebCnt + c.validEb < ubiLayoutVolumeEbs →
    (r.1 = some mtd.ebCnt ∧ MarksAll mtd fails c.eb c.st) ∨ r.1 = none ∧ ¬MarksAll mtd fails c.eb c.st

theorem walked_step {c : BypassCursor} {r : Option ℕ × UbiState} {n : ℕ} (hv : c.eb < mtd.ebCnt)
    (h : PebTried mtd fails c.eb c.st st') (hn : n = c.validEb + if usable fails c.st c.eb = true then 1 else 0)
    (hmarks : MarksAll mtd fails c.eb c.st ↔ MarksAll mtd fails (c.eb + 1) st')
    (hrest : Walked mtd fails ⟨c.eb + 1, n, st'⟩ r) : Walked mtd fails c r := by
  constructor
  · intro e he
    obtain ⟨h1, h2, hsurvey, hcount⟩ := hrest.found e he
    dsimp only at h1 hsurvey hcount
    refine ⟨by omega, h2, hsurvey.cons h, ?_⟩
    rw [h.count_cons (show c.eb < e by omega), h.count_cons hv]
    omega
  · intro hcount
    rw [h.count_cons hv] at hcount
    rw [hmarks]
    exact hrest.few (by dsimp only; omega)

theorem bypassLoop_walked (hf : PebFaults dev mtd fails) (c : BypassCursor) (hle : c.eb ≤ mtd.ebCnt)
    (hvalid : c.validEb < ubiLayoutVolumeEbs) (hpeb : c.st.ubi.ui.pebSize = mtd.ebSize) :
    Walked mtd fails c ((bypassLoop dev mtd).exec c) := by
  induction c using (bypassLoop dev mtd).induct with
  | h c ih =>
    rcases Nat.eq_or_lt_of_le hle with heq | hv
    · -- the exit lets the end of the partition through
      have hexit : bypassExit mtd c = (some c.eb, { c.st with ubi := { c.st.ubi with layoutVolumeStartEb := c.eb } }) :=
        if_neg (by omega)
      rw [Loop.exec_done _ (@bypassStep_end dev _ _ (by omega)), hexit]
      constructor
      · rintro e ⟨⟩
        exact ⟨le_rfl, hle, surveyed_empty rfl rfl, .inr (by rw [count_empty (by omega)]; omega)⟩
      · intro _
        refine .inl ⟨by rw [heq], ?_⟩
        unfold MarksAll
        rw [pick_empty _ (by omega)]
        exact ⟨fun h => absurd rfl h, rfl⟩
    · cases hbad : c.st.isEbBad c.eb with
      | true =>
        have htried : PebTried mtd fails c.eb c.st c.st := tried_recorded hbad
        have hstep : (bypassLoop dev mtd).step c = .next { c with eb := c.eb + 1 } := bypassStep_recorded hv hbad
        rw [Loop.exec_next _ hstep]
        refine walked_step (n := c.validEb) hv htried (by simp [usable, hbad]) ?_ (ih _ hstep hv hvalid hpeb)
        exact htried.marksAll_kept hv (by simp [failing, hbad]) rfl rfl
      | false =>
        cases hs : fails c.eb with
        | false =>
          obtain ⟨st', htried, hprev, hn, hstep⟩ := bypassStep_served hf hv hpeb hbad hs
          have huse : usable fails c.st c.eb = true := by simp [usable, hbad, hs]
          have hmarks := htried.marksAll_kept hv (by simp [failing, hs]) hprev hn
          by_cases hlast : ubiLayoutVolumeEbs ≤ c.validEb + 1
          · rw [if_pos hlast] at hstep
            have hexit : bypassExit mtd ⟨c.eb + 1, c.validEb + 1, st'⟩ = (some (c.eb + 1),
                { st' with ubi := { st'.ubi with layoutVolumeStartEb := c.eb + 1 } }) := if_neg (by dsimp only; omega)
            rw [Loop.exec_done (bypassLoop dev mtd) hstep, hexit]
            have hsurvey : Surveyed mtd fails (c.eb + 1) (c.eb + 1) st'
                { st' with ubi := { st'.ubi with layoutVolumeStartEb := c.eb + 1 } } := surveyed_empty rfl rfl
            constructor
            · rintro e ⟨⟩
              refine ⟨by omega, hv, hsurvey.cons htried, .inl ?_⟩
              rw [htried.count_cons (Nat.lt_succ_self _), count_empty le_rfl, if_pos huse]
              omega
            · intro hcount
              rw [htried.count_cons hv, if_pos huse] at hcount
              omega
          · rw [if_neg hlast] at hstep
            rw [Loop.exec_next (bypassLoop dev mtd) hstep]
            refine walked_step hv htried (by rw [if_pos huse]) hmarks (ih _ hstep hv ?_ ?_)
            · exact Nat.lt_of_not_le hlast
            · exact (congrArg UbigenInfo.pebSize htried.ui).trans hpeb
        | true =>
          have huse : usable fails c.st c.eb = false := by simp [usable, hs]
          have hfail : failing fails c.st c.eb = true := by simp [failing, hbad, hs]
          rcases bypassStep_faulty hf hv hpeb hbad hs with ⟨hbb, st', hstep⟩ | ⟨hbb, st', htried, hprev, hn, hstep⟩
          · rw [Loop.exec_done (bypassLoop dev mtd) hstep]
            refine ⟨fun e he => (by cases he), fun _ => .inr ⟨rfl, fun hmarks => ?_⟩⟩
            have hallowed := hmarks.1 (by rw [pick_cons _ hv, if_pos hfail]; exact List.cons_ne_nil _ _)
            rw [hbb] at hallowed
            cases hallowed
          · have hmarks := htried.marksAll_faulty hv hfail hbb hprev hn
            by_cases hlimit : st'.consecutiveBadBlocks < maxConsecutiveBadBlocks
            · rw [if_pos hlimit] at hstep
              rw [Loop.exec_next (bypassLoop dev mtd) hstep]
              refine walked_step hv htried (by simp [huse]) (by rw [hmarks, and_iff_right hlimit]) (ih _ hstep hv hvalid ?_)
              exact (congrArg UbigenInfo.pebSize htried.ui).trans hpeb
            · rw [if_neg hlimit] at hstep
              rw [Loop.exec_done (bypassLoop dev mtd) hstep]
              exact ⟨fun e he => (by cases he), fun _ => .inr ⟨rfl, fun h => hlimit (hmarks.mp h).1⟩⟩

end Run

def Reserved (mtd : MtdDevInfo) (start e : ℕ) (st : UbiState) : Prop :=
  ∃ b b', start ≤ b ∧ b < b' ∧ b' < e ∧ e ≤ mtd.ebCnt ∧ Ready mtd st b ∧ Ready mtd st b' ∧
    ∀ i, start ≤ i → i < e → i ≠ b → i ≠ b' → st.isEbBad i = true

def Reserves (dev : Device) (mtd : MtdDevInfo) (fails : ℕ → Bool) (start : ℕ) (st : UbiState) : Prop :=
  (∀ e st', ubiBypassLayoutVol dev mtd start st = (some e, st') → Reserved mtd start e st') ∧
    (count fails st start mtd.ebCnt < ubiLayoutVolumeEbs → (ubiBypassLayoutVol dev mtd start st).1 = none)

/-- Two PEBs are usable from the start on, unless the walk gives up or starts behind the partition. -/
def Enough (mtd : MtdDevInfo) (fails : ℕ → Bool) (start : ℕ) (st : UbiState) : Prop :=
  ubiLayoutVolumeEbs ≤ count fails st start mtd.ebCnt ∨ ¬MarksAll mtd fails start st ∨ mtd.ebCnt < start

section Claim

variable {start e : ℕ} {st st' : UbiState}

theorem reserved_of_survey (h : Surveyed mtd fails start e st st') (he : e ≤ mtd.ebCnt)
    (hcount : count fails st start e = ubiLayoutVolumeEbs) : Reserved mtd start e st' := by
  obtain ⟨b, b', hpick⟩ := List.length_eq_two.mp hcount
  have hsorted : (pick (usable fails st) start e).Pairwise (· < ·) :=
    List.Pairwise.filter _ List.pairwise_lt_range'
  have hmem (i : ℕ) : i ∈ pick (usable fails st) start e ↔ (start ≤ i ∧ i < e) ∧ usable fails st i = true := by
    rw [pick, List.mem_filter, List.mem_range'_1]
    constructor
    · rintro ⟨h1, h2⟩
      exact ⟨⟨h1.1, by omega⟩, h2⟩
    · rintro ⟨h1, h2⟩
      exact ⟨⟨h1.1, by omega⟩, h2⟩
  rw [hpick] at hsorted hmem
  obtain ⟨⟨hb1, hb2⟩, hbu⟩ := (hmem b).mp (by simp)
  obtain ⟨⟨hb1', hb2'⟩, hbu'⟩ := (hmem b').mp (by simp)
  refine ⟨b, b', hb1, by simpa using hsorted, hb2', he, h.ready b hb1 hb2 hbu, h.ready b' hb1' hb2' hbu', ?_⟩
  intro i h1 h2 hne hne'
  apply h.bad i h1 h2
  by_contra hu
  have hin := (hmem i).mpr ⟨⟨h1, h2⟩, by simpa using hu⟩
  simp [hne, hne'] at hin

theorem bypass_reserves_iff {crc32 : List UInt8 → ℕ} {capacity imageSeq : ℕ} {volName : List UInt8}
    {scanned : Option UbiScanInfo} (hf : PebFaults dev mtd fails)
    (hinit : ubiParamsInit crc32 mtd capacity volName imageSeq scanned = some st.ubi) (start : ℕ) :
    Reserves dev mtd fails start st ↔ Enough mtd fails start st := by
  obtain ⟨hui, -, hfresh, -⟩ := ubiParamsInit_some crc32 hinit
  have hpeb : st.ubi.ui.pebSize = mtd.ebSize := by
    rw [hui]
    rfl
  have hrun : ubiBypassLayoutVol dev mtd start st = (bypassLoop dev mtd).exec ⟨start, 0, st⟩ := by
    rw [ubiBypassLayoutVol, hfresh, if_neg (lt_irrefl 0)]
  rw [Reserves, hrun]
  by_cases hstart : mtd.ebCnt < start
  · have hnone : (bypassLoop dev mtd).exec ⟨start, 0, st⟩ = (none, st) := by
      rw [Loop.exec_done _ (@bypassStep_end dev _ ⟨start, 0, st⟩ hstart.le), bypassExit, if_pos hstart]
    rw [hnone]
    exact ⟨fun _ => .inr (.inr hstart), fun _ => ⟨fun e st' h => (by cases h), fun _ => rfl⟩⟩
  · have hwalked := bypassLoop_walked hf ⟨start, 0, st⟩ (Nat.le_of_not_lt hstart) Nat.zero_lt_two hpeb
    constructor
    · rintro ⟨-, hfew⟩
      by_contra hnot
      obtain ⟨hcount, hmarks, -⟩ : count fails st start mtd.ebCnt < ubiLayoutVolumeEbs ∧ MarksAll mtd fails start st ∧
          ¬mtd.ebCnt < start := by
        unfold Enough at hnot
        push Not at hnot
        exact ⟨hnot.1, hnot.2.1, hstart⟩
      rcases hwalked.few (by simpa using hcount) with ⟨hsome, -⟩ | ⟨-, hgives⟩
      · rw [hfew hcount] at hsome
        cases hsome
      · exact hgives hmarks
    · intro henough
      have hnone (hcount : count fails st start mtd.ebCnt < ubiLayoutVolumeEbs) :
          ((bypassLoop dev mtd).exec ⟨start, 0, st⟩).1 = none := by
        rcases hwalked.few (by simpa using hcount) with ⟨-, hmarks⟩ | ⟨hnone, -⟩
        · rcases henough with h | h | h
          · omega
          · exact absurd hmarks h
          · exact absurd h hstart
        · exact hnone
      refine ⟨fun e st' h => ?_, hnone⟩
      obtain ⟨-, he, hsurvey, hcount⟩ := hwalked.found e (by rw [h])
      rw [h] at hsurvey
      rcases hcount with hcount | hcount
      · exact reserved_of_survey hsurvey he (by simpa using hcount)
      · have := hnone (by simpa using hcount)
        rw [h] at this
        cases this

def fullScan (n : ℕ) : UbiScanInfo := ⟨fun _ => 1, 1, n, 0, 0, n⟩

def freshState (params : UbiParams) : UbiState := ⟨blankState [], params, none, 1⟩

theorem erasesFail_pebFaults (mtd : MtdDevInfo) (fails : ℕ → Bool) : PebFaults (erasesFail fails) mtd fails := by
  constructor
  · intro eb hs calls
    simp [erasesFail, hs]
  · intro eb hs calls offs data oob mode
    simp [erasesFail]
  · intro eb hs calls
    exact .inl (by simp [erasesFail, hs])
  · intro calls eb
    simp [erasesFail]

theorem paged_init : ∃ params, ubiParamsInit (fun _ => 0) (pagedNand 2048 10 (by decide)) 134217728 [] 7
    (some (fullScan 10)) = some params :=
  Option.isSome_iff_exists.mp (by decide)

theorem bypass_reserves_iff_paged : ∃ params, Reserves (erasesFail fun eb => eb == 1) (pagedNand 2048 10 (by decide))
      (fun eb => eb == 1) 0 (freshState params) ↔
    Enough (pagedNand 2048 10 (by decide)) (fun eb => eb == 1) 0 (freshState params) := by
  obtain ⟨params, h⟩ := paged_init
  exact ⟨params, bypass_reserves_iff (erasesFail_pebFaults _ _) h 0⟩

/-- From the last of ten PEBs on there is only that one, and the walk returns the end of the partition. -/
theorem last_peb_overrun : ∃ params, ubiParamsInit (fun _ => 0) (pagedNand 2048 10 (by decide)) 134217728 [] 7
      (some (fullScan 10)) = some params ∧
    ¬Reserves (erasesFail fun _ => false) (pagedNand 2048 10 (by decide)) (fun _ => false) 9 (freshState params) := by
  obtain ⟨params, h⟩ := paged_init
  refine ⟨params, h, fun hreserves => ?_⟩
  obtain ⟨hui, -, hfresh, hsi⟩ := ubiParamsInit_some _ h
  have hwalked := bypassLoop_walked (erasesFail_pebFaults (pagedNand 2048 10 (by decide)) fun _ => false)
    ⟨9, 0, freshState params⟩ (show 9 ≤ (pagedNand 2048 10 (by decide)).ebCnt by decide)
    Nat.zero_lt_two (congrArg UbigenInfo.pebSize hui)
  have hcount : count (fun _ => false) (freshState params) 9 (pagedNand 2048 10 (by decide)).ebCnt < ubiLayoutVolumeEbs := by
    have hle := List.length_filter_le (usable (fun _ => false) (freshState params)) (List.range' 9 1)
    exact Nat.lt_of_le_of_lt hle (by decide)
  have hnone := hreserves.2 hcount
  rw [ubiBypassLayoutVol, if_neg (by rw [show (freshState params).ubi = params from rfl, hfresh]; decide)] at hnone
  rcases hwalked.few hcount with ⟨hsome, -⟩ | ⟨-, hgives⟩
  · rw [hnone] at hsome
    cases hsome
  · apply hgives
    have hpick : pick (failing (fun _ => false) (freshState params)) 9 (pagedNand 2048 10 (by decide)).ebCnt = [] := by
      apply List.filter_eq_nil_iff.mpr
      simp [failing]
    refine ⟨fun hne => absurd hpick hne, ?_⟩
    dsimp only
    rw [hpick]
    rfl

end Claim

end LinuxRecovery.LayoutBypass
