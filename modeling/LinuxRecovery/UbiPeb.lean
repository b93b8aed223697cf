import LinuxRecovery.UbiPrepare

namespace LinuxRecovery.UbiPeb

open Loops ByteMemory Libmtd BlockMap BasicWrite Ubigen UbiPrepare

/-- The block manager's state with the prepared UBI parameters, and what `consecutive_bad_check` remembers. -/
structure UbiState extends BmState where
  ubi : UbiParams
  prevBb : Option ℕ
  consecutiveBadBlocks : ℕ

def maxConsecutiveBadBlocks : ℕ := 4

def UbiState.withBm (st : UbiState) (bm : BmState) : UbiState := { st with toBmState := bm }

def UbiState.withChip (st : UbiState) (chip : Chip) : UbiState := st.withBm { st.toBmState with toChip := chip }

section Updates

variable (st : UbiState) (bm : BmState) (chip : Chip)

@[simp] theorem withBm_toBmState : (st.withBm bm).toBmState = bm := rfl

@[simp] theorem withBm_ubi : (st.withBm bm).ubi = st.ubi := rfl

@[simp] theorem withBm_prevBb : (st.withBm bm).prevBb = st.prevBb := rfl

@[simp] theorem withBm_consecutiveBadBlocks : (st.withBm bm).consecutiveBadBlocks = st.consecutiveBadBlocks := rfl

@[simp] theorem withChip_toChip : (st.withChip chip).toChip = chip := rfl

@[simp] theorem withChip_map : (st.withChip chip).map = st.map := rfl

@[simp] theorem withChip_sysinfo : (st.withChip chip).sysinfo = st.sysinfo := rfl

@[simp] theorem withChip_ubi : (st.withChip chip).ubi = st.ubi := rfl

@[simp] theorem withChip_prevBb : (st.withChip chip).prevBb = st.prevBb := rfl

@[simp] theorem withChip_consecutiveBadBlocks : (st.withChip chip).consecutiveBadBlocks = st.consecutiveBadBlocks := rfl

end Updates

def blankUbiState : UbiState :=
  ⟨blankState [], ⟨[], configMtdUbiBebLimit, 4, 0, 0, false, 0, 0, 0, 0, 0, [], ⟨4, 2, 2, 16, 32⟩,
    ubigenInfoInit 4 2 2 0 1 0, ⟨fun _ => 0, 0, 4, 0, 0, 4⟩, [], none⟩, none, 0⟩

def UbiState.isEbBad (st : UbiState) (eb : ℕ) : Bool := st.ubi.si.ec eb == ebBad

inductive PebResult where
  | ok (st : UbiState)
  | bad (st : UbiState)
  | fatal (st : UbiState)

def PebResult.st : PebResult → UbiState
  | .ok st => st
  | .bad st => st
  | .fatal st => st

def PebResult.andThen (r : PebResult) (f : UbiState → PebResult) : PebResult :=
  match r with
  | .ok st => f st
  | r => r

def consecutiveBadCheck (eb : ℕ) (st : UbiState) : Bool × UbiState :=
  let prevBb := st.prevBb.getD eb
  let n := if eb = prevBb + 1 then st.consecutiveBadBlocks + 1 else 1
  (decide (n < maxConsecutiveBadBlocks), { st with prevBb := some eb, consecutiveBadBlocks := n })

def limitHit : Option ℕ → ℕ → List ℕ → Bool
  | _, _, [] => false
  | prevBb, n, eb :: ebs =>
    let n := if eb = prevBb.getD eb + 1 then n + 1 else 1
    decide (maxConsecutiveBadBlocks ≤ n) || limitHit (some eb) n ebs

def scanSetBad (si : UbiScanInfo) (eb : ℕ) : UbiScanInfo :=
  { si with badCnt := si.badCnt + 1, ec := Function.update si.ec eb ebBad }

variable (dev : Device) (mtd : MtdDevInfo)

def markBad (eb : ℕ) (st : UbiState) : PebResult :=
  if !mtd.bbAllowed then .fatal st
  else
    match mtdMarkBad dev mtd eb st.toChip with
    | (some _, chip) => .fatal (st.withChip chip)
    | (none, chip) =>
      match consecutiveBadCheck eb { st.withChip chip with ubi := { st.ubi with si := scanSetBad st.ubi.si eb } } with
      | (true, st) => .bad st
      | (false, st) => .fatal st

@[simp] theorem markBad_andThen (eb : ℕ) (st : UbiState) (f : UbiState → PebResult) :
    (markBad dev mtd eb st).andThen f = markBad dev mtd eb st := by
  unfold markBad
  split_ifs
  · rfl
  · split
    · rfl
    · dsimp only
      split <;> rfl

def checkPattern (buf : List UInt8) (patt : UInt8) : Bool := buf.all (· == patt)

def torturePattern (eb : ℕ) (patt : UInt8) (s : Chip) : Bool × Chip :=
  match mtdErase dev mtd eb s with
  | (some _, s) => (false, s)
  | (none, s) =>
    match mtdRead dev mtd eb 0 mtd.ebSize s with
    | (some _, _, s) => (false, s)
    | (none, buf, s) =>
      if !checkPattern buf 0xFF then (false, s)
      else
        match mtdWrite dev mtd eb 0 (List.replicate mtd.ebSize patt) none .placeOob s with
        | (some _, s) => (false, s)
        | (none, s) =>
          match mtdRead dev mtd eb 0 mtd.ebSize s with
          | (some _, _, s) => (false, s)
          | (none, buf, s) => (checkPattern buf patt, s)

def tortureFrom (eb : ℕ) : List UInt8 → Chip → Chip
  | [], s => s
  | patt :: patts, s =>
    match torturePattern dev mtd eb patt s with
    | (true, s) => tortureFrom eb patts s
    | (false, s) => s

def mtdTorture (eb : ℕ) (s : Chip) : Chip := tortureFrom dev mtd eb [0xa5, 0x5a, 0x0] s

section Torture

variable {dev mtd} {R : Chip → Chip → Prop} {eb : ℕ} (htrans : ∀ s t u, R s t → R t u → R s u)
  (herase : ∀ s, R s (mtdErase dev mtd eb s).2) (hread : ∀ s, R s (mtdRead dev mtd eb 0 mtd.ebSize s).2.2)
  (hwrite : ∀ data s, R s (mtdWrite dev mtd eb 0 data none .placeOob s).2)

include htrans herase hread hwrite

theorem torturePattern_rel (patt : UInt8) (s : Chip) : R s (torturePattern dev mtd eb patt s).2 := by
  have h1 := herase s
  unfold torturePattern
  split
  · rename_i he
    rwa [he] at h1
  · rename_i s₁ he
    rw [he] at h1
    have h2 := hread s₁
    split
    · rename_i hr
      rw [hr] at h2
      exact htrans _ _ _ h1 h2
    · rename_i buf s₂ hr
      rw [hr] at h2
      have h12 := htrans _ _ _ h1 h2
      split_ifs
      · exact h12
      · have h3 := hwrite (List.replicate mtd.ebSize patt) s₂
        split
        · rename_i hw
          rw [hw] at h3
          exact htrans _ _ _ h12 h3
        · rename_i s₃ hw
          rw [hw] at h3
          have h4 := hread s₃
          split
          · rename_i hr'
            rw [hr'] at h4
            exact htrans _ _ _ (htrans _ _ _ h12 h3) h4
          · rename_i hr'
            rw [hr'] at h4
            exact htrans _ _ _ (htrans _ _ _ h12 h3) h4

theorem mtdTorture_rel (hrefl : ∀ s, R s s) (s : Chip) : R s (mtdTorture dev mtd eb s) := by
  have hfrom (patts : List UInt8) : ∀ s, R s (tortureFrom dev mtd eb patts s) := by
    induction patts with
    | nil => exact hrefl
    | cons patt patts ih =>
      intro s
      have h := torturePattern_rel htrans herase hread hwrite patt s
      rw [tortureFrom]
      split
      · rename_i s₁ he
        rw [he] at h
        exact htrans _ _ _ h (ih s₁)
      · rename_i s₁ he
        rw [he] at h
        exact h
  exact hfrom _ s

end Torture

def erasePeb (eb : ℕ) (st : UbiState) : PebResult :=
  match mtdErase dev mtd eb st.toChip with
  | (none, chip) => .ok (st.withChip chip)
  | (some .eio, chip) => markBad dev mtd eb (st.withChip chip)
  | (some _, chip) => .fatal (st.withChip chip)

def programPeb (eb : ℕ) (data : List UInt8) (st : UbiState) : PebResult :=
  match mtdWrite dev mtd eb 0 data none .placeOob st.toChip with
  | (none, chip) => .ok (st.withChip chip)
  | (some .eio, chip) => markBad dev mtd eb (st.withChip (mtdTorture dev mtd eb chip))
  | (some _, chip) => .fatal (st.withChip chip)

def bypassPeb (eb : ℕ) (st : UbiState) : PebResult :=
  (erasePeb dev mtd eb st).andThen fun st =>
    (programPeb dev mtd eb (List.replicate st.ubi.ui.pebSize 0) st).andThen fun st => erasePeb dev mtd eb st

structure BypassCursor where
  eb : ℕ
  validEb : ℕ
  st : UbiState

def bypassExit (c : BypassCursor) : Option ℕ × UbiState :=
  if mtd.ebCnt < c.eb then (none, c.st)
  else (some c.eb, { c.st with ubi := { c.st.ubi with layoutVolumeStartEb := c.eb } })

def bypassStep (c : BypassCursor) : Step BypassCursor (Option ℕ × UbiState) :=
  if mtd.ebCnt ≤ c.eb then .done (bypassExit mtd c)
  else if c.st.isEbBad c.eb = true then .next { c with eb := c.eb + 1 }
  else
    match bypassPeb dev mtd c.eb c.st with
    | .fatal st => .done (none, st)
    | .bad st => .next { c with eb := c.eb + 1, st := st }
    | .ok st =>
      let c : BypassCursor := ⟨c.eb + 1, c.validEb + 1, st⟩
      if ubiLayoutVolumeEbs ≤ c.validEb then .done (bypassExit mtd c) else .next c

theorem bypassStep_next {c d : BypassCursor} (h : bypassStep dev mtd c = .next d) :
    c.eb < mtd.ebCnt ∧ d.eb = c.eb + 1 := by
  unfold bypassStep at h
  split_ifs at h with h1 h2
  · cases h
    exact ⟨by omega, rfl⟩
  · refine ⟨by omega, ?_⟩
    split at h
    · cases h
    · cases h
      rfl
    · dsimp only at h
      split_ifs at h
      cases h
      rfl

def bypassLoop : Loop BypassCursor (Option ℕ × UbiState) where
  step := bypassStep dev mtd
  measure c := mtd.ebCnt - c.eb
  decreasing := by
    intro c d h
    obtain ⟨hlt, heq⟩ := bypassStep_next dev mtd h
    omega

def ubiBypassLayoutVol (eb : ℕ) (st : UbiState) : Option ℕ × UbiState :=
  if 0 < st.ubi.layoutVolumeStartEb then (some st.ubi.layoutVolumeStartEb, st)
  else (bypassLoop dev mtd).exec ⟨eb, 0, st⟩

def nextEc (st : UbiState) (eb : ℕ) : ℕ :=
  if st.ubi.overrideEc = true then st.ubi.ec
  else if st.ubi.si.ec eb ≤ ecMax then st.ubi.si.ec eb + 1
  else st.ubi.si.meanEc

def dropFfs (buf : List UInt8) : ℕ :=
  let len := (buf.reverse.dropWhile (· == 0xFF)).length
  (len + mtd.minIoSize - 1) / mtd.minIoSize * mtd.minIoSize

def UbiState.mapSet (st : UbiState) (eb : ℕ) (status : BlkStatus) : UbiState :=
  st.withBm (mtdBmBlockMapSet eb status st.toBmState)

section Headers

-- `local_crc32` from `UBI_CRC32_INIT`
variable (crc32 : List UInt8 → ℕ)

structure PebCursor where
  eb : ℕ
  buf : List UInt8
  st : UbiState

abbrev PebOutcome : Type := Option ℕ × List UInt8 × UbiState

def writePebStep (c : PebCursor) : Step PebCursor PebOutcome :=
  if mtd.ebCnt ≤ c.eb then .done (none, c.buf, c.st)
  else if c.st.isEbBad c.eb = true then .next { c with eb := c.eb + 1 }
  else
    match erasePeb dev mtd c.eb c.st with
    | .fatal st => .done (none, c.buf, st)
    | .bad st =>
      -- the cursor has moved on when the entry is set
      .next { c with eb := c.eb + 1, st := st.mapSet (mtdEbRelativeToAbsolute mtd (c.eb + 1)) .bad }
    | .ok st =>
      let st := st.mapSet (mtdEbRelativeToAbsolute mtd c.eb) .erased
      match changeEch crc32 st.ubi.ui.imageSeq (nextEc st c.eb) c.buf with
      | none => .done (none, c.buf, st)
      | some buf =>
        match programPeb dev mtd c.eb (buf.take (dropFfs mtd buf)) st with
        | .fatal st => .done (none, buf, st)
        | .bad st => .next ⟨c.eb + 1, buf, st⟩
        | .ok st => .done (some (c.eb + 1), buf, st)

theorem writePebStep_next {c d : PebCursor} (h : writePebStep dev mtd crc32 c = .next d) :
    c.eb < mtd.ebCnt ∧ d.eb = c.eb + 1 := by
  unfold writePebStep at h
  split_ifs at h with h1 h2
  · cases h
    exact ⟨by omega, rfl⟩
  · refine ⟨by omega, ?_⟩
    split at h
    · cases h
    · cases h
      rfl
    · dsimp only at h
      split at h
      · cases h
      · split at h
        · cases h
        · cases h
          rfl
        · cases h

def writePebLoop : Loop PebCursor PebOutcome where
  step := writePebStep dev mtd crc32
  measure c := mtd.ebCnt - c.eb
  decreasing := by
    intro c d h
    obtain ⟨hlt, heq⟩ := writePebStep_next dev mtd crc32 h
    omega

def ubiWriteOnePeb (eb : ℕ) (buf : List UInt8) (st : UbiState) : PebOutcome :=
  (writePebLoop dev mtd crc32).exec ⟨eb, buf, st⟩

end Headers

def SameUbi (st st' : UbiState) : Prop := ∃ si, st'.ubi = { st.ubi with si := si }

section Same

variable {dev mtd} {st st' st'' : UbiState}

theorem sameUbi_of_eq (h : st'.ubi = st.ubi) : SameUbi st st' := ⟨st.ubi.si, h⟩

theorem SameUbi.trans (h : SameUbi st st') (h' : SameUbi st' st'') : SameUbi st st'' := by
  obtain ⟨si, h⟩ := h
  obtain ⟨si', h'⟩ := h'
  exact ⟨si', by rw [h', h]⟩

theorem markBad_same (eb : ℕ) (h : SameUbi st st') : SameUbi st (markBad dev mtd eb st').st := by
  refine h.trans ?_
  unfold markBad
  split_ifs
  · exact sameUbi_of_eq rfl
  · split
    · exact sameUbi_of_eq rfl
    · dsimp only
      split
      · rename_i heq
        exact ⟨_, (congrArg (fun p => p.2.ubi) heq).symm⟩
      · rename_i heq
        exact ⟨_, (congrArg (fun p => p.2.ubi) heq).symm⟩

theorem erasePeb_same (eb : ℕ) (st : UbiState) : SameUbi st (erasePeb dev mtd eb st).st := by
  unfold erasePeb
  split
  · exact sameUbi_of_eq rfl
  · exact markBad_same eb (sameUbi_of_eq rfl)
  · exact sameUbi_of_eq rfl

theorem programPeb_same (eb : ℕ) (data : List UInt8) (st : UbiState) :
    SameUbi st (programPeb dev mtd eb data st).st := by
  unfold programPeb
  split
  · exact sameUbi_of_eq rfl
  · exact markBad_same eb (sameUbi_of_eq rfl)
  · exact sameUbi_of_eq rfl

theorem writePebStep_same (crc32 : List UInt8 → ℕ) (c : PebCursor) :
    SameUbi c.st (after PebCursor.st (fun r : PebOutcome => r.2.2) (writePebStep dev mtd crc32 c)) := by
  have hsame : SameUbi c.st c.st := sameUbi_of_eq rfl
  have herase := @erasePeb_same dev mtd c.eb c.st
  unfold writePebStep
  by_cases h1 : mtd.ebCnt ≤ c.eb
  · rw [if_pos h1]
    exact hsame
  · rw [if_neg h1]
    by_cases h2 : c.st.isEbBad c.eb = true
    · rw [if_pos h2]
      exact hsame
    · rw [if_neg h2]
      cases he : erasePeb dev mtd c.eb c.st with
      | fatal st =>
        rw [he] at herase
        exact herase
      | bad st =>
        rw [he] at herase
        exact herase
      | ok st =>
        rw [he] at herase
        dsimp only
        have hset : SameUbi c.st (st.mapSet (mtdEbRelativeToAbsolute mtd c.eb) .erased) :=
          herase.trans (sameUbi_of_eq rfl)
        cases hch : changeEch crc32 (st.mapSet (mtdEbRelativeToAbsolute mtd c.eb) .erased).ubi.ui.imageSeq
            (nextEc (st.mapSet (mtdEbRelativeToAbsolute mtd c.eb) .erased) c.eb) c.buf with
        | none => exact hset
        | some buf =>
          have hprogram := @programPeb_same dev mtd c.eb (buf.take (dropFfs mtd buf))
            (st.mapSet (mtdEbRelativeToAbsolute mtd c.eb) .erased)
          dsimp only
          cases hp : programPeb dev mtd c.eb (buf.take (dropFfs mtd buf))
              (st.mapSet (mtdEbRelativeToAbsolute mtd c.eb) .erased) with
          | fatal st' =>
            rw [hp] at hprogram
            exact hset.trans hprogram
          | bad st' =>
            rw [hp] at hprogram
            exact hset.trans hprogram
          | ok st' =>
            rw [hp] at hprogram
            exact hset.trans hprogram

theorem writeOnePeb_same (crc32 : List UInt8 → ℕ) (eb : ℕ) (buf : List UInt8) (st : UbiState) :
    SameUbi st (ubiWriteOnePeb dev mtd crc32 eb buf st).2.2 := by
  refine (writePebLoop dev mtd crc32).exec_compose (R := fun c d => SameUbi c.st d.st)
    (S := fun c r => SameUbi c.st r.2.2) ?_ ?_ (fun _ _ _ => SameUbi.trans) ⟨eb, buf, st⟩
  · intro c d hd
    have h := @writePebStep_same dev mtd crc32 c
    rwa [show writePebStep dev mtd crc32 c = .next d from hd] at h
  · intro c r hr
    have h := @writePebStep_same dev mtd crc32 c
    rwa [show writePebStep dev mtd crc32 c = .done r from hr] at h

theorem andThen_same {r : PebResult} {f : UbiState → PebResult} (h : SameUbi st r.st)
    (hf : ∀ st', SameUbi st' (f st').st) : SameUbi st (r.andThen f).st := by
  cases r with
  | ok st' => exact h.trans (hf st')
  | bad st' => exact h
  | fatal st' => exact h

theorem bypassPeb_same (eb : ℕ) (st : UbiState) : SameUbi st (bypassPeb dev mtd eb st).st :=
  andThen_same (erasePeb_same eb st) fun st' =>
    andThen_same (programPeb_same eb _ st') fun st'' => erasePeb_same eb st''

def SameButLayout (st st' : UbiState) : Prop :=
  ∃ si start, st'.ubi = { st.ubi with si := si, layoutVolumeStartEb := start }

theorem SameUbi.butLayout (h : SameUbi st st') : SameButLayout st st' := by
  obtain ⟨si, h⟩ := h
  exact ⟨si, st.ubi.layoutVolumeStartEb, h⟩

theorem SameButLayout.trans (h : SameButLayout st st') (h' : SameButLayout st' st'') : SameButLayout st st'' := by
  obtain ⟨si, start, h⟩ := h
  obtain ⟨si', start', h'⟩ := h'
  exact ⟨si', start', by rw [h', h]⟩

theorem bypassExit_same (c : BypassCursor) : SameButLayout c.st (bypassExit mtd c).2 := by
  unfold bypassExit
  split_ifs
  · exact (sameUbi_of_eq rfl).butLayout
  · exact ⟨_, _, rfl⟩

theorem bypassStep_same (c : BypassCursor) :
    SameButLayout c.st (after BypassCursor.st Prod.snd (bypassStep dev mtd c)) := by
  have hpeb := (@bypassPeb_same dev mtd c.eb c.st).butLayout
  unfold bypassStep
  split_ifs
  · exact bypassExit_same c
  · exact (sameUbi_of_eq rfl).butLayout
  · split
    · rename_i heq
      rw [heq] at hpeb
      exact hpeb
    · rename_i heq
      rw [heq] at hpeb
      exact hpeb
    · rename_i st heq
      rw [heq] at hpeb
      dsimp only
      split_ifs
      · exact hpeb.trans (bypassExit_same ⟨c.eb + 1, c.validEb + 1, st⟩)
      · exact hpeb

theorem bypass_same (eb : ℕ) (st : UbiState) : SameButLayout st (ubiBypassLayoutVol dev mtd eb st).2 := by
  unfold ubiBypassLayoutVol
  split_ifs
  · exact (sameUbi_of_eq rfl).butLayout
  · refine (bypassLoop dev mtd).exec_compose (R := fun c d => SameButLayout c.st d.st)
      (S := fun c r => SameButLayout c.st r.2) ?_ ?_ (fun _ _ _ => SameButLayout.trans) ⟨eb, 0, st⟩
    · intro c d hd
      have h := @bypassStep_same dev mtd c
      rwa [show bypassStep dev mtd c = .next d from hd] at h
    · intro c r hr
      have h := @bypassStep_same dev mtd c
      rwa [show bypassStep dev mtd c = .done r from hr] at h

end Same

end LinuxRecovery.UbiPeb
