import LinuxRecovery.UbiScan

namespace LinuxRecovery.Rescan

open Loops ByteMemory Libmtd Ubigen UbiPrepare UbiPeb UbiVolume MtdBlock PebWalks VolumeImage UbiImage EraseCounts
open Crc32 UbiScan
open BlockScan (OperationMethod)

/-- A header of the image with a burst of changes in front of its checksum, or with another checksum. -/
def Damaged (ui : UbigenInfo) (h : List UInt8) : Prop :=
  ∃ ec fields crc, h = fields ++ crc ∧ fields.length = 60 ∧ crc.length = 4 ∧
    (Burst (ecHdrFields ui ec) fields ∧ crc = be32 (ubiCrc32 (ecHdrFields ui ec)) ∨
      fields = ecHdrFields ui ec ∧ crc ≠ be32 (ubiCrc32 fields))

theorem Damaged.unsound {ui : UbigenInfo} {h : List UInt8} (hdamaged : Damaged ui h) : ¬Sound ubiCrc32 h := by
  obtain ⟨ec, fields, crc, rfl, hfields, hcrc, hwhere⟩ := hdamaged
  rintro ⟨-, hsum⟩
  have hread : be crc = ubiCrc32 fields := by
    rw [ubiEcHdr, List.take_left' hfields, List.drop_left' hfields, List.take_of_length_le hcrc.le] at hsum
    exact hsum
  rcases hwhere with ⟨hburst, rfl⟩ | ⟨-, hne⟩
  · rw [be_be32, Nat.mod_eq_of_lt (ubiCrc32_lt _)] at hread
    exact hburst.seen _ (UInt32.toNat_inj.mp hread)
  · refine hne (be_injective hcrc ?_)
    rw [hread, be_be32, Nat.mod_eq_of_lt (ubiCrc32_lt _)]

structure Serves (dev : Device) (mtd : MtdDevInfo) (bad : ℕ → Bool) : Prop where
  flags : ∀ chip, ∀ eb < mtd.ebCnt, (mtdIsBad dev mtd eb chip).1 = if bad eb = true then .bad else .good
  reads : ∀ calls eb, dev.reply (calls ++ [.read mtd.start eb 0 ubiEcHdrSize]) = none
  room : ubiEcHdrSize ≤ mtd.ebSize

structure Headers (crc32 : List UInt8 → ℕ) (mtd : MtdDevInfo) (ui : UbigenInfo) (mem : Memory) (bad lost : ℕ → Bool)
    (count : ℕ → ℕ) : Prop where
  intact : ∀ b < mtd.ebCnt, bad b = false → lost b = false →
    readBytes mem (address mtd b 0) ubiEcHdrSize = ubigenInitEcHdr crc32 ui (count b)
  unsound : ∀ b < mtd.ebCnt, bad b = false → lost b = true → ¬Sound crc32 (readBytes mem (address mtd b 0) ubiEcHdrSize)
  small : ∀ b < mtd.ebCnt, count b < 2 ^ 64

def Expected (bad lost : ℕ → Bool) (count : ℕ → ℕ) (b v : ℕ) : Prop :=
  if bad b = true then v = ebBad
  else if lost b = true then ecMax < v ∧ v ≠ ebBad
  else v = count b ∧ v ≤ ecMax

section Scan

variable {crc32 : List UInt8 → ℕ} {dev : Device} {mtd : MtdDevInfo} {ui : UbigenInfo} {mem : Memory} {bad lost : ℕ → Bool}
  {count : ℕ → ℕ} {chip : Chip}

theorem mtdRead_served (hserves : Serves dev mtd bad) {eb : ℕ} (hv : eb < mtd.ebCnt) (chip : Chip) :
    ∃ chip', mtdRead dev mtd eb 0 ubiEcHdrSize chip =
      (none, readBytes chip.mem (address mtd eb 0) ubiEcHdrSize, chip') ∧ chip'.mem = chip.mem := by
  have hroom := hserves.room
  rw [mtdRead, mtdValidEraseBlock, decide_eq_true hv, if_neg (by simp), if_neg (by omega)]
  dsimp only
  rw [hserves.reads]
  exact ⟨_, rfl, rfl⟩

theorem scanStep_served (hcrc : ∀ s, crc32 s < 2 ^ 32) (hplace : Placeable mtd ui) (hserves : Serves dev mtd bad)
    (hheaders : Headers crc32 mtd ui mem bad lost count) {c : ScanCursor} (hv : c.eb < mtd.ebCnt) (hmem : c.chip.mem = mem)
    (hoffs : OffsetsOf ui c.si) :
    (∃ d v, scanStep crc32 dev mtd c = .next d ∧ d.eb = c.eb + 1 ∧ d.chip.mem = mem ∧ OffsetsOf ui d.si ∧
      d.si.ec = Function.update c.si.ec c.eb v ∧ Expected bad lost count c.eb v) ∨
    ∃ chip, scanStep crc32 dev mtd c = .done (none, chip) ∧ bad c.eb = false ∧ lost c.eb = false ∧ ecMax < count c.eb := by
  have hflag := hserves.flags c.chip c.eb hv
  obtain ⟨calls, hchip⟩ := BlockScan.mtdIsBad_mem dev mtd c.eb c.chip
  unfold scanStep
  rw [if_neg (not_le.mpr hv)]
  cases hbad : mtdIsBad dev mtd c.eb c.chip with
  | mk reply chip =>
    rw [hbad] at hflag hchip
    have hmem' : chip.mem = mem := by
      rw [show chip = _ from hchip]
      exact hmem
    have hreply : reply = if bad c.eb = true then .bad else .good := hflag
    by_cases hb : bad c.eb = true
    · rw [if_pos hb] at hreply
      subst hreply
      exact .inl ⟨_, ebBad, rfl, rfl, hmem', hoffs, rfl, by rw [Expected, if_pos hb]⟩
    rw [if_neg hb] at hreply
    subst hreply
    obtain ⟨chip', hread, hsame⟩ := mtdRead_served hserves hv chip
    have hgood := Bool.eq_false_iff.mpr hb
    dsimp only
    rw [hread, hmem']
    dsimp only
    by_cases hl : lost c.eb = true
    · obtain ⟨status, hscan, hmax, hne⟩ := @scanHdr_unsound crc32 mtd _ c.si (hheaders.unsound c.eb hv hgood hl)
      rw [hscan]
      refine .inl ⟨_, status.code, rfl, rfl, hsame.trans hmem', ?_, ?_, ?_⟩
      · cases status <;> exact hoffs
      · cases status <;> rfl
      · rw [Expected, if_neg hb, if_pos hl]
        exact ⟨hmax, hne⟩
    · have hintact := Bool.eq_false_iff.mpr hl
      rw [hheaders.intact c.eb hv hgood hintact]
      rcases @scanHdr_intact crc32 mtd ui c.si (count c.eb) (hcrc _) hplace (hheaders.small c.eb hv) hoffs with
        ⟨hmax, hscan⟩ | ⟨hle, si', hscan, hec, hoffs'⟩
      · rw [hscan]
        exact .inr ⟨chip', rfl, hgood, hintact, hmax⟩
      · rw [hscan]
        refine .inl ⟨_, count c.eb, rfl, rfl, hsame.trans hmem', hoffs', ?_, ?_⟩
        · rw [← hec]
          rfl
        · rw [Expected, if_neg hb, if_neg hl]
          exact ⟨rfl, hle⟩

theorem ubiScan_served (hcrc : ∀ s, crc32 s < 2 ^ 32) (hplace : Placeable mtd ui) (hserves : Serves dev mtd bad)
    (hheaders : Headers crc32 mtd ui chip.mem bad lost count) :
    (∃ si, (ubiScan crc32 dev mtd chip).1 = some si ∧ ∀ b < mtd.ebCnt, Expected bad lost count b (si.ec b)) ∨
      (ubiScan crc32 dev mtd chip).1 = none ∧ ∃ b < mtd.ebCnt, bad b = false ∧ lost b = false ∧ ecMax < count b := by
  apply (scanLoop crc32 dev mtd).exec_rule
    (I := fun c => c.eb ≤ mtd.ebCnt ∧ c.chip.mem = chip.mem ∧ OffsetsOf ui c.si ∧
      ∀ b < c.eb, Expected bad lost count b (c.si.ec b))
    (Q := fun r => (∃ si, r.1 = some si ∧ ∀ b < mtd.ebCnt, Expected bad lost count b (si.ec b)) ∨
      r.1 = none ∧ ∃ b < mtd.ebCnt, bad b = false ∧ lost b = false ∧ ecMax < count b)
  · rintro c d ⟨hle, hmem, hoffs, hall⟩ hstep
    have hstep : scanStep crc32 dev mtd c = .next d := hstep
    have hv := (scanStep_next crc32 dev mtd hstep).1
    rcases scanStep_served hcrc hplace hserves hheaders hv hmem hoffs with
      ⟨d', v, hd, heb, hmem', hoffs', hec, hexp⟩ | ⟨chip', hdone, -⟩
    · rw [hd] at hstep
      cases hstep
      refine ⟨by omega, hmem', hoffs', fun b hb => ?_⟩
      rw [hec]
      rw [heb] at hb
      rcases Nat.lt_succ_iff_lt_or_eq.mp hb with hlt | rfl
      · rw [Function.update_of_ne (Nat.ne_of_lt hlt)]
        exact hall b hlt
      · rw [Function.update_self]
        exact hexp
    · rw [hdone] at hstep
      cases hstep
  · rintro c r ⟨hle, hmem, hoffs, hall⟩ hstep
    have hstep : scanStep crc32 dev mtd c = .done r := hstep
    by_cases hv : c.eb < mtd.ebCnt
    · rcases scanStep_served hcrc hplace hserves hheaders hv hmem hoffs with
        ⟨d', v, hd, -⟩ | ⟨chip', hdone, hgood, hintact, hmax⟩
      · rw [hd] at hstep
        cases hstep
      · rw [hdone] at hstep
        cases hstep
        exact .inr ⟨rfl, c.eb, hv, hgood, hintact, hmax⟩
    · unfold scanStep at hstep
      rw [if_pos (not_lt.mp hv)] at hstep
      cases hstep
      rw [le_antisymm hle (not_lt.mp hv)] at hall
      exact .inl ⟨_, rfl, hall⟩
  · exact ⟨Nat.zero_le _, rfl, .inl rfl, fun b hb => absurd hb (Nat.not_lt_zero b)⟩

theorem expected_small {b v : ℕ} (h : Expected bad lost count b v) : v ≤ ecMax ↔ bad b = false ∧ lost b = false := by
  unfold Expected at h
  split_ifs at h with hb hl
  · rw [h, hb]
    exact ⟨fun hle => absurd hle (by decide), fun hand => absurd hand.1 (by decide)⟩
  · rw [hl]
    exact ⟨fun hle => absurd h.1 (not_lt.mpr hle), fun hand => absurd hand.2 (by decide)⟩
  · exact ⟨fun _ => ⟨Bool.eq_false_iff.mpr hb, Bool.eq_false_iff.mpr hl⟩, fun _ => h.2⟩

theorem expected_kept {b v : ℕ} (h : Expected bad (fun _ => false) count b v) :
    v = (if bad b = true then ebBad else count b) ∧ (v = ebBad ∨ v ≤ ecMax) := by
  unfold Expected at h
  by_cases hb : bad b = true
  · rw [if_pos hb] at h ⊢
    exact ⟨h, .inl h⟩
  · rw [if_neg hb, if_neg Bool.false_ne_true] at h
    rw [if_neg hb]
    exact ⟨h.1, .inr h.2⟩

theorem ubiScan_iff (hcrc : ∀ s, crc32 s < 2 ^ 32) (hplace : Placeable mtd ui) (hserves : Serves dev mtd bad)
    (hheaders : Headers crc32 mtd ui chip.mem bad lost count) :
    ((ubiScan crc32 dev mtd chip).1 = none ↔ ∃ b < mtd.ebCnt, bad b = false ∧ lost b = false ∧ ecMax < count b) ∧
      ∀ si, (ubiScan crc32 dev mtd chip).1 = some si → (∀ b < mtd.ebCnt, Expected bad lost count b (si.ec b)) ∧
        si.okCnt = ((List.range mtd.ebCnt).filter fun b => !bad b && !lost b).length := by
  have hsome : ∀ si, (ubiScan crc32 dev mtd chip).1 = some si → ∀ b < mtd.ebCnt, Expected bad lost count b (si.ec b) := by
    intro si hsi
    rcases ubiScan_served hcrc hplace hserves hheaders with ⟨si', hsi', hall⟩ | ⟨hnone, -⟩
    · rw [hsi'] at hsi
      cases hsi
      exact hall
    · rw [hnone] at hsi
      cases hsi
  refine ⟨⟨fun hnone => ?_, ?_⟩, fun si hsi => ⟨hsome si hsi, ?_⟩⟩
  · rcases ubiScan_served hcrc hplace hserves hheaders with ⟨si, hsi, -⟩ | ⟨-, hlarge⟩
    · rw [hsi] at hnone
      cases hnone
    · exact hlarge
  · rintro ⟨b, hb, hgood, hintact, hmax⟩
    cases hsi : (ubiScan crc32 dev mtd chip).1 with
    | none => rfl
    | some si =>
      have hexp := hsome si hsi b hb
      rw [Expected, if_neg (by rw [hgood]; exact Bool.false_ne_true),
        if_neg (by rw [hintact]; exact Bool.false_ne_true)] at hexp
      omega
  · rw [(ubiScan_report hsi).1.tallied.ok, tally, List.countP_eq_length_filter]
    congr 1
    apply List.filter_congr
    intro b hb
    have hiff := expected_small (hsome si hsi b (List.mem_range.mp hb))
    cases hb' : bad b <;> cases hl : lost b <;> simp_all

end Scan

/-- Of an image with damaged headers, exactly the others are counted, each with its counter. -/
theorem damaged_scan (dev : Device) (mtd : MtdDevInfo) (ui : UbigenInfo) (chip : Chip) (bad lost : ℕ → Bool)
    (count : ℕ → ℕ) (hplace : Placeable mtd ui) (hserves : Serves dev mtd bad)
    (hintact : ∀ b < mtd.ebCnt, bad b = false → lost b = false →
      readBytes chip.mem (address mtd b 0) ubiEcHdrSize = ubigenInitEcHdr ubiCrc32 ui (count b))
    (hdamaged : ∀ b < mtd.ebCnt, bad b = false → lost b = true →
      Damaged ui (readBytes chip.mem (address mtd b 0) ubiEcHdrSize))
    (hsmall : ∀ b < mtd.ebCnt, count b < 2 ^ 64) :
    ((ubiScan ubiCrc32 dev mtd chip).1 = none ↔
      ∃ b < mtd.ebCnt, bad b = false ∧ lost b = false ∧ ecMax < count b) ∧
      ∀ si, (ubiScan ubiCrc32 dev mtd chip).1 = some si → (∀ b < mtd.ebCnt, Expected bad lost count b (si.ec b)) ∧
        si.okCnt = ((List.range mtd.ebCnt).filter fun b => !bad b && !lost b).length :=
  ubiScan_iff ubiCrc32_lt hplace hserves
    ⟨hintact, fun b hb hgood hlost => (hdamaged b hb hgood hlost).unsound, hsmall⟩

section Small

open ProgressDivisor (fourPebs)

def fourUi : UbigenInfo := ubigenInfoInit 512 64 64 0 1 7

def flippedHdr : List UInt8 :=
  (ecHdrFields fourUi 6).take 15 ++ [7] ++ (ecHdrFields fourUi 6).drop 16 ++ be32 (ubiCrc32 (ecHdrFields fourUi 6))

def fourChip : Chip :=
  ⟨fun x => ((if x / 512 = 1 then flippedHdr else ubigenInitEcHdr ubiCrc32 fourUi (x / 512 + 5)).getD (x % 512) 0xFF), []⟩

def thirdBad : Device := { failsAt [] with badBlock := fun calls => if calls.getLast? = some (.isBad 0 2) then .bad else .good }

theorem flippedHdr_damaged : Damaged fourUi flippedHdr :=
  ⟨6, _, _, rfl, by decide +kernel, rfl, .inl ⟨⟨((ecHdrFields fourUi 6).take 15).flatMap bitsOf, bitsOf 6, bitsOf 7,
    ((ecHdrFields fourUi 6).drop 16).flatMap bitsOf, by decide +kernel, by decide +kernel, rfl, by decide, by decide⟩, rfl⟩⟩

theorem thirdBad_serves : Serves thirdBad fourPebs (· == 2) := by
  refine ⟨fun chip eb heb => ?_, fun calls eb => rfl, by decide⟩
  have hv : mtdValidEraseBlock fourPebs eb = true := decide_eq_true heb
  have hlast : (chip.calls ++ [DevCall.isBad 0 eb]).getLast? = some (.isBad 0 eb) := List.getLast?_concat
  rw [mtdIsBad, hv, if_neg (by decide), if_neg (by decide)]
  change (if (chip.calls ++ [DevCall.isBad 0 eb]).getLast? = some (.isBad 0 2) then BadReply.bad else .good) = _
  rw [hlast]
  by_cases h2 : eb = 2
  · rw [h2]
    rfl
  · rw [if_neg (fun h => h2 (by injection h with h; injection h)), if_neg (by simpa using h2)]

theorem damaged_scan_four :
    ((ubiScan ubiCrc32 thirdBad fourPebs fourChip).1 = none ↔
      ∃ b < 4, (b == 2) = false ∧ (b == 1) = false ∧ ecMax < b + 5) ∧
      ∀ si, (ubiScan ubiCrc32 thirdBad fourPebs fourChip).1 = some si →
        (∀ b < 4, Expected (· == 2) (· == 1) (· + 5) b (si.ec b)) ∧
        si.okCnt = ((List.range 4).filter fun b => !(b == 2) && !(b == 1)).length := by
  refine damaged_scan thirdBad fourPebs fourUi fourChip (· == 2) (· == 1) (· + 5)
    ⟨by decide, by decide, by decide⟩ thirdBad_serves ?_ ?_ ?_
  · decide +kernel
  · intro b hb _ hlost
    obtain rfl : b = 1 := by simpa using hlost
    have hread : readBytes fourChip.mem (address fourPebs 1 0) ubiEcHdrSize = flippedHdr := by decide +kernel
    rw [hread]
    exact flippedHdr_damaged
  · intro b hb
    have : b < 4 := hb
    omega

end Small

section Image

variable {dev : Device} {mtd : MtdDevInfo} {crc32 : List UInt8 → ℕ} {st st' : UbiState} {si : UbiScanInfo} {n b : ℕ}

theorem pebBytes_header (hroom : ubiEcHdrSize ≤ mtd.ebSize) :
    (pebBytes mtd st b).take ubiEcHdrSize = readBytes st.mem (address mtd b 0) ubiEcHdrSize := by
  obtain ⟨k, hk⟩ := Nat.exists_eq_add_of_le hroom
  rw [pebBytes, hk, readBytes_add, List.take_left' (readBytes_length _ _ _)]

theorem ready_placeable (h : WriteUnits.Ready crc32 mtd st) (hint : mtd.ebSize < 2 ^ 31) : Placeable mtd st.ubi.ui := by
  obtain ⟨hvid, hdata, hleb⟩ := h.layout
  have hpos := h.leb
  refine ⟨by omega, by omega, ?_⟩
  obtain ⟨imageSeq, hui⟩ := h.ui
  rw [hui]
  exact VolumeSize.roundUp_dvd _ _

theorem plannedEc_le (hmean : si.meanEc ≤ ecMax) (b : ℕ) : plannedEc si b ≤ ecMax + 1 := by
  unfold plannedEc
  split_ifs <;> omega

theorem tally_zero {ec : ℕ → ℕ} {v : ℕ} (h : ∀ b < n, ec b ≠ v) : tally ec n (· = v) = 0 := by
  rw [tally, List.countP_eq_zero]
  intro b hb heq
  exact h b (List.mem_range.mp hb) (of_decide_eq_true heq)

end Image

section Small

open ProgressDivisor (fourPebs fourScanned)

def fourRun : Option (PrepareInfo × UbiState × UbiState × UbiState) :=
  (mtdBlockPrepare (failsAt []) ⟨[fourPebs], 2048⟩ ubiCrc32 .ubifs fourScanned .partition 0 384 blankUbiState).bind
    fun p =>
      (writeChain (failsAt []) p.1.mtd ubiCrc32 p.1.maxSize [List.replicate 384 5] p.1.writeStart 0 p.2).bind fun st₁ =>
        match ubifsDone (failsAt []) p.1.mtd ubiCrc32 st₁ with
        | (.off _, st₂) => some (p.1, p.2, st₁, st₂)
        | _ => none

theorem fourRun_some {info : PrepareInfo} {st₀ st₁ st₂ : UbiState} (h : fourRun = some (info, st₀, st₁, st₂)) :
    mtdBlockPrepare (failsAt []) ⟨[fourPebs], 2048⟩ ubiCrc32 .ubifs fourScanned .partition 0 384 blankUbiState =
      some (info, st₀) ∧
    writeChain (failsAt []) info.mtd ubiCrc32 info.maxSize [List.replicate 384 5] info.writeStart 0 st₀ = some st₁ ∧
    ∃ next, ubifsDone (failsAt []) info.mtd ubiCrc32 st₁ = (.off next, st₂) := by
  obtain ⟨⟨info', st₀'⟩, hprepare, h⟩ := Option.bind_eq_some_iff.mp h
  obtain ⟨st₁', hwrites, h⟩ := Option.bind_eq_some_iff.mp h
  dsimp only at hwrites h
  cases hdone : ubifsDone (failsAt []) info'.mtd ubiCrc32 st₁' with
  | mk ret st₂' =>
    rw [hdone] at h
    cases ret with
    | off next =>
      cases h
      exact ⟨hprepare, hwrites, next, hdone⟩
    | fail => cases h
    | trap => cases h

theorem served_serves {bad : ℕ → Bool} (hbad : ∀ b < 4, bad b = false) : Serves (failsAt []) fourPebs bad := by
  refine ⟨fun chip eb heb => ?_, fun calls eb => rfl, by decide⟩
  have hv : mtdValidEraseBlock fourPebs eb = true := decide_eq_true heb
  rw [hbad eb heb, mtdIsBad, hv, if_neg (by decide), if_neg (by decide)]
  rfl

def wholeRun : PrepareInfo × UbiState × UbiState × UbiState → Bool
  | (_, st₀, _, st₂) => decide (st₀.ubi.startEb = 0) && (List.range 4).all fun b => !st₂.isEbBad b

end Small

end LinuxRecovery.Rescan
