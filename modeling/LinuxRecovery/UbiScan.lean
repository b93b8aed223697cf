import LinuxRecovery.Crc32
import LinuxRecovery.EraseCounts

namespace LinuxRecovery.UbiScan

open Loops ByteMemory Libmtd Ubigen UbiPrepare Crc32

def ubiCrc32 (s : List UInt8) : ℕ := (localCrc32 0xFFFFFFFF s).toNat

theorem ubiCrc32_lt (s : List UInt8) : ubiCrc32 s < 2 ^ 32 := UInt32.toNat_lt _

def ebEmpty : ℕ := 0xFFFFFFFF

def ebCorrupted : ℕ := 0xFFFFFFFE

def ebAlien : ℕ := 0xFFFFFFFD

def be (bs : List UInt8) : ℕ := bs.foldl (fun v b => v * 2 ^ 8 + b.toNat) 0

def intOf (n : ℕ) : ℤ := (n : ℤ).bmod (2 ^ 32)

structure UbiEcHdr where
  magic : ℕ
  ec : ℕ
  vidHdrOffset : ℕ
  dataOffset : ℕ
  hdrCrc : ℕ
  deriving DecidableEq

def ubiEcHdr (h : List UInt8) : UbiEcHdr :=
  ⟨be (h.take 4), be ((h.drop 8).take 8), be ((h.drop 16).take 4), be ((h.drop 20).take 4), be ((h.drop 60).take 4)⟩

structure ScanInfo extends UbiScanInfo where
  corruptedCnt : ℕ
  alienCnt : ℕ
  vidHdrOffs : ℤ
  dataOffs : ℤ

inductive EbStatus where
  | bad
  | empty
  | alien
  | corrupted
  | ok (ec : ℕ)
  deriving DecidableEq

def EbStatus.code : EbStatus → ℕ
  | .bad => ebBad
  | .empty => ebEmpty
  | .alien => ebAlien
  | .corrupted => ebCorrupted
  | .ok ec => ec

def ScanInfo.record (si : ScanInfo) (eb : ℕ) (status : EbStatus) : ScanInfo :=
  let si := { si with ec := Function.update si.ec eb status.code }
  match status with
  | .bad => { si with badCnt := si.badCnt + 1 }
  | .empty => { si with emptyCnt := si.emptyCnt + 1 }
  | .alien => { si with alienCnt := si.alienCnt + 1 }
  | .corrupted => { si with corruptedCnt := si.corruptedCnt + 1 }
  | .ok _ => { si with okCnt := si.okCnt + 1 }

def allFf (buf : List UInt8) : Bool := buf.all (· == 0xFF)

section Scan

variable (crc32 : List UInt8 → ℕ) (dev : Device) (mtd : MtdDevInfo)

def checkOffsets (ech : UbiEcHdr) (si : ScanInfo) : EbStatus × ScanInfo :=
  if si.vidHdrOffs = -1 then
    let si := { si with vidHdrOffs := intOf ech.vidHdrOffset, dataOffs := intOf ech.dataOffset }
    if si.dataOffs.tmod mtd.minIoSize ≠ 0 then (.corrupted, si) else (.ok ech.ec, si)
  else if intOf ech.vidHdrOffset ≠ si.vidHdrOffs then (.corrupted, si)
  else if intOf ech.dataOffset ≠ si.dataOffs then (.corrupted, si)
  else (.ok ech.ec, si)

def scanHdr (h : List UInt8) (si : ScanInfo) : Option (EbStatus × ScanInfo) :=
  let ech := ubiEcHdr h
  if ech.magic ≠ ubiEcHdrMagic then some (if allFf h = true then .empty else .alien, si)
  else if ech.hdrCrc ≠ crc32 (h.take 60) then some (.corrupted, si)
  else if ecMax < ech.ec then none
  else some (checkOffsets mtd ech si)

structure ScanCursor where
  eb : ℕ
  si : ScanInfo
  chip : Chip

def initialScan : ScanInfo := ⟨⟨fun _ => 0, 0, 0, 0, 0, 0⟩, 0, 0, -1, -1⟩

def ScanInfo.finish (si : ScanInfo) : ScanInfo :=
  let sum := (((List.range mtd.ebCnt).map si.ec).filter (· ≤ ecMax)).sum
  { si with meanEc := if si.okCnt ≠ 0 then sum / si.okCnt else si.meanEc, goodCnt := mtd.ebCnt - si.badCnt }

def scanStep (c : ScanCursor) : Step ScanCursor (Option ScanInfo × Chip) :=
  if mtd.ebCnt ≤ c.eb then .done (some (c.si.finish mtd), c.chip)
  else
    match mtdIsBad dev mtd c.eb c.chip with
    | (.error, chip) => .done (none, chip)
    | (.unsupported, chip) => .done (none, chip)
    | (.bad, chip) => .next ⟨c.eb + 1, c.si.record c.eb .bad, chip⟩
    | (.good, chip) =>
      match mtdRead dev mtd c.eb 0 ubiEcHdrSize chip with
      | (some _, _, chip) => .done (none, chip)
      | (none, h, chip) =>
        match scanHdr crc32 mtd h c.si with
        | none => .done (none, chip)
        | some (status, si) => .next ⟨c.eb + 1, si.record c.eb status, chip⟩

theorem scanStep_next {c d : ScanCursor} (h : scanStep crc32 dev mtd c = .next d) : c.eb < mtd.ebCnt ∧ d.eb = c.eb + 1 := by
  unfold scanStep at h
  split_ifs at h with hv
  · refine ⟨not_le.mp hv, ?_⟩
    split at h
    · cases h
    · cases h
    · cases h
      rfl
    · split at h
      · cases h
      · split at h
        · cases h
        · cases h
          rfl

def scanLoop : Loop ScanCursor (Option ScanInfo × Chip) where
  step := scanStep crc32 dev mtd
  measure c := mtd.ebCnt - c.eb
  decreasing := by
    intro c d h
    obtain ⟨hlt, heq⟩ := scanStep_next crc32 dev mtd h
    omega

def ubiScan (chip : Chip) : Option ScanInfo × Chip := (scanLoop crc32 dev mtd).exec ⟨0, initialScan, chip⟩

end Scan

def tally (ec : ℕ → ℕ) (n : ℕ) (p : ℕ → Bool) : ℕ := (List.range n).countP fun eb => p (ec eb)

structure Tallied (si : ScanInfo) (n : ℕ) : Prop where
  ok : si.okCnt = tally si.ec n (· ≤ ecMax)
  bad : si.badCnt = tally si.ec n (· = ebBad)
  empty : si.emptyCnt = tally si.ec n (· = ebEmpty)
  alien : si.alienCnt = tally si.ec n (· = ebAlien)
  corrupted : si.corruptedCnt = tally si.ec n (· = ebCorrupted)
  total : si.okCnt + si.badCnt + si.emptyCnt + si.alienCnt + si.corruptedCnt = n

section Tally

variable {ec : ℕ → ℕ} {n : ℕ} {p : ℕ → Bool} {si : ScanInfo} {status : EbStatus}

theorem tally_update (ec : ℕ → ℕ) (n v : ℕ) (p : ℕ → Bool) :
    tally (Function.update ec n v) (n + 1) p = tally ec n p + if p v = true then 1 else 0 := by
  have hsame : tally (Function.update ec n v) n p = tally ec n p := by
    apply List.countP_congr
    intro eb heb
    rw [Function.update_of_ne (by have := List.mem_range.mp heb; omega)]
  rw [tally, List.range_succ, List.countP_append, List.countP_singleton, Function.update_self]
  exact congrArg (· + _) hsame

theorem record_counts (si : ScanInfo) (n : ℕ) (hec : ∀ v, status = .ok v → v ≤ ecMax) :
    (si.record n status).okCnt = si.okCnt + (if status.code ≤ ecMax then 1 else 0) ∧
      (si.record n status).badCnt = si.badCnt + (if status.code = ebBad then 1 else 0) ∧
      (si.record n status).emptyCnt = si.emptyCnt + (if status.code = ebEmpty then 1 else 0) ∧
      (si.record n status).alienCnt = si.alienCnt + (if status.code = ebAlien then 1 else 0) ∧
      (si.record n status).corruptedCnt = si.corruptedCnt + (if status.code = ebCorrupted then 1 else 0) := by
  cases status with
  | bad => exact ⟨rfl, rfl, rfl, rfl, rfl⟩
  | empty => exact ⟨rfl, rfl, rfl, rfl, rfl⟩
  | alien => exact ⟨rfl, rfl, rfl, rfl, rfl⟩
  | corrupted => exact ⟨rfl, rfl, rfl, rfl, rfl⟩
  | ok v =>
    have hv := hec v rfl
    have hbad : v ≠ ebBad := fun h => absurd (h ▸ hv) (by decide)
    have hempty : v ≠ ebEmpty := fun h => absurd (h ▸ hv) (by decide)
    have halien : v ≠ ebAlien := fun h => absurd (h ▸ hv) (by decide)
    have hcorrupted : v ≠ ebCorrupted := fun h => absurd (h ▸ hv) (by decide)
    refine ⟨?_, ?_, ?_, ?_, ?_⟩
    · rw [EbStatus.code, if_pos hv]
      rfl
    · rw [EbStatus.code, if_neg hbad]
      rfl
    · rw [EbStatus.code, if_neg hempty]
      rfl
    · rw [EbStatus.code, if_neg halien]
      rfl
    · rw [EbStatus.code, if_neg hcorrupted]
      rfl

theorem Tallied.record (h : Tallied si n) (hec : ∀ v, status = .ok v → v ≤ ecMax) : Tallied (si.record n status) (n + 1) := by
  have htally (p : ℕ → Bool) : tally (si.record n status).ec (n + 1) p =
      tally si.ec n p + if p status.code = true then 1 else 0 := by
    cases status <;> exact tally_update _ _ _ _
  have htotal := h.total
  obtain ⟨hok, hbad, hempty, halien, hcorrupted⟩ := record_counts si n hec
  refine ⟨?_, ?_, ?_, ?_, ?_, ?_⟩
  · rw [hok, htally, h.ok]
    simp only [decide_eq_true_eq]
  · rw [hbad, htally, h.bad]
    simp only [decide_eq_true_eq]
  · rw [hempty, htally, h.empty]
    simp only [decide_eq_true_eq]
  · rw [halien, htally, h.alien]
    simp only [decide_eq_true_eq]
  · rw [hcorrupted, htally, h.corrupted]
    simp only [decide_eq_true_eq]
  · cases status <;> dsimp only [ScanInfo.record] <;> omega

end Tally

def Sound (crc32 : List UInt8 → ℕ) (h : List UInt8) : Prop :=
  (ubiEcHdr h).magic = ubiEcHdrMagic ∧ (ubiEcHdr h).hdrCrc = crc32 (h.take 60)

/-- The offsets are those that the scan goes by, or the VID header's is the number that stands for none. -/
def OffsetsAgree (ech : UbiEcHdr) (si : ScanInfo) : Prop :=
  intOf ech.vidHdrOffset = -1 ∨ intOf ech.vidHdrOffset = si.vidHdrOffs ∧ intOf ech.dataOffset = si.dataOffs

inductive Tells (crc32 : List UInt8 → ℕ) (si : ScanInfo) (h : List UInt8) : ℕ → Prop
  | empty (hmagic : (ubiEcHdr h).magic ≠ ubiEcHdrMagic) (hff : allFf h = true) : Tells crc32 si h ebEmpty
  | alien (hmagic : (ubiEcHdr h).magic ≠ ubiEcHdrMagic) (hff : allFf h = false) : Tells crc32 si h ebAlien
  | corrupted (hmagic : (ubiEcHdr h).magic = ubiEcHdrMagic) : Tells crc32 si h ebCorrupted
  | ok (hsound : Sound crc32 h) (hec : (ubiEcHdr h).ec ≤ ecMax) (hoffs : OffsetsAgree (ubiEcHdr h) si) :
    Tells crc32 si h (ubiEcHdr h).ec

structure Report (crc32 : List UInt8 → ℕ) (mtd : MtdDevInfo) (mem : Memory) (si : ScanInfo) (n : ℕ) : Prop where
  tallied : Tallied si n
  tells : ∀ eb < n, si.ec eb ≠ ebBad → Tells crc32 si (readBytes mem (address mtd eb 0) ubiEcHdrSize) (si.ec eb)

section Report

variable {crc32 : List UInt8 → ℕ} {dev : Device} {mtd : MtdDevInfo} {mem : Memory} {si si' : ScanInfo} {h : List UInt8}
  {status : EbStatus} {chip chip' : Chip} {n : ℕ}

def SameOffsets (si si' : ScanInfo) : Prop :=
  (∃ v d, si' = { si with vidHdrOffs := v, dataOffs := d }) ∧ ∀ ech, OffsetsAgree ech si → OffsetsAgree ech si'

theorem sameOffsets_refl (si : ScanInfo) : SameOffsets si si := ⟨⟨_, _, rfl⟩, fun _ => id⟩

theorem checkOffsets_tells (hsound : Sound crc32 h) (hec : (ubiEcHdr h).ec ≤ ecMax)
    (hcheck : checkOffsets mtd (ubiEcHdr h) si = (status, si')) :
    (∀ v, status = .ok v → v ≤ ecMax) ∧ Tells crc32 si' h status.code ∧ SameOffsets si si' := by
  unfold checkOffsets at hcheck
  by_cases hfirst : si.vidHdrOffs = -1
  · have hsame : SameOffsets si { si with
        vidHdrOffs := intOf (ubiEcHdr h).vidHdrOffset, dataOffs := intOf (ubiEcHdr h).dataOffset } := by
      refine ⟨⟨_, _, rfl⟩, fun ech hagree => .inl ?_⟩
      exact hagree.elim id fun hboth => hboth.1.trans hfirst
    rw [if_pos hfirst] at hcheck
    dsimp only at hcheck
    split_ifs at hcheck
    · cases hcheck
      exact ⟨fun v hv => (EbStatus.noConfusion hv), .corrupted hsound.1, hsame⟩
    · cases hcheck
      refine ⟨fun v hv => (EbStatus.ok.inj hv).symm.trans_le hec, .ok hsound hec (.inr ?_), hsame⟩
      dsimp only
      exact ⟨rfl, rfl⟩
  · rw [if_neg hfirst] at hcheck
    split_ifs at hcheck with hvid hdata
    · cases hcheck
      exact ⟨fun v hv => (EbStatus.noConfusion hv), .corrupted hsound.1, sameOffsets_refl si⟩
    · cases hcheck
      exact ⟨fun v hv => (EbStatus.noConfusion hv), .corrupted hsound.1, sameOffsets_refl si⟩
    · cases hcheck
      exact ⟨fun v hv => (EbStatus.ok.inj hv).symm.trans_le hec, .ok hsound hec (.inr ⟨not_not.mp hvid, not_not.mp hdata⟩),
        sameOffsets_refl si⟩

theorem scanHdr_tells (hscan : scanHdr crc32 mtd h si = some (status, si')) :
    (∀ v, status = .ok v → v ≤ ecMax) ∧ Tells crc32 si' h status.code ∧ SameOffsets si si' := by
  unfold scanHdr at hscan
  dsimp only at hscan
  split_ifs at hscan with hmagic hff hcrc hec
  · cases hscan
    exact ⟨fun v hv => (EbStatus.noConfusion hv), .empty hmagic hff, sameOffsets_refl si⟩
  · cases hscan
    exact ⟨fun v hv => (EbStatus.noConfusion hv), .alien hmagic (Bool.eq_false_iff.mpr hff), sameOffsets_refl si⟩
  · cases hscan
    exact ⟨fun v hv => (EbStatus.noConfusion hv), .corrupted (not_not.mp hmagic), sameOffsets_refl si⟩
  · exact checkOffsets_tells ⟨not_not.mp hmagic, not_not.mp hcrc⟩ (not_lt.mp hec) (Option.some.inj hscan)

theorem Tells.later {code : ℕ} (htells : Tells crc32 si h code) (hsame : ∀ ech, OffsetsAgree ech si → OffsetsAgree ech si') :
    Tells crc32 si' h code := by
  cases htells with
  | empty hmagic hff => exact .empty hmagic hff
  | alien hmagic hff => exact .alien hmagic hff
  | corrupted hmagic => exact .corrupted hmagic
  | ok hsound hec hoffs => exact .ok hsound hec (hsame _ hoffs)

theorem Report.next (hreport : Report crc32 mtd mem si n) (hsame : SameOffsets si si')
    (hec : ∀ v, status = .ok v → v ≤ ecMax)
    (htells : status ≠ .bad → Tells crc32 si' (readBytes mem (address mtd n 0) ubiEcHdrSize) status.code) :
    Report crc32 mtd mem (si'.record n status) (n + 1) := by
  obtain ⟨⟨v, d, hsi'⟩, hagree⟩ := hsame
  have hcode : (si'.record n status).ec = Function.update si.ec n status.code := by
    rw [hsi']
    cases status <;> rfl
  have hoffs : ∀ ech, OffsetsAgree ech si' → OffsetsAgree ech (si'.record n status) := fun ech ha => by
    cases status <;> exact ha
  have htallied : Tallied si' n := by
    rw [hsi']
    exact ⟨hreport.tallied.ok, hreport.tallied.bad, hreport.tallied.empty, hreport.tallied.alien,
      hreport.tallied.corrupted, hreport.tallied.total⟩
  refine ⟨htallied.record hec, fun eb heb hgood => ?_⟩
  rw [hcode] at hgood ⊢
  rcases Nat.lt_succ_iff_lt_or_eq.mp heb with hlt | rfl
  · rw [Function.update_of_ne (Nat.ne_of_lt hlt)] at hgood ⊢
    exact ((hreport.tells eb hlt hgood).later hagree).later hoffs
  · rw [Function.update_self] at hgood ⊢
    exact (htells fun hbad => hgood (by rw [hbad]; rfl)).later hoffs

theorem mtdRead_mem (eb offs len : ℕ) (chip : Chip) : (mtdRead dev mtd eb offs len chip).2.2.mem = chip.mem ∧
    ((mtdRead dev mtd eb offs len chip).1 = none →
      (mtdRead dev mtd eb offs len chip).2.1 = readBytes chip.mem (address mtd eb offs) len) := by
  unfold mtdRead
  split_ifs
  · exact ⟨rfl, fun h => by cases h⟩
  · exact ⟨rfl, fun h => by cases h⟩
  · exact ⟨rfl, fun _ => rfl⟩

theorem scanStep_report {c d : ScanCursor} (hmem : c.chip.mem = mem) (hreport : Report crc32 mtd mem c.si c.eb)
    (hstep : scanStep crc32 dev mtd c = .next d) : d.chip.mem = mem ∧ Report crc32 mtd mem d.si d.eb := by
  obtain ⟨calls, hbad⟩ := BlockScan.mtdIsBad_mem dev mtd c.eb c.chip
  unfold scanStep at hstep
  split_ifs at hstep with hv
  split at hstep
  · cases hstep
  · cases hstep
  · rename_i chip heq
    rw [heq] at hbad
    cases hstep
    exact ⟨by rw [show chip = _ from hbad]; exact hmem,
      hreport.next (sameOffsets_refl _) (fun v hv => (EbStatus.noConfusion hv)) fun hne => absurd rfl hne⟩
  · rename_i chip heq
    rw [heq] at hbad
    have hchip : chip.mem = mem := by rw [show chip = _ from hbad]; exact hmem
    obtain ⟨hread, hbytes⟩ := @mtdRead_mem dev mtd c.eb 0 ubiEcHdrSize chip
    split at hstep
    · cases hstep
    · rename_i h chip₁ heq₁
      rw [heq₁] at hread hbytes
      have hh : h = readBytes chip.mem (address mtd c.eb 0) ubiEcHdrSize := hbytes rfl
      split at hstep
      · cases hstep
      · rename_i status si hscan
        cases hstep
        obtain ⟨hec, htells, hsame⟩ := scanHdr_tells hscan
        rw [hh, hchip] at htells
        exact ⟨(show chip₁.mem = chip.mem from hread).trans hchip, hreport.next hsame hec fun _ => htells⟩

theorem scan_run (chip : Chip) : ∀ si, (ubiScan crc32 dev mtd chip).1 = some si →
    ∃ si₀, Report crc32 mtd chip.mem si₀ mtd.ebCnt ∧ si = si₀.finish mtd := by
  apply (scanLoop crc32 dev mtd).exec_rule
    (I := fun c => c.eb ≤ mtd.ebCnt ∧ c.chip.mem = chip.mem ∧ Report crc32 mtd chip.mem c.si c.eb)
    (Q := fun r => ∀ si, r.1 = some si → ∃ si₀, Report crc32 mtd chip.mem si₀ mtd.ebCnt ∧ si = si₀.finish mtd)
  · rintro c d ⟨-, hmem, hreport⟩ hstep
    have hstep : scanStep crc32 dev mtd c = .next d := hstep
    obtain ⟨hlt, heb⟩ := scanStep_next crc32 dev mtd hstep
    obtain ⟨hmem', hreport'⟩ := scanStep_report hmem hreport hstep
    exact ⟨by omega, hmem', hreport'⟩
  · rintro c r ⟨hle, -, hreport⟩ hstep si hsi
    have hstep : scanStep crc32 dev mtd c = .done r := hstep
    unfold scanStep at hstep
    split_ifs at hstep with hv
    · cases hstep
      obtain rfl := Option.some.inj hsi
      rw [le_antisymm hle hv] at hreport
      exact ⟨c.si, hreport, rfl⟩
    · split at hstep
      · cases hstep
        cases hsi
      · cases hstep
        cases hsi
      · cases hstep
      · split at hstep
        · cases hstep
          cases hsi
        · split at hstep
          · cases hstep
            cases hsi
          · cases hstep
  · refine ⟨Nat.zero_le _, rfl, ⟨rfl, rfl, rfl, rfl, rfl, rfl⟩, fun eb heb => absurd heb (Nat.not_lt_zero eb)⟩

theorem counted_length (ec : ℕ → ℕ) (n : ℕ) :
    (((List.range n).map ec).filter (· ≤ ecMax)).length = tally ec n (· ≤ ecMax) := by
  rw [← List.countP_eq_length_filter, List.countP_map]
  rfl

theorem finish_mean (htallied : Tallied si mtd.ebCnt) {lo hi : ℕ} (hsome : si.okCnt ≠ 0)
    (hall : ∀ eb < mtd.ebCnt, si.ec eb ≤ ecMax → lo ≤ si.ec eb ∧ si.ec eb ≤ hi) :
    lo ≤ (si.finish mtd).meanEc ∧ (si.finish mtd).meanEc ≤ hi := by
  have hmem : ∀ v ∈ ((List.range mtd.ebCnt).map si.ec).filter (· ≤ ecMax), lo ≤ v ∧ v ≤ hi := by
    intro v hv
    obtain ⟨hv, hmax⟩ := List.mem_filter.mp hv
    obtain ⟨eb, heb, rfl⟩ := List.mem_map.mp hv
    exact hall eb (List.mem_range.mp heb) (of_decide_eq_true hmax)
  have hlen := counted_length si.ec mtd.ebCnt
  rw [← htallied.ok] at hlen
  have hlow := List.card_nsmul_le_sum _ lo fun v hv => (hmem v hv).1
  have hhigh := List.sum_le_card_nsmul _ hi fun v hv => (hmem v hv).2
  rw [hlen, smul_eq_mul] at hlow hhigh
  have hmean : (si.finish mtd).meanEc = (((List.range mtd.ebCnt).map si.ec).filter (· ≤ ecMax)).sum / si.okCnt :=
    if_pos hsome
  have hpos : 0 < si.okCnt := Nat.pos_of_ne_zero hsome
  rw [hmean]
  exact ⟨(Nat.le_div_iff_mul_le hpos).mpr (by rwa [Nat.mul_comm]), Nat.div_le_of_le_mul hhigh⟩

theorem ubiScan_report (hscan : (ubiScan crc32 dev mtd chip).1 = some si) :
    Report crc32 mtd chip.mem si mtd.ebCnt ∧ si.okCnt + si.emptyCnt + si.alienCnt + si.corruptedCnt = si.goodCnt ∧
      si.goodCnt + si.badCnt = mtd.ebCnt ∧ ∀ lo hi, si.okCnt ≠ 0 →
        (∀ eb < mtd.ebCnt, si.ec eb ≤ ecMax → lo ≤ si.ec eb ∧ si.ec eb ≤ hi) → lo ≤ si.meanEc ∧ si.meanEc ≤ hi := by
  obtain ⟨si₀, hreport, rfl⟩ := scan_run chip si hscan
  have htotal := hreport.tallied.total
  have hgood : (si₀.finish mtd).goodCnt = mtd.ebCnt - si₀.badCnt := rfl
  have hcounts : (si₀.finish mtd).okCnt = si₀.okCnt ∧ (si₀.finish mtd).emptyCnt = si₀.emptyCnt ∧
      (si₀.finish mtd).alienCnt = si₀.alienCnt ∧ (si₀.finish mtd).corruptedCnt = si₀.corruptedCnt ∧
      (si₀.finish mtd).badCnt = si₀.badCnt := ⟨rfl, rfl, rfl, rfl, rfl⟩
  refine ⟨⟨⟨hreport.tallied.ok, hreport.tallied.bad, hreport.tallied.empty, hreport.tallied.alien,
    hreport.tallied.corrupted, hreport.tallied.total⟩, fun eb heb hne => ?_⟩, by omega, by omega, fun lo hi hsome hall =>
    finish_mean hreport.tallied hsome hall⟩
  exact (hreport.tells eb heb hne).later fun ech hagree => hagree

theorem Tells.counted {code : ℕ} (htells : Tells crc32 si h code) (hcode : code ≤ ecMax) :
    Sound crc32 h ∧ (ubiEcHdr h).ec = code ∧ OffsetsAgree (ubiEcHdr h) si := by
  cases htells with
  | empty hmagic hff => exact absurd hcode (by decide)
  | alien hmagic hff => exact absurd hcode (by decide)
  | corrupted hmagic => exact absurd hcode (by decide)
  | ok hsound hec hoffs => exact ⟨hsound, rfl, hoffs⟩

end Report

/-- A scan counts every block once, and takes no counter but from a header that is whole. -/
theorem scan_counts (crc32 : List UInt8 → ℕ) (dev : Device) (mtd : MtdDevInfo) (chip : Chip) (si : ScanInfo)
    (hscan : (ubiScan crc32 dev mtd chip).1 = some si) :
    si.okCnt = ((List.range mtd.ebCnt).filter fun eb => si.ec eb ≤ ecMax).length ∧
      si.okCnt + si.emptyCnt + si.alienCnt + si.corruptedCnt = si.goodCnt ∧ si.goodCnt + si.badCnt = mtd.ebCnt ∧
      (∀ eb < mtd.ebCnt, si.ec eb ≤ ecMax → ∃ h, h = readBytes chip.mem (address mtd eb 0) ubiEcHdrSize ∧
        Sound crc32 h ∧ (ubiEcHdr h).ec = si.ec eb ∧ OffsetsAgree (ubiEcHdr h) si) ∧
      ∀ lo hi, si.okCnt ≠ 0 → (∀ eb < mtd.ebCnt, si.ec eb ≤ ecMax → lo ≤ si.ec eb ∧ si.ec eb ≤ hi) →
        lo ≤ si.meanEc ∧ si.meanEc ≤ hi := by
  obtain ⟨hreport, hgood, hbad, hmean⟩ := ubiScan_report hscan
  refine ⟨?_, hgood, hbad, fun eb heb hec => ⟨_, rfl, ?_⟩, hmean⟩
  · rw [hreport.tallied.ok, tally, List.countP_eq_length_filter]
  · have hne : si.ec eb ≠ ebBad := fun heq => absurd (heq ▸ hec) (by decide)
    exact (hreport.tells eb heb hne).counted hec

section Small

open ProgressDivisor (fourPebs)

def fourHdr (ec : ℕ) : List UInt8 := ubigenInitEcHdr ubiCrc32 (ubigenInfoInit 512 64 64 0 1 7) ec

def fourChip : Chip where
  mem x :=
    if x / 512 = 0 then (fourHdr 5).getD (x % 512) 0xFF
    else if x / 512 = 1 then (fourHdr 8).getD (x % 512) 0xFF
    else if x / 512 = 2 then ((fourHdr 5).set 15 6).getD (x % 512) 0xFF
    else 0xFF
  calls := []

theorem scan_counts_four : ∃ si, (ubiScan ubiCrc32 (failsAt []) fourPebs fourChip).1 = some si ∧
    si.okCnt = ((List.range 4).filter fun eb => si.ec eb ≤ ecMax).length ∧
      si.okCnt + si.emptyCnt + si.alienCnt + si.corruptedCnt = si.goodCnt ∧ si.goodCnt + si.badCnt = 4 ∧
      (∀ eb < 4, si.ec eb ≤ ecMax → ∃ h, h = readBytes fourChip.mem (address fourPebs eb 0) ubiEcHdrSize ∧
        Sound ubiCrc32 h ∧ (ubiEcHdr h).ec = si.ec eb ∧ OffsetsAgree (ubiEcHdr h) si) ∧
      ∀ lo hi, si.okCnt ≠ 0 → (∀ eb < 4, si.ec eb ≤ ecMax → lo ≤ si.ec eb ∧ si.ec eb ≤ hi) →
        lo ≤ si.meanEc ∧ si.meanEc ≤ hi := by
  have hsome : ((ubiScan ubiCrc32 (failsAt []) fourPebs fourChip).1).isSome = true := by decide +kernel
  obtain ⟨si, hsi⟩ := Option.isSome_iff_exists.mp hsome
  exact ⟨si, hsi, scan_counts ubiCrc32 (failsAt []) fourPebs fourChip si hsi⟩

end Small

section Headers

variable {crc32 : List UInt8 → ℕ} {mtd : MtdDevInfo} {ui : UbigenInfo} {h : List UInt8} {si : ScanInfo} {ec : ℕ}

theorem be_be32 (n : ℕ) : be (be32 n) = n % 2 ^ 32 := by
  simp only [be, be32, List.foldl_cons, List.foldl_nil, UInt8.toNat_ofNat']
  omega

theorem be_be64 (n : ℕ) : be (be64 n) = n % 2 ^ 64 := by
  simp only [be, be64, be32, List.cons_append, List.nil_append, List.foldl_cons, List.foldl_nil, UInt8.toNat_ofNat']
  omega

theorem be_injective {bs bs' : List UInt8} (hlen : bs.length = bs'.length) (heq : be bs = be bs') : bs = bs' := by
  induction bs using List.reverseRecOn generalizing bs' with
  | nil => exact (List.length_eq_zero_iff.mp hlen.symm).symm
  | append_singleton bs b ih =>
    rcases List.eq_nil_or_concat' bs' with rfl | ⟨cs, c, rfl⟩
    · rw [List.length_append] at hlen
      cases hlen
    · rw [List.length_append, List.length_append] at hlen
      rw [be, be, List.foldl_append, List.foldl_append] at heq
      have hsum : be bs * 2 ^ 8 + b.toNat = be cs * 2 ^ 8 + c.toNat := heq
      have hb := b.toNat_lt
      have hc := c.toNat_lt
      rw [ih (Nat.add_right_cancel hlen) (by omega), UInt8.toNat_inj.mp (show b.toNat = c.toNat by omega)]

theorem ubiEcHdr_generated (hcrc : crc32 (ecHdrFields ui ec) < 2 ^ 32) : ubiEcHdr (ubigenInitEcHdr crc32 ui ec) =
    ⟨ubiEcHdrMagic, ec % 2 ^ 64, ui.vidHdrOffs % 2 ^ 32, ui.dataOffs % 2 ^ 32, crc32 (ecHdrFields ui ec)⟩ := by
  have hlast : (ubigenInitEcHdr crc32 ui ec).drop 60 = be32 (crc32 (ecHdrFields ui ec)) :=
    List.drop_left' (ecHdrFields_length ui ec)
  have hmagic : (ubigenInitEcHdr crc32 ui ec).take 4 = be32 ubiEcHdrMagic := rfl
  have hec : ((ubigenInitEcHdr crc32 ui ec).drop 8).take 8 = be64 ec := rfl
  have hvid : ((ubigenInitEcHdr crc32 ui ec).drop 16).take 4 = be32 ui.vidHdrOffs := rfl
  have hdata : ((ubigenInitEcHdr crc32 ui ec).drop 20).take 4 = be32 ui.dataOffs := rfl
  rw [ubiEcHdr, hlast, hmagic, hec, hvid, hdata, be_be32, be_be64, be_be32, be_be32, List.take_of_length_le (by simp),
    be_be32, Nat.mod_eq_of_lt hcrc, Nat.mod_eq_of_lt (show ubiEcHdrMagic < 2 ^ 32 by decide)]

theorem generated_sound (hcrc : crc32 (ecHdrFields ui ec) < 2 ^ 32) : Sound crc32 (ubigenInitEcHdr crc32 ui ec) := by
  rw [Sound, ubiEcHdr_generated hcrc]
  refine ⟨rfl, ?_⟩
  rw [ubigenInitEcHdr, sealed, List.take_left' (ecHdrFields_length ui ec)]

theorem intOf_small {n : ℕ} (hn : n < 2 ^ 31) : intOf (n % 2 ^ 32) = n := by
  have hmod : n % 2 ^ 32 = n := Nat.mod_eq_of_lt (hn.trans (by norm_num))
  have hlow : -((2 ^ 32 : ℕ) : ℤ) ≤ (n : ℤ) * 2 := by omega
  have hhigh : (n : ℤ) * 2 < (2 ^ 32 : ℕ) := by
    have : n * 2 < 2 ^ 32 := by omega
    exact_mod_cast this
  calc intOf (n % 2 ^ 32) = intOf n := congrArg intOf hmod
    _ = n := Int.bmod_eq_of_le_mul_two hlow hhigh

structure Placeable (mtd : MtdDevInfo) (ui : UbigenInfo) : Prop where
  vid : ui.vidHdrOffs < 2 ^ 31
  data : ui.dataOffs < 2 ^ 31
  whole : mtd.minIoSize ∣ ui.dataOffs

def OffsetsOf (ui : UbigenInfo) (si : ScanInfo) : Prop :=
  si.vidHdrOffs = -1 ∨ si.vidHdrOffs = ui.vidHdrOffs ∧ si.dataOffs = ui.dataOffs

theorem checkOffsets_image {ech : UbiEcHdr} (hvid : intOf ech.vidHdrOffset = ui.vidHdrOffs)
    (hdata : intOf ech.dataOffset = ui.dataOffs) (hwhole : mtd.minIoSize ∣ ui.dataOffs) (hoffs : OffsetsOf ui si) :
    ∃ si', checkOffsets mtd ech si = (.ok ech.ec, si') ∧ si'.ec = si.ec ∧ OffsetsOf ui si' := by
  unfold checkOffsets
  rw [hvid, hdata]
  by_cases hfirst : si.vidHdrOffs = -1
  · have hmod : (ui.dataOffs : ℤ).tmod mtd.minIoSize = 0 := Int.tmod_eq_zero_of_dvd (Int.natCast_dvd_natCast.mpr hwhole)
    rw [if_pos hfirst]
    dsimp only
    rw [if_neg (not_not.mpr hmod)]
    exact ⟨_, rfl, rfl, .inr ⟨rfl, rfl⟩⟩
  · obtain ⟨hsame, hsame'⟩ := hoffs.resolve_left hfirst
    rw [if_neg hfirst, if_neg (not_not.mpr hsame.symm), if_neg (not_not.mpr hsame'.symm)]
    exact ⟨si, rfl, rfl, hoffs⟩

theorem scanHdr_intact (hcrc : crc32 (ecHdrFields ui ec) < 2 ^ 32) (hplace : Placeable mtd ui) (hec : ec < 2 ^ 64)
    (hoffs : OffsetsOf ui si) :
    (ecMax < ec ∧ scanHdr crc32 mtd (ubigenInitEcHdr crc32 ui ec) si = none) ∨
      ec ≤ ecMax ∧ ∃ si', scanHdr crc32 mtd (ubigenInitEcHdr crc32 ui ec) si = some (.ok ec, si') ∧ si'.ec = si.ec ∧
        OffsetsOf ui si' := by
  have hsound := @generated_sound crc32 ui ec hcrc
  have hech := @ubiEcHdr_generated crc32 ui ec hcrc
  have hread : (ubiEcHdr (ubigenInitEcHdr crc32 ui ec)).ec = ec := by rw [hech, Nat.mod_eq_of_lt hec]
  obtain ⟨si', hcheck, hsame, hoffs'⟩ := @checkOffsets_image mtd ui si (ubiEcHdr (ubigenInitEcHdr crc32 ui ec))
    (by rw [hech]; exact intOf_small hplace.vid) (by rw [hech]; exact intOf_small hplace.data) hplace.whole hoffs
  unfold scanHdr
  dsimp only
  rw [if_neg (not_not.mpr hsound.1), if_neg (not_not.mpr hsound.2), hcheck, hread]
  by_cases hmax : ecMax < ec
  · exact .inl ⟨hmax, if_pos hmax⟩
  · exact .inr ⟨not_lt.mp hmax, si', if_neg hmax, hsame, hoffs'⟩

theorem scanHdr_unsound (hlost : ¬Sound crc32 h) :
    ∃ status, scanHdr crc32 mtd h si = some (status, si) ∧ ecMax < status.code ∧ status.code ≠ ebBad := by
  unfold scanHdr
  dsimp only
  by_cases hmagic : (ubiEcHdr h).magic = ubiEcHdrMagic
  · rw [if_neg (not_not.mpr hmagic), if_pos fun hcrc => hlost ⟨hmagic, hcrc⟩]
    exact ⟨.corrupted, rfl, by decide, by decide⟩
  · rw [if_pos hmagic]
    by_cases hff : allFf h = true
    · rw [if_pos hff]
      exact ⟨.empty, rfl, by decide, by decide⟩
    · rw [if_neg hff]
      exact ⟨.alien, rfl, by decide, by decide⟩

end Headers

end LinuxRecovery.UbiScan
