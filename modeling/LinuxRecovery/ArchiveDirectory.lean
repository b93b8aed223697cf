import LinuxRecovery.Loops
import LinuxRecovery.Verifier

namespace LinuxRecovery.ArchiveDirectory

open Loops Verifier

def bufReadComment : ℕ := 0x400

def zip64LocatorMarker : List UInt8 := [0x50, 0x4b, 0x06, 0x07]

def zip64Signature : ℕ := 0x06064b50

section Search

def tagAt (tag buf : List UInt8) (i : ℕ) : Bool := (buf.drop i).take 4 == tag

def scanDown (hit : ℕ → Bool) : ℕ → Option ℕ
  | 0 => none
  | i + 1 => if hit i = true then some i else scanDown hit i

def maxBack (file : List UInt8) : ℕ := min 0xffff file.length

def nextBack (file : List UInt8) (backRead : ℕ) : ℕ :=
  if maxBack file < backRead + bufReadComment then maxBack file else backRead + bufReadComment

def readSize (backRead : ℕ) : ℕ := if bufReadComment + 4 < backRead then bufReadComment + 4 else backRead

def searchWindow (tag file : List UInt8) (backRead : ℕ) : Option ℕ :=
  let readPos := file.length - backRead
  let buf := (file.drop readPos).take (readSize (file.length - readPos))
  (scanDown (tagAt tag buf) (readSize (file.length - readPos) - 3)).map fun i => readPos + i

def searchStep (tag file : List UInt8) (backRead : ℕ) : Step ℕ ℕ :=
  if maxBack file ≤ backRead then .done 0
  else
    match searchWindow tag file (nextBack file backRead) with
    | some posFound => if posFound ≠ 0 then .done posFound else .next (nextBack file backRead)
    | none => .next (nextBack file backRead)

theorem searchStep_next {tag file : List UInt8} {b b' : ℕ} (h : searchStep tag file b = .next b') :
    b < maxBack file ∧ b' = nextBack file b := by
  unfold searchStep at h
  split_ifs at h with hend
  split at h
  · split_ifs at h
    cases h
    exact ⟨not_le.mp hend, rfl⟩
  · cases h
    exact ⟨not_le.mp hend, rfl⟩

def searchLoop (tag file : List UInt8) : Loop ℕ ℕ where
  step := searchStep tag file
  measure b := maxBack file - b
  decreasing b b' h := by
    obtain ⟨h1, rfl⟩ := searchStep_next h
    have hpos : 0 < bufReadComment := by decide
    rw [nextBack]
    split_ifs <;> omega

def search (tag file : List UInt8) : ℕ := (searchLoop tag file).exec 4

end Search

section Open

def le : List UInt8 → ℕ
  | [] => 0
  | b :: bs => b.toNat + 2 ^ 8 * le bs

def getBytes (n : ℕ) (file : List UInt8) (pos : ℕ) : Option ℕ :=
  if ((file.drop pos).take n).length = n then some (le ((file.drop pos).take n)) else none

def getShort : List UInt8 → ℕ → Option ℕ := getBytes 2

def getLong : List UInt8 → ℕ → Option ℕ := getBytes 4

def getLong64 : List UInt8 → ℕ → Option ℕ := getBytes 8

def zip64Record (file : List UInt8) (posFound : ℕ) : Option ℕ :=
  (getLong file posFound).bind fun _ =>
  (getLong file (posFound + 4)).bind fun disk =>
  if disk ≠ 0 then none
  else
    (getLong64 file (posFound + 8)).bind fun relativeOffset =>
    (getLong file (posFound + 16)).bind fun disks =>
    if disks ≠ 1 then none
    else
      (getLong file relativeOffset).bind fun signature =>
      if signature ≠ zip64Signature then none else some relativeOffset

def searchCentralDir64 (file : List UInt8) : ℕ :=
  let posFound := search zip64LocatorMarker file
  if posFound = 0 then 0 else (zip64Record file posFound).getD 0

theorem searchCentralDir64_eq (file : List UInt8) : searchCentralDir64 file =
    if search zip64LocatorMarker file = 0 then 0
    else (zip64Record file (search zip64LocatorMarker file)).getD 0 := rfl

structure UnzDirectory where
  centralPos : ℕ
  numberEntry : ℕ
  sizeCentralDir : ℕ
  offsetCentralDir : ℕ
  deriving DecidableEq

def zip64Directory (file : List UInt8) (centralPos : ℕ) : Option UnzDirectory :=
  (getLong file centralPos).bind fun _ =>
  (getLong64 file (centralPos + 4)).bind fun _ =>
  (getShort file (centralPos + 12)).bind fun _ =>
  (getShort file (centralPos + 14)).bind fun _ =>
  (getLong file (centralPos + 16)).bind fun numberDisk =>
  (getLong file (centralPos + 20)).bind fun numberDiskWithCD =>
  (getLong64 file (centralPos + 24)).bind fun numberEntry =>
  (getLong64 file (centralPos + 32)).bind fun numberEntryCD =>
  if numberEntryCD ≠ numberEntry ∨ numberDiskWithCD ≠ 0 ∨ numberDisk ≠ 0 then none
  else
    (getLong64 file (centralPos + 40)).bind fun sizeCentralDir =>
    (getLong64 file (centralPos + 48)).bind fun offsetCentralDir =>
    some ⟨centralPos, numberEntry, sizeCentralDir, offsetCentralDir⟩

def eocdDirectory (file : List UInt8) (centralPos : ℕ) : Option UnzDirectory :=
  (getLong file centralPos).bind fun _ =>
  (getShort file (centralPos + 4)).bind fun numberDisk =>
  (getShort file (centralPos + 6)).bind fun numberDiskWithCD =>
  (getShort file (centralPos + 8)).bind fun numberEntry =>
  (getShort file (centralPos + 10)).bind fun numberEntryCD =>
  if numberEntryCD ≠ numberEntry ∨ numberDiskWithCD ≠ 0 ∨ numberDisk ≠ 0 then none
  else
    (getLong file (centralPos + 12)).bind fun sizeCentralDir =>
    (getLong file (centralPos + 16)).bind fun offsetCentralDir =>
    (getShort file (centralPos + 20)).bind fun _ =>
    some ⟨centralPos, numberEntry, sizeCentralDir, offsetCentralDir⟩

def UnzDirectory.checked (d : UnzDirectory) : Option UnzDirectory :=
  if d.centralPos < (d.offsetCentralDir + d.sizeCentralDir) % 2 ^ 64 then none else some d

def unzOpenInternal (file : List UInt8) : Option UnzDirectory :=
  let centralPos := searchCentralDir64 file
  if centralPos ≠ 0 then (zip64Directory file centralPos).bind UnzDirectory.checked
  else
    let centralPos := search eocdMarker file
    if centralPos = 0 then none else (eocdDirectory file centralPos).bind UnzDirectory.checked

theorem unzOpenInternal_eq (file : List UInt8) : unzOpenInternal file =
    if searchCentralDir64 file ≠ 0 then (zip64Directory file (searchCentralDir64 file)).bind UnzDirectory.checked
    else if search eocdMarker file = 0 then none
    else (eocdDirectory file (search eocdMarker file)).bind UnzDirectory.checked := rfl

def UnzDirectory.byteBeforeTheZipfile (d : UnzDirectory) : ℕ :=
  d.centralPos - (d.offsetCentralDir + d.sizeCentralDir) % 2 ^ 64

def UnzDirectory.place (d : UnzDirectory) : ℕ × ℕ :=
  ((d.byteBeforeTheZipfile + d.offsetCentralDir) % 2 ^ 64, d.numberEntry)

def selected (file : List UInt8) : Option (ℕ × ℕ) := (unzOpenInternal file).map UnzDirectory.place

end Open

section Searches

variable {tag file : List UInt8} {hit : ℕ → Bool} {b b' i j n r : ℕ}

theorem scanDown_some (h : scanDown hit n = some i) :
    i < n ∧ hit i = true ∧ ∀ j, i < j → j < n → hit j = false := by
  induction n with
  | zero => cases h
  | succ n ih =>
    rw [scanDown] at h
    split_ifs at h with hn
    · obtain rfl := Option.some.inj h
      exact ⟨Nat.lt_succ_self n, hn, fun j h1 h2 => by omega⟩
    · obtain ⟨h1, h2, h3⟩ := ih h
      refine ⟨by omega, h2, fun j h4 h5 => ?_⟩
      rcases Nat.lt_succ_iff_lt_or_eq.mp h5 with hlt | rfl
      · exact h3 j h4 hlt
      · exact Bool.eq_false_iff.mpr hn

theorem scanDown_none (h : scanDown hit n = none) : ∀ j < n, hit j = false := by
  induction n with
  | zero => exact fun j hj => absurd hj (Nat.not_lt_zero j)
  | succ n ih =>
    rw [scanDown] at h
    split_ifs at h with hn
    intro j hj
    rcases Nat.lt_succ_iff_lt_or_eq.mp hj with hlt | rfl
    · exact ih h j hlt
    · exact Bool.eq_false_iff.mpr hn

theorem tagAt_window {q : ℕ} (h : i + 4 ≤ n) : tagAt tag ((file.drop q).take n) i = tagAt tag file (q + i) := by
  rw [tagAt, tagAt, List.drop_take, List.take_take, List.drop_drop, Nat.min_eq_left (by omega)]

def InReach (file : List UInt8) (i : ℕ) : Prop := file.length - maxBack file ≤ i

instance (file : List UInt8) (i : ℕ) : Decidable (InReach file i) := Nat.decLe _ _

structure Found (tag file : List UInt8) (r : ℕ) : Prop where
  reach : InReach file r
  room : r + 4 ≤ file.length
  hit : tagAt tag file r = true
  last : ∀ j, r < j → j + 4 ≤ file.length → tagAt tag file j = false

def Searched (tag file : List UInt8) (b : ℕ) : Prop :=
  ∀ j, j + 4 ≤ file.length → j ≠ 0 → file.length - b < j ∨ 4 < b ∧ file.length - b ≤ j → tagAt tag file j = false

theorem nextBack_le (h : b < maxBack file) : b < nextBack file b ∧ nextBack file b ≤ maxBack file ∧
    nextBack file b ≤ b + bufReadComment := by
  have hpos : 0 < bufReadComment := by decide
  rw [nextBack]
  split_ifs <;> omega

theorem le_readSize : readSize b ≤ b := by
  rw [readSize]
  split_ifs <;> omega

theorem beyond_window (hlt : b < maxBack file) (hj : j + 4 ≤ file.length)
    (hout : file.length - nextBack file b + readSize (nextBack file b) < j + 4) : file.length - b < j := by
  obtain ⟨h1, h2, h3⟩ := nextBack_le hlt
  have hmax : maxBack file ≤ file.length := Nat.min_le_right _ _
  rw [bufReadComment] at h3
  rw [readSize, bufReadComment] at hout
  split_ifs at hout <;> omega

theorem searchStep_searched (hb : 4 ≤ b) (h : Searched tag file b) (hlt : b < maxBack file)
    (hnone : ∀ i, i ≠ 0 → searchWindow tag file (nextBack file b) ≠ some i) : Searched tag file (nextBack file b) := by
  obtain ⟨h1, h2, h3⟩ := nextBack_le hlt
  have hmax : maxBack file ≤ file.length := Nat.min_le_right _ _
  have hback : file.length - (file.length - nextBack file b) = nextBack file b := by omega
  intro j hj hne hin
  by_cases hout : file.length - nextBack file b + readSize (nextBack file b) < j + 4
  · exact h j hj hne (.inl (beyond_window hlt hj hout))
  rw [searchWindow, hback] at hnone
  obtain ⟨i, rfl⟩ := Nat.exists_eq_add_of_le (show file.length - nextBack file b ≤ j by omega)
  cases hscan : scanDown (tagAt tag ((file.drop (file.length - nextBack file b)).take (readSize (nextBack file b))))
      (readSize (nextBack file b) - 3) with
  | none => exact (tagAt_window (by omega)).symm.trans (scanDown_none hscan i (by omega))
  | some k =>
    -- only the marker at the start of the file is passed over
    have hzero := hnone (file.length - nextBack file b + k)
    rw [hscan] at hzero
    have hk : file.length - nextBack file b + k = 0 := by
      by_contra hpos
      exact hzero hpos rfl
    obtain ⟨-, -, hlast⟩ := scanDown_some hscan
    exact (tagAt_window (by omega)).symm.trans (hlast i (by omega) (by omega))

theorem searchStep_found (h : Searched tag file b) (hlt : b < maxBack file)
    (hsome : searchWindow tag file (nextBack file b) = some r) : Found tag file r := by
  obtain ⟨h1, h2, h3⟩ := nextBack_le hlt
  have hmax : maxBack file ≤ file.length := Nat.min_le_right _ _
  have hback : file.length - (file.length - nextBack file b) = nextBack file b := by omega
  have hsize := @le_readSize (nextBack file b)
  rw [searchWindow, hback] at hsome
  obtain ⟨i, hscan, rfl⟩ := Option.map_eq_some_iff.mp hsome
  obtain ⟨hi, hhit, hlast⟩ := scanDown_some hscan
  rw [tagAt_window (by omega)] at hhit
  refine ⟨?_, by omega, hhit, fun j hj hroom => ?_⟩
  · rw [InReach]
    omega
  · by_cases hout : file.length - nextBack file b + readSize (nextBack file b) < j + 4
    · exact h j hroom (by omega) (.inl (beyond_window hlt hroom hout))
    · obtain ⟨k, rfl⟩ := Nat.exists_eq_add_of_le (show file.length - nextBack file b ≤ j by omega)
      exact (tagAt_window (by omega)).symm.trans (hlast k (by omega) (by omega))

theorem search_found (tag file : List UInt8) :
    (search tag file = 0 ∧ ∀ j, j ≠ 0 → InReach file j → j + 4 ≤ file.length → tagAt tag file j = false) ∨
      search tag file ≠ 0 ∧ Found tag file (search tag file) := by
  apply (searchLoop tag file).exec_rule (I := fun b => 4 ≤ b ∧ Searched tag file b)
    (Q := fun r => (r = 0 ∧ ∀ j, j ≠ 0 → InReach file j → j + 4 ≤ file.length → tagAt tag file j = false) ∨
      r ≠ 0 ∧ Found tag file r)
  · rintro b b' ⟨hb, hsearched⟩ hstep
    have hstep : searchStep tag file b = .next b' := hstep
    obtain ⟨hlt, rfl⟩ := searchStep_next hstep
    have hnext := nextBack_le hlt
    refine ⟨by omega, searchStep_searched hb hsearched hlt fun i hi hsome => ?_⟩
    rw [searchStep, if_neg (not_le.mpr hlt), hsome] at hstep
    dsimp only at hstep
    rw [if_pos hi] at hstep
    cases hstep
  · rintro b r ⟨hb, hsearched⟩ hstep
    have hstep : searchStep tag file b = .done r := hstep
    unfold searchStep at hstep
    split_ifs at hstep with hend
    · cases hstep
      refine .inl ⟨rfl, fun j hne hreach hroom => hsearched j hroom hne ?_⟩
      rw [InReach] at hreach
      rw [maxBack] at hreach hend
      omega
    · split at hstep
      · rename_i posFound hsome
        split_ifs at hstep with hne
        cases hstep
        exact .inr ⟨hne, searchStep_found hsearched (not_le.mp hend) hsome⟩
      · cases hstep
  · exact ⟨le_rfl, fun j hj hne hin => by omega⟩

end Searches

section Reads

variable {A B : List UInt8} {q k n m : ℕ}

theorem getBytes_congr (h : (A.drop q).take m = (B.drop q).take m) (hk : k + n ≤ m) :
    getBytes n A (q + k) = getBytes n B (q + k) := by
  have hpart (F : List UInt8) : (F.drop (q + k)).take n = (((F.drop q).take m).drop k).take n := by
    rw [List.drop_take, List.take_take, List.drop_drop, Nat.min_eq_left (by omega)]
  rw [getBytes, getBytes, hpart A, hpart B, h]

theorem getBytes_isSome {file : List UInt8} (h : q + n ≤ file.length) : (getBytes n file q).isSome = true := by
  have hlen : ((file.drop q).take n).length = n := by
    rw [List.length_take, List.length_drop]
    omega
  rw [getBytes, if_pos hlen]
  rfl

theorem zip64Record_congr (h : (A.drop q).take 20 = (B.drop q).take 20)
    (hrecord : ∀ r, getLong64 A (q + 8) = some r → (A.drop r).take 56 = (B.drop r).take 56) :
    zip64Record A q = zip64Record B q := by
  have h0 : getLong A q = getLong B q := getBytes_congr (k := 0) h (by omega)
  have h4 : getLong A (q + 4) = getLong B (q + 4) := getBytes_congr h (by omega)
  have h8 : getLong64 A (q + 8) = getLong64 B (q + 8) := getBytes_congr h (by omega)
  have h16 : getLong A (q + 16) = getLong B (q + 16) := getBytes_congr h (by omega)
  rw [zip64Record, zip64Record, h0, h4, h16, ← h8]
  cases hr : getLong64 A (q + 8) with
  | none => rfl
  | some r =>
    have hsignature : getLong A r = getLong B r := getBytes_congr (k := 0) (hrecord r hr) (by omega)
    simp only [Option.bind_some, hsignature]

theorem zip64Record_place {file : List UInt8} {r : ℕ} (h : zip64Record file q = some r) :
    getLong64 file (q + 8) = some r := by
  unfold zip64Record at h
  obtain ⟨_, -, h⟩ := Option.bind_eq_some_iff.mp h
  obtain ⟨disk, -, h⟩ := Option.bind_eq_some_iff.mp h
  split_ifs at h
  obtain ⟨r', hr, h⟩ := Option.bind_eq_some_iff.mp h
  obtain ⟨disks, -, h⟩ := Option.bind_eq_some_iff.mp h
  split_ifs at h
  obtain ⟨signature, -, h⟩ := Option.bind_eq_some_iff.mp h
  split_ifs at h
  rw [hr, h]

theorem zip64Directory_congr (h : (A.drop q).take 56 = (B.drop q).take 56) : zip64Directory A q = zip64Directory B q := by
  have h0 : getLong A q = getLong B q := getBytes_congr (k := 0) h (by omega)
  have hshort (k : ℕ) (hk : k + 2 ≤ 56) : getShort A (q + k) = getShort B (q + k) := getBytes_congr h hk
  have hlong (k : ℕ) (hk : k + 4 ≤ 56) : getLong A (q + k) = getLong B (q + k) := getBytes_congr h hk
  have hlong64 (k : ℕ) (hk : k + 8 ≤ 56) : getLong64 A (q + k) = getLong64 B (q + k) := getBytes_congr h hk
  rw [zip64Directory, zip64Directory, h0, hlong64 4 (by omega), hshort 12 (by omega), hshort 14 (by omega),
    hlong 16 (by omega), hlong 20 (by omega), hlong64 24 (by omega), hlong64 32 (by omega), hlong64 40 (by omega),
    hlong64 48 (by omega)]

theorem eocdDirectory_congr (h : (A.drop q).take 20 = (B.drop q).take 20) (hA : q + 22 ≤ A.length)
    (hB : q + 22 ≤ B.length) : eocdDirectory A q = eocdDirectory B q := by
  have h0 : getLong A q = getLong B q := getBytes_congr (k := 0) h (by omega)
  have hshort (k : ℕ) (hk : k + 2 ≤ 20) : getShort A (q + k) = getShort B (q + k) := getBytes_congr h hk
  have hlong (k : ℕ) (hk : k + 4 ≤ 20) : getLong A (q + k) = getLong B (q + k) := getBytes_congr h hk
  obtain ⟨a, ha⟩ := Option.isSome_iff_exists.mp (show (getShort A (q + 20)).isSome = true from getBytes_isSome hA)
  obtain ⟨b, hb⟩ := Option.isSome_iff_exists.mp (show (getShort B (q + 20)).isSome = true from getBytes_isSome hB)
  rw [eocdDirectory, eocdDirectory, h0, hshort 4 (by omega), hshort 6 (by omega), hshort 8 (by omega),
    hshort 10 (by omega), hlong 12 (by omega), hlong 16 (by omega), ha, hb]
  rfl

end Reads

section Signed

variable {A B file : List UInt8} {i j : ℕ}

def eocdStart (file : List UInt8) : ℕ := file.length - eocdSize file

def signedPrefix (file : List UInt8) : List UInt8 := file.take (eocdStart file + eocdHeaderSize - 2)

theorem tagAt_apart {p k : ℕ} (h : tagAt eocdMarker file p = true) (hpos : 0 < k) (hk : k < 4) :
    tagAt eocdMarker file (p + k) = false := by
  have htake : (file.drop p).take 4 = eocdMarker := eq_of_beq h
  have hsplit : file.drop p = eocdMarker ++ file.drop (p + 4) := by
    rw [← htake, ← List.drop_drop, List.take_append_drop]
  rw [tagAt, ← List.drop_drop, hsplit]
  obtain rfl | rfl | rfl : k = 1 ∨ k = 2 ∨ k = 3 := by omega
  all_goals
    apply beq_false_of_ne
    intro heq
    cases heq

theorem eocd_marked (h : EndsInEocd file) : eocdStart file + eocdSize file = file.length ∧
    tagAt eocdMarker file (eocdStart file) = true ∧
    ∀ j, eocdStart file < j → j + 4 ≤ file.length → tagAt eocdMarker file j = false := by
  have hsize : 22 ≤ eocdSize file := Nat.le_add_left _ _
  have hroom := h.room
  have hlen : eocdStart file + eocdSize file = file.length := by
    rw [eocdStart]
    omega
  have hrecord (k : ℕ) : markerAt (eocdRecord file) k = tagAt eocdMarker file (eocdStart file + k) := by
    rw [markerAt, eocdRecord, List.drop_drop]
    rfl
  have hstart := h.start
  rw [hrecord] at hstart
  refine ⟨hlen, hstart, fun j hj hend => ?_⟩
  obtain ⟨k, rfl⟩ := Nat.exists_eq_add_of_le hj.le
  by_cases hk : k < 4
  · exact tagAt_apart hstart (by omega) hk
  · rw [← hrecord]
    exact h.once k (not_lt.mp hk) (by omega)

theorem eocd_searched (h : EndsInEocd file) : (InReach file (eocdStart file) → search eocdMarker file = eocdStart file) ∧
    (¬InReach file (eocdStart file) → search eocdMarker file = 0) := by
  have hsize : 22 ≤ eocdSize file := Nat.le_add_left _ _
  obtain ⟨hlen, hhit, hlast⟩ := eocd_marked h
  rcases search_found eocdMarker file with ⟨hzero, hnone⟩ | ⟨-, hfound⟩
  · refine ⟨fun hreach => ?_, fun _ => hzero⟩
    by_contra hne
    rw [hnone _ (fun hp => hne (by rw [hzero, hp])) hreach (by omega)] at hhit
    cases hhit
  · have heq : search eocdMarker file = eocdStart file := by
      rcases Nat.lt_trichotomy (search eocdMarker file) (eocdStart file) with hlt | heq | hgt
      · rw [hfound.last _ hlt (by omega)] at hhit
        cases hhit
      · exact heq
      · have := hfound.hit
        rw [hlast _ hgt hfound.room] at this
        cases this
    exact ⟨fun _ => heq, fun hout => absurd (heq ▸ hfound.reach) hout⟩

end Signed

/-- Nothing that the extractor reads differs between the two files: their last zip64 locators in reach stand at the same
place and lead to the same record, if there are any, and the records at the end are in reach in both or in neither. -/
structure Undisturbed (A B : List UInt8) : Prop where
  locator : ∀ i, i ≠ 0 → (Found zip64LocatorMarker A i ↔ Found zip64LocatorMarker B i)
  located : ∀ i, i ≠ 0 → Found zip64LocatorMarker A i → (A.drop i).take 20 = (B.drop i).take 20
  record : ∀ i r, i ≠ 0 → Found zip64LocatorMarker A i → getLong64 A (i + 8) = some r →
    (A.drop r).take 56 = (B.drop r).take 56
  eocd : InReach A (eocdStart A) ↔ InReach B (eocdStart B)

section Same

variable {A B tag file : List UInt8} {i j : ℕ}

theorem Found.unique (h : Found tag file i) (h' : Found tag file j) : i = j := by
  rcases Nat.lt_trichotomy i j with hlt | heq | hgt
  · have := h.last j hlt h'.room
    rw [h'.hit] at this
    cases this
  · exact heq
  · have := h'.last i hgt h.room
    rw [h.hit] at this
    cases this

theorem search_eq_iff (hi : i ≠ 0) : search tag file = i ↔ Found tag file i := by
  constructor
  · rintro rfl
    rcases search_found tag file with ⟨hzero, -⟩ | ⟨-, hfound⟩
    · exact absurd hzero hi
    · exact hfound
  · intro h
    rcases search_found tag file with ⟨-, hnone⟩ | ⟨-, hfound⟩
    · have := hnone i hi h.reach h.room
      rw [h.hit] at this
      cases this
    · exact hfound.unique h

theorem Undisturbed.searched (h : Undisturbed A B) : search zip64LocatorMarker A = search zip64LocatorMarker B := by
  by_cases hA : search zip64LocatorMarker A = 0
  · by_contra hne
    rw [hA] at hne
    have hfound := (h.locator _ (Ne.symm hne)).mpr ((search_eq_iff (Ne.symm hne)).mp rfl)
    exact hne (hA.symm.trans ((search_eq_iff (Ne.symm hne)).mpr hfound))
  · exact ((search_eq_iff hA).mpr ((h.locator _ hA).mp ((search_eq_iff hA).mp rfl))).symm

theorem Undisturbed.recorded (h : Undisturbed A B) : searchCentralDir64 A = searchCentralDir64 B ∧
    (searchCentralDir64 A ≠ 0 →
      zip64Directory A (searchCentralDir64 A) = zip64Directory B (searchCentralDir64 A)) := by
  rw [searchCentralDir64_eq, searchCentralDir64_eq, ← h.searched]
  by_cases hne : search zip64LocatorMarker A = 0
  · rw [if_pos hne, if_pos hne]
    exact ⟨rfl, fun hpos => absurd rfl hpos⟩
  rw [if_neg hne, if_neg hne]
  have hfound := (search_eq_iff hne).mp rfl
  rw [← zip64Record_congr (h.located _ hne hfound) fun r => h.record _ r hne hfound]
  refine ⟨rfl, fun hpos => ?_⟩
  cases hr : zip64Record A (search zip64LocatorMarker A) with
  | none =>
    rw [hr] at hpos
    exact absurd rfl hpos
  | some r => exact zip64Directory_congr (h.record _ r hne hfound (zip64Record_place hr))

variable (hA : EndsInEocd A) (hB : EndsInEocd B) (hsigned : signedPrefix A = signedPrefix B)

include hA hB hsigned

theorem same_start : eocdStart A = eocdStart B := by
  have hsizeA : 22 ≤ eocdSize A := Nat.le_add_left _ _
  have hsizeB : 22 ≤ eocdSize B := Nat.le_add_left _ _
  have hlenA := (eocd_marked hA).1
  have hlenB := (eocd_marked hB).1
  have hlen := congrArg List.length hsigned
  rw [signedPrefix, signedPrefix, List.length_take, List.length_take, eocdHeaderSize] at hlen
  omega

theorem same_bytes {k m : ℕ} (h : k + m ≤ eocdStart A + 20) : (A.drop k).take m = (B.drop k).take m := by
  have hstart := same_start hA hB hsigned
  have hpart (F : List UInt8) (hF : eocdStart F = eocdStart A) :
      (F.drop k).take m = ((signedPrefix F).drop k).take m := by
    rw [signedPrefix, List.drop_take, List.take_take, hF, eocdHeaderSize, Nat.min_eq_left (by omega)]
  rw [hpart A rfl, hpart B hstart.symm, hsigned]

theorem same_eocd (h : InReach A (eocdStart A) ↔ InReach B (eocdStart B)) :
    search eocdMarker A = search eocdMarker B ∧ (search eocdMarker A ≠ 0 →
      eocdDirectory A (search eocdMarker A) = eocdDirectory B (search eocdMarker A)) := by
  have hsizeA : 22 ≤ eocdSize A := Nat.le_add_left _ _
  have hsizeB : 22 ≤ eocdSize B := Nat.le_add_left _ _
  have hlenA := (eocd_marked hA).1
  have hlenB := (eocd_marked hB).1
  have hstart := same_start hA hB hsigned
  by_cases hreach : InReach A (eocdStart A)
  · rw [(eocd_searched hA).1 hreach, (eocd_searched hB).1 (h.mp hreach)]
    refine ⟨hstart, fun _ => ?_⟩
    exact eocdDirectory_congr (same_bytes hA hB hsigned le_rfl) (by omega) (by omega)
  · rw [(eocd_searched hA).2 hreach, (eocd_searched hB).2 (fun hr => hreach (h.mpr hr))]
    exact ⟨rfl, fun hne => absurd rfl hne⟩

omit hA hB hsigned in
theorem undisturbed_of_none (hA : search zip64LocatorMarker A = 0) (hB : search zip64LocatorMarker B = 0)
    (hreachA : InReach A (eocdStart A)) (hreachB : InReach B (eocdStart B)) : Undisturbed A B := by
  have hnone {F : List UInt8} (hF : search zip64LocatorMarker F = 0) (i : ℕ) (hi : i ≠ 0) :
      ¬Found zip64LocatorMarker F i := by
    intro h
    exact hi (((search_eq_iff hi).mpr h).symm.trans hF)
  refine ⟨fun i hi => ?_, fun i hi h => ?_, fun i r hi h => ?_, iff_of_true hreachA hreachB⟩
  · exact iff_of_false (hnone hA i hi) (hnone hB i hi)
  · exact absurd h (hnone hA i hi)
  · exact absurd h (hnone hA i hi)

theorem same_selected (h : Undisturbed A B) : selected A = selected B := by
  obtain ⟨hrecord, hzip64⟩ := h.recorded
  obtain ⟨hsearch, heocd⟩ := same_eocd hA hB hsigned h.eocd
  rw [selected, selected, unzOpenInternal_eq, unzOpenInternal_eq, ← hrecord, ← hsearch]
  split_ifs with h1 h2
  · rw [hzip64 h1]
  · rfl
  · rw [heocd h2]

end Same

theorem ends_of_verified {Key : Type} {rsaVerify : Key → RsaCall → Bool} {keys : List Key} {file : List UInt8}
    (h : (verifyFile rsaVerify keys (some file)).1 = true) : EndsInEocd file := by
  rw [verifyFile, Option.bind_some] at h
  cases hcall : rsaCall file with
  | none =>
    rw [hcall] at h
    cases h
  | some call => exact ((rsaCall_iff file call).mp hcall).1

/-- Of two packages with the same signed bytes the same directory is extracted, unless the comments disturb the search. -/
theorem signed_directory {Key : Type} (rsaVerify : Key → RsaCall → Bool) (keys : List Key) (A B : List UInt8)
    (hA : (verifyFile rsaVerify keys (some A)).1 = true) (hB : (verifyFile rsaVerify keys (some B)).1 = true)
    (hsigned : signedPrefix A = signedPrefix B) (h : Undisturbed A B) : selected A = selected B :=
  same_selected (ends_of_verified hA) (ends_of_verified hB) hsigned h

section Small

def signedPart : List UInt8 := [0] ++ eocdMarker ++ List.replicate 16 0

def package (comment : List UInt8) : List UInt8 :=
  let size : List UInt8 := [.ofNat (comment.length + 262), .ofNat ((comment.length + 262) / 2 ^ 8)]
  signedPart ++ size ++ comment ++ List.replicate 256 0 ++ [6, 1, 0xff, 0xff] ++ size

def zip64Comment : List UInt8 :=
  [0x50, 0x4b, 6, 6] ++ List.replicate 20 0 ++ [1, 0, 0, 0, 0, 0, 0, 0, 1] ++ List.replicate 23 0 ++
    zip64LocatorMarker ++ [0, 0, 0, 0, 23, 0, 0, 0, 0, 0, 0, 0, 1, 0, 0, 0]

def rsaVerifySmall (_ : Unit) (call : RsaCall) : Bool :=
  (call.eocd.drop call.signature.toNat).take rsaNumBytes == List.replicate 256 0 && call.signed == signedPart

theorem package_verified : (verifyFile rsaVerifySmall [()] (some (package []))).1 = true := by decide +kernel

theorem signed_directory_small : selected (package []) = selected (package [1]) :=
  signed_directory rsaVerifySmall [()] (package []) (package [1]) package_verified (by decide +kernel)
    (by decide +kernel) (undisturbed_of_none (by decide +kernel) (by decide +kernel) (by decide +kernel) (by decide +kernel))

/-- With the record and the locator in the comment, entries are taken from the comment too. -/
theorem comment_redirects : (verifyFile rsaVerifySmall [()] (some (package []))).1 = true ∧
    (verifyFile rsaVerifySmall [()] (some (package zip64Comment))).1 = true ∧
    signedPrefix (package []) = signedPrefix (package zip64Comment) ∧
    selected (package []) ≠ selected (package zip64Comment) := by
  have hselected : selected (package []) = some (1, 0) ∧ selected (package zip64Comment) = some (23, 1) := by
    decide +kernel
  refine ⟨package_verified, by decide +kernel, by decide +kernel, ?_⟩
  rw [hselected.1, hselected.2]
  decide

end Small

end LinuxRecovery.ArchiveDirectory
