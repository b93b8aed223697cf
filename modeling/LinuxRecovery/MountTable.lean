import LinuxRecovery.Uevent

namespace LinuxRecovery.MountTable

open Loops
open Uevent (Text bytes)

structure MountedVolume where
  device : Text
  mountPoint : Text
  filesystem : Text
  flags : Text
  deriving DecidableEq

def newline : UInt8 := 10

def blank : UInt8 := 32

def lineSize : ℕ := 2048

def isSpace (c : UInt8) : Bool := c == blank || (9 ≤ c && c ≤ 13)

def scanWord (width : ℕ) (s : Text) : Option (Text × Text) :=
  let s := s.dropWhile isSpace
  let word := (s.take width).takeWhile (fun c => !isSpace c)
  if word = [] then none else some (word, s.drop word.length)

def parseLine (line : Text) : Option MountedVolume :=
  (scanWord 63 (line.takeWhile (· ≠ 0))).bind fun (device, s) =>
    (scanWord 63 s).bind fun (mountPoint, s) =>
      (scanWord 63 s).bind fun (filesystem, s) =>
        (scanWord 127 s).map fun (flags, _) => ⟨device, mountPoint, filesystem, flags⟩

def fgets (size : ℕ) (s : Text) : Text :=
  let line := (s.take (size - 1)).takeWhile (· ≠ newline)
  s.take (min (size - 1) (line.length + 1))

structure ScanState where
  rest : Text
  list : List MountedVolume

def scanStep (st : ScanState) : Step ScanState (List MountedVolume) :=
  if st.rest = [] then .done st.list
  else
    let line := fgets lineSize st.rest
    .next ⟨st.rest.drop line.length, st.list ++ (parseLine line).toList⟩

theorem fgets_pos {s : Text} (h : s ≠ []) : 0 < (fgets lineSize s).length := by
  have := List.length_pos_iff.mpr h
  rw [fgets, List.length_take, lineSize]
  omega

def scanLoop : Loop ScanState (List MountedVolume) where
  step := scanStep
  measure := fun st => st.rest.length
  decreasing := by
    intro st st' h
    unfold scanStep at h
    split_ifs at h with hs
    cases h
    have := fgets_pos hs
    have := List.length_pos_iff.mpr hs
    rw [List.length_drop]
    omega

def scanMountedVolumes (procMounts : Text) : List MountedVolume := scanLoop.exec ⟨procMounts, []⟩

def mountLine (volume : MountedVolume) : Text :=
  volume.device ++ blank :: (volume.mountPoint ++ blank :: (volume.filesystem ++ blank :: (volume.flags ++
    blank :: [48, blank, 48])))

def printMount (volume : MountedVolume) : Text := mountLine volume ++ [newline]

def procMounts (table : List MountedVolume) : Text := table.flatMap printMount

structure IsWord (s : Text) : Prop where
  nonempty : s ≠ []
  solid : ∀ c ∈ s, isSpace c = false ∧ c ≠ 0

structure Printable (volume : MountedVolume) : Prop where
  device : IsWord volume.device
  mountPoint : IsWord volume.mountPoint
  filesystem : IsWord volume.filesystem
  flags : IsWord volume.flags
  deviceFits : volume.device.length ≤ 63
  mountPointFits : volume.mountPoint.length ≤ 63
  filesystemFits : volume.filesystem.length ≤ 63
  lineFits : (mountLine volume).length + 1 < lineSize

def kept (volume : MountedVolume) : MountedVolume := { volume with flags := volume.flags.take 127 }

theorem scanWord_blank (width : ℕ) {s : Text} : scanWord width (blank :: s) = scanWord width s := by
  rw [scanWord, List.dropWhile_cons_of_pos (by decide), scanWord]

theorem scanWord_word {s : Text} (h : IsWord s) {width : ℕ} (hwidth : 0 < width) (rest : Text) :
    scanWord width (s ++ blank :: rest) = some (s.take width, s.drop width ++ blank :: rest) := by
  have hdrop : (s ++ blank :: rest).dropWhile isSpace = s ++ blank :: rest := by
    cases s with
    | nil => exact absurd rfl h.nonempty
    | cons c s => rw [List.cons_append, List.dropWhile_cons_of_neg (by simp [(h.solid c (List.mem_cons_self ..)).1])]
  have htake : ((s ++ blank :: rest).take width).takeWhile (fun c => !isSpace c) = s.take width := by
    rw [List.take_append, List.takeWhile_append_of_pos]
    · cases hk : width - s.length with
      | zero => rw [List.take_zero, List.takeWhile_nil, List.append_nil]
      | succ k => rw [List.take_succ_cons, List.takeWhile_cons_of_neg (by decide), List.append_nil]
    · intro c hc
      simp [(h.solid c (List.mem_of_mem_take hc)).1]
  have hne : s.take width ≠ [] := by
    rw [Ne, List.take_eq_nil_iff, not_or]
    exact ⟨by omega, h.nonempty⟩
  rw [scanWord]
  simp only [hdrop, htake, if_neg hne]
  rcases Nat.le_total width s.length with hle | hle
  · rw [List.length_take, min_eq_left hle, List.drop_append_of_le_length hle]
  · rw [List.take_of_length_le hle, List.drop_of_length_le hle, List.drop_left, List.nil_append]

theorem IsWord.plain {s : Text} (h : IsWord s) : ∀ c ∈ s, c ≠ newline ∧ c ≠ 0 :=
  fun c hc => ⟨fun heq => absurd (h.solid c hc).1 (by rw [heq]; decide), (h.solid c hc).2⟩

theorem mountLine_plain {volume : MountedVolume} (h : Printable volume) : ∀ c ∈ mountLine volume, c ≠ newline ∧ c ≠ 0 := by
  have hblank : blank ≠ newline ∧ blank ≠ 0 := by decide
  have hzero : (48 : UInt8) ≠ newline ∧ (48 : UInt8) ≠ 0 := by decide
  simp only [mountLine, List.forall_mem_append, List.forall_mem_cons]
  exact ⟨h.device.plain, hblank, h.mountPoint.plain, hblank, h.filesystem.plain, hblank, h.flags.plain, hblank, hzero,
    hblank, hzero, nofun⟩

theorem fgets_line {line : Text} (h : ∀ c ∈ line, c ≠ newline ∧ c ≠ 0) (hfits : line.length + 1 < lineSize) (rest : Text) :
    fgets lineSize (line ++ [newline] ++ rest) = line ++ [newline] := by
  have hline : ((line ++ [newline] ++ rest).take (lineSize - 1)).takeWhile (· ≠ newline) = line := by
    obtain ⟨k, hk⟩ : ∃ k, lineSize - 1 - line.length = k + 1 := ⟨lineSize - 1 - line.length - 1, by omega⟩
    rw [List.append_assoc, List.take_append, List.take_of_length_le (by omega), hk, List.singleton_append,
      List.take_succ_cons, List.takeWhile_append_of_pos (fun c hc => by simpa using (h c hc).1),
      List.takeWhile_cons_of_neg (by simp), List.append_nil]
  have hlen : (line ++ [newline]).length = line.length + 1 := List.length_append
  rw [fgets]
  simp only [hline]
  rw [min_eq_right (by omega), ← hlen, List.take_left]

theorem parseLine_mountLine {volume : MountedVolume} (h : Printable volume) :
    parseLine (printMount volume) = some (kept volume) := by
  have hnul : (printMount volume).takeWhile (· ≠ 0) = printMount volume := by
    rw [List.takeWhile_eq_self_iff, printMount]
    simp only [List.forall_mem_append]
    exact ⟨fun c hc => by simp [(mountLine_plain h c hc).2], by simp [newline]⟩
  have htake {s : Text} {n : ℕ} (hs : s.length ≤ n) (rest : Text) : s.drop n ++ rest = rest := by
    rw [List.drop_of_length_le hs, List.nil_append]
  rw [parseLine, hnul, printMount, mountLine, List.append_assoc, List.cons_append, scanWord_word h.device (by norm_num),
    htake h.deviceFits, List.take_of_length_le h.deviceFits, Option.bind_some]
  dsimp only
  rw [scanWord_blank, List.append_assoc, List.cons_append, scanWord_word h.mountPoint (by norm_num),
    htake h.mountPointFits, List.take_of_length_le h.mountPointFits, Option.bind_some]
  dsimp only
  rw [scanWord_blank, List.append_assoc, List.cons_append, scanWord_word h.filesystem (by norm_num),
    htake h.filesystemFits, List.take_of_length_le h.filesystemFits, Option.bind_some]
  dsimp only
  rw [scanWord_blank, List.append_assoc, List.cons_append, scanWord_word h.flags (by norm_num)]
  rfl

theorem scan_from {table : List MountedVolume} (h : ∀ volume ∈ table, Printable volume) (list : List MountedVolume) :
    scanLoop.exec ⟨procMounts table, list⟩ = list ++ table.map kept := by
  induction table generalizing list with
  | nil => rw [List.map_nil, List.append_nil]; exact scanLoop.exec_done rfl
  | cons volume table ih =>
    have hv := h volume (List.mem_cons_self ..)
    have hline : fgets lineSize (procMounts (volume :: table)) = printMount volume :=
      fgets_line (mountLine_plain hv) hv.lineFits _
    have hstep : scanStep ⟨procMounts (volume :: table), list⟩ = .next ⟨procMounts table, list ++ [kept volume]⟩ := by
      unfold scanStep
      rw [if_neg]
      · simp only [hline, parseLine_mountLine hv, Option.toList_some]
        rw [procMounts, List.flatMap_cons, List.drop_left]
        rfl
      · simp [procMounts, printMount]
    rw [scanLoop.exec_next hstep, ih (fun v hmem => h v (List.mem_cons_of_mem _ hmem)), List.map_cons, List.append_assoc,
      List.singleton_append]

theorem scan_printed {table : List MountedVolume} (h : ∀ volume ∈ table, Printable volume) :
    scanMountedVolumes (procMounts table) = table.map kept := scan_from h []

end LinuxRecovery.MountTable
