import LinuxRecovery.PackageWalk

namespace LinuxRecovery.SliceSizes

open UpdateFile ManifestRead Packager UpdateRun PackageFiles PackageWalk

def chunkFile (fromfile : String) (partnum : ℕ) : String := basename fromfile ++ "_" ++ pad3 partnum

/-- The files are what `split` writes of the image, and what the packager's count and the updater's test, made with
what the updater reads of the image in the manifest, expect. -/
structure Slicing (bits : ℕ) (name : String) (content : Bytes) (size : ℕ) (files : List Bytes) : Prop where
  written : ∀ out, split name content size out =
    ((chunkPieces name 1 files).foldlM emit out).map (fun out => (out, files.length))
  stored : ∀ k out, Packed k out → ∃ out', split name content size out = some (out', files.length) ∧
    ∀ j chunk, files[j]? = some chunk →
      out'.entries (packdir (k + j + 1)) = some (.dir [(chunkFile name (j + 1), chunk)])
  whole : files.flatten = content
  sizes : ∀ j chunk, files[j]? = some chunk →
    1 ≤ chunk.length ∧ chunk.length ≤ size ∧ (j + 1 ≠ files.length → chunk.length = size)
  preset : ∀ imagetype slicesize mode,
    UpdateMode.getDefault imagetype .slice content.length slicesize = some mode → mode.size = size →
      mode.count = files.length
  checked : ∀ (p : Imageinfo) parentChild image, p.updatemode = ⟨.slice, size, files.length⟩ →
    parseImage ⟨.element "image" [], ManifestRoundTrip.imageChild bits p, parentChild⟩ = .ok image →
      ∀ (client : Client) path tr, client.bits = bits → ∀ j chunk, j < image.chunkcount.toNat →
        files[j]? = some chunk → client.stat tr path = some chunk.length →
          (sizeCheck client image.toImageInfo path (j + 1) tr).1 = some ()

section Chunks

variable {size : ℕ} {content : Bytes}

theorem readChunks_flatten (h : 0 < size) {fuel : ℕ} (hfuel : content.length ≤ fuel) :
    (readChunks size fuel content).flatten = content := by
  induction fuel generalizing content with
  | zero =>
    rw [readChunks, List.flatten_nil]
    exact (List.length_eq_zero_iff.mp (by omega)).symm
  | succ fuel ih =>
    rw [readChunks]
    split_ifs with hempty
    · exact ((List.take_eq_nil_iff.mp hempty).resolve_left (by omega)).symm
    · have hpos : 0 < content.length := by
        apply List.length_pos_iff.mpr
        rintro rfl
        exact hempty List.take_nil
      rw [List.flatten_cons, ih (by rw [List.length_drop]; omega)]
      exact List.take_append_drop size content

theorem readChunks_sizes (h : 0 < size) {j : ℕ} {chunk : Bytes}
    (hj : (readChunks size content.length content)[j]? = some chunk) :
    1 ≤ chunk.length ∧ chunk.length ≤ size ∧
      (j + 1 ≠ (readChunks size content.length content).length → chunk.length = size) := by
  obtain ⟨hlt, -⟩ := List.getElem?_eq_some_iff.mp hj
  rw [readChunks_getElem? h le_rfl j hlt] at hj
  obtain rfl := Option.some.inj hj
  rw [readChunks_length h le_rfl] at hlt ⊢
  rw [List.length_take, List.length_drop]
  have hbegin : j * size < content.length := by
    have := (Nat.le_div_iff_mul_le h).mp hlt
    rw [Nat.succ_mul] at this
    omega
  refine ⟨by omega, Nat.min_le_left _ _, fun hne => ?_⟩
  have hnext : (j + 1 + 1) * size ≤ content.length + size - 1 := (Nat.le_div_iff_mul_le h).mp (by omega)
  rw [Nat.succ_mul, Nat.succ_mul] at hnext
  omega

theorem chunkPieces_fresh (name : String) (k : ℕ) (chunks : List Bytes) (i : ℕ) (piece : Piece)
    (hi : (chunkPieces name 1 chunks)[i]? = some piece) : Fresh (k + i) piece := by
  rw [chunkPieces_getElem?] at hi
  obtain ⟨chunk, -, rfl⟩ := Option.map_eq_some_iff.mp hi
  exact ⟨rfl, fun j _ => numbered_not_packdir _ _ j⟩

end Chunks

section Check

variable {bits size : ℕ} {client : Client} {image : ImageInfo} {path : String} {tr : List Event} {j : ℕ}

theorem measured_iff (hbits : bits = 32 ∨ bits = 64) (size : ℕ) :
    getFileSize bits (some size) = ManifestRoundTrip.integerRead bits size ↔ bits = 64 ∨ size < 2 ^ 31 := by
  rw [getFileSize, ManifestRoundTrip.integerRead_eq hbits]
  rcases hbits with rfl | rfl
  · rw [or_iff_right (by decide)]
    constructor
    · intro h
      by_contra hlong
      rw [if_neg (by omega), Nat.min_eq_left (by omega)] at h
      revert h
      decide
    · intro hshort
      rw [if_pos (by omega), Nat.min_eq_right (by omega)]
  · refine iff_of_true ?_ (.inl rfl)
    split_ifs with hsize
    · rw [Nat.min_eq_right (by omega)]
    · rw [Nat.min_eq_left (by omega)]
      decide

theorem sizeCheck_last (h : j = image.chunkcount.toNat) : (sizeCheck client image path j tr).1 = some () := by
  rw [sizeCheck, if_neg (not_not.mpr h)]
  rfl

theorem sizeCheck_iff (h : j ≠ image.chunkcount.toNat) : (sizeCheck client image path j tr).1 = some () ↔
    getFileSize client.bits (client.stat tr path) = image.chunksize := by
  rw [sizeCheck, if_pos h, Traces.Prog.attempt]
  dsimp only
  split_ifs with heq
  · exact iff_of_true rfl (eq_of_beq heq)
  · exact iff_of_false not_false (fun hfile => heq (beq_iff_eq.mpr hfile))

end Check

section Slices

variable {bits size : ℕ} {name : String} {content : Bytes} {files : List Bytes}

theorem read_slices (hbits : bits = 32 ∨ bits = 64) {p : Imageinfo} {parentChild : Mxml.Nodes}
    {image : ManifestRead.UpdateImage} {count : ℕ} (hmode : p.updatemode = ⟨.slice, size, count⟩)
    (hparse : ManifestRead.parseImage ⟨.element "image" [], ManifestRoundTrip.imageChild bits p, parentChild⟩ = .ok image) :
    image.chunksize = ManifestRoundTrip.integerRead bits size ∧
      image.chunkcount = ManifestRoundTrip.integerRead bits count := by
  have hholds := PackagedImages.parseImage_holds hparse
  have hsize := hholds.chunksize hbits
  have hcount := hholds.chunkcount hbits
  rw [hmode] at hsize hcount
  exact ⟨hsize, hcount⟩

theorem readChunks_slicing (hbits : bits = 32 ∨ bits = 64) (name : String) (content : Bytes) (hsize : 0 < size)
    (hfit : bits = 64 ∨ size < 2 ^ 31 ∨ content.length ≤ size) :
    Slicing bits name content size (readChunks size content.length content) := by
  have hwritten : ∀ out, split name content size out =
      ((chunkPieces name 1 (readChunks size content.length content)).foldlM emit out).map
        (fun out => (out, (readChunks size content.length content).length)) := by
    intro out
    rw [split, splitFrom_eq]
  have hwhole := @readChunks_flatten size content hsize _ le_rfl
  have hsizes := fun j chunk => @readChunks_sizes size content hsize j chunk
  have hlength := @readChunks_length size content hsize _ le_rfl
  generalize readChunks size content.length content = files at hwritten hwhole hsizes hlength ⊢
  refine ⟨hwritten, fun k out hout => ?_, hwhole, hsizes, ?_, ?_⟩
  · obtain ⟨out', hrun, hdirs, -⟩ := run_fresh hout (chunkPieces_fresh name k files)
    refine ⟨out', by rw [hwritten, hrun, Option.map_some], fun j chunk hj => ?_⟩
    have hpiece : (chunkPieces name 1 files)[j]? = some ⟨chunkFile name (j + 1), chunkFile name (j + 1), chunk⟩ := by
      rw [chunkPieces_getElem?, hj, Option.map_some, Nat.add_comm 1 j]
      rfl
    exact hdirs j _ hpiece
  · intro imagetype slicesize mode hmode heq
    simp only [UpdateMode.getDefault] at hmode
    split_ifs at hmode
    obtain rfl := Option.some.inj hmode
    dsimp only at heq ⊢
    rw [heq, hlength]
  · intro p parentChild image hmode hparse client path tr hclient j chunk hj hchunk hfile
    obtain ⟨hchunksize, hchunkcount⟩ := read_slices hbits hmode hparse
    have hle : image.chunkcount.toNat ≤ files.length := hchunkcount ▸ integerRead_le hbits files.length
    by_cases hlast : j + 1 = image.chunkcount.toNat
    · exact sizeCheck_last hlast
    · have hfull := (hsizes j chunk hchunk).2.2 (by omega)
      rw [sizeCheck_iff hlast, hclient, hfile, hfull, hchunksize, measured_iff hbits]
      rcases hfit with h64 | hshort | hone
      · exact .inl h64
      · exact .inr hshort
      · -- an image of one chunk has no other than the last
        have hcount : (content.length + size - 1) / size < 2 := (Nat.div_lt_iff_lt_mul hsize).mpr (by omega)
        omega

theorem Slicing.fits (h : Slicing 32 name content size files) (hcontent : content ≠ []) :
    size < 2 ^ 31 ∨ content.length ≤ size := by
  by_contra hlong
  rw [not_or, not_lt, not_le] at hlong
  have hmany : 2 ≤ files.length := by
    have hwhole := h.whole
    have hsizes := h.sizes
    rcases files with _ | ⟨chunk, _ | ⟨next, files⟩⟩
    · exact absurd hwhole.symm hcontent
    · have hle := (hsizes 0 chunk rfl).2.1
      rw [← hwhole, List.flatten_singleton] at hlong
      omega
    · exact Nat.le_add_left 2 files.length
  have hbits : (32 : ℕ) = 32 ∨ (32 : ℕ) = 64 := .inl rfl
  obtain ⟨chunk, hchunk⟩ : ∃ chunk, files[0]? = some chunk := ⟨_, List.getElem?_eq_getElem (by omega)⟩
  have hfull : chunk.length = size := (h.sizes 0 chunk hchunk).2.2 (by omega)
  let p : Imageinfo := ⟨"image", 1, "normal", 0, ⟨.slice, size, files.length⟩⟩
  have hparse := ManifestRoundTrip.parse_image (p := p) hbits (by decide : ManifestRoundTrip.FitsName "image")
    (by decide : ManifestRoundTrip.FitsName "normal") (by decide : (0 : ℤ) < 2 ^ 64) (by decide : 1 < 2 ^ 64) .nil
  obtain ⟨hchunksize, hchunkcount⟩ := read_slices hbits rfl hparse
  have htwo : 2 ≤ (ManifestRoundTrip.readImage 32 p).chunkcount.toNat := by
    rw [hchunkcount, ManifestRoundTrip.integerRead_eq hbits, UInt32.toNat_ofNat']
    omega
  let client : Client := ⟨fun _ _ => true, 32, fun _ _ => some size, "", "", "", none, []⟩
  have hpasses := h.checked p .nil _ rfl hparse client "" [] rfl 0 chunk (by omega) hchunk (by rw [hfull])
  rw [sizeCheck_iff (by omega), hchunksize] at hpasses
  have hfit := (measured_iff hbits size).mp hpasses
  omega

end Slices

/-- Slicing loses nothing, and the three programs agree on the number of the files and their sizes, exactly if the
client's `long` holds the chunk size, or there is but one chunk. -/
theorem split_slicing_iff {bits : ℕ} (hbits : bits = 32 ∨ bits = 64) (name : String) (content : Bytes) (size : ℕ)
    (hcontent : content ≠ []) (hsize : 0 < size) :
    (∃ files, files ≠ [] ∧ Slicing bits name content size files) ↔
      bits = 64 ∨ size < 2 ^ 31 ∨ content.length ≤ size := by
  constructor
  · rintro ⟨files, -, h⟩
    rcases hbits with rfl | rfl
    · exact .inr (h.fits hcontent)
    · exact .inl rfl
  · intro hfit
    have hslicing := readChunks_slicing hbits name content hsize hfit
    refine ⟨_, fun hnil => hcontent ?_, hslicing⟩
    rw [← hslicing.whole, hnil, List.flatten_nil]

theorem split_slicing_iff_three : (∃ files, files ≠ [] ∧ Slicing 32 "rootfs" [1, 2, 3] 2 files) ↔
    (32 : ℕ) = 64 ∨ 2 < 2 ^ 31 ∨ [1, 2, 3].length ≤ 2 :=
  split_slicing_iff (.inl rfl) "rootfs" [1, 2, 3] 2 (List.cons_ne_nil _ _) two_pos

theorem two_gigabytes_refused :
    ¬∃ files, files ≠ [] ∧ Slicing 32 "rootfs" (List.replicate (2 ^ 31 + 1) 0) (2 ^ 31) files := by
  rintro ⟨files, -, h⟩
  have hne : List.replicate (2 ^ 31 + 1) (0 : UInt8) ≠ [] := by
    rw [List.replicate_succ]
    exact List.cons_ne_nil _ _
  have hfit := h.fits hne
  rw [List.length_replicate] at hfit
  omega

def slicebase : ℕ := 1024 * 1024

/-- What `cmdline_parse` leaves in the configuration: the option's number as it is, without the base. -/
def cmdlineSlicesize : Option ℕ → ℕ
  | none => slicebase
  | some slicesize => if slicesize ≠ 0 then slicesize else slicebase

def sliceUnit (imagetype : String) : ℕ :=
  if imagetype = "ubifs" then Packager.ubiLebSize
  else if imagetype = "yaffs2" then yaffs2BlockSize
  else nandflashBlockSize

theorem getSliceSize_eq (imagetype : String) (size : ℕ) :
    getSliceSize imagetype size = sliceUnit imagetype * (size / nandflashBlockSize) := rfl

theorem sliceUnit_pos (imagetype : String) : 0 < sliceUnit imagetype := by
  unfold sliceUnit
  split_ifs <;> decide

structure Usable (imagetype : String) (imagesize : ℕ) (mode : UpdateMode) : Prop where
  positive : 0 < mode.size
  units : sliceUnit imagetype ∣ mode.size
  needed : (mode.count - 1) * mode.size < imagesize
  enough : imagesize ≤ mode.count * mode.size

theorem getDefault_usable {imagetype : String} {imagesize slicesize : ℕ} (himage : 0 < imagesize)
    (hsize : 0 < getSliceSize imagetype slicesize) :
    ∃ mode, UpdateMode.getDefault imagetype .slice imagesize slicesize = some mode ∧ Usable imagetype imagesize mode := by
  have hmode : UpdateMode.getDefault imagetype .slice imagesize slicesize =
      some ⟨.slice, getSliceSize imagetype slicesize,
        (imagesize + getSliceSize imagetype slicesize - 1) / getSliceSize imagetype slicesize⟩ := by
    simp only [UpdateMode.getDefault]
    rw [if_neg hsize.ne']
  have hunits : sliceUnit imagetype ∣ getSliceSize imagetype slicesize := Dvd.intro _ rfl
  generalize getSliceSize imagetype slicesize = size at hsize hmode hunits
  have hle := Nat.div_mul_le_self (imagesize + size - 1) size
  have hlt := Nat.lt_div_mul_add hsize (a := imagesize + size - 1)
  refine ⟨_, hmode, hsize, hunits, ?_, ?_⟩
  · dsimp only
    rw [Nat.sub_mul, Nat.one_mul]
    omega
  · dsimp only
    omega

theorem slicesize_usable_iff (n : ℕ) (hn : 0 < n) (imagetype : String) (imagesize : ℕ) (himage : 0 < imagesize) :
    (∃ mode, UpdateMode.getDefault imagetype .slice imagesize (cmdlineSlicesize (some n)) = some mode ∧
      Usable imagetype imagesize mode) ↔ nandflashBlockSize ≤ n := by
  have harg : cmdlineSlicesize (some n) = n := if_pos hn.ne'
  rw [harg]
  constructor
  · rintro ⟨mode, hmode, -⟩
    by_contra hlt
    have hzero : getSliceSize imagetype n = 0 := by
      rw [getSliceSize_eq, Nat.div_eq_of_lt (not_le.mp hlt), Nat.mul_zero]
    simp only [UpdateMode.getDefault, hzero] at hmode
    cases hmode
  · intro hle
    apply getDefault_usable himage
    rw [getSliceSize_eq]
    exact Nat.mul_pos (sliceUnit_pos imagetype) (Nat.div_pos hle (by decide))

theorem slicesize_usable_iff_two : (∃ mode, UpdateMode.getDefault "ubifs" .slice 300000
      (cmdlineSlicesize (some 262144)) = some mode ∧ Usable "ubifs" 300000 mode) ↔ nandflashBlockSize ≤ 262144 :=
  slicesize_usable_iff 262144 (by decide) "ubifs" 300000 (by decide)

theorem slicesize_one_fails : ¬∃ mode, UpdateMode.getDefault "ubifs" .slice 300000
    (cmdlineSlicesize (some 1)) = some mode ∧ Usable "ubifs" 300000 mode := by
  rintro ⟨mode, hmode, -⟩
  have hfails : UpdateMode.getDefault "ubifs" .slice 300000 (cmdlineSlicesize (some 1)) = none := by decide
  rw [hfails] at hmode
  cases hmode

end LinuxRecovery.SliceSizes
