import LinuxRecovery.PackageFiles
import LinuxRecovery.PackagedImages

namespace LinuxRecovery.PackageWalk

open NumberText Mxml UpdateFile ManifestRead Packager UpdateRun PackageFiles PackagedImages

def chunkName (image : ImageInfo) (j : ℕ) : String :=
  if image.chunkcount = 1 then image.name else image.name ++ "_" ++ pad3 j

def chunkOf (p : Imageinfo) (content : Bytes) (j : ℕ) : Bytes :=
  match p.updatemode.type with
  | .full => content
  | .slice => (content.drop ((j - 1) * p.updatemode.size)).take p.updatemode.size

def imageWalk (image : UpdateImage) (p : Imageinfo) (content : Bytes) : List (String × Bytes) :=
  (List.range' 1 image.chunkcount.toNat).map (fun j => (chunkName image.toImageInfo j, chunkOf p content j))

def clientWalk (images : List UpdateImage) (sources : List (Imageinfo × Bytes)) : List (String × Bytes) :=
  (images.zip sources).flatMap (fun z => imageWalk z.1 z.2.1 z.2.2)

/-- The package at each index holds what the client looks for, and there are as many packages as chunks. -/
def Agree (image : Image) (devtype : String) (files : List Bytes) (update : UpdateInfo) : Prop :=
  ∃ out, PackageFiles.generate image devtype files = some (out, image.generate devtype) ∧
    (∀ k name content, (clientWalk update.list (image.imageinfo.zip files))[k]? = some (name, content) →
      ∃ fs, out.entries (packdir (k + 1)) = some (.dir fs) ∧ fs.lookup name = some content) ∧
    out.imagesum = (update.list.map (fun image => image.chunkcount.toNat)).sum

def packages (mode : UpdateMode) : ℕ :=
  match mode.type with
  | .full => 1
  | .slice => mode.count

structure Matches (bits k : ℕ) (p : Imageinfo) : Prop where
  plain : '/' ∉ p.name.toList
  short : p.name.utf8ByteSize < nameMax
  slice : p.updatemode.type = .slice → p.updatemode.count ≠ 1 ∧
    (p.updatemode.count < 2 ^ 31 ∨ bits = 64 ∧ p.updatemode.count < 2 ^ 32)
  full : p.updatemode.type = .full → ∀ j ≤ k + 1, p.name ≠ packdir j

def AllMatch (bits : ℕ) : ℕ → List Imageinfo → Prop
  | _, [] => True
  | k, p :: ps => Matches bits k p ∧ AllMatch bits (k + packages p.updatemode) ps

section Run

variable {k : ℕ} {out out' : Output} {pieces : List Piece}

theorem emit_imagesum {piece : Piece} (h : emit out piece = some out') : out'.imagesum = out.imagesum + 1 := by
  obtain ⟨out₁, hwrite, hprocess⟩ := Option.bind_eq_some_iff.mp h
  have hsum : out₁.imagesum = out.imagesum := by
    unfold writeFile at hwrite
    split at hwrite
    · cases hwrite
    · cases hwrite
      rfl
  unfold generateProcess move at hprocess
  dsimp only at hprocess
  rw [← hsum]
  split at hprocess
  · split at hprocess
    · split_ifs at hprocess
      cases hprocess
      rfl
    · cases hprocess
      rfl
  · cases hprocess

theorem run_imagesum (h : pieces.foldlM emit out = some out') : out'.imagesum = out.imagesum + pieces.length := by
  induction pieces generalizing out with
  | nil =>
    cases h
    rfl
  | cons piece pieces ih =>
    rw [List.foldlM_cons] at h
    obtain ⟨out₁, hrun, hrest⟩ := Option.bind_eq_some_iff.mp h
    rw [ih hrest, emit_imagesum hrun, List.length_cons]
    omega

theorem run_notDir {name : String} (h : pieces.foldlM emit out = some out') (hname : NotDir out name)
    (hlater : ∀ m, out.imagesum < m → name ≠ packdir m) : NotDir out' name := by
  induction pieces generalizing out with
  | nil =>
    cases h
    exact hname
  | cons piece pieces ih =>
    rw [List.foldlM_cons] at h
    obtain ⟨out₁, hrun, hrest⟩ := Option.bind_eq_some_iff.mp h
    obtain ⟨hname₁, hsum⟩ := emit_notDir hrun hname (hlater _ (by omega))
    exact ih hrest hname₁ fun m hm => hlater m (by omega)

theorem run_fresh (h : Packed k out) (hfresh : ∀ i piece, pieces[i]? = some piece → Fresh (k + i) piece) :
    ∃ out', pieces.foldlM emit out = some out' ∧
      (∀ i piece, pieces[i]? = some piece →
        out'.entries (packdir (k + i + 1)) = some (.dir [(piece.base, piece.content)])) ∧
      ∀ j ≤ k, out'.entries (packdir j) = out.entries (packdir j) := by
  induction pieces generalizing k out with
  | nil => exact ⟨out, rfl, by simp, fun _ _ => rfl⟩
  | cons piece pieces ih =>
    obtain ⟨out₁, hrun, hpacked, hlast, hold⟩ := emit_fresh h (hfresh 0 piece rfl)
    obtain ⟨out', hrest, hdirs, hold'⟩ := ih hpacked fun i piece hi => by
      rw [show k + 1 + i = k + (i + 1) by omega]
      exact hfresh (i + 1) piece (by simpa using hi)
    refine ⟨out', ?_, fun i piece' hi => ?_, fun j hj => ?_⟩
    · rw [List.foldlM_cons, hrun]
      exact hrest
    · cases i with
      | zero =>
        obtain rfl : piece = piece' := by simpa using hi
        rw [Nat.add_zero, hold' (k + 1) le_rfl, hlast]
      | succ i =>
        rw [show k + (i + 1) + 1 = k + 1 + i + 1 by omega]
        exact hdirs i piece' (by simpa using hi)
    · rw [hold' j (by omega), hold j hj]

theorem run_stale (h : Packed k out) (hbase : ∀ piece ∈ pieces, piece.base = basename piece.path)
    (hstale : ¬∀ i piece, pieces[i]? = some piece → Fresh (k + i) piece)
    (hrun : pieces.foldlM emit out = some out') : ∃ i < pieces.length, NotDir out' (packdir (k + i + 1)) := by
  induction pieces generalizing k out with
  | nil => exact absurd (by simp) hstale
  | cons piece pieces ih =>
    rw [List.foldlM_cons] at hrun
    obtain ⟨out₁, hemit, hrest⟩ := Option.bind_eq_some_iff.mp hrun
    by_cases hfresh : Fresh k piece
    · obtain ⟨out₂, hemit', hpacked, -, -⟩ := emit_fresh h hfresh
      rw [hemit] at hemit'
      cases hemit'
      have hstale' : ¬∀ i piece, pieces[i]? = some piece → Fresh (k + 1 + i) piece := by
        refine fun hall => hstale ?_
        rintro (_ | i) piece' hi
        · obtain rfl : piece = piece' := by simpa using hi
          exact hfresh
        · rw [show k + (i + 1) = k + 1 + i by omega]
          exact hall i piece' (by simpa using hi)
      obtain ⟨i, hi, hnot⟩ := ih hpacked (fun piece hp => hbase piece (by simp [hp])) hstale' hrest
      exact ⟨i + 1, by simpa using hi, by rwa [show k + (i + 1) + 1 = k + 1 + i + 1 by omega]⟩
    · obtain ⟨hnot, hsum⟩ := emit_stale h (hbase piece (by simp)) hfresh hemit
      refine ⟨0, by simp, run_notDir hrest hnot fun m hm heq => ?_⟩
      have := packdir_injective heq
      omega

end Run

section Blocks

variable {bits k slicesize : ℕ} {image : UpdateImage} {p : Imageinfo} {content : Bytes}

theorem integerRead_le (hbits : bits = 32 ∨ bits = 64) (n : ℕ) :
    (ManifestRoundTrip.integerRead bits n).toNat ≤ n := by
  rw [ManifestRoundTrip.integerRead_eq hbits, UInt32.toNat_ofNat']
  have := Nat.mod_le (min (2 ^ (bits - 1) - 1) n) (2 ^ 32)
  omega

theorem integerRead_toNat_iff (hbits : bits = 32 ∨ bits = 64) (n : ℕ) :
    (ManifestRoundTrip.integerRead bits n).toNat = n ↔ n < 2 ^ 31 ∨ bits = 64 ∧ n < 2 ^ 32 := by
  rw [ManifestRoundTrip.integerRead_eq hbits, UInt32.toNat_ofNat']
  rcases hbits with rfl | rfl <;> simp <;> omega

theorem chunkPieces_length (fromfile : String) (n : ℕ) (chunks : List Bytes) :
    (chunkPieces fromfile n chunks).length = chunks.length := by
  induction chunks generalizing n with
  | nil => rfl
  | cons chunk chunks ih => simp [chunkPieces, ih]

theorem chunkPieces_getElem? (fromfile : String) (n i : ℕ) (chunks : List Bytes) :
    (chunkPieces fromfile n chunks)[i]? = chunks[i]?.map (fun chunk =>
      ⟨basename fromfile ++ "_" ++ pad3 (n + i), basename fromfile ++ "_" ++ pad3 (n + i), chunk⟩) := by
  induction chunks generalizing n i with
  | nil => rfl
  | cons chunk chunks ih =>
    cases i with
    | zero => rfl
    | succ i =>
      rw [chunkPieces, List.getElem?_cons_succ, List.getElem?_cons_succ, ih]
      rw [show n + 1 + i = n + (i + 1) by omega]

theorem pieces_length (h : Configured slicesize p content) :
    (pieces p content).length = packages p.updatemode ∧ 0 < packages p.updatemode := by
  unfold pieces packages
  rcases h.mode with ⟨htype, hsize⟩ | ⟨htype, hsize, hcount⟩
  · rw [if_neg (by omega), htype]
    exact ⟨rfl, one_pos⟩
  · rw [if_pos hsize, chunkPieces_length, h.chunks hsize, htype]
    refine ⟨rfl, ?_⟩
    have hpos := List.length_pos_iff.mpr h.nonempty
    dsimp only
    rw [hcount]
    exact Nat.div_pos (by omega) hsize

theorem walk_length_le (hbits : bits = 32 ∨ bits = 64) (himage : HoldsImage bits p image)
    (h : Configured slicesize p content) : (imageWalk image p content).length ≤ (pieces p content).length := by
  rw [imageWalk, List.length_map, List.length_range', (pieces_length h).1, himage.chunkcount hbits, packages]
  cases htype : p.updatemode.type with
  | full => simp
  | slice => simpa using integerRead_le hbits p.updatemode.count

def Piece.seen (piece : Piece) : String × Bytes := (piece.base, piece.content)

theorem full_iff (hbits : bits = 32 ∨ bits = 64) (himage : HoldsImage bits p image)
    (htype : p.updatemode.type = .full) (hsize : p.updatemode.size = 0) :
    (∀ i piece, (pieces p content)[i]? = some piece → Fresh (k + i) piece) ∧
        imageWalk image p content = (pieces p content).map Piece.seen ↔ Matches bits k p := by
  have hcount : image.chunkcount = 1 := by rw [himage.chunkcount hbits, htype, if_neg (by decide)]
  have hpieces : pieces p content = [⟨basename p.name, p.name, content⟩] := by rw [pieces, if_neg (by omega)]
  have hwalk : imageWalk image p content = [(image.name, content)] := by
    simp [imageWalk, hcount, chunkName, chunkOf, htype]
  rw [hpieces, hwalk]
  constructor
  · rintro ⟨hfresh, hseen⟩
    obtain ⟨hbase, hdirs⟩ : basename p.name = p.name ∧ ∀ j ≤ k + 1, basename p.name ≠ packdir j :=
      hfresh 0 _ rfl
    have hname : image.name = p.name := by
      rw [hbase] at hseen
      exact (Prod.mk.inj (List.singleton_inj.mp hseen)).1
    rw [hbase] at hdirs
    refine ⟨basename_eq_iff.mp hbase, himage.name_eq_iff.mp hname, fun hslice => ?_, fun _ => hdirs⟩
    rw [htype] at hslice
    cases hslice
  · rintro ⟨hplain, hshort, -, hdirs⟩
    have hbase := basename_of_notMem hplain
    rw [hbase, himage.name_eq_iff.mpr hshort]
    refine ⟨fun i piece hi => ?_, rfl⟩
    obtain ⟨hi0, rfl⟩ : i = 0 ∧ (⟨p.name, p.name, content⟩ : Piece) = piece := by
      cases i with
      | zero => exact ⟨rfl, by simpa using hi⟩
      | succ i => simp at hi
    subst hi0
    exact ⟨rfl, hdirs htype⟩

theorem notMem_numbered (path : String) (j : ℕ) : '/' ∉ (basename path ++ "_" ++ pad3 j).toList := by
  rw [String.toList_append, String.toList_append, List.mem_append, List.mem_append, not_or, not_or]
  refine ⟨⟨notMem_basename path, by decide⟩, fun hmem => ?_⟩
  have := digits_of_read (readDigits_pad3 j) '/' hmem
  revert this
  decide

theorem numbered_ne (path : String) (j : ℕ) : basename path ++ "_" ++ pad3 j ≠ path := by
  intro heq
  have hslash : '/' ∉ path.toList := heq ▸ notMem_numbered path j
  rw [basename_of_notMem hslash] at heq
  have hlen := congrArg (fun s => s.toList.length) heq
  simp at hlen

theorem name_of_base (himage : HoldsImage bits p image) (h : image.name = basename p.name) :
    image.name = p.name := by
  by_contra hne
  have hfull : p.name.utf8ByteSize = nameMax := by
    have := himage.name_eq_iff.not.mp hne
    have := himage.fits
    omega
  have hslash := notMem_basename p.name
  rw [← h, himage.name, stored, if_pos hfull, String.toList_append, List.mem_append, not_or] at hslash
  exact hne (h.trans (basename_of_notMem hslash.1))

theorem name_of_numbered (himage : HoldsImage bits p image) (htype : p.type ∈ imgTypes)
    (h : image.name = basename p.name ++ "_" ++ pad3 1) : image.name = p.name := by
  by_contra hne
  have hfull : p.name.utf8ByteSize = nameMax := by
    have := himage.name_eq_iff.not.mp hne
    have := himage.fits
    omega
  rw [himage.name, stored, if_pos hfull] at h
  have hslash := notMem_numbered p.name 1
  rw [← h, String.toList_append, List.mem_append, not_or] at hslash
  rw [basename_of_notMem hslash.1, String.append_assoc] at h
  have hlist := congrArg String.toList h
  rw [String.toList_append, String.toList_append, List.append_cancel_left_eq] at hlist
  rw [String.toList_inj.mp hlist] at htype
  revert htype
  decide

theorem numbered_not_packdir (name : String) (j i : ℕ) : name ++ "_" ++ pad3 j ≠ packdir i := by
  intro heq
  have hmem : '_' ∈ (name ++ "_" ++ pad3 j).toList := by simp
  rw [heq] at hmem
  exact notMem_packdir (by decide) (by decide) i hmem

theorem slice_iff (hbits : bits = 32 ∨ bits = 64) (himage : HoldsImage bits p image)
    (h : Configured slicesize p content) (hfs : p.type ∈ imgTypes) (htype : p.updatemode.type = .slice)
    (hsize : 0 < p.updatemode.size) :
    (∀ i piece, (pieces p content)[i]? = some piece → Fresh (k + i) piece) ∧
        imageWalk image p content = (pieces p content).map Piece.seen ↔ Matches bits k p := by
  have hcount : image.chunkcount.toNat = (ManifestRoundTrip.integerRead bits p.updatemode.count).toNat := by
    rw [himage.chunkcount hbits, htype, if_pos rfl]
  have hpieces : pieces p content =
      chunkPieces p.name 1 (readChunks p.updatemode.size content.length content) := by rw [pieces, if_pos hsize]
  have hlen : (pieces p content).length = p.updatemode.count := by
    rw [(pieces_length h).1, packages, htype]
  have hpos : 0 < p.updatemode.count := by
    have := (pieces_length h).2
    rwa [packages, htype] at this
  have hpiece : ∀ i < p.updatemode.count, (pieces p content)[i]? =
      some ⟨basename p.name ++ "_" ++ pad3 (1 + i), basename p.name ++ "_" ++ pad3 (1 + i),
        (content.drop (i * p.updatemode.size)).take p.updatemode.size⟩ := by
    intro i hi
    have hi' : i < (readChunks p.updatemode.size content.length content).length := by rwa [h.chunks hsize]
    rw [hpieces, chunkPieces_getElem?, readChunks_getElem? hsize le_rfl i hi', Option.map_some]
  constructor
  · rintro ⟨-, hwalk⟩
    have hlens := congrArg List.length hwalk
    rw [imageWalk, List.length_map, List.length_range', List.length_map, hlen] at hlens
    have hfirst := congrArg (fun l => l[0]?) hwalk
    rw [imageWalk, hlens] at hfirst
    simp only [List.getElem?_map, hpiece 0 hpos, List.getElem?_range' hpos, Option.map_some, Option.some.injEq,
      Piece.seen, Prod.mk.injEq] at hfirst
    obtain ⟨hname, -⟩ := hfirst
    have hmany : image.chunkcount ≠ 1 := by
      intro hone
      rw [chunkName, if_pos hone] at hname
      exact numbered_ne p.name _ (hname.symm.trans (name_of_numbered himage hfs hname))
    rw [chunkName, if_neg hmany] at hname
    have hbase : image.name = basename p.name := by
      have := congrArg String.toList hname
      simp only [String.toList_append, Nat.add_zero, Nat.mul_zero] at this
      exact String.toList_inj.mp (List.append_cancel_right (List.append_cancel_right this))
    have hname := name_of_base himage hbase
    rw [hname] at hbase
    refine ⟨basename_eq_iff.mp hbase.symm, himage.name_eq_iff.mp hname, fun _ =>
      ⟨?_, (integerRead_toNat_iff hbits _).mp (hcount ▸ hlens)⟩, fun hfull => ?_⟩
    · intro hone
      apply hmany
      rw [← UInt32.toNat_inj, hlens, hone]
      rfl
    · rw [htype] at hfull
      cases hfull
  · rintro ⟨hplain, hshort, hslice, -⟩
    obtain ⟨hmany, hread⟩ := hslice htype
    have hname := himage.name_eq_iff.mpr hshort
    have hlens : image.chunkcount.toNat = p.updatemode.count := by
      rw [hcount]
      exact (integerRead_toNat_iff hbits _).mpr hread
    have hne : image.chunkcount ≠ 1 := by
      intro hone
      apply hmany
      rw [← hlens, hone]
      rfl
    have hbase := basename_of_notMem hplain
    rw [hbase] at hpiece
    constructor
    · intro i piece hi
      obtain ⟨hi', -⟩ := List.getElem?_eq_some_iff.mp hi
      rw [hpiece i (by omega)] at hi
      cases hi
      exact ⟨rfl, fun j _ => numbered_not_packdir _ _ _⟩
    · apply List.ext_getElem?
      intro i
      rcases Nat.lt_or_ge i p.updatemode.count with hi | hi
      · rw [imageWalk, hlens, List.getElem?_map, List.getElem?_map, hpiece i hi, List.getElem?_range' hi]
        simp only [Option.map_some, Piece.seen, chunkName, if_neg hne, hname, chunkOf, htype, Nat.one_mul,
          Nat.add_sub_cancel_left]
      · rw [List.getElem?_eq_none (by rw [imageWalk, List.length_map, List.length_range']; omega),
          List.getElem?_eq_none (by rw [List.length_map]; omega)]

theorem block_iff (hbits : bits = 32 ∨ bits = 64) (himage : HoldsImage bits p image)
    (h : Configured slicesize p content) (hfs : p.type ∈ imgTypes) :
    (∀ i piece, (pieces p content)[i]? = some piece → Fresh (k + i) piece) ∧
        imageWalk image p content = (pieces p content).map Piece.seen ↔ Matches bits k p := by
  rcases h.mode with ⟨htype, hsize⟩ | ⟨htype, hsize, -⟩
  · exact full_iff hbits himage htype hsize
  · exact slice_iff hbits himage h hfs htype hsize

end Blocks

section Claim

variable {bits k slicesize : ℕ} {images : List UpdateImage} {sources : List (Imageinfo × Bytes)}

def allPieces (sources : List (Imageinfo × Bytes)) : List Piece := sources.flatMap (fun s => pieces s.1 s.2)

theorem clientWalk_length_le (hbits : bits = 32 ∨ bits = 64)
    (himages : List.Forall₂ (HoldsImage bits) ((sources.map Prod.fst).take images.length) images)
    (h : ∀ s ∈ sources, Configured slicesize s.1 s.2) :
    (clientWalk images sources).length ≤ (allPieces sources).length := by
  induction sources generalizing images with
  | nil =>
    cases images with
    | nil => simp [clientWalk]
    | cons image images => simp at himages
  | cons s sources ih =>
    cases images with
    | nil => simp [clientWalk]
    | cons image images =>
      obtain ⟨himage, hrest⟩ : HoldsImage bits s.1 image ∧
          List.Forall₂ (HoldsImage bits) ((sources.map Prod.fst).take images.length) images := by
        simpa using himages
      have hhead := walk_length_le hbits himage (h s (by simp))
      have htail := ih hrest fun s hs => h s (by simp [hs])
      simp only [clientWalk, allPieces, List.zip_cons_cons, List.flatMap_cons, List.length_append] at htail ⊢
      omega

theorem walk_iff (hbits : bits = 32 ∨ bits = 64)
    (himages : List.Forall₂ (HoldsImage bits) ((sources.map Prod.fst).take images.length) images)
    (h : ∀ s ∈ sources, Configured slicesize s.1 s.2) (hfs : ∀ s ∈ sources, s.1.type ∈ imgTypes) :
    (∀ i piece, (allPieces sources)[i]? = some piece → Fresh (k + i) piece) ∧
        clientWalk images sources = (allPieces sources).map Piece.seen ↔
      images.length = sources.length ∧ AllMatch bits k (sources.map Prod.fst) := by
  induction sources generalizing images k with
  | nil =>
    cases images with
    | nil => simp [clientWalk, allPieces, AllMatch]
    | cons image images => simp at himages
  | cons s sources ih =>
    obtain ⟨p, content⟩ := s
    have hconf : Configured slicesize p content := h (p, content) (by simp)
    obtain ⟨hlen, hpos⟩ := pieces_length hconf
    have hsplit : allPieces ((p, content) :: sources) = pieces p content ++ allPieces sources := by simp [allPieces]
    cases images with
    | nil =>
      have hne : ¬(clientWalk [] ((p, content) :: sources) = (allPieces ((p, content) :: sources)).map Piece.seen) := by
        intro heq
        have := congrArg List.length heq
        rw [hsplit, List.length_map, List.length_append] at this
        simp only [clientWalk, List.zip_nil_left, List.flatMap_nil, List.length_nil] at this
        omega
      simp [hne]
    | cons image images =>
      obtain ⟨himage, hrest⟩ : HoldsImage bits p image ∧
          List.Forall₂ (HoldsImage bits) ((sources.map Prod.fst).take images.length) images := by
        simpa using himages
      have hconfs : ∀ s ∈ sources, Configured slicesize s.1 s.2 := fun s hs => h s (by simp [hs])
      have hwalk : clientWalk (image :: images) ((p, content) :: sources) =
          imageWalk image p content ++ clientWalk images sources := by simp [clientWalk]
      have hhead := walk_length_le hbits himage hconf
      have htail := clientWalk_length_le hbits hrest hconfs
      have happend : imageWalk image p content ++ clientWalk images sources =
            (pieces p content).map Piece.seen ++ (allPieces sources).map Piece.seen ↔
          imageWalk image p content = (pieces p content).map Piece.seen ∧
            clientWalk images sources = (allPieces sources).map Piece.seen := by
        constructor
        · intro heq
          have hlens := congrArg List.length heq
          simp only [List.length_append, List.length_map] at hlens
          exact List.append_inj heq (by rw [List.length_map]; omega)
        · rintro ⟨h1, h2⟩
          rw [h1, h2]
      have hfresh : (∀ i piece, (pieces p content ++ allPieces sources)[i]? = some piece → Fresh (k + i) piece) ↔
          (∀ i piece, (pieces p content)[i]? = some piece → Fresh (k + i) piece) ∧
            ∀ i piece, (allPieces sources)[i]? = some piece → Fresh (k + packages p.updatemode + i) piece := by
        constructor
        · intro hall
          refine ⟨fun i piece hi => ?_, fun i piece hi => ?_⟩
          · obtain ⟨hi', -⟩ := List.getElem?_eq_some_iff.mp hi
            exact hall i piece (by rwa [List.getElem?_append_left hi'])
          · rw [show k + packages p.updatemode + i = k + ((pieces p content).length + i) by omega]
            refine hall _ piece ?_
            rwa [List.getElem?_append_right (by omega), Nat.add_sub_cancel_left]
        · rintro ⟨h1, h2⟩ i piece hi
          rcases Nat.lt_or_ge i (pieces p content).length with hlt | hge
          · exact h1 i piece (by rwa [List.getElem?_append_left hlt] at hi)
          · rw [List.getElem?_append_right hge] at hi
            have := h2 _ piece hi
            rwa [show k + packages p.updatemode + (i - (pieces p content).length) = k + i by omega] at this
      have hblock := block_iff (k := k) hbits himage hconf (hfs (p, content) (by simp))
      have hlater := ih (k := k + packages p.updatemode) hrest hconfs fun s hs => hfs s (by simp [hs])
      rw [hsplit, hwalk, List.map_append, happend, hfresh]
      rw [show (((p, content) :: sources).map Prod.fst) = p :: sources.map Prod.fst from rfl, AllMatch, ← hblock]
      rw [List.length_cons, List.length_cons, Nat.add_right_cancel_iff]
      constructor
      · rintro ⟨⟨hf1, hf2⟩, hw1, hw2⟩
        obtain ⟨h1, h2⟩ := hlater.mp ⟨hf2, hw2⟩
        exact ⟨h1, ⟨hf1, hw1⟩, h2⟩
      · rintro ⟨h1, ⟨hf1, hw1⟩, h2⟩
        obtain ⟨hf2, hw2⟩ := hlater.mpr ⟨h1, h2⟩
        exact ⟨⟨hf1, hf2⟩, hw1, hw2⟩

theorem allPieces_base (sources : List (Imageinfo × Bytes)) :
    ∀ piece ∈ allPieces sources, piece.base = basename piece.path := by
  intro piece hpiece
  obtain ⟨s, -, hmem⟩ := List.mem_flatMap.mp hpiece
  unfold pieces at hmem
  split_ifs at hmem
  · obtain ⟨i, hi, rfl⟩ := List.mem_iff_getElem.mp hmem
    have hget := chunkPieces_getElem? s.1.name 1 i (readChunks s.1.updatemode.size s.2.length s.2)
    rw [List.getElem?_eq_getElem hi] at hget
    obtain ⟨chunk, -, heq⟩ := Option.map_eq_some_iff.mp hget.symm
    rw [← heq]
    refine (basename_of_notMem ?_).symm
    rw [String.toList_append, String.toList_append, List.mem_append, List.mem_append, not_or, not_or]
    refine ⟨⟨notMem_basename _, by decide⟩, fun hslash => ?_⟩
    have := digits_of_read (readDigits_pad3 (1 + i)) '/' hslash
    revert this
    decide
  · obtain rfl := List.mem_singleton.mp hmem
    rfl

theorem lookup_single {name base : String} {content found : Bytes} (h : [(base, content)].lookup name = some found) :
    name = base ∧ found = content := by
  rw [List.lookup_cons] at h
  split at h
  · rename_i hname
    exact ⟨by simpa using hname, (Option.some.inj h).symm⟩
  · cases h

variable {image : Image} {devtype : String} {files : List Bytes} {update : UpdateInfo}

theorem generate_eq (hfiles : files.length = image.imageinfo.length)
    (hconf : ∀ s ∈ image.imageinfo.zip files, Configured slicesize s.1 s.2) :
    PackageFiles.generate image devtype files = ((allPieces (image.imageinfo.zip files)).foldlM emit emptied).map
      (fun out => (out, image.generate devtype)) := by
  have hconfigs : (image.imageinfo.zip files).map (fun s => s.1.generateConfig) =
      image.imageinfo.map Imageinfo.generateConfig := by
    have hmap := List.map_map (f := Prod.fst) (g := Imageinfo.generateConfig) (l := image.imageinfo.zip files)
    rw [List.map_fst_zip (by omega)] at hmap
    exact hmap.symm
  rw [PackageFiles.generate, generateImages_eq hconf, Option.map_map, hconfigs]
  rfl

/-- Both sides agree on all packages exactly if all images are read and each has the same names on both sides. -/
theorem agree_iff (hbits : bits = 32 ∨ bits = 64) (hjudge : image.judge = true)
    (hfiles : files.length = image.imageinfo.length)
    (hconf : ∀ s ∈ image.imageinfo.zip files, Configured slicesize s.1 s.2)
    (hupdate : parseUpdateXml bits (loadFile bits (image.generate devtype)) ⟨devtype, 0, 0, []⟩ =
      some (true, update)) :
    Agree image devtype files update ↔
      update.list.length = image.imageinfo.length ∧ AllMatch bits 0 image.imageinfo := by
  obtain ⟨hle, hholds⟩ := update_holds hupdate
  have hfst : (image.imageinfo.zip files).map Prod.fst = image.imageinfo := List.map_fst_zip (by omega)
  have hziplen : (image.imageinfo.zip files).length = image.imageinfo.length := by
    rw [List.length_zip, hfiles, Nat.min_self]
  rw [← hfst] at hholds
  have hiff := walk_iff (k := 0) hbits hholds hconf (fun s hs => ManifestRoundTrip.judged_type hjudge s.1 (List.of_mem_zip hs).1)
  rw [hfst, hziplen] at hiff
  have hwalklen : (clientWalk update.list (image.imageinfo.zip files)).length =
      (update.list.map (fun image => image.chunkcount.toNat)).sum := by
    have hmap : (update.list.zip (image.imageinfo.zip files)).map (fun z => z.1.chunkcount.toNat) =
        update.list.map (fun image => image.chunkcount.toNat) := by
      have hmap := List.map_map (f := Prod.fst) (g := fun image : UpdateImage => image.chunkcount.toNat)
        (l := update.list.zip (image.imageinfo.zip files))
      rw [List.map_fst_zip (by omega)] at hmap
      exact hmap.symm
    rw [clientWalk, List.length_flatMap, ← hmap]
    simp [imageWalk]
  rw [← hiff, Agree, generate_eq hfiles hconf]
  constructor
  · rintro ⟨out, hgenerate, hdirs, hsum⟩
    obtain ⟨out', hrun, heq⟩ := Option.map_eq_some_iff.mp hgenerate
    obtain rfl : out' = out := (Prod.mk.inj heq).1
    have hlens : (clientWalk update.list (image.imageinfo.zip files)).length =
        (allPieces (image.imageinfo.zip files)).length := by
      rw [hwalklen, ← hsum, run_imagesum hrun, packed_emptied.imagesum, Nat.zero_add]
    have hfresh : ∀ i piece, (allPieces (image.imageinfo.zip files))[i]? = some piece → Fresh (0 + i) piece := by
      by_contra hstale
      obtain ⟨i, hi, hnot⟩ := run_stale packed_emptied (allPieces_base _) hstale hrun
      obtain ⟨fs, hfs, -⟩ := hdirs i _ _ (List.getElem?_eq_getElem (hlens ▸ hi))
      rw [Nat.zero_add] at hnot
      exact hnot fs hfs
    refine ⟨hfresh, List.ext_getElem? fun i => ?_⟩
    obtain ⟨out'', hrun', hentries, -⟩ := run_fresh packed_emptied hfresh
    rw [hrun] at hrun'
    cases hrun'
    cases hpiece : (allPieces (image.imageinfo.zip files))[i]? with
    | none =>
      have hi := List.getElem?_eq_none_iff.mp hpiece
      rw [List.getElem?_map, hpiece, List.getElem?_eq_none (by omega)]
      rfl
    | some piece =>
      obtain ⟨hi, -⟩ := List.getElem?_eq_some_iff.mp hpiece
      rw [← hlens] at hi
      obtain ⟨fs, hfs, hlookup⟩ := hdirs i _ _ (List.getElem?_eq_getElem hi)
      rw [← Nat.zero_add i, hentries i piece hpiece] at hfs
      cases hfs
      obtain ⟨hname, hcontent⟩ := lookup_single hlookup
      rw [List.getElem?_map, hpiece, List.getElem?_eq_getElem hi, Option.map_some, Piece.seen, ← hname, ← hcontent]
      rfl
  · rintro ⟨hfresh, hwalk⟩
    obtain ⟨out, hrun, hentries, -⟩ := run_fresh packed_emptied hfresh
    refine ⟨out, by rw [hrun]; rfl, fun i name content hi => ?_, ?_⟩
    · rw [hwalk, List.getElem?_map] at hi
      obtain ⟨piece, hpiece, heq⟩ := Option.map_eq_some_iff.mp hi
      cases heq
      have hentry := hentries i piece hpiece
      rw [Nat.zero_add] at hentry
      exact ⟨[(piece.base, piece.content)], hentry, by simp⟩
    · rw [run_imagesum hrun, packed_emptied.imagesum, Nat.zero_add, ← hwalklen, hwalk, List.length_map]

def oneSlice : Image := ⟨"nand", 1, 1, [⟨"root.ubi", 3, "ubifs", 0, ⟨.slice, 1015808, 1⟩⟩]⟩

def oneSliceFiles : List Bytes := [[1, 2, 3]]

theorem oneSlice_configured : ∀ s ∈ oneSlice.imageinfo.zip oneSliceFiles, Configured 1048576 s.1 s.2 := by
  intro s hs
  obtain rfl : s = (⟨"root.ubi", 3, "ubifs", 0, ⟨.slice, 1015808, 1⟩⟩, [1, 2, 3]) := by
    simpa [oneSlice, oneSliceFiles] using hs
  exact ⟨rfl, by simp, .slice, by decide⟩

theorem oneSlice_read : parseUpdateXml 32 (loadFile 32 (oneSlice.generate "nand")) ⟨"nand", 0, 0, []⟩ =
    some (true, ManifestRoundTrip.recoveredUpdate "nand" oneSlice) := by decide

theorem agree_iff_oneSlice :
    Agree oneSlice "nand" oneSliceFiles (ManifestRoundTrip.recoveredUpdate "nand" oneSlice) ↔
      (ManifestRoundTrip.recoveredUpdate "nand" oneSlice).list.length = oneSlice.imageinfo.length ∧
        AllMatch 32 0 oneSlice.imageinfo :=
  agree_iff (.inl rfl) (by decide : oneSlice.judge = true) rfl oneSlice_configured oneSlice_read

theorem oneSlice_not_found :
    oneSlice.judge = true ∧ (∀ s ∈ oneSlice.imageinfo.zip oneSliceFiles, Configured 1048576 s.1 s.2) ∧
      parseUpdateXml 32 (loadFile 32 (oneSlice.generate "nand")) ⟨"nand", 0, 0, []⟩ =
        some (true, ManifestRoundTrip.recoveredUpdate "nand" oneSlice) ∧
      ¬Agree oneSlice "nand" oneSliceFiles (ManifestRoundTrip.recoveredUpdate "nand" oneSlice) := by
  refine ⟨by decide, oneSlice_configured, oneSlice_read, ?_⟩
  rintro ⟨out, hrun, hdirs, -⟩
  have hentry : (PackageFiles.generate oneSlice "nand" oneSliceFiles).map (fun r => r.1.entries (packdir 1)) =
      some (some (.dir [("root.ubi_001", [1, 2, 3])])) := by decide +kernel
  rw [hrun, Option.map_some, Option.some.injEq] at hentry
  obtain ⟨fs, hfs, hlookup⟩ := hdirs 0 "root.ubi" [1, 2, 3] (by decide +kernel)
  rw [hentry] at hfs
  cases hfs
  revert hlookup
  decide

end Claim

end LinuxRecovery.PackageWalk
