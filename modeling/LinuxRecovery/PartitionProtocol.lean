import LinuxRecovery.WritePackage

namespace LinuxRecovery.PartitionProtocol

open Traces UpdateFile WritePackage

inductive Phase where
  | closed
  | prepared
  | erased
  | finished
  deriving DecidableEq

def Phase.advance (bm : BlockManager) : Phase → Call → Option Phase
  | .closed, .prepare .. => some .prepared
  | .prepared, .erase _ offset length => if length = bm.partitionSize offset then some .erased else none
  | .erased, .write image fs _ _ => if fs = some image.fsType then some .erased else none
  | .erased, .finish _ => some .finished
  | _, _ => none

structure Willing (bm : BlockManager) (part : PartInfo) : Prop where
  registered : ∀ image ∈ part.list, bm.registered image.fsType = true
  blocksize : ∀ offset, bm.blocksize offset ≠ 0
  operateStartAddress : ∀ tr call, (bm.operateStartAddress tr call).isSome = true
  lebSize : ∀ tr call, bm.lebSize tr call ≠ 0
  maxMappedSize : ∀ tr call, (bm.maxMappedSize tr call).isSome = true
  read : ∀ tr, bm.read tr = true
  erase : ∀ tr call, bm.erase tr call = true
  write : ∀ tr call, ∃ next, bm.write tr call = some next ∧ next ≤ (part.offset + part.size).toNat
  finish : ∀ tr call, bm.finish tr call = true

structure Sound (part : PartInfo) (s : Statics) : Prop where
  offset : s.nextWriteOffset ≤ (part.offset + part.size).toNat
  size : s.writeBuffer = true → s.writeBufferSize ≠ 0

structure FaultFree (bm : BlockManager) (part : PartInfo) (file : ℕ → Option (List UInt8)) (s : Statics) : Prop where
  willing : Willing bm part
  file : ∀ k, (file k).isSome = true
  sound : Sound part s

/-- The calls keep to the protocol whatever fails on the way, carry it out to its end where all chunks are
written, and all chunks are written where nothing else fails. -/
def FollowsProtocol (devtype : String) (part : PartInfo) : Prop :=
  ∀ bm file s, (∃ phase, ((updatePartition bm devtype part file s []).2.map Prod.fst).foldlM (Phase.advance bm) .closed =
      some phase ∧ ((updatePartition bm devtype part file s []).1.isSome = true → phase = .finished)) ∧
    (FaultFree bm part file s → (updatePartition bm devtype part file s []).1.isSome = true)

def live (images : List ImageInfo) : List ImageInfo := images.filter (fun image => image.chunkcount ≠ 0)

def OnlyFirst {α : Type} (p : α → Prop) (l : List α) : Prop := ∃ a rest, l = a :: rest ∧ p a ∧ ∀ b ∈ rest, ¬p b

def OnlyLast {α : Type} (p : α → Prop) (l : List α) : Prop := ∃ rest a, l = rest ++ [a] ∧ p a ∧ ∀ b ∈ rest, ¬p b

/-- What the image list must be for the names to tell the first and the last chunk. -/
structure Orderly (part : PartInfo) : Prop where
  first : OnlyFirst (fun image => isFirst part image = true) (live part.list)
  last : OnlyLast (fun image => isLast part image = true) (live part.list)
  fsType : ∀ image ∈ live part.list, ∀ other ∈ live part.list, image.fsType = other.fsType
  filetype : ∀ image ∈ live part.list, image.fsType.utf8ByteSize ≤ 19

section Ends

variable {α β : Type} {p : α → Prop} {q : β → Prop} {l : List α}

theorem onlyLast_iff_reverse : OnlyLast p l ↔ OnlyFirst p l.reverse := by
  constructor
  · rintro ⟨rest, a, rfl, ha, hrest⟩
    exact ⟨a, rest.reverse, by simp, ha, by simpa using hrest⟩
  · rintro ⟨a, rest, hl, ha, hrest⟩
    exact ⟨rest.reverse, a, by rw [← List.reverse_cons, ← hl, List.reverse_reverse], ha, by simpa using hrest⟩

theorem onlyLast_cons {a : α} : OnlyLast p (a :: l) ↔ p a ∧ l = [] ∨ ¬p a ∧ OnlyLast p l := by
  constructor
  · rintro ⟨rest, b, hl, hb, hrest⟩
    cases rest with
    | nil =>
      obtain ⟨rfl, rfl⟩ := List.cons.inj hl
      exact Or.inl ⟨hb, rfl⟩
    | cons c rest =>
      obtain ⟨rfl, rfl⟩ := List.cons.inj hl
      exact Or.inr ⟨hrest a List.mem_cons_self, rest, b, rfl, hb, fun d hd => hrest d (List.mem_cons_of_mem a hd)⟩
  · rintro (⟨ha, rfl⟩ | ⟨ha, rest, b, rfl, hb, hrest⟩)
    · exact ⟨[], a, rfl, ha, by simp⟩
    · refine ⟨a :: rest, b, rfl, hb, ?_⟩
      intro d hd
      rcases List.mem_cons.mp hd with rfl | hd
      · exact ha
      · exact hrest d hd

theorem onlyFirst_map {f : β → α} {l : List β} : OnlyFirst p (l.map f) ↔ OnlyFirst (fun b => p (f b)) l := by
  cases l with
  | nil => simp [OnlyFirst]
  | cons b l => simp [OnlyFirst]

theorem onlyLast_map {f : β → α} {l : List β} : OnlyLast p (l.map f) ↔ OnlyLast (fun b => p (f b)) l := by
  rw [onlyLast_iff_reverse, onlyLast_iff_reverse, ← List.map_reverse, onlyFirst_map]

theorem onlyFirst_flatMap {f : α → List β}
    (h : ∀ a ∈ l, ∃ b bs, f a = b :: bs ∧ (q b ↔ p a) ∧ ∀ c ∈ bs, ¬q c) :
    OnlyFirst q (l.flatMap f) ↔ OnlyFirst p l := by
  cases l with
  | nil => simp [OnlyFirst]
  | cons a l =>
    obtain ⟨b, bs, hf, hb, hbs⟩ := h a List.mem_cons_self
    rw [List.flatMap_cons, hf, List.cons_append]
    constructor
    · rintro ⟨b', rest, hl, hb', hrest⟩
      obtain ⟨rfl, rfl⟩ := List.cons.inj hl
      refine ⟨a, l, rfl, hb.mp hb', ?_⟩
      intro a' ha' hp
      obtain ⟨c, cs, hf', hc, -⟩ := h a' (List.mem_cons_of_mem a ha')
      refine hrest c ?_ (hc.mpr hp)
      exact List.mem_append_right bs (List.mem_flatMap.mpr ⟨a', ha', hf' ▸ List.mem_cons_self⟩)
    · rintro ⟨a', rest, hl, ha', hrest⟩
      obtain ⟨rfl, rfl⟩ := List.cons.inj hl
      refine ⟨b, _, rfl, hb.mpr ha', ?_⟩
      intro c hc
      rcases List.mem_append.mp hc with hc | hc
      · exact hbs c hc
      · obtain ⟨a', ha', hc⟩ := List.mem_flatMap.mp hc
        obtain ⟨d, ds, hf', hd, hds⟩ := h a' (List.mem_cons_of_mem a ha')
        rw [hf'] at hc
        rcases List.mem_cons.mp hc with rfl | hc
        · exact fun hq => hrest a' ha' (hd.mp hq)
        · exact hds c hc

theorem onlyLast_flatMap {f : α → List β}
    (h : ∀ a ∈ l, ∃ bs b, f a = bs ++ [b] ∧ (q b ↔ p a) ∧ ∀ c ∈ bs, ¬q c) :
    OnlyLast q (l.flatMap f) ↔ OnlyLast p l := by
  rw [onlyLast_iff_reverse, onlyLast_iff_reverse, List.reverse_flatMap]
  apply onlyFirst_flatMap
  intro a ha
  obtain ⟨bs, b, hf, hb, hbs⟩ := h a (List.mem_reverse.mp ha)
  exact ⟨b, bs.reverse, by simp [hf], hb, by simpa using hbs⟩

end Ends

section Calls

variable {bm : BlockManager} {part : PartInfo} {image : ImageInfo} {s : Statics} {sure : Prop}

structure Opened (part : PartInfo) (sure : Prop) (fs : String) (s : Statics) : Prop where
  fs : s.prepared.map PrepareInfo.fs = some fs
  buffer : s.writeBuffer = true
  sound : sure → Sound part s

theorem Opened.isSome {fs : String} (h : Opened part sure fs s) : s.prepared.isSome = true := by
  rw [← Option.isSome_map (f := PrepareInfo.fs), h.fs]
  rfl

theorem mtdGetPrepareInfo_some {call : Call} {offset : UInt64} {filetype : String} {tr : List Event}
    {info : PrepareInfo} (h : mtdGetPrepareInfo bm call offset filetype tr = some info) :
    info.fs = filetype ∧ info.logicalUnitSize ≠ 0 := by
  simp only [mtdGetPrepareInfo, Option.bind_eq_bind, Option.bind_eq_some_iff] at h
  obtain ⟨writeStart, -, maxSize, -, h⟩ := h
  split_ifs at h with hsize
  cases h
  exact ⟨rfl, fun hleb => hsize (Or.inr hleb)⟩

theorem mtdGetPrepareInfo_isSome (h : Willing bm part) (call : Call) (offset : UInt64) (filetype : String)
    (tr : List Event) : (mtdGetPrepareInfo bm call offset filetype tr).isSome = true := by
  obtain ⟨writeStart, hstart⟩ := Option.isSome_iff_exists.mp (h.operateStartAddress tr call)
  obtain ⟨maxSize, hmax⟩ := Option.isSome_iff_exists.mp (h.maxMappedSize tr call)
  simp [mtdGetPrepareInfo, hstart, hmax, h.blocksize offset, h.lebSize tr call]

theorem mtdBlockPrepare_drives (offset length : UInt64) (h : sure → Willing bm part) (himage : image ∈ part.list) :
    Drives (Phase.advance bm) sure .closed (mtdBlockPrepare bm image offset length image.fsType)
      (fun info φ => φ = .prepared ∧ info.fs = image.fsType ∧ info.logicalUnitSize ≠ 0) := by
  apply drives_perform rfl
  · intro tr info hinfo
    split_ifs at hinfo
    exact ⟨rfl, mtdGetPrepareInfo_some hinfo⟩
  · intro hs tr
    rw [if_pos ((h hs).registered image himage)]
    exact mtdGetPrepareInfo_isSome (h hs) _ _ _ _

theorem allocWriteBuffer_opened (image : ImageInfo) {info : PrepareInfo} {fs : String} (blocksize : UInt32) (hfs : info.fs = fs)
    (hleb : info.logicalUnitSize ≠ 0) (hsound : sure → Sound part s) :
    Opened part sure fs (allocWriteBuffer image info blocksize { s with prepared := some info }) := by
  unfold allocWriteBuffer
  split_ifs with hbuffer
  · exact ⟨congrArg some hfs, hbuffer, fun hs => ⟨(hsound hs).offset, (hsound hs).size⟩⟩
  · exact ⟨congrArg some hfs, rfl, fun hs => ⟨(hsound hs).offset, fun _ => hleb⟩⟩

theorem openPartition_drives (h : sure → Willing bm part) (himage : image ∈ part.list)
    (hshort : image.fsType.utf8ByteSize ≤ 19) (hsound : sure → Sound part s) :
    Drives (Phase.advance bm) sure .closed (openPartition bm image s)
      (fun r φ => φ = .erased ∧ Opened part sure image.fsType r.2) := by
  have hfiletype : Drives (Phase.advance bm) sure .closed (Prog.query (fun _ => setOperationOption image.fsType))
      (fun filetype φ => filetype = image.fsType ∧ φ = .closed) := by
    rw [setOperationOption, if_neg (by omega)]
    exact drives_query (fun _ _ h => ⟨(Option.some.inj h).symm, rfl⟩) (fun _ _ => rfl)
  refine drives_bind hfiletype ?_
  rintro filetype φ ⟨rfl, rfl⟩
  refine drives_bind (mtdBlockPrepare_drives _ _ h himage) ?_
  rintro info φ ⟨rfl, hfs, hleb⟩
  apply @drives_perform _ _ _ _ _ _ Phase.erased
  · exact if_pos rfl
  · intro tr r hr
    split_ifs at hr
    cases hr
    exact ⟨rfl, allocWriteBuffer_opened image _ hfs hleb hsound⟩
  · intro hs tr
    rw [if_pos ((h hs).erase tr _)]
    rfl

theorem readBuffer_drives {φ : Phase} (readsize : ℕ) (hbuffer : s.writeBuffer = true) (h : sure → Willing bm part) :
    Drives (Phase.advance bm) sure φ (readBuffer bm s readsize) (fun _ ψ => ψ = φ) := by
  unfold readBuffer
  split_ifs
  · exact drives_done rfl
  · refine drives_bind (drives_require (fun _ => hbuffer)) ?_
    rintro u ψ ⟨-, rfl⟩
    apply drives_query
    · intro tr u hu
      rfl
    · intro hs tr
      rw [if_pos ((h hs).read tr)]
      rfl

theorem mtdBlockWrite_drives {prepared : Option PrepareInfo} (offset : ℕ) (buffer : List UInt8)
    (hfs : prepared.map PrepareInfo.fs = some image.fsType) (h : sure → Willing bm part) :
    Drives (Phase.advance bm) sure .erased (mtdBlockWrite bm image prepared offset buffer)
      (fun next φ => φ = .erased ∧ (sure → next ≤ (part.offset + part.size).toNat)) := by
  have hsome : prepared.isSome = true := by
    rw [← Option.isSome_map (f := PrepareInfo.fs), hfs]
    rfl
  apply @drives_perform _ _ _ _ _ _ Phase.erased
  · exact if_pos hfs
  · intro tr next hnext
    rw [if_pos hsome] at hnext
    refine ⟨rfl, fun hs => ?_⟩
    obtain ⟨next', hnext', hle⟩ := (h hs).write tr (.write image (prepared.map PrepareInfo.fs) offset buffer)
    rw [hnext'] at hnext
    cases hnext
    exact hle
  · intro hs tr
    obtain ⟨next', hnext', -⟩ := (h hs).write tr (.write image (prepared.map PrepareInfo.fs) offset buffer)
    rw [if_pos hsome, hnext']
    rfl

theorem writeChunk_drives (h : sure → Willing bm part) {n : ℕ} {rest : List UInt8} (hn : sure → rest.length ≤ n)
    (offset : ℕ) (hopened : Opened part sure image.fsType s) :
    Drives (Phase.advance bm) sure .erased (writeChunk bm image n rest offset s)
      (fun s' φ => φ = .erased ∧ Opened part sure image.fsType s') := by
  induction n generalizing rest offset s with
  | zero =>
    cases rest with
    | nil => exact drives_done ⟨rfl, hopened⟩
    | cons b rest =>
      apply drives_query
      · intro tr s' hs'
        cases hs'
      · intro hs
        exact absurd (hn hs) (by simp)
  | succ n ih =>
    cases rest with
    | nil => exact drives_done ⟨rfl, hopened⟩
    | cons b rest =>
      simp only [writeChunk]
      refine drives_bind (readBuffer_drives _ hopened.buffer h) ?_
      rintro u φ rfl
      refine drives_bind (mtdBlockWrite_drives offset _ hopened.fs h) ?_
      rintro next φ ⟨rfl, hnext⟩
      apply ih
      · intro hs
        have hsize := (hopened.sound hs).size hopened.buffer
        have hpos : 0 < s.writeBufferSize.toNat := by
          rw [Nat.pos_iff_ne_zero]
          exact fun hzero => hsize (UInt32.toNat_inj.mp hzero)
        have hle := hn hs
        rw [List.length_drop]
        rw [List.length_cons] at hle ⊢
        omega
      · exact ⟨hopened.fs, hopened.buffer, fun hs => ⟨hnext hs, (hopened.sound hs).size⟩⟩

theorem closePartition_drives {fs : String} (h : sure → Willing bm part) (hopened : Opened part sure fs s) :
    Drives (Phase.advance bm) sure .erased (closePartition bm image s) (fun _ φ => φ = .finished) := by
  apply drives_perform rfl
  · intro tr s' hs'
    rfl
  · intro hs tr
    rw [if_pos ⟨hopened.isSome, (h hs).finish tr _⟩]
    rfl

def Ready (part : PartInfo) (sure : Prop) (image : ImageInfo) (j : ℕ) (s : Statics) (φ : Phase) : Prop :=
  if opens part image j then φ = .closed ∧ image.fsType.utf8ByteSize ≤ 19 ∧ (sure → Sound part s)
  else φ = .erased ∧ Opened part sure image.fsType s

def Left (part : PartInfo) (sure : Prop) (image : ImageInfo) (j : ℕ) (s : Statics) (φ : Phase) : Prop :=
  if closes part image j then φ = .finished else φ = .erased ∧ Opened part sure image.fsType s

variable {j : ℕ} {φ : Phase}

theorem beginChunk_drives (h : sure → Willing bm part) (himage : image ∈ part.list)
    (hready : Ready part sure image j s φ) :
    Drives (Phase.advance bm) sure φ (beginChunk bm part image j s)
      (fun r φ => φ = .erased ∧ Opened part sure image.fsType r.2) := by
  unfold Ready at hready
  unfold beginChunk
  split_ifs at hready ⊢
  · obtain ⟨rfl, hshort, hsound⟩ := hready
    exact openPartition_drives h himage hshort hsound
  · exact drives_done hready

theorem endChunk_drives (h : sure → Willing bm part) (hopened : Opened part sure image.fsType s) :
    Drives (Phase.advance bm) sure .erased (endChunk bm part image j s) (Left part sure image j) := by
  unfold endChunk
  split_ifs with hcloses
  · refine (closePartition_drives h hopened).mono ?_
    rintro s' φ rfl
    rw [Left, if_pos hcloses]
  · apply drives_done
    rw [Left, if_neg hcloses]
    exact ⟨rfl, hopened⟩

theorem writeUpdatePkg_drives {devtype : String} (hdevtype : devtype = "nand" ∨ devtype = "nor")
    {file : Option (List UInt8)} (h : sure → Willing bm part) (hfile : sure → file.isSome = true)
    (himage : image ∈ part.list) (hready : Ready part sure image j s φ) :
    Drives (Phase.advance bm) sure φ (writeUpdatePkg bm devtype part image file j s) (Left part sure image j) := by
  refine drives_bind (Q := fun _ ψ => ψ = φ) (drives_query (fun _ _ _ => rfl) (fun hs _ => hfile hs)) ?_
  rintro file ψ rfl
  refine drives_bind (drives_require (fun _ => hdevtype)) ?_
  rintro u φ ⟨-, rfl⟩
  refine drives_bind (beginChunk_drives h himage hready) ?_
  rintro ⟨offset, s⟩ φ ⟨rfl, hopened⟩
  refine drives_bind (drives_require (fun hs => (hopened.sound hs).offset)) ?_
  rintro u φ ⟨-, rfl⟩
  refine drives_bind (writeChunk_drives h (fun _ => le_rfl) _ hopened) ?_
  rintro s φ ⟨rfl, hopened⟩
  exact endChunk_drives h hopened

abbrev Numbered : Type := (ImageInfo × ℕ) × ℕ

theorem rest_drives {devtype fs : String} (hdevtype : devtype = "nand" ∨ devtype = "nor")
    {file : ℕ → Option (List UInt8)} (h : sure → Willing bm part) (hfile : sure → ∀ k, (file k).isSome = true)
    {cs : List Numbered} (hmem : ∀ c ∈ cs, c.1.1 ∈ part.list) (hopens : ∀ c ∈ cs, ¬opens part c.1.1 c.1.2)
    (hcloses : OnlyLast (fun c : Numbered => closes part c.1.1 c.1.2) cs) (hfs : ∀ c ∈ cs, c.1.1.fsType = fs)
    (hopened : Opened part sure fs s) :
    Drives (Phase.advance bm) sure .erased
      (cs.foldlM (fun s chunk => writeUpdatePkg bm devtype part chunk.1.1 (file chunk.2) chunk.1.2 s) s)
      (fun _ φ => φ = .finished) := by
  induction cs generalizing s with
  | nil =>
    obtain ⟨rest, c, hl, -⟩ := hcloses
    simp at hl
  | cons c cs ih =>
    have hready : Ready part sure c.1.1 c.1.2 s .erased := by
      rw [Ready, if_neg (hopens c List.mem_cons_self), hfs c List.mem_cons_self]
      exact ⟨rfl, hopened⟩
    rw [List.foldlM_cons]
    refine drives_bind (writeUpdatePkg_drives hdevtype h (fun hs => hfile hs c.2) (hmem c List.mem_cons_self) hready) ?_
    intro s φ hleft
    rw [onlyLast_cons] at hcloses
    rcases hcloses with ⟨hc, rfl⟩ | ⟨hc, hcloses⟩
    · rw [Left, if_pos hc] at hleft
      exact drives_done hleft
    · rw [Left, if_neg hc, hfs c List.mem_cons_self] at hleft
      obtain ⟨rfl, hopened⟩ := hleft
      exact ih (fun d hd => hmem d (List.mem_cons_of_mem c hd)) (fun d hd => hopens d (List.mem_cons_of_mem c hd))
        hcloses (fun d hd => hfs d (List.mem_cons_of_mem c hd)) hopened

end Calls

section Chunks

variable {part : PartInfo} {images : List ImageInfo}

theorem chunks_live :
    chunks images = (live images).flatMap (fun image => (List.range' 1 image.chunkcount.toNat).map (fun j => (image, j))) := by
  induction images with
  | nil => rfl
  | cons image images ih =>
    rw [chunks] at ih
    rw [chunks, live, List.flatMap_cons, ih]
    by_cases hcount : image.chunkcount = 0
    · simp [hcount, live]
    · simp [hcount, live]

theorem live_pos {image : ImageInfo} (h : image ∈ live images) : ∃ n, image.chunkcount.toNat = n + 1 := by
  have hcount : image.chunkcount ≠ 0 := by simpa [live] using (List.mem_filter.mp h).2
  have hzero : image.chunkcount.toNat ≠ 0 := fun h => hcount (UInt32.toNat_inj.mp h)
  exact ⟨image.chunkcount.toNat - 1, by omega⟩

theorem forall_chunks {P : ImageInfo → Prop} : (∀ c ∈ chunks images, P c.1) ↔ ∀ image ∈ live images, P image := by
  rw [chunks_live]
  constructor
  · intro h image himage
    obtain ⟨n, hn⟩ := live_pos himage
    exact h (image, 1) (List.mem_flatMap.mpr ⟨image, himage, List.mem_map.mpr ⟨1, by simp [hn], rfl⟩⟩)
  · intro h c hc
    obtain ⟨image, himage, hc⟩ := List.mem_flatMap.mp hc
    obtain ⟨j, -, rfl⟩ := List.mem_map.mp hc
    exact h image himage

theorem chunks_onlyFirst :
    OnlyFirst (fun c : ImageInfo × ℕ => opens part c.1 c.2) (chunks images) ↔
      OnlyFirst (fun image => isFirst part image = true) (live images) := by
  rw [chunks_live]
  apply onlyFirst_flatMap
  intro image himage
  obtain ⟨n, hn⟩ := live_pos himage
  refine ⟨(image, 1), (List.range' 2 n).map (fun j => (image, j)), by rw [hn, List.range'_succ, List.map_cons], ?_, ?_⟩
  · simp [opens]
  · intro c hc
    obtain ⟨j, hj, rfl⟩ := List.mem_map.mp hc
    rw [List.mem_range'_1] at hj
    exact fun h => absurd h.2 (by dsimp only; omega)

theorem chunks_onlyLast :
    OnlyLast (fun c : ImageInfo × ℕ => closes part c.1 c.2) (chunks images) ↔
      OnlyLast (fun image => isLast part image = true) (live images) := by
  rw [chunks_live]
  apply onlyLast_flatMap
  intro image himage
  obtain ⟨n, hn⟩ := live_pos himage
  refine ⟨(List.range' 1 n).map (fun j => (image, j)), (image, n + 1), ?_, ?_, ?_⟩
  · rw [hn, List.range'_concat, List.map_append, List.map_singleton, Nat.one_mul, Nat.add_comm 1 n]
  · simp [closes, hn]
  · intro c hc
    obtain ⟨j, hj, rfl⟩ := List.mem_map.mp hc
    rw [List.mem_range'_1] at hj
    exact fun h => absurd h.2 (by dsimp only; omega)

end Chunks

section Protocol

variable {bm : BlockManager} {devtype : String} {part : PartInfo} {file : ℕ → Option (List UInt8)} {s : Statics}

theorem updatePartition_drives (hdevtype : devtype = "nand" ∨ devtype = "nor") (h : Orderly part) :
    Drives (Phase.advance bm) (FaultFree bm part file s) .closed (updatePartition bm devtype part file s)
      (fun _ φ => φ = .finished) := by
  have hfst : (chunks part.list).zipIdx.map Prod.fst = chunks part.list := List.zipIdx_map_fst 0 _
  have hlive : ∀ c ∈ (chunks part.list).zipIdx, c.1.1 ∈ live part.list := fun c hc =>
    forall_chunks.mpr (fun _ himage => himage) c.1 (hfst ▸ List.mem_map_of_mem hc)
  have hfirst := chunks_onlyFirst.mpr h.first
  have hlast := chunks_onlyLast.mpr h.last
  rw [← hfst, onlyFirst_map] at hfirst
  rw [← hfst, onlyLast_map] at hlast
  unfold updatePartition
  obtain ⟨c, rest, hcs, hopens, hrest⟩ := hfirst
  rw [hcs] at hlast hlive ⊢
  have hmem : ∀ d ∈ c :: rest, d.1.1 ∈ part.list := fun d hd => (List.mem_filter.mp (hlive d hd)).1
  have hready : Ready part (FaultFree bm part file s) c.1.1 c.1.2 s .closed := by
    rw [Ready, if_pos hopens]
    exact ⟨rfl, h.filetype c.1.1 (hlive c List.mem_cons_self), fun hs => hs.sound⟩
  rw [List.foldlM_cons]
  refine drives_bind (writeUpdatePkg_drives hdevtype FaultFree.willing (fun hs => hs.file c.2)
    (hmem c List.mem_cons_self) hready) ?_
  intro s' φ hleft
  rw [onlyLast_cons] at hlast
  rcases hlast with ⟨hc, rfl⟩ | ⟨hc, hlast⟩
  · rw [Left, if_pos hc] at hleft
    exact drives_done hleft
  · rw [Left, if_neg hc] at hleft
    obtain ⟨rfl, hopened⟩ := hleft
    refine rest_drives hdevtype FaultFree.willing FaultFree.file (fun d hd => hmem d (List.mem_cons_of_mem c hd)) hrest
      hlast ?_ hopened
    intro d hd
    exact h.fsType d.1.1 (hlive d (List.mem_cons_of_mem c hd)) c.1.1 (hlive c List.mem_cons_self)

theorem followsProtocol_of_orderly (hdevtype : devtype = "nand" ∨ devtype = "nor") (h : Orderly part) :
    FollowsProtocol devtype part := by
  intro bm file s
  have hdrives : Drives (Phase.advance bm) (FaultFree bm part file s) .closed (updatePartition bm devtype part file s)
      (fun _ φ => φ = .finished) := updatePartition_drives hdevtype h
  obtain ⟨new, phase, htr, hnew, hval, hsure⟩ := hdrives []
  rw [List.nil_append] at htr
  refine ⟨⟨phase, by rw [htr]; exact hnew, fun hsome => ?_⟩, hsure⟩
  obtain ⟨s', hs'⟩ := Option.isSome_iff_exists.mp hsome
  exact hval s' hs'

end Protocol

section Agreeable

def agreeable : BlockManager where
  registered := fun _ => true
  operateStartAddress := fun _ _ => some 0
  blocksize := fun _ => 1
  lebSize := fun _ _ => 1
  maxMappedSize := fun _ _ => some 0
  partitionSize := fun _ => 0
  read := fun _ => true
  erase := fun _ _ => true
  write := fun _ _ => some 0
  finish := fun _ _ => true

def idle : Statics := ⟨0, false, 0, 0, none⟩

def opened (fs : String) : Statics := ⟨0, true, 1, 1, some ⟨fs, 0, 1, 1, 0⟩⟩

def ended : Statics := ⟨0, false, 1, 1, none⟩

variable {devtype : String} {part : PartInfo} {image : ImageInfo} {j : ℕ} {s : Statics} {tr : List Event}

theorem faultFree_agreeable : FaultFree agreeable part (fun _ => some [0]) idle where
  willing := ⟨fun _ _ => rfl, fun _ => (by decide : (1 : UInt32) ≠ 0), fun _ _ => rfl,
    fun _ _ => (by decide : (1 : UInt32) ≠ 0), fun _ _ => rfl, fun _ => rfl, fun _ _ => rfl,
    fun _ _ => ⟨0, rfl, Nat.zero_le _⟩, fun _ _ => rfl⟩
  file := fun _ => rfl
  sound := ⟨Nat.zero_le _, nofun⟩

theorem openPartition_agreeable (h : image.fsType.utf8ByteSize ≤ 19) (s : Statics) (tr : List Event) :
    openPartition agreeable image s tr =
      (some (0, allocWriteBuffer image ⟨image.fsType, 0, 1, 1, 0⟩ 1 { s with prepared := some ⟨image.fsType, 0, 1, 1, 0⟩ }),
        tr ++ [(.prepare image image.offset image.size image.fsType, true), (.erase image image.offset 0, true)]) := by
  simp [openPartition, Bind.bind, Prog.bind, Prog.query, setOperationOption, if_neg (not_lt.mpr h), mtdBlockPrepare,
    Prog.perform, agreeable, mtdGetPrepareInfo]

theorem writeChunk_agreeable (fs : String) :
    writeChunk agreeable image 1 [0] 0 (opened fs) tr = (some (opened fs), tr ++ [(.write image (some fs) 0 [0], true)]) := by
  simp [writeChunk, readBuffer, Bind.bind, Prog.bind, Prog.query, Prog.require, mtdBlockWrite, Prog.perform, agreeable,
    opened, Pure.pure, Prog.done]

theorem endChunk_agreeable (fs : String) :
    endChunk agreeable part image j (opened fs) tr =
      if closes part image j then (some ended, tr ++ [(.finish image, true)]) else (some (opened fs), tr) := by
  unfold endChunk
  split_ifs
  · rfl
  · rfl

theorem written_agreeable (new : List Event) (fs : String) (hdevtype : devtype = "nand" ∨ devtype = "nor")
    (h : beginChunk agreeable part image j s tr = (some (0, opened fs), tr ++ new)) :
    writeUpdatePkg agreeable devtype part image (some [0]) j s tr =
      endChunk agreeable part image j (opened fs) (tr ++ new ++ [(.write image (some fs) 0 [0], true)]) := by
  have hoffset : curWriteOffset image 0 (opened fs) = 0 := rfl
  have hnext : (opened fs).nextWriteOffset ≤ (part.offset + part.size).toNat := Nat.zero_le _
  simp only [writeUpdatePkg, Bind.bind, Prog.bind, Prog.query, Prog.require, if_pos hdevtype, h, if_pos hnext, hoffset,
    List.length_singleton, writeChunk_agreeable]

theorem first_agreeable (hdevtype : devtype = "nand" ∨ devtype = "nor") (hopens : opens part image j)
    (hshort : image.fsType.utf8ByteSize ≤ 19) :
    writeUpdatePkg agreeable devtype part image (some [0]) j idle tr =
      endChunk agreeable part image j (opened image.fsType) (tr ++ [(.prepare image image.offset image.size image.fsType, true),
        (.erase image image.offset 0, true)] ++ [(.write image (some image.fsType) 0 [0], true)]) := by
  apply written_agreeable _ _ hdevtype
  rw [beginChunk, if_pos hopens, openPartition_agreeable hshort]
  rfl

theorem next_agreeable (fs : String) (hdevtype : devtype = "nand" ∨ devtype = "nor") (hopens : ¬opens part image j) :
    writeUpdatePkg agreeable devtype part image (some [0]) j (opened fs) tr =
      endChunk agreeable part image j (opened fs) (tr ++ [(.write image (some fs) 0 [0], true)]) := by
  rw [written_agreeable [] fs hdevtype, List.append_nil]
  rw [beginChunk, if_neg hopens, List.append_nil]
  rfl

theorem stray_agreeable (hdevtype : devtype = "nand" ∨ devtype = "nor") (hopens : ¬opens part image j) :
    writeUpdatePkg agreeable devtype part image (some [0]) j idle tr = (none, tr ++ [(.write image none 0 [], false)]) := by
  simp [writeUpdatePkg, Bind.bind, Prog.bind, Prog.query, Prog.require, if_pos hdevtype, beginChunk, if_neg hopens,
    Pure.pure, Prog.done, idle, curWriteOffset, writeChunk, readBuffer, mtdBlockWrite, Prog.perform]

theorem ended_agreeable (hdevtype : devtype = "nand" ∨ devtype = "nor") (hopens : ¬opens part image j) :
    writeUpdatePkg agreeable devtype part image (some [0]) j ended tr = (none, tr) := by
  simp [writeUpdatePkg, Bind.bind, Prog.bind, Prog.query, Prog.require, if_pos hdevtype, beginChunk, if_neg hopens,
    Pure.pure, Prog.done, ended, curWriteOffset, writeChunk, readBuffer]

theorem refused_agreeable (devtype : String) (s : Statics) (tr : List Event) (hopens : opens part image j)
    (hlong : 19 < image.fsType.utf8ByteSize) :
    (writeUpdatePkg agreeable devtype part image (some [0]) j s tr).1 = none := by
  simp only [writeUpdatePkg, Bind.bind, Prog.bind, Prog.query, Prog.require]
  split_ifs
  · simp [beginChunk, if_pos hopens, openPartition, Bind.bind, Prog.bind, Prog.query, setOperationOption, if_pos hlong]
  · rfl

theorem other_agreeable (part : PartInfo) (c : ImageInfo × ℕ) (s : Statics) (tr : List Event)
    (hdevtype : ¬(devtype = "nand" ∨ devtype = "nor")) :
    (writeUpdatePkg agreeable devtype part c.1 (some [0]) c.2 s tr).1 = none := by
  simp [writeUpdatePkg, Bind.bind, Prog.bind, Prog.query, Prog.require, if_neg hdevtype]

abbrev Appends {α : Type} (p : Prog Call α) : Prop :=
  Drives (fun (_ : Unit) (_ : Call) => some ()) False () p (fun _ _ => True)

theorem appends_query {α : Type} (answer : List Event → Option α) : Appends (Prog.query answer) :=
  drives_query (fun _ _ _ => trivial) False.elim

theorem appends_perform {α : Type} (answer : List Event → Option α) (call : Call) : Appends (Prog.perform answer call) :=
  drives_perform rfl (fun _ _ _ => trivial) False.elim

theorem appends_bind {α β : Type} {p : Prog Call α} {f : α → Prog Call β} (hp : Appends p) (hf : ∀ a, Appends (f a)) :
    Appends (p.bind f) := drives_bind hp (fun a _ _ => hf a)

variable {bm : BlockManager}

theorem writeChunk_appends (n : ℕ) (rest : List UInt8) (offset : ℕ) (s : Statics) :
    Appends (writeChunk bm image n rest offset s) := by
  induction n generalizing rest offset s with
  | zero =>
    cases rest with
    | nil => exact drives_done trivial
    | cons b rest => exact appends_query _
  | succ n ih =>
    cases rest with
    | nil => exact drives_done trivial
    | cons b rest =>
      have hread (readsize : ℕ) : Appends (readBuffer bm s readsize) := by
        unfold readBuffer
        split_ifs
        · exact drives_done trivial
        · exact appends_bind (appends_query _) (fun _ => appends_query _)
      simp only [writeChunk]
      exact appends_bind (hread _) (fun _ => appends_bind (appends_perform _ _) (fun _ => ih _ _ _))

theorem endChunk_appends (s : Statics) : Appends (endChunk bm part image j s) := by
  unfold endChunk
  split_ifs
  · exact appends_perform _ _
  · exact drives_done trivial

theorem beginChunk_appends (s : Statics) : Appends (beginChunk bm part image j s) := by
  unfold beginChunk
  split_ifs
  · exact appends_bind (appends_query _) (fun _ => appends_bind (appends_perform _ _) (fun _ => appends_perform _ _))
  · exact drives_done trivial

theorem writeUpdatePkg_appends (file : Option (List UInt8)) (s : Statics) :
    Appends (writeUpdatePkg bm devtype part image file j s) :=
  appends_bind (appends_query _) (fun _ => appends_bind (appends_query _) (fun _ =>
    appends_bind (beginChunk_appends s) (fun _ => appends_bind (appends_query _) (fun _ =>
      appends_bind (writeChunk_appends _ _ _ _) (fun s => endChunk_appends s)))))

def Completes (φ : Phase) (tr : List Event) (r : Option Statics × List Event) : Prop :=
  ∃ new, r.2 = tr ++ new ∧ (new.map Prod.fst).foldlM (Phase.advance agreeable) φ = some .finished ∧ r.1.isSome = true

abbrev writeAll (devtype : String) (part : PartInfo) (cs : List Numbered) (s : Statics) : Prog Call Statics :=
  cs.foldlM (fun s chunk => writeUpdatePkg agreeable devtype part chunk.1.1 (some [0]) chunk.1.2 s) s

variable {φ : Phase} {cs : List Numbered} {c : Numbered}

theorem writeAll_appends (cs : List Numbered) (s : Statics) : Appends (writeAll devtype part cs s) :=
  drives_foldlM cs (fun _ _ _ _ _ => writeUpdatePkg_appends _ _) trivial

theorem Completes.cons (h : Completes φ tr (writeAll devtype part (c :: cs) s tr)) :
    ∃ s' new ψ, writeUpdatePkg agreeable devtype part c.1.1 (some [0]) c.1.2 s tr = (some s', tr ++ new) ∧
      (new.map Prod.fst).foldlM (Phase.advance agreeable) φ = some ψ ∧
      Completes ψ (tr ++ new) (writeAll devtype part cs s' (tr ++ new)) := by
  have happends : Appends (writeUpdatePkg agreeable devtype part c.1.1 (some [0]) c.1.2 s) := writeUpdatePkg_appends _ _
  obtain ⟨new, -, hnew, -⟩ := happends tr
  cases hval : (writeUpdatePkg agreeable devtype part c.1.1 (some [0]) c.1.2 s tr).1 with
  | none =>
    obtain ⟨all, -, -, hsome⟩ := h
    simp only [writeAll, List.foldlM_cons, Bind.bind, Prog.bind,
      show writeUpdatePkg agreeable devtype part c.1.1 (some [0]) c.1.2 s tr = (none, tr ++ new) from
        Prod.ext hval hnew] at hsome
    cases hsome
  | some s' =>
    have hrun : writeUpdatePkg agreeable devtype part c.1.1 (some [0]) c.1.2 s tr = (some s', tr ++ new) := Prod.ext hval hnew
    have hwrite : writeAll devtype part (c :: cs) s tr = writeAll devtype part cs s' (tr ++ new) := by
      rw [writeAll, List.foldlM_cons]
      simp only [Bind.bind, Prog.bind, hrun]
    rw [hwrite] at h
    obtain ⟨all, hall, hphase, hsome⟩ := h
    have hcs : Appends (writeAll devtype part cs s') := writeAll_appends cs s'
    obtain ⟨more, -, hmore, -⟩ := hcs (tr ++ new)
    obtain rfl : all = new ++ more := by
      rw [hmore, List.append_assoc] at hall
      exact (List.append_cancel_left hall).symm
    rw [List.map_append, List.foldlM_append, Option.bind_eq_bind, Option.bind_eq_some_iff] at hphase
    obtain ⟨ψ, hψ, hphase⟩ := hphase
    exact ⟨s', new, ψ, hrun, hψ, more, hmore, hphase, hsome⟩

theorem opens_prepares (hdevtype : devtype = "nand" ∨ devtype = "nor") (hopens : opens part image j)
    (hshort : image.fsType.utf8ByteSize ≤ 19) (s : Statics) (tr : List Event) :
    ∃ more, (writeUpdatePkg agreeable devtype part image (some [0]) j s tr).2 =
      tr ++ (.prepare image image.offset image.size image.fsType, true) :: more := by
  obtain ⟨s', hbegin⟩ : ∃ s', beginChunk agreeable part image j s tr = (some (0, s'),
      tr ++ [(.prepare image image.offset image.size image.fsType, true), (.erase image image.offset 0, true)]) :=
    ⟨_, by rw [beginChunk, if_pos hopens, openPartition_agreeable hshort]⟩
  have hrest (r : ℕ × Statics) : Appends (do
      Prog.require (r.2.nextWriteOffset ≤ (part.offset + part.size).toNat)
      let s ← writeChunk agreeable image [(0 : UInt8)].length [0] (curWriteOffset image r.1 r.2) r.2
      endChunk agreeable part image j s) :=
    appends_bind (appends_query _) (fun _ => appends_bind (writeChunk_appends _ _ _ _) (fun s => endChunk_appends s))
  obtain ⟨more, -, hmore, -⟩ := hrest (0, s') (tr ++ [(.prepare image image.offset image.size image.fsType, true),
    (.erase image image.offset 0, true)])
  simp only [writeUpdatePkg, Bind.bind, Prog.bind, Prog.query, Prog.require, if_pos hdevtype, hbegin]
  refine ⟨(.erase image image.offset 0, true) :: more, hmore.trans ?_⟩
  rw [List.append_assoc]
  rfl

theorem Completes.not_opens (hdevtype : devtype = "nand" ∨ devtype = "nor")
    (h : Completes φ tr (writeAll devtype part (c :: cs) s tr)) (hφ : φ ≠ .closed) : ¬opens part c.1.1 c.1.2 := by
  intro hopens
  obtain ⟨s', new, ψ, hrun, hphase, -⟩ := h.cons
  by_cases hshort : c.1.1.fsType.utf8ByteSize ≤ 19
  · obtain ⟨more, hmore⟩ := opens_prepares hdevtype hopens hshort s tr
    rw [hrun] at hmore
    obtain rfl := List.append_cancel_left hmore
    cases φ with
    | closed => exact hφ rfl
    | prepared => cases hphase
    | erased => cases hphase
    | finished => cases hphase
  · have hnone := refused_agreeable devtype s tr hopens (not_le.mp hshort)
    rw [hrun] at hnone
    cases hnone

theorem Completes.ended (hdevtype : devtype = "nand" ∨ devtype = "nor")
    (h : Completes .finished tr (writeAll devtype part cs ended tr)) : cs = [] := by
  cases cs with
  | nil => rfl
  | cons c cs =>
    have hopens := h.not_opens hdevtype Phase.noConfusion
    obtain ⟨s', new, ψ, hrun, -⟩ := h.cons
    rw [ended_agreeable hdevtype hopens] at hrun
    cases hrun

theorem erased_write {fs : String} {offset : ℕ} {buffer : List UInt8} {events : List Event} {ψ : Phase} {ok : Bool} :
    (((Call.write image (some fs) offset buffer, ok) :: events).map Prod.fst).foldlM (Phase.advance agreeable) .erased =
        some ψ ↔ fs = image.fsType ∧ (events.map Prod.fst).foldlM (Phase.advance agreeable) .erased = some ψ := by
  rw [List.map_cons, List.foldlM_cons, Phase.advance]
  by_cases hfs : fs = image.fsType
  · simp [hfs]
  · simp [hfs]

theorem Completes.rest {fs : String} (hdevtype : devtype = "nand" ∨ devtype = "nor")
    (h : Completes .erased tr (writeAll devtype part cs (opened fs) tr)) :
    (∀ c ∈ cs, ¬opens part c.1.1 c.1.2) ∧ (∀ c ∈ cs, c.1.1.fsType = fs) ∧
      OnlyLast (fun c : Numbered => closes part c.1.1 c.1.2) cs := by
  induction cs generalizing tr with
  | nil =>
    obtain ⟨new, hnew, hphase, -⟩ := h
    obtain rfl : new = [] := by simpa [Pure.pure, Prog.done] using hnew
    cases hphase
  | cons c cs ih =>
    have hopens := h.not_opens hdevtype Phase.noConfusion
    obtain ⟨s', new, ψ, hrun, hphase, hrest⟩ := h.cons
    rw [next_agreeable fs hdevtype hopens, endChunk_agreeable] at hrun
    split_ifs at hrun with hcloses
    · obtain ⟨hs', hnew⟩ := Prod.mk.inj hrun
      obtain rfl := Option.some.inj hs'
      rw [List.append_assoc] at hnew
      obtain rfl := List.append_cancel_left hnew
      obtain ⟨hfs, hphase⟩ := erased_write.mp hphase
      cases hphase
      obtain rfl := hrest.ended hdevtype
      refine ⟨by simpa using hopens, by simpa using hfs.symm, onlyLast_cons.mpr (Or.inl ⟨hcloses, rfl⟩)⟩
    · obtain ⟨hs', hnew⟩ := Prod.mk.inj hrun
      obtain rfl := Option.some.inj hs'
      obtain rfl := List.append_cancel_left hnew
      obtain ⟨hfs, hphase⟩ := erased_write.mp hphase
      cases hphase
      obtain ⟨h1, h2, h3⟩ := ih hrest
      exact ⟨List.forall_mem_cons.mpr ⟨hopens, h1⟩, List.forall_mem_cons.mpr ⟨hfs.symm, h2⟩,
        onlyLast_cons.mpr (Or.inr ⟨hcloses, h3⟩)⟩

theorem Completes.first {cs : List Numbered} (h : Completes .closed tr (writeAll devtype part cs idle tr)) :
    (devtype = "nand" ∨ devtype = "nor") ∧ OnlyFirst (fun c : Numbered => opens part c.1.1 c.1.2) cs ∧
      OnlyLast (fun c : Numbered => closes part c.1.1 c.1.2) cs ∧
      ∃ fs, fs.utf8ByteSize ≤ 19 ∧ ∀ c ∈ cs, c.1.1.fsType = fs := by
  cases cs with
  | nil =>
    obtain ⟨new, hnew, hphase, -⟩ := h
    obtain rfl : new = [] := by simpa [Pure.pure, Prog.done] using hnew
    cases hphase
  | cons c cs =>
    obtain ⟨s', new, ψ, hrun, hphase, hrest⟩ := h.cons
    by_cases hdevtype : devtype = "nand" ∨ devtype = "nor"
    · refine ⟨hdevtype, ?_⟩
      by_cases hopens : opens part c.1.1 c.1.2
      · by_cases hshort : c.1.1.fsType.utf8ByteSize ≤ 19
        · rw [first_agreeable hdevtype hopens hshort, endChunk_agreeable] at hrun
          split_ifs at hrun with hcloses
          · obtain ⟨hs', hnew⟩ := Prod.mk.inj hrun
            obtain rfl := Option.some.inj hs'
            simp only [List.append_assoc] at hnew
            obtain rfl := List.append_cancel_left hnew
            obtain ⟨-, hphase⟩ := erased_write.mp hphase
            cases hphase
            obtain rfl := hrest.ended hdevtype
            exact ⟨⟨c, [], rfl, hopens, by simp⟩, onlyLast_cons.mpr (Or.inl ⟨hcloses, rfl⟩), c.1.1.fsType, hshort, by simp⟩
          · obtain ⟨hs', hnew⟩ := Prod.mk.inj hrun
            obtain rfl := Option.some.inj hs'
            simp only [List.append_assoc] at hnew
            obtain rfl := List.append_cancel_left hnew
            obtain ⟨-, hphase⟩ := erased_write.mp hphase
            cases hphase
            obtain ⟨h1, h2, h3⟩ := hrest.rest hdevtype
            exact ⟨⟨c, cs, rfl, hopens, h1⟩, onlyLast_cons.mpr (Or.inr ⟨hcloses, h3⟩), c.1.1.fsType, hshort,
              List.forall_mem_cons.mpr ⟨rfl, h2⟩⟩
        · have hnone := refused_agreeable devtype idle tr hopens (not_le.mp hshort)
          rw [hrun] at hnone
          cases hnone
      · rw [stray_agreeable hdevtype hopens] at hrun
        cases hrun
    · have hnone := other_agreeable part c.1 idle tr hdevtype
      rw [hrun] at hnone
      cases hnone

end Agreeable

theorem followsProtocol_iff (devtype : String) (part : PartInfo) :
    FollowsProtocol devtype part ↔ (devtype = "nand" ∨ devtype = "nor") ∧ Orderly part := by
  constructor
  · intro h
    obtain ⟨⟨phase, hphase, hdone⟩, hsure⟩ := h agreeable (fun _ => some [0]) idle
    have hsome := hsure faultFree_agreeable
    obtain rfl := hdone hsome
    have hcompletes : Completes .closed [] (writeAll devtype part (chunks part.list).zipIdx idle []) :=
      ⟨_, (List.nil_append _).symm, hphase, hsome⟩
    obtain ⟨hdevtype, hfirst, hlast, fs, hshort, hfs⟩ := hcompletes.first
    have hfst : (chunks part.list).zipIdx.map Prod.fst = chunks part.list := List.zipIdx_map_fst 0 _
    have hall : ∀ image ∈ live part.list, image.fsType = fs := by
      rw [← forall_chunks, ← hfst]
      intro c hc
      obtain ⟨d, hd, rfl⟩ := List.mem_map.mp hc
      exact hfs d hd
    refine ⟨hdevtype, ?_, ?_, fun image himage other hother => (hall image himage).trans (hall other hother).symm,
      fun image himage => (hall image himage).symm ▸ hshort⟩
    · rw [← chunks_onlyFirst, ← hfst, onlyFirst_map]
      exact hfirst
    · rw [← chunks_onlyLast, ← hfst, onlyLast_map]
      exact hlast
  · rintro ⟨hdevtype, h⟩
    exact followsProtocol_of_orderly hdevtype h

theorem mixed_file_systems : ¬FollowsProtocol "nand" ⟨⟨"system", 0, 4194304, "mtdblock0"⟩, 2, 2,
    [⟨"boot.bin", "normal", 0, 2097152, 0, 1⟩, ⟨"root.jffs2", "jffs2", 2097152, 2097152, 0, 1⟩]⟩ := by
  intro h
  obtain ⟨⟨phase, hphase, -⟩, -⟩ := h agreeable (fun _ => some [0]) idle
  have hstuck : ((updatePartition agreeable "nand" ⟨⟨"system", 0, 4194304, "mtdblock0"⟩, 2, 2,
      [⟨"boot.bin", "normal", 0, 2097152, 0, 1⟩, ⟨"root.jffs2", "jffs2", 2097152, 2097152, 0, 1⟩]⟩
      (fun _ => some [0]) idle []).2.map Prod.fst).foldlM (Phase.advance agreeable) .closed = none := by decide +kernel
  rw [hstuck] at hphase
  cases hphase

end LinuxRecovery.PartitionProtocol
