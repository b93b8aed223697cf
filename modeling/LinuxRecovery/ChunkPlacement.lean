import LinuxRecovery.BadBlocks
import LinuxRecovery.ChunkRoute
import LinuxRecovery.UpdateFlash

namespace LinuxRecovery.ChunkPlacement

open ByteMemory Libmtd BlockMap BasicWrite BlockScan MtdManager PageOutcomes Placement ChunkRoute ProgrammedBytes Traces
open UpdateFlash
open FaultyWrite (kept kept_length)
open MtdBlock (UbiSource narrow)
open UpdateFile (ImageInfo PartInfo)
open WritePackage (Statics Event)

def recorded (mtd : MtdDevInfo) (st : BmState) : Area :=
  { area mtd st with bad := BadBlocks.recordedBad mtd st }

def lengths (files : List (List UInt8)) : List ℕ := (files.map List.length).filter (fun n => n ≠ 0)

theorem lengths_singleton {file : List UInt8} (h : file ≠ []) : lengths [file] = [file.length] := by
  have hlen : file.length ≠ 0 := fun h0 => h (List.length_eq_zero_iff.mp h0)
  rw [lengths, List.map_singleton, List.filter_singleton, decide_eq_true hlen]
  rfl

structure Landed (mtd : MtdDevInfo) (o : BmState) (ps : List (ℕ × ℕ)) (data : List UInt8) (st : BmState) : Prop where
  programs : Programs mtd o.toChip st.toChip (((area mtd o).layout ps).map (mtd.start + ·))
  bad : mtdBmBlockMapIsBad st = mtdBmBlockMapIsBad o
  sysinfo : st.sysinfo = o.sysinfo
  stored : (∀ p ∈ ps, (area mtd o).Fits p) → data.length = ((area mtd o).layout ps).length ∧
    ∀ a, st.mem (mtd.start + a) = scatter o.mem (((area mtd o).layout ps).map (mtd.start + ·)) data (mtd.start + a)

theorem scatter_congr {m m' : Memory} {x : ℕ} (as : List ℕ) (bs : List UInt8) (h : m x = m' x) :
    scatter m as bs x = scatter m' as bs x := by
  induction as generalizing m m' bs with
  | nil => rw [scatter_nil_left, scatter_nil_left, h]
  | cons a as ih =>
    cases bs with
    | nil => exact h
    | cons b bs =>
      apply ih
      rw [Function.update_apply, Function.update_apply, h]

section Pieces

variable {mtd : MtdDevInfo} {o st st' : BmState} {ps : List (ℕ × ℕ)} {data buf : List UInt8} {w k : ℕ}

theorem area_congr (h : mtdBmBlockMapIsBad st = mtdBmBlockMapIsBad o) : area mtd st = area mtd o := by
  simp only [area, h]

theorem kept_split {B : ℕ} (h : mtd.minIoSize ∣ B) (hle : B ≤ buf.length) :
    kept mtd (buf.take B) ++ kept mtd (buf.drop B) = kept mtd buf := by
  have hlen : (buf.take B).length = B := by
    rw [List.length_take]
    omega
  have hmod : (buf.length - B) % mtd.minIoSize = buf.length % mtd.minIoSize := by
    obtain ⟨j, rfl⟩ := h
    exact Nat.sub_mul_mod hle
  rw [kept, kept, kept, hlen, List.length_drop, hmod, Nat.mod_eq_zero_of_dvd h, Nat.sub_zero, Nat.mod_self,
    List.replicate_zero, List.append_nil, ← List.append_assoc, List.take_append_drop]

theorem kept_nil : kept mtd [] = [] := by
  rw [kept, List.length_nil, Nat.zero_mod, Nat.sub_zero, Nat.mod_self, List.replicate_zero, List.append_nil]

theorem landed_refl (o : BmState) : Landed mtd o [] [] o :=
  ⟨programs_refl _, rfl, rfl, fun _ => ⟨rfl, fun _ => rfl⟩⟩

theorem Landed.write (h : Landed mtd o ps data st) (hw : Written mtd st w buf k st') :
    Landed mtd o (ps ++ [(w, buf.length)]) (data ++ kept mtd buf) st' ∧
      ((area mtd o).Fits (w, buf.length) → k = mtd.start + (area mtd o).stop w buf.length) := by
  have harea : area mtd st = area mtd o := area_congr h.bad
  obtain ⟨hprograms, hbad, hsysinfo, hstored⟩ := hw
  rw [harea] at hprograms hstored
  have hlayout : (area mtd o).layout (ps ++ [(w, buf.length)]) =
      (area mtd o).layout ps ++ (area mtd o).landing w buf.length := by
    rw [layout_append, Area.layout, Area.layout, List.flatMap_singleton]
  refine ⟨⟨?_, hbad.trans h.bad, hsysinfo.trans h.sysinfo, fun hfit => ?_⟩, fun hfit => (hstored hfit).1⟩
  · rw [hlayout, List.map_append]
    exact h.programs.trans hprograms
  · rw [List.forall_mem_append, List.forall_mem_singleton] at hfit
    obtain ⟨hlen, hmem⟩ := h.stored hfit.1
    obtain ⟨-, hmem'⟩ := hstored hfit.2
    rw [hlayout]
    refine ⟨?_, fun a => ?_⟩
    · rw [List.length_append, List.length_append, hlen, kept_length, landing_length hfit.2]
      rfl
    · rw [hmem', List.map_append, scatter_append _ _ _ _ _ (by rw [List.length_map, hlen])]
      exact scatter_congr _ _ (hmem a)

end Pieces

section Run

variable {dev : Device} {bm : SysinfoSave.PartInfo} {crc32 : List UInt8 → ℕ} {source : MtdDevInfo → Chip → UbiSource}
  {order : Order} {mtd : MtdDevInfo} {o : BmState} {m₀ m : Manager} {read : List Event → Bool} {image : ImageInfo}
  {part : PartInfo} {s : Statics} {ps : List (ℕ × ℕ)} {data : List UInt8}

structure Buffering (mtd : MtdDevInfo) (s : Statics) : Prop where
  size : s.writeBufferSize.toNat = mtd.ebSize
  leap : s.writeMediaLeap.toNat = mtd.ebSize

theorem step_write {fs : Option String} {offset n : ℕ} {buf : List UInt8} {m' : Manager}
    (h : MtdManager.mtdBlockWrite dev crc32 offset buf m = some (.off n, m')) :
    step dev bm crc32 source order m (.write image fs offset buf) = m' := by
  rw [step, h]
  rfl

theorem readBuffer_leaves (readsize : ℕ) : Leaves (step dev bm crc32 source order) m₀ m
    (WritePackage.readBuffer (mtdBm dev bm crc32 source order m₀ read) s readsize) (fun _ m' => m' = m) := by
  unfold WritePackage.readBuffer
  split_ifs
  · exact leaves_done rfl
  · refine leaves_bind leaves_require ?_
    rintro _ _ ⟨-, rfl⟩
    exact leaves_query (fun _ _ _ _ => rfl)

theorem step_erase {offset : UInt64} {length n : ℕ} {m' : Manager}
    (h : MtdManager.mtdBlockErase dev bm offset.toNat length m = some (.off n, m')) :
    step dev bm crc32 source order m (.erase image offset length) = m' := by
  rw [step, h]
  rfl

theorem step_finish {n : ℕ} {m' : Manager} (h : MtdManager.mtdBlockFinish dev crc32 m = some (.off n, m')) :
    step dev bm crc32 source order m (.finish image) = m' := by
  rw [step, h]
  rfl

section Opening

variable (dev bm crc32 source order)

def opened (image : ImageInfo) (m : Manager) : Manager :=
  step dev bm crc32 source order
    (step dev bm crc32 source order m (.prepare image image.offset image.size image.fsType))
    (.erase image image.offset ((devInfoByOffset bm (int64 image.offset)).elim 0 MtdDevInfo.size))

end Opening

theorem record_some {call : WritePackage.Call} {r : PrepareRecord} (h : record dev bm crc32 source order m call = some r) :
    ∃ image offset length filetype m', call = .prepare image offset length filetype ∧
      preparation dev bm crc32 source order offset length filetype m = some (true, m') ∧ r = m'.prepareInfo := by
  unfold record at h
  split at h
  · split at h
    · rename_i hprep
      cases h
      exact ⟨_, _, _, _, _, rfl, hprep, rfl⟩
    · cases h
  · cases h

theorem mtdGetPrepareInfo_some {tr : List Event} {info : WritePackage.PrepareInfo}
    (hmtd : devInfoByOffset bm (int64 image.offset) = some mtd) (hB : mtd.ebSize < 2 ^ 32)
    (h : WritePackage.mtdGetPrepareInfo (mtdBm dev bm crc32 source order m₀ read)
      (.prepare image image.offset image.size "normal") image.offset "normal" tr = some info) :
    Opened .normal mtd (step dev bm crc32 source order (after dev bm crc32 source order m₀ tr)
        (.prepare image image.offset image.size "normal")) ∧
      info.writeStart = image.offset.toNat ∧ info.logicalUnitSize.toNat = mtd.ebSize := by
  simp only [WritePackage.mtdGetPrepareInfo, Option.bind_eq_bind, Option.bind_eq_some_iff] at h
  obtain ⟨writeStart, hstart, maxSize, -, h⟩ := h
  split_ifs at h
  cases h
  obtain ⟨r, hr, rfl⟩ := Option.map_eq_some_iff.mp hstart
  obtain ⟨_, _, _, _, m', hcall, hprep, rfl⟩ := record_some hr
  cases hcall
  obtain ⟨hopened, hwrite, hnonneg, hleb⟩ := prepare_opens hprep hmtd
  refine ⟨?_, ?_, ?_⟩
  · rw [step, hprep]
    exact hopened
  · rw [hwrite, int64_nonneg hnonneg, Int.toNat_natCast]
  · change UInt32.toNat (Option.elim (record dev bm crc32 source order _ _) 0 (fun r => UInt32.ofInt r.logicalUnitSize)) = _
    rw [hr, Option.elim_some, hleb, ofInt_toNat hB]

theorem allocWriteBuffer_buffering {info : WritePackage.PrepareInfo} {blocksize : UInt32} {s : Statics}
    (hs : s.writeBuffer = false) (hsize : info.logicalUnitSize.toNat = mtd.ebSize) (hleap : blocksize.toNat = mtd.ebSize) :
    Buffering mtd (WritePackage.allocWriteBuffer image info blocksize s) ∧
      (WritePackage.allocWriteBuffer image info blocksize s).nextWriteOffset = s.nextWriteOffset := by
  rw [WritePackage.allocWriteBuffer, if_neg (by rw [hs]; exact Bool.noConfusion)]
  exact ⟨⟨hsize, hleap⟩, rfl⟩

theorem openPartition_leaves (hfs : image.fsType = "normal") (hmtd : devInfoByOffset bm (int64 image.offset) = some mtd)
    (hB : mtd.ebSize < 2 ^ 32) (hs : s.writeBuffer = false) :
    Leaves (step dev bm crc32 source order) m₀ m
      (WritePackage.openPartition (mtdBm dev bm crc32 source order m₀ read) image s)
      (fun r m' => m' = opened dev bm crc32 source order image m ∧ Opened .normal mtd m' ∧ r.1 = image.offset.toNat ∧
        Buffering mtd r.2 ∧ r.2.nextWriteOffset = s.nextWriteOffset) := by
  have htype : Leaves (step dev bm crc32 source order) m₀ m
      (Prog.query (fun _ => WritePackage.setOperationOption image.fsType)) (fun t m' => t = "normal" ∧ m' = m) := by
    apply leaves_query
    intro tr t _ ht
    rw [hfs] at ht
    exact ⟨(Option.some.inj ht).symm, rfl⟩
  refine leaves_bind htype ?_
  rintro _ _ ⟨rfl, hm⟩
  rw [hm]
  have hprepare : Leaves (step dev bm crc32 source order) m₀ m
      (WritePackage.mtdBlockPrepare (mtdBm dev bm crc32 source order m₀ read) image image.offset image.size "normal")
      (fun info m' => m' = step dev bm crc32 source order m (.prepare image image.offset image.size image.fsType) ∧
        Opened .normal mtd m' ∧ info.writeStart = image.offset.toNat ∧ info.logicalUnitSize.toNat = mtd.ebSize) := by
    apply leaves_perform
    rintro tr info rfl hinfo
    split_ifs at hinfo
    rw [hfs]
    exact ⟨rfl, mtdGetPrepareInfo_some hmtd hB hinfo⟩
  refine leaves_bind hprepare ?_
  rintro info _ ⟨rfl, hopened, hstart, hsize⟩
  apply leaves_perform
  rintro tr r htr hr
  split_ifs at hr with herase
  cases hr
  have hleap : ((mtdBm dev bm crc32 source order m₀ read).blocksize image.offset).toNat = mtd.ebSize := by
    change (UInt32.ofInt (MtdManager.blocksize bm (int64 image.offset))).toNat = _
    rw [MtdManager.blocksize, hmtd, Option.elim_some, ofInt_toNat hB]
  obtain ⟨hbuffering, hnext⟩ := @allocWriteBuffer_buffering mtd image info _ { s with prepared := some info } hs hsize hleap
  refine ⟨rfl, ?_, hstart, hbuffering, hnext⟩
  obtain ⟨n, hn⟩ := Option.isSome_iff_exists.mp (show (offsetOf _).isSome = true from herase)
  obtain ⟨m', herased⟩ := offsetOf_some hn
  have hstate : after dev bm crc32 source order m₀ tr = _ := htr
  rw [hstate] at herased
  rw [step_erase herased]
  exact erase_opened herased hopened

theorem finish_leaves {j : ℕ} (ho : Opened .normal mtd m) : Leaves (step dev bm crc32 source order) m₀ m
    (WritePackage.endChunk (mtdBm dev bm crc32 source order m₀ read) part image j s)
    (fun s' m' => s'.nextWriteOffset = s.nextWriteOffset ∧ m'.toBmState = m.toBmState ∧
      (¬WritePackage.closes part image j → s' = s ∧ m' = m)) := by
  unfold WritePackage.endChunk
  split_ifs with hcloses
  · apply leaves_perform
    rintro tr s' rfl hs'
    split_ifs at hs' with hfinish
    cases hs'
    obtain ⟨n, hn⟩ := Option.isSome_iff_exists.mp (show (offsetOf _).isSome = true from hfinish.2)
    obtain ⟨m', hm'⟩ := offsetOf_some hn
    refine ⟨rfl, ?_, fun h => absurd hcloses h⟩
    rw [← finish_bm ho hm']
    rw [after] at hm'
    rw [step_finish hm']
  · exact leaves_done ⟨rfl, rfl, fun _ => ⟨rfl, rfl⟩⟩

variable (hf : PageFaults dev mtd (fun _ => false)) (hn : mtdTypeIsNand mtd = true) (hu : Unreserved mtd 0 o)
include hf hn hu

theorem mtdBlockWrite_leaves {prepared : Option WritePackage.PrepareInfo} {offset : ℕ} {buf : List UInt8}
    (ho : Opened .normal mtd m)
    (hl : Landed mtd o ps data m.toBmState) :
    Leaves (step dev bm crc32 source order) m₀ m
      (WritePackage.mtdBlockWrite (mtdBm dev bm crc32 source order m₀ read) image prepared offset buf)
      (fun next m' => Opened .normal mtd m' ∧ ∃ w k, offset = mtd.start + w ∧ narrow k = some next ∧
        Landed mtd o (ps ++ [(w, buf.length)]) (data ++ kept mtd buf) m'.toBmState ∧
        ((area mtd o).Fits (w, buf.length) → k = mtd.start + (area mtd o).stop w buf.length)) := by
  apply leaves_perform
  rintro tr next rfl hanswer
  split_ifs at hanswer
  obtain ⟨m', hwrite⟩ := offsetOf_some hanswer
  have hu' : Unreserved mtd 0 (after dev bm crc32 source order m₀ tr).toBmState := by
    rw [Unreserved, after, hl.sysinfo]
    exact hu
  obtain ⟨hopened, w, k, hw, hk, hwritten⟩ := write_written hf hn hu' ho hwrite
  rw [after] at hwrite
  rw [step_write hwrite]
  obtain ⟨hlanded, hstop⟩ := hl.write hwritten
  exact ⟨hopened, w, k, hw, hk, hlanded, hstop⟩

structure ChunkWritten (mtd : MtdDevInfo) (o : BmState) (ps : List (ℕ × ℕ)) (data : List UInt8) (fuel offset : ℕ)
    (rest : List UInt8) (next : ℕ) (m' : Manager) (w : ℕ) : Prop where
  offset : offset = mtd.start + w
  landed : Landed mtd o (ps ++ pieces mtd.ebSize fuel w rest.length) (data ++ kept mtd rest) m'.toBmState
  next : (∀ p ∈ pieces mtd.ebSize fuel w rest.length, (area mtd o).Fits p) →
    narrow (mtd.start + (area mtd o).finish w (pieces mtd.ebSize fuel w rest.length)) = some next

theorem writeChunk_leaves {fuel offset : ℕ} {rest : List UInt8} (hfuel : rest.length ≤ fuel) (hs : Buffering mtd s)
    (ho : Opened .normal mtd m) (hl : Landed mtd o ps data m.toBmState) :
    Leaves (step dev bm crc32 source order) m₀ m
      (WritePackage.writeChunk (mtdBm dev bm crc32 source order m₀ read) image fuel rest offset s)
      (fun s' m' => Opened .normal mtd m' ∧ ∃ next, s' = { s with nextWriteOffset := next } ∧
        (rest = [] ∧ next = s.nextWriteOffset ∧ m' = m ∨
          rest ≠ [] ∧ ∃ w, ChunkWritten mtd o ps data fuel offset rest next m' w)) := by
  induction fuel generalizing rest offset s ps data m with
  | zero =>
    obtain rfl : rest = [] := List.length_eq_zero_iff.mp (by omega)
    exact leaves_done ⟨ho, _, rfl, .inl ⟨rfl, rfl, rfl⟩⟩
  | succ fuel ih =>
    cases hrest : rest with
    | nil => exact leaves_done ⟨ho, _, rfl, .inl ⟨rfl, rfl, rfl⟩⟩
    | cons b bs =>
      simp only [WritePackage.writeChunk]
      rw [← hrest, hs.size]
      have hpos : 0 < rest.length := by rw [hrest]; exact Nat.succ_pos _
      refine leaves_bind (readBuffer_leaves _) ?_
      rintro _ _ rfl
      refine leaves_bind (mtdBlockWrite_leaves hf hn hu ho hl) ?_
      rintro next m₁ ⟨hopened, w, k, hw, hk, hlanded, hstop⟩
      have htake : (rest.take (min rest.length mtd.ebSize)).length = min rest.length mtd.ebSize := by
        rw [List.length_take]
        omega
      have hdrop : (rest.drop (min rest.length mtd.ebSize)).length = rest.length - mtd.ebSize := by
        rw [List.length_drop]
        omega
      have hB := mtd.ebSize_pos
      rw [htake] at hlanded hstop
      have hpieces : pieces mtd.ebSize (fuel + 1) w rest.length = (w, min rest.length mtd.ebSize) ::
          pieces mtd.ebSize fuel (w + mtd.ebSize) (rest.length - mtd.ebSize) := pieces_succ hpos
      have hs' : Buffering mtd { s with nextWriteOffset := next } := ⟨hs.size, hs.leap⟩
      refine (ih ?_ hs' hopened hlanded).mono ?_
      · omega
      rintro s' m' ⟨hopened', next', rfl, hcase⟩
      refine ⟨hopened', next', rfl, .inr ⟨by rw [hrest]; exact List.cons_ne_nil _ _, w, hw, ?_, ?_⟩⟩
      · rcases hcase with ⟨hnil, -, rfl⟩ | ⟨hne, w', hlater⟩
        · rw [hnil, List.length_nil] at hdrop
          have hwhole : rest.take (min rest.length mtd.ebSize) = rest := List.take_of_length_le (by omega)
          rw [hpieces, ← hdrop, pieces_zero]
          rwa [hwhole] at hlanded
        · have hlt : mtd.ebSize < rest.length := by
            have := List.length_pos_of_ne_nil hne
            omega
          obtain rfl : w' = w + mtd.ebSize := by
            have := hlater.offset
            rw [hs.leap] at this
            omega
          have hdata := kept_split mtd.minIoSize_dvd hlt.le
          have hlanded' := hlater.landed
          rw [hdrop, min_eq_right hlt.le, List.append_assoc, List.append_assoc, hdata] at hlanded'
          rwa [hpieces, min_eq_right hlt.le]
      · rcases hcase with ⟨hnil, hnext, rfl⟩ | ⟨hne, w', hlater⟩
        · rw [hnil, List.length_nil] at hdrop
          rw [hpieces, ← hdrop, pieces_zero, List.forall_mem_singleton, hnext]
          intro hfit
          rw [← hk, hstop hfit]
          rfl
        · have hlt : 0 < rest.length - mtd.ebSize := by
            have := List.length_pos_of_ne_nil hne
            omega
          obtain rfl : w' = w + mtd.ebSize := by
            have := hlater.offset
            rw [hs.leap] at this
            omega
          have hnext' := hlater.next
          rw [hdrop] at hnext'
          obtain ⟨j, qs, hqs⟩ := pieces_head (B := mtd.ebSize) (w := w + mtd.ebSize) hlt (show _ ≤ fuel by omega)
          rw [hpieces, List.forall_mem_cons]
          intro hfit
          rw [← hnext' hfit.2, hqs]
          rfl

def Adds (mtd : MtdDevInfo) (o : BmState) (offset next : ℕ) (ps : List (ℕ × ℕ)) (data : List UInt8)
    (files : List (List UInt8)) (s : Statics) (m : Manager) : Prop :=
  ∃ qs, Landed mtd o (ps ++ qs) (data ++ files.flatMap (kept mtd)) m.toBmState ∧
    ∀ ns rs, Route (area mtd o) mtd.start offset s.nextWriteOffset ns rs →
      Route (area mtd o) mtd.start offset next (lengths files ++ ns) (qs ++ rs)

theorem chunk_leaves {j offset next cur : ℕ} {file : List UInt8} (hcur : file ≠ [] → cur = chunkOffset offset next)
    (hnil : file = [] → s.nextWriteOffset = next) (hs : Buffering mtd s) (ho : Opened .normal mtd m)
    (hl : Landed mtd o ps data m.toBmState) :
    Leaves (step dev bm crc32 source order) m₀ m
      ((WritePackage.writeChunk (mtdBm dev bm crc32 source order m₀ read) image file.length file cur s).bind
        (WritePackage.endChunk (mtdBm dev bm crc32 source order m₀ read) part image j))
      (fun s' m' => Adds mtd o offset next ps data [file] s' m' ∧
        (¬WritePackage.closes part image j → Buffering mtd s' ∧ Opened .normal mtd m')) := by
  refine leaves_bind (writeChunk_leaves hf hn hu le_rfl hs ho hl) ?_
  rintro s₁ m₁ ⟨hopened, next', rfl, hcase⟩
  refine (finish_leaves hopened).mono ?_
  rintro s' m' ⟨hnext, hst, hkept⟩
  refine ⟨?_, fun hc => ?_⟩
  · rcases hcase with ⟨rfl, hsame, rfl⟩ | ⟨hne, w, hchunk⟩
    · refine ⟨[], ?_, fun ns rs hroute => ?_⟩
      · rw [hst, List.append_nil, List.flatMap_singleton, kept_nil, List.append_nil]
        exact hl
      · rw [hnext, hsame, hnil rfl] at hroute
        exact hroute
    · refine ⟨pieces mtd.ebSize file.length w file.length, ?_, fun ns rs hroute => ?_⟩
      · rw [hst, List.flatMap_singleton]
        exact hchunk.landed
      · rw [lengths_singleton hne]
        rw [hnext] at hroute
        exact ⟨w, rs, next', hchunk.offset.symm.trans (hcur hne), rfl, hchunk.next, hroute⟩
  · obtain ⟨rfl, rfl⟩ := hkept hc
    exact ⟨⟨hs.size, hs.leap⟩, hopened⟩

omit hf hn hu in
theorem lengths_cons (file : List UInt8) (files : List (List UInt8)) :
    lengths (file :: files) = lengths [file] ++ lengths files := by
  rw [lengths, List.map_cons, ← List.singleton_append, List.filter_append]
  rfl

theorem laterChunk_leaves {devtype : String} {j : ℕ} {file : List UInt8} (hopens : ¬WritePackage.opens part image j)
    (hs : Buffering mtd s) (ho : Opened .normal mtd m) (hl : Landed mtd o ps data m.toBmState) :
    Leaves (step dev bm crc32 source order) m₀ m
      (WritePackage.writeUpdatePkg (mtdBm dev bm crc32 source order m₀ read) devtype part image (some file) j s)
      (fun s' m' => Adds mtd o image.offset.toNat s.nextWriteOffset ps data [file] s' m' ∧
        (¬WritePackage.closes part image j → Buffering mtd s' ∧ Opened .normal mtd m')) := by
  refine leaves_bind leaves_require ?_
  rintro _ m₁ ⟨-, hm⟩
  rw [hm]
  have hbegin : Leaves (step dev bm crc32 source order) m₀ m
      (WritePackage.beginChunk (mtdBm dev bm crc32 source order m₀ read) part image j s)
      (fun r m' => r = (0, s) ∧ m' = m) := by
    rw [WritePackage.beginChunk, if_neg hopens]
    exact leaves_done ⟨rfl, rfl⟩
  refine leaves_bind hbegin ?_
  rintro _ m₂ ⟨rfl, hm⟩
  rw [hm]
  refine leaves_bind leaves_require ?_
  rintro _ m₃ ⟨-, hm⟩
  rw [hm]
  refine chunk_leaves hf hn hu (fun _ => ?_) (fun _ => rfl) hs ho hl
  rw [WritePackage.curWriteOffset, chunkOffset]
  by_cases h0 : s.nextWriteOffset = 0
  · rw [if_neg (fun h => h.1 h0), if_pos h0]
  · rw [if_pos ⟨h0, rfl⟩, if_neg h0]

theorem laterChunks_leaves {devtype : String} {file : ℕ → List UInt8} {k j : ℕ}
    (hopens : ∀ i, j ≤ i → ¬WritePackage.opens part image i) (hend : j + k = image.chunkcount.toNat + 1)
    (hgoing : k ≠ 0 ∨ WritePackage.isLast part image = false → Buffering mtd s ∧ Opened .normal mtd m)
    (hl : Landed mtd o ps data m.toBmState) :
    Leaves (step dev bm crc32 source order) m₀ m
      ((List.range' j k).foldlM (fun s j => WritePackage.writeUpdatePkg (mtdBm dev bm crc32 source order m₀ read) devtype
        part image (some (file j)) j s) s)
      (fun s' m' => Adds mtd o image.offset.toNat s.nextWriteOffset ps data ((List.range' j k).map file) s' m' ∧
        (WritePackage.isLast part image = false → Buffering mtd s' ∧ Opened .normal mtd m')) := by
  induction k generalizing j s m ps data with
  | zero =>
    refine leaves_done ⟨⟨[], ?_, fun ns rs hroute => hroute⟩, fun h => hgoing (.inr h)⟩
    simpa using hl
  | succ k ih =>
    obtain ⟨hs, ho⟩ := hgoing (.inl (Nat.succ_ne_zero k))
    rw [List.range'_succ, List.foldlM_cons]
    refine leaves_bind (laterChunk_leaves hf hn hu (hopens j le_rfl) hs ho hl) ?_
    rintro s₁ m₁ ⟨⟨qs, hl₁, hroute₁⟩, hgoing₁⟩
    have hmore : k ≠ 0 ∨ WritePackage.isLast part image = false → Buffering mtd s₁ ∧ Opened .normal mtd m₁ := by
      intro h
      apply hgoing₁
      rintro ⟨hlast, hj⟩
      rcases h with h | h
      · omega
      · rw [h] at hlast
        cases hlast
    refine (ih (fun i hi => hopens i (by omega)) (by omega) hmore hl₁).mono ?_
    rintro s' m' ⟨⟨rs, hl', hroute'⟩, hready⟩
    refine ⟨⟨qs ++ rs, ?_, fun ns ts hroute => ?_⟩, hready⟩
    · rw [List.append_assoc, List.append_assoc, ← List.flatMap_append] at hl'
      exact hl'
    · have h := hroute₁ _ _ (hroute' _ _ hroute)
      rw [List.map_cons, lengths_cons, List.append_assoc, List.append_assoc]
      exact h

end Run

section Image

variable (bm : WritePackage.BlockManager) (devtype : String) (part : PartInfo) (image : ImageInfo) (file : ℕ → List UInt8)

/-- `write_update_pkg` over the chunks of an image, `file j` being what the file of chunk `j` holds. -/
def updateImage (s : Statics) : Prog WritePackage.Call Statics :=
  (List.range' 1 image.chunkcount.toNat).foldlM
    (fun s j => WritePackage.writeUpdatePkg bm devtype part image (some (file j)) j s) s

def chunkFiles : List (List UInt8) := (List.range' 1 image.chunkcount.toNat).map file

def Opens : Prop := WritePackage.isFirst part image = true ∧ image.chunkcount ≠ 0

instance : Decidable (Opens part image) := inferInstanceAs (Decidable (_ ∧ _))

/-- The offset that an image finds for its first write: its own one where it opens the partition and is not at 0, unless
there is nothing in the first chunk to write there. -/
def nextOffset (s : Statics) : ℕ :=
  if Opens part image ∧ image.offset ≠ 0 ∧ file 1 ≠ [] then image.offset.toNat else s.nextWriteOffset

def firstOffset (s : Statics) : ℕ := chunkOffset image.offset.toNat (nextOffset part image file s)

end Image

section Property

variable (mtd : MtdDevInfo)

def room (files : List (List UInt8)) : ℕ := (files.map (fun file => padded mtd.minIoSize file.length)).sum

/-- From `w₀` on the good blocks hold the chunk files one behind another, each filled up to whole pages: the requests
`calls` have put them there, and programmed no byte twice. -/
structure Placed (w₀ : ℕ) (files : List (List UInt8)) (calls : List DevCall) (st : BmState) : Prop where
  bytes : (((recorded mtd st).usable w₀).take (room mtd files)).map (fun a => st.mem (mtd.start + a)) =
    files.flatMap (kept mtd)
  filled : ∀ a ∈ ((recorded mtd st).usable w₀).take (room mtd files), mtd.start + a ∈ programmed mtd calls
  once : (programmed mtd calls).Nodup

/-- The files fit as they are filled up, written from `w` on they find the blocks from `w₀` on recorded as they are, and
laid there the chunks are in step. -/
structure Suits (o : BmState) (w₀ w : ℕ) (files : List (List UInt8)) : Prop where
  fits : room mtd files ≤ ((recorded mtd o).usable w₀).length
  agree : ((area mtd o).usable w).take (room mtd files) = ((recorded mtd o).usable w₀).take (room mtd files)
  step : InStep (area mtd o) mtd.start w (lengths files)

end Property

section Result

variable {mtd : MtdDevInfo} {o st : BmState} {files : List (List UInt8)} {qs : List (ℕ × ℕ)} {offset next : ℕ}

theorem padded_zero (P : ℕ) : padded P 0 = 0 := padded_dvd (dvd_zero P)

theorem room_lengths (files : List (List UInt8)) : ((lengths files).map (padded mtd.minIoSize)).sum = room mtd files := by
  induction files with
  | nil => rfl
  | cons file files ih =>
    have hroom : room mtd (file :: files) = padded mtd.minIoSize file.length + room mtd files := List.sum_cons
    rw [lengths_cons, List.map_append, List.sum_append, ih, hroom]
    congr 1
    by_cases h : file = []
    · subst h
      exact (padded_zero _).symm
    · rw [lengths_singleton h, List.map_singleton, List.sum_singleton]

theorem kept_room (files : List (List UInt8)) : (files.flatMap (kept mtd)).length = room mtd files := by
  rw [List.length_flatMap, room]
  congr 1
  apply List.map_congr_left
  intro file _
  exact kept_length

theorem lengths_pos (files : List (List UInt8)) : ∀ n ∈ lengths files, 0 < n := by
  intro n hn
  have := (List.mem_filter.mp hn).2
  rw [decide_eq_true_eq] at this
  exact Nat.pos_of_ne_zero this

theorem recorded_congr (h : mtdBmBlockMapIsBad st = mtdBmBlockMapIsBad o) : recorded mtd st = recorded mtd o := by
  have hbad : BadBlocks.recordedBad mtd st = BadBlocks.recordedBad mtd o := by
    funext b
    rw [BadBlocks.recordedBad, h]
    rfl
  simp only [recorded, area_congr h, hbad]

structure RunOf (mtd : MtdDevInfo) (o : BmState) (offset next w₀ w : ℕ) (files : List (List UInt8)) (qs : List (ℕ × ℕ))
    (st : BmState) : Prop where
  landed : Landed mtd o qs (files.flatMap (kept mtd)) st
  route : Route (area mtd o) mtd.start offset next (lengths files) qs
  image : mtd.start + w₀ = offset
  start : lengths files ≠ [] → mtd.start + w = chunkOffset offset next

theorem programmed_layout (h : Landed mtd o qs (files.flatMap (kept mtd)) st) :
    programmed mtd (st.calls.drop o.calls.length) = ((area mtd o).layout qs).map (mtd.start + ·) := h.programs.drop

theorem usable_head {A : Area} {u v r : ℕ} (h : ∀ a ∈ (A.usable u).take r, v ≤ a) (hr : 0 < r) : ∀ a ∈ A.usable u, v ≤ a := by
  obtain ⟨k, rfl⟩ := Nat.exists_eq_add_of_lt hr
  have hsorted : (A.usable u).Pairwise (· < ·) := usable_sorted
  cases hu : A.usable u with
  | nil => exact fun a ha => absurd ha List.not_mem_nil
  | cons x rest =>
    rw [hu, Nat.zero_add, List.take_succ_cons] at h
    rw [hu] at hsorted
    have hx := h x List.mem_cons_self
    intro a ha
    rcases List.mem_cons.mp ha with rfl | ha
    · exact hx
    · exact hx.trans ((List.pairwise_cons.mp hsorted).1 a ha).le

theorem suits_placed {w₀ w : ℕ} (h : RunOf mtd o offset next w₀ w files qs st) (hsuits : Suits mtd o w₀ w files) :
    Placed mtd w₀ files (st.calls.drop o.calls.length) st := by
  obtain ⟨hfits, hagree, hstep⟩ := hsuits
  have hlen := congrArg List.length hagree
  rw [List.length_take, List.length_take, min_eq_left hfits] at hlen
  have hroute := h.route
  have himage := h.image
  have hroom : (area mtd o).room qs = room mtd files := (route_room hroute).trans (room_lengths files)
  obtain ⟨hlayout, hfit⟩ : (area mtd o).layout qs = ((recorded mtd o).usable w₀).take (room mtd files) ∧
      ∀ p ∈ qs, (area mtd o).Fits p := by
    have hsum := @room_lengths mtd files
    by_cases hne : lengths files = []
    · rw [hne] at hroute hsum
      obtain rfl : qs = [] := hroute
      rw [← hsum]
      exact ⟨rfl, fun p hp => absurd hp List.not_mem_nil⟩
    · have hpos : 0 < room mtd files := by
        obtain ⟨n, ns, hns⟩ := List.exists_cons_of_ne_nil hne
        have hn := lengths_pos files n (by rw [hns]; exact List.mem_cons_self)
        have hle := le_padded mtd.minIoSize n
        rw [hns, List.map_cons, List.sum_cons] at hsum
        omega
      have hfrom : ∀ a ∈ (area mtd o).usable w, w₀ ≤ a := by
        apply usable_head _ hpos
        rw [hagree]
        exact fun a ha => (mem_usable.mp (List.mem_of_mem_take ha)).1
      obtain ⟨hturn, hfit⟩ := route_inTurn hroute (lengths_pos files) (h.start hne) rfl (hsum.trans_le (by omega))
        (fun a ha => by have := hfrom a ha; omega) hstep
      refine ⟨?_, hfit⟩
      rw [← hagree, ← hroom]
      exact inTurn_layout hturn hfit
  obtain ⟨hdata, hmem⟩ := h.landed.stored hfit
  have hnodup : ((area mtd o).layout qs).Nodup := by
    rw [hlayout]
    exact (usable_sorted.imp Nat.ne_of_lt).sublist (List.take_sublist _ _)
  have hplaces : (((area mtd o).layout qs).map (mtd.start + ·)).Nodup :=
    hnodup.map (add_right_injective mtd.start)
  constructor
  · rw [recorded_congr h.landed.bad, ← hlayout]
    have hbytes := map_scatter o.mem _ _ hplaces (by rw [List.length_map, hdata])
    rw [List.map_map] at hbytes
    rw [← hbytes]
    exact List.map_congr_left fun a _ => hmem a
  · rw [recorded_congr h.landed.bad, programmed_layout h.landed, hlayout]
    exact fun a ha => List.mem_map_of_mem ha
  · rw [programmed_layout h.landed]
    exact hplaces

/-- The other way round it takes that nothing has been written behind the image's place, or that no offset of the
partition is too large for an `int` to tell it from a small one. -/
theorem placed_suits {w₀ w : ℕ} (h : RunOf mtd o offset next w₀ w files qs st)
    (hback : next ≤ offset ∨ mtd.start + mtd.size < 2 ^ 32)
    (hplaced : Placed mtd w₀ files (st.calls.drop o.calls.length) st) : Suits mtd o w₀ w files := by
  obtain ⟨hbytes, hfilled, honce⟩ := hplaced
  rw [recorded_congr h.landed.bad] at hbytes hfilled
  rw [programmed_layout h.landed] at hfilled honce
  have hroute := h.route
  have himage := h.image
  have hroom : (area mtd o).room qs = room mtd files := (route_room hroute).trans (room_lengths files)
  have hlen := congrArg List.length hbytes
  rw [List.length_map, kept_room, List.length_take] at hlen
  have hfits : room mtd files ≤ ((recorded mtd o).usable w₀).length := by omega
  by_cases hne : lengths files = []
  · have hsum := @room_lengths mtd files
    rw [hne] at hsum
    refine ⟨hfits, by rw [← hsum]; rfl, ?_⟩
    rw [hne]
    trivial
  have htaken : (((recorded mtd o).usable w₀).take (room mtd files)).Nodup :=
    (usable_sorted.imp Nat.ne_of_lt).sublist (List.take_sublist _ _)
  have hsub : ((recorded mtd o).usable w₀).take (room mtd files) ⊆ (area mtd o).layout qs := by
    intro a ha
    obtain ⟨b, hb, heq⟩ := List.mem_map.mp (hfilled a ha)
    obtain rfl : b = a := Nat.add_left_cancel heq
    exact hb
  -- as many bytes are read as the pieces can have programmed, so it is all of them
  have hle := @layout_length_le (area mtd o) qs
  have hperm := (List.subperm_of_subset htaken hsub).perm_of_length_le
    (by rw [List.length_take, min_eq_left hfits, ← hroom]; exact hle)
  have hfit := fits_of_length (route_pos hroute) (by
    rw [← hperm.length_eq, List.length_take, min_eq_left hfits, hroom])
  have hnodup : ((area mtd o).layout qs).Nodup := hperm.nodup_iff.mp htaken
  have hfrom : ∀ a ∈ (area mtd o).layout qs, w₀ ≤ a := by
    intro a ha
    exact (mem_usable.mp (List.mem_of_mem_take (hperm.mem_iff.mpr ha))).1
  obtain ⟨v, hstart, himg, hbehindv⟩ : ∃ v, chunkOffset offset next ≤ mtd.start + v ∧ offset ≤ mtd.start + v ∧
      ∀ a ∈ (area mtd o).layout qs, v ≤ a := by
    rcases Nat.lt_or_ge offset next with hlt | hge
    · have hw := h.start hne
      refine ⟨w, hw.ge, ?_, fun a ha => ?_⟩
      · rw [hw, chunkOffset_behind hlt]
        exact hlt.le
      · rw [chunkOffset_behind hlt] at hw
        have := route_from hroute hlt (lengths_pos files) hfit (hback.resolve_left (not_le.mpr hlt)) a ha
        omega
    · exact ⟨w₀, chunkOffset_le (by omega) himage.ge, himage.ge, hfrom⟩
  have hbehind : (area mtd o).Behind v qs :=
    route_behind hroute hstart (lengths_pos files) hfit fun a ha => by have := hbehindv a ha; omega
  have hturn : (area mtd o).InTurn v qs :=
    behind_inTurn (E := []) le_rfl (List.nil_append _).symm hbehind hfit (by rw [List.nil_append]; exact hnodup) hbehindv
  have hlayout := inTurn_layout hturn hfit
  rw [hroom] at hlayout
  have hfrom' : ∀ a ∈ (area mtd o).usable v, offset ≤ mtd.start + a := by
    intro a ha
    have := (mem_usable.mp ha).1
    omega
  obtain ⟨hsame, hstep⟩ := inTurn_step hroute (lengths_pos files) (h.start hne) hturn hfit hfrom' hne
  refine ⟨hfits, ?_, hstep⟩
  rw [hlayout, ← hsame] at hperm
  exact List.Perm.eq_of_pairwise' (usable_sorted.sublist (List.take_sublist _ _))
    (usable_sorted.sublist (List.take_sublist _ _)) hperm.symm

end Result

section Claim

variable {dev : Device} {bm : SysinfoSave.PartInfo} {crc32 : List UInt8 → ℕ} {source : MtdDevInfo → Chip → UbiSource}
  {order : Order} {mtd : MtdDevInfo} {m₀ m : Manager} {read : List Event → Bool} {image : ImageInfo} {part : PartInfo}
  {s : Statics} {devtype : String} {file : ℕ → List UInt8}

variable (dev bm crc32 source order part image m) in
def begun : Manager := if Opens part image then opened dev bm crc32 source order image m else m

variable (mtd part image s m) in
/-- What an image finds: no buffer where it is the first one of its partition, else what the one before it has left. -/
def Ready : Prop :=
  if WritePackage.isFirst part image = true then s.writeBuffer = false else Buffering mtd s ∧ Opened .normal mtd m

variable (hfs : image.fsType = "normal") (hmtd : devInfoByOffset bm (int64 image.offset) = some mtd)
  (hn : mtdTypeIsNand mtd = true) (hB : mtd.ebSize < 2 ^ 32) (hf : PageFaults dev mtd (fun _ => false))
include hfs hmtd hn hB hf

theorem firstChunk_leaves (hfirst : WritePackage.isFirst part image = true) (hs : s.writeBuffer = false)
    (hu : Unreserved mtd 0 (opened dev bm crc32 source order image m).toBmState) (file : List UInt8) :
    Leaves (step dev bm crc32 source order) m₀ m
      (WritePackage.writeUpdatePkg (mtdBm dev bm crc32 source order m₀ read) devtype part image (some file) 1 s)
      (fun s' m' => Adds mtd (opened dev bm crc32 source order image m).toBmState image.offset.toNat
          (if image.offset ≠ 0 ∧ file ≠ [] then image.offset.toNat else s.nextWriteOffset) [] [] [file] s' m' ∧
        (¬WritePackage.closes part image 1 → Buffering mtd s' ∧ Opened .normal mtd m')) := by
  refine leaves_bind leaves_require ?_
  rintro _ m₁ ⟨-, hm⟩
  rw [hm]
  have hbegin : Leaves (step dev bm crc32 source order) m₀ m
      (WritePackage.beginChunk (mtdBm dev bm crc32 source order m₀ read) part image 1 s)
      (fun r m' => m' = opened dev bm crc32 source order image m ∧ Opened .normal mtd m' ∧ r.1 = image.offset.toNat ∧
        Buffering mtd r.2 ∧ r.2.nextWriteOffset = s.nextWriteOffset) := by
    rw [WritePackage.beginChunk, if_pos ⟨hfirst, rfl⟩]
    exact openPartition_leaves hfs hmtd hB hs
  refine leaves_bind hbegin ?_
  rintro ⟨offset, s₁⟩ m₂ ⟨hm, hopened, hoffset, hbuffering, hsame⟩
  refine leaves_bind leaves_require ?_
  rintro _ m₃ ⟨-, hm'⟩
  rw [hm', hm]
  rw [hm] at hopened
  dsimp only at hoffset hbuffering hsame
  apply chunk_leaves hf hn hu ?_ ?_ hbuffering hopened (landed_refl _)
  · intro hne
    rw [WritePackage.curWriteOffset, hsame, hoffset, chunkOffset]
    by_cases h0 : image.offset = 0
    · have hz : image.offset.toNat = 0 := by rw [h0]; rfl
      rw [@if_neg (image.offset ≠ 0 ∧ file ≠ []) _ (fun h => h.1 h0), hz, Nat.max_zero]
      split_ifs <;> omega
    · have hz : image.offset.toNat ≠ 0 := fun h => h0 (UInt64.toNat_inj.mp h)
      rw [@if_pos (image.offset ≠ 0 ∧ file ≠ []) _ ⟨h0, hne⟩, if_neg (fun h => hz h.2), if_neg hz, max_self]
  · intro hnil
    rw [if_neg (fun h => h.2 hnil), hsame]

theorem updateImage_leaves (hready : Ready mtd m image part s)
    (hu : Unreserved mtd 0 (begun dev bm crc32 source order m image part).toBmState) :
    Leaves (step dev bm crc32 source order) m₀ m
      (updateImage (mtdBm dev bm crc32 source order m₀ read) devtype part image file s)
      (fun s' m' => Adds mtd (begun dev bm crc32 source order m image part).toBmState image.offset.toNat
          (nextOffset part image file s) [] [] (chunkFiles image file) s' m' ∧
        (image.chunkcount ≠ 0 → WritePackage.isLast part image = false → Buffering mtd s' ∧ Opened .normal mtd m')) := by
  by_cases hopens : Opens part image
  · rw [begun, if_pos hopens] at hu ⊢
    rw [Ready, if_pos hopens.1] at hready
    obtain ⟨k, hk⟩ : ∃ k, image.chunkcount.toNat = k + 1 := by
      refine ⟨image.chunkcount.toNat - 1, ?_⟩
      have : image.chunkcount.toNat ≠ 0 := fun h => hopens.2 (UInt32.toNat_inj.mp h)
      omega
    rw [updateImage, chunkFiles, hk, List.range'_succ, List.foldlM_cons, nextOffset]
    refine leaves_bind (firstChunk_leaves hfs hmtd hn hB hf hopens.1 hready hu (file 1)) ?_
    rintro s₁ m₁ ⟨⟨qs, hl, hroute⟩, hgoing⟩
    have hmore : k ≠ 0 ∨ WritePackage.isLast part image = false → Buffering mtd s₁ ∧ Opened .normal mtd m₁ := by
      intro h
      apply hgoing
      rintro ⟨hlast, hj⟩
      rcases h with h | h
      · omega
      · rw [h] at hlast
        cases hlast
    refine (laterChunks_leaves hf hn hu (fun i hi h => by have := h.2; omega) (by omega) hmore hl).mono ?_
    rintro s' m' ⟨⟨rs, hl', hroute'⟩, hlast⟩
    refine ⟨⟨qs ++ rs, ?_, fun ns ts hlater => ?_⟩, fun _ => hlast⟩
    · rw [List.nil_append, List.nil_append] at hl' ⊢
      rw [List.map_cons, List.flatMap_cons]
      simpa using hl'
    · have h := hroute _ _ (hroute' _ _ hlater)
      rw [List.map_cons, lengths_cons, List.append_assoc, List.append_assoc]
      simpa only [hopens, true_and] using h
  · rw [begun, if_neg hopens] at hu ⊢
    rw [nextOffset, if_neg (fun h => hopens h.1)]
    by_cases hcount : image.chunkcount = 0
    · rw [updateImage, chunkFiles, hcount]
      exact leaves_done ⟨⟨[], landed_refl _, fun ns rs hroute => hroute⟩, fun h => absurd rfl h⟩
    have hfirst : ¬WritePackage.isFirst part image = true := fun h => hopens ⟨h, hcount⟩
    rw [Ready, if_neg hfirst] at hready
    refine (laterChunks_leaves hf hn hu (fun i _ h => hfirst h.1) (Nat.add_comm _ _) (fun _ => hready) (landed_refl _)).mono ?_
    rintro s' m' ⟨hadds, hlast⟩
    exact ⟨hadds, fun _ => hlast⟩

variable (dev bm crc32 source order m read devtype part image file s) in
/-- The block manager after `write_update_pkg` was run over the chunks of an image. -/
def updated : Manager :=
  after dev bm crc32 source order m
    (updateImage (mtdBm dev bm crc32 source order m read) devtype part image file s []).2

theorem ready_next {next : ImageInfo} {s' : Statics} (hready : Ready mtd m image part s)
    (hu : Unreserved mtd 0 (begun dev bm crc32 source order m image part).toBmState) (hcount : image.chunkcount ≠ 0)
    (hlast : WritePackage.isLast part image = false) (hlater : WritePackage.isFirst part next = false)
    (hrun : (updateImage (mtdBm dev bm crc32 source order m read) devtype part image file s []).1 = some s') :
    Ready mtd (updated dev bm crc32 source order m read image part s devtype file) next part s' := by
  have hleaves : Leaves (step dev bm crc32 source order) m m
      (updateImage (mtdBm dev bm crc32 source order m read) devtype part image file s) _ :=
    updateImage_leaves hfs hmtd hn hB hf hready hu
  rw [Ready, if_neg (by rw [hlater]; exact Bool.noConfusion)]
  exact (hleaves [] rfl s' hrun).2 hcount hlast

/-- After a run over an image's chunks they lie in the good blocks just if the chunks suit the partition. -/
theorem placed_iff (hready : Ready mtd m image part s)
    (hu : Unreserved mtd 0 (begun dev bm crc32 source order m image part).toBmState) (hin : mtd.start ≤ image.offset.toNat)
    (hrun : (updateImage (mtdBm dev bm crc32 source order m read) devtype part image file s []).1.isSome = true) :
    (Suits mtd (begun dev bm crc32 source order m image part).toBmState (image.offset.toNat - mtd.start)
        (firstOffset part image file s - mtd.start) (chunkFiles image file) →
      Placed mtd (image.offset.toNat - mtd.start) (chunkFiles image file)
        ((updated dev bm crc32 source order m read image part s devtype file).calls.drop
          (begun dev bm crc32 source order m image part).calls.length)
        (updated dev bm crc32 source order m read image part s devtype file).toBmState) ∧
    (s.nextWriteOffset ≤ image.offset.toNat ∨ mtd.start + mtd.size < 2 ^ 32 →
      Placed mtd (image.offset.toNat - mtd.start) (chunkFiles image file)
        ((updated dev bm crc32 source order m read image part s devtype file).calls.drop
          (begun dev bm crc32 source order m image part).calls.length)
        (updated dev bm crc32 source order m read image part s devtype file).toBmState →
      Suits mtd (begun dev bm crc32 source order m image part).toBmState (image.offset.toNat - mtd.start)
        (firstOffset part image file s - mtd.start) (chunkFiles image file)) := by
  have hleaves : Leaves (step dev bm crc32 source order) m m
      (updateImage (mtdBm dev bm crc32 source order m read) devtype part image file s) _ :=
    updateImage_leaves hfs hmtd hn hB hf hready hu
  obtain ⟨s', hs'⟩ := Option.isSome_iff_exists.mp hrun
  obtain ⟨⟨qs, hl, hroute⟩, -⟩ := hleaves [] rfl s' hs'
  have hroute' := hroute [] [] rfl
  rw [List.append_nil, List.append_nil] at hroute'
  have hrunOf : RunOf mtd (begun dev bm crc32 source order m image part).toBmState image.offset.toNat
      (nextOffset part image file s) (image.offset.toNat - mtd.start) (firstOffset part image file s - mtd.start)
      (chunkFiles image file) qs (updated dev bm crc32 source order m read image part s devtype file).toBmState := by
    refine ⟨hl, hroute', by omega, fun hne => ?_⟩
    obtain ⟨n, ns, hns⟩ := List.exists_cons_of_ne_nil hne
    rw [hns] at hroute'
    obtain ⟨w, -, -, hw, -⟩ := hroute'
    rw [firstOffset, ← hw]
    omega
  refine ⟨suits_placed hrunOf, fun hback hplaced => placed_suits hrunOf ?_ hplaced⟩
  rw [nextOffset]
  split_ifs
  · exact .inl le_rfl
  · exact hback

end Claim

section Small

def smallImage (chunkcount : UInt32) : ImageInfo := ⟨"rootfs", "normal", 0, 12, 12, chunkcount⟩

def smallPart (chunkcount : UInt32) : PartInfo := ⟨⟨"rootfs", 0, 16, "mtdblock0"⟩, 1, chunkcount, [smallImage chunkcount]⟩

def smallStatics : Statics := ⟨0, false, 0, 0, none⟩

def oneBad : Manager := .fresh (blankState [1])

def smallDevice : Device := faultyDevice 4 (fun _ => false)

def blankSource : MtdDevInfo → Chip → UbiSource := fun _ _ => ⟨[], 0, none⟩

def smallBm : WritePackage.BlockManager :=
  mtdBm smallDevice SysinfoSave.twoParts (fun _ => 0) blankSource listed oneBad (fun _ => true)

def smallBegun (chunkcount : UInt32) : Manager :=
  begun smallDevice SysinfoSave.twoParts (fun _ => 0) blankSource listed oneBad (smallImage chunkcount) (smallPart chunkcount)

def smallUpdated (chunkcount : UInt32) (file : ℕ → List UInt8) : Manager :=
  updated smallDevice SysinfoSave.twoParts (fun _ => 0) blankSource listed oneBad (fun _ => true) (smallImage chunkcount)
    (smallPart chunkcount) smallStatics "nand" file

theorem suits_small : Suits (smallNand 0 (by decide)) (smallBegun 3).toBmState 0 0
    (chunkFiles (smallImage 3) (fun _ => [1, 2, 3, 4])) := by
  have hlengths : lengths (chunkFiles (smallImage 3) (fun _ => [1, 2, 3, 4])) = [4, 4, 4] := by decide
  have hclean (w : ℕ) : (area (smallNand 0 (by decide)) (smallBegun 3).toBmState).Clean w 4 := by
    intro a h1 h2
    rw [show (area (smallNand 0 (by decide)) (smallBegun 3).toBmState).blockSize = 4 from rfl] at h2
    omega
  have hstop : (area (smallNand 0 (by decide)) (smallBegun 3).toBmState).stop 0 4 = 4 := by decide +kernel
  have hstop' : (area (smallNand 0 (by decide)) (smallBegun 3).toBmState).stop 4 4 = 12 := by decide +kernel
  refine ⟨by decide +kernel, by decide +kernel, ?_⟩
  rw [hlengths, InStep, InStep, InStep, InStep, hstop, hstop']
  exact ⟨hclean 0, fun _ => by decide, hclean 4, fun _ => by decide, hclean 12, fun h => absurd rfl h, trivial⟩

theorem placed_small : Placed (smallNand 0 (by decide)) 0 (chunkFiles (smallImage 3) (fun _ => [1, 2, 3, 4]))
    ((smallUpdated 3 (fun _ => [1, 2, 3, 4])).calls.drop (smallBegun 3).calls.length)
    (smallUpdated 3 (fun _ => [1, 2, 3, 4])).toBmState := by
  have hrun : (updateImage smallBm "nand" (smallPart 3) (smallImage 3) (fun _ => [1, 2, 3, 4]) smallStatics []).1.isSome =
      true := by decide +kernel
  have hunbound : (smallBegun 3).sysinfo = none := by decide +kernel
  have hunreserved : Unreserved (smallNand 0 (by decide)) 0 (smallBegun 3).toBmState := by
    intro layouts hl
    rw [hunbound] at hl
    cases hl
  have hiff := @placed_iff smallDevice SysinfoSave.twoParts (fun _ => 0) blankSource listed
    (smallNand 0 (by decide)) oneBad (fun _ => true) (smallImage 3) (smallPart 3) smallStatics "nand"
    (fun _ => [1, 2, 3, 4]) rfl rfl rfl (by decide) (faultyDevice_faults (smallNand 0 (by decide)) _) rfl hunreserved
    (by decide) hrun
  have h0 : (smallImage 3).offset.toNat - (smallNand 0 (by decide)).start = 0 := rfl
  have h1 : firstOffset (smallPart 3) (smallImage 3) (fun _ => [1, 2, 3, 4]) smallStatics -
      (smallNand 0 (by decide)).start = 0 := by decide +kernel
  rw [h0, h1] at hiff
  unfold smallUpdated smallBegun
  exact hiff.1 suits_small

/-- One chunk of three blocks: its second buffer passes over the bad block, and the third one is written on top of it. -/
theorem buffers_collide : (updateImage smallBm "nand" (smallPart 1) (smallImage 1)
      (fun _ => [1, 2, 3, 4, 5, 6, 7, 8, 9, 10, 11, 12]) smallStatics []).1.isSome = true ∧
    12 ≤ ((recorded (smallNand 0 (by decide)) (smallBegun 1).toBmState).usable 0).length ∧
    (((recorded (smallNand 0 (by decide)) (smallBegun 1).toBmState).usable 0).map
      (smallUpdated 1 (fun _ => [1, 2, 3, 4, 5, 6, 7, 8, 9, 10, 11, 12])).mem) =
        [1, 2, 3, 4, 9, 10, 11, 12, 0xff, 0xff, 0xff, 0xff] ∧
    ¬(programmed (smallNand 0 (by decide))
      ((smallUpdated 1 (fun _ => [1, 2, 3, 4, 5, 6, 7, 8, 9, 10, 11, 12])).calls.drop (smallBegun 1).calls.length)).Nodup ∧
    ¬Placed (smallNand 0 (by decide)) 0
      (chunkFiles (smallImage 1) (fun _ => [1, 2, 3, 4, 5, 6, 7, 8, 9, 10, 11, 12]))
      ((smallUpdated 1 (fun _ => [1, 2, 3, 4, 5, 6, 7, 8, 9, 10, 11, 12])).calls.drop (smallBegun 1).calls.length)
      (smallUpdated 1 (fun _ => [1, 2, 3, 4, 5, 6, 7, 8, 9, 10, 11, 12])).toBmState := by
  have htwice : ¬(programmed (smallNand 0 (by decide))
      ((smallUpdated 1 (fun _ => [1, 2, 3, 4, 5, 6, 7, 8, 9, 10, 11, 12])).calls.drop
        (smallBegun 1).calls.length)).Nodup := by decide +kernel
  exact ⟨by decide +kernel, by decide +kernel, by decide +kernel, htwice, fun h => htwice h.once⟩

end Small

end LinuxRecovery.ChunkPlacement
