import LinuxRecovery.FaultyWrite
import LinuxRecovery.Placement

namespace LinuxRecovery.ProgrammedBytes

open Loops ByteMemory Libmtd BlockMap Sysinfo BasicWrite PageOutcomes FaultyWrite Placement

def programmed (mtd : MtdDevInfo) (calls : List DevCall) : List ℕ :=
  calls.flatMap fun call =>
    match call with
    | .write start eb offs data _ _ => List.range' (start + eb * mtd.ebSize + offs) data.length
    | _ => []

def Programs (mtd : MtdDevInfo) (s s' : Chip) (as : List ℕ) : Prop :=
  ∃ new, s'.calls = s.calls ++ new ∧ programmed mtd new = as

def area (mtd : MtdDevInfo) (st : BmState) : Area where
  bad := mtdBmBlockMapIsBad st
  blockSize := mtd.ebSize
  pageSize := mtd.minIoSize
  size := mtd.size
  block_pos := mtd.ebSize_pos
  page_pos := mtd.minIoSize_pos
  page_dvd := mtd.minIoSize_dvd

structure Written (mtd : MtdDevInfo) (st₀ : BmState) (w : ℕ) (buf : List UInt8) (n : ℕ) (st : BmState) : Prop where
  programs : Programs mtd st₀.toChip st.toChip (((area mtd st₀).landing w buf.length).map (mtd.start + ·))
  bad : mtdBmBlockMapIsBad st = mtdBmBlockMapIsBad st₀
  sysinfo : st.sysinfo = st₀.sysinfo
  stored : (area mtd st₀).Fits (w, buf.length) → n = mtd.start + (area mtd st₀).stop w buf.length ∧
    ∀ a, st.mem (mtd.start + a) =
      scatter st₀.mem (((area mtd st₀).landing w buf.length).map (mtd.start + ·)) (kept mtd buf) (mtd.start + a)

variable {dev : Device} {mtd : MtdDevInfo} {fs : FsKind} {maxSize total : ℕ} {st₀ : BmState} {w₀ : ℕ} {buf : List UInt8}
  {c d : Cursor} {D : List ℕ} {data : List UInt8}

theorem programs_refl (s : Chip) : Programs mtd s s [] := ⟨[], (List.append_nil _).symm, rfl⟩

theorem Programs.trans {s s' s'' : Chip} {as bs : List ℕ} (h : Programs mtd s s' as) (h' : Programs mtd s' s'' bs) :
    Programs mtd s s'' (as ++ bs) := by
  obtain ⟨new, hcalls, rfl⟩ := h
  obtain ⟨new', hcalls', rfl⟩ := h'
  exact ⟨new ++ new', by rw [hcalls', hcalls, List.append_assoc], List.flatMap_append⟩

theorem Programs.drop {s s' : Chip} {as : List ℕ} (h : Programs mtd s s' as) :
    programmed mtd (s'.calls.drop s.calls.length) = as := by
  obtain ⟨new, hcalls, hnew⟩ := h
  rw [hcalls, List.drop_left, hnew]

theorem mtdWrite_programs {eb offs : ℕ} {bytes : List UInt8} {oob : Option (List UInt8)} {mode : MtdOps} {s chip : Chip}
    (h : mtdWrite dev mtd eb offs bytes oob mode s = (none, chip)) :
    Programs mtd s chip (List.range' (address mtd eb offs) bytes.length) := by
  unfold mtdWrite at h
  dsimp only at h
  split_ifs at h
  · cases h
  · cases h
  · cases h
  · cases h
  · split at h
    · cases h
      exact ⟨_, rfl, by simp [programmed, address]⟩
    · cases h

theorem mtdWrite_sound (hf : PageFaults dev mtd (fun _ => false)) (eb offs : ℕ) (bytes : List UInt8)
    (oob : Option (List UInt8)) (mode : MtdOps) (s : Chip) : (mtdWrite dev mtd eb offs bytes oob mode s).1 ≠ some .eio := by
  unfold mtdWrite
  split_ifs
  · simp
  · simp
  · simp
  · simp
  · dsimp only
    rw [hf.write]
    simp

theorem slots_area (st : BmState) (w : ℕ) : slots mtd (fun _ => false) st w = (area mtd st).usable w := by
  apply List.filter_congr
  intro a _
  have hsound : ProgrammablePages.sound (fun _ => false) mtd.ebSize mtd.minIoSize w a = true :=
    ProgrammablePages.sound_iff.mpr (fun _ _ _ _ _ => rfl)
  rw [hsound, Bool.and_true]
  rfl

theorem stop_area (st : BmState) (w n : ℕ) : stop mtd (fun _ => false) st w n = (area mtd st).stop w n := by
  rw [stop, slots_area]
  rfl

theorem not_hit {v p : ℕ} : ¬Hit mtd (fun _ => false) st₀ w₀ v p := fun h => Bool.noConfusion h.weak

theorem not_retired {v b : ℕ} : ¬Retired mtd (fun _ => false) st₀ w₀ v b := fun ⟨_, h, _⟩ => not_hit h

theorem not_tailHit {n v : ℕ} : ¬TailHit mtd (fun _ => false) st₀ w₀ n v := fun ⟨_, h, _⟩ => not_hit h

def Logged (mtd : MtdDevInfo) (st₀ : BmState) (w₀ total : ℕ) (buf : List UInt8) (c : Cursor) (D : List ℕ)
    (data : List UInt8) : Prop :=
  Progress mtd (fun _ => false) st₀ w₀ total buf c D data ∧
    Programs mtd st₀.toChip c.st.toChip (D.map (mtd.start + ·))

section Loop

variable (hf : PageFaults dev mtd (fun _ => false)) (hn : PlainNand mtd fs) (hm : maxSize ≠ 0)
  (hu : Unreserved mtd w₀ st₀)
include hf hn hm hu

theorem logged_next (h : Logged mtd st₀ w₀ total buf c D data) (hstep : writeStep dev mtd fs maxSize c = .next d) :
    ∃ D' data', Logged mtd st₀ w₀ total buf d D' data' := by
  obtain ⟨hp, hlog⟩ := h
  obtain ⟨h0, hw, e, he, hpage⟩ := writeStep_next dev mtd fs maxSize hstep
  have henter := enterBlock_nand hn.nand hp.settled hw
  rw [he] at henter
  split_ifs at henter with hv
  rw [not_le] at hv
  obtain ⟨d', hd', hpass⟩ := writeStep_pass hf hn hm (by rw [Unreserved, hp.sysinfo]; exact hu) hp.le hp.settled
    (hp.buffered h0) hp.healthy.aligned h0 hv
  obtain rfl : d = d' := by rw [hstep] at hd'; cases hd'; rfl
  rw [if_neg (by simp)] at hpass
  refine ⟨_, _, hp.programmed hn h0 hv rfl hpass (healthy_next dev mtd fs maxSize hp.healthy hstep)
    (settled_next dev mtd fs maxSize hp.settled hstep), ?_⟩
  -- the one request of the pass
  obtain ⟨-, bytes, hmerge, hprogram⟩ := writePage_next dev mtd fs maxSize hpage
  obtain ⟨err, chip, hwrite, ⟨rfl, hd⟩ | ⟨rfl, -⟩⟩ := programPage_next dev mtd fs hprogram
  · have hprograms := mtdWrite_programs hwrite
    have hewo : e.wOffset = skipBad mtd c.st c.wOffset := by rw [Option.some_inj] at henter; rw [henter]
    have hest : e.st = c.st := by rw [Option.some_inj] at henter; rw [henter]
    have hebuf : Buffered mtd e := by
      have hb := hp.buffered h0
      rw [Option.some_inj] at henter
      rw [henter]
      exact ⟨hb.writeoob, hb.whole, hb.tail⟩
    have helen : e.wLength ≠ 0 := by rw [Option.some_inj] at henter; rw [henter]; exact h0
    have hlen : bytes.length = mtd.minIoSize := by
      apply mergePage_length mtd _ hmerge
      rw [(prepared_plain hebuf).1]
      exact padTail_length hn hebuf helen
    rw [prepared_wOffset, prepared_st, hewo, hest, address_block, hlen] at hprograms
    rw [hd, advance_st, Cursor.sent_st, List.map_append, List.map_add_range']
    exact hlog.trans hprograms
  · exact absurd (congrArg Prod.fst hwrite) (mtdWrite_sound hf _ _ _ _ _ _)

theorem writeLoop_written {n : ℕ} (h : Logged mtd st₀ w₀ total buf c D data)
    (hr : ((writeLoop dev mtd fs maxSize).exec c).ret = .off n) :
    Written mtd st₀ w₀ buf n ((writeLoop dev mtd fs maxSize).exec c).st := by
  obtain ⟨t, r, hreach, hdone, hexec⟩ := (writeLoop dev mtd fs maxSize).reaches_exit c
  obtain ⟨D, data, hp, hlog⟩ : ∃ D data, Logged mtd st₀ w₀ total buf t D data := by
    refine (writeLoop dev mtd fs maxSize).reaches_invariant
      (I := fun c => ∃ D data, Logged mtd st₀ w₀ total buf c D data) ?_ hreach ⟨D, data, h⟩
    rintro s d ⟨D, data, hs⟩ hstep
    exact logged_next hf hn hm hu hs hstep
  rw [hexec] at hr ⊢
  obtain ⟨hexit, -, rfl⟩ := writeStep_off dev mtd fs maxSize hdone hr
  have hsplit := hp.split
  rw [slots_area] at hsplit
  have hbad : mtdBmBlockMapIsBad t.st = mtdBmBlockMapIsBad st₀ := by
    funext b
    apply Bool.eq_iff_iff.mpr
    rw [hp.bad, or_iff_left not_retired]
  have hn' : t.wOffset + mtd.start = n := by
    have : Ret.off (t.wOffset + mtd.start) = .off n := hr
    cases this
    rfl
  by_cases h0 : t.wLength = 0
  · obtain ⟨hstop, hstored⟩ := hp.result h0
    obtain ⟨hdata, -⟩ := hp.finished h0
    obtain ⟨-, rfl⟩ := hdata.resolve_right (fun h => not_tailHit h.1)
    have hD : (area mtd st₀).landing w₀ buf.length = D := by
      have hkept : (kept mtd buf).length = padded mtd.minIoSize buf.length := kept_length
      have hlen := hkept.symm.trans hp.length
      rw [Area.landing, hsplit]
      exact List.take_left' hlen.symm
    refine ⟨by rw [hD]; exact hlog, hbad, hp.sysinfo, fun _ => ⟨?_, fun a => ?_⟩⟩
    · rw [← stop_area, ← hstop, Nat.add_comm]
      exact hn'.symm
    · rw [hD]
      exact hp.mem a not_retired
  · have hend : mtd.size ≤ t.wOffset := hexit.resolve_left h0
    rw [slots_end _ hend, List.append_nil] at hsplit
    have hlen := hp.stored h0
    have hle := le_padded mtd.minIoSize buf.length
    have hD : (area mtd st₀).landing w₀ buf.length = D := by
      rw [Area.landing, hsplit]
      exact List.take_of_length_le (by change D.length ≤ padded mtd.minIoSize _; omega)
    refine ⟨by rw [hD]; exact hlog, hbad, hp.sysinfo, fun hfit => ?_⟩
    have hfits : padded mtd.minIoSize buf.length ≤ ((area mtd st₀).usable w₀).length := hfit.2
    have hpos : 0 < buf.length := hfit.1
    have hleft := hp.left
    rw [hsplit] at hfits
    omega

omit hm hu in
theorem basicWrite_written {progressSize off n : ℕ} (hu : Unreserved mtd 0 st₀)
    (h : (mtdBasicWrite dev mtd fs maxSize progressSize off buf st₀).ret = .off n) :
    ∃ w, off = mtd.start + w ∧
      Written mtd st₀ w buf n (mtdBasicWrite dev mtd fs maxSize progressSize off buf st₀).st := by
  obtain ⟨w, hoff, hhealthy, -, -, heq⟩ := basicWrite_off dev mtd fs maxSize h
  rw [heq] at h ⊢
  have hstart : Logged mtd st₀ w (progressSize + buf.length) buf (writeStart fs w progressSize buf st₀) [] [] := by
    exact ⟨progress_start hhealthy.inside hhealthy.aligned hhealthy.mapped hn.writeoob progressSize, programs_refl _⟩
  have hu' : Unreserved mtd w st₀ := by
    intro layouts hl l hmem hres
    exact SysinfoLayout.outside_mono (hu layouts hl l hmem hres) (by omega) le_rfl
  exact ⟨w, by omega, writeLoop_written hf hn (writeLoop_off dev mtd fs maxSize h) hu' hstart h⟩

end Loop

end LinuxRecovery.ProgrammedBytes
