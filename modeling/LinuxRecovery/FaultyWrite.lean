import LinuxRecovery.PageOutcomes

namespace LinuxRecovery.FaultyWrite

open Loops ByteMemory GoodBlocks ProgrammablePages Libmtd BlockMap BasicWrite PageOutcomes

/-- The addresses, counted from the partition's start, that a write from `w` on can fill. -/
def slots (mtd : MtdDevInfo) (weak : ℕ → Bool) (st : BmState) (w : ℕ) : List ℕ :=
  programmable (mtdBmBlockMapIsBad st) weak mtd.ebSize mtd.minIoSize mtd.size w

section Start

variable (mtd : MtdDevInfo) (weak : ℕ → Bool) (st₀ : BmState) (w₀ : ℕ)

structure Hit (v p : ℕ) : Prop where
  page : mtd.minIoSize ∣ p
  weak : weak p = true
  good : mtdBmBlockMapIsBad st₀ (p / mtd.ebSize) = false
  le : w₀ ≤ p
  lt : p < v

def Retired (v b : ℕ) : Prop := ∃ p, Hit mtd weak st₀ w₀ v p ∧ p / mtd.ebSize = b

def TailHit (n v : ℕ) : Prop :=
  ∃ p, Hit mtd weak st₀ w₀ v p ∧ ∀ a ∈ (slots mtd weak st₀ w₀).take (n / mtd.minIoSize * mtd.minIoSize), a < p

def kept (buf : List UInt8) : List UInt8 :=
  buf ++ List.replicate ((mtd.minIoSize - buf.length % mtd.minIoSize) % mtd.minIoSize) 0xFF

def blanked (buf : List UInt8) : List UInt8 :=
  buf.take (buf.length / mtd.minIoSize * mtd.minIoSize) ++ List.replicate mtd.minIoSize 0xFF

def padded (n : ℕ) : ℕ := n + (mtd.minIoSize - n % mtd.minIoSize) % mtd.minIoSize

def stop (n : ℕ) : ℕ :=
  match ((slots mtd weak st₀ w₀).take (padded mtd n)).getLast? with
  | none => w₀
  | some a => a + 1

structure Progress (total : ℕ) (buf : List UInt8) (c : Cursor) (D : List ℕ) (data : List UInt8) :
    Prop where
  healthy : Healthy mtd total c
  settled : Settled mtd c
  writeoob : c.writeoob = false
  sysinfo : c.st.sysinfo = st₀.sysinfo
  le : w₀ ≤ c.wOffset
  left : c.wLength ≤ buf.length
  split : slots mtd weak st₀ w₀ = D ++ slots mtd weak c.st c.wOffset
  before : ∀ a ∈ D, a < c.wOffset
  bad : ∀ b, mtdBmBlockMapIsBad c.st b = true ↔
    mtdBmBlockMapIsBad st₀ b = true ∨ Retired mtd weak st₀ w₀ c.wOffset b
  behind : ∀ a, Retired mtd weak st₀ w₀ c.wOffset (a / mtd.ebSize) → a < c.wOffset
  length : data.length = D.length
  erased : ∀ a, Retired mtd weak st₀ w₀ c.wOffset (a / mtd.ebSize) → c.st.mem (mtd.start + a) = 0xFF
  mem : ∀ a, ¬Retired mtd weak st₀ w₀ c.wOffset (a / mtd.ebSize) →
    c.st.mem (mtd.start + a) = scatter st₀.mem (D.map (mtd.start + ·)) data (mtd.start + a)
  going : c.wLength ≠ 0 → data = buf.take (buf.length - c.wLength) ∧
    mtd.minIoSize ∣ buf.length - c.wLength ∧
    ((c.inPad = false ∧ c.wBuffer = buf.drop (buf.length - c.wLength) ∧
        ¬TailHit mtd weak st₀ w₀ buf.length c.wOffset) ∨
      (c.inPad = true ∧ c.wLength < mtd.minIoSize ∧ TailHit mtd weak st₀ w₀ buf.length c.wOffset))
  finished : c.wLength = 0 →
    ((¬TailHit mtd weak st₀ w₀ buf.length c.wOffset ∧ data = kept mtd buf) ∨
      (TailHit mtd weak st₀ w₀ buf.length c.wOffset ∧ buf.length % mtd.minIoSize ≠ 0 ∧
        data = blanked mtd buf)) ∧
    (c.wOffset = w₀ ∧ D = [] ∨ D.getLast? = some (c.wOffset - 1))

end Start

variable {dev : Device} {mtd : MtdDevInfo} {fs : FsKind} {maxSize : ℕ} {weak : ℕ → Bool}
  {st₀ : BmState} {w₀ total : ℕ} {buf : List UInt8} {c d : Cursor} {D : List ℕ} {data : List UInt8}

theorem slots_end (st : BmState) {w : ℕ} (h : mtd.size ≤ w) : slots mtd weak st w = [] := programmable_end h

theorem slots_skip (st : BmState) (w : ℕ) :
    slots mtd weak st (skipBad mtd st w) = slots mtd weak st w :=
  programmable_skip mtd.ebSize_pos mtd.size_dvd w

theorem slots_congr {st st' : BmState} (h : st.map = st'.map) (w : ℕ) :
    slots mtd weak st w = slots mtd weak st' w := by
  have hb : mtdBmBlockMapIsBad st = mtdBmBlockMapIsBad st' := by
    funext b
    rw [mtdBmBlockMapIsBad, mtdBmBlockMapIsBad, h]
  rw [slots, slots, hb]

theorem skipBad_lt {st : BmState} {w : ℕ} (h : slots mtd weak st w ≠ []) : skipBad mtd st w < mtd.size := by
  by_contra hv
  rw [← slots_skip, slots_end _ (by omega)] at h
  exact h rfl

theorem slots_programmed {st : BmState} {v : ℕ} (hgood : mtdBmBlockMapIsBad st (v / mtd.ebSize) = false)
    (hp : mtd.minIoSize ∣ v) (hv : v < mtd.size) (hw : weak v = false) :
    slots mtd weak st v = List.range' v mtd.minIoSize ++ slots mtd weak st (v + mtd.minIoSize) :=
  programmable_page hgood hp hw (page_in_block hp) (page_inside mtd hv hp)

theorem slots_relocated {st st' : BmState} {v : ℕ} (hp : mtd.minIoSize ∣ v) (hv : v < mtd.size)
    (hw : weak v = true) (hm : st'.map = (mtdBmBlockMapSet (mtdOffsetToEbIndex mtd v) .bad st).map) :
    slots mtd weak st v = slots mtd weak st' (nextBlock mtd.ebSize v) := by
  rw [slots_congr hm]
  refine programmable_weak mtd.ebSize_pos mtd.size_dvd hv hp hw (fun b hb => ?_)
  rw [set_isBad_bad]
  simp [mtdOffsetToEbIndex, hb]

theorem buffered_programmed {v : ℕ} (hn : PlainNand mtd fs) (hb : Buffered mtd c) (h0 : c.wLength ≠ 0)
    (h : Programmed mtd fs v c d) : Buffered mtd d := by
  refine ⟨h.writeoob.trans hb.writeoob, fun hi => ?_, fun _ => ?_⟩
  · by_cases hl : mtd.minIoSize ≤ c.wLength
    · have hpad := padTail_whole mtd fs (c := c) (hn.pagelen ▸ hl)
      rw [h.wBuffer, h.wLength, hpad, List.length_drop, hb.whole (hb.not_inPad hl)]
    · rw [h.inPad, padTail_short hn h0 (by omega)] at hi
      cases hi
  · rename_i hi
    by_cases hl : mtd.minIoSize ≤ c.wLength
    · rw [h.inPad, padTail_whole mtd fs (hn.pagelen ▸ hl), hb.not_inPad hl] at hi
      cases hi
    · have := mtd.minIoSize_pos
      rw [h.wLength]
      omega

theorem buffered_relocated {v : ℕ} (hn : PlainNand mtd fs) (hb : Buffered mtd c) (h0 : c.wLength ≠ 0)
    (h : Relocated mtd fs v c d) : Buffered mtd d := by
  refine ⟨h.writeoob.trans hb.writeoob, fun hi => ?_, fun hi => ?_⟩
  · by_cases hl : mtd.minIoSize ≤ c.wLength
    · rw [h.wBuffer, h.wLength, padTail_whole mtd fs (hn.pagelen ▸ hl), hb.whole (hb.not_inPad hl)]
    · rw [h.inPad, padTail_short hn h0 (by omega)] at hi
      cases hi
  · by_cases hl : mtd.minIoSize ≤ c.wLength
    · rw [h.inPad, padTail_whole mtd fs (hn.pagelen ▸ hl), hb.not_inPad hl] at hi
      cases hi
    · rw [h.wLength]
      omega

theorem consumed_slots (hf : PageFaults dev mtd weak) (hn : PlainNand mtd fs) (hm : maxSize ≠ 0)
    {n : ℕ} (hu : Unreserved mtd w₀ c.st) (hwc : w₀ ≤ c.wOffset) (hs : Settled mtd c)
    (hb : Buffered mtd c) (hh : Healthy mtd total c)
    (hr : ((writeLoop dev mtd fs maxSize).exec c).ret = .off n)
    (ht : ((writeLoop dev mtd fs maxSize).exec c).progressSize = total) :
    c.wLength ≤ (slots mtd weak c.st c.wOffset).length := by
  induction c using (writeLoop dev mtd fs maxSize).induct with
  | h c ih =>
    cases hstep : writeStep dev mtd fs maxSize c with
    | done r =>
      rw [Loop.exec_done _ hstep] at hr ht
      obtain ⟨-, -, rfl⟩ := writeStep_off dev mtd fs maxSize hstep hr
      have h1 := hh.total
      have h2 : c.progressSize = total := ht
      omega
    | next d =>
      rw [Loop.exec_next _ hstep] at hr ht
      obtain ⟨h0, hw, e, he, -⟩ := writeStep_next dev mtd fs maxSize hstep
      have hv : skipBad mtd c.st c.wOffset < mtd.size := by
        rw [enterBlock_nand hn.nand hs hw] at he
        split_ifs at he with hlt
        exact not_le.mp hlt
      obtain ⟨d', hd', hpass⟩ :=
        writeStep_pass hf hn hm hu hwc hs hb hh.aligned h0 hv
      obtain rfl : d = d' := by rw [hstep] at hd'; cases hd'; rfl
      have hle : c.wOffset ≤ skipBad mtd c.st c.wOffset := le_skip _ _ _
      have hgood : mtdBmBlockMapIsBad c.st (skipBad mtd c.st c.wOffset / mtd.ebSize) = false :=
        skip_notBad _ mtd.ebSize_pos hv
      have hvp : mtd.minIoSize ∣ skipBad mtd c.st c.wOffset := skip_dvd _ _ mtd.minIoSize_dvd hh.aligned
      have hs' := settled_next dev mtd fs maxSize hs hstep
      have hh' := healthy_next dev mtd fs maxSize hh hstep
      rw [← slots_skip]
      split_ifs at hpass with hweak
      · have hnext := lt_nextBlock mtd.ebSize_pos (skipBad mtd c.st c.wOffset)
        have hrest := ih d hstep (by rw [Unreserved, hpass.sysinfo]; exact hu)
          (by rw [hpass.wOffset]; omega) hs' (buffered_relocated hn hb h0 hpass) hh' hr ht
        rw [hpass.wLength, hpass.wOffset] at hrest
        rw [slots_relocated hvp hv hweak hpass.map]
        exact hrest
      · have hrest := ih d hstep (by rw [Unreserved, hpass.sysinfo]; exact hu)
          (by rw [hpass.wOffset]; omega) hs' (buffered_programmed hn hb h0 hpass) hh' hr ht
        rw [hpass.wLength, hpass.wOffset, slots_congr hpass.map] at hrest
        rw [slots_programmed hgood hvp hv (by simpa using hweak), List.length_append, List.length_range']
        omega

section Pass

variable (h : Progress mtd weak st₀ w₀ total buf c D data)
include h

theorem Progress.skipped {p : ℕ} (h1 : c.wOffset ≤ p) (h2 : p < skipBad mtd c.st c.wOffset) :
    mtdBmBlockMapIsBad st₀ (p / mtd.ebSize) = true := by
  have hb := skip_skipped (mtdBmBlockMapIsBad c.st) mtd.ebSize_pos h1 h2
  rcases (h.bad _).mp hb with hb | hr
  · exact hb
  · have := h.behind p hr
    omega

theorem Progress.good (hv : skipBad mtd c.st c.wOffset < mtd.size) :
    mtdBmBlockMapIsBad c.st (skipBad mtd c.st c.wOffset / mtd.ebSize) = false ∧
      mtdBmBlockMapIsBad st₀ (skipBad mtd c.st c.wOffset / mtd.ebSize) = false := by
  have hgood := skip_notBad (mtdBmBlockMapIsBad c.st) mtd.ebSize_pos hv
  refine ⟨hgood, ?_⟩
  by_contra hb
  rw [(h.bad _).mpr (.inl (Bool.not_eq_false _ ▸ hb))] at hgood
  cases hgood

theorem Progress.hit_programmed (hp : mtd.minIoSize ∣ skipBad mtd c.st c.wOffset)
    (hw : weak (skipBad mtd c.st c.wOffset) = false) (p : ℕ) :
    Hit mtd weak st₀ w₀ (skipBad mtd c.st c.wOffset + mtd.minIoSize) p ↔ Hit mtd weak st₀ w₀ c.wOffset p := by
  have hle : c.wOffset ≤ skipBad mtd c.st c.wOffset := le_skip _ _ _
  constructor
  · intro hh
    refine ⟨hh.page, hh.weak, hh.good, hh.le, ?_⟩
    by_contra hlt
    have hweak := hh.weak
    by_cases hs : p < skipBad mtd c.st c.wOffset
    · have hgood := hh.good
      rw [h.skipped (by omega) hs] at hgood
      cases hgood
    · rw [eq_of_page hp hh.page (by omega) hh.lt, hw] at hweak
      cases hweak
  · intro hh
    exact ⟨hh.page, hh.weak, hh.good, hh.le, by have := hh.lt; omega⟩

theorem Progress.hit_relocated (hp : mtd.minIoSize ∣ skipBad mtd c.st c.wOffset)
    (hv : skipBad mtd c.st c.wOffset < mtd.size) (hw : weak (skipBad mtd c.st c.wOffset) = true) :
    Hit mtd weak st₀ w₀ (nextBlock mtd.ebSize (skipBad mtd c.st c.wOffset)) (skipBad mtd c.st c.wOffset) := by
  have hle : c.wOffset ≤ skipBad mtd c.st c.wOffset := le_skip _ _ _
  exact ⟨hp, hw, (h.good hv).2, h.le.trans hle, lt_nextBlock mtd.ebSize_pos _⟩

theorem Progress.retired_relocated (hp : mtd.minIoSize ∣ skipBad mtd c.st c.wOffset)
    (hv : skipBad mtd c.st c.wOffset < mtd.size) (hw : weak (skipBad mtd c.st c.wOffset) = true) (b : ℕ) :
    Retired mtd weak st₀ w₀ (nextBlock mtd.ebSize (skipBad mtd c.st c.wOffset)) b ↔
      Retired mtd weak st₀ w₀ c.wOffset b ∨ b = skipBad mtd c.st c.wOffset / mtd.ebSize := by
  have hle : c.wOffset ≤ skipBad mtd c.st c.wOffset := le_skip _ _ _
  have hnext := lt_nextBlock mtd.ebSize_pos (skipBad mtd c.st c.wOffset)
  constructor
  · rintro ⟨p, hh, rfl⟩
    by_cases h1 : p < c.wOffset
    · exact .inl ⟨p, ⟨hh.page, hh.weak, hh.good, hh.le, h1⟩, rfl⟩
    · by_cases h2 : p < skipBad mtd c.st c.wOffset
      · have hgood := hh.good
        rw [h.skipped (by omega) h2] at hgood
        cases hgood
      · exact .inr (div_eq_of_lt_nextBlock mtd.ebSize_pos (by omega) hh.lt)
  · rintro (⟨p, hh, rfl⟩ | rfl)
    · exact ⟨p, ⟨hh.page, hh.weak, hh.good, hh.le, by have := hh.lt; omega⟩, rfl⟩
    · exact ⟨_, h.hit_relocated hp hv hw, rfl⟩

end Pass

theorem mem_slots {st : BmState} {w a : ℕ} (h : a ∈ slots mtd weak st w) : w ≤ a ∧ a < mtd.size :=
  ⟨(mem_programmable.mp h).1, (mem_programmable.mp h).2.1⟩

theorem whole_pages {P k r : ℕ} (hk : P ∣ k) (hr : r < P) : (k + r) / P * P = k ∧ (k + r) % P = r := by
  obtain ⟨j, rfl⟩ := hk
  rw [Nat.mul_add_div (by omega), Nat.div_eq_of_lt hr, Nat.add_zero, Nat.mul_add_mod, Nat.mod_eq_of_lt hr]
  exact ⟨Nat.mul_comm _ _, rfl⟩

theorem scatter_page {m : Memory} {s v : ℕ} {D : List ℕ} {data bs : List UInt8} (hl : data.length = D.length) :
    scatter m ((D ++ List.range' v bs.length).map (s + ·)) (data ++ bs) =
      writeBytes (scatter m (D.map (s + ·)) data) (s + v) bs := by
  rw [List.map_append, scatter_append _ _ _ _ _ (by simp [hl]), writeBytes_eq_scatter,
    List.map_add_range']

theorem getLast_page {D : List ℕ} {v P : ℕ} (hP : 0 < P) :
    (D ++ List.range' v P).getLast? = some (v + P - 1) := by
  rw [List.getLast?_append, List.getLast?_range']
  simp
  omega

section Pass

variable (h : Progress mtd weak st₀ w₀ total buf c D data)
include h

theorem Progress.stored (h0 : c.wLength ≠ 0) : D.length = buf.length - c.wLength := by
  have hl := h.length
  rw [(h.going h0).1, List.length_take] at hl
  omega

theorem Progress.buffered : c.wLength ≠ 0 → Buffered mtd c := by
  intro h0
  obtain ⟨-, -, ⟨hi, hb, -⟩ | ⟨hi, hl, -⟩⟩ := h.going h0
  · refine ⟨h.writeoob, fun _ => ?_, fun hi' => absurd hi (by simp [hi'])⟩
    have := h.left
    rw [hb, List.length_drop]
    omega
  · exact ⟨h.writeoob, fun hi' => absurd hi (by simp [hi']), fun _ => hl⟩

theorem Progress.slots_left (hfit : buf.length ≤ (slots mtd weak st₀ w₀).length) (h0 : c.wLength ≠ 0) :
    slots mtd weak c.st c.wOffset ≠ [] := by
  intro hnil
  have hd := h.stored h0
  have hl := h.left
  rw [h.split, hnil, List.append_nil] at hfit
  omega

theorem Progress.page_stored (hn : PlainNand mtd fs) (h0 : c.wLength ≠ 0) :
    (mtd.minIoSize ≤ c.wLength ∧
        data ++ page mtd fs c = buf.take (buf.length - (c.wLength - mtd.minIoSize))) ∨
      (c.wLength < mtd.minIoSize ∧
        ((¬TailHit mtd weak st₀ w₀ buf.length c.wOffset ∧ data ++ page mtd fs c = kept mtd buf) ∨
          (TailHit mtd weak st₀ w₀ buf.length c.wOffset ∧ buf.length % mtd.minIoSize ≠ 0 ∧
            data ++ page mtd fs c = blanked mtd buf))) := by
  obtain ⟨hdata, hdvd, hcase⟩ := h.going h0
  have hleft := h.left
  by_cases hl : mtd.minIoSize ≤ c.wLength
  · left
    refine ⟨hl, ?_⟩
    obtain ⟨-, hb, -⟩ | ⟨-, hlt, -⟩ := hcase
    · rw [hdata, page_whole hn hl, hb, ← List.take_add]
      congr 1
      omega
    · omega
  · right
    obtain ⟨hw, hr⟩ := whole_pages hdvd (not_le.mp hl)
    rw [Nat.sub_add_cancel hleft] at hw hr
    refine ⟨not_le.mp hl, ?_⟩
    obtain ⟨hi, hb, ht⟩ | ⟨hi, -, ht⟩ := hcase
    · left
      refine ⟨ht, ?_⟩
      have hbl : c.wBuffer.length = c.wLength := by rw [hb, List.length_drop]; omega
      have htake : c.wBuffer.take c.wLength = c.wBuffer := by rw [← hbl, List.take_length]
      have hfull : (c.wBuffer ++ List.replicate (mtd.minIoSize - c.wLength) 0xFF).take mtd.minIoSize =
          c.wBuffer ++ List.replicate (mtd.minIoSize - c.wLength) 0xFF :=
        List.take_of_length_le (by rw [List.length_append, List.length_replicate, hbl]; omega)
      have hfill : (mtd.minIoSize - c.wLength) % mtd.minIoSize = mtd.minIoSize - c.wLength :=
        Nat.mod_eq_of_lt (by omega)
      rw [page, padTail_short hn h0 (not_le.mp hl), hi, kept, hr, hfill, hdata]
      dsimp only
      rw [if_neg (by simp), htake, hfull, hb,
        ← List.append_assoc, List.take_append_drop]
    · right
      refine ⟨ht, by rw [hr]; exact h0, ?_⟩
      rw [page, padTail_short hn h0 (not_le.mp hl), hi, blanked, hw, hdata]
      dsimp only
      rw [if_pos rfl, List.replicate_append_replicate, show c.wLength + (mtd.minIoSize - c.wLength) =
        mtd.minIoSize by omega, List.take_replicate, min_self]

theorem Progress.programmed (hn : PlainNand mtd fs) (h0 : c.wLength ≠ 0)
    (hv : skipBad mtd c.st c.wOffset < mtd.size) (hw : weak (skipBad mtd c.st c.wOffset) = false)
    (hd : Programmed mtd fs (skipBad mtd c.st c.wOffset) c d) (hh : Healthy mtd total d)
    (hs : Settled mtd d) :
    Progress mtd weak st₀ w₀ total buf d
      (D ++ List.range' (skipBad mtd c.st c.wOffset) mtd.minIoSize) (data ++ page mtd fs c) := by
  have hp : mtd.minIoSize ∣ skipBad mtd c.st c.wOffset := skip_dvd _ _ mtd.minIoSize_dvd h.healthy.aligned
  have hle : c.wOffset ≤ skipBad mtd c.st c.wOffset := le_skip _ _ _
  have hhit := h.hit_programmed hp hw
  have hgood := h.good hv
  have hpos := mtd.minIoSize_pos
  have hplen := page_length hn (h.buffered h0) h0
  have hstored := h.page_stored hn h0
  have hret (b : ℕ) : Retired mtd weak st₀ w₀ d.wOffset b ↔ Retired mtd weak st₀ w₀ c.wOffset b := by
    simp only [Retired, hd.wOffset, hhit]
  have htail : TailHit mtd weak st₀ w₀ buf.length d.wOffset ↔ TailHit mtd weak st₀ w₀ buf.length c.wOffset := by
    simp only [TailHit, hd.wOffset, hhit]
  have hmem : d.st.mem = writeBytes c.st.mem (mtd.start + skipBad mtd c.st c.wOffset) (page mtd fs c) := hd.mem
  have hleft := h.left
  refine ⟨hh, hs, hd.writeoob.trans h.writeoob, hd.sysinfo.trans h.sysinfo, ?_, ?_, ?_, ?_, ?_, ?_, ?_, ?_, ?_,
    ?_, ?_⟩
  · rw [hd.wOffset]
    have := h.le
    omega
  · rw [hd.wLength]
    omega
  · rw [h.split, hd.wOffset, slots_congr hd.map, ← slots_skip, slots_programmed hgood.1 hp hv hw,
      List.append_assoc]
  · intro a ha
    rw [hd.wOffset]
    rcases List.mem_append.mp ha with ha | ha
    · have := h.before a ha
      omega
    · have := (List.mem_range'_1.mp ha).2
      omega
  · intro b
    rw [hret, ← h.bad b, mtdBmBlockMapIsBad, mtdBmBlockMapIsBad, hd.map]
  · intro a ha
    have := h.behind a ((hret _).mp ha)
    rw [hd.wOffset]
    omega
  · rw [List.length_append, List.length_append, h.length, hplen, List.length_range']
  · intro a ha
    have hlt := h.behind a ((hret _).mp ha)
    rw [hmem, writeBytes_outside _ _ _ _ (by omega)]
    exact h.erased a ((hret _).mp ha)
  · intro a ha
    rw [← hplen, scatter_page h.length, hmem]
    exact writeBytes_congr (h.mem a (fun hr => ha ((hret _).mpr hr))) _ _
  · intro hd0
    rw [hd.wLength] at hd0 ⊢
    rcases hstored with ⟨hl, hst⟩ | ⟨hl, -⟩
    · obtain ⟨-, hdvd, hcase⟩ := h.going h0
      obtain ⟨hi, hb, ht⟩ | ⟨-, hlt, -⟩ := hcase
      · have hk : buf.length - (c.wLength - mtd.minIoSize) = buf.length - c.wLength + mtd.minIoSize := by omega
        refine ⟨hst, by rw [hk]; exact Nat.dvd_add hdvd dvd_rfl, .inl ⟨?_, ?_, ?_⟩⟩
        · rw [hd.inPad, padTail_whole mtd fs (hn.pagelen ▸ hl), hi]
        · rw [hd.wBuffer, padTail_whole mtd fs (hn.pagelen ▸ hl), hb, List.drop_drop, hk]
        · rwa [htail]
      · omega
    · omega
  · intro hd0
    rw [hd.wLength] at hd0
    refine ⟨?_, .inr ?_⟩
    · rw [htail]
      rcases hstored with ⟨hl, hst⟩ | ⟨-, hst⟩
      · obtain ⟨-, hdvd, hcase⟩ := h.going h0
        obtain ⟨-, -, ht⟩ | ⟨-, hlt, -⟩ := hcase
        · refine .inl ⟨ht, ?_⟩
          have hall : mtd.minIoSize ∣ buf.length := by
            rw [← Nat.sub_add_cancel hleft]
            exact Nat.dvd_add hdvd (by rw [show c.wLength = mtd.minIoSize by omega])
          rw [hst, hd0, Nat.sub_zero, List.take_length, kept, Nat.mod_eq_zero_of_dvd hall, Nat.sub_zero,
            Nat.mod_self, List.replicate_zero, List.append_nil]
        · omega
      · exact hst
    · rw [getLast_page hpos, hd.wOffset]

theorem Progress.relocated (hn : PlainNand mtd fs) (hfit : buf.length ≤ (slots mtd weak st₀ w₀).length)
    (h0 : c.wLength ≠ 0) (hv : skipBad mtd c.st c.wOffset < mtd.size)
    (hw : weak (skipBad mtd c.st c.wOffset) = true)
    (hd : Relocated mtd fs (skipBad mtd c.st c.wOffset) c d) (hh : Healthy mtd total d)
    (hs : Settled mtd d) : Progress mtd weak st₀ w₀ total buf d D data := by
  have hp : mtd.minIoSize ∣ skipBad mtd c.st c.wOffset := skip_dvd _ _ mtd.minIoSize_dvd h.healthy.aligned
  have hle : c.wOffset ≤ skipBad mtd c.st c.wOffset := le_skip _ _ _
  have hret := h.retired_relocated hp hv hw
  have hnext := lt_nextBlock mtd.ebSize_pos (skipBad mtd c.st c.wOffset)
  have hdw := hd.wOffset
  have halign : mtdBlockAlign mtd (skipBad mtd c.st c.wOffset) + skipBad mtd c.st c.wOffset % mtd.ebSize =
      skipBad mtd c.st c.wOffset := Nat.div_add_mod' _ _
  have hnb := nextBlock_eq mtd.ebSize_pos (skipBad mtd c.st c.wOffset)
  have hpage := page_in_block hp
  have hmapped := h.healthy.mapped
  obtain ⟨junk, hmem⟩ := hd.mem
  have hsplit : slots mtd weak st₀ w₀ = D ++ slots mtd weak d.st d.wOffset := by
    rw [h.split, hdw, ← slots_relocated hp hv hw hd.map, slots_skip]
  -- Outside the lost block the chip is as it was.
  have hother (a : ℕ) (ha : a / mtd.ebSize ≠ skipBad mtd c.st c.wOffset / mtd.ebSize) :
      d.st.mem (mtd.start + a) = c.st.mem (mtd.start + a) := by
    have hout : a < mtdBlockAlign mtd (skipBad mtd c.st c.wOffset) ∨
        mtdBlockAlign mtd (skipBad mtd c.st c.wOffset) + mtd.ebSize ≤ a := by
      by_contra hin
      apply ha
      rw [not_or, not_lt, not_le] at hin
      exact Nat.div_eq_of_lt_le hin.1 (by rw [Nat.succ_mul]; exact hin.2)
    rw [hmem, fillBytes_outside _ _ _ _ _ (by omega), fillBytes_outside _ _ _ _ _ (by omega)]
  refine ⟨hh, hs, hd.writeoob.trans h.writeoob, hd.sysinfo.trans h.sysinfo, ?_, ?_, hsplit, ?_, ?_, ?_,
    h.length, ?_, ?_, ?_, fun hd0 => absurd (hd.wLength ▸ hd0) h0⟩
  · have := h.le
    omega
  · rw [hd.wLength]
    exact h.left
  · intro a ha
    have := h.before a ha
    omega
  · intro b
    have hbad : mtdBmBlockMapIsBad d.st b = true ↔
        b = skipBad mtd c.st c.wOffset / mtd.ebSize ∨ mtdBmBlockMapIsBad c.st b = true := by
      have := set_isBad_bad c.st (mtdOffsetToEbIndex mtd (skipBad mtd c.st c.wOffset)) b
      rw [mtdBmBlockMapIsBad, hd.map]
      rw [mtdBmBlockMapIsBad] at this
      rw [this, Bool.or_eq_true, Bool.and_eq_true, decide_eq_true_eq, hmapped]
      exact or_congr_left (and_iff_left rfl)
    rw [hbad, h.bad b, hdw, hret]
    tauto
  · intro a ha
    rw [hdw] at ha ⊢
    rcases (hret _).mp ha with ha | ha
    · have := h.behind a ha
      omega
    · by_contra hge
      have := Nat.div_le_div_right (c := mtd.ebSize) (not_lt.mp hge)
      rw [div_nextBlock mtd.ebSize_pos] at this
      omega
  · intro a ha
    rw [hdw] at ha
    by_cases hb : a / mtd.ebSize = skipBad mtd c.st c.wOffset / mtd.ebSize
    · have h1 := Nat.div_add_mod' a mtd.ebSize
      have h2 := Nat.mod_lt a mtd.ebSize_pos
      rw [hb] at h1
      rw [hmem, fillBytes_inside]
      simp only [mtdBlockAlign]
      omega
    · rw [hother a hb]
      exact h.erased a (((hret _).mp ha).resolve_right hb)
  · intro a ha
    rw [hdw, hret, not_or] at ha
    rw [hother a ha.2]
    exact h.mem a ha.1
  · intro hd0
    obtain ⟨hdata, hdvd, hcase⟩ := h.going h0
    have hlen := h.stored h0
    have hleft := h.left
    rw [hd.wLength]
    refine ⟨hdata, hdvd, ?_⟩
    by_cases hl : mtd.minIoSize ≤ c.wLength
    · obtain ⟨hi, hb, -⟩ | ⟨-, hlt, -⟩ := hcase
      · refine .inl ⟨?_, ?_, ?_⟩
        · rw [hd.inPad, padTail_whole mtd fs (hn.pagelen ▸ hl), hi]
        · rw [hd.wBuffer, padTail_whole mtd fs (hn.pagelen ▸ hl), hb]
        · -- a whole page is still to come, and it comes behind every page met so far
          rintro ⟨p, hp', hlast⟩
          obtain ⟨a, rest, hrest⟩ : ∃ a rest, slots mtd weak d.st d.wOffset = a :: rest := by
            cases hrest : slots mtd weak d.st d.wOffset with
            | nil =>
              rw [hsplit, hrest, List.append_nil] at hfit
              omega
            | cons a rest => exact ⟨a, rest, rfl⟩
          have hwhole : D.length < buf.length / mtd.minIoSize * mtd.minIoSize := by
            obtain ⟨j, hj⟩ := hdvd
            have hpos := mtd.minIoSize_pos
            have hq : j + 1 ≤ buf.length / mtd.minIoSize := by
              rw [Nat.le_div_iff_mul_le hpos, Nat.add_mul, Nat.mul_comm, ← hj]
              omega
            have := Nat.mul_le_mul_right mtd.minIoSize hq
            rw [Nat.add_mul, Nat.mul_comm j, ← hj] at this
            omega
          have ha : a ∈ (slots mtd weak st₀ w₀).take (buf.length / mtd.minIoSize * mtd.minIoSize) := by
            rw [hsplit, hrest, List.mem_take_iff_getElem]
            refine ⟨D.length, by simp; omega, by simp⟩
          have hnext' : a ∈ slots mtd weak d.st d.wOffset := by rw [hrest]; exact List.mem_cons_self
          have hge := (mem_slots hnext').1
          have h1 := hlast a ha
          have h2 := hp'.lt
          omega
      · omega
    · refine .inr ⟨?_, by omega, ?_⟩
      · rw [hd.inPad, padTail_short hn h0 (by omega)]
      · refine ⟨_, hdw ▸ h.hit_relocated hp hv hw, fun a ha => ?_⟩
        obtain ⟨hwhole, -⟩ := whole_pages hdvd (not_le.mp hl)
        rw [Nat.sub_add_cancel hleft] at hwhole
        rw [hwhole, ← hlen, hsplit, List.take_left] at ha
        have := h.before a ha
        omega

end Pass

theorem progress_start (hu : w₀ ≤ mtd.size) (hp : mtd.minIoSize ∣ w₀) (hm : st₀.map.isSome = true)
    (hfs : fs.flag.writeoob = false) (progressSize : ℕ) :
    Progress mtd weak st₀ w₀ (progressSize + buf.length) buf (writeStart fs w₀ progressSize buf st₀) [] [] := by
  have hnone (p : ℕ) : ¬Hit mtd weak st₀ w₀ w₀ p := fun h => by
    have h1 := h.le
    have h2 := h.lt
    omega
  have hret (b : ℕ) : ¬Retired mtd weak st₀ w₀ w₀ b := fun ⟨p, hp, _⟩ => hnone p hp
  have htail : ¬TailHit mtd weak st₀ w₀ buf.length w₀ := fun ⟨p, hp, _⟩ => hnone p hp
  refine ⟨⟨hp, hu, hm, rfl⟩, writeStart_settled mtd fs _ _ _ _, hfs, rfl, le_rfl, le_rfl, rfl, by simp, ?_, ?_, rfl,
    ?_, ?_, ?_, ?_⟩
  · intro b
    simp [hret]
  · intro a ha
    exact absurd ha (hret _)
  · intro a ha
    exact absurd ha (hret _)
  · intro a _
    rfl
  · intro _
    simp [htail]
  · intro h0
    have hb : buf = [] := List.length_eq_zero_iff.mp h0
    subst hb
    refine ⟨.inl ⟨htail, ?_⟩, .inl ⟨rfl, rfl⟩⟩
    simp [kept]

theorem kept_length : (kept mtd buf).length = padded mtd buf.length := by
  simp [kept, padded]

theorem blanked_length (h : buf.length % mtd.minIoSize ≠ 0) :
    (blanked mtd buf).length = padded mtd buf.length := by
  have h1 := Nat.div_add_mod' buf.length mtd.minIoSize
  have h2 := Nat.mod_lt buf.length mtd.minIoSize_pos
  have h3 : (mtd.minIoSize - buf.length % mtd.minIoSize) % mtd.minIoSize =
      mtd.minIoSize - buf.length % mtd.minIoSize := Nat.mod_eq_of_lt (by omega)
  simp only [blanked, padded, List.length_append, List.length_take, List.length_replicate, h3]
  omega

theorem le_padded (n : ℕ) : n ≤ padded mtd n := Nat.le_add_right _ _

theorem writeLoop_progress (hf : PageFaults dev mtd weak) (hn : PlainNand mtd fs) (hm : maxSize ≠ 0)
    (hu : Unreserved mtd w₀ st₀) (hfit : buf.length ≤ (slots mtd weak st₀ w₀).length)
    (hc : Progress mtd weak st₀ w₀ total buf c D data) :
    ∃ e D' data', (writeLoop dev mtd fs maxSize).exec c = e.outcome (.off (e.wOffset + mtd.start)) ∧
      e.wLength = 0 ∧ Progress mtd weak st₀ w₀ total buf e D' data' := by
  have hpass {c : Cursor} {D : List ℕ} {data : List UInt8} (hc : Progress mtd weak st₀ w₀ total buf c D data)
      (h0 : c.wLength ≠ 0) :
      ∃ d D' data', writeStep dev mtd fs maxSize c = .next d ∧ Progress mtd weak st₀ w₀ total buf d D' data' := by
    have hv := skipBad_lt (hc.slots_left hfit h0)
    obtain ⟨d, hd, hpass⟩ := writeStep_pass hf hn hm (by rw [Unreserved, hc.sysinfo]; exact hu) hc.le
      hc.settled (hc.buffered h0) hc.healthy.aligned h0 hv
    have hh := healthy_next dev mtd fs maxSize hc.healthy hd
    have hs := settled_next dev mtd fs maxSize hc.settled hd
    split_ifs at hpass with hw
    · exact ⟨d, _, _, hd, hc.relocated hn hfit h0 hv hw hpass hh hs⟩
    · exact ⟨d, _, _, hd, hc.programmed hn h0 hv (by simpa using hw) hpass hh hs⟩
  obtain ⟨t, r, hreach, hdone, hexec⟩ := (writeLoop dev mtd fs maxSize).reaches_exit c
  have hinv : ∃ D' data', Progress mtd weak st₀ w₀ total buf t D' data' := by
    refine (writeLoop dev mtd fs maxSize).reaches_invariant
      (I := fun c => ∃ D' data', Progress mtd weak st₀ w₀ total buf c D' data') ?_ hreach ⟨D, data, hc⟩
    rintro s d ⟨D, data, hs⟩ hstep
    obtain ⟨d', D', data', hd', hp⟩ := hpass hs (writeStep_next dev mtd fs maxSize hstep).1
    obtain rfl : d = d' := by
      rw [show writeStep dev mtd fs maxSize s = .next d from hstep] at hd'
      cases hd'
      rfl
    exact ⟨D', data', hp⟩
  obtain ⟨D', data', ht⟩ := hinv
  have h0 : t.wLength = 0 := by
    by_contra h0
    obtain ⟨d, _, _, hd, -⟩ := hpass ht h0
    rw [show writeStep dev mtd fs maxSize t = .done r from hdone] at hd
    cases hd
  refine ⟨t, D', data', ?_, h0, ht⟩
  rw [(writeLoop dev mtd fs maxSize).exec_reaches hreach,
    Loop.exec_done _ (writeStep_finish dev mtd fs maxSize hm (.inl h0))]

structure Stored (mtd : MtdDevInfo) (weak : ℕ → Bool) (st₀ : BmState) (w₀ : ℕ) (buf : List UInt8)
    (st : BmState) : Prop where
  mapped : st.map.isSome = true
  bad : ∀ b, mtdBmBlockMapIsBad st b = true ↔
    mtdBmBlockMapIsBad st₀ b = true ∨ Retired mtd weak st₀ w₀ (stop mtd weak st₀ w₀ buf.length) b
  mem : ∃ data, data.length = padded mtd buf.length ∧
    ((¬TailHit mtd weak st₀ w₀ buf.length (stop mtd weak st₀ w₀ buf.length) ∧ data = kept mtd buf) ∨
      (TailHit mtd weak st₀ w₀ buf.length (stop mtd weak st₀ w₀ buf.length) ∧
        buf.length % mtd.minIoSize ≠ 0 ∧ data = blanked mtd buf)) ∧
    ∀ a, ¬Retired mtd weak st₀ w₀ (stop mtd weak st₀ w₀ buf.length) (a / mtd.ebSize) →
      st.mem (mtd.start + a) =
        scatter st₀.mem (((slots mtd weak st₀ w₀).take (padded mtd buf.length)).map (mtd.start + ·)) data
          (mtd.start + a)
  sysinfo : st.sysinfo = st₀.sysinfo
  fits : padded mtd buf.length ≤ (slots mtd weak st₀ w₀).length
  before : ∀ a ∈ (slots mtd weak st₀ w₀).take (padded mtd buf.length), a < stop mtd weak st₀ w₀ buf.length

theorem Progress.result (h : Progress mtd weak st₀ w₀ total buf c D data) (h0 : c.wLength = 0) :
    c.wOffset = stop mtd weak st₀ w₀ buf.length ∧ Stored mtd weak st₀ w₀ buf c.st := by
  obtain ⟨hdata, hlast⟩ := h.finished h0
  have hlen : data.length = padded mtd buf.length := by
    rcases hdata with ⟨-, rfl⟩ | ⟨-, hr, rfl⟩
    · exact kept_length
    · exact blanked_length hr
  have hD : (slots mtd weak st₀ w₀).take (padded mtd buf.length) = D := by
    rw [h.split, ← hlen, h.length, List.take_left]
  have hstop : c.wOffset = stop mtd weak st₀ w₀ buf.length := by
    unfold stop
    rw [hD]
    rcases hlast with ⟨hw, rfl⟩ | hl
    · exact hw
    · have := h.before _ (List.mem_of_getLast? hl)
      rw [hl]
      dsimp only
      omega
  refine ⟨hstop, h.healthy.mapped, ?_, ⟨data, hlen, ?_, ?_⟩, h.sysinfo, ?_, ?_⟩
  · rw [← hstop]
    exact h.bad
  · rw [← hstop]
    exact hdata
  · rw [← hstop, hD]
    exact h.mem
  · rw [← hlen, h.length, h.split, List.length_append]
    exact Nat.le_add_right _ _
  · rw [← hstop, hD]
    exact h.before

section Call

variable (hf : PageFaults dev mtd weak) (hn : PlainNand mtd fs) (hm : maxSize ≠ 0)
  (hpad : fs.flag.pad = true) (hp : mtd.minIoSize ∣ w₀) (hw : w₀ ≤ mtd.size)
  (hmap : st₀.map.isSome = true) (hu : Unreserved mtd w₀ st₀)
include hf hn hm hpad hp hw hmap hu

theorem basicWrite_stored (hfit : buf.length ≤ (slots mtd weak st₀ w₀).length) (progressSize : ℕ) :
    ∃ st, mtdBasicWrite dev mtd fs maxSize progressSize ((w₀ + mtd.start : ℕ) : ℤ) buf st₀ =
        ⟨.off (stop mtd weak st₀ w₀ buf.length + mtd.start), progressSize + buf.length, st⟩ ∧
      Stored mtd weak st₀ w₀ buf st := by
  obtain ⟨e, D, data, hexec, h0, he⟩ := writeLoop_progress hf hn hm hu hfit
    (progress_start hw hp hmap hn.writeoob progressSize)
  obtain ⟨hstop, hst⟩ := he.result h0
  refine ⟨e.st, ?_, hst⟩
  have hsub : ((w₀ + mtd.start : ℕ) : ℤ) - mtd.start = w₀ := by omega
  have hle : buf.length / mtd.minIoSize * mtd.minIoSize ≤ mtd.size - w₀ :=
    (Nat.div_mul_le_self _ _).trans (hfit.trans (programmable_length_le _))
  have htotal := he.healthy.total
  unfold mtdBasicWrite
  dsimp only
  rw [hsub, if_neg (by omega), Int.toNat_natCast, if_neg (by simpa using Nat.mod_eq_zero_of_dvd hp),
    if_neg (by simp [hf.fileMode]), if_neg (by simp [hpad]), if_neg, if_neg]
  · rw [hexec, Cursor.outcome, hstop, show e.progressSize = progressSize + buf.length by omega]
  · simp [mtdBmBlockMapIsValid, hmap]
  · rw [hn.pagelen]
    have hk : buf.length / mtd.minIoSize * mtd.minIoSize + w₀ ≤ mtd.size := by omega
    exact not_lt.mpr (le_sub_iff_add_le.mpr (by exact_mod_cast hk))

omit hpad in
theorem basicWrite_fits {progressSize n : ℕ}
    (hr : (mtdBasicWrite dev mtd fs maxSize progressSize ((w₀ + mtd.start : ℕ) : ℤ) buf st₀).ret = .off n)
    (ht : (mtdBasicWrite dev mtd fs maxSize progressSize ((w₀ + mtd.start : ℕ) : ℤ) buf st₀).progressSize =
      progressSize + buf.length) :
    buf.length ≤ (slots mtd weak st₀ w₀).length := by
  have heq : mtdBasicWrite dev mtd fs maxSize progressSize ((w₀ + mtd.start : ℕ) : ℤ) buf st₀ =
      (writeLoop dev mtd fs maxSize).exec (writeStart fs w₀ progressSize buf st₀) := by
    have hsub : ((w₀ + mtd.start : ℕ) : ℤ) - mtd.start = w₀ := by omega
    unfold mtdBasicWrite at hr ⊢
    dsimp only at hr ⊢
    rw [hsub, Int.toNat_natCast] at hr ⊢
    split_ifs at hr ⊢
    rfl
  rw [heq] at hr ht
  have hstart : Progress mtd weak st₀ w₀ (progressSize + buf.length) buf
      (writeStart fs w₀ progressSize buf st₀) [] [] :=
    progress_start hw hp hmap hn.writeoob progressSize
  by_cases h0 : buf.length = 0
  · omega
  · exact consumed_slots hf hn hm hu le_rfl hstart.settled (hstart.buffered h0) hstart.healthy hr ht

end Call

end LinuxRecovery.FaultyWrite
