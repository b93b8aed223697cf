import LinuxRecovery.BasicRead
import LinuxRecovery.FaultyWrite

namespace LinuxRecovery.Relocation

open Loops ByteMemory GoodBlocks ProgrammablePages Libmtd BlockMap BasicWrite BasicRead PageOutcomes
open FaultyWrite

/-- No program fails in a block that already holds bytes of the buffer, nor on the filled-up last page. -/
def NothingLost (mtd : MtdDevInfo) (weak : ℕ → Bool) (st : BmState) (w n : ℕ) : Prop :=
  (∀ a ∈ (slots mtd weak st w).take n, ¬Retired mtd weak st w (stop mtd weak st w n) (a / mtd.ebSize)) ∧
    ¬TailHit mtd weak st w n (stop mtd weak st w n)

variable {dev : Device} {mtd : MtdDevInfo} {fs : FsKind} {maxSize : ℕ} {weak : ℕ → Bool}
  {st₀ st st' : BmState} {w₀ : ℕ} {buf : List UInt8}

theorem slots_nodup : (slots mtd weak st₀ w₀).Nodup := programmable_nodup w₀

theorem slots_map_nodup (n : ℕ) : (((slots mtd weak st₀ w₀).take n).map (mtd.start + ·)).Nodup :=
  (slots_nodup.sublist (List.take_sublist n _)).map (fun _ _ h => Nat.add_left_cancel h)

theorem kept_set (i j : ℕ) (x : UInt8) (h : j ≠ i) :
    (kept mtd (buf.set i x))[j]? = (kept mtd buf)[j]? := by
  rw [kept, kept, List.getElem?_append, List.getElem?_append, List.length_set,
    List.getElem?_set_ne h.symm]

theorem blanked_set (i j : ℕ) (x : UInt8) (h : j ≠ i ∨ buf.length / mtd.minIoSize * mtd.minIoSize ≤ i) :
    (blanked mtd (buf.set i x))[j]? = (blanked mtd buf)[j]? := by
  rw [blanked, blanked, List.length_set, List.take_set, List.getElem?_append, List.getElem?_append,
    List.length_set]
  rcases h with h | h
  · rw [List.getElem?_set_ne h.symm]
  · rw [List.set_eq_of_length_le]
    rw [List.length_take]
    omega

theorem stored_lost {i : ℕ} {x : UInt8} (hs : Stored mtd weak st₀ w₀ buf st)
    (hs' : Stored mtd weak st₀ w₀ (buf.set i x) st') {a : ℕ}
    (hlost : (∃ v, (slots mtd weak st₀ w₀)[i]? = some v ∧
        Retired mtd weak st₀ w₀ (stop mtd weak st₀ w₀ buf.length) (v / mtd.ebSize)) ∨
      (TailHit mtd weak st₀ w₀ buf.length (stop mtd weak st₀ w₀ buf.length) ∧
        buf.length / mtd.minIoSize * mtd.minIoSize ≤ i))
    (ha : ¬Retired mtd weak st₀ w₀ (stop mtd weak st₀ w₀ buf.length) (a / mtd.ebSize)) :
    st'.mem (mtd.start + a) = st.mem (mtd.start + a) := by
  obtain ⟨data, hlen, hdata, hmem⟩ := hs.mem
  obtain ⟨data', hlen', hdata', hmem'⟩ := hs'.mem
  rw [List.length_set] at hlen' hdata' hmem'
  rw [hmem a ha, hmem' a ha]
  have hfits := hs.fits
  apply scatter_agree _ (slots_map_nodup _)
  · rw [List.length_map, List.length_take, hlen']
    omega
  · rw [List.length_map, List.length_take, hlen]
    omega
  · intro j hj
    have hne : j ≠ i ∨ (TailHit mtd weak st₀ w₀ buf.length (stop mtd weak st₀ w₀ buf.length) ∧
        buf.length / mtd.minIoSize * mtd.minIoSize ≤ i) := by
      rcases hlost with ⟨v, hv, hr⟩ | hl
      · left
        rintro rfl
        rw [List.getElem?_map, List.getElem?_take] at hj
        split_ifs at hj
        · rw [hv] at hj
          have hva : v = a := by simpa using hj
          exact ha (hva ▸ hr)
        · simp at hj
      · exact .inr hl
    rcases hdata with ⟨ht, rfl⟩ | ⟨ht, -, rfl⟩
    · obtain ⟨-, rfl⟩ | ⟨ht', -⟩ := hdata'
      · exact kept_set i j x (hne.resolve_right (fun h => ht h.1))
      · exact absurd ht' ht
    · obtain ⟨ht', -⟩ | ⟨-, -, rfl⟩ := hdata'
      · exact absurd ht ht'
      · exact blanked_set i j x (hne.imp_right And.right)

theorem usable_slots (hs : Stored mtd weak st₀ w₀ buf st) (hl : NothingLost mtd weak st₀ w₀ buf.length) :
    (usable (mtdBmBlockMapIsBad st) mtd.ebSize mtd.size w₀).take buf.length =
      (slots mtd weak st₀ w₀).take buf.length := by
  have hfits := hs.fits
  have hle : buf.length ≤ padded mtd buf.length := le_padded _
  have hgood (b : ℕ) (h0 : mtdBmBlockMapIsBad st₀ b = false)
      (hr : ¬Retired mtd weak st₀ w₀ (stop mtd weak st₀ w₀ buf.length) b) : mtdBmBlockMapIsBad st b = false := by
    by_contra hb
    rcases (hs.bad b).mp (Bool.not_eq_false _ ▸ hb) with h | h
    · rw [h0] at h
      cases h
    · exact hr h
  refine take_filter_eq List.pairwise_lt_range' (hle.trans hfits) ?_ ?_
  · intro a ha
    have hmem := mem_programmable.mp (List.mem_of_mem_take ha)
    rw [hgood _ hmem.2.2.1 (hl.1 a ha)]
    rfl
  · rintro a haL hb ⟨x, hx, hax⟩
    have hb' : mtdBmBlockMapIsBad st (a / mtd.ebSize) = false := by simpa using hb
    have hnot : ¬(mtdBmBlockMapIsBad st₀ (a / mtd.ebSize) = true ∨
        Retired mtd weak st₀ w₀ (stop mtd weak st₀ w₀ buf.length) (a / mtd.ebSize)) := by
      rw [← hs.bad, hb']
      simp
    rw [not_or, Bool.not_eq_true] at hnot
    have hstop := hs.before x (List.take_subset_take_left _ hle hx)
    rw [hnot.1]
    simp only [Bool.not_false, Bool.true_and]
    apply sound_iff.mpr
    intro p h1 h2 h3 h4
    by_contra hw
    exact hnot.2 ⟨p, ⟨h4, by simpa using hw, h3 ▸ hnot.1, h1, by omega⟩, h3⟩

theorem stored_kept (hs : Stored mtd weak st₀ w₀ buf st) (hl : NothingLost mtd weak st₀ w₀ buf.length) :
    ((slots mtd weak st₀ w₀).take buf.length).map (fun a => st.mem (mtd.start + a)) = buf := by
  obtain ⟨data, hlen, hdata, hmem⟩ := hs.mem
  obtain ⟨-, rfl⟩ : _ ∧ data = kept mtd buf := hdata.resolve_right (fun h => hl.2 h.1)
  have hfits := hs.fits
  have hle : buf.length ≤ padded mtd buf.length := le_padded _
  have hread := map_scatter st₀.mem (((slots mtd weak st₀ w₀).take (padded mtd buf.length)).map (mtd.start + ·))
    (kept mtd buf) (slots_map_nodup _) (by rw [List.length_map, List.length_take, hlen]; omega)
  have htake := congrArg (List.take buf.length) hread
  rw [List.map_map, ← List.map_take, List.take_take, min_eq_left hle] at htake
  refine (List.map_congr_left (fun a ha => hmem a (hl.1 a ha))).trans (htake.trans ?_)
  rw [kept, List.take_left]

section Call

variable (hf : PageFaults dev mtd weak) (hn : PlainNand mtd fs) (hpad : fs.flag.pad = true)
  (hp : mtd.minIoSize ∣ w₀) (hw : w₀ ≤ mtd.size) (hmap : st₀.map.isSome = true)
  (hu : Unreserved mtd w₀ st₀)

def readBack (dev : Device) (mtd : MtdDevInfo) (w₀ n : ℕ) (st : BmState) : ReadOutcome :=
  mtdBasicRead dev mtd ((w₀ + mtd.start : ℕ) : ℤ) n st

/-- Every buffer of `n` bytes that a write from `w₀` on consumes is what a read there returns. -/
def ReadsBack (dev : Device) (mtd : MtdDevInfo) (fs : FsKind) (maxSize progressSize w₀ n : ℕ) (st₀ : BmState) :
    Prop :=
  ∀ buf : List UInt8, buf.length = n → ∀ e,
    (mtdBasicWrite dev mtd fs maxSize progressSize ((w₀ + mtd.start : ℕ) : ℤ) buf st₀).ret = .off e →
    (mtdBasicWrite dev mtd fs maxSize progressSize ((w₀ + mtd.start : ℕ) : ℤ) buf st₀).progressSize =
      progressSize + n →
    (∃ e, (readBack dev mtd w₀ n (mtdBasicWrite dev mtd fs maxSize progressSize
        ((w₀ + mtd.start : ℕ) : ℤ) buf st₀).st).ret = .off e) ∧
      (readBack dev mtd w₀ n (mtdBasicWrite dev mtd fs maxSize progressSize
        ((w₀ + mtd.start : ℕ) : ℤ) buf st₀).st).buffer = buf

include hf hn in
theorem readBack_stored (hs : Stored mtd weak st₀ w₀ buf st) (hl : NothingLost mtd weak st₀ w₀ buf.length) :
    (∃ e, (readBack dev mtd w₀ buf.length st).ret = .off e) ∧ (readBack dev mtd w₀ buf.length st).buffer = buf := by
  obtain ⟨hbuf, hret⟩ := basicRead_usable dev mtd hn.nand hf.read hs.mapped w₀ buf.length
  have htake := usable_slots hs hl
  refine ⟨hret ?_, ?_⟩
  · have hlen := congrArg List.length htake
    have hfits := hs.fits
    have hle : buf.length ≤ padded mtd buf.length := le_padded _
    rw [List.length_take, List.length_take] at hlen
    omega
  · rw [readBack, hbuf, htake, stored_kept hs hl]

include hf hn in
theorem readBack_lost {i : ℕ} {x : UInt8} (hs : Stored mtd weak st₀ w₀ buf st)
    (hs' : Stored mtd weak st₀ w₀ (buf.set i x) st')
    (hlost : (∃ v, (slots mtd weak st₀ w₀)[i]? = some v ∧
        Retired mtd weak st₀ w₀ (stop mtd weak st₀ w₀ buf.length) (v / mtd.ebSize)) ∨
      (TailHit mtd weak st₀ w₀ buf.length (stop mtd weak st₀ w₀ buf.length) ∧
        buf.length / mtd.minIoSize * mtd.minIoSize ≤ i)) :
    (readBack dev mtd w₀ buf.length st').buffer = (readBack dev mtd w₀ buf.length st).buffer := by
  have hbad : mtdBmBlockMapIsBad st' = mtdBmBlockMapIsBad st := by
    funext b
    apply Bool.eq_iff_iff.mpr
    rw [hs.bad, hs'.bad, List.length_set]
  rw [readBack, readBack, (basicRead_usable dev mtd hn.nand hf.read hs.mapped w₀ buf.length).1,
    (basicRead_usable dev mtd hn.nand hf.read hs'.mapped w₀ buf.length).1, hbad]
  apply List.map_congr_left
  intro a ha
  have hgood := ((mem_usable _).mp (List.mem_of_mem_take ha)).2.2
  refine stored_lost hs hs' hlost (fun hr => ?_)
  rw [(hs.bad _).mpr (.inr hr)] at hgood
  cases hgood

theorem lost_index {n : ℕ} (hl : ¬NothingLost mtd weak st₀ w₀ n)
    (htail : TailHit mtd weak st₀ w₀ n (stop mtd weak st₀ w₀ n) → n % mtd.minIoSize ≠ 0) :
    ∃ i < n, (∃ v, (slots mtd weak st₀ w₀)[i]? = some v ∧
        Retired mtd weak st₀ w₀ (stop mtd weak st₀ w₀ n) (v / mtd.ebSize)) ∨
      (TailHit mtd weak st₀ w₀ n (stop mtd weak st₀ w₀ n) ∧ n / mtd.minIoSize * mtd.minIoSize ≤ i) := by
  rw [NothingLost, not_and_or, not_not] at hl
  rcases hl with hl | hl
  · rw [not_forall] at hl
    obtain ⟨a, ha⟩ := hl
    rw [Classical.not_imp, not_not] at ha
    obtain ⟨i, hi⟩ := List.mem_iff_getElem?.mp ha.1
    rw [List.getElem?_take] at hi
    split_ifs at hi with hin
    · exact ⟨i, hin, .inl ⟨a, hi, ha.2⟩⟩
  · have h1 := Nat.div_add_mod' n mtd.minIoSize
    have h2 := htail hl
    exact ⟨n - 1, by omega, .inr ⟨hl, by omega⟩⟩

include hf hn hpad hp hw hmap hu in
/-- The buffer comes back for every content exactly if no program fails where it can lose bytes. -/
theorem readsBack_iff (progressSize n : ℕ) :
    ReadsBack dev mtd fs maxSize progressSize w₀ n st₀ ↔
      (maxSize ≠ 0 → n ≤ (slots mtd weak st₀ w₀).length → NothingLost mtd weak st₀ w₀ n) := by
  constructor
  · intro h hm hfit
    by_contra hl
    have hwrite (b : List UInt8) (hb : b.length = n) :
        ∃ st, Stored mtd weak st₀ w₀ b st ∧ (readBack dev mtd w₀ n st).buffer = b := by
      obtain ⟨st, heq, hst⟩ := basicWrite_stored hf hn hm hpad hp hw hmap hu (hb ▸ hfit) progressSize
      have hback := h b hb _ (by rw [heq]) (by rw [heq, hb])
      rw [heq] at hback
      exact ⟨st, hst, hback.2⟩
    obtain ⟨st, hst, hback⟩ := hwrite (List.replicate n 0) (by simp)
    obtain ⟨i, hi, hlost⟩ := lost_index hl (fun ht => by
      obtain ⟨data, -, hdata, -⟩ := hst.mem
      rw [List.length_replicate] at hdata
      exact (hdata.resolve_left (fun hno => hno.1 ht)).2.1)
    obtain ⟨st', hst', hback'⟩ := hwrite ((List.replicate n 0).set i 1) (by simp)
    have hsame := readBack_lost hf hn hst hst' (by simpa using hlost)
    rw [List.length_replicate, hback, hback'] at hsame
    have hbyte := congrArg (fun l : List UInt8 => l[i]?) hsame
    simp [hi] at hbyte
  · intro h buf hbuf e hr ht
    subst hbuf
    obtain ⟨w, -, -, -, -, heq⟩ := basicWrite_off dev mtd fs maxSize hr
    have hm := writeLoop_off dev mtd fs maxSize (heq ▸ hr)
    have hfit := basicWrite_fits hf hn hm hp hw hmap hu hr ht
    obtain ⟨st, heq, hst⟩ := basicWrite_stored hf hn hm hpad hp hw hmap hu hfit progressSize
    rw [heq]
    exact readBack_stored hf hn hst (h hm hfit)

end Call

theorem readsBack_iff_small :
    ReadsBack (faultyDevice 4 (· == 0)) (smallNand 0 (by decide)) fsNormal 4 0 0 4 (blankState []) ↔
      (4 ≠ 0 → 4 ≤ (slots (smallNand 0 (by decide)) (· == 0) (blankState []) 0).length →
        NothingLost (smallNand 0 (by decide)) (· == 0) (blankState []) 0 4) :=
  readsBack_iff (faultyDevice_faults (smallNand 0 (by decide)) _) ⟨rfl, rfl⟩ rfl (by decide) (by decide) rfl
    (fun _ h => by cases h) 0 4

/-- The second page of the first block fails: what the first page held is erased with the block. -/
theorem second_page_lost :
    ¬ReadsBack (faultyDevice 4 (· == 2)) (smallNand 0 (by decide)) fsNormal 4 0 0 4 (blankState []) := by
  intro h
  have hback := (h [1, 2, 3, 4] rfl 6 (by decide) (by decide)).2
  have hread : (readBack (faultyDevice 4 (· == 2)) (smallNand 0 (by decide)) 0 4
      (mtdBasicWrite (faultyDevice 4 (· == 2)) (smallNand 0 (by decide)) fsNormal 4 0
        ((0 + 0 : ℕ) : ℤ) [1, 2, 3, 4] (blankState [])).st).buffer = [3, 4, 0xFF, 0xFF] := by decide
  exact absurd (hread.symm.trans hback) (by decide)

end LinuxRecovery.Relocation
