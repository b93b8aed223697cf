import LinuxRecovery.PageOutcomes

namespace LinuxRecovery.PageWrites

open Loops ByteMemory GoodBlocks Libmtd BlockMap Sysinfo BasicWrite
open PageOutcomes (page_in_block validEraseBlock address_block)

structure Working (dev : Device) : Prop where
  reply : ∀ calls, dev.reply calls = none
  good : ∀ calls, dev.badBlock calls = .good

def Served (dev : Device) (mtd : MtdDevInfo) (a n : ℕ) : Prop :=
  ∀ x, a ≤ x → x < a + n → ∀ calls call, DevCall.target call = (mtd.start, mtdOffsetToEbIndex mtd x) →
    dev.reply (calls ++ [call]) = none

theorem Working.served {dev : Device} (hw : Working dev) (mtd : MtdDevInfo) (a n : ℕ) : Served dev mtd a n :=
  fun _ _ _ _ _ _ => hw.reply _

structure Tabled (ls : List SysinfoLayout) : Prop where
  disjoint : DisjointLayouts ls
  nonempty : ∀ l ∈ ls, 0 < l.length
  value : ∀ l ∈ ls, ∀ v, l.value = some v → v.length = l.length

def reservedAt (x : ℕ) (l : SysinfoLayout) : Bool :=
  decide (l.reserve = .reserved ∧ l.offset ≤ x ∧ x < l.offset + l.length)

def mergedByte (ls : List SysinfoLayout) (old : Memory) (x : ℕ) : UInt8 :=
  match ls.find? (reservedAt x) with
  | some l => (l.value.bind (fun v => v[x - l.offset]?)).getD (old x)
  | none => old x

def Touches (l : SysinfoLayout) (a n : ℕ) : Prop := ∃ x, l.offset ≤ x ∧ x < l.offset + l.length ∧ a ≤ x ∧ x < a + n

def isProgram : DevCall → Bool
  | .write .. => true
  | _ => false

def Programmed (mtd : MtdDevInfo) (new : List DevCall) (x : ℕ) : Prop :=
  ∃ eb offs data oob mode, DevCall.write mtd.start eb offs data oob mode ∈ new ∧
    address mtd eb offs ≤ x ∧ x < address mtd eb offs + data.length

theorem programmed_append {mtd : MtdDevInfo} {new new' : List DevCall} {x : ℕ} :
    Programmed mtd (new ++ new') x ↔ Programmed mtd new x ∨ Programmed mtd new' x := by
  simp only [Programmed, List.mem_append]
  constructor
  · rintro ⟨eb, offs, data, oob, mode, h | h, hx⟩
    · exact Or.inl ⟨eb, offs, data, oob, mode, h, hx⟩
    · exact Or.inr ⟨eb, offs, data, oob, mode, h, hx⟩
  · rintro (⟨eb, offs, data, oob, mode, h, hx⟩ | ⟨eb, offs, data, oob, mode, h, hx⟩)
    · exact ⟨eb, offs, data, oob, mode, Or.inl h, hx⟩
    · exact ⟨eb, offs, data, oob, mode, Or.inr h, hx⟩

theorem not_programmed {mtd : MtdDevInfo} {new : List DevCall} (h : ∀ call ∈ new, isProgram call = false) (x : ℕ) :
    ¬Programmed mtd new x := by
  rintro ⟨eb, offs, data, oob, mode, hmem, -⟩
  have := h _ hmem
  cases this

section Merge

variable {ls : List SysinfoLayout} {l : SysinfoLayout} {start length : ℕ} {buf buf' : List UInt8}

theorem touches_iff (hl : 0 < l.length) (hlength : 0 < length) :
    Touches l start length ↔ SysinfoLayout.outside l start (start + length) = false := by
  simp only [SysinfoLayout.outside, Bool.or_eq_false_iff, decide_eq_false_iff_not, not_le]
  constructor
  · rintro ⟨x, h1, h2, h3, h4⟩
    omega
  · intro h
    exact ⟨max l.offset start, by omega, by omega, by omega, by omega⟩

theorem mergeLayout_isSome (hl : 0 < l.length) (hlength : 0 < length) :
    (mergeLayout start length buf l).isSome = true ↔
      (l.reserve = .reserved → Touches l start length → l.value.isSome = true) := by
  rw [touches_iff hl hlength]
  unfold mergeLayout
  by_cases hr : l.reserve = .reserved
  · rw [if_neg (not_not.mpr hr)]
    cases hout : SysinfoLayout.outside l start (start + length) with
    | true => simp
    | false =>
      simp only [SysinfoLayout.outside, Bool.or_eq_false_iff, decide_eq_false_iff_not, not_le] at hout
      cases hv : l.value with
      | none => simp [hr]
      | some v =>
        have hoverlap : ¬min (start + length) (l.offset + l.length) - max l.offset start = 0 := by omega
        simp [hoverlap]
  · simp [hr]

theorem mergeAll_isSome (htab : ∀ l ∈ ls, 0 < l.length) (hlength : 0 < length) :
    (ls.foldlM (mergeLayout start length) buf).isSome = true ↔
      ∀ l ∈ ls, l.reserve = .reserved → Touches l start length → l.value.isSome = true := by
  induction ls generalizing buf with
  | nil => simp
  | cons l ls ih =>
    have hhead : (mergeLayout start length buf l).isSome = true ↔ _ :=
      mergeLayout_isSome (htab l List.mem_cons_self) hlength
    rw [List.foldlM_cons, List.forall_mem_cons, ← hhead]
    cases hl : mergeLayout start length buf l with
    | none => simp
    | some b => simpa using ih (fun l hl => htab l (List.mem_cons_of_mem _ hl))

theorem Tabled.le_last (h : Tabled ls) (hl : l ∈ ls) : ∃ last, ls.getLast? = some last ∧
    l.offset + l.length ≤ last.offset + last.length := by
  obtain ⟨before, after, rfl⟩ := List.append_of_mem hl
  have hafter := (List.pairwise_append.mp h.disjoint).2.1
  rw [List.pairwise_cons] at hafter
  rw [List.getLast?_append, List.getLast?_cons, Option.some_or]
  cases hg : after.getLast? with
  | none => exact ⟨l, rfl, le_rfl⟩
  | some last =>
    have := hafter.1 last (List.mem_of_mem_getLast? hg)
    exact ⟨last, rfl, by omega⟩

theorem merge_isSome (h : Tabled ls) (hlength : 0 < length) :
    (sysinfoTraversalMerge ls buf start length).isSome = true ↔
      ∀ l ∈ ls, l.reserve = .reserved → Touches l start length → l.value.isSome = true := by
  unfold sysinfoTraversalMerge
  split_ifs with hlast
  · simp only [Option.isSome_some, true_iff]
    rintro l hl - ⟨x, h1, h2, h3, h4⟩
    obtain ⟨last, hg, hle⟩ := h.le_last hl
    rw [hg, Option.any_some, decide_eq_true_eq] at hlast
    omega
  · exact mergeAll_isSome h.nonempty hlength

theorem mergeAll_free {x : ℕ} (hb : buf.length = length) (h1 : start ≤ x) (hx : ∀ l ∈ ls, reservedAt x l = false)
    (h : ls.foldlM (mergeLayout start length) buf = some buf') : buf'[x - start]? = buf[x - start]? := by
  induction ls generalizing buf with
  | nil =>
    cases h
    rfl
  | cons l ls ih =>
    rw [List.foldlM_cons] at h
    obtain ⟨b, hl, hrest⟩ := Option.bind_eq_some_iff.mp h
    rw [ih (mergeLayout_length hb hl) (fun l hl => hx l (List.mem_cons_of_mem _ hl)) hrest]
    by_cases hr : l.reserve = .reserved
    · apply mergeLayout_other hb hl h1
      have hfree := hx l List.mem_cons_self
      rw [reservedAt, decide_eq_false_iff_not] at hfree
      by_contra hne
      exact hfree ⟨hr, by omega, by omega⟩
    · rw [mergeLayout, if_pos hr] at hl
      cases hl
      rfl

theorem merge_bytes {old : Memory} (htab : Tabled ls) (hlength : 0 < length)
    (h : sysinfoTraversalMerge ls (readBytes old start length) start length = some buf') :
    buf' = readBytes (mergedByte ls old) start length := by
  have hb : (readBytes old start length).length = length := readBytes_length old start length
  have hlen := merge_length hb h
  have hsome := (merge_isSome htab hlength).mp (by rw [h]; rfl)
  apply List.ext_getElem?
  intro j
  by_cases hj : j < length
  · have hold : (readBytes old start length)[j]? = some (old (start + j)) := by
      rw [List.getElem?_eq_getElem (by omega), readBytes_getElem]
    have hnew : (readBytes (mergedByte ls old) start length)[j]? = some (mergedByte ls old (start + j)) := by
      rw [List.getElem?_eq_getElem (by rw [readBytes_length]; omega), readBytes_getElem]
    have hsub : start + j - start = j := Nat.add_sub_cancel_left start j
    rw [hnew, mergedByte]
    cases hfind : ls.find? (reservedAt (start + j)) with
    | none =>
      rw [← hold]
      unfold sysinfoTraversalMerge at h
      split_ifs at h
      · cases h
        rfl
      · have hfree := mergeAll_free hb (Nat.le_add_right start j) (fun l hl => by simpa using List.find?_eq_none.mp hfind l hl) h
        rwa [hsub] at hfree
    | some l =>
      have hl := List.mem_of_find?_eq_some hfind
      have hres : reservedAt (start + j) l = true := List.find?_some hfind
      obtain ⟨hr, h1, h2⟩ := of_decide_eq_true hres
      obtain ⟨v, hv⟩ := Option.isSome_iff_exists.mp (hsome l hl hr ⟨start + j, h1, h2, by omega, by omega⟩)
      have hvl := htab.value l hl v hv
      have hbyte := merge_reserved htab.disjoint hl hb h hr hv hvl (Nat.le_add_right start j) (by omega) h1 h2
      rw [hsub] at hbyte
      dsimp only
      rw [hbyte, hv, Option.bind_some, List.getElem?_eq_getElem (by omega), Option.getD_some]
  · rw [List.getElem?_eq_none (by omega), List.getElem?_eq_none (by rw [readBytes_length]; omega)]

/-- A merge succeeds just when the reserved regions in its way are saved; it puts their bytes in and leaves the others. -/
theorem merge_pointwise (h : Tabled ls) (hlength : 1 ≤ length) (hb : buf.length = length) :
    ((sysinfoTraversalMerge ls buf start length).isSome = true ↔
        ∀ l ∈ ls, l.reserve = .reserved → Touches l start length → l.value.isSome = true) ∧
      ∀ buf', sysinfoTraversalMerge ls buf start length = some buf' → buf'.length = length ∧ ∀ j < length,
        (∀ l ∈ ls, reservedAt (start + j) l = true →
            ∃ v, l.value = some v ∧ buf'[j]? = v[start + j - l.offset]?) ∧
          ((∀ l ∈ ls, reservedAt (start + j) l = false) → buf'[j]? = buf[j]?) := by
  refine ⟨merge_isSome h hlength, fun buf' hmerge => ⟨merge_length hb hmerge, fun j hj => ?_⟩⟩
  have hsub : start + j - start = j := Nat.add_sub_cancel_left start j
  constructor
  · intro l hl hres
    obtain ⟨hr, h1, h2⟩ := of_decide_eq_true hres
    have hsome := (merge_isSome h hlength).mp (by rw [hmerge]; rfl) l hl hr ⟨start + j, h1, h2, by omega, by omega⟩
    obtain ⟨v, hv⟩ := Option.isSome_iff_exists.mp hsome
    have hbyte := merge_reserved h.disjoint hl hb hmerge hr hv (h.value l hl v hv) (Nat.le_add_right start j)
      (by omega) h1 h2
    rw [hsub] at hbyte
    exact ⟨v, hv, hbyte⟩
  · intro hfree
    unfold sysinfoTraversalMerge at hmerge
    split_ifs at hmerge
    · cases hmerge
      rfl
    · have hbyte := mergeAll_free hb (Nat.le_add_right start j) hfree hmerge
      rwa [hsub] at hbyte

def twoRegions : List SysinfoLayout := [⟨2, 2, some [7, 8], .reserved⟩, ⟨6, 3, some [9, 10, 11], .reserved⟩]

theorem twoRegions_tabled : Tabled twoRegions := by
  refine ⟨by rw [DisjointLayouts]; decide, fun l hl => ?_, fun l hl v hv => ?_⟩
  · fin_cases hl <;> decide
  · fin_cases hl <;> cases hv <;> rfl

theorem merge_pointwise_two : sysinfoTraversalMerge twoRegions [1, 2, 3, 4, 5, 6] 1 6 = some [1, 7, 8, 4, 5, 9] ∧
    ∀ j < 6, (∀ l ∈ twoRegions, reservedAt (1 + j) l = true →
        ∃ v, l.value = some v ∧ [1, 7, 8, 4, 5, 9][j]? = v[1 + j - l.offset]?) ∧
      ((∀ l ∈ twoRegions, reservedAt (1 + j) l = false) →
        ([1, 7, 8, 4, 5, 9] : List UInt8)[j]? = [1, 2, 3, 4, 5, 6][j]?) := by
  have hmerge : sysinfoTraversalMerge twoRegions [1, 2, 3, 4, 5, 6] 1 6 = some [1, 7, 8, 4, 5, 9] := by decide
  exact ⟨hmerge, ((merge_pointwise twoRegions_tabled (by decide) rfl).2 _ hmerge).2⟩

def Valued (ls : List SysinfoLayout) (a n : ℕ) : Prop :=
  ∀ l ∈ ls, l.reserve = .reserved → Touches l a n → l.value.isSome = true

theorem touches_split {l : SysinfoLayout} {a n k : ℕ} (h : k ≤ n) :
    Touches l a n ↔ Touches l a k ∨ Touches l (a + k) (n - k) := by
  constructor
  · rintro ⟨x, h1, h2, h3, h4⟩
    by_cases hx : x < a + k
    · exact Or.inl ⟨x, h1, h2, h3, hx⟩
    · exact Or.inr ⟨x, h1, h2, by omega, by omega⟩
  · rintro (⟨x, h1, h2, h3, h4⟩ | ⟨x, h1, h2, h3, h4⟩)
    · exact ⟨x, h1, h2, h3, by omega⟩
    · exact ⟨x, h1, h2, by omega, by omega⟩

theorem valued_split {a n k : ℕ} (h : k ≤ n) : Valued ls a n ↔ Valued ls a k ∧ Valued ls (a + k) (n - k) := by
  unfold Valued
  constructor
  · intro hv
    exact ⟨fun l hl hr ht => hv l hl hr ((touches_split h).mpr (Or.inl ht)),
      fun l hl hr ht => hv l hl hr ((touches_split h).mpr (Or.inr ht))⟩
  · rintro ⟨h1, h2⟩ l hl hr ht
    rcases (touches_split h).mp ht with ht | ht
    · exact h1 l hl hr ht
    · exact h2 l hl hr ht

end Merge

section Pages

variable {dev : Device} {mtd : MtdDevInfo} {fs : FsKind} {maxSize : ℕ} {c : Cursor} {ls : List SysinfoLayout}

def span (mtd : MtdDevInfo) (fs : FsKind) (c : Cursor) : ℕ := c.wLength / pagelen mtd fs * mtd.minIoSize

structure Paged (mtd : MtdDevInfo) (fs : FsKind) (c : Cursor) : Prop where
  aligned : mtd.minIoSize ∣ c.wOffset
  dvd : pagelen mtd fs ∣ c.wLength
  buffer : c.wBuffer.length = c.wLength
  fits : c.wOffset + span mtd fs c ≤ mtd.size
  good : mtdTypeIsNand mtd = true → ∀ x, c.wOffset ≤ x → x < c.wOffset + span mtd fs c →
    mtdBmBlockMapIsBad c.st (mtdOffsetToEbIndex mtd x) = false

def Saved (st : BmState) (a n : ℕ) : Prop := ∀ ls, st.sysinfo = some ls → Valued ls a n

theorem saved_split {st : BmState} {a n k : ℕ} (h : k ≤ n) :
    Saved st a n ↔ Saved st a k ∧ Saved st (a + k) (n - k) := by
  unfold Saved
  constructor
  · intro hs
    exact ⟨fun ls hls => ((valued_split h).mp (hs ls hls)).1, fun ls hls => ((valued_split h).mp (hs ls hls)).2⟩
  · rintro ⟨h1, h2⟩ ls hls
    exact (valued_split h).mpr ⟨h1 ls hls, h2 ls hls⟩

theorem mergePage_isSome (htab : ∀ ls, c.st.sysinfo = some ls → Tabled ls) :
    (mergePage mtd c).isSome = true ↔ Saved c.st (mtd.start + c.wOffset) mtd.minIoSize := by
  unfold mergePage Saved
  cases hls : c.st.sysinfo with
  | none => simp
  | some ls =>
    dsimp only
    rw [Nat.add_comm c.wOffset, merge_isSome (htab ls hls) mtd.minIoSize_pos]
    constructor
    · rintro h _ ⟨⟩
      exact h
    · intro h
      exact h ls rfl

theorem Paged.page_le (hc : Paged mtd fs c) (h0 : c.wLength ≠ 0) : pagelen mtd fs ≤ c.wLength :=
  Nat.le_of_dvd (Nat.pos_of_ne_zero h0) hc.dvd

theorem Paged.span_eq (hc : Paged mtd fs c) (h0 : c.wLength ≠ 0) :
    span mtd fs c = mtd.minIoSize + (c.wLength - pagelen mtd fs) / pagelen mtd fs * mtd.minIoSize := by
  have hp := pagelen_pos mtd fs
  rw [span, Nat.div_eq_sub_div hp (hc.page_le h0), Nat.succ_mul, Nat.add_comm]

def Cursor.request (mtd : MtdDevInfo) (fs : FsKind) (data : List UInt8) (c : Cursor) : DevCall :=
  .write mtd.start (mtdOffsetToEbIndex mtd c.wOffset) (c.wOffset % mtd.ebSize) data (takeOob mtd fs c).1 (writeMode fs)

def Cursor.past (mtd : MtdDevInfo) (fs : FsKind) (data : List UInt8) (c : Cursor) : Cursor where
  wOffset := c.wOffset + mtd.minIoSize
  wLength := c.wLength - pagelen mtd fs
  wBuffer := c.wBuffer.drop (pagelen mtd fs)
  inPad := c.inPad
  blockstart := some (mtdBlockAlign mtd c.wOffset)
  writeoob := (takeOob mtd fs c).2.writeoob
  progressSize := c.progressSize + pagelen mtd fs
  st := { c.st with toChip := ⟨writeBytes c.st.mem (mtd.start + c.wOffset) data,
    c.st.calls ++ [Cursor.request mtd fs data c]⟩ }

theorem Paged.past (hc : Paged mtd fs c) (h0 : c.wLength ≠ 0) (data : List UInt8) :
    Paged mtd fs (Cursor.past mtd fs data c) := by
  have hpage := hc.page_le h0
  have hspan : span mtd fs (Cursor.past mtd fs data c) = span mtd fs c - mtd.minIoSize := by
    rw [hc.span_eq h0, Nat.add_sub_cancel_left]
    rfl
  have hle : mtd.minIoSize ≤ span mtd fs c := by
    rw [hc.span_eq h0]
    exact Nat.le_add_right _ _
  have hfits := hc.fits
  refine ⟨Nat.dvd_add hc.aligned dvd_rfl, Nat.dvd_sub hc.dvd dvd_rfl, ?_, ?_, ?_⟩
  · change (c.wBuffer.drop (pagelen mtd fs)).length = c.wLength - pagelen mtd fs
    rw [List.length_drop, hc.buffer]
  · rw [hspan]
    exact (by omega : c.wOffset + mtd.minIoSize + (span mtd fs c - mtd.minIoSize) ≤ mtd.size)
  · intro hn x hlow hhigh
    rw [hspan] at hhigh
    have hlow' : c.wOffset + mtd.minIoSize ≤ x := hlow
    have hhigh' : x < c.wOffset + mtd.minIoSize + (span mtd fs c - mtd.minIoSize) := hhigh
    exact hc.good hn x (by omega) (by omega)

theorem Paged.inside (hc : Paged mtd fs c) (h0 : c.wLength ≠ 0) : c.wOffset < mtd.size := by
  have hspan := hc.span_eq h0
  have hfits := hc.fits
  have hpos := mtd.minIoSize_pos
  omega

theorem Paged.enter (hc : Paged mtd fs c) (h0 : c.wLength ≠ 0) :
    enterBlock mtd c = some { c with blockstart := some (mtdBlockAlign mtd c.wOffset) } := by
  have hinside := hc.inside h0
  unfold enterBlock
  dsimp only
  split_ifs with hb hn hsize
  · rw [← hb]
  · rfl
  · have hskip : skipBad mtd c.st c.wOffset = c.wOffset := skip_good _ _ (hc.good (by simpa using hn) _ le_rfl (by
      have := hc.span_eq h0
      have := mtd.minIoSize_pos
      omega))
    omega
  · have hskip : skipBad mtd c.st c.wOffset = c.wOffset := skip_good _ _ (hc.good (by simpa using hn) _ le_rfl (by
      have := hc.span_eq h0
      have := mtd.minIoSize_pos
      omega))
    rw [hskip]

theorem mtdWrite_working {w : ℕ}
    (hw : ∀ calls call, DevCall.target call = (mtd.start, mtdOffsetToEbIndex mtd w) → dev.reply (calls ++ [call]) = none)
    (hws : w < mtd.size) (hp : mtd.minIoSize ∣ w) {data : List UInt8} (hd : data.length = mtd.minIoSize)
    (oob : Option (List UInt8)) (mode : MtdOps) (chip : Chip) :
    mtdWrite dev mtd (mtdOffsetToEbIndex mtd w) (w % mtd.ebSize) data oob mode chip =
      (none, ⟨writeBytes chip.mem (mtd.start + w) data,
        chip.calls ++ [.write mtd.start (mtdOffsetToEbIndex mtd w) (w % mtd.ebSize) data oob mode]⟩) := by
  have hblock := page_in_block hp
  have hsub : (w % mtd.ebSize) % mtd.subpageSize = 0 := Nat.mod_eq_zero_of_dvd
    ((Nat.dvd_mod_iff (mtd.subpageSize_dvd.trans mtd.minIoSize_dvd)).mpr (mtd.subpageSize_dvd.trans hp))
  unfold mtdWrite
  rw [validEraseBlock hws, if_neg (by simp), if_neg (by omega), if_neg (by omega),
    if_neg (by simp [hd, Nat.mod_eq_zero_of_dvd mtd.subpageSize_dvd])]
  dsimp only
  rw [hw _ _ rfl, address_block]

theorem writeStep_page (hw : Served dev mtd c.wOffset (span mtd fs c)) (hm : maxSize ≠ 0) (hc : Paged mtd fs c)
    (h0 : c.wLength ≠ 0) :
    (mergePage mtd c = none ∧ ∃ r, writeStep dev mtd fs maxSize c = .done r ∧ r.ret = .fail) ∨
      ∃ data, mergePage mtd c = some data ∧ writeStep dev mtd fs maxSize c = .next (Cursor.past mtd fs data c) := by
  have hpage := hc.page_le h0
  have hinside := hc.inside h0
  have hle := minIoSize_le_pagelen mtd fs
  set e : Cursor := { c with blockstart := some (mtdBlockAlign mtd c.wOffset) } with he
  have hwriten : writen mtd fs e = pagelen mtd fs := writen_whole mtd fs hpage
  have hpad : padTail mtd fs e = e := padTail_whole mtd fs hpage
  have hoob : takeOob mtd fs e = ((takeOob mtd fs c).1, { e with writeoob := (takeOob mtd fs c).2.writeoob }) := by
    unfold takeOob
    rw [hwriten, writen_whole mtd fs hpage]
    split_ifs
    · rfl
    · rfl
  have hprep : prepared mtd fs e = { e with writeoob := (takeOob mtd fs c).2.writeoob } := by rw [prepared, hpad, hoob]
  have hmerge : mergePage mtd (prepared mtd fs e) = mergePage mtd c := by
    rw [hprep]
    rfl
  have hstep : writeStep dev mtd fs maxSize c = writePage dev mtd fs maxSize e := by
    unfold writeStep
    rw [if_neg (by omega), hc.enter h0]
  rw [hstep, writePage_eq, setProcessInfo_pos maxSize hm, hmerge]
  cases hdata : mergePage mtd c with
  | none => exact Or.inl ⟨rfl, _, rfl, rfl⟩
  | some data =>
    right
    refine ⟨data, rfl, ?_⟩
    have hlen : data.length = mtd.minIoSize := mergePage_length mtd (by rw [hc.buffer]; omega) hdata
    dsimp only
    rw [hpad, hoob, hprep, programPage]
    have hfirst : c.wOffset < c.wOffset + span mtd fs c := by
      have := hc.span_eq h0
      have := mtd.minIoSize_pos
      omega
    have hwrite := mtdWrite_working (hw c.wOffset le_rfl hfirst) hinside hc.aligned hlen (takeOob mtd fs c).1
      (writeMode fs) c.st.toChip
    dsimp only
    rw [hwrite]
    have hn (d : Cursor) (hd : d.wLength = c.wLength) : writen mtd fs d = pagelen mtd fs :=
      (writen_congr mtd fs hd).trans (writen_whole mtd fs hpage)
    have hdrop : (data ++ c.wBuffer.drop mtd.minIoSize).drop (pagelen mtd fs) = c.wBuffer.drop (pagelen mtd fs) := by
      rw [List.drop_append, List.drop_eq_nil_of_le (by omega), List.nil_append, List.drop_drop, hlen,
        Nat.add_sub_of_le hle]
    apply congrArg Step.next
    rw [advance, hn (Cursor.sent { e with writeoob := (takeOob mtd fs c).2.writeoob } _ _ _) rfl, Cursor.sent_wBuffer,
      hdrop]
    rfl

theorem writeLoop_paged (hw : Served dev mtd c.wOffset (span mtd fs c)) (hm : maxSize ≠ 0) (hc : Paged mtd fs c)
    (htab : ∀ ls, c.st.sysinfo = some ls → Tabled ls) {out : Outcome} (hout : (writeLoop dev mtd fs maxSize).exec c = out) :
    (Saved c.st (mtd.start + c.wOffset) (span mtd fs c) ∧ out.ret = .off (c.wOffset + span mtd fs c + mtd.start) ∧
      ∃ new, out.st.calls = c.st.calls ++ new ∧ ∀ call ∈ new, ∃ x, c.wOffset ≤ x ∧ x < c.wOffset + span mtd fs c ∧
        call.target = (mtd.start, mtdOffsetToEbIndex mtd x)) ∨
    (¬Saved c.st (mtd.start + c.wOffset) (span mtd fs c) ∧ out.ret = .fail) := by
  induction c using (writeLoop dev mtd fs maxSize).induct with
  | h c ih =>
    by_cases h0 : c.wLength = 0
    · left
      have hspan : span mtd fs c = 0 := by rw [span, h0, Nat.zero_div, Nat.zero_mul]
      rw [Loop.exec_done _ (writeStep_finish dev mtd fs maxSize hm (Or.inl h0))] at hout
      subst hout
      refine ⟨?_, by rw [hspan]; rfl, [], by simp [Cursor.outcome], by simp⟩
      rintro ls - l - - ⟨x, -, -, h1, h2⟩
      omega
    · have hspan := hc.span_eq h0
      have hpos := mtd.minIoSize_pos
      have hfirst := @mergePage_isSome mtd _ htab
      rw [saved_split (show mtd.minIoSize ≤ span mtd fs c by omega)]
      rcases writeStep_page hw hm hc h0 with ⟨hnone, r, hstep, hr⟩ | ⟨data, hdata, hstep⟩
      · right
        rw [Loop.exec_done _ hstep] at hout
        subst hout
        rw [hnone] at hfirst
        exact ⟨fun hs => absurd (hfirst.mpr hs.1) (by simp), hr⟩
      · rw [Loop.exec_next _ hstep] at hout
        rw [hdata] at hfirst
        have hsub : span mtd fs (Cursor.past mtd fs data c) = span mtd fs c - mtd.minIoSize := by
          rw [hspan, Nat.add_sub_cancel_left]
          rfl
        have hoffset : (Cursor.past mtd fs data c).wOffset = c.wOffset + mtd.minIoSize := rfl
        have hserved : Served dev mtd (Cursor.past mtd fs data c).wOffset (span mtd fs (Cursor.past mtd fs data c)) := by
          rw [hsub, hoffset]
          exact fun x h1 h2 => hw x (by omega) (by omega)
        have hrest := ih _ hstep hserved (hc.past h0 data) htab hout
        rw [hsub] at hrest
        rw [hoffset, ← Nat.add_assoc, Nat.add_assoc _ mtd.minIoSize, Nat.add_sub_of_le (by omega)] at hrest
        rcases hrest with ⟨hs, hret, new, hnew, htarget⟩ | ⟨hs, hret⟩
        · left
          refine ⟨⟨hfirst.mp rfl, hs⟩, hret, Cursor.request mtd fs data c :: new, ?_, ?_⟩
          · rw [hnew]
            exact List.append_assoc _ _ _
          · intro call hcall
            rcases List.mem_cons.mp hcall with rfl | hcall
            · exact ⟨c.wOffset, le_rfl, by omega, rfl⟩
            · obtain ⟨x, h1, h2, h3⟩ := htarget call hcall
              exact ⟨x, by omega, by omega, h3⟩
        · exact Or.inr ⟨fun hboth => hs hboth.2, hret⟩

theorem block_fits {b : ℕ} (hb : b < mtd.ebCnt) : b * mtd.ebSize + mtd.ebSize ≤ mtd.size := by
  rw [← mtd.ebCnt_mul, ← Nat.succ_mul]
  exact Nat.mul_le_mul_right _ hb

theorem basicWrite_start {w progressSize : ℕ} {buf : List UInt8} {st : BmState}
    (hfits : w + buf.length / pagelen mtd fs * mtd.minIoSize ≤ mtd.size) (hmapped : st.map.isSome = true)
    (haligned : mtd.minIoSize ∣ w) (hlength : fs.flag.pad = true ∨ pagelen mtd fs ∣ buf.length)
    (hecc : fs.flag.noecc = false) :
    mtdBasicWrite dev mtd fs maxSize progressSize (mtd.start + w : ℕ) buf st =
      (writeLoop dev mtd fs maxSize).exec (writeStart fs w progressSize buf st) := by
  have hsub : ((mtd.start + w : ℕ) : ℤ) - mtd.start = (w : ℕ) := by push_cast; ring
  have hpad : ¬(fs.flag.pad = false ∧ buf.length % pagelen mtd fs ≠ 0) := by
    rintro ⟨hpad, hne⟩
    rcases hlength with h | h
    · rw [h] at hpad
      cases hpad
    · exact hne (Nat.mod_eq_zero_of_dvd h)
  unfold mtdBasicWrite
  dsimp only
  rw [hsub, if_neg (by omega), Int.toNat_natCast, if_neg (by simp [Nat.mod_eq_zero_of_dvd haligned]),
    if_neg (by simp [hecc]), if_neg hpad, if_neg (by omega), if_neg (by simp [mtdBmBlockMapIsValid, hmapped])]

end Pages

end LinuxRecovery.PageWrites
