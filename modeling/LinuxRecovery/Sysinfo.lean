import LinuxRecovery.BlockMap

namespace LinuxRecovery.Sysinfo

open ByteMemory Libmtd BlockMap

def layout : List SysinfoLayout :=
  [⟨0x3c00, 0x400, none, .reserved⟩, ⟨0x6000, 0x400, none, .reserved⟩]

def memcpy (buf : List UInt8) (at_ : ℕ) (bs : List UInt8) : List UInt8 :=
  buf.take at_ ++ bs ++ buf.drop (at_ + bs.length)

def SysinfoLayout.outside (l : SysinfoLayout) (start stop : ℕ) : Bool :=
  decide (stop ≤ l.offset) || decide (l.offset + l.length ≤ start)

def mergeLayout (start length : ℕ) (buf : List UInt8) (l : SysinfoLayout) : Option (List UInt8) :=
  if l.reserve ≠ .reserved then some buf
  else if SysinfoLayout.outside l start (start + length) then some buf
  else
    match l.value with
    | none => none
    | some v =>
      let overlap := min (start + length) (l.offset + l.length) - max l.offset start
      if overlap = 0 then none
      else some (memcpy buf (l.offset - start) ((v.drop (start - l.offset)).take overlap))

def sysinfoTraversalMerge (layouts : List SysinfoLayout) (buf : List UInt8) (offset length : ℕ) :
    Option (List UInt8) :=
  if layouts.getLast?.any (fun last => last.offset + last.length ≤ offset) then some buf
  else layouts.foldlM (mergeLayout offset length) buf

theorem SysinfoLayout.outside_mono {l : SysinfoLayout} {a b c d : ℕ} (h : SysinfoLayout.outside l a d = true)
    (hab : a ≤ b) (hcd : c ≤ d) : SysinfoLayout.outside l b c = true := by
  simp only [SysinfoLayout.outside, Bool.or_eq_true, decide_eq_true_eq] at h ⊢
  omega

theorem memcpy_length (buf : List UInt8) (at_ : ℕ) (bs : List UInt8)
    (h : at_ + bs.length ≤ buf.length) : (memcpy buf at_ bs).length = buf.length := by
  simp [memcpy]
  omega

theorem mergeLayout_length {start length : ℕ} {buf buf' : List UInt8} {l : SysinfoLayout}
    (hb : buf.length = length) (h : mergeLayout start length buf l = some buf') :
    buf'.length = length := by
  unfold mergeLayout at h
  split_ifs at h with h1 h2
  · cases h; exact hb
  · cases h; exact hb
  · cases hv : l.value with
    | none => simp [hv] at h
    | some v =>
      simp only [hv] at h
      split_ifs at h with h3
      cases h
      rw [memcpy_length _ _ _ _, hb]
      simp only [List.length_take, List.length_drop, SysinfoLayout.outside, Bool.or_eq_true,
        decide_eq_true_eq, not_or, hb] at *
      omega

theorem mergeAll_length {start length : ℕ} {layouts : List SysinfoLayout} {buf buf' : List UInt8}
    (hb : buf.length = length) (h : layouts.foldlM (mergeLayout start length) buf = some buf') :
    buf'.length = length := by
  induction layouts generalizing buf with
  | nil => cases h; exact hb
  | cons l layouts ih =>
    rw [List.foldlM_cons] at h
    obtain ⟨b, h1, h2⟩ := Option.bind_eq_some_iff.mp h
    exact ih (mergeLayout_length hb h1) h2

theorem merge_length {layouts : List SysinfoLayout} {buf buf' : List UInt8} {offset length : ℕ}
    (hb : buf.length = length) (h : sysinfoTraversalMerge layouts buf offset length = some buf') :
    buf'.length = length := by
  unfold sysinfoTraversalMerge at h
  split_ifs at h with h1
  · cases h; exact hb
  · exact mergeAll_length hb h

theorem merge_outside {layouts : List SysinfoLayout} {buf : List UInt8} {offset length : ℕ}
    (h : ∀ l ∈ layouts, l.reserve = .reserved → SysinfoLayout.outside l offset (offset + length) = true) :
    sysinfoTraversalMerge layouts buf offset length = some buf := by
  unfold sysinfoTraversalMerge
  split_ifs with hlast
  · rfl
  · clear hlast
    induction layouts with
    | nil => rfl
    | cons l layouts ih =>
      have hl : mergeLayout offset length buf l = some buf := by
        unfold mergeLayout
        split_ifs with h1 h2
        · rfl
        · rfl
        · exact absurd (h l (by simp) (not_ne_iff.mp h1)) h2
      rw [List.foldlM_cons, hl]
      exact ih (fun l hl => h l (by simp [hl]))

theorem memcpy_getElem? {buf : List UInt8} {at_ : ℕ} {bs : List UInt8} (h : at_ + bs.length ≤ buf.length)
    (j : ℕ) : (memcpy buf at_ bs)[j]? = if at_ ≤ j ∧ j < at_ + bs.length then bs[j - at_]? else buf[j]? := by
  have hat : (buf.take at_).length = at_ := by simp; omega
  unfold memcpy
  rw [List.append_assoc, List.getElem?_append, hat]
  split_ifs with h1 h2 h2
  · omega
  · rw [List.getElem?_take, if_pos h1]
  · rw [List.getElem?_append, if_pos (by omega)]
  · rw [List.getElem?_append, if_neg (by omega), List.getElem?_drop]
    congr 1
    omega

theorem mergeLayout_own {start length : ℕ} {buf buf' v : List UInt8} {l : SysinfoLayout}
    (hb : buf.length = length) (h : mergeLayout start length buf l = some buf') (hr : l.reserve = .reserved)
    (hv : l.value = some v) (hvl : v.length = l.length) {x : ℕ} (h1 : start ≤ x) (h2 : x < start + length)
    (h3 : l.offset ≤ x) (h4 : x < l.offset + l.length) : buf'[x - start]? = v[x - l.offset]? := by
  have hout : ¬SysinfoLayout.outside l start (start + length) = true := by
    simp only [SysinfoLayout.outside, Bool.or_eq_true, decide_eq_true_eq]
    omega
  unfold mergeLayout at h
  rw [if_neg (by simp [hr]), if_neg hout] at h
  simp only [hv] at h
  split_ifs at h with h0
  cases h
  have hlen : ((v.drop (start - l.offset)).take
      (min (start + length) (l.offset + l.length) - max l.offset start)).length =
        min (start + length) (l.offset + l.length) - max l.offset start := by
    rw [List.length_take, List.length_drop]
    omega
  rw [memcpy_getElem? (by omega), if_pos (by omega), List.getElem?_take, if_pos (by omega), List.getElem?_drop]
  congr 1
  omega

theorem mergeLayout_other {start length : ℕ} {buf buf' : List UInt8} {l : SysinfoLayout}
    (hb : buf.length = length) (h : mergeLayout start length buf l = some buf') {x : ℕ} (h1 : start ≤ x)
    (h3 : x < l.offset ∨ l.offset + l.length ≤ x) : buf'[x - start]? = buf[x - start]? := by
  unfold mergeLayout at h
  split_ifs at h with hr hout
  · cases h; rfl
  · cases h; rfl
  · simp only [SysinfoLayout.outside, Bool.or_eq_true, decide_eq_true_eq] at hout
    split at h
    · cases h
    · rename_i v _
      dsimp only at h
      split_ifs at h
      cases h
      have hlen : ((v.drop (start - l.offset)).take
          (min (start + length) (l.offset + l.length) - max l.offset start)).length ≤
            min (start + length) (l.offset + l.length) - max l.offset start := List.length_take_le _ _
      rw [memcpy_getElem? (by omega), if_neg (by omega)]

theorem mergeAll_other {start length : ℕ} {layouts : List SysinfoLayout} {buf buf' : List UInt8}
    (hb : buf.length = length) (h : layouts.foldlM (mergeLayout start length) buf = some buf') {x : ℕ}
    (h1 : start ≤ x) (h3 : ∀ l ∈ layouts, x < l.offset ∨ l.offset + l.length ≤ x) :
    buf'[x - start]? = buf[x - start]? := by
  induction layouts generalizing buf with
  | nil => cases h; rfl
  | cons l layouts ih =>
    rw [List.foldlM_cons] at h
    obtain ⟨b, hl, hrest⟩ := Option.bind_eq_some_iff.mp h
    rw [ih (mergeLayout_length hb hl) hrest (fun l hl => h3 l (by simp [hl])),
      mergeLayout_other hb hl h1 (h3 l (by simp))]

def DisjointLayouts (layouts : List SysinfoLayout) : Prop :=
  layouts.Pairwise (fun a b => a.offset + a.length ≤ b.offset)

theorem merge_reserved {layouts : List SysinfoLayout} {buf buf' v : List UInt8} {start length : ℕ}
    {l : SysinfoLayout} (hd : DisjointLayouts layouts) (hl : l ∈ layouts) (hb : buf.length = length)
    (h : sysinfoTraversalMerge layouts buf start length = some buf') (hr : l.reserve = .reserved)
    (hv : l.value = some v) (hvl : v.length = l.length) {x : ℕ} (h1 : start ≤ x) (h2 : x < start + length)
    (h3 : l.offset ≤ x) (h4 : x < l.offset + l.length) : buf'[x - start]? = v[x - l.offset]? := by
  obtain ⟨before, after, rfl⟩ := List.append_of_mem hl
  have hafter := (List.pairwise_append.mp hd).2.1
  rw [List.pairwise_cons] at hafter
  unfold sysinfoTraversalMerge at h
  split_ifs at h with hlast
  · exfalso
    rw [List.getLast?_append, List.getLast?_cons, Option.some_or, Option.any_some, decide_eq_true_eq] at hlast
    cases hg : after.getLast? with
    | none =>
      rw [hg, Option.getD_none] at hlast
      omega
    | some last =>
      rw [hg, Option.getD_some] at hlast
      have := hafter.1 last (List.mem_of_mem_getLast? hg)
      omega
  · rw [List.foldlM_append] at h
    obtain ⟨b, hbefore, hrest⟩ := Option.bind_eq_some_iff.mp h
    rw [List.foldlM_cons] at hrest
    obtain ⟨b', hown, hrest⟩ := Option.bind_eq_some_iff.mp hrest
    have hlen := mergeAll_length hb hbefore
    rw [mergeAll_other (mergeLayout_length hlen hown) hrest h1 (fun l' hl' => .inl ?_),
      mergeLayout_own hlen hown hr hv hvl h1 h2 h3 h4]
    have := hafter.1 l' hl'
    omega

end LinuxRecovery.Sysinfo
