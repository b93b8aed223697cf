import Mathlib

namespace LinuxRecovery.Drawing

def u32 (n : ℕ) : ℕ := n % 2 ^ 32

structure Channel where
  length : ℕ
  offset : ℕ

/-- The screen; its frame buffer has rows of `width * bytesPerPixel` bytes, and a length of 32 bits. -/
structure Screen where
  fbWidth : ℕ
  fbHeight : ℕ
  fbBytesPerPixel : ℕ
  bytes_pos : 0 < fbBytesPerPixel
  fits : fbHeight * fbWidth * fbBytesPerPixel < 2 ^ 32
  red : Channel
  green : Channel
  blue : Channel
  alpha : Channel

structure Surface where
  width : ℕ
  height : ℕ
  rawData : List UInt8
  whole : rawData.length = 4 * (width * height)
  fits : 4 * (width * height) < 2 ^ 32

abbrev Frame : Type := ℕ → Option UInt8

variable (s : Screen) (surface : Surface)

def outside (posX posY : ℕ) : Bool := s.fbHeight ≤ posY || s.fbWidth ≤ posX

def Channel.place (c : Channel) (value : UInt8) : ℕ := (value.toNat >>> (8 - c.length)) <<< c.offset

def makePixel (red green blue alpha : UInt8) : ℕ :=
  u32 (s.red.place red ||| s.green.place green ||| s.blue.place blue ||| s.alpha.place alpha)

def fbBitsPerPixel : ℕ := 8 * s.fbBytesPerPixel

def putByte (pixel pos : ℕ) (buf : Frame) (x : ℕ) : Frame :=
  Function.update buf (u32 (u32 (s.fbBytesPerPixel * pos) + x))
    (some (UInt8.ofNat (pixel >>> (fbBitsPerPixel s - (s.fbBytesPerPixel - x) * 8))))

def drawPoint (posX posY i j : ℕ) (buf : Frame) : Frame :=
  let raw := fun c => surface.rawData.getD (u32 (4 * (j + surface.width * i) + c)) 0
  let pos := u32 (u32 (i + posY) * s.fbWidth + j + posX)
  let pixel := makePixel s (raw 0) (raw 1) (raw 2) (raw 3)
  (List.range s.fbBytesPerPixel).foldl (putByte s pixel pos) buf

def drawColumns (posX posY i : ℕ) : ℕ → ℕ → Frame → Frame
  | 0, _, buf => buf
  | n + 1, j, buf =>
    if s.fbWidth ≤ j ∨ s.fbWidth < u32 (j + posX) then buf
    else drawColumns posX posY i n (j + 1) (drawPoint s surface posX posY i j buf)

def drawRows (posX posY : ℕ) : ℕ → ℕ → Frame → Frame
  | 0, _, buf => buf
  | n + 1, i, buf =>
    if s.fbHeight ≤ i ∨ s.fbHeight < u32 (i + posY) then buf
    else drawRows posX posY n (i + 1) (drawColumns s surface posX posY i surface.width 0 buf)

def drawPng (posX posY : ℕ) (buf : Frame) : ℤ × Frame :=
  if outside s posX posY then (-1, buf)
  else (0, drawRows s surface posX posY surface.height 0 buf)

def byteOf (x y k : ℕ) : ℕ := s.fbBytesPerPixel * (y * s.fbWidth + x) + k

def imagePixel (u v : ℕ) : ℕ :=
  let raw := fun c => surface.rawData.getD (4 * (v * surface.width + u) + c) 0
  makePixel s (raw 0) (raw 1) (raw 2) (raw 3)

structure Covers (posX posY x y : ℕ) : Prop where
  left : posX ≤ x
  right : x < min (posX + surface.width) s.fbWidth
  top : posY ≤ y
  bottom : y < min (posY + surface.height) s.fbHeight

/-- Exactly the pixels that the image covers are written, each with the value of its point. -/
structure Clips (posX posY : ℕ) : Prop where
  drawn : ∀ x y k, Covers s surface posX posY x y → k < s.fbBytesPerPixel →
    (drawPng s surface posX posY (fun _ => none)).2 (byteOf s x y k) =
      some (UInt8.ofNat (imagePixel s surface (x - posX) (y - posY) >>> (8 * k)))
  only : ∀ a, (drawPng s surface posX posY (fun _ => none)).2 a ≠ none →
    ∃ x y k, Covers s surface posX posY x y ∧ k < s.fbBytesPerPixel ∧ a = byteOf s x y k

def span (stop : ℕ → Bool) : ℕ → ℕ → ℕ
  | 0, _ => 0
  | n + 1, k => if stop k then 0 else span stop n (k + 1) + 1

def stops (edge pos k : ℕ) : Bool := edge ≤ k || edge < u32 (k + pos)

theorem stops_iff (edge pos k : ℕ) : stops edge pos k = true ↔ edge ≤ k ∨ edge < u32 (k + pos) := by simp [stops]

theorem span_le (stop : ℕ → Bool) (n k : ℕ) : span stop n k ≤ n := by
  induction n generalizing k with
  | zero => exact le_rfl
  | succ n ih =>
    rw [span]
    split_ifs
    · exact Nat.zero_le _
    · exact Nat.succ_le_succ (ih _)

theorem span_go {stop : ℕ → Bool} {n k m : ℕ} (h : m < span stop n k) : stop (k + m) = false := by
  induction n generalizing k m with
  | zero => exact absurd h (Nat.not_lt_zero m)
  | succ n ih =>
    rw [span] at h
    split_ifs at h with hs
    · exact absurd h (Nat.not_lt_zero m)
    · cases m with
      | zero => simpa using hs
      | succ m =>
        have := ih (show m < span stop n (k + 1) by omega)
        rwa [show k + (m + 1) = k + 1 + m by omega]

theorem span_stop {stop : ℕ → Bool} {n k : ℕ} (h : span stop n k < n) : stop (k + span stop n k) = true := by
  induction n generalizing k with
  | zero => exact absurd h (Nat.not_lt_zero _)
  | succ n ih =>
    rw [span] at h ⊢
    split_ifs at h ⊢ with hs
    · exact hs
    · have := ih (show span stop n (k + 1) < n by omega)
      rwa [show k + (span stop n (k + 1) + 1) = k + 1 + span stop n (k + 1) by omega]

section Edge

variable {edge pos n : ℕ}

theorem span_inside (hpos : pos < edge) (hedge : edge < 2 ^ 32) (h : pos = 0 ∨ pos + n ≤ edge) :
    span (stops edge pos) n 0 = min n (edge - pos) := by
  have hle := span_le (stops edge pos) n 0
  have hupper : span (stops edge pos) n 0 ≤ edge - pos := by
    by_contra hlt
    rcases h with rfl | h
    · have := span_go (show edge < span (stops edge 0) n 0 by omega)
      simp [stops] at this
    · omega
  by_cases hn : span (stops edge pos) n 0 < n
  · have hstop := span_stop hn
    generalize span (stops edge pos) n 0 = m at *
    rw [stops_iff, u32] at hstop
    have := Nat.mod_le (0 + m + pos) (2 ^ 32)
    omega
  · omega

theorem span_beyond (hpos : pos < edge) (hedge : edge < 2 ^ 32) (h0 : 0 < pos) (h : edge < pos + n) :
    edge - pos < span (stops edge pos) n 0 := by
  by_contra hlt
  have hstop := span_stop (show span (stops edge pos) n 0 < n by omega)
  generalize span (stops edge pos) n 0 = m at *
  rw [stops_iff, u32] at hstop
  rw [Nat.mod_eq_of_lt (by omega)] at hstop
  omega

theorem span_pos (hpos : pos < edge) (hedge : edge < 2 ^ 32) (h : 0 < n) : 0 < span (stops edge pos) n 0 := by
  by_contra hlt
  have hstop := span_stop (show span (stops edge pos) n 0 < n by omega)
  generalize span (stops edge pos) n 0 = m at *
  rw [stops_iff, u32] at hstop
  rw [Nat.mod_eq_of_lt (by omega)] at hstop
  omega

end Edge

def put (buf : Frame) (w : ℕ × UInt8) : Frame := Function.update buf w.1 (some w.2)

section Writes

variable {ws : List (ℕ × UInt8)} {buf : Frame} {a : ℕ}

theorem written_out (h : ∀ w ∈ ws, w.1 ≠ a) : ws.foldl put buf a = buf a := by
  induction ws generalizing buf with
  | nil => rfl
  | cons w ws ih =>
    rw [List.forall_mem_cons] at h
    rw [List.foldl_cons, ih h.2, put, Function.update_of_ne (Ne.symm h.1)]

theorem written_in (h : ∃ w ∈ ws, w.1 = a) : ∃ w ∈ ws, w.1 = a ∧ ws.foldl put buf a = some w.2 := by
  induction ws generalizing buf with
  | nil =>
    obtain ⟨w, hw, -⟩ := h
    cases hw
  | cons w ws ih =>
    by_cases hlater : ∃ w ∈ ws, w.1 = a
    · obtain ⟨v, hv, hva, hval⟩ := @ih (put buf w) hlater
      exact ⟨v, List.mem_cons_of_mem _ hv, hva, hval⟩
    · obtain ⟨v, hv, hva⟩ := h
      have hvw : v = w := (List.mem_cons.mp hv).resolve_right (fun hm => hlater ⟨v, hm, hva⟩)
      subst hvw
      refine ⟨v, List.mem_cons_self, hva, ?_⟩
      rw [List.foldl_cons, written_out (fun w hw hwa => hlater ⟨w, hw, hwa⟩), put, ← hva, Function.update_self]

end Writes

def pointWrite (posX posY i j k : ℕ) : ℕ × UInt8 :=
  let raw := fun c => surface.rawData.getD (u32 (4 * (j + surface.width * i) + c)) 0
  let pos := u32 (u32 (i + posY) * s.fbWidth + j + posX)
  (u32 (u32 (s.fbBytesPerPixel * pos) + k),
    UInt8.ofNat (makePixel s (raw 0) (raw 1) (raw 2) (raw 3) >>>
      (fbBitsPerPixel s - (s.fbBytesPerPixel - k) * 8)))

def pointWrites (posX posY i j : ℕ) : List (ℕ × UInt8) :=
  (List.range s.fbBytesPerPixel).map (pointWrite s surface posX posY i j)

def rowWrites (posX posY i : ℕ) : List (ℕ × UInt8) :=
  (List.range (span (stops s.fbWidth posX) surface.width 0)).flatMap (pointWrites s surface posX posY i)

def pngWrites (posX posY : ℕ) : List (ℕ × UInt8) :=
  (List.range (span (stops s.fbHeight posY) surface.height 0)).flatMap (rowWrites s surface posX posY)

section Loops

variable (posX posY : ℕ)

theorem drawPoint_eq (i j : ℕ) (buf : Frame) :
    drawPoint s surface posX posY i j buf = (pointWrites s surface posX posY i j).foldl put buf := by
  unfold drawPoint pointWrites
  rw [List.foldl_map]
  rfl

theorem drawColumns_eq (i n j : ℕ) (buf : Frame) : drawColumns s surface posX posY i n j buf =
    ((List.range' j (span (stops s.fbWidth posX) n j)).flatMap (pointWrites s surface posX posY i)).foldl put buf := by
  induction n generalizing j buf with
  | zero => rfl
  | succ n ih =>
    have hstops := stops_iff s.fbWidth posX j
    rw [drawColumns, span]
    by_cases h : s.fbWidth ≤ j ∨ s.fbWidth < u32 (j + posX)
    · rw [if_pos h, if_pos (hstops.mpr h)]
      rfl
    · rw [if_neg h, if_neg (hstops.not.mpr h), ih, drawPoint_eq, List.range'_succ, List.flatMap_cons,
        List.foldl_append]

theorem drawRows_eq (n i : ℕ) (buf : Frame) : drawRows s surface posX posY n i buf =
    ((List.range' i (span (stops s.fbHeight posY) n i)).flatMap (rowWrites s surface posX posY)).foldl put buf := by
  induction n generalizing i buf with
  | zero => rfl
  | succ n ih =>
    have hstops := stops_iff s.fbHeight posY i
    rw [drawRows, span]
    by_cases h : s.fbHeight ≤ i ∨ s.fbHeight < u32 (i + posY)
    · rw [if_pos h, if_pos (hstops.mpr h)]
      rfl
    · rw [if_neg h, if_neg (hstops.not.mpr h), ih, drawColumns_eq, List.range'_succ, List.flatMap_cons,
        List.foldl_append, rowWrites, List.range_eq_range']

theorem drawPng_eq (h : outside s posX posY = false) (buf : Frame) :
    (drawPng s surface posX posY buf).2 = (pngWrites s surface posX posY).foldl put buf := by
  rw [drawPng, if_neg (by simp [h]), drawRows_eq, ← List.range_eq_range']
  rfl

end Loops

section Screen

variable {s surface} {posX posY : ℕ}

theorem byteOf_lt {x y k : ℕ} (hx : x < s.fbWidth) (hy : y < s.fbHeight) (hk : k < s.fbBytesPerPixel) :
    byteOf s x y k < s.fbHeight * s.fbWidth * s.fbBytesPerPixel := by
  have hpos : y * s.fbWidth + x + 1 ≤ s.fbHeight * s.fbWidth := by
    calc y * s.fbWidth + x + 1 ≤ y * s.fbWidth + s.fbWidth := by omega
      _ = (y + 1) * s.fbWidth := by ring
      _ ≤ s.fbHeight * s.fbWidth := Nat.mul_le_mul_right _ hy
  calc byteOf s x y k < s.fbBytesPerPixel * (y * s.fbWidth + x + 1) := by
        rw [byteOf, Nat.mul_succ]
        omega
    _ ≤ s.fbBytesPerPixel * (s.fbHeight * s.fbWidth) := Nat.mul_le_mul_left _ hpos
    _ = s.fbHeight * s.fbWidth * s.fbBytesPerPixel := by ring

theorem byteOf_inj {p p' k k' : ℕ} (hk : k < s.fbBytesPerPixel) (hk' : k' < s.fbBytesPerPixel)
    (h : s.fbBytesPerPixel * p + k = s.fbBytesPerPixel * p' + k') : p = p' ∧ k = k' := by
  have hb := s.bytes_pos
  have hdiv : ∀ q r, r < s.fbBytesPerPixel → (s.fbBytesPerPixel * q + r) / s.fbBytesPerPixel = q := by
    intro q r hr
    rw [Nat.mul_add_div hb, Nat.div_eq_of_lt hr, Nat.add_zero]
  have hp : p = p' := by rw [← hdiv p k hk, h, hdiv p' k' hk']
  subst hp
  exact ⟨rfl, by omega⟩

theorem pixel_inj {x y x' y' : ℕ} (hx : x < s.fbWidth) (hx' : x' < s.fbWidth)
    (h : y * s.fbWidth + x = y' * s.fbWidth + x') : x = x' ∧ y = y' := by
  have hw : 0 < s.fbWidth := by omega
  have hdiv : ∀ a b, b < s.fbWidth → (a * s.fbWidth + b) / s.fbWidth = a := by
    intro a b hb
    rw [Nat.mul_comm, Nat.mul_add_div hw, Nat.div_eq_of_lt hb, Nat.add_zero]
  have hy : y = y' := by rw [← hdiv y x hx, h, hdiv y' x' hx']
  subst hy
  exact ⟨by omega, rfl⟩

theorem mem_pngWrites {w : ℕ × UInt8} : w ∈ pngWrites s surface posX posY ↔
    ∃ i < span (stops s.fbHeight posY) surface.height 0, ∃ j < span (stops s.fbWidth posX) surface.width 0,
      w ∈ pointWrites s surface posX posY i j := by
  simp [pngWrites, rowWrites, List.mem_flatMap]

theorem mem_pointWrites {i j : ℕ} {w : ℕ × UInt8} : w ∈ pointWrites s surface posX posY i j ↔
    ∃ k < s.fbBytesPerPixel, w = pointWrite s surface posX posY i j k := by
  unfold pointWrites
  simp only [List.mem_map, List.mem_range]
  exact ⟨fun ⟨k, hk, h⟩ => ⟨k, hk, h.symm⟩, fun ⟨k, hk, h⟩ => ⟨k, hk, h.symm⟩⟩

theorem pointWrite_address {i j k : ℕ} (hi : i + posY < 2 ^ 32) :
    (pointWrite s surface posX posY i j k).1 = u32 (byteOf s (j + posX) (i + posY) k) := by
  have hrow : u32 (i + posY) = i + posY := Nat.mod_eq_of_lt hi
  show u32 (u32 (s.fbBytesPerPixel * u32 (u32 (i + posY) * s.fbWidth + j + posX)) + k) = _
  rw [hrow, byteOf, ← Nat.add_assoc]
  simp only [u32, Nat.mul_mod_mod, Nat.mod_add_mod]

theorem pointWrite_value {i j k : ℕ} (hi : i < surface.height) (hj : j < surface.width) (hk : k < s.fbBytesPerPixel) :
    (pointWrite s surface posX posY i j k).2 = UInt8.ofNat (imagePixel s surface j i >>> (8 * k)) := by
  have hindex : ∀ c < 4, u32 (4 * (j + surface.width * i) + c) = 4 * (i * surface.width + j) + c := by
    intro c hc
    have hle : i * surface.width + j + 1 ≤ surface.width * surface.height := by
      calc i * surface.width + j + 1 ≤ i * surface.width + surface.width := by omega
        _ = (i + 1) * surface.width := by ring
        _ ≤ surface.height * surface.width := Nat.mul_le_mul_right _ hi
        _ = surface.width * surface.height := Nat.mul_comm _ _
    have hfits := surface.fits
    rw [u32, Nat.mod_eq_of_lt (by rw [Nat.mul_comm surface.width i]; omega), Nat.mul_comm surface.width i,
      Nat.add_comm j]
  have hshift : fbBitsPerPixel s - (s.fbBytesPerPixel - k) * 8 = 8 * k := by
    rw [fbBitsPerPixel]
    omega
  show UInt8.ofNat (makePixel s _ _ _ _ >>> _) = _
  dsimp only
  rw [hshift, hindex 0 (by omega), hindex 1 (by omega), hindex 2 (by omega), hindex 3 (by omega)]
  rfl

def Inside (s : Screen) (surface : Surface) (posX posY : ℕ) : Prop :=
  (posX = 0 ∨ posX + surface.width ≤ s.fbWidth) ∧ (posY = 0 ∨ posY + surface.height ≤ s.fbHeight)

theorem width_lt (hx : posX < s.fbWidth) (hy : posY < s.fbHeight) : s.fbWidth < 2 ^ 32 ∧ s.fbHeight < 2 ^ 32 := by
  have hfits := s.fits
  have hb := s.bytes_pos
  have hw : 0 < s.fbWidth := by omega
  have hh : 0 < s.fbHeight := by omega
  have hpixels : s.fbHeight * s.fbWidth ≤ s.fbHeight * s.fbWidth * s.fbBytesPerPixel := Nat.le_mul_of_pos_right _ hb
  have h₁ : s.fbWidth ≤ s.fbHeight * s.fbWidth := Nat.le_mul_of_pos_left _ hh
  have h₂ : s.fbHeight ≤ s.fbHeight * s.fbWidth := Nat.le_mul_of_pos_right _ hw
  omega

theorem clips_inside (hx : posX < s.fbWidth) (hy : posY < s.fbHeight) (h : Inside s surface posX posY) :
    Clips s surface posX posY := by
  obtain ⟨hwidth, hheight⟩ := width_lt hx hy
  have hout : outside s posX posY = false := by simp [outside, hx, hy]
  have hcolumns := span_inside hx hwidth h.1
  have hrows := span_inside hy hheight h.2
  have haddress : ∀ i j k, i + posY < s.fbHeight → j + posX < s.fbWidth → k < s.fbBytesPerPixel →
      (pointWrite s surface posX posY i j k).1 = byteOf s (j + posX) (i + posY) k := by
    intro i j k hi hj hk
    have hlt := byteOf_lt hj hi hk
    have hfits := s.fits
    rw [pointWrite_address (by omega), u32, Nat.mod_eq_of_lt (by omega)]
  have hmem : ∀ w ∈ pngWrites s surface posX posY, ∃ i j k, i < surface.height ∧ j < surface.width ∧
      i + posY < s.fbHeight ∧ j + posX < s.fbWidth ∧ k < s.fbBytesPerPixel ∧
      w = pointWrite s surface posX posY i j k := by
    intro w hw
    obtain ⟨i, hi, j, hj, hw⟩ := mem_pngWrites.mp hw
    obtain ⟨k, hk, rfl⟩ := mem_pointWrites.mp hw
    exact ⟨i, j, k, by omega, by omega, by omega, by omega, hk, rfl⟩
  constructor
  · rintro x y k hcovers hk
    obtain ⟨hleft, hright, htop, hbottom⟩ := hcovers
    rw [lt_min_iff] at hright hbottom
    rw [drawPng_eq s surface posX posY hout]
    have hwrite : ∃ w ∈ pngWrites s surface posX posY, w.1 = byteOf s x y k := by
      refine ⟨pointWrite s surface posX posY (y - posY) (x - posX) k, ?_, ?_⟩
      · exact mem_pngWrites.mpr ⟨y - posY, by omega, x - posX, by omega, mem_pointWrites.mpr ⟨k, hk, rfl⟩⟩
      · rw [haddress _ _ _ (by omega) (by omega) hk, Nat.sub_add_cancel hleft, Nat.sub_add_cancel htop]
    obtain ⟨w, hw, hwa, hval⟩ := @written_in _ (fun _ => none) _ hwrite
    obtain ⟨i, j, k', hi, hj, hiy, hjx, hk', rfl⟩ := hmem w hw
    rw [haddress i j k' hiy hjx hk'] at hwa
    obtain ⟨hpixel, rfl⟩ := byteOf_inj hk' hk hwa
    obtain ⟨rfl, rfl⟩ := pixel_inj hjx hright.2 hpixel
    rw [hval, pointWrite_value hi hj hk', Nat.add_sub_cancel, Nat.add_sub_cancel]
  · intro a ha
    rw [drawPng_eq s surface posX posY hout] at ha
    by_cases hw : ∃ w ∈ pngWrites s surface posX posY, w.1 = a
    · obtain ⟨w, hw, rfl⟩ := hw
      obtain ⟨i, j, k, hi, hj, hiy, hjx, hk, rfl⟩ := hmem w hw
      exact ⟨j + posX, i + posY, k, ⟨by omega, by omega, by omega, by omega⟩, hk, haddress i j k hiy hjx hk⟩
    · exact absurd (written_out (fun w hwm hwa => hw ⟨w, hwm, hwa⟩)) ha

theorem Clips.writes (h : Clips s surface posX posY) (hout : outside s posX posY = false) {w : ℕ × UInt8}
    (hw : w ∈ pngWrites s surface posX posY) :
    ∃ x y k, Covers s surface posX posY x y ∧ k < s.fbBytesPerPixel ∧ w.1 = byteOf s x y k := by
  refine h.only w.1 ?_
  rw [drawPng_eq s surface posX posY hout]
  obtain ⟨v, -, -, hval⟩ := @written_in _ (fun _ => none) _ ⟨w, hw, rfl⟩
  rw [hval]
  exact Option.some_ne_none _

theorem Clips.right (h : Clips s surface posX posY) (hx : posX < s.fbWidth) (hy : posY < s.fbHeight)
    (hh : 0 < surface.height) : posX = 0 ∨ posX + surface.width ≤ s.fbWidth := by
  by_contra hc
  obtain ⟨hwidth, hheight⟩ := width_lt hx hy
  have hout : outside s posX posY = false := by simp [outside, hx, hy]
  have hb := s.bytes_pos
  -- the column behind the last one is the first of the next row
  have hw : pointWrite s surface posX posY 0 (s.fbWidth - posX) 0 ∈ pngWrites s surface posX posY :=
    mem_pngWrites.mpr ⟨0, span_pos hy hheight hh, s.fbWidth - posX, span_beyond hx hwidth (by omega) (by omega),
      mem_pointWrites.mpr ⟨0, hb, rfl⟩⟩
  obtain ⟨x, y, k, hcovers, hk, ha⟩ := h.writes hout hw
  obtain ⟨hleft, hright, htop, hbottom⟩ := hcovers
  rw [lt_min_iff] at hright
  have hlast : byteOf s s.fbWidth posY 0 ≤ s.fbHeight * s.fbWidth * s.fbBytesPerPixel := by
    calc byteOf s s.fbWidth posY 0 = (posY + 1) * s.fbWidth * s.fbBytesPerPixel := by
          rw [byteOf]
          ring
      _ ≤ s.fbHeight * s.fbWidth * s.fbBytesPerPixel :=
          Nat.mul_le_mul_right _ (Nat.mul_le_mul_right _ hy)
  have hfits := s.fits
  rw [pointWrite_address (by omega), Nat.sub_add_cancel hx.le, Nat.zero_add, u32, Nat.mod_eq_of_lt (by omega)] at ha
  obtain ⟨hpixel, -⟩ := byteOf_inj hb hk ha
  have hnext : (posY + 1) * s.fbWidth + 0 = y * s.fbWidth + x := by rw [← hpixel]; ring
  have := (pixel_inj (show 0 < s.fbWidth by omega) hright.2 hnext).1
  omega

theorem Clips.bottom (h : Clips s surface posX posY) (hx : posX < s.fbWidth) (hy : posY < s.fbHeight)
    (hw : 0 < surface.width) : posY = 0 ∨ posY + surface.height ≤ s.fbHeight := by
  by_contra hc
  obtain ⟨hwidth, hheight⟩ := width_lt hx hy
  have hout : outside s posX posY = false := by simp [outside, hx, hy]
  have hb := s.bytes_pos
  -- the row behind the last one lies behind the buffer
  have hmem : pointWrite s surface posX posY (s.fbHeight - posY) 0 0 ∈ pngWrites s surface posX posY :=
    mem_pngWrites.mpr ⟨s.fbHeight - posY, span_beyond hy hheight (by omega) (by omega), 0,
      span_pos hx hwidth hw, mem_pointWrites.mpr ⟨0, hb, rfl⟩⟩
  obtain ⟨x, y, k, hcovers, hk, ha⟩ := h.writes hout hmem
  obtain ⟨hleft, hright, htop, hbottom⟩ := hcovers
  rw [lt_min_iff] at hright hbottom
  rw [pointWrite_address (by omega), Nat.sub_add_cancel hy.le, Nat.zero_add] at ha
  have hin := byteOf_lt hright.2 hbottom.2 hk
  have hfirst : byteOf s posX s.fbHeight 0 = s.fbHeight * s.fbWidth * s.fbBytesPerPixel + s.fbBytesPerPixel * posX := by
    rw [byteOf]
    ring
  have hrow : s.fbBytesPerPixel * posX < s.fbBytesPerPixel * s.fbWidth := Nat.mul_lt_mul_of_pos_left hx hb
  have hsecond : s.fbBytesPerPixel * s.fbWidth ≤ byteOf s x y k := by
    calc s.fbBytesPerPixel * s.fbWidth ≤ s.fbBytesPerPixel * (y * s.fbWidth) :=
          Nat.mul_le_mul_left _ (Nat.le_mul_of_pos_left _ (by omega))
      _ ≤ byteOf s x y k := by
          rw [byteOf, Nat.mul_add]
          omega
  have hfits := s.fits
  have hsize : s.fbBytesPerPixel * s.fbWidth ≤ s.fbHeight * s.fbWidth * s.fbBytesPerPixel := by
    rw [Nat.mul_comm s.fbBytesPerPixel]
    exact Nat.mul_le_mul_right _ (Nat.le_mul_of_pos_left _ (by omega))
  rw [hfirst, u32] at ha
  omega

/-- An image is clipped to the screen exactly when it begins outside, is empty, or at each edge ends inside or
begins at zero. -/
theorem clips_iff (s : Screen) (surface : Surface) (posX posY : ℕ) : Clips s surface posX posY ↔
    s.fbWidth ≤ posX ∨ s.fbHeight ≤ posY ∨ surface.width = 0 ∨ surface.height = 0 ∨
      Inside s surface posX posY := by
  by_cases hx : s.fbWidth ≤ posX
  · refine ⟨fun _ => .inl hx, fun _ => ⟨?_, ?_⟩⟩
    · rintro x y k ⟨hleft, hright, -, -⟩
      rw [lt_min_iff] at hright
      omega
    · intro a ha
      rw [drawPng, if_pos (by simp [outside, hx])] at ha
      exact absurd rfl ha
  by_cases hy : s.fbHeight ≤ posY
  · refine ⟨fun _ => .inr (.inl hy), fun _ => ⟨?_, ?_⟩⟩
    · rintro x y k ⟨-, -, htop, hbottom⟩
      rw [lt_min_iff] at hbottom
      omega
    · intro a ha
      rw [drawPng, if_pos (by simp [outside, hy])] at ha
      exact absurd rfl ha
  rw [not_le] at hx hy
  by_cases hempty : surface.width = 0 ∨ surface.height = 0
  · refine ⟨fun _ => by tauto, fun _ => ⟨?_, ?_⟩⟩
    · rintro x y k ⟨hleft, hright, htop, hbottom⟩
      rw [lt_min_iff] at hright hbottom
      omega
    · intro a ha
      rw [drawPng_eq s surface posX posY (by simp [outside, hx, hy])] at ha
      refine absurd (written_out ?_) ha
      intro w hw
      obtain ⟨i, hi, j, hj, -⟩ := mem_pngWrites.mp hw
      have := span_le (stops s.fbHeight posY) surface.height 0
      have := span_le (stops s.fbWidth posX) surface.width 0
      omega
  rw [not_or] at hempty
  constructor
  · intro h
    exact .inr (.inr (.inr (.inr ⟨h.right hx hy (by omega), h.bottom hx hy (by omega)⟩)))
  · rintro (h | h | h | h | h)
    · omega
    · omega
    · exact absurd h hempty.1
    · exact absurd h hempty.2
    · exact clips_inside hx hy h

end Screen

theorem smallScreen_fits : 2 * 2 * 1 < 2 ^ 32 := by decide

def smallScreen : Screen := ⟨2, 2, 1, Nat.one_pos, smallScreen_fits, ⟨3, 5⟩, ⟨3, 2⟩, ⟨2, 0⟩, ⟨0, 0⟩⟩

theorem smallImage_fits : 4 * (2 * 1) < 2 ^ 32 := by decide

def smallImage : Surface := ⟨2, 1, List.replicate 8 255, List.length_replicate, smallImage_fits⟩

/-- The image passes the right edge in the last row, and the byte behind the buffer is written. -/
theorem overshoot : (drawPng smallScreen smallImage 1 1 (fun _ => none)).2 4 = some 255 ∧
    ¬Clips smallScreen smallImage 1 1 := by
  have hwritten : (drawPng smallScreen smallImage 1 1 (fun _ => none)).2 4 = some 255 := by decide
  refine ⟨hwritten, fun h => ?_⟩
  obtain ⟨x, y, k, ⟨-, hright, -, hbottom⟩, hk, ha⟩ := h.only 4 (by rw [hwritten]; exact Option.some_ne_none _)
  rw [lt_min_iff] at hright hbottom
  have hx : x < 2 := hright.2
  have hy : y < 2 := hbottom.2
  have hk : k < 1 := hk
  have ha : 4 = 1 * (y * 2 + x) + k := ha
  omega

end LinuxRecovery.Drawing
