import LinuxRecovery.Sha1

namespace LinuxRecovery.Sha1Standard

open BlockStream Sha1

section Standard

def roundFunction (t : ℕ) (x y z : UInt32) : UInt32 :=
  if t < 20 then (x &&& y) ^^^ (~~~x &&& z)
  else if t < 40 then x ^^^ y ^^^ z
  else if t < 60 then (x &&& y) ^^^ (x &&& z) ^^^ (y &&& z)
  else x ^^^ y ^^^ z

def roundConstant (t : ℕ) : UInt32 :=
  if t < 20 then 0x5A827999 else if t < 40 then 0x6ED9EBA1 else if t < 60 then 0x8F1BBCDC else 0xCA62C1D6

def rotl (n x : UInt32) : UInt32 := (x <<< n) ||| (x >>> (32 - n))

def messageWord (M : ℕ → UInt32) (t : ℕ) : UInt32 :=
  if t < 16 then M t
  else rotl 1 (messageWord M (t - 3) ^^^ messageWord M (t - 8) ^^^ messageWord M (t - 14) ^^^ messageWord M (t - 16))

def standardRound (W : ℕ → UInt32) (t : ℕ) (s : ShaState) : ShaState :=
  ⟨rotl 5 s.a + roundFunction t s.b s.c s.d + s.e + roundConstant t + W t, s.a, rotl 30 s.b, s.c, s.d⟩

def compress (H : ShaState) (block : List UInt8) : ShaState :=
  let W := messageWord fun t => (blockWords block).getD t 0
  addState H ((List.range 80).foldl (fun s t => standardRound W t s) H)

def standardSha1 (data : List UInt8) : List UInt8 :=
  digest (chain bufSize compress ((pad data).length / bufSize) initState (pad data))

end Standard

theorem choose_eq (b c d : UInt32) : d ^^^ (b &&& (c ^^^ d)) = (b &&& c) ^^^ (~~~b &&& d) := by
  apply UInt32.toBitVec_inj.mp
  simp only [UInt32.toBitVec_xor, UInt32.toBitVec_and, UInt32.toBitVec_not]
  apply BitVec.eq_of_getElem_eq
  intro i hi
  simp only [BitVec.getElem_xor, BitVec.getElem_and, BitVec.getElem_not]
  cases b.toBitVec[i] <;> cases c.toBitVec[i] <;> cases d.toBitVec[i] <;> rfl

theorem majority_eq (b c d : UInt32) : (b &&& c) ||| (d &&& (b ||| c)) = (b &&& c) ^^^ (b &&& d) ^^^ (c &&& d) := by
  apply UInt32.toBitVec_inj.mp
  simp only [UInt32.toBitVec_xor, UInt32.toBitVec_and, UInt32.toBitVec_or]
  apply BitVec.eq_of_getElem_eq
  intro i hi
  simp only [BitVec.getElem_xor, BitVec.getElem_and, BitVec.getElem_or]
  cases b.toBitVec[i] <;> cases c.toBitVec[i] <;> cases d.toBitVec[i] <;> rfl

theorem mix_eq (t : ℕ) (b c d : UInt32) : mix t b c d = roundFunction t b c d + roundConstant t := by
  unfold mix roundFunction roundConstant
  split_ifs
  · rw [choose_eq]
  · rfl
  · rw [majority_eq]
  · rfl

theorem round_eq (W : ℕ → UInt32) (t : ℕ) (s : ShaState) : Sha1.round t (W t) s = standardRound W t s := by
  unfold Sha1.round standardRound
  rw [mix_eq]
  congr 1
  change rotl 5 s.a + s.e + W t + _ = _
  ac_rfl

section Schedule

theorem messageWord_later (M : ℕ → UInt32) {t : ℕ} (h : 16 ≤ t) : messageWord M t =
    rotl 1 (messageWord M (t - 3) ^^^ messageWord M (t - 8) ^^^ messageWord M (t - 14) ^^^ messageWord M (t - 16)) := by
  rw [messageWord, if_neg (by omega)]

theorem nextWord_eq {k : ℕ} {W : List UInt32} (hk : 16 ≤ k) (M : ℕ → UInt32)
    (hW : W = (List.range k).reverse.map (messageWord M)) : nextWord W = messageWord M k := by
  have hget (i : ℕ) (hi : i < k) : W.getD i 0 = messageWord M (k - 1 - i) := by
    rw [hW, List.getD_eq_getElem _ _ (by simpa using hi), List.getElem_map, List.getElem_reverse, List.getElem_range,
      List.length_range]
  rw [nextWord, hget 2 (by omega), hget 7 (by omega), hget 13 (by omega), hget 15 (by omega),
    messageWord_later M hk, show k - 1 - 2 = k - 3 by omega, show k - 1 - 7 = k - 8 by omega,
    show k - 1 - 13 = k - 14 by omega, show k - 1 - 15 = k - 16 by omega]
  rfl

theorem expand_eq {k : ℕ} {W : List UInt32} (hk : 16 ≤ k) (M : ℕ → UInt32)
    (hW : W = (List.range k).reverse.map (messageWord M)) (j : ℕ) :
    expand j W = (List.range (k + j)).reverse.map (messageWord M) := by
  induction j generalizing k W with
  | zero => exact hW
  | succ j ih =>
    rw [expand, @ih (k + 1) _ (by omega) ?_, show k + 1 + j = k + (j + 1) by omega]
    rw [nextWord_eq hk M hW, List.range_succ, List.reverse_append, hW]
    rfl

theorem blockWords_length (buf : List UInt8) : (blockWords buf).length = buf.length / 4 := by
  induction buf using blockWords.induct with
  | case1 b₀ b₁ b₂ b₃ p ih =>
    rw [blockWords, List.length_cons, ih]
    simp only [List.length_cons]
    omega
  | case2 p h =>
    have hlen : p.length < 4 := by
      rcases p with _ | ⟨b₀, _ | ⟨b₁, _ | ⟨b₂, _ | ⟨b₃, p⟩⟩⟩⟩
      · decide
      · simp
      · simp
      · simp
      · exact absurd rfl (h b₀ b₁ b₂ b₃ p)
    rw [blockWords]
    · simp only [List.length_nil]
      omega
    · exact h

theorem schedule_eq {buf : List UInt8} (h : buf.length = bufSize) :
    schedule buf = (List.range 80).map (messageWord fun t => (blockWords buf).getD t 0) := by
  have hlen : (blockWords buf).length = 16 := by rw [blockWords_length, h]; rfl
  have hfirst : (blockWords buf).reverse =
      (List.range 16).reverse.map (messageWord fun t => (blockWords buf).getD t 0) := by
    rw [List.map_reverse, List.reverse_inj]
    apply List.ext_getElem
    · simp [hlen]
    · intro i h1 h2
      rw [List.getElem_map, List.getElem_range, messageWord, if_pos (by omega), List.getD_eq_getElem]
  rw [schedule, expand_eq (le_refl 16) _ hfirst, List.map_reverse, List.reverse_reverse]

end Schedule

theorem rounds_eq (H : ShaState) {buf : List UInt8} (h : buf.length = bufSize) {n : ℕ} (hn : n ≤ 80) :
    (List.range n).foldl (fun s t => Sha1.round t ((schedule buf).getD t 0) s) H =
      (List.range n).foldl (fun s t => standardRound (messageWord fun i => (blockWords buf).getD i 0) t s) H := by
  apply List.foldl_ext
  intro s t ht
  have htn := (List.mem_range.mp ht).trans_le hn
  rw [schedule_eq h, List.getD_eq_getElem _ _ (by simpa using htn), List.getElem_map, List.getElem_range]
  exact round_eq _ t s

theorem transform_eq (H : ShaState) {buf : List UInt8} (h : buf.length = bufSize) : transform H buf = compress H buf := by
  rw [transform_def, rounds_eq H h le_rfl, compress]

theorem sha1_standard (data : List UInt8) : sha1 data = standardSha1 data := by
  rw [sha1, standardSha1, chain_congr (fun s block h => transform_eq s h) _ _ _ (pad_length data)]

theorem init_absorbed {buf : List UInt8} (h : buf.length = bufSize) : Absorbed (shaInit buf) [] := by
  constructor
  · rfl
  · exact h
  · rfl

/-- However a message is cut up, and whatever the buffer held before, the digest is the standard's. -/
theorem pieces_hashed (buf : List UInt8) (h : buf.length = bufSize) (pieces : List (List UInt8)) :
    shaFinal (pieces.foldl shaUpdate (shaInit buf)) = standardSha1 pieces.flatten := by
  have hall := ((init_absorbed h).updates pieces).final
  rw [List.nil_append] at hall
  rw [hall, sha1_standard]

theorem pieces_hashed_abc : shaFinal ([[0x61], [0x62, 0x63]].foldl shaUpdate (shaInit (List.replicate 64 7))) =
    standardSha1 [0x61, 0x62, 0x63] :=
  pieces_hashed (List.replicate 64 7) (by rw [List.length_replicate]; rfl) [[0x61], [0x62, 0x63]]

end LinuxRecovery.Sha1Standard
