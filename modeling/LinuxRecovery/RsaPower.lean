import LinuxRecovery.RsaWords

namespace LinuxRecovery.RsaPower

open Montgomery RsaWords

def number (bs : List UInt8) : ℕ := bs.foldl (fun v b => 2 ^ 8 * v + b.toNat) 0

def wordAt (inout : List UInt8) (k : ℕ) : UInt32 :=
  ((inout.getD (k + 0) 0).toUInt32 <<< 24) ||| ((inout.getD (k + 1) 0).toUInt32 <<< 16) |||
    ((inout.getD (k + 2) 0).toUInt32 <<< 8) ||| ((inout.getD (k + 3) 0).toUInt32 <<< 0)

def toWords (len : ℕ) (inout : List UInt8) : List UInt32 :=
  (List.range len).map fun i => wordAt inout ((len - 1 - i) * 4)

def wordBytes (tmp : UInt32) : List UInt8 :=
  [(tmp >>> 24).toUInt8, (tmp >>> 16).toUInt8, (tmp >>> 8).toUInt8, (tmp >>> 0).toUInt8]

def ofWords (a : List UInt32) : List UInt8 := a.reverse.flatMap wordBytes

/-- The end of both exponentiations: make `aaa` less than the modulus, and store it. -/
def store (n aaa : List UInt32) : List UInt8 := ofWords (if geM n aaa = true then subM n aaa else aaa)

section Power

variable (n0inv : UInt32) (n rr : List UInt32)

def modpow3 (inout : List UInt8) : List UInt8 :=
  let a := toWords n.length inout
  let aR := montMul n0inv n a rr
  let aaR := montMul n0inv n aR aR
  let aaa := montMul n0inv n aaR a
  store n aaa

def squareTwice (aR : List UInt32) : List UInt32 :=
  let aaR := montMul n0inv n aR aR
  montMul n0inv n aaR aaR

def modpowF4 (inout : List UInt8) : List UInt8 :=
  let a := toWords n.length inout
  let aR := montMul n0inv n a rr
  let aR := (squareTwice n0inv n)^[8] aR
  let aaa := montMul n0inv n aR a
  store n aaa

end Power

section Bytes

theorem foldl_number (bs : List UInt8) (v : ℕ) :
    bs.foldl (fun v b => 2 ^ 8 * v + b.toNat) v = (2 ^ 8) ^ bs.length * v + number bs := by
  induction bs generalizing v with
  | nil => simp [number]
  | cons b bs ih =>
    have hnum : number (b :: bs) = (2 ^ 8) ^ bs.length * (2 ^ 8 * 0 + b.toNat) + number bs := ih _
    rw [List.foldl_cons, ih, hnum, List.length_cons, pow_succ]
    ring

@[simp] theorem number_nil : number [] = 0 := rfl

theorem number_append (xs ys : List UInt8) : number (xs ++ ys) = (2 ^ 8) ^ ys.length * number xs + number ys := by
  rw [number, List.foldl_append]
  exact foldl_number ys _

theorem number_lt (bs : List UInt8) : number bs < (2 ^ 8) ^ bs.length := by
  induction bs using List.reverseRecOn with
  | nil => simp
  | append_singleton bs b ih =>
    rw [number_append, List.length_append, List.length_singleton, pow_succ]
    have hb := b.toNat_lt
    have hone : number [b] = b.toNat := by simp [number]
    rw [hone]
    omega

theorem number_inj {xs ys : List UInt8} (hlen : xs.length = ys.length) (h : number xs = number ys) : xs = ys := by
  induction xs using List.reverseRecOn generalizing ys with
  | nil => exact (List.length_eq_zero_iff.mp hlen.symm).symm
  | append_singleton xs x ih =>
    obtain rfl | ⟨ys, y, rfl⟩ := List.eq_nil_or_concat ys
    · simp at hlen
    rw [List.concat_eq_append] at hlen h ⊢
    have hx := x.toNat_lt
    have hy := y.toNat_lt
    simp only [number_append, List.length_singleton, show ∀ b : UInt8, number [b] = b.toNat from fun b => by simp [number]] at h
    have hxy : x = y := UInt8.toNat.inj (by omega)
    rw [ih (by simpa using hlen) (by omega), hxy]

theorem byte_shift (b : UInt8) {k : ℕ} (hk : k ≤ 24) : (b.toUInt32 <<< UInt32.ofNat k).toNat = 2 ^ k * b.toNat := by
  have hb := b.toNat_lt
  have hle : 2 ^ k * b.toNat < 2 ^ 32 :=
    calc 2 ^ k * b.toNat < 2 ^ k * 2 ^ 8 := Nat.mul_lt_mul_of_pos_left hb (by positivity)
      _ ≤ 2 ^ 24 * 2 ^ 8 := Nat.mul_le_mul_right _ (Nat.pow_le_pow_right (by norm_num) hk)
      _ = 2 ^ 32 := by norm_num
  rw [UInt32.toNat_shiftLeft, UInt32.toNat_ofNat', UInt8.toNat_toUInt32, Nat.shiftLeft_eq,
    Nat.mod_eq_of_lt (by omega : k < 2 ^ 32), Nat.mod_eq_of_lt (by omega : k < 32), mul_comm, Nat.mod_eq_of_lt hle]

theorem wordAt_toNat (inout : List UInt8) (k : ℕ) : (wordAt inout k).toNat =
    number [inout.getD k 0, inout.getD (k + 1) 0, inout.getD (k + 2) 0, inout.getD (k + 3) 0] := by
  have h0 := (inout.getD k 0).toNat_lt
  have h1 := (inout.getD (k + 1) 0).toNat_lt
  have h2 := (inout.getD (k + 2) 0).toNat_lt
  have h3 := (inout.getD (k + 3) 0).toNat_lt
  have hs0 := byte_shift (inout.getD k 0) (k := 24) (by norm_num)
  have hs1 := byte_shift (inout.getD (k + 1) 0) (k := 16) (by norm_num)
  have hs2 := byte_shift (inout.getD (k + 2) 0) (k := 8) (by norm_num)
  have hs3 := byte_shift (inout.getD (k + 3) 0) (k := 0) (by norm_num)
  simp only [wordAt, UInt32.toNat_or, Nat.add_zero]
  rw [show (24 : UInt32) = UInt32.ofNat 24 from rfl, show (16 : UInt32) = UInt32.ofNat 16 from rfl,
    show (8 : UInt32) = UInt32.ofNat 8 from rfl, show (0 : UInt32) = UInt32.ofNat 0 from rfl, hs0, hs1, hs2, hs3]
  rw [← Nat.two_pow_add_eq_or_of_lt (i := 24) (by omega)]
  rw [show 2 ^ 24 * (inout.getD k 0).toNat + 2 ^ 16 * (inout.getD (k + 1) 0).toNat =
    2 ^ 16 * (2 ^ 8 * (inout.getD k 0).toNat + (inout.getD (k + 1) 0).toNat) by ring,
    ← Nat.two_pow_add_eq_or_of_lt (i := 16) (by omega)]
  rw [show 2 ^ 16 * (2 ^ 8 * (inout.getD k 0).toNat + (inout.getD (k + 1) 0).toNat) + 2 ^ 8 * (inout.getD (k + 2) 0).toNat =
    2 ^ 8 * (2 ^ 8 * (2 ^ 8 * (inout.getD k 0).toNat + (inout.getD (k + 1) 0).toNat) + (inout.getD (k + 2) 0).toNat) by ring,
    ← Nat.two_pow_add_eq_or_of_lt (i := 8) (by omega)]
  simp [number]

theorem wordBytes_number (w : UInt32) : number (wordBytes w) = w.toNat := by
  have hw := w.toNat_lt
  have h24 : (w >>> 24).toNat = w.toNat / 2 ^ 24 := by simp [UInt32.toNat_shiftRight, Nat.shiftRight_eq_div_pow]
  have h16 : (w >>> 16).toNat = w.toNat / 2 ^ 16 := by simp [UInt32.toNat_shiftRight, Nat.shiftRight_eq_div_pow]
  have h8 : (w >>> 8).toNat = w.toNat / 2 ^ 8 := by simp [UInt32.toNat_shiftRight, Nat.shiftRight_eq_div_pow]
  have h0 : (w >>> 0).toNat = w.toNat := by simp
  simp only [number, wordBytes, List.foldl_cons, List.foldl_nil, UInt32.toNat_toUInt8, h24, h16, h8, h0]
  omega

@[simp] theorem toWords_length (len : ℕ) (inout : List UInt8) : (toWords len inout).length = len := by
  simp [toWords]

@[simp] theorem wordBytes_length (w : UInt32) : (wordBytes w).length = 4 := rfl

theorem ofWords_cons (w : UInt32) (ws : List UInt32) : ofWords (w :: ws) = ofWords ws ++ wordBytes w := by
  simp [ofWords]

@[simp] theorem ofWords_length (ws : List UInt32) : (ofWords ws).length = 4 * ws.length := by
  induction ws with
  | nil => rfl
  | cons w ws ih =>
    rw [ofWords_cons, List.length_append, ih, wordBytes_length, List.length_cons]
    omega

theorem ofWords_number (ws : List UInt32) : number (ofWords ws) = value ws := by
  induction ws with
  | nil => rfl
  | cons w ws ih =>
    rw [ofWords_cons, number_append, ih, wordBytes_number, wordBytes_length, value_cons]
    ring

theorem toWords_succ (len : ℕ) (inout : List UInt8) :
    toWords (len + 1) inout = wordAt inout (len * 4) :: toWords len inout := by
  rw [toWords, List.range_succ_eq_map, List.map_cons, List.map_map, toWords]
  apply List.cons_eq_cons.mpr
  constructor
  · rw [Nat.add_sub_cancel, Nat.sub_zero]
  · apply List.map_congr_left
    intro i _
    rw [Function.comp_apply, show len + 1 - 1 - (i + 1) = len - 1 - i by omega]

theorem take_succ_getD (inout : List UInt8) {k : ℕ} (h : k < inout.length) :
    inout.take (k + 1) = inout.take k ++ [inout.getD k 0] := by
  rw [List.take_succ_eq_append_getElem h, List.getD_eq_getElem inout 0 h]

theorem take_word (inout : List UInt8) {k : ℕ} (h : k + 4 ≤ inout.length) : inout.take (k + 4) =
    inout.take k ++ [inout.getD k 0, inout.getD (k + 1) 0, inout.getD (k + 2) 0, inout.getD (k + 3) 0] := by
  rw [take_succ_getD inout (k := k + 3) (by omega), take_succ_getD inout (k := k + 2) (by omega),
    take_succ_getD inout (k := k + 1) (by omega), take_succ_getD inout (by omega)]
  simp only [List.append_assoc, List.cons_append, List.nil_append]

theorem toWords_value (len : ℕ) (inout : List UInt8) (h : len * 4 ≤ inout.length) :
    value (toWords len inout) = number (inout.take (len * 4)) := by
  induction len with
  | zero => simp [toWords]
  | succ len ih =>
    rw [toWords_succ, value_cons, ih (by omega), wordAt_toNat, Nat.succ_mul, take_word inout (by omega), number_append]
    simp only [List.length_cons, List.length_nil]
    ring

end Bytes

section Correct

/-- A public key as the verifier needs it: the modulus, and what was worked out from it beforehand. -/
structure Valid (n0inv : UInt32) (n rr : List UInt32) : Prop where
  inverse : Inverse n0inv n
  length : rr.length = n.length
  square : value rr ≡ radix n ^ 2 [MOD value n]

variable {n0inv : UInt32} {n rr : List UInt32} {x a b : ℕ}

theorem store_length {n aaa : List UInt32} (h : aaa.length = n.length) : (store n aaa).length = 4 * n.length := by
  rw [store, ofWords_length]
  split_ifs
  · rw [subM_length h]
  · rw [h]

theorem store_number {n aaa : List UInt32} (h : aaa.length = n.length) :
    number (store n aaa) ≡ value aaa [MOD value n] ∧
      (value aaa < 2 * value n → number (store n aaa) = value aaa % value n) := by
  have hn := value_lt n
  have ha := value_lt aaa
  rw [h, ← radix] at ha
  rw [store, ofWords_number]
  by_cases hge : value n ≤ value aaa
  · rw [if_pos ((geM_iff h).mpr hge), subM_value h (t := value aaa - value n) (by omega)
      (by rw [Nat.sub_add_cancel hge])]
    refine ⟨by rw [Nat.ModEq, ← Nat.mod_eq_sub_mod hge], fun hlt => ?_⟩
    rw [Nat.mod_eq_sub_mod hge, Nat.mod_eq_of_lt (by omega)]
  · rw [if_neg (fun hge' => hge ((geM_iff h).mp hge'))]
    exact ⟨rfl, fun _ => (Nat.mod_eq_of_lt (by omega)).symm⟩

theorem Valid.coprime (h : Valid n0inv n rr) : (radix n).Coprime (value n) := coprime_of_inverse h.inverse

theorem Valid.stands_mul (h : Valid n0inv n rr) {x y : List UInt32} (hx : x.length = n.length)
    (hy : y.length = n.length) (ha : Stands (radix n) (value n) (value x) a) (hb : Stands (radix n) (value n) (value y) b) :
    Stands (radix n) (value n) (value (montMul n0inv n x y)) (a * b) :=
  (montMul_product h.inverse hx hy).stands h.coprime ha hb

theorem squareTwice_length (h : Valid n0inv n rr) {x : List UInt32} (hx : x.length = n.length) :
    (squareTwice n0inv n x).length = n.length :=
  montMul_length h.inverse (montMul_length h.inverse hx)

theorem Valid.squareTwice_stands (h : Valid n0inv n rr) {x : List UInt32} (hx : x.length = n.length)
    (ha : Stands (radix n) (value n) (value x) a) : Stands (radix n) (value n) (value (squareTwice n0inv n x)) (a ^ 4) := by
  have hsq := h.stands_mul hx hx ha ha
  have hlen := montMul_length (a := x) h.inverse hx
  have hfourth := h.stands_mul hlen hlen hsq hsq
  rwa [show a * a * (a * a) = a ^ 4 by ring] at hfourth

theorem Valid.squares_stands (h : Valid n0inv n rr) (k : ℕ) {x : List UInt32} (hx : x.length = n.length)
    (ha : Stands (radix n) (value n) (value x) a) :
    ((squareTwice n0inv n)^[k] x).length = n.length ∧
      Stands (radix n) (value n) (value ((squareTwice n0inv n)^[k] x)) (a ^ 4 ^ k) := by
  induction k generalizing x a with
  | zero => exact ⟨hx, by rwa [pow_zero, pow_one]⟩
  | succ k ih =>
    have hrest := ih (squareTwice_length h hx) (h.squareTwice_stands hx ha)
    rwa [← pow_mul, ← pow_succ'] at hrest

theorem Valid.stored (h : Valid n0inv n rr) {x y : List UInt32} (hx : x.length = n.length) (hy : y.length = n.length)
    (ha : Stands (radix n) (value n) (value x) a) :
    (store n (montMul n0inv n x y)).length = 4 * n.length ∧
      number (store n (montMul n0inv n x y)) ≡ a * value y [MOD value n] ∧
      (radix n ≤ 2 * value n → number (store n (montMul n0inv n x y)) = a * value y % value n) := by
  have hlen := montMul_length (a := x) h.inverse hy
  have hleave : value (montMul n0inv n x y) ≡ a * value y [MOD value n] :=
    (montMul_product h.inverse hx hy).leave h.coprime ha
  obtain ⟨hmod, hlow⟩ := store_number hlen
  have hlt := value_lt (montMul n0inv n x y)
  rw [hlen, ← radix] at hlt
  exact ⟨store_length hlen, hmod.trans hleave, fun htop => (hlow (by omega)).trans hleave⟩

/-- What a modular power must come to: the power of the bytes' number, fully reduced if the modulus has its top bit. -/
structure PowerOf (n : List UInt32) (e : ℕ) (inout out : List UInt8) : Prop where
  length : out.length = inout.length
  modEq : number out ≡ number inout ^ e [MOD value n]
  reduced : radix n ≤ 2 * value n → number out = number inout ^ e % value n

section Buffer

variable {inout : List UInt8}

theorem words_value (hlen : inout.length = n.length * 4) : value (toWords n.length inout) = number inout := by
  rw [toWords_value _ _ hlen.ge, ← hlen, List.take_length]

theorem Valid.entered (h : Valid n0inv n rr) (hlen : inout.length = n.length * 4) :
    (montMul n0inv n (toWords n.length inout) rr).length = n.length ∧
      Stands (radix n) (value n) (value (montMul n0inv n (toWords n.length inout) rr)) (number inout) := by
  have henter := (montMul_product h.inverse (toWords_length n.length inout) h.length).enter h.coprime h.square
  rw [words_value hlen] at henter
  exact ⟨montMul_length h.inverse h.length, henter⟩

theorem Valid.cube (h : Valid n0inv n rr) (hlen : inout.length = n.length * 4) :
    PowerOf n 3 inout (modpow3 n0inv n rr inout) := by
  obtain ⟨haR, henter⟩ := h.entered hlen
  have hstored := h.stored (montMul_length h.inverse haR) (toWords_length _ inout) (h.stands_mul haR haR henter henter)
  rw [words_value hlen, show number inout * number inout * number inout = number inout ^ 3 by ring] at hstored
  exact ⟨by rw [modpow3, hstored.1, hlen, mul_comm], hstored.2.1, hstored.2.2⟩

theorem Valid.fermat (h : Valid n0inv n rr) (hlen : inout.length = n.length * 4) :
    PowerOf n 65537 inout (modpowF4 n0inv n rr inout) := by
  obtain ⟨haR, henter⟩ := h.entered hlen
  obtain ⟨hsq, hstands⟩ := h.squares_stands 8 haR henter
  have hstored := h.stored hsq (toWords_length _ inout) hstands
  rw [words_value hlen, ← pow_succ, show 4 ^ 8 + 1 = 65537 by norm_num] at hstored
  exact ⟨by rw [modpowF4, hstored.1, hlen, mul_comm], hstored.2.1, hstored.2.2⟩

/-- Both exponentiations raise the number in the buffer to their exponent, for every key and every buffer of its size. -/
theorem modpow_powers (h : Valid n0inv n rr) (hlen : inout.length = n.length * 4) :
    PowerOf n 3 inout (modpow3 n0inv n rr inout) ∧ PowerOf n 65537 inout (modpowF4 n0inv n rr inout) :=
  ⟨h.cube hlen, h.fermat hlen⟩

def twoWords : List UInt32 := [0x7f4a7c15, 0x9e3779b9]

theorem modpow_powers_two :
    PowerOf twoWords 3 [0xfe, 2, 0xfc, 4, 0xfa, 6, 0xf8, 8]
      (modpow3 0x66c88cc3 twoWords [0xb3d83208, 0x461565b0] [0xfe, 2, 0xfc, 4, 0xfa, 6, 0xf8, 8]) ∧
      PowerOf twoWords 65537 [0xfe, 2, 0xfc, 4, 0xfa, 6, 0xf8, 8]
        (modpowF4 0x66c88cc3 twoWords [0xb3d83208, 0x461565b0] [0xfe, 2, 0xfc, 4, 0xfa, 6, 0xf8, 8]) :=
  modpow_powers ⟨by rw [Inverse]; decide, rfl, by decide⟩ rfl

end Buffer

end Correct

end LinuxRecovery.RsaPower
