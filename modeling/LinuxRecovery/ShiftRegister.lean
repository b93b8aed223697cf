import Mathlib

namespace LinuxRecovery.ShiftRegister

variable {w : ℕ} (poly : BitVec w)

def shift (c : BitVec w) : BitVec w := (c >>> 1) ^^^ if c.getLsbD 0 = true then poly else 0#w

def bit (b : Bool) : BitVec w := if b = true then 1#w else 0#w

def feed (c : BitVec w) (bits : List Bool) : BitVec w := bits.foldl (fun c b => shift poly (c ^^^ bit b)) c

def word : List Bool → BitVec w
  | [] => 0#w
  | b :: bits => (word bits <<< 1) ^^^ bit b

section Shift

variable {poly} {a b c : BitVec w} {n : ℕ}

theorem shift_xor (a b : BitVec w) : shift poly (a ^^^ b) = shift poly a ^^^ shift poly b := by
  rw [shift, shift, shift, BitVec.ushiftRight_xor_distrib, BitVec.getLsbD_xor]
  have hswap (p q r s : BitVec w) : (p ^^^ q) ^^^ (r ^^^ s) = (p ^^^ r) ^^^ (q ^^^ s) := by ac_rfl
  cases a.getLsbD 0 <;> cases b.getLsbD 0
  · simp
  · simp only [Bool.false_xor, if_true, Bool.false_eq_true, if_false, BitVec.xor_zero]
    ac_rfl
  · simp only [Bool.xor_false, if_true, Bool.false_eq_true, if_false, BitVec.xor_zero]
    ac_rfl
  · simp only [Bool.xor_true, Bool.not_true, if_true, Bool.false_eq_true, if_false, BitVec.xor_zero]
    rw [hswap, BitVec.xor_self, BitVec.xor_zero]

theorem shifts_xor (n : ℕ) (a b : BitVec w) :
    (shift poly)^[n] (a ^^^ b) = (shift poly)^[n] a ^^^ (shift poly)^[n] b := by
  induction n generalizing a b with
  | zero => rfl
  | succ n ih => rw [Function.iterate_succ_apply, Function.iterate_succ_apply, Function.iterate_succ_apply, shift_xor, ih]

theorem shift_double (h : 2 * a.toNat < 2 ^ w) : shift poly (a <<< 1) = a := by
  have hlow : (a <<< 1).getLsbD 0 = false := by simp
  rw [shift, hlow, if_neg Bool.false_ne_true, BitVec.xor_zero]
  apply BitVec.eq_of_toNat_eq
  rw [BitVec.toNat_ushiftRight, BitVec.toNat_shiftLeft, Nat.shiftLeft_eq, Nat.shiftRight_eq_div_pow, pow_one, Nat.mul_comm,
    Nat.mod_eq_of_lt h]
  omega

theorem shifts_shiftLeft (h : 2 ^ n * a.toNat < 2 ^ w) : (shift poly)^[n] (a <<< n) = a := by
  induction n with
  | zero => rw [BitVec.shiftLeft_zero, Function.iterate_zero_apply]
  | succ n ih =>
    rw [pow_succ, Nat.mul_assoc] at h
    have hn : 2 ^ n * a.toNat < 2 ^ w := lt_of_le_of_lt (Nat.mul_le_mul_left _ (by omega)) h
    have hdouble : 2 * (a <<< n).toNat < 2 ^ w := by
      rw [BitVec.toNat_shiftLeft, Nat.shiftLeft_eq, Nat.mul_comm a.toNat, Nat.mod_eq_of_lt hn]
      calc 2 * (2 ^ n * a.toNat) = 2 ^ n * (2 * a.toNat) := Nat.mul_left_comm _ _ _
        _ < 2 ^ w := h
    rw [Function.iterate_succ_apply, BitVec.shiftLeft_add, shift_double hdouble, ih hn]

theorem split_low (n : ℕ) (a : BitVec w) : a = BitVec.ofNat w (a.toNat % 2 ^ n) ^^^ (a >>> n) <<< n := by
  apply BitVec.eq_of_getLsbD_eq
  intro i hi
  rw [BitVec.getLsbD_xor, BitVec.getLsbD_ofNat, Nat.testBit_mod_two_pow, BitVec.getLsbD_shiftLeft, BitVec.getLsbD_ushiftRight]
  by_cases hlow : i < n
  · simp [hi, hlow]
    rfl
  · simp [hi, hlow, Nat.add_sub_cancel' (not_lt.mp hlow)]

theorem shifts_low (n : ℕ) (a : BitVec w) :
    (shift poly)^[n] a = (shift poly)^[n] (BitVec.ofNat w (a.toNat % 2 ^ n)) ^^^ (a >>> n) := by
  have hhigh : 2 ^ n * (a >>> n).toNat < 2 ^ w := by
    rw [BitVec.toNat_ushiftRight, Nat.shiftRight_eq_div_pow]
    exact lt_of_le_of_lt (Nat.mul_div_le _ _) a.isLt
  conv_lhs => rw [split_low n a]
  rw [shifts_xor, shifts_shiftLeft hhigh]

theorem shift_injective (hpoly : poly.msb = true) : Function.Injective (shift poly) := by
  intro a b hab
  have hzero : shift poly (a ^^^ b) = 0#w := by rw [shift_xor, hab, BitVec.xor_self]
  suffices hd : a ^^^ b = 0#w from BitVec.xor_eq_zero_iff.mp hd
  generalize a ^^^ b = d at hzero
  have hlow : d.getLsbD 0 = false := by
    by_contra hone
    rw [shift, if_pos (Bool.not_eq_false _ ▸ hone), BitVec.xor_eq_zero_iff] at hzero
    have htop := congrArg BitVec.msb hzero
    rw [hpoly, BitVec.msb_ushiftRight] at htop
    simp at htop
  rw [shift, if_neg (by rw [hlow]; exact Bool.false_ne_true), BitVec.xor_zero] at hzero
  apply BitVec.eq_of_toNat_eq
  have hnat := congrArg BitVec.toNat hzero
  have hodd : d.toNat % 2 = 0 := by
    rw [BitVec.getLsbD, Nat.testBit_zero, decide_eq_false_iff_not] at hlow
    omega
  rw [BitVec.toNat_ushiftRight, Nat.shiftRight_eq_div_pow, pow_one] at hnat
  simp only [BitVec.toNat_ofNat, Nat.zero_mod] at hnat ⊢
  omega

theorem shifts_injective (hpoly : poly.msb = true) (n : ℕ) : Function.Injective (shift poly)^[n] :=
  (shift_injective hpoly).iterate n

end Shift

section Words

variable {poly} {c d : BitVec w} {bits bits' pre post : List Bool}

theorem word_cons (b : Bool) (bits : List Bool) : word (b :: bits) = (word bits <<< 1) ^^^ (bit b : BitVec w) := rfl

theorem word_toNat_cons (b : Bool) (h : bits.length < w) (hlt : (word bits : BitVec w).toNat < 2 ^ bits.length) :
    (word (b :: bits) : BitVec w).toNat = 2 * (word bits : BitVec w).toNat + b.toNat := by
  have hpow : 2 ^ bits.length * 2 ≤ 2 ^ w := by
    rw [← pow_succ]
    exact Nat.pow_le_pow_right two_pos h
  have hone : (1#w).toNat = 1 := by
    rw [BitVec.toNat_ofNat]
    exact Nat.mod_eq_of_lt (Nat.one_lt_two_pow (by omega))
  rw [word_cons, BitVec.toNat_xor, BitVec.toNat_shiftLeft, Nat.shiftLeft_eq, pow_one, Nat.mod_eq_of_lt (by omega)]
  cases b with
  | false =>
    rw [bit, if_neg Bool.false_ne_true, BitVec.toNat_ofNat, Nat.zero_mod, Nat.xor_zero, Bool.toNat_false]
    omega
  | true =>
    rw [bit, if_pos rfl, hone, Bool.toNat_true, Nat.mul_comm]
    exact Nat.xor_one_of_even (even_two_mul _)

theorem word_lt (h : bits.length ≤ w) : (word bits : BitVec w).toNat < 2 ^ bits.length := by
  induction bits with
  | nil => simp [word]
  | cons b bits ih =>
    rw [List.length_cons] at h
    have hlt := ih (by omega)
    have hb := Bool.toNat_le b
    rw [word_toNat_cons b h hlt, List.length_cons, pow_succ]
    omega

theorem word_injective (h : bits.length ≤ w) (hlen : bits.length = bits'.length)
    (heq : (word bits : BitVec w) = word bits') : bits = bits' := by
  induction bits generalizing bits' with
  | nil => exact (List.length_eq_zero_iff.mp hlen.symm).symm
  | cons b bits ih =>
    cases bits' with
    | nil => cases hlen
    | cons b' bits' =>
      rw [List.length_cons] at h
      have htail : bits.length = bits'.length := Nat.succ.inj hlen
      have hnat := congrArg BitVec.toNat heq
      rw [word_toNat_cons b h (word_lt (by omega)), word_toNat_cons b' (by omega) (word_lt (by omega))] at hnat
      have hb := Bool.toNat_le b
      have hb' := Bool.toNat_le b'
      have hbit : b = b' := by
        cases b <;> cases b' <;> simp only [Bool.toNat_false, Bool.toNat_true] at hnat <;> first | rfl | omega
      subst hbit
      rw [ih (by omega) htail (BitVec.eq_of_toNat_eq (by omega))]

theorem feed_append (c : BitVec w) (bits more : List Bool) :
    feed poly c (bits ++ more) = feed poly (feed poly c bits) more := List.foldl_append

theorem feed_word (h : bits.length ≤ w) : feed poly c bits = (shift poly)^[bits.length] (c ^^^ word bits) := by
  induction bits generalizing c with
  | nil => simp [feed, word]
  | cons b bits ih =>
    rw [List.length_cons] at h
    have hlt := @word_lt w bits (by omega)
    have hpow : 2 ^ bits.length * 2 ≤ 2 ^ w := by
      rw [← pow_succ]
      exact Nat.pow_le_pow_right two_pos h
    calc feed poly c (b :: bits) = feed poly (shift poly (c ^^^ bit b)) bits := rfl
      _ = (shift poly)^[bits.length] (shift poly (c ^^^ bit b) ^^^ shift poly (word bits <<< 1)) := by
        rw [ih (by omega), shift_double (by omega)]
      _ = (shift poly)^[bits.length + 1] (c ^^^ word (b :: bits)) := by
        rw [← shift_xor, BitVec.xor_assoc, BitVec.xor_comm (bit b), ← word_cons, Function.iterate_succ_apply]

theorem feed_injective (hpoly : poly.msb = true) (bits : List Bool) :
    Function.Injective fun c => feed poly c bits := by
  induction bits with
  | nil => exact fun c d h => h
  | cons b bits ih => exact fun c d h => (BitVec.xor_left_inj _).mp (shift_injective hpoly (ih h))

theorem burst_seen (hpoly : poly.msb = true) (hfit : bits.length ≤ w) (hlen : bits.length = bits'.length)
    (hne : bits ≠ bits') : feed poly c (pre ++ bits ++ post) ≠ feed poly c (pre ++ bits' ++ post) := by
  intro h
  rw [feed_append, feed_append, feed_append, feed_append] at h
  have hmid : feed poly (feed poly c pre) bits = feed poly (feed poly c pre) bits' := feed_injective hpoly post h
  rw [@feed_word w poly _ bits hfit, @feed_word w poly _ bits' (by omega), ← hlen] at hmid
  exact hne (word_injective hfit hlen ((BitVec.xor_right_inj _).mp (shifts_injective hpoly _ hmid)))

end Words

end LinuxRecovery.ShiftRegister
