import Mathlib

namespace LinuxRecovery.RsaTrapdoor

structure KeyPair (p q e d : ℕ) : Prop where
  prime_left : p.Prime
  prime_right : q.Prime
  distinct : p ≠ q
  inverse_left : e * d ≡ 1 [MOD p - 1]
  inverse_right : e * d ≡ 1 [MOD q - 1]

section Power

variable {p k : ℕ}

theorem pow_modEq_self (hp : p.Prime) (hk : k ≠ 0) (h : k ≡ 1 [MOD p - 1]) (m : ℕ) : m ^ k ≡ m [MOD p] := by
  obtain ⟨j, hj⟩ := (Nat.modEq_iff_dvd' (Nat.one_le_iff_ne_zero.mpr hk)).mp h.symm
  have hsplit : k = (p - 1) * j + 1 := by omega
  by_cases hdvd : p ∣ m
  · exact ((Nat.modEq_zero_iff_dvd.mpr (dvd_pow hdvd hk))).trans (Nat.modEq_zero_iff_dvd.mpr hdvd).symm
  · have hfermat : m ^ (p - 1) ≡ 1 [MOD p] := by
      rw [← Nat.totient_prime hp]
      exact Nat.ModEq.pow_totient ((Nat.coprime_comm.mp ((Nat.Prime.coprime_iff_not_dvd hp).mpr hdvd)))
    calc m ^ k = (m ^ (p - 1)) ^ j * m := by rw [hsplit, pow_succ, pow_mul]
      _ ≡ 1 ^ j * m [MOD p] := (hfermat.pow j).mul_right m
      _ = m := by rw [one_pow, one_mul]

end Power

variable {p q e d : ℕ}

theorem KeyPair.modulus_pos (h : KeyPair p q e d) : 0 < p * q := Nat.mul_pos h.prime_left.pos h.prime_right.pos

theorem KeyPair.exponent_ne_zero (h : KeyPair p q e d) : e * d ≠ 0 := by
  intro hzero
  have hleft := h.inverse_left
  have hright := h.inverse_right
  rw [hzero] at hleft hright
  have hone (r : ℕ) (hr : 0 ≡ 1 [MOD r - 1]) (hp : r.Prime) : r = 2 := by
    have hdvd : r - 1 ∣ 1 := (Nat.modEq_zero_iff_dvd.mp hr.symm)
    have htwo := hp.two_le
    have := Nat.dvd_one.mp hdvd
    omega
  exact h.distinct ((hone p hleft h.prime_left).trans (hone q hright h.prime_right).symm)

theorem KeyPair.pow_pow (h : KeyPair p q e d) (m : ℕ) : (m ^ d) ^ e ≡ m [MOD p * q] := by
  rw [← pow_mul, mul_comm d e]
  exact (Nat.modEq_and_modEq_iff_modEq_mul ((Nat.coprime_primes h.prime_left h.prime_right).mpr h.distinct)).mp
    ⟨pow_modEq_self h.prime_left h.exponent_ne_zero h.inverse_left m,
      pow_modEq_self h.prime_right h.exponent_ne_zero h.inverse_right m⟩

theorem KeyPair.undo (h : KeyPair p q e d) (m : ℕ) : (m ^ d % (p * q)) ^ e ≡ m [MOD p * q] :=
  ((Nat.mod_modEq _ _).pow e).trans (h.pow_pow m)

section Compute

def powMod (n : ℕ) : ℕ → ℕ → ℕ → ℕ
  | 0, _, _ => 1 % n
  | fuel + 1, b, e =>
    let rest := powMod n fuel (b * b % n) (e / 2)
    if e % 2 = 1 then rest * b % n else rest

theorem powMod_eq (n : ℕ) {fuel b e : ℕ} (h : e < 2 ^ fuel) : powMod n fuel b e = b ^ e % n := by
  induction fuel generalizing b e with
  | zero => rw [powMod, Nat.lt_one_iff.mp h, pow_zero]
  | succ fuel ih =>
    have hrest := ih (b := b * b % n) (e := e / 2) (by rw [pow_succ] at h; omega)
    have hsq : (b * b % n) ^ (e / 2) % n = b ^ (2 * (e / 2)) % n := by
      rw [pow_mul, pow_two]
      exact (Nat.mod_modEq _ _).pow _
    rw [powMod, hrest, hsq]
    split_ifs with hodd
    · rw [Nat.mod_mul_mod, ← pow_succ, show 2 * (e / 2) + 1 = e by omega]
    · rw [show 2 * (e / 2) = e by omega]

theorem prime_of_powMod {k m : ℕ} (a fuel : ℕ) (hk : k.Prime) (hfuel : k * 2 ^ m < 2 ^ fuel)
    (hone : powMod (k * 2 ^ m + 1) fuel a (k * 2 ^ m) = 1)
    (htwo : powMod (k * 2 ^ m + 1) fuel a (k * 2 ^ m / 2) ≠ 1) (hodd : powMod (k * 2 ^ m + 1) fuel a (k * 2 ^ m / k) ≠ 1) :
    (k * 2 ^ m + 1).Prime := by
  have hlarge : 1 < k * 2 ^ m + 1 := Nat.lt_add_of_pos_left (Nat.mul_pos hk.pos (by positivity))
  have hpow (e : ℕ) (he : e < 2 ^ fuel) :
      (a : ZMod (k * 2 ^ m + 1)) ^ e = 1 ↔ powMod (k * 2 ^ m + 1) fuel a e = 1 := by
    have hcast := ZMod.natCast_eq_natCast_iff (a ^ e) 1 (k * 2 ^ m + 1)
    rwa [Nat.cast_one, Nat.ModEq, Nat.mod_eq_of_lt hlarge, Nat.cast_pow, ← powMod_eq _ he] at hcast
  apply lucas_primality _ (a : ZMod (k * 2 ^ m + 1))
  · exact (hpow _ hfuel).mpr hone
  · intro r hr hdvd
    rw [Nat.add_sub_cancel] at hdvd ⊢
    intro hfalse
    rw [hpow _ ((Nat.div_le_self _ _).trans_lt hfuel)] at hfalse
    rcases (Nat.Prime.dvd_mul hr).mp hdvd with hdvd | hdvd
    · rw [(Nat.prime_dvd_prime_iff_eq hr hk).mp hdvd] at hfalse
      exact hodd hfalse
    · rw [(Nat.prime_dvd_prime_iff_eq hr Nat.prime_two).mp (hr.dvd_of_dvd_pow hdvd)] at hfalse
      exact htwo hfalse

end Compute

end LinuxRecovery.RsaTrapdoor
