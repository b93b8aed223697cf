import Mathlib

namespace LinuxRecovery.Montgomery

def reduce (R n t : ℕ) : ℕ := if R ≤ t then t - n else t

section Reduce

variable {β R n a b c d t : ℕ}

theorem reduce_modEq (h : n ≤ R) : reduce R n t ≡ t [MOD n] := by
  unfold reduce
  split_ifs with hR
  · rw [Nat.ModEq, ← Nat.mod_eq_sub_mod (h.trans hR)]
  · rfl

theorem sum_lt (ha : a < β) (hb : b < R) (hc : c < R) (hd : d < β) (hn : 0 < n)
    (ht : β * t = c + a * b + d * n) : t < R + n := by
  have hab : a * b ≤ (β - 1) * (R - 1) := Nat.mul_le_mul (by omega) (by omega)
  have hdn : d * n ≤ (β - 1) * n := Nat.mul_le_mul_right n (by omega)
  obtain ⟨β, rfl⟩ : ∃ k, β = k + 1 := ⟨β - 1, by omega⟩
  obtain ⟨R, rfl⟩ : ∃ k, R = k + 1 := ⟨R - 1, by omega⟩
  simp only [Nat.add_sub_cancel] at hab hdn
  by_contra hle
  have hmul : (β + 1) * (R + 1 + n) ≤ (β + 1) * t := Nat.mul_le_mul_left _ (by omega)
  nlinarith

end Reduce

structure Digit {σ α : Type} (β n b : ℕ) (digit : α → ℕ) (val : σ → ℕ) (Ok : σ → Prop) (f : σ → α → σ) : Prop where
  ok : ∀ c a, Ok c → Ok (f c a)
  modEq : ∀ c a, Ok c → val (f c a) * β ≡ val c + digit a * b [MOD n]

section Digits

variable {σ α : Type} {β n b : ℕ} {digit : α → ℕ} {val : σ → ℕ} {Ok : σ → Prop} {f : σ → α → σ}

theorem Digit.foldl_ok (h : Digit β n b digit val Ok f) (as : List α) {c : σ} (hc : Ok c) : Ok (as.foldl f c) := by
  induction as generalizing c with
  | nil => exact hc
  | cons a as ih => exact ih (h.ok c a hc)

theorem Digit.foldl_modEq (h : Digit β n b digit val Ok f) (as : List α) {c : σ} (hc : Ok c) :
    val (as.foldl f c) * β ^ as.length ≡ val c + Nat.ofDigits β (as.map digit) * b [MOD n] := by
  induction as generalizing c with
  | nil => simpa using Nat.ModEq.refl (n := n) (val c)
  | cons a as ih =>
    have hrest := ih (h.ok c a hc)
    rw [List.foldl_cons, List.length_cons, pow_succ, ← mul_assoc, List.map_cons, Nat.ofDigits_cons]
    calc val (as.foldl f (f c a)) * β ^ as.length * β
        ≡ (val (f c a) + Nat.ofDigits β (as.map digit) * b) * β [MOD n] := hrest.mul_right β
      _ = val (f c a) * β + β * Nat.ofDigits β (as.map digit) * b := by ring
      _ ≡ val c + digit a * b + β * Nat.ofDigits β (as.map digit) * b [MOD n] := (h.modEq c a hc).add_right _
      _ = val c + (digit a + β * Nat.ofDigits β (as.map digit)) * b := by ring

end Digits

section Representation

variable {R n a b c x y z : ℕ}

def Product (R n x y z : ℕ) : Prop := z * R ≡ x * y [MOD n]

def Stands (R n x a : ℕ) : Prop := x ≡ a * R [MOD n]

theorem cancel (hR : R.Coprime n) (h : x * R ≡ y * R [MOD n]) : x ≡ y [MOD n] :=
  Nat.ModEq.cancel_right_of_coprime (Nat.coprime_comm.mp hR) h

theorem Product.enter (hR : R.Coprime n) (h : Product R n a b x) (hb : b ≡ R ^ 2 [MOD n]) : Stands R n x a := by
  apply cancel hR
  calc x * R ≡ a * b [MOD n] := h
    _ ≡ a * R ^ 2 [MOD n] := hb.mul_left a
    _ = a * R * R := by ring

theorem Product.stands (hR : R.Coprime n) (h : Product R n x y z) (hx : Stands R n x a) (hy : Stands R n y b) :
    Stands R n z (a * b) := by
  apply cancel hR
  calc z * R ≡ x * y [MOD n] := h
    _ ≡ a * R * (b * R) [MOD n] := hx.mul hy
    _ = a * b * R * R := by ring

theorem Product.leave (hR : R.Coprime n) (h : Product R n x b z) (hx : Stands R n x a) : z ≡ a * b [MOD n] := by
  apply cancel hR
  calc z * R ≡ x * b [MOD n] := h
    _ ≡ a * R * b [MOD n] := hx.mul_right b
    _ = a * b * R := by ring

end Representation

theorem quotient_dvd {β n₀ n₀inv s d : ℕ} (hinv : n₀inv * n₀ + 1 ≡ 0 [MOD β]) (hd : d ≡ s * n₀inv [MOD β]) :
    d * n₀ + s ≡ 0 [MOD β] :=
  calc d * n₀ + s ≡ s * n₀inv * n₀ + s [MOD β] := (hd.mul_right n₀).add_right s
    _ = s * (n₀inv * n₀ + 1) := by ring
    _ ≡ s * 0 [MOD β] := hinv.mul_left s
    _ = 0 := mul_zero s

theorem coprime_of_inverse {β n n₀inv k : ℕ} (hinv : n₀inv * n + 1 ≡ 0 [MOD β]) : (β ^ k).Coprime n := by
  apply Nat.Coprime.pow_left
  have hdvd := (Nat.modEq_zero_iff_dvd.mp hinv)
  have hsum : Nat.gcd β n ∣ n₀inv * n + 1 := (Nat.gcd_dvd_left β n).trans hdvd
  have hmul : Nat.gcd β n ∣ n₀inv * n := (Nat.gcd_dvd_right β n).mul_left n₀inv
  exact Nat.dvd_one.mp ((Nat.dvd_add_right hmul).mp hsum)

end LinuxRecovery.Montgomery
