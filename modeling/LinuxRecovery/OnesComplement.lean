import Mathlib

namespace LinuxRecovery.OnesComplement

def onesAdd (m a b : ℕ) : ℕ := (a + b) % m + (a + b) / m

def onesSum (m : ℕ) (ws : List ℕ) : ℕ := ws.foldl (onesAdd m) 0

def residue (m n : ℕ) : ℕ := if n = 0 then 0 else (n - 1) % (m - 1) + 1

variable {m n n' : ℕ}

theorem residue_congr (h : n ≡ n' [MOD m - 1]) (h0 : n = 0 ↔ n' = 0) : residue m n = residue m n' := by
  unfold residue
  by_cases hn : n = 0
  · rw [if_pos hn, if_pos (h0.mp hn)]
  · have hn' : n' ≠ 0 := fun h => hn (h0.mpr h)
    rw [if_neg hn, if_neg hn']
    congr 1
    apply Nat.ModEq.add_right_cancel' 1
    rwa [Nat.sub_add_cancel (by omega), Nat.sub_add_cancel (by omega)]

theorem residue_of_lt (h : n < m) : residue m n = n := by
  unfold residue
  split_ifs with h0
  · exact h0.symm
  · rw [Nat.mod_eq_of_lt (by omega), Nat.sub_add_cancel (by omega)]

theorem residue_modEq (m n : ℕ) : residue m n ≡ n [MOD m - 1] := by
  unfold residue
  split_ifs with h0
  · rw [h0]
  · have h := (Nat.mod_modEq (n - 1) (m - 1)).add_right 1
    rwa [Nat.sub_add_cancel (by omega)] at h

theorem residue_le (hm : 1 < m) (n : ℕ) : residue m n ≤ m - 1 := by
  unfold residue
  split_ifs
  · exact Nat.zero_le _
  · have := Nat.mod_lt (n - 1) (show 0 < m - 1 by omega)
    omega

theorem fold_modEq (hm : 0 < m) (n : ℕ) : n % m + n / m ≡ n [MOD m - 1] := by
  have h1 : n / m ≡ m * (n / m) [MOD m - 1] := by
    have h : 1 ≡ m [MOD m - 1] := (Nat.modEq_iff_dvd' hm).mpr dvd_rfl
    simpa using h.mul_right (n / m)
  have h2 := h1.add_left (n % m)
  rwa [Nat.mod_add_div] at h2

theorem fold_eq_zero (n : ℕ) : n % m + n / m = 0 ↔ n = 0 := by
  rw [Nat.add_eq_zero_iff]
  constructor
  · rintro ⟨hmod, hdiv⟩
    rw [← Nat.mod_add_div n m, hmod, hdiv, Nat.mul_zero]
  · rintro rfl
    exact ⟨Nat.zero_mod m, Nat.zero_div m⟩

theorem residue_fold (hm : 0 < m) (n : ℕ) : residue m (n % m + n / m) = residue m n :=
  residue_congr (fold_modEq hm n) (fold_eq_zero n)

theorem onesAdd_lt (hm : 0 < m) {a b : ℕ} (ha : a < m) (hb : b < m) : onesAdd m a b < m := by
  have h1 := Nat.mod_add_div (a + b) m
  have h2 : (a + b) / m < 2 := Nat.div_lt_of_lt_mul (by omega)
  unfold onesAdd
  interval_cases (a + b) / m
  · have := Nat.mod_lt (a + b) hm
    omega
  · omega

theorem foldl_onesAdd (hm : 0 < m) {ws : List ℕ} (h : ∀ w ∈ ws, w < m) {a : ℕ} (ha : a < m) :
    ws.foldl (onesAdd m) a = residue m (a + ws.sum) := by
  induction ws generalizing a with
  | nil => rw [List.foldl_nil, List.sum_nil, Nat.add_zero, residue_of_lt ha]
  | cons w ws ih =>
    rw [List.forall_mem_cons] at h
    rw [List.foldl_cons, ih h.2 (onesAdd_lt hm ha h.1), List.sum_cons, ← Nat.add_assoc]
    apply residue_congr ((fold_modEq hm (a + w)).add_right _)
    rw [Nat.add_eq_zero_iff, fold_eq_zero, ← Nat.add_eq_zero_iff]

theorem onesSum_eq (hm : 0 < m) {ws : List ℕ} (h : ∀ w ∈ ws, w < m) : onesSum m ws = residue m ws.sum := by
  rw [onesSum, foldl_onesAdd hm h hm, Nat.zero_add]

theorem residue_complement (hm : 1 < m) (n : ℕ) : residue m (n + (m - 1 - residue m n)) = m - 1 := by
  have hle := residue_le hm n
  rw [← residue_of_lt (show m - 1 < m by omega)]
  apply residue_congr
  · apply Nat.ModEq.add_right_cancel' (residue m n)
    rw [residue_of_lt (by omega), Nat.add_assoc, Nat.sub_add_cancel hle, Nat.add_comm]
    exact (residue_modEq m n).symm.add_left (m - 1)
  · rw [residue_of_lt (by omega)]
    constructor
    · intro h
      have h0 : n = 0 := by omega
      subst h0
      rw [residue_of_lt (by omega)] at h
      omega
    · intro h
      omega

end LinuxRecovery.OnesComplement
