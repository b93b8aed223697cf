import Mathlib

namespace LinuxRecovery.Attempts

variable {α : Type} (fails : α → Bool)

def attempted : ℕ → List α → List α
  | _, [] => []
  | n, a :: as => if n = 0 then [] else a :: attempted (if fails a = true then n else n - 1) as

@[simp] theorem attempted_zero (as : List α) : attempted fails 0 as = [] := by
  cases as <;> rfl

@[simp] theorem attempted_nil (n : ℕ) : attempted fails n [] = [] := rfl

theorem attempted_cons {n : ℕ} (hn : n ≠ 0) (a : α) (as : List α) :
    attempted fails n (a :: as) = a :: attempted fails (if fails a = true then n else n - 1) as := by
  rw [attempted, if_neg hn]

theorem attempted_start (n : ℕ) (as : List α) : attempted fails n as <+: as := by
  induction as generalizing n with
  | nil => exact List.prefix_rfl
  | cons a as ih =>
    by_cases hn : n = 0
    · rw [hn, attempted_zero]
      exact List.nil_prefix
    · rw [attempted_cons fails hn]
      exact List.cons_prefix_cons.mpr ⟨rfl, ih _⟩

theorem attempted_filter (n : ℕ) (as : List α) :
    (attempted fails n as).filter (fun a => !fails a) = (as.filter (fun a => !fails a)).take n := by
  induction as generalizing n with
  | nil => simp
  | cons a as ih =>
    obtain _ | n := n
    · simp
    · rw [attempted_cons fails (Nat.succ_ne_zero n)]
      cases hf : fails a with
      | true => simp [hf, ih]
      | false => simp [hf, ih]

end LinuxRecovery.Attempts
