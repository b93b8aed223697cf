import Mathlib

namespace LinuxRecovery.BlockStream

variable {σ α : Type} (size : ℕ) (f : σ → List α → σ)

def feed (s : σ × List α) (x : α) : σ × List α :=
  if s.2.length + 1 = size then (f s.1 (s.2 ++ [x]), []) else (s.1, s.2 ++ [x])

def chain : ℕ → σ → List α → σ
  | 0, s, _ => s
  | k + 1, s, xs => chain k (f s (xs.take size)) (xs.drop size)

variable {size f}

theorem feed_short (s : σ) (rest xs : List α) (h : rest.length + xs.length < size) :
    xs.foldl (feed size f) (s, rest) = (s, rest ++ xs) := by
  induction xs generalizing rest with
  | nil => rw [List.append_nil]; rfl
  | cons x xs ih =>
    rw [List.length_cons] at h
    rw [List.foldl_cons, feed, if_neg (by dsimp only; omega), ih _ (by simp; omega), List.append_assoc]
    rfl

theorem feed_block (s : σ) (rest xs : List α) (hxs : xs ≠ []) (h : rest.length + xs.length = size) :
    xs.foldl (feed size f) (s, rest) = (f s (rest ++ xs), []) := by
  obtain ⟨ys, y, rfl⟩ := List.eq_nil_or_concat xs |>.resolve_left hxs
  rw [List.concat_eq_append] at h ⊢
  rw [List.length_append, List.length_singleton] at h
  rw [List.foldl_append, feed_short s rest ys (by omega), List.foldl_cons, List.foldl_nil, feed,
    if_pos (by simp; omega), List.append_assoc]

theorem feed_chain (hsize : 0 < size) (s : σ) (k : ℕ) (xs : List α) (h : xs.length = k * size) :
    xs.foldl (feed size f) (s, []) = (chain size f k s xs, []) := by
  induction k generalizing s xs with
  | zero =>
    obtain rfl : xs = [] := List.length_eq_zero_iff.mp (by omega)
    rfl
  | succ k ih =>
    rw [Nat.succ_mul] at h
    have htake : (xs.take size).length = size := by rw [List.length_take]; omega
    have hne : xs.take size ≠ [] := fun h0 => by rw [h0] at htake; exact hsize.ne htake
    rw [← List.take_append_drop size xs, List.foldl_append, feed_block _ [] _ hne (by simpa using htake),
      List.nil_append, ih _ _ (by rw [List.length_drop]; omega), chain, List.take_append_drop]

theorem chain_congr {g : σ → List α → σ} (hfg : ∀ s block, block.length = size → f s block = g s block) (s : σ) (k : ℕ)
    (xs : List α) (h : xs.length = k * size) : chain size f k s xs = chain size g k s xs := by
  induction k generalizing s xs with
  | zero => rfl
  | succ k ih =>
    rw [Nat.succ_mul] at h
    rw [chain, chain, hfg _ _ (by rw [List.length_take]; omega), ih _ _ (by rw [List.length_drop]; omega)]

end LinuxRecovery.BlockStream
