import LinuxRecovery.Loops

namespace LinuxRecovery.GoodBlocks

open Loops

/-- The addresses from `w` up to `size`, in order, that lie in a block not known to be bad. -/
def usable (bad : ℕ → Bool) (B size w : ℕ) : List ℕ :=
  (List.range' w (size - w)).filter (fun a => !bad (a / B))

variable (bad : ℕ → Bool) {B size : ℕ}

theorem mem_usable {w a : ℕ} : a ∈ usable bad B size w ↔ w ≤ a ∧ a < size ∧ bad (a / B) = false := by
  simp only [usable, List.mem_filter, List.mem_range'_1, Bool.not_eq_true']
  constructor
  · rintro ⟨⟨h1, h2⟩, h3⟩
    exact ⟨h1, by omega, h3⟩
  · rintro ⟨h1, h2, h3⟩
    exact ⟨⟨h1, by omega⟩, h3⟩

theorem usable_sorted (w : ℕ) : (usable bad B size w).Pairwise (· < ·) :=
  List.Pairwise.filter _ List.pairwise_lt_range'

theorem usable_end {w : ℕ} (h : size ≤ w) : usable bad B size w = [] := by
  simp [usable, Nat.sub_eq_zero_of_le h]

theorem usable_split {w v : ℕ} (hwv : w ≤ v) (hv : v ≤ size) :
    usable bad B size w =
      (List.range' w (v - w)).filter (fun a => !bad (a / B)) ++ usable bad B size v := by
  rw [usable, usable, ← List.filter_append]
  congr 1
  rw [show size - w = (v - w) + (size - v) by omega, ← List.range'_append_1,
    show w + (v - w) = v by omega]

theorem div_of_run {w k i : ℕ} (hk : w % B + k ≤ B) (hi : i < k) : (w + i) / B = w / B := by
  have hB : 0 < B := by omega
  have hw := Nat.div_add_mod w B
  apply Nat.div_eq_of_lt_le
  · rw [Nat.mul_comm]; omega
  · rw [Nat.add_mul, Nat.mul_comm, Nat.one_mul]; omega

theorem usable_run {w k : ℕ} (hgood : bad (w / B) = false) (hk : w % B + k ≤ B)
    (hs : w + k ≤ size) : usable bad B size w = List.range' w k ++ usable bad B size (w + k) := by
  rw [usable_split bad (Nat.le_add_right w k) hs, Nat.add_sub_cancel_left]
  congr 1
  apply List.filter_eq_self.mpr
  intro a ha
  obtain ⟨h1, h2⟩ := List.mem_range'_1.mp ha
  have hd := div_of_run (i := a - w) hk (by omega)
  rw [show w + (a - w) = a by omega] at hd
  simp [hd, hgood]

def nextBlock (B w : ℕ) : ℕ := (w + B) / B * B

theorem nextBlock_eq (hB : 0 < B) (w : ℕ) : nextBlock B w = w - w % B + B := by
  have hw := Nat.div_add_mod w B
  rw [nextBlock, Nat.add_div_right _ hB, Nat.succ_mul, Nat.mul_comm]
  omega

theorem lt_nextBlock (hB : 0 < B) (w : ℕ) : w < nextBlock B w := by
  have := Nat.mod_lt w hB
  have := Nat.mod_le w B
  rw [nextBlock_eq hB]
  omega

theorem nextBlock_dvd (w : ℕ) : B ∣ nextBlock B w := Dvd.intro_left _ rfl

theorem nextBlock_le (hB : 0 < B) {w : ℕ} (hs : B ∣ size) (hw : w < size) : nextBlock B w ≤ size := by
  obtain ⟨k, rfl⟩ := hs
  rw [nextBlock, Nat.add_div_right _ hB, Nat.mul_comm]
  exact Nat.mul_le_mul_left B (Nat.div_lt_of_lt_mul hw)

theorem div_nextBlock (hB : 0 < B) (w : ℕ) : nextBlock B w / B = w / B + 1 := by
  rw [nextBlock, Nat.mul_div_cancel _ hB, Nat.add_div_right _ hB]

theorem div_eq_of_lt_nextBlock (hB : 0 < B) {w a : ℕ} (h1 : w ≤ a) (h2 : a < nextBlock B w) :
    a / B = w / B := by
  rw [nextBlock_eq hB] at h2
  have := Nat.mod_lt w hB
  have := Nat.mod_le w B
  have hd := div_of_run (B := B) (w := w) (k := B - w % B) (i := a - w) (by omega) (by omega)
  rwa [show w + (a - w) = a by omega] at hd

theorem usable_skip (hB : 0 < B) {w : ℕ} (hbad : bad (w / B) = true) :
    usable bad B size w = usable bad B size (nextBlock B w) := by
  have hlt := lt_nextBlock hB w
  by_cases hs : nextBlock B w ≤ size
  · rw [usable_split bad (Nat.le_of_lt hlt) hs, List.filter_eq_nil_iff.mpr, List.nil_append]
    intro a ha
    obtain ⟨h1, h2⟩ := List.mem_range'_1.mp ha
    simp [div_eq_of_lt_nextBlock hB h1 (by omega), hbad]
  · rw [usable_end bad (by omega : size ≤ nextBlock B w)]
    apply List.filter_eq_nil_iff.mpr
    intro a ha
    obtain ⟨h1, h2⟩ := List.mem_range'_1.mp ha
    simp [div_eq_of_lt_nextBlock hB h1 (by omega), hbad]

def skipLoop (bad : ℕ → Bool) (size : ℕ) (hB : 0 < B) : Loop ℕ ℕ where
  step w :=
    if w < size ∧ bad (w / B) = true then .next (nextBlock B w) else .done w
  measure w := size - w
  decreasing := by
    intro s t h
    have := lt_nextBlock hB s
    split_ifs at h with hs
    cases h
    omega

def skip (bad : ℕ → Bool) (size : ℕ) (hB : 0 < B) (w : ℕ) : ℕ := (skipLoop bad size hB).exec w

theorem skip_good (hB : 0 < B) {w : ℕ} (h : bad (w / B) = false) : skip bad size hB w = w :=
  (skipLoop bad size hB).exec_done (by simp [skipLoop, h])

theorem skip_end (hB : 0 < B) {w : ℕ} (h : size ≤ w) : skip bad size hB w = w :=
  (skipLoop bad size hB).exec_done (by simp [skipLoop, Nat.not_lt.mpr h])

theorem skip_bad (hB : 0 < B) {w : ℕ} (hw : w < size) (h : bad (w / B) = true) :
    skip bad size hB w = skip bad size hB (nextBlock B w) :=
  (skipLoop bad size hB).exec_next (by simp [skipLoop, h, hw])

theorem skip_induct (size : ℕ) (hB : 0 < B) {P : ℕ → Prop} (good : ∀ w, bad (w / B) = false → P w)
    (past : ∀ w, size ≤ w → P w)
    (next : ∀ w, w < size → bad (w / B) = true → P (nextBlock B w) → P w) (w : ℕ) : P w := by
  induction w using (skipLoop bad size hB).induct with
  | h w ih =>
    by_cases hw : w < size
    · cases hb : bad (w / B) with
      | false => exact good w hb
      | true => exact next w hw hb (ih _ (by simp [skipLoop, hb, hw]))
    · exact past w (by omega)

theorem le_skip (hB : 0 < B) (w : ℕ) : w ≤ skip bad size hB w := by
  induction w using skip_induct bad size hB with
  | good w h => rw [skip_good bad hB h]
  | past w h => rw [skip_end bad hB h]
  | next w hw hb ih =>
    rw [skip_bad bad hB hw hb]
    exact (lt_nextBlock hB w).le.trans ih

theorem skip_notBad (hB : 0 < B) {w : ℕ} (h : skip bad size hB w < size) :
    bad (skip bad size hB w / B) = false := by
  induction w using skip_induct bad size hB with
  | good w hg => rwa [skip_good bad hB hg]
  | past w hp => rw [skip_end bad hB hp] at h; omega
  | next w hw hb ih => rw [skip_bad bad hB hw hb] at h ⊢; exact ih h

theorem usable_skip_eq (hB : 0 < B) (w : ℕ) :
    usable bad B size (skip bad size hB w) = usable bad B size w := by
  induction w using skip_induct bad size hB with
  | good w h => rw [skip_good bad hB h]
  | past w h => rw [skip_end bad hB h]
  | next w hw hb ih => rw [skip_bad bad hB hw hb, ih, ← usable_skip bad hB hb]

theorem skip_skipped (hB : 0 < B) {w a : ℕ} (hw : w ≤ a) (h : a < skip bad size hB w) :
    bad (a / B) = true := by
  induction w using skip_induct bad size hB with
  | good w hg => rw [skip_good bad hB hg] at h; omega
  | past w hp => rw [skip_end bad hB hp] at h; omega
  | next w hws hb ih =>
    rw [skip_bad bad hB hws hb] at h
    by_cases ha : a < nextBlock B w
    · rw [div_eq_of_lt_nextBlock hB hw ha, hb]
    · exact ih (by omega) h

theorem skip_dvd (hB : 0 < B) {n w : ℕ} (hn : n ∣ B) (h : n ∣ w) : n ∣ skip bad size hB w := by
  induction w using skip_induct bad size hB with
  | good w hg => rwa [skip_good bad hB hg]
  | past w hp => rwa [skip_end bad hB hp]
  | next w hws hb ih =>
    rw [skip_bad bad hB hws hb]
    exact ih (hn.trans (nextBlock_dvd w))

end LinuxRecovery.GoodBlocks
