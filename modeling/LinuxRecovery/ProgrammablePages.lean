import LinuxRecovery.GoodBlocks

namespace LinuxRecovery.ProgrammablePages

open GoodBlocks

def sound (weak : ℕ → Bool) (B P w a : ℕ) : Bool :=
  (List.range' w (a + 1 - w)).all (fun p => !(decide (p / B = a / B) && decide (P ∣ p) && weak p))

def programmable (bad weak : ℕ → Bool) (B P size w : ℕ) : List ℕ :=
  (List.range' w (size - w)).filter (fun a => !bad (a / B) && sound weak B P w a)

variable {bad weak : ℕ → Bool} {B P size : ℕ}

theorem sound_iff {w a : ℕ} : sound weak B P w a = true ↔
    ∀ p, w ≤ p → p ≤ a → p / B = a / B → P ∣ p → weak p = false := by
  simp only [sound, List.all_eq_true, List.mem_range'_1, Bool.not_eq_true', Bool.and_eq_false_iff,
    decide_eq_false_iff_not]
  constructor
  · intro h p h1 h2 h3 h4
    rcases h p ⟨h1, by omega⟩ with (h | h) | h
    · exact absurd h3 h
    · exact absurd h4 h
    · exact h
  · rintro h p ⟨h1, h2⟩
    by_cases h3 : p / B = a / B
    · by_cases h4 : P ∣ p
      · exact .inr (h p h1 (by omega) h3 h4)
      · exact .inl (.inr h4)
    · exact .inl (.inl h3)

theorem mem_programmable {w a : ℕ} : a ∈ programmable bad weak B P size w ↔
    w ≤ a ∧ a < size ∧ bad (a / B) = false ∧ sound weak B P w a = true := by
  simp only [programmable, List.mem_filter, List.mem_range'_1, Bool.and_eq_true, Bool.not_eq_true']
  constructor
  · rintro ⟨⟨h1, h2⟩, h3, h4⟩
    exact ⟨h1, by omega, h3, h4⟩
  · rintro ⟨h1, h2, h3, h4⟩
    exact ⟨⟨h1, by omega⟩, h3, h4⟩

theorem programmable_sorted (w : ℕ) : (programmable bad weak B P size w).Pairwise (· < ·) :=
  List.Pairwise.filter _ List.pairwise_lt_range'

theorem programmable_nodup (w : ℕ) : (programmable bad weak B P size w).Nodup :=
  (programmable_sorted w).imp (fun h => Nat.ne_of_lt h)

theorem programmable_end {w : ℕ} (h : size ≤ w) : programmable bad weak B P size w = [] := by
  simp [programmable, Nat.sub_eq_zero_of_le h]

theorem programmable_length_le (w : ℕ) : (programmable bad weak B P size w).length ≤ size - w := by
  simpa [programmable] using List.length_filter_le _ (List.range' w (size - w))

theorem programmable_split (bad' : ℕ → Bool) {w v : ℕ} (hwv : w ≤ v) (hv : v ≤ size)
    (hs : ∀ a, v ≤ a → sound weak B P w a = sound weak B P v a)
    (hb : ∀ a, v ≤ a → bad (a / B) = bad' (a / B)) :
    programmable bad weak B P size w =
      (List.range' w (v - w)).filter (fun a => !bad (a / B) && sound weak B P w a) ++
        programmable bad' weak B P size v := by
  have hr : List.range' w (size - w) = List.range' w (v - w) ++ List.range' v (size - v) := by
    rw [show size - w = (v - w) + (size - v) by omega, ← List.range'_append_1,
      show w + (v - w) = v by omega]
  rw [programmable, hr, List.filter_append, programmable]
  congr 1
  apply List.filter_congr
  intro a ha
  have := (List.mem_range'_1.mp ha).1
  rw [hs a this, hb a this]

theorem sound_nextBlock (hB : 0 < B) {w a : ℕ} (ha : nextBlock B w ≤ a) :
    sound weak B P w a = sound weak B P (nextBlock B w) a := by
  have hlt := lt_nextBlock hB w
  apply Bool.eq_iff_iff.mpr
  rw [sound_iff, sound_iff]
  constructor
  · intro h p h1
    exact h p (by omega)
  · intro h p h1 h2 h3 h4
    apply h p _ h2 h3 h4
    by_contra hp
    have hpb := div_eq_of_lt_nextBlock hB h1 (by omega)
    have := Nat.div_le_div_right (c := B) ha
    rw [div_nextBlock hB] at this
    omega

theorem programmable_leave (hB : 0 < B) (hs : B ∣ size) {bad' : ℕ → Bool} {w : ℕ} (hw : w < size)
    (hempty : ∀ a, w ≤ a → a < nextBlock B w → bad (a / B) = true ∨ sound weak B P w a = false)
    (hb : ∀ b, b ≠ w / B → bad b = bad' b) :
    programmable bad weak B P size w = programmable bad' weak B P size (nextBlock B w) := by
  have hlt := lt_nextBlock hB w
  rw [programmable_split bad' hlt.le (nextBlock_le hB hs hw)
      (fun a ha => sound_nextBlock hB ha), List.filter_eq_nil_iff.mpr, List.nil_append]
  · intro a ha
    obtain ⟨h1, h2⟩ := List.mem_range'_1.mp ha
    rcases hempty a h1 (by omega) with h | h <;> simp [h]
  · intro a ha
    apply hb
    have := Nat.div_le_div_right (c := B) ha
    rw [div_nextBlock hB] at this
    omega

theorem programmable_skip (hB : 0 < B) (hs : B ∣ size) (w : ℕ) :
    programmable bad weak B P size (skip bad size hB w) = programmable bad weak B P size w := by
  induction w using skip_induct bad size hB with
  | good w h => rw [skip_good bad hB h]
  | past w h => rw [skip_end bad hB h]
  | next w hw hb ih =>
    rw [skip_bad bad hB hw hb, ih]
    refine (programmable_leave hB hs hw (fun a h1 h2 => .inl ?_) (fun _ _ => rfl)).symm
    rw [div_eq_of_lt_nextBlock hB h1 h2, hb]

theorem programmable_weak (hB : 0 < B) (hs : B ∣ size) {bad' : ℕ → Bool} {w : ℕ} (hw : w < size)
    (hP : P ∣ w) (hweak : weak w = true) (hb : ∀ b, b ≠ w / B → bad b = bad' b) :
    programmable bad weak B P size w = programmable bad' weak B P size (nextBlock B w) := by
  refine programmable_leave hB hs hw (fun a h1 h2 => .inr ?_) hb
  by_contra h
  rw [Bool.not_eq_false, sound_iff] at h
  rw [h w le_rfl h1 (div_eq_of_lt_nextBlock hB h1 h2).symm hP] at hweak
  cases hweak

theorem eq_of_page {w p : ℕ} (hw : P ∣ w) (hp : P ∣ p) (h1 : w ≤ p) (h2 : p < w + P) : p = w := by
  obtain ⟨i, rfl⟩ := hw
  obtain ⟨j, rfl⟩ := hp
  have hi : i ≤ j := Nat.le_of_mul_le_mul_left h1 (by omega)
  have hj : j < i + 1 := Nat.lt_of_mul_lt_mul_left (a := P) (by rw [Nat.mul_succ]; exact h2)
  rw [show j = i by omega]

theorem programmable_page {w : ℕ} (hgood : bad (w / B) = false) (hP : P ∣ w) (hweak : weak w = false)
    (hk : w % B + P ≤ B) (hs : w + P ≤ size) :
    programmable bad weak B P size w = List.range' w P ++ programmable bad weak B P size (w + P) := by
  have hpage (p : ℕ) (h1 : w ≤ p) (h2 : p < w + P) (hd : P ∣ p) : weak p = false := by
    rw [eq_of_page hP hd h1 h2, hweak]
  rw [programmable_split bad (Nat.le_add_right w P) hs ?_ (fun _ _ => rfl),
    Nat.add_sub_cancel_left]
  · congr 1
    apply List.filter_eq_self.mpr
    intro a ha
    obtain ⟨h1, h2⟩ := List.mem_range'_1.mp ha
    have hd := div_of_run (i := a - w) hk (by omega)
    rw [show w + (a - w) = a by omega] at hd
    have hsound : sound weak B P w a = true :=
      sound_iff.mpr (fun p hp hpa _ hd => hpage p hp (by omega) hd)
    simp [hd, hgood, hsound]
  · intro a ha
    apply Bool.eq_iff_iff.mpr
    rw [sound_iff, sound_iff]
    constructor
    · intro h p h1
      exact h p (by omega)
    · intro h p h1 h2 h3 h4
      by_cases hp : p < w + P
      · exact hpage p h1 hp h4
      · exact h p (by omega) h2 h3 h4

theorem take_filter_eq {L : List ℕ} (hL : L.Pairwise (· < ·)) {p q : ℕ → Bool} {n : ℕ}
    (hn : n ≤ (L.filter p).length) (hq : ∀ a ∈ (L.filter p).take n, q a = true)
    (hp : ∀ a ∈ L, q a = true → (∃ x ∈ (L.filter p).take n, a ≤ x) → p a = true) :
    (L.filter q).take n = (L.filter p).take n := by
  induction L generalizing n with
  | nil => rfl
  | cons a L ih =>
    obtain ⟨hlt, hL⟩ := List.pairwise_cons.mp hL
    cases n with
    | zero => rfl
    | succ n =>
      cases hpa : p a with
      | true =>
        rw [List.filter_cons_of_pos hpa] at hn hq hp ⊢
        have hqa := hq a (by simp)
        rw [List.filter_cons_of_pos hqa, List.take_succ_cons, List.take_succ_cons,
          ih hL (by simpa using hn) (fun b hb => hq b (by simp [hb]))]
        rintro b hb hqb ⟨x, hx, hbx⟩
        exact hp b (by simp [hb]) hqb ⟨x, by simp [hx], hbx⟩
      | false =>
        have hpf : (a :: L).filter p = L.filter p := List.filter_cons_of_neg (by simp [hpa])
        rw [hpf] at hn hq hp ⊢
        have hqa : q a = false := by
          by_contra hqa
          obtain ⟨x, rest, hx⟩ : ∃ x rest, L.filter p = x :: rest := by
            cases hf : L.filter p with
            | nil => simp [hf] at hn
            | cons x rest => exact ⟨x, rest, rfl⟩
          have hxL : x ∈ L := (List.mem_filter.mp (hx ▸ List.mem_cons_self)).1
          have := hp a (by simp) (by simpa using hqa) ⟨x, by simp [hx], (hlt x hxL).le⟩
          rw [hpa] at this
          cases this
        have hqf : (a :: L).filter q = L.filter q := List.filter_cons_of_neg (by simp [hqa])
        rw [hqf]
        exact ih hL hn hq (fun b hb => hp b (by simp [hb]))

end LinuxRecovery.ProgrammablePages
