import Mathlib

namespace LinuxRecovery.ByteMemory

abbrev Memory := ℕ → UInt8

def writeBytes (m : Memory) (a : ℕ) (bs : List UInt8) : Memory := fun i =>
  if a ≤ i then (bs[i - a]?).getD (m i) else m i

def fillBytes (m : Memory) (a n : ℕ) (v : ℕ → UInt8) : Memory := fun i =>
  if a ≤ i ∧ i < a + n then v i else m i

def readBytes (m : Memory) (a n : ℕ) : List UInt8 := (List.range' a n).map m

def scatter (m : Memory) : List ℕ → List UInt8 → Memory
  | a :: as, b :: bs => scatter (Function.update m a b) as bs
  | _, _ => m

theorem writeBytes_outside (m : Memory) (a i : ℕ) (bs : List UInt8)
    (h : i < a ∨ a + bs.length ≤ i) : writeBytes m a bs i = m i := by
  unfold writeBytes
  split_ifs with ha
  · rw [List.getElem?_eq_none (by omega), Option.getD_none]
  · rfl

theorem writeBytes_inside (m : Memory) (a i : ℕ) (bs : List UInt8) (h : i < bs.length) :
    writeBytes m a bs (a + i) = bs[i] := by
  simp [writeBytes, h]

theorem writeBytes_congr {m m' : Memory} {i : ℕ} (h : m i = m' i) (a : ℕ) (bs : List UInt8) :
    writeBytes m a bs i = writeBytes m' a bs i := by
  simp only [writeBytes, h]

theorem fillBytes_outside (m : Memory) (a n i : ℕ) (v : ℕ → UInt8)
    (h : i < a ∨ a + n ≤ i) : fillBytes m a n v i = m i := by
  unfold fillBytes
  rw [if_neg (by omega)]

theorem fillBytes_inside (m : Memory) (a n i : ℕ) (v : ℕ → UInt8)
    (h : a ≤ i ∧ i < a + n) : fillBytes m a n v i = v i := by
  unfold fillBytes
  rw [if_pos h]

@[simp] theorem readBytes_length (m : Memory) (a n : ℕ) : (readBytes m a n).length = n := by
  simp [readBytes]

theorem readBytes_getElem (m : Memory) (a n i : ℕ) (h : i < (readBytes m a n).length) :
    (readBytes m a n)[i] = m (a + i) := by
  simp [readBytes]

theorem readBytes_add (m : Memory) (a n k : ℕ) :
    readBytes m a (n + k) = readBytes m a n ++ readBytes m (a + n) k := by
  simp [readBytes, ← List.map_append, List.range'_append_1]

theorem readBytes_congr {m m' : Memory} {a n : ℕ} (h : ∀ i, a ≤ i → i < a + n → m i = m' i) :
    readBytes m a n = readBytes m' a n := by
  apply List.map_congr_left
  intro i hi
  have := List.mem_range'_1.mp hi
  exact h i this.1 this.2

theorem readBytes_writeBytes (m : Memory) (a : ℕ) (bs : List UInt8) :
    readBytes (writeBytes m a bs) a bs.length = bs := by
  apply List.ext_getElem
  · simp
  · intro i _ hi
    rw [readBytes_getElem, writeBytes_inside m a i bs hi]

theorem scatter_nil_left (m : Memory) (bs : List UInt8) : scatter m [] bs = m := by
  cases bs <;> rfl

theorem scatter_outside (m : Memory) (as : List ℕ) (bs : List UInt8) (i : ℕ) (h : i ∉ as) :
    scatter m as bs i = m i := by
  induction as generalizing m bs with
  | nil => rw [scatter_nil_left]
  | cons a as ih =>
    simp only [List.mem_cons, not_or] at h
    cases bs with
    | nil => rfl
    | cons b bs => rw [scatter, ih _ _ h.2, Function.update_of_ne h.1]

theorem scatter_append (m : Memory) (as as' : List ℕ) (bs bs' : List UInt8)
    (h : as.length = bs.length) :
    scatter m (as ++ as') (bs ++ bs') = scatter (scatter m as bs) as' bs' := by
  induction as generalizing m bs with
  | nil =>
    obtain rfl : bs = [] := List.length_eq_zero_iff.mp (by simpa using h.symm)
    rfl
  | cons a as ih =>
    obtain ⟨b, bs, rfl⟩ : ∃ b t, bs = b :: t := by
      cases bs with
      | nil => simp at h
      | cons b t => exact ⟨b, t, rfl⟩
    simp only [List.cons_append, scatter]
    exact ih _ _ (by simpa using h)

theorem map_scatter (m : Memory) (as : List ℕ) (bs : List UInt8) (hn : as.Nodup)
    (h : as.length = bs.length) : as.map (scatter m as bs) = bs := by
  induction as generalizing m bs with
  | nil => exact (List.length_eq_zero_iff.mp (by simpa using h.symm)).symm
  | cons a as ih =>
    obtain ⟨ha, hn⟩ := List.nodup_cons.mp hn
    cases bs with
    | nil => simp at h
    | cons b bs =>
      simp only [List.map_cons, scatter]
      rw [scatter_outside _ _ _ _ ha, Function.update_self, ih _ _ hn (by simpa using h)]

theorem scatter_getElem (m : Memory) {as : List ℕ} {bs : List UInt8} (hn : as.Nodup)
    (h : as.length = bs.length) {i x : ℕ} (hi : as[i]? = some x) : some (scatter m as bs x) = bs[i]? := by
  have hm := congrArg (fun l : List UInt8 => l[i]?) (map_scatter m as bs hn h)
  rw [List.getElem?_map, hi] at hm
  exact hm

theorem scatter_agree (m : Memory) {as : List ℕ} {bs bs' : List UInt8} (hn : as.Nodup)
    (h : as.length = bs.length) (h' : as.length = bs'.length) {x : ℕ}
    (hx : ∀ i : ℕ, as[i]? = some x → bs[i]? = bs'[i]?) : scatter m as bs x = scatter m as bs' x := by
  by_cases hmem : x ∈ as
  · obtain ⟨i, hi⟩ := List.mem_iff_getElem?.mp hmem
    apply Option.some.inj
    rw [scatter_getElem m hn h hi, scatter_getElem m hn h' hi, hx i hi]
  · rw [scatter_outside _ _ _ _ hmem, scatter_outside _ _ _ _ hmem]

theorem writeBytes_eq_scatter (m : Memory) (a : ℕ) (bs : List UInt8) :
    writeBytes m a bs = scatter m (List.range' a bs.length) bs := by
  induction bs generalizing m a with
  | nil => funext i; simp [writeBytes, scatter]
  | cons b bs ih =>
    rw [List.length_cons, List.range'_succ, scatter, ← ih]
    funext i
    simp only [writeBytes]
    rcases lt_trichotomy i a with h | rfl | h
    · rw [if_neg (by omega), if_neg (by omega), Function.update_of_ne (by omega)]
    · simp
    · obtain ⟨k, rfl⟩ : ∃ k, i = a + 1 + k := ⟨i - (a + 1), by omega⟩
      rw [if_pos (by omega), if_pos (by omega), Function.update_of_ne (by omega),
        show a + 1 + k - a = k + 1 by omega, Nat.add_sub_cancel_left, List.getElem?_cons_succ]

end LinuxRecovery.ByteMemory
