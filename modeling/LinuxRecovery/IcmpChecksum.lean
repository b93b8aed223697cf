import LinuxRecovery.IcmpEcho
import LinuxRecovery.OnesComplement

namespace LinuxRecovery.IcmpChecksum

open IcmpEcho OnesComplement

def addInt (a b : ℤ) : Option ℤ := if -2 ^ 31 ≤ a + b ∧ a + b < 2 ^ 31 then some (a + b) else none

def sumShorts : ℤ → Bytes → Option (ℤ × Bytes)
  | sum, lo :: hi :: buf => do
    let sum ← addInt sum (lo.toNat + 256 * hi.toNat)
    sumShorts sum buf
  | sum, buf => some (sum, buf)

def sumTail : ℤ → Bytes → Option ℤ
  | sum, [b] => addInt sum b.toNat
  | sum, _ => some sum

def calChksum (buf : Bytes) : Option ℤ := do
  let (sum, rest) ← sumShorts 0 buf
  let sum ← sumTail sum rest
  let sum ← addInt (sum >>> (16 : ℕ)) (sum % 2 ^ 16)
  let sum ← addInt sum (sum >>> (16 : ℕ))
  some (~~~sum)

def wordsOf : Bytes → List ℕ
  | lo :: hi :: buf => (lo.toNat + 256 * hi.toNat) :: wordsOf buf
  | [b] => [b.toNat]
  | [] => []

def setShort (buf : Bytes) (k v : ℕ) : Bytes := (buf.set k (UInt8.ofNat v)).set (k + 1) (UInt8.ofNat (v / 256))

def low16 (sum : ℤ) : ℕ := (sum % 2 ^ 16).toNat

def wordTotal (buf : Bytes) : ℕ := (wordsOf buf).sum

variable {buf : Bytes} {k v : ℕ}

theorem addInt_some {a b : ℤ} (ha : 0 ≤ a) (hb : 0 ≤ b) (h : a + b < 2 ^ 31) : addInt a b = some (a + b) :=
  if_pos ⟨by omega, h⟩

theorem wordTotal_cons (lo hi : UInt8) (buf : Bytes) :
    wordTotal (lo :: hi :: buf) = lo.toNat + 256 * hi.toNat + wordTotal buf := List.sum_cons

theorem wordsOf_lt (buf : Bytes) : ∀ w ∈ wordsOf buf, w < 2 ^ 16 := by
  induction buf using wordsOf.induct with
  | case1 lo hi buf ih =>
    rw [wordsOf, List.forall_mem_cons]
    have := lo.toNat_lt
    have := hi.toNat_lt
    exact ⟨by omega, ih⟩
  | case2 b =>
    have := b.toNat_lt
    simp only [wordsOf, List.mem_singleton, forall_eq]
    omega
  | case3 => simp [wordsOf]

theorem wordTotal_le (buf : Bytes) : wordTotal buf ≤ 65535 * (buf.length / 2) + 255 * (buf.length % 2) := by
  induction buf using wordsOf.induct with
  | case1 lo hi buf ih =>
    have := lo.toNat_lt
    have := hi.toNat_lt
    rw [wordTotal_cons, List.length_cons, List.length_cons]
    omega
  | case2 b =>
    have := b.toNat_lt
    simp only [wordTotal, wordsOf, List.sum_singleton, List.length_singleton]
    omega
  | case3 => simp [wordTotal, wordsOf]

theorem sumShorts_total (buf : Bytes) {acc : ℤ} (h0 : 0 ≤ acc) (h : acc + wordTotal buf < 2 ^ 31) :
    ∃ sum rest, sumShorts acc buf = some (sum, rest) ∧ sumTail sum rest = some (acc + wordTotal buf) := by
  induction buf using wordsOf.induct generalizing acc with
  | case1 lo hi buf ih =>
    rw [wordTotal_cons] at h ⊢
    push_cast at h ⊢
    rw [sumShorts, addInt_some h0 (by omega) (by omega)]
    have hacc : 0 ≤ acc + (lo.toNat + 256 * hi.toNat) := by omega
    obtain ⟨sum, rest, hsum, htail⟩ := ih hacc (by omega)
    exact ⟨sum, rest, hsum, by rw [htail]; congr 1; omega⟩
  | case2 b =>
    simp only [wordTotal, wordsOf, List.sum_singleton] at h ⊢
    exact ⟨acc, [b], rfl, addInt_some h0 (by omega) h⟩
  | case3 => exact ⟨acc, [], rfl, by simp [sumTail, wordTotal, wordsOf]⟩

theorem shiftRight_cast (n : ℕ) : (n : ℤ) >>> (16 : ℕ) = (n / 2 ^ 16 : ℕ) := by
  rw [Int.shiftRight_eq_div_pow, Int.natCast_ediv]

theorem low16_not (n : ℕ) : low16 (~~~(n : ℤ)) = 2 ^ 16 - 1 - n % 2 ^ 16 := by
  have hnot : ~~~(n : ℤ) = -(n : ℤ) - 1 := by
    change Int.negSucc n = _
    omega
  rw [low16, hnot]
  omega

theorem fold_twice {n : ℕ} (h : n < 2 ^ 31) :
    (n % 2 ^ 16 + n / 2 ^ 16 + (n % 2 ^ 16 + n / 2 ^ 16) / 2 ^ 16) % 2 ^ 16 = residue (2 ^ 16) n := by
  have hpos : 0 < 2 ^ 16 := Nat.two_pow_pos 16
  rw [← residue_fold hpos n, ← residue_fold hpos (n % 2 ^ 16 + n / 2 ^ 16)]
  rw [residue_of_lt (by omega)]
  omega

theorem calChksum_complement (h : wordTotal buf < 2 ^ 31) :
    ∃ r, calChksum buf = some r ∧ low16 r = 2 ^ 16 - 1 - residue (2 ^ 16) (wordTotal buf) := by
  obtain ⟨sum, rest, hsum, htail⟩ := sumShorts_total buf le_rfl (by omega)
  rw [Int.zero_add] at htail
  rw [← fold_twice h, ← low16_not]
  generalize wordTotal buf = n at h htail
  have hfirst : addInt ((n : ℤ) >>> (16 : ℕ)) ((n : ℤ) % 2 ^ 16) = some ((n % 2 ^ 16 + n / 2 ^ 16 : ℕ) : ℤ) := by
    rw [shiftRight_cast, addInt_some (by omega) (by omega) (by omega)]
    congr 1
    omega
  have hsmall : n % 2 ^ 16 + n / 2 ^ 16 < 2 ^ 30 := by omega
  generalize n % 2 ^ 16 + n / 2 ^ 16 = s at hfirst hsmall ⊢
  have hsecond : addInt (s : ℤ) ((s : ℤ) >>> (16 : ℕ)) = some ((s + s / 2 ^ 16 : ℕ) : ℤ) := by
    rw [shiftRight_cast, addInt_some (by omega) (by omega) (by omega), Nat.cast_add]
  refine ⟨~~~((s + s / 2 ^ 16 : ℕ) : ℤ), ?_, rfl⟩
  rw [calChksum, hsum, Option.bind_eq_bind, Option.bind_some]
  dsimp only
  rw [htail, Option.bind_eq_bind, Option.bind_some, hfirst, Option.bind_some, hsecond, Option.bind_some]

theorem two_bytes {b : UInt8} (h : buf[k + 1]? = some b) : ∃ lo hi rest, buf = lo :: hi :: rest := by
  rcases buf with _ | ⟨lo, _ | ⟨hi, rest⟩⟩
  · cases h
  · cases h
  · exact ⟨lo, hi, rest, rfl⟩

theorem setShort_total (hv : v < 2 ^ 16) (heven : 2 ∣ k) (hlo : buf[k]? = some 0) (hhi : buf[k + 1]? = some 0) :
    wordTotal (setShort buf k v) = wordTotal buf + v := by
  obtain ⟨j, rfl⟩ := heven
  induction j generalizing buf with
  | zero =>
    obtain ⟨lo, hi, rest, rfl⟩ := two_bytes hhi
    simp only [Nat.mul_zero, List.getElem?_cons_zero, Option.some_inj, Nat.zero_add, List.getElem?_cons_succ] at hlo hhi
    subst hlo hhi
    simp [setShort, wordTotal, wordsOf]
    omega
  | succ j ih =>
    obtain ⟨lo, hi, rest, rfl⟩ := two_bytes hhi
    have hset : setShort (lo :: hi :: rest) (2 * (j + 1)) v = lo :: hi :: setShort rest (2 * j) v := rfl
    rw [hset, wordTotal_cons, ih hlo hhi, wordTotal_cons, ← Nat.add_assoc]

theorem stored_sums (h : wordTotal buf < 2 ^ 31) (heven : 2 ∣ k) (hlo : buf[k]? = some 0) (hhi : buf[k + 1]? = some 0) :
    ∃ r, calChksum buf = some r ∧ onesSum (2 ^ 16) (wordsOf (setShort buf k (low16 r))) = 0xffff := by
  obtain ⟨r, hr, hlow⟩ := calChksum_complement h
  refine ⟨r, hr, ?_⟩
  rw [onesSum_eq (Nat.two_pow_pos 16) (wordsOf_lt _), show (wordsOf _).sum = wordTotal _ from rfl,
    setShort_total (by omega) heven hlo hhi, hlow]
  exact residue_complement (Nat.one_lt_two_pow (by omega)) _

/-- No step of the sum overflows, and the checksum, stored into a field that was zero, makes the words add up to
all ones. -/
theorem checksum_sums (packet : Bytes) (k : ℕ) (hmin : 8 ≤ packet.length) (hmax : packet.length ≤ 65535) (heven : 2 ∣ k)
    (hlo : packet[k]? = some 0) (hhi : packet[k + 1]? = some 0) :
    ∃ r, calChksum packet = some r ∧ onesSum (2 ^ 16) (wordsOf (setShort packet k (low16 r))) = 0xffff := by
  have hle := wordTotal_le packet
  exact stored_sums (by omega) heven hlo hhi

theorem checksum_sums_nine : ∃ r, calChksum [8, 0, 1, 2, 3, 4, 0, 0, 255] = some r ∧
    onesSum (2 ^ 16) (wordsOf (setShort [8, 0, 1, 2, 3, 4, 0, 0, 255] 6 (low16 r))) = 0xffff :=
  checksum_sums [8, 0, 1, 2, 3, 4, 0, 0, 255] 6 (by decide) (by decide) (by decide) (by decide) (by decide)

end LinuxRecovery.IcmpChecksum
