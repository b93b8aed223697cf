import LinuxRecovery.Montgomery

namespace LinuxRecovery.RsaWords

open Montgomery

def value (ws : List UInt32) : ℕ := Nat.ofDigits (2 ^ 32) (ws.map UInt32.toNat)

def radix (n : List UInt32) : ℕ := (2 ^ 32) ^ n.length

def subWords : List UInt32 → List UInt32 → ℤ → List UInt32 × ℤ
  | n :: ns, a :: as, A =>
    let A := A + ((a.toNat : ℤ) - n.toNat)
    let (out, A') := subWords ns as (A / 2 ^ 32)
    (UInt32.ofNat (A % 2 ^ 32).toNat :: out, A')
  | _, _, A => ([], A)

def subM (n a : List UInt32) : List UInt32 := (subWords n a 0).1

def geWords : List UInt32 → List UInt32 → Bool
  | n :: ns, a :: as => if a < n then false else if n < a then true else geWords ns as
  | _, _ => true

def geM (n a : List UInt32) : Bool := geWords n.reverse a.reverse

def mulAddWords (a d0 : UInt32) : List UInt32 → List UInt32 → List UInt32 → UInt64 → UInt64 →
    List UInt32 × UInt64 × UInt64
  | n :: ns, b :: bs, c :: cs, A, B =>
    let A := (A >>> 32) + a.toUInt64 * b.toUInt64 + c.toUInt64
    let B := (B >>> 32) + d0.toUInt64 * n.toUInt64 + A.toUInt32.toUInt64
    let (out, A', B') := mulAddWords a d0 ns bs cs A B
    (B.toUInt32 :: out, A', B')
  | _, _, _, A, B => ([], A, B)

def montMulAdd (n0inv : UInt32) (n c : List UInt32) (a : UInt32) (b : List UInt32) : List UInt32 :=
  match n, b, c with
  | n₀ :: ns, b₀ :: bs, c₀ :: cs =>
    let A := a.toUInt64 * b₀.toUInt64 + c₀.toUInt64
    let d0 := A.toUInt32 * n0inv
    let B := d0.toUInt64 * n₀.toUInt64 + A.toUInt32.toUInt64
    let (out, A, B) := mulAddWords a d0 ns bs cs A B
    let A := (A >>> 32) + (B >>> 32)
    let c := out ++ [A.toUInt32]
    if A >>> 32 ≠ 0 then subM n c else c
  | _, _, c => c

def montMul (n0inv : UInt32) (n a b : List UInt32) : List UInt32 :=
  a.foldl (fun c a => montMulAdd n0inv n c a b) (List.replicate n.length 0)

section Value

@[simp] theorem value_nil : value [] = 0 := rfl

@[simp] theorem value_cons (w : UInt32) (ws : List UInt32) : value (w :: ws) = w.toNat + 2 ^ 32 * value ws := by
  simp [value, Nat.ofDigits_cons]

theorem value_append (xs ys : List UInt32) : value (xs ++ ys) = value xs + (2 ^ 32) ^ xs.length * value ys := by
  simp [value, Nat.ofDigits_append]

theorem value_lt (ws : List UInt32) : value ws < (2 ^ 32) ^ ws.length := by
  have h := Nat.ofDigits_lt_base_pow_length (b := 2 ^ 32) (l := ws.map UInt32.toNat) (by norm_num)
    (by simpa using fun w _ => w.toNat_lt)
  simpa [value] using h

@[simp] theorem value_replicate_zero (k : ℕ) : value (List.replicate k 0) = 0 := by
  induction k with
  | zero => rfl
  | succ k ih => rw [List.replicate_succ, value_cons, ih]; rfl

end Value

section Subtract

theorem subWords_length (n a : List UInt32) (A : ℤ) (h : a.length = n.length) :
    (subWords n a A).1.length = n.length := by
  induction n generalizing a A with
  | nil => simp [subWords]
  | cons n ns ih =>
    cases a with
    | nil => simp at h
    | cons a as => simp [subWords, ih as _ (by simpa using h)]

theorem subWords_value (n a : List UInt32) (A : ℤ) (h : a.length = n.length) :
    (value (subWords n a A).1 : ℤ) + (2 ^ 32) ^ n.length * (subWords n a A).2 = value a - value n + A := by
  induction n generalizing a A with
  | nil =>
    obtain rfl : a = [] := List.length_eq_zero_iff.mp (by simpa using h)
    simp [subWords]
  | cons n ns ih =>
    cases a with
    | nil => simp at h
    | cons a as =>
      have hrest := ih as ((A + ((a.toNat : ℤ) - n.toNat)) / 2 ^ 32) (by simpa using h)
      have hdiv := Int.emod_add_mul_ediv (A + ((a.toNat : ℤ) - n.toNat)) (2 ^ 32)
      have hword : ((UInt32.ofNat ((A + ((a.toNat : ℤ) - n.toNat)) % 2 ^ 32).toNat).toNat : ℤ) =
          (A + ((a.toNat : ℤ) - n.toNat)) % 2 ^ 32 := by
        rw [UInt32.toNat_ofNat']
        omega
      simp only [subWords, value_cons, List.length_cons, pow_succ]
      push_cast at hrest hdiv hword ⊢
      linear_combination hword + hdiv + 2 ^ 32 * hrest

theorem subM_length {n a : List UInt32} (h : a.length = n.length) : (subM n a).length = n.length :=
  subWords_length n a 0 h

theorem subM_value {n a : List UInt32} (h : a.length = n.length) {t : ℕ} (ht : t < radix n)
    (hmod : t + value n ≡ value a [MOD radix n]) : value (subM n a) = t := by
  have hval := subWords_value n a 0 h
  have hlt := value_lt (subM n a)
  rw [subM_length h] at hlt
  have heq : value (subM n a) ≡ t [MOD radix n] := by
    apply Nat.ModEq.add_right_cancel' (value n)
    refine Nat.ModEq.trans ?_ hmod.symm
    apply (Int.natCast_modEq_iff).mp
    rw [Int.modEq_iff_dvd]
    refine ⟨(subWords n a 0).2, ?_⟩
    rw [subM, radix]
    push_cast
    linear_combination -hval
  exact Nat.ModEq.eq_of_lt_of_lt heq hlt ht

theorem geWords_iff (n a : List UInt32) (h : a.length = n.length) :
    geWords n a = true ↔ value n.reverse ≤ value a.reverse := by
  induction n generalizing a with
  | nil => simp [geWords]
  | cons n ns ih =>
    cases a with
    | nil => simp at h
    | cons a as =>
      have hlen : as.length = ns.length := by simpa using h
      have hn := value_lt ns.reverse
      have ha := value_lt as.reverse
      rw [List.length_reverse] at hn ha
      rw [hlen] at ha
      simp only [geWords, List.reverse_cons, value_append, List.length_reverse, hlen, value_cons, value_nil,
        mul_zero, add_zero]
      split_ifs with h1 h2
      · have hlt : a.toNat + 1 ≤ n.toNat := UInt32.lt_iff_toNat_lt.mp h1
        have := Nat.mul_le_mul_left ((2 ^ 32) ^ ns.length) hlt
        simp only [false_iff, not_le]
        nlinarith
      · have hlt : n.toNat + 1 ≤ a.toNat := UInt32.lt_iff_toNat_lt.mp h2
        have := Nat.mul_le_mul_left ((2 ^ 32) ^ ns.length) hlt
        simp only [true_iff]
        nlinarith
      · have heq : a = n := by
          apply UInt32.toNat.inj
          have := UInt32.lt_iff_toNat_lt.not.mp h1
          have := UInt32.lt_iff_toNat_lt.not.mp h2
          omega
        rw [ih as hlen, heq, Nat.add_le_add_iff_right]

theorem geM_iff {n a : List UInt32} (h : a.length = n.length) : geM n a = true ↔ value n ≤ value a := by
  rw [geM, geWords_iff _ _ (by simpa using h), List.reverse_reverse, List.reverse_reverse]

end Subtract

section Multiply

theorem toNat_shiftRight (x : UInt64) : (x >>> 32).toNat = x.toNat / 2 ^ 32 := by
  simp [UInt64.toNat_shiftRight, Nat.shiftRight_eq_div_pow]

theorem toNat_low (x : UInt64) : x.toUInt32.toNat = x.toNat % 2 ^ 32 := UInt64.toNat_toUInt32 x

theorem toNat_mulAdd (x : UInt64) (hx : x.toNat < 2 ^ 32) (a b c : UInt32) :
    (x + a.toUInt64 * b.toUInt64 + c.toUInt64).toNat = x.toNat + a.toNat * b.toNat + c.toNat := by
  have ha := a.toNat_lt
  have hb := b.toNat_lt
  have hc := c.toNat_lt
  have hab : a.toNat * b.toNat ≤ (2 ^ 32 - 1) * (2 ^ 32 - 1) := Nat.mul_le_mul (by omega) (by omega)
  simp only [UInt64.toNat_add, UInt64.toNat_mul, UInt32.toNat_toUInt64]
  norm_num at hab ⊢
  omega

theorem mulAddWords_length (a d0 : UInt32) (n b c : List UInt32) (A B : UInt64) (hb : b.length = n.length)
    (hc : c.length = n.length) : (mulAddWords a d0 n b c A B).1.length = n.length := by
  induction n generalizing b c A B with
  | nil => simp [mulAddWords]
  | cons n ns ih =>
    cases b with
    | nil => simp at hb
    | cons b bs =>
      cases c with
      | nil => simp at hc
      | cons c cs => simp [mulAddWords, ih bs cs _ _ (by simpa using hb) (by simpa using hc)]

theorem mulAddWords_value (a d0 : UInt32) (n b c : List UInt32) (A B : UInt64) (hb : b.length = n.length)
    (hc : c.length = n.length) :
    value (mulAddWords a d0 n b c A B).1 + (2 ^ 32) ^ n.length *
        ((mulAddWords a d0 n b c A B).2.1.toNat / 2 ^ 32 + (mulAddWords a d0 n b c A B).2.2.toNat / 2 ^ 32) =
      A.toNat / 2 ^ 32 + B.toNat / 2 ^ 32 + (value c + a.toNat * value b + d0.toNat * value n) := by
  induction n generalizing b c A B with
  | nil =>
    obtain rfl : b = [] := List.length_eq_zero_iff.mp (by simpa using hb)
    obtain rfl : c = [] := List.length_eq_zero_iff.mp (by simpa using hc)
    simp [mulAddWords]
  | cons n ns ih =>
    cases b with
    | nil => simp at hb
    | cons b bs =>
      cases c with
      | nil => simp at hc
      | cons c cs =>
        have hA := toNat_mulAdd (A >>> 32) (by rw [toNat_shiftRight]; have := A.toNat_lt; omega) a b c
        rw [toNat_shiftRight] at hA
        have hB := toNat_mulAdd (B >>> 32) (by rw [toNat_shiftRight]; have := B.toNat_lt; omega) d0 n
          (A >>> 32 + a.toUInt64 * b.toUInt64 + c.toUInt64).toUInt32
        rw [toNat_shiftRight, toNat_low, hA] at hB
        have hrest := ih bs cs (A >>> 32 + a.toUInt64 * b.toUInt64 + c.toUInt64)
          (B >>> 32 + d0.toUInt64 * n.toUInt64 + (A >>> 32 + a.toUInt64 * b.toUInt64 + c.toUInt64).toUInt32.toUInt64)
          (by simpa using hb) (by simpa using hc)
        rw [hA, hB] at hrest
        simp only [mulAddWords, value_cons, List.length_cons, toNat_low, hB]
        generalize value (mulAddWords a d0 ns bs cs _ _).1 = out at *
        generalize (mulAddWords a d0 ns bs cs _ _).2.1.toNat / 2 ^ 32 +
          (mulAddWords a d0 ns bs cs _ _).2.2.toNat / 2 ^ 32 = top at *
        have hdivA := Nat.div_add_mod (A.toNat / 2 ^ 32 + a.toNat * b.toNat + c.toNat) (2 ^ 32)
        have hdivB := Nat.div_add_mod (B.toNat / 2 ^ 32 + d0.toNat * n.toNat +
          (A.toNat / 2 ^ 32 + a.toNat * b.toNat + c.toNat) % 2 ^ 32) (2 ^ 32)
        zify at hdivA hdivB hrest ⊢
        linear_combination hdivA + hdivB + 2 ^ 32 * hrest

theorem mulAddWords_high (a d0 : UInt32) (n b c : List UInt32) (A B : UInt64) :
    (((mulAddWords a d0 n b c A B).2.1 >>> 32) + ((mulAddWords a d0 n b c A B).2.2 >>> 32)).toNat =
      (mulAddWords a d0 n b c A B).2.1.toNat / 2 ^ 32 + (mulAddWords a d0 n b c A B).2.2.toNat / 2 ^ 32 := by
  have hA := (mulAddWords a d0 n b c A B).2.1.toNat_lt
  have hB := (mulAddWords a d0 n b c A B).2.2.toNat_lt
  rw [UInt64.toNat_add, toNat_shiftRight, toNat_shiftRight]
  omega

theorem topWord_value {n out : List UInt32} {S : UInt64} {t : ℕ} (hlen : out.length + 1 = n.length)
    (ht : t = value out + (2 ^ 32) ^ out.length * S.toNat) (hlt : t < radix n + value n) :
    value (if S >>> 32 ≠ 0 then subM n (out ++ [S.toUInt32]) else out ++ [S.toUInt32]) = reduce (radix n) (value n) t := by
  have hradix : radix n = (2 ^ 32) ^ out.length * 2 ^ 32 := by rw [radix, ← hlen, pow_succ]
  have hn := value_lt n
  rw [← radix] at hn
  have hdiv := Nat.div_add_mod S.toNat (2 ^ 32)
  have hword : value (out ++ [S.toUInt32]) = value out + (2 ^ 32) ^ out.length * (S.toNat % 2 ^ 32) := by
    rw [value_append, value_cons, value_nil, mul_zero, add_zero, toNat_low]
  have hsplit : t = value (out ++ [S.toUInt32]) + radix n * (S.toNat / 2 ^ 32) := by
    rw [hword, ht, hradix]
    nlinarith [hdiv]
  have hout := value_lt (out ++ [S.toUInt32])
  rw [List.length_append, List.length_singleton, hlen, ← radix] at hout
  have hzero : S >>> 32 ≠ 0 ↔ S.toNat / 2 ^ 32 ≠ 0 := by
    rw [ne_eq, ne_eq, ← UInt64.toNat_inj, toNat_shiftRight]
    rfl
  unfold reduce
  by_cases hS : S.toNat / 2 ^ 32 = 0
  · rw [if_neg (hzero.not.mpr (not_not.mpr hS)), if_neg]
    · rw [hS, mul_zero, add_zero] at hsplit
      exact hsplit.symm
    · rw [hS, mul_zero, add_zero] at hsplit
      omega
  · have hge : radix n ≤ t := by
      have := Nat.mul_le_mul_left (radix n) (Nat.one_le_iff_ne_zero.mpr hS)
      omega
    rw [if_pos (hzero.mpr hS), if_pos hge]
    apply subM_value
    · rw [List.length_append, List.length_singleton, hlen]
    · omega
    · rw [Nat.sub_add_cancel (by omega), hsplit]
      exact Nat.add_mul_mod_self_left _ _ _

def Inverse (n0inv : UInt32) (n : List UInt32) : Prop := n0inv.toNat * value n + 1 ≡ 0 [MOD 2 ^ 32]

variable {n0inv : UInt32} {n b c : List UInt32}

theorem Inverse.pos (h : Inverse n0inv n) : 0 < value n := by
  rcases Nat.eq_zero_or_pos (value n) with h0 | h0
  · rw [Inverse, h0, mul_zero, zero_add] at h
    exact absurd h (by decide)
  · exact h0

theorem montMulAdd_length (a : UInt32) (hb : b.length = n.length) (hc : c.length = n.length) :
    (montMulAdd n0inv n c a b).length = n.length := by
  unfold montMulAdd
  split
  · rename_i n₀ ns b₀ bs c₀ cs
    have hout (d0 : UInt32) (A B : UInt64) := congrArg (· + 1)
      (mulAddWords_length a d0 ns bs cs A B (Nat.succ.inj hb) (Nat.succ.inj hc))
    dsimp only
    split_ifs
    · apply subM_length
      rw [List.length_append]
      exact hout _ _ _
    · rw [List.length_append]
      exact hout _ _ _
  · exact hc

theorem montMulAdd_value (hinv : Inverse n0inv n) (a : UInt32) (hb : b.length = n.length) (hc : c.length = n.length) :
    ∃ d < 2 ^ 32, ∃ t, 2 ^ 32 * t = value c + a.toNat * value b + d * value n ∧
      value (montMulAdd n0inv n c a b) = reduce (radix n) (value n) t := by
  obtain _ | ⟨n₀, ns⟩ := n
  · exact absurd hinv.pos (by simp)
  obtain _ | ⟨b₀, bs⟩ := b
  · simp at hb
  obtain _ | ⟨c₀, cs⟩ := c
  · simp at hc
  have hbs : bs.length = ns.length := by simpa using hb
  have hcs : cs.length = ns.length := by simpa using hc
  let A := a.toUInt64 * b₀.toUInt64 + c₀.toUInt64
  let d0 := A.toUInt32 * n0inv
  let B := d0.toUInt64 * n₀.toUInt64 + A.toUInt32.toUInt64
  have hA : A.toNat = a.toNat * b₀.toNat + c₀.toNat := by
    simpa [A] using toNat_mulAdd 0 (by decide) a b₀ c₀
  have hB : B.toNat = d0.toNat * n₀.toNat + A.toNat % 2 ^ 32 := by
    have h := toNat_mulAdd 0 (by decide) d0 n₀ A.toUInt32
    rw [toNat_low] at h
    simpa [B] using h
  have hd0 : d0.toNat ≡ A.toNat % 2 ^ 32 * n0inv.toNat [MOD 2 ^ 32] := by
    rw [UInt32.toNat_mul, toNat_low]
    exact Nat.mod_modEq _ _
  have hfirst : n0inv.toNat * n₀.toNat + 1 ≡ 0 [MOD 2 ^ 32] := by
    refine Nat.ModEq.trans (Nat.ModEq.add_right 1 (Nat.ModEq.mul_left _ ?_)) hinv
    rw [value_cons]
    exact (Nat.add_mul_mod_self_left _ _ _).symm
  have hlow : B.toNat % 2 ^ 32 = 0 := by
    rw [hB]
    exact quotient_dvd hfirst hd0
  let r := mulAddWords a d0 ns bs cs A B
  have hlen : r.1.length = ns.length := mulAddWords_length a d0 ns bs cs A B hbs hcs
  have hval := mulAddWords_value a d0 ns bs cs A B hbs hcs
  have hhigh := mulAddWords_high a d0 ns bs cs A B
  have ht : 2 ^ 32 * (value r.1 + (2 ^ 32) ^ r.1.length * ((r.2.1 >>> 32) + (r.2.2 >>> 32)).toNat) =
      value (c₀ :: cs) + a.toNat * value (b₀ :: bs) + d0.toNat * value (n₀ :: ns) := by
    rw [hhigh, hlen, hval, value_cons, value_cons, value_cons]
    have hdivA := Nat.div_add_mod A.toNat (2 ^ 32)
    have hdivB := Nat.div_add_mod B.toNat (2 ^ 32)
    rw [hlow, add_zero] at hdivB
    zify at hdivA hdivB hA hB ⊢
    linear_combination hdivA + hdivB + hA + hB
  refine ⟨d0.toNat, d0.toNat_lt, _, ht, ?_⟩
  have hlt := sum_lt (R := radix (n₀ :: ns)) a.toNat_lt (by rw [radix, ← hb]; exact value_lt _)
    (by rw [radix, ← hc]; exact value_lt _) d0.toNat_lt hinv.pos ht
  exact topWord_value (by rw [hlen]; rfl) rfl hlt

theorem montMulAdd_digit (hinv : Inverse n0inv n) (hb : b.length = n.length) :
    Digit (2 ^ 32) (value n) (value b) UInt32.toNat value (fun c => c.length = n.length)
      (fun c a => montMulAdd n0inv n c a b) where
  ok c a hc := montMulAdd_length a hb hc
  modEq c a hc := by
    obtain ⟨d, -, t, ht, hval⟩ := montMulAdd_value hinv a hb hc
    have hn := value_lt n
    calc value (montMulAdd n0inv n c a b) * 2 ^ 32
        = reduce (radix n) (value n) t * 2 ^ 32 := by rw [hval]
      _ ≡ t * 2 ^ 32 [MOD value n] := (reduce_modEq hn.le).mul_right _
      _ = value c + a.toNat * value b + d * value n := by rw [mul_comm, ht]
      _ ≡ value c + a.toNat * value b [MOD value n] := Nat.add_mul_mod_self_right _ _ _

theorem montMul_length {a : List UInt32} (hinv : Inverse n0inv n) (hb : b.length = n.length) :
    (montMul n0inv n a b).length = n.length :=
  (montMulAdd_digit hinv hb).foldl_ok a (List.length_replicate)

theorem montMul_product {a : List UInt32} (hinv : Inverse n0inv n) (ha : a.length = n.length)
    (hb : b.length = n.length) : Product (radix n) (value n) (value a) (value b) (value (montMul n0inv n a b)) := by
  have h := (montMulAdd_digit hinv hb).foldl_modEq a (c := List.replicate n.length 0) List.length_replicate
  rw [value_replicate_zero, zero_add, ha] at h
  exact h

end Multiply

end LinuxRecovery.RsaWords
