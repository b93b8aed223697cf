import Mathlib

namespace LinuxRecovery.NumberText

def isSpace (c : Char) : Bool := c == ' ' || (9 ≤ c.toNat && c.toNat ≤ 13)

def digitValue (c : Char) : Option ℕ :=
  if 48 ≤ c.toNat ∧ c.toNat ≤ 57 then some (c.toNat - 48)
  else if 97 ≤ c.toNat ∧ c.toNat ≤ 122 then some (c.toNat - 87)
  else if 65 ≤ c.toNat ∧ c.toNat ≤ 90 then some (c.toNat - 55)
  else none

def digitIn (base : ℕ) (c : Char) : Option ℕ := (digitValue c).filter (· < base)

def readDigits (base : ℕ) : ℕ → List Char → ℕ × List Char
  | v, [] => (v, [])
  | v, c :: cs =>
    match digitIn base c with
    | some d => readDigits base (v * base + d) cs
    | none => (v, c :: cs)

def readSign : List Char → Bool × List Char
  | '-' :: cs => (true, cs)
  | '+' :: cs => (false, cs)
  | cs => (false, cs)

def readBase : List Char → ℕ × List Char
  | '0' :: x :: d :: cs =>
    if (x = 'x' ∨ x = 'X') ∧ (digitIn 16 d).isSome = true then (16, d :: cs) else (8, '0' :: x :: d :: cs)
  | '0' :: cs => (8, '0' :: cs)
  | cs => (10, cs)

structure Number where
  neg : Bool
  magnitude : ℕ
  rest : List Char
  deriving DecidableEq

def readNumber (base : ℕ) (neg : Bool) (s : List Char) : List Char → Number
  | [] => ⟨false, 0, s⟩
  | c :: cs =>
    match digitIn base c with
    | none => ⟨false, 0, s⟩
    | some d => ⟨neg, (readDigits base d cs).1, (readDigits base d cs).2⟩

def scan (s : List Char) : Number :=
  let (neg, t) := readSign (s.dropWhile isSpace)
  let (base, t) := readBase t
  readNumber base neg s t

def strtoul (bits : ℕ) (s : List Char) : ℕ :=
  let n := scan s
  if 2 ^ bits ≤ n.magnitude then 2 ^ bits - 1
  else if n.neg then (2 ^ bits - n.magnitude) % 2 ^ bits else n.magnitude

def strtol (bits : ℕ) (s : List Char) : ℤ :=
  let n := scan s
  if n.neg then max (-(2 ^ (bits - 1) : ℤ)) (-(n.magnitude : ℤ))
  else min (2 ^ (bits - 1) - 1 : ℤ) (n.magnitude : ℤ)

def decimal (n : ℕ) : List Char := Nat.toDigits 10 n

def hexadecimal (n : ℕ) : List Char := '0' :: 'x' :: Nat.toDigits 16 n

theorem readDigits_append {base v w : ℕ} {s : List Char} (h : readDigits base v s = (w, [])) (t : List Char) :
    readDigits base v (s ++ t) = readDigits base w t := by
  induction s generalizing v with
  | nil =>
    cases h
    rfl
  | cons c s ih =>
    rw [readDigits] at h
    rw [List.cons_append, readDigits]
    cases hd : digitIn base c with
    | none => simp [hd] at h
    | some d =>
      rw [hd] at h
      exact ih h

theorem digitIn_digitChar {base d : ℕ} (h : d < base) (h16 : base ≤ 16) : digitIn base d.digitChar = some d := by
  have hvalue : digitValue d.digitChar = some d := by
    have hd : d < 16 := by omega
    clear h h16
    revert d
    decide
  simp [digitIn, hvalue, h]

theorem readDigits_toDigits {base : ℕ} (hb : 1 < base) (h16 : base ≤ 16) (n : ℕ) :
    readDigits base 0 (Nat.toDigits base n) = (n, []) := by
  induction n using Nat.strong_induction_on with
  | _ n ih =>
    rw [Nat.toDigits_eq_if hb]
    split_ifs with h
    · simp [readDigits, digitIn_digitChar h h16]
    · have hmod := Nat.mod_lt n (by omega : 0 < base)
      rw [readDigits_append (ih (n / base) (Nat.div_lt_self (by omega) hb)), readDigits,
        digitIn_digitChar hmod h16]
      simp [readDigits, Nat.div_add_mod']

theorem toDigits_head {base : ℕ} (hb : 1 < base) (h16 : base ≤ 16) (n : ℕ) :
    ∃ d cs, Nat.toDigits base n = d.digitChar :: cs ∧ d < base ∧ (d = 0 → n = 0) := by
  induction n using Nat.strong_induction_on with
  | _ n ih =>
    rw [Nat.toDigits_eq_if hb]
    split_ifs with h
    · exact ⟨n, [], rfl, h, id⟩
    · obtain ⟨d, cs, heq, hd, hzero⟩ := ih (n / base) (Nat.div_lt_self (by omega) hb)
      refine ⟨d, cs ++ [(n % base).digitChar], by rw [heq, List.cons_append], hd, fun h0 => ?_⟩
      have := (Nat.div_eq_zero_iff.mp (hzero h0)).resolve_left (by omega)
      omega

theorem toDigits_not_space {base : ℕ} (hb : 1 < base) (h16 : base ≤ 16) (n : ℕ) :
    ∀ c ∈ Nat.toDigits base n, isSpace c = false := by
  have hdigit : ∀ d < 16, isSpace d.digitChar = false := by decide
  induction n using Nat.strong_induction_on with
  | _ n ih =>
    rw [Nat.toDigits_eq_if hb]
    split_ifs with h
    · simpa using hdigit n (by omega)
    · intro c hc
      rcases List.mem_append.mp hc with hc | hc
      · exact ih (n / base) (Nat.div_lt_self (by omega) hb) c hc
      · rw [List.mem_singleton.mp hc]
        exact hdigit _ ((Nat.mod_lt n (by omega)).trans_le h16)

theorem decimal_not_space (n : ℕ) : ∀ c ∈ decimal n, isSpace c = false :=
  toDigits_not_space (by norm_num) (by norm_num) n

theorem hexadecimal_not_space (n : ℕ) : ∀ c ∈ hexadecimal n, isSpace c = false := by
  intro c hc
  rcases List.mem_cons.mp hc with rfl | hc
  · decide
  · rcases List.mem_cons.mp hc with rfl | hc
    · decide
    · exact toDigits_not_space (by norm_num) (by norm_num) n c hc

theorem decimal_ne_nil (n : ℕ) : decimal n ≠ [] := Nat.toDigits_ne_nil

theorem readNumber_toDigits {base : ℕ} (hb : 1 < base) (h16 : base ≤ 16) (neg : Bool) (s : List Char) (n : ℕ) :
    readNumber base neg s (Nat.toDigits base n) = ⟨neg, n, []⟩ := by
  obtain ⟨d, cs, heq, hd, -⟩ := toDigits_head hb h16 n
  have hread := readDigits_toDigits hb h16 n
  rw [heq, readDigits, digitIn_digitChar hd h16] at hread
  rw [heq, readNumber, digitIn_digitChar hd h16]
  simp only [Nat.zero_mul, Nat.zero_add] at hread
  simp [hread]

theorem readSign_decimal (n : ℕ) : readSign ((decimal n).dropWhile isSpace) = (false, decimal n) := by
  obtain ⟨d, cs, heq, -, -⟩ := toDigits_head (by norm_num : 1 < 10) (by norm_num) n
  have hspace : isSpace d.digitChar = false := decimal_not_space n _ (by rw [decimal, heq]; exact List.mem_cons_self)
  rw [decimal, heq, List.dropWhile_cons_of_neg (by simp [hspace]), readSign]
  · simp
  · simp

theorem scan_decimal (n : ℕ) : scan (decimal n) = ⟨false, n, []⟩ := by
  obtain ⟨d, cs, heq, hd, hzero⟩ := toDigits_head (by norm_num : 1 < 10) (by norm_num) n
  have hsign := readSign_decimal n
  by_cases h0 : n = 0
  · subst h0
    decide
  · have hbase : readBase (decimal n) = (10, decimal n) := by
      have hne : d.digitChar ≠ '0' := by
        rw [Ne, Nat.digitChar_eq_zero]
        exact fun h => h0 (hzero h)
      rw [decimal, heq]
      unfold readBase
      split
      · rename_i heq
        exact absurd (List.cons.inj heq).1 hne
      · rename_i heq
        exact absurd (List.cons.inj heq).1 hne
      · rfl
    unfold scan
    rw [hsign]
    dsimp only
    rw [hbase]
    exact readNumber_toDigits (by norm_num) (by norm_num) false _ n

theorem scan_hexadecimal (n : ℕ) : scan (hexadecimal n) = ⟨false, n, []⟩ := by
  obtain ⟨d, cs, heq, hd, -⟩ := toDigits_head (by norm_num : 1 < 16) (by norm_num) n
  have hsign : readSign ((hexadecimal n).dropWhile isSpace) = (false, hexadecimal n) := rfl
  have hbase : readBase (hexadecimal n) = (16, Nat.toDigits 16 n) := by
    rw [hexadecimal, heq, readBase, if_pos]
    exact ⟨.inl rfl, by rw [digitIn_digitChar hd (by norm_num)]; rfl⟩
  unfold scan
  rw [hsign]
  dsimp only
  rw [hbase]
  exact readNumber_toDigits (by norm_num) (by norm_num) false _ n

section Read

variable {bits : ℕ} {s : List Char} {n : ℕ}

theorem strtoul_scan (h : scan s = ⟨false, n, []⟩) (hn : n < 2 ^ bits) : strtoul bits s = n := by
  unfold strtoul
  rw [h]
  simp [hn]

theorem strtoul_saturated (h : scan s = ⟨false, n, []⟩) : strtoul bits s = min n (2 ^ bits - 1) := by
  have hpos := Nat.two_pow_pos bits
  unfold strtoul
  rw [h]
  dsimp only
  split_ifs with h1 <;> first | omega | simp_all

theorem strtol_scan (h : scan s = ⟨false, n, []⟩) : strtol bits s = min (2 ^ (bits - 1) - 1 : ℤ) (n : ℤ) := by
  unfold strtol
  rw [h]
  rfl

end Read

end LinuxRecovery.NumberText
