import LinuxRecovery.LoadKeys

namespace LinuxRecovery.DumpPublicKey

open NumberText RsaWords RsaPower RsaVerify LoadKeys

structure PublicKey where
  modulus : ℕ
  publicExponent : ℕ
  deriving DecidableEq

section Print

/-- The version number of a key; nothing where the exponent or the size is not a supported one. -/
def check (key : PublicKey) : Option ℕ :=
  if key.publicExponent = 3 then if Nat.size key.modulus ≠ 2048 then none else some 1
  else if key.publicExponent = 65537 then if Nat.size key.modulus ≠ 2048 then none else some 2
  else none

def modInverse (n m : ℕ) : Option ℕ := if Nat.gcd n m ≠ 1 then none else some (Nat.gcdA n m % m).toNat

def wordsText : ℕ → ℕ → List Char
  | 0, _ => []
  | k + 1, n => decimal (n % 2 ^ 32) ++ (if k ≠ 0 then [','] else []) ++ wordsText k (n / 2 ^ 32)

def print (key : PublicKey) : Option (List Char) := do
  let version ← check key
  let nwords := Nat.size key.modulus / 32
  let inverse ← modInverse key.modulus (2 ^ 32)
  let r := 2 ^ Nat.size key.modulus
  return (if 1 < version then 'v' :: decimal version ++ [' '] else []) ++ '{' :: decimal nwords ++
    [',', '0', 'x'] ++ Nat.toDigits 16 (2 ^ 32 - inverse) ++
    [',', '{'] ++ wordsText nwords key.modulus ++ ['}'] ++
    [',', '{'] ++ wordsText nwords (r * r % key.modulus) ++ ['}'] ++ ['}']

/-- `main`: a line for each key, all but the last one with a comma; nothing where it exits with a failure. -/
def dump : List PublicKey → Option (List Char)
  | [] => none
  | [key] => (print key).map (· ++ ['\n'])
  | key :: keys => do
    let line ← print key
    let rest ← dump keys
    return line ++ ',' :: '\n' :: rest

end Print

section Numbers

variable {bits : ℕ}

theorem scanNumber_digits {base : ℕ} (hb : base = 10 ∨ base = 16) (n : ℕ) {c : Char} (hc : c = ',' ∨ c = '}')
    (more : List Char) : scanNumber base (Nat.toDigits base n ++ c :: more) = some ⟨false, n, c :: more⟩ := by
  have hone : 1 < base := by omega
  have h16 : base ≤ 16 := by omega
  have hstop : digitIn base c = none := by rcases hc with rfl | rfl <;> rfl
  obtain ⟨d, cs, heq, hd, hzero⟩ := toDigits_head hone h16 n
  have hread := readDigits_append (readDigits_toDigits hone h16 n) (c :: more)
  have hdone : readDigits base n (c :: more) = (n, c :: more) := by
    simp only [readDigits, hstop]
  have hspace : isSpace d.digitChar = false :=
    toDigits_not_space hone h16 n _ (by rw [heq]; exact List.mem_cons_self)
  rw [hdone, heq, List.cons_append, readDigits, digitIn_digitChar hd h16] at hread
  have hsign : readSign (skipSpace (d.digitChar :: (cs ++ c :: more))) = (false, d.digitChar :: (cs ++ c :: more)) := by
    rw [skipSpace, List.dropWhile_cons_of_neg (by simp [hspace])]
    have hplain : ∀ k < 16, k.digitChar ≠ '-' ∧ k.digitChar ≠ '+' := by decide
    obtain ⟨hminus, hplus⟩ := hplain d (hd.trans_le h16)
    simp [readSign, hminus, hplus]
  have hpre : readPrefix base (d.digitChar :: (cs ++ c :: more)) = (base, d.digitChar :: (cs ++ c :: more)) := by
    by_cases h0 : d = 0
    · have hn := hzero h0
      subst hn
      subst h0
      have hcs : cs = [] := by
        have := congrArg List.length heq
        rw [Nat.toDigits_zero] at this
        simpa using this.symm
      subst hcs
      rw [show Nat.digitChar 0 = '0' from rfl, List.nil_append, readPrefix, if_neg, if_neg (by omega)]
      rintro ⟨rfl | rfl, -⟩ <;> simp at hc
    · have hne : d.digitChar ≠ '0' := fun heq => h0 (Nat.digitChar_eq_zero.mp heq)
      rw [readPrefix, if_neg (by omega)]
      · exact fun x t heq => hne (List.cons.inj heq).1
      · exact fun t heq => hne (List.cons.inj heq).1
  rw [heq, List.cons_append, scanNumber, hsign]
  dsimp only
  rw [hpre]
  dsimp only
  dsimp only at hread
  rw [Nat.zero_mul, Nat.zero_add] at hread
  rw [digitIn_digitChar hd h16, Option.map_some, hread]

theorem unsignedOf_word (hbits : 32 ≤ bits) {n : ℕ} (hn : n < 2 ^ 32) (rest : List Char) :
    unsignedOf bits ⟨false, n, rest⟩ = UInt32.ofNat n := by
  have hle : 2 ^ 32 ≤ 2 ^ bits := Nat.pow_le_pow_right Nat.two_pos hbits
  rw [unsignedOf, if_neg (by dsimp only; omega), if_neg Bool.noConfusion]

theorem intOf_small (hbits : 32 ≤ bits) {n : ℕ} (hn : n < 2 ^ 31) (rest : List Char) :
    intOf bits ⟨false, n, rest⟩ = n := by
  have hle : (2 : ℤ) ^ 31 ≤ 2 ^ (bits - 1) := pow_le_pow_right₀ (by norm_num) (by omega)
  rw [intOf, if_neg Bool.noConfusion, min_eq_right (by dsimp only; omega)]
  dsimp only
  rw [Int.bmod_eq_of_le]
  · omega
  · omega

end Numbers

section Words

variable {bits : ℕ}

def wordList : ℕ → ℕ → List UInt32
  | 0, _ => []
  | k + 1, n => UInt32.ofNat (n % 2 ^ 32) :: wordList k (n / 2 ^ 32)

theorem wordList_length (k n : ℕ) : (wordList k n).length = k := by
  induction k generalizing n with
  | zero => rfl
  | succ k ih => rw [wordList, List.length_cons, ih]

theorem value_wordList (k n : ℕ) : value (wordList k n) = n % (2 ^ 32) ^ k := by
  induction k generalizing n with
  | zero => rw [wordList, value_nil, pow_zero, Nat.mod_one]
  | succ k ih =>
    rw [wordList, value_cons, ih, UInt32.toNat_ofNat', Nat.mod_mod, pow_succ' (2 ^ 32), Nat.mod_mul]

theorem ofFn_getD {k : ℕ} {ws : List UInt32} (h : ws.length = k) :
    (Vector.ofFn fun i : Fin k => ws.getD i.val 0).toList = ws := by
  subst h
  apply List.ext_getElem
  · rw [Vector.length_toList]
  · intro i h1 h2
    rw [Vector.getElem_toList, Vector.getElem_ofFn, List.getD_eq_getElem _ _ h2]

theorem words_toList {ws : List UInt32} (h : ws.length = rsaNumWords) : (words ws).toList = ws := ofFn_getD h

theorem skipSpace_twice (s : List Char) : skipSpace (skipSpace s) = skipSpace s := List.dropWhile_idempotent _ _

theorem scanNumber_skip (base : ℕ) (s : List Char) : scanNumber base (skipSpace s) = scanNumber base s := by
  rw [scanNumber, scanNumber, skipSpace_twice]

theorem scanNumber_first (k n : ℕ) (rest : List Char) : scanNumber 10 (wordsText (k + 1) n ++ '}' :: rest) =
    some ⟨false, n % 2 ^ 32, (if k ≠ 0 then [','] else []) ++ wordsText k (n / 2 ^ 32) ++ '}' :: rest⟩ := by
  rw [wordsText]
  by_cases hk : k = 0
  · subst hk
    simp only [wordsText, ne_eq, not_true_eq_false, if_false, List.append_nil, List.nil_append]
    exact scanNumber_digits (.inl rfl) _ (.inr rfl) rest
  · rw [if_pos hk, List.append_assoc, List.append_assoc, List.append_assoc]
    exact scanNumber_digits (.inl rfl) _ (.inl rfl) _

theorem readWords_text (hbits : 32 ≤ bits) (k n : ℕ) (rest : List Char) :
    readWords bits k ((if k ≠ 0 then [','] else []) ++ wordsText k n ++ '}' :: rest) =
      some (wordList k n, '}' :: rest) := by
  induction k generalizing n with
  | zero => rfl
  | succ k ih =>
    have hexpect : expect [' ', ',', ' '] (',' :: (wordsText (k + 1) n ++ '}' :: rest)) =
        some (skipSpace (wordsText (k + 1) n ++ '}' :: rest)) := rfl
    have hscan : scanNumber 10 (skipSpace (wordsText (k + 1) n ++ '}' :: rest)) =
        some ⟨false, n % 2 ^ 32, (if k ≠ 0 then [','] else []) ++ wordsText k (n / 2 ^ 32) ++ '}' :: rest⟩ := by
      rw [scanNumber_skip, scanNumber_first]
    rw [if_pos (Nat.succ_ne_zero k), readWords, List.cons_append, List.cons_append, List.nil_append, hexpect]
    dsimp only [Option.bind_eq_bind, Option.bind_some]
    rw [hscan]
    dsimp only [Option.bind_some]
    rw [ih]
    dsimp only [Option.bind_some, Option.pure_def]
    rw [unsignedOf_word hbits (Nat.mod_lt _ (by norm_num)), wordList]

theorem scanNumber_array (n : ℕ) (rest : List Char) : scanNumber 10 (wordsText rsaNumWords n ++ '}' :: rest) =
    some ⟨false, n % 2 ^ 32,
      (if rsaNumWords - 1 ≠ 0 then [','] else []) ++ wordsText (rsaNumWords - 1) (n / 2 ^ 32) ++ '}' :: rest⟩ :=
  scanNumber_first (rsaNumWords - 1) n rest

theorem wordList_array (n : ℕ) :
    wordList rsaNumWords n = UInt32.ofNat (n % 2 ^ 32) :: wordList (rsaNumWords - 1) (n / 2 ^ 32) := rfl

theorem readArray_text (hbits : 32 ≤ bits) (n : ℕ) (rest : List Char) :
    readArray bits (wordsText rsaNumWords n ++ '}' :: rest) = some (wordList rsaNumWords n, '}' :: rest) := by
  rw [readArray, scanNumber_array]
  dsimp only [Option.bind_eq_bind, Option.bind_some]
  rw [readWords_text hbits]
  dsimp only [Option.bind_some, Option.pure_def]
  rw [unsignedOf_word hbits (Nat.mod_lt _ (by norm_num)), wordList_array]

theorem readArray_skip (s : List Char) : readArray bits (skipSpace s) = readArray bits s := by
  rw [readArray, readArray, scanNumber_skip]

end Words

section Key

variable {bits : ℕ}

def body (hex n rr : List Char) (tail : List Char) : List Char :=
  decimal 64 ++ [',', '0', 'x'] ++ hex ++ [',', '{'] ++ n ++ ['}', ',', '{'] ++ rr ++ ['}', '}'] ++ tail

theorem skipSpace_cons {c : Char} (h : isSpace c = false) (s : List Char) : skipSpace (c :: s) = c :: s := by
  rw [skipSpace, List.dropWhile_cons_of_neg (by simp [h])]

def keyOf (key : PublicKey) (inverse : ℕ) : RsaPublicKey :=
  ⟨rsaNumWords, UInt32.ofNat (2 ^ 32 - inverse), words (wordList rsaNumWords key.modulus),
    words (wordList rsaNumWords (2 ^ 2048 * 2 ^ 2048 % key.modulus)), key.publicExponent⟩

theorem check_some {key : PublicKey} {version : ℕ} (h : check key = some version) : Nat.size key.modulus = 2048 ∧
    (version = 1 ∧ key.publicExponent = 3 ∨ version = 2 ∧ key.publicExponent = 65537) := by
  rw [check] at h
  split_ifs at h with hthree hsize hfermat hsize
  · cases h
    exact ⟨not_not.mp hsize, .inl ⟨rfl, hthree⟩⟩
  · cases h
    exact ⟨not_not.mp hsize, .inr ⟨rfl, hfermat⟩⟩

theorem modInverse_some {n m inverse : ℕ} (hm : 1 < m) (h : modInverse n m = some inverse) :
    0 < inverse ∧ inverse < m ∧ n * inverse ≡ 1 [MOD m] := by
  rw [modInverse] at h
  split_ifs at h with hgcd
  cases h
  rw [not_not] at hgcd
  have hm0 : (m : ℤ) ≠ 0 := by omega
  have hnonneg := Int.emod_nonneg (Nat.gcdA n m) hm0
  have hlt := Int.emod_lt_of_pos (Nat.gcdA n m) (show (0 : ℤ) < m by omega)
  have hbezout := Nat.gcd_eq_gcd_ab n m
  rw [hgcd] at hbezout
  have hmod : n * (Nat.gcdA n m % m).toNat ≡ 1 [MOD m] := by
    rw [← Int.natCast_modEq_iff, Nat.cast_mul, Int.toNat_of_nonneg hnonneg, hbezout]
    calc (n : ℤ) * (Nat.gcdA n m % m) ≡ n * Nat.gcdA n m [ZMOD m] := (Int.mod_modEq _ _).mul_left _
      _ ≡ n * Nat.gcdA n m + m * Nat.gcdB n m [ZMOD m] := by
        rw [Int.modEq_iff_dvd, add_sub_cancel_left]
        exact dvd_mul_right _ _
  refine ⟨?_, by omega, hmod⟩
  rw [Nat.pos_iff_ne_zero]
  intro hzero
  rw [hzero, mul_zero] at hmod
  have hone := Nat.ModEq.eq_of_lt_of_lt hmod (by omega) hm
  omega

theorem print_some {key : PublicKey} {line : List Char} (h : print key = some line) : ∃ version inverse,
    check key = some version ∧ modInverse key.modulus (2 ^ 32) = some inverse ∧ ∀ tail,
      line ++ tail = (if 1 < version then 'v' :: decimal version ++ [' '] else []) ++ '{' ::
        body (Nat.toDigits 16 (2 ^ 32 - inverse)) (wordsText rsaNumWords key.modulus)
          (wordsText rsaNumWords (2 ^ 2048 * 2 ^ 2048 % key.modulus)) tail := by
  simp only [print, Option.bind_eq_bind, Option.bind_eq_some_iff, Option.pure_def] at h
  obtain ⟨version, hversion, inverse, hinverse, h⟩ := h
  have hline := Option.some.inj h
  obtain ⟨hsize, -⟩ := check_some hversion
  refine ⟨version, inverse, hversion, hinverse, fun tail => ?_⟩
  rw [← hline, hsize, body, show 2048 / 32 = rsaNumWords from rfl, show decimal rsaNumWords = decimal 64 from rfl]
  simp only [List.append_assoc, List.cons_append, List.nil_append]

theorem readVersion_text (hbits : 32 ≤ bits) (garbage : ℤ) {key : PublicKey} {version : ℕ} (h : check key = some version)
    (s : List Char) :
    readVersion bits garbage ((if 1 < version then 'v' :: decimal version ++ [' '] else []) ++ '{' :: s) =
      some ((key.publicExponent : ℤ), s) := by
  obtain ⟨-, ⟨rfl, he⟩ | ⟨rfl, he⟩⟩ := check_some h
  · rw [he]
    rfl
  · have hscan : scanNumber 10 ('2' :: ' ' :: '{' :: s) = some ⟨false, 2, ' ' :: '{' :: s⟩ := rfl
    have hint := intOf_small hbits (show 2 < 2 ^ 31 by norm_num) (' ' :: '{' :: s)
    rw [if_pos (by norm_num), show decimal 2 = ['2'] from rfl]
    simp only [List.cons_append, List.nil_append]
    rw [readVersion, if_neg (by decide), if_pos rfl, hscan, Option.bind_eq_bind, Option.bind_some,
      if_pos (by rw [hint]; rfl), he]
    rfl

theorem readKey_text (hbits : 32 ≤ bits) (garbage : ℤ) {key : PublicKey} {line : List Char} (h : print key = some line) :
    ∃ inverse, modInverse key.modulus (2 ^ 32) = some inverse ∧ ∀ tail,
      readKey bits garbage (line ++ tail) = some (keyOf key inverse, skipSpace tail) := by
  obtain ⟨version, inverse, hversion, hinverse, hline⟩ := print_some h
  refine ⟨inverse, hinverse, fun tail => ?_⟩
  obtain ⟨hpos, hlt, -⟩ := modInverse_some (by norm_num) hinverse
  set hex := Nat.toDigits 16 (2 ^ 32 - inverse) with hhex
  set n := wordsText rsaNumWords key.modulus with hn
  set rr := wordsText rsaNumWords (2 ^ 2048 * 2 ^ 2048 % key.modulus) with hrr
  have hstart : skipSpace (line ++ tail) = line ++ tail := by
    rw [hline]
    split_ifs
    · exact skipSpace_cons (by decide) _
    · exact skipSpace_cons (by decide) _
  have hlen : scanNumber 0 (skipSpace (body hex n rr tail)) =
      some ⟨false, 64, ',' :: '0' :: 'x' :: (hex ++ ',' :: '{' :: (n ++ '}' :: ',' :: '{' :: (rr ++ '}' :: '}' :: tail)))⟩ := by
    have hbody : body hex n rr tail = '6' :: '4' :: ',' :: '0' :: 'x' ::
        (hex ++ ',' :: '{' :: (n ++ '}' :: ',' :: '{' :: (rr ++ '}' :: '}' :: tail))) := by
      rw [body, show decimal 64 = ['6', '4'] from rfl]
      simp only [List.append_assoc, List.cons_append, List.nil_append]
    rw [hbody]
    rfl
  have hint (rest : List Char) : intOf bits ⟨false, 64, rest⟩ = rsaNumWords := intOf_small hbits (by norm_num) rest
  rw [readKey, hstart, hline, readVersion_text hbits garbage hversion]
  dsimp only [Option.bind_eq_bind, Option.bind_some]
  rw [hlen]
  dsimp only [Option.bind_some]
  rw [show expect [' ', ',', ' ', '0', 'x'] (',' :: '0' :: 'x' ::
    (hex ++ ',' :: '{' :: (n ++ '}' :: ',' :: '{' :: (rr ++ '}' :: '}' :: tail)))) =
      some (hex ++ ',' :: '{' :: (n ++ '}' :: ',' :: '{' :: (rr ++ '}' :: '}' :: tail))) from rfl]
  dsimp only [Option.bind_some]
  rw [hhex, scanNumber_digits (.inr rfl) _ (.inl rfl)]
  dsimp only [Option.bind_some]
  rw [show expect [' ', ',', ' ', '{', ' '] (',' :: '{' :: (n ++ '}' :: ',' :: '{' :: (rr ++ '}' :: '}' :: tail))) =
    some (skipSpace (n ++ '}' :: ',' :: '{' :: (rr ++ '}' :: '}' :: tail))) from rfl]
  dsimp only [Option.bind_some]
  rw [scanNumber_skip, hn, scanNumber_array]
  dsimp only [Option.bind_some]
  rw [hint, if_neg (not_not.mpr rfl), readWords_text hbits]
  dsimp only [Option.bind_some]
  rw [show expect [' ', '}', ' ', ',', ' ', '{', ' '] ('}' :: ',' :: '{' :: (rr ++ '}' :: '}' :: tail)) =
    some (skipSpace (rr ++ '}' :: '}' :: tail)) from rfl]
  dsimp only [Option.bind_some]
  rw [readArray_skip, hrr, readArray_text hbits]
  dsimp only [Option.bind_some, Option.pure_def]
  rw [unsignedOf_word hbits (by omega), unsignedOf_word hbits (Nat.mod_lt _ (by norm_num)), ← wordList_array]
  rfl

end Key

/-- The key that was loaded stands for the one in the certificate, and is fit for verification. -/
structure Matches (cert : PublicKey) (key : RsaPublicKey) : Prop where
  sound : Sound key
  modulus : key.modulus = cert.modulus
  exponent : key.exponent = cert.publicExponent

structure Supported (cert : PublicKey) : Prop where
  exponent : cert.publicExponent = 3 ∨ cert.publicExponent = 65537
  size : Nat.size cert.modulus = 2048
  odd : Odd cert.modulus

section Matching

variable {cert : PublicKey}

theorem modulus_lt (h : Nat.size cert.modulus = 2048) : cert.modulus < (2 ^ 32) ^ rsaNumWords := by
  have hlt : cert.modulus < 2 ^ Nat.size cert.modulus := Nat.lt_size_self _
  rwa [h, show 2048 = 32 * rsaNumWords from rfl, pow_mul] at hlt

theorem top_bit {m n : ℕ} (h : Nat.size n = m + 1) : 2 ^ m ≤ n := Nat.lt_size.mp (by omega)

theorem keyOf_matches {version inverse : ℕ} (hversion : check cert = some version)
    (hinverse : modInverse cert.modulus (2 ^ 32) = some inverse) : Matches cert (keyOf cert inverse) := by
  obtain ⟨hsize, -⟩ := check_some hversion
  obtain ⟨hpos, hlt, hmul⟩ := modInverse_some (by norm_num) hinverse
  have hmodulus := modulus_lt hsize
  have htop := top_bit (show Nat.size cert.modulus = 2047 + 1 from hsize)
  have hn : value (keyOf cert inverse).n.toList = cert.modulus := by
    rw [keyOf, words_toList (wordList_length _ _), value_wordList, Nat.mod_eq_of_lt hmodulus]
  have hrr : value (keyOf cert inverse).rr.toList = 2 ^ 2048 * 2 ^ 2048 % cert.modulus := by
    have hmod : 2 ^ 2048 * 2 ^ 2048 % cert.modulus < cert.modulus := Nat.mod_lt _ ((pow_pos two_pos _).trans_le htop)
    rw [keyOf, words_toList (wordList_length _ _), value_wordList, Nat.mod_eq_of_lt (hmod.trans hmodulus)]
  refine ⟨⟨rfl, ⟨?_, ?_, ?_⟩, ?_⟩, hn, rfl⟩
  · have hword : (keyOf cert inverse).n0inv.toNat = 2 ^ 32 - inverse := by
      rw [keyOf, UInt32.toNat_ofNat', Nat.mod_eq_of_lt (by omega)]
    rw [Inverse, hn, hword]
    calc (2 ^ 32 - inverse) * cert.modulus + 1 ≡ (2 ^ 32 - inverse) * cert.modulus + cert.modulus * inverse [MOD 2 ^ 32] :=
          Nat.ModEq.add_left _ hmul.symm
      _ = 2 ^ 32 * cert.modulus := by rw [mul_comm cert.modulus inverse, ← add_mul, Nat.sub_add_cancel hlt.le]
      _ ≡ 0 [MOD 2 ^ 32] := Nat.modEq_zero_iff_dvd.mpr (dvd_mul_right _ _)
  · rw [Vector.length_toList, Vector.length_toList]
  · rw [hrr, hn, radix_key, sq]
    exact Nat.mod_modEq _ _
  · rw [RsaPublicKey.modulus, hn]
    exact htop

theorem print_isSome : (print cert).isSome = true ↔ Supported cert := by
  have hbits : (modInverse cert.modulus (2 ^ 32)).isSome = true ↔ Odd cert.modulus := by
    rw [modInverse, ← Nat.coprime_two_right, ← Nat.coprime_pow_right_iff (show 0 < 32 by norm_num), Nat.Coprime]
    split_ifs with hgcd
    · exact ⟨fun h => Bool.noConfusion h, fun h => absurd h hgcd⟩
    · exact ⟨fun _ => not_not.mp hgcd, fun _ => rfl⟩
  rw [Option.isSome_iff_exists]
  constructor
  · rintro ⟨line, hline⟩
    obtain ⟨version, inverse, hversion, hinverse, -⟩ := print_some hline
    obtain ⟨hsize, hexp⟩ := check_some hversion
    exact ⟨hexp.imp And.right And.right, hsize, hbits.mp (by rw [hinverse]; rfl)⟩
  · rintro ⟨hexp, hsize, hodd⟩
    obtain ⟨inverse, hinverse⟩ := Option.isSome_iff_exists.mp (hbits.mpr hodd)
    obtain ⟨version, hversion⟩ : ∃ version, check cert = some version := by
      rcases hexp with he | he
      · exact ⟨1, by rw [check, if_pos he, if_neg (not_not.mpr hsize)]⟩
      · exact ⟨2, by rw [check, he, if_neg (by decide), if_pos rfl, if_neg (not_not.mpr hsize)]⟩
    rw [print, hversion, hinverse]
    exact ⟨_, rfl⟩

end Matching

section Dump

variable {bits : ℕ} {garbage : ℕ → ℤ}

theorem readKey_newline (g : ℤ) (s : List Char) : readKey bits g ('\n' :: s) = readKey bits g s := rfl

theorem keysLoop_newline (keys : List RsaPublicKey) (s : List Char) :
    (keysLoop bits garbage).exec (keys, '\n' :: s) = (keysLoop bits garbage).exec (keys, s) := by
  have hread := @readKey_newline bits (garbage keys.length) s
  rcases @keysLoop_cases bits garbage keys s with ⟨key, h⟩ | ⟨key, rest, h, -⟩ | h
  · rw [keysLoop_last h, keysLoop_last (hread.trans h)]
  · rw [keysLoop_more h, keysLoop_more (hread.trans h)]
  · rw [keysLoop_failed h]
    apply keysLoop_failed
    rwa [hread]

theorem dump_cons {cert : PublicKey} {certs : List PublicKey} (h : certs ≠ []) : dump (cert :: certs) =
    (print cert).bind fun line => (dump certs).map fun rest => line ++ ',' :: '\n' :: rest := by
  cases certs with
  | nil => exact absurd rfl h
  | cons cert' certs =>
    rw [dump]
    · cases print cert with
      | none => rfl
      | some line =>
        cases dump (cert' :: certs) with
        | none => rfl
        | some rest => rfl
    · exact List.cons_ne_nil _ _

theorem dump_read (hbits : 32 ≤ bits) {certs : List PublicKey} {text : List Char} (h : dump certs = some text)
    (acc : List RsaPublicKey) : ∃ keys, (keysLoop bits garbage).exec (acc, text) = some (acc ++ keys) ∧
      List.Forall₂ Matches certs keys := by
  induction certs generalizing text acc with
  | nil => cases h
  | cons cert certs ih =>
    by_cases hlast : certs = []
    · subst hlast
      obtain ⟨line, hline, rfl⟩ := Option.map_eq_some_iff.mp h
      obtain ⟨version, -, hversion, -, -⟩ := print_some hline
      obtain ⟨inverse, hinverse, hread⟩ := readKey_text hbits (garbage acc.length) hline
      exact ⟨[keyOf cert inverse], keysLoop_last (hread ['\n']), .cons (keyOf_matches hversion hinverse) .nil⟩
    · rw [dump_cons hlast] at h
      obtain ⟨line, hline, h⟩ := Option.bind_eq_some_iff.mp h
      obtain ⟨rest, hrest, rfl⟩ := Option.map_eq_some_iff.mp h
      obtain ⟨version, -, hversion, -, -⟩ := print_some hline
      obtain ⟨inverse, hinverse, hread⟩ := readKey_text hbits (garbage acc.length) hline
      obtain ⟨keys, hkeys, hmatches⟩ := ih hrest (acc ++ [keyOf cert inverse])
      refine ⟨keyOf cert inverse :: keys, ?_, .cons (keyOf_matches hversion hinverse) hmatches⟩
      rw [keysLoop_more (hread (',' :: '\n' :: rest)), keysLoop_newline, hkeys, List.append_assoc]
      rfl

theorem dump_isSome {certs : List PublicKey} : (dump certs).isSome = true ↔ certs ≠ [] ∧ ∀ cert ∈ certs, Supported cert := by
  induction certs with
  | nil => exact ⟨fun h => Bool.noConfusion h, fun h => absurd rfl h.1⟩
  | cons cert certs ih =>
    rw [List.forall_mem_cons, ← print_isSome, and_iff_right (List.cons_ne_nil _ _)]
    by_cases hlast : certs = []
    · subst hlast
      rw [dump, Option.isSome_map]
      exact ⟨fun h => ⟨h, fun c hc => absurd hc List.not_mem_nil⟩, And.left⟩
    · rw [dump_cons hlast]
      cases print cert with
      | none => exact ⟨fun h => Bool.noConfusion h, fun h => Bool.noConfusion h.1⟩
      | some line =>
        rw [Option.bind_some, Option.isSome_map, ih, and_iff_right hlast]
        exact ⟨fun h => ⟨rfl, h⟩, And.right⟩

/-- The keys of supported certificates survive the way through the key file: what is dumped of them is loaded as keys
that stand for them, in their order; without a certificate, or with one that is not supported, nothing is dumped. -/
theorem dumped_keys_load (hbits : 32 ≤ bits) (garbage : ℕ → ℤ) (certs : List PublicKey) :
    ((dump certs).isSome = true ↔ certs ≠ [] ∧ ∀ cert ∈ certs, Supported cert) ∧
      ∀ text, dump certs = some text →
        ∃ keys, loadKeys bits garbage (some text) = some keys ∧ List.Forall₂ Matches certs keys := by
  refine ⟨dump_isSome, fun text h => ?_⟩
  obtain ⟨keys, hkeys, hmatches⟩ := @dump_read bits garbage hbits certs text h []
  exact ⟨keys, hkeys, hmatches⟩

theorem dumped_keys_load_sample : ((dump [⟨3 * samplePrime, 65537⟩]).isSome = true ↔
      [PublicKey.mk (3 * samplePrime) 65537] ≠ [] ∧ ∀ cert ∈ [PublicKey.mk (3 * samplePrime) 65537], Supported cert) ∧
    ∀ text, dump [⟨3 * samplePrime, 65537⟩] = some text → ∃ keys,
      loadKeys 64 (fun _ => 0) (some text) = some keys ∧ List.Forall₂ Matches [⟨3 * samplePrime, 65537⟩] keys :=
  dumped_keys_load (by norm_num) _ _

end Dump

end LinuxRecovery.DumpPublicKey
