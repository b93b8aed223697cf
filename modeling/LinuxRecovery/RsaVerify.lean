import LinuxRecovery.RsaPower
import LinuxRecovery.RsaTrapdoor
import LinuxRecovery.Sha1Standard
import LinuxRecovery.Verifier

namespace LinuxRecovery.RsaVerify

open RsaWords RsaPower RsaTrapdoor Sha1 Sha1Standard
open Verifier (rsaNumBytes)

def rsaNumWords : ℕ := rsaNumBytes / 4

structure RsaPublicKey where
  len : ℤ
  n0inv : UInt32
  n : Vector UInt32 rsaNumWords
  rr : Vector UInt32 rsaNumWords
  exponent : ℤ
  deriving DecidableEq

def padding : List UInt8 :=
  [0x00, 0x01] ++ List.replicate 218 0xff ++
    [0x00, 0x30, 0x21, 0x30, 0x09, 0x06, 0x05, 0x2b, 0x0e, 0x03, 0x02, 0x1a, 0x05, 0x00, 0x04, 0x14]

def kExpectedPadShaRsa2048 : List UInt8 :=
  [0xdc, 0xbd, 0xbe, 0x42, 0xd5, 0xf5, 0xa7, 0x2e, 0x6e, 0xfc, 0xf5, 0x5d, 0xaf, 0x9d, 0xea, 0x68, 0x7c, 0xfb, 0xf1, 0x67]

def rsaE3Verify (key : RsaPublicKey) (signature sha : List UInt8) : Bool :=
  if key.len ≠ rsaNumWords then false
  else if signature.length ≠ rsaNumBytes then false
  else if key.exponent ≠ 3 then false
  else
    let buf := modpow3 key.n0inv key.n.toList key.rr.toList signature
    if buf.take padding.length ≠ padding then false
    else buf.drop padding.length == sha

def xorSha (buf sha : List UInt8) : List UInt8 :=
  buf.take (buf.length - shaDigestSize) ++ List.zipWith (· ^^^ ·) (buf.drop (buf.length - shaDigestSize)) sha

/-- `scratch` is what the block of the hash context holds when it is set up. -/
def rsaEF4Verify (scratch : List UInt8) (key : RsaPublicKey) (signature sha : List UInt8) : Bool :=
  if key.len ≠ rsaNumWords then false
  else if signature.length ≠ rsaNumBytes then false
  else if key.exponent ≠ 65537 then false
  else
    let buf := modpowF4 key.n0inv key.n.toList key.rr.toList signature
    Sha1.sha scratch (xorSha buf sha) == kExpectedPadShaRsa2048

def rsaVerify (scratch : List UInt8) (key : RsaPublicKey) (signature sha : List UInt8) : Bool :=
  if key.exponent = 3 then rsaE3Verify key signature sha
  else if key.exponent = 65537 then rsaEF4Verify scratch key signature sha
  else false

def RsaPublicKey.modulus (key : RsaPublicKey) : ℕ := value key.n.toList

/-- A key of the length expected whose numbers belong together, and whose modulus has its top bit. -/
structure Sound (key : RsaPublicKey) : Prop where
  len : key.len = rsaNumWords
  valid : Valid key.n0inv key.n.toList key.rr.toList
  top : 2 ^ 2047 ≤ key.modulus

def Genuine (key : RsaPublicKey) (e : ℕ) (signature sha : List UInt8) : Prop :=
  number signature ^ e ≡ number (padding ++ sha) [MOD key.modulus]

def GenuineFor (key : RsaPublicKey) (signature sha : List UInt8) : Prop :=
  key.exponent = 3 ∧ Genuine key 3 signature sha ∨ key.exponent = 65537 ∧ Genuine key 65537 signature sha

def Accepts (key : RsaPublicKey) (signature sha : List UInt8) : Prop :=
  key.exponent = 3 ∧ Genuine key 3 signature sha ∨
    key.exponent = 65537 ∧ ∃ block : List UInt8, block.length = rsaNumBytes ∧
      number block = number signature ^ 65537 % key.modulus ∧
      standardSha1 (xorSha block sha) = standardSha1 (padding ++ List.replicate shaDigestSize 0)

/-- The block that the signature's power gives, with the digest taken out, is not the expected one and has its hash. -/
def Collides (key : RsaPublicKey) (signature sha : List UInt8) : Prop :=
  key.exponent = 65537 ∧ ∃ block : List UInt8, block.length = rsaNumBytes ∧
    number block = number signature ^ 65537 % key.modulus ∧
    xorSha block sha ≠ padding ++ List.replicate shaDigestSize 0 ∧
    standardSha1 (xorSha block sha) = standardSha1 (padding ++ List.replicate shaDigestSize 0)

theorem padding_length : padding.length = 236 := by
  rw [padding, List.length_append, List.length_append, List.length_replicate]
  rfl

theorem expected_padding : standardSha1 (padding ++ List.replicate shaDigestSize 0) = kExpectedPadShaRsa2048 := by
  rw [← sha1_standard]
  decide +kernel

section Blocks

variable {buf sha : List UInt8}

theorem padded_length (hsha : sha.length = shaDigestSize) : (padding ++ sha).length = rsaNumBytes := by
  rw [List.length_append, padding_length, hsha]
  rfl

theorem padded_lt (hsha : sha.length = shaDigestSize) : number (padding ++ sha) < 2 ^ 2047 := by
  have hsplit : padding ++ sha = [0x00] ++ (padding.drop 1 ++ sha) := rfl
  have hlen : (padding.drop 1 ++ sha).length = 255 := by
    rw [List.length_append, List.length_drop, padding_length, hsha]
    rfl
  have hlt := number_lt (padding.drop 1 ++ sha)
  rw [hsplit, number_append, hlen]
  rw [hlen] at hlt
  have hzero : number [0x00] = 0 := by simp [number]
  rw [hzero, mul_zero, zero_add]
  calc number (padding.drop 1 ++ sha) < (2 ^ 8) ^ 255 := hlt
    _ = 2 ^ (8 * 255) := (pow_mul 2 8 255).symm
    _ ≤ 2 ^ 2047 := pow_le_pow_right₀ one_le_two (Nat.le_of_ble_eq_true rfl)

theorem xor_eq_zero_iff : ∀ {xs ys : List UInt8}, xs.length = ys.length →
    (List.zipWith (· ^^^ ·) xs ys = List.replicate ys.length 0 ↔ xs = ys)
  | [], [], _ => by simp
  | x :: xs, y :: ys, h => by
    have hrest := xor_eq_zero_iff (show xs.length = ys.length by simpa using h)
    rw [List.zipWith_cons_cons, List.length_cons, List.replicate_succ, List.cons_eq_cons, List.cons_eq_cons, hrest,
      UInt8.xor_eq_zero_iff]
  | [], _ :: _, h => by simp at h
  | _ :: _, [], h => by simp at h

theorem xorSha_eq_iff (hbuf : buf.length = rsaNumBytes) (hsha : sha.length = shaDigestSize) :
    xorSha buf sha = padding ++ List.replicate shaDigestSize 0 ↔ buf = padding ++ sha := by
  have hcut : rsaNumBytes - shaDigestSize = padding.length := by rw [padding_length]; rfl
  have hlen : (buf.take padding.length).length = padding.length := by
    rw [List.length_take, hbuf, padding_length]
    rfl
  have hdrop : (buf.drop padding.length).length = sha.length := by
    rw [List.length_drop, hbuf, padding_length, hsha]
    rfl
  rw [xorSha, hbuf, hcut]
  constructor
  · intro h
    obtain ⟨htake, hxor⟩ := List.append_inj h hlen
    rw [← hsha, xor_eq_zero_iff hdrop] at hxor
    rw [← List.take_append_drop padding.length buf, htake, hxor]
  · rintro rfl
    rw [List.take_left, List.drop_left, ← hsha, (xor_eq_zero_iff rfl).mpr rfl]

end Blocks

section Signing

def bytesOf : ℕ → ℕ → List UInt8
  | 0, _ => []
  | len + 1, v => bytesOf len (v / 2 ^ 8) ++ [UInt8.ofNat v]

theorem bytesOf_length (len v : ℕ) : (bytesOf len v).length = len := by
  induction len generalizing v with
  | zero => rfl
  | succ len ih => rw [bytesOf, List.length_append, ih, List.length_singleton]

theorem number_bytesOf (len v : ℕ) : number (bytesOf len v) = v % (2 ^ 8) ^ len := by
  induction len generalizing v with
  | zero => rw [bytesOf, number_nil, pow_zero, Nat.mod_one]
  | succ len ih =>
    have hbyte : number [UInt8.ofNat v] = v % 2 ^ 8 := by simp [number, UInt8.toNat_ofNat']
    rw [bytesOf, number_append, ih, hbyte, List.length_singleton, pow_one,
      show (2 ^ 8) ^ (len + 1) = 2 ^ 8 * (2 ^ 8) ^ len from pow_succ' _ _, Nat.mod_mul, add_comm]

theorem modulus_le (key : RsaPublicKey) : key.modulus ≤ (2 ^ 8) ^ rsaNumBytes := by
  have hlt := RsaWords.value_lt key.n.toList
  rw [Vector.length_toList] at hlt
  exact hlt.le.trans (by rw [rsaNumWords, rsaNumBytes, ← pow_mul, ← pow_mul])

theorem signed_genuine {key : RsaPublicKey} {p q e d : ℕ} (hpair : KeyPair p q e d) (hn : key.modulus = p * q)
    (sha : List UInt8) : Genuine key e (bytesOf rsaNumBytes (number (padding ++ sha) ^ d % (p * q))) sha := by
  have hlt := (Nat.mod_lt (number (padding ++ sha) ^ d) hpair.modulus_pos).trans_le (hn ▸ modulus_le key)
  rw [Genuine, number_bytesOf, Nat.mod_eq_of_lt hlt, hn]
  exact hpair.undo _

end Signing

section Sample

def samplePrime : ℕ := 4657 * 2 ^ 2034 + 1

def sampleExponent : ℕ := (28902 * (samplePrime - 1) + 1) / 65537

def sampleWords (v : ℕ) : Vector UInt32 rsaNumWords := Vector.ofFn fun i => UInt32.ofNat (v / 2 ^ (32 * i.val))

def sampleKey : RsaPublicKey :=
  ⟨64, 0x55555555, sampleWords (3 * samplePrime), sampleWords (2 ^ 4096 % (3 * samplePrime)), 65537⟩

theorem samplePrime_prime : samplePrime.Prime :=
  prime_of_powMod 3 2048 (by norm_num) (by decide +kernel) (by decide +kernel) (by decide +kernel)
    (by decide +kernel)

theorem samplePair : KeyPair 3 samplePrime 65537 sampleExponent :=
  ⟨Nat.prime_three, samplePrime_prime, by decide +kernel, by decide +kernel, by decide +kernel⟩

theorem sampleKey_sound : Sound sampleKey := by
  refine ⟨rfl, ⟨?_, ?_, ?_⟩, ?_⟩
  · rw [RsaWords.Inverse]
    decide +kernel
  · decide +kernel
  · decide +kernel
  · decide +kernel

def sampleSign (sha : List UInt8) : List UInt8 :=
  bytesOf rsaNumBytes (powMod (3 * samplePrime) 2048 (number (padding ++ sha)) sampleExponent)

theorem sampleSign_genuine (sha : List UInt8) : Genuine sampleKey 65537 (sampleSign sha) sha := by
  have hmodulus : sampleKey.modulus = 3 * samplePrime := by decide +kernel
  rw [sampleSign, powMod_eq _ (by decide +kernel)]
  exact signed_genuine samplePair hmodulus sha

end Sample

section Verdict

variable {key : RsaPublicKey} {signature sha scratch : List UInt8}

theorem Sound.words (h : signature.length = rsaNumBytes) : signature.length = key.n.toList.length * 4 := by
  rw [h, Vector.length_toList]
  rfl

theorem radix_key (key : RsaPublicKey) : radix key.n.toList = 2 ^ 2048 := by
  rw [radix, Vector.length_toList, rsaNumWords, rsaNumBytes, ← pow_mul]

theorem Sound.radix_le (h : Sound key) : radix key.n.toList ≤ 2 * value key.n.toList := by
  have htop := h.top
  rw [RsaPublicKey.modulus] at htop
  rw [radix_key]
  omega

theorem Sound.power_eq (h : Sound key) {e : ℕ} {out : List UInt8} (hsig : signature.length = rsaNumBytes)
    (hsha : sha.length = shaDigestSize) (hout : PowerOf key.n.toList e signature out) :
    out = padding ++ sha ↔ Genuine key e signature sha := by
  have hnum := hout.reduced h.radix_le
  have hlen : out.length = (padding ++ sha).length := by rw [hout.length, hsig, padded_length hsha]
  have hlt : number (padding ++ sha) < key.modulus := (padded_lt hsha).trans_le h.top
  constructor
  · rintro rfl
    rw [Genuine, Nat.ModEq, Nat.mod_eq_of_lt hlt, RsaPublicKey.modulus, hnum]
  · intro hgenuine
    rw [Genuine, Nat.ModEq, Nat.mod_eq_of_lt hlt] at hgenuine
    exact number_inj hlen (hnum.trans hgenuine)

theorem cube_eq (h : Sound key) (he : key.exponent = 3) (hsig : signature.length = rsaNumBytes) :
    rsaE3Verify key signature sha = true ↔ modpow3 key.n0inv key.n.toList key.rr.toList signature = padding ++ sha := by
  rw [rsaE3Verify, if_neg (not_not.mpr h.len), if_neg (not_not.mpr hsig), if_neg (not_not.mpr he)]
  dsimp only
  constructor
  · intro hok
    split_ifs at hok with hpad
    rw [not_not] at hpad
    calc modpow3 key.n0inv key.n.toList key.rr.toList signature
        = (modpow3 key.n0inv key.n.toList key.rr.toList signature).take padding.length ++
          (modpow3 key.n0inv key.n.toList key.rr.toList signature).drop padding.length :=
        (List.take_append_drop _ _).symm
      _ = padding ++ sha := by rw [hpad, beq_iff_eq.mp hok]
  · intro hout
    rw [hout, List.take_left, List.drop_left, if_neg (not_not.mpr rfl), beq_self_eq_true]

theorem sha_standard (hscratch : scratch.length = bufSize) (data : List UInt8) : Sha1.sha scratch data = standardSha1 data := by
  rw [Sha1.sha, ((init_absorbed hscratch).update data).final, List.nil_append, sha1_standard]

theorem power_unique (h : Sound key) {e : ℕ} {out block : List UInt8} (hsig : signature.length = rsaNumBytes)
    (hout : PowerOf key.n.toList e signature out) (hlen : block.length = rsaNumBytes)
    (hblock : number block = number signature ^ e % key.modulus) : block = out :=
  number_inj (hlen.trans (hout.length.trans hsig).symm) (hblock.trans (hout.reduced h.radix_le).symm)

theorem rsaVerify_iff (h : Sound key) (hsha : sha.length = shaDigestSize) (hscratch : scratch.length = bufSize) :
    rsaVerify scratch key signature sha = true ↔ signature.length = rsaNumBytes ∧ Accepts key signature sha := by
  by_cases hsig : signature.length = rsaNumBytes
  · have hcube := h.valid.cube (Sound.words hsig)
    have hpow := h.valid.fermat (Sound.words hsig)
    rw [rsaVerify, Accepts, and_iff_right hsig]
    by_cases hthree : key.exponent = 3
    · have hne : key.exponent ≠ 65537 := by rw [hthree]; decide
      rw [if_pos hthree, cube_eq h hthree hsig, h.power_eq hsig hsha hcube]
      exact ⟨fun hok => .inl ⟨hthree, hok⟩, fun hor => hor.elim And.right fun hand => absurd hand.1 hne⟩
    · rw [if_neg hthree]
      by_cases hfermat : key.exponent = 65537
      · rw [if_pos hfermat, rsaEF4Verify, if_neg (not_not.mpr h.len), if_neg (not_not.mpr hsig),
          if_neg (not_not.mpr hfermat)]
        dsimp only
        rw [sha_standard hscratch, beq_iff_eq, ← expected_padding]
        constructor
        · intro hok
          exact .inr ⟨hfermat, _, hpow.length.trans hsig, hpow.reduced h.radix_le, hok⟩
        · rintro (⟨heq, -⟩ | ⟨-, block, hlen, hblock, hdigest⟩)
          · exact absurd heq hthree
          · rwa [power_unique h hsig hpow hlen hblock] at hdigest
      · rw [if_neg hfermat]
        exact ⟨fun hfalse => Bool.noConfusion hfalse,
          fun hor => hor.elim (fun hand => absurd hand.1 hthree) fun hand => absurd hand.1 hfermat⟩
  · have hfalse : rsaVerify scratch key signature sha = false := by
      simp only [rsaVerify, rsaE3Verify, rsaEF4Verify, if_pos (show signature.length ≠ rsaNumBytes from hsig), ite_self]
    rw [hfalse]
    exact ⟨fun h => Bool.noConfusion h, fun hand => absurd hand.1 hsig⟩

theorem accepts_iff (h : Sound key) (hsha : sha.length = shaDigestSize) (hsig : signature.length = rsaNumBytes) :
    Accepts key signature sha ↔ GenuineFor key signature sha ∨ Collides key signature sha := by
  have hpow := h.valid.fermat (Sound.words hsig)
  have hlen := hpow.length.trans hsig
  constructor
  · rintro (⟨he, hgenuine⟩ | ⟨he, block, hblock, hnum, hdigest⟩)
    · exact .inl (.inl ⟨he, hgenuine⟩)
    · by_cases hmasked : xorSha block sha = padding ++ List.replicate shaDigestSize 0
      · refine .inl (.inr ⟨he, (h.power_eq hsig hsha hpow).mp ?_⟩)
        rw [← power_unique h hsig hpow hblock hnum]
        exact (xorSha_eq_iff hblock hsha).mp hmasked
      · exact .inr ⟨he, block, hblock, hnum, hmasked, hdigest⟩
  · rintro ((⟨he, hgenuine⟩ | ⟨he, hgenuine⟩) | ⟨he, block, hblock, hnum, -, hdigest⟩)
    · exact .inl ⟨he, hgenuine⟩
    · refine .inr ⟨he, _, hlen, hpow.reduced h.radix_le, ?_⟩
      rw [(xorSha_eq_iff hlen hsha).mpr ((h.power_eq hsig hsha hpow).mpr hgenuine)]
    · exact .inr ⟨he, block, hblock, hnum, hdigest⟩

/-- `RSA_verify` decides by the public power, for 65537 by the hash of its masked block. -/
theorem rsaVerify_verdict (h : Sound key) (hsha : sha.length = shaDigestSize) (hscratch : scratch.length = bufSize) :
    rsaVerify scratch key signature sha = true ↔
      signature.length = rsaNumBytes ∧ (GenuineFor key signature sha ∨ Collides key signature sha) := by
  rw [rsaVerify_iff h hsha hscratch]
  exact and_congr_right (fun hsig => accepts_iff h hsha hsig)

theorem rsaVerify_verdict_sample :
    rsaVerify (List.replicate bufSize 0) sampleKey (sampleSign (List.replicate 20 2)) (List.replicate 20 2) = true :=
  (rsaVerify_verdict sampleKey_sound List.length_replicate List.length_replicate).mpr
    ⟨bytesOf_length _ _, .inl (.inr ⟨rfl, sampleSign_genuine _⟩)⟩

end Verdict

end LinuxRecovery.RsaVerify
