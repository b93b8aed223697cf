import LinuxRecovery.SignedFile

namespace LinuxRecovery.SignPackage

open Sha1 Sha1Standard RsaPower RsaTrapdoor RsaVerify Verifier SignedFile

structure SignerStream where
  closing : Bool
  footer : List UInt8
  out : List UInt8
  tee : List UInt8

def SignerStream.empty : SignerStream := ⟨false, [], [], []⟩

namespace SignerStream

def write (s : SignerStream) (b : List UInt8) : SignerStream :=
  if s.closing = true then { s with footer := s.footer ++ b } else { s with out := s.out ++ b, tee := s.tee ++ b }

def notifyClosing (s : SignerStream) : SignerStream := { s with closing := true }

def finish (s : SignerStream) : Option SignerStream :=
  let s := { s with closing := false }
  if s.footer.length < 2 then none else some (s.write (s.footer.take (s.footer.length - 2)))

end SignerStream

section Sign

variable (generate : List UInt8 → List UInt8)

/-- `CMSSigner.write`: what the archive writes before it is closed, and while it is. -/
def writeJar (jar closing : List (List UInt8)) : Option SignerStream :=
  (closing.foldl SignerStream.write (jar.foldl SignerStream.write .empty).notifyClosing).finish

def message : List UInt8 :=
  [0x73, 0x69, 0x67, 0x6e, 0x65, 0x64, 0x20, 0x62, 0x79, 0x20, 0x53, 0x69, 0x67, 0x6e, 0x41, 0x70, 0x6b]

def lowHigh (n : ℕ) : List UInt8 := [UInt8.ofNat n, UInt8.ofNat (n / 2 ^ 8)]

def comment (totalSize : ℕ) (temp : List UInt8) : List UInt8 :=
  temp ++ lowHigh (totalSize - message.length - 1) ++ [0xff, 0xff] ++ lowHigh totalSize

/-- `signWholeFile`; nothing where it ends in an exception. `generate` makes the signature block of the signed bytes. -/
def signWholeFile (jar closing : List (List UInt8)) : Option (List UInt8) :=
  match writeJar jar closing with
  | none => none
  | some signer =>
    let temp := message ++ [0] ++ generate signer.out
    let zipData := signer.footer
    if zipData.length < 22 then none
    else if markerAt zipData (zipData.length - 22) = false then none
    else
      let totalSize := temp.length + 6
      if 0xffff < totalSize then none
      else
        let b := comment totalSize temp
        if (List.range (b.length - 3)).any (markerAt b) = true then none
        else some (signer.tee ++ lowHigh totalSize ++ b)

end Sign

section Stream

theorem write_open {s : SignerStream} (h : s.closing = false) (b : List UInt8) :
    s.write b = { s with out := s.out ++ b, tee := s.tee ++ b } := by
  rw [SignerStream.write, if_neg (by rw [h]; exact Bool.noConfusion)]

theorem write_closing {s : SignerStream} (h : s.closing = true) (b : List UInt8) :
    s.write b = { s with footer := s.footer ++ b } := if_pos h

theorem writes_open {s : SignerStream} (h : s.closing = false) (bs : List (List UInt8)) :
    bs.foldl SignerStream.write s = { s with out := s.out ++ bs.flatten, tee := s.tee ++ bs.flatten } := by
  induction bs generalizing s with
  | nil => rw [List.foldl_nil, List.flatten_nil, List.append_nil, List.append_nil]
  | cons b bs ih =>
    rw [List.foldl_cons, write_open h, ih (by exact h)]
    simp only [List.flatten_cons, List.append_assoc]

theorem writes_closing {s : SignerStream} (h : s.closing = true) (bs : List (List UInt8)) :
    bs.foldl SignerStream.write s = { s with footer := s.footer ++ bs.flatten } := by
  induction bs generalizing s with
  | nil => rw [List.foldl_nil, List.flatten_nil, List.append_nil]
  | cons b bs ih =>
    rw [List.foldl_cons, write_closing h, ih (by exact h)]
    simp only [List.flatten_cons, List.append_assoc]

theorem writeJar_eq (jar closing : List (List UInt8)) : writeJar jar closing =
    if closing.flatten.length < 2 then none
    else
      let content := jar.flatten ++ closing.flatten.take (closing.flatten.length - 2)
      some ⟨false, closing.flatten, content, content⟩ := by
  rw [writeJar, writes_open (s := .empty) rfl, SignerStream.notifyClosing, writes_closing rfl, SignerStream.finish]
  dsimp only
  rw [write_open rfl]
  rfl

end Stream

structure Layout (content block file : List UInt8) : Prop where
  eq : file = content ++ lowHigh (block.length + 24) ++ comment (block.length + 24) (message ++ [0] ++ block)
  header : 20 ≤ content.length
  marker : markerAt content (content.length - 20) = true
  size : block.length + 24 ≤ 0xffff
  scanned : ∀ i < block.length + 21, markerAt (comment (block.length + 24) (message ++ [0] ++ block)) i = false

theorem comment_length (n : ℕ) (block : List UInt8) :
    (comment n (message ++ [0] ++ block)).length = block.length + 24 := by
  simp only [comment, message, lowHigh, List.length_append, List.length_cons, List.length_nil]
  omega

section Marker

theorem markerAt_append_right (xs ys : List UInt8) (i : ℕ) : markerAt (xs ++ ys) (xs.length + i) = markerAt ys i := by
  rw [markerAt, markerAt, List.drop_append, List.drop_eq_nil_of_le (by omega), List.nil_append,
    Nat.add_sub_cancel_left]

theorem markerAt_append_left {xs : List UInt8} (ys : List UInt8) {i : ℕ} (h : i + 4 ≤ xs.length) :
    markerAt (xs ++ ys) i = markerAt xs i := by
  rw [markerAt, markerAt, List.drop_append_of_le_length (by omega), List.take_append_of_le_length
    (by rw [List.length_drop]; omega)]

theorem markerAt_take {xs : List UInt8} {n i : ℕ} (h : i + 4 ≤ n) : markerAt (xs.take n) i = markerAt xs i := by
  rw [markerAt, markerAt, List.drop_take, List.take_take, Nat.min_eq_left (by omega)]

theorem markerAt_drop (xs : List UInt8) (n i : ℕ) : markerAt (xs.drop n) i = markerAt xs (n + i) := by
  rw [markerAt, markerAt, List.drop_drop]

end Marker

section Shape

variable {generate : List UInt8 → List UInt8} {jar closing : List (List UInt8)} {file : List UInt8}

theorem signWholeFile_layout (h : signWholeFile generate jar closing = some file) :
    ∃ content, writeJar jar closing = some ⟨false, closing.flatten, content, content⟩ ∧
      Layout content (generate content) file := by
  rw [signWholeFile, writeJar_eq] at h
  rw [writeJar_eq]
  by_cases hshort : closing.flatten.length < 2
  · rw [if_pos hshort] at h
    cases h
  rw [if_neg hshort] at h ⊢
  refine ⟨_, rfl, ?_⟩
  dsimp only at h
  split_ifs at h with h1 h2 h3 h4
  cases h
  set content := jar.flatten ++ closing.flatten.take (closing.flatten.length - 2) with hcontent
  have htemp : (message ++ [0] ++ generate content).length + 6 = (generate content).length + 24 := by
    simp only [message, List.length_append, List.length_cons, List.length_nil]
    omega
  have hlen : content.length = jar.flatten.length + (closing.flatten.length - 2) := by
    rw [hcontent, List.length_append, List.length_take]
    omega
  rw [htemp] at h3 h4 ⊢
  rw [comment_length] at h4
  refine ⟨rfl, by omega, ?_, by omega, fun i hi => ?_⟩
  · rw [show content.length - 20 = jar.flatten.length + (closing.flatten.length - 22) by omega, hcontent,
      markerAt_append_right, markerAt_take (by omega)]
    exact Bool.not_eq_false _ |>.mp h2
  · by_contra hmarker
    exact h4 (List.any_eq_true.mpr ⟨i, List.mem_range.mpr (by omega), by simpa using hmarker⟩)

end Shape

section Read

variable {content block file : List UInt8}

theorem lowHigh_value {n : ℕ} (h : n ≤ 0xffff) : ((lowHigh n).getD 0 0).toNat + ((lowHigh n).getD 1 0).toNat * 2 ^ 8 = n := by
  simp only [lowHigh, List.getD_cons_zero, List.getD_cons_succ, UInt8.toNat_ofNat']
  omega

theorem Layout.length (h : Layout content block file) : file.length = content.length + block.length + 26 := by
  rw [h.eq, List.length_append, List.length_append, comment_length]
  simp only [lowHigh, List.length_cons, List.length_nil]
  omega

theorem Layout.footer (h : Layout content block file) :
    footer file = lowHigh (block.length + 6) ++ [0xff, 0xff] ++ lowHigh (block.length + 24) := by
  have hlen := h.length
  have hsplit : file = (content ++ lowHigh (block.length + 24) ++ (message ++ [0] ++ block)) ++
      (lowHigh (block.length + 6) ++ [0xff, 0xff] ++ lowHigh (block.length + 24)) := by
    rw [h.eq, comment, show block.length + 24 - message.length - 1 = block.length + 6 from rfl]
    simp only [List.append_assoc]
  rw [Verifier.footer, hlen, footerSize]
  conv_lhs => rw [hsplit]
  apply List.drop_left'
  simp only [message, lowHigh, List.length_append, List.length_cons, List.length_nil]
  omega

theorem Layout.signatureStart (h : Layout content block file) : signatureStart file = block.length + 6 := by
  have hsize := h.size
  rw [Verifier.signatureStart, h.footer]
  exact lowHigh_value (by omega)

theorem Layout.commentSize (h : Layout content block file) : commentSize file = block.length + 24 := by
  rw [Verifier.commentSize, h.footer]
  exact lowHigh_value h.size

theorem Layout.signedPart (h : Layout content block file) : signedPart file = content := by
  rw [SignedFile.signedPart, h.commentSize, h.length,
    show content.length + block.length + 26 - (block.length + 24) - 2 = content.length by omega, h.eq,
    List.append_assoc, List.take_left]

theorem Layout.signatureOf (h : Layout content block file) {front signature : List UInt8}
    (hblock : block = front ++ signature) (hsig : signature.length = rsaNumBytes) : signatureOf file = signature := by
  have hsplit : file = (content ++ lowHigh (block.length + 24) ++ (message ++ [0] ++ front)) ++ (signature ++
      (lowHigh (block.length + 6) ++ [0xff, 0xff] ++ lowHigh (block.length + 24))) := by
    have htemp : message ++ [0] ++ block = message ++ [0] ++ front ++ signature := by
      rw [hblock]
      simp only [List.append_assoc]
    rw [h.eq, comment, show block.length + 24 - message.length - 1 = block.length + 6 from rfl, htemp]
    simp only [List.append_assoc]
  have hlen : block.length = front.length + 256 := by rw [hblock, List.length_append, hsig, rsaNumBytes]
  have hdrop : file.drop (file.length - 262) = signature ++
      (lowHigh (block.length + 6) ++ [0xff, 0xff] ++ lowHigh (block.length + 24)) := by
    rw [h.length]
    conv_lhs => rw [hsplit]
    apply List.drop_left'
    simp only [message, lowHigh, List.length_append, List.length_cons, List.length_nil]
    omega
  rw [SignedFile.signatureOf, hdrop, ← hsig, List.take_left]

theorem Layout.record (h : Layout content block file) : eocdRecord file =
    content.drop (content.length - 20) ++ lowHigh (block.length + 24) ++
      comment (block.length + 24) (message ++ [0] ++ block) := by
  have hheader := h.header
  rw [eocdRecord, eocdSize, h.commentSize, h.length, eocdHeaderSize,
    show content.length + block.length + 26 - (block.length + 24 + 22) = content.length - 20 by omega, h.eq,
    List.append_assoc, List.drop_append_of_le_length (by omega)]
  simp only [List.append_assoc]

/-- The record with its new comment size, which the signer does not look at again. -/
def sizedRecord (content block : List UInt8) : List UInt8 :=
  content.drop (content.length - 20) ++ lowHigh (block.length + 24)

theorem Layout.sized_length (h : Layout content block file) : (sizedRecord content block).length = 22 := by
  have hheader := h.header
  rw [sizedRecord, List.length_append, List.length_drop]
  simp only [lowHigh, List.length_cons, List.length_nil]
  omega

def OneMarker (record : List UInt8) : Prop := ∀ i, 4 ≤ i → i + 4 ≤ record.length → markerAt record i = false

theorem markerAt_getD {eocd : List UInt8} {i k : ℕ} (h : markerAt eocd i = true) (hk : k < 4) :
    eocd.getD (i + k) 0 = eocdMarker.getD k 0 := by
  rw [markerAt, beq_iff_eq] at h
  rw [← h, List.getD_eq_getElem?_getD, List.getD_eq_getElem?_getD, List.getElem?_take_of_lt hk, List.getElem?_drop]

theorem Layout.inOrder_iff (h : Layout content block file) (hblock : rsaNumBytes ≤ block.length) :
    InOrder file ↔ OneMarker (sizedRecord content block) := by
  have hlen := h.sized_length
  have hrecord : eocdRecord file = sizedRecord content block ++ comment (block.length + 24) (message ++ [0] ++ block) :=
    h.record
  have hsize : eocdSize file = block.length + 46 := by rw [eocdSize, h.commentSize, eocdHeaderSize]
  constructor
  · rintro ⟨hends, -⟩ i hlow hhigh
    rw [← markerAt_append_left _ hhigh, ← hrecord]
    exact hends.once i hlow (by omega)
  · intro hone
    refine ⟨⟨?_, ?_, ?_, ?_, ?_⟩, ?_⟩
    · rw [h.length, footerSize]
      omega
    · rw [h.footer]
      exact ⟨rfl, rfl⟩
    · have hheader := h.header
      rw [h.length, hsize]
      omega
    · rw [hrecord, markerAt_append_left _ (by omega), sizedRecord,
        markerAt_append_left _ (by rw [List.length_drop]; have := h.header; omega), markerAt_drop, Nat.add_zero, h.marker]
    · intro i hlow hhigh
      by_cases hin : i + 4 ≤ 22
      · rw [hrecord, markerAt_append_left _ (by omega)]
        exact hone i hlow (by omega)
      · by_cases hout : 22 ≤ i
        · obtain ⟨j, rfl⟩ := Nat.exists_eq_add_of_le hout
          rw [hrecord, ← hlen, markerAt_append_right]
          exact h.scanned j (by omega)
        · -- The marker would reach into the message, which has none of its bytes.
          by_contra hmarker
          rw [Bool.not_eq_false] at hmarker
          have hbyte := markerAt_getD hmarker (k := 3) (by norm_num)
          have hcomment : (eocdRecord file).getD (i + 3) 0 = message.getD (i - 19) 0 := by
            rw [hrecord, List.getD_append_right _ _ _ _ (by omega), hlen, show i + 3 - 22 = i - 19 by omega, comment,
              List.append_assoc, List.append_assoc, List.append_assoc, List.append_assoc,
              List.getD_append _ _ _ _ (by simp only [message, List.length_cons, List.length_nil]; omega)]
          rw [hcomment] at hbyte
          have hcases : i = 19 ∨ i = 20 ∨ i = 21 := by omega
          rcases hcases with rfl | rfl | rfl
          · exact absurd hbyte (by decide)
          · exact absurd hbyte (by decide)
          · exact absurd hbyte (by decide)
    · rw [h.signatureStart]
      rw [rsaNumBytes] at hblock
      omega

end Read

/-- A signature block as the provider encodes it: it ends in the private power of the padded digest of the content. -/
def SignsWith (n d : ℕ) (generate : List UInt8 → List UInt8) : Prop :=
  ∀ content, ∃ front, generate content =
    front ++ bytesOf rsaNumBytes (number (padding ++ standardSha1 content) ^ d % n)

section Accepted

variable {generate : List UInt8 → List UInt8} {jar closing : List (List UInt8)} {file : List UInt8} {p q d : ℕ}

theorem Layout.accepts {content file : List UInt8} (h : Layout content (generate content) file) {key : RsaPublicKey}
    (hsound : Sound key) (hexp : key.exponent = 3 ∨ key.exponent = 65537) (hpair : KeyPair p q key.exponent.toNat d)
    (hn : key.modulus = p * q) (hgen : SignsWith (p * q) d generate) :
    rsaNumBytes ≤ (generate content).length ∧ Accepts key (SignedFile.signatureOf file)
      (standardSha1 (SignedFile.signedPart file)) := by
  obtain ⟨front, hblock⟩ := hgen content
  have hlen := bytesOf_length rsaNumBytes (number (padding ++ standardSha1 content) ^ d % (p * q))
  have hgenuine := signed_genuine hpair hn (standardSha1 content)
  constructor
  · rw [hblock, List.length_append, hlen]
    exact Nat.le_add_left _ _
  · rw [h.signedPart, h.signatureOf hblock hlen]
    apply (accepts_iff hsound (digest_length _) hlen).mpr
    rcases hexp with he | he
    · rw [he, show (3 : ℤ).toNat = 3 from rfl] at hgenuine
      exact .inl (.inl ⟨he, hgenuine⟩)
    · rw [he, show (65537 : ℤ).toNat = 65537 from rfl] at hgenuine
      exact .inl (.inr ⟨he, hgenuine⟩)

theorem Layout.roomy {content block file : List UInt8} (h : Layout content block file) (hroom : rsaNumBytes ≤ block.length) :
    262 ≤ Verifier.commentSize file := by
  rw [h.commentSize]
  rw [rsaNumBytes] at hroom
  omega

/-- The verifier accepts what the signer made with the private part of one of its keys, unless the archive's own record
happens to have another marker in it. -/
theorem signed_accepted_iff (mem : Memory) {keys : List RsaPublicKey} (hkeys : ∀ key ∈ keys, Sound key) {key : RsaPublicKey}
    (hmem : key ∈ keys) (hexp : key.exponent = 3 ∨ key.exponent = 65537) (hpair : KeyPair p q key.exponent.toNat d)
    (hn : key.modulus = p * q) (hgen : SignsWith (p * q) d generate) (hsigned : signWholeFile generate jar closing = some file) :
    ∃ content, writeJar jar closing = some ⟨false, closing.flatten, content, content⟩ ∧
      (verifyFile mem keys (some file) = true ↔ OneMarker (sizedRecord content (generate content))) := by
  obtain ⟨content, hjar, hlayout⟩ := signWholeFile_layout hsigned
  obtain ⟨hroom, haccepts⟩ := hlayout.accepts (hkeys key hmem) hexp hpair hn hgen
  refine ⟨content, hjar, ?_⟩
  rw [verifyFile_iff mem hkeys, ← hlayout.inOrder_iff hroom]
  apply and_iff_left_of_imp
  intro horder
  rw [signatureRead_eq mem horder.1 (hlayout.roomy hroom)]
  exact ⟨key, hmem, haccepts⟩

def sampleGenerate (content : List UInt8) : List UInt8 :=
  sampleSign (sha1 content)

def sampleClosing : List (List UInt8) := [[0x50, 0x4b, 5, 6], [0, 0, 0, 0, 0, 0, 0, 0], [0, 0, 0, 0, 0, 0, 0, 0, 0, 0]]

def sampleFile : List UInt8 := (signWholeFile sampleGenerate [] sampleClosing).getD []

theorem sampleGenerate_signs : SignsWith (3 * samplePrime) sampleExponent sampleGenerate := by
  intro content
  refine ⟨[], ?_⟩
  rw [List.nil_append, sampleGenerate, sampleSign, powMod_eq _ (by decide +kernel), sha1_standard]

theorem sampleFile_signed : signWholeFile sampleGenerate [] sampleClosing = some sampleFile := by
  have hsome : (signWholeFile sampleGenerate [] sampleClosing).isSome = true := by decide +kernel
  obtain ⟨file, hfile⟩ := Option.isSome_iff_exists.mp hsome
  rw [sampleFile, hfile, Option.getD_some]

/-- Two files that one key accepts with the same signature have signed parts of the same hash, or one of them collides. -/
theorem same_signature (mem : Memory) {key : RsaPublicKey} (h : Sound key) {file file' : List UInt8}
    (hsame : signatureRead mem file = signatureRead mem file') (hok : verifyFile mem [key] (some file) = true)
    (hok' : verifyFile mem [key] (some file') = true) :
    standardSha1 (signedPart file) = standardSha1 (signedPart file') ∨
      Collides key (signatureRead mem file) (standardSha1 (signedPart file)) ∨
      Collides key (signatureRead mem file) (standardSha1 (signedPart file')) := by
  have hkeys : ∀ k ∈ [key], Sound k := fun k hmem => List.mem_singleton.mp hmem ▸ h
  have hverdict {f : List UInt8} (hverified : verifyFile mem [key] (some f) = true) :
      GenuineFor key (signatureRead mem f) (standardSha1 (signedPart f)) ∨
        Collides key (signatureRead mem f) (standardSha1 (signedPart f)) := by
    obtain ⟨-, k, hmem, haccepts⟩ := (verifyFile_iff mem hkeys).mp hverified
    rw [List.mem_singleton.mp hmem] at haccepts
    exact (accepts_iff h (digest_length _) (signatureRead_length mem f)).mp haccepts
  rcases hverdict hok with hone | hcollides
  · rcases hverdict hok' with htwo | hcollides
    · rw [← hsame] at htwo
      left
      rcases hone with ⟨he, hone⟩ | ⟨he, hone⟩
      · rcases htwo with ⟨-, htwo⟩ | ⟨he', -⟩
        · exact genuine_digest h (digest_length _) (digest_length _) hone htwo
        · rw [he] at he'
          exact absurd he' (by decide)
      · rcases htwo with ⟨he', -⟩ | ⟨-, htwo⟩
        · rw [he] at he'
          exact absurd he' (by decide)
        · exact genuine_digest h (digest_length _) (digest_length _) hone htwo
    · rw [← hsame] at hcollides
      exact .inr (.inr hcollides)
  · exact .inr (.inl hcollides)

theorem sampleSigned_accepted {byte : UInt8} (hbyte : byte ≠ 0x50) :
    signatureRead sampleMemory (sampleSigned byte (sampleSign (sha1 sampleContent))) = sampleSign (sha1 sampleContent) ∧
      verifyFile sampleMemory [sampleKey] (some (sampleSigned byte (sampleSign (sha1 sampleContent)))) = true := by
  have hlen : (sampleSign (sha1 sampleContent)).length = rsaNumBytes := bytesOf_length _ _
  have horder := sampleSigned_order hlen hbyte sampleSign_marker
  have hread := signatureRead_eq sampleMemory horder.1 (by rw [sampleSigned_commentSize hlen]; norm_num)
  constructor
  · rw [hread, sampleSigned_signature hlen]
  · refine (verifyFile_iff sampleMemory (fun _ hmem => List.mem_singleton.mp hmem ▸ sampleKey_sound)).mpr
      ⟨horder, sampleKey, List.mem_cons_self, ?_⟩
    rw [accepts_iff sampleKey_sound (digest_length _) (signatureRead_length _ _)]
    exact .inl (sampleSigned_genuine byte hread)

theorem same_signature_sample :
    let file := sampleSigned 0 (sampleSign (sha1 sampleContent))
    let file' := sampleSigned 1 (sampleSign (sha1 sampleContent))
    file ≠ file' ∧ (standardSha1 (signedPart file) = standardSha1 (signedPart file') ∨
      Collides sampleKey (signatureRead sampleMemory file) (standardSha1 (signedPart file)) ∨
      Collides sampleKey (signatureRead sampleMemory file) (standardSha1 (signedPart file'))) := by
  obtain ⟨hread, hok⟩ := sampleSigned_accepted (show (0 : UInt8) ≠ 0x50 by decide)
  obtain ⟨hread', hok'⟩ := sampleSigned_accepted (show (1 : UInt8) ≠ 0x50 by decide)
  refine ⟨fun heq => ?_, same_signature sampleMemory sampleKey_sound (hread.trans hread'.symm) hok hok'⟩
  have hbyte := congrArg (fun file => file.getD 22 0) heq
  cases hbyte

end Accepted

end LinuxRecovery.SignPackage
