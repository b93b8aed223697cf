import LinuxRecovery.RsaVerify

namespace LinuxRecovery.SignedFile

open Loops Sha1 Sha1Standard RsaPower RsaVerify Verifier

def bufferSize : ℕ := 4096

def readSize (left : ℕ) : ℕ := if left < bufferSize then left else bufferSize

theorem readSize_le (left : ℕ) : readSize left ≤ left := by
  unfold readSize
  split_ifs <;> omega

theorem readSize_pos {left : ℕ} (h : 0 < left) : 0 < readSize left := by
  unfold readSize bufferSize
  split_ifs <;> omega

section Reading

variable (file : List UInt8) (signedLen : ℕ)

/-- The loop that hashes the signed part, a buffer at a time; nothing where a read comes up short. -/
def hashLoop : Loop (ShaCtx × ℕ) (Option ShaCtx) where
  step s :=
    if s.2 < signedLen then
      let size := readSize (signedLen - s.2)
      let buffer := (file.drop s.2).take size
      if buffer.length ≠ size then .done none else .next (shaUpdate s.1 buffer, s.2 + size)
    else .done (some s.1)
  measure s := signedLen - s.2
  decreasing := by
    intro s t h
    split_ifs at h with hmore
    dsimp only at h
    split_ifs at h
    cases h
    have hpos := readSize_pos (show 0 < signedLen - s.2 by omega)
    dsimp only
    omega

end Reading

/-- What the memory holds around the record and in the hash contexts, before anything is written there. -/
structure Memory where
  around : ℤ → UInt8
  scratch : List UInt8
  stack : List UInt8
  scratch_length : scratch.length = bufSize
  stack_length : stack.length = bufSize

section File

variable (mem : Memory)

def byteAt (eocd : List UInt8) (i : ℤ) : UInt8 :=
  if 0 ≤ i ∧ i < eocd.length then eocd.getD i.toNat 0 else mem.around i

def signatureAt (call : RsaCall) : List UInt8 :=
  (List.range rsaNumBytes).map fun k : ℕ => byteAt mem call.eocd (call.signature + (k : ℤ))

def verifyFile (keys : List RsaPublicKey) (file : Option (List UInt8)) : Bool :=
  match file with
  | none => false
  | some bytes =>
    match rsaCall bytes with
    | none => false
    | some call =>
      match (hashLoop bytes call.signed.length).exec (shaInit mem.scratch, 0) with
      | none => false
      | some ctx => (tryKeys (fun key c => rsaVerify mem.stack key (signatureAt mem c) (shaFinal ctx)) call keys).1

end File

def sampleMemory : Memory :=
  ⟨fun _ => 0, List.replicate bufSize 0, List.replicate bufSize 0, List.length_replicate, List.length_replicate⟩

section Hash

variable {file : List UInt8} {signedLen : ℕ}

theorem hashLoop_absorbed (hlen : signedLen ≤ file.length) {s : ShaCtx × ℕ} (hle : s.2 ≤ signedLen)
    (habs : Absorbed s.1 (file.take s.2)) :
    ∃ ctx, (hashLoop file signedLen).exec s = some ctx ∧ Absorbed ctx (file.take signedLen) := by
  induction s using (hashLoop file signedLen).induct with
  | h s ih =>
    by_cases hmore : s.2 < signedLen
    · have hsize := readSize_le (signedLen - s.2)
      have hread : ((file.drop s.2).take (readSize (signedLen - s.2))).length = readSize (signedLen - s.2) := by
        rw [List.length_take, List.length_drop]
        omega
      have hstep : (hashLoop file signedLen).step s = .next
          (shaUpdate s.1 ((file.drop s.2).take (readSize (signedLen - s.2))), s.2 + readSize (signedLen - s.2)) := by
        simp only [hashLoop, if_pos hmore, if_neg (not_not.mpr hread)]
      have htake : file.take (s.2 + readSize (signedLen - s.2)) =
          file.take s.2 ++ (file.drop s.2).take (readSize (signedLen - s.2)) := List.take_add
      obtain ⟨ctx, hexec, hctx⟩ := ih _ hstep (by dsimp only; omega) (by rw [htake]; exact habs.update _)
      exact ⟨ctx, by rw [(hashLoop file signedLen).exec_next hstep, hexec], hctx⟩
    · have hstep : (hashLoop file signedLen).step s = .done (some s.1) := if_neg hmore
      rw [(hashLoop file signedLen).exec_done hstep]
      exact ⟨s.1, rfl, by rwa [show s.2 = signedLen by omega] at habs⟩

theorem hashed (hlen : signedLen ≤ file.length) {buf : List UInt8} (h : buf.length = bufSize) :
    ∃ ctx, (hashLoop file signedLen).exec (shaInit buf, 0) = some ctx ∧ shaFinal ctx = standardSha1 (file.take signedLen) := by
  obtain ⟨ctx, hexec, habs⟩ := hashLoop_absorbed hlen (s := (shaInit buf, 0)) (Nat.zero_le _)
    (by rw [List.take_zero]; exact init_absorbed h)
  exact ⟨ctx, hexec, by rw [habs.final, sha1_standard]⟩

theorem digest_length (data : List UInt8) : (standardSha1 data).length = shaDigestSize := rfl

end Hash

section Slice

variable (mem : Memory) {file : List UInt8}

theorem tryKeys_iff {Key : Type} (verify : Key → RsaCall → Bool) (call : RsaCall) (keys : List Key) :
    (tryKeys verify call keys).1 = true ↔ ∃ key ∈ keys, verify key call = true := by
  induction keys with
  | nil => simp [tryKeys]
  | cons key keys ih =>
    rw [tryKeys]
    split_ifs with hkey
    · exact ⟨fun _ => ⟨key, List.mem_cons_self, hkey⟩, fun _ => rfl⟩
    · rw [ih]
      constructor
      · rintro ⟨k, hmem, hk⟩
        exact ⟨k, List.mem_cons_of_mem _ hmem, hk⟩
      · rintro ⟨k, hmem, hk⟩
        obtain rfl | hmem := List.mem_cons.mp hmem
        · exact absurd hk hkey
        · exact ⟨k, hmem, hk⟩

def signatureOf (file : List UInt8) : List UInt8 := (file.drop (file.length - 262)).take rsaNumBytes

/-- The 256 bytes in front of the footer of the record in memory, which may begin before the record. -/
def signatureRead (file : List UInt8) : List UInt8 :=
  (List.range rsaNumBytes).map fun k : ℕ => byteAt mem (eocdRecord file) ((eocdSize file : ℤ) - 6 - rsaNumBytes + (k : ℤ))

def signedPart (file : List UInt8) : List UInt8 := file.take (file.length - commentSize file - 2)

theorem signatureRead_length (file : List UInt8) : (signatureRead mem file).length = rsaNumBytes := by
  rw [signatureRead, List.length_map, List.length_range]

theorem signatureRead_eq (hends : EndsInEocd file) (hroom : 262 ≤ commentSize file) :
    signatureRead mem file = signatureOf file := by
  have hsize := hends.room
  have hcomment : eocdSize file = commentSize file + 22 := rfl
  have hlen : (eocdRecord file).length = eocdSize file := by
    rw [eocdRecord, List.length_drop]
    omega
  apply List.ext_getElem
  · rw [signatureRead_length, signatureOf, List.length_take, List.length_drop, rsaNumBytes]
    omega
  · intro k h1 h2
    rw [signatureRead_length, rsaNumBytes] at h1
    have hindex : ((eocdSize file : ℤ) - 6 - rsaNumBytes + k).toNat = eocdSize file - 262 + k := by
      rw [rsaNumBytes]
      omega
    simp only [signatureRead, List.getElem_map, List.getElem_range, byteAt, signatureOf, List.getElem_take,
      List.getElem_drop]
    rw [if_pos (by rw [hlen, rsaNumBytes]; omega), hindex, List.getD_eq_getElem _ _ (by rw [hlen]; omega)]
    simp only [eocdRecord, List.getElem_drop]
    exact getElem_congr_idx (by omega)

end Slice

/-- The end of the file is in order: the record, the only one, and a footer whose start leaves room for the signature or
lies below the footer's size. -/
def InOrder (file : List UInt8) : Prop :=
  EndsInEocd file ∧ ¬(6 ≤ signatureStart file ∧ signatureStart file < 262)

section Verdict

variable (mem : Memory) {keys : List RsaPublicKey} {file : List UInt8}

/-- A file is accepted exactly if its end is in order and one of the keys accepts the signature that is read for the
digest of everything before the comment. -/
theorem verifyFile_iff (hkeys : ∀ key ∈ keys, Sound key) :
    verifyFile mem keys (some file) = true ↔
      InOrder file ∧ ∃ key ∈ keys, Accepts key (signatureRead mem file) (standardSha1 (signedPart file)) := by
  rw [verifyFile]
  cases hcall : rsaCall file with
  | none =>
    refine ⟨fun h => Bool.noConfusion h, fun ⟨⟨hends, hstart⟩, _⟩ => ?_⟩
    rw [(rsaCall_iff file _).mpr ⟨hends, hstart, rfl⟩] at hcall
    cases hcall
  | some call =>
    obtain ⟨hends, hstart, hcalleq⟩ := (rsaCall_iff file call).mp hcall
    have hsize := hends.room
    have hcomment : eocdSize file = commentSize file + 22 := rfl
    have hpart : file.take call.signed.length = signedPart file := by
      rw [hcalleq, signedPart, List.length_take, eocdHeaderSize]
      congr 1
      omega
    have hread : signatureAt mem call = signatureRead mem file := by
      rw [hcalleq]
      rfl
    obtain ⟨ctx, hexec, hdigest⟩ := hashed
      (show call.signed.length ≤ file.length by rw [hcalleq]; exact List.length_take_le' _ _) mem.scratch_length
    dsimp only
    rw [hexec]
    dsimp only
    rw [tryKeys_iff, InOrder, and_iff_right (And.intro hends hstart), hdigest, hpart, hread]
    apply exists_congr
    intro key
    apply and_congr_right
    intro hmem
    rw [rsaVerify_iff (hkeys key hmem) (digest_length _) mem.stack_length,
      and_iff_right (signatureRead_length mem file)]

theorem genuine_digest {key : RsaPublicKey} (h : Sound key) {e : ℕ} {signature sha sha' : List UInt8}
    (hsha : sha.length = shaDigestSize) (hsha' : sha'.length = shaDigestSize) (hg : Genuine key e signature sha)
    (hg' : Genuine key e signature sha') : sha = sha' := by
  have hnum : number (padding ++ sha) = number (padding ++ sha') :=
    Nat.ModEq.eq_of_lt_of_lt (hg.symm.trans hg') ((padded_lt hsha).trans_le h.top) ((padded_lt hsha').trans_le h.top)
  exact List.append_cancel_left (number_inj ((padded_length hsha).trans (padded_length hsha').symm) hnum)

/-- A file is accepted exactly if its end is in order and the signature that is read is genuine for one of the keys, or
collides; with room for a signature in the comment it is the file's own. -/
theorem verifyFile_verdict (hkeys : ∀ key ∈ keys, Sound key) :
    (verifyFile mem keys (some file) = true ↔ InOrder file ∧ ∃ key ∈ keys,
        GenuineFor key (signatureRead mem file) (standardSha1 (signedPart file)) ∨
          Collides key (signatureRead mem file) (standardSha1 (signedPart file))) ∧
      (InOrder file → 262 ≤ commentSize file → signatureRead mem file = signatureOf file) := by
  constructor
  · rw [verifyFile_iff mem hkeys]
    apply and_congr_right
    intro _
    apply exists_congr
    intro key
    apply and_congr_right
    intro hmem
    exact accepts_iff (hkeys key hmem) (digest_length _) (signatureRead_length mem file)
  · intro horder hroom
    exact signatureRead_eq mem horder.1 hroom

end Verdict

section Sample

def sampleContent : List UInt8 := eocdMarker ++ List.replicate 16 1

def sampleSigned (byte : UInt8) (signature : List UInt8) : List UInt8 :=
  sampleContent ++ ([7, 1, byte] ++ (signature ++ [6, 1, 0xff, 0xff, 7, 1]))

variable {byte : UInt8} {signature : List UInt8}

theorem sampleSigned_length (h : signature.length = rsaNumBytes) : (sampleSigned byte signature).length = 285 := by
  simp [sampleSigned, sampleContent, eocdMarker, h, rsaNumBytes]

theorem sampleSigned_footer (h : signature.length = rsaNumBytes) :
    footer (sampleSigned byte signature) = [6, 1, 0xff, 0xff, 7, 1] := by
  rw [footer, sampleSigned_length h, sampleSigned, ← List.append_assoc, ← List.append_assoc]
  apply List.drop_left'
  simp [sampleContent, eocdMarker, h, rsaNumBytes, footerSize]

theorem sampleSigned_commentSize (h : signature.length = rsaNumBytes) : commentSize (sampleSigned byte signature) = 263 := by
  rw [commentSize, sampleSigned_footer h]
  rfl

theorem sampleSigned_part (h : signature.length = rsaNumBytes) : signedPart (sampleSigned byte signature) = sampleContent := by
  rw [signedPart, sampleSigned_length h, sampleSigned_commentSize h, sampleSigned]
  exact List.take_left' rfl

theorem sampleSigned_signature (h : signature.length = rsaNumBytes) :
    signatureOf (sampleSigned byte signature) = signature := by
  have hfront : (sampleSigned byte signature).drop 23 = signature ++ [6, 1, 0xff, 0xff, 7, 1] := by
    rw [sampleSigned, ← List.append_assoc]
    exact List.drop_left' rfl
  rw [signatureOf, sampleSigned_length h, hfront, ← h, List.take_left]

theorem sampleSigned_order (h : signature.length = rsaNumBytes) (hbyte : byte ≠ 0x50) (hsignature : 0x50 ∉ signature) :
    InOrder (sampleSigned byte signature) := by
  have hsize : eocdSize (sampleSigned byte signature) = 285 := by
    rw [eocdSize, sampleSigned_commentSize h]
    rfl
  have hrecord : eocdRecord (sampleSigned byte signature) = sampleSigned byte signature := by
    rw [eocdRecord, sampleSigned_length h, hsize, Nat.sub_self, List.drop_zero]
  have hbehind : 0x50 ∉ (sampleSigned byte signature).drop 4 := by
    have hdrop : (sampleSigned byte signature).drop 4 =
        List.replicate 16 1 ++ ([7, 1, byte] ++ (signature ++ [6, 1, 0xff, 0xff, 7, 1])) := rfl
    rw [hdrop]
    simp [hbyte.symm, hsignature]
  refine ⟨⟨?_, ?_, ?_, ?_, fun i hlow hhigh => ?_⟩, ?_⟩
  · rw [sampleSigned_length h, footerSize]
    norm_num
  · rw [sampleSigned_footer h]
    exact ⟨rfl, rfl⟩
  · rw [hsize, sampleSigned_length h]
  · rw [hrecord]
    rfl
  · by_contra hmarker
    rw [Bool.not_eq_false, markerAt, beq_iff_eq, hrecord] at hmarker
    have hhead : (0x50 : UInt8) ∈ ((sampleSigned byte signature).drop i).take 4 := by
      rw [hmarker]
      decide
    obtain ⟨j, rfl⟩ := Nat.exists_eq_add_of_le hlow
    rw [← List.drop_drop] at hhead
    exact hbehind (List.mem_of_mem_drop (List.mem_of_mem_take hhead))
  · rw [signatureStart, sampleSigned_footer h]
    decide

theorem sampleSigned_genuine (byte : UInt8)
    (hread : signatureRead sampleMemory (sampleSigned byte (sampleSign (sha1 sampleContent))) =
      signatureOf (sampleSigned byte (sampleSign (sha1 sampleContent)))) :
    GenuineFor sampleKey (signatureRead sampleMemory (sampleSigned byte (sampleSign (sha1 sampleContent))))
      (standardSha1 (signedPart (sampleSigned byte (sampleSign (sha1 sampleContent))))) := by
  have hlen : (sampleSign (sha1 sampleContent)).length = rsaNumBytes := bytesOf_length _ _
  rw [hread, sampleSigned_signature hlen, sampleSigned_part hlen, ← sha1_standard]
  exact .inr ⟨rfl, sampleSign_genuine _⟩

theorem sampleSign_marker : 0x50 ∉ sampleSign (sha1 sampleContent) := by decide +kernel

theorem verifyFile_verdict_sample :
    verifyFile sampleMemory [sampleKey] (some (sampleSigned 0 (sampleSign (sha1 sampleContent)))) = true := by
  have hlen : (sampleSign (sha1 sampleContent)).length = rsaNumBytes := bytesOf_length _ _
  have horder := sampleSigned_order hlen (show (0 : UInt8) ≠ 0x50 by decide) sampleSign_marker
  have hkeys : ∀ key ∈ [sampleKey], Sound key := fun _ hmem => List.mem_singleton.mp hmem ▸ sampleKey_sound
  have hread := (verifyFile_verdict sampleMemory hkeys).2 horder (by rw [sampleSigned_commentSize hlen]; norm_num)
  exact (verifyFile_verdict sampleMemory hkeys).1.mpr
    ⟨horder, sampleKey, List.mem_cons_self, .inl (sampleSigned_genuine 0 hread)⟩

end Sample

end LinuxRecovery.SignedFile
