import LinuxRecovery.DumpPublicKey
import LinuxRecovery.SignPackage

namespace LinuxRecovery.CertifiedPackages

open RsaTrapdoor RsaVerify LoadKeys DumpPublicKey SignedFile SignPackage

variable {bits : ℕ}

def verifyUpdatePkg (bits : ℕ) (garbage : ℕ → ℤ) (mem : Memory) (keyFile : Option (List Char))
    (package : Option (List UInt8)) : Bool :=
  match loadKeys bits garbage keyFile with
  | none => false
  | some keys => verifyFile mem keys package

theorem matches_sound {certs : List PublicKey} {keys : List RsaPublicKey} (h : List.Forall₂ Matches certs keys) :
    ∀ key ∈ keys, Sound key := by
  induction h with
  | nil => exact fun key hmem => absurd hmem List.not_mem_nil
  | cons hmatches _ ih => exact List.forall_mem_cons.mpr ⟨hmatches.sound, ih⟩

theorem matches_mem {certs : List PublicKey} {keys : List RsaPublicKey} (h : List.Forall₂ Matches certs keys)
    {cert : PublicKey} (hmem : cert ∈ certs) : ∃ key ∈ keys, Matches cert key := by
  induction h with
  | nil => exact absurd hmem List.not_mem_nil
  | cons hmatches _ ih =>
    rcases List.mem_cons.mp hmem with rfl | hmem
    · exact ⟨_, List.mem_cons_self, hmatches⟩
    · obtain ⟨key, hkey, hcert⟩ := ih hmem
      exact ⟨key, List.mem_cons_of_mem _ hkey, hcert⟩

theorem dumped_supported {certs : List PublicKey} {text : List Char} (h : dump certs = some text) {cert : PublicKey}
    (hmem : cert ∈ certs) : Supported cert :=
  (dump_isSome.mp (by rw [h]; rfl)).2 cert hmem

/-- A package signed with the private key of one of the certificates dumped to the key file is accepted on the device,
unless the archive's own record happens to have another marker in it. -/
theorem certified_package (hbits : 32 ≤ bits) (garbage : ℕ → ℤ) (mem : Memory) {certs : List PublicKey} {text : List Char}
    (hdump : dump certs = some text) {cert : PublicKey} (hmem : cert ∈ certs) {p q d : ℕ}
    (hpair : KeyPair p q cert.publicExponent d) (hn : cert.modulus = p * q) {generate : List UInt8 → List UInt8}
    (hgen : SignsWith (p * q) d generate) {jar closing : List (List UInt8)} {file : List UInt8}
    (hsigned : signWholeFile generate jar closing = some file) :
    ∃ content, writeJar jar closing = some ⟨false, closing.flatten, content, content⟩ ∧
      (verifyUpdatePkg bits garbage mem (some text) (some file) = true ↔
        OneMarker (sizedRecord content (generate content))) := by
  obtain ⟨keys, hkeys, hmatches⟩ := @dump_read bits garbage hbits certs text hdump []
  have hload : loadKeys bits garbage (some text) = some keys := hkeys
  obtain ⟨key, hkey, hcert⟩ := matches_mem hmatches hmem
  have hexp : key.exponent = 3 ∨ key.exponent = 65537 := by
    rw [hcert.exponent]
    exact (dumped_supported hdump hmem).exponent.imp (fun he => by rw [he]; rfl) (fun he => by rw [he]; rfl)
  have hnat : key.exponent.toNat = cert.publicExponent := by rw [hcert.exponent, Int.toNat_natCast]
  rw [verifyUpdatePkg, hload]
  exact signed_accepted_iff mem (matches_sound hmatches) hkey hexp (by rwa [hnat]) (hcert.modulus.trans hn) hgen hsigned

def sampleCert : PublicKey := ⟨3 * samplePrime, 65537⟩

theorem sampleCert_supported : Supported sampleCert := by
  refine ⟨.inr rfl, le_antisymm (Nat.size_le.mpr ?_) (Nat.lt_size.mpr ?_), ?_⟩
  · decide +kernel
  · decide +kernel
  · decide +kernel

theorem sampleCert_dumped : dump [sampleCert] = some ((dump [sampleCert]).getD []) := by
  have hsome : (dump [sampleCert]).isSome = true :=
    dump_isSome.mpr ⟨List.cons_ne_nil _ _, fun cert hmem => List.mem_singleton.mp hmem ▸ sampleCert_supported⟩
  obtain ⟨text, htext⟩ := Option.isSome_iff_exists.mp hsome
  rw [htext, Option.getD_some]

theorem certified_package_sample :
    ∃ content, writeJar [] sampleClosing = some ⟨false, sampleClosing.flatten, content, content⟩ ∧
      (verifyUpdatePkg 64 (fun _ => 0) sampleMemory (some ((dump [sampleCert]).getD [])) (some sampleFile) = true ↔
        OneMarker (sizedRecord content (sampleGenerate content))) :=
  certified_package (by norm_num) _ sampleMemory sampleCert_dumped List.mem_cons_self samplePair rfl sampleGenerate_signs
    sampleFile_signed

end LinuxRecovery.CertifiedPackages
