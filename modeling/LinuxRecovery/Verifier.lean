import Mathlib

namespace LinuxRecovery.Verifier

def footerSize : ℕ := 6

def eocdHeaderSize : ℕ := 22

def rsaNumBytes : ℕ := 256

def eocdMarker : List UInt8 := [0x50, 0x4b, 0x05, 0x06]

def markerAt (eocd : List UInt8) (i : ℕ) : Bool := (eocd.drop i).take 4 == eocdMarker

def footer (file : List UInt8) : List UInt8 := file.drop (file.length - footerSize)

def signatureStart (file : List UInt8) : ℕ := ((footer file).getD 0 0).toNat + ((footer file).getD 1 0).toNat * 2 ^ 8

def commentSize (file : List UInt8) : ℕ := ((footer file).getD 4 0).toNat + ((footer file).getD 5 0).toNat * 2 ^ 8

def eocdSize (file : List UInt8) : ℕ := commentSize file + eocdHeaderSize

def eocdRecord (file : List UInt8) : List UInt8 := file.drop (file.length - eocdSize file)

/-- What `RSA_verify` is called with: the record read, where in it the signature is taken from, and the bytes hashed. -/
structure RsaCall where
  eocd : List UInt8
  signature : ℤ
  signed : List UInt8
  deriving DecidableEq

/-- The way to the keys; nothing where it ends in a failure. The subtraction is made in a `size_t` of 32 bits. -/
def rsaCall (file : List UInt8) : Option RsaCall :=
  if file.length < footerSize then none
  else if (footer file).getD 2 0 ≠ 0xff ∨ (footer file).getD 3 0 ≠ 0xff then none
  else if UInt32.ofNat (signatureStart file) - UInt32.ofNat footerSize < UInt32.ofNat rsaNumBytes then none
  else if file.length < eocdSize file then none
  else
    let signedLen := file.length - eocdSize file + eocdHeaderSize - 2
    let eocd := eocdRecord file
    if markerAt eocd 0 = false then none
    else if (List.range' 4 (eocdSize file - 3 - 4)).any (markerAt eocd) = true then none
    else some ⟨eocd, (eocdSize file : ℤ) - 6 - rsaNumBytes, file.take signedLen⟩

section Keys

variable {Key : Type} (rsaVerify : Key → RsaCall → Bool)

def tryKeys (call : RsaCall) : List Key → Bool × List RsaCall
  | [] => (false, [])
  | key :: keys =>
    if rsaVerify key call = true then (true, [call])
    else
      let (verdict, calls) := tryKeys call keys
      (verdict, call :: calls)

def verifyFile (keys : List Key) (file : Option (List UInt8)) : Bool × List RsaCall :=
  match file.bind rsaCall with
  | none => (false, [])
  | some call => tryKeys rsaVerify call keys

theorem tryKeys_calls (call : RsaCall) (keys : List Key) : ∀ c ∈ (tryKeys rsaVerify call keys).2, c = call := by
  induction keys with
  | nil => exact fun c hc => absurd hc List.not_mem_nil
  | cons key keys ih =>
    intro c hc
    rw [tryKeys] at hc
    split_ifs at hc
    · exact List.mem_singleton.mp hc
    · rcases List.mem_cons.mp hc with hc | hc
      · exact hc
      · exact ih c hc

theorem tryKeys_first (call : RsaCall) (key : Key) (keys : List Key) :
    call ∈ (tryKeys rsaVerify call (key :: keys)).2 := by
  rw [tryKeys]
  split_ifs
  · exact List.mem_cons_self
  · exact List.mem_cons_self

end Keys

/-- The file ends with the footer, and the record of the size given there starts with the only marker in it. -/
structure EndsInEocd (file : List UInt8) : Prop where
  footed : footerSize ≤ file.length
  marks : (footer file).getD 2 0 = 0xff ∧ (footer file).getD 3 0 = 0xff
  room : eocdSize file ≤ file.length
  start : markerAt (eocdRecord file) 0 = true
  once : ∀ i, 4 ≤ i → i < eocdSize file - 3 → markerAt (eocdRecord file) i = false

theorem signatureStart_lt (file : List UInt8) : signatureStart file < 2 ^ 16 := by
  have hlow := ((footer file).getD 0 0).toNat_lt
  have hhigh := ((footer file).getD 1 0).toNat_lt
  unfold signatureStart
  omega

theorem tooShort_iff {n : ℕ} (hn : n < 2 ^ 16) :
    UInt32.ofNat n - UInt32.ofNat footerSize < UInt32.ofNat rsaNumBytes ↔ 6 ≤ n ∧ n < 262 := by
  rw [UInt32.lt_iff_toNat_lt, UInt32.toNat_sub, UInt32.toNat_ofNat', UInt32.toNat_ofNat', UInt32.toNat_ofNat',
    footerSize, rsaNumBytes]
  omega

theorem rsaCall_iff (file : List UInt8) (call : RsaCall) : rsaCall file = some call ↔
    EndsInEocd file ∧ ¬(6 ≤ signatureStart file ∧ signatureStart file < 262) ∧
      call = ⟨eocdRecord file, (eocdSize file : ℤ) - 6 - rsaNumBytes,
        file.take (file.length - eocdSize file + eocdHeaderSize - 2)⟩ := by
  unfold rsaCall
  simp only [tooShort_iff (signatureStart_lt file)]
  have hsize : 22 ≤ eocdSize file := Nat.le_add_left _ _
  constructor
  · intro h
    split_ifs at h with h1 h2 h3 h4 h5 h6
    cases h
    rw [not_or, not_not, not_not] at h2
    refine ⟨⟨not_lt.mp h1, h2, not_lt.mp h4, by simpa using h5, fun i hlow hhigh => ?_⟩, h3, rfl⟩
    rw [List.any_eq_true, not_exists] at h6
    have hi := h6 i
    rw [not_and, List.mem_range'_1] at hi
    simpa using hi ⟨hlow, by omega⟩
  · rintro ⟨hends, hstart, rfl⟩
    have hmarks : ¬((footer file).getD 2 0 ≠ 0xff ∨ (footer file).getD 3 0 ≠ 0xff) := by
      rw [not_or, not_not, not_not]
      exact hends.marks
    have honce : ¬(List.range' 4 (eocdSize file - 3 - 4)).any (markerAt (eocdRecord file)) = true := by
      rw [List.any_eq_true]
      rintro ⟨i, hi, hmarker⟩
      rw [List.mem_range'_1] at hi
      rw [hends.once i hi.1 (by omega)] at hmarker
      cases hmarker
    rw [if_neg (not_lt.mpr hends.footed), if_neg hmarks, if_neg hstart, if_neg (not_lt.mpr hends.room),
      if_neg (by rw [hends.start]; exact Bool.noConfusion), if_neg honce]

structure SignatureInside (file : List UInt8) (call : RsaCall) : Prop where
  low : (eocdHeaderSize : ℤ) ≤ call.signature
  high : call.signature + rsaNumBytes ≤ (call.eocd.length : ℤ) - footerSize
  enough : rsaNumBytes + 6 ≤ signatureStart file
  within : signatureStart file ≤ commentSize file

theorem signatureInside_iff {file : List UInt8} {call : RsaCall} (h : rsaCall file = some call) :
    SignatureInside file call ↔ 6 ≤ signatureStart file ∧ signatureStart file ≤ commentSize file := by
  obtain ⟨hends, hstart, rfl⟩ := (rsaCall_iff file call).mp h
  have hlen : (eocdRecord file).length = eocdSize file := by
    rw [eocdRecord, List.length_drop]
    have := hends.room
    omega
  constructor
  · intro hinside
    have henough := hinside.enough
    rw [rsaNumBytes] at henough
    exact ⟨by omega, hinside.within⟩
  · rintro ⟨hlow, hhigh⟩
    have henough : 262 ≤ signatureStart file := by omega
    refine ⟨?_, ?_, henough, hhigh⟩
    · dsimp only
      rw [eocdSize, eocdHeaderSize, rsaNumBytes]
      omega
    · dsimp only
      rw [hlen, footerSize]
      omega

section Verdict

variable {Key : Type} [Inhabited Key]

/-- Whatever keys there are, no call is made but with a signature inside the comment, and none made is a failure. -/
def Extracts (Key : Type) (file : List UInt8) : Prop :=
  ∀ (rsaVerify : Key → RsaCall → Bool) (keys : List Key),
    (∀ call ∈ (verifyFile rsaVerify keys (some file)).2, SignatureInside file call) ∧
      ((verifyFile rsaVerify keys (some file)).2 = [] → (verifyFile rsaVerify keys (some file)).1 = false)

/-- The signature is taken from inside the comment unless the record at the end is in order and the footer has a start
below its own size or beyond the comment. -/
theorem extracts_iff (file : List UInt8) : Extracts Key file ↔
    (EndsInEocd file → 6 ≤ signatureStart file ∧ (signatureStart file < 262 ∨ signatureStart file ≤ commentSize file)) := by
  constructor
  · intro h hends
    by_cases hstart : 6 ≤ signatureStart file ∧ signatureStart file < 262
    · exact ⟨hstart.1, .inl hstart.2⟩
    · obtain ⟨call, hcall⟩ : ∃ call, rsaCall file = some call := ⟨_, (rsaCall_iff file _).mpr ⟨hends, hstart, rfl⟩⟩
      have hmem := tryKeys_first (fun _ _ => false) call (default : Key) []
      have hinside := (h (fun _ _ => false) [default]).1 _ (by
        rw [verifyFile, Option.bind_some, hcall]
        exact hmem)
      obtain ⟨hlow, hhigh⟩ := (signatureInside_iff hcall).mp hinside
      exact ⟨hlow, .inr hhigh⟩
  · intro h rsaVerify keys
    rw [verifyFile, Option.bind_some]
    cases hcall : rsaCall file with
    | none => exact ⟨fun call hmem => absurd hmem List.not_mem_nil, fun _ => rfl⟩
    | some call =>
      constructor
      · intro c hc
        obtain ⟨hends, hstart, -⟩ := (rsaCall_iff file call).mp hcall
        obtain ⟨hlow, hhigh⟩ := h hends
        rw [tryKeys_calls rsaVerify call keys c hc]
        exact (signatureInside_iff hcall).mpr ⟨hlow, hhigh.resolve_left fun hlt => hstart ⟨hlow, hlt⟩⟩
      · intro hnone
        cases keys with
        | nil => rfl
        | cons key keys =>
          have hmem := tryKeys_first rsaVerify call key keys
          dsimp only at hnone
          rw [hnone] at hmem
          exact absurd hmem List.not_mem_nil

def shortComment : List UInt8 :=
  [0x50, 0x4b, 5, 6, 0, 0, 0, 0, 0, 0, 0, 0, 0, 0, 0, 0, 0, 0, 0, 0, 6, 0, 0, 0, 0xff, 0xff, 6, 0]

theorem shortComment_outside : ¬Extracts Unit shortComment := by
  intro h
  have hcalls : (verifyFile (fun _ _ => false) [()] (some shortComment)).2 =
      [⟨shortComment, -234, shortComment.take 20⟩] := by decide
  have hinside := (h (fun _ _ => false) [()]).1 _ (by rw [hcalls]; exact List.mem_cons_self)
  exact absurd hinside.low (by decide)

end Verdict

end LinuxRecovery.Verifier
