import Mathlib

namespace LinuxRecovery.Extraction

def writeBufferSize : ℕ := 8192

def unzOk : ℤ := 0

def unzErrno : ℤ := -1

def unzInternalError : ℤ := -104

inductive Inflated where
  | bytes (piece : List UInt8)
  | failed (code : ℤ) (negative : code < 0)

structure Pass where
  inflated : Inflated
  written : Bool

structure Entry where
  info : ℤ
  filename : List Char
  uncompressedSize : ℕ
  buffer : Bool
  openPassword : ℤ
  fopen : Bool
  fopenAgain : Bool
  passes : List Pass
  unflushed : ℕ
  closeCurrent : ℤ
  goToNext : ℤ

structure UnzFile where
  globalInfo : ℤ
  entries : List Entry

def isSeparator (c : Char) : Bool := c == '/' || c == '\\'

def afterSeparator (found : List Char) : List Char → List Char
  | [] => found
  | c :: p => if isSeparator c then afterSeparator p p else afterSeparator found p

def filenameWithoutpath (filename : List Char) : List Char := afterSeparator filename filename

def Entry.isDirectory (e : Entry) : Bool := (filenameWithoutpath e.filename).isEmpty

def Entry.created (junkPath : Bool) (e : Entry) : Bool :=
  e.fopen || (!junkPath && filenameWithoutpath e.filename != e.filename && e.fopenAgain)

/-- Nothing is read beyond the uncompressed size, nor beyond the buffer. -/
def unzReadCurrentFile (rest : ℕ) (p : Pass) : Inflated :=
  if rest = 0 then .bytes []
  else match p.inflated with
    | .bytes piece => .bytes (piece.take (min writeBufferSize rest))
    | .failed code negative => .failed code negative

def readLoop : ℕ → List Pass → ℤ × List UInt8
  | _, [] => (unzOk, [])
  | rest, p :: ps =>
    match unzReadCurrentFile rest p with
    | .failed code _ => (code, [])
    | .bytes [] => (unzOk, [])
    | .bytes (b :: piece) =>
      if p.written then
        let later := readLoop (rest - (b :: piece).length) ps
        (later.1, (b :: piece) ++ later.2)
      else (unzErrno, [])

structure Extracted where
  error : ℤ
  opened : Bool
  read : Option (List UInt8)
  output : Option (List UInt8)

def doExtractCurrentfile (junkPath : Bool) (e : Entry) : Extracted :=
  if e.info ≠ unzOk then ⟨e.info, false, none, none⟩
  else if !e.buffer then ⟨unzInternalError, false, none, none⟩
  else if e.isDirectory then ⟨unzOk, false, none, none⟩
  else if e.openPassword ≠ unzOk then ⟨e.openPassword, false, none, none⟩
  else if e.created junkPath then
    let loop := readLoop e.uncompressedSize e.passes
    let file := loop.2.take (loop.2.length - e.unflushed)
    if loop.1 = unzOk then ⟨e.closeCurrent, true, some loop.2, some file⟩
    else ⟨loop.1, true, none, some file⟩
  -- no output file: nothing is read, and `err` is still that of the opening
  else ⟨e.closeCurrent, true, none, none⟩

def doExtractFrom (junkPath : Bool) : List Entry → ℤ
  | [] => unzOk
  | [e] => if (doExtractCurrentfile junkPath e).error ≠ unzOk then -1 else unzOk
  | e :: f :: es =>
    if (doExtractCurrentfile junkPath e).error ≠ unzOk then -1
    else if e.goToNext ≠ unzOk then -1
    else doExtractFrom junkPath (f :: es)

def doExtract (junkPath : Bool) (uf : UnzFile) : ℤ :=
  if uf.globalInfo ≠ unzOk then -1 else doExtractFrom junkPath uf.entries

def unzip (uf ufZip : Option UnzFile) (chdir : Option Bool) (junkPath : Bool) : ℤ :=
  match uf.or ufZip with
  | none => -1
  | some uf => if chdir = some false then -1 else doExtract junkPath uf

def Complete (junkPath : Bool) (e : Entry) : Prop :=
  (doExtractCurrentfile junkPath e).opened = true ∧
  ∃ contents, (doExtractCurrentfile junkPath e).read = some contents ∧
    contents.length = e.uncompressedSize ∧ (doExtractCurrentfile junkPath e).output = some contents

/-- A success means that every file is there, and whatever is missing is reported. -/
structure Truthful (junkPath : Bool) (uf : UnzFile) : Prop where
  success : doExtract junkPath uf = unzOk → ∀ e ∈ uf.entries, e.isDirectory = false → Complete junkPath e
  failure : ∀ first second chdir, first.or second = some uf →
    (∃ e ∈ uf.entries, e.isDirectory = false ∧ ¬Complete junkPath e) → unzip first second chdir junkPath < 0

inductive Breaks : ℕ → List Pass → Prop
  | read {rest p ps code negative} (more : rest ≠ 0) (hp : p.inflated = .failed code negative) :
      Breaks rest (p :: ps)
  | write {rest p ps piece} (more : rest ≠ 0) (hp : p.inflated = .bytes piece) (some : piece ≠ [])
      (refused : p.written = false) : Breaks rest (p :: ps)
  | later {rest p ps piece} (more : rest ≠ 0) (hp : p.inflated = .bytes piece) (some : piece ≠ [])
      (taken : p.written = true)
      (h : Breaks (rest - (piece.take (min writeBufferSize rest)).length) ps) : Breaks rest (p :: ps)

inductive RunsOut : ℕ → List Pass → Prop
  | done {ps} : RunsOut 0 ps
  | piece {rest p ps piece} (more : rest ≠ 0) (hp : p.inflated = .bytes piece) (some : piece ≠ [])
      (taken : p.written = true)
      (h : RunsOut (rest - (piece.take (min writeBufferSize rest)).length) ps) : RunsOut rest (p :: ps)

def Reported (junkPath : Bool) (e : Entry) : Prop :=
  e.info ≠ unzOk ∨ e.buffer = false ∨ (e.isDirectory = false ∧
    (e.openPassword ≠ unzOk ∨ (e.created junkPath = true ∧ Breaks e.uncompressedSize e.passes) ∨
      e.closeCurrent ≠ unzOk))

/-- The output file can be opened, the data run to the stated size, and `fclose` writes what is buffered. -/
structure Extractable (junkPath : Bool) (e : Entry) : Prop where
  created : e.created junkPath = true
  whole : RunsOut e.uncompressedSize e.passes
  flushed : e.unflushed = 0 ∨ e.uncompressedSize = 0

def Stopped (junkPath : Bool) (uf : UnzFile) : Prop :=
  uf.globalInfo ≠ unzOk ∨ (∃ e ∈ uf.entries, Reported junkPath e) ∨ ∃ e ∈ uf.entries.dropLast, e.goToNext ≠ unzOk

variable {junkPath : Bool} {e : Entry} {rest : ℕ} {p : Pass} {ps : List Pass} {piece : List UInt8}

theorem handed_ne_nil (hrest : rest ≠ 0) (hpiece : piece ≠ []) : piece.take (min writeBufferSize rest) ≠ [] := by
  intro h
  rcases List.take_eq_nil_iff.mp h with h | h
  · simp only [writeBufferSize] at h
    omega
  · exact hpiece h

theorem readLoop_through : readLoop 0 ps = (unzOk, []) := by
  cases ps <;> simp [readLoop, unzReadCurrentFile]

theorem readLoop_failed {code : ℤ} {negative : code < 0} (hrest : rest ≠ 0)
    (hp : p.inflated = .failed code negative) : readLoop rest (p :: ps) = (code, []) := by
  rw [readLoop, unzReadCurrentFile, if_neg hrest, hp]

theorem readLoop_end (hrest : rest ≠ 0) (hp : p.inflated = .bytes []) : readLoop rest (p :: ps) = (unzOk, []) := by
  rw [readLoop, unzReadCurrentFile, if_neg hrest, hp]
  simp

theorem readLoop_piece (hrest : rest ≠ 0) (hp : p.inflated = .bytes piece) (hpiece : piece ≠ []) :
    readLoop rest (p :: ps) =
      if p.written then
        ((readLoop (rest - (piece.take (min writeBufferSize rest)).length) ps).1,
          piece.take (min writeBufferSize rest) ++
            (readLoop (rest - (piece.take (min writeBufferSize rest)).length) ps).2)
      else (unzErrno, []) := by
  have hne := handed_ne_nil hrest hpiece
  rw [readLoop, unzReadCurrentFile, if_neg hrest, hp]
  dsimp only
  cases ht : piece.take (min writeBufferSize rest) with
  | nil => exact absurd ht hne
  | cons b bs => rfl

theorem breaks_iff (rest : ℕ) (ps : List Pass) : Breaks rest ps ↔ (readLoop rest ps).1 ≠ unzOk := by
  induction ps generalizing rest with
  | nil =>
    constructor
    · intro h
      cases h
    · intro h
      exact absurd rfl h
  | cons p ps ih =>
    by_cases hrest : rest = 0
    · subst hrest
      rw [readLoop_through]
      constructor
      · rintro (h | h | h) <;> contradiction
      · intro h
        exact absurd rfl h
    cases hp : p.inflated with
    | failed code negative =>
      rw [readLoop_failed hrest hp]
      refine ⟨fun _ => ?_, fun _ => .read hrest hp⟩
      simp only [unzOk]
      omega
    | bytes piece =>
      by_cases hpiece : piece = []
      · subst hpiece
        rw [readLoop_end hrest hp]
        constructor
        · rintro (⟨_, hf⟩ | ⟨_, hf, hs, _⟩ | ⟨_, hf, hs, _⟩) <;> rw [hp] at hf <;> cases hf <;> contradiction
        · intro h
          exact absurd rfl h
      rw [readLoop_piece hrest hp hpiece]
      cases hw : p.written with
      | false =>
        exact ⟨fun _ => by simp [unzErrno, unzOk], fun _ => .write hrest hp hpiece hw⟩
      | true =>
        simp only [if_true]
        rw [← ih]
        constructor
        · rintro (⟨_, hf⟩ | ⟨_, hf, _, hr⟩ | ⟨_, hf, _, _, h⟩)
          · rw [hp] at hf
            cases hf
          · rw [hw] at hr
            cases hr
          · rw [hp] at hf
            cases hf
            exact h
        · intro h
          exact .later hrest hp hpiece hw h

theorem runsOut_iff (rest : ℕ) (ps : List Pass) :
    RunsOut rest ps ↔ (readLoop rest ps).1 = unzOk ∧ (readLoop rest ps).2.length = rest := by
  induction ps generalizing rest with
  | nil =>
    constructor
    · intro h
      cases h
      exact ⟨rfl, rfl⟩
    · rintro ⟨-, h⟩
      obtain rfl : rest = 0 := h.symm
      exact .done
  | cons p ps ih =>
    by_cases hrest : rest = 0
    · subst hrest
      rw [readLoop_through]
      exact ⟨fun _ => ⟨rfl, rfl⟩, fun _ => .done⟩
    cases hp : p.inflated with
    | failed code negative =>
      rw [readLoop_failed hrest hp]
      constructor
      · rintro (_ | ⟨_, hf, _⟩)
        · contradiction
        · rw [hp] at hf
          cases hf
      · rintro ⟨h, -⟩
        simp only [unzOk] at h
        omega
    | bytes piece =>
      by_cases hpiece : piece = []
      · subst hpiece
        rw [readLoop_end hrest hp]
        constructor
        · rintro (_ | ⟨_, hf, hs, _⟩)
          · contradiction
          · rw [hp] at hf
            cases hf
            contradiction
        · rintro ⟨-, h⟩
          exact absurd h.symm hrest
      rw [readLoop_piece hrest hp hpiece]
      cases hw : p.written with
      | false =>
        constructor
        · rintro (_ | ⟨_, _, _, ht, _⟩)
          · contradiction
          · rw [hw] at ht
            cases ht
        · rintro ⟨h, -⟩
          simp [unzErrno, unzOk] at h
      | true =>
        have hle : (piece.take (min writeBufferSize rest)).length ≤ rest := by
          rw [List.length_take]
          omega
        simp only [if_true, List.length_append]
        constructor
        · rintro (_ | ⟨_, hf, _, _, h⟩)
          · contradiction
          · rw [hp] at hf
            cases hf
            obtain ⟨h₁, h₂⟩ := (ih _).mp h
            exact ⟨h₁, by omega⟩
        · rintro ⟨h₁, h₂⟩
          exact .piece hrest hp hpiece hw ((ih _).mpr ⟨h₁, by omega⟩)

theorem error_iff : (doExtractCurrentfile junkPath e).error ≠ unzOk ↔ Reported junkPath e := by
  unfold doExtractCurrentfile Reported
  rw [breaks_iff]
  by_cases hinfo : e.info = unzOk
  · cases hbuffer : e.buffer with
    | false => simp [hinfo, unzInternalError, unzOk]
    | true =>
      cases hdir : e.isDirectory with
      | true => simp [hinfo]
      | false =>
        by_cases hopen : e.openPassword = unzOk
        · cases hcreated : e.created junkPath with
          | false => simp [hinfo, hopen]
          | true =>
            by_cases hread : (readLoop e.uncompressedSize e.passes).1 = unzOk <;> simp [hinfo, hopen, hread]
        · simp [hinfo, hopen]
  · simp [hinfo]

theorem complete_iff (hdir : e.isDirectory = false) (h : ¬Reported junkPath e) :
    Complete junkPath e ↔ Extractable junkPath e := by
  simp only [Reported, not_or, not_and, hdir, true_implies, ne_eq, not_not, breaks_iff] at h
  obtain ⟨hinfo, hbuffer, hopen, hread, -⟩ := h
  rw [Bool.not_eq_false] at hbuffer
  unfold Complete doExtractCurrentfile
  rw [if_neg (by simp [hinfo]), if_neg (by simp [hbuffer]), if_neg (by simp [hdir]), if_neg (by simp [hopen])]
  cases hcreated : e.created junkPath with
  | false =>
    constructor
    · rintro ⟨-, contents, hc, -⟩
      cases hc
    · intro hx
      rw [hx.created] at hcreated
      cases hcreated
  | true =>
    have hok := hread hcreated
    simp only [if_true, hok, true_and, Option.some.injEq]
    have hkept : ∀ contents : List UInt8, contents.take (contents.length - e.unflushed) = contents ↔
        e.unflushed = 0 ∨ contents.length = 0 := by
      intro contents
      rw [List.take_eq_self_iff]
      omega
    constructor
    · rintro ⟨contents, rfl, hlength, hfile⟩
      refine ⟨hcreated, (runsOut_iff _ _).mpr ⟨hok, hlength⟩, ?_⟩
      rw [← hlength]
      exact (hkept _).mp hfile
    · rintro ⟨-, hwhole, hflushed⟩
      have hlength := ((runsOut_iff _ _).mp hwhole).2
      refine ⟨_, rfl, hlength, (hkept _).mpr ?_⟩
      rw [hlength]
      exact hflushed

theorem doExtractFrom_iff (junkPath : Bool) (es : List Entry) : doExtractFrom junkPath es = unzOk ↔
    (∀ e ∈ es, ¬Reported junkPath e) ∧ ∀ e ∈ es.dropLast, e.goToNext = unzOk := by
  induction es with
  | nil => simp [doExtractFrom]
  | cons e es ih =>
    by_cases he : Reported junkPath e
    · have hbad : doExtractFrom junkPath (e :: es) = -1 := by
        cases es <;> rw [doExtractFrom, if_pos (error_iff.mpr he)]
      rw [hbad]
      exact ⟨fun h => by simp [unzOk] at h, fun h => absurd he (h.1 e List.mem_cons_self)⟩
    have hok := error_iff.not.mpr he
    cases es with
    | nil =>
      rw [doExtractFrom, if_neg hok]
      simp [he]
    | cons f es =>
      rw [doExtractFrom, if_neg hok, List.dropLast_cons_cons, List.forall_mem_cons, List.forall_mem_cons]
      by_cases hnext : e.goToNext = unzOk
      · rw [if_neg (by simpa using hnext), ih]
        simp [he, hnext]
      · rw [if_pos hnext]
        exact ⟨fun h => by simp [unzOk] at h, fun h => absurd (h.2 e (by simp)) hnext⟩

theorem doExtractFrom_cases (junkPath : Bool) (es : List Entry) :
    doExtractFrom junkPath es = unzOk ∨ doExtractFrom junkPath es = -1 := by
  fun_induction doExtractFrom junkPath es <;> simp_all

theorem doExtract_iff (junkPath : Bool) (uf : UnzFile) : doExtract junkPath uf = unzOk ↔ ¬Stopped junkPath uf := by
  unfold doExtract Stopped
  by_cases hinfo : uf.globalInfo = unzOk
  · rw [if_neg (by simpa using hinfo), doExtractFrom_iff]
    simp [hinfo]
  · rw [if_pos hinfo]
    exact ⟨fun h => by simp [unzOk] at h, fun h => absurd (.inl hinfo) h⟩

theorem doExtract_stopped {uf : UnzFile} (h : Stopped junkPath uf) : doExtract junkPath uf = -1 := by
  have hne : doExtract junkPath uf ≠ unzOk := fun hok => (doExtract_iff junkPath uf).mp hok h
  unfold doExtract at hne ⊢
  by_cases hinfo : uf.globalInfo = unzOk
  · rw [if_neg (by simpa using hinfo)] at hne ⊢
    exact (doExtractFrom_cases junkPath uf.entries).resolve_left hne
  · rw [if_pos hinfo]

/-- What `unzip` says is right exactly when it stops at some step, or every entry can be extracted. -/
theorem truthful_iff (junkPath : Bool) (uf : UnzFile) : Truthful junkPath uf ↔
    Stopped junkPath uf ∨ ∀ e ∈ uf.entries, e.isDirectory = false → Extractable junkPath e := by
  by_cases hs : Stopped junkPath uf
  · refine ⟨fun _ => .inl hs, fun _ => ⟨fun h => absurd hs ((doExtract_iff junkPath uf).mp h), ?_⟩⟩
    rintro first second chdir hopen -
    rw [unzip, hopen]
    dsimp only
    rw [doExtract_stopped hs]
    split_ifs <;> decide
  have hok := (doExtract_iff junkPath uf).mpr hs
  have hcomplete : ∀ e ∈ uf.entries, e.isDirectory = false → (Complete junkPath e ↔ Extractable junkPath e) :=
    fun e he hdir => complete_iff hdir (fun hr => hs (.inr (.inl ⟨e, he, hr⟩)))
  constructor
  · intro h
    exact .inr (fun e he hdir => (hcomplete e he hdir).mp (h.success hok e he hdir))
  · intro h
    have hall := h.resolve_left hs
    refine ⟨fun _ e he hdir => (hcomplete e he hdir).mpr (hall e he hdir), ?_⟩
    rintro first second chdir hopen ⟨e, he, hdir, hnot⟩
    exact absurd ((hcomplete e he hdir).mpr (hall e he hdir)) hnot

def unopened : Entry where
  info := unzOk
  filename := ['a']
  uncompressedSize := 3
  buffer := true
  openPassword := unzOk
  fopen := false
  fopenAgain := false
  passes := [⟨.bytes [1, 2, 3], true⟩]
  unflushed := 0
  closeCurrent := unzOk
  goToNext := unzOk

theorem unopened_unnoticed : unzip (some ⟨unzOk, [unopened]⟩) none (some true) true = 0 ∧
    (doExtractCurrentfile true unopened).output = none ∧ ¬Truthful true ⟨unzOk, [unopened]⟩ := by
  refine ⟨by decide, rfl, fun h => ?_⟩
  have hc := h.success (by decide) unopened (by simp) (by decide)
  obtain ⟨-, contents, hread, -⟩ := hc
  cases hread

end LinuxRecovery.Extraction
