import LinuxRecovery.Packager
import LinuxRecovery.UpdateRun

namespace LinuxRecovery.PackageFiles

open Mxml Packager UpdateRun NumberText

abbrev Bytes : Type := List UInt8

inductive Node where
  | file (content : Bytes)
  | dir (files : List (String × Bytes))
  deriving DecidableEq

structure Output where
  entries : String → Option Node
  imagesum : ℕ

def outputPackageName : String := "update"

def packdir (n : ℕ) : String := outputPackageName ++ pad3 n

def basename (path : String) : String := String.ofList ((path.toList.reverse.takeWhile (· ≠ '/')).reverse)

def writeFile (out : Output) (name : String) (content : Bytes) : Option Output :=
  match out.entries name with
  | some (.dir _) => none
  | _ => some { out with entries := Function.update out.entries name (some (.file content)) }

/-- `shutil.move`: into a directory, or over a file. No entry has a `/` in its name. -/
def move (out : Output) (name dst : String) : Option Output :=
  match out.entries name with
  | some (.file content) =>
    let entries := Function.update out.entries name none
    match out.entries dst with
    | some (.dir files) =>
      if (files.lookup name).isSome = true then none
      else some { out with entries := Function.update entries dst (some (.dir (files ++ [(name, content)]))) }
    | _ => some { out with entries := Function.update entries dst (some (.file content)) }
  | _ => none

def makedirs (out : Output) (name : String) : Output :=
  { out with entries := Function.update out.entries name (some ((out.entries name).getD (.dir []))) }

def generateProcess (out : Output) (imagename : String) : Option Output :=
  let out := { out with imagesum := out.imagesum + 1 }
  move (makedirs out (packdir out.imagesum)) imagename (packdir out.imagesum)

def readChunks (chunksize : ℕ) : ℕ → Bytes → List Bytes
  | 0, _ => []
  | fuel + 1, f => if f.take chunksize = [] then [] else f.take chunksize :: readChunks chunksize fuel (f.drop chunksize)

def splitFrom (fromfile : String) : ℕ → List Bytes → Output → Option Output
  | _, [], out => some out
  | partnum, chunk :: chunks, out => do
    let filename := basename fromfile ++ "_" ++ pad3 partnum
    let out ← writeFile out filename chunk
    let out ← generateProcess out filename
    splitFrom fromfile (partnum + 1) chunks out

def split (fromfile : String) (content : Bytes) (chunksize : ℕ) (out : Output) : Option (Output × ℕ) :=
  let chunks := readChunks chunksize content.length content
  (splitFrom fromfile 1 chunks out).map (fun out => (out, chunks.length))

def generateImage (p : Imageinfo) (content : Bytes) (out : Output) : Option (Output × List Element) :=
  if 0 < p.updatemode.size then do
    let (out, count) ← split p.name content p.updatemode.size out
    if count ≠ p.updatemode.count then pure (out, []) else pure (out, [p.generateConfig])
  else do
    let out ← writeFile out (basename p.name) content
    let out ← generateProcess out p.name
    pure (out, [p.generateConfig])

def generateImages : List (Imageinfo × Bytes) → Output → Option (Output × List Element)
  | [], out => some (out, [])
  | (p, content) :: sources, out => do
    let (out, config) ← generateImage p content out
    let (out, configs) ← generateImages sources out
    pure (out, config ++ configs)

def emptied : Output := ⟨Function.update (fun _ => none) (packdir 0) (some (.dir [])), 0⟩

def generate (image : Image) (devtype : String) (files : List Bytes) : Option (Output × Element) :=
  (generateImages (image.imageinfo.zip files) emptied).map (fun (out, configs) =>
    (out, .mk "update" [("devtype", devtype), ("devcontrol", String.ofList (hexadecimal image.devctl.toNat))] []
      [.mk "imagelist" [("count", String.ofList (decimal image.imgcnt))] [] configs]))

structure Configured (slicesize : ℕ) (p : Imageinfo) (content : Bytes) : Prop where
  size : p.size = content.length
  nonempty : content ≠ []
  updatemode : ∃ mode, UpdateMode.getDefault p.type mode p.size slicesize = some p.updatemode

structure Piece where
  base : String
  path : String
  content : Bytes

def emit (out : Output) (piece : Piece) : Option Output :=
  (writeFile out piece.base piece.content).bind (generateProcess · piece.path)

def chunkPieces (fromfile : String) : ℕ → List Bytes → List Piece
  | _, [] => []
  | partnum, chunk :: chunks =>
    let filename := basename fromfile ++ "_" ++ pad3 partnum
    ⟨filename, filename, chunk⟩ :: chunkPieces fromfile (partnum + 1) chunks

def pieces (p : Imageinfo) (content : Bytes) : List Piece :=
  if 0 < p.updatemode.size then chunkPieces p.name 1 (readChunks p.updatemode.size content.length content)
  else [⟨basename p.name, p.name, content⟩]

section Chunks

variable {size : ℕ} {p : Imageinfo} {content : Bytes} {slicesize : ℕ}

theorem readChunks_length (h : 0 < size) {fuel : ℕ} (hfuel : content.length ≤ fuel) :
    (readChunks size fuel content).length = (content.length + size - 1) / size := by
  induction fuel generalizing content with
  | zero =>
    have hnil : content = [] := List.length_eq_zero_iff.mp (by omega)
    subst hnil
    simp [readChunks, Nat.div_eq_of_lt (show size - 1 < size by omega)]
  | succ fuel ih =>
    rw [readChunks]
    split_ifs with hempty
    · have hnil : content = [] := (List.take_eq_nil_iff.mp hempty).resolve_left (by omega)
      subst hnil
      simp [Nat.div_eq_of_lt (show size - 1 < size by omega)]
    · have hpos : 0 < content.length := by
        apply List.length_pos_iff.mpr
        rintro rfl
        simp at hempty
      rw [List.length_cons, ih (by rw [List.length_drop]; omega), List.length_drop]
      by_cases hle : content.length ≤ size
      · have h1 : (content.length - size + size - 1) / size = 0 := Nat.div_eq_of_lt (by omega)
        have h2 : (content.length + size - 1) / size = 1 := by
          apply Nat.div_eq_of_lt_le <;> omega
        omega
      · rw [show content.length + size - 1 = (content.length - size + size - 1) + size by omega,
          Nat.add_div_right _ h]

theorem readChunks_getElem? (h : 0 < size) {fuel : ℕ} (hfuel : content.length ≤ fuel) (k : ℕ)
    (hk : k < (readChunks size fuel content).length) :
    (readChunks size fuel content)[k]? = some ((content.drop (k * size)).take size) := by
  induction fuel generalizing content k with
  | zero => simp [readChunks] at hk
  | succ fuel ih =>
    rw [readChunks] at hk ⊢
    split_ifs at hk ⊢ with hempty
    · simp at hk
    · cases k with
      | zero => simp
      | succ k =>
        have hpos : 0 < content.length := by
          apply List.length_pos_iff.mpr
          rintro rfl
          simp at hempty
        rw [List.getElem?_cons_succ, ih (by rw [List.length_drop]; omega) k (by simpa using hk), List.drop_drop]
        congr 3
        ring

theorem Configured.mode (h : Configured slicesize p content) :
    (p.updatemode.type = .full ∧ p.updatemode.size = 0) ∨ (p.updatemode.type = .slice ∧ 0 < p.updatemode.size ∧
      p.updatemode.count = (content.length + p.updatemode.size - 1) / p.updatemode.size) := by
  obtain ⟨mode, hmode⟩ := h.updatemode
  cases mode with
  | full =>
    have heq := Option.some.inj hmode
    exact .inl (by rw [← heq]; exact ⟨rfl, rfl⟩)
  | slice =>
    simp only [UpdateMode.getDefault] at hmode
    split_ifs at hmode with hsize
    have heq := Option.some.inj hmode
    rw [h.size] at heq
    exact .inr (by rw [← heq]; exact ⟨rfl, Nat.pos_of_ne_zero hsize, rfl⟩)

theorem Configured.chunks (h : Configured slicesize p content) (hslice : 0 < p.updatemode.size) :
    (readChunks p.updatemode.size content.length content).length = p.updatemode.count := by
  rcases h.mode with ⟨-, hfull⟩ | ⟨-, -, hcount⟩
  · omega
  · rw [readChunks_length hslice le_rfl, hcount]

end Chunks

section Names

variable {m n : ℕ} {name path : String}

theorem readDigits_zeros (k : ℕ) (t : List Char) : readDigits 10 0 (List.replicate k '0' ++ t) = readDigits 10 0 t := by
  have hzero : digitIn 10 '0' = some 0 := by decide
  induction k with
  | zero => rfl
  | succ k ih =>
    rw [List.replicate_succ, List.cons_append, readDigits, hzero]
    exact ih

theorem readDigits_pad3 (n : ℕ) : readDigits 10 0 (pad3 n).toList = (n, []) := by
  rw [pad3, String.toList_append, String.toList_ofList, readDigits_zeros]
  have hdigits : (toString n).toList = Nat.toDigits 10 n := by simp [toString, Nat.repr]
  rw [hdigits]
  exact readDigits_toDigits (by norm_num) (by norm_num) n

theorem packdir_injective : Function.Injective packdir := by
  intro m n h
  have hpad : (pad3 m).toList = (pad3 n).toList := by
    have := congrArg String.toList h
    simpa [packdir] using this
  have hread := readDigits_pad3 m
  rw [hpad, readDigits_pad3 n] at hread
  exact (congrArg Prod.fst hread).symm

theorem packdir_succ_ne (h : m ≤ n) : packdir (n + 1) ≠ packdir m := by
  intro heq
  have := packdir_injective heq
  omega

theorem digits_of_read {base v w : ℕ} {t : List Char} (h : readDigits base v t = (w, [])) :
    ∀ c ∈ t, (digitIn base c).isSome = true := by
  induction t generalizing v with
  | nil => simp
  | cons c t ih =>
    rw [readDigits] at h
    cases hd : digitIn base c with
    | none => simp [hd] at h
    | some d =>
      rw [hd] at h
      intro c' hc'
      rcases List.mem_cons.mp hc' with rfl | hc'
      · rw [hd]
        rfl
      · exact ih h c' hc'

theorem notMem_packdir {c : Char} (hc : digitIn 10 c = none) (hname : c ∉ outputPackageName.toList) (n : ℕ) :
    c ∉ (packdir n).toList := by
  rw [packdir, String.toList_append, List.mem_append, not_or]
  refine ⟨hname, fun hmem => ?_⟩
  have := digits_of_read (readDigits_pad3 n) c hmem
  rw [hc] at this
  cases this

theorem basename_of_notMem (h : '/' ∉ path.toList) : basename path = path := by
  have hall : path.toList.reverse.takeWhile (· ≠ '/') = path.toList.reverse := by
    rw [List.takeWhile_eq_self_iff]
    intro c hc
    have hne : c ≠ '/' := by
      rintro rfl
      exact h (List.mem_reverse.mp hc)
    simpa using hne
  rw [basename, hall, List.reverse_reverse, String.ofList_toList]

theorem notMem_basename (path : String) : '/' ∉ (basename path).toList := by
  rw [basename, String.toList_ofList, List.mem_reverse]
  intro hmem
  simpa using List.mem_takeWhile_imp hmem

theorem basename_eq_iff : basename path = path ↔ '/' ∉ path.toList := by
  constructor
  · intro h
    rw [← h]
    exact notMem_basename path
  · exact basename_of_notMem

end Names

structure Packed (k : ℕ) (out : Output) : Prop where
  imagesum : out.imagesum = k
  dirs : ∀ j ≤ k, ∃ files, out.entries (packdir j) = some (.dir files)
  only : ∀ name, out.entries name ≠ none → ∃ j ≤ k, name = packdir j

def Fresh (k : ℕ) (piece : Piece) : Prop := piece.base = piece.path ∧ ∀ j ≤ k + 1, piece.base ≠ packdir j

def NotDir (out : Output) (name : String) : Prop := ∀ files, out.entries name ≠ some (.dir files)

section Emit

variable {k : ℕ} {out out' : Output} {piece : Piece}

theorem packed_emptied : Packed 0 emptied where
  imagesum := rfl
  dirs j hj := by
    obtain rfl : j = 0 := by omega
    exact ⟨[], by simp [emptied]⟩
  only name hname := by
    by_cases h : name = packdir 0
    · exact ⟨0, le_rfl, h⟩
    · simp [emptied, Function.update_of_ne h] at hname

theorem Packed.notDir (h : Packed k out) {name : String} (hname : ∀ j ≤ k, name ≠ packdir j) :
    out.entries name = none := by
  by_contra hne
  obtain ⟨j, hj, heq⟩ := h.only name hne
  exact hname j hj heq

theorem writeFile_none {name : String} (content : Bytes) (h : out.entries name = none) :
    writeFile out name content =
      some { out with entries := Function.update out.entries name (some (.file content)) } := by
  rw [writeFile, h]

theorem move_empty {name dst : String} {content : Bytes} (hfile : out.entries name = some (.file content))
    (hdir : out.entries dst = some (.dir [])) : move out name dst = some { out with
      entries := Function.update (Function.update out.entries name none) dst (some (.dir [(name, content)])) } := by
  rw [move, hfile]
  dsimp only
  rw [hdir]
  rfl

theorem emit_fresh (h : Packed k out) (hfresh : Fresh k piece) :
    ∃ out', emit out piece = some out' ∧ Packed (k + 1) out' ∧
      out'.entries (packdir (k + 1)) = some (.dir [(piece.base, piece.content)]) ∧
      ∀ j ≤ k, out'.entries (packdir j) = out.entries (packdir j) := by
  obtain ⟨base, path, content⟩ := piece
  obtain ⟨rfl, hname⟩ : base = path ∧ ∀ j ≤ k + 1, base ≠ packdir j := hfresh
  have hnew : ∀ j ≤ k, packdir (k + 1) ≠ packdir j := fun j hj => packdir_succ_ne hj
  have hne := hname (k + 1) le_rfl
  let written := Function.update out.entries base (some (.file content))
  let made := Function.update written (packdir (k + 1)) (some (.dir []))
  let entries := Function.update (Function.update made base none) (packdir (k + 1)) (some (.dir [(base, content)]))
  have hother (name : String) (hb : name ≠ base) (hd : name ≠ packdir (k + 1)) : entries name = out.entries name := by
    simp only [entries, made, written, Function.update_of_ne hd, Function.update_of_ne hb]
  have hdir : written (packdir (k + 1)) = none := by
    simp only [written, Function.update_of_ne hne.symm]
    exact h.notDir hnew
  have hmake : makedirs ⟨written, k + 1⟩ (packdir (k + 1)) = ⟨made, k + 1⟩ := by
    rw [makedirs]
    dsimp only
    rw [hdir]
    rfl
  have hrun : emit out ⟨base, base, content⟩ = some ⟨entries, k + 1⟩ := by
    rw [emit, writeFile_none content (h.notDir fun j hj => hname j (by omega)), Option.bind_some, generateProcess]
    dsimp only
    rw [h.imagesum, hmake]
    apply move_empty
    · simp only [made, written, Function.update_of_ne hne, Function.update_self]
    · simp only [made, Function.update_self]
  have hlast : entries (packdir (k + 1)) = some (.dir [(base, content)]) := Function.update_self _ _ _
  have hold : ∀ j ≤ k, entries (packdir j) = out.entries (packdir j) := fun j hj =>
    hother _ (hname j (by omega)).symm (hnew j hj).symm
  have hgone : entries base = none := by
    simp only [entries, Function.update_of_ne hne, Function.update_self]
  clear_value entries
  refine ⟨⟨entries, k + 1⟩, hrun, ⟨rfl, fun j hj => ?_, fun name hsome => ?_⟩, hlast, hold⟩
  · rcases Nat.lt_or_ge k j with hlt | hle
    · obtain rfl : j = k + 1 := by omega
      exact ⟨_, hlast⟩
    · obtain ⟨files, hfiles⟩ := h.dirs j hle
      exact ⟨files, (hold j hle).trans hfiles⟩
  · by_cases hd : name = packdir (k + 1)
    · exact ⟨k + 1, le_rfl, hd⟩
    · have hb : name ≠ base := by
        rintro rfl
        exact hsome hgone
      dsimp only at hsome
      rw [hother name hb hd] at hsome
      obtain ⟨j, hj, heq⟩ := h.only name hsome
      exact ⟨j, by omega, heq⟩

theorem writeFile_notDir {name other : String} {content : Bytes} (hrun : writeFile out name content = some out')
    (h : NotDir out other) : NotDir out' other ∧ out'.imagesum = out.imagesum := by
  unfold writeFile at hrun
  split at hrun
  · cases hrun
  · cases hrun
    refine ⟨fun files => ?_, rfl⟩
    by_cases heq : other = name
    · subst heq
      simp
    · simpa [Function.update_of_ne heq] using h files

theorem generateProcess_notDir {name other : String} (hrun : generateProcess out name = some out')
    (h : NotDir out other) (hother : other ≠ packdir (out.imagesum + 1)) :
    NotDir out' other ∧ out'.imagesum = out.imagesum + 1 := by
  unfold generateProcess move at hrun
  dsimp only at hrun
  have hgone : NotDir ⟨Function.update (makedirs { out with imagesum := out.imagesum + 1 }
      (packdir (out.imagesum + 1))).entries name none, 0⟩ other := by
    intro files
    by_cases heq : other = name
    · subst heq
      simp
    · simpa [makedirs, Function.update_of_ne heq, Function.update_of_ne hother] using h files
  split at hrun
  · split at hrun
    · split_ifs at hrun
      cases hrun
      exact ⟨fun files => by simpa [Function.update_of_ne hother] using hgone files, rfl⟩
    · cases hrun
      exact ⟨fun files => by simpa [Function.update_of_ne hother] using hgone files, rfl⟩
  · cases hrun

theorem emit_notDir {other : String} (hrun : emit out piece = some out') (h : NotDir out other)
    (hother : other ≠ packdir (out.imagesum + 1)) : NotDir out' other ∧ out'.imagesum = out.imagesum + 1 := by
  obtain ⟨out₁, hwrite, hprocess⟩ := Option.bind_eq_some_iff.mp hrun
  obtain ⟨h₁, hsum⟩ := writeFile_notDir hwrite h
  rw [← hsum] at hother ⊢
  exact generateProcess_notDir hprocess h₁ hother

theorem generateProcess_self {entries : String → Option Node} {content : Bytes}
    (hfile : entries (packdir (k + 1)) = some (.file content))
    (hrun : generateProcess ⟨entries, k⟩ (packdir (k + 1)) = some out') :
    NotDir out' (packdir (k + 1)) ∧ out'.imagesum = k + 1 := by
  rw [generateProcess] at hrun
  dsimp only at hrun
  have hmake : makedirs ⟨entries, k + 1⟩ (packdir (k + 1)) = ⟨entries, k + 1⟩ := by
    rw [makedirs]
    dsimp only
    rw [hfile, Option.getD_some, ← hfile, Function.update_eq_self]
  rw [hmake, move] at hrun
  dsimp only at hrun
  rw [hfile] at hrun
  cases hrun
  exact ⟨fun files => by simp, rfl⟩

theorem generateProcess_missing {name : String} (hnone : out.entries name = none)
    (hname : name ≠ packdir (out.imagesum + 1)) : generateProcess out name = none := by
  rw [generateProcess]
  dsimp only
  have hentry : (makedirs { out with imagesum := out.imagesum + 1 } (packdir (out.imagesum + 1))).entries name = none := by
    rw [makedirs]
    dsimp only
    rw [Function.update_of_ne hname, hnone]
  rw [move, hentry]

theorem emit_stale (h : Packed k out) (hbase : piece.base = basename piece.path) (hstale : ¬Fresh k piece)
    (hrun : emit out piece = some out') : NotDir out' (packdir (k + 1)) ∧ out'.imagesum = k + 1 := by
  obtain ⟨base, path, content⟩ := piece
  dsimp only at hbase
  obtain ⟨out₁, hwrite, hprocess⟩ := Option.bind_eq_some_iff.mp hrun
  dsimp only at hwrite hprocess
  have hslash : ∀ j, '/' ∉ (packdir j).toList := notMem_packdir (by decide) (by decide)
  by_cases hpath : base = path
  · subst hpath
    obtain ⟨j, hj, rfl⟩ : ∃ j ≤ k + 1, base = packdir j := by
      by_contra hnone
      push Not at hnone
      exact hstale ⟨rfl, hnone⟩
    rcases Nat.lt_or_ge k j with hlt | hle
    · obtain rfl : j = k + 1 := by omega
      have hnew : ∀ i ≤ k, packdir (k + 1) ≠ packdir i := fun i hi => packdir_succ_ne hi
      rw [writeFile_none content (h.notDir hnew)] at hwrite
      obtain rfl := Option.some.inj hwrite
      rw [h.imagesum] at hprocess
      exact generateProcess_self (Function.update_self _ _ _) hprocess
    · obtain ⟨files, hfiles⟩ := h.dirs j hle
      rw [writeFile, hfiles] at hwrite
      cases hwrite
  · have hne : '/' ∈ path.toList := by
      by_contra hnot
      exact hpath (hbase.trans (basename_of_notMem hnot))
    have hpackdir : ∀ j, path ≠ packdir j := by
      rintro j rfl
      exact hslash j hne
    have hnone : out.entries base = none ∨ ∃ files, out.entries base = some (.dir files) := by
      by_cases hb : ∃ j ≤ k, base = packdir j
      · obtain ⟨j, hj, rfl⟩ := hb
        exact .inr (h.dirs j hj)
      · push Not at hb
        exact .inl (h.notDir hb)
    rcases hnone with hnone | ⟨files, hfiles⟩
    · rw [writeFile_none content hnone] at hwrite
      cases hwrite
      rw [generateProcess_missing] at hprocess
      · cases hprocess
      · dsimp only
        rw [Function.update_of_ne (Ne.symm hpath)]
        exact h.notDir fun j _ => hpackdir j
      · exact hpackdir _
    · rw [writeFile, hfiles] at hwrite
      cases hwrite

end Emit

section Run

theorem splitFrom_eq (fromfile : String) (partnum : ℕ) (chunks : List Bytes) (out : Output) :
    splitFrom fromfile partnum chunks out = (chunkPieces fromfile partnum chunks).foldlM emit out := by
  induction chunks generalizing partnum out with
  | nil => rfl
  | cons chunk chunks ih =>
    rw [splitFrom, chunkPieces, List.foldlM_cons, emit]
    dsimp only [Option.bind_eq_bind]
    rw [Option.bind_assoc]
    refine Option.bind_congr fun out₁ _ => Option.bind_congr fun out₂ _ => ?_
    exact ih (partnum + 1) out₂

variable {slicesize : ℕ} {sources : List (Imageinfo × Bytes)}

theorem generateImage_eq {p : Imageinfo} {content : Bytes} (h : Configured slicesize p content) (out : Output) :
    generateImage p content out = ((pieces p content).foldlM emit out).map (fun out => (out, [p.generateConfig])) := by
  unfold generateImage pieces
  split_ifs with hslice
  · have hcount := h.chunks hslice
    rw [split, splitFrom_eq]
    cases hrun : (chunkPieces p.name 1 (readChunks p.updatemode.size content.length content)).foldlM emit out with
    | none => rfl
    | some out' => simp [hcount]
  · rw [List.foldlM_cons, emit]
    cases hwrite : writeFile out (basename p.name) content with
    | none => rfl
    | some out₁ =>
      cases hprocess : generateProcess out₁ p.name with
      | none => simp [hprocess]
      | some out₂ => simp [hprocess]

theorem generateImages_eq (h : ∀ s ∈ sources, Configured slicesize s.1 s.2) (out : Output) :
    generateImages sources out = ((sources.flatMap (fun s => pieces s.1 s.2)).foldlM emit out).map
      (fun out => (out, sources.map (fun s => s.1.generateConfig))) := by
  induction sources generalizing out with
  | nil => rfl
  | cons s sources ih =>
    obtain ⟨p, content⟩ := s
    have hp : Configured slicesize p content := h (p, content) (by simp)
    rw [generateImages, generateImage_eq hp, List.flatMap_cons, List.foldlM_append]
    dsimp only
    cases hrun : (pieces p content).foldlM emit out with
    | none => rfl
    | some out₁ =>
      have hrest := ih (fun s hs => h s (by simp [hs])) out₁
      simp only [Option.map_some, Option.bind_eq_bind, Option.bind_some, hrest]
      cases (sources.flatMap (fun s => pieces s.1 s.2)).foldlM emit out₁ with
      | none => rfl
      | some out₂ => rfl

end Run

end LinuxRecovery.PackageFiles
