import LinuxRecovery.ManifestRead

namespace LinuxRecovery.ManifestShape

open NumberText Mxml UpdateFile ManifestRead

def Sub (top : Nodes) (name : String) (P : Found → Prop) : Prop := ∃ f, findElement top name = some f ∧ P f

def Absent (top : Nodes) (name : String) : Prop := findElement top name = none

def textOf (f : Found) : Option String := (getOpaque f).or (getText f)

def integerOf (f : Found) : Option UInt32 :=
  if (elementGetAttr f "type").isSome then some (UInt32.ofInt (getInteger f))
  else (getText f).map (fun s => UInt32.ofInt (strtol 64 s.toList))

def HasText (s : String) (f : Found) : Prop := textOf f = some s

def HasNumber (n : UInt64) (f : Found) : Prop := ∃ s, getText f = some s ∧ n = UInt64.ofNat (strtoul 64 s.toList)

def HasInteger (n : UInt32) (f : Found) : Prop :=
  if (elementGetAttr f "type").isSome = true then ∃ i, firstChild f = some (.integer i) ∧ n = UInt32.ofInt i
  else ∃ s, getText f = some s ∧ n = UInt32.ofInt (strtol 64 s.toList)

structure DescribesImage (node : Found) (image : UpdateImage) : Prop where
  name : Sub node.child "name" (HasText image.name)
  fsType : Sub node.child "type" (HasText image.fsType)
  offset : Sub node.child "offset" (HasNumber image.offset)
  size : Sub node.child "size" (HasNumber image.size)
  updateMode : Sub node.child "updatemode" (fun mode => Sub mode.child "type" (fun type =>
    HasInteger image.updateMode type ∧
      if image.updateMode = updateModeChunk then
        Sub type.parentChild "chunksize" (fun chunk => HasInteger image.chunksize chunk ∧
          Sub chunk.parentChild "chunkcount" (HasInteger image.chunkcount))
      else image.chunksize = 0 ∧ image.chunkcount = 1))

structure DescribesItem (node : Found) (item : PartItem) : Prop where
  name : Sub node.child "name" (HasText item.name)
  offset : Sub node.child "offset" (HasNumber item.offset)
  size : Sub node.child "size" (HasNumber item.size)
  blockName : Sub node.child "blockname" (HasText item.blockName)

def Fits (names : List String) (node : Found) : Prop :=
  ∀ name ∈ names, ∀ f s, findElement node.child name = some f → textOf f = some s → s.utf8ByteSize ≤ nameMax

def Ends (node : Found) : Prop :=
  ∀ f s g t, findElement node.child "name" = some f → textOf f = some s → findElement node.child "type" = some g →
    textOf g = some t → s.utf8ByteSize = nameMax → t = ""

def Textual (f : Found) : Prop := ∃ s, textOf f = some s ∧ s.utf8ByteSize ≤ nameMax

def Numeric (f : Found) : Prop := (getText f).isSome = true

def Integral (f : Found) : Prop := (integerOf f).isSome = true

def Untold {β : Type} (value : Found → Option β) (top : Nodes) (name : String) : Prop :=
  ∀ f, findElement top name = some f → value f = none

def ReadableMode (node : Found) : Prop :=
  Sub node.child "updatemode" (fun mode => Sub mode.child "type" (fun type => Integral type ∧
    (integerOf type = some updateModeChunk → Sub type.parentChild "chunksize" (fun chunk => Integral chunk ∧
      Sub chunk.parentChild "chunkcount" Integral))))

def BrokenMode (node : Found) : Prop :=
  Absent node.child "updatemode" ∨ Sub node.child "updatemode" (fun mode =>
    Absent mode.child "type" ∨ Sub mode.child "type" (fun type => integerOf type = some updateModeChunk ∧
      (Absent type.parentChild "chunksize" ∨ Sub type.parentChild "chunksize" (fun chunk => Integral chunk ∧
        Absent chunk.parentChild "chunkcount"))))

def ReadableImage (node : Found) : Prop :=
  Sub node.child "name" Textual ∧ Sub node.child "type" Textual ∧ Sub node.child "offset" Numeric ∧
    Sub node.child "size" Numeric ∧ ReadableMode node

def BrokenImage (node : Found) : Prop :=
  Untold textOf node.child "name" ∨ Sub node.child "name" Textual ∧
    (Untold textOf node.child "type" ∨ Sub node.child "type" Textual ∧
      (Absent node.child "offset" ∨ Sub node.child "offset" Numeric ∧
        (Absent node.child "size" ∨ Sub node.child "size" Numeric ∧ BrokenMode node)))

def ReadableItem (node : Found) : Prop :=
  Sub node.child "name" Textual ∧ Sub node.child "offset" Numeric ∧ Sub node.child "size" Numeric ∧
    Sub node.child "blockname" Textual

def BrokenItem (node : Found) : Prop :=
  Untold textOf node.child "name" ∨ Sub node.child "name" Textual ∧
    (Untold getText node.child "offset" ∨ Sub node.child "offset" Numeric ∧
      (Untold getText node.child "size" ∨ Sub node.child "size" Numeric ∧ Untold textOf node.child "blockname"))

structure Schema (α : Type) where
  tag : String
  listTag : String
  tags_ne : listTag ≠ tag
  Describes : Found → α → Prop
  Fits : Found → Prop
  Readable : Found → Prop
  Broken : Found → Prop
  parse : Found → Parse α
  reads : ∀ {node a}, Describes node a → Fits node → parse node = .ok a
  fits : ∀ {node a}, parse node = .ok a → Describes node a → Fits node
  readable_iff : ∀ node, (∃ a, parse node = .ok a) ↔ Readable node
  broken_iff : ∀ node, parse node = .error .broken ↔ Broken node
  unbroken : ∀ {node a}, Describes node a → ¬Broken node

section Values

variable {top : Nodes} {name s : String} {f node : Found} {α β : Type}

theorem bind_ok {x : Parse α} {g : α → Parse β} {b : β} (h : x >>= g = .ok b) : ∃ a, x = .ok a ∧ g a = .ok b := by
  cases x with
  | error e => cases h
  | ok a => exact ⟨a, rfl, h⟩

theorem bind_of_ok {x : Parse α} {a : α} (h : x = .ok a) (g : α → Parse β) : x >>= g = g a := by
  rw [h]
  rfl

theorem bind_broken_iff {x : Parse α} {g : α → Parse β} :
    x >>= g = .error .broken ↔ x = .error .broken ∨ ∃ a, x = .ok a ∧ g a = .error .broken := by
  cases x with
  | error e =>
    refine ⟨fun h => .inl (by cases h; rfl), ?_⟩
    rintro (h | ⟨a, ha, -⟩)
    · cases h
      rfl
    · cases ha
  | ok a =>
    refine ⟨fun h => .inr ⟨a, rfl, h⟩, ?_⟩
    rintro (h | ⟨b, hb, h⟩)
    · cases h
    · cases hb
      exact h

theorem subNode_of_find (h : findElement top name = some f) : subNode top name = .ok f := by
  rw [subNode, h]

theorem find_of_subNode (h : subNode top name = .ok f) : findElement top name = some f := by
  unfold subNode at h
  split at h
  · rename_i hf
    cases h
    exact hf
  · cases h

theorem subNode_broken_iff : subNode top name = .error .broken ↔ Absent top name := by
  rw [subNode, Absent]
  cases findElement top name <;> simp

theorem stringValue_ok_iff : stringValue f = .ok s ↔ textOf f = some s ∧ s.utf8ByteSize ≤ nameMax := by
  rw [stringValue, ← textOf]
  cases textOf f with
  | none => simp
  | some t =>
    dsimp only
    constructor
    · intro h
      split_ifs at h with hsize
      cases h
      exact ⟨rfl, hsize⟩
    · rintro ⟨h, hsize⟩
      cases h
      exact if_pos hsize

theorem stringValue_broken_iff : stringValue f = .error .broken ↔ textOf f = none := by
  rw [stringValue, ← textOf]
  cases textOf f with
  | none => simp
  | some t =>
    dsimp only
    split_ifs <;> simp

theorem integerValue_eq : integerValue f = (integerOf f).elim (.error .crashed) .ok := by
  rw [integerValue, integerOf]
  cases elementGetAttr f "type" with
  | some type => rfl
  | none => cases getText f <;> rfl

theorem numberValue_of_has {n : UInt64} (missing : Stop) (h : HasNumber n f) : numberValue missing f = .ok n := by
  obtain ⟨s, hs, rfl⟩ := h
  rw [numberValue, hs]

theorem HasInteger.integerOf {n : UInt32} (h : HasInteger n f) : integerOf f = some n := by
  unfold HasInteger at h
  unfold ManifestShape.integerOf
  split_ifs at h ⊢
  · obtain ⟨i, hi, rfl⟩ := h
    rw [getInteger, hi]
  · obtain ⟨s, hs, rfl⟩ := h
    rw [hs]
    rfl

theorem integerValue_of_has {n : UInt32} (h : HasInteger n f) : integerValue f = .ok n := by
  rw [integerValue_eq, h.integerOf]
  rfl

theorem integerValue_ok_iff {n : UInt32} : integerValue f = .ok n ↔ integerOf f = some n := by
  rw [integerValue_eq]
  cases integerOf f <;> simp

theorem integerValue_unbroken : integerValue f ≠ .error .broken := by
  rw [integerValue_eq]
  cases integerOf f <;> simp

theorem sub_readable {g : Found → Parse β} {P : Found → Prop} (hg : ∀ f, (∃ b, g f = .ok b) ↔ P f) :
    (∃ b, (subNode top name >>= g) = .ok b) ↔ Sub top name P := by
  constructor
  · rintro ⟨b, h⟩
    obtain ⟨f, hf, h⟩ := bind_ok h
    exact ⟨f, find_of_subNode hf, (hg f).mp ⟨b, h⟩⟩
  · rintro ⟨f, hf, hP⟩
    obtain ⟨b, hb⟩ := (hg f).mpr hP
    exact ⟨b, by rwa [bind_of_ok (subNode_of_find hf)]⟩

theorem sub_broken {g : Found → Parse β} {Q : Found → Prop} (hg : ∀ f, g f = .error .broken ↔ Q f) :
    (subNode top name >>= g) = .error .broken ↔ Absent top name ∨ Sub top name Q := by
  rw [bind_broken_iff, subNode_broken_iff]
  apply or_congr_right
  constructor
  · rintro ⟨f, hf, h⟩
    exact ⟨f, find_of_subNode hf, (hg f).mp h⟩
  · rintro ⟨f, hf, hQ⟩
    exact ⟨f, subNode_of_find hf, (hg f).mpr hQ⟩

theorem string_readable {g : String → Parse β} {P : Prop} (hg : ∀ s, (∃ b, g s = .ok b) ↔ P) :
    (∃ b, (subNode top name >>= fun f => stringValue f >>= g) = .ok b) ↔ Sub top name Textual ∧ P := by
  constructor
  · rintro ⟨b, h⟩
    obtain ⟨f, hf, h⟩ := bind_ok h
    obtain ⟨s, hs, h⟩ := bind_ok h
    exact ⟨⟨f, find_of_subNode hf, s, stringValue_ok_iff.mp hs⟩, (hg s).mp ⟨b, h⟩⟩
  · rintro ⟨⟨f, hf, s, hs⟩, hP⟩
    obtain ⟨b, hb⟩ := (hg s).mpr hP
    exact ⟨b, by rwa [bind_of_ok (subNode_of_find hf), bind_of_ok (stringValue_ok_iff.mpr hs)]⟩

theorem untold_iff {value : Found → Option α} :
    Untold value top name ↔ Absent top name ∨ Sub top name (fun f => value f = none) := by
  unfold Untold Absent Sub
  cases findElement top name <;> simp

theorem string_broken {g : String → Parse β} {Q : Prop} (hg : ∀ s, g s = .error .broken ↔ Q) :
    (subNode top name >>= fun f => stringValue f >>= g) = .error .broken ↔
      Untold textOf top name ∨ Sub top name Textual ∧ Q := by
  have hf (f : Found) : (stringValue f >>= g) = .error .broken ↔ textOf f = none ∨ Textual f ∧ Q := by
    rw [bind_broken_iff, stringValue_broken_iff]
    apply or_congr_right
    constructor
    · rintro ⟨s, hs, h⟩
      exact ⟨⟨s, stringValue_ok_iff.mp hs⟩, (hg s).mp h⟩
    · rintro ⟨⟨s, hs⟩, hQ⟩
      exact ⟨s, stringValue_ok_iff.mpr hs, (hg s).mpr hQ⟩
  rw [sub_broken hf, untold_iff, or_assoc]
  apply or_congr_right
  unfold Sub
  cases findElement top name <;> simp

theorem number_readable (missing : Stop) {g : UInt64 → Parse β} {P : Prop} (hg : ∀ n, (∃ b, g n = .ok b) ↔ P) :
    (∃ b, (subNode top name >>= fun f => numberValue missing f >>= g) = .ok b) ↔ Sub top name Numeric ∧ P := by
  have hf (f : Found) : (∃ b, (numberValue missing f >>= g) = .ok b) ↔ Numeric f ∧ P := by
    unfold numberValue Numeric
    cases getText f with
    | none => exact ⟨fun ⟨b, h⟩ => (by cases h), fun h => (by cases h.1)⟩
    | some s =>
      dsimp only
      rw [bind_of_ok rfl, hg]
      simp
  rw [sub_readable hf]
  unfold Sub
  cases findElement top name <;> simp

theorem number_broken {g : UInt64 → Parse β} {Q : Prop} (hg : ∀ n, g n = .error .broken ↔ Q) :
    (subNode top name >>= fun f => numberValue .broken f >>= g) = .error .broken ↔
      Untold getText top name ∨ Sub top name Numeric ∧ Q := by
  have hf (f : Found) : (numberValue .broken f >>= g) = .error .broken ↔ getText f = none ∨ Numeric f ∧ Q := by
    unfold numberValue Numeric
    cases getText f with
    | none => exact ⟨fun _ => .inl rfl, fun _ => rfl⟩
    | some s =>
      dsimp only
      rw [bind_of_ok rfl, hg]
      simp
  rw [sub_broken hf, untold_iff, or_assoc]
  apply or_congr_right
  unfold Sub
  cases findElement top name <;> simp

theorem number_crashing {g : UInt64 → Parse β} {Q : Prop} (hg : ∀ n, g n = .error .broken ↔ Q) :
    (subNode top name >>= fun f => numberValue .crashed f >>= g) = .error .broken ↔
      Absent top name ∨ Sub top name Numeric ∧ Q := by
  have hf (f : Found) : (numberValue .crashed f >>= g) = .error .broken ↔ Numeric f ∧ Q := by
    unfold numberValue Numeric
    cases getText f with
    | none => exact ⟨fun h => (by cases h), fun h => (by cases h.1)⟩
    | some s =>
      dsimp only
      rw [bind_of_ok rfl, hg]
      simp
  rw [sub_broken hf]
  unfold Sub
  cases findElement top name <;> simp

theorem integer_readable {g : UInt32 → Parse β} {P : UInt32 → Prop} (hg : ∀ n, (∃ b, g n = .ok b) ↔ P n) (f : Found) :
    (∃ b, (integerValue f >>= g) = .ok b) ↔ ∃ n, integerOf f = some n ∧ P n := by
  constructor
  · rintro ⟨b, h⟩
    obtain ⟨n, hn, h⟩ := bind_ok h
    exact ⟨n, integerValue_ok_iff.mp hn, (hg n).mp ⟨b, h⟩⟩
  · rintro ⟨n, hn, hP⟩
    obtain ⟨b, hb⟩ := (hg n).mpr hP
    exact ⟨b, by rwa [bind_of_ok (integerValue_ok_iff.mpr hn)]⟩

theorem integer_broken {g : UInt32 → Parse β} {Q : UInt32 → Prop} (hg : ∀ n, g n = .error .broken ↔ Q n) (f : Found) :
    (integerValue f >>= g) = .error .broken ↔ ∃ n, integerOf f = some n ∧ Q n := by
  rw [bind_broken_iff]
  constructor
  · rintro (h | ⟨n, hn, h⟩)
    · exact absurd h integerValue_unbroken
    · exact ⟨n, integerValue_ok_iff.mp hn, (hg n).mp h⟩
  · rintro ⟨n, hn, hQ⟩
    exact .inr ⟨n, integerValue_ok_iff.mpr hn, (hg n).mpr hQ⟩

theorem sub_string_fits (hsub : Sub top name (HasText s))
    (hfits : ∀ f s, findElement top name = some f → textOf f = some s → s.utf8ByteSize ≤ nameMax) (g : String → Parse α) :
    (subNode top name >>= fun f => stringValue f >>= g) = g s := by
  obtain ⟨f, hf, hs⟩ := hsub
  rw [bind_of_ok (subNode_of_find hf), bind_of_ok (stringValue_ok_iff.mpr ⟨hs, hfits f s hf hs⟩)]

theorem sub_number {n : UInt64} (missing : Stop) (hsub : Sub top name (HasNumber n)) (g : UInt64 → Parse α) :
    (subNode top name >>= fun f => numberValue missing f >>= g) = g n := by
  obtain ⟨f, hf, hn⟩ := hsub
  rw [bind_of_ok (subNode_of_find hf), bind_of_ok (numberValue_of_has missing hn)]

theorem fits_pair {name' t : String} {f' : Found} (hf : findElement node.child name = some f)
    (hs : textOf f = some s ∧ s.utf8ByteSize ≤ nameMax) (hf' : findElement node.child name' = some f')
    (ht : textOf f' = some t ∧ t.utf8ByteSize ≤ nameMax) : Fits [name, name'] node := by
  intro tag htag g u hg hu
  simp only [List.mem_cons, List.not_mem_nil, or_false] at htag
  obtain rfl | rfl := htag
  · cases hf.symm.trans hg
    cases hs.1.symm.trans hu
    exact hs.2
  · cases hf'.symm.trans hg
    cases ht.1.symm.trans hu
    exact ht.2

theorem Sub.told {value : Found → Option α} {P : Found → Prop} (h : Sub top name P)
    (hP : ∀ f, P f → (value f).isSome = true) : ¬Untold value top name := by
  obtain ⟨f, hf, hp⟩ := h
  intro huntold
  have := hP f hp
  rw [huntold f hf] at this
  cases this

theorem Sub.present {P : Found → Prop} (h : Sub top name P) : ¬Absent top name := by
  obtain ⟨f, hf, -⟩ := h
  intro habsent
  cases habsent.symm.trans hf

end Values

section Image

variable {node : Found} {image : UpdateImage} {info : ImageInfo}

def readMode (node : Found) (info : ImageInfo) : Parse UpdateImage := do
  let mode ← subNode node.child "updatemode"
  let type ← subNode mode.child "type"
  let updateMode ← integerValue type
  if updateMode = updateModeChunk then
    let chunksizeNode ← subNode type.parentChild "chunksize"
    let chunksize ← integerValue chunksizeNode
    let chunkcount ← integerValue (← subNode chunksizeNode.parentChild "chunkcount")
    pure ⟨{ info with chunksize := chunksize, chunkcount := chunkcount }, updateMode⟩
  else pure ⟨{ info with chunksize := 0, chunkcount := 1 }, updateMode⟩

theorem parseImage_eq (node : Found) : parseImage node =
    (subNode node.child "name" >>= fun f => stringValue f >>= fun name =>
      subNode node.child "type" >>= fun f => stringValue f >>= fun fsType =>
        subNode node.child "offset" >>= fun f => numberValue .crashed f >>= fun offset =>
          subNode node.child "size" >>= fun f => numberValue .crashed f >>= fun size =>
            readMode node ⟨stored name fsType, fsType, offset, size, 0, 0⟩) := rfl

theorem readMode_of_describes (h : DescribesImage node image) :
    readMode node ⟨image.name, image.fsType, image.offset, image.size, 0, 0⟩ = .ok image := by
  obtain ⟨mode, hmode, type, htype, hupdate, hrest⟩ := h.updateMode
  rw [readMode, bind_of_ok (subNode_of_find hmode), bind_of_ok (subNode_of_find htype),
    bind_of_ok (integerValue_of_has hupdate)]
  split_ifs at hrest ⊢
  · obtain ⟨chunk, hchunk, hsize, count, hcount, hcountValue⟩ := hrest
    rw [bind_of_ok (subNode_of_find hchunk), bind_of_ok (integerValue_of_has hsize),
      bind_of_ok (subNode_of_find hcount), bind_of_ok (integerValue_of_has hcountValue)]
    rfl
  · obtain ⟨hsize, hcount⟩ := hrest
    rw [← hsize, ← hcount]
    rfl

theorem readMode_name (h : readMode node info = .ok image) : image.name = info.name := by
  obtain ⟨mode, -, h⟩ := bind_ok h
  obtain ⟨type, -, h⟩ := bind_ok h
  obtain ⟨updateMode, -, h⟩ := bind_ok h
  split_ifs at h
  · obtain ⟨chunk, -, h⟩ := bind_ok h
    obtain ⟨chunksize, -, h⟩ := bind_ok h
    obtain ⟨count, -, h⟩ := bind_ok h
    obtain ⟨chunkcount, -, h⟩ := bind_ok h
    cases h
    rfl
  · cases h
    rfl

theorem readMode_readable (node : Found) (info : ImageInfo) :
    (∃ a, readMode node info = .ok a) ↔ ReadableMode node := by
  apply sub_readable
  intro mode
  apply sub_readable
  intro type
  rw [integer_readable (P := fun n => n = updateModeChunk → Sub type.parentChild "chunksize" (fun chunk =>
    Integral chunk ∧ Sub chunk.parentChild "chunkcount" Integral))]
  · rw [Integral, Option.isSome_iff_exists]
    constructor
    · rintro ⟨n, hn, hP⟩
      exact ⟨⟨n, hn⟩, fun heq => hP (Option.some.inj (hn.symm.trans heq))⟩
    · rintro ⟨⟨n, hn⟩, hP⟩
      exact ⟨n, hn, fun heq => hP (heq ▸ hn)⟩
  · intro n
    split_ifs with hn
    · rw [imp_iff_right hn]
      apply sub_readable
      intro chunk
      rw [integer_readable (P := fun _ => Sub chunk.parentChild "chunkcount" Integral)]
      · rw [exists_and_right, Integral, Option.isSome_iff_exists]
      · intro chunksize
        apply sub_readable
        intro count
        refine Iff.trans (integer_readable (P := fun _ => True) (fun m => iff_true_intro ⟨_, rfl⟩) count) ?_
        rw [Integral, Option.isSome_iff_exists]
        simp only [and_true]
    · exact iff_of_true ⟨_, rfl⟩ fun h => absurd h hn

theorem readMode_broken (node : Found) (info : ImageInfo) :
    readMode node info = .error .broken ↔ BrokenMode node := by
  apply sub_broken
  intro mode
  apply sub_broken
  intro type
  rw [integer_broken (Q := fun n => n = updateModeChunk ∧ (Absent type.parentChild "chunksize" ∨
    Sub type.parentChild "chunksize" (fun chunk => Integral chunk ∧ Absent chunk.parentChild "chunkcount")))]
  · constructor
    · rintro ⟨n, hn, rfl, hQ⟩
      exact ⟨hn, hQ⟩
    · rintro ⟨hn, hQ⟩
      exact ⟨_, hn, rfl, hQ⟩
  · intro n
    split_ifs with hn
    · rw [and_iff_right hn]
      apply sub_broken
      intro chunk
      rw [integer_broken (Q := fun _ => Absent chunk.parentChild "chunkcount")]
      · rw [exists_and_right, Integral, Option.isSome_iff_exists]
      · intro chunksize
        rw [sub_broken (Q := fun _ => False)]
        · simp [Sub]
        · intro count
          refine Iff.trans (integer_broken (Q := fun _ => False)
            (fun m => iff_false_intro (by simp [pure, Except.pure])) count) ?_
          simp
    · exact iff_of_false (fun h => nomatch h) fun h => hn h.1

theorem parseImage_readable (node : Found) : (∃ a, parseImage node = .ok a) ↔ ReadableImage node := by
  rw [parseImage_eq]
  apply string_readable
  intro name
  apply string_readable
  intro fsType
  apply number_readable
  intro offset
  apply number_readable
  intro size
  exact readMode_readable node _

theorem parseImage_broken (node : Found) : parseImage node = .error .broken ↔ BrokenImage node := by
  rw [parseImage_eq]
  apply string_broken
  intro name
  apply string_broken
  intro fsType
  apply number_crashing
  intro offset
  apply number_crashing
  intro size
  exact readMode_broken node _

def FitsImage (node : Found) : Prop := Fits ["name", "type"] node ∧ Ends node

theorem parseImage_reads (h : DescribesImage node image) (hfits : FitsImage node) : parseImage node = .ok image := by
  have hstored : stored image.name image.fsType = image.name := by
    obtain ⟨f, hf, hname⟩ := h.name
    obtain ⟨g, hg, htype⟩ := h.fsType
    exact stored_eq_iff.mpr (hfits.2 f _ g _ hf hname hg htype)
  rw [parseImage_eq, sub_string_fits h.name (hfits.1 _ (by simp)), sub_string_fits h.fsType (hfits.1 _ (by simp)),
    sub_number _ h.offset, sub_number _ h.size, hstored]
  exact readMode_of_describes h

theorem parseImage_fits (h : parseImage node = .ok image) (hd : DescribesImage node image) : FitsImage node := by
  rw [parseImage_eq] at h
  obtain ⟨name, hname, h⟩ := bind_ok h
  obtain ⟨s, hs, h⟩ := bind_ok h
  obtain ⟨type, htype, h⟩ := bind_ok h
  obtain ⟨t, ht, h⟩ := bind_ok h
  obtain ⟨_, -, h⟩ := bind_ok h
  obtain ⟨_, -, h⟩ := bind_ok h
  obtain ⟨_, -, h⟩ := bind_ok h
  obtain ⟨_, -, h⟩ := bind_ok h
  have hname := find_of_subNode hname
  have htype := find_of_subNode htype
  have hs := stringValue_ok_iff.mp hs
  have ht := stringValue_ok_iff.mp ht
  refine ⟨fits_pair hname hs htype ht, fun f s' g t' hf hs' hg ht' hfull => ?_⟩
  cases hname.symm.trans hf
  cases htype.symm.trans hg
  cases hs.1.symm.trans hs'
  cases ht.1.symm.trans ht'
  obtain ⟨f', hf', hdescribed⟩ := hd.name
  cases hname.symm.trans hf'
  have hstored : image.name = stored s t := readMode_name h
  rw [HasText, hs.1, hstored] at hdescribed
  exact stored_eq_iff.mp (Option.some.inj hdescribed).symm hfull

theorem HasText.told {s : String} {f : Found} (h : HasText s f) : (textOf f).isSome = true := by
  rw [h]
  rfl

theorem HasNumber.told {n : UInt64} {f : Found} (h : HasNumber n f) : (getText f).isSome = true := by
  obtain ⟨s, hs, -⟩ := h
  rw [hs]
  rfl

theorem DescribesImage.mode_unbroken (h : DescribesImage node image) : ¬BrokenMode node := by
  obtain ⟨mode, hmode, type, htype, hupdate, hrest⟩ := h.updateMode
  rintro (hlost | ⟨mode', hmode', hlost | ⟨type', htype', hchunk, hlost⟩⟩)
  · cases hlost.symm.trans hmode
  · cases hmode.symm.trans hmode'
    cases hlost.symm.trans htype
  · cases hmode.symm.trans hmode'
    cases htype.symm.trans htype'
    rw [if_pos (Option.some.inj (hupdate.integerOf.symm.trans hchunk))] at hrest
    obtain ⟨chunk, hchunk, -, hcount⟩ := hrest
    rcases hlost with hlost | ⟨chunk', hchunk', -, hlost⟩
    · cases hlost.symm.trans hchunk
    · cases hchunk.symm.trans hchunk'
      exact hcount.present hlost

theorem DescribesImage.unbroken (h : DescribesImage node image) : ¬BrokenImage node := by
  rintro (hlost | ⟨-, hlost | ⟨-, hlost | ⟨-, hlost | ⟨-, hlost⟩⟩⟩⟩)
  · exact h.name.told (fun f hf => hf.told) hlost
  · exact h.fsType.told (fun f hf => hf.told) hlost
  · exact h.offset.present hlost
  · exact h.size.present hlost
  · exact h.mode_unbroken hlost

end Image

section Item

variable {node : Found} {item : PartItem}

theorem parseItem_eq (node : Found) : parseItem node =
    (subNode node.child "name" >>= fun f => stringValue f >>= fun name =>
      subNode node.child "offset" >>= fun f => numberValue .broken f >>= fun offset =>
        subNode node.child "size" >>= fun f => numberValue .broken f >>= fun size =>
          subNode node.child "blockname" >>= fun f => stringValue f >>= fun blockName =>
            pure ⟨name, offset, size, blockName⟩) := rfl

theorem parseItem_readable (node : Found) : (∃ a, parseItem node = .ok a) ↔ ReadableItem node := by
  rw [parseItem_eq]
  apply string_readable
  intro name
  apply number_readable
  intro offset
  apply number_readable
  intro size
  refine Iff.trans (string_readable (P := True) (fun s => iff_true_intro ⟨_, rfl⟩)) ?_
  rw [and_true]

theorem parseItem_broken (node : Found) : parseItem node = .error .broken ↔ BrokenItem node := by
  rw [parseItem_eq]
  apply string_broken
  intro name
  apply number_broken
  intro offset
  apply number_broken
  intro size
  refine Iff.trans (string_broken (Q := False) (fun s => iff_false_intro (by simp [pure, Except.pure]))) ?_
  rw [and_false, or_false]

def FitsItem (node : Found) : Prop := Fits ["name", "blockname"] node

theorem parseItem_reads (h : DescribesItem node item) (hfits : FitsItem node) : parseItem node = .ok item := by
  rw [parseItem_eq, sub_string_fits h.name (hfits _ (by simp)), sub_number _ h.offset, sub_number _ h.size,
    sub_string_fits h.blockName (hfits _ (by simp))]
  rfl

theorem parseItem_fits (h : parseItem node = .ok item) (_ : DescribesItem node item) : FitsItem node := by
  rw [parseItem_eq] at h
  obtain ⟨name, hname, h⟩ := bind_ok h
  obtain ⟨s, hs, h⟩ := bind_ok h
  obtain ⟨_, -, h⟩ := bind_ok h
  obtain ⟨_, -, h⟩ := bind_ok h
  obtain ⟨_, -, h⟩ := bind_ok h
  obtain ⟨_, -, h⟩ := bind_ok h
  obtain ⟨block, hblock, h⟩ := bind_ok h
  obtain ⟨t, ht, -⟩ := bind_ok h
  exact fits_pair (find_of_subNode hname) (stringValue_ok_iff.mp hs) (find_of_subNode hblock)
    (stringValue_ok_iff.mp ht)

theorem DescribesItem.unbroken (h : DescribesItem node item) : ¬BrokenItem node := by
  rintro (hlost | ⟨-, hlost | ⟨-, hlost | ⟨-, hlost⟩⟩⟩)
  · exact h.name.told (fun f hf => hf.told) hlost
  · exact h.offset.told (fun f hf => hf.told) hlost
  · exact h.size.told (fun f hf => hf.told) hlost
  · exact h.blockName.told (fun f hf => hf.told) hlost

end Item

def imageSchema : Schema UpdateImage where
  tag := "image"
  listTag := "imagelist"
  tags_ne := by decide
  Describes := DescribesImage
  Fits := FitsImage
  Readable := ReadableImage
  Broken := BrokenImage
  parse := parseImage
  reads := parseImage_reads
  fits := parseImage_fits
  readable_iff := parseImage_readable
  broken_iff := parseImage_broken
  unbroken := DescribesImage.unbroken

def itemSchema : Schema PartItem where
  tag := "item"
  listTag := "partition"
  tags_ne := by decide
  Describes := DescribesItem
  Fits := FitsItem
  Readable := ReadableItem
  Broken := BrokenItem
  parse := parseItem
  reads := parseItem_reads
  fits := parseItem_fits
  readable_iff := parseItem_readable
  broken_iff := parseItem_broken
  unbroken := DescribesItem.unbroken

def StopsAt {α : Type} (parse : Found → Parse α) (k : ℕ) (nodes : List Found) : Prop :=
  k ≤ nodes.length ∧ (∀ node ∈ nodes.take k, ∃ a, parse node = .ok a) ∧
    ∀ node, nodes[k]? = some node → parse node = .error .broken

section Loop

variable {α : Type} {parse : Found → Parse α} {nodes : List Found} {items : List α}

theorem parseItems_stops (h : parseItems parse nodes = some items) : StopsAt parse items.length nodes ∧
    List.Forall₂ (fun node a => parse node = .ok a) (nodes.take items.length) items := by
  induction nodes generalizing items with
  | nil =>
    cases h
    exact ⟨⟨le_refl _, by simp, by simp⟩, List.Forall₂.nil⟩
  | cons node nodes ih =>
    rw [parseItems] at h
    split at h
    · rename_i item hitem
      obtain ⟨items', hitems, rfl⟩ := Option.map_eq_some_iff.mp h
      obtain ⟨⟨hlength, hread, hstop⟩, hall⟩ := ih hitems
      refine ⟨⟨Nat.succ_le_succ hlength, ?_, hstop⟩, List.Forall₂.cons hitem hall⟩
      intro other hother
      obtain rfl | hother := List.mem_cons.mp hother
      · exact ⟨item, hitem⟩
      · exact hread other hother
    · rename_i hbroken
      cases h
      refine ⟨⟨Nat.zero_le _, by simp, fun other hother => ?_⟩, List.Forall₂.nil⟩
      cases hother
      exact hbroken
    · cases h

theorem parseItems_of_stopsAt {k : ℕ} (h : StopsAt parse k nodes) :
    ∃ items, parseItems parse nodes = some items ∧ items.length = k := by
  induction nodes generalizing k with
  | nil => exact ⟨[], rfl, (Nat.le_zero.mp h.1).symm⟩
  | cons node nodes ih =>
    obtain ⟨hlength, hread, hstop⟩ := h
    cases k with
    | zero =>
      rw [parseItems, hstop node rfl]
      exact ⟨[], rfl, rfl⟩
    | succ k =>
      obtain ⟨item, hitem⟩ := hread node List.mem_cons_self
      obtain ⟨items, hitems, rfl⟩ := ih
        ⟨Nat.le_of_succ_le_succ hlength, fun other hother => hread other (List.mem_cons_of_mem _ hother), hstop⟩
      rw [parseItems, hitem]
      exact ⟨item :: items, by rw [hitems]; rfl, rfl⟩

end Loop

def IsNumber (s : String) : Prop := s ≠ "" ∧ (scan s.toList).rest = []

namespace Schema

variable {α : Type}

def elements (S : Schema α) (tree : Nodes) : List Found := findElements S.tag (walk tree)

def front (S : Schema α) (tree : Nodes) : List Found :=
  findElements S.tag ((walk tree).takeWhile (fun f => !isElement S.listTag f))

def behind (S : Schema α) (tree : Nodes) : List Found := findElements S.tag (walkBehind S.listTag (walk tree))

structure WellFormed (S : Schema α) (bits : ℕ) (attributes : Prop) (tree : Nodes) : Prop where
  attributes : attributes
  counted : ∃ list count, findElement tree S.listTag = some list ∧ elementGetAttr list "count" = some count ∧
    IsNumber count ∧ strtoul bits count.toList = (S.elements tree).length
  complete : ∀ node ∈ S.elements tree, ∃ a, S.Describes node a

def Accepts (S : Schema α) (bits : ℕ) (attributes : Prop) (tree : Nodes) (old : UInt32) (items : List α) : Prop :=
  attributes ∧ ∃ list, findElement tree S.listTag = some list ∧ parseItems S.parse (S.behind tree) = some items ∧
    countValue bits list old = UInt32.ofNat items.length

def Announces (bits : ℕ) (list : Found) (old : UInt32) (k : ℕ) : Prop :=
  (∃ count, elementGetAttr list "count" = some count ∧ strtoul bits count.toList % 2 ^ 32 = k % 2 ^ 32) ∨
    elementGetAttr list "count" = none ∧ old.toNat = k % 2 ^ 32

def SlipsThrough (S : Schema α) (bits : ℕ) (attributes : Prop) (tree : Nodes) (old : UInt32) : Prop :=
  attributes ∧ ∃ list k, findElement tree S.listTag = some list ∧ Announces bits list old k ∧
    k ≤ (S.behind tree).length ∧ (∀ node ∈ (S.behind tree).take k, S.Readable node) ∧
      ∀ node, (S.behind tree)[k]? = some node → S.Broken node

/-- A well-formed manifest has nothing in front of the list, or what the entries beforehand stand for, and its
texts fit; another one does not slip through. -/
def Clean (S : Schema α) (bits : ℕ) (attributes : Prop) (tree : Nodes) (old : UInt32) (entries : List α) : Prop :=
  (S.WellFormed bits attributes tree → List.Forall₂ S.Describes (S.front tree) entries ∧
      2 ^ 32 ∣ (S.front tree).length ∧ ∀ node ∈ S.behind tree, S.Fits node) ∧
    (¬S.WellFormed bits attributes tree → ¬S.SlipsThrough bits attributes tree old)

variable {S : Schema α} {bits : ℕ} {attributes : Prop} {tree : Nodes} {old : UInt32} {entries items : List α}

theorem isElement_unique {name name' : String} {f : Found} (h : isElement name f = true)
    (h' : isElement name' f = true) : name = name' := by
  unfold isElement at h h'
  split at h
  · rename_i n _ hvalue
    rw [hvalue] at h'
    exact (eq_of_beq h).symm.trans (eq_of_beq h')
  · cases h

theorem elements_eq {list : Found} (h : findElement tree S.listTag = some list) :
    S.elements tree = S.front tree ++ S.behind tree := by
  have hhead : ((walk tree).dropWhile (fun f => !isElement S.listTag f)).head? = some list := by
    rwa [← List.find?_eq_head?_dropWhile_not]
  have hdrop : (walk tree).dropWhile (fun f => !isElement S.listTag f) = list :: walkBehind S.listTag (walk tree) := by
    rw [walkBehind]
    cases hcase : (walk tree).dropWhile (fun f => !isElement S.listTag f) with
    | nil =>
      rw [hcase] at hhead
      cases hhead
    | cons f fs =>
      rw [hcase] at hhead
      cases hhead
      rfl
  have hlist : isElement S.listTag list = true := List.find?_some h
  have hother : ¬isElement S.tag list = true := fun htag => S.tags_ne (isElement_unique hlist htag)
  have hwalk : (walk tree).takeWhile (fun f => !isElement S.listTag f) ++
      (walk tree).dropWhile (fun f => !isElement S.listTag f) = walk tree := List.takeWhile_append_dropWhile
  rw [hdrop] at hwalk
  calc S.elements tree = findElements S.tag ((walk tree).takeWhile (fun f => !isElement S.listTag f) ++
        list :: walkBehind S.listTag (walk tree)) := by rw [hwalk]; rfl
    _ = S.front tree ++ S.behind tree := by
      rw [findElements, List.filter_append, List.filter_cons_of_neg hother]
      rfl

theorem countValue_iff {list : Found} {k : ℕ} : countValue bits list old = UInt32.ofNat k ↔ Announces bits list old k := by
  unfold countValue Announces
  cases elementGetAttr list "count" with
  | none => simp [← UInt32.toNat_inj, UInt32.toNat_ofNat']
  | some count => simp [← UInt32.toNat_inj, UInt32.toNat_ofNat']

theorem stopsAt_iff {k : ℕ} {nodes : List Found} : StopsAt S.parse k nodes ↔
    k ≤ nodes.length ∧ (∀ node ∈ nodes.take k, S.Readable node) ∧ ∀ node, nodes[k]? = some node → S.Broken node := by
  simp only [StopsAt, S.readable_iff, S.broken_iff]

theorem slipsThrough_iff : S.SlipsThrough bits attributes tree old ↔ ∃ items, S.Accepts bits attributes tree old items := by
  constructor
  · rintro ⟨hattributes, list, k, hlist, hcount, hstops⟩
    obtain ⟨items, hitems, rfl⟩ := parseItems_of_stopsAt (stopsAt_iff.mpr hstops)
    exact ⟨items, hattributes, list, hlist, hitems, countValue_iff.mpr hcount⟩
  · rintro ⟨items, hattributes, list, hlist, hitems, hcount⟩
    exact ⟨hattributes, list, items.length, hlist, countValue_iff.mp hcount,
      stopsAt_iff.mp (parseItems_stops hitems).1⟩

theorem parseItems_of_complete {nodes : List Found} (hcomplete : ∀ node ∈ nodes, ∃ a, S.Describes node a)
    (hfits : ∀ node ∈ nodes, S.Fits node) :
    ∃ items, parseItems S.parse nodes = some items ∧ List.Forall₂ S.Describes nodes items := by
  induction nodes with
  | nil => exact ⟨[], rfl, List.Forall₂.nil⟩
  | cons node nodes ih =>
    obtain ⟨a, ha⟩ := hcomplete node List.mem_cons_self
    obtain ⟨items, hitems, hall⟩ := ih (fun other hother => hcomplete other (List.mem_cons_of_mem _ hother))
      (fun other hother => hfits other (List.mem_cons_of_mem _ hother))
    refine ⟨a :: items, ?_, List.Forall₂.cons ha hall⟩
    rw [parseItems, S.reads ha (hfits node List.mem_cons_self), hitems]
    rfl

theorem parseItems_complete {nodes : List Found} (hcomplete : ∀ node ∈ nodes, ∃ a, S.Describes node a)
    (h : parseItems S.parse nodes = some items) :
    items.length = nodes.length ∧ List.Forall₂ (fun node a => S.parse node = .ok a) nodes items := by
  obtain ⟨⟨hlength, hread, hstop⟩, hall⟩ := parseItems_stops h
  have heq : items.length = nodes.length := by
    by_contra hshort
    have hlt : items.length < nodes.length := by omega
    obtain ⟨a, ha⟩ := hcomplete _ (List.getElem_mem hlt)
    exact S.unbroken ha ((S.broken_iff _).mp (hstop _ (List.getElem?_eq_getElem hlt)))
  rw [heq, List.take_length] at hall
  exact ⟨heq, hall⟩

theorem fits_of_describes {nodes : List Found} (hread : List.Forall₂ (fun node a => S.parse node = .ok a) nodes items)
    (hdescribe : List.Forall₂ S.Describes nodes items) : ∀ node ∈ nodes, S.Fits node := by
  induction hread with
  | nil => simp
  | cons ha _ ih =>
    obtain ⟨hd, hrest⟩ := List.forall₂_cons.mp hdescribe
    exact List.forall_mem_cons.mpr ⟨S.fits ha hd, ih hrest⟩

theorem WellFormed.count (h : S.WellFormed bits attributes tree) {list : Found}
    (hlist : findElement tree S.listTag = some list) :
    countValue bits list old = UInt32.ofNat (S.elements tree).length := by
  obtain ⟨list', count, hlist', hcount, -, heq⟩ := h.counted
  cases hlist.symm.trans hlist'
  rw [countValue, hcount, ← heq]

theorem ofNat_eq_iff_dvd (m n : ℕ) : UInt32.ofNat n = UInt32.ofNat (m + n) ↔ 2 ^ 32 ∣ m := by
  rw [← UInt32.toNat_inj, UInt32.toNat_ofNat', UInt32.toNat_ofNat']
  omega

theorem WellFormed.clean_exact (h : S.WellFormed bits attributes tree) :
    ((∃ items, S.Accepts bits attributes tree old items) ∧ ∀ items, S.Accepts bits attributes tree old items →
        List.Forall₂ S.Describes (S.elements tree) (entries ++ items)) ↔
      List.Forall₂ S.Describes (S.front tree) entries ∧ 2 ^ 32 ∣ (S.front tree).length ∧
        ∀ node ∈ S.behind tree, S.Fits node := by
  obtain ⟨list, count, hlist, -⟩ := h.counted
  have heq := elements_eq hlist
  have hlength : (S.elements tree).length = (S.front tree).length + (S.behind tree).length := by
    rw [heq, List.length_append]
  have hcomplete : ∀ node ∈ S.behind tree, ∃ a, S.Describes node a := fun node hnode =>
    h.complete node (by rw [heq]; exact List.mem_append_right _ hnode)
  constructor
  · rintro ⟨⟨items, haccepts⟩, hall⟩
    have hentries := hall items haccepts
    obtain ⟨-, list', hlist', hitems, hcount⟩ := haccepts
    obtain ⟨hread, hparsed⟩ := parseItems_complete hcomplete hitems
    rw [h.count hlist', hread, hlength] at hcount
    rw [heq] at hentries
    have hfront : (S.front tree).length = entries.length := by
      have hsum := hentries.length_eq
      rw [List.length_append, List.length_append] at hsum
      omega
    have htake := List.forall₂_take_append _ _ _ hentries
    have hdrop := List.forall₂_drop_append _ _ _ hentries
    rw [← hfront, List.take_left] at htake
    rw [← hfront, List.drop_left] at hdrop
    exact ⟨htake, (ofNat_eq_iff_dvd _ _).mp hcount.symm, fits_of_describes hparsed hdrop⟩
  · rintro ⟨hfront, hdvd, hfits⟩
    obtain ⟨items, hitems, hdescribe⟩ := parseItems_of_complete hcomplete hfits
    refine ⟨⟨items, h.attributes, list, hlist, hitems, ?_⟩, ?_⟩
    · rw [h.count hlist, hlength, ← hdescribe.length_eq]
      exact ((ofNat_eq_iff_dvd _ _).mpr hdvd).symm
    · rintro items' ⟨-, -, -, hitems', -⟩
      cases hitems.symm.trans hitems'
      rw [heq]
      exact List.rel_append hfront hdescribe

theorem clean_iff : ((∃ items, S.Accepts bits attributes tree old items) ↔ S.WellFormed bits attributes tree) ∧
      (∀ items, S.Accepts bits attributes tree old items →
        List.Forall₂ S.Describes (S.elements tree) (entries ++ items)) ↔
    S.Clean bits attributes tree old entries := by
  by_cases h : S.WellFormed bits attributes tree
  · rw [Clean, ← @WellFormed.clean_exact _ _ _ _ _ old entries h]
    simp [h]
  · rw [Clean, slipsThrough_iff]
    constructor
    · rintro ⟨haccepts, -⟩
      exact ⟨fun hwell => absurd hwell h, fun _ hslips => h (haccepts.mp hslips)⟩
    · rintro ⟨-, hslips⟩
      exact ⟨⟨fun haccepts => absurd haccepts (hslips h), fun hwell => absurd hwell h⟩,
        fun items haccepts => absurd ⟨items, haccepts⟩ (hslips h)⟩

theorem clean_iff_of_accepts {ι : Type} {accepted : ι → Prop} {list : ι → List α}
    (h : ∀ l, (∃ r, accepted r ∧ list r = l) ↔
      ∃ items, S.Accepts bits attributes tree old items ∧ l = entries ++ items) :
    ((∃ r, accepted r) ↔ S.WellFormed bits attributes tree) ∧
        (∀ r, accepted r → List.Forall₂ S.Describes (S.elements tree) (list r)) ↔
      S.Clean bits attributes tree old entries := by
  rw [← clean_iff]
  apply and_congr
  · apply iff_congr _ Iff.rfl
    constructor
    · rintro ⟨r, hr⟩
      obtain ⟨items, hitems, -⟩ := (h (list r)).mp ⟨r, hr, rfl⟩
      exact ⟨items, hitems⟩
    · rintro ⟨items, hitems⟩
      obtain ⟨r, hr, -⟩ := (h _).mpr ⟨items, hitems, rfl⟩
      exact ⟨r, hr⟩
  · constructor
    · intro hall items hitems
      obtain ⟨r, hr, hlist⟩ := (h _).mpr ⟨items, hitems, rfl⟩
      rw [← hlist]
      exact hall r hr
    · intro hall r hr
      obtain ⟨items, hitems, hlist⟩ := (h (list r)).mp ⟨r, hr, rfl⟩
      rw [hlist]
      exact hall items hitems

end Schema

section Parsers

variable {bits : ℕ} {tree : Nodes}

def UpdateAttributes (tree : Nodes) (devtype : String) : Prop :=
  ∃ node, findElement tree "update" = some node ∧ (elementGetAttr node "devcontrol").isSome = true ∧
    elementGetAttr node "devtype" = some devtype

def DeviceAttributes (tree : Nodes) (type : String) : Prop :=
  ∃ node, findElement tree "device" = some node ∧ elementGetAttr node "type" = some type ∧
    (elementGetAttr node "capacity").isSome = true

/-- The update manifests that are accepted are the well-formed ones, and their elements come to be the list. -/
def UpdateExact (bits : ℕ) (tree : Nodes) (info : UpdateInfo) : Prop :=
  ((∃ read, parseUpdateXml bits (some tree) info = some (true, read)) ↔
      imageSchema.WellFormed bits (UpdateAttributes tree info.devtype) tree) ∧
    ∀ read, parseUpdateXml bits (some tree) info = some (true, read) →
      List.Forall₂ DescribesImage (imageSchema.elements tree) read.list

def DeviceExact (bits : ℕ) (tree : Nodes) (info : DeviceManifest) : Prop :=
  ((∃ read, parseDeviceXml bits (some tree) info = some (true, read)) ↔
      itemSchema.WellFormed bits (DeviceAttributes tree info.type) tree) ∧
    ∀ read, parseDeviceXml bits (some tree) info = some (true, read) →
      List.Forall₂ DescribesItem (itemSchema.elements tree) read.list

theorem parseUpdateXml_accepts {info : UpdateInfo} (list : List UpdateImage) :
    (∃ read, parseUpdateXml bits (some tree) info = some (true, read) ∧ read.list = list) ↔
      ∃ items, imageSchema.Accepts bits (UpdateAttributes tree info.devtype) tree info.imageCount items ∧
        list = info.list ++ items := by
  constructor
  · rintro ⟨read, h, rfl⟩
    unfold parseUpdateXml at h
    dsimp only at h
    split at h
    · cases h
    · rename_i node hnode
      split at h
      · cases h
      · rename_i devctl hdevctl
        split_ifs at h with hdevtype
        · cases h
        · split at h
          · cases h
          · rename_i listNode hlist
            obtain ⟨items, hitems, h⟩ := Option.map_eq_some_iff.mp h
            split_ifs at h with hcount
            · cases h
            · cases h
              exact ⟨items, ⟨⟨node, hnode, by rw [hdevctl]; rfl, not_not.mp hdevtype⟩, listNode, hlist, hitems,
                not_not.mp hcount⟩, rfl⟩
  · rintro ⟨items, ⟨⟨node, hnode, hdevctl, hdevtype⟩, listNode, hlist, hitems, hcount⟩, rfl⟩
    obtain ⟨devctl, hdevctl⟩ := Option.isSome_iff_exists.mp hdevctl
    have hlist : findElement tree "imagelist" = some listNode := hlist
    have hitems : parseItems parseImage (findElements "image" (walkBehind "imagelist" (walk tree))) = some items := hitems
    refine ⟨⟨info.devtype, UInt32.ofInt (strtol 64 devctl.toList), countValue bits listNode info.imageCount,
      info.list ++ items⟩, ?_, rfl⟩
    simp only [parseUpdateXml, hnode, hdevctl, hdevtype, hlist, hitems, hcount, ne_eq, not_true_eq_false, if_false,
      Option.map_some]

theorem parseDeviceXml_accepts {info : DeviceManifest} (list : List PartItem) :
    (∃ read, parseDeviceXml bits (some tree) info = some (true, read) ∧ read.list = list) ↔
      ∃ items, itemSchema.Accepts bits (DeviceAttributes tree info.type) tree info.partCount items ∧
        list = info.list ++ items := by
  constructor
  · rintro ⟨read, h, rfl⟩
    unfold parseDeviceXml at h
    dsimp only at h
    split at h
    · cases h
    · rename_i node hnode
      split_ifs at h with htype
      · cases h
      · split at h
        · cases h
        · rename_i capacity hcapacity
          split at h
          · cases h
          · rename_i listNode hlist
            obtain ⟨items, hitems, h⟩ := Option.map_eq_some_iff.mp h
            split_ifs at h with hcount
            · cases h
            · cases h
              exact ⟨items, ⟨⟨node, hnode, not_not.mp htype, by rw [hcapacity]; rfl⟩, listNode, hlist, hitems,
                not_not.mp hcount⟩, rfl⟩
  · rintro ⟨items, ⟨⟨node, hnode, htype, hcapacity⟩, listNode, hlist, hitems, hcount⟩, rfl⟩
    obtain ⟨capacity, hcapacity⟩ := Option.isSome_iff_exists.mp hcapacity
    have hlist : findElement tree "partition" = some listNode := hlist
    have hitems : parseItems parseItem (findElements "item" (walkBehind "partition" (walk tree))) = some items := hitems
    refine ⟨⟨info.type, UInt64.ofNat (strtoul 64 capacity.toList), countValue bits listNode info.partCount,
      info.list ++ items⟩, ?_, rfl⟩
    simp only [parseDeviceXml, hnode, hcapacity, htype, hlist, hitems, hcount, ne_eq, not_true_eq_false, if_false,
      Option.map_some]

def halfEmpty : Element :=
  .mk "update" [("devcontrol", "1"), ("devtype", "nand")] [] [.mk "imagelist" [("count", "1")] []
    [.mk "image" [] [] [.mk "name" [] "kernel".toList [], .mk "type" [] "normal".toList [], .mk "offset" [] "0".toList [],
      .mk "size" [] "16".toList [], .mk "updatemode" [] [] [.mk "type" [] "0x200".toList []]], .mk "image" [] [] []]]

end Parsers

end LinuxRecovery.ManifestShape
