import LinuxRecovery.ManifestRead
import LinuxRecovery.Packager

namespace LinuxRecovery.ManifestRoundTrip

open NumberText Mxml UpdateFile ManifestRead Packager

variable {bits : ℕ}

def FitsName (s : String) : Prop := s ≠ "" ∧ s.utf8ByteSize < nameMax

instance (s : String) : Decidable (FitsName s) := inferInstanceAs (Decidable (_ ∧ _))

structure FitsImage (p : Imageinfo) : Prop where
  name : FitsName p.name
  size : p.size < 2 ^ 64
  offset : p.offset < 2 ^ 64
  chunksize : p.updatemode.size < 2 ^ 32
  chunkcount : p.updatemode.count < 2 ^ 32

structure FitsPartition (p : Partition) : Prop where
  name : FitsName p.name
  blockName : FitsName p.type
  offset : p.offset < 2 ^ 64
  size : p.size < 2 ^ 64

/-- An accepted configuration whose texts and numbers fit into the fields they are read into. -/
structure Carried (image : Image) (device : Device) : Prop where
  imageJudged : image.judge = true
  deviceJudged : device.judge = true
  images : ∀ p ∈ image.imageinfo, FitsImage p
  imgcnt : image.imgcnt < 2 ^ 32
  partitions : ∀ p ∈ device.partition, FitsPartition p
  partCount : device.partition.length < 2 ^ 32
  capacity : device.devsize < 2 ^ 64

def recoveredImage (p : Imageinfo) : UpdateImage where
  name := p.name
  fsType := p.type
  offset := UInt64.ofNat p.offset.toNat
  size := UInt64.ofNat p.size
  updateMode := UInt32.ofNat p.updatemode.type.code
  chunksize := if p.updatemode.type = .slice then UInt32.ofNat p.updatemode.size else 0
  chunkcount := if p.updatemode.type = .slice then UInt32.ofNat p.updatemode.count else 1

def recoveredUpdate (devtype : String) (image : Image) : UpdateInfo where
  devtype := devtype
  devctl := UInt32.ofNat image.devctl.toNat
  imageCount := UInt32.ofNat image.imgcnt
  list := image.imageinfo.map recoveredImage

def recoveredItem (p : Partition) : PartItem where
  name := p.name
  offset := UInt64.ofNat p.offset.toNat
  size := UInt64.ofNat p.size.toNat
  blockName := p.type

def recoveredDevice (device : Device) : DeviceManifest where
  type := device.devtype
  capacity := UInt64.ofNat device.devsize.toNat
  partCount := UInt32.ofNat device.partition.length
  list := device.partition.map recoveredItem

def RoundTrips (bits : ℕ) (devtype : String) (image : Image) (device : Device) : Prop :=
  parseUpdateXml bits (loadFile bits (image.generate devtype)) ⟨devtype, 0, 0, []⟩ =
      some (true, recoveredUpdate devtype image) ∧
    parseDeviceXml bits (loadFile bits device.generate) ⟨device.devtype, 0, 0, []⟩ =
      some (true, recoveredDevice device)

def leaf (tag : String) (attrs : List (String × String)) (v : Value) (next : Nodes) : Nodes :=
  .cons (.element tag attrs) (.cons v .nil .nil) next

def opaqueBelow (text : String) : Nodes := if text = "" then .nil else .cons (.opaqueText text) .nil .nil

def opaqueLeaf (tag text : String) (next : Nodes) : Nodes :=
  .cons (.element tag [("type", "opaque")]) (opaqueBelow text) next

def textLeaf (tag : String) (text : List Char) (next : Nodes) : Nodes := leaf tag [] (.text (String.ofList text)) next

def integerNode (bits n : ℕ) : Value := .integer (toInt (min (2 ^ (bits - 1) - 1 : ℤ) (n : ℤ)))

def integerLeaf (bits : ℕ) (tag : String) (n : ℕ) (next : Nodes) : Nodes :=
  leaf tag [("type", "integer")] (integerNode bits n) next

variable (bits) in
theorem load_opaqueNode (tag text : String) (next : Nodes) :
    loadElement bits (opaqueElement tag text) next = some (opaqueLeaf tag text next) := by
  have htype : mxmlTypeCallback tag [("type", "opaque")] = .opaqueText := by simp [mxmlTypeCallback, List.lookup]
  rw [opaqueElement, loadElement, htype, loadElements, opaqueLeaf, opaqueBelow]
  by_cases h : text = ""
  · subst h
    rfl
  · rw [loadText_opaqueNode h, if_neg h]
    rfl

variable (bits) in
theorem load_integer (tag : String) {text : List Char} {n : ℕ} (hne : text ≠ [])
    (hspace : ∀ c ∈ text, isSpace c = false) (hscan : scan text = ⟨false, n, []⟩) (next : Nodes) :
    loadElement bits (integerElement tag text) next = some (integerLeaf bits tag n next) := by
  have htype : mxmlTypeCallback tag [("type", "integer")] = .integer := by simp [mxmlTypeCallback, List.lookup]
  rw [integerElement, loadElement, htype, loadText_integer hne hspace hscan, loadElements]
  rfl

theorem load_text (tag : String) (htype : mxmlTypeCallback tag [] = .text) {text : List Char} (hne : text ≠ [])
    (hspace : ∀ c ∈ text, isSpace c = false) (next : Nodes) :
    loadElement bits (.mk tag [] text []) next = some (textLeaf tag text next) := by
  rw [loadElement, htype, loadText_single hne hspace, loadElements]
  rfl

theorem load_parent (tag : String) (attrs : List (String × String)) (htype : mxmlTypeCallback tag attrs = .text)
    {children : List Element} {below : Nodes} (h : loadElements bits children = some below) (next : Nodes) :
    loadElement bits (.mk tag attrs [] children) next = some (.cons (.element tag attrs) below next) := by
  have htext : loadText bits .text [] = some [] := rfl
  rw [loadElement, htype, htext, h]
  rfl

theorem loadElements_cons {e : Element} {es : List Element} {next nodes : Nodes}
    (h : loadElements bits es = some next) (he : loadElement bits e next = some nodes) :
    loadElements bits (e :: es) = some nodes := by
  rw [loadElements, h]
  exact he

def modeNodes (bits : ℕ) (mode : UpdateMode) : Nodes :=
  integerLeaf bits "type" mode.type.code
    (match mode.type with
    | .full => .nil
    | .slice => integerLeaf bits "chunksize" mode.size (integerLeaf bits "chunkcount" mode.count .nil))

def imageChild (bits : ℕ) (p : Imageinfo) : Nodes :=
  opaqueLeaf "name" p.name
    (opaqueLeaf "type" p.type
      (textLeaf "offset" (hexadecimal p.offset.toNat)
        (textLeaf "size" (decimal p.size)
          (.cons (.element "updatemode" []) (modeNodes bits p.updatemode) .nil))))

def imageNodes (bits : ℕ) : List Imageinfo → Nodes
  | [] => .nil
  | p :: ps => .cons (.element "image" []) (imageChild bits p) (imageNodes bits ps)

theorem hexadecimal_ne_nil (n : ℕ) : hexadecimal n ≠ [] := List.cons_ne_nil _ _

theorem load_nil : loadElements bits [] = some .nil := rfl

variable (bits) in
theorem load_mode (mode : UpdateMode) : loadElements bits
    (integerElement "type" (hexadecimal mode.type.code) ::
      match mode.type with
      | .full => []
      | .slice => [integerElement "chunksize" (decimal mode.size), integerElement "chunkcount" (decimal mode.count)]) =
      some (modeNodes bits mode) := by
  have htype (next : Nodes) := load_integer bits "type" (hexadecimal_ne_nil mode.type.code)
    (hexadecimal_not_space _) (scan_hexadecimal _) next
  refine loadElements_cons ?_ (htype _)
  cases mode.type with
  | full => rfl
  | slice =>
    have hcount := loadElements_cons load_nil (load_integer bits "chunkcount" (decimal_ne_nil mode.count)
      (decimal_not_space _) (scan_decimal _) _)
    exact loadElements_cons hcount (load_integer bits "chunksize" (decimal_ne_nil mode.size)
      (decimal_not_space _) (scan_decimal _) _)

variable (bits) in
theorem load_image (p : Imageinfo) (next : Nodes) :
    loadElement bits p.generateConfig next = some (.cons (.element "image" []) (imageChild bits p) next) := by
  have hmode := loadElements_cons load_nil (load_parent "updatemode" [] (by decide) (load_mode bits p.updatemode) _)
  have hsize := loadElements_cons hmode (load_text "size" (by decide) (decimal_ne_nil p.size)
    (decimal_not_space _) _)
  have hoffset := loadElements_cons hsize (load_text "offset" (by decide)
    (hexadecimal_ne_nil p.offset.toNat) (hexadecimal_not_space _) _)
  have htype := loadElements_cons hoffset (load_opaqueNode bits "type" p.type _)
  exact load_parent _ [] (by decide) (loadElements_cons htype (load_opaqueNode bits "name" p.name _)) next

variable (bits) in
theorem load_images (ps : List Imageinfo) :
    loadElements bits (ps.map Imageinfo.generateConfig) = some (imageNodes bits ps) := by
  induction ps with
  | nil => rfl
  | cons p ps ih => exact loadElements_cons ih (load_image bits p _)

def itemChild (p : Partition) : Nodes :=
  opaqueLeaf "name" p.name
    (textLeaf "offset" (hexadecimal p.offset.toNat)
      (textLeaf "size" (hexadecimal p.size.toNat)
        (opaqueLeaf "blockname" p.type .nil)))

def itemNodes : List Partition → Nodes
  | [] => .nil
  | p :: ps => .cons (.element "item" []) (itemChild p) (itemNodes ps)

variable (bits) in
theorem load_item (p : Partition) (next : Nodes) :
    loadElement bits p.generateConfig next = some (.cons (.element "item" []) (itemChild p) next) := by
  have hblock := loadElements_cons load_nil (load_opaqueNode bits "blockname" p.type _)
  have hsize := loadElements_cons hblock (load_text "size" (by decide)
    (hexadecimal_ne_nil p.size.toNat) (hexadecimal_not_space _) _)
  have hoffset := loadElements_cons hsize (load_text "offset" (by decide)
    (hexadecimal_ne_nil p.offset.toNat) (hexadecimal_not_space _) _)
  exact load_parent _ [] (by decide) (loadElements_cons hoffset (load_opaqueNode bits "name" p.name _)) next

variable (bits) in
theorem load_items (ps : List Partition) :
    loadElements bits (ps.map Partition.generateConfig) = some (itemNodes ps) := by
  induction ps with
  | nil => rfl
  | cons p ps ih => exact loadElements_cons ih (load_item bits p _)

def integerRead (bits n : ℕ) : UInt32 := UInt32.ofInt (toInt (min (2 ^ (bits - 1) - 1 : ℤ) (n : ℤ)))

def readImage (bits : ℕ) (p : Imageinfo) : UpdateImage :=
  { recoveredImage p with
    chunksize := if p.updatemode.type = .slice then integerRead bits p.updatemode.size else 0
    chunkcount := if p.updatemode.type = .slice then integerRead bits p.updatemode.count else 1 }

theorem integerRead_code (hbits : bits = 32 ∨ bits = 64) (type : UpdateType) :
    integerRead bits type.code = UInt32.ofNat type.code := by
  rcases hbits with rfl | rfl <;> cases type <;> decide

def holding (tag : String) (attrs : List (String × String)) (v : Value) (parentChild : Nodes) : Found :=
  ⟨.element tag attrs, .cons v .nil .nil, parentChild⟩

theorem stringValue_opaque {s : String} (h : FitsName s) (tag : String) (parentChild : Nodes) :
    stringValue ⟨.element tag [("type", "opaque")], opaqueBelow s, parentChild⟩ = .ok s := by
  rw [opaqueBelow, if_neg h.1]
  exact if_pos h.2.le

theorem numberValue_text {t : List Char} {n : ℕ} (hs : scan t = ⟨false, n, []⟩) (missing : Stop) (tag : String)
    (parentChild : Nodes) : numberValue missing (holding tag [] (.text (String.ofList t)) parentChild) =
      .ok (UInt64.ofNat (min n (2 ^ 64 - 1))) := by
  have hvalue : getText (holding tag [] (.text (String.ofList t)) parentChild) = some (String.ofList t) := rfl
  rw [numberValue, hvalue]
  dsimp only
  rw [String.toList_ofList, strtoul_saturated hs]

theorem integerValue_integer (tag : String) (n : ℕ) (parentChild : Nodes) :
    integerValue (holding tag [("type", "integer")] (integerNode bits n) parentChild) = .ok (integerRead bits n) := rfl

theorem holding_parentChild (tag : String) (attrs : List (String × String)) (v : Value) (parentChild : Nodes) :
    (holding tag attrs v parentChild).parentChild = parentChild := rfl

theorem opaqueBelow_cases (text : String) :
    opaqueBelow text = .nil ∨ opaqueBelow text = .cons (.opaqueText text) .nil .nil := by
  unfold opaqueBelow
  split_ifs
  · exact .inl rfl
  · exact .inr rfl

variable (bits) in
theorem image_nodes (p : Imageinfo) :
    subNode (imageChild bits p) "name" =
        .ok ⟨.element "name" [("type", "opaque")], opaqueBelow p.name, imageChild bits p⟩ ∧
      subNode (imageChild bits p) "type" =
        .ok ⟨.element "type" [("type", "opaque")], opaqueBelow p.type, imageChild bits p⟩ ∧
      subNode (imageChild bits p) "offset" =
        .ok (holding "offset" [] (.text (String.ofList (hexadecimal p.offset.toNat))) (imageChild bits p)) ∧
      subNode (imageChild bits p) "size" =
        .ok (holding "size" [] (.text (String.ofList (decimal p.size))) (imageChild bits p)) ∧
      subNode (imageChild bits p) "updatemode" =
        .ok ⟨.element "updatemode" [], modeNodes bits p.updatemode, imageChild bits p⟩ := by
  unfold imageChild opaqueLeaf
  rcases opaqueBelow_cases p.name with hname | hname <;> rcases opaqueBelow_cases p.type with htype | htype <;>
    rw [hname, htype] <;> exact ⟨rfl, rfl, rfl, rfl, rfl⟩

theorem item_nodes (p : Partition) :
    subNode (itemChild p) "name" =
        .ok ⟨.element "name" [("type", "opaque")], opaqueBelow p.name, itemChild p⟩ ∧
      subNode (itemChild p) "offset" =
        .ok (holding "offset" [] (.text (String.ofList (hexadecimal p.offset.toNat))) (itemChild p)) ∧
      subNode (itemChild p) "size" =
        .ok (holding "size" [] (.text (String.ofList (hexadecimal p.size.toNat))) (itemChild p)) ∧
      subNode (itemChild p) "blockname" =
        .ok ⟨.element "blockname" [("type", "opaque")], opaqueBelow p.type, itemChild p⟩ := by
  unfold itemChild opaqueLeaf
  rcases opaqueBelow_cases p.name with hname | hname <;> rw [hname] <;> exact ⟨rfl, rfl, rfl, rfl⟩

theorem mode_node (bits : ℕ) (mode : UpdateMode) : subNode (modeNodes bits mode) "type" =
    .ok (holding "type" [("type", "integer")] (integerNode bits mode.type.code) (modeNodes bits mode)) := rfl

theorem slice_nodes (bits : ℕ) {mode : UpdateMode} (h : mode.type = .slice) :
    subNode (modeNodes bits mode) "chunksize" =
        .ok (holding "chunksize" [("type", "integer")] (integerNode bits mode.size) (modeNodes bits mode)) ∧
      subNode (modeNodes bits mode) "chunkcount" =
        .ok (holding "chunkcount" [("type", "integer")] (integerNode bits mode.count) (modeNodes bits mode)) := by
  have hnodes : modeNodes bits mode = integerLeaf bits "type" UpdateType.slice.code
      (integerLeaf bits "chunksize" mode.size (integerLeaf bits "chunkcount" mode.count .nil)) := by
    simp [modeNodes, h]
  rw [hnodes]
  exact ⟨rfl, rfl⟩

theorem full_nodes (bits : ℕ) {mode : UpdateMode} (h : mode.type = .full) :
    subNode (modeNodes bits mode) "chunksize" = .error .broken := by
  have hnodes : modeNodes bits mode = integerLeaf bits "type" UpdateType.full.code .nil := by simp [modeNodes, h]
  rw [hnodes]
  rfl

theorem parse_image (hbits : bits = 32 ∨ bits = 64) {p : Imageinfo} (hlabel : FitsName p.name)
    (htype : FitsName p.type) (hplace : p.offset < 2 ^ 64) (hlength : p.size < 2 ^ 64) (parentChild : Nodes) :
    parseImage ⟨.element "image" [], imageChild bits p, parentChild⟩ = .ok (readImage bits p) := by
  obtain ⟨hname, hfs, hoffset, hsize, hmode⟩ := image_nodes bits p
  have hkind := mode_node bits p.updatemode
  have hcode := integerRead_code hbits p.updatemode.type
  have hoffset' : min p.offset.toNat (2 ^ 64 - 1) = p.offset.toNat := by omega
  have hsize' : min p.size (2 ^ 64 - 1) = p.size := by omega
  have hstored : stored p.name p.type = p.name := if_neg hlabel.2.ne
  unfold parseImage
  simp only [hname, hfs, hoffset, hsize, hmode, hkind, stringValue_opaque hlabel, stringValue_opaque htype,
    numberValue_text (scan_hexadecimal p.offset.toNat), numberValue_text (scan_decimal p.size), hoffset', hsize',
    integerValue_integer, hcode, hstored, bind, Except.bind, pure, Except.pure]
  cases htypeEq : p.updatemode.type with
  | full => simp [UpdateType.code, updateModeChunk, readImage, recoveredImage, htypeEq]
  | slice =>
    obtain ⟨hchunk, hcount⟩ := slice_nodes bits htypeEq
    rw [if_pos (show UInt32.ofNat UpdateType.slice.code = updateModeChunk from rfl)]
    simp [holding_parentChild, hchunk, hcount, integerValue_integer, readImage, recoveredImage, htypeEq]

theorem parse_item {p : Partition} (h : FitsPartition p) (parentChild : Nodes) :
    parseItem ⟨.element "item" [], itemChild p, parentChild⟩ = .ok (recoveredItem p) := by
  obtain ⟨hname, hoffset, hsize, hblock⟩ := item_nodes p
  have hoffset' : min p.offset.toNat (2 ^ 64 - 1) = p.offset.toNat := by
    have := h.offset
    omega
  have hsize' : min p.size.toNat (2 ^ 64 - 1) = p.size.toNat := by
    have := h.size
    omega
  unfold parseItem
  simp only [hname, hoffset, hsize, hblock, stringValue_opaque h.name, stringValue_opaque h.blockName,
    numberValue_text (scan_hexadecimal p.offset.toNat), numberValue_text (scan_hexadecimal p.size.toNat), hoffset',
    hsize', bind, Except.bind, pure, Except.pure]
  rfl

theorem parseItems_map {α β : Type} {parse : Found → Parse α} {f : β → Found} {g : β → α} {xs : List β}
    (h : ∀ x ∈ xs, parse (f x) = .ok (g x)) : parseItems parse (xs.map f) = some (xs.map g) := by
  induction xs with
  | nil => rfl
  | cons x xs ih =>
    rw [List.map_cons, parseItems, h x (by simp)]
    dsimp only
    rw [ih (fun y hy => h y (by simp [hy]))]
    rfl

theorem find_images (ps : List Imageinfo) (parentChild : Nodes) :
    findElements "image" (walkFrom parentChild (imageNodes bits ps)) =
      ps.map (fun p => ⟨.element "image" [], imageChild bits p, parentChild⟩) := by
  induction ps with
  | nil => rfl
  | cons p ps ih =>
    have hchild : findElements "image" (walkFrom (imageChild bits p) (imageChild bits p)) = [] := by
      unfold imageChild opaqueLeaf
      rcases opaqueBelow_cases p.name with hname | hname <;> rcases opaqueBelow_cases p.type with htype | htype <;>
        rw [hname, htype, modeNodes] <;> cases p.updatemode.type <;> rfl
    rw [imageNodes, walkFrom, findElements, List.filter_cons_of_pos (by rfl), List.filter_append]
    rw [findElements] at hchild ih
    rw [hchild, ih]
    rfl

theorem find_items (ps : List Partition) (parentChild : Nodes) :
    findElements "item" (walkFrom parentChild (itemNodes ps)) =
      ps.map (fun p => ⟨.element "item" [], itemChild p, parentChild⟩) := by
  induction ps with
  | nil => rfl
  | cons p ps ih =>
    have hchild : findElements "item" (walkFrom (itemChild p) (itemChild p)) = [] := by
      unfold itemChild opaqueLeaf
      rcases opaqueBelow_cases p.name with hname | hname <;> rcases opaqueBelow_cases p.type with htype | htype <;>
        rw [hname, htype] <;> rfl
    rw [itemNodes, walkFrom, findElements, List.filter_cons_of_pos (by rfl), List.filter_append]
    rw [findElements] at hchild ih
    rw [hchild, ih]
    rfl

def listTree (root list : String) (attrs : List (String × String)) (count : ℕ) (below : Nodes) : Nodes :=
  .cons (.text "") .nil
    (.cons (.element root attrs)
      (.cons (.element list [("count", String.ofList (decimal count))]) below .nil) .nil)

theorem load_tree {root list : String} {attrs : List (String × String)} {count : ℕ} {children : List Element}
    {below : Nodes} (hroot : mxmlTypeCallback root attrs = .text)
    (hlist : ∀ n, mxmlTypeCallback list [("count", n)] = .text) (h : loadElements bits children = some below) :
    loadFile bits (.mk root attrs [] [.mk list [("count", String.ofList (decimal count))] [] children]) =
      some (listTree root list attrs count below) := by
  have hcount := loadElements_cons load_nil (load_parent list _ (hlist (String.ofList (decimal count))) h _)
  rw [loadFile, load_parent root attrs hroot hcount]
  rfl

theorem strtoul_decimal (hbits : bits = 32 ∨ bits = 64) {n : ℕ} (hn : n < 2 ^ 32) : strtoul bits (decimal n) = n := by
  apply strtoul_scan (scan_decimal n)
  rcases hbits with rfl | rfl
  · exact hn
  · exact hn.trans (by norm_num)

theorem countValue_text (list : String) (t : List Char) (child parentChild : Nodes) (old : UInt32) :
    countValue bits ⟨.element list [("count", String.ofList t)], child, parentChild⟩ old =
      UInt32.ofNat (strtoul bits t) := by
  have hattr : elementGetAttr ⟨.element list [("count", String.ofList t)], child, parentChild⟩ "count" =
      some (String.ofList t) := rfl
  rw [countValue, hattr]
  dsimp only
  rw [String.toList_ofList]

theorem type_ne_empty {t : String} (h : t ∈ imgTypes) : FitsName t := by
  revert t
  decide

theorem mem_judgeImages {ps : List Imageinfo} (h : judgeImages ps = true) : ∀ p ∈ ps, p.judge = true := by
  induction ps with
  | nil => simp
  | cons p ps ih =>
    cases ps with
    | nil => simpa [judgeImages] using h
    | cons q ps =>
      simp only [judgeImages, Bool.and_eq_true] at h
      intro r hr
      rcases List.mem_cons.mp hr with rfl | hr
      · exact h.1.1.1
      · exact ih h.2 r hr

theorem judged_type {image : Image} (h : image.judge = true) : ∀ p ∈ image.imageinfo, p.type ∈ imgTypes := by
  intro p hp
  simp only [Image.judge, Bool.and_eq_true] at h
  have hjudge := mem_judgeImages h.2 p hp
  simp only [Imageinfo.judge, Bool.and_eq_true, decide_eq_true_eq] at hjudge
  exact hjudge.1

theorem image_type {image : Image} (h : image.judge = true) : ∀ p ∈ image.imageinfo, FitsName p.type :=
  fun p hp => type_ne_empty (judged_type h p hp)

variable {devtype : String} {image : Image} {device : Device}

theorem parseUpdateXml_generate (bits : ℕ) (image : Image) (info : UpdateInfo) :
    parseUpdateXml bits (loadFile bits (image.generate info.devtype)) info =
      (parseItems parseImage (image.imageinfo.map
          (fun p => ⟨.element "image" [], imageChild bits p, imageNodes bits image.imageinfo⟩))).map (fun images =>
        let info := { info with
          devctl := UInt32.ofInt (strtol 64 (hexadecimal image.devctl.toNat))
          imageCount := UInt32.ofNat (strtoul bits (decimal image.imgcnt)) }
        if info.imageCount ≠ UInt32.ofNat images.length then (false, { info with list := [] })
        else (true, { info with list := info.list ++ images })) := by
  let attrs := [("devtype", info.devtype), ("devcontrol", String.ofList (hexadecimal image.devctl.toNat))]
  let tree := listTree "update" "imagelist" attrs image.imgcnt (imageNodes bits image.imageinfo)
  have htree : loadFile bits (image.generate info.devtype) = some tree :=
    load_tree rfl (fun _ => rfl) (load_images bits image.imageinfo)
  have hupdate : ∃ child parentChild, findElement tree "update" = some ⟨.element "update" attrs, child, parentChild⟩ :=
    ⟨_, _, rfl⟩
  have hlist : ∃ child parentChild, findElement tree "imagelist" =
      some ⟨.element "imagelist" [("count", String.ofList (decimal image.imgcnt))], child, parentChild⟩ := ⟨_, _, rfl⟩
  have hwalk : walkBehind "imagelist" (walk tree) =
      walkFrom (imageNodes bits image.imageinfo) (imageNodes bits image.imageinfo) := by
    simp [walkBehind, walk, tree, listTree, walkFrom, isElement]
  obtain ⟨child, parentChild, hupdate⟩ := hupdate
  obtain ⟨child', parentChild', hlist⟩ := hlist
  have hdevctl : elementGetAttr ⟨.element "update" attrs, child, parentChild⟩ "devcontrol" =
      some (String.ofList (hexadecimal image.devctl.toNat)) := rfl
  have hdevtype : elementGetAttr ⟨.element "update" attrs, child, parentChild⟩ "devtype" = some info.devtype := rfl
  rw [htree]
  simp only [parseUpdateXml, hupdate, hdevctl, hdevtype, hlist, hwalk, find_images, String.toList_ofList,
    countValue_text, ne_eq, not_true_eq_false, if_false]

theorem parseDeviceXml_generate (bits : ℕ) {device : Device} (hjudge : device.judge = true) (info : DeviceManifest)
    (htype : info.type = device.devtype) :
    parseDeviceXml bits (loadFile bits device.generate) info =
      (parseItems parseItem (device.partition.map
          (fun p => ⟨.element "item" [], itemChild p, itemNodes device.partition⟩))).map (fun items =>
        let info := { info with
          capacity := UInt64.ofNat (strtoul 64 (hexadecimal device.devsize.toNat))
          partCount := UInt32.ofNat (strtoul bits (decimal device.partition.length)) }
        if info.partCount ≠ UInt32.ofNat items.length then (false, { info with list := [] })
        else (true, { info with list := info.list ++ items })) := by
  let attrs := [("type", device.devtype), ("capacity", String.ofList (hexadecimal device.devsize.toNat))]
  let tree := listTree "device" "partition" attrs device.partition.length (itemNodes device.partition)
  have hcallback : mxmlTypeCallback "device" attrs = .text := by
    simp only [Device.judge, deviceTypes, Bool.and_eq_true, decide_eq_true_eq, List.mem_cons, List.not_mem_nil,
      or_false] at hjudge
    rcases hjudge.1.1 with hd | hd | hd <;> simp [attrs, mxmlTypeCallback, List.lookup, hd]
  have htree : loadFile bits device.generate = some tree :=
    load_tree hcallback (fun _ => rfl) (load_items bits device.partition)
  have hdevice : ∃ child parentChild, findElement tree "device" = some ⟨.element "device" attrs, child, parentChild⟩ :=
    ⟨_, _, rfl⟩
  have hlist : ∃ child parentChild, findElement tree "partition" =
      some ⟨.element "partition" [("count", String.ofList (decimal device.partition.length))], child, parentChild⟩ :=
    ⟨_, _, rfl⟩
  have hwalk : walkBehind "partition" (walk tree) =
      walkFrom (itemNodes device.partition) (itemNodes device.partition) := by
    simp [walkBehind, walk, tree, listTree, walkFrom, isElement]
  obtain ⟨child, parentChild, hdevice⟩ := hdevice
  obtain ⟨child', parentChild', hlist⟩ := hlist
  have hkind : elementGetAttr ⟨.element "device" attrs, child, parentChild⟩ "type" = some device.devtype := rfl
  have hcap : elementGetAttr ⟨.element "device" attrs, child, parentChild⟩ "capacity" =
      some (String.ofList (hexadecimal device.devsize.toNat)) := rfl
  rw [htree]
  simp only [parseDeviceXml, hdevice, hkind, htype, hcap, hlist, hwalk, find_items, String.toList_ofList,
    countValue_text, ne_eq, not_true_eq_false, if_false]

theorem parse_update (hbits : bits = 32 ∨ bits = 64) (h : Carried image device) :
    parseUpdateXml bits (loadFile bits (image.generate devtype)) ⟨devtype, 0, 0, []⟩ =
      some (true, { recoveredUpdate devtype image with list := image.imageinfo.map (readImage bits) }) := by
  have hjudge := h.imageJudged
  simp only [Image.judge, Bool.and_eq_true, decide_eq_true_eq] at hjudge
  obtain ⟨⟨⟨-, hcnt⟩, hctl⟩, -⟩ := hjudge
  have hctl' : UInt32.ofInt (strtol 64 (hexadecimal image.devctl.toNat)) = UInt32.ofNat image.devctl.toNat := by
    simp only [devctls, List.mem_cons, List.not_mem_nil, or_false] at hctl
    rcases hctl with hctl | hctl <;> rw [hctl] <;> decide
  have hitems : parseItems parseImage (image.imageinfo.map
        (fun p => ⟨.element "image" [], imageChild bits p, imageNodes bits image.imageinfo⟩)) =
      some (image.imageinfo.map (readImage bits)) :=
    parseItems_map (fun p hp =>
      have hfits := h.images p hp
      parse_image hbits hfits.name (image_type h.imageJudged p hp) hfits.offset hfits.size _)
  rw [parseUpdateXml_generate bits image ⟨devtype, 0, 0, []⟩, hitems]
  simp only [Option.map_some, hctl', strtoul_decimal hbits h.imgcnt, List.length_map, List.nil_append]
  have hcount : ¬(UInt32.ofNat image.imgcnt ≠ UInt32.ofNat image.imageinfo.length) := by rw [hcnt, not_not]
  rw [if_neg hcount]
  rfl

theorem mem_judgePartitions {total : ℤ} {ps : List Partition} (h : judgePartitions total ps = true) :
    ∀ p ∈ ps, p.fits total = true := by
  induction ps with
  | nil => simp
  | cons p ps ih =>
    cases ps with
    | nil => simpa [judgePartitions] using h
    | cons q ps =>
      simp only [judgePartitions, Bool.and_eq_true] at h
      intro r hr
      rcases List.mem_cons.mp hr with rfl | hr
      · exact h.1.1.1
      · exact ih h.2 r hr

theorem parse_device (hbits : bits = 32 ∨ bits = 64) (h : Carried image device) :
    parseDeviceXml bits (loadFile bits device.generate) ⟨device.devtype, 0, 0, []⟩ =
      some (true, recoveredDevice device) := by
  have hcapacity : strtoul 64 (hexadecimal device.devsize.toNat) = device.devsize.toNat := by
    have := h.capacity
    exact strtoul_scan (scan_hexadecimal _) (by omega)
  have hitems : parseItems parseItem (device.partition.map
        (fun p => ⟨.element "item" [], itemChild p, itemNodes device.partition⟩)) =
      some (device.partition.map recoveredItem) :=
    parseItems_map (fun p hp => parse_item (h.partitions p hp) _)
  rw [parseDeviceXml_generate bits h.deviceJudged ⟨device.devtype, 0, 0, []⟩ rfl, hitems]
  simp only [Option.map_some, hcapacity, strtoul_decimal hbits h.partCount, List.length_map, List.nil_append, ne_eq,
    not_true_eq_false, if_false]
  rfl

theorem integerRead_eq (hbits : bits = 32 ∨ bits = 64) (n : ℕ) :
    integerRead bits n = UInt32.ofNat (min (2 ^ (bits - 1) - 1) n) := by
  have hmin : (min (2 ^ (bits - 1) - 1 : ℤ) (n : ℤ)) = ((min (2 ^ (bits - 1) - 1) n : ℕ) : ℤ) := by
    rcases hbits with rfl | rfl <;> push_cast <;> rfl
  have hmod := Int.bmod_emod (x := ((min (2 ^ (bits - 1) - 1) n : ℕ) : ℤ)) (m := 2 ^ 32)
  rw [integerRead, hmin, toInt, UInt32.ofInt, ← UInt32.toNat_inj, UInt32.toNat_ofNat', UInt32.toNat_ofNat']
  generalize min (2 ^ (bits - 1) - 1) n = m at hmod ⊢
  push_cast at hmod ⊢
  rw [hmod]
  omega

theorem integerRead_iff (hbits : bits = 32 ∨ bits = 64) {n : ℕ} (hn : n < 2 ^ 32) :
    integerRead bits n = UInt32.ofNat n ↔ bits = 64 ∨ n < 2 ^ 31 := by
  rw [integerRead_eq hbits, ← UInt32.toNat_inj, UInt32.toNat_ofNat', UInt32.toNat_ofNat', Nat.mod_eq_of_lt hn]
  rcases hbits with rfl | rfl <;> simp <;> omega

def LongHolds (bits : ℕ) (image : Image) : Prop :=
  bits = 64 ∨ ∀ p ∈ image.imageinfo, p.updatemode.type = .slice →
    p.updatemode.size < 2 ^ 31 ∧ p.updatemode.count < 2 ^ 31

theorem readImage_iff (hbits : bits = 32 ∨ bits = 64) {p : Imageinfo} (h : FitsImage p) :
    readImage bits p = recoveredImage p ↔
      (p.updatemode.type = .slice → (bits = 64 ∨ p.updatemode.size < 2 ^ 31) ∧ (bits = 64 ∨ p.updatemode.count < 2 ^ 31)) := by
  rw [← integerRead_iff hbits h.chunksize, ← integerRead_iff hbits h.chunkcount]
  by_cases hslice : p.updatemode.type = .slice <;> simp [readImage, recoveredImage, hslice]

theorem roundTrips_iff (hbits : bits = 32 ∨ bits = 64) (devtype : String) (h : Carried image device) :
    RoundTrips bits devtype image device ↔ LongHolds bits image := by
  have hmap : image.imageinfo.map (readImage bits) = image.imageinfo.map recoveredImage ↔ LongHolds bits image := by
    rw [List.map_inj_left]
    constructor
    · intro hall
      rw [LongHolds, or_iff_not_imp_left]
      intro hne p hp hslice
      have := (readImage_iff hbits (h.images p hp)).mp (hall p hp) hslice
      exact ⟨this.1.resolve_left hne, this.2.resolve_left hne⟩
    · rintro hlong p hp
      refine (readImage_iff hbits (h.images p hp)).mpr (fun hslice => ?_)
      rcases hlong with hbits | hlong
      · exact ⟨.inl hbits, .inl hbits⟩
      · exact ⟨.inr (hlong p hp hslice).1, .inr (hlong p hp hslice).2⟩
  rw [RoundTrips, parse_update hbits h, parse_device hbits h, ← hmap]
  simp [recoveredUpdate]

def smallDevice : Device := ⟨"nand", 1024, [⟨"boot", 0, 512, "mtdblock0"⟩, ⟨"root", 512, 512, "mtdblock1"⟩]⟩

def smallImage (chunksize : ℕ) : Image :=
  ⟨"nand", 2, 1, [⟨"boot.bin", 100, "normal", 16, ⟨.full, 0, 0⟩⟩, ⟨"root.ubi", 200, "ubifs", 512, ⟨.slice, chunksize, 2⟩⟩]⟩

theorem smallImage_carried {chunksize : ℕ} (h : chunksize < 2 ^ 32) : Carried (smallImage chunksize) smallDevice where
  imageJudged := rfl
  deviceJudged := by decide
  images p hp := by
    rcases List.mem_cons.mp hp with rfl | hp
    · exact ⟨by decide, by decide, by decide, by decide, by decide⟩
    · rcases List.mem_singleton.mp hp with rfl
      exact ⟨(by decide : FitsName "root.ubi"), (by decide : 200 < 2 ^ 64), (by decide : (512 : ℤ) < 2 ^ 64), h,
        (by decide : 2 < 2 ^ 32)⟩
  imgcnt := by
    change 2 < 2 ^ 32
    decide
  partitions p hp := by
    rcases List.mem_cons.mp hp with rfl | hp
    · exact ⟨by decide, by decide, by decide, by decide⟩
    · rcases List.mem_singleton.mp hp with rfl
      exact ⟨by decide, by decide, by decide, by decide⟩
  partCount := by decide
  capacity := by decide

theorem roundTrips_iff_small : RoundTrips 32 "nand" (smallImage 126976) smallDevice ↔ LongHolds 32 (smallImage 126976) :=
  roundTrips_iff (.inl rfl) "nand" (smallImage_carried (by decide))

theorem chunksize_cut_off : Carried (smallImage 3000000000) smallDevice ∧
    ¬RoundTrips 32 "nand" (smallImage 3000000000) smallDevice := by
  refine ⟨smallImage_carried (by decide), ?_⟩
  rintro ⟨h, -⟩
  rw [parse_update (.inl rfl) (smallImage_carried (by decide))] at h
  revert h
  decide

end LinuxRecovery.ManifestRoundTrip
