import LinuxRecovery.DeviceCheck
import LinuxRecovery.ManifestRoundTrip
import LinuxRecovery.MergeImages

namespace LinuxRecovery.VolumeSearch

open Packager Mxml UpdateFile ManifestRead DeviceCheck CircularLists MergeImages ManifestRoundTrip

def supportedDeviceType : List String := ["nor", "nand", "mmc"]

structure Manifests where
  deviceXml : Option (Option Nodes)
  updateXml : Option (Option Nodes)
  deriving DecidableEq

structure DeviceDir where
  verified : Bool
  unzipped : Bool
  manifests : Manifests
  pkgCount : UInt32

structure Volume where
  updateDir : Bool
  globalXml : Option (Option Nodes)
  deviceDir : String → Option DeviceDir

structure DeviceRecord where
  info : DeviceManifest
  merge : MergeState

structure SearchState where
  deviceTypeList : List String
  deviceList : List DeviceRecord
  updateList : List UpdateInfo
  unzipDir : Manifests

def fresh : SearchState := ⟨[], [], [], ⟨none, none⟩⟩

def blankDevice (devtype : String) : DeviceManifest := ⟨devtype, 0, 0, []⟩

def blankUpdate (devtype : String) : UpdateInfo := ⟨devtype, 0, 0, []⟩

def zeroed : MergeState := ⟨null, fun _ => 0, fun _ => 0⟩

def registered (devtype : String) : DeviceRecord := ⟨blankDevice devtype, zeroed⟩

/-- The loop of `parse_global_xml`; nothing if it writes past the end of the type list. -/
def registerDevices : List Found → SearchState → Option (Bool × SearchState)
  | [], st => some (true, st)
  | node :: nodes, st =>
    match getOpaque node with
    | none => some (false, st)
    | some devtype =>
      if devtype ∉ supportedDeviceType then some (false, st)
      else if st.deviceTypeList.length = supportedDeviceType.length then none
      else registerDevices nodes { st with
        deviceTypeList := st.deviceTypeList ++ [devtype]
        deviceList := st.deviceList ++ [registered devtype]
        updateList := st.updateList ++ [blankUpdate devtype] }

def deviceNodes (tree : Nodes) : List Found := findElements "device" (walkBehind "global" (walk tree))

def parseGlobalXml (tree : Option Nodes) (st : SearchState) : Option (Bool × SearchState) :=
  let st := { st with deviceTypeList := [] }
  match tree with
  | none => some (false, st)
  | some tree =>
    match findElement tree "global" with
    | none => some (false, st)
    | some _ => registerDevices (deviceNodes tree) st

def getDeviceInfoByDevtype (st : SearchState) (devtype : String) : Option DeviceRecord :=
  st.deviceList.find? (fun record => record.info.type == devtype)

def getUpdateInfoByDevtype (st : SearchState) (devtype : String) : Option UpdateInfo :=
  st.updateList.find? (fun info => info.devtype == devtype)

def setFirst {α : Type} (p : α → Bool) (a : α) : List α → List α
  | [] => []
  | b :: bs => if p b = true then a :: bs else b :: setFirst p a bs

/-- `check_devive_update_info` down to the parsed update manifest; nothing if the process dies. -/
def parseManifests (bits : ℕ) (mtd : MtdInfo) (dir : DeviceDir) (unzipDir : Manifests) (device : DeviceManifest)
    (update : UpdateInfo) : Option (Bool × Manifests × DeviceManifest × UpdateInfo) :=
  if dir.verified = false then some (false, unzipDir, device, update)
  else
    let unzipDir : Manifests :=
      ⟨dir.manifests.deviceXml.or unzipDir.deviceXml, dir.manifests.updateXml.or unzipDir.updateXml⟩
    if dir.unzipped = false then some (false, unzipDir, device, update)
    else
      match unzipDir.deviceXml with
      | none => some (false, unzipDir, device, update)
      | some tree =>
        match parseDeviceXml bits tree device with
        | none => none
        | some (false, device) => some (false, unzipDir, device, update)
        | some (true, device) =>
          match checkDeviceInfo mtd device with
          | none => none
          | some r =>
            if r < 0 then some (false, unzipDir, device, update)
            else
              match unzipDir.updateXml with
              | none => some (false, unzipDir, device, update)
              | some tree =>
                match parseUpdateXml bits tree update with
                | none => none
                | some (ok, update) => some (ok, unzipDir, device, update)

def freedLinks (h : Links ListHead) : Links ListHead :=
  ⟨fun n => (h.next n).filter (fun m => decide (m = n)), fun n => (h.prev n).filter (fun m => decide (m = n))⟩

def mergeStart (record : DeviceRecord) (update : UpdateInfo) : MergeState :=
  if record.info.list = [] then zeroed
  else if update.list = [] then { record.merge with links := freedLinks record.merge.links }
  else record.merge

/-- Each partition that has images has its list walked; false when `fuel` steps do not end one. -/
def dumpDeviceInfo (fuel parts : ℕ) (st : MergeState) : Bool :=
  (List.range parts).all (fun i =>
    st.imageCount i == 0 || (listForEach st.links (.part i) fuel (st.links.next (.part i))).isSome)

def mergeAndDump (fuel : ℕ) (parts : List PartItem) (images : List ImageInfo) (st : MergeState) :
    Option (Bool × MergeState) :=
  match mergeParts images.zipIdx 0 parts none st with
  | none => none
  | some (r, st) =>
    if r < 0 then some (false, st)
    else if dumpDeviceInfo fuel parts.length st = true then some (true, st)
    else none

def imageInfos (update : UpdateInfo) : List ImageInfo := update.list.map UpdateImage.toImageInfo

def checkDeviceUpdateInfo (fuel bits : ℕ) (mtd : MtdInfo) (dir : DeviceDir) (unzipDir : Manifests)
    (record : DeviceRecord) (update : UpdateInfo) : Option (Bool × Manifests × DeviceRecord × UpdateInfo) :=
  match parseManifests bits mtd dir unzipDir record.info update with
  | none => none
  | some (false, unzipDir, device, update') => some (false, unzipDir, ⟨device, record.merge⟩, update')
  | some (true, unzipDir, device, update') =>
    match mergeAndDump fuel device.list (imageInfos update') (mergeStart record update) with
    | none => none
    | some (ok, merge) => some (ok, unzipDir, ⟨device, merge⟩, update')

def SearchState.set (st : SearchState) (devtype : String) (unzipDir : Manifests) (device : DeviceRecord)
    (update : UpdateInfo) : SearchState where
  deviceTypeList := st.deviceTypeList
  deviceList := setFirst (fun record => record.info.type == devtype) device st.deviceList
  updateList := setFirst (fun info => info.devtype == devtype) update st.updateList
  unzipDir := unzipDir

def chunkTotal (update : UpdateInfo) : UInt32 := (update.list.map (fun image => image.chunkcount)).sum

def examineType (fuel bits : ℕ) (mtd : MtdInfo) (v : Volume) (devtype : String) (st : SearchState) :
    Option (Bool × SearchState) :=
  match getDeviceInfoByDevtype st devtype, getUpdateInfoByDevtype st devtype with
  | some device, some update =>
    match v.deviceDir devtype with
    | none => some (false, st)
    | some dir =>
      match checkDeviceUpdateInfo fuel bits mtd dir st.unzipDir device update with
      | none => none
      | some (ok, unzipDir, device, update) =>
        let st := st.set devtype unzipDir device update
        if ok = false then some (false, st)
        else if chunkTotal update ≠ dir.pkgCount - 1 then some (false, st)
        else some (true, st)
  | _, _ => some (false, st)

def examineTypes (fuel bits : ℕ) (mtd : MtdInfo) (v : Volume) :
    List String → SearchState → Option (Bool × SearchState)
  | [], st => if st.deviceTypeList.length = supportedDeviceType.length then none else some (true, st)
  | devtype :: devtypes, st =>
    match examineType fuel bits mtd v devtype st with
    | none => none
    | some (false, st) => some (false, st)
    | some (true, st) => examineTypes fuel bits mtd v devtypes st

def examine (fuel bits : ℕ) (mtd : MtdInfo) (v : Volume) (st : SearchState) : Option (Bool × SearchState) :=
  if v.updateDir = false then some (false, st)
  else
    match v.globalXml with
    | none => some (false, st)
    | some tree =>
      match parseGlobalXml tree st with
      | none => none
      | some (false, st) => some (false, st)
      | some (true, st) => examineTypes fuel bits mtd v st.deviceTypeList st

def findValidUpdateVolume (fuel bits : ℕ) (mtd : MtdInfo) : List Volume → SearchState → Option (Option ℕ × SearchState)
  | [], st => some (none, st)
  | v :: vs, st =>
    match examine fuel bits mtd v st with
    | none => none
    | some (true, st) => some (some 0, st)
    | some (false, st) => (findValidUpdateVolume fuel bits mtd vs st).map (fun r => (r.1.map (· + 1), r.2))

def Accepts (bits : ℕ) (mtd : MtdInfo) (vs : List Volume) (place : ℕ) (st : SearchState) : Prop :=
  ∃ fuel, findValidUpdateVolume fuel bits mtd vs fresh = some (some place, st)

def typesOf (v : Volume) : List String :=
  match v.globalXml with
  | some (some tree) => (deviceNodes tree).filterMap getOpaque
  | _ => []

def DevicePasses (bits : ℕ) (mtd : MtdInfo) (dir : DeviceDir) (t : String) (device : DeviceManifest) : Prop :=
  ∃ tree r, dir.manifests.deviceXml = some tree ∧ parseDeviceXml bits tree (blankDevice t) = some (true, device) ∧
    checkDeviceInfo mtd device = some r ∧ 0 ≤ r

def UpdatePasses (bits : ℕ) (dir : DeviceDir) (t : String) (update : UpdateInfo) : Prop :=
  ∃ tree, dir.manifests.updateXml = some tree ∧ parseUpdateXml bits tree (blankUpdate t) = some (true, update)

/-- By itself the package of the type passes: its own manifests do, they are merged and dumped, and
its directory holds as many packages as they say. -/
structure Passes (bits : ℕ) (mtd : MtdInfo) (dir : DeviceDir) (t : String) (device : DeviceManifest)
    (update : UpdateInfo) : Prop where
  verified : dir.verified = true
  unzipped : dir.unzipped = true
  ownDevice : DevicePasses bits mtd dir t device
  ownUpdate : UpdatePasses bits dir t update
  merged : ∃ fuel merge, mergeAndDump fuel device.list (imageInfos update) zeroed = some (true, merge)
  counted : chunkTotal update = dir.pkgCount - 1

def TypePasses (bits : ℕ) (mtd : MtdInfo) (v : Volume) (t : String) : Prop :=
  ∃ dir device update, v.deviceDir t = some dir ∧ Passes bits mtd dir t device update

structure Registers (v : Volume) (types : List String) : Prop where
  updateDir : v.updateDir = true
  named : ∃ tree, v.globalXml = some (some tree) ∧ (findElement tree "global").isSome = true ∧
    (deviceNodes tree).map getOpaque = types.map some
  supported : ∀ t ∈ types, t ∈ supportedDeviceType
  fits : types.length ≤ supportedDeviceType.length

def Comes (bits : ℕ) (mtd : MtdInfo) (v : Volume) (before : List String) (t : String) : Prop :=
  (∃ after, Registers v (before ++ t :: after)) ∧ ∀ u ∈ before, TypePasses bits mtd v u

def Unpacks (v : Volume) (devtype : String) (dir : DeviceDir) : Prop :=
  v.deviceDir devtype = some dir ∧ dir.verified = true ∧ dir.unzipped = true

def Counts (element : String) (tree : Option Nodes) : Prop :=
  ∀ nodes node, tree = some nodes → findElement nodes element = some node → elementGetAttr node "count" ≠ none

/-- Nothing that earlier volumes left comes to be read along with the volume's own manifests. -/
structure Untainted (bits : ℕ) (mtd : MtdInfo) (st : SearchState) (v : Volume) : Prop where
  distinct : ∀ before t, Comes bits mtd v before t → t ∉ before
  devices : ∀ before t dir tree record, Comes bits mtd v before t → Unpacks v t dir →
    dir.manifests.deviceXml = some tree → getDeviceInfoByDevtype st t = some record →
    record.info.list = [] ∧ (record.info.partCount = 0 ∨ Counts "partition" tree)
  updates : ∀ before t dir device tree info, Comes bits mtd v before t → Unpacks v t dir →
    DevicePasses bits mtd dir t device → dir.manifests.updateXml = some tree →
    getUpdateInfoByDevtype st t = some info → info.list = [] ∧ (info.imageCount = 0 ∨ Counts "imagelist" tree)
  deviceXml : ∀ t dir, Comes bits mtd v [] t → Unpacks v t dir → dir.manifests.deviceXml = none →
    st.unzipDir.deviceXml = none
  updateXml : ∀ t dir device, Comes bits mtd v [] t → Unpacks v t dir → DevicePasses bits mtd dir t device →
    dir.manifests.updateXml = none → st.unzipDir.updateXml = none

def HoldsOwn (bits : ℕ) (v : Volume) (st : SearchState) (t : String) : Prop :=
  ∃ dir deviceTree updateTree record update, v.deviceDir t = some dir ∧
    dir.manifests = ⟨some deviceTree, some updateTree⟩ ∧
    parseDeviceXml bits deviceTree (blankDevice t) = some (true, record.info) ∧
    parseUpdateXml bits updateTree (blankUpdate t) = some (true, update) ∧
    getDeviceInfoByDevtype st t = some record ∧ getUpdateInfoByDevtype st t = some update

/-- Behind rejected volumes the verdict on `v` is the one on `v` alone, and its records are its own. -/
def Independent (bits : ℕ) (mtd : MtdInfo) (rejected : List Volume) (v : Volume) (later : List Volume) : Prop :=
  ((∃ st, Accepts bits mtd (rejected ++ v :: later) rejected.length st) ↔ ∃ st, Accepts bits mtd [v] 0 st) ∧
    ∀ st, Accepts bits mtd (rejected ++ v :: later) rejected.length st → ∀ t ∈ typesOf v, HoldsOwn bits v st t

section Mono

variable {fuel fuel' bits : ℕ} {mtd : MtdInfo} {v : Volume} {vs : List Volume} {st : SearchState}

theorem dumpDeviceInfo_mono {parts : ℕ} {st : MergeState} (hle : fuel ≤ fuel') (h : dumpDeviceInfo fuel parts st = true) :
    dumpDeviceInfo fuel' parts st = true := by
  rw [dumpDeviceInfo, List.all_eq_true] at h ⊢
  intro i hi
  have hwalk := h i hi
  rw [Bool.or_eq_true] at hwalk ⊢
  apply hwalk.imp_right
  intro hsome
  obtain ⟨xs, hxs⟩ := Option.isSome_iff_exists.mp hsome
  rw [listForEach_mono hle hxs]
  rfl

theorem mergeAndDump_mono {parts : List PartItem} {images : List ImageInfo} {st : MergeState} {r : Bool × MergeState}
    (hle : fuel ≤ fuel') (h : mergeAndDump fuel parts images st = some r) : mergeAndDump fuel' parts images st = some r := by
  unfold mergeAndDump at h ⊢
  split at h
  · cases h
  · split_ifs at h with hr hdump
    · rw [if_pos hr]
      exact h
    · rw [if_neg hr, if_pos (dumpDeviceInfo_mono hle hdump)]
      exact h

theorem checkDeviceUpdateInfo_mono {dir : DeviceDir} {unzipDir : Manifests} {record : DeviceRecord} {update : UpdateInfo}
    {r : Bool × Manifests × DeviceRecord × UpdateInfo} (hle : fuel ≤ fuel')
    (h : checkDeviceUpdateInfo fuel bits mtd dir unzipDir record update = some r) :
    checkDeviceUpdateInfo fuel' bits mtd dir unzipDir record update = some r := by
  unfold checkDeviceUpdateInfo at h ⊢
  split at h
  · cases h
  · exact h
  · split at h
    · cases h
    · rename_i hmerge
      rw [mergeAndDump_mono hle hmerge]
      exact h

theorem examineType_mono {t : String} {r : Bool × SearchState} (hle : fuel ≤ fuel')
    (h : examineType fuel bits mtd v t st = some r) : examineType fuel' bits mtd v t st = some r := by
  unfold examineType at h ⊢
  split at h
  · split at h
    · exact h
    · split at h
      · cases h
      · rename_i hcheck
        rw [checkDeviceUpdateInfo_mono hle hcheck]
        exact h
  · exact h

theorem examineTypes_mono {devtypes : List String} {r : Bool × SearchState} (hle : fuel ≤ fuel')
    (h : examineTypes fuel bits mtd v devtypes st = some r) : examineTypes fuel' bits mtd v devtypes st = some r := by
  induction devtypes generalizing st with
  | nil => exact h
  | cons t devtypes ih =>
    rw [examineTypes] at h ⊢
    split at h
    · cases h
    · rename_i hturn
      rw [examineType_mono hle hturn]
      exact h
    · rename_i hturn
      rw [examineType_mono hle hturn]
      exact ih h

theorem examine_mono {r : Bool × SearchState} (hle : fuel ≤ fuel') (h : examine fuel bits mtd v st = some r) :
    examine fuel' bits mtd v st = some r := by
  unfold examine at h ⊢
  split_ifs at h ⊢ with hdir
  · exact h
  · split at h
    · exact h
    · split at h
      · cases h
      · exact h
      · exact examineTypes_mono hle h

theorem findValidUpdateVolume_mono {r : Option ℕ × SearchState} (hle : fuel ≤ fuel')
    (h : findValidUpdateVolume fuel bits mtd vs st = some r) : findValidUpdateVolume fuel' bits mtd vs st = some r := by
  induction vs generalizing st r with
  | nil => exact h
  | cons v vs ih =>
    rw [findValidUpdateVolume] at h ⊢
    split at h
    · cases h
    · rename_i hv
      rw [examine_mono hle hv]
      exact h
    · rename_i hv
      rw [examine_mono hle hv]
      obtain ⟨r, hr, rfl⟩ := Option.map_eq_some_iff.mp h
      exact Option.map_eq_some_iff.mpr ⟨r, ih hr, rfl⟩

end Mono

section Lists

variable {α : Type} {p q : α → Bool} {a : α} {l : List α}

theorem find?_setFirst_same (ha : p a = true) {b : α} (hb : l.find? p = some b) : (setFirst p a l).find? p = some a := by
  induction l with
  | nil => cases hb
  | cons c l ih =>
    rw [setFirst]
    split_ifs with hc
    · rw [List.find?_cons_of_pos ha]
    · rw [List.find?_cons_of_neg hc] at hb ⊢
      exact ih hb

theorem find?_setFirst_other (ha : q a = false) (hpq : ∀ b, p b = true → q b = false) :
    (setFirst p a l).find? q = l.find? q := by
  induction l with
  | nil => rfl
  | cons c l ih =>
    rw [setFirst]
    split_ifs with hc
    · rw [List.find?_cons_of_neg (by simp [ha]), List.find?_cons_of_neg (by simp [hpq c hc])]
    · rw [List.find?_cons, List.find?_cons, ih]

theorem find?_map_key {f : String → α} {name : α → String} (hname : ∀ s, name (f s) = s) {keys : List String} {t : String}
    (ht : t ∈ keys) : (keys.map f).find? (fun a => name a == t) = some (f t) := by
  induction keys with
  | nil => cases ht
  | cons key keys ih =>
    rw [List.map_cons]
    by_cases hkey : key = t
    · rw [List.find?_cons_of_pos (by rw [hname, hkey, beq_self_eq_true]), hkey]
    · rw [List.find?_cons_of_neg (by rw [hname, beq_iff_eq]; exact hkey)]
      exact ih ((List.mem_cons.mp ht).resolve_left (Ne.symm hkey))

end Lists

section Parsing

variable {bits : ℕ} {tree : Option Nodes}

theorem parseDeviceXml_unique {info info' device device' : DeviceManifest}
    (h : parseDeviceXml bits tree info = some (true, device)) (h' : parseDeviceXml bits tree info' = some (true, device')) :
    info.type = info'.type := by
  unfold parseDeviceXml at h h'
  split at h
  · cases h
  · split at h
    · cases h
    · rename_i tree node hnode
      simp only [hnode] at h'
      split_ifs at h with h1
      · cases h
      · split_ifs at h' with h2
        · cases h'
        · rw [ne_eq, not_not] at h1 h2
          exact Option.some.inj (h1.symm.trans h2)

theorem parseUpdateXml_unique {info info' update update' : UpdateInfo}
    (h : parseUpdateXml bits tree info = some (true, update)) (h' : parseUpdateXml bits tree info' = some (true, update')) :
    info.devtype = info'.devtype := by
  unfold parseUpdateXml at h h'
  split at h
  · cases h
  · split at h
    · cases h
    · rename_i tree node hnode
      simp only [hnode] at h'
      split at h
      · cases h
      · rename_i devctl hdevctl
        simp only [hdevctl] at h'
        dsimp only at h
        split_ifs at h with h1
        · cases h
        · split_ifs at h' with h2
          · cases h'
          · rw [ne_eq, not_not] at h1 h2
            exact Option.some.inj (h1.symm.trans h2)

theorem countValue_counts {element : String} {nodes : Nodes} {node : Found} {old : UInt32}
    (h : old = 0 ∨ Counts element (some nodes)) (hnode : findElement nodes element = some node) :
    countValue bits node old = countValue bits node 0 := by
  unfold countValue
  split
  · rfl
  · rename_i hcount
    rcases h with h | h
    · exact h
    · exact absurd hcount (h nodes node rfl hnode)

theorem parseDeviceXml_unused {info : DeviceManifest} (hlist : info.list = [])
    (hcount : info.partCount = 0 ∨ Counts "partition" tree) (device : DeviceManifest) :
    parseDeviceXml bits tree info = some (true, device) ↔
      parseDeviceXml bits tree (blankDevice info.type) = some (true, device) := by
  unfold parseDeviceXml blankDevice
  cases tree with
  | none => simp
  | some nodes =>
    dsimp only
    cases findElement nodes "device" with
    | none => simp
    | some node =>
      dsimp only
      split_ifs
      · simp
      · cases elementGetAttr node "capacity" with
        | none => simp
        | some capacity =>
          dsimp only
          cases hpartition : findElement nodes "partition" with
          | none => simp
          | some partition =>
            dsimp only
            rw [countValue_counts hcount hpartition, hlist]

theorem parseUpdateXml_unused {info : UpdateInfo} (hlist : info.list = [])
    (hcount : info.imageCount = 0 ∨ Counts "imagelist" tree) (update : UpdateInfo) :
    parseUpdateXml bits tree info = some (true, update) ↔
      parseUpdateXml bits tree (blankUpdate info.devtype) = some (true, update) := by
  unfold parseUpdateXml blankUpdate
  cases tree with
  | none => simp
  | some nodes =>
    dsimp only
    cases findElement nodes "update" with
    | none => simp
    | some node =>
      dsimp only
      cases elementGetAttr node "devcontrol" with
      | none => simp
      | some devctl =>
        dsimp only
        split_ifs
        · simp
        · cases himagelist : findElement nodes "imagelist" with
          | none => simp
          | some imagelist =>
            dsimp only
            rw [countValue_counts hcount himagelist, hlist]

theorem parseDeviceXml_type {info device : DeviceManifest} {ok : Bool}
    (h : parseDeviceXml bits tree info = some (ok, device)) : device.type = info.type := by
  unfold parseDeviceXml at h
  split at h
  · cases h
    rfl
  · split at h
    · cases h
      rfl
    · split_ifs at h
      · cases h
        rfl
      · split at h
        · cases h
          rfl
        · dsimp only at h
          split at h
          · cases h
            rfl
          · obtain ⟨items, -, hitems⟩ := Option.map_eq_some_iff.mp h
            split_ifs at hitems <;> cases hitems <;> rfl

theorem parseUpdateXml_devtype {info update : UpdateInfo} {ok : Bool}
    (h : parseUpdateXml bits tree info = some (ok, update)) : update.devtype = info.devtype := by
  unfold parseUpdateXml at h
  split at h
  · cases h
    rfl
  · split at h
    · cases h
      rfl
    · split at h
      · cases h
        rfl
      · dsimp only at h
        split_ifs at h
        · cases h
          rfl
        · split at h
          · cases h
            rfl
          · obtain ⟨images, -, himages⟩ := Option.map_eq_some_iff.mp h
            split_ifs at himages <;> cases himages <;> rfl

end Parsing

section Check

variable {fuel bits : ℕ} {mtd : MtdInfo} {dir : DeviceDir} {unzipDir left : Manifests} {record record' : DeviceRecord}
  {device device' : DeviceManifest} {update update' : UpdateInfo} {t : String} {before : List String}

def overlay (dir : DeviceDir) (unzipDir : Manifests) : Manifests :=
  ⟨dir.manifests.deviceXml.or unzipDir.deviceXml, dir.manifests.updateXml.or unzipDir.updateXml⟩

theorem parseManifests_types {ok : Bool}
    (h : parseManifests bits mtd dir unzipDir device update = some (ok, left, device', update')) :
    device'.type = device.type ∧ update'.devtype = update.devtype := by
  unfold parseManifests at h
  split_ifs at h
  · cases h
    exact ⟨rfl, rfl⟩
  · cases h
    exact ⟨rfl, rfl⟩
  · dsimp only at h
    split at h
    · cases h
      exact ⟨rfl, rfl⟩
    · split at h
      · cases h
      · rename_i hdevice
        cases h
        exact ⟨parseDeviceXml_type hdevice, rfl⟩
      · rename_i hdevice
        have htype := parseDeviceXml_type hdevice
        split at h
        · cases h
        · split_ifs at h
          · cases h
            exact ⟨htype, rfl⟩
          · split at h
            · cases h
              exact ⟨htype, rfl⟩
            · split at h
              · cases h
              · rename_i hupdate
                cases h
                exact ⟨htype, parseUpdateXml_devtype hupdate⟩

structure Reads (bits : ℕ) (mtd : MtdInfo) (dir : DeviceDir) (unzipDir : Manifests) (device : DeviceManifest)
    (update : UpdateInfo) (device' : DeviceManifest) (update' : UpdateInfo) : Prop where
  verified : dir.verified = true
  unzipped : dir.unzipped = true
  device : ∃ tree, (overlay dir unzipDir).deviceXml = some tree ∧ parseDeviceXml bits tree device = some (true, device')
  checked : ∃ r, checkDeviceInfo mtd device' = some r ∧ 0 ≤ r
  update : ∃ tree, (overlay dir unzipDir).updateXml = some tree ∧ parseUpdateXml bits tree update = some (true, update')

theorem parseManifests_iff :
    parseManifests bits mtd dir unzipDir device update = some (true, left, device', update') ↔
      left = overlay dir unzipDir ∧ Reads bits mtd dir unzipDir device update device' update' := by
  constructor
  · intro h
    unfold parseManifests at h
    split_ifs at h with hverified hunzipped
    · cases h
    · cases h
    · dsimp only at h
      split at h
      · cases h
      · rename_i deviceTree hdeviceTree
        split at h
        · cases h
        · cases h
        · rename_i hdevice
          split at h
          · cases h
          · rename_i r hr
            split_ifs at h with hneg
            · cases h
            · split at h
              · cases h
              · rename_i updateTree hupdateTree
                split at h
                · cases h
                · rename_i hupdate
                  cases h
                  exact ⟨rfl, by simpa using hverified, by simpa using hunzipped, ⟨_, hdeviceTree, hdevice⟩,
                    ⟨r, hr, not_lt.mp hneg⟩, ⟨_, hupdateTree, hupdate⟩⟩
  · rintro ⟨rfl, hverified, hunzipped, ⟨deviceTree, hdeviceTree, hdevice⟩, ⟨r, hr, hpos⟩, ⟨updateTree, hupdateTree, hupdate⟩⟩
    unfold overlay at hdeviceTree hupdateTree
    dsimp only at hdeviceTree hupdateTree
    unfold parseManifests overlay
    simp only [hverified, hunzipped, Bool.true_eq_false, if_false, hdeviceTree, hdevice, hr, not_lt.mpr hpos, hupdateTree,
      hupdate]

theorem checkDeviceUpdateInfo_iff :
    checkDeviceUpdateInfo fuel bits mtd dir unzipDir record update = some (true, left, record', update') ↔
      left = overlay dir unzipDir ∧ Reads bits mtd dir unzipDir record.info update record'.info update' ∧
        mergeAndDump fuel record'.info.list (imageInfos update') (mergeStart record update) =
          some (true, record'.merge) := by
  unfold checkDeviceUpdateInfo
  constructor
  · intro h
    split at h
    · cases h
    · cases h
    · rename_i hmanifests
      obtain ⟨hleft, hreads⟩ := parseManifests_iff.mp hmanifests
      split at h
      · cases h
      · rename_i hmerge
        cases h
        exact ⟨hleft, hreads, hmerge⟩
  · rintro ⟨hleft, hreads, hmerge⟩
    rw [parseManifests_iff.mpr ⟨hleft, hreads⟩]
    dsimp only
    rw [hmerge]

theorem checkDeviceUpdateInfo_types {ok : Bool}
    (h : checkDeviceUpdateInfo fuel bits mtd dir unzipDir record update = some (ok, left, record', update')) :
    record'.info.type = record.info.type ∧ update'.devtype = update.devtype := by
  unfold checkDeviceUpdateInfo at h
  split at h
  · cases h
  · rename_i hmanifests
    cases h
    exact parseManifests_types hmanifests
  · rename_i hmanifests
    split at h
    · cases h
    · cases h
      exact parseManifests_types hmanifests

/-- For the package of `t` nothing is in the way of its own manifests; what else lies in the unzip
directory was read as a manifest of a type `before` it. -/
structure Clear (bits : ℕ) (mtd : MtdInfo) (before : List String) (dir : DeviceDir) (unzipDir : Manifests)
    (record : DeviceRecord) (update : UpdateInfo) (t : String) : Prop where
  type : record.info.type = t
  devtype : update.devtype = t
  first : t ∉ before
  device : ∀ tree, dir.manifests.deviceXml = some tree →
    record.info.list = [] ∧ (record.info.partCount = 0 ∨ Counts "partition" tree)
  update : ∀ device tree, DevicePasses bits mtd dir t device → dir.manifests.updateXml = some tree →
    update.list = [] ∧ (update.imageCount = 0 ∨ Counts "imagelist" tree)
  deviceXml : dir.manifests.deviceXml = none → ∀ tree, unzipDir.deviceXml = some tree →
    ∃ info device, info.type ∈ before ∧ parseDeviceXml bits tree info = some (true, device)
  updateXml : ∀ device, DevicePasses bits mtd dir t device → dir.manifests.updateXml = none →
    ∀ tree, unzipDir.updateXml = some tree →
      ∃ info update, info.devtype ∈ before ∧ parseUpdateXml bits tree info = some (true, update)

theorem Clear.own (h : Clear bits mtd before dir unzipDir record update t)
    (hreads : Reads bits mtd dir unzipDir record.info update device' update') :
    DevicePasses bits mtd dir t device' ∧ UpdatePasses bits dir t update' ∧ overlay dir unzipDir = dir.manifests ∧
      mergeStart record update = zeroed := by
  obtain ⟨deviceTree, hdeviceTree, hdevice⟩ := hreads.device
  obtain ⟨updateTree, hupdateTree, hupdate⟩ := hreads.update
  obtain ⟨r, hr, hpos⟩ := hreads.checked
  have hownDevice : dir.manifests.deviceXml = some deviceTree := by
    rcases Option.or_eq_some_iff.mp hdeviceTree with hown | ⟨hnone, hleft⟩
    · exact hown
    · obtain ⟨info, device₂, hinfo, hparse⟩ := h.deviceXml hnone deviceTree hleft
      rw [parseDeviceXml_unique hparse hdevice, h.type] at hinfo
      exact absurd hinfo h.first
  obtain ⟨hlist, hcount⟩ := h.device deviceTree hownDevice
  rw [parseDeviceXml_unused hlist hcount, h.type] at hdevice
  have hpasses : DevicePasses bits mtd dir t device' := ⟨deviceTree, r, hownDevice, hdevice, hr, hpos⟩
  have hownUpdate : dir.manifests.updateXml = some updateTree := by
    rcases Option.or_eq_some_iff.mp hupdateTree with hown | ⟨hnone, hleft⟩
    · exact hown
    · obtain ⟨info, update₂, hinfo, hparse⟩ := h.updateXml device' hpasses hnone updateTree hleft
      rw [parseUpdateXml_unique hparse hupdate, h.devtype] at hinfo
      exact absurd hinfo h.first
  obtain ⟨hulist, hucount⟩ := h.update device' updateTree hpasses hownUpdate
  rw [parseUpdateXml_unused hulist hucount, h.devtype] at hupdate
  refine ⟨hpasses, ⟨updateTree, hownUpdate, hupdate⟩, ?_, if_pos hlist⟩
  rw [overlay, hownDevice, hownUpdate, Option.some_or, Option.some_or, ← hownDevice, ← hownUpdate]

theorem Clear.reads (h : Clear bits mtd before dir unzipDir record update t) (hverified : dir.verified = true)
    (hunzipped : dir.unzipped = true) (hdevice : DevicePasses bits mtd dir t device')
    (hupdate : UpdatePasses bits dir t update') : Reads bits mtd dir unzipDir record.info update device' update' := by
  obtain ⟨updateTree, hownUpdate, hparse'⟩ := hupdate
  obtain ⟨hulist, hucount⟩ := h.update device' updateTree hdevice hownUpdate
  obtain ⟨deviceTree, r, hownDevice, hparse, hr, hpos⟩ := hdevice
  obtain ⟨hlist, hcount⟩ := h.device deviceTree hownDevice
  refine ⟨hverified, hunzipped, ⟨deviceTree, ?_, ?_⟩, ⟨r, hr, hpos⟩, ⟨updateTree, ?_, ?_⟩⟩
  · rw [overlay, hownDevice, Option.some_or]
  · rwa [parseDeviceXml_unused hlist hcount, h.type]
  · rw [overlay, hownUpdate, Option.some_or]
  · rwa [parseUpdateXml_unused hulist hucount, h.devtype]

end Check

section Examine

variable {fuel bits : ℕ} {mtd : MtdInfo} {v : Volume} {st st' st₀ : SearchState} {t u : String} {before : List String}

theorem get_set_same (unzipDir : Manifests) {device old : DeviceRecord} {update oldUpdate : UpdateInfo}
    (hdevice : device.info.type = t) (hupdate : update.devtype = t) (hold : getDeviceInfoByDevtype st t = some old)
    (hold' : getUpdateInfoByDevtype st t = some oldUpdate) :
    getDeviceInfoByDevtype (st.set t unzipDir device update) t = some device ∧
      getUpdateInfoByDevtype (st.set t unzipDir device update) t = some update :=
  ⟨find?_setFirst_same (by simp [hdevice]) hold, find?_setFirst_same (by simp [hupdate]) hold'⟩

theorem get_set_other (st : SearchState) (unzipDir : Manifests) {device : DeviceRecord} {update : UpdateInfo}
    (hdevice : device.info.type = t) (hupdate : update.devtype = t) (hne : u ≠ t) :
    getDeviceInfoByDevtype (st.set t unzipDir device update) u = getDeviceInfoByDevtype st u ∧
      getUpdateInfoByDevtype (st.set t unzipDir device update) u = getUpdateInfoByDevtype st u := by
  constructor
  · apply find?_setFirst_other
    · simp [hdevice, hne.symm]
    · intro b hb
      rw [beq_iff_eq] at hb
      simp [hb, hne.symm]
  · apply find?_setFirst_other
    · simp [hupdate, hne.symm]
    · intro b hb
      rw [beq_iff_eq] at hb
      simp [hb, hne.symm]

theorem get_type {record : DeviceRecord} (h : getDeviceInfoByDevtype st t = some record) : record.info.type = t := by
  simpa using List.find?_some h

theorem get_devtype {update : UpdateInfo} (h : getUpdateInfoByDevtype st t = some update) : update.devtype = t := by
  simpa using List.find?_some h

theorem examineType_iff : examineType fuel bits mtd v t st = some (true, st') ↔
    ∃ record update dir left record' update', getDeviceInfoByDevtype st t = some record ∧
      getUpdateInfoByDevtype st t = some update ∧ v.deviceDir t = some dir ∧
      checkDeviceUpdateInfo fuel bits mtd dir st.unzipDir record update = some (true, left, record', update') ∧
      chunkTotal update' = dir.pkgCount - 1 ∧ st' = st.set t left record' update' := by
  constructor
  · intro h
    unfold examineType at h
    split at h
    · rename_i record update hrecord hupdate
      split at h
      · cases h
      · rename_i dir hdir
        split at h
        · cases h
        · rename_i ok left record' update' hcheck
          dsimp only at h
          split_ifs at h with hok hcount
          · cases h
          · cases h
          · cases h
            rw [Bool.not_eq_false] at hok
            subst hok
            exact ⟨record, update, dir, left, record', update', hrecord, hupdate, hdir, hcheck, not_not.mp hcount, rfl⟩
    · cases h
  · rintro ⟨record, update, dir, left, record', update', hrecord, hupdate, hdir, hcheck, hcount, rfl⟩
    unfold examineType
    simp only [hrecord, hupdate, hdir, hcheck, Bool.true_eq_false, if_false, hcount, ne_eq, not_true_eq_false]

theorem examineType_frame {ok : Bool} (h : examineType fuel bits mtd v t st = some (ok, st')) (hne : u ≠ t) :
    getDeviceInfoByDevtype st' u = getDeviceInfoByDevtype st u ∧
      getUpdateInfoByDevtype st' u = getUpdateInfoByDevtype st u := by
  unfold examineType at h
  split at h
  · rename_i record update hrecord hupdate
    split at h
    · cases h
      exact ⟨rfl, rfl⟩
    · split at h
      · cases h
      · rename_i hcheck
        obtain ⟨htype, hdevtype⟩ := checkDeviceUpdateInfo_types hcheck
        rw [get_type hrecord] at htype
        rw [get_devtype hupdate] at hdevtype
        dsimp only at h
        split_ifs at h <;> cases h <;> exact get_set_other st _ htype hdevtype hne
  · cases h
    exact ⟨rfl, rfl⟩

theorem examineTypes_frame {devtypes : List String} {ok : Bool}
    (h : examineTypes fuel bits mtd v devtypes st = some (ok, st')) (hu : u ∉ devtypes) :
    getDeviceInfoByDevtype st' u = getDeviceInfoByDevtype st u ∧
      getUpdateInfoByDevtype st' u = getUpdateInfoByDevtype st u := by
  induction devtypes generalizing st with
  | nil =>
    rw [examineTypes] at h
    split_ifs at h
    cases h
    exact ⟨rfl, rfl⟩
  | cons t devtypes ih =>
    rw [List.mem_cons, not_or] at hu
    rw [examineTypes] at h
    split at h
    · cases h
    · rename_i hturn
      cases h
      exact examineType_frame hturn hu.1
    · rename_i hturn
      obtain ⟨h1, h2⟩ := examineType_frame hturn hu.1
      obtain ⟨g1, g2⟩ := ih h hu.2
      exact ⟨g1.trans h1, g2.trans h2⟩

def HoldsLast (bits : ℕ) (before : List String) (unzipDir : Manifests) : Prop :=
  ∃ t deviceTree updateTree device update, t ∈ before ∧ unzipDir = ⟨some deviceTree, some updateTree⟩ ∧
    parseDeviceXml bits deviceTree (blankDevice t) = some (true, device) ∧
    parseUpdateXml bits updateTree (blankUpdate t) = some (true, update)

/-- How the loop over the types changes the state `st₀` in which it begins, while the types pass. -/
structure Along (bits : ℕ) (st₀ : SearchState) (before : List String) (st : SearchState) : Prop where
  types : st.deviceTypeList = st₀.deviceTypeList
  device : ∀ t ∉ before, getDeviceInfoByDevtype st t = getDeviceInfoByDevtype st₀ t
  update : ∀ t ∉ before, getUpdateInfoByDevtype st t = getUpdateInfoByDevtype st₀ t
  unzip : before = [] ∧ st.unzipDir = st₀.unzipDir ∨ HoldsLast bits before st.unzipDir

theorem Along.clear (h : Along bits st₀ before st) (hclean : Untainted bits mtd st₀ v) (hcomes : Comes bits mtd v before t)
    {dir : DeviceDir} (hdir : Unpacks v t dir) {record : DeviceRecord} {update : UpdateInfo}
    (hrecord : getDeviceInfoByDevtype st t = some record) (hupdate : getUpdateInfoByDevtype st t = some update) :
    Clear bits mtd before dir st.unzipDir record update t := by
  have hfirst := hclean.distinct before t hcomes
  constructor
  · exact get_type hrecord
  · exact get_devtype hupdate
  · exact hfirst
  · intro tree htree
    rw [h.device t hfirst] at hrecord
    exact hclean.devices before t dir tree record hcomes hdir htree hrecord
  · intro device tree hdevice htree
    rw [h.update t hfirst] at hupdate
    exact hclean.updates before t dir device tree update hcomes hdir hdevice htree hupdate
  · intro hnone tree htree
    rcases h.unzip with ⟨rfl, hstart⟩ | ⟨u, deviceTree, updateTree, device, update', hu, hlast, hparse, -⟩
    · rw [hstart, hclean.deviceXml t dir hcomes hdir hnone] at htree
      cases htree
    · rw [hlast] at htree
      cases htree
      exact ⟨_, device, hu, hparse⟩
  · intro device hdevice hnone tree htree
    rcases h.unzip with ⟨rfl, hstart⟩ | ⟨u, deviceTree, updateTree, device', update', hu, hlast, -, hparse⟩
    · rw [hstart, hclean.updateXml t dir device hcomes hdir hdevice hnone] at htree
      cases htree
    · rw [hlast] at htree
      cases htree
      exact ⟨_, update', hu, hparse⟩

theorem Along.step (h : Along bits st₀ before st) {dir : DeviceDir} {record : DeviceRecord} {update : UpdateInfo}
    (hdevice : DevicePasses bits mtd dir t record.info) (hupdate : UpdatePasses bits dir t update) :
    Along bits st₀ (before ++ [t]) (st.set t dir.manifests record update) := by
  obtain ⟨deviceTree, r, hdeviceTree, hparse, -, -⟩ := hdevice
  obtain ⟨updateTree, hupdateTree, hparse'⟩ := hupdate
  have htype : record.info.type = t := parseDeviceXml_type hparse
  have hdevtype : update.devtype = t := parseUpdateXml_devtype hparse'
  have hother : ∀ u ∉ before ++ [t], u ∉ before ∧ u ≠ t := by
    intro u hu
    rwa [List.mem_append, List.mem_singleton, not_or] at hu
  constructor
  · exact h.types
  · intro u hu
    rw [(get_set_other st _ htype hdevtype (hother u hu).2).1]
    exact h.device u (hother u hu).1
  · intro u hu
    rw [(get_set_other st _ htype hdevtype (hother u hu).2).2]
    exact h.update u (hother u hu).1
  · refine Or.inr ⟨t, deviceTree, updateTree, record.info, update, by simp, ?_, hparse, hparse'⟩
    show dir.manifests = _
    rw [← hdeviceTree, ← hupdateTree]

theorem examineType_passes (h : Along bits st₀ before st) (hclean : Untainted bits mtd st₀ v)
    (hcomes : Comes bits mtd v before t) (hturn : examineType fuel bits mtd v t st = some (true, st')) :
    TypePasses bits mtd v t ∧ HoldsOwn bits v st' t ∧ Along bits st₀ (before ++ [t]) st' := by
  obtain ⟨record, update, dir, left, record', update', hrecord, hupdate, hdir, hcheck, hcount, rfl⟩ :=
    examineType_iff.mp hturn
  obtain ⟨hleft, hreads, hmerge⟩ := checkDeviceUpdateInfo_iff.mp hcheck
  have hclear := h.clear hclean hcomes ⟨hdir, hreads.verified, hreads.unzipped⟩ hrecord hupdate
  obtain ⟨hdevice, hupdate', hown, hstart⟩ := hclear.own hreads
  rw [hstart] at hmerge
  rw [hown] at hleft
  subst hleft
  refine ⟨⟨dir, record'.info, update', hdir, hreads.verified, hreads.unzipped, hdevice, hupdate', ⟨fuel, _, hmerge⟩, hcount⟩,
    ?_, h.step hdevice hupdate'⟩
  obtain ⟨deviceTree, r, hdeviceTree, hparse, -, -⟩ := hdevice
  obtain ⟨updateTree, hupdateTree, hparse'⟩ := hupdate'
  obtain ⟨hset, hset'⟩ := get_set_same dir.manifests (parseDeviceXml_type hparse) (parseUpdateXml_devtype hparse') hrecord
    hupdate
  refine ⟨dir, deviceTree, updateTree, record', update', hdir, ?_, hparse, hparse', hset, hset'⟩
  rw [← hdeviceTree, ← hupdateTree]

theorem examineType_of_passes (h : Along bits st₀ before st) (hclean : Untainted bits mtd st₀ v)
    (hcomes : Comes bits mtd v before t) (hrecord : (getDeviceInfoByDevtype st₀ t).isSome = true)
    (hupdate : (getUpdateInfoByDevtype st₀ t).isSome = true) (hpasses : TypePasses bits mtd v t) :
    ∃ fuel st', examineType fuel bits mtd v t st = some (true, st') := by
  have hfirst := hclean.distinct before t hcomes
  rw [← h.device t hfirst] at hrecord
  rw [← h.update t hfirst] at hupdate
  obtain ⟨record, hrecord⟩ := Option.isSome_iff_exists.mp hrecord
  obtain ⟨update, hupdate⟩ := Option.isSome_iff_exists.mp hupdate
  obtain ⟨dir, device, update', hdir, hown⟩ := hpasses
  obtain ⟨fuel, merge, hmerge⟩ := hown.merged
  have hclear := h.clear hclean hcomes ⟨hdir, hown.verified, hown.unzipped⟩ hrecord hupdate
  have hreads := hclear.reads hown.verified hown.unzipped hown.ownDevice hown.ownUpdate
  obtain ⟨-, -, -, hstart⟩ := hclear.own hreads
  rw [← hstart] at hmerge
  exact ⟨fuel, _, examineType_iff.mpr ⟨record, update, dir, _, ⟨device, merge⟩, update', hrecord, hupdate, hdir,
    checkDeviceUpdateInfo_iff.mpr ⟨rfl, hreads, hmerge⟩, hown.counted, rfl⟩⟩

theorem examineTypes_passes {devtypes : List String} (hregisters : Registers v (before ++ devtypes))
    (hbefore : ∀ u ∈ before, TypePasses bits mtd v u) (h : Along bits st₀ before st) (hclean : Untainted bits mtd st₀ v)
    (hresult : examineTypes fuel bits mtd v devtypes st = some (true, st')) :
    (∀ t ∈ devtypes, TypePasses bits mtd v t ∧ t ∉ before ∧ HoldsOwn bits v st' t) ∧
      st₀.deviceTypeList.length ≠ supportedDeviceType.length := by
  induction devtypes generalizing before st with
  | nil =>
    rw [examineTypes] at hresult
    split_ifs at hresult with hfull
    rw [h.types] at hfull
    exact ⟨by simp, hfull⟩
  | cons t devtypes ih =>
    have hcomes : Comes bits mtd v before t := ⟨⟨devtypes, hregisters⟩, hbefore⟩
    rw [examineTypes] at hresult
    split at hresult
    · cases hresult
    · cases hresult
    · rename_i st₁ hturn
      obtain ⟨hpasses, hholds, halong⟩ := examineType_passes h hclean hcomes hturn
      have hregisters' : Registers v ((before ++ [t]) ++ devtypes) := by
        rwa [List.append_assoc, List.singleton_append]
      have hbefore' : ∀ u ∈ before ++ [t], TypePasses bits mtd v u := by
        intro u hu
        rcases List.mem_append.mp hu with hu | hu
        · exact hbefore u hu
        · rwa [List.mem_singleton.mp hu]
      obtain ⟨hrest, hlength⟩ := ih hregisters' hbefore' halong hresult
      have hlater : t ∉ devtypes := fun ht => (hrest t ht).2.1 (by simp)
      refine ⟨fun u hu => ?_, hlength⟩
      rcases List.mem_cons.mp hu with rfl | hu
      · obtain ⟨dir, deviceTree, updateTree, record, update, hdir, hown, hparse, hparse', hget, hget'⟩ := hholds
        obtain ⟨hframe, hframe'⟩ := examineTypes_frame hresult hlater
        exact ⟨hpasses, hclean.distinct before u hcomes, dir, deviceTree, updateTree, record, update, hdir, hown, hparse,
          hparse', hframe.trans hget, hframe'.trans hget'⟩
      · obtain ⟨hup, hub, huh⟩ := hrest u hu
        exact ⟨hup, fun hb => hub (List.mem_append_left _ hb), huh⟩

theorem examineTypes_of_passes {devtypes : List String} (hregisters : Registers v (before ++ devtypes))
    (hbefore : ∀ u ∈ before, TypePasses bits mtd v u) (h : Along bits st₀ before st) (hclean : Untainted bits mtd st₀ v)
    (hrecords : ∀ t ∈ devtypes, (getDeviceInfoByDevtype st₀ t).isSome = true ∧ (getUpdateInfoByDevtype st₀ t).isSome = true)
    (hpasses : ∀ t ∈ devtypes, TypePasses bits mtd v t)
    (hlength : st₀.deviceTypeList.length ≠ supportedDeviceType.length) :
    ∃ fuel st', examineTypes fuel bits mtd v devtypes st = some (true, st') := by
  induction devtypes generalizing before st with
  | nil =>
    refine ⟨0, st, ?_⟩
    rw [examineTypes, h.types, if_neg hlength]
  | cons t devtypes ih =>
    have hcomes : Comes bits mtd v before t := ⟨⟨devtypes, hregisters⟩, hbefore⟩
    obtain ⟨hrecord, hupdate⟩ := hrecords t List.mem_cons_self
    have hpass := hpasses t List.mem_cons_self
    obtain ⟨fuel, st₁, hturn⟩ := examineType_of_passes h hclean hcomes hrecord hupdate hpass
    obtain ⟨-, -, halong⟩ := examineType_passes h hclean hcomes hturn
    have hregisters' : Registers v ((before ++ [t]) ++ devtypes) := by
      rwa [List.append_assoc, List.singleton_append]
    have hbefore' : ∀ u ∈ before ++ [t], TypePasses bits mtd v u := by
      intro u hu
      rcases List.mem_append.mp hu with hu | hu
      · exact hbefore u hu
      · rwa [List.mem_singleton.mp hu]
    obtain ⟨fuel', st', hrest⟩ := ih hregisters' hbefore' halong (fun u hu => hrecords u (List.mem_cons_of_mem t hu))
      (fun u hu => hpasses u (List.mem_cons_of_mem t hu))
    refine ⟨max fuel fuel', st', ?_⟩
    rw [examineTypes, examineType_mono (le_max_left fuel fuel') hturn]
    exact examineTypes_mono (le_max_right fuel fuel') hrest

end Examine

section Search

variable {fuel bits : ℕ} {mtd : MtdInfo} {v : Volume} {st st' : SearchState} {types : List String}

def SearchState.register (types : List String) (st : SearchState) : SearchState where
  deviceTypeList := st.deviceTypeList ++ types
  deviceList := st.deviceList ++ types.map registered
  updateList := st.updateList ++ types.map blankUpdate
  unzipDir := st.unzipDir

theorem registerDevices_iff {nodes : List Found} (hfits : st.deviceTypeList.length ≤ supportedDeviceType.length) :
    registerDevices nodes st = some (true, st') ↔ ∃ types, nodes.map getOpaque = types.map some ∧
      (∀ t ∈ types, t ∈ supportedDeviceType) ∧
      st.deviceTypeList.length + types.length ≤ supportedDeviceType.length ∧ st' = st.register types := by
  induction nodes generalizing st with
  | nil =>
    constructor
    · intro h
      cases h
      exact ⟨[], rfl, by simp, by simpa using hfits, by simp [SearchState.register]⟩
    · rintro ⟨types, hmap, -, -, rfl⟩
      rw [List.map_nil, eq_comm, List.map_eq_nil_iff] at hmap
      subst hmap
      simp [registerDevices, SearchState.register]
  | cons node nodes ih =>
    rw [registerDevices]
    cases hnode : getOpaque node with
    | none =>
      constructor
      · intro h
        cases h
      · rintro ⟨types, hmap, -⟩
        rw [List.map_cons, hnode] at hmap
        cases types <;> cases hmap
    | some devtype =>
      dsimp only
      split_ifs with hsupported hfull
      · constructor
        · exact False.elim
        · rintro ⟨types, hmap, -, hlength, -⟩
          have := congrArg List.length hmap
          rw [List.length_map, List.length_map, List.length_cons] at this
          omega
      · have hroom : st.deviceTypeList.length < supportedDeviceType.length := lt_of_le_of_ne hfits hfull
        rw [ih (by rw [List.length_append, List.length_singleton]; exact hroom)]
        constructor
        · rintro ⟨types, hmap, hall, hlength, rfl⟩
          refine ⟨devtype :: types, ?_, ?_, ?_, ?_⟩
          · rw [List.map_cons, hnode, hmap, List.map_cons]
          · exact List.forall_mem_cons.mpr ⟨hsupported, hall⟩
          · rw [List.length_append, List.length_singleton] at hlength
            rw [List.length_cons]
            omega
          · simp [SearchState.register]
        · rintro ⟨types, hmap, hall, hlength, rfl⟩
          rw [List.map_cons, hnode] at hmap
          cases types with
          | nil => cases hmap
          | cons t types =>
            rw [List.map_cons, List.cons.injEq, Option.some.injEq] at hmap
            obtain ⟨rfl, hmap⟩ := hmap
            refine ⟨types, hmap, (List.forall_mem_cons.mp hall).2, ?_, ?_⟩
            · rw [List.length_cons] at hlength
              rw [List.length_append, List.length_singleton]
              omega
            · simp [SearchState.register]
      · constructor
        · intro h
          cases h
        · rintro ⟨types, hmap, hall, -⟩
          rw [List.map_cons, hnode] at hmap
          cases types with
          | nil => cases hmap
          | cons t types =>
            rw [List.map_cons, List.cons.injEq, Option.some.injEq] at hmap
            exact absurd (hmap.1 ▸ hall t List.mem_cons_self) hsupported

def SearchState.start (st : SearchState) (types : List String) : SearchState :=
  { st with deviceTypeList := [] }.register types

theorem examine_iff : examine fuel bits mtd v st = some (true, st') ↔
    ∃ types, Registers v types ∧ examineTypes fuel bits mtd v types (st.start types) = some (true, st') := by
  have hzero : ({ st with deviceTypeList := [] } : SearchState).deviceTypeList.length ≤ supportedDeviceType.length :=
    Nat.zero_le _
  unfold examine
  constructor
  · intro h
    split_ifs at h with hdir
    · cases h
    · split at h
      · cases h
      · rename_i tree htree
        split at h
        · cases h
        · cases h
        · rename_i st₁ hparse
          unfold parseGlobalXml at hparse
          split at hparse
          · cases hparse
          · split at hparse
            · cases hparse
            · rename_i nodes _ node hnode
              obtain ⟨types, hmap, hall, hlength, rfl⟩ := (registerDevices_iff hzero).mp hparse
              refine ⟨types, ⟨by simpa using hdir, ⟨nodes, htree, ?_, hmap⟩, hall, by simpa using hlength⟩, ?_⟩
              · rw [hnode]
                rfl
              · simpa [SearchState.register, SearchState.start] using h
  · rintro ⟨types, ⟨hdir, ⟨nodes, htree, hglobal, hmap⟩, hall, hlength⟩, h⟩
    obtain ⟨node, hnode⟩ := Option.isSome_iff_exists.mp hglobal
    have hparse : parseGlobalXml (some nodes) st = some (true, st.start types) := by
      unfold parseGlobalXml
      simp only [hnode]
      exact (registerDevices_iff hzero).mpr ⟨types, hmap, hall, by simpa using hlength, rfl⟩
    rw [if_neg (by simp [hdir]), htree]
    simp only [hparse]
    simpa [SearchState.register, SearchState.start] using h

theorem start_device (st : SearchState) (types : List String) (t : String) :
    getDeviceInfoByDevtype (st.start types) t =
      (getDeviceInfoByDevtype st t).or ((types.map registered).find? (fun record => record.info.type == t)) :=
  List.find?_append

theorem start_update (st : SearchState) (types : List String) (t : String) :
    getUpdateInfoByDevtype (st.start types) t =
      (getUpdateInfoByDevtype st t).or ((types.map blankUpdate).find? (fun info => info.devtype == t)) :=
  List.find?_append

theorem Untainted.start (h : Untainted bits mtd st v) (types : List String) :
    Untainted bits mtd (st.start types) v := by
  constructor
  · exact h.distinct
  · intro before t dir tree record hcomes hdir htree hrecord
    rw [start_device] at hrecord
    rcases Option.or_eq_some_iff.mp hrecord with hold | ⟨-, hnew⟩
    · exact h.devices before t dir tree record hcomes hdir htree hold
    · obtain ⟨u, -, rfl⟩ := List.mem_map.mp (List.mem_of_find?_eq_some hnew)
      exact ⟨rfl, Or.inl rfl⟩
  · intro before t dir device tree info hcomes hdir hdevice htree hinfo
    rw [start_update] at hinfo
    rcases Option.or_eq_some_iff.mp hinfo with hold | ⟨-, hnew⟩
    · exact h.updates before t dir device tree info hcomes hdir hdevice htree hold
    · obtain ⟨u, -, rfl⟩ := List.mem_map.mp (List.mem_of_find?_eq_some hnew)
      exact ⟨rfl, Or.inl rfl⟩
  · exact h.deviceXml
  · exact h.updateXml

theorem along_start (bits : ℕ) (st : SearchState) : Along bits st [] st :=
  ⟨rfl, fun _ _ => rfl, fun _ _ => rfl, Or.inl ⟨rfl, rfl⟩⟩

theorem Registers.typesOf_eq (h : Registers v types) : typesOf v = types := by
  obtain ⟨nodes, htree, -, hmap⟩ := h.named
  simp only [typesOf, htree]
  have hnodes : (deviceNodes nodes).filterMap getOpaque = ((deviceNodes nodes).map getOpaque).filterMap id := by
    rw [List.filterMap_map]
    rfl
  rw [hnodes, hmap, List.filterMap_map]
  simp

theorem examine_passes_iff (h : Untainted bits mtd st v) :
    (∃ fuel st', examine fuel bits mtd v st = some (true, st')) ↔
      ∃ types, Registers v types ∧ (∀ t ∈ types, TypePasses bits mtd v t) ∧ types.length ≠ supportedDeviceType.length := by
  have hnone : ∀ u ∈ ([] : List String), TypePasses bits mtd v u := by simp
  constructor
  · rintro ⟨fuel, st', hexamine⟩
    obtain ⟨types, hregisters, hresult⟩ := examine_iff.mp hexamine
    obtain ⟨hall, hlength⟩ := examineTypes_passes hregisters hnone (along_start bits _) (h.start types) hresult
    exact ⟨types, hregisters, fun t ht => (hall t ht).1, hlength⟩
  · rintro ⟨types, hregisters, hall, hlength⟩
    have hrecords : ∀ t ∈ types, (getDeviceInfoByDevtype (st.start types) t).isSome = true ∧
        (getUpdateInfoByDevtype (st.start types) t).isSome = true := by
      intro t ht
      rw [start_device, start_update, find?_map_key (fun _ => rfl) ht, find?_map_key (fun _ => rfl) ht]
      constructor
      · rw [Option.isSome_or, Option.isSome_some, Bool.or_true]
      · rw [Option.isSome_or, Option.isSome_some, Bool.or_true]
    obtain ⟨fuel, st', hresult⟩ :=
      examineTypes_of_passes hregisters hnone (along_start bits _) (h.start types) hrecords hall hlength
    exact ⟨fuel, st', examine_iff.mpr ⟨types, hregisters, hresult⟩⟩

theorem examine_own (h : Untainted bits mtd st v) (hexamine : examine fuel bits mtd v st = some (true, st')) :
    ∀ t ∈ typesOf v, HoldsOwn bits v st' t := by
  obtain ⟨types, hregisters, hresult⟩ := examine_iff.mp hexamine
  have hnone : ∀ u ∈ ([] : List String), TypePasses bits mtd v u := by simp
  obtain ⟨hall, -⟩ := examineTypes_passes hregisters hnone (along_start bits _) (h.start types) hresult
  rw [hregisters.typesOf_eq]
  exact fun t ht => (hall t ht).2.2

theorem Untainted.fresh (h : Untainted bits mtd st v) : Untainted bits mtd fresh v := by
  constructor
  · exact h.distinct
  · intro before t dir tree record _ _ _ hrecord
    cases hrecord
  · intro before t dir device tree info _ _ _ _ hinfo
    cases hinfo
  · intro t dir _ _ _
    rfl
  · intro t dir device _ _ _ _
    rfl

theorem findValidUpdateVolume_append {rejected vs : List Volume}
    (h : findValidUpdateVolume fuel bits mtd rejected st = some (none, st')) :
    findValidUpdateVolume fuel bits mtd (rejected ++ vs) st =
      (findValidUpdateVolume fuel bits mtd vs st').map (fun r => (r.1.map (· + rejected.length), r.2)) := by
  induction rejected generalizing st with
  | nil =>
    cases h
    simp
  | cons r rejected ih =>
    rw [findValidUpdateVolume] at h
    rw [List.cons_append, findValidUpdateVolume]
    split at h
    · cases h
    · cases h
    · rename_i st₁ hr
      obtain ⟨⟨place, st₂⟩, hrest, heq⟩ := Option.map_eq_some_iff.mp h
      cases place with
      | some place => cases heq
      | none =>
        cases heq
        rw [ih hrest, Option.map_map]
        congr 1
        funext ⟨place, st₃⟩
        cases place with
        | none => rfl
        | some place =>
          simp only [Function.comp_apply, Option.map_some, List.length_cons]
          rw [Nat.add_assoc]

theorem findValidUpdateVolume_first (later : List Volume) :
    findValidUpdateVolume fuel bits mtd (v :: later) st = some (some 0, st') ↔
      examine fuel bits mtd v st = some (true, st') := by
  rw [findValidUpdateVolume]
  split
  · rename_i hv
    simp [hv]
  · rename_i hv
    simp [hv]
  · rename_i hv
    rw [hv, Option.map_eq_some_iff]
    constructor
    · rintro ⟨⟨place, st₂⟩, -, hplace⟩
      cases place <;> cases hplace
    · intro h
      cases h

theorem findValidUpdateVolume_rejected {rejected : List Volume} (later : List Volume)
    (h : findValidUpdateVolume fuel bits mtd rejected fresh = some (none, st)) :
    findValidUpdateVolume fuel bits mtd (rejected ++ v :: later) fresh = some (some rejected.length, st') ↔
      examine fuel bits mtd v st = some (true, st') := by
  rw [findValidUpdateVolume_append h, ← findValidUpdateVolume_first later, Option.map_eq_some_iff]
  constructor
  · rintro ⟨⟨place, st₂⟩, hplace, heq⟩
    cases place with
    | none => cases heq
    | some place =>
      simp only [Option.map_some, Prod.mk.injEq, Option.some.injEq] at heq
      obtain ⟨hzero, rfl⟩ := heq
      rw [hplace, show place = 0 by omega]
  · intro hfirst
    exact ⟨_, hfirst, by simp⟩

theorem accepts_rejected {rejected : List Volume} (later : List Volume)
    (h : findValidUpdateVolume fuel bits mtd rejected fresh = some (none, st)) :
    Accepts bits mtd (rejected ++ v :: later) rejected.length st' ↔
      ∃ fuel', examine fuel' bits mtd v st = some (true, st') := by
  constructor
  · rintro ⟨fuel', hfind⟩
    have hrejected := findValidUpdateVolume_mono (le_max_left fuel fuel') h
    have hfind' := findValidUpdateVolume_mono (le_max_right fuel fuel') hfind
    exact ⟨_, (findValidUpdateVolume_rejected later hrejected).mp hfind'⟩
  · rintro ⟨fuel', hexamine⟩
    have hrejected := findValidUpdateVolume_mono (le_max_left fuel fuel') h
    have hexamine' := examine_mono (le_max_right fuel fuel') hexamine
    exact ⟨_, (findValidUpdateVolume_rejected later hrejected).mpr hexamine'⟩

def smallVolume (verified : Bool) (pkgCount : UInt32) : Volume where
  updateDir := true
  globalXml := some (loadFile 32 (.mk "global" [] [] [.mk "device" [("type", "opaque")] "nand".toList []]))
  deviceDir := fun t => if t = "nand" then
      some ⟨verified, true, ⟨some (loadFile 32 (Device.generate
          ⟨"nand", 1024, [⟨"boot", 0, 512, "mtdblock0"⟩, ⟨"data", 512, 512, "mtdblock1"⟩]⟩)),
        some (loadFile 32 (Image.generate ⟨"nand", 1, 1, [⟨"boot.bin", 100, "normal", 16, ⟨.full, 0, 0⟩⟩]⟩ "nand"))⟩,
        pkgCount⟩
    else none

end Search

end LinuxRecovery.VolumeSearch
