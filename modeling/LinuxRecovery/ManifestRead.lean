import LinuxRecovery.Mxml
import LinuxRecovery.UpdateFile

namespace LinuxRecovery.ManifestRead

open NumberText Mxml UpdateFile

def nameMax : ℕ := 255

def updateModeFull : UInt32 := 0x200

def updateModeChunk : UInt32 := 0x201

structure UpdateImage extends ImageInfo where
  updateMode : UInt32
  deriving DecidableEq

structure UpdateInfo where
  devtype : String
  devctl : UInt32
  imageCount : UInt32
  list : List UpdateImage
  deriving DecidableEq

structure DeviceManifest where
  type : String
  capacity : UInt64
  partCount : UInt32
  list : List PartItem
  deriving DecidableEq

inductive Stop where
  | broken
  | crashed
  deriving DecidableEq

abbrev Parse (α : Type) : Type := Except Stop α

def subNode (top : Nodes) (name : String) : Parse Found :=
  match findElement top name with
  | some f => .ok f
  | none => .error .broken

def stringValue (f : Found) : Parse String :=
  match (getOpaque f).or (getText f) with
  | some s => if s.utf8ByteSize ≤ nameMax then .ok s else .error .crashed
  | none => .error .broken

/-- `image_info.name` with no byte left for its end runs on into `fs_type`; behind the other arrays comes padding. -/
def stored (name fsType : String) : String := if name.utf8ByteSize = nameMax then name ++ fsType else name

/-- A number read from the text; `missing` is what a missing text leads to. -/
def numberValue (missing : Stop) (f : Found) : Parse UInt64 :=
  match getText f with
  | some s => .ok (UInt64.ofNat (strtoul 64 s.toList))
  | none => .error missing

def integerValue (f : Found) : Parse UInt32 :=
  match elementGetAttr f "type" with
  | some _ => .ok (UInt32.ofInt (getInteger f))
  | none =>
    match getText f with
    | some s => .ok (UInt32.ofInt (strtol 64 s.toList))
    | none => .error .crashed

def parseImage (node : Found) : Parse UpdateImage := do
  let name ← stringValue (← subNode node.child "name")
  let fsType ← stringValue (← subNode node.child "type")
  let offset ← numberValue .crashed (← subNode node.child "offset")
  let size ← numberValue .crashed (← subNode node.child "size")
  let mode ← subNode node.child "updatemode"
  let type ← subNode mode.child "type"
  let updateMode ← integerValue type
  if updateMode = updateModeChunk then
    let chunksizeNode ← subNode type.parentChild "chunksize"
    let chunksize ← integerValue chunksizeNode
    let chunkcount ← integerValue (← subNode chunksizeNode.parentChild "chunkcount")
    pure ⟨⟨stored name fsType, fsType, offset, size, chunksize, chunkcount⟩, updateMode⟩
  else pure ⟨⟨stored name fsType, fsType, offset, size, 0, 1⟩, updateMode⟩

def parseItem (node : Found) : Parse PartItem := do
  let name ← stringValue (← subNode node.child "name")
  let offset ← numberValue .broken (← subNode node.child "offset")
  let size ← numberValue .broken (← subNode node.child "size")
  let blockName ← stringValue (← subNode node.child "blockname")
  pure ⟨name, offset, size, blockName⟩

def parseItems {α : Type} (parse : Found → Parse α) : List Found → Option (List α)
  | [] => some []
  | node :: nodes =>
    match parse node with
    | .ok item => (parseItems parse nodes).map (item :: ·)
    | .error .broken => some []
    | .error .crashed => none

def countValue (bits : ℕ) (f : Found) (old : UInt32) : UInt32 :=
  match elementGetAttr f "count" with
  | some s => UInt32.ofNat (strtoul bits s.toList)
  | none => old

/-- The result and what is left in `update_info`; nothing if the parser crashes. -/
def parseUpdateXml (bits : ℕ) (tree : Option Nodes) (info : UpdateInfo) : Option (Bool × UpdateInfo) :=
  match tree with
  | none => some (false, info)
  | some tree =>
    match findElement tree "update" with
    | none => some (false, info)
    | some node =>
      match elementGetAttr node "devcontrol" with
      | none => some (false, info)
      | some devctl =>
        let info := { info with devctl := UInt32.ofInt (strtol 64 devctl.toList) }
        if elementGetAttr node "devtype" ≠ some info.devtype then some (false, info)
        else
          match findElement tree "imagelist" with
          | none => some (false, info)
          | some node =>
            let info := { info with imageCount := countValue bits node info.imageCount }
            let nodes := findElements "image" (walkBehind "imagelist" (walk tree))
            (parseItems parseImage nodes).map (fun images =>
              if info.imageCount ≠ UInt32.ofNat images.length then (false, { info with list := [] })
              else (true, { info with list := info.list ++ images }))

def parseDeviceXml (bits : ℕ) (tree : Option Nodes) (info : DeviceManifest) : Option (Bool × DeviceManifest) :=
  match tree with
  | none => some (false, info)
  | some tree =>
    match findElement tree "device" with
    | none => some (false, info)
    | some node =>
      if elementGetAttr node "type" ≠ some info.type then some (false, info)
      else
        match elementGetAttr node "capacity" with
        | none => some (false, info)
        | some capacity =>
          let info := { info with capacity := UInt64.ofNat (strtoul 64 capacity.toList) }
          match findElement tree "partition" with
          | none => some (false, info)
          | some node =>
            let info := { info with partCount := countValue bits node info.partCount }
            let nodes := findElements "item" (walkBehind "partition" (walk tree))
            (parseItems parseItem nodes).map (fun items =>
              if info.partCount ≠ UInt32.ofNat items.length then (false, { info with list := [] })
              else (true, { info with list := info.list ++ items }))

theorem stored_eq_iff {name fsType : String} :
    stored name fsType = name ↔ (name.utf8ByteSize = nameMax → fsType = "") := by
  unfold stored
  split_ifs with hfull
  · rw [imp_iff_right hfull]
    constructor
    · intro h
      have hlist := congrArg String.toList h
      rw [String.toList_append, List.append_right_eq_self] at hlist
      exact String.toList_inj.mp hlist
    · rintro rfl
      exact String.append_empty
  · exact iff_of_true rfl fun h => absurd h hfull

theorem parseDeviceXml_count {bits : ℕ} {tree : Option Nodes} {type : String} {device : DeviceManifest}
    (h : parseDeviceXml bits tree ⟨type, 0, 0, []⟩ = some (true, device)) :
    device.type = type ∧ device.partCount = UInt32.ofNat device.list.length := by
  unfold parseDeviceXml at h
  split at h
  · cases h
  · split at h
    · cases h
    · split_ifs at h
      · cases h
      · split at h
        · cases h
        · dsimp only at h
          split at h
          · cases h
          · obtain ⟨items, -, hitems⟩ := Option.map_eq_some_iff.mp h
            split_ifs at hitems with hcount
            · cases hitems
            · cases hitems
              exact ⟨rfl, by simpa using hcount⟩

end LinuxRecovery.ManifestRead
