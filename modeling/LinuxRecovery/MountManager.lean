import LinuxRecovery.DirectoryTree
import LinuxRecovery.MortalPrograms
import LinuxRecovery.MountTable

namespace LinuxRecovery.MountManager

open DirectoryTree MortalPrograms MountTable
open Uevent (Text bytes)

abbrev Files : Type := Tree Text Text Text

/-- What is on a block device; `options` is what its file system adds to the flags in the mount table. -/
structure Volume where
  filesystem : Text
  options : Text
  contents : Files
  unmounted : contents.mountedDevs = []

structure Kernel where
  root : Files
  readOnly : Bool
  table : List MountedVolume
  volumes : Text → Option Volume
  busy : Text → Bool

abbrev Client (α : Type) : Type := Mortal Kernel α

def slash : UInt8 := 47

def backslash : UInt8 := 92

def components (path : Text) : List Text := (path.splitOn slash).filter (· ≠ [])

def Kernel.inDirectory {α : Type} (k : Kernel) (path : Text) (act : Text → Bool → Files → α × Files) (absent noDir : α)
    (atRoot : α × Files) : α × Files :=
  match (components path).getLast? with
  | none => atRoot
  | some name => Tree.within (act name) absent noDir k.readOnly k.root (components path).dropLast

def mkdir (path : Text) : Client Made := Mortal.step fun k =>
  if path = [] then (.absent, k)
  else
    match k.inDirectory path Tree.makeDir .absent .notDir (.exists, k.root) with
    | (made, root) => (made, { k with root := root })

def removeRoot (n : ℕ) (k : Kernel) : (Outcome × ℕ) × Files :=
  match Tree.removeAll k.readOnly n k.root with
  | (.done, left, root) => ((.failed, left), root)
  | (.failed, left, root) => ((.failed, left), root)
  | (.died, left, root) => ((.died, left), root)

def dirDelete (path : Text) : Client ℤ := fun n k =>
  if path = [] then .alive (-1) n k
  else
    match k.inDirectory path (fun name => Tree.removeEntry name n) (.failed, n) (.failed, n) (removeRoot n k) with
    | ((.done, left), root) => .alive 0 left { k with root := root }
    | ((.failed, left), root) => .alive (-1) left { k with root := root }
    | ((.died, _), root) => .dead { k with root := root }

def makeParents (piece : Text) : Text → Client ℤ
  | [] => do
    let made ← mkdir piece
    pure (if made = .absent then -1 else 0)
  | c :: rest =>
    if c = backslash ∨ c = slash then do
      let made ← mkdir piece
      if made = .absent then pure (-1) else makeParents (piece ++ [c]) rest
    else makeParents (piece ++ [c]) rest

def dirCreate (path : Text) : Client ℤ :=
  if path = [] then pure (-1)
  else do
    let buffer := if path.getLast? = some slash then path.dropLast else path
    let made ← mkdir buffer
    if made = .ok then pure 0 else makeParents (buffer.take 1) (buffer.drop 1)

def readOnlyFlags : Text := bytes "ro,nodev,noatime,nodiratime"

/-- `mount` with `MS_RDONLY`; no device is mounted read-only while it is mounted writable elsewhere. -/
def mount (device mountPoint filesystem : Text) : Client ℤ := Mortal.step fun k =>
  match k.volumes device with
  | none => (-1, k)
  | some volume =>
    if volume.filesystem ≠ filesystem ∨ (device, false) ∈ k.root.mountedDevs then (-1, k)
    else
      match k.inDirectory mountPoint (fun name _ t => Tree.mountOn name device true t volume.contents) false false
          (false, k.root) with
      | (false, _) => (-1, k)
      | (true, root) => (0, { k with
        root := root
        table := k.table ++ [⟨device, mountPoint, filesystem, readOnlyFlags ++ volume.options⟩] })

theorem strip_mountedDevs (t : Files) : t.strip.mountedDevs = [] := by
  induction t with
  | nil => rfl
  | file n d rest ih => exact ih
  | dir n i rest ihi ih => rw [Tree.strip, Tree.mountedDevs, ihi, ih, List.append_nil]
  | mounted n dev ro i c rest _ ihc ih => rw [Tree.strip, Tree.mountedDevs, ihc, ih, List.append_nil]

def stored (volumes : Text → Option Volume) (device : Text) (inside : Files) : Text → Option Volume := fun d =>
  if d = device then
    (volumes d).map fun volume => ⟨volume.filesystem, volume.options, inside.strip, strip_mountedDevs inside⟩
  else volumes d

def forget (table : List MountedVolume) (mountPoint : Text) : List MountedVolume :=
  (table.reverse.eraseP fun volume => volume.mountPoint = mountPoint).reverse

def umount (mountPoint : Text) : Client ℤ := Mortal.step fun k =>
  match k.inDirectory mountPoint (fun name _ t => Tree.unmountOn name k.busy t) none none (none, k.root) with
  | (none, _) => (-1, k)
  | (some (device, inside), root) => (0, { k with
    root := root
    table := forget k.table mountPoint
    volumes := stored k.volumes device inside })

def supportedFilesystemList : List Text := [bytes "vfat", bytes "ntfs", bytes "ext4"]

def isSupported (filesystem : Text) : Bool := supportedFilesystemList.any fun fs => fs = filesystem

theorem isSupported_iff {filesystem : Text} : isSupported filesystem = true ↔ filesystem ∈ supportedFilesystemList := by
  simp [isSupported]

def scanVolumes : Client (List MountedVolume) := Mortal.look fun k => scanMountedVolumes (procMounts k.table)

def findMountedVolumeByDevice (list : List MountedVolume) (device : Text) : Option MountedVolume :=
  list.find? fun volume => volume.device = device

def findMountedVolumeByMountPoint (list : List MountedVolume) (mountPoint : Text) : Option MountedVolume :=
  list.find? fun volume => volume.mountPoint = mountPoint

def mountVolume (list : List MountedVolume) (device mountPoint filesystem : Text) : Client ℤ :=
  if filesystem = bytes "ramdisk" then pure 0
  else if (findMountedVolumeByMountPoint list mountPoint).isSome = true then pure 0
  else do
    let error ← dirCreate mountPoint
    if error ≠ 0 then pure (-1)
    else if isSupported filesystem = false then do
      let _ ← dirDelete mountPoint
      pure (-1)
    else do
      let error ← mount device mountPoint filesystem
      if error < 0 then do
        let _ ← dirDelete mountPoint
        pure (-1)
      else pure 0

def umountVolume (list : List MountedVolume) (volume : MountedVolume) : Client (ℤ × List MountedVolume) :=
  if volume.filesystem = bytes "ramdisk" then pure (0, list)
  else do
    let error ← umount volume.mountPoint
    if error < 0 then pure (-1, list)
    else do
      let _ ← dirDelete volume.mountPoint
      pure (0, list.erase volume)

def prefixVolumeMountPoint : Text := bytes "/mnt"

def prefixVolumeDevicePath : Text := bytes "/dev"

def prefixLocalUpdatePath : Text := bytes "/tmp/update"

def devName (name : Text) : Text := prefixVolumeDevicePath ++ slash :: name

def mountPoint (name : Text) : Text := prefixVolumeMountPoint ++ slash :: name

def tryFilesystems (list : List MountedVolume) (name : Text) : List Text → Client Bool
  | [] => pure false
  | filesystem :: rest => do
    let error ← mountVolume list (devName name) (mountPoint name) filesystem
    if error = 0 then pure true else tryFilesystems list name rest

def ensureVolumeMounted (name : Text) : Client (ℤ × List MountedVolume) := do
  let list ← scanVolumes
  let found ← tryFilesystems list name supportedFilesystemList
  if found = false then pure (-1, list)
  else do
    let list ← scanVolumes
    pure (0, list)

def ensureVolumeUnmounted (name : Text) : Client (ℤ × List MountedVolume) := do
  let list ← scanVolumes
  match findMountedVolumeByDevice list (devName name) with
  | none => pure (0, list)
  | some volume => do
    let (error, list) ← umountVolume list volume
    if error < 0 then pure (-1, list)
    else do
      let list ← scanVolumes
      pure (0, list)

/-- What the mount manager lists behind each device, whatever came of the one before. -/
def mountAllStorage (devs : List Text) (list : List MountedVolume) : Client (List MountedVolume) := do
  let _ ← dirDelete prefixVolumeMountPoint
  devs.foldlM (fun _ name => Prod.snd <$> ensureVolumeMounted name) list

def umountAllStorage (devs : List Text) (list : List MountedVolume) : Client (List MountedVolume) :=
  devs.foldlM (fun _ name => Prod.snd <$> ensureVolumeUnmounted name) list

def creatUnzipDir : Client ℤ := do
  let _ ← dirDelete prefixLocalUpdatePath
  let error ← dirCreate prefixLocalUpdatePath
  pure (if error < 0 then -1 else 0)

/-- What an update does to the file system, wherever the names in an archive lead. -/
inductive UpdateStep where
  | creatUnzipDir
  | write (dirs : List Text) (name data : Text)
  | cleanUp

def UpdateStep.run : UpdateStep → Client PUnit
  | .creatUnzipDir => do
    let _ ← MountManager.creatUnzipDir
    pure ()
  | .write dirs name data => Mortal.step fun k =>
    ((), { k with root := (Tree.within (Tree.putFile name data) false false k.readOnly k.root dirs).2 })
  | .cleanUp => do
    let _ ← dirDelete prefixLocalUpdatePath
    pure ()

/-- What `main_task` does to the file system: `devs` are the storage devices known when it mounts them, `devs'` those
known when it takes them off. -/
def mainTask (devs devs' : List Text) (update : List UpdateStep) : Client PUnit := do
  let list ← scanVolumes
  let list ← mountAllStorage devs list
  update.forM UpdateStep.run
  let _ ← umountAllStorage devs' list
  pure ()

def ReadOnly (held : Text → Prop) (volumes : Text → Option Volume) (device : Text) (readOnly : Bool) (inside : Files) :
    Prop := held device → readOnly = true ∧ (volumes device).map Volume.contents = some inside.strip

structure Sealed (held : Text → Prop) (volumes : Text → Option Volume) (k : Kernel) : Prop where
  mounts : k.root.Mounts (ReadOnly held volumes)
  volumes : ∀ device, held device → k.volumes device = volumes device

section Sealed

variable {held : Text → Prop} {volumes : Text → Option Volume} {P : Text → Bool → Files → Prop} {α : Type}

theorem readOnly_stable : Tree.Stable (ReadOnly held volumes) := by
  intro device ro inside inside' h hstrip hheld
  obtain ⟨hro, hcontents⟩ := h hheld
  exact ⟨hro, by rw [hstrip hro, hcontents]⟩

theorem Sealed.root {k : Kernel} (h : Sealed held volumes k) {root : Files} {ro : Bool}
    (hroot : Tree.Kept (ReadOnly held volumes) ro k.root root) : Sealed held volumes { k with root := root } :=
  ⟨hroot.mounts h.mounts, h.volumes⟩

theorem inDirectory_kept (hP : Tree.Stable P) {k : Kernel} {path : Text} {act : Text → Bool → Files → α × Files}
    {absent noDir : α} {atRoot : α × Files} (hact : ∀ name ro t, Tree.Kept P ro t (act name ro t).2)
    (hroot : Tree.Kept P k.readOnly k.root atRoot.2) :
    Tree.Kept P k.readOnly k.root (k.inDirectory path act absent noDir atRoot).2 := by
  unfold Kernel.inDirectory
  cases (components path).getLast? with
  | none => exact hroot
  | some name => exact Tree.within_kept hP (hact name) _ _ _

theorem mkdir_keeps (path : Text) : Mortal.Keeps (Sealed held volumes) (mkdir path) := by
  apply Mortal.keeps_step
  intro k h
  split_ifs
  · exact h
  · exact h.root (inDirectory_kept readOnly_stable Tree.makeDir_kept .refl)

theorem removeRoot_kept (hP : Tree.Stable P) (n : ℕ) (k : Kernel) : Tree.Kept P k.readOnly k.root (removeRoot n k).2 := by
  have h := Tree.removeAll_kept hP k.readOnly n k.root
  unfold removeRoot
  cases hr : Tree.removeAll k.readOnly n k.root with
  | mk o r =>
    rw [hr] at h
    cases o <;> exact h

theorem dirDelete_keeps (path : Text) : Mortal.Keeps (Sealed held volumes) (dirDelete path) := by
  intro n k h
  unfold dirDelete
  split_ifs
  · exact h
  · have hkept : Sealed held volumes { k with root := (k.inDirectory path (fun name => Tree.removeEntry name n)
        (.failed, n) (.failed, n) (removeRoot n k)).2 } :=
      h.root (inDirectory_kept readOnly_stable (fun name => Tree.removeEntry_kept readOnly_stable name n)
        (removeRoot_kept readOnly_stable n k))
    cases hr : k.inDirectory path (fun name => Tree.removeEntry name n) (.failed, n) (.failed, n) (removeRoot n k) with
    | mk o root =>
      rw [hr] at hkept
      obtain ⟨o, left⟩ := o
      cases o <;> exact hkept

theorem makeParents_keeps (piece rest : Text) : Mortal.Keeps (Sealed held volumes) (makeParents piece rest) := by
  induction rest generalizing piece with
  | nil => exact Mortal.keeps_bind (mkdir_keeps piece) (fun _ => Mortal.keeps_pure _)
  | cons c rest ih =>
    unfold makeParents
    split_ifs
    · refine Mortal.keeps_bind (mkdir_keeps piece) (fun made => ?_)
      split_ifs
      · exact Mortal.keeps_pure _
      · exact ih _
    · exact ih _

theorem dirCreate_keeps (path : Text) : Mortal.Keeps (Sealed held volumes) (dirCreate path) := by
  rw [dirCreate]
  by_cases hp : path = []
  · rw [if_pos hp]
    exact Mortal.keeps_pure _
  · rw [if_neg hp]
    refine Mortal.keeps_bind (mkdir_keeps _) (fun made => ?_)
    by_cases hmade : made = .ok
    · rw [if_pos hmade]
      exact Mortal.keeps_pure _
    · rw [if_neg hmade]
      exact makeParents_keeps _ _

theorem mount_keeps (device mountPoint filesystem : Text) :
    Mortal.Keeps (Sealed held volumes) (mount device mountPoint filesystem) := by
  apply Mortal.keeps_step
  intro k h
  cases hv : k.volumes device with
  | none => exact h
  | some volume =>
    dsimp only
    split_ifs
    · exact h
    · have hmount : ReadOnly held volumes device true volume.contents := by
        intro hheld
        rw [← h.volumes device hheld, hv, Tree.strip_unmounted volume.unmounted]
        exact ⟨rfl, rfl⟩
      have hkept : Tree.Kept (ReadOnly held volumes) k.readOnly k.root (k.inDirectory mountPoint
          (fun name _ t => Tree.mountOn name device true t volume.contents) false false (false, k.root)).2 :=
        inDirectory_kept readOnly_stable
          (fun name ro t => Tree.mountOn_kept hmount (Tree.mounts_none volume.unmounted) name ro t) .refl
      cases hr : k.inDirectory mountPoint (fun name _ t => Tree.mountOn name device true t volume.contents) false false
          (false, k.root) with
      | mk ok root =>
        rw [hr] at hkept
        cases ok with
        | false => exact h
        | true => exact ⟨hkept.mounts h.mounts, h.volumes⟩

theorem stored_same {device : Text} {inside : Files}
    (h : (volumes device).map Volume.contents = some inside.strip) : stored volumes device inside = volumes := by
  funext d
  unfold stored
  split_ifs with hd
  · subst hd
    obtain ⟨volume, hv, hcontents⟩ := Option.map_eq_some_iff.mp h
    rw [hv, Option.map_some]
    congr 1
    cases volume
    simp only [Volume.mk.injEq, true_and]
    exact hcontents.symm
  · rfl

theorem inDirectory_result (Q : α → Prop) {k : Kernel} {path : Text} {act : Text → Bool → Files → α × Files}
    {absent noDir : α} {atRoot : α × Files} (ha : Q absent) (hn : Q noDir) (hr : Q atRoot.1)
    (hact : ∀ name ro t, t.Mounts P → Q (act name ro t).1) (hk : k.root.Mounts P) :
    Q (k.inDirectory path act absent noDir atRoot).1 := by
  unfold Kernel.inDirectory
  cases (components path).getLast? with
  | none => exact hr
  | some name => exact Tree.within_result ha hn (hact name) _ _ hk

theorem umount_keeps (mountPoint : Text) : Mortal.Keeps (Sealed held volumes) (umount mountPoint) := by
  apply Mortal.keeps_step
  intro k h
  have hkept : Tree.Kept (ReadOnly held volumes) k.readOnly k.root
      (k.inDirectory mountPoint (fun name _ t => Tree.unmountOn name k.busy t) none none (none, k.root)).2 :=
    inDirectory_kept readOnly_stable (fun name ro t => Tree.unmountOn_kept name k.busy ro t) .refl
  have hresult : ∀ device inside,
      (k.inDirectory mountPoint (fun name _ t => Tree.unmountOn name k.busy t) none none (none, k.root)).1 =
        some (device, inside) → ∃ ro, ReadOnly held volumes device ro inside :=
    inDirectory_result (fun r => ∀ device inside, r = some (device, inside) → ∃ ro, ReadOnly held volumes device ro inside)
      nofun nofun nofun (fun name ro t ht device inside hr => (Tree.unmountOn_result name k.busy ht hr).2) h.mounts
  cases hr : k.inDirectory mountPoint (fun name _ t => Tree.unmountOn name k.busy t) none none (none, k.root) with
  | mk r root =>
    rw [hr] at hkept hresult
    cases r with
    | none => exact h
    | some r =>
      obtain ⟨device, inside⟩ := r
      refine ⟨hkept.mounts h.mounts, fun d hheld => ?_⟩
      obtain ⟨ro, hro⟩ := hresult device inside rfl
      by_cases hd : d = device
      · subst hd
        have hcontents := (hro hheld).2
        rw [← h.volumes d hheld] at hcontents ⊢
        exact congrFun (stored_same hcontents) d
      · change stored k.volumes device inside d = _
        rw [stored, if_neg hd]
        exact h.volumes d hheld

theorem scanVolumes_keeps : Mortal.Keeps (Sealed held volumes) scanVolumes := Mortal.keeps_look _

theorem mountVolume_keeps (list : List MountedVolume) (device mountPoint filesystem : Text) :
    Mortal.Keeps (Sealed held volumes) (mountVolume list device mountPoint filesystem) := by
  have hdelete : Mortal.Keeps (Sealed held volumes) (do let _ ← dirDelete mountPoint; pure (-1 : ℤ)) :=
    Mortal.keeps_bind (dirDelete_keeps _) (fun _ => Mortal.keeps_pure _)
  unfold mountVolume
  split_ifs
  · exact Mortal.keeps_pure _
  · exact Mortal.keeps_pure _
  · refine Mortal.keeps_bind (dirCreate_keeps _) (fun error => ?_)
    split_ifs
    · exact Mortal.keeps_pure _
    · exact hdelete
  · refine Mortal.keeps_bind (dirCreate_keeps _) (fun error => ?_)
    split_ifs
    · exact Mortal.keeps_pure _
    · refine Mortal.keeps_bind (mount_keeps _ _ _) (fun error => ?_)
      split_ifs
      · exact hdelete
      · exact Mortal.keeps_pure _

theorem umountVolume_keeps (list : List MountedVolume) (volume : MountedVolume) :
    Mortal.Keeps (Sealed held volumes) (umountVolume list volume) := by
  unfold umountVolume
  split_ifs
  · exact Mortal.keeps_pure _
  · refine Mortal.keeps_bind (umount_keeps _) (fun error => ?_)
    split_ifs
    · exact Mortal.keeps_pure _
    · exact Mortal.keeps_bind (dirDelete_keeps _) (fun _ => Mortal.keeps_pure _)

theorem tryFilesystems_keeps (list : List MountedVolume) (name : Text) (filesystems : List Text) :
    Mortal.Keeps (Sealed held volumes) (tryFilesystems list name filesystems) := by
  induction filesystems with
  | nil => exact Mortal.keeps_pure _
  | cons filesystem rest ih =>
    refine Mortal.keeps_bind (mountVolume_keeps _ _ _ _) (fun error => ?_)
    split_ifs
    · exact Mortal.keeps_pure _
    · exact ih

theorem ensureVolumeMounted_keeps (name : Text) : Mortal.Keeps (Sealed held volumes) (ensureVolumeMounted name) := by
  refine Mortal.keeps_bind scanVolumes_keeps (fun list => Mortal.keeps_bind (tryFilesystems_keeps _ _ _) (fun found => ?_))
  split_ifs
  · exact Mortal.keeps_pure _
  · exact Mortal.keeps_bind scanVolumes_keeps (fun _ => Mortal.keeps_pure _)

theorem ensureVolumeUnmounted_keeps (name : Text) : Mortal.Keeps (Sealed held volumes) (ensureVolumeUnmounted name) := by
  refine Mortal.keeps_bind scanVolumes_keeps (fun list => ?_)
  cases findMountedVolumeByDevice list (devName name) with
  | none => exact Mortal.keeps_pure _
  | some volume =>
    refine Mortal.keeps_bind (umountVolume_keeps _ _) (fun r => ?_)
    dsimp only
    split_ifs
    · exact Mortal.keeps_pure _
    · exact Mortal.keeps_bind scanVolumes_keeps (fun _ => Mortal.keeps_pure _)

theorem creatUnzipDir_keeps : Mortal.Keeps (Sealed held volumes) creatUnzipDir :=
  Mortal.keeps_bind (dirDelete_keeps _) (fun _ => Mortal.keeps_bind (dirCreate_keeps _) (fun _ => Mortal.keeps_pure _))

theorem UpdateStep.run_keeps (update : UpdateStep) : Mortal.Keeps (Sealed held volumes) update.run := by
  cases update with
  | creatUnzipDir => exact Mortal.keeps_bind creatUnzipDir_keeps (fun _ => Mortal.keeps_pure _)
  | write dirs name data =>
    apply Mortal.keeps_step
    exact fun k h => h.root (Tree.within_kept readOnly_stable (Tree.putFile_kept name data) _ _ _)
  | cleanUp => exact Mortal.keeps_bind (dirDelete_keeps _) (fun _ => Mortal.keeps_pure _)

theorem mainTask_keeps (devs devs' : List Text) (update : List UpdateStep) :
    Mortal.Keeps (Sealed held volumes) (mainTask devs devs' update) := by
  refine Mortal.keeps_bind scanVolumes_keeps (fun list => Mortal.keeps_bind ?_ (fun list => ?_))
  · refine Mortal.keeps_bind (dirDelete_keeps _) (fun _ => Mortal.keeps_foldlM (fun _ name => ?_) _ _)
    exact Mortal.keeps_map _ (ensureVolumeMounted_keeps name)
  · refine Mortal.keeps_bind (Mortal.keeps_forM UpdateStep.run_keeps _) (fun _ => Mortal.keeps_bind ?_
      (fun _ => Mortal.keeps_pure _))
    refine Mortal.keeps_foldlM (fun _ name => ?_) _ _
    exact Mortal.keeps_map _ (ensureVolumeUnmounted_keeps name)

end Sealed

/-- What comes of a machine on which the client is started again and again, each time dying wherever it may; meanwhile
volumes are in use or not, and devices that are not mounted come and go. -/
inductive Reachable (k₀ : Kernel) : Kernel → Prop
  | boot : Reachable k₀ k₀
  | start {k : Kernel} (devs devs' : List Text) (update : List UpdateStep) (n : ℕ) (h : Reachable k₀ k) :
    Reachable k₀ (mainTask devs devs' update n k).state
  | busy {k : Kernel} (busy : Text → Bool) (h : Reachable k₀ k) : Reachable k₀ { k with busy := busy }
  | plug {k : Kernel} (device : Text) (volume : Option Volume) (hfree : device ∉ k.root.mountedDevs.map Prod.fst)
    (h : Reachable k₀ k) : Reachable k₀ { k with volumes := Function.update k.volumes device volume }

theorem reachable_sealed {held : Text → Prop} {k₀ k : Kernel} (h₀ : Sealed held k₀.volumes k₀) (h : Reachable k₀ k) :
    Sealed held k.volumes k := by
  induction h with
  | boot => exact h₀
  | start devs devs' update n _ ih =>
    have hend := mainTask_keeps devs devs' update n _ ih
    refine ⟨Tree.mounts_mono ?_ hend.mounts, fun _ _ => rfl⟩
    intro device ro inside hro hheld
    rw [hend.volumes device hheld]
    exact hro hheld
  | busy busy _ ih => exact ⟨ih.mounts, ih.volumes⟩
  | plug device volume hfree _ ih =>
    refine ⟨Tree.mounts_mono ?_ (Tree.mounts_other ih.mounts hfree), fun _ _ => rfl⟩
    rintro d ro inside ⟨hne, hro⟩ hheld
    dsimp only
    rw [Function.update_of_ne hne]
    exact hro hheld

/-- Started however often and stopped wherever, the client never changes a volume that nobody else has mounted writable,
though it empties and removes directories that volumes are mounted in. -/
theorem volumes_untouched {held : Text → Prop} {k₀ k : Kernel} (h₀ : Sealed held k₀.volumes k₀) (h : Reachable k₀ k)
    (devs devs' : List Text) (update : List UpdateStep) (n : ℕ) :
    Sealed held k.volumes (mainTask devs devs' update n k).state :=
  mainTask_keeps devs devs' update n k (reachable_sealed h₀ h)

section Sample

def sampleDevice : Text := bytes "/dev/sda1"

def sampleVolume : Volume := ⟨bytes "vfat", bytes ",errors=remount-ro", .file (bytes "update000.zip") [80, 75] .nil, rfl⟩

def sampleKernel : Kernel where
  root := .dir (bytes "mnt") (.dir (bytes "sda1") (.file (bytes "notes") [1] .nil) .nil) (.dir (bytes "tmp") .nil .nil)
  readOnly := false
  table := []
  volumes := fun device => if device = sampleDevice then some sampleVolume else none
  busy := fun _ => false

theorem volumes_untouched_sample : Sealed (fun device => device = sampleDevice)
    (mainTask [bytes "sda1"] [] [] 7 sampleKernel).state.volumes
    (mainTask [bytes "sda1"] [bytes "sda1"] [.creatUnzipDir, .cleanUp] 9
      (mainTask [bytes "sda1"] [] [] 7 sampleKernel).state).state :=
  @volumes_untouched _ sampleKernel _ ⟨⟨⟨trivial, trivial⟩, trivial, trivial⟩, fun _ _ => rfl⟩
    (.start [bytes "sda1"] [] [] 7 .boot) [bytes "sda1"] [bytes "sda1"] [.creatUnzipDir, .cleanUp] 9

example : (mainTask [bytes "sda1"] [] [] 7 sampleKernel).state.root =
    .dir (bytes "tmp") .nil
      (.dir (bytes "mnt") (.mounted (bytes "sda1") sampleDevice true sampleVolume.contents .nil .nil) .nil) := by
  decide +kernel

end Sample

end LinuxRecovery.MountManager
