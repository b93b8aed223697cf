import LinuxRecovery.MountManager

namespace LinuxRecovery.StorageCycle

open DirectoryTree MortalPrograms MountTable MountManager
open Uevent (Text bytes isStorage addStorageDev delStorageDev)

structure DeviceName (name : Text) : Prop where
  storage : isStorage name = true
  word : IsWord name
  simple : ∀ c ∈ name, c ≠ slash ∧ c ≠ backslash
  fits : name.length ≤ 58

inductive Known : List Text → Prop
  | none : Known []
  | add {devs : List Text} {name : Text} (hname : DeviceName name) (h : Known devs) : Known (addStorageDev devs name)
  | del {devs : List Text} (name : Text) (h : Known devs) : Known (delStorageDev devs name)

theorem Known.nodup {devs : List Text} (h : Known devs) : devs.Nodup ∧ ∀ name ∈ devs, DeviceName name := by
  induction h with
  | none => exact ⟨List.nodup_nil, nofun⟩
  | @add devs name hname _ ih =>
    rw [addStorageDev]
    split_ifs with hmem
    · exact ih
    · refine ⟨List.nodup_append'.mpr ⟨ih.1, List.nodup_singleton name, ?_⟩, ?_⟩
      · rw [List.disjoint_singleton]
        exact hmem
      · rw [List.forall_mem_append, List.forall_mem_singleton]
        exact ⟨ih.2, hname⟩
  | del name _ ih =>
    rw [delStorageDev]
    exact ⟨ih.1.filter _, fun n hn => ih.2 n (List.mem_of_mem_filter hn)⟩

abbrev Mount : Type := Text × Volume

def mnt : Text := bytes "mnt"

def mountedTree : List Mount → Files
  | [] => .nil
  | (name, volume) :: ms => .mounted name (devName name) true volume.contents .nil (mountedTree ms)

def mountLineOf : Mount → MountedVolume
  | (name, volume) => ⟨devName name, mountPoint name, volume.filesystem, readOnlyFlags ++ volume.options⟩

def mntDir : Option Files → Files
  | none => .nil
  | some inside => .dir mnt inside .nil

def placed (k : Kernel) (base : Files) (inside : Option Files) : Kernel := { k with root := base.append (mntDir inside) }

@[simp] theorem placed_volumes (k : Kernel) (base : Files) (inside : Option Files) :
    (placed k base inside).volumes = k.volumes := rfl

@[simp] theorem placed_table (k : Kernel) (base : Files) (inside : Option Files) :
    (placed k base inside).table = k.table := rfl

@[simp] theorem placed_busy (k : Kernel) (base : Files) (inside : Option Files) :
    (placed k base inside).busy = k.busy := rfl

def listing (k : Kernel) (ms : List Mount) : Kernel := { k with table := k.table ++ ms.map mountLineOf }

def showing (k : Kernel) (base : Files) (there : Bool) (ms : List Mount) : Kernel :=
  placed (listing k ms) base (if there = true then some (mountedTree ms) else none)

def mountable (volumes : Text → Option Volume) (devs : List Text) : List Mount :=
  devs.filterMap fun name =>
    (volumes (devName name)).bind fun volume =>
      if isSupported volume.filesystem = true then some (name, volume) else none

section Paths

variable {name : Text}

theorem components_mountPoint (h : DeviceName name) : components (mountPoint name) = [mnt, name] := by
  have hslash : slash ∉ name := fun hmem => (h.simple slash hmem).1 rfl
  have hmnt : slash ∉ mnt := by decide
  rw [components, show mountPoint name = [] ++ slash :: (mnt ++ slash :: name) from rfl,
    List.splitOn_append_cons_self_of_not_mem List.not_mem_nil, List.splitOn_append_cons_self_of_not_mem hmnt,
    List.splitOn_eq_singleton hslash, List.filter_cons_of_neg (by decide), List.filter_cons_of_pos (by decide),
    List.filter_cons_of_pos (by simpa using h.word.nonempty), List.filter_nil]

theorem components_mnt : components prefixVolumeMountPoint = [mnt] := by
  decide

end Paths

section Within

variable {α : Type} {base c c' : Files} {inside : Option Files} {act : Text → Bool → Files → α × Files} {absent noDir : α}
  {name : Text} {k : Kernel}

theorem inDirectory_mountPoint (hname : DeviceName name) (hbase : mnt ∉ base.names) (k : Kernel) (c : Files)
    (atRoot : α × Files) : (placed k base (some c)).inDirectory (mountPoint name) act absent noDir atRoot =
      Prod.map id (fun c => base.append (mntDir (some c))) (act name k.readOnly c) := by
  rw [Kernel.inDirectory, components_mountPoint hname]
  change Tree.within (act name) absent noDir k.readOnly (base.append (.dir mnt c .nil)) [mnt] = _
  rw [Tree.within_append hbase, Tree.within, if_pos rfl, Tree.within]
  rfl

theorem inDirectory_absent (hname : DeviceName name) (hbase : mnt ∉ base.names) (k : Kernel) (atRoot : α × Files) :
    (placed k base none).inDirectory (mountPoint name) act absent noDir atRoot = (absent, (placed k base none).root) := by
  rw [Kernel.inDirectory, components_mountPoint hname]
  change Tree.within (act name) absent noDir k.readOnly (base.append .nil) [mnt] = _
  rw [Tree.within_append hbase]
  rfl

theorem inDirectory_mnt (k : Kernel) (atRoot : α × Files) :
    k.inDirectory prefixVolumeMountPoint act absent noDir atRoot = act mnt k.readOnly k.root := by
  rw [Kernel.inDirectory, components_mnt]
  rw [show ([mnt] : List Text).getLast? = some mnt from rfl]
  dsimp only
  rw [show ([mnt] : List Text).dropLast = [] from rfl]
  cases k.root <;> rfl

theorem mkdir_made (hname : DeviceName name) (hbase : mnt ∉ base.names) (hro : k.readOnly = false) (hc : name ∉ c.names) :
    Mortal.Yields (mkdir (mountPoint name)) (placed k base (some c)) .ok
      (placed k base (some (c.append (.dir name .nil .nil)))) := by
  apply Mortal.yields_of_step
  have hmake : c.makeDir name false = (.ok, c.append (.dir name .nil .nil)) := by
    rw [← Tree.append_nil c, Tree.makeDir, Tree.entry_append hc, Tree.append_nil]
    rfl
  rw [if_neg (by exact List.cons_ne_nil _ _), inDirectory_mountPoint hname hbase, hro, hmake]
  rfl

theorem mkdir_missing (hname : DeviceName name) (hbase : mnt ∉ base.names) :
    Mortal.Yields (mkdir (mountPoint name)) (placed k base none) .absent (placed k base none) := by
  apply Mortal.yields_of_step
  rw [if_neg (by exact List.cons_ne_nil _ _), inDirectory_absent hname hbase]

theorem mkdir_mnt (hbase : mnt ∉ base.names) (hro : k.readOnly = false) :
    Mortal.Yields (mkdir prefixVolumeMountPoint) (placed k base none) .ok (placed k base (some .nil)) := by
  apply Mortal.yields_of_step
  have hmake : Tree.makeDir mnt (placed k base none).readOnly (placed k base none).root =
      (.ok, base.append (.dir mnt .nil .nil)) := by
    change Tree.makeDir mnt k.readOnly (base.append .nil) = _
    rw [hro, Tree.makeDir, Tree.entry_append hbase]
    rfl
  rw [if_neg (by decide), inDirectory_mnt, hmake]
  rfl

theorem makeParents_plain {w : Text} (h : ∀ c ∈ w, c ≠ slash ∧ c ≠ backslash) (piece rest : Text) :
    makeParents piece (w ++ rest) = makeParents (piece ++ w) rest := by
  induction w generalizing piece with
  | nil => rw [List.nil_append, List.append_nil]
  | cons c w ih =>
    have hc := h c (List.mem_cons_self ..)
    rw [List.cons_append, makeParents, if_neg (by rw [not_or]; exact ⟨hc.2, hc.1⟩),
      ih (fun d hd => h d (List.mem_cons_of_mem _ hd)), List.append_assoc, List.singleton_append]

theorem dirCreate_made (hname : DeviceName name) (hbase : mnt ∉ base.names) (hro : k.readOnly = false)
    (hc : name ∉ (inside.getD .nil).names) :
    Mortal.Yields (dirCreate (mountPoint name)) (placed k base inside) 0
      (placed k base (some ((inside.getD .nil).append (.dir name .nil .nil)))) := by
  have hlast : (mountPoint name).getLast? ≠ some slash := by
    intro hlast
    rw [mountPoint, ← List.singleton_append, ← List.append_assoc, List.getLast?_append_of_ne_nil _ hname.word.nonempty] at hlast
    exact (hname.simple slash (List.mem_of_getLast? hlast)).1 rfl
  rw [dirCreate, if_neg (by exact List.cons_ne_nil _ _), if_neg hlast]
  cases inside with
  | some c => exact Mortal.yields_bind (mkdir_made hname hbase hro hc) (Mortal.yields_pure _ _)
  | none =>
    refine Mortal.yields_bind (mkdir_missing hname hbase) ?_
    rw [if_neg (by decide)]
    have hmnt : ∀ c ∈ mnt, c ≠ slash ∧ c ≠ backslash := by decide +kernel
    have hplain : makeParents ((mountPoint name).take 1) ((mountPoint name).drop 1) =
        makeParents prefixVolumeMountPoint (slash :: name) :=
      makeParents_plain hmnt [slash] (slash :: name)
    rw [hplain, makeParents, if_pos (Or.inr rfl)]
    refine Mortal.yields_bind (mkdir_mnt hbase hro) ?_
    rw [if_neg (by decide), ← List.append_nil name, makeParents_plain hname.simple, List.append_assoc,
      List.append_nil, makeParents]
    exact Mortal.yields_bind (mkdir_made hname hbase hro List.not_mem_nil) (Mortal.yields_pure _ _)

theorem dirDelete_made (hname : DeviceName name) (hbase : mnt ∉ base.names) (hro : k.readOnly = false) (hc : name ∉ c.names) :
    Mortal.Yields (dirDelete (mountPoint name)) (placed k base (some (c.append (.dir name .nil c')))) 0
      (placed k base (some (c.append c'))) := by
  refine ⟨1, fun n => ?_⟩
  have hremove : Tree.removeEntry name (1 + n) false (c.append (.dir name .nil c')) = ((.done, n), c.append c') := by
    have hdir := Tree.removeEntry_dir hc (i := (.nil : Files)) trivial c' n
    rwa [Tree.size, zero_add] at hdir
  rw [dirDelete, if_neg (by exact List.cons_ne_nil _ _), inDirectory_mountPoint hname hbase, hro, hremove]
  rfl

theorem mount_made {volume : Volume} (hname : DeviceName name) (hbase : mnt ∉ base.names) (hc : name ∉ c.names)
    (hvolume : k.volumes (devName name) = some volume)
    (hfree : (devName name, false) ∉ (placed k base (some (c.append (.dir name .nil .nil)))).root.mountedDevs) :
    Mortal.Yields (mount (devName name) (mountPoint name) volume.filesystem)
      (placed k base (some (c.append (.dir name .nil .nil)))) 0
      (placed { k with table := k.table ++ [mountLineOf (name, volume)] } base
        (some (c.append (mountedTree [(name, volume)])))) := by
  apply Mortal.yields_of_step
  have hmount : Tree.mountOn name (devName name) true (c.append (.dir name .nil .nil)) volume.contents =
      (true, c.append (mountedTree [(name, volume)])) := by
    rw [Tree.mountOn, Tree.entry_append hc, Tree.entry, if_pos rfl]
    rfl
  rw [placed_volumes, hvolume]
  dsimp only
  rw [if_neg (by rw [not_or]; exact ⟨not_not.mpr rfl, hfree⟩), inDirectory_mountPoint hname hbase, hmount]
  rfl

theorem mount_refused {filesystem : Text} (h : ∀ volume, k.volumes (devName name) = some volume →
    volume.filesystem ≠ filesystem) :
    Mortal.Yields (mount (devName name) (mountPoint name) filesystem) k (-1) k := by
  apply Mortal.yields_of_step
  cases hvolume : k.volumes (devName name) with
  | none => rfl
  | some volume => exact if_pos (.inl (h volume hvolume))

theorem umount_made {volume : Volume} {rest : List Mount} {table : List MountedVolume} (hname : DeviceName name)
    (hbase : mnt ∉ base.names) (hc : name ∉ c.names) (hbusy : k.busy (devName name) = false)
    (hvolume : k.volumes (devName name) = some volume)
    (htable : forget k.table (mountPoint name) = table) :
    Mortal.Yields (umount (mountPoint name))
      (placed k base (some (c.append (.mounted name (devName name) true volume.contents .nil (mountedTree rest))))) 0
      (placed { k with table := table } base (some (c.append (.dir name .nil (mountedTree rest))))) := by
  apply Mortal.yields_of_step
  have hunmount : Tree.unmountOn name k.busy
      (c.append (.mounted name (devName name) true volume.contents .nil (mountedTree rest))) =
      (some (devName name, volume.contents), c.append (.dir name .nil (mountedTree rest))) := by
    rw [Tree.unmountOn, Tree.entry_append hc, Tree.entry, if_pos rfl]
    dsimp only
    rw [if_neg (by rw [not_or, hbusy, not_not]; exact ⟨Bool.false_ne_true, volume.unmounted⟩)]
    rfl
  have hstored : stored k.volumes (devName name) volume.contents = k.volumes :=
    stored_same (by rw [hvolume, Option.map_some, Tree.strip_unmounted volume.unmounted])
  rw [inDirectory_mountPoint hname hbase, placed_busy, hunmount]
  dsimp only [Prod.map, id]
  rw [placed_volumes, hstored, placed_table, htable]
  rfl

end Within

/-- A root directory that is this one but for a `/mnt` in which nothing is mounted. -/
structure Clears (root base : Files) : Prop where
  parts : ∃ before there behind : Files, root = before.append (there.append behind) ∧ base = before.append behind ∧
    (there = .nil ∨ ∃ inside : Files, there = .dir mnt inside .nil ∧ inside.Mounts fun _ _ _ => False)
  base : mnt ∉ base.names

theorem dirDelete_mnt {k : Kernel} {base : Files} (h : Clears k.root base) (hro : k.readOnly = false) :
    ∃ r, Mortal.Yields (dirDelete prefixVolumeMountPoint) k r (placed k base none) := by
  obtain ⟨before, there, behind, hroot, hb, hthere⟩ := h.parts
  have hnot := h.base
  rw [hb, Tree.names_append, List.mem_append, not_or] at hnot
  have hplaced : placed k base none = { k with root := base } := by rw [placed, mntDir, Tree.append_nil]
  rcases hthere with rfl | ⟨inside, rfl, hinside⟩
  · have hremove (n : ℕ) : Tree.removeEntry mnt n k.readOnly k.root = ((.failed, n), k.root) := by
      rw [hro, hroot, Tree.append, ← Tree.append_nil behind, ← Tree.append_assoc, Tree.removeEntry,
        Tree.entry_append (by rw [Tree.names_append, List.mem_append, not_or]; exact hnot)]
      rfl
    refine ⟨-1, 0, fun n => ?_⟩
    rw [zero_add, dirDelete, if_neg (by decide), inDirectory_mnt, hremove, hplaced, hb, hroot, Tree.append]
  · have hremove (n : ℕ) : Tree.removeEntry mnt (inside.size + 1 + n) k.readOnly k.root = ((.done, n), base) := by
      rw [hro, hroot, hb]
      exact Tree.removeEntry_dir hnot.1 hinside behind n
    refine ⟨0, inside.size + 1, fun n => ?_⟩
    rw [dirDelete, if_neg (by decide), inDirectory_mnt, hremove, hplaced]

structure Ready (k : Kernel) (devs : List Text) : Prop where
  known : Known devs
  writable : k.readOnly = false
  table : ∀ line ∈ k.table, Printable line
  apart : ∀ line ∈ k.table, ∀ name, DeviceName name → line.device ≠ devName name ∧ line.mountPoint ≠ mountPoint name
  options : ∀ name ∈ devs, ∀ volume, k.volumes (devName name) = some volume →
    (∀ c ∈ volume.options, isSpace c = false ∧ c ≠ 0) ∧ volume.options.length ≤ 1024
  idle : ∀ name ∈ devs, k.busy (devName name) = false

theorem Ready.names {k : Kernel} {devs : List Text} (h : Ready k devs) : ∀ name ∈ devs, DeviceName name := h.known.nodup.2

structure Among (k : Kernel) (devs : List Text) (ms : List Mount) : Prop where
  known : ∀ m ∈ ms, m.1 ∈ devs ∧ k.volumes (devName m.1) = some m.2 ∧ m.2.filesystem ∈ supportedFilesystemList
  nodup : (ms.map Prod.fst).Nodup

def listed (k : Kernel) (ms : List Mount) : List MountedVolume := (k.table ++ ms.map mountLineOf).map kept

section Mounts

variable {k : Kernel} {devs : List Text} {base : Files} {there : Bool} {ms : List Mount} {name : Text} {volume : Volume}

theorem devName_inj {name name' : Text} : devName name = devName name' ↔ name = name' := by
  rw [devName, devName, List.append_cancel_left_eq, List.cons.injEq, and_iff_right rfl]

theorem mountPoint_inj {name name' : Text} : mountPoint name = mountPoint name' ↔ name = name' := by
  rw [mountPoint, mountPoint, List.append_cancel_left_eq, List.cons.injEq, and_iff_right rfl]

theorem mountedTree_append (ms ms' : List Mount) : mountedTree (ms ++ ms') = (mountedTree ms).append (mountedTree ms') := by
  induction ms with
  | nil => rfl
  | cons m ms ih => rw [List.cons_append, mountedTree, mountedTree, Tree.append, ih]

theorem mountedTree_names (ms : List Mount) : (mountedTree ms).names = ms.map Prod.fst := by
  induction ms with
  | nil => rfl
  | cons m ms ih => rw [mountedTree, Tree.names, ih, List.map_cons]

theorem mountedTree_readOnly (ms : List Mount) (device : Text) : (device, false) ∉ (mountedTree ms).mountedDevs := by
  induction ms with
  | nil => exact List.not_mem_nil
  | cons m ms ih =>
    rw [mountedTree, Tree.mountedDevs, m.2.unmounted, List.nil_append, Tree.mountedDevs, List.nil_append, List.mem_cons, not_or]
    exact ⟨fun h => Bool.false_ne_true (Prod.mk.inj h).2, ih⟩

theorem supported_word {filesystem : Text} (h : filesystem ∈ supportedFilesystemList) :
    IsWord filesystem ∧ filesystem.length = 4 ∧ filesystem ≠ bytes "ramdisk" := by
  have hall : ∀ fs ∈ supportedFilesystemList, fs ≠ [] ∧ (∀ c ∈ fs, isSpace c = false ∧ c ≠ 0) ∧ fs.length = 4 ∧
      fs ≠ bytes "ramdisk" := by decide +kernel
  obtain ⟨hne, hsolid, hlen, hram⟩ := hall filesystem h
  exact ⟨⟨hne, hsolid⟩, hlen, hram⟩

theorem word_behind {s t : Text} (hs : ∀ c ∈ s, isSpace c = false ∧ c ≠ 0) (hne : s ≠ [])
    (ht : ∀ c ∈ t, isSpace c = false ∧ c ≠ 0) :
    IsWord (s ++ t) :=
  ⟨fun h => hne (List.append_eq_nil_iff.mp h).1, List.forall_mem_append.mpr ⟨hs, ht⟩⟩

theorem mountLineOf_printable (h : Ready k devs) (hname : name ∈ devs) (hvolume : k.volumes (devName name) = some volume)
    (hfs : volume.filesystem ∈ supportedFilesystemList) : Printable (mountLineOf (name, volume)) := by
  have hn := h.names name hname
  obtain ⟨hsolid, hlen⟩ := h.options name hname volume hvolume
  obtain ⟨hword, hfour, -⟩ := supported_word hfs
  have hdev : ∀ c ∈ prefixVolumeDevicePath ++ [slash], isSpace c = false ∧ c ≠ 0 := by decide +kernel
  have hpoint : ∀ c ∈ prefixVolumeMountPoint ++ [slash], isSpace c = false ∧ c ≠ 0 := by decide +kernel
  have hflags : ∀ c ∈ readOnlyFlags, isSpace c = false ∧ c ≠ 0 := by decide +kernel
  have hdevice : devName name = (prefixVolumeDevicePath ++ [slash]) ++ name := by rw [List.append_assoc]; rfl
  have hmount : mountPoint name = (prefixVolumeMountPoint ++ [slash]) ++ name := by rw [List.append_assoc]; rfl
  have hdl : (devName name).length = 5 + name.length := by rw [hdevice, List.length_append]; rfl
  have hml : (mountPoint name).length = 5 + name.length := by rw [hmount, List.length_append]; rfl
  have hfl : (readOnlyFlags ++ volume.options).length = 27 + volume.options.length := by rw [List.length_append]; rfl
  have hfits := hn.fits
  constructor
  · change IsWord (devName name)
    rw [hdevice]
    exact word_behind hdev (by decide) hn.word.solid
  · change IsWord (mountPoint name)
    rw [hmount]
    exact word_behind hpoint (by decide) hn.word.solid
  · exact hword
  · exact word_behind hflags (by decide) hsolid
  · change (devName name).length ≤ 63
    omega
  · change (mountPoint name).length ≤ 63
    omega
  · change volume.filesystem.length ≤ 63
    omega
  · rw [mountLineOf, mountLine, lineSize]
    simp only [List.length_append, List.length_cons, List.length_nil] at hfl ⊢
    omega

theorem listed_scanned (h : Ready k devs) (hms : Among k devs ms) :
    Mortal.Yields scanVolumes (showing k base there ms) (listed k ms) (showing k base there ms) := by
  have hscan : scanMountedVolumes (procMounts (k.table ++ ms.map mountLineOf)) = listed k ms := by
    apply scan_printed
    rw [List.forall_mem_append, List.forall_mem_map]
    refine ⟨h.table, fun m hm => ?_⟩
    obtain ⟨hname, hvolume, hfs⟩ := hms.known m hm
    exact mountLineOf_printable h hname hvolume hfs
  have hlook := Mortal.yields_look (fun k : Kernel => scanMountedVolumes (procMounts k.table)) (showing k base there ms)
  exact hscan ▸ hlook

theorem listed_apart (h : Ready k devs) (hname : DeviceName name) (hnew : name ∉ ms.map Prod.fst) :
    ∀ line ∈ listed k ms, line.device ≠ devName name ∧ line.mountPoint ≠ mountPoint name := by
  rw [listed, List.forall_mem_map, List.forall_mem_append, List.forall_mem_map]
  refine ⟨fun line hline => h.apart line hline name hname, fun m hm => ?_⟩
  have hne : m.1 ≠ name := fun heq => hnew (List.mem_map.mpr ⟨m, hm, heq⟩)
  exact ⟨mt devName_inj.mp hne, mt mountPoint_inj.mp hne⟩

theorem find_none {p : MountedVolume → Bool} {list : List MountedVolume} (h : ∀ line ∈ list, p line = false) :
    list.find? p = none := by
  rw [List.find?_eq_none]
  intro line hline
  rw [h line hline]
  exact Bool.false_ne_true

theorem dirCreate_shown (h : Ready k devs) (hbase : mnt ∉ base.names) (hname : DeviceName name) (hnew : name ∉ ms.map Prod.fst)
    (hthere : there = false → ms = []) : Mortal.Yields (dirCreate (mountPoint name)) (showing k base there ms) 0
      (placed (listing k ms) base (some ((mountedTree ms).append (.dir name .nil .nil)))) := by
  have hinside : (if there = true then some (mountedTree ms) else none).getD .nil = mountedTree ms := by
    cases there with
    | true => rfl
    | false => rw [hthere rfl]; rfl
  have hmade : Mortal.Yields (dirCreate (mountPoint name)) (showing k base there ms) 0 (placed (listing k ms) base
      (some (((if there = true then some (mountedTree ms) else none).getD .nil).append (.dir name .nil .nil)))) :=
    dirCreate_made hname hbase h.writable (by rw [hinside, mountedTree_names]; exact hnew)
  rwa [hinside] at hmade

theorem mountVolume_made (h : Ready k devs) (hbase : mnt ∉ base.names) (hfree : (devName name, false) ∉ base.mountedDevs)
    (hname : DeviceName name) (hnew : name ∉ ms.map Prod.fst) (hthere : there = false → ms = [])
    (hvolume : k.volumes (devName name) = some volume) (hfs : volume.filesystem ∈ supportedFilesystemList) :
    Mortal.Yields (mountVolume (listed k ms) (devName name) (mountPoint name) volume.filesystem) (showing k base there ms) 0
      (showing k base true (ms ++ [(name, volume)])) := by
  have hfind : findMountedVolumeByMountPoint (listed k ms) (mountPoint name) = none :=
    find_none fun line hline => decide_eq_false (listed_apart h hname hnew line hline).2
  have hnotin : (devName name, false) ∉
      (placed (listing k ms) base (some ((mountedTree ms).append (.dir name .nil .nil)))).root.mountedDevs := by
    change _ ∉ (base.append (.dir mnt ((mountedTree ms).append (.dir name .nil .nil)) .nil)).mountedDevs
    rw [Tree.mountedDevs_append, Tree.mountedDevs, Tree.mountedDevs_append]
    simp only [Tree.mountedDevs, List.append_nil, List.mem_append, not_or]
    exact ⟨hfree, mountedTree_readOnly ms _⟩
  rw [mountVolume, if_neg (supported_word hfs).2.2, hfind, if_neg (by decide)]
  refine Mortal.yields_bind (dirCreate_shown h hbase hname hnew hthere) ?_
  rw [if_neg (by decide), isSupported_iff.mpr hfs, if_neg Bool.noConfusion]
  refine Mortal.yields_bind (mount_made (k := listing k ms) hname hbase (by rw [mountedTree_names]; exact hnew)
    hvolume hnotin) ?_
  rw [if_neg (by decide), showing, listing, listing, List.map_append, ← List.append_assoc, mountedTree_append]
  exact Mortal.yields_pure _ _

theorem mountVolume_refused (h : Ready k devs) (hbase : mnt ∉ base.names) (hname : DeviceName name)
    (hnew : name ∉ ms.map Prod.fst) (hthere : there = false → ms = []) {filesystem : Text}
    (hother : ∀ volume, k.volumes (devName name) = some volume → volume.filesystem ≠ filesystem)
    (hfs : filesystem ∈ supportedFilesystemList) :
    Mortal.Yields (mountVolume (listed k ms) (devName name) (mountPoint name) filesystem) (showing k base there ms) (-1)
      (showing k base true ms) := by
  have hfind : findMountedVolumeByMountPoint (listed k ms) (mountPoint name) = none :=
    find_none fun line hline => decide_eq_false (listed_apart h hname hnew line hline).2
  rw [mountVolume, if_neg (supported_word hfs).2.2, hfind, if_neg (by decide)]
  refine Mortal.yields_bind (dirCreate_shown h hbase hname hnew hthere) ?_
  rw [if_neg (by decide), isSupported_iff.mpr hfs, if_neg Bool.noConfusion]
  refine Mortal.yields_bind (mount_refused hother) ?_
  rw [if_pos (by decide)]
  refine Mortal.yields_bind (dirDelete_made (k := listing k ms)
    hname hbase h.writable (by rw [mountedTree_names]; exact hnew)) ?_
  rw [Tree.append_nil]
  exact Mortal.yields_pure _ _

theorem tryFilesystems_made (h : Ready k devs) (hbase : mnt ∉ base.names) (hfree : (devName name, false) ∉ base.mountedDevs)
    (hname : DeviceName name) (hnew : name ∉ ms.map Prod.fst) (hvolume : k.volumes (devName name) = some volume)
    {filesystems : List Text} (hall : ∀ fs ∈ filesystems, fs ∈ supportedFilesystemList) (hfs : volume.filesystem ∈ filesystems)
    (hthere : there = false → ms = []) :
    Mortal.Yields (tryFilesystems (listed k ms) name filesystems) (showing k base there ms) true
      (showing k base true (ms ++ [(name, volume)])) := by
  induction filesystems generalizing there with
  | nil => exact absurd hfs List.not_mem_nil
  | cons filesystem rest ih =>
    by_cases heq : volume.filesystem = filesystem
    · subst heq
      refine Mortal.yields_bind (mountVolume_made h hbase hfree hname hnew hthere hvolume (hall _ (List.mem_cons_self ..))) ?_
      rw [if_pos rfl]
      exact Mortal.yields_pure _ _
    · have hother : ∀ v, k.volumes (devName name) = some v → v.filesystem ≠ filesystem := by
        intro v hv
        rw [hvolume] at hv
        exact Option.some.inj hv ▸ heq
      refine Mortal.yields_bind (mountVolume_refused h hbase hname hnew hthere hother (hall _ (List.mem_cons_self ..))) ?_
      rw [if_neg (by decide)]
      exact ih (fun fs hmem => hall fs (List.mem_cons_of_mem _ hmem)) (List.mem_of_ne_of_mem heq hfs)
        (fun hfalse => Bool.noConfusion hfalse)

theorem tryFilesystems_refused (h : Ready k devs) (hbase : mnt ∉ base.names) (hname : DeviceName name)
    (hnew : name ∉ ms.map Prod.fst) {filesystems : List Text} (hall : ∀ fs ∈ filesystems, fs ∈ supportedFilesystemList)
    (hother : ∀ volume, k.volumes (devName name) = some volume → volume.filesystem ∉ filesystems)
    (hthere : there = false → ms = []) :
    Mortal.Yields (tryFilesystems (listed k ms) name filesystems) (showing k base there ms) false
      (showing k base (there || !filesystems.isEmpty) ms) := by
  induction filesystems generalizing there with
  | nil =>
    rw [List.isEmpty_nil, Bool.not_true, Bool.or_false]
    exact Mortal.yields_pure _ _
  | cons filesystem rest ih =>
    have hne : ∀ v, k.volumes (devName name) = some v → v.filesystem ≠ filesystem := fun v hv heq =>
      hother v hv (heq ▸ List.mem_cons_self ..)
    refine Mortal.yields_bind (mountVolume_refused h hbase hname hnew hthere hne (hall _ (List.mem_cons_self ..))) ?_
    rw [if_neg (by decide)]
    have hthen : (there || !(filesystem :: rest).isEmpty) = (true || !rest.isEmpty) := by cases there <;> rfl
    rw [hthen]
    exact ih (fun fs hmem => hall fs (List.mem_cons_of_mem _ hmem))
      (fun v hv hmem => hother v hv (List.mem_cons_of_mem _ hmem)) (fun hfalse => Bool.noConfusion hfalse)

theorem mountable_cons (volumes : Text → Option Volume) (name : Text) (devs : List Text) :
    mountable volumes (name :: devs) = mountable volumes [name] ++ mountable volumes devs :=
  List.filterMap_append (l := [name])

theorem mountable_some (hvolume : k.volumes (devName name) = some volume) (hfs : volume.filesystem ∈ supportedFilesystemList) :
    mountable k.volumes [name] = [(name, volume)] := by
  rw [mountable, List.filterMap_cons, hvolume, Option.bind_some, if_pos (isSupported_iff.mpr hfs)]
  rfl

theorem mountable_none (h : ∀ volume, k.volumes (devName name) = some volume → volume.filesystem ∉ supportedFilesystemList) :
    mountable k.volumes [name] = [] := by
  rw [mountable, List.filterMap_cons]
  cases hvolume : k.volumes (devName name) with
  | none => rfl
  | some volume => rw [Option.bind_some, if_neg (mt isSupported_iff.mp (h volume hvolume))]; rfl

theorem Among.add (h : Among k devs ms) (hname : name ∈ devs) (hnew : name ∉ ms.map Prod.fst) :
    Among k devs (ms ++ mountable k.volumes [name]) := by
  by_cases hv : ∃ volume, k.volumes (devName name) = some volume ∧ volume.filesystem ∈ supportedFilesystemList
  · obtain ⟨volume, hvolume, hfs⟩ := hv
    rw [mountable_some hvolume hfs]
    constructor
    · rw [List.forall_mem_append, List.forall_mem_singleton]
      exact ⟨h.known, hname, hvolume, hfs⟩
    · rw [List.map_append, List.map_singleton, List.nodup_append']
      exact ⟨h.nodup, List.nodup_singleton _, List.disjoint_singleton.mpr hnew⟩
  · rw [mountable_none (fun volume hvolume hfs => hv ⟨volume, hvolume, hfs⟩), List.append_nil]
    exact h

theorem mountable_sublist (k : Kernel) (devs : List Text) : ((mountable k.volumes devs).map Prod.fst).Sublist devs := by
  induction devs with
  | nil => exact .slnil
  | cons name devs ih =>
    rw [mountable_cons]
    by_cases hv : ∃ volume, k.volumes (devName name) = some volume ∧ volume.filesystem ∈ supportedFilesystemList
    · obtain ⟨volume, hvolume, hfs⟩ := hv
      rw [mountable_some hvolume hfs]
      exact ih.cons_cons name
    · rw [mountable_none (fun volume hvolume hfs => hv ⟨volume, hvolume, hfs⟩)]
      exact ih.cons name

theorem mountable_among (hdevs : devs.Nodup) : Among k devs (mountable k.volumes devs) := by
  refine ⟨fun m hm => ?_, hdevs.sublist (mountable_sublist k devs)⟩
  obtain ⟨name, hname, hm⟩ := List.mem_filterMap.mp hm
  obtain ⟨volume, hvolume, hm⟩ := Option.bind_eq_some_iff.mp hm
  split_ifs at hm with hfs
  cases hm
  exact ⟨hname, hvolume, isSupported_iff.mp hfs⟩

theorem ensureVolumeMounted_shown (h : Ready k devs) (hbase : mnt ∉ base.names)
    (hfree : (devName name, false) ∉ base.mountedDevs) (hms : Among k devs ms) (hname : name ∈ devs)
    (hnew : name ∉ ms.map Prod.fst) (hthere : there = false → ms = []) :
    Mortal.Yields (Prod.snd <$> ensureVolumeMounted name) (showing k base there ms)
      (listed k (ms ++ mountable k.volumes [name])) (showing k base true (ms ++ mountable k.volumes [name])) := by
  have hn := h.names name hname
  by_cases hv : ∃ volume, k.volumes (devName name) = some volume ∧ volume.filesystem ∈ supportedFilesystemList
  · obtain ⟨volume, hvolume, hfs⟩ := hv
    have hmore := hms.add hname hnew
    rw [mountable_some hvolume hfs] at hmore ⊢
    refine Mortal.yields_map (a := (0, listed k (ms ++ [(name, volume)]))) _ (Mortal.yields_bind (listed_scanned h hms)
      (Mortal.yields_bind (tryFilesystems_made h hbase hfree hn hnew hvolume (fun _ => id) hfs hthere) ?_))
    rw [if_neg (by decide)]
    exact Mortal.yields_bind (listed_scanned h hmore) (Mortal.yields_pure _ _)
  · have hother : ∀ volume, k.volumes (devName name) = some volume → volume.filesystem ∉ supportedFilesystemList :=
      fun volume hvolume hfs => hv ⟨volume, hvolume, hfs⟩
    rw [mountable_none hother, List.append_nil]
    have htry := tryFilesystems_refused h hbase hn hnew (fun _ => id) hother hthere
    rw [show (there || !supportedFilesystemList.isEmpty) = true by cases there <;> rfl] at htry
    refine Mortal.yields_map (a := (-1, listed k ms)) _
      (Mortal.yields_bind (listed_scanned h hms) (Mortal.yields_bind htry ?_))
    rw [if_pos rfl]
    exact Mortal.yields_pure _ _

theorem mountAll_shown (h : Ready k devs) (hbase : mnt ∉ base.names)
    (hfree : ∀ name ∈ devs, (devName name, false) ∉ base.mountedDevs) (hms : Among k devs ms) {rest : List Text}
    (hrest : ∀ name ∈ rest, name ∈ devs ∧ name ∉ ms.map Prod.fst) (hnodup : rest.Nodup) (hthere : there = false → ms = [])
    (list : List MountedVolume) :
    Mortal.Yields (rest.foldlM (fun _ name => Prod.snd <$> ensureVolumeMounted name) list) (showing k base there ms)
      (if rest = [] then list else listed k (ms ++ mountable k.volumes rest))
      (showing k base (there || !rest.isEmpty) (ms ++ mountable k.volumes rest)) := by
  induction rest generalizing there ms list with
  | nil =>
    rw [if_pos rfl, List.isEmpty_nil, Bool.not_true, Bool.or_false, mountable, List.filterMap_nil, List.append_nil]
    exact Mortal.yields_pure _ _
  | cons name rest ih =>
    obtain ⟨hname, hnew⟩ := hrest name (List.mem_cons_self ..)
    have hstep := ensureVolumeMounted_shown h hbase (hfree name hname) hms hname hnew hthere
    have hlater : ∀ n ∈ rest, n ∈ devs ∧ n ∉ (ms ++ mountable k.volumes [name]).map Prod.fst := by
      intro n hn
      obtain ⟨hndevs, hnms⟩ := hrest n (List.mem_cons_of_mem _ hn)
      refine ⟨hndevs, ?_⟩
      rw [List.map_append, List.mem_append, not_or]
      refine ⟨hnms, fun hmem => ?_⟩
      obtain rfl := List.mem_singleton.mp ((mountable_sublist k [name]).subset hmem)
      exact (List.nodup_cons.mp hnodup).1 hn
    have hthen := @ih true _ (hms.add hname hnew) hlater (List.nodup_cons.mp hnodup).2
      (fun hfalse => Bool.noConfusion hfalse) (listed k (ms ++ mountable k.volumes [name]))
    rw [List.append_assoc, ← mountable_cons] at hthen
    rw [List.foldlM_cons, if_neg (List.cons_ne_nil _ _)]
    have hflag : (there || !(name :: rest).isEmpty) = (true || !rest.isEmpty) := by cases there <;> rfl
    rw [hflag]
    refine Mortal.yields_bind hstep ?_
    cases rest with
    | nil =>
      rw [if_pos rfl] at hthen
      rwa [mountable_cons, show mountable k.volumes [] = [] from rfl, List.append_nil] at hthen ⊢
    | cons n rest => rwa [if_neg (List.cons_ne_nil _ _)] at hthen

theorem forget_last {t t' : List MountedVolume} {line : MountedVolume} {point : Text} (hline : line.mountPoint = point)
    (ht' : ∀ l ∈ t', l.mountPoint ≠ point) : forget (t ++ line :: t') point = t ++ t' := by
  rw [forget, List.reverse_append, List.reverse_cons, List.append_assoc, List.eraseP_append_right _ (by
    intro l hl
    simpa using ht' l (List.mem_reverse.mp hl)), List.singleton_append, List.eraseP_cons_of_pos (by simpa using hline),
    List.reverse_append, List.reverse_reverse, List.reverse_reverse]

theorem ensureVolumeUnmounted_absent (h : Ready k devs) (hms : Among k devs ms) (hname : DeviceName name)
    (hnew : name ∉ ms.map Prod.fst) : Mortal.Yields (Prod.snd <$> ensureVolumeUnmounted name) (showing k base there ms)
      (listed k ms) (showing k base there ms) := by
  have hfind : findMountedVolumeByDevice (listed k ms) (devName name) = none :=
    find_none fun line hline => decide_eq_false (listed_apart h hname hnew line hline).1
  refine Mortal.yields_map (a := (0, listed k ms)) _ (Mortal.yields_bind (listed_scanned h hms) ?_)
  rw [hfind]
  exact Mortal.yields_pure _ _

theorem Among.split {ms' : List Mount} (h : Among k devs (ms ++ (name, volume) :: ms')) :
    Among k devs (ms ++ ms') ∧ name ∉ ms.map Prod.fst ∧ name ∉ ms'.map Prod.fst := by
  have hnodup := h.nodup
  rw [List.map_append, List.map_cons, List.nodup_middle, List.nodup_cons, List.mem_append, not_or, ← List.map_append] at hnodup
  refine ⟨⟨fun m hm => h.known m ?_, hnodup.2⟩, hnodup.1⟩
  exact (List.mem_append.mp hm).elim (List.mem_append_left _) (fun hm => List.mem_append_right _ (List.mem_cons_of_mem _ hm))

theorem ensureVolumeUnmounted_found {ms' : List Mount} (h : Ready k devs) (hbase : mnt ∉ base.names)
    (hms : Among k devs (ms ++ (name, volume) :: ms')) :
    Mortal.Yields (Prod.snd <$> ensureVolumeUnmounted name) (showing k base true (ms ++ (name, volume) :: ms'))
      (listed k (ms ++ ms')) (showing k base true (ms ++ ms')) := by
  obtain ⟨hless, hbefore, hbehind⟩ := hms.split
  obtain ⟨hname, hvolume, hfs⟩ := hms.known (name, volume) (List.mem_append_right _ (List.mem_cons_self ..))
  have hn := h.names name hname
  have hnames : name ∉ (mountedTree ms).names := by rw [mountedTree_names]; exact hbefore
  have hlist : listed k (ms ++ (name, volume) :: ms') =
      listed k ms ++ kept (mountLineOf (name, volume)) :: (ms'.map mountLineOf).map kept := by
    simp only [listed, List.map_append, List.map_cons, List.append_assoc]
  have hfind : findMountedVolumeByDevice (listed k (ms ++ (name, volume) :: ms')) (devName name) =
      some (kept (mountLineOf (name, volume))) := by
    rw [hlist, findMountedVolumeByDevice, List.find?_append,
      find_none fun line hline => decide_eq_false (listed_apart h hn hbefore line hline).1, Option.none_or,
      List.find?_cons_of_pos (by simp [kept, mountLineOf])]
  have htable : forget (listing k (ms ++ (name, volume) :: ms')).table (mountPoint name) =
      k.table ++ (ms ++ ms').map mountLineOf := by
    change forget (k.table ++ (ms ++ (name, volume) :: ms').map mountLineOf) _ = _
    rw [List.map_append, List.map_cons, ← List.append_assoc, List.map_append, ← List.append_assoc]
    refine forget_last rfl ?_
    rw [List.forall_mem_map]
    exact fun m hm => mt mountPoint_inj.mp (fun heq => hbehind (List.mem_map.mpr ⟨m, hm, heq⟩))
  have hshown : showing k base true (ms ++ (name, volume) :: ms') = placed (listing k (ms ++ (name, volume) :: ms')) base
      (some ((mountedTree ms).append (.mounted name (devName name) true volume.contents .nil (mountedTree ms')))) := by
    rw [showing, if_pos rfl, mountedTree_append, mountedTree]
  have humount : Mortal.Yields (umountVolume (listed k (ms ++ (name, volume) :: ms')) (kept (mountLineOf (name, volume))))
      (showing k base true (ms ++ (name, volume) :: ms'))
      (0, (listed k (ms ++ (name, volume) :: ms')).erase (kept (mountLineOf (name, volume))))
      (showing k base true (ms ++ ms')) := by
    have hram : (kept (mountLineOf (name, volume))).filesystem ≠ bytes "ramdisk" := (supported_word hfs).2.2
    have hpoint : (kept (mountLineOf (name, volume))).mountPoint = mountPoint name := rfl
    rw [umountVolume, if_neg hram, hpoint, hshown]
    refine Mortal.yields_bind (umount_made (k := listing k (ms ++ (name, volume) :: ms')) hn hbase hnames (h.idle name hname)
      hvolume htable) ?_
    rw [if_neg (by decide)]
    refine Mortal.yields_bind (dirDelete_made hn hbase h.writable hnames) ?_
    rw [← mountedTree_append]
    exact Mortal.yields_pure _ _
  refine Mortal.yields_map (a := (0, listed k (ms ++ ms'))) _ (Mortal.yields_bind (listed_scanned h hms) ?_)
  rw [hfind]
  refine Mortal.yields_bind humount ?_
  dsimp only
  rw [if_neg (by decide)]
  exact Mortal.yields_bind (listed_scanned h hless) (Mortal.yields_pure _ _)

theorem umountAll_shown (h : Ready k devs) (hbase : mnt ∉ base.names) (hms : Among k devs ms) {rest : List Text}
    (hrest : ∀ name ∈ rest, DeviceName name) (hthere : there = false → ms = []) (list : List MountedVolume) :
    Mortal.Yields (umountAllStorage rest list) (showing k base there ms)
      (if rest = [] then list else listed k (ms.filter fun m => m.1 ∉ rest))
      (showing k base there (ms.filter fun m => m.1 ∉ rest)) := by
  induction rest generalizing ms list with
  | nil =>
    rw [if_pos rfl, List.filter_eq_self.mpr fun m _ => decide_eq_true List.not_mem_nil]
    exact Mortal.yields_pure _ _
  | cons name rest ih =>
    obtain ⟨ms', hms', hstep, hfilter, hstill⟩ : ∃ ms', Among k devs ms' ∧
        Mortal.Yields (Prod.snd <$> ensureVolumeUnmounted name) (showing k base there ms) (listed k ms')
          (showing k base there ms') ∧
        (ms'.filter fun m => m.1 ∉ rest) = ms.filter (fun m => m.1 ∉ name :: rest) ∧ (there = false → ms' = []) := by
      by_cases hin : name ∈ ms.map Prod.fst
      · obtain ⟨⟨n, volume⟩, hm, rfl⟩ := List.mem_map.mp hin
        obtain ⟨before, behind, rfl⟩ := List.append_of_mem hm
        obtain ⟨hless, hbefore, hbehind⟩ := hms.split
        obtain rfl : there = true := by
          cases there with
          | true => rfl
          | false => exact absurd (hthere rfl) (by simp)
        have hother {l : List Mount} (hl : n ∉ l.map Prod.fst) :
            (l.filter fun m => m.1 ∉ n :: rest) = l.filter (fun m => m.1 ∉ rest) := by
          refine List.filter_congr fun m hm => ?_
          have hne : m.1 ≠ n := fun heq => hl (List.mem_map.mpr ⟨m, hm, heq⟩)
          simp [hne]
        refine ⟨before ++ behind, hless, ensureVolumeUnmounted_found h hbase hms, ?_, fun hfalse => Bool.noConfusion hfalse⟩
        rw [List.filter_append, List.filter_append, List.filter_cons_of_neg (by simp), hother hbefore, hother hbehind]
      · refine ⟨ms, hms, ensureVolumeUnmounted_absent h hms (hrest name (List.mem_cons_self ..)) hin, ?_, hthere⟩
        refine List.filter_congr fun m hm => ?_
        have hne : m.1 ≠ name := fun heq => hin (List.mem_map.mpr ⟨m, hm, heq⟩)
        simp [hne]
    have hthen := ih hms' (fun n hn => hrest n (List.mem_cons_of_mem _ hn)) hstill (listed k ms')
    rw [hfilter] at hthen
    rw [umountAllStorage, List.foldlM_cons, if_neg (List.cons_ne_nil _ _)]
    refine Mortal.yields_bind hstep ?_
    cases rest with
    | nil =>
      rw [if_pos rfl, ← hfilter, List.filter_eq_self.mpr fun m _ => decide_eq_true List.not_mem_nil] at hthen
      rwa [← hfilter, List.filter_eq_self.mpr fun m _ => decide_eq_true List.not_mem_nil]
    | cons n rest => rwa [if_neg (List.cons_ne_nil _ _)] at hthen

end Mounts

/-- All storage is mounted read-only, each device with the first file system that fits it; the mount manager lists it all,
and taking it off again leaves the mount table as it was, but for the devices that were unplugged in between. -/
theorem storage_cycle {k : Kernel} {devs : List Text} {base : Files} (h : Ready k devs) (hroot : Clears k.root base)
    (hfree : ∀ name ∈ devs, (devName name, false) ∉ base.mountedDevs) :
    (∀ list, Mortal.Yields (mountAllStorage devs list) k (if devs = [] then list else listed k (mountable k.volumes devs))
      (showing k base (!devs.isEmpty) (mountable k.volumes devs))) ∧
    ∀ base' devs' list, mnt ∉ Tree.names base' → Known devs' →
      Mortal.Yields (umountAllStorage devs' list) (showing k base' (!devs.isEmpty) (mountable k.volumes devs))
        (if devs' = [] then list else listed k ((mountable k.volumes devs).filter fun m => m.1 ∉ devs'))
        (showing k base' (!devs.isEmpty) ((mountable k.volumes devs).filter fun m => m.1 ∉ devs')) := by
  have hnone : Among k devs [] := ⟨nofun, List.nodup_nil⟩
  have hstart : placed k base none = showing k base false [] := by
    rw [showing, listing, List.map_nil, List.append_nil]
    rfl
  constructor
  · intro list
    obtain ⟨r, hdelete⟩ := dirDelete_mnt hroot h.writable
    refine Mortal.yields_bind hdelete ?_
    rw [hstart]
    have hall := @mountAll_shown k devs base false [] h hroot.base hfree hnone devs (fun name hname => ⟨hname, List.not_mem_nil⟩)
      h.known.nodup.1 (fun _ => rfl) list
    rwa [List.nil_append, Bool.false_or] at hall
  · intro base' devs' list hbase hknown
    have hms : Among k devs (mountable k.volumes devs) := mountable_among h.known.nodup.1
    refine umountAll_shown h hbase hms hknown.nodup.2 (fun hthere => ?_) list
    cases devs with
    | nil => rfl
    | cons name devs => exact Bool.noConfusion hthere

section Sample

theorem sda1_name : DeviceName (bytes "sda1") :=
  ⟨by decide +kernel, ⟨by decide +kernel, by decide +kernel⟩, by decide +kernel, by decide +kernel⟩

theorem storage_cycle_sample :
    (∀ list, Mortal.Yields (mountAllStorage [bytes "sda1"] list) sampleKernel
        (listed sampleKernel [(bytes "sda1", sampleVolume)])
      (showing sampleKernel (.dir (bytes "tmp") .nil .nil) true [(bytes "sda1", sampleVolume)])) ∧
    ∀ base' devs' list, mnt ∉ Tree.names base' → Known devs' →
      Mortal.Yields (umountAllStorage devs' list) (showing sampleKernel base' true [(bytes "sda1", sampleVolume)])
        (if devs' = [] then list else listed sampleKernel ([(bytes "sda1", sampleVolume)].filter fun m => m.1 ∉ devs'))
        (showing sampleKernel base' true ([(bytes "sda1", sampleVolume)].filter fun m => m.1 ∉ devs')) := by
  refine @storage_cycle sampleKernel [bytes "sda1"] (.dir (bytes "tmp") .nil .nil)
    ⟨.add sda1_name .none, rfl, nofun, nofun, ?_, fun _ _ => rfl⟩
    ⟨⟨.nil, .dir mnt (.dir (bytes "sda1") (.file (bytes "notes") [1] .nil) .nil) .nil, .dir (bytes "tmp") .nil .nil, rfl, rfl,
      .inr ⟨_, rfl, trivial, trivial⟩⟩, by decide +kernel⟩ (fun _ _ => List.not_mem_nil)
  intro name hname volume hvolume
  obtain rfl := List.mem_singleton.mp hname
  obtain rfl : sampleVolume = volume := Option.some.inj hvolume
  decide +kernel

end Sample

end LinuxRecovery.StorageCycle
