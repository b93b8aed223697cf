import LinuxRecovery.SysinfoFlag

namespace LinuxRecovery.SysinfoRollback

open Libmtd BlockMap Sysinfo SysinfoSave SysinfoHook SysinfoSet SysinfoFlag

/-- The manager: the state of the chip with the layout table, and the regions whose cache was freed and is still
pointed to. -/
structure Manager extends BmState where
  freed : List ℕ

/-- What a call asks the system for: the cache of the region, the file system, the block manager, a block's buffer. -/
structure Grants where
  cache : Bool
  fsNew : Bool
  binder : Bool
  tmpbuf : Bool

inductive Cache where
  | null
  | live (value : List UInt8)
  | dangling
  deriving DecidableEq

def Manager.region (m : Manager) (id : ℕ) : Option SysinfoLayout := m.sysinfo.bind (fun ls => ls[id]?)

def Manager.cache (m : Manager) (id : ℕ) : Option Cache :=
  if id ∈ m.freed then some .dangling
  else (m.region id).map (fun l => l.value.elim .null .live)

def Manager.reserve (m : Manager) (id : ℕ) : Option SysinfoReserve := (m.region id).map SysinfoLayout.reserve

def Manager.withBm (m : Manager) (st : BmState) : Manager := { m with toBmState := st }

def Manager.release (m : Manager) (id : ℕ) : Manager := { m with freed := id :: m.freed }

variable (dev : Device) (bm : PartInfo) (grants : Grants)

/-- The device part of `sysinfo_set_value`; the hooks of the erase go through all caches, so none may dangle. -/
def setOnDevice (id : ℕ) (l : SysinfoLayout) (value : List UInt8) (m : Manager) : Option (Bool × Manager) :=
  if m.freed ≠ [] then none
  else if grants.fsNew = false ∨ grants.binder = false then some (false, m.release id)
  else
    match mtdGetDevInfoByOffset bm l.offset with
    | none => some (false, m.release id)
    | some mtd =>
      if grants.tmpbuf = false ∨ mtd.ebSize < l.length then some (false, m.release id)
      else
        match writeRegion dev bm mtd l value m.toBmState with
        | (true, st) => some (true, m.withBm st)
        | (false, st) => some (false, (m.withBm st).release id)

/-- `sysinfo_set_value`; nothing if it reads through a null pointer or touches a freed cache. -/
def setValueCall (id : ℕ) (buf : Option (List UInt8)) (flag : SysinfoOperation) (m : Manager) :
    Option (Bool × Manager) :=
  match m.region id with
  | none => none
  | some l =>
    if id ∈ m.freed then none
    else if l.value = none ∧ grants.cache = false then some (false, m)
    else
      let value := (buf.map (List.take l.length)).getD (l.value.getD (List.replicate l.length 0))
      let m := m.withBm (setValue id value m.toBmState)
      match flag with
      | .ram => some (true, m)
      | .dev => setOnDevice dev bm grants id l value m

def writeFlagCall (id : ℕ) (flag : Option (List UInt8)) (m : Manager) : Option (Bool × Manager) :=
  match flagLayout[id]?, flag with
  | some f, some flag =>
    match m.region flagArea with
    | none => none
    | some l =>
      if flagArea ∈ m.freed then none
      else if l.value = none ∧ grants.cache = false then some (false, m)
      else
        let m := m.withBm (setValue flagArea (memcpy (ramCopy l) f.offset (flag.take f.length)) m.toBmState)
        match setValueCall dev bm grants flagArea none .dev (m.withBm (setReserve flagArea .noReserved m.toBmState)) with
        | some (true, m) => some (true, m.withBm (setReserve flagArea l.reserve m.toBmState))
        | r => r
  | _, _ => some (false, m)

def Unchanged (m m' : Manager) : Prop := ∀ id, m'.cache id = m.cache id ∧ m'.reserve id = m.reserve id

section Failure

variable {dev bm grants} {m m' : Manager} {id : ℕ} {buf flag : Option (List UInt8)} {op : SysinfoOperation}

theorem setValueCall_eq (hm : m.freed = []) (hgrants : grants = ⟨true, true, true, true⟩)
    (hregion : (m.region id).isSome = true) :
    (setValueCall dev bm grants id buf op m).map (fun r => (r.1, r.2.toBmState)) =
      some (sysinfoSetValue dev bm id buf op m.toBmState) := by
  obtain ⟨l, hl⟩ := Option.isSome_iff_exists.mp hregion
  have hl' : m.sysinfo.bind (fun ls => ls[id]?) = some l := hl
  subst hgrants
  unfold setValueCall sysinfoSetValue
  rw [hl, hl', hm]
  simp only [List.not_mem_nil, if_false, reduceCtorEq, and_false]
  cases op with
  | ram => rfl
  | dev =>
    unfold setOnDevice
    simp only [Manager.withBm, hm, ne_eq, not_true_eq_false, if_false, reduceCtorEq, false_or, or_self]
    cases mtdGetDevInfoByOffset bm l.offset with
    | none => rfl
    | some mtd =>
      dsimp only
      split_ifs
      · rfl
      · generalize writeRegion dev bm mtd l _ _ = r
        obtain ⟨ok, st⟩ := r
        cases ok <;> rfl

theorem region_setValue (value : List UInt8) : (m.withBm (setValue id value m.toBmState)).region id =
    (m.region id).map (fun l => { l with value := some value }) := by
  unfold Manager.region Manager.withBm setValue
  cases m.sysinfo with
  | none => rfl
  | some ls => simp

theorem region_setReserve (reserve : SysinfoReserve) : (m.withBm (setReserve id reserve m.toBmState)).region id =
    (m.region id).map (fun l => { l with reserve := reserve }) := by
  unfold Manager.region Manager.withBm setReserve
  cases m.sysinfo with
  | none => rfl
  | some ls => simp

theorem dangling_of_freed (h : id ∈ m.freed) : m.cache id = some .dangling := if_pos h

theorem changed_of_freed (h : id ∉ m.freed) (h' : id ∈ m'.freed) : ¬Unchanged m m' := by
  intro hsame
  have hcache := (hsame id).1
  rw [dangling_of_freed h', Manager.cache, if_neg h] at hcache
  obtain ⟨l, -, hl⟩ := Option.map_eq_some_iff.mp hcache.symm
  cases hv : l.value <;> rw [hv] at hl <;> cases hl

theorem setOnDevice_fails {l : SysinfoLayout} {value : List UInt8}
    (h : setOnDevice dev bm grants id l value m = some (false, m')) : id ∈ m'.freed := by
  unfold setOnDevice at h
  split_ifs at h
  · cases h
    exact List.mem_cons_self
  · split at h
    · cases h
      exact List.mem_cons_self
    · split_ifs at h
      · cases h
        exact List.mem_cons_self
      · split at h
        · cases h
        · cases h
          exact List.mem_cons_self

theorem setValueCall_fails (h : setValueCall dev bm grants id buf op m = some (false, m')) :
    (∃ l, m.region id = some l ∧ l.value = none ∧ grants.cache = false ∧ m' = m) ∨
      ∃ l, m.region id = some l ∧ ¬(l.value = none ∧ grants.cache = false) ∧ id ∉ m.freed ∧ id ∈ m'.freed := by
  unfold setValueCall at h
  split at h
  · cases h
  · rename_i l hl
    split_ifs at h with hfreed hcache
    · cases h
      exact Or.inl ⟨l, hl, hcache.1, hcache.2, rfl⟩
    · dsimp only at h
      split at h
      · cases h
      · exact Or.inr ⟨l, hl, hcache, hfreed, setOnDevice_fails h⟩

theorem setValueCall_unchanged_iff (h : setValueCall dev bm grants id buf op m = some (false, m')) :
    Unchanged m m' ↔ (m.region id).map SysinfoLayout.value = some none ∧ grants.cache = false := by
  rcases setValueCall_fails h with ⟨l, hl, hvalue, hcache, rfl⟩ | ⟨l, hl, hlate, hlive, hfreed⟩
  · exact iff_of_true (fun _ => ⟨rfl, rfl⟩) ⟨by rw [hl, Option.map_some, hvalue], hcache⟩
  · refine iff_of_false (changed_of_freed hlive hfreed) fun hearly => hlate ⟨?_, hearly.2⟩
    rw [hl] at hearly
    exact Option.some.inj hearly.1

theorem writeFlagCall_unchanged_iff (h : writeFlagCall dev bm grants id flag m = some (false, m')) :
    Unchanged m m' ↔ flagLayout[id]? = none ∨ flag = none ∨
      (m.region flagArea).map SysinfoLayout.value = some none ∧ grants.cache = false := by
  unfold writeFlagCall at h
  split at h
  · rename_i f flag hf
    split at h
    · cases h
    · rename_i l hl
      split_ifs at h with hfreed hcache
      · cases h
        exact iff_of_true (fun _ => ⟨rfl, rfl⟩) (Or.inr (Or.inr ⟨by rw [hl, Option.map_some, hcache.1], hcache.2⟩))
      · dsimp only at h
        split at h
        · cases h
        · rename_i hset
          have hgone : flagArea ∈ m'.freed := by
            rcases setValueCall_fails h with ⟨l', hl', hvalue, -⟩ | ⟨-, -, -, -, hgone⟩
            · rw [region_setReserve, region_setValue, hl] at hl'
              cases hl'
              cases hvalue
            · exact hgone
          refine iff_of_false (changed_of_freed hfreed hgone) ?_
          rintro (hnone | hnull | ⟨hvalue, hdenied⟩)
          · rw [hf] at hnone
            cases hnone
          · cases hnull
          · rw [hl] at hvalue
            exact hcache ⟨Option.some.inj hvalue, hdenied⟩
  · rename_i flag _ _ hnone
    cases h
    refine iff_of_true (fun _ => ⟨rfl, rfl⟩) ?_
    cases hf : flagLayout[id]? with
    | none => exact Or.inl rfl
    | some f =>
      cases flag with
      | none => exact Or.inr (Or.inl rfl)
      | some flag => exact absurd rfl (hnone f flag hf)

theorem writeFlagCall_eq {bytes : List UInt8} (hm : m.freed = []) (hgrants : grants = ⟨true, true, true, true⟩)
    (hregion : (m.region flagArea).isSome = true) :
    (writeFlagCall dev bm grants id (some bytes) m).map (fun r => (r.1, r.2.toBmState)) =
      some (sysinfoWriteFlag dev bm id bytes m.toBmState) := by
  obtain ⟨l, hl⟩ := Option.isSome_iff_exists.mp hregion
  have harea : areaLayout m.toBmState = some l := hl
  unfold writeFlagCall sysinfoWriteFlag
  rw [hl, harea]
  cases flagLayout[id]? with
  | none => rfl
  | some f =>
    dsimp only
    rw [hm, if_neg List.not_mem_nil, if_neg (by rw [hgrants]; exact fun h => (nomatch h.2))]
    set m₁ := m.withBm (setValue flagArea (memcpy (ramCopy l) f.offset (bytes.take f.length)) m.toBmState) with hm₁
    have hset := @setValueCall_eq dev bm grants (m₁.withBm (setReserve flagArea .noReserved m₁.toBmState)) flagArea none .dev
      hm hgrants (by rw [region_setReserve, hm₁, region_setValue, hl]; rfl)
    obtain ⟨⟨ok, m₂⟩, hcall, heq⟩ := Option.map_eq_some_iff.mp hset
    rw [hcall]
    change (ok, m₂.toBmState) = sysinfoSetValue dev bm flagArea none .dev (setReserve flagArea .noReserved
      (setValue flagArea (memcpy (ramCopy l) f.offset (bytes.take f.length)) m.toBmState)) at heq
    rw [← heq]
    cases ok <;> rfl

/-- A call that fails leaves the manager as it was just when it fails before it has the region's cache. -/
theorem failed_unchanged_iff (dev : Device) (bm : PartInfo) (grants : Grants) (id : ℕ) (m m' : Manager) :
    (∀ buf op, setValueCall dev bm grants id buf op m = some (false, m') →
      (Unchanged m m' ↔ (m.region id).map SysinfoLayout.value = some none ∧ grants.cache = false)) ∧
    ∀ flag, writeFlagCall dev bm grants id flag m = some (false, m') →
      (Unchanged m m' ↔ flagLayout[id]? = none ∨ flag = none ∨
        (m.region flagArea).map SysinfoLayout.value = some none ∧ grants.cache = false) :=
  ⟨fun _ _ h => setValueCall_unchanged_iff h, fun _ h => writeFlagCall_unchanged_iff h⟩

def startManager : Manager := ⟨zeroFlash, []⟩

theorem failed_unchanged_iff_start :
    setValueCall (failsAt []) bootParts ⟨false, true, true, true⟩ 1 none .ram startManager = some (false, startManager) ∧
      Unchanged startManager startManager ∧
    writeFlagCall (failsAt []) bootParts ⟨true, true, true, true⟩ 1 (some updateStart) startManager =
        some (false, startManager) ∧ Unchanged startManager startManager := by
  have hset : setValueCall (failsAt []) bootParts ⟨false, true, true, true⟩ 1 none .ram startManager =
      some (false, startManager) := rfl
  have hwrite : writeFlagCall (failsAt []) bootParts ⟨true, true, true, true⟩ 1 (some updateStart) startManager =
      some (false, startManager) := rfl
  exact ⟨hset, ((failed_unchanged_iff _ _ _ _ _ _).1 none .ram hset).mpr ⟨rfl, rfl⟩, hwrite,
    ((failed_unchanged_iff _ _ _ _ _ _).2 (some updateStart) hwrite).mpr (Or.inl rfl)⟩

theorem denied_write_unmarks : ∃ m', writeFlagCall (failsAt []) bootParts ⟨true, false, true, true⟩ 0 (some updateStart)
      startManager = some (false, m') ∧
    startManager.reserve flagArea = some .reserved ∧ m'.reserve flagArea = some .noReserved ∧
    startManager.cache flagArea = some .null ∧ m'.cache flagArea = some .dangling ∧ ¬Unchanged startManager m' := by
  have hwrite : ∃ m', writeFlagCall (failsAt []) bootParts ⟨true, false, true, true⟩ 0 (some updateStart) startManager =
      some (false, m') ∧ m'.reserve flagArea = some .noReserved ∧ m'.cache flagArea = some .dangling := ⟨_, rfl, rfl, rfl⟩
  obtain ⟨m', hcall, hreserve, hcache⟩ := hwrite
  refine ⟨m', hcall, rfl, hreserve, rfl, hcache, fun hsame => ?_⟩
  have hkept := (hsame flagArea).2
  rw [hreserve] at hkept
  cases hkept

end Failure

end LinuxRecovery.SysinfoRollback
