import LinuxRecovery.VolumeSearch

namespace LinuxRecovery.TypeList

open Mxml DeviceCheck VolumeSearch

/-- `device_type_list`, and the places written to since it was cleared; what lies behind the array is not kept. -/
structure TypeArray where
  slots : List (Option String)
  size : slots.length = supportedDeviceType.length
  written : List ℕ

def TypeArray.clear : TypeArray := ⟨List.replicate supportedDeviceType.length none, List.length_replicate, []⟩

def TypeArray.store (a : TypeArray) (i : ℕ) (devtype : String) : TypeArray :=
  ⟨a.slots.set i (some devtype), List.length_set.trans a.size, a.written ++ [i]⟩

def storeTypes : ℕ → List Found → TypeArray → Bool × TypeArray
  | _, [], a => (true, a)
  | i, node :: nodes, a =>
    match getOpaque node with
    | none => (false, a)
    | some devtype =>
      if devtype ∉ supportedDeviceType then (false, a) else storeTypes (i + 1) nodes (a.store i devtype)

def parseTypes (tree : Option Nodes) : Bool × TypeArray :=
  match tree with
  | none => (false, .clear)
  | some tree =>
    match findElement tree "global" with
    | none => (false, .clear)
    | some _ => storeTypes 0 (deviceNodes tree) .clear

inductive Outcome (σ : Type) where
  | finished (s : σ)
  | broke (s : σ)
  | died
  | outside

def forTypes {σ : Type} (body : String → σ → Option (Bool × σ)) : List (Option String) → σ → Outcome σ
  | [], _ => .outside
  | none :: _, s => .finished s
  | some devtype :: slots, s =>
    match body devtype s with
    | none => .died
    | some (false, s) => .broke s
    | some (true, s) => forTypes body slots s

/-- All writes are inside the array, and so is a mark behind the last of them where every loop over it stops. -/
structure Bounded (a : TypeArray) : Prop where
  writes : ∀ i ∈ a.written, i < a.slots.length
  terminated : ∃ k, a.slots[k]? = some none ∧ ∀ i ∈ a.written, i < k
  loops : ∀ (σ : Type) (body : String → σ → Option (Bool × σ)) (s : σ), forTypes body a.slots s ≠ .outside

def filled (types : List String) : List (Option String) :=
  (types.map some ++ List.replicate supportedDeviceType.length none).take supportedDeviceType.length

section Store

variable {types : List String} {nodes : List Found} {a a' : TypeArray}

theorem filled_set (types : List String) (devtype : String) :
    (filled types).set types.length (some devtype) = filled (types ++ [devtype]) := by
  unfold filled
  apply List.ext_getElem?
  intro i
  simp only [List.getElem?_set, List.getElem?_take, List.getElem?_append, List.getElem?_map, List.length_take,
    List.length_append, List.length_map, List.length_replicate, List.length_singleton, List.map_append, List.map_singleton,
    List.getElem?_replicate]
  rcases Nat.lt_trichotomy i types.length with hi | rfl | hi
  · simp [hi, Nat.ne_of_gt hi, Nat.lt_succ_of_lt hi]
  · simp
  · have hlt : ¬i < types.length := by omega
    have hlt' : ¬i < types.length + 1 := by omega
    simp only [Nat.ne_of_lt hi, hlt, hlt', if_false]
    split_ifs <;> first | rfl | omega

theorem storeTypes_accepted (hslots : a.slots = filled types) (h : storeTypes types.length nodes a = (true, a')) :
    a'.slots = filled (types ++ nodes.filterMap getOpaque) ∧ (nodes.filterMap getOpaque).length = nodes.length ∧
      a'.written = a.written ++ List.range' types.length nodes.length := by
  induction nodes generalizing types a with
  | nil =>
    cases h
    simp [hslots]
  | cons node nodes ih =>
    rw [storeTypes] at h
    split at h
    · cases h
    · rename_i devtype hdevtype
      split_ifs at h with hsupported
      · have hstore : (a.store types.length devtype).slots = filled (types ++ [devtype]) := by
          rw [← filled_set, ← hslots]
          rfl
        have hplace : types.length + 1 = (types ++ [devtype]).length := by simp
        rw [hplace] at h
        obtain ⟨hslots', hlength, hwritten⟩ := ih hstore h
        refine ⟨?_, ?_, ?_⟩
        · rw [hslots', List.filterMap_cons_some hdevtype, List.append_assoc, List.singleton_append]
        · rw [List.filterMap_cons_some hdevtype, List.length_cons, List.length_cons, hlength]
        · rw [hwritten, TypeArray.store, List.append_assoc, List.length_append, List.length_singleton, List.length_cons,
            List.range'_succ, List.singleton_append]
      · cases h

theorem forTypes_stops {σ : Type} (body : String → σ → Option (Bool × σ)) (types : List String)
    (rest : List (Option String)) (s : σ) : forTypes body (types.map some ++ none :: rest) s ≠ .outside := by
  induction types generalizing s with
  | nil => exact fun h => (nomatch h)
  | cons devtype types ih =>
    rw [List.map_cons, List.cons_append, forTypes]
    split
    · exact fun h => (nomatch h)
    · exact fun h => (nomatch h)
    · exact ih _

theorem forTypes_full {σ : Type} (types : List String) (s : σ) :
    forTypes (fun _ s => some (true, s)) (types.map some) s = .outside := by
  induction types with
  | nil => rfl
  | cons devtype types ih => exact ih

end Store

section Bounded

variable {tree : Nodes}

theorem filled_eq {types : List String} (h : types.length ≤ supportedDeviceType.length) :
    filled types = types.map some ++ List.replicate (supportedDeviceType.length - types.length) none := by
  rw [filled, List.take_append, List.length_map, List.take_of_length_le (by rwa [List.length_map]), List.take_replicate,
    Nat.min_eq_left (Nat.sub_le _ _)]

theorem parseTypes_accepted (h : (parseTypes (some tree)).1 = true) :
    (parseTypes (some tree)).2.slots = filled ((deviceNodes tree).filterMap getOpaque) ∧
      ((deviceNodes tree).filterMap getOpaque).length = (deviceNodes tree).length ∧
      (parseTypes (some tree)).2.written = List.range (deviceNodes tree).length := by
  unfold parseTypes at h ⊢
  dsimp only at h ⊢
  split at h
  · cases h
  · obtain ⟨hslots, hlength, hwritten⟩ := @storeTypes_accepted [] _ .clear _ rfl (Prod.ext h rfl)
    refine ⟨hslots, hlength, ?_⟩
    rw [List.range_eq_range']
    exact hwritten

theorem bounded_iff (h : (parseTypes (some tree)).1 = true) :
    Bounded (parseTypes (some tree)).2 ↔ (deviceNodes tree).length < supportedDeviceType.length := by
  obtain ⟨hslots, hlength, hwritten⟩ := parseTypes_accepted h
  constructor
  · intro hbounded
    by_contra hmany
    rw [not_lt] at hmany
    have hfull : (parseTypes (some tree)).2.slots =
        (((deviceNodes tree).filterMap getOpaque).take supportedDeviceType.length).map some := by
      rw [hslots, filled, List.take_append_of_le_length (by rw [List.length_map, hlength]; exact hmany), List.map_take]
    apply hbounded.loops Unit (fun _ s => some (true, s)) ()
    rw [hfull]
    exact forTypes_full _ _
  · intro hfew
    have heq : (parseTypes (some tree)).2.slots = ((deviceNodes tree).filterMap getOpaque).map some ++ none ::
        List.replicate (supportedDeviceType.length - (deviceNodes tree).length - 1) none := by
      rw [hslots, filled_eq (by omega), hlength, ← List.replicate_succ, Nat.sub_add_cancel (by omega)]
    constructor
    · intro i hi
      rw [hwritten, List.mem_range] at hi
      rw [(parseTypes (some tree)).2.size]
      omega
    · refine ⟨(deviceNodes tree).length, ?_, fun i hi => ?_⟩
      · rw [heq, List.getElem?_append_right (by rw [List.length_map, hlength]), List.length_map, hlength, Nat.sub_self]
        rfl
      · rwa [hwritten, List.mem_range] at hi
    · intro σ body s
      rw [heq]
      exact forTypes_stops body _ _ s

def globalXml (types : List String) : Option Nodes :=
  loadFile 32 (.mk "global" [] [] (types.map (fun t => .mk "device" [("type", "opaque")] t.toList [])))

theorem bounded_iff_two : ∃ tree, globalXml ["nor", "nand"] = some tree ∧
    (Bounded (parseTypes (some tree)).2 ↔ (deviceNodes tree).length < supportedDeviceType.length) := by
  have haccepted : (globalXml ["nor", "nand"]).map (fun tree => (parseTypes (some tree)).1) = some true := by
    decide +kernel
  obtain ⟨tree, htree, h⟩ := Option.map_eq_some_iff.mp haccepted
  exact ⟨tree, htree, bounded_iff h⟩

theorem every_type_unbounded : ∃ tree, globalXml ["nor", "nand", "mmc"] = some tree ∧
    (parseTypes (some tree)).1 = true ∧ ¬Bounded (parseTypes (some tree)).2 := by
  have haccepted : (globalXml ["nor", "nand", "mmc"]).map (fun tree =>
      ((parseTypes (some tree)).1, (parseTypes (some tree)).2.slots)) =
        some (true, [some "nor", some "nand", some "mmc"]) := by decide +kernel
  obtain ⟨tree, htree, h⟩ := Option.map_eq_some_iff.mp haccepted
  obtain ⟨hok, hslots⟩ := Prod.mk.inj h
  refine ⟨tree, htree, hok, fun hbounded => ?_⟩
  obtain ⟨k, hk, -⟩ := hbounded.terminated
  rw [hslots] at hk
  match k, hk with
  | 0, hk => cases hk
  | 1, hk => cases hk
  | 2, hk => cases hk
  | _ + 3, hk => cases hk

end Bounded

end LinuxRecovery.TypeList
