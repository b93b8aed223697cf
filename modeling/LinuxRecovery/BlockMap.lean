import LinuxRecovery.Libmtd

namespace LinuxRecovery.BlockMap

open ByteMemory Libmtd

inductive BlkStatus where
  | untagged
  | scan
  | bad
  | erased
  | writen
  deriving DecidableEq

structure MtdBlockMap where
  es : ℕ → BlkStatus
  ebCnt : ℕ
  badCnt : ℕ

inductive SysinfoReserve where
  | reserved
  | noReserved
  deriving DecidableEq

structure SysinfoLayout where
  offset : ℕ
  length : ℕ
  value : Option (List UInt8)
  reserve : SysinfoReserve
  deriving DecidableEq

/-- What the block manager's calls read and change: the chip, the one block map shared by all
partitions, and the layout table of a bound sysinfo manager. -/
structure BmState extends Chip where
  map : Option MtdBlockMap
  sysinfo : Option (List SysinfoLayout)

def blankState (bad : List ℕ) : BmState :=
  ⟨⟨fun _ => 0xFF, []⟩, some ⟨fun eb => if eb ∈ bad then .bad else .erased, 16, bad.length⟩, none⟩

def mtdBmBlockMapInit (ebCnt : ℕ) (st : BmState) : BmState :=
  match st.map with
  | some _ => st
  | none => { st with map := some ⟨fun _ => .untagged, ebCnt, 0⟩ }

def mtdBmBlockMapIsValid (st : BmState) : Bool := st.map.isSome

def mtdBmBlockMapIsTaged (st : BmState) (eb : ℕ) : Bool :=
  st.map.any (fun m => m.es eb != .untagged)

def mtdBmBlockMapIsBad (st : BmState) (eb : ℕ) : Bool :=
  st.map.any (fun m => m.es eb == .bad)

def MtdBlockMap.set (m : MtdBlockMap) (eb : ℕ) (status : BlkStatus) : MtdBlockMap :=
  if m.es eb = status then m
  else
    let badCnt := if status = .bad then m.badCnt + 1 else m.badCnt
    if m.es eb = .bad then { m with badCnt := badCnt }
    else { m with es := Function.update m.es eb status, badCnt := badCnt }

def mtdBmBlockMapSet (eb : ℕ) (status : BlkStatus) (st : BmState) : BmState :=
  { st with map := st.map.map (fun m => m.set eb status) }

theorem set_es (m : MtdBlockMap) (eb i : ℕ) (status : BlkStatus) :
    (m.set eb status).es i =
      if i = eb ∧ m.es eb ≠ .bad then status else m.es i := by
  unfold MtdBlockMap.set
  by_cases h : m.es eb = status
  · by_cases hi : i = eb <;> simp [h, hi]
  · rw [if_neg h]
    by_cases hb : m.es eb = .bad
    · simp [hb]
    · by_cases hi : i = eb <;> simp [hb, hi]

def entry (st : BmState) (eb : ℕ) : Option BlkStatus := st.map.map (fun m => m.es eb)

theorem isBad_entry (st : BmState) (eb : ℕ) : mtdBmBlockMapIsBad st eb = (entry st eb == some .bad) := by
  cases hm : st.map <;> simp [mtdBmBlockMapIsBad, entry, hm]

theorem isTaged_entry (st : BmState) (eb : ℕ) :
    mtdBmBlockMapIsTaged st eb = (entry st eb).any (fun s => s != .untagged) := by
  cases hm : st.map <;> simp [mtdBmBlockMapIsTaged, entry, hm]

theorem entry_set_self (st : BmState) (eb : ℕ) (status : BlkStatus) (h : st.map.isSome = true) :
    entry (mtdBmBlockMapSet eb status st) eb =
      some (if mtdBmBlockMapIsBad st eb = true then .bad else status) := by
  obtain ⟨m, hm⟩ := Option.isSome_iff_exists.mp h
  simp only [entry, mtdBmBlockMapSet, mtdBmBlockMapIsBad, hm, Option.map_some, Option.any_some, set_es]
  by_cases hb : m.es eb = .bad <;> simp [hb]

theorem entry_set_other (st : BmState) {eb i : ℕ} (status : BlkStatus) (h : i ≠ eb) :
    entry (mtdBmBlockMapSet eb status st) i = entry st i := by
  cases hm : st.map <;> simp [entry, mtdBmBlockMapSet, hm, set_es, h]

@[simp] theorem set_isBad_bad (st : BmState) (eb i : ℕ) :
    mtdBmBlockMapIsBad (mtdBmBlockMapSet eb .bad st) i =
      ((decide (i = eb) && st.map.isSome) || mtdBmBlockMapIsBad st i) := by
  cases hm : st.map with
  | none => simp [mtdBmBlockMapIsBad, mtdBmBlockMapSet, hm]
  | some m =>
    simp only [mtdBmBlockMapIsBad, mtdBmBlockMapSet, hm, Option.map_some, Option.any_some,
      set_es, Option.isSome_some, Bool.and_true]
    by_cases hi : i = eb
    · by_cases hb : m.es eb = .bad <;> simp [hi, hb]
    · simp [hi]

theorem set_isBad_other (st : BmState) (eb i : ℕ) (status : BlkStatus) (h : status ≠ .bad) :
    mtdBmBlockMapIsBad (mtdBmBlockMapSet eb status st) i = mtdBmBlockMapIsBad st i := by
  cases hm : st.map with
  | none => simp [mtdBmBlockMapIsBad, mtdBmBlockMapSet, hm]
  | some m =>
    simp only [mtdBmBlockMapIsBad, mtdBmBlockMapSet, hm, Option.map_some, Option.any_some, set_es]
    by_cases hi : i = eb
    · subst hi
      by_cases hb : m.es i = .bad <;> simp [hb, h]
    · simp [hi]

@[simp] theorem set_toChip (eb : ℕ) (status : BlkStatus) (st : BmState) :
    (mtdBmBlockMapSet eb status st).toChip = st.toChip := rfl

@[simp] theorem set_sysinfo (eb : ℕ) (status : BlkStatus) (st : BmState) :
    (mtdBmBlockMapSet eb status st).sysinfo = st.sysinfo := rfl

@[simp] theorem set_map_isSome (eb : ℕ) (status : BlkStatus) (st : BmState) :
    (mtdBmBlockMapSet eb status st).map.isSome = st.map.isSome := by
  simp [mtdBmBlockMapSet]

end LinuxRecovery.BlockMap
