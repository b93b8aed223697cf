import LinuxRecovery.SysinfoSet

namespace LinuxRecovery.SysinfoFlag

open ByteMemory Libmtd BlockMap Sysinfo SysinfoSave SysinfoHook PageWrites BlockRewrite SysinfoSet

structure SysinfoFlagLayout where
  offset : ℕ
  length : ℕ
  deriving DecidableEq

def flagLayout : List SysinfoFlagLayout := [⟨0, 4⟩]

def flagArea : ℕ := 1

def areaLayout (st : BmState) : Option SysinfoLayout := st.sysinfo.bind (fun ls => ls[flagArea]?)

def setReserve (i : ℕ) (reserve : SysinfoReserve) (st : BmState) : BmState :=
  { st with sysinfo := st.sysinfo.map (fun ls => ls.modify i (fun l => { l with reserve := reserve })) }

/-- What `sysinfo_get_value` with `SYSINFO_OPERATION_RAM` hands out: the cache as it is, made of zeros at first. -/
def ramCopy (l : SysinfoLayout) : List UInt8 := l.value.getD (List.replicate l.length 0)

variable (dev : Device) (bm : PartInfo)

def sysinfoReadFlag (id : ℕ) (st : BmState) : Option (List UInt8) × BmState :=
  match flagLayout[id]?, areaLayout st with
  | some f, some l =>
    match sysinfoGetValue dev bm flagArea l st with
    | (true, st) =>
      (((areaLayout st).bind SysinfoLayout.value).map (fun sysinfoBuf => (sysinfoBuf.drop f.offset).take f.length), st)
    | (false, st) => (none, st)
  | _, _ => (none, st)

def sysinfoWriteFlag (id : ℕ) (flag : List UInt8) (st : BmState) : Bool × BmState :=
  match flagLayout[id]?, areaLayout st with
  | some f, some l =>
    let st := setValue flagArea (memcpy (ramCopy l) f.offset (flag.take f.length)) st
    match sysinfoSetValue dev bm flagArea none .dev (setReserve flagArea .noReserved st) with
    | (true, st) => (true, setReserve flagArea l.reserve st)
    | (false, st) => (false, st)
  | _, _ => (false, st)

section Frame

variable {dev bm} {mtd : MtdDevInfo} {ls before after : List SysinfoLayout} {l : SysinfoLayout} {st st' : BmState}
  {id : ℕ} {f : SysinfoFlagLayout} {flag : List UInt8}

def Beside (l : SysinfoLayout) (f : SysinfoFlagLayout) (x : ℕ) : Prop :=
  l.offset ≤ x ∧ x < l.offset + l.length ∧ (x < l.offset + f.offset ∨ l.offset + f.offset + f.length ≤ x)

theorem flagLayout_fits (hf : flagLayout[id]? = some f) : f.offset + f.length ≤ 0x400 := by
  have hmem := List.mem_of_getElem? hf
  simp only [flagLayout, List.mem_singleton] at hmem
  subst hmem
  decide

theorem ramCopy_length (htab : Table ls) (hl : l ∈ ls) : (ramCopy l).length = l.length := by
  unfold ramCopy
  cases hv : l.value with
  | none => simp
  | some v => exact htab.value l hl v hv

theorem setReserve_at (r : SysinfoReserve) (hls : st.sysinfo = some (before ++ l :: after)) :
    (setReserve before.length r st).sysinfo = some (before ++ { l with reserve := r } :: after) := by
  rw [setReserve, hls]
  exact congrArg some (modify_at _ before after l)

theorem Table.setReserve (h : Table (before ++ l :: after)) (r : SysinfoReserve) :
    Table (before ++ { l with reserve := r } :: after) := by
  refine ⟨?_, ?_⟩
  · rw [← h.columns, List.map_append, List.map_append]
    rfl
  · intro l' hl'
    rcases List.mem_append.mp hl' with hl' | hl'
    · exact h.value l' (List.mem_append_left _ hl')
    · rcases List.mem_cons.mp hl' with rfl | hl'
      · exact h.value l (by simp)
      · exact h.value l' (List.mem_append_right _ (List.mem_cons_of_mem l hl'))

structure FlagWritten (l : SysinfoLayout) (f : SysinfoFlagLayout) (flag : List UInt8) (st st' : BmState) : Prop where
  mem : st'.mem = writeBytes st.mem l.offset (memcpy (ramCopy l) f.offset flag)
  clean : Clean st'
  sysinfo : ∃ before after value, st'.sysinfo = some (before ++ { l with value := some value } :: after) ∧
    before.length = flagArea ∧ value.length = l.length

theorem writeFlag_working (hw : Working dev) (hplaced : Placed bm mtd) (hclean : Clean st) (hls : st.sysinfo = some ls)
    (htab : Table ls) (hl : ls[flagArea]? = some l) (hb : InBlock mtd l 0) (hf : flagLayout[id]? = some f)
    (hflag : flag.length = f.length) :
    ∃ st', sysinfoWriteFlag dev bm id flag st = (true, st') ∧ FlagWritten l f flag st st' := by
  have harea : areaLayout st = some l := by rw [areaLayout, hls, Option.bind_some, hl]
  obtain ⟨before, after, rfl, hbefore, -⟩ := split_at hl
  have hmem : l ∈ before ++ l :: after := by simp
  have hfits := flagLayout_fits hf
  have hlength : l.length = 0x400 := (htab.mem hmem).1
  have hram := ramCopy_length htab hmem
  set v := memcpy (ramCopy l) f.offset flag with hv
  have hvl : v.length = l.length := by rw [hv, memcpy_length _ _ _ (by omega), hram]
  have htab' := Table.setReserve (htab.setValue hvl) .noReserved
  have hls' := setReserve_at .noReserved (setValue_at v hls)
  have hb' : InBlock mtd { l with value := some v, reserve := .noReserved } 0 := ⟨hb.valid, hb.low, hb.high, hb.nonempty⟩
  have hclean' : Clean (setReserve before.length .noReserved (setValue before.length v st)) := hclean
  obtain ⟨st₁, hset, hfirst⟩ := set_first hw hplaced hclean' hls' htab' hb' none hvl rfl
  have hkept := hfirst.sysinfo
  rw [List.map_append, List.map_cons] at hkept
  have hown : refresh st.mem mtd.start mtd.ebSize { l with value := some v, reserve := .noReserved } =
      { l with value := some v, reserve := .noReserved } := if_neg (by simp)
  refine ⟨setReserve before.length l.reserve st₁, ?_, ?_, hfirst.clean, ?_⟩
  · unfold sysinfoWriteFlag
    rw [hf, harea]
    dsimp only
    rw [← hflag, List.take_length, ← hv, ← hbefore, hset]
  · exact hfirst.mem
  · have hback := setReserve_at l.reserve hkept
    rw [List.length_map] at hback
    refine ⟨before.map (refresh st.mem mtd.start mtd.ebSize), after.map (refresh st.mem mtd.start mtd.ebSize), v,
      hback.trans ?_, by rw [List.length_map, hbefore], hvl⟩
    exact congrArg (fun own : SysinfoLayout => some (_ ++ { own with reserve := l.reserve } :: _)) hown

theorem readFlag_written (hw : Working dev) (hplaced : Placed bm mtd) (hb : InBlock mtd l 0)
    (hf : flagLayout[id]? = some f) (hflag : flag.length = f.length) (hlength : l.length = 0x400)
    (hram : (ramCopy l).length = l.length) (h : FlagWritten l f flag st st') :
    (sysinfoReadFlag dev bm id st').1 = some flag := by
  obtain ⟨before, after, value, hls, hbefore, hvalue⟩ := h.sysinfo
  have hfits := flagLayout_fits hf
  set own : SysinfoLayout := { l with value := some value } with hown
  have hb' : InBlock mtd own 0 := ⟨hb.valid, hb.low, hb.high, hb.nonempty⟩
  have hget : ∀ st : BmState, ∀ own : SysinfoLayout, st.sysinfo = some (before ++ own :: after) →
      areaLayout st = some own := by
    intro st own hls
    rw [areaLayout, hls, ← hbefore]
    simp
  have hsized : ∀ v, own.value = some v → v.length = own.length := by
    intro v hv
    cases hv
    exact hvalue
  obtain ⟨st₁, hread, -, hls₁⟩ := sysinfoGetValue_working hw hb' (InBlock.find hplaced hb') h.clean hls hsized
  have hbytes : ((readBytes st'.mem l.offset l.length).drop f.offset).take f.length = flag := by
    have hvl : (memcpy (ramCopy l) f.offset flag).length = l.length := by rw [memcpy_length _ _ _ (by omega), hram]
    rw [h.mem, ← hvl, readBytes_writeBytes]
    apply List.ext_getElem?
    intro j
    rw [List.getElem?_take, List.getElem?_drop, memcpy_getElem? (by omega)]
    by_cases hj : j < f.length
    · rw [if_pos hj, if_pos (by omega), Nat.add_sub_cancel_left]
    · rw [if_neg hj, List.getElem?_eq_none (by omega)]
  unfold sysinfoReadFlag
  rw [hf, hget st' own hls]
  dsimp only
  rw [← hbefore, hread]
  dsimp only
  rw [hget st₁ _ hls₁, Option.bind_some]
  exact congrArg some hbytes

theorem written_beside (hflag : flag.length = f.length) (hfits : f.offset + f.length ≤ l.length)
    (hram : (ramCopy l).length = l.length) (h : FlagWritten l f flag st st') {x : ℕ} (hx : Beside l f x) :
    (ramCopy l)[x - l.offset]? = some (st'.mem x) := by
  obtain ⟨hlow, hhigh, hbeside⟩ := hx
  have hvl : (memcpy (ramCopy l) f.offset flag).length = l.length := by rw [memcpy_length _ _ _ (by omega), hram]
  obtain ⟨j, rfl⟩ := Nat.exists_eq_add_of_le hlow
  have hj : j < (memcpy (ramCopy l) f.offset flag).length := by omega
  have hbyte : (memcpy (ramCopy l) f.offset flag)[j]? = (ramCopy l)[j]? := by
    rw [memcpy_getElem? (by omega), if_neg (by omega)]
  rw [Nat.add_sub_cancel_left, h.mem, writeBytes_inside _ _ _ _ hj, ← hbyte, List.getElem?_eq_getElem hj]

/-- A flag written is read back, and the rest of the area is kept just when the RAM copy held it. -/
theorem writeFlag_frame_iff (hw : Working dev) (hplaced : Placed bm mtd) (hclean : Clean st) (hls : st.sysinfo = some ls)
    (htab : Table ls) (hl : ls[flagArea]? = some l) (hb : InBlock mtd l 0) (hf : flagLayout[id]? = some f)
    (hflag : flag.length = f.length) :
    (∀ st', sysinfoWriteFlag dev bm id flag st = (true, st') → (sysinfoReadFlag dev bm id st').1 = some flag ∧
      ∀ x, Beside l f x → st'.mem x = st.mem x) ↔
      ∀ x, Beside l f x → (ramCopy l)[x - l.offset]? = some (st.mem x) := by
  have hmem := List.mem_of_getElem? hl
  have hlength := (htab.mem hmem).1
  have hram := ramCopy_length htab hmem
  have hfits := flagLayout_fits hf
  obtain ⟨st', hwrite, hwritten⟩ := writeFlag_working hw hplaced hclean hls htab hl hb hf hflag
  have hbeside : ∀ x, Beside l f x → (ramCopy l)[x - l.offset]? = some (st'.mem x) :=
    fun x hx => written_beside hflag (by omega) hram hwritten hx
  rw [hwrite]
  constructor
  · intro h x hx
    rw [hbeside x hx, (h st' rfl).2 x hx]
  · rintro h st'' heq
    cases heq
    refine ⟨readFlag_written hw hplaced hb hf hflag hlength hram hwritten, fun x hx => ?_⟩
    exact Option.some_inj.mp ((hbeside x hx).symm.trans (h x hx))

end Frame

def zeroFlash : BmState := ⟨⟨fun _ => 0, []⟩, none, some layout⟩

def updateStart : List UInt8 := [0x5a, 0x5a, 0x5a, 0x5a]

theorem layout_flagArea : layout[flagArea]? = some (flagRegion .reserved) := rfl

theorem writeFlag_frame_iff_zero : ∃ st', sysinfoWriteFlag (failsAt []) bootParts 0 updateStart zeroFlash = (true, st') ∧
    (sysinfoReadFlag (failsAt []) bootParts 0 st').1 = some updateStart ∧
      ∀ x, Beside (flagRegion .reserved) ⟨0, 4⟩ x → st'.mem x = zeroFlash.mem x := by
  have hclean : Clean zeroFlash := fun _ => rfl
  have hf : flagLayout[0]? = some ⟨0, 4⟩ := rfl
  have hflag : updateStart.length = 4 := rfl
  obtain ⟨st', hwrite, -⟩ := writeFlag_working failsAt_working bootParts_placed hclean rfl layout_table layout_flagArea
    (flagRegion_boot .reserved) hf hflag
  refine ⟨st', hwrite, ?_⟩
  refine (writeFlag_frame_iff failsAt_working bootParts_placed (fun _ => rfl) rfl layout_table layout_flagArea
    (flagRegion_boot .reserved) rfl rfl).mpr (fun x hx => ?_) st' hwrite
  have hlow : 0x6000 ≤ x := hx.1
  have hhigh : x < 0x6000 + 0x400 := hx.2.1
  exact List.getElem?_replicate_of_lt (by omega : x - 0x6000 < 0x400)

/-- With the area never loaded, writing the flag turns the bytes after it from `0xFF` to zero. -/
theorem unloaded_write_clears : ∃ st', sysinfoWriteFlag (failsAt []) bootParts 0 updateStart (blankFlash layout) =
      (true, st') ∧
    ¬((sysinfoReadFlag (failsAt []) bootParts 0 st').1 = some updateStart ∧
      ∀ x, Beside (flagRegion .reserved) ⟨0, 4⟩ x → st'.mem x = (blankFlash layout).mem x) := by
  have hf : flagLayout[0]? = some ⟨0, 4⟩ := rfl
  have hclean : Clean (blankFlash layout) := fun _ => rfl
  have hflag : updateStart.length = 4 := rfl
  have hram : (ramCopy (flagRegion .reserved)).length = (flagRegion .reserved).length :=
    ramCopy_length layout_table (List.mem_of_getElem? layout_flagArea)
  obtain ⟨st', hwrite, hwritten⟩ := writeFlag_working failsAt_working bootParts_placed hclean rfl layout_table
    layout_flagArea (flagRegion_boot .reserved) hf hflag
  refine ⟨st', hwrite, fun h => ?_⟩
  have hx : Beside (flagRegion .reserved) ⟨0, 4⟩ 0x6004 := by simp [Beside, flagRegion]
  have hbyte := written_beside hflag (by decide) hram hwritten hx
  have hzero : (ramCopy (flagRegion .reserved))[0x6004 - (flagRegion .reserved).offset]? = some 0 :=
    List.getElem?_replicate_of_lt (by simp [flagRegion])
  rw [h.2 0x6004 hx, hzero] at hbyte
  exact absurd (Option.some_inj.mp hbyte) (by decide)

end LinuxRecovery.SysinfoFlag
