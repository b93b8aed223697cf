import LinuxRecovery.BlockRewrite

namespace LinuxRecovery.SysinfoSet

open ByteMemory Libmtd BlockMap Sysinfo BasicWrite BasicRead BlockScan SysinfoSave SysinfoHook BasicErase PageWrites BlockRewrite

inductive SysinfoOperation where
  | ram
  | dev
  deriving DecidableEq

section Model

variable (dev : Device) (bm : PartInfo)

def writeRegion (mtd : MtdDevInfo) (l : SysinfoLayout) (value : List UInt8) (st : BmState) : Bool × BmState :=
  let blkalignedAddr := mtdBlockAlign mtd l.offset
  match mtdBlockScan dev mtd false .random bm.capacity blkalignedAddr mtd.ebSize st with
  | (.off (_ + 1), st) =>
    let out := mtdBasicRead dev mtd blkalignedAddr mtd.ebSize st
    let tmpbuf := out.buffer ++ List.replicate (mtd.ebSize - out.buffer.length) 0
    match out.ret with
    | .off _ =>
      let tmpbuf := memcpy tmpbuf (l.offset - blkalignedAddr) value
      match mtdBasicErase dev bm mtd fsNormal mtd.ebSize out.st with
      | (.off _, st) =>
        let out := mtdBasicWrite dev mtd fsNormal mtd.ebSize 0 blkalignedAddr tmpbuf st
        match out.ret with
        | .off _ => (true, out.st)
        | _ => (false, out.st)
      | (_, st) => (false, st)
    | _ => (false, out.st)
  | (_, st) => (false, st)

/-- Without a buffer `sysinfo_set_value` sends what the cache holds. -/
def sysinfoSetValue (id : ℕ) (buf : Option (List UInt8)) (flag : SysinfoOperation) (st : BmState) : Bool × BmState :=
  match st.sysinfo.bind (fun ls => ls[id]?) with
  | none => (false, st)
  | some l =>
    let value := (buf.map (List.take l.length)).getD (l.value.getD (List.replicate l.length 0))
    let st := setValue id value st
    match flag with
    | .ram => (true, st)
    | .dev =>
      match mtdGetDevInfoByOffset bm l.offset with
      | none => (false, st)
      | some mtd => if mtd.ebSize < l.length then (false, st) else writeRegion dev bm mtd l value st

end Model

/-- The layout table with its columns as declared, whatever is cached or reserved. -/
structure Table (ls : List SysinfoLayout) : Prop where
  columns : ls.map (fun l => (l.offset, l.length)) = layout.map (fun l => (l.offset, l.length))
  value : ∀ l ∈ ls, ∀ v, l.value = some v → v.length = l.length

def Placed (bm : PartInfo) (mtd : MtdDevInfo) : Prop :=
  ∃ before after, bm.parts = before ++ mtd :: after ∧ mtd.start = (before.map MtdDevInfo.size).sum

section Setup

variable {bm : PartInfo} {mtd : MtdDevInfo} {ls : List SysinfoLayout} {l l' : SysinfoLayout} {b id : ℕ}

theorem Table.mem (h : Table ls) (hl : l ∈ ls) : l.length = 0x400 ∧ (l.offset = 0x3c00 ∨ l.offset = 0x6000) := by
  have hmem := List.mem_map_of_mem (f := fun l : SysinfoLayout => (l.offset, l.length)) hl
  rw [h.columns] at hmem
  simp only [layout, List.map_cons, List.map_nil, List.mem_cons, List.not_mem_nil, or_false, Prod.mk.injEq] at hmem
  omega

theorem Table.tabled (h : Table ls) : Tabled ls := by
  refine ⟨?_, fun l hl => by have := (h.mem hl).1; omega, h.value⟩
  have hpair : (ls.map (fun l => (l.offset, l.length))).Pairwise (fun p q => p.1 + p.2 ≤ q.1) := by
    rw [h.columns]
    decide
  exact List.pairwise_map.mp hpair

theorem Placed.find (h : Placed bm mtd) {offset : ℕ} (hlow : mtd.start ≤ offset) (hhigh : offset < mtd.start + mtd.size) :
    mtdGetDevInfoByOffset bm offset = some mtd := by
  obtain ⟨before, after, hparts, hstart⟩ := h
  have hfrom (size : ℕ) (before : List MtdDevInfo) (h1 : size + (before.map MtdDevInfo.size).sum ≤ offset)
      (h2 : offset < size + (before.map MtdDevInfo.size).sum + mtd.size) :
      devInfoFrom offset size (before ++ mtd :: after) = some mtd := by
    induction before generalizing size with
    | nil =>
      rw [List.map_nil, List.sum_nil, Nat.add_zero] at h2
      exact if_pos h2
    | cons part before ih =>
      rw [List.map_cons, List.sum_cons] at h1 h2
      rw [List.cons_append, devInfoFrom, if_neg (by omega)]
      exact ih _ (by omega) (by omega)
  rw [mtdGetDevInfoByOffset, hparts]
  exact hfrom 0 before (by omega) (by omega)


theorem InBlock.find (h : Placed bm mtd) (hl : InBlock mtd l b) : mtdGetDevInfoByOffset bm l.offset = some mtd := by
  have hlow := hl.low
  have hhigh := hl.high
  have hne := hl.nonempty
  have hfits := block_fits hl.valid
  rw [Nat.succ_mul] at hhigh
  exact h.find (by omega) (by omega)

theorem unit_dvd (h : 0x400 ≤ mtd.ebSize) : 0x400 ∣ mtd.ebSize := by
  obtain ⟨k, hk⟩ := mtd.ebSize_pow
  rw [hk, show 0x400 = 2 ^ 10 from rfl]
  apply Nat.pow_dvd_pow
  by_contra hlt
  have := Nat.pow_le_pow_right (show 0 < 2 by omega) (show k ≤ 9 by omega)
  omega

theorem Table.inBlock (h : Table ls) (hl : l ∈ ls) (hb : InBlock mtd l b) (hl' : l' ∈ ls) {b' : ℕ} (hb' : b' < mtd.ebCnt)
    (htouch : Touches l' (mtd.start + b' * mtd.ebSize) mtd.ebSize) : InBlock mtd l' b' := by
  obtain ⟨x, h1, h2, h3, h4⟩ := htouch
  obtain ⟨hlen, -⟩ := h.mem hl
  obtain ⟨hlen', hoff'⟩ := h.mem hl'
  have hlow := hb.low
  have hhigh := hb.high
  rw [Nat.succ_mul] at hhigh
  have hunit : 0x400 ∣ mtd.ebSize := unit_dvd (by omega)
  obtain ⟨s, hs⟩ : 0x400 ∣ mtd.start + b' * mtd.ebSize :=
    Nat.dvd_add (hunit.trans mtd.start_dvd) (Dvd.dvd.mul_left hunit b')
  obtain ⟨e, he⟩ := hunit
  exact ⟨hb', by omega, by rw [Nat.succ_mul]; omega, by omega⟩

theorem Table.readable (h : Table ls) (hplaced : Placed bm mtd) (hl : l ∈ ls) (hb : InBlock mtd l b) :
    Readable bm mtd ls mtd.start mtd.ebSize := by
  intro l' hl' _ hout
  have hpos : 0 < l'.length := by have := (h.mem hl').1; omega
  have hvalid : 0 < mtd.ebCnt := Nat.lt_of_le_of_lt (Nat.zero_le b) hb.valid
  have htouch := (touches_iff hpos mtd.ebSize_pos).mpr hout
  have hin : InBlock mtd l' 0 := h.inBlock hl hb hl' hvalid (by rwa [Nat.zero_mul, Nat.add_zero])
  exact ⟨InBlock.find hplaced hin, 0, hin⟩

theorem refresh_columns (m : Memory) (a n : ℕ) (l : SysinfoLayout) : (refresh m a n l).offset = l.offset ∧
    (refresh m a n l).length = l.length ∧ (refresh m a n l).reserve = l.reserve := by
  unfold refresh
  split_ifs
  · exact ⟨rfl, rfl, rfl⟩
  · exact ⟨rfl, rfl, rfl⟩

theorem Table.refresh (h : Table ls) (m : Memory) (a n : ℕ) : Table (ls.map (refresh m a n)) := by
  refine ⟨?_, ?_⟩
  · rw [← h.columns, List.map_map]
    apply List.map_congr_left
    intro l _
    obtain ⟨h1, h2, -⟩ := refresh_columns m a n l
    exact Prod.ext h1 h2
  · intro l' hl'
    obtain ⟨l, hl, rfl⟩ := List.mem_map.mp hl'
    intro v hv
    unfold BlockRewrite.refresh at hv ⊢
    split_ifs at hv ⊢
    · cases hv
      exact readBytes_length _ _ _
    · exact h.value l hl v hv

theorem Table.setValue {before after : List SysinfoLayout} (h : Table (before ++ l :: after)) {v : List UInt8}
    (hv : v.length = l.length) : Table (before ++ { l with value := some v } :: after) := by
  refine ⟨?_, ?_⟩
  · rw [← h.columns, List.map_append, List.map_append]
    rfl
  · intro l' hl' w hw
    rcases List.mem_append.mp hl' with hl' | hl'
    · exact h.value l' (List.mem_append_left _ hl') w hw
    · rcases List.mem_cons.mp hl' with rfl | hl'
      · cases hw
        exact hv
      · exact h.value l' (List.mem_append_right _ (List.mem_cons_of_mem l hl')) w hw

theorem InBlock.align (hl : InBlock mtd l b) : mtdBlockAlign mtd l.offset = mtd.start + b * mtd.ebSize := by
  have hindex : l.offset / mtd.ebSize = mtd.start / mtd.ebSize + b := hl.start_index
  rw [mtdBlockAlign, hindex, Nat.add_mul, Nat.div_mul_cancel mtd.start_dvd]

theorem memcpy_readBytes (m : Memory) {a n o : ℕ} {v : List UInt8} (ho : a ≤ o) (hv : o + v.length ≤ a + n) :
    memcpy (readBytes m a n) (o - a) v = readBytes (writeBytes m o v) a n := by
  apply List.ext_getElem?
  intro j
  rw [memcpy_getElem? (by rw [readBytes_length]; omega)]
  by_cases hj : j < n
  · rw [List.getElem?_eq_getElem (show j < (readBytes (writeBytes m o v) a n).length by rwa [readBytes_length]),
      readBytes_getElem]
    split_ifs with hin
    · have hk : a + j = o + (j - (o - a)) := by omega
      rw [hk, writeBytes_inside m o _ v (by omega), List.getElem?_eq_getElem (by omega)]
    · rw [List.getElem?_eq_getElem (by rwa [readBytes_length]), readBytes_getElem,
        writeBytes_outside m o _ v (by omega)]
  · rw [if_neg (by omega), List.getElem?_eq_none (by rw [readBytes_length]; omega),
      List.getElem?_eq_none (by rw [readBytes_length]; omega)]

end Setup

section Region

variable {dev : Device} {bm : PartInfo} {mtd : MtdDevInfo} {ls before after : List SysinfoLayout} {l : SysinfoLayout}
  {b : ℕ} {st : BmState} {v : List UInt8}

theorem writeRegion_working (hw : Working dev) (hplaced : Placed bm mtd) (htab : Table ls) (hl : l ∈ ls)
    (hb : InBlock mtd l b) (hclean : Clean st) (hls : st.sysinfo = some ls) (hv : v.length = l.length)
    {ls' : List SysinfoLayout} (hls' : ls' = ls.map (refresh st.mem mtd.start mtd.ebSize)) :
    ∃ st₁ st₂, Quiet st st₁ ∧ FirstErased mtd ls st₁ st₂ ∧
      ((Valued ls' (mtd.start + b * mtd.ebSize) mtd.ebSize ∧ ∃ st', writeRegion dev bm mtd l v st = (true, st') ∧
          Rewritten mtd ls' (writeBytes st.mem l.offset v) (mtd.start + b * mtd.ebSize) mtd.ebSize st₂ st') ∨
        (¬Valued ls' (mtd.start + b * mtd.ebSize) mtd.ebSize ∧ (writeRegion dev bm mtd l v st).1 = false)) := by
  have hpos := mtd.ebSize_pos
  have hlow := hb.low
  have hhigh := hb.high
  rw [Nat.succ_mul, ← Nat.add_assoc] at hhigh
  have hcnt : 0 < mtd.ebCnt := Nat.lt_of_le_of_lt (Nat.zero_le b) hb.valid
  -- the whole block, read like a region of its own
  have hblock : InBlock mtd ⟨mtd.start + b * mtd.ebSize, mtd.ebSize, none, .noReserved⟩ b :=
    ⟨hb.valid, le_rfl, by rw [Nat.succ_mul, ← Nat.add_assoc], hpos⟩
  obtain ⟨k, st₀, n, st₁, hscan, hread, hquiet, hsys⟩ := fetch_working hw hblock hclean hls bm.capacity
  dsimp only at hscan hread
  have hls₁ := hsys.trans hls
  obtain ⟨n', st₂, herase, hfirst⟩ := erase_working hw (htab.readable hplaced hl hb) htab.tabled hcnt hquiet.clean
    hquiet.mapped hls₁
  have hsys₂ : st₂.sysinfo = some ls' := by rw [hfirst.sysinfo, hquiet.mem, hls']
  have htab' : Tabled ls' := by
    rw [hls']
    exact (htab.refresh _ _ _).tabled
  have hwrite := basicWrite_block (writeBytes st.mem l.offset v) hw hpos.ne' htab' hb.valid hfirst.clean
    hfirst.mapped hsys₂ rfl
  have hregion : writeRegion dev bm mtd l v st =
      match (mtdBasicWrite dev mtd fsNormal mtd.ebSize 0 (mtd.start + b * mtd.ebSize : ℕ)
        (readBytes (writeBytes st.mem l.offset v) (mtd.start + b * mtd.ebSize) mtd.ebSize) st₂).ret with
      | .off _ => (true, (mtdBasicWrite dev mtd fsNormal mtd.ebSize 0 (mtd.start + b * mtd.ebSize : ℕ)
        (readBytes (writeBytes st.mem l.offset v) (mtd.start + b * mtd.ebSize) mtd.ebSize) st₂).st)
      | _ => (false, (mtdBasicWrite dev mtd fsNormal mtd.ebSize 0 (mtd.start + b * mtd.ebSize : ℕ)
        (readBytes (writeBytes st.mem l.offset v) (mtd.start + b * mtd.ebSize) mtd.ebSize) st₂).st) := by
    unfold writeRegion
    dsimp only
    rw [InBlock.align hb, hscan]
    dsimp only
    rw [hread]
    dsimp only
    rw [readBytes_length, Nat.sub_self, List.replicate_zero, List.append_nil, memcpy_readBytes _ hlow (by omega), herase]
  refine ⟨st₁, st₂, hquiet, hfirst, ?_⟩
  rcases hwrite with ⟨hvalued, ⟨m, hret⟩, hre⟩ | ⟨hvalued, hret⟩
  · left
    refine ⟨hvalued, _, ?_, hre⟩
    rw [hregion, hret]
  · right
    refine ⟨hvalued, ?_⟩
    rw [hregion, hret]

theorem sysinfoSetValue_dev (hplaced : Placed bm mtd) (hb : InBlock mtd l b) (hls : st.sysinfo = some (before ++ l :: after))
    {buf : Option (List UInt8)} (hv : v = (buf.map (List.take l.length)).getD (l.value.getD (List.replicate l.length 0))) :
    sysinfoSetValue dev bm before.length buf .dev st = writeRegion dev bm mtd l v (setValue before.length v st) := by
  have hlow := hb.low
  have hhigh := hb.high
  rw [Nat.succ_mul] at hhigh
  have hget : st.sysinfo.bind (fun ls => ls[before.length]?) = some l := by
    rw [hls]
    simp
  unfold sysinfoSetValue
  rw [hget]
  dsimp only
  rw [← hv, InBlock.find hplaced hb]
  dsimp only
  rw [if_neg (by omega)]

theorem Tabled.eq_of_overlap {l' : SysinfoLayout} (h : Tabled ls) (hl : l ∈ ls) (hl' : l' ∈ ls) {x : ℕ}
    (h1 : l.offset ≤ x ∧ x < l.offset + l.length) (h2 : l'.offset ≤ x ∧ x < l'.offset + l'.length) : l = l' := by
  by_contra hne
  let Apart (a b : SysinfoLayout) : Prop := a.offset + a.length ≤ b.offset ∨ b.offset + b.length ≤ a.offset
  have : Std.Symm Apart := ⟨fun _ _ h => Or.symm h⟩
  have hapart : ls.Pairwise Apart := h.disjoint.imp Or.inl
  have hor : Apart l l' := hapart.forall hl hl' hne
  rcases hor with hor | hor
  · omega
  · omega

theorem mergedByte_refreshed {m old : Memory} {a n x : ℕ} (hx : a ≤ x ∧ x < a + n) :
    mergedByte (ls.map (refresh m a n)) old x = if ls.any (reservedAt x) = true then m x else old x := by
  have hsame : reservedAt x ∘ refresh m a n = reservedAt x := by
    funext l
    obtain ⟨h1, h2, h3⟩ := refresh_columns m a n l
    rw [Function.comp, reservedAt, reservedAt, h1, h2, h3]
  rw [mergedByte, List.find?_map, hsame]
  cases hfind : ls.find? (reservedAt x) with
  | none =>
    rw [if_neg]
    · rfl
    · rw [Bool.not_eq_true, List.any_eq_false]
      exact List.find?_eq_none.mp hfind
  | some l =>
    have hl := List.mem_of_find?_eq_some hfind
    have hres : reservedAt x l = true := List.find?_some hfind
    obtain ⟨hr, h1, h2⟩ := of_decide_eq_true hres
    have hout : SysinfoLayout.outside l a (a + n) = false := by
      simp only [SysinfoLayout.outside, Bool.or_eq_false_iff, decide_eq_false_iff_not]
      omega
    rw [if_pos (List.any_eq_true.mpr ⟨l, hl, hres⟩), Option.map_some]
    dsimp only
    have hlt : x - l.offset < (readBytes m l.offset l.length).length := by
      rw [readBytes_length]
      omega
    rw [refresh, if_pos ⟨hr, hout⟩, Option.bind_some, List.getElem?_eq_getElem hlt, readBytes_getElem, Option.getD_some,
      Nat.add_sub_of_le h1]

end Region

section Frame

variable {dev : Device} {bm : PartInfo} {mtd : MtdDevInfo} {ls before after : List SysinfoLayout} {l : SysinfoLayout}
  {b : ℕ} {st : BmState} {v : List UInt8}

def Restored (mtd : MtdDevInfo) : List DevCall → Prop
  | [] => True
  | .erase start eb :: new =>
    (∀ x, start + eb * mtd.ebSize ≤ x → x < start + (eb + 1) * mtd.ebSize → Programmed mtd new x) ∧ Restored mtd new
  | _ :: new => Restored mtd new

theorem restored_append {new rest : List DevCall} (h : ∀ start eb, DevCall.erase start eb ∉ new) :
    Restored mtd (new ++ rest) ↔ Restored mtd rest := by
  induction new with
  | nil => exact Iff.rfl
  | cons call new ih =>
    have hrest := ih (fun start eb hmem => h start eb (List.mem_cons_of_mem call hmem))
    cases call with
    | erase start eb => exact absurd List.mem_cons_self (h start eb)
    | write => exact hrest
    | read => exact hrest
    | markBad => exact hrest
    | isBad => exact hrest
    | unlock => exact hrest
    | cleanMarker => exact hrest

theorem restored_quiet {new : List DevCall} (h : ∀ start eb, DevCall.erase start eb ∉ new) : Restored mtd new := by
  rw [← List.append_nil new, restored_append h]
  trivial

structure SetsOnly (mtd : MtdDevInfo) (l : SysinfoLayout) (buf : List UInt8) (st st' : BmState) : Prop where
  mem : st'.mem = writeBytes st.mem l.offset buf
  calls : ∃ new, st'.calls = st.calls ++ new ∧ Restored mtd new

theorem restored_iff {ls' : List SysinfoLayout} {old : Memory} {st₁ st₂ st' : BmState} (hquiet : Quiet st st₁)
    (hfirst : FirstErased mtd ls st₁ st₂)
    (hre : Rewritten mtd ls' old (mtd.start + b * mtd.ebSize) mtd.ebSize st₂ st') :
    (∃ new, st'.calls = st.calls ++ new ∧ Restored mtd new) ↔ b = 0 := by
  obtain ⟨new₁, h1, hno₁⟩ := hquiet.calls
  obtain ⟨new₂, h2, hno₂⟩ := hfirst.calls
  obtain ⟨new₃, h3, hno₃, hprog⟩ := hre.calls
  have hpos := mtd.ebSize_pos
  have hcalls : st'.calls = st.calls ++ ((new₁ ++ new₂) ++ (.erase mtd.start 0 :: new₃)) := by
    rw [h3, h2, h1]
    simp
  have hno : ∀ start eb, DevCall.erase start eb ∉ new₁ ++ new₂ := by
    intro start eb hmem
    rcases List.mem_append.mp hmem with hmem | hmem
    · cases hno₁ _ hmem
    · cases hno₂ _ hmem
  have hrestored : Restored mtd ((new₁ ++ new₂) ++ (.erase mtd.start 0 :: new₃)) ↔ b = 0 := by
    rw [restored_append hno, Restored]
    simp only [hprog, restored_quiet hno₃, and_true, Nat.zero_mul, Nat.add_zero, Nat.zero_add, Nat.one_mul]
    constructor
    · intro h
      by_contra hb
      have hle : mtd.ebSize ≤ b * mtd.ebSize := Nat.le_mul_of_pos_left _ (Nat.pos_of_ne_zero hb)
      have := h mtd.start le_rfl (by omega)
      omega
    · rintro rfl x hlow hhigh
      omega
  rw [← hrestored]
  constructor
  · rintro ⟨new, hnew, hr⟩
    rw [hcalls] at hnew
    rwa [List.append_cancel_left hnew]
  · intro hr
    exact ⟨_, hcalls, hr⟩

theorem first_mem {ls' : List SysinfoLayout} {st₁ st₂ st' : BmState} (htab : Table (before ++ l :: after))
    (hv : v.length = l.length) (hb : InBlock mtd l 0)
    (hls' : ls' = (before ++ { l with value := some v } :: after).map (refresh st.mem mtd.start mtd.ebSize))
    (hquiet : Quiet st st₁) (hfirst : FirstErased mtd ls st₁ st₂)
    (hre : Rewritten mtd ls' (writeBytes st.mem l.offset v) (mtd.start + 0 * mtd.ebSize) mtd.ebSize st₂ st') :
    st'.mem = if l.reserve = .reserved then st.mem else writeBytes st.mem l.offset v := by
  have htab' := (htab.setValue hv).tabled
  have hown : { l with value := some v } ∈ before ++ { l with value := some v } :: after := by simp
  have hlow := hb.low
  have hhigh := hb.high
  rw [Nat.zero_mul, Nat.add_zero] at hlow
  rw [Nat.zero_add, Nat.one_mul] at hhigh
  funext x
  have houter (hx : ¬(l.offset ≤ x ∧ x < l.offset + l.length)) : writeBytes st.mem l.offset v x = st.mem x :=
    writeBytes_outside _ _ _ _ (by omega)
  rw [hre.mem x, Nat.zero_mul, Nat.add_zero]
  by_cases hblock : mtd.start ≤ x ∧ x < mtd.start + mtd.ebSize
  · rw [if_pos hblock, hls', mergedByte_refreshed hblock]
    by_cases hin : l.offset ≤ x ∧ x < l.offset + l.length
    · by_cases hr : l.reserve = .reserved
      · rw [if_pos hr, if_pos]
        exact List.any_eq_true.mpr ⟨_, hown, decide_eq_true ⟨hr, hin⟩⟩
      · rw [if_neg hr, if_neg]
        rw [Bool.not_eq_true, List.any_eq_false]
        intro l' hl' hres
        obtain ⟨hr', hin'⟩ := of_decide_eq_true hres
        rw [← Tabled.eq_of_overlap htab' hown hl' hin hin'] at hr'
        exact hr hr'
    · rw [houter hin, ite_self]
      split_ifs
      · rfl
      · exact (houter hin).symm
  · have hclear : ¬(l.offset ≤ x ∧ x < l.offset + l.length) := by omega
    rw [if_neg hblock, hfirst.mem, fillBytes_outside _ _ _ _ _ (by omega), hquiet.mem]
    split_ifs
    · rfl
    · exact (houter hclear).symm

theorem refresh_isSome {m : Memory} {a n : ℕ} (h : l.value.isSome = true) : (refresh m a n l).value.isSome = true := by
  unfold refresh
  split_ifs
  · rfl
  · exact h

theorem later_valued {m : Memory} {ls' : List SysinfoLayout} (htab : Table (before ++ l :: after)) (hv : v.length = l.length)
    (hb : InBlock mtd l b) (hb0 : b ≠ 0)
    (hls' : ls' = (before ++ { l with value := some v } :: after).map (refresh m mtd.start mtd.ebSize)) :
    Valued ls' (mtd.start + b * mtd.ebSize) mtd.ebSize ↔
      ∀ l' ∈ before ++ after, l'.reserve = .reserved → InBlock mtd l' b → l'.value.isSome = true := by
  have htab' := htab.setValue hv
  have hown : { l with value := some v } ∈ before ++ { l with value := some v } :: after := by simp
  have hb' : InBlock mtd { l with value := some v } b := ⟨hb.valid, hb.low, hb.high, hb.nonempty⟩
  have hle : mtd.ebSize ≤ b * mtd.ebSize := Nat.le_mul_of_pos_left _ (Nat.pos_of_ne_zero hb0)
  rw [hls']
  constructor
  · intro hvalued l' hl' hr hin
    have hmem : l' ∈ before ++ { l with value := some v } :: after := by
      rcases List.mem_append.mp hl' with hl' | hl'
      · exact List.mem_append_left _ hl'
      · exact List.mem_append_right _ (List.mem_cons_of_mem _ hl')
    have hlow := hin.low
    have hhigh := hin.high
    have hne := hin.nonempty
    rw [Nat.succ_mul] at hhigh
    have hsame : refresh m mtd.start mtd.ebSize l' = l' := if_neg (by
      rintro ⟨-, hout⟩
      simp only [SysinfoLayout.outside, Bool.or_eq_false_iff, decide_eq_false_iff_not] at hout
      omega)
    have hvalue := hvalued (refresh m mtd.start mtd.ebSize l') (List.mem_map_of_mem hmem)
    rw [hsame] at hvalue
    exact hvalue hr ⟨l'.offset, le_rfl, by omega, by omega, by omega⟩
  · intro hothers l'' hl'' hr htouch
    obtain ⟨l', hl', rfl⟩ := List.mem_map.mp hl''
    obtain ⟨h1, h2, h3⟩ := refresh_columns m mtd.start mtd.ebSize l'
    rw [h3] at hr
    rw [Touches, h1, h2] at htouch
    apply refresh_isSome
    have hin : InBlock mtd l' b := htab'.inBlock hown hb' hl' hb.valid htouch
    rcases List.mem_append.mp hl' with hmem | hmem
    · exact hothers l' (List.mem_append_left _ hmem) hr hin
    · rcases List.mem_cons.mp hmem with rfl | hmem
      · rfl
      · exact hothers l' (List.mem_append_right _ hmem) hr hin

theorem writeBytes_eq_self (m : Memory) (a n : ℕ) (bs : List UInt8) (hn : bs.length = n) :
    m = writeBytes m a bs ↔ bs = readBytes m a n := by
  subst hn
  constructor
  · intro h
    rw [h, readBytes_writeBytes]
  · intro h
    funext x
    rw [h, writeBytes_readBytes, ite_self]

theorem split_at {id : ℕ} (hl : ls[id]? = some l) :
    ∃ before after, ls = before ++ l :: after ∧ before.length = id ∧ ls.eraseIdx id = before ++ after := by
  obtain ⟨hlt, hget⟩ := List.getElem?_eq_some_iff.mp hl
  refine ⟨ls.take id, ls.drop (id + 1), ?_, by rw [List.length_take]; omega, List.eraseIdx_eq_take_drop_succ ls id⟩
  rw [← hget, List.getElem_cons_drop, List.take_append_drop]

theorem first_valued {m : Memory} {a n : ℕ} (htab : Tabled ls) (hn : 0 < n) : Valued (ls.map (refresh m a n)) a n := by
  intro l'' hl'' hr htouch
  obtain ⟨l', hl', rfl⟩ := List.mem_map.mp hl''
  obtain ⟨h1, h2, h3⟩ := refresh_columns m a n l'
  rw [h3] at hr
  rw [Touches, h1, h2] at htouch
  rw [refresh, if_pos ⟨hr, (touches_iff (htab.nonempty l' hl') hn).mp htouch⟩]
  rfl

theorem buffer_value {buf : List UInt8} (hbuf : buf.length = l.length) :
    buf = ((some buf).map (List.take l.length)).getD (l.value.getD (List.replicate l.length 0)) := by
  rw [Option.map_some, Option.getD_some, ← hbuf, List.take_length]

structure FirstSet (mtd : MtdDevInfo) (l : SysinfoLayout) (ls : List SysinfoLayout) (v : List UInt8) (st st' : BmState) :
    Prop where
  mem : st'.mem = if l.reserve = .reserved then st.mem else writeBytes st.mem l.offset v
  clean : Clean st'
  sysinfo : st'.sysinfo = some (ls.map (refresh st.mem mtd.start mtd.ebSize))
  restored : ∃ new, st'.calls = st.calls ++ new ∧ Restored mtd new

theorem set_first (hw : Working dev) (hplaced : Placed bm mtd) (hclean : Clean st)
    (hls : st.sysinfo = some (before ++ l :: after)) (htab : Table (before ++ l :: after)) (hb : InBlock mtd l 0)
    (buf : Option (List UInt8)) (hv : v.length = l.length)
    (hvalue : v = (buf.map (List.take l.length)).getD (l.value.getD (List.replicate l.length 0))) :
    ∃ st', sysinfoSetValue dev bm before.length buf .dev st = (true, st') ∧
      FirstSet mtd l (before ++ { l with value := some v } :: after) v st st' := by
  have hown : { l with value := some v } ∈ before ++ { l with value := some v } :: after := by simp
  have hb' : InBlock mtd { l with value := some v } 0 := ⟨hb.valid, hb.low, hb.high, hb.nonempty⟩
  have hclean' : Clean (setValue before.length v st) := hclean
  obtain ⟨ls', hls'⟩ : ∃ ls', ls' = (before ++ { l with value := some v } :: after).map
    (refresh st.mem mtd.start mtd.ebSize) := ⟨_, rfl⟩
  obtain ⟨st₁, st₂, hquiet, hfirst, hout⟩ := writeRegion_working hw hplaced (htab.setValue hv) hown hb' hclean'
    (setValue_at v hls) hv hls'
  rw [sysinfoSetValue_dev hplaced hb hls hvalue]
  have hvalued : Valued ls' (mtd.start + 0 * mtd.ebSize) mtd.ebSize := by
    rw [hls', Nat.zero_mul, Nat.add_zero]
    exact first_valued (htab.setValue hv).tabled mtd.ebSize_pos
  rcases hout with ⟨-, st', hset, hre⟩ | ⟨hnot, -⟩
  · have hquiet' : Quiet st st₁ := ⟨hquiet.mem, hquiet.clean, hquiet.mapped, hquiet.calls⟩
    refine ⟨st', hset, first_mem htab hv hb hls' hquiet' hfirst hre, ?_, ?_, (restored_iff hquiet' hfirst hre).mpr rfl⟩
    · intro n
      rw [mtdBmBlockMapIsBad, hre.map]
      exact hfirst.clean n
    · rw [hre.sysinfo, hfirst.sysinfo, hquiet.mem]
      rfl
  · exact absurd hvalued hnot

theorem set_later (hw : Working dev) (hplaced : Placed bm mtd) (hclean : Clean st)
    (hls : st.sysinfo = some (before ++ l :: after)) (htab : Table (before ++ l :: after)) (hb : InBlock mtd l b)
    (hb0 : b ≠ 0) {buf : Option (List UInt8)} (hv : v.length = l.length)
    (hvalue : v = (buf.map (List.take l.length)).getD (l.value.getD (List.replicate l.length 0))) :
    ((∀ l' ∈ before ++ after, l'.reserve = .reserved → InBlock mtd l' b → l'.value.isSome = true) ∧
      ∃ st', sysinfoSetValue dev bm before.length buf .dev st = (true, st') ∧
        ¬∃ new, st'.calls = st.calls ++ new ∧ Restored mtd new) ∨
    (¬(∀ l' ∈ before ++ after, l'.reserve = .reserved → InBlock mtd l' b → l'.value.isSome = true) ∧
      (sysinfoSetValue dev bm before.length buf .dev st).1 = false) := by
  have hown : { l with value := some v } ∈ before ++ { l with value := some v } :: after := by simp
  have hb' : InBlock mtd { l with value := some v } b := ⟨hb.valid, hb.low, hb.high, hb.nonempty⟩
  have hclean' : Clean (setValue before.length v st) := hclean
  obtain ⟨st₁, st₂, hquiet, hfirst, hout⟩ := writeRegion_working hw hplaced (htab.setValue hv) hown hb' hclean'
    (setValue_at v hls) hv rfl
  rw [sysinfoSetValue_dev hplaced hb hls hvalue, ← later_valued htab hv hb hb0 rfl]
  rcases hout with ⟨hvalued, st', hset, hre⟩ | ⟨hnot, hfail⟩
  · exact Or.inl ⟨hvalued, st', hset, fun h => hb0 ((restored_iff hquiet hfirst hre).mp h)⟩
  · exact Or.inr ⟨hnot, hfail⟩

/-- A set changes its region alone just when the region lies in the first block and is not reserved there. Elsewhere
it leaves the first block erased, unless a region beside it has no cached value and the call fails. -/
theorem setsOnly_iff (hw : Working dev) (hplaced : Placed bm mtd) (hclean : Clean st) (hls : st.sysinfo = some ls)
    (htab : Table ls) {id : ℕ} (hl : ls[id]? = some l) (hb : InBlock mtd l b) {buf : List UInt8}
    (hbuf : buf.length = l.length) :
    (∀ st', sysinfoSetValue dev bm id (some buf) .dev st = (true, st') → SetsOnly mtd l buf st st') ↔
      (b = 0 ∧ (l.reserve ≠ .reserved ∨ buf = readBytes st.mem l.offset l.length)) ∨
      (b ≠ 0 ∧ ∃ l' ∈ ls.eraseIdx id, l'.reserve = .reserved ∧ InBlock mtd l' b ∧ l'.value = none) := by
  obtain ⟨before, after, rfl, rfl, herase⟩ := split_at hl
  rw [herase]
  by_cases hb0 : b = 0
  · subst hb0
    obtain ⟨st', hset, hfirst⟩ := set_first hw hplaced hclean hls htab hb (some buf) hbuf (buffer_value hbuf)
    rw [hset]
    have hmem := hfirst.mem
    constructor
    · intro h
      have hsets := (h st' rfl).mem
      refine Or.inl ⟨rfl, ?_⟩
      by_cases hr : l.reserve = .reserved
      · rw [hmem, if_pos hr] at hsets
        exact Or.inr ((writeBytes_eq_self _ _ _ _ hbuf).mp hsets)
      · exact Or.inl hr
    · rintro (⟨-, hcond⟩ | ⟨hne, -⟩) st'' heq
      · cases heq
        refine ⟨?_, hfirst.restored⟩
        rw [hmem]
        split_ifs with hr
        · exact (writeBytes_eq_self _ _ _ _ hbuf).mpr (hcond.resolve_left (not_not.mpr hr))
        · rfl
      · exact absurd rfl hne
  · rcases set_later hw hplaced hclean hls htab hb hb0 hbuf (buffer_value hbuf) with ⟨hall, st', hset, hnot⟩ | ⟨hsome, hfail⟩
    · rw [hset]
      constructor
      · intro h
        exact absurd (h st' rfl).calls hnot
      · rintro (⟨h0, -⟩ | ⟨-, l', hl', hr, hin, hnone⟩)
        · exact absurd h0 hb0
        · have hvalue := hall l' hl' hr hin
          rw [hnone] at hvalue
          cases hvalue
    · constructor
      · intro _
        right
        refine ⟨hb0, ?_⟩
        push Not at hsome
        obtain ⟨l', hl', hr, hin, hnone⟩ := hsome
        exact ⟨l', hl', hr, hin, by simpa using hnone⟩
      · intro _ st' hset
        rw [hset] at hfail
        cases hfail

end Frame

def bootNand : MtdDevInfo where
  type := .nandflash
  size := 0x10000
  ebSize := 0x8000
  minIoSize := 0x800
  subpageSize := 0x800
  oobSize := 64
  start := 0
  ebSize_pow := ⟨15, rfl⟩
  minIoSize_pow := page_pow
  minIoSize_dvd := by decide
  subpageSize_dvd := by decide
  size_dvd := by decide
  start_dvd := by decide

def bootParts : PartInfo := ⟨[bootNand], 0x10000⟩

def blankFlash (ls : List SysinfoLayout) : BmState := ⟨⟨fun _ => 0xFF, []⟩, none, some ls⟩

theorem failsAt_working : Working (failsAt []) := ⟨fun _ => rfl, fun _ => rfl⟩

theorem bootParts_placed : Placed bootParts bootNand := ⟨[], [], rfl, rfl⟩

theorem layout_table : Table layout := ⟨rfl, by simp [layout]⟩

def partinfoRegion : SysinfoLayout := ⟨0x3c00, 0x400, none, .reserved⟩

def flagRegion (reserve : SysinfoReserve) : SysinfoLayout := ⟨0x6000, 0x400, none, reserve⟩

theorem flagRegion_boot (reserve : SysinfoReserve) : InBlock bootNand (flagRegion reserve) 0 :=
  ⟨by decide, by simp [bootNand, flagRegion], by simp [bootNand, flagRegion], by simp [flagRegion]⟩

theorem flagRegion_table (reserve : SysinfoReserve) : Table [partinfoRegion, flagRegion reserve] :=
  ⟨rfl, by simp [partinfoRegion, flagRegion]⟩

theorem setsOnly_iff_boot : ∃ st', sysinfoSetValue (failsAt []) bootParts 1 (some (List.replicate 0x400 0)) .dev
      (blankFlash [partinfoRegion, flagRegion .noReserved]) = (true, st') ∧
    SetsOnly bootNand (flagRegion .noReserved) (List.replicate 0x400 0)
      (blankFlash [partinfoRegion, flagRegion .noReserved]) st' := by
  have hls : (blankFlash [partinfoRegion, flagRegion .noReserved]).sysinfo =
      some ([partinfoRegion] ++ flagRegion .noReserved :: []) := rfl
  have hlength : (List.replicate 0x400 (0 : UInt8)).length = (flagRegion .noReserved).length := List.length_replicate
  obtain ⟨st', hset, -⟩ := set_first failsAt_working bootParts_placed (fun _ => rfl) hls (flagRegion_table .noReserved)
    (flagRegion_boot .noReserved) (some _) hlength (buffer_value hlength)
  refine ⟨st', hset, ?_⟩
  exact (setsOnly_iff failsAt_working bootParts_placed (fun _ => rfl) rfl (flagRegion_table .noReserved) rfl
    (flagRegion_boot .noReserved) List.length_replicate).mpr (Or.inl ⟨rfl, Or.inl (by decide)⟩) st' hset

/-- The zeros sent for the reserved flag area never reach the flash, and the call succeeds. -/
theorem reserved_set_lost : ∃ st', sysinfoSetValue (failsAt []) bootParts 1 (some (List.replicate 0x400 0)) .dev
      (blankFlash layout) = (true, st') ∧
    ¬SetsOnly bootNand (flagRegion .reserved) (List.replicate 0x400 0) (blankFlash layout) st' := by
  have hls : (blankFlash layout).sysinfo = some ([partinfoRegion] ++ flagRegion .reserved :: []) := rfl
  have hlength : (List.replicate 0x400 (0 : UInt8)).length = (flagRegion .reserved).length := List.length_replicate
  obtain ⟨st', hset, hfirst⟩ := set_first failsAt_working bootParts_placed (fun _ => rfl) hls layout_table
    (flagRegion_boot .reserved) (some _) hlength (buffer_value hlength)
  refine ⟨st', hset, fun hsets => ?_⟩
  have hkept : st'.mem = (blankFlash layout).mem := hfirst.mem
  have hbyte := congrFun (hkept.symm.trans hsets.mem) 0x6000
  have hzero : writeBytes (blankFlash layout).mem 0x6000 (List.replicate 0x400 0) (0x6000 + 0) = 0 := by
    rw [writeBytes_inside _ _ _ _ (by rw [List.length_replicate]; omega), List.getElem_replicate]
  rw [show (flagRegion .reserved).offset = 0x6000 from rfl, show 0x6000 = 0x6000 + 0 from rfl, hzero] at hbyte
  exact absurd hbyte (by decide)

end LinuxRecovery.SysinfoSet
