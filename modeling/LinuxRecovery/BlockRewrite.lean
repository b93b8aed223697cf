import LinuxRecovery.BasicErase
import LinuxRecovery.PageWrites
import LinuxRecovery.SysinfoHook

namespace LinuxRecovery.BlockRewrite

open Loops ByteMemory Libmtd BlockMap Sysinfo BasicWrite BasicRead BlockScan SysinfoSave SysinfoHook BasicErase PageWrites
open PageOutcomes (address_block)

def Clean (st : BmState) : Prop := ∀ n, mtdBmBlockMapIsBad st n = false

section Write

variable {dev : Device} {mtd : MtdDevInfo} {maxSize : ℕ} {old : Memory} {c : Cursor} {ls : List SysinfoLayout}

structure OnPages (mtd : MtdDevInfo) (old : Memory) (c : Cursor) : Prop extends Paged mtd fsNormal c where
  content : c.wBuffer = readBytes old (mtd.start + c.wOffset) c.wLength

theorem pagelen_normal (mtd : MtdDevInfo) : pagelen mtd fsNormal = mtd.minIoSize := by
  simp [pagelen, fsNormal]

theorem readBytes_take (m : Memory) (a : ℕ) {n k : ℕ} (h : k ≤ n) : (readBytes m a n).take k = readBytes m a k := by
  obtain ⟨r, rfl⟩ := Nat.exists_eq_add_of_le h
  rw [readBytes_add, List.take_left' (readBytes_length m a k)]

theorem readBytes_drop (m : Memory) (a : ℕ) {n k : ℕ} (h : k ≤ n) :
    (readBytes m a n).drop k = readBytes m (a + k) (n - k) := by
  obtain ⟨r, rfl⟩ := Nat.exists_eq_add_of_le h
  rw [readBytes_add, List.drop_left' (readBytes_length m a k), Nat.add_sub_cancel_left]

structure Rewritten (mtd : MtdDevInfo) (ls : List SysinfoLayout) (old : Memory) (a n : ℕ) (st st' : BmState) : Prop where
  mem : ∀ x, st'.mem x = if a ≤ x ∧ x < a + n then mergedByte ls old x else st.mem x
  map : st'.map = st.map
  sysinfo : st'.sysinfo = st.sysinfo
  calls : ∃ new, st'.calls = st.calls ++ new ∧ (∀ start eb, DevCall.erase start eb ∉ new) ∧
    ∀ x, Programmed mtd new x ↔ a ≤ x ∧ x < a + n

theorem writeBytes_readBytes (m m' : Memory) (a n x : ℕ) :
    writeBytes m a (readBytes m' a n) x = if a ≤ x ∧ x < a + n then m' x else m x := by
  split_ifs with h
  · obtain ⟨k, rfl⟩ := Nat.exists_eq_add_of_le h.1
    rw [writeBytes_inside m a k _ (by rw [readBytes_length]; omega), readBytes_getElem]
  · rw [writeBytes_outside m a x _ (by rw [readBytes_length]; omega)]

theorem OnPages.past (hc : OnPages mtd old c) (h0 : c.wLength ≠ 0) (data : List UInt8) :
    OnPages mtd old (Cursor.past mtd fsNormal data c) := by
  have hpage := hc.page_le h0
  refine ⟨hc.toPaged.past h0 data, ?_⟩
  change c.wBuffer.drop (pagelen mtd fsNormal) =
    readBytes old (mtd.start + (c.wOffset + mtd.minIoSize)) (c.wLength - pagelen mtd fsNormal)
  rw [hc.content, readBytes_drop _ _ hpage, pagelen_normal, Nat.add_assoc]

theorem OnPages.merge (hc : OnPages mtd old c) (h0 : c.wLength ≠ 0) (hls : c.st.sysinfo = some ls) :
    mergePage mtd c = sysinfoTraversalMerge ls (readBytes old (mtd.start + c.wOffset) mtd.minIoSize)
      (mtd.start + c.wOffset) mtd.minIoSize := by
  have hpage := hc.page_le h0
  rw [pagelen_normal] at hpage
  rw [mergePage, hls, hc.content]
  dsimp only
  rw [readBytes_take _ _ hpage, Nat.add_comm c.wOffset]

theorem programmed_request {data : List UInt8} {x : ℕ} :
    Programmed mtd [Cursor.request mtd fsNormal data c] x ↔
      mtd.start + c.wOffset ≤ x ∧ x < mtd.start + c.wOffset + data.length := by
  rw [← address_block c.wOffset]
  constructor
  · rintro ⟨eb, offs, data, oob, mode, h, hx⟩
    cases List.mem_singleton.mp h
    exact hx
  · intro hx
    exact ⟨_, _, _, _, _, List.mem_singleton_self _, hx⟩

theorem Rewritten.past {st' : BmState} {data : List UInt8} (hc : OnPages mtd old c) (h0 : c.wLength ≠ 0)
    (hdata : data = readBytes (mergedByte ls old) (mtd.start + c.wOffset) mtd.minIoSize)
    (h : Rewritten mtd ls old (mtd.start + c.wOffset + mtd.minIoSize) (c.wLength - mtd.minIoSize)
      (Cursor.past mtd fsNormal data c).st st') : Rewritten mtd ls old (mtd.start + c.wOffset) c.wLength c.st st' := by
  have hpage := hc.page_le h0
  rw [pagelen_normal] at hpage
  have hlen : data.length = mtd.minIoSize := by rw [hdata, readBytes_length]
  obtain ⟨new, hnew, hnone, hprog⟩ := h.calls
  refine ⟨?_, h.map, h.sysinfo, Cursor.request mtd fsNormal data c :: new, ?_, ?_, ?_⟩
  · intro x
    have hmem : (Cursor.past mtd fsNormal data c).st.mem x = writeBytes c.st.mem (mtd.start + c.wOffset) data x := rfl
    rw [h.mem x, hmem, hdata, writeBytes_readBytes]
    by_cases hx : mtd.start + c.wOffset ≤ x ∧ x < mtd.start + c.wOffset + mtd.minIoSize
    · rw [if_neg (by omega), if_pos hx, if_pos (by omega)]
    · rw [if_neg hx]
      by_cases hx' : mtd.start + c.wOffset ≤ x ∧ x < mtd.start + c.wOffset + c.wLength
      · rw [if_pos (by omega), if_pos hx']
      · rw [if_neg (by omega), if_neg hx']
  · rw [hnew]
    exact List.append_assoc _ _ _
  · intro start eb hmem
    rcases List.mem_cons.mp hmem with hmem | hmem
    · cases hmem
    · exact hnone start eb hmem
  · intro x
    rw [← List.singleton_append, programmed_append, hprog x, programmed_request, hlen]
    omega

theorem writeLoop_rewritten (hw : Working dev) (hm : maxSize ≠ 0) (htab : Tabled ls) (hc : OnPages mtd old c)
    (hls : c.st.sysinfo = some ls) {out : Outcome} (hout : (writeLoop dev mtd fsNormal maxSize).exec c = out)
    (hret : out.ret ≠ .fail) : Rewritten mtd ls old (mtd.start + c.wOffset) c.wLength c.st out.st := by
  induction c using (writeLoop dev mtd fsNormal maxSize).induct with
  | h c ih =>
    by_cases h0 : c.wLength = 0
    · rw [Loop.exec_done _ (writeStep_finish dev mtd fsNormal maxSize hm (Or.inl h0))] at hout
      subst hout
      rw [h0]
      refine ⟨?_, rfl, rfl, [], by simp [Cursor.outcome], by simp, ?_⟩
      · intro x
        rw [if_neg (by omega)]
        rfl
      · intro x
        constructor
        · rintro ⟨eb, offs, data, oob, mode, hmem, -⟩
          cases hmem
        · omega
    · rcases writeStep_page (hw.served mtd _ _) hm hc.toPaged h0 with ⟨-, r, hstep, hr⟩ | ⟨data, hdata, hstep⟩
      · rw [Loop.exec_done _ hstep] at hout
        subst hout
        exact absurd hr hret
      · rw [Loop.exec_next _ hstep] at hout
        rw [hc.merge h0 hls] at hdata
        have hrest := ih _ hstep (hc.past h0 data) hls hout
        have hoffset : mtd.start + (Cursor.past mtd fsNormal data c).wOffset = mtd.start + c.wOffset + mtd.minIoSize :=
          (Nat.add_assoc _ _ _).symm
        have hlength : (Cursor.past mtd fsNormal data c).wLength = c.wLength - mtd.minIoSize := by
          rw [← pagelen_normal mtd]
          rfl
        rw [hoffset, hlength] at hrest
        exact hrest.past hc h0 (merge_bytes htab mtd.minIoSize_pos hdata)

end Write

section Fetch

variable {dev : Device} {bm : PartInfo} {mtd : MtdDevInfo} {b : ℕ} {st st' st'' : BmState} {l : SysinfoLayout}
  {ls before after : List SysinfoLayout}

structure Quiet (st st' : BmState) : Prop where
  mem : st'.mem = st.mem
  clean : Clean st'
  mapped : st'.map.isSome = true
  calls : ∃ new, st'.calls = st.calls ++ new ∧ ∀ call ∈ new, isChange call = false

theorem Quiet.trans (h : Quiet st st') (h' : Quiet st' st'') : Quiet st st'' := by
  obtain ⟨new, hn, hc⟩ := h.calls
  obtain ⟨new', hn', hc'⟩ := h'.calls
  refine ⟨h'.mem.trans h.mem, h'.clean, h'.mapped, new ++ new', by rw [hn', hn, List.append_assoc], ?_⟩
  intro call hcall
  exact (List.mem_append.mp hcall).elim (hc call) (hc' call)

theorem steady (hw : Working dev) (mtd : MtdDevInfo) (b : ℕ) : Steady dev mtd b :=
  ⟨fun _ _ _ => hw.reply _, fun _ _ _ _ => hw.good _⟩

theorem quiet_of_calm (hclean : Clean st) (hmapped : st'.map.isSome = true) (h : ∀ b, Calm mtd b st st') :
    Quiet st st' :=
  ⟨(h 0).mem, fun n => (h n).good (fun m _ => hclean m) n (Or.inl rfl), hmapped, (h 0).calls⟩

theorem held (hclean : Clean st) (hmapped : st.map.isSome = true) (hls : st.sysinfo = some ls) :
    Held mtd b ls ls.length st :=
  ⟨hmapped, fun n _ => hclean n, ls, hls, List.forall₂_same.mpr (fun _ _ => ⟨rfl, rfl, rfl⟩), by simp⟩

theorem init_clean (capacity : ℕ) (hclean : Clean st) : Clean (mtdBmBlockMapInit capacity st) := by
  unfold mtdBmBlockMapInit
  split
  · exact hclean
  · exact fun n => rfl

theorem init_mapped (capacity : ℕ) (st : BmState) : (mtdBmBlockMapInit capacity st).map.isSome = true := by
  unfold mtdBmBlockMapInit
  split
  · rename_i m hm
    rw [hm]
    rfl
  · rfl

theorem init_frame (capacity : ℕ) (st : BmState) : (mtdBmBlockMapInit capacity st).toChip = st.toChip ∧
    (mtdBmBlockMapInit capacity st).sysinfo = st.sysinfo := by
  unfold mtdBmBlockMapInit
  split <;> exact ⟨rfl, rfl⟩

theorem init_of_mapped (capacity : ℕ) (h : st.map.isSome = true) : mtdBmBlockMapInit capacity st = st := by
  obtain ⟨m, hm⟩ := Option.isSome_iff_exists.mp h
  rw [mtdBmBlockMapInit, hm]

theorem scan_init {capacity offset length n : ℕ}
    (h : (mtdBlockScan dev mtd false .random capacity offset length
      (mtdBmBlockMapInit (capacity / mtd.ebSize) st)).1 = .off n) :
    mtdBlockScan dev mtd false .random capacity offset length st =
      mtdBlockScan dev mtd false .random capacity offset length (mtdBmBlockMapInit (capacity / mtd.ebSize) st) := by
  unfold mtdBlockScan at h ⊢
  dsimp only at h ⊢
  split_ifs at h ⊢
  rw [init_of_mapped _ (init_mapped _ st)]

theorem fetch_working (hw : Working dev) (hl : InBlock mtd l b) (hclean : Clean st) (hls : st.sysinfo = some ls)
    (capacity : ℕ) :
    ∃ k st₁ n st₂, mtdBlockScan dev mtd false .random capacity l.offset l.length st = (.off (k + 1), st₁) ∧
      mtdBasicRead dev mtd l.offset l.length st₁ = ⟨.off n, readBytes st.mem l.offset l.length, st₂⟩ ∧
      Quiet st st₂ ∧ st₂.sysinfo = st.sysinfo := by
  obtain ⟨hchip, hsysinfo⟩ := init_frame (capacity / mtd.ebSize) st
  have hheld : Held mtd b ls ls.length (mtdBmBlockMapInit (capacity / mtd.ebSize) st) :=
    held (init_clean _ hclean) (init_mapped _ st) (hsysinfo.trans hls)
  have hscan := scan_own (steady hw mtd b) hl hheld capacity
  have hcalm (b' : ℕ) := scan_calm (steady hw mtd b') rfl false .random capacity l.offset l.length
    (mtdBmBlockMapInit (capacity / mtd.ebSize) st)
  rw [scan_init hscan]
  set st₁ := (mtdBlockScan dev mtd false .random capacity l.offset l.length
    (mtdBmBlockMapInit (capacity / mtd.ebSize) st)).2 with hst₁
  have hquiet : Quiet st st₁ := by
    have h := quiet_of_calm (init_clean _ hclean) ((hcalm 0).1.mapped (init_mapped _ st)) (fun b' => (hcalm b').1)
    refine ⟨h.mem.trans (congrArg Chip.mem hchip), h.clean, h.mapped, ?_⟩
    obtain ⟨new, hnew, hno⟩ := h.calls
    exact ⟨new, hnew.trans (congrArg (fun chip : Chip => chip.calls ++ new) hchip), hno⟩
  have hsys₁ : st₁.sysinfo = st.sysinfo := (hcalm 0).2.trans hsysinfo
  obtain ⟨hbuffer, n, hret⟩ := read_own (steady hw mtd b) hl (held hquiet.clean hquiet.mapped (hsys₁.trans hls))
  have hread (b' : ℕ) : Calm mtd b' st₁ (mtdBasicRead dev mtd l.offset l.length st₁).st ∧ _ :=
    read_calm l.offset l.length st₁
  obtain ⟨k, hk⟩ : ∃ k, mtd.ebSize = k + 1 := ⟨mtd.ebSize - 1, by have := mtd.ebSize_pos; omega⟩
  refine ⟨k, st₁, n, (mtdBasicRead dev mtd l.offset l.length st₁).st, Prod.ext (hscan.trans (by rw [hk])) rfl, ?_,
    hquiet.trans (quiet_of_calm hquiet.clean ((hread 0).1.mapped hquiet.mapped) (fun b' => (hread b').1)),
    (hread 0).2.trans hsys₁⟩
  rw [← hquiet.mem, ← hbuffer, ← hret]

theorem modify_at {α : Type} (f : α → α) (before after : List α) (a : α) :
    (before ++ a :: after).modify before.length f = before ++ f a :: after := by
  induction before with
  | nil => rfl
  | cons c before ih => rw [List.cons_append, List.length_cons, List.modify_succ_cons, ih, List.cons_append]

theorem setValue_at (w : List UInt8) (hls : st.sysinfo = some (before ++ l :: after)) :
    (setValue before.length w st).sysinfo = some (before ++ { l with value := some w } :: after) := by
  rw [setValue, hls]
  exact congrArg some (modify_at _ before after l)

theorem sysinfoGetValue_working (hw : Working dev) (hl : InBlock mtd l b)
    (hfind : mtdGetDevInfoByOffset bm l.offset = some mtd) (hclean : Clean st)
    (hls : st.sysinfo = some (before ++ l :: after)) (hvalue : ∀ v, l.value = some v → v.length = l.length) :
    ∃ st', sysinfoGetValue dev bm before.length l st = (true, st') ∧ Quiet st st' ∧
      st'.sysinfo = some (before ++ { l with value := some (readBytes st.mem l.offset l.length) } :: after) := by
  set old := l.value.getD (List.replicate l.length 0) with hold
  have hlength : old.length = l.length := by
    rw [hold]
    cases hv : l.value with
    | none => simp
    | some v => exact hvalue v hv
  have hset := setValue_at old hls
  have hclean' : Clean (setValue before.length old st) := hclean
  obtain ⟨k, st₁, n, st₂, hscan, hread, hquiet, hsys⟩ := fetch_working hw hl hclean' hset bm.capacity
  have hmem : (setValue before.length old st).mem = st.mem := rfl
  rw [hmem] at hread
  have hown := setValue_at (readBytes st.mem l.offset l.length) (hsys.trans hset)
  refine ⟨setValue before.length (readBytes st.mem l.offset l.length) st₂, ?_, ?_, hown⟩
  · unfold sysinfoGetValue
    dsimp only
    rw [hfind]
    dsimp only
    rw [hscan]
    dsimp only
    rw [hread]
    dsimp only
    rw [← hold, readBytes_length, List.drop_eq_nil_iff.mpr hlength.le, List.append_nil]
  · obtain ⟨new, hnew, hno⟩ := hquiet.calls
    exact ⟨hquiet.mem, hquiet.clean, hquiet.mapped, new, hnew, hno⟩

def refresh (m : Memory) (a n : ℕ) (l : SysinfoLayout) : SysinfoLayout :=
  if l.reserve = .reserved ∧ SysinfoLayout.outside l a (a + n) = false then
    { l with value := some (readBytes m l.offset l.length) }
  else l

def Readable (bm : PartInfo) (mtd : MtdDevInfo) (ls : List SysinfoLayout) (a n : ℕ) : Prop :=
  ∀ l ∈ ls, l.reserve = .reserved → SysinfoLayout.outside l a (a + n) = false →
    mtdGetDevInfoByOffset bm l.offset = some mtd ∧ ∃ b, InBlock mtd l b

theorem saveLayouts_working (hw : Working dev) {a n : ℕ} (hread : Readable bm mtd after a n)
    (hvalue : ∀ l ∈ after, ∀ v, l.value = some v → v.length = l.length) (hclean : Clean st)
    (hmapped : st.map.isSome = true) (hls : st.sysinfo = some (before ++ after)) :
    ∃ st', saveLayouts dev bm a n before.length after st = (true, st') ∧ Quiet st st' ∧
      st'.sysinfo = some (before ++ after.map (refresh st.mem a n)) := by
  induction after generalizing before st with
  | nil => exact ⟨st, rfl, ⟨rfl, hclean, hmapped, [], by simp, by simp⟩, hls⟩
  | cons l after ih =>
    have hrest : Readable bm mtd after a n := fun l' hl' => hread l' (List.mem_cons_of_mem l hl')
    have hvalue' : ∀ l' ∈ after, ∀ v, l'.value = some v → v.length = l'.length :=
      fun l' hl' => hvalue l' (List.mem_cons_of_mem l hl')
    rw [saveLayouts]
    by_cases hskip : SysinfoLayout.outside l a (a + n) = true ∨ l.reserve ≠ .reserved
    · rw [if_pos hskip]
      have hsame : refresh st.mem a n l = l := if_neg (by
        rintro ⟨hr, hout⟩
        rcases hskip with h | h
        · rw [h] at hout
          cases hout
        · exact h hr)
      have hls' : st.sysinfo = some ((before ++ [l]) ++ after) := by rw [hls, List.append_assoc, List.singleton_append]
      obtain ⟨st', hsave, hquiet, hsys⟩ := ih hrest hvalue' hclean hmapped hls'
      rw [List.length_append, List.length_singleton] at hsave
      exact ⟨st', hsave, hquiet, by rw [hsys, List.map_cons, hsame, List.append_assoc, List.singleton_append]⟩
    · rw [not_or, not_not, Bool.not_eq_true] at hskip
      obtain ⟨hfind, b, hb⟩ := hread l List.mem_cons_self hskip.2 hskip.1
      obtain ⟨st₁, hget, hquiet, hsys⟩ := sysinfoGetValue_working hw hb hfind hclean hls (hvalue l List.mem_cons_self)
      have hls' : st₁.sysinfo = some ((before ++ [{ l with value := some (readBytes st.mem l.offset l.length) }]) ++
          after) := by rw [hsys, List.append_assoc, List.singleton_append]
      obtain ⟨st', hsave, hquiet', hsys'⟩ := ih hrest hvalue' hquiet.clean hquiet.mapped hls'
      rw [List.length_append, List.length_singleton] at hsave
      rw [if_neg (by simp [hskip]), hget]
      refine ⟨st', hsave, hquiet.trans hquiet', ?_⟩
      rw [hsys', hquiet.mem, List.map_cons, refresh, if_pos ⟨hskip.2, hskip.1⟩, List.append_assoc, List.singleton_append]

theorem save_working (hw : Working dev) {a n : ℕ} (hread : Readable bm mtd ls a n) (htab : Tabled ls)
    (hclean : Clean st) (hmapped : st.map.isSome = true) (hls : st.sysinfo = some ls) :
    ∃ st', sysinfoTraversalSave dev bm a n st = (true, st') ∧ Quiet st st' ∧
      st'.sysinfo = some (ls.map (refresh st.mem a n)) := by
  unfold sysinfoTraversalSave
  rw [hls]
  dsimp only
  split_ifs with hlast
  · have hsame : ls.map (refresh st.mem a n) = ls := by
      rw [List.map_congr_left (g := id), List.map_id]
      intro l hl
      refine if_neg ?_
      rintro ⟨-, hout⟩
      obtain ⟨last, hg, hle⟩ := htab.le_last hl
      rw [hg, Option.any_some, decide_eq_true_eq] at hlast
      simp only [SysinfoLayout.outside, Bool.or_eq_false_iff, decide_eq_false_iff_not] at hout
      omega
    exact ⟨st, rfl, ⟨rfl, hclean, hmapped, [], by simp, by simp⟩, by rw [hsame, hls]⟩
  · have hls' : st.sysinfo = some ([] ++ ls) := hls
    exact saveLayouts_working hw hread htab.value hclean hmapped hls'

end Fetch

section Block

variable {dev : Device} {bm : PartInfo} {mtd : MtdDevInfo} {maxSize b : ℕ} {old : Memory} {st st' : BmState}
  {ls : List SysinfoLayout}

structure FirstErased (mtd : MtdDevInfo) (ls : List SysinfoLayout) (st st' : BmState) : Prop where
  mem : st'.mem = fillBytes st.mem mtd.start mtd.ebSize (fun _ => 0xFF)
  clean : Clean st'
  mapped : st'.map.isSome = true
  sysinfo : st'.sysinfo = some (ls.map (refresh st.mem mtd.start mtd.ebSize))
  calls : ∃ new, st'.calls = st.calls ++ new ++ [.erase mtd.start 0] ∧ ∀ call ∈ new, isChange call = false

theorem mtdErase_working (hw : Working dev) (hcnt : 0 < mtd.ebCnt) (chip : Chip) :
    mtdErase dev mtd 0 chip = (none, ⟨fillBytes chip.mem mtd.start mtd.ebSize (fun _ => 0xFF),
      chip.calls ++ [.erase mtd.start 0]⟩) := by
  have hvalid : mtdValidEraseBlock mtd 0 = true := decide_eq_true hcnt
  unfold mtdErase
  rw [hvalid, if_neg (by simp)]
  dsimp only
  rw [hw.reply]
  simp [address]

theorem erase_working (hw : Working dev) (hread : Readable bm mtd ls mtd.start mtd.ebSize) (htab : Tabled ls)
    (hcnt : 0 < mtd.ebCnt) (hclean : Clean st) (hmapped : st.map.isSome = true) (hls : st.sysinfo = some ls) :
    ∃ n st', mtdBasicErase dev bm mtd fsNormal mtd.ebSize st = (.off n, st') ∧ FirstErased mtd ls st st' := by
  obtain ⟨st₁, hsave, hquiet, hsys⟩ := save_working hw hread htab hclean hmapped hls
  obtain ⟨q, hq⟩ := mtd.start_dvd
  have hpos := mtd.ebSize_pos
  have hfirst : mtdOffsetToEbIndex mtd mtd.start = q := by rw [mtdOffsetToEbIndex, hq, Nat.mul_div_cancel_left q hpos]
  have hlast : mtdOffsetToEbIndex mtd (mtdBlockAlign mtd (mtd.start + mtd.ebSize + mtd.ebSize - 1)) = q + 1 := by
    rw [mtdOffsetToEbIndex, mtdBlockAlign, Nat.mul_div_cancel _ hpos, hq, Nat.add_assoc, Nat.add_sub_assoc (by omega),
      Nat.mul_add_div hpos]
    congr 1
    exact Nat.div_eq_of_lt_le (by omega) (by omega)
  set c : EraseCursor := ⟨0, 0, 0, st⟩ with hc
  set d : EraseCursor := ⟨1, 0 + mtd.ebSize, 0, mtdBmBlockMapSet (mtdEbRelativeToAbsolute mtd 0) .erased
    { st₁ with toChip := ⟨fillBytes st₁.mem mtd.start mtd.ebSize (fun _ => 0xFF), st₁.calls ++ [.erase mtd.start 0]⟩ }⟩
    with hd
  have hfirstStep : eraseStep dev bm mtd fsNormal mtd.ebSize c = .next d := by
    have hgood := hclean (mtdEbRelativeToAbsolute mtd 0)
    have hblock : sysinfoTraversalSave dev bm (0 * mtd.ebSize + mtd.start) mtd.ebSize st = (true, st₁) := by
      rw [Nat.zero_mul, Nat.zero_add, hsave]
    unfold eraseStep
    rw [if_neg (by simp only [hc]; omega), if_neg (by simp [hc, hgood]), if_neg (by decide), eraseBlock]
    simp only [hc, hblock, mtdErase_working hw hcnt]
    rfl
  have hsecondStep : eraseStep dev bm mtd fsNormal mtd.ebSize d =
      .done (.off (mtdEbRelativeToAbsolute mtd 1 * mtd.ebSize), d.st) := by
    unfold eraseStep eraseExit
    rw [if_pos (by simp only [hd]; omega), if_neg (by simp only [hd]; omega), setProcessInfo, if_neg (by omega)]
  refine ⟨mtdEbRelativeToAbsolute mtd 1 * mtd.ebSize, d.st, ?_, ?_, ?_, ?_, ?_, ?_⟩
  · unfold mtdBasicErase
    rw [if_neg (by simp [fsNormal]), if_neg (by simp [fsNormal])]
    dsimp only
    rw [hfirst, hlast, if_neg (by omega), if_neg (by simp [mtdBmBlockMapIsValid, hmapped]),
      Nat.add_sub_cancel_left, Nat.one_mul]
    rw [Loop.exec_next (eraseLoop dev bm mtd fsNormal mtd.ebSize) hfirstStep,
      Loop.exec_done (eraseLoop dev bm mtd fsNormal mtd.ebSize) hsecondStep]
  · exact congrArg (fun m => fillBytes m mtd.start mtd.ebSize (fun _ => 0xFF)) hquiet.mem
  · intro n
    exact (set_isBad_other _ _ _ _ (by decide)).trans (hquiet.clean n)
  · exact (set_map_isSome _ _ _).trans hquiet.mapped
  · exact hsys
  · obtain ⟨new, hnew, hno⟩ := hquiet.calls
    refine ⟨new, ?_, hno⟩
    rw [← hnew]
    rfl

variable (old) in
theorem basicWrite_block (hw : Working dev) (hm : maxSize ≠ 0) (htab : Tabled ls) (hb : b < mtd.ebCnt)
    (hclean : Clean st) (hmapped : st.map.isSome = true) (hls : st.sysinfo = some ls) {out : Outcome}
    (hout : mtdBasicWrite dev mtd fsNormal maxSize 0 (mtd.start + b * mtd.ebSize : ℕ)
      (readBytes old (mtd.start + b * mtd.ebSize) mtd.ebSize) st = out) :
    (Valued ls (mtd.start + b * mtd.ebSize) mtd.ebSize ∧ (∃ n, out.ret = .off n) ∧
      Rewritten mtd ls old (mtd.start + b * mtd.ebSize) mtd.ebSize st out.st) ∨
    (¬Valued ls (mtd.start + b * mtd.ebSize) mtd.ebSize ∧ out.ret = .fail) := by
  have hfits := block_fits hb
  have hspan : mtd.ebSize / mtd.minIoSize * mtd.minIoSize = mtd.ebSize := Nat.div_mul_cancel mtd.minIoSize_dvd
  rw [basicWrite_start (by rw [readBytes_length, pagelen_normal, hspan]; exact hfits) hmapped
    (Dvd.dvd.mul_left mtd.minIoSize_dvd b) (Or.inl rfl) rfl] at hout
  set c := writeStart fsNormal (b * mtd.ebSize) 0 (readBytes old (mtd.start + b * mtd.ebSize) mtd.ebSize) st with hc
  have hlength : c.wLength = mtd.ebSize := readBytes_length _ _ _
  have hspanc : span mtd fsNormal c = mtd.ebSize := by rw [span, hlength, pagelen_normal, hspan]
  have hpages : OnPages mtd old c := by
    refine ⟨⟨Dvd.dvd.mul_left mtd.minIoSize_dvd b, ?_, rfl, ?_, fun _ x _ _ => hclean _⟩, ?_⟩
    · rw [hlength, pagelen_normal]
      exact mtd.minIoSize_dvd
    · rw [hspanc]
      exact hfits
    · rw [hlength]
      rfl
  have htab' : ∀ ls, c.st.sysinfo = some ls → Tabled ls := by
    intro ls' hls'
    cases hls.symm.trans hls'
    exact htab
  have hsaved : Saved c.st (mtd.start + b * mtd.ebSize) mtd.ebSize ↔ Valued ls (mtd.start + b * mtd.ebSize) mtd.ebSize := by
    constructor
    · intro h
      exact h ls hls
    · intro h ls' hls'
      cases hls.symm.trans hls'
      exact h
  have hloop := writeLoop_paged (hw.served mtd _ _) hm hpages.toPaged htab' hout
  rw [hspanc] at hloop
  rw [← hsaved]
  rcases hloop with ⟨hs, hret, -⟩ | ⟨hs, hret⟩
  · refine Or.inl ⟨hs, ⟨_, hret⟩, ?_⟩
    have hre := writeLoop_rewritten hw hm htab hpages hls hout (by rw [hret]; simp)
    rw [hlength] at hre
    exact hre
  · exact Or.inr ⟨hs, hret⟩

end Block

end LinuxRecovery.BlockRewrite
