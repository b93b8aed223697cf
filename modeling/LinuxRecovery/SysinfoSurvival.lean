import LinuxRecovery.BasicErase
import LinuxRecovery.PageWrites
import LinuxRecovery.SysinfoHook

namespace LinuxRecovery.SysinfoSurvival

open Loops ByteMemory Libmtd BlockMap Sysinfo BasicWrite BlockScan SysinfoSave SysinfoHook BasicErase PageWrites
open PageOutcomes (page_in_block address_block)

/-- What holds between the calls: the region's block is not recorded bad, and the layout table is in place. -/
structure Sound (mtd : MtdDevInfo) (b : ℕ) (table : List SysinfoLayout) (i : ℕ) (st : BmState) : Prop where
  good : ∀ n, Numbered mtd b n → mtdBmBlockMapIsBad st n = false
  table : ∃ ls, st.sysinfo = some ls ∧ SameTable table ls ∧
    ∀ l, ls[i]? = some l → ∀ v, l.value = some v → v.length = l.length

structure Before (mtd : MtdDevInfo) (b : ℕ) (l : SysinfoLayout) (R : Memory) (tr : List DevCall) (st : BmState) : Prop where
  resident : ∀ x, l.offset ≤ x → x < l.offset + l.length → st.mem x = R x
  calls : ∃ new, st.calls = tr ++ new ∧ ∀ call ∈ new, call ≠ .erase mtd.start b ∧ isProgram call = false

structure Behind (mtd : MtdDevInfo) (b i : ℕ) (l : SysinfoLayout) (R : Memory) (tr : List DevCall) (st : BmState) : Prop where
  cached : Cached i (readBytes R l.offset l.length) st
  back : ∃ new, st.calls = tr ++ new ∧ .erase mtd.start b ∈ new ∧
    ∀ x, l.offset ≤ x → x < l.offset + l.length → Programmed mtd new x → st.mem x = R x

structure Elsewhere (mtd : MtdDevInfo) (b : ℕ) (table : List SysinfoLayout) (i : ℕ) (st st' : BmState) : Prop where
  mem : ∀ x, mtd.start + b * mtd.ebSize ≤ x → x < mtd.start + (b + 1) * mtd.ebSize → st'.mem x = st.mem x
  calls : ∃ new, st'.calls = st.calls ++ new ∧ ∀ call ∈ new, call ≠ .erase mtd.start b ∧ isProgram call = false
  held : Held mtd b table i st → Held mtd b table i st'
  cached : ∀ v, Cached i v st → Cached i v st'

variable {dev : Device} {bm : PartInfo} {mtd : MtdDevInfo} {fs : FsKind} {b i : ℕ} {table : List SysinfoLayout}
  {l : SysinfoLayout} {R : Memory} {tr : List DevCall} {st st' st'' : BmState}

theorem Sound.held (h : Sound mtd b table i st) (hm : st.map.isSome = true) : Held mtd b table i st :=
  ⟨hm, h.good, h.table⟩

theorem sound_of_held (h : Held mtd b table i st) : Sound mtd b table i st := ⟨h.good, h.table⟩

theorem Elsewhere.trans (h : Elsewhere mtd b table i st st') (h' : Elsewhere mtd b table i st' st'') :
    Elsewhere mtd b table i st st'' := by
  obtain ⟨new, hn, hc⟩ := h.calls
  obtain ⟨new', hn', hc'⟩ := h'.calls
  refine ⟨fun x h1 h2 => (h'.mem x h1 h2).trans (h.mem x h1 h2),
    ⟨new ++ new', by rw [hn', hn, List.append_assoc], ?_⟩, fun hh => h'.held (h.held hh),
    fun v hv => h'.cached v (h.cached v hv)⟩
  intro call hcall
  exact (List.mem_append.mp hcall).elim (hc call) (hc' call)

theorem Elsewhere.before (h : Elsewhere mtd b table i st st') (hl : InBlock mtd l b)
    (hb : Before mtd b l R tr st) : Before mtd b l R tr st' := by
  obtain ⟨new, hn, hc⟩ := hb.calls
  obtain ⟨new', hn', hc'⟩ := h.calls
  have hlow := hl.low
  have hhigh := hl.high
  refine ⟨fun x h1 h2 => (h.mem x (by omega) (by omega)).trans (hb.resident x h1 h2),
    new ++ new', by rw [hn', hn, List.append_assoc], ?_⟩
  intro call hcall
  exact (List.mem_append.mp hcall).elim (hc call) (hc' call)

theorem Elsewhere.behind (h : Elsewhere mtd b table i st st') (hl : InBlock mtd l b)
    (hb : Behind mtd b i l R tr st) : Behind mtd b i l R tr st' := by
  obtain ⟨new, hn, he, hc⟩ := hb.back
  obtain ⟨new', hn', hc'⟩ := h.calls
  have hlow := hl.low
  have hhigh := hl.high
  refine ⟨h.cached _ hb.cached, new ++ new', by rw [hn', hn, List.append_assoc], List.mem_append_left _ he,
    fun x h1 h2 hp => ?_⟩
  rw [h.mem x (by omega) (by omega)]
  exact hc x h1 h2 ((programmed_append.mp hp).resolve_right (not_programmed (fun call hcall => (hc' call hcall).2) x))

theorem notChange {call : DevCall} (h : isChange call = false) :
    call ≠ .erase mtd.start b ∧ isProgram call = false := by
  cases call <;> simp_all [isChange, isProgram]

theorem notProgram {call : DevCall} (h : isChange call = false) : isProgram call = false := by
  cases call with
  | write => cases h
  | _ => rfl

theorem elsewhere_of_fetch (h : Fetch mtd b table i st st') : Elsewhere mtd b table i st st' := by
  obtain ⟨new, hn, hc⟩ := h.calm.calls
  exact ⟨fun x _ _ => by rw [h.calm.mem], ⟨new, hn, fun call hcall => notChange (hc call hcall)⟩, h.held, h.cached⟩

theorem elsewhere_of_calm (h : Calm mtd b st st') (hs : st'.sysinfo = st.sysinfo) : Elsewhere mtd b table i st st' :=
  elsewhere_of_fetch (fetch_calm ⟨h, hs⟩)

section Requests

variable {eb : ℕ} (st)

theorem block_clear (heb : eb ≠ b) (offs : ℕ) {x len : ℕ} (hlen : offs + len ≤ mtd.ebSize)
    (h1 : mtd.start + b * mtd.ebSize ≤ x) (h2 : x < mtd.start + (b + 1) * mtd.ebSize) :
    x < address mtd eb offs ∨ address mtd eb offs + len ≤ x := by
  rw [Nat.add_mul, Nat.one_mul] at h2
  unfold address
  rcases Nat.lt_or_gt_of_ne heb with hlt | hgt
  · have := Nat.mul_le_mul_right mtd.ebSize (Nat.succ_le_of_lt hlt)
    rw [Nat.succ_mul] at this
    omega
  · have := Nat.mul_le_mul_right mtd.ebSize (Nat.succ_le_of_lt hgt)
    rw [Nat.succ_mul] at this
    omega

theorem erase_elsewhere (heb : eb ≠ b) :
    Elsewhere mtd b table i st { st with toChip := (mtdErase dev mtd eb st.toChip).2 } := by
  refine ⟨?_, ?_, fun hh => ⟨hh.mapped, hh.good, hh.table⟩, fun v hv => hv⟩
  · intro x h1 h2
    have hclear : x < address mtd eb 0 ∨ address mtd eb 0 + mtd.ebSize ≤ x := block_clear heb 0 (by omega) h1 h2
    change (mtdErase dev mtd eb st.toChip).2.mem x = _
    unfold mtdErase
    split_ifs
    · rfl
    · cases hr : dev.reply (st.calls ++ [.erase mtd.start eb]) with
      | none =>
        simp only [hr]
        exact fillBytes_outside st.mem _ _ x _ hclear
      | some e =>
        simp only [hr]
        exact fillBytes_outside st.mem _ _ x _ hclear
  · unfold mtdErase
    split_ifs
    · exact ⟨[], by simp, by simp⟩
    · dsimp only
      split <;> exact ⟨_, rfl, by simp [isProgram, heb]⟩

theorem calm_markBad : Calm mtd b st { st with toChip := (mtdMarkBad dev mtd eb st.toChip).2 } := by
  apply calm_chip
  · unfold mtdMarkBad
    split_ifs <;> rfl
  · unfold mtdMarkBad
    split_ifs
    · exact ⟨[], by simp, by simp⟩
    · exact ⟨[], by simp, by simp⟩
    · exact ⟨_, rfl, by simp [isChange]⟩

theorem calm_unlock : Calm mtd b st { st with toChip := (mtdUnlock dev mtd eb st.toChip).2 } := by
  apply calm_chip
  · unfold mtdUnlock
    split_ifs <;> rfl
  · unfold mtdUnlock
    split_ifs
    · exact ⟨[], by simp, by simp⟩
    · exact ⟨_, rfl, by simp [isChange]⟩

theorem erase_failed (hs : Steady dev mtd b) {s : Chip} (h : (mtdErase dev mtd eb s).1 = some .eio) :
    ¬Numbered mtd b eb ∧ ¬Numbered mtd b (mtdEbRelativeToAbsolute mtd eb) := by
  by_contra hn
  rw [← not_or, not_not] at hn
  have hreply := hs.reply s.calls (.erase mtd.start eb) hn
  unfold mtdErase at h
  split_ifs at h
  · cases h
  · dsimp only at h
    rw [hreply] at h
    cases h

end Requests

section Erase

variable (hs : Steady dev mtd b) (hparts : AllIn bm mtd table) (hl : InBlock mtd l b) (hd : DisjointLayouts table)
  (ht : table[i]? = some l) (hr : l.reserve = .reserved) (hmarker : fs.isJffs2 = true → jffs2Cleanmarker.length ≤ mtd.ebSize)

theorem cleanmarker_chip (eb : ℕ) (s : Chip) :
    (∃ new, (jffs2WriteCleanmarker dev mtd eb s).2.calls = s.calls ++ new ∧ ∀ call ∈ new, isChange call = false) ∧
      (jffs2Cleanmarker.length ≤ mtd.ebSize → ∀ x, x < address mtd eb 0 ∨ address mtd eb 0 + mtd.ebSize ≤ x →
        (jffs2WriteCleanmarker dev mtd eb s).2.mem x = s.mem x) := by
  unfold jffs2WriteCleanmarker
  dsimp only
  split
  · refine ⟨⟨[.cleanMarker mtd.start eb], rfl, by simp [isChange]⟩, fun hle x hx => ?_⟩
    dsimp only
    split_ifs
    · rfl
    · exact writeBytes_outside _ _ _ _ (by omega)
  · exact ⟨⟨[.cleanMarker mtd.start eb], rfl, by simp [isChange]⟩, fun _ _ _ => rfl⟩

theorem formatBlock_chip (c : EraseCursor) : ∃ chip,
    after EraseCursor.st Prod.snd (formatBlock dev mtd fs c) =
      { mtdBmBlockMapSet (mtdEbRelativeToAbsolute mtd c.eb) .erased c.st with toChip := chip } ∧
    (∃ new, chip.calls = c.st.calls ++ new ∧ ∀ call ∈ new, isChange call = false) ∧
    ((fs.isJffs2 = true → jffs2Cleanmarker.length ≤ mtd.ebSize) → ∀ x,
      x < address mtd c.eb 0 ∨ address mtd c.eb 0 + mtd.ebSize ≤ x → chip.mem x = c.st.mem x) := by
  unfold formatBlock
  dsimp only
  split_ifs with hj
  · obtain ⟨hcalls, hmem⟩ := @cleanmarker_chip dev mtd c.eb c.st.toChip
    have hchip : (mtdBmBlockMapSet (mtdEbRelativeToAbsolute mtd c.eb) .erased c.st).toChip = c.st.toChip := rfl
    rw [hchip]
    split
    · rename_i chip heq
      rw [heq] at hcalls hmem
      exact ⟨chip, rfl, hcalls, fun hle => hmem (hle hj)⟩
    · rename_i e chip heq
      rw [heq] at hcalls hmem
      exact ⟨chip, rfl, hcalls, fun hle => hmem (hle hj)⟩
  · exact ⟨c.st.toChip, rfl, ⟨[], by simp, by simp⟩, fun _ _ _ => rfl⟩

theorem formatBlock_next' {c d : EraseCursor} (h : formatBlock dev mtd fs c = .next d) :
    d.eb = c.eb + 1 ∧ d.erasedBytes = c.erasedBytes + mtd.ebSize := by
  unfold formatBlock at h
  dsimp only at h
  split_ifs at h
  · split at h <;> cases h
    exact ⟨rfl, rfl⟩
  · cases h
    exact ⟨rfl, rfl⟩

theorem formatBlock_done {c : EraseCursor} {r : Ret × BmState} (h : formatBlock dev mtd fs c = .done r) : r.1 = .fail := by
  unfold formatBlock at h
  dsimp only at h
  split_ifs at h
  split at h <;> cases h
  rfl

theorem before_of_calm (h : Calm mtd b st st') (hb : Before mtd b l R tr st) : Before mtd b l R tr st' := by
  obtain ⟨new, hn, hc⟩ := hb.calls
  obtain ⟨new', hn', hc'⟩ := h.calls
  refine ⟨fun x h1 h2 => by rw [h.mem]; exact hb.resident x h1 h2, new ++ new', by rw [hn', hn, List.append_assoc], ?_⟩
  intro call hcall
  exact (List.mem_append.mp hcall).elim (hc call) (fun hcall => notChange (hc' call hcall))

include hmarker in
theorem formatBlock_elsewhere {c : EraseCursor} (heb : c.eb ≠ b) :
    Elsewhere mtd b table i c.st (after EraseCursor.st Prod.snd (formatBlock dev mtd fs c)) := by
  obtain ⟨chip, hst, ⟨new, hnew, hno⟩, hmem⟩ := @formatBlock_chip dev mtd fs c
  rw [hst]
  refine ⟨fun x h1 h2 => ?_, ⟨new, hnew, fun call hcall => notChange (hno call hcall)⟩, fun hh => ?_, fun v hv => hv⟩
  · exact hmem hmarker x (block_clear heb 0 (by omega) h1 h2)
  · have hset : Held mtd b table i (mtdBmBlockMapSet (mtdEbRelativeToAbsolute mtd c.eb) .erased c.st) :=
      (calm_set (.inl (by decide)) c.st).held rfl hh
    exact ⟨hset.mapped, hset.good, hset.table⟩

include hs hparts hl ht hmarker in
theorem eraseBlock_elsewhere {c : EraseCursor} (heb : c.eb ≠ b) (hh : Held mtd b table i c.st) :
    Elsewhere mtd b table i c.st (after EraseCursor.st Prod.snd (eraseBlock dev bm mtd fs c)) := by
  have hhook := elsewhere_of_fetch (hook_other hs hparts hl ht heb hh)
  unfold eraseBlock
  split
  · rename_i st₁ hsave
    rw [hsave] at hhook
    exact hhook
  · rename_i st₁ hsave
    rw [hsave] at hhook
    have herase : Elsewhere mtd b table i st₁ { st₁ with toChip := (mtdErase dev mtd c.eb st₁.toChip).2 } :=
      erase_elsewhere st₁ heb
    have hboth := hhook.trans herase
    dsimp only
    split
    · exact hboth.trans (formatBlock_elsewhere (c := { c with st := _ }) hmarker heb)
    · rename_i herr
      have hmark := hboth.trans (elsewhere_of_calm (@calm_markBad dev mtd b _ c.eb) rfl)
      split_ifs
      · exact hmark
      · exact hmark.trans (elsewhere_of_calm (calm_set (.inr (erase_failed hs herr).2) _) rfl)
    · exact hboth

include hs hparts hl hd ht hr in
theorem eraseBlock_own {c : EraseCursor} (heb : c.eb = b) (hh : Held mtd b table i c.st) (hb : Before mtd b l R tr c.st) :
    Held mtd b table i (after EraseCursor.st Prod.snd (eraseBlock dev bm mtd fs c)) ∧
      (Before mtd b l R tr (after EraseCursor.st Prod.snd (eraseBlock dev bm mtd fs c)) ∨
        Behind mtd b i l R tr (after EraseCursor.st Prod.snd (eraseBlock dev bm mtd fs c))) ∧
      ∀ d, eraseBlock dev bm mtd fs c = .next d → Behind mtd b i l R tr d.st := by
  obtain ⟨hcalm, hheld, hcached⟩ := hook_own hs hparts hl hd ht hr hh
  have hbytes : readBytes c.st.mem l.offset l.length = readBytes R l.offset l.length := readBytes_congr hb.resident
  rw [hbytes] at hcached
  subst heb
  unfold eraseBlock
  split
  · rename_i st₁ hsave
    rw [hsave] at hcalm hheld
    exact ⟨hheld, .inl (before_of_calm hcalm hb), fun d hd => by cases hd⟩
  · rename_i st₁ hsave
    rw [hsave] at hcalm hheld hcached
    have herase : ∃ mem, mtdErase dev mtd c.eb st₁.toChip = (none, ⟨mem, st₁.calls ++ [.erase mtd.start c.eb]⟩) := by
      have hvalid : mtdValidEraseBlock mtd c.eb = true := decide_eq_true hl.valid
      unfold mtdErase
      rw [hvalid, if_neg (by simp)]
      dsimp only
      rw [hs.reply _ (.erase mtd.start c.eb) (.inl (.inl rfl))]
      exact ⟨_, rfl⟩
    obtain ⟨mem, herase⟩ := herase
    rw [herase]
    dsimp only
    generalize hc' : ({ c with st := { st₁ with toChip := ⟨mem, st₁.calls ++ [.erase mtd.start c.eb]⟩ } } : EraseCursor) = c'
    have hst' : c'.st = { st₁ with toChip := ⟨mem, st₁.calls ++ [.erase mtd.start c.eb]⟩ } := by rw [← hc']
    obtain ⟨chip, hst, ⟨new, hnew, hno⟩, -⟩ := @formatBlock_chip dev mtd fs c'
    have hset : Held mtd c.eb table i (mtdBmBlockMapSet (mtdEbRelativeToAbsolute mtd c'.eb) .erased c'.st) :=
      (calm_set (.inl (by decide)) c'.st).held rfl (by rw [hst']; exact ⟨hheld.mapped, hheld.good, hheld.table⟩)
    have hbehind : Behind mtd c.eb i l R tr (after EraseCursor.st Prod.snd (formatBlock dev mtd fs c')) := by
      rw [hst]
      obtain ⟨new₀, hn₀, hc₀⟩ := hb.calls
      obtain ⟨new₁, hn₁, hc₁⟩ := hcalm.calls
      have hsys : c'.st.sysinfo = st₁.sysinfo := by rw [hst']
      refine ⟨(hcached rfl).congr hsys, new₀ ++ new₁ ++ [.erase mtd.start c.eb] ++ new, ?_, by simp, fun x _ _ hp => ?_⟩
      · dsimp only
        rw [hnew, hst', hn₁, hn₀]
        simp only [List.append_assoc]
      · refine absurd hp (not_programmed ?_ x)
        intro call hcall
        simp only [List.mem_append, List.mem_singleton] at hcall
        rcases hcall with ((hcall | hcall) | rfl) | hcall
        · exact (hc₀ call hcall).2
        · exact notProgram (hc₁ call hcall)
        · rfl
        · exact notProgram (hno call hcall)
    refine ⟨?_, .inr hbehind, fun d hd => ?_⟩
    · rw [hst]
      exact ⟨hset.mapped, hset.good, hset.table⟩
    · rw [hd] at hbehind
      exact hbehind

theorem eraseBlock_counts {c d : EraseCursor} (h : eraseBlock dev bm mtd fs c = .next d) :
    d.eb = c.eb + 1 ∧ d.erasedBytes ≤ c.erasedBytes + mtd.ebSize := by
  unfold eraseBlock at h
  split at h
  · cases h
  · dsimp only at h
    split at h
    · obtain ⟨heb, hbytes⟩ := formatBlock_next' h
      exact ⟨heb, hbytes.le⟩
    · split_ifs at h
      cases h
      exact ⟨rfl, Nat.le_add_right _ _⟩
    · cases h

theorem eraseBlock_done {c : EraseCursor} {r : Ret × BmState} (h : eraseBlock dev bm mtd fs c = .done r) :
    r.1 = .fail := by
  unfold eraseBlock at h
  split at h
  · cases h
    rfl
  · dsimp only at h
    split at h
    · exact formatBlock_done h
    · split_ifs at h
      cases h
      rfl
    · cases h
      rfl

structure Erasing (mtd : MtdDevInfo) (b i : ℕ) (table : List SysinfoLayout) (l : SysinfoLayout) (R : Memory)
    (tr : List DevCall) (c : EraseCursor) : Prop where
  held : Held mtd b table i c.st
  bytes : c.erasedBytes ≤ c.eb * mtd.ebSize
  phase : c.eb ≤ b ∧ Before mtd b l R tr c.st ∨ b < c.eb ∧ Behind mtd b i l R tr c.st

include hl in
theorem Erasing.elsewhere {c d : EraseCursor} (hc : Erasing mtd b i table l R tr c) (heb : c.eb ≠ b)
    (h : Elsewhere mtd b table i c.st d.st) (hd : d.eb = c.eb + 1) (hbytes : d.erasedBytes ≤ c.erasedBytes + mtd.ebSize) :
    Erasing mtd b i table l R tr d := by
  refine ⟨h.held hc.held, ?_, ?_⟩
  · rw [hd, Nat.add_mul, Nat.one_mul]
    exact hbytes.trans (Nat.add_le_add_right hc.bytes _)
  · rcases hc.phase with ⟨hle, hb⟩ | ⟨hlt, hb⟩
    · exact .inl ⟨by omega, h.before hl hb⟩
    · exact .inr ⟨by omega, h.behind hl hb⟩

include hl in
theorem unlock_erasing {c : EraseCursor} (hc : Erasing mtd b i table l R tr c) :
    Erasing mtd b i table l R tr (c.withChip (mtdUnlock dev mtd c.eb c.st.toChip).2) := by
  have helse : Elsewhere mtd b table i c.st (c.withChip (mtdUnlock dev mtd c.eb c.st.toChip).2).st :=
    elsewhere_of_calm (@calm_unlock dev mtd b c.st c.eb) rfl
  exact ⟨helse.held hc.held, hc.bytes,
    hc.phase.imp (fun hp => ⟨hp.1, helse.before hl hp.2⟩) (fun hp => ⟨hp.1, helse.behind hl hp.2⟩)⟩

structure Ended (mtd : MtdDevInfo) (b i : ℕ) (table : List SysinfoLayout) (l : SysinfoLayout) (R : Memory)
    (tr : List DevCall) (st : BmState) : Prop where
  sound : Sound mtd b table i st
  phase : Before mtd b l R tr st ∨ Behind mtd b i l R tr st

include hs hparts hl hd ht hr hmarker

theorem eraseBlock_next_erasing {c d : EraseCursor} (hc : Erasing mtd b i table l R tr c)
    (h : eraseBlock dev bm mtd fs c = .next d) : Erasing mtd b i table l R tr d := by
  obtain ⟨heb, hbytes⟩ := eraseBlock_counts h
  by_cases hown : c.eb = b
  · have hb := (hc.phase.resolve_right (fun hp => by have := hp.1; omega)).2
    obtain ⟨hheld, -, hbehind⟩ : Held mtd b table i (after EraseCursor.st Prod.snd (eraseBlock dev bm mtd fs c)) ∧ _ :=
      eraseBlock_own hs hparts hl hd ht hr hown hc.held hb
    rw [h] at hheld
    refine ⟨hheld, ?_, .inr ⟨by omega, hbehind d h⟩⟩
    rw [heb, Nat.add_mul, Nat.one_mul]
    exact hbytes.trans (Nat.add_le_add_right hc.bytes _)
  · have helse := eraseBlock_elsewhere hs hparts hl ht hmarker hown hc.held
    rw [h] at helse
    exact hc.elsewhere hl hown helse heb hbytes

theorem eraseBlock_done_ended {c : EraseCursor} {r : Ret × BmState} (hc : Erasing mtd b i table l R tr c)
    (h : eraseBlock dev bm mtd fs c = .done r) : Ended mtd b i table l R tr r.2 := by
  by_cases hown : c.eb = b
  · have hb := (hc.phase.resolve_right (fun hp => by have := hp.1; omega)).2
    obtain ⟨hheld, hphase, -⟩ : Held mtd b table i (after EraseCursor.st Prod.snd (eraseBlock dev bm mtd fs c)) ∧ _ :=
      eraseBlock_own hs hparts hl hd ht hr hown hc.held hb
    rw [h] at hheld hphase
    exact ⟨sound_of_held hheld, hphase⟩
  · have helse := eraseBlock_elsewhere hs hparts hl ht hmarker hown hc.held
    rw [h] at helse
    exact ⟨sound_of_held (helse.held hc.held), hc.phase.imp (fun hp => helse.before hl hp.2) (fun hp => helse.behind hl hp.2)⟩

theorem eraseStep_erasing {totalBytes : ℕ} {c d : EraseCursor} (hc : Erasing mtd b i table l R tr c)
    (h : eraseStep dev bm mtd fs totalBytes c = .next d) : Erasing mtd b i table l R tr d := by
  have hskip {c : EraseCursor} (hc : Erasing mtd b i table l R tr c) (heb : c.eb ≠ b) :
      Erasing mtd b i table l R tr c.skipped :=
    hc.elsewhere hl heb (elsewhere_of_calm (.refl _) rfl) rfl (Nat.le_add_right _ _)
  unfold eraseStep at h
  split_ifs at h with h1 h2 h3
  · cases h
    apply hskip hc
    rintro rfl
    have hgood := hc.held.good _ (.inr rfl)
    rw [hgood, Bool.and_false] at h2
    cases h2
  · have hunlock : Erasing mtd b i table l R tr (c.withChip (mtdUnlock dev mtd c.eb c.st.toChip).2) := unlock_erasing hl hc
    split at h
    · rename_i heq
      rw [heq] at hunlock
      exact eraseBlock_next_erasing hs hparts hl hd ht hr hmarker hunlock h
    · rename_i heq
      rw [heq] at hunlock
      cases h
      apply hskip hunlock
      intro heb
      have heb : c.eb = b := heb
      have hvalid : mtdValidEraseBlock mtd c.eb = true := decide_eq_true (heb ▸ hl.valid)
      have hreply := hs.reply c.st.calls (.unlock mtd.start c.eb) (.inl (.inl heb))
      rw [mtdUnlock, hvalid, if_neg (by simp), Prod.mk.injEq, hreply] at heq
      cases heq.1
  · exact eraseBlock_next_erasing hs hparts hl hd ht hr hmarker hc h

theorem eraseStep_ended {totalBytes : ℕ} {c : EraseCursor} {r : Ret × BmState} (hc : Erasing mtd b i table l R tr c)
    (h : eraseStep dev bm mtd fs totalBytes c = .done r) : Ended mtd b i table l R tr r.2 ∧
      ∀ n, r.1 = .off n → totalBytes = mtd.ebCnt * mtd.ebSize → Held mtd b table i r.2 ∧ Behind mtd b i l R tr r.2 := by
  unfold eraseStep at h
  split_ifs at h with h1 h2 h3
  · have hst : r.2 = c.st := by
      unfold eraseExit at h
      split_ifs at h
      · cases h
        rfl
      · split at h <;> cases h <;> rfl
    refine ⟨⟨by rw [hst]; exact sound_of_held hc.held, by rw [hst]; exact hc.phase.imp And.right And.right⟩,
      fun n _ htotal => ?_⟩
    have hend : mtd.ebCnt ≤ c.eb := by
      refine h1.elim (fun hle => ?_) id
      rw [htotal] at hle
      exact Nat.le_of_mul_le_mul_right (hle.trans hc.bytes) mtd.ebSize_pos
    have hvalid := hl.valid
    rw [hst]
    exact ⟨hc.held, (hc.phase.resolve_left (fun hp => by have := hp.1; omega)).2⟩
  · have hunlock : Erasing mtd b i table l R tr (c.withChip (mtdUnlock dev mtd c.eb c.st.toChip).2) := unlock_erasing hl hc
    split at h
    · rename_i heq
      rw [heq] at hunlock
      exact ⟨eraseBlock_done_ended hs hparts hl hd ht hr hmarker hunlock h,
        fun n hn => by rw [eraseBlock_done h] at hn; cases hn⟩
    · cases h
  · exact ⟨eraseBlock_done_ended hs hparts hl hd ht hr hmarker hc h,
      fun n hn => by rw [eraseBlock_done h] at hn; cases hn⟩

omit hs hparts hl hd ht hr hmarker in
theorem erase_whole : mtdOffsetToEbIndex mtd (mtdBlockAlign mtd (mtd.start + mtd.size + mtd.ebSize - 1)) -
    mtdOffsetToEbIndex mtd mtd.start = mtd.ebCnt := by
  have hpos := mtd.ebSize_pos
  obtain ⟨q, hq⟩ := mtd.start_dvd
  have hlast : (mtd.start + mtd.size + mtd.ebSize - 1) / mtd.ebSize = q + mtd.ebCnt := by
    apply Nat.div_eq_of_lt_le
    · rw [Nat.add_mul, mtd.ebCnt_mul, hq, Nat.mul_comm]
      omega
    · rw [Nat.add_mul, Nat.add_mul, mtd.ebCnt_mul, hq, Nat.mul_comm]
      omega
  rw [mtdOffsetToEbIndex, mtdBlockAlign, Nat.mul_div_cancel _ hpos, mtdOffsetToEbIndex, hlast, hq,
    Nat.mul_div_cancel_left q hpos, Nat.add_sub_cancel_left]

theorem basicErase_ended {length : ℕ} (hsound : Sound mtd b table i st) (hb : Before mtd b l R tr st) :
    Ended mtd b i table l R tr (mtdBasicErase dev bm mtd fs length st).2 ∧
      ∀ n, (mtdBasicErase dev bm mtd fs length st).1 = .off n → length = mtd.size →
        Held mtd b table i (mtdBasicErase dev bm mtd fs length st).2 ∧
          Behind mtd b i l R tr (mtdBasicErase dev bm mtd fs length st).2 := by
  have hrefused : Ended mtd b i table l R tr st := ⟨hsound, .inl hb⟩
  unfold mtdBasicErase
  dsimp only
  split_ifs with h1 h2 h3 h4
  · exact ⟨hrefused, fun n hn => by cases hn⟩
  · exact ⟨hrefused, fun n hn => by cases hn⟩
  · exact ⟨hrefused, fun n hn => by cases hn⟩
  · exact ⟨hrefused, fun n hn => by cases hn⟩
  · have hmapped : st.map.isSome = true := by
      simpa [mtdBmBlockMapIsValid, Option.isSome_iff_ne_none] using h4
    have hstart : Erasing mtd b i table l R tr ⟨0, 0, 0, st⟩ :=
      ⟨hsound.held hmapped, Nat.zero_le _, .inl ⟨Nat.zero_le b, hb⟩⟩
    obtain ⟨hended, hbehind⟩ := Loop.exec_rule (eraseLoop dev bm mtd fs _)
      (fun c d hc h => eraseStep_erasing hs hparts hl hd ht hr hmarker hc h)
      (fun c r hc h => eraseStep_ended hs hparts hl hd ht hr hmarker hc h) hstart
    refine ⟨hended, fun n hn hlength => hbehind n hn ?_⟩
    rw [hlength, erase_whole]

end Erase



section Write

variable {maxSize : ℕ} (hs : Steady dev mtd b) (hl : InBlock mtd l b) (hd : DisjointLayouts table)
  (ht : table[i]? = some l) (hr : l.reserve = .reserved)

theorem mtdWrite_chip (eb offs : ℕ) (data : List UInt8) (oob : Option (List UInt8)) (mode : MtdOps) (s : Chip) :
    ((mtdWrite dev mtd eb offs data oob mode s).2 = s ∧ (mtdWrite dev mtd eb offs data oob mode s).1 = some .einval) ∨
      (mtdWrite dev mtd eb offs data oob mode s).2.calls = s.calls ++ [.write mtd.start eb offs data oob mode] ∧
        (mtdWrite dev mtd eb offs data oob mode s).1 = dev.reply (s.calls ++ [.write mtd.start eb offs data oob mode]) ∧
        (∀ x, x < address mtd eb offs ∨ address mtd eb offs + data.length ≤ x →
          (mtdWrite dev mtd eb offs data oob mode s).2.mem x = s.mem x) ∧
        ((mtdWrite dev mtd eb offs data oob mode s).1 = none →
          (mtdWrite dev mtd eb offs data oob mode s).2.mem = writeBytes s.mem (address mtd eb offs) data) := by
  unfold mtdWrite
  split_ifs
  · exact .inl ⟨rfl, rfl⟩
  · exact .inl ⟨rfl, rfl⟩
  · exact .inl ⟨rfl, rfl⟩
  · exact .inl ⟨rfl, rfl⟩
  · right
    cases hreply : dev.reply (s.calls ++ [.write mtd.start eb offs data oob mode]) with
    | none =>
      dsimp only
      rw [hreply]
      exact ⟨rfl, rfl, fun x hx => writeBytes_outside _ _ _ _ hx, fun _ => rfl⟩
    | some e =>
      dsimp only
      rw [hreply]
      exact ⟨rfl, rfl, fun x hx => fillBytes_outside _ _ _ _ _ hx, fun h => by cases h⟩

include hd ht hr in
theorem merged_byte {ls : List SysinfoLayout} {page data : List UInt8} {w x : ℕ} (hls : st.sysinfo = some ls)
    (htab : SameTable table ls) (hcached : Cached i (readBytes R l.offset l.length) st)
    (hpage : page.length = mtd.minIoSize) (hmerge : sysinfoTraversalMerge ls page w mtd.minIoSize = some data)
    (h1 : w ≤ x) (h2 : x < w + mtd.minIoSize) (h3 : l.offset ≤ x) (h4 : x < l.offset + l.length) :
    data[x - w]? = some (R x) := by
  obtain ⟨ls', l', hls', hl', hvalue⟩ := hcached
  cases hls.symm.trans hls'
  obtain ⟨l'', hl'', hoff, hlen, hres⟩ := htab.getElem? ht
  cases hl'.symm.trans hl''
  have hbyte := merge_reserved (htab.disjoint hd) (List.mem_of_getElem? hl') hpage hmerge (hres.trans hr) hvalue
    (by rw [readBytes_length, hlen]) h1 h2 (by omega) (by omega)
  rw [hbyte, hoff, List.getElem?_eq_getElem (by rw [readBytes_length]; omega), readBytes_getElem,
    Nat.add_sub_cancel' h3]

include hs hl hd ht hr in
theorem Behind.program {ls : List SysinfoLayout} {page data : List UInt8} {w : ℕ} {oob : Option (List UInt8)} {mode : MtdOps}
    (hb : Behind mtd b i l R tr st) (hls : st.sysinfo = some ls) (htab : SameTable table ls)
    (hpage : page.length = mtd.minIoSize) (hmerge : sysinfoTraversalMerge ls page (mtd.start + w) mtd.minIoSize = some data)
    (hdvd : mtd.minIoSize ∣ w) :
    Behind mtd b i l R tr
      { st with toChip := (mtdWrite dev mtd (mtdOffsetToEbIndex mtd w) (w % mtd.ebSize) data oob mode st.toChip).2 } := by
  obtain ⟨new, hn, he, hback⟩ := hb.back
  have hlen : data.length = mtd.minIoSize := merge_length hpage hmerge
  rcases @mtdWrite_chip dev mtd (mtdOffsetToEbIndex mtd w) (w % mtd.ebSize) data oob mode st.toChip with
    ⟨hsame, -⟩ | ⟨hcalls, hreply, houtside, hinside⟩
  · rw [hsame]
    exact hb
  rw [address_block, hlen] at houtside
  rw [address_block] at hinside
  refine ⟨hb.cached, new ++ [.write mtd.start (mtdOffsetToEbIndex mtd w) (w % mtd.ebSize) data oob mode], ?_,
    List.mem_append_left _ he, fun x h1 h2 hp => ?_⟩
  · dsimp only
    rw [hcalls, hn, List.append_assoc]
  · by_cases hx : x < mtd.start + w ∨ mtd.start + w + mtd.minIoSize ≤ x
    · refine (houtside x hx).trans (hback x h1 h2 ((programmed_append.mp hp).resolve_right ?_))
      rintro ⟨eb, offs, data', oob', mode', hmem, hlow, hhigh⟩
      cases List.mem_singleton.mp hmem
      rw [address_block] at hlow hhigh
      omega
    · rw [not_or, not_lt, not_le] at hx
      by_cases hown : mtdOffsetToEbIndex mtd w = b
      · rw [hs.reply _ (.write mtd.start (mtdOffsetToEbIndex mtd w) (w % mtd.ebSize) data oob mode) (.inl (.inl hown))]
          at hreply
        have hbyte := merged_byte hd ht hr hls htab hb.cached hpage hmerge hx.1 hx.2 h1 h2
        change (mtdWrite dev mtd _ _ data oob mode st.toChip).2.mem x = R x
        rw [hinside hreply, writeBytes, if_pos hx.1, hbyte, Option.getD_some]
      · have hblock := @block_clear mtd b _ hown (w % mtd.ebSize) x _ (page_in_block hdvd)
          (by have := hl.low; omega) (by have := hl.high; omega)
        rw [address_block] at hblock
        omega

structure Writing (mtd : MtdDevInfo) (b i : ℕ) (table : List SysinfoLayout) (l : SysinfoLayout) (R : Memory)
    (tr : List DevCall) (c : Cursor) : Prop where
  held : Held mtd b table i c.st
  behind : Behind mtd b i l R tr c.st
  aligned : mtd.minIoSize ∣ c.wOffset
  full : c.wLength ≤ c.wBuffer.length

theorem prepared_full {c : Cursor} (h : c.wLength ≤ c.wBuffer.length) (h0 : c.wLength ≠ 0) :
    mtd.minIoSize ≤ (prepared mtd fs c).wBuffer.length ∧ c.wLength ≤ (prepared mtd fs c).wBuffer.length := by
  have hpos := pagelen_pos mtd fs
  have hle := minIoSize_le_pagelen mtd fs
  have hw : writen mtd fs c = if pagelen mtd fs < c.wLength then pagelen mtd fs else c.wLength := rfl
  rw [prepared, takeOob_frame]
  dsimp only
  unfold padTail
  dsimp only
  split_ifs at hw with hlt
  · rw [hw, Nat.mod_self, if_pos rfl]
    omega
  · rw [hw]
    split_ifs with hmod hpad
    · have := Nat.le_of_dvd (by omega) (Nat.dvd_of_mod_eq_zero hmod)
      omega
    · simp only [List.length_append, List.length_replicate]
      omega
    · simp only [List.length_append, List.length_replicate, List.length_take]
      omega

theorem retireBlock_elsewhere {eb : ℕ} (heb : ¬Numbered mtd b eb) (st : BmState) :
    Elsewhere mtd b table i st (retireBlock dev mtd fs eb st).2 := by
  have hne : eb ≠ b := fun h => heb (.inl h)
  have herase : Elsewhere mtd b table i st { st with toChip := (mtdErase dev mtd eb st.toChip).2 } := erase_elsewhere st hne
  unfold retireBlock markBad
  dsimp only
  split_ifs
  · exact herase
  · exact herase.trans (elsewhere_of_calm (@calm_markBad dev mtd b _ eb) rfl)
  · exact (herase.trans (elsewhere_of_calm (@calm_markBad dev mtd b _ eb) rfl)).trans
      (elsewhere_of_calm (calm_set (.inr heb) _) rfl)
  · exact herase
  · exact herase.trans (elsewhere_of_calm (calm_set (.inr heb) _) rfl)

include hs hl hd ht hr

theorem sent_behind {c : Cursor} {data : List UInt8} {oob : Option (List UInt8)} {mode : MtdOps}
    (hh : Held mtd b table i c.st) (hb : Behind mtd b i l R tr c.st) (hdvd : mtd.minIoSize ∣ c.wOffset)
    (hlen : mtd.minIoSize ≤ c.wBuffer.length) (hmerge : mergePage mtd c = some data) :
    Behind mtd b i l R tr { c.st with
      toChip := (mtdWrite dev mtd (mtdOffsetToEbIndex mtd c.wOffset) (c.wOffset % mtd.ebSize)
        data oob mode c.st.toChip).2 } := by
  obtain ⟨ls, hls, htab, -⟩ := hh.table
  unfold mergePage at hmerge
  rw [hls] at hmerge
  dsimp only at hmerge
  rw [Nat.add_comm] at hmerge
  exact hb.program hs hl hd ht hr hls htab (by rw [List.length_take]; omega) hmerge hdvd

omit hl hd ht hr in
theorem write_failed {eb offs : ℕ} {data : List UInt8} {oob : Option (List UInt8)} {mode : MtdOps} {s : Chip}
    (h : (mtdWrite dev mtd eb offs data oob mode s).1 = some .eio) : ¬Numbered mtd b eb := by
  intro hn
  rcases @mtdWrite_chip dev mtd eb offs data oob mode s with ⟨-, hinval⟩ | ⟨-, hreply, -⟩
  · rw [hinval] at h
    cases h
  · rw [hs.reply _ (.write mtd.start eb offs data oob mode) (.inl hn), h] at hreply
    cases hreply

theorem programPage_writing {c : Cursor} {data : List UInt8} {oob : Option (List UInt8)}
    (hh : Held mtd b table i c.st) (hb : Behind mtd b i l R tr c.st) (hdvd : mtd.minIoSize ∣ c.wOffset)
    (hlen : mtd.minIoSize ≤ c.wBuffer.length) (hfull : c.wLength ≤ c.wBuffer.length) (hmerge : mergePage mtd c = some data) :
    (∀ d, programPage dev mtd fs data oob c = .next d → Writing mtd b i table l R tr d) ∧
      ∀ r, programPage dev mtd fs data oob c = .done r → Held mtd b table i r.st ∧ Behind mtd b i l R tr r.st := by
  have hdata : data.length = mtd.minIoSize := mergePage_length mtd hlen hmerge
  have hsent : ∀ chip : Chip, (c.sent mtd.minIoSize data chip).wBuffer.length = c.wBuffer.length := by
    intro chip
    rw [Cursor.sent_wBuffer, List.length_append, List.length_drop]
    omega
  have hbehind : Behind mtd b i l R tr { c.st with
      toChip := (mtdWrite dev mtd (mtdOffsetToEbIndex mtd c.wOffset) (c.wOffset % mtd.ebSize) data oob (writeMode fs)
        c.st.toChip).2 } := sent_behind hs hl hd ht hr hh hb hdvd hlen hmerge
  unfold programPage
  cases hw : mtdWrite dev mtd (mtdOffsetToEbIndex mtd c.wOffset) (c.wOffset % mtd.ebSize) data oob (writeMode fs)
      c.st.toChip with
  | mk err chip =>
    rw [hw] at hbehind
    have hheld : Held mtd b table i (c.sent mtd.minIoSize data chip).st := ⟨hh.mapped, hh.good, hh.table⟩
    have hbuffer := hsent chip
    generalize hc' : c.sent mtd.minIoSize data chip = c' at hheld hbuffer
    have hst : c'.st = { c.st with toChip := chip } := by rw [← hc']; rfl
    have hoff : c'.wOffset = c.wOffset := by rw [← hc']; rfl
    have hlength : c'.wLength = c.wLength := by rw [← hc']; rfl
    rw [← hst] at hbehind
    dsimp only
    rw [hc']
    cases err with
    | none =>
      refine ⟨fun d hd => ?_, fun r hr => by cases hr⟩
      cases hd
      refine ⟨hheld, hbehind, ?_, ?_⟩
      · rw [advance_wOffset, hoff]
        exact Nat.dvd_add hdvd dvd_rfl
      · have hwriten : writen mtd fs c' = if pagelen mtd fs < c'.wLength then pagelen mtd fs else c'.wLength := rfl
        rw [advance_wLength, advance_wBuffer, List.length_drop]
        split_ifs at hwriten <;> omega
    | some e =>
      cases e with
      | eio =>
        have heb : ¬Numbered mtd b (mtdOffsetToEbIndex mtd c'.wOffset) := by
          rw [hoff]
          exact write_failed hs (congrArg Prod.fst hw)
        have helse : Elsewhere mtd b table i c'.st (retireBlock dev mtd fs (mtdOffsetToEbIndex mtd c'.wOffset) c'.st).2 :=
          retireBlock_elsewhere heb c'.st
        dsimp only
        unfold relocate
        split
        · rename_i st' hret
          rw [hret] at helse
          refine ⟨fun d hd => (by cases hd), fun r hr => ?_⟩
          cases hr
          exact ⟨helse.held hheld, helse.behind hl hbehind⟩
        · rename_i st' hret
          rw [hret] at helse
          refine ⟨fun d hd => ?_, fun r hr => (by cases hr)⟩
          cases hd
          refine ⟨helse.held hheld, helse.behind hl hbehind, ?_, ?_⟩
          · exact mtd.minIoSize_dvd.trans (Dvd.intro_left _ rfl)
          · dsimp only
            omega
      | _ =>
        refine ⟨fun d hd => (by cases hd), fun r hr => ?_⟩
        cases hr
        exact ⟨hheld, hbehind⟩

theorem writeStep_writing {c : Cursor} (hc : Writing mtd b i table l R tr c) :
    (∀ d, writeStep dev mtd fs maxSize c = .next d → Writing mtd b i table l R tr d) ∧
      ∀ r, writeStep dev mtd fs maxSize c = .done r → Held mtd b table i r.st ∧ Behind mtd b i l R tr r.st := by
  unfold writeStep
  split_ifs with hexit
  · refine ⟨fun d hd => (by split at hd <;> cases hd), fun r hr => ?_⟩
    split at hr <;> cases hr <;> exact ⟨hc.held, hc.behind⟩
  · split
    · refine ⟨fun d hd => (by cases hd), fun r hr => ?_⟩
      cases hr
      exact ⟨hc.held, hc.behind⟩
    · rename_i e he
      have hframe := enterBlock_frame mtd he
      have hst : e.st = c.st := by rw [hframe]
      have halign := enterBlock_aligned mtd he hc.aligned
      obtain ⟨hlen, hfull⟩ := @prepared_full mtd fs e (by rw [hframe]; exact hc.full)
        (by rw [hframe]; exact (not_or.mp hexit).1)
      have hheld : Held mtd b table i (prepared mtd fs e).st := by rw [prepared_st, hst]; exact hc.held
      have hbehind : Behind mtd b i l R tr (prepared mtd fs e).st := by rw [prepared_st, hst]; exact hc.behind
      rw [writePage_eq]
      split
      · refine ⟨fun d hd => (by cases hd), fun r hr => ?_⟩
        cases hr
        exact ⟨hheld, hbehind⟩
      · split
        · refine ⟨fun d hd => (by cases hd), fun r hr => ?_⟩
          cases hr
          exact ⟨hheld, hbehind⟩
        · rename_i data hmerge
          exact programPage_writing hs hl hd ht hr hheld hbehind (by rw [prepared_wOffset]; exact halign) hlen
            (by rw [prepared_wLength]; exact hfull) hmerge

theorem basicWrite_behind {progressSize : ℕ} {offset : ℤ} {buf : List UInt8} (hh : Held mtd b table i st)
    (hb : Behind mtd b i l R tr st) :
    Held mtd b table i (mtdBasicWrite dev mtd fs maxSize progressSize offset buf st).st ∧
      Behind mtd b i l R tr (mtdBasicWrite dev mtd fs maxSize progressSize offset buf st).st := by
  unfold mtdBasicWrite
  dsimp only
  split_ifs with h1 h2
  · exact ⟨hh, hb⟩
  · exact ⟨hh, hb⟩
  · exact ⟨hh, hb⟩
  · exact ⟨hh, hb⟩
  · exact ⟨hh, hb⟩
  · exact ⟨hh, hb⟩
  · have hstart : Writing mtd b i table l R tr (writeStart fs (offset - mtd.start).toNat progressSize buf st) :=
      ⟨hh, hb, Nat.dvd_of_mod_eq_zero (not_not.mp h2), le_rfl⟩
    exact Loop.exec_rule (writeLoop dev mtd fs maxSize) (fun c d hc h => (writeStep_writing hs hl hd ht hr hc).1 d h)
      (fun c r hc h => (writeStep_writing hs hl hd ht hr hc).2 r h) hstart

end Write



end LinuxRecovery.SysinfoSurvival
