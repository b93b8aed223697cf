import LinuxRecovery.SysinfoPlaces
import LinuxRecovery.SysinfoSet
import LinuxRecovery.UpdateFlash

namespace LinuxRecovery.SysinfoAttempts

open ByteMemory Libmtd BlockMap Sysinfo BasicWrite BasicErase BlockScan SysinfoSave SysinfoHook SysinfoSurvival SysinfoPlaces
open PageWrites ShortTransfers MtdManager PartialSteps SysinfoSet
open MtdBlock (Filesystem UbiSource narrow narrowRet)
open UpdateFlash (Opened withParams_self)

def succeeds : Ret → Bool
  | .off _ => true
  | _ => false

/-- One update of the partition at `offset`: the client prepares, erases the whole partition, writes and finishes, and
gives up after `made` calls, or as soon as a call fails. -/
structure Attempt where
  option : Option OperationOption
  order : Order
  offset : ℤ
  length : ℤ
  eraseOffset : ℕ
  writes : List (ℕ × List UInt8)
  made : ℕ

def Attempt.preparation (a : Attempt) : Call := .prepare a.offset a.length a.option a.order

def Attempt.passed (a : Attempt) : List Call := a.writes.map (fun w => .write w.1 w.2) ++ [.finish]

def Attempt.whole (mtd : MtdDevInfo) (a : Attempt) : List Call :=
  a.preparation :: .erase a.eraseOffset mtd.size :: a.passed

def Attempt.calls (mtd : MtdDevInfo) (a : Attempt) : List Call := (a.whole mtd).take a.made

def Attempt.complete (mtd : MtdDevInfo) (a : Attempt) : Attempt := { a with made := (a.whole mtd).length }

def Attempt.kind (a : Attempt) : Option FsKind :=
  (fsGetRegisteredByName (OperationOption.given a.option).filetype).bind Filesystem.kind

section Runs

variable (dev : Device) (bm : PartInfo) (crc32 : List UInt8 → ℕ) (source : MtdDevInfo → Chip → UbiSource) (mtd : MtdDevInfo)

/-- Whether a call succeeds, and the block manager behind it; none where it does not return. -/
def result (s : Manager) : Call → Option (Bool × Manager)
  | .prepare offset length option order => mtdBlockPrepare dev bm crc32 source offset length option order s
  | .erase offset length => (MtdManager.mtdBlockErase dev bm offset length s).map (Prod.map succeeds id)
  | .write offset buf => (MtdManager.mtdBlockWrite dev crc32 offset buf s).map (Prod.map succeeds id)
  | .finish => (MtdManager.mtdBlockFinish dev crc32 s).map (Prod.map succeeds id)

def run : List Call → Manager → Option (Bool × Manager)
  | [], s => some (true, s)
  | c :: calls, s => (result dev bm crc32 source s c).bind fun r => if r.1 = true then run calls r.2 else some r

def attempts : List Attempt → Manager → Option Manager
  | [], s => some s
  | a :: as, s => (run dev bm crc32 source (a.calls mtd) s).bind fun r => attempts as r.2

/-- The byte `y` of the partition is one of the places that the pages of a write take. -/
def laid (fs : FsKind) (y : ℕ) (s : Manager) : Call → Prop
  | .write offset buf => y ∈ (room mtd s.toBmState (offset - mtd.start)).take (demand mtd fs buf.length)
  | _ => False

/-- A write among the calls takes the place `y`, and succeeds like all the calls before it. -/
def Lays (fs : FsKind) (y : ℕ) : List Call → Manager → Prop
  | [], _ => False
  | c :: calls, s => ∃ s', result dev bm crc32 source s c = some (true, s') ∧ (laid mtd fs y s c ∨ Lays fs y calls s')

/-- The attempt comes as far as its erase. -/
def Attempt.Erases (a : Attempt) (s : Manager) : Prop :=
  2 ≤ a.made ∧ ∃ s', result dev bm crc32 source s a.preparation = some (true, s')

/-- What the attempt erases of the reserved regions it also lays; it is not one of ubifs, which keeps nothing. -/
def Attempt.Restores (ls : List SysinfoLayout) (a : Attempt) (s : Manager) : Prop :=
  ∃ fs, a.kind = some fs ∧ (a.Erases dev bm crc32 source s → ∀ l ∈ ls, l.reserve = .reserved →
    ∀ x, l.offset ≤ x → x < l.offset + l.length → Lays dev bm crc32 source mtd fs (x - mtd.start) (a.calls mtd) s)

def Restoring (ls : List SysinfoLayout) : List Attempt → Manager → Prop
  | [], _ => True
  | a :: as, s => a.Restores dev bm crc32 source mtd ls s ∧
      ∀ r, run dev bm crc32 source (a.calls mtd) s = some r → Restoring ls as r.2

/-- After the last attempt, all of whose calls succeed, the reserved regions hold what they held before the first. -/
def Survives (ls : List SysinfoLayout) (earlier : List Attempt) (last : Attempt) (s : Manager) : Prop :=
  ∀ s₁ s₂, attempts dev bm crc32 source mtd earlier s = some s₁ →
    run dev bm crc32 source (last.whole mtd) s₁ = some (true, s₂) → ∀ l ∈ ls, l.reserve = .reserved →
      ∀ x, l.offset ≤ x → x < l.offset + l.length → s₂.mem x = s.mem x

end Runs

/-- The partition holds the reserved regions of the layout table that the block manager works with. -/
structure Holds (bm : PartInfo) (mtd : MtdDevInfo) (ls : List SysinfoLayout) (s : Manager) : Prop where
  placed : Placed bm mtd
  table : Table ls
  loaded : s.sysinfo = some ls
  inside : ∀ l ∈ ls, l.reserve = .reserved → mtd.start ≤ l.offset ∧ l.offset + l.length ≤ mtd.start + mtd.size

def regionBlock (mtd : MtdDevInfo) (l : SysinfoLayout) : ℕ := (l.offset - mtd.start) / mtd.ebSize

/-- An erase block holds a region whole, and no block with a reserved region fails or is called or recorded bad. -/
structure RegionsServed (dev : Device) (mtd : MtdDevInfo) (ls : List SysinfoLayout) (st : BmState) : Prop where
  whole : 0x400 ≤ mtd.ebSize
  steady : ∀ l ∈ ls, l.reserve = .reserved → Steady dev mtd (regionBlock mtd l)
  good : ∀ l ∈ ls, l.reserve = .reserved → ∀ n, Numbered mtd (regionBlock mtd l) n → mtdBmBlockMapIsBad st n = false

section Steps

variable {dev : Device} {bm : PartInfo} {crc32 : List UInt8 → ℕ} {source : MtdDevInfo → Chip → UbiSource}
  {mtd : MtdDevInfo} {fsys : Filesystem} {fs : FsKind} {b i y n : ℕ} {table : List SysinfoLayout} {l : SysinfoLayout}
  {R : Memory} {tr : List DevCall} {s s' : Manager} {ok : Bool} {ret : Ret}

theorem scanParams_calm (hs : Steady dev mtd b) (noskipbad : Bool) (method : OperationMethod) (offset length : ℤ)
    (st : BmState) : Calm mtd b st (scanParams dev bm mtd noskipbad method offset length st).2 ∧
      (scanParams dev bm mtd noskipbad method offset length st).2.sysinfo = st.sysinfo := by
  obtain ⟨hinit, hsys⟩ : Calm mtd b st (mtdBmBlockMapInit (bm.capacity / mtd.ebSize) st) ∧ _ := init_calm _ st
  unfold scanParams
  dsimp only
  split_ifs
  · exact ⟨.refl st, rfl⟩
  · exact ⟨.refl st, rfl⟩
  · obtain ⟨hscan, hsys'⟩ := scanLoop_calm hs rfl noskipbad method _ _ ⟨_, 0, mtdBmBlockMapInit (bm.capacity / mtd.ebSize) st⟩
    exact ⟨hinit.trans hscan, hsys'.trans hsys⟩

theorem call_calm (hs : Steady dev mtd b) (hkind : fsys.kind = some fs) {a : Argument} {offset v : ℤ}
    (hmtd : (s.params fsys).mtd = some mtd) (h : a.call dev bm crc32 source fsys offset s = some (v, s')) :
    Calm mtd b s.toBmState s'.toBmState ∧ s'.sysinfo = s.sysinfo := by
  cases a with
  | operateStart =>
    rw [Argument.call, operateStart, hkind] at h
    cases h
    exact ⟨.refl _, rfl⟩
  | blocksize =>
    cases h
    exact ⟨.refl _, rfl⟩
  | lebSize =>
    obtain ⟨v, -, h⟩ := Option.map_eq_some_iff.mp h
    cases h
    exact ⟨.refl _, rfl⟩
  | maxMapped =>
    rw [Argument.call, maxMapped, hkind] at h
    dsimp only at h
    rw [hmtd] at h
    cases h
    exact scanParams_calm hs _ _ _ _ _

theorem prepare_calm (hs : Steady dev mtd b) {a : Attempt} (hon : devInfoByOffset bm a.offset = some mtd)
    (hname : fsGetRegisteredByName (OperationOption.given a.option).filetype = some fsys) (hkind : fsys.kind = some fs)
    (h : result dev bm crc32 source s a.preparation = some (ok, s')) :
    Calm mtd b s.toBmState s'.toBmState ∧ s'.sysinfo = s.sysinfo ∧ (ok = true → Opened fsys mtd s') := by
  obtain ⟨fsys', v, t, hname', hgather, hr⟩ := prepare_cases h
  obtain rfl : fsys = fsys' := Option.some.inj (hname.symm.trans hname')
  let s₀ := prepareConvertParams bm fsys a.offset a.length (OperationOption.given a.option).method s
  have hs₀ : s₀.toBmState = s.toBmState := by
    change (prepareConvertParams _ _ _ _ _ _).toBmState = _
    rw [prepareConvertParams, hon]
    rfl
  have hbound : (s₀.params fsys).mtd = some mtd := by
    change ((prepareConvertParams _ _ _ _ _ _).params _).mtd = _
    rw [prepareConvertParams, hon]
    exact congrArg FsParams.mtd (withParams_self _ _)
  obtain ⟨⟨hbound, hcalm, hsys⟩, -⟩ := evalArgs_kept (I := fun t : Manager => (t.params fsys).mtd = some mtd ∧
      Calm mtd b s₀.toBmState t.toBmState ∧ t.sysinfo = s₀.sysinfo) (Q := fun _ _ => True)
    (fun c u v w hu hc => by
      obtain ⟨hcalm, hsys⟩ := call_calm hs hkind hu.1 hc
      exact ⟨by rw [(call_kept hc).params]; exact hu.1, hu.2.1.trans hcalm, hsys.trans hu.2.2⟩)
    (fun _ _ _ _ _ _ => trivial) ⟨hbound, .refl _, rfl⟩ hgather
  have hframe : (mtdGetPrepareInfo fsys v t).2.toBmState = t.toBmState := prepareInfo_frame.1
  obtain rfl : ok = (mtdGetPrepareInfo fsys v t).1 := congrArg Prod.fst hr
  obtain rfl : s' = (mtdGetPrepareInfo fsys v t).2 := congrArg Prod.snd hr
  rw [hs₀] at hcalm
  refine ⟨by rw [hframe]; exact hcalm, ?_, fun hok => ?_⟩
  · rw [hframe, hsys, hs₀]
  · have hvalid : Valid v := prepareInfo_ok.mp hok
    refine ⟨prepareInfo_prepared, by rw [prepareInfo_record, if_pos hvalid], ?_⟩
    rw [mtdGetPrepareInfo, if_pos hvalid]
    dsimp only
    rw [withParams_self]
    exact hbound

theorem returned_ok {r : Ret} (h : returned r s = some (ret, s')) :
    s' = s ∧ (succeeds ret = true → ∃ n, r = .off n) := by
  unfold returned at h
  split_ifs at h
  cases h
  refine ⟨rfl, fun hok => ?_⟩
  cases r with
  | off n => exact ⟨n, rfl⟩
  | fail => cases hok
  | trap => cases hok

theorem unprepared (offset length : ℕ) (h : s.prepared = false) : dataTransferParamsSet offset length s = none := by
  rw [dataTransferParamsSet, contextHandle, h]
  rfl

theorem erase_opened {offset length : ℕ} (ho : Opened fsys mtd s) (hkind : fsys.kind = some fs)
    (h : result dev bm crc32 source s (.erase offset length) = some (ok, s')) :
    Opened fsys mtd s' ∧ s'.toBmState = (mtdBasicErase dev bm mtd fs length s.toBmState).2 ∧
      (ok = true → ∃ n, (mtdBasicErase dev bm mtd fs length s.toBmState).1 = .off n) := by
  obtain ⟨⟨ret, t⟩, h, hok⟩ := Option.map_eq_some_iff.mp h
  obtain ⟨s₀, hs₀, ho₀, hst⟩ := ho.transfer offset length
  rw [MtdManager.mtdBlockErase, hs₀] at h
  dsimp only at h
  rw [hkind] at h
  dsimp only at h
  rw [ho₀.mtd, Option.elim_some, hst] at h
  obtain ⟨rfl, hoff⟩ := returned_ok h
  cases hok
  exact ⟨⟨ho₀.prepared, ho₀.handle, ho₀.mtd⟩, rfl, hoff⟩

theorem write_opened {offset : ℕ} {buf : List UInt8} (ho : Opened fsys mtd s) (hkind : fsys.kind = some fs)
    (h : result dev bm crc32 source s (.write offset buf) = some (ok, s')) :
    Opened fsys mtd s' ∧ ∃ maxSize progressSize,
      s'.toBmState = (mtdBasicWrite dev mtd fs maxSize progressSize offset buf s.toBmState).st ∧
        (ok = true → ∃ n, (mtdBasicWrite dev mtd fs maxSize progressSize offset buf s.toBmState).ret = .off n) := by
  obtain ⟨⟨ret, t⟩, h, hok⟩ := Option.map_eq_some_iff.mp h
  obtain ⟨s₀, hs₀, ho₀, hst⟩ := ho.transfer offset buf.length
  rw [MtdManager.mtdBlockWrite, hs₀] at h
  dsimp only at h
  rw [hkind] at h
  dsimp only at h
  rw [ho₀.mtd, Option.elim_some, hst] at h
  obtain ⟨rfl, hoff⟩ := returned_ok h
  cases hok
  exact ⟨⟨ho₀.prepared, ho₀.handle, congrArg FsParams.mtd (withParams_self _ _)⟩, _, _, rfl, hoff⟩

theorem finish_closed (ho : Opened fsys mtd s) (hkind : fsys.kind = some fs)
    (h : result dev bm crc32 source s .finish = some (ok, s')) :
    s'.prepared = false ∧ s'.toBmState = s.toBmState := by
  obtain ⟨⟨ret, t⟩, h, hok⟩ := Option.map_eq_some_iff.mp h
  rw [MtdManager.mtdBlockFinish, if_neg (by rw [ho.prepared]; exact Bool.noConfusion), ho.handle] at h
  dsimp only at h
  rw [hkind] at h
  cases h
  cases hok
  exact ⟨rfl, rfl⟩

/-- Behind the erase: the region waits in the cache, and nothing but pages that hold it went to its place. -/
structure Rewriting (fsys : Filesystem) (mtd : MtdDevInfo) (b i : ℕ) (table : List SysinfoLayout) (l : SysinfoLayout)
    (R : Memory) (tr : List DevCall) (s : Manager) : Prop where
  opened : s.prepared = true → Opened fsys mtd s
  held : Held mtd b table i s.toBmState
  behind : Behind mtd b i l R tr s.toBmState

section Region

variable (hs : Steady dev mtd b) (hl : InBlock mtd l b) (hd : DisjointLayouts table) (ht : table[i]? = some l)
  (hr : l.reserve = .reserved) (hkind : fsys.kind = some fs)

include hs hl hd ht hr hkind

theorem write_rewriting {offset : ℕ} {buf : List UInt8} (hre : Rewriting fsys mtd b i table l R tr s)
    (h : result dev bm crc32 source s (.write offset buf) = some (ok, s')) :
    Rewriting fsys mtd b i table l R tr s' ∧ s.calls <+: s'.calls ∧
      (ok = true → y / mtd.ebSize = b → laid mtd fs y s (.write offset buf) →
        Sent mtd tr (mtd.start + y) s'.toBmState) := by
  cases hp : s.prepared with
  | false =>
    obtain ⟨⟨ret, t⟩, h, hok⟩ := Option.map_eq_some_iff.mp h
    rw [MtdManager.mtdBlockWrite, unprepared offset buf.length hp] at h
    cases h
    cases hok
    exact ⟨hre, List.prefix_rfl, fun hok => by cases hok⟩
  | true =>
    obtain ⟨ho, maxSize, progressSize, hst, hoff⟩ := write_opened (hre.opened hp) hkind h
    obtain ⟨hheld, hbehind⟩ :
        Held mtd b table i (mtdBasicWrite dev mtd fs maxSize progressSize offset buf s.toBmState).st ∧
          Behind mtd b i l R tr (mtdBasicWrite dev mtd fs maxSize progressSize offset buf s.toBmState).st :=
      basicWrite_behind hs hl hd ht hr hre.held hre.behind
    have hcalls : s.calls <+: (mtdBasicWrite dev mtd fs maxSize progressSize offset buf s.toBmState).st.calls :=
      basicWrite_calls progressSize offset buf s.toBmState
    rw [← hst] at hheld hbehind hcalls
    refine ⟨⟨fun _ => ho, hheld, hbehind⟩, hcalls, fun hok hy hin => ?_⟩
    obtain ⟨n, hn⟩ := hoff hok
    rw [hst]
    exact basicWrite_sent hs hl hd ht hr hre.held hre.behind hy
      (by rwa [show ((offset : ℤ) - mtd.start).toNat = offset - mtd.start by omega]) hn

omit hs hl hd ht hr in
theorem finish_rewriting (hre : Rewriting fsys mtd b i table l R tr s)
    (h : result dev bm crc32 source s .finish = some (ok, s')) :
    Rewriting fsys mtd b i table l R tr s' ∧ s.calls <+: s'.calls := by
  cases hp : s.prepared with
  | false =>
    obtain ⟨⟨ret, t⟩, h, -⟩ := Option.map_eq_some_iff.mp h
    rw [MtdManager.mtdBlockFinish, if_pos hp] at h
    cases h
  | true =>
    obtain ⟨hclosed, hst⟩ := finish_closed (hre.opened hp) hkind h
    have hheld := hre.held
    have hbehind := hre.behind
    rw [← hst] at hheld hbehind
    exact ⟨⟨fun hopen => Bool.noConfusion (hclosed.symm.trans hopen), hheld, hbehind⟩, by rw [hst]⟩

theorem run_rewriting {calls : List Call} {r : Bool × Manager}
    (hcalls : ∀ c ∈ calls, c = .finish ∨ ∃ offset buf, c = .write offset buf) (hre : Rewriting fsys mtd b i table l R tr s)
    (h : run dev bm crc32 source calls s = some r) :
    Rewriting fsys mtd b i table l R tr r.2 ∧ s.calls <+: r.2.calls ∧
      (y / mtd.ebSize = b → Lays dev bm crc32 source mtd fs y calls s → Sent mtd tr (mtd.start + y) r.2.toBmState) := by
  induction calls generalizing s with
  | nil =>
    cases h
    exact ⟨hre, List.prefix_rfl, fun _ hlays => hlays.elim⟩
  | cons c calls ih =>
    obtain ⟨⟨ok, s'⟩, hc, h⟩ := Option.bind_eq_some_iff.mp h
    have hstep : Rewriting fsys mtd b i table l R tr s' ∧ s.calls <+: s'.calls ∧
        (ok = true → y / mtd.ebSize = b → laid mtd fs y s c → Sent mtd tr (mtd.start + y) s'.toBmState) := by
      obtain rfl | ⟨offset, buf, rfl⟩ := hcalls c List.mem_cons_self
      · obtain ⟨hre', hgrown⟩ := finish_rewriting hkind hre hc
        exact ⟨hre', hgrown, fun _ _ hin => hin.elim⟩
      · exact write_rewriting hs hl hd ht hr hkind hre hc
    obtain ⟨hre', hgrown, hsent⟩ := hstep
    cases ok with
    | false =>
      -- the attempt ends at this call, which laid nothing that counts
      cases h
      refine ⟨hre', hgrown, fun _ hlays => ?_⟩
      obtain ⟨t, ht, -⟩ := hlays
      rw [hc] at ht
      cases ht
    | true =>
      obtain ⟨hend, hgrown', hlater⟩ := ih (fun c hc => hcalls c (List.mem_cons_of_mem _ hc)) hre' h
      refine ⟨hend, hgrown.trans hgrown', fun hy hlays => ?_⟩
      obtain ⟨t, ht, hlays⟩ := hlays
      rw [hc] at ht
      cases ht
      exact hlays.elim (fun hin => (hsent rfl hy hin).more hgrown') (hlater hy)

end Region

/-- Between two attempts: the region is as it was, and its block and the layout table are in order. -/
structure Intact (mtd : MtdDevInfo) (b i : ℕ) (table : List SysinfoLayout) (l : SysinfoLayout) (R : Memory)
    (s : Manager) : Prop where
  sound : Sound mtd b table i s.toBmState
  resident : ∀ x, l.offset ≤ x → x < l.offset + l.length → s.mem x = R x

theorem Rewriting.intact (hre : Rewriting fsys mtd b i table l R tr s)
    (hsent : ∀ x, l.offset ≤ x → x < l.offset + l.length → Sent mtd tr x s.toBmState) : Intact mtd b i table l R s := by
  obtain ⟨new, hnew, -, hback⟩ := hre.behind.back
  refine ⟨sound_of_held hre.held, fun x h1 h2 => hback x h1 h2 ?_⟩
  obtain ⟨new', hnew', hprogrammed⟩ := hsent x h1 h2
  rwa [List.append_cancel_left (hnew.symm.trans hnew')]

section Whole

variable (hs : Steady dev mtd b) (hparts : AllIn bm mtd table) (hl : InBlock mtd l b) (hd : DisjointLayouts table)
  (ht : table[i]? = some l) (hr : l.reserve = .reserved) (hblock : 0x400 ≤ mtd.ebSize)

omit hs in
theorem mem_passed {a : Attempt} {n : ℕ} {c : Call} (h : c ∈ a.passed.take n) :
    c = .finish ∨ ∃ offset buf, c = .write offset buf := by
  rcases List.mem_append.mp (List.mem_of_mem_take h) with hwrite | hfinish
  · obtain ⟨w, -, rfl⟩ := List.mem_map.mp hwrite
    exact .inr ⟨w.1, w.2, rfl⟩
  · exact .inl (List.mem_singleton.mp hfinish)

include hs hparts hl hd ht hr hblock

/-- An erase of the whole partition that succeeds leaves the region in the cache. -/
theorem erase_rewriting {offset : ℕ} (hkind : fsys.kind = some fs) (ho : Opened fsys mtd s)
    (hi : Intact mtd b i table l R s) (h : result dev bm crc32 source s (.erase offset mtd.size) = some (true, s')) :
    Rewriting fsys mtd b i table l R s.calls s' := by
  obtain ⟨ho', hst, hoff⟩ := erase_opened ho hkind h
  obtain ⟨n, hn⟩ := hoff rfl
  have hbefore : Before mtd b l R s.calls s.toBmState := ⟨hi.resident, [], by simp, by simp⟩
  have hmarker : fs.isJffs2 = true → jffs2Cleanmarker.length ≤ mtd.ebSize :=
    fun _ => (show jffs2Cleanmarker.length ≤ 0x400 by decide).trans hblock
  obtain ⟨-, hended⟩ := basicErase_ended hs hparts hl hd ht hr hmarker hi.sound hbefore
  obtain ⟨hheld, hbehind⟩ := hended n hn rfl
  rw [← hst] at hheld hbehind
  exact ⟨fun _ => ho', hheld, hbehind⟩

theorem passed_intact {offset n : ℕ} {a : Attempt} {r : Bool × Manager} (hkind : fsys.kind = some fs) (ho : Opened fsys mtd s)
    (hi : Intact mtd b i table l R s)
    (hlays : ∀ x, l.offset ≤ x → x < l.offset + l.length → ∃ s',
      result dev bm crc32 source s (.erase offset mtd.size) = some (true, s') ∧
        Lays dev bm crc32 source mtd fs (x - mtd.start) (a.passed.take n) s')
    (h : run dev bm crc32 source (.erase offset mtd.size :: a.passed.take n) s = some r) :
    Intact mtd b i table l R r.2 := by
  have hne := hl.nonempty
  obtain ⟨s', herase, -⟩ := hlays l.offset le_rfl (by omega)
  have hre := erase_rewriting hs hparts hl hd ht hr hblock hkind ho hi herase
  obtain ⟨r', herase', h⟩ := Option.bind_eq_some_iff.mp h
  rw [herase] at herase'
  cases herase'
  have hrun : ∀ y, Rewriting fsys mtd b i table l R s.calls r.2 ∧ s'.calls <+: r.2.calls ∧ (y / mtd.ebSize = b →
      Lays dev bm crc32 source mtd fs y (a.passed.take n) s' → Sent mtd s.calls (mtd.start + y) r.2.toBmState) :=
    fun y => run_rewriting hs hl hd ht hr hkind (fun c hc => mem_passed hc) hre h
  refine (hrun 0).1.intact (fun x h1 h2 => ?_)
  obtain ⟨t, herase', hlays⟩ := hlays x h1 h2
  cases herase.symm.trans herase'
  have hlow := hl.low
  have hhigh := hl.high
  rw [Nat.add_mul, Nat.one_mul] at hhigh
  have hy : (x - mtd.start) / mtd.ebSize = b :=
    Nat.div_eq_of_lt_le (by omega) (by rw [Nat.add_mul, Nat.one_mul]; omega)
  have hsent := (hrun (x - mtd.start)).2.2 hy hlays
  rwa [show mtd.start + (x - mtd.start) = x by omega] at hsent

theorem attempt_intact {a : Attempt} {r : Bool × Manager} (hl' : l ∈ table) (hon : devInfoByOffset bm a.offset = some mtd)
    (hi : Intact mtd b i table l R s) (hrestores : a.Restores dev bm crc32 source mtd table s)
    (h : run dev bm crc32 source (a.calls mtd) s = some r) : Intact mtd b i table l R r.2 := by
  obtain ⟨fs, hkind, hlays⟩ := hrestores
  obtain ⟨fsys, hname, hkind⟩ := Option.bind_eq_some_iff.mp hkind
  unfold Attempt.calls Attempt.whole at h hlays
  cases hmade : a.made with
  | zero =>
    rw [hmade] at h
    cases h
    exact hi
  | succ m =>
    rw [hmade, List.take_succ_cons] at h hlays
    obtain ⟨⟨ok, s₁⟩, hprepare, h⟩ := Option.bind_eq_some_iff.mp h
    obtain ⟨hcalm, hsys, hopened⟩ := prepare_calm hs hon hname hkind hprepare
    have hi₁ : Intact mtd b i table l R s₁ :=
      ⟨⟨hcalm.good hi.sound.good, by rw [hsys]; exact hi.sound.table⟩,
        fun x h1 h2 => by rw [hcalm.mem]; exact hi.resident x h1 h2⟩
    cases ok with
    | false =>
      cases h
      exact hi₁
    | true =>
      cases m with
      | zero =>
        -- the client gives up in front of the erase
        cases h
        exact hi₁
      | succ n =>
        rw [List.take_succ_cons] at h hlays
        have herases : a.Erases dev bm crc32 source s := ⟨by omega, s₁, hprepare⟩
        refine passed_intact hs hparts hl hd ht hr hblock hkind (hopened rfl) hi₁ (fun x h1 h2 => ?_) h
        obtain ⟨t, ht, hrest⟩ := hlays herases l hl' hr x h1 h2
        rw [hprepare] at ht
        cases ht
        obtain ⟨t, ht, hrest⟩ := hrest.resolve_left id
        exact ⟨t, ht, hrest.resolve_left id⟩

theorem attempts_intact {as : List Attempt} (hl' : l ∈ table) (hon : ∀ a ∈ as, devInfoByOffset bm a.offset = some mtd)
    (hi : Intact mtd b i table l R s) (hrestoring : Restoring dev bm crc32 source mtd table as s)
    (h : attempts dev bm crc32 source mtd as s = some s') : Intact mtd b i table l R s' := by
  induction as generalizing s with
  | nil =>
    cases h
    exact hi
  | cons a as ih =>
    obtain ⟨r, hrun, h⟩ := Option.bind_eq_some_iff.mp h
    obtain ⟨hrestores, hlater⟩ := hrestoring
    have hi' := attempt_intact hs hparts hl hd ht hr hblock hl' (hon a List.mem_cons_self) hi hrestores hrun
    exact ih (fun a ha => hon a (List.mem_cons_of_mem _ ha)) hi' (hlater r hrun) h

end Whole

end Steps

section Runs

variable {dev : Device} {bm : PartInfo} {crc32 : List UInt8 → ℕ} {source : MtdDevInfo → Chip → UbiSource}
  {mtd : MtdDevInfo} {ls : List SysinfoLayout} {l : SysinfoLayout} {earlier as as' : List Attempt} {last : Attempt} {s : Manager}

theorem attempts_append : attempts dev bm crc32 source mtd (as ++ as') s =
    (attempts dev bm crc32 source mtd as s).bind (attempts dev bm crc32 source mtd as') := by
  induction as generalizing s with
  | nil => rfl
  | cons a as ih =>
    rw [List.cons_append, attempts, attempts, Option.bind_assoc]
    exact Option.bind_congr fun r _ => ih

theorem Holds.allIn (h : Holds bm mtd ls s) (hpos : ∀ l ∈ ls, 0 < l.length) : AllIn bm mtd ls := by
  intro l hl hr
  obtain ⟨hlow, hhigh⟩ := h.inside l hl hr
  have := hpos l hl
  exact h.placed.find hlow (by omega)

theorem Holds.inBlock (h : Holds bm mtd ls s) (hblock : 0x400 ≤ mtd.ebSize) (hl : l ∈ ls) (hr : l.reserve = .reserved) :
    InBlock mtd l (regionBlock mtd l) := by
  obtain ⟨hlow, hhigh⟩ := h.inside l hl hr
  obtain ⟨hlength, hoffset⟩ := h.table.mem hl
  have hpos := mtd.ebSize_pos
  have hunit : 0x400 ∣ mtd.ebSize := unit_dvd hblock
  have hw : 0x400 ∣ l.offset - mtd.start := Nat.dvd_sub (by omega) (hunit.trans mtd.start_dvd)
  have hrest : 0x400 ∣ (l.offset - mtd.start) % mtd.ebSize := (Nat.dvd_mod_iff hunit).mpr hw
  have hlt := Nat.mod_lt (l.offset - mtd.start) hpos
  have hdiv := Nat.div_add_mod (l.offset - mtd.start) mtd.ebSize
  rw [Nat.mul_comm] at hdiv
  refine ⟨?_, ?_, ?_, by omega⟩
  · rw [regionBlock, Nat.div_lt_iff_lt_mul hpos, mtd.ebCnt_mul]
    omega
  · rw [regionBlock]
    omega
  · rw [regionBlock, Nat.add_mul, Nat.one_mul]
    obtain ⟨e, he⟩ := hunit
    obtain ⟨q, hq⟩ := hrest
    omega

end Runs

section Boot

def noVolume : MtdDevInfo → Chip → UbiSource := fun _ _ => ⟨[], 0, none⟩

def bootManager : Manager := Manager.fresh ⟨⟨fun _ => 0, []⟩, none, some layout⟩

/-- A plain image for the first partition of the chip, the client going `made` calls far. -/
def bootUpdate (writes : List (ℕ × List UInt8)) (made : ℕ) : Attempt :=
  ⟨some ⟨.partition, "normal"⟩, listed, 0, 1, 0, writes, made⟩

/-- One page for each of the two regions. -/
def bothRegions : List (ℕ × List UInt8) := [(0x3800, [1]), (0x6000, [2])]

def bootRun (calls : List Call) (s : Manager) : Option (Bool × Manager) :=
  run (failsAt []) bootParts (fun _ => 0) noVolume calls s

theorem bootRun_next {c : Call} {calls : List Call} {s s' : Manager}
    (h : result (failsAt []) bootParts (fun _ => 0) noVolume s c = some (true, s')) :
    bootRun (c :: calls) s = bootRun calls s' := by
  rw [bootRun, run, h]
  rfl

theorem bootRun_cons {c : Call} {calls : List Call} {s t : Manager} (h : bootRun (c :: calls) s = some (true, t)) :
    ∃ s', result (failsAt []) bootParts (fun _ => 0) noVolume s c = some (true, s') ∧ bootRun calls s' = some (true, t) := by
  obtain ⟨⟨ok, s'⟩, hc, h⟩ := Option.bind_eq_some_iff.mp h
  cases ok with
  | false => cases h
  | true => exact ⟨s', hc, h⟩

theorem bootManager_holds : Holds bootParts bootNand layout bootManager :=
  ⟨bootParts_placed, layout_table, rfl, by simp [layout, bootNand]⟩

theorem bootManager_served : RegionsServed (failsAt []) bootNand layout bootManager.toBmState :=
  ⟨by decide, fun _ _ _ => BlockRewrite.steady failsAt_working bootNand _, fun _ _ _ _ _ => rfl⟩

theorem mem_room_take {mtd : MtdDevInfo} {st : BmState} {w y n : ℕ} (hw : w ≤ y) (hy : y < mtd.size)
    (hgood : hides mtd st (y / mtd.ebSize) = false) (hn : y < w + n) : y ∈ (room mtd st w).take n := by
  have hsplit : room mtd st y = y :: room mtd st (y + 1) :=
    room_run hgood (show y % mtd.ebSize + 1 ≤ mtd.ebSize from Nat.mod_lt y mtd.ebSize_pos) hy
  have hfirst := List.length_filter_le (fun a => !hides mtd st (a / mtd.ebSize)) (List.range' w (y - w))
  rw [List.length_range'] at hfirst
  rw [room, GoodBlocks.usable_split _ hw hy.le, List.take_append, List.mem_append]
  right
  change y ∈ (room mtd st y).take _
  rw [hsplit, List.take_cons (by omega)]
  exact List.mem_cons_self

theorem boot_laid {s : Manager} {offset y : ℕ} {c : UInt8} (hgood : hides bootNand s.toBmState 0 = false)
    (hlow : offset ≤ y) (hhigh : y < offset + 0x800) (hend : y < 0x8000) :
    laid bootNand fsNormal (y - bootNand.start) s (.write offset [c]) := by
  have hdemand : demand bootNand fsNormal [c].length = 0x800 := (by decide : demand bootNand fsNormal 1 = 0x800)
  have hblock : (y - bootNand.start) / bootNand.ebSize = 0 := Nat.div_eq_of_lt (by simp only [bootNand]; omega)
  rw [laid, hdemand]
  exact mem_room_take (by simp only [bootNand]; omega) (by simp only [bootNand]; omega) (by rw [hblock]; exact hgood)
    (by simp only [bootNand]; omega)

theorem bootUpdate_restores {made : ℕ} {s : Manager} (hmade : 4 ≤ made)
    (h : (bootRun (((bootUpdate bothRegions made).whole bootNand).take 4) s).map Prod.fst = some true)
    (hgood : ∀ n ∈ [2, 3], (bootRun (((bootUpdate bothRegions made).whole bootNand).take n) s).map
      (fun r => hides bootNand r.2.toBmState 0) = some false) :
    (bootUpdate bothRegions made).Restores (failsAt []) bootParts (fun _ => 0) noVolume bootNand layout s := by
  obtain ⟨k, rfl⟩ := Nat.exists_eq_add_of_le' hmade
  obtain ⟨⟨ok, t⟩, h, hok⟩ := Option.map_eq_some_iff.mp h
  obtain rfl : ok = true := hok
  obtain ⟨s₁, hprepare, h⟩ := bootRun_cons h
  obtain ⟨s₂, herase, h⟩ := bootRun_cons h
  obtain ⟨s₃, hfirst, h⟩ := bootRun_cons h
  obtain ⟨s₄, hsecond, -⟩ := bootRun_cons h
  have hgood₂ : hides bootNand s₂.toBmState 0 = false := by
    have hrun : bootRun (((bootUpdate bothRegions (k + 4)).whole bootNand).take 2) s = some (true, s₂) :=
      (bootRun_next hprepare).trans (bootRun_next herase)
    simpa only [hrun, Option.map_some, Option.some_inj] using hgood 2 (by decide)
  have hgood₃ : hides bootNand s₃.toBmState 0 = false := by
    have hrun : bootRun (((bootUpdate bothRegions (k + 4)).whole bootNand).take 3) s = some (true, s₃) :=
      (bootRun_next hprepare).trans ((bootRun_next herase).trans (bootRun_next hfirst))
    simpa only [hrun, Option.map_some, Option.some_inj] using hgood 3 (by decide)
  have hkind : (fsGetRegisteredByName "normal").bind Filesystem.kind = some fsNormal := by decide
  refine ⟨fsNormal, hkind, fun _ l hl _ x h1 h2 => ⟨s₁, hprepare, .inr ⟨s₂, herase, .inr ⟨s₃, hfirst, ?_⟩⟩⟩⟩
  obtain ⟨hlength, hoffset | hoffset⟩ := layout_table.mem hl
  · exact .inl (boot_laid hgood₂ (by omega) (by omega) (by omega))
  · exact .inr ⟨s₄, hsecond, .inl (boot_laid hgood₃ (by omega) (by omega) (by omega))⟩

end Boot

end LinuxRecovery.SysinfoAttempts
