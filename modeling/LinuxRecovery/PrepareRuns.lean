import LinuxRecovery.MtdManager

namespace LinuxRecovery.PrepareRuns

open Libmtd BlockMap BlockScan SysinfoSave UbiPrepare PartialSteps MtdManager
open BasicWrite (Ret)
open MtdBlock (Filesystem UbiSource)

section Partitions

variable {bm : PartInfo} {offset : ℤ} {mtd : MtdDevInfo}

def Covers (bm : PartInfo) (offset : ℤ) (mtd : MtdDevInfo) : Prop :=
  ∃ front back, bm.parts = front ++ mtd :: back ∧ ((front.map MtdDevInfo.size).sum : ℤ) ≤ offset ∧
    offset < (front.map MtdDevInfo.size).sum + mtd.size

theorem Covers.inside (h : Covers bm offset mtd) : 0 ≤ offset ∧ offset < mtdGetCapacity bm := by
  obtain ⟨front, back, hparts, hle, hlt⟩ := h
  have hcap : mtdGetCapacity bm = (front.map MtdDevInfo.size).sum + (mtd.size + (back.map MtdDevInfo.size).sum) := by
    rw [mtdGetCapacity, hparts, List.map_append, List.sum_append, List.map_cons, List.sum_cons]
  omega

theorem devInfoFrom_none {n size : ℕ} {parts : List MtdDevInfo} (h : size + (parts.map MtdDevInfo.size).sum ≤ n) :
    devInfoFrom n size parts = none := by
  induction parts generalizing size with
  | nil => rfl
  | cons mtd parts ih =>
    rw [List.map_cons, List.sum_cons] at h
    rw [devInfoFrom, if_neg (by omega)]
    exact ih (by omega)

theorem devInfoFrom_covers {n size : ℕ} {parts : List MtdDevInfo} (hle : size ≤ n)
    (h : n < size + (parts.map MtdDevInfo.size).sum) :
    ∃ mtd, devInfoFrom n size parts = some mtd ∧ ∃ front back, parts = front ++ mtd :: back ∧
      size + (front.map MtdDevInfo.size).sum ≤ n ∧ n < size + (front.map MtdDevInfo.size).sum + mtd.size := by
  induction parts generalizing size with
  | nil =>
    rw [List.map_nil, List.sum_nil] at h
    omega
  | cons mtd parts ih =>
    rw [List.map_cons, List.sum_cons] at h
    rw [devInfoFrom]
    by_cases hlt : n < size + mtd.size
    · rw [if_pos hlt]
      exact ⟨mtd, rfl, [], parts, rfl, hle, hlt⟩
    · rw [if_neg hlt]
      obtain ⟨found, hfound, front, back, rfl, hfront, hback⟩ := @ih (size + mtd.size) (by omega) (by omega)
      refine ⟨found, hfound, mtd :: front, back, rfl, ?_, ?_⟩
      · rw [List.map_cons, List.sum_cons]
        omega
      · rw [List.map_cons, List.sum_cons]
        omega

theorem devInfo_beyond (h : (mtdGetCapacity bm : ℤ) ≤ offset) : devInfoByOffset bm offset = none := by
  rw [devInfoByOffset, if_neg (by omega), mtdGetDevInfoByOffset]
  apply devInfoFrom_none
  rw [mtdGetCapacity] at h
  omega

theorem devInfo_inside (h0 : 0 ≤ offset) (h : offset < mtdGetCapacity bm) :
    ∃ mtd, devInfoByOffset bm offset = some mtd ∧ Covers bm offset mtd := by
  rw [mtdGetCapacity] at h
  obtain ⟨mtd, hmtd, front, back, hparts, hfront, hback⟩ :=
    @devInfoFrom_covers offset.toNat 0 bm.parts (Nat.zero_le _) (by omega)
  refine ⟨mtd, ?_, front, back, hparts, by omega, by omega⟩
  rw [devInfoByOffset, if_neg (by omega)]
  exact hmtd

end Partitions

section Binding

variable (dev : Device) (bm : PartInfo) (crc32 : List UInt8 → ℕ) (source : MtdDevInfo → Chip → UbiSource)

structure Bound (bm : PartInfo) (offset length : ℤ) (method : OperationMethod) (p : FsParams) : Prop where
  mtd : ∃ mtd, p.mtd = some mtd ∧ Covers bm offset mtd
  offset : p.offset = offset
  length : p.length = length
  method : p.method = method

/-- A prepare beyond the device returns no record, and each record returned is bound to the place asked for. -/
def Rejects (p : Call × Manager) : Prop :=
  match p.1 with
  | .prepare offset length option order =>
    ((mtdGetCapacity bm : ℤ) ≤ offset →
      ∃ t, mtdBlockPrepare dev bm crc32 source offset length option order p.2 = some (false, t)) ∧
      ∀ t, mtdBlockPrepare dev bm crc32 source offset length option order p.2 = some (true, t) →
        ∃ fs, contextHandle t = some fs ∧
          Bound bm offset length (OperationOption.given option).method (t.params fs)
  | _ => True

/-- A prepare with an offset in the device. One in front of it also does no harm, for it is then taken for a place in
the first partition and starts in front of that, unless UBI rounds it to the first block. -/
def Guarded (bm : PartInfo) : Call → Prop
  | .prepare offset _ option _ => offset < mtdGetCapacity bm ∧ (offset < 0 → ∃ mtd ∈ bm.parts.head?,
      (OperationOption.given option).filetype = Filesystem.ubifs.name →
        offset.tdiv mtd.ebSize < mtdOffsetToEbIndex mtd mtd.start)
  | _ => True

variable {dev bm crc32 source} {offset length : ℤ} {method : OperationMethod} {fs : Filesystem} {s t : Manager}

theorem convert_beyond (h : (mtdGetCapacity bm : ℤ) ≤ offset) : prepareConvertParams bm fs offset length method s = s := by
  rw [prepareConvertParams, devInfo_beyond h]

theorem convert_bound (h0 : 0 ≤ offset) (h : offset < mtdGetCapacity bm) :
    Bound bm offset length method ((prepareConvertParams bm fs offset length method s).params fs) := by
  obtain ⟨mtd, hmtd, hcovers⟩ := devInfo_inside h0 h
  rw [prepareConvertParams, hmtd]
  dsimp only [Manager.withParams]
  rw [Function.update_self]
  exact ⟨⟨mtd, rfl, hcovers⟩, rfl, rfl, rfl⟩

theorem prepareInfo_bound {v : Argument → ℤ} (h : Bound bm offset length method (s.params fs)) (hv : Valid v) :
    contextHandle (mtdGetPrepareInfo fs v s).2 = some fs ∧
      Bound bm offset length method ((mtdGetPrepareInfo fs v s).2.params fs) := by
  unfold mtdGetPrepareInfo
  dsimp only
  rw [if_pos hv]
  refine ⟨rfl, ?_⟩
  dsimp only [Manager.withParams]
  rw [Function.update_self]
  exact ⟨h.mtd, h.offset, h.length, h.method⟩

section Stale

variable {mtd : MtdDevInfo} {kind : BasicWrite.FsKind}

theorem basic_lebSize (hk : fs.kind = some kind) (hmtd : (s.params fs).mtd = some mtd) :
    ∃ n, lebSize fs s = some n ∧ n ≠ 0 := by
  have hpos := mtd.ebSize_pos
  cases fs with
  | ubifs => cases hk
  | yaffs2 =>
    refine ⟨mtd.ebSize + MtdBlock.yaffs2TagSize, ?_, by omega⟩
    rw [lebSize, hmtd]
    rfl
  | _ =>
    refine ⟨mtd.ebSize, ?_, by omega⟩
    rw [lebSize, hmtd]
    rfl

theorem gather_basic (hk : fs.kind = some kind) (hmtd : (s.params fs).mtd = some mtd) (order : Order) :
    ∃ v t, gather dev bm crc32 source fs offset order s = some (v, t) ∧ v .operateStart = (s.params fs).offset ∧
      v .lebSize ≠ 0 ∧ v .maxMapped = retval (scanParams dev bm mtd kind.flag.noskipbad (s.params fs).method
        (s.params fs).offset (s.params fs).length s.toBmState).1 := by
  obtain ⟨n, hleb, hne⟩ := basic_lebSize hk hmtd
  let value : Argument → ℤ := fun
    | .operateStart => (s.params fs).offset
    | .blocksize => blocksize bm offset
    | .lebSize => n
    | .maxMapped => retval (scanParams dev bm mtd kind.flag.noskipbad (s.params fs).method
        (s.params fs).offset (s.params fs).length s.toBmState).1
  have hcall (done : List Argument) (a : Argument) (t : Manager) (ha : a ∉ done)
      (ht : t.params = s.params ∧ (.maxMapped ∉ done → t = s)) :
      ∃ u, a.call dev bm crc32 source fs offset t = some (value a, u) ∧
        u.params = s.params ∧ (.maxMapped ∉ a :: done → u = s) := by
    obtain ⟨hparams, heq⟩ := ht
    have hlater (hout : .maxMapped ∉ a :: done) : t = s := heq (fun hin => hout (List.mem_cons_of_mem _ hin))
    cases a with
    | operateStart =>
      refine ⟨t, ?_, hparams, hlater⟩
      rw [Argument.call, operateStart, hk, hparams]
    | blocksize => exact ⟨t, rfl, hparams, hlater⟩
    | lebSize =>
      refine ⟨t, ?_, hparams, hlater⟩
      have hsame : lebSize fs t = lebSize fs s := by
        cases fs with
        | ubifs => cases hk
        | _ => rw [lebSize, lebSize, hparams]
      rw [Argument.call, hsame, hleb]
      rfl
    | maxMapped =>
      obtain rfl := heq ha
      refine ⟨t.withBm (scanParams dev bm mtd kind.flag.noskipbad (t.params fs).method (t.params fs).offset
        (t.params fs).length t.toBmState).2, ?_, rfl, fun hout => absurd List.mem_cons_self hout⟩
      rw [Argument.call, maxMapped, hk]
      dsimp only
      rw [hmtd]
      rfl
  obtain ⟨t, v, hg, -, hv⟩ := evalArgs_values hcall order.nodup (v := fun _ => 0) (fun _ _ => List.not_mem_nil)
    (s := s) ⟨rfl, fun _ => rfl⟩
  have hval (a : Argument) : v a = value a := hv a (.inl (order.mem a))
  exact ⟨v, t, hg, hval _, by rw [hval]; exact hne, hval _⟩

end Stale

theorem start_negative {mtd : MtdDevInfo} (hmtd : (s.params fs).mtd = some mtd) (hneg : (s.params fs).offset < 0)
    (hubi : fs = .ubifs → (s.params fs).offset.tdiv mtd.ebSize < mtdOffsetToEbIndex mtd mtd.start) {n : ℤ}
    (h : operateStart dev bm crc32 source fs s = some (n, t)) : n < 0 := by
  unfold operateStart at h
  cases hk : fs.kind with
  | some kind =>
    rw [hk] at h
    cases h
    exact hneg
  | none =>
    have hfs : fs = .ubifs := by
      cases fs with
      | ubifs => rfl
      | _ => cases hk
    rw [hk] at h
    dsimp only at h
    rw [hmtd, Option.map_some, Option.some.injEq] at h
    rw [← show (ubifsStart dev bm crc32 source mtd (s.params fs).offset s).1 = n from congrArg Prod.fst h, ubifsStart]
    dsimp only
    split
    · exact neg_one_lt_zero
    · rename_i params hparams
      have hpeb : params.ui.pebSize = mtd.ebSize := by
        rw [(ubiParamsInit_some crc32 hparams).1]
        rfl
      have hfront := hubi hfs
      rw [← hpeb] at hfront
      rw [if_pos (by omega)]
      exact neg_one_lt_zero

theorem gather_start (hstart : ∀ t n u, t.params = s.params →
      operateStart dev bm crc32 source fs t = some (n, u) → n < 0) {order : Order} {v : Argument → ℤ}
    (h : gather dev bm crc32 source fs offset order s = some (v, t)) : v .operateStart < 0 := by
  refine (evalArgs_kept (I := fun t => t.params = s.params) (fun _ _ _ _ hs hc => (call_kept hc).params.trans hs)
    (Q := fun a n => a = .operateStart → n < 0) ?_ rfl h).2 .operateStart (.inl (order.mem _)) rfl
  rintro a t n u ht hc rfl
  exact hstart t n u ht hc

theorem rejects_of_guarded {c : Call} (h : Guarded bm c) (s : Manager) : Rejects dev bm crc32 source (c, s) := by
  cases c with
  | prepare offset length option order =>
    obtain ⟨hlt, hneg⟩ := h
    refine ⟨fun hbeyond => absurd hbeyond (not_le.mpr hlt), fun t hret => ?_⟩
    obtain ⟨fs, v, u, hfs, hg, heq⟩ := prepare_cases hret
    have hv : Valid v := prepareInfo_ok.mp (congrArg Prod.fst heq).symm
    rcases lt_or_ge offset 0 with hfront | h0
    · -- what is bound starts in front of the first partition
      obtain ⟨mtd, hmtd, hubi⟩ := hneg hfront
      have hconvert : (prepareConvertParams bm fs offset length (OperationOption.given option).method s).params fs =
          { s.params fs with
            mtd := some mtd, offset := offset, length := length, method := (OperationOption.given option).method } := by
        rw [prepareConvertParams, devInfoByOffset, if_pos hfront, Option.mem_def.mp hmtd]
        exact Function.update_self _ _ _
      have hstart := gather_start (fun t n u ht hop => by
        have hmtd : (t.params fs).mtd = some mtd := by rw [ht, hconvert]
        refine start_negative hmtd ?_ ?_ hop
        · rw [ht, hconvert]
          exact hfront
        · rintro rfl
          rw [ht, hconvert]
          exact hubi (registered_iff.mp hfs).symm) hg
      exact absurd hv.writeStart (not_le.mpr hstart)
    · have hbound := @convert_bound bm offset length (OperationOption.given option).method fs s h0 hlt
      rw [← (gather_kept hg).params] at hbound
      obtain ⟨hctx, hb⟩ := prepareInfo_bound hbound hv
      rw [show t = (mtdGetPrepareInfo fs v u).2 from congrArg Prod.snd heq]
      exact ⟨fs, hctx, hb⟩
  | _ => trivial

theorem beyond_stuck {option : Option OperationOption} {order : Order} (h : (mtdGetCapacity bm : ℤ) ≤ offset)
    (hs : ∀ fs, (s.params fs).mtd = none) :
    mtdBlockPrepare dev bm crc32 source offset length option order s = none := by
  cases hfs : fsGetRegisteredByName (OperationOption.given option).filetype with
  | none =>
    unfold mtdBlockPrepare
    dsimp only
    rw [hfs]
  | some fs =>
    rw [prepare_gathered hfs, convert_beyond h, gather_unbound order (hs fs)]
    rfl

/-- In every run whose prepares are guarded each of them rejects what is outside the device; an offset at or behind
its end is not even rejected by the first prepare of all. -/
theorem binding_iff :
    (∀ (st : BmState) (calls : List Call), (∀ c ∈ calls, Guarded bm c) →
      ∀ p ∈ trace (Call.exec dev bm crc32 source) calls (.fresh st), Rejects dev bm crc32 source p) ∧
    ∀ (st : BmState) (offset length : ℤ) (option : Option OperationOption) (order : Order),
      (mtdGetCapacity bm : ℤ) ≤ offset →
        ¬Rejects dev bm crc32 source (.prepare offset length option order, .fresh st) := by
  constructor
  · intro st calls h p hp
    exact rejects_of_guarded (h p.1 (mem_trace hp)) p.2
  · rintro st offset length option order hbeyond ⟨hret, -⟩
    obtain ⟨t, ht⟩ := hret hbeyond
    cases (beyond_stuck hbeyond fun _ => rfl).symm.trans ht

/-- The first prepare binds the file system, and the second one, behind the end of the device, is served from that. -/
theorem beyond_served : ¬∀ p ∈ trace (Call.exec (failsAt []) twoParts (fun _ => 0) (fun _ _ => ⟨[], 0, none⟩))
    [.prepare 0 4 none listed, .prepare 32 4 none listed] (.fresh (blankState [])),
      Rejects (failsAt []) twoParts (fun _ => 0) (fun _ _ => ⟨[], 0, none⟩) p := by
  intro h
  have hrun : ((Call.exec (failsAt []) twoParts (fun _ => 0) (fun _ _ => ⟨[], 0, none⟩) (.prepare 0 4 none listed)
      (.fresh (blankState []))).bind fun t => (mtdBlockPrepare (failsAt []) twoParts (fun _ => 0)
        (fun _ _ => ⟨[], 0, none⟩) 32 4 none listed t).map Prod.fst) = some true := by
    decide +kernel
  obtain ⟨t, hfirst, hsecond⟩ := Option.bind_eq_some_iff.mp hrun
  have hrejects := (trace_forall_cons.mp ((trace_forall_cons.mp h).2 t hfirst)).1
  obtain ⟨u, hu⟩ := hrejects.1 (by decide)
  rw [hu] at hsecond
  cases hsecond

end Binding

section Atomicity

variable (dev : Device) (bm : PartInfo) (crc32 : List UInt8 → ℕ) (source : MtdDevInfo → Chip → UbiSource)

structure Observation where
  prepared : Bool
  contextHandle : Option Filesystem
  lebSize : ℤ
  writeStart : ℤ
  maxMappedSize : ℤ

def observed (s : Manager) : Observation :=
  ⟨s.prepared, contextHandle s, mtdGetPrepareLebSize s, mtdGetPrepareWriteStart s, mtdGetMaxSizeMappedIn s⟩

def Atomic (p : Call × Manager) : Prop :=
  match p.1 with
  | .prepare offset length option order =>
    ∀ t, mtdBlockPrepare dev bm crc32 source offset length option order p.2 = some (false, t) →
      observed t = observed p.2
  | _ => True

def Answered (p : Call × Manager) : Prop :=
  match p.1 with
  | .prepare offset length option order =>
    ∀ fs, fsGetRegisteredByName (OperationOption.given option).filetype = some fs →
      ∀ v t, gather dev bm crc32 source fs offset order
        (prepareConvertParams bm fs offset length (OperationOption.given option).method p.2) = some (v, t) → Valid v
  | _ => True

structure RecordValid (s : Manager) : Prop where
  writeStart : s.prepared = true → 0 ≤ s.prepareInfo.writeStart
  logicalUnitSize : s.prepared = true → s.prepareInfo.logicalUnitSize ≠ 0
  maxSizeMappedInPartition : s.prepared = true → 0 ≤ s.prepareInfo.maxSizeMappedInPartition

variable {dev bm crc32 source} {s t : Manager} {fs : Filesystem} {v : Argument → ℤ}

theorem RecordValid.of_same (h : RecordValid s) (hinfo : t.prepareInfo = s.prepareInfo)
    (hprep : t.prepared = true → s.prepared = true) : RecordValid t := by
  refine ⟨fun ht => ?_, fun ht => ?_, fun ht => ?_⟩
  · exact hinfo ▸ h.writeStart (hprep ht)
  · exact hinfo ▸ h.logicalUnitSize (hprep ht)
  · exact hinfo ▸ h.maxSizeMappedInPartition (hprep ht)

theorem recordValid_fresh (st : BmState) : RecordValid (.fresh st) :=
  ⟨fun h => (nomatch h), fun h => (nomatch h), fun h => (nomatch h)⟩

theorem prepareInfo_recordValid (hv : Valid v) : RecordValid (mtdGetPrepareInfo fs v s).2 := by
  refine ⟨fun _ => ?_, fun _ => ?_, fun _ => ?_⟩
  · rw [prepareInfo_record]
    exact hv.writeStart
  · rw [prepareInfo_record]
    exact hv.logicalUnitSize
  · rw [prepareInfo_record]
    exact hv.maxSizeMappedInPartition

theorem observed_prepareInfo {u : Manager} (h : observed (mtdGetPrepareInfo fs v u).2 = observed s) :
    s.prepared = true ∧ s.prepareInfo.writeStart = v .operateStart ∧ s.prepareInfo.logicalUnitSize = v .lebSize ∧
      s.prepareInfo.maxSizeMappedInPartition = v .maxMapped := by
  have hnew := @prepareInfo_prepared fs u v
  have hold : s.prepared = true := (congrArg Observation.prepared h).symm.trans hnew
  have hs := congrArg Observation.writeStart h
  have hl := congrArg Observation.lebSize h
  have hm := congrArg Observation.maxMappedSize h
  simp only [observed, mtdGetPrepareWriteStart, mtdGetPrepareLebSize, mtdGetMaxSizeMappedIn, if_pos hnew, if_pos hold,
    prepareInfo_record] at hs hl hm
  exact ⟨hold, hs.symm, hl.symm, hm.symm⟩

def SameRecord (s t : Manager) : Prop := t.prepareInfo = s.prepareInfo ∧ t.prepared = s.prepared

theorem returned_some {ret : Ret} {r : Ret × Manager} (h : returned ret s = some r) : r.2 = s := by
  rw [returned] at h
  split_ifs at h
  cases h
  rfl

theorem transfer_same {offset length : ℕ} (h : dataTransferParamsSet offset length s = some (fs, t)) : SameRecord s t := by
  obtain ⟨fs', -, heq⟩ := Option.map_eq_some_iff.mp h
  cases heq
  exact ⟨rfl, rfl⟩

theorem elim_none {α β : Type} {o : Option α} {f : α → Option β} {b : β} (h : o.elim none f = some b) :
    ∃ a, o = some a ∧ f a = some b := by
  cases o with
  | none => cases h
  | some a => exact ⟨a, rfl, h⟩

theorem erase_same {offset length : ℕ} {r : Ret × Manager} (h : mtdBlockErase dev bm offset length s = some r) :
    SameRecord s r.2 := by
  unfold mtdBlockErase at h
  split at h
  · cases h
    exact ⟨rfl, rfl⟩
  · rename_i fs u htransfer
    have hu := transfer_same htransfer
    split at h
    · obtain ⟨mtd, -, h⟩ := elim_none h
      rw [returned_some h]
      exact hu
    · rw [returned_some h]
      exact hu

theorem write_same {offset : ℕ} {buf : List UInt8} {r : Ret × Manager}
    (h : mtdBlockWrite dev crc32 offset buf s = some r) : SameRecord s r.2 := by
  unfold mtdBlockWrite at h
  split at h
  · cases h
    exact ⟨rfl, rfl⟩
  · rename_i fs u htransfer
    have hu := transfer_same htransfer
    dsimp only at h
    split at h
    · obtain ⟨mtd, -, h⟩ := elim_none h
      rw [returned_some h]
      exact hu
    · split at h
      · cases h
        exact hu
      · obtain ⟨mtd, -, h⟩ := elim_none h
        rw [returned_some h]
        split_ifs
        · exact hu
        · exact hu

theorem finish_same {r : Ret × Manager} (h : mtdBlockFinish dev crc32 s = some r) :
    r.2.prepareInfo = s.prepareInfo ∧ (r.2.prepared = true → s.prepared = true) := by
  unfold mtdBlockFinish at h
  split_ifs at h with hprep
  rw [Bool.not_eq_false] at hprep
  split at h
  · cases h
    exact ⟨rfl, id⟩
  · split at h
    · cases h
      exact ⟨rfl, fun _ => hprep⟩
    · split at h
      · dsimp only at h
        split_ifs at h
        cases h
        exact ⟨rfl, fun _ => hprep⟩
      · cases h

theorem exec_recordValid {c : Call} (hs : RecordValid s) (hc : Atomic dev bm crc32 source (c, s))
    (h : c.exec dev bm crc32 source s = some t) : RecordValid t := by
  cases c with
  | prepare offset length option order =>
    obtain ⟨⟨ok, u⟩, hret, rfl⟩ := Option.map_eq_some_iff.mp h
    obtain ⟨fs, v, w, -, -, heq⟩ := prepare_cases hret
    cases ok with
    | true =>
      rw [show u = (mtdGetPrepareInfo fs v w).2 from congrArg Prod.snd heq]
      exact prepareInfo_recordValid (prepareInfo_ok.mp (congrArg Prod.fst heq).symm)
    | false =>
      have hsame := hc u hret
      rw [show u = (mtdGetPrepareInfo fs v w).2 from congrArg Prod.snd heq] at hsame ⊢
      obtain ⟨hprep, hstart, hleb, hmapped⟩ := observed_prepareInfo hsame
      refine ⟨fun _ => ?_, fun _ => ?_, fun _ => ?_⟩
      · rw [prepareInfo_record, ← hstart]
        exact hs.writeStart hprep
      · rw [prepareInfo_record, ← hleb]
        exact hs.logicalUnitSize hprep
      · rw [prepareInfo_record, ← hmapped]
        exact hs.maxSizeMappedInPartition hprep
  | erase offset length =>
    obtain ⟨r, hret, rfl⟩ := Option.map_eq_some_iff.mp h
    obtain ⟨hinfo, hprep⟩ := erase_same hret
    exact hs.of_same hinfo (fun ht => hprep ▸ ht)
  | write offset buf =>
    obtain ⟨r, hret, rfl⟩ := Option.map_eq_some_iff.mp h
    obtain ⟨hinfo, hprep⟩ := write_same hret
    exact hs.of_same hinfo (fun ht => hprep ▸ ht)
  | finish =>
    obtain ⟨r, hret, rfl⟩ := Option.map_eq_some_iff.mp h
    obtain ⟨hinfo, hprep⟩ := finish_same hret
    exact hs.of_same hinfo hprep

theorem answered_of_atomic {p : Call × Manager} (hs : RecordValid p.2) (h : Atomic dev bm crc32 source p) :
    Answered dev bm crc32 source p := by
  obtain ⟨c, s⟩ := p
  cases c with
  | prepare offset length option order =>
    intro fs hfs v t hg
    by_contra hv
    have hfalse : (mtdGetPrepareInfo fs v t).1 = false := Bool.eq_false_iff.mpr (mt prepareInfo_ok.mp hv)
    have hsame := h (mtdGetPrepareInfo fs v t).2 (by rw [prepare_gathered hfs, hg, Option.map_some, ← hfalse])
    obtain ⟨hprep, hstart, hleb, hmapped⟩ := observed_prepareInfo hsame
    apply hv
    refine ⟨hstart ▸ hs.writeStart hprep, ?_, hleb ▸ hs.logicalUnitSize hprep,
      hmapped ▸ hs.maxSizeMappedInPartition hprep⟩
    rw [gather_blocksize hg]
    exact blocksize_ne offset
  | _ => trivial

theorem atomic_of_answered {p : Call × Manager} (h : Answered dev bm crc32 source p) :
    Atomic dev bm crc32 source p := by
  obtain ⟨c, s⟩ := p
  cases c with
  | prepare offset length option order =>
    intro t hret
    obtain ⟨fs, v, u, hfs, hg, heq⟩ := prepare_cases hret
    have hv := h fs hfs v u hg
    have hok : (mtdGetPrepareInfo fs v u).1 = true := prepareInfo_ok.mpr hv
    cases (congrArg Prod.fst heq).trans hok
  | _ => trivial

/-- The failed prepares of a run are atomic just if none of them is refused for its values. -/
theorem atomic_iff (st : BmState) (calls : List Call) :
    (∀ p ∈ trace (Call.exec dev bm crc32 source) calls (.fresh st), Atomic dev bm crc32 source p) ↔
      ∀ p ∈ trace (Call.exec dev bm crc32 source) calls (.fresh st), Answered dev bm crc32 source p := by
  constructor
  · intro h p hp
    have hvalid := trace_invariant (I := RecordValid) (C := Atomic dev bm crc32 source)
      (fun c s t hs hc ht => exec_recordValid hs hc ht) (recordValid_fresh st) h
    exact answered_of_atomic (hvalid p hp) (h p hp)
  · exact fun h p hp => atomic_of_answered (h p hp)

/-- The first prepare of all is for no bytes, and there is a prepared record behind it. -/
theorem refused_prepared : ¬∀ p ∈ trace (Call.exec (failsAt []) twoParts (fun _ => 0) (fun _ _ => ⟨[], 0, none⟩))
    [.prepare 0 0 none listed] (.fresh (blankState [])),
      Atomic (failsAt []) twoParts (fun _ => 0) (fun _ _ => ⟨[], 0, none⟩) p := by
  intro h
  have hatomic := (trace_forall_cons.mp h).1
  have hrun : ((mtdBlockPrepare (failsAt []) twoParts (fun _ => 0) (fun _ _ => ⟨[], 0, none⟩) 0 0 none listed
      (.fresh (blankState []))).map fun r => (r.1, r.2.prepared)) = some (false, true) := by
    decide +kernel
  obtain ⟨⟨ok, t⟩, hret, heq⟩ := Option.map_eq_some_iff.mp hrun
  obtain ⟨rfl, hprep⟩ := Prod.mk.inj heq
  have hsame := congrArg Observation.prepared (hatomic t hret)
  cases hprep.symm.trans hsame

end Atomicity

end LinuxRecovery.PrepareRuns
