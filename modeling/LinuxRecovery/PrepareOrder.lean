import LinuxRecovery.MtdManager
import LinuxRecovery.ProgressDivisor

namespace LinuxRecovery.PrepareOrder

open Libmtd BlockMap BlockScan SysinfoSave UbiPrepare PartialSteps MtdManager
open UbiPeb (UbiState ubiBypassLayoutVol bypass_same blankUbiState BypassCursor bypassLoop bypassStep bypassExit bypassStep_next)
open MtdBlock (Filesystem UbiSource)
open ProgressDivisor (fourPebs fourScanned)

variable {dev : Device} {bm : PartInfo} {crc32 : List UInt8 → ℕ} {source : MtdDevInfo → Chip → UbiSource}
  {mtd : MtdDevInfo} {offset length : ℤ} {fs : Filesystem} {s t : Manager} {v : Argument → ℤ}

section Steps

theorem gather_steps {order : Order} {a b c d : Argument} (hargs : order.args = [a, b, c, d])
    (h : gather dev bm crc32 source fs offset order s = some (v, t)) :
    ∃ na nb nc nd s₁ s₂ s₃, a.call dev bm crc32 source fs offset s = some (na, s₁) ∧
      b.call dev bm crc32 source fs offset s₁ = some (nb, s₂) ∧ c.call dev bm crc32 source fs offset s₂ = some (nc, s₃) ∧
      d.call dev bm crc32 source fs offset s₃ = some (nd, t) ∧
      v = Function.update (Function.update (Function.update (Function.update (fun _ => 0) a na) b nb) c nc) d nd := by
  rw [gather, hargs] at h
  obtain ⟨na, s₁, ha, h⟩ := evalArgs_cons_some h
  obtain ⟨nb, s₂, hb, h⟩ := evalArgs_cons_some h
  obtain ⟨nc, s₃, hc, h⟩ := evalArgs_cons_some h
  obtain ⟨nd, s₄, hd, h⟩ := evalArgs_cons_some h
  cases h
  exact ⟨na, nb, nc, nd, s₁, s₂, s₃, ha, hb, hc, hd, rfl⟩

theorem ubifsStart_call (hmtd : (s.params .ubifs).mtd = some mtd) :
    Argument.operateStart.call dev bm crc32 source .ubifs offset s =
      some (ubifsStart dev bm crc32 source mtd (s.params .ubifs).offset s) := by
  rw [Argument.call, operateStart, hmtd]
  rfl

theorem ubifsStart_free : ubifsStart dev bm crc32 source mtd offset s.freeUbi = ubifsStart dev bm crc32 source mtd offset s :=
  rfl

theorem ubifsStart_neg (h : (ubifsStart dev bm crc32 source mtd offset s).1 < 0) :
    (ubifsStart dev bm crc32 source mtd offset s).1 = -1 ∧ (ubifsStart dev bm crc32 source mtd offset s).2.ubi = none := by
  unfold ubifsStart at h ⊢
  dsimp only at h ⊢
  split at h
  · exact ⟨rfl, rfl⟩
  · split_ifs at h ⊢
    · exact ⟨rfl, rfl⟩
    · split at h
      · exact ⟨rfl, rfl⟩
      · dsimp only at h
        omega

theorem ubifsStart_found (h : 0 ≤ (ubifsStart dev bm crc32 source mtd offset s).1) :
    ∃ params, (ubifsStart dev bm crc32 source mtd offset s).2.ubi = some params ∧ params.vi = none := by
  unfold ubifsStart at h ⊢
  dsimp only at h ⊢
  split at h
  · exact absurd h (by omega : ¬(0 : ℤ) ≤ -1)
  · rename_i params hinit
    split_ifs at h ⊢
    · exact absurd h (by omega : ¬(0 : ℤ) ≤ -1)
    · split at h
      · exact absurd h (by omega : ¬(0 : ℤ) ≤ -1)
      · rename_i next st hbypass
        refine ⟨_, rfl, ?_⟩
        have hsame := @bypass_same dev mtd
          (offset.tdiv params.ui.pebSize - mtdOffsetToEbIndex mtd mtd.start).toNat (s.toUbi params)
        rw [hbypass] at hsame
        obtain ⟨si, start, hubi⟩ := hsame
        dsimp only
        rw [show st.ubi.vi = (s.toUbi params).ubi.vi from by rw [hubi]]
        exact ubiParamsInit_vi crc32 hinit

theorem ubifsMapped_vi {n : ℤ} (h : ubifsMapped dev bm s = some (n, t)) :
    t.ubi = none ∨ ∃ params, t.ubi = some params ∧ params.vi.isSome = true := by
  unfold ubifsMapped at h
  dsimp only at h
  split at h
  · rename_i hnone
    cases h
    exact .inl hnone
  · split at h
    · cases h
      exact .inl rfl
    · rename_i params hset
      split_ifs at h
      · cases h
        exact .inl rfl
      · obtain ⟨mtd, -, h⟩ := Option.map_eq_some_iff.mp h
        split at h
        · cases h
          exact .inl rfl
        · cases h
          exact .inr ⟨params, rfl, ubiVolumeParamsSet_vi hset⟩

theorem ubifsMapped_roomless (h : ∀ params ∈ s.ubi, params.ui.lebSize = 0) :
    ubifsMapped dev bm s = some (-1, s.freeUbi) := by
  unfold ubifsMapped
  dsimp only
  split
  · rename_i hnone
    rw [Manager.freeUbi, ← hnone]
  · rename_i params hsome
    have hleb := h params hsome
    have hset : ubiVolumeParamsSet (s.params .ubifs).length.natAbs params = none := ubiVolumeParamsSet_roomless hleb
    rw [hset]

end Steps

section Orders

variable (dev bm crc32 source)

structure PrepareResult where
  ok : Bool
  writeStart : ℤ
  lebSize : ℤ
  maxMapped : ℤ
  ubi : Option UbiParams

def prepareResult (offset length : ℤ) (method : OperationMethod) (s : Manager) (order : Order) : Option PrepareResult :=
  (mtdBlockPrepare dev bm crc32 source offset length (some ⟨method, "ubifs"⟩) order s).map fun r =>
    ⟨r.1, r.2.prepareInfo.writeStart, r.2.prepareInfo.logicalUnitSize, r.2.prepareInfo.maxSizeMappedInPartition, r.2.ubi⟩

def startLast : Order := ⟨[.blocksize, .lebSize, .maxMapped, .operateStart], by decide⟩

def lebSizeFirst : Order := ⟨[.lebSize, .operateStart, .blocksize, .maxMapped], by decide⟩

variable {dev bm crc32 source} {method : OperationMethod}

def converted (mtd : MtdDevInfo) (offset length : ℤ) (method : OperationMethod) (s : Manager) : Manager :=
  s.withParams .ubifs
    { s.params .ubifs with mtd := some mtd, offset := offset, length := length, method := method }

@[simp] theorem converted_params :
    (converted mtd offset length method s).params .ubifs =
      { s.params .ubifs with mtd := some mtd, offset := offset, length := length, method := method } := by
  dsimp only [converted, Manager.withParams]
  rw [Function.update_self]

theorem prepareResult_eq (h : devInfoByOffset bm offset = some mtd) {order : Order}
    (hg : gather dev bm crc32 source .ubifs offset order (converted mtd offset length method s) = some (v, t)) :
    prepareResult dev bm crc32 source offset length method s order =
      some ⟨decide (Valid v), v .operateStart, v .lebSize, v .maxMapped, t.ubi⟩ := by
  have hok : (mtdGetPrepareInfo .ubifs v t).1 = decide (Valid v) :=
    Bool.eq_iff_iff.mpr (prepareInfo_ok.trans decide_eq_true_iff.symm)
  have hconv : prepareConvertParams bm .ubifs offset length method s = converted mtd offset length method s := by
    rw [prepareConvertParams, h]
    rfl
  have hfs : fsGetRegisteredByName (OperationOption.given (some ⟨method, "ubifs"⟩)).filetype = some .ubifs :=
    (by decide : fsGetRegisteredByName "ubifs" = some .ubifs)
  rw [prepareResult, prepare_gathered hfs]
  dsimp only [OperationOption.given, Option.getD]
  rw [hconv, hg, Option.map_some, Option.map_some, hok, prepareInfo_record, prepareInfo_frame.2]

theorem gather_converted (order : Order) :
    ∃ v t, gather dev bm crc32 source .ubifs offset order (converted mtd offset length method s) = some (v, t) := by
  have hsome := @gather_isSome dev bm crc32 source .ubifs offset (converted mtd offset length method s) order
    (by rw [converted_params]; rfl)
  obtain ⟨⟨v, t⟩, hg⟩ := Option.isSome_iff_exists.mp hsome
  exact ⟨v, t, hg⟩

theorem ubifsStart_converted : (ubifsStart dev bm crc32 source mtd offset (converted mtd offset length method s)).1 =
    (ubifsStart dev bm crc32 source mtd offset s).1 := by
  unfold ubifsStart
  dsimp only
  rw [show (converted mtd offset length method s).toChip = s.toChip from rfl]
  split
  · rfl
  · split_ifs
    · rfl
    · rename_i params _ _
      rw [show (converted mtd offset length method s).toUbi params = s.toUbi params from rfl]
      split
      · rfl
      · rfl

structure Barren (mtd : MtdDevInfo) (offset : ℤ) (s : Manager) (done : List Argument) (t : Manager) : Prop where
  mtd : (t.params .ubifs).mtd = some mtd
  offset : (t.params .ubifs).offset = offset
  lebSize : ∀ params ∈ t.ubi, params.ui.lebSize = 0
  before : .operateStart ∉ done → t.freeUbi = s.freeUbi
  after : .operateStart ∈ done → t.ubi = none

def barren (bm : PartInfo) (offset : ℤ) : Argument → ℤ
  | .operateStart => -1
  | .blocksize => blocksize bm offset
  | .lebSize => 0
  | .maxMapped => -1

theorem Barren.congr {done : List Argument} {a : Argument} (h : Barren mtd offset s done t) (ha : a ≠ .operateStart) :
    Barren mtd offset s (a :: done) t where
  mtd := h.mtd
  offset := h.offset
  lebSize := h.lebSize
  before hout := h.before (fun hin => hout (List.mem_cons_of_mem _ hin))
  after hin := h.after ((List.mem_cons.mp hin).resolve_left ha.symm)

theorem Barren.free {done : List Argument} (h : Barren mtd offset s done t) : Barren mtd offset s done t.freeUbi where
  mtd := h.mtd
  offset := h.offset
  lebSize params hp := by cases hp
  before := h.before
  after _ := rfl

theorem barren_call (hneg : (ubifsStart dev bm crc32 source mtd offset s).1 < 0) (done : List Argument) (a : Argument)
    (t : Manager) (ha : a ∉ done) (h : Barren mtd offset s done t) :
    ∃ u, a.call dev bm crc32 source .ubifs offset t = some (barren bm offset a, u) ∧ Barren mtd offset s (a :: done) u := by
  cases a with
  | operateStart =>
    have hsame : ubifsStart dev bm crc32 source mtd offset t = ubifsStart dev bm crc32 source mtd offset s := by
      rw [← ubifsStart_free, h.before ha, ubifsStart_free]
    obtain ⟨hval, hubi⟩ := ubifsStart_neg hneg
    have hkept := @ubifsStart_kept dev bm crc32 source offset t mtd
    refine ⟨(ubifsStart dev bm crc32 source mtd offset t).2, ?_, ?_⟩
    · rw [ubifsStart_call h.mtd, h.offset, barren, ← hval, hsame]
    · refine ⟨by rw [hkept.params, h.mtd], by rw [hkept.params, h.offset], ?_, ?_, ?_⟩
      · rw [hsame, hubi]
        exact fun params hp => (nomatch hp)
      · exact fun hout => absurd List.mem_cons_self hout
      · intro _
        rw [hsame, hubi]
  | blocksize => exact ⟨t, rfl, h.congr Argument.noConfusion⟩
  | lebSize =>
    refine ⟨t, ?_, h.congr Argument.noConfusion⟩
    have hzero : ubifsLebSize t.ubi = 0 := by
      cases hu : t.ubi with
      | none => rfl
      | some params =>
        rw [ubifsLebSize, Option.elim_some, h.lebSize params hu]
        rfl
    rw [Argument.call, lebSize, hzero]
    rfl
  | maxMapped => exact ⟨t.freeUbi, ubifsMapped_roomless h.lebSize, h.free.congr Argument.noConfusion⟩

theorem roomless {ubi : Option UbiParams} (hint : ∀ params ∈ ubi, -2 ^ 31 ≤ params.ui.lebSize ∧ params.ui.lebSize < 2 ^ 31)
    (h : ubifsLebSize ubi = 0) : ∀ params ∈ ubi, params.ui.lebSize = 0 := by
  rintro params rfl
  have hrange := hint params rfl
  rw [ubifsLebSize, Option.elim_some] at h
  omega

theorem prepareResult_barren (h : devInfoByOffset bm offset = some mtd)
    (hneg : (ubifsStart dev bm crc32 source mtd offset s).1 < 0) (hleb : ∀ params ∈ s.ubi, params.ui.lebSize = 0)
    (order : Order) :
    prepareResult dev bm crc32 source offset length method s order = some ⟨false, -1, 0, -1, none⟩ := by
  have hneg' : (ubifsStart dev bm crc32 source mtd offset (converted mtd offset length method s)).1 < 0 := by
    rwa [ubifsStart_converted]
  have hfirst : Barren mtd offset (converted mtd offset length method s) [] (converted mtd offset length method s) :=
    ⟨by rw [converted_params], by rw [converted_params], hleb, fun _ => rfl, fun hin => (nomatch hin)⟩
  obtain ⟨t, v, hg, hlast, hv⟩ := evalArgs_values (barren_call hneg') order.nodup (v := fun _ => 0)
    (fun _ _ => List.not_mem_nil) hfirst
  have hval (a : Argument) : v a = barren bm offset a := hv a (.inl (order.mem a))
  have hinvalid : ¬Valid v := by
    intro hvalid
    have hstart := hvalid.writeStart
    rw [hval, barren] at hstart
    omega
  rw [prepareResult_eq h hg, hval, hval, hval, hlast.after (by simpa using order.mem .operateStart),
    decide_eq_false hinvalid]
  rfl

theorem results_agree (h : devInfoByOffset bm offset = some mtd) {order order' : Order} {v' : Argument → ℤ} {t' : Manager}
    (hg : gather dev bm crc32 source .ubifs offset order (converted mtd offset length method s) = some (v, t))
    (hg' : gather dev bm crc32 source .ubifs offset order' (converted mtd offset length method s) = some (v', t'))
    (hsame : prepareResult dev bm crc32 source offset length method s order =
      prepareResult dev bm crc32 source offset length method s order') :
    v .operateStart = v' .operateStart ∧ v .lebSize = v' .lebSize ∧ t.ubi = t'.ubi := by
  rw [prepareResult_eq h hg, prepareResult_eq h hg', Option.some.injEq, PrepareResult.mk.injEq] at hsame
  exact ⟨hsame.2.1, hsame.2.2.1, hsame.2.2.2.2⟩

theorem startLast_ubi
    (hg : gather dev bm crc32 source .ubifs offset startLast (converted mtd offset length method s) = some (v, t))
    (h : 0 ≤ v .operateStart) : ∃ params, t.ubi = some params ∧ params.vi = none := by
  obtain ⟨na, nb, nc, nd, s₁, s₂, s₃, ha, hb, hc, hd, rfl⟩ := gather_steps rfl hg
  have hkept := ((call_kept ha).trans (call_kept hb)).trans (call_kept hc)
  have hmtd : (s₃.params .ubifs).mtd = some mtd := by rw [hkept.params, converted_params]
  rw [ubifsStart_call hmtd, Option.some.injEq] at hd
  rw [Function.update_self] at h
  obtain ⟨params, hparams, hvi⟩ := ubifsStart_found (by rwa [hd] : 0 ≤ (ubifsStart dev bm crc32 source mtd _ s₃).1)
  rw [hd] at hparams
  exact ⟨params, hparams, hvi⟩

theorem lebSizeFirst_value
    (hg : gather dev bm crc32 source .ubifs offset lebSizeFirst (converted mtd offset length method s) = some (v, t)) :
    v .lebSize = ubifsLebSize s.ubi := by
  obtain ⟨na, nb, nc, nd, s₁, s₂, s₃, ha, -, -, -, rfl⟩ := gather_steps rfl hg
  cases ha
  rfl

theorem listed_values
    (hg : gather dev bm crc32 source .ubifs offset listed (converted mtd offset length method s) = some (v, t)) :
    v .operateStart = (ubifsStart dev bm crc32 source mtd offset s).1 ∧
      v .lebSize = ubifsLebSize (ubifsStart dev bm crc32 source mtd offset (converted mtd offset length method s)).2.ubi ∧
      (t.ubi = none ∨ ∃ params, t.ubi = some params ∧ params.vi.isSome = true) := by
  obtain ⟨na, nb, nc, nd, s₁, s₂, s₃, ha, hb, hc, hd, rfl⟩ := gather_steps rfl hg
  rw [ubifsStart_call (by rw [converted_params]), Option.some.injEq, converted_params] at ha
  cases hb
  cases hc
  refine ⟨?_, ?_, ubifsMapped_vi hd⟩
  · rw [← ubifsStart_converted, ha]
    rfl
  · rw [ha]
    rfl

/-- The order of the arguments does not matter only where no start can be found and no LEB size is left over. -/
theorem order_irrelevant_iff (h : devInfoByOffset bm offset = some mtd)
    (hint : ∀ params ∈ s.ubi, -2 ^ 31 ≤ params.ui.lebSize ∧ params.ui.lebSize < 2 ^ 31) :
    (∀ order order' : Order, prepareResult dev bm crc32 source offset length method s order =
        prepareResult dev bm crc32 source offset length method s order') ↔
      (ubifsStart dev bm crc32 source mtd offset s).1 < 0 ∧ ubifsLebSize s.ubi = 0 := by
  constructor
  · intro hsame
    obtain ⟨v, t, hg⟩ := @gather_converted dev bm crc32 source mtd offset length s method listed
    obtain ⟨hstart, hleb, hubi⟩ := listed_values hg
    have hneg : (ubifsStart dev bm crc32 source mtd offset s).1 < 0 := by
      by_contra hpos
      obtain ⟨v', t', hg'⟩ := @gather_converted dev bm crc32 source mtd offset length s method startLast
      obtain ⟨hv, -, ht⟩ := results_agree h hg hg' (hsame listed startLast)
      obtain ⟨params, hparams, hvi⟩ := startLast_ubi hg' (by rw [← hv, hstart]; omega)
      rw [ht, hparams] at hubi
      obtain hnone | ⟨_, heq, hsome⟩ := hubi
      · cases hnone
      · cases heq
        rw [hvi] at hsome
        cases hsome
    refine ⟨hneg, ?_⟩
    obtain ⟨v', t', hg'⟩ := @gather_converted dev bm crc32 source mtd offset length s method lebSizeFirst
    obtain ⟨-, hv, -⟩ := results_agree h hg hg' (hsame listed lebSizeFirst)
    rw [← @ubifsStart_converted dev bm crc32 source mtd offset length s method] at hneg
    rw [← lebSizeFirst_value hg', ← hv, hleb, (ubifsStart_neg hneg).2]
    rfl
  · rintro ⟨hneg, hleb⟩ order order'
    rw [prepareResult_barren h hneg (roomless hint hleb), prepareResult_barren h hneg (roomless hint hleb)]

def fourResult : Order → Option PrepareResult :=
  prepareResult (failsAt []) ⟨[fourPebs], 2048⟩ (fun _ => 0) (fun _ _ => fourScanned) 0 384 .partition
    (.fresh blankUbiState.toBmState)

theorem order_irrelevant_four : (∀ order order' : Order, fourResult order = fourResult order') ↔
    (ubifsStart (failsAt []) ⟨[fourPebs], 2048⟩ (fun _ => 0) (fun _ _ => fourScanned) fourPebs 0
      (.fresh blankUbiState.toBmState)).1 < 0 ∧ ubifsLebSize none = 0 :=
  order_irrelevant_iff rfl (fun _ hp => (nomatch hp))

theorem lebSizeFirst_fails : ¬∀ order order' : Order, fourResult order = fourResult order' := by
  intro h
  have hlisted : (fourResult listed).map PrepareResult.ok = some true := by decide +kernel
  have hfirst : (fourResult lebSizeFirst).map PrepareResult.ok = some false := by decide +kernel
  rw [h listed lebSizeFirst, hfirst] at hlisted
  cases hlisted

end Orders

section Listed

variable {method : OperationMethod} {noskipbad : Bool}

theorem scanParams_nat (offset length : ℕ) (st : BmState) : scanParams dev bm mtd noskipbad method offset length st =
    mtdBlockScan dev mtd noskipbad method bm.capacity offset length st := by
  have hpos := mtd.ebSize_pos
  have hdiv (n : ℕ) : ((n : ℤ)).tdiv mtd.ebSize = (mtdOffsetToEbIndex mtd n : ℤ) := by
    rw [Int.tdiv_eq_ediv_of_nonneg (by omega)]
    rfl
  have hend : (offset : ℤ) + length + mtd.ebSize - 1 = (offset + length + mtd.ebSize - 1 : ℕ) := by omega
  have hif : ((length : ℤ) < 0 ∨ (method = .random ∧ (length : ℤ) = 0)) ↔ (method = .random ∧ length = 0) := by
    rw [Int.natCast_eq_zero]
    exact or_iff_right (by omega)
  have hsub (a b : ℕ) : ((a : ℤ) - b).toNat = a - b := by omega
  have htotal (a b : ℕ) : (((a : ℤ) - b) * mtd.ebSize).toNat = (a - b) * mtd.ebSize := by
    by_cases hle : b ≤ a
    · rw [← Int.ofNat_sub hle, ← Int.natCast_mul, Int.toNat_natCast]
    · rw [Nat.sub_eq_zero_of_le (by omega), Nat.zero_mul]
      apply Int.toNat_of_nonpos
      exact mul_nonpos_of_nonpos_of_nonneg (by omega) (by omega)
  unfold scanParams mtdBlockScan
  dsimp only
  rw [hend, hdiv, hdiv]
  by_cases hz : method = .random ∧ length = 0
  · rw [if_pos (hif.mpr hz), if_pos hz]
  · rw [if_neg (mt hif.mp hz), if_neg hz]
    cases method with
    | partition =>
      dsimp only
      rw [hsub, htotal]
      congr 1
      exact propext (or_congr (by omega) (by omega))
    | random =>
      dsimp only
      rw [hsub, htotal]
      congr 1
      exact propext (or_congr (by omega) (by omega))

theorem bypass_le {eb n : ℕ} {st : UbiState} (hfresh : st.ubi.layoutVolumeStartEb = 0)
    (h : (ubiBypassLayoutVol dev mtd eb st).1 = some n) : eb ≤ n := by
  rw [ubiBypassLayoutVol, hfresh, if_neg (lt_irrefl 0)] at h
  have hexit (c : BypassCursor) (hc : eb ≤ c.eb) (k : ℕ) (hk : (bypassExit mtd c).1 = some k) : eb ≤ k := by
    unfold bypassExit at hk
    split_ifs at hk
    cases hk
    exact hc
  refine (bypassLoop dev mtd).exec_rule (I := fun c => eb ≤ c.eb) (Q := fun r => ∀ k, r.1 = some k → eb ≤ k) ?_ ?_
    (s := ⟨eb, 0, st⟩) (le_refl eb) n h
  · intro c d hc hstep
    obtain ⟨-, hd⟩ := bypassStep_next dev mtd hstep
    omega
  · intro c r hc hdone k hk
    have hstep : bypassStep dev mtd c = .done r := hdone
    unfold bypassStep at hstep
    split_ifs at hstep
    · cases hstep
      exact hexit c hc k hk
    · split at hstep
      · cases hstep
        cases hk
      · cases hstep
      · dsimp only at hstep
        split_ifs at hstep
        cases hstep
        exact hexit ⟨c.eb + 1, c.validEb + 1, _⟩ (by dsimp only; omega) k hk

theorem ubifsStart_listed {offset start : ℕ} {ubi : UbiParams} {st : UbiState} (hle : mtd.start ≤ offset)
    (h : MtdBlock.ubifsGetOperateStartAddress dev bm crc32 mtd (source mtd s.toChip) offset (s.toUbi ubi) = some (start, st)) :
    ubifsStart dev bm crc32 source mtd offset s = ((start : ℤ), s.withUbi st) ∧
      st.ubi.startEb ≤ st.ubi.layoutVolumeStartEb := by
  unfold MtdBlock.ubifsGetOperateStartAddress at h
  unfold ubifsStart
  dsimp only
  cases hinit : ubiParamsInit crc32 mtd bm.capacity (source mtd s.toChip).volName (source mtd s.toChip).imageSeq
      (source mtd s.toChip).scanned with
  | none =>
    rw [hinit] at h
    cases h
  | some params =>
    rw [hinit] at h
    dsimp only at h ⊢
    obtain ⟨hui, -, hfresh, -⟩ := ubiParamsInit_some crc32 hinit
    have hpeb : params.ui.pebSize = mtd.ebSize := by rw [hui]; rfl
    have hdiv : (offset : ℤ).tdiv params.ui.pebSize = (offset / params.ui.pebSize : ℕ) := by
      rw [Int.tdiv_eq_ediv_of_nonneg (by omega)]
      rfl
    have hfirst : mtdOffsetToEbIndex mtd mtd.start ≤ offset / params.ui.pebSize := by
      rw [hpeb]
      exact Nat.div_le_div_right hle
    have hsub : ((offset / params.ui.pebSize : ℕ) - mtdOffsetToEbIndex mtd mtd.start : ℤ).toNat =
        offset / params.ui.pebSize - mtdOffsetToEbIndex mtd mtd.start := by omega
    rw [hdiv, if_neg (by omega), hsub]
    rw [show ({ s.toUbi ubi with ubi := params } : UbiState) = s.toUbi params from rfl] at h
    cases hbypass : ubiBypassLayoutVol dev mtd (offset / params.ui.pebSize - mtdOffsetToEbIndex mtd mtd.start)
      (s.toUbi params) with
    | mk bypassed st₁ =>
      rw [hbypass] at h
      cases bypassed with
      | none => cases h
      | some next =>
        cases h
        exact ⟨rfl, bypass_le hfresh (congrArg Prod.fst hbypass)⟩

theorem ubifsMapped_listed {offset length n : ℕ} {st st' : UbiState}
    (hparams : (s.params .ubifs).mtd = some mtd ∧ (s.params .ubifs).offset = offset ∧
      (s.params .ubifs).length = length ∧ (s.params .ubifs).method = method)
    (hle : st.ubi.startEb ≤ st.ubi.layoutVolumeStartEb)
    (h : MtdBlock.ubifsGetMaxMappedSizeInPartition dev bm mtd method offset length st = some (n, st')) :
    ∃ t, ubifsMapped dev bm (s.withUbi st) = some ((n : ℤ), t) ∧ t.toBmState = st'.toBmState ∧ t.ubi = some st'.ubi := by
  obtain ⟨hmtd, hoff, hlen, hmethod⟩ := hparams
  unfold MtdBlock.ubifsGetMaxMappedSizeInPartition at h
  unfold ubifsMapped
  dsimp only [Manager.withUbi]
  rw [hmtd, hoff, hlen, hmethod, Int.natAbs_natCast]
  cases hset : ubiVolumeParamsSet length st.ubi with
  | none =>
    rw [hset] at h
    cases h
  | some params =>
    rw [hset] at h
    dsimp only at h ⊢
    split_ifs at h with hz
    rw [if_neg hz]
    have hbypassed : (length : ℤ) + params.ui.pebSize * ((params.layoutVolumeStartEb : ℤ) - params.startEb) =
        (length + params.ui.pebSize * (params.layoutVolumeStartEb - params.startEb) : ℕ) := by
      obtain ⟨hfirst, hlayout⟩ := ubiVolumeParamsSet_place hset
      rw [hfirst, hlayout]
      push_cast [Nat.cast_sub hle]
      rfl
    rw [Option.map_some, hbypassed, scanParams_nat]
    split at h
    · rename_i k bmState hscan
      cases h
      rw [hscan]
      exact ⟨_, rfl, rfl, rfl⟩
    · cases h

theorem gather_listed {start leb n : ℤ} {s₁ s₂ : Manager} (ha : operateStart dev bm crc32 source fs s = some (start, s₁))
    (hc : lebSize fs s₁ = some leb) (hd : maxMapped dev bm fs s₁ = some (n, s₂)) :
    ∃ v, gather dev bm crc32 source fs offset listed s = some (v, s₂) ∧ v .operateStart = start ∧
      v .blocksize = blocksize bm offset ∧ v .lebSize = leb ∧ v .maxMapped = n := by
  have hc' : Argument.lebSize.call dev bm crc32 source fs offset s₁ = some (leb, s₁) := by
    rw [Argument.call, hc]
    rfl
  rw [gather]
  dsimp only [listed]
  rw [evalArgs_cons (show Argument.operateStart.call dev bm crc32 source fs offset s = some (start, s₁) from ha),
    evalArgs_cons (show Argument.blocksize.call dev bm crc32 source fs offset s₁ = some (blocksize bm offset, s₁) from rfl),
    evalArgs_cons hc',
    evalArgs_cons (show Argument.maxMapped.call dev bm crc32 source fs offset s₁ = some (n, s₂) from hd)]
  exact ⟨_, rfl, rfl, rfl, rfl, rfl⟩

structure Answers (dev : Device) (bm : PartInfo) (crc32 : List UInt8 → ℕ) (source : MtdDevInfo → Chip → UbiSource)
    (fs : Filesystem) (s : Manager) (start leb n : ℕ) (st : UbiState) (t : Manager) : Prop where
  calls : ∃ u, operateStart dev bm crc32 source fs s = some ((start : ℤ), u) ∧ lebSize fs u = some (leb : ℤ) ∧
    maxMapped dev bm fs u = some ((n : ℤ), t)
  state : t.toBmState = st.toBmState
  ubi : fs = .ubifs → t.ubi = some st.ubi

def SetTo (mtd : MtdDevInfo) (offset length : ℕ) (method : OperationMethod) (p : FsParams) : Prop :=
  p.mtd = some mtd ∧ p.offset = offset ∧ p.length = length ∧ p.method = method

theorem basic_answers {offset length start n : ℕ} {ubi : UbiParams} {st st' : UbiState} {kind : BasicWrite.FsKind}
    (hk : fs.kind = some kind) (hp : SetTo mtd offset length method (s.params fs))
    (ha : MtdBlock.getOperateStartAddress dev bm crc32 mtd fs (source mtd s.toChip) offset (s.toUbi ubi) = some (start, st))
    (hm : MtdBlock.getMaxMappedSizeInPartition dev bm mtd fs method offset length st = some (n, st')) :
    ∃ t, Answers dev bm crc32 source fs s start (MtdBlock.getLebSize mtd st.ubi fs) n st' t := by
  obtain ⟨hmtd, hoff, hlen, hmethod⟩ := hp
  rw [MtdBlock.getOperateStartAddress, hk] at ha
  cases ha
  rw [MtdBlock.getMaxMappedSizeInPartition, hk] at hm
  dsimp only at hm
  split at hm
  · rename_i k bmState hscan
    cases hm
    have hstart : operateStart dev bm crc32 source fs s = some ((offset : ℤ), s) := by
      rw [operateStart, hk, ← hoff]
    have hleb : lebSize fs s = some (MtdBlock.getLebSize mtd ubi fs : ℤ) := by
      cases fs with
      | ubifs => cases hk
      | yaffs2 =>
        rw [lebSize, hmtd]
        rfl
      | _ =>
        rw [lebSize, hmtd]
        rfl
    have hmapped : maxMapped dev bm fs s = some ((n : ℤ), s.withBm bmState) := by
      rw [show (s.toUbi ubi).toBmState = s.toBmState from rfl] at hscan
      rw [maxMapped, hk]
      dsimp only
      rw [hmtd, Option.map_some, hoff, hlen, hmethod, scanParams_nat, hscan]
      rfl
    refine ⟨s.withBm bmState, ⟨s, hstart, hleb, hmapped⟩, rfl, ?_⟩
    rintro rfl
    cases hk
  · cases hm

theorem ubifs_answers {offset length start n : ℕ} {ubi : UbiParams} {st st' : UbiState} (hle : mtd.start ≤ offset)
    (hp : SetTo mtd offset length method (s.params .ubifs))
    (ha : MtdBlock.getOperateStartAddress dev bm crc32 mtd .ubifs (source mtd s.toChip) offset (s.toUbi ubi) =
      some (start, st))
    (hm : MtdBlock.getMaxMappedSizeInPartition dev bm mtd .ubifs method offset length st = some (n, st')) :
    ∃ t, Answers dev bm crc32 source .ubifs s start (MtdBlock.getLebSize mtd st.ubi .ubifs) n st' t := by
  obtain ⟨hstart, hplace⟩ := ubifsStart_listed hle ha
  obtain ⟨t, hmapped, hstate, hubi⟩ := ubifsMapped_listed hp hplace hm
  refine ⟨t, ⟨s.withUbi st, ?_, ?_, hmapped⟩, hstate, fun _ => hubi⟩
  · rw [operateStart]
    dsimp only [Filesystem.kind]
    rw [hp.1, hp.2.1, Option.map_some, hstart]
  · rw [lebSize, MtdBlock.getLebSize]
    have hmod := Int.emod_nonneg st.ubi.ui.lebSize (by norm_num : (2 ^ 32 : ℤ) ≠ 0)
    rw [Int.toNat_of_nonneg hmod]
    rfl

theorem prepare_listed {offset length : ℕ} {ubi : UbiParams} {info : MtdBlock.PrepareInfo} {st : UbiState}
    (hle : info.mtd.start ≤ offset)
    (h : MtdBlock.mtdBlockPrepare dev bm crc32 fs (source info.mtd s.toChip) method offset length (s.toUbi ubi) =
      some (info, st)) :
    ∃ t, mtdBlockPrepare dev bm crc32 source offset length (some ⟨method, fs.name⟩) listed s = some (true, t) ∧
      t.prepareInfo = ⟨info.writeStart, info.physicalUnitSize, info.logicalUnitSize, info.maxSizeMappedInPartition, some fs⟩ ∧
      t.toBmState = st.toBmState ∧ (fs = .ubifs → t.ubi = some st.ubi) := by
  obtain ⟨hmtd, start, st₁, n, ha, hm, hleb, hinfo⟩ := MtdBlock.mtdBlockPrepare_info dev bm crc32 h
  let conv := s.withParams fs
    { s.params fs with mtd := some info.mtd, offset := (offset : ℤ), length := (length : ℤ), method := method }
  have hdev : devInfoByOffset bm offset = some info.mtd := by
    rw [devInfoByOffset, if_neg (by omega), Int.toNat_natCast, hmtd]
  have hconv : prepareConvertParams bm fs offset length method s = conv := by
    rw [prepareConvertParams, hdev]
  have hset : SetTo info.mtd offset length method (conv.params fs) := by
    dsimp only [conv, Manager.withParams]
    rw [Function.update_self]
    exact ⟨rfl, rfl, rfl, rfl⟩
  obtain ⟨t, hans⟩ : ∃ t, Answers dev bm crc32 source fs conv start (MtdBlock.getLebSize info.mtd st₁.ubi fs) n st t := by
    cases hk : fs.kind with
    | some kind => exact basic_answers hk hset ha hm
    | none =>
      obtain rfl : fs = .ubifs := by cases fs <;> first | rfl | cases hk
      exact ubifs_answers hle hset ha hm
  obtain ⟨u, hstart, hlebs, hmapped⟩ := hans.calls
  have hfs : fsGetRegisteredByName (OperationOption.given (some ⟨method, fs.name⟩)).filetype = some fs := by
    cases fs <;> rfl
  obtain ⟨v, hgather, hvs, hvb, hvl, hvm⟩ := @gather_listed dev bm crc32 source offset fs conv _ _ _ _ _ hstart hlebs hmapped
  have hblock : v .blocksize = info.mtd.ebSize := by
    rw [hvb, blocksize, hdev]
    rfl
  have hpos := info.mtd.ebSize_pos
  have hvalid : Valid v := ⟨by omega, by omega, by omega, by omega⟩
  refine ⟨(mtdGetPrepareInfo fs v t).2, ?_, ?_, prepareInfo_frame.1.trans hans.state, fun hubi => ?_⟩
  · rw [prepare_gathered hfs]
    dsimp only [OperationOption.given, Option.getD]
    rw [hconv, hgather, Option.map_some, ← prepareInfo_ok.mpr hvalid]
  · rw [prepareInfo_record, if_pos hvalid, hinfo, hvs, hblock, hvl, hvm]
  · rw [prepareInfo_frame.2]
    exact hans.ubi hubi

end Listed

end LinuxRecovery.PrepareOrder
