import LinuxRecovery.PartitionProtocol
import LinuxRecovery.ProgressDivisor

namespace LinuxRecovery.OffsetWidth

open Loops Libmtd BlockMap BasicWrite BasicRead SysinfoSave BasicErase UbiVolume MtdBlock ProgressDivisor
open UbiPeb (UbiState)

/-- A returned value as the caller sees it; a call that ends the process has none. -/
def value : Ret → Option ℤ
  | .off n => some n
  | .fail => some (-1)
  | .trap => none

/-- What the block manager returns is what its file system answered, and negative only if that is. -/
def Survives (answer returned : Ret) : Prop :=
  value returned = value answer ∧ ∀ n, value returned = some n → n < 0 → ∃ m, value answer = some m ∧ m < 0

def EndsBelow (answer : Ret) : Prop := ∀ n, answer = .off n → n < 2 ^ 31

theorem narrow_below {n : ℕ} (h : n < 2 ^ 31) : narrow n = some n := by
  have heq : (n : ℤ).bmod (2 ^ 32) = n := by
    rw [Int.bmod_def]
    push_cast
    split_ifs <;> omega
  unfold narrow
  rw [heq, if_neg (by omega), Int.toNat_natCast]

theorem narrow_above {n : ℕ} (h : 2 ^ 31 ≤ n) : narrow n ≠ some n := by
  have hlt : (n : ℤ).bmod (2 ^ 32) < n := by
    rw [Int.bmod_def]
    push_cast
    split_ifs <;> omega
  unfold narrow
  split_ifs with hneg
  · exact fun h => (nomatch h)
  · rw [Ne, Option.some.injEq]
    omega

theorem value_inj {r s : Ret} (h : value r = value s) : r = s := by
  cases r with
  | off n =>
    cases s with
    | off m => exact congrArg Ret.off (Int.ofNat.inj (Option.some.inj h))
    | fail =>
      have heq : (n : ℤ) = -1 := Option.some.inj h
      omega
    | trap => cases h
  | fail =>
    cases s with
    | off m =>
      have heq : -1 = (m : ℤ) := Option.some.inj h
      omega
    | fail => rfl
    | trap => cases h
  | trap =>
    cases s with
    | off m => cases h
    | fail => cases h
    | trap => rfl

theorem survives_iff (answer : Ret) : Survives answer (narrowRet answer) ↔ EndsBelow answer := by
  cases answer with
  | off n =>
    rw [narrowRet]
    constructor
    · rintro ⟨hvalue, -⟩ m hm
      cases hm
      by_contra habove
      apply narrow_above (not_lt.mp habove)
      have heq := value_inj hvalue
      cases hn : narrow n with
      | none =>
        rw [hn] at heq
        cases heq
      | some m =>
        rw [hn] at heq
        rw [Ret.off.inj heq]
    · intro hbelow
      rw [narrow_below (hbelow n rfl)]
      exact ⟨rfl, fun m hm hneg => ⟨m, hm, hneg⟩⟩
  | fail => exact iff_of_true ⟨rfl, fun m hm hneg => ⟨m, hm, hneg⟩⟩ fun n hn => Ret.noConfusion hn
  | trap => exact iff_of_true ⟨rfl, fun m hm hneg => ⟨m, hm, hneg⟩⟩ fun n hn => Ret.noConfusion hn

section Partition

variable {dev : Device} {mtd : MtdDevInfo} {fs : FsKind} {maxSize n : ℕ}

theorem block_end {eb : ℕ} (h : eb ≤ mtd.ebCnt) : mtdEbRelativeToAbsolute mtd eb * mtd.ebSize ≤ mtd.start + mtd.size := by
  have hle := Nat.mul_le_mul_right mtd.ebSize h
  rw [mtd.ebCnt_mul] at hle
  rw [mtdEbRelativeToAbsolute, mtdOffsetToEbIndex, Nat.add_mul, Nat.div_mul_cancel mtd.start_dvd]
  omega

theorem erase_ends {bm : PartInfo} {length : ℕ} {st : BmState}
    (h : (mtdBasicErase dev bm mtd fs length st).1 = .off n) : n ≤ mtd.start + mtd.size := by
  unfold mtdBasicErase at h
  dsimp only at h
  split_ifs at h
  revert h
  refine (eraseLoop dev bm mtd fs _).exec_rule (I := fun c => c.eb ≤ mtd.ebCnt)
    (Q := fun r => r.1 = .off n → n ≤ mtd.start + mtd.size) ?_ ?_ (Nat.zero_le _)
  · intro c d _ hstep
    obtain ⟨hlt, heq⟩ := eraseStep_next dev bm mtd fs hstep
    rw [heq]
    exact hlt
  · intro c r hc hstep hr
    change eraseStep dev bm mtd fs _ c = .done r at hstep
    unfold eraseStep at hstep
    split_ifs at hstep
    · cases hstep
      unfold eraseExit at hr
      split_ifs at hr
      split at hr
      · cases hr
      · cases hr
        exact block_end hc
    · split at hstep
      · rw [eraseBlock_ret hstep] at hr
        cases hr
      · cases hstep
    · rw [eraseBlock_ret hstep] at hr
      cases hr

theorem write_ends {progressSize : ℕ} {offset : ℤ} {buf : List UInt8} {st : BmState}
    (h : (mtdBasicWrite dev mtd fs maxSize progressSize offset buf st).ret = .off n) : n ≤ mtd.start + mtd.size := by
  obtain ⟨w, -, hhealthy, -, -, heq⟩ := basicWrite_off dev mtd fs maxSize h
  rw [heq] at h
  revert h
  refine (writeLoop dev mtd fs maxSize).exec_rule (I := Healthy mtd (progressSize + buf.length))
    (Q := fun r => r.ret = .off n → n ≤ mtd.start + mtd.size)
    (fun c d hc hstep => healthy_next dev mtd fs maxSize hc hstep) ?_ hhealthy
  intro c r hc hstep hr
  obtain ⟨-, -, rfl⟩ := writeStep_off dev mtd fs maxSize hstep hr
  cases hr
  have hinside := hc.inside
  omega

theorem unit_inside {c : ReadCursor} (h : c.offset < mtd.size) : c.offset + readUnit mtd c ≤ mtd.size := by
  have hblock := readUnit_block mtd c
  have hdiv := Nat.div_add_mod' c.offset mtd.ebSize
  have hle := Nat.mul_le_mul_right mtd.ebSize (mtd.lt_ebCnt h)
  rw [mtd.ebCnt_mul, Nat.succ_mul] at hle
  omega

theorem readLoop_ends {c : ReadCursor} (hc : c.offset ≤ mtd.size) (h : ((readLoop dev mtd).exec c).ret = .off n) :
    n ≤ mtd.start + mtd.size := by
  revert h
  refine (readLoop dev mtd).exec_rule (I := fun c => c.offset ≤ mtd.size)
    (Q := fun r => r.ret = .off n → n ≤ mtd.start + mtd.size) ?_ ?_ hc
  · intro c d hc hstep
    obtain ⟨-, hlt, e, he, bytes, chip, -, rfl⟩ := readStep_next dev mtd hstep
    apply unit_inside
    unfold readEnterBlock at he
    dsimp only at he
    split_ifs at he with _ _ hskip
    · cases he
      exact hlt
    · cases he
      exact hlt
    · cases he
      exact not_le.mp hskip
  · intro c r hc hstep hr
    change readStep dev mtd c = .done r at hstep
    unfold readStep at hstep
    split_ifs at hstep
    · cases hstep
      cases hr
      omega
    · split at hstep
      · cases hstep
        cases hr
      · unfold readBlock at hstep
        dsimp only at hstep
        split at hstep
        · cases hstep
          cases hr
        · cases hstep

theorem read_ends {offset length : ℕ} {st : BmState} (hoffset : offset ≤ mtd.start + mtd.size)
    (h : (mtdBasicRead dev mtd offset length st).ret = .off n) : n ≤ mtd.start + mtd.size := by
  unfold mtdBasicRead at h
  dsimp only at h
  split_ifs at h with h1 h2 h3 h4
  · refine readLoop_ends ?_ h
    change ((offset : ℤ) - mtd.start).toNat ≤ mtd.size
    omega
  · cases h
    exact hoffset
  · exact readLoop_ends (Nat.zero_le _) h

end Partition

inductive Access where
  | erase (offset length : ℕ)
  | write (offset : ℕ) (data : List UInt8)
  | read (offset length : ℕ)

namespace Access

variable (dev : Device) (bm : PartInfo) (crc32 : List UInt8 → ℕ) (info : PrepareInfo) (progressSize : ℕ) (st : UbiState)

def offset : Access → ℕ
  | .erase offset _ => offset
  | .write offset _ => offset
  | .read offset _ => offset

def answer : Access → Ret
  | .erase offset length => (fsErase dev bm info offset length progressSize st).ret
  | .write offset data => (fsWrite dev crc32 info offset data progressSize st).ret
  | .read offset length => (fsRead dev info offset length st).ret

def returned : Access → Ret
  | .erase offset length => (mtdBlockErase dev bm info offset length progressSize st).ret
  | .write offset data => (mtdBlockWrite dev crc32 info offset data progressSize st).ret
  | .read offset length => (mtdBlockRead dev info offset length st).ret

variable {dev bm crc32 info progressSize st}

theorem survives_iff (a : Access) :
    Survives (a.answer dev bm crc32 info progressSize st) (a.returned dev bm crc32 info progressSize st) ↔
      EndsBelow (a.answer dev bm crc32 info progressSize st) := by
  cases a <;> exact OffsetWidth.survives_iff _

theorem answer_ends {kind : FsKind} (hkind : info.fs.kind = some kind) {a : Access}
    (hoffset : a.offset ≤ info.mtd.start + info.mtd.size) {n : ℕ}
    (h : a.answer dev bm crc32 info progressSize st = .off n) : n ≤ info.mtd.start + info.mtd.size := by
  cases a with
  | erase offset length =>
    rw [answer, fsErase, hkind] at h
    exact erase_ends h
  | write offset data =>
    rw [answer, fsWrite, hkind] at h
    exact write_ends h
  | read offset length =>
    rw [answer, fsRead] at h
    split at h
    · exact read_ends hoffset h
    · cases h

theorem answer_end {kind : FsKind} (hkind : info.fs.kind = some kind) (hsize : info.maxSize ≠ 0)
    (hfile : dev.fileMode = none) (hmap : st.map.isSome = true) :
    (Access.write (info.mtd.start + info.mtd.size) []).answer dev bm crc32 info progressSize st =
      .off (info.mtd.start + info.mtd.size) := by
  have hsub : ((info.mtd.start + info.mtd.size : ℕ) : ℤ) - info.mtd.start = info.mtd.size := by omega
  have haccepted : Accepted dev info.mtd kind (info.mtd.start + info.mtd.size : ℕ) ([] : List UInt8).length st.toBmState := by
    refine ⟨by omega, ?_, fun h => h.2 hfile, fun h => h.2 (Nat.zero_mod _), ?_, hmap⟩
    · rw [hsub, Int.toNat_natCast]
      exact Nat.mod_eq_zero_of_dvd (info.mtd.minIoSize_dvd.trans info.mtd.size_dvd)
    · rw [hsub, List.length_nil, Nat.zero_div, Nat.zero_mul]
      omega
  rw [answer, fsWrite, hkind]
  dsimp only
  rw [basicWrite_accepted haccepted]
  have hstep := @writeStep_finish dev info.mtd kind info.maxSize
    (writeStart kind ((info.mtd.start + info.mtd.size : ℕ) - info.mtd.start : ℤ).toNat progressSize [] st.toBmState)
    hsize (Or.inl rfl)
  rw [Loop.exec_done _ hstep]
  change Ret.off (((info.mtd.start + info.mtd.size : ℕ) - info.mtd.start : ℤ).toNat + info.mtd.start) = _
  rw [hsub, Int.toNat_natCast, Nat.add_comm]

theorem all_survive_iff {kind : FsKind} (hkind : info.fs.kind = some kind) (hsize : info.maxSize ≠ 0) :
    (∀ dev bm progressSize st, ∀ a : Access, a.offset ≤ info.mtd.start + info.mtd.size →
        Survives (a.answer dev bm crc32 info progressSize st) (a.returned dev bm crc32 info progressSize st)) ↔
      info.mtd.start + info.mtd.size < 2 ^ 31 := by
  constructor
  · intro hall
    have hend := (survives_iff _).mp (hall (failsAt []) ⟨[], 0⟩ 0
      ⟨blankState [], UbiPeb.blankUbiState.ubi, none, 0⟩ (.write (info.mtd.start + info.mtd.size) []) (le_refl _))
    exact hend _ (answer_end hkind hsize rfl rfl)
  · intro hbelow dev bm progressSize st a hoffset
    rw [survives_iff]
    intro n hn
    exact lt_of_le_of_lt (answer_ends hkind hoffset hn) hbelow

end Access

section Chain

open WritePackage Traces
open UpdateFile (ImageInfo)

/-- What the file systems of a block manager answer, with the offset that an erase ends at. -/
structure FsAnswers extends BlockManager where
  eraseEnd : List Event → Call → Option ℕ

namespace FsAnswers

variable (answers : FsAnswers)

def exact : BlockManager := { answers.toBlockManager with erase := fun tr call => (answers.eraseEnd tr call).isSome }

def narrowed : BlockManager :=
  { answers.toBlockManager with
    erase := fun tr call => ((answers.eraseEnd tr call).bind narrow).isSome
    write := fun tr call => (answers.write tr call).bind narrow }

def Below (tr : List Event) : Call → Prop
  | call@(.erase ..) => ∀ n, answers.eraseEnd tr call = some n → n < 2 ^ 31
  | call@(.write ..) => ∀ n, answers.write tr call = some n → n < 2 ^ 31
  | _ => True

variable {answers}

theorem bind_narrow {answer : Option ℕ} (h : ∀ n, answer = some n → n < 2 ^ 31) : answer.bind narrow = answer := by
  cases answer with
  | none => rfl
  | some n =>
    rw [Option.bind_some]
    exact narrow_below (h n rfl)

theorem erase_eq {tr : List Event} {image : ImageInfo} {offset : UInt64} {length : ℕ}
    (h : answers.Below tr (.erase image offset length)) :
    answers.narrowed.erase tr (.erase image offset length) = answers.exact.erase tr (.erase image offset length) :=
  congrArg Option.isSome (bind_narrow h)

theorem write_eq {tr : List Event} {image : ImageInfo} {fs : Option String} {offset : ℕ} {buffer : List UInt8}
    (h : answers.Below tr (.write image fs offset buffer)) :
    answers.narrowed.write tr (.write image fs offset buffer) = answers.exact.write tr (.write image fs offset buffer) :=
  bind_narrow h

theorem openPartition_follows (image : ImageInfo) (s : Statics) :
    Follows answers.Below (openPartition answers.exact image s) (openPartition answers.narrowed image s) := by
  unfold openPartition
  refine follows_bind (follows_query _) fun filetype => ?_
  refine follows_bind (follows_perform fun _ _ => rfl) fun info => ?_
  refine follows_perform fun tr hbelow => ?_
  change (if answers.narrowed.erase tr (.erase image image.offset (answers.exact.partitionSize image.offset)) = true
    then _ else none) = _
  rw [erase_eq hbelow]
  rfl

theorem mtdBlockWrite_follows (image : ImageInfo) (prepared : Option WritePackage.PrepareInfo) (offset : ℕ)
    (buffer : List UInt8) : Follows answers.Below (WritePackage.mtdBlockWrite answers.exact image prepared offset buffer)
      (WritePackage.mtdBlockWrite answers.narrowed image prepared offset buffer) := by
  refine follows_perform fun tr hbelow => ?_
  rw [write_eq hbelow]

theorem writeChunk_follows (image : ImageInfo) (n : ℕ) (rest : List UInt8) (offset : ℕ) (s : Statics) :
    Follows answers.Below (writeChunk answers.exact image n rest offset s)
      (writeChunk answers.narrowed image n rest offset s) := by
  induction n generalizing rest offset s with
  | zero =>
    cases rest with
    | nil => exact follows_done _
    | cons b rest => exact follows_query _
  | succ n ih =>
    cases rest with
    | nil => exact follows_done _
    | cons b rest =>
      have hread (readsize : ℕ) :
          Follows answers.Below (readBuffer answers.exact s readsize) (readBuffer answers.narrowed s readsize) := by
        unfold readBuffer
        split_ifs
        · exact follows_done _
        · exact follows_bind (follows_query _) fun _ => follows_query _
      simp only [writeChunk]
      exact follows_bind (hread _) fun _ => follows_bind (mtdBlockWrite_follows _ _ _ _) fun _ => ih _ _ _

theorem writeUpdatePkg_follows (devtype : String) (part : UpdateFile.PartInfo) (image : ImageInfo)
    (file : Option (List UInt8)) (j : ℕ) (s : Statics) :
    Follows answers.Below (writeUpdatePkg answers.exact devtype part image file j s)
      (writeUpdatePkg answers.narrowed devtype part image file j s) := by
  unfold writeUpdatePkg
  refine follows_bind (follows_query _) fun file => follows_bind (follows_query _) fun _ => ?_
  refine follows_bind ?_ fun opened => follows_bind (follows_query _) fun _ =>
    follows_bind (writeChunk_follows _ _ _ _ _) fun s => ?_
  · unfold beginChunk
    split_ifs
    · exact openPartition_follows image s
    · exact follows_done _
  · unfold endChunk
    split_ifs
    · exact follows_perform fun _ _ => rfl
    · exact follows_done _

theorem updatePartition_follows (devtype : String) (part : UpdateFile.PartInfo) (file : ℕ → Option (List UInt8))
    (s : Statics) : Follows answers.Below (updatePartition answers.exact devtype part file s)
      (updatePartition answers.narrowed devtype part file s) :=
  follows_foldlM _ (fun s (chunk : (ImageInfo × ℕ) × ℕ) =>
    writeUpdatePkg_follows devtype part chunk.1.1 (file chunk.2) chunk.1.2 s) s

end FsAnswers

/-- An access comes through the block manager just when it ends below 2 GiB; on the file systems of `mtd_basic` all of
them do just when the partition ends there; and an update whose calls all do goes on at the true offsets. -/
theorem offsets_survive_iff (crc32 : List UInt8 → ℕ) :
    (∀ dev bm info progressSize st (a : Access),
      Survives (a.answer dev bm crc32 info progressSize st) (a.returned dev bm crc32 info progressSize st) ↔
        EndsBelow (a.answer dev bm crc32 info progressSize st)) ∧
    (∀ info : MtdBlock.PrepareInfo, info.fs.kind.isSome = true → info.maxSize ≠ 0 →
      ((∀ dev bm progressSize st, ∀ a : Access, a.offset ≤ info.mtd.start + info.mtd.size →
          Survives (a.answer dev bm crc32 info progressSize st) (a.returned dev bm crc32 info progressSize st)) ↔
        info.mtd.start + info.mtd.size < 2 ^ 31)) ∧
    ∀ (answers : FsAnswers) devtype part file s tr,
      (∀ before call ok behind, (updatePartition answers.exact devtype part file s tr).2 =
          tr ++ before ++ (call, ok) :: behind → answers.Below (tr ++ before) call) →
        updatePartition answers.narrowed devtype part file s tr = updatePartition answers.exact devtype part file s tr := by
  refine ⟨fun _ _ _ _ _ a => a.survives_iff, ?_, ?_⟩
  · intro info hkind hsize
    obtain ⟨kind, hkind⟩ := Option.isSome_iff_exists.mp hkind
    exact Access.all_survive_iff hkind hsize
  · intro answers devtype part file s tr hbelow
    obtain ⟨new, htr, hsame⟩ := @FsAnswers.updatePartition_follows answers devtype part file s tr
    apply hsame
    intro before call ok behind heq
    apply hbelow before call ok behind
    rw [htr, heq, List.append_assoc]

def nearAnswers : FsAnswers := { PartitionProtocol.agreeable with eraseEnd := fun _ _ => some 0 }

theorem offsets_survive_near : ∃ part : UpdateFile.PartInfo, part.list.length = 1 ∧
    updatePartition nearAnswers.narrowed "nand" part (fun _ => some [0]) PartitionProtocol.idle [] =
      updatePartition nearAnswers.exact "nand" part (fun _ => some [0]) PartitionProtocol.idle [] := by
  refine ⟨⟨⟨"kernel", 0, 4194304, "mtdblock0"⟩, 1, 1, [⟨"boot.bin", "normal", 0, 1, 0, 1⟩]⟩, rfl, ?_⟩
  apply (offsets_survive_iff fun _ => 0).2.2
  intro before call ok behind _
  have hzero (n : ℕ) (hn : some 0 = some n) : n < 2 ^ 31 := by
    cases hn
    exact Nat.two_pow_pos 31
  cases call with
  | prepare => trivial
  | erase => exact hzero
  | write => exact hzero
  | finish => trivial

end Chain

section Large

def highPart : MtdDevInfo :=
  { VolumeSize.pagedNand 2048 2 VolumeSize.page_whole with start := 2147483648, start_dvd := Dvd.intro 16384 rfl }

def largeFlash : PartInfo := ⟨[VolumeSize.pagedNand 2048 16384 VolumeSize.page_whole, highPart], 2147745792⟩

def highPrepared : Option (PrepareInfo × UbiState) :=
  mtdBlockPrepare (failsAt []) largeFlash (fun _ => 0) .normal ⟨[], 7, none⟩ .partition 2147483648 131072
    UbiPeb.blankUbiState

theorem high_write_lost : ∃ info st, highPrepared = some (info, st) ∧
    (Access.write 2147483648 [1]).answer (failsAt []) largeFlash (fun _ => 0) info 0 st = .off 2147485696 ∧
    (Access.write 2147483648 [1]).returned (failsAt []) largeFlash (fun _ => 0) info 0 st = .fail ∧
    ¬Survives ((Access.write 2147483648 [1]).answer (failsAt []) largeFlash (fun _ => 0) info 0 st)
      ((Access.write 2147483648 [1]).returned (failsAt []) largeFlash (fun _ => 0) info 0 st) := by
  have hfacts : highPrepared.map (fun p =>
      ((Access.write 2147483648 [1]).answer (failsAt []) largeFlash (fun _ => 0) p.1 0 p.2,
        (Access.write 2147483648 [1]).returned (failsAt []) largeFlash (fun _ => 0) p.1 0 p.2)) =
      some (.off 2147485696, .fail) := by decide +kernel
  obtain ⟨⟨info, st⟩, h, hfacts⟩ := Option.map_eq_some_iff.mp hfacts
  obtain ⟨hanswer, hreturned⟩ := Prod.mk.inj hfacts
  refine ⟨info, st, h, hanswer, hreturned, ?_⟩
  rw [hanswer, hreturned]
  rintro ⟨hvalue, -⟩
  exact absurd (value_inj hvalue) Ret.noConfusion

end Large

end LinuxRecovery.OffsetWidth
