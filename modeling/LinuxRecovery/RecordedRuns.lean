import LinuxRecovery.RecordedBlocks

namespace LinuxRecovery.RecordedRuns

open Loops ByteMemory Libmtd BlockMap BasicWrite BlockScan BasicErase RequestLog RecordedBlocks UbiVolume
open Ubigen UbiPrepare
open SysinfoSave (PartInfo secondPart twoParts)
open UbiPeb (UbiState blankUbiState PebResult limitHit maxConsecutiveBadBlocks erasePeb programPeb nextEc ubiWriteOnePeb)

def Answer.marked (start : ℕ) (a : Answer) : Option ℕ :=
  match a.call, a.reply with
  | .markBad s eb, none => if s = start then some eb else none
  | _, _ => none

def marksOf (start : ℕ) (log : List Answer) : List ℕ := log.filterMap (Answer.marked start)

def limitAfter : Option ℕ → ℕ → List ℕ → Option ℕ × ℕ
  | prevBb, n, [] => (prevBb, n)
  | prevBb, n, eb :: ebs => limitAfter (some eb) (if eb = prevBb.getD eb + 1 then n + 1 else 1) ebs

section Marks

variable {start : ℕ} {log log' : List Answer}

theorem marked_eq_some (a : Answer) (eb : ℕ) : Answer.marked start a = some eb ↔ a.marks start eb := by
  obtain ⟨call, reply, -⟩ := a
  unfold Answer.marked Answer.marks
  dsimp only
  split
  · rename_i s eb'
    simp only [Option.ite_none_right_eq_some, Option.some.injEq, DevCall.markBad.injEq, and_true]
  · rename_i hne
    constructor
    · intro h
      cases h
    · rintro ⟨rfl, rfl⟩
      exact absurd rfl (hne start eb rfl)

theorem marksOf_append : marksOf start (log ++ log') = marksOf start log ++ marksOf start log' := by
  simp only [marksOf, List.filterMap_append]

theorem mem_marksOf {eb : ℕ} : eb ∈ marksOf start log ↔ Marked start eb log := by
  simp only [marksOf, List.mem_filterMap, marked_eq_some, Marked]

theorem marksOf_unmarked (h : ∀ eb, ¬Marked start eb log) : marksOf start log = [] := by
  apply List.eq_nil_iff_forall_not_mem.mpr
  intro eb heb
  exact h eb (mem_marksOf.mp heb)

theorem marksOf_singleton {a : Answer} {eb : ℕ} (h : a.marks start eb) : marksOf start [a] = [eb] := by
  simp only [marksOf, List.filterMap_cons, (marked_eq_some a eb).mpr h, List.filterMap_nil]

theorem limitAfter_append (prevBb : Option ℕ) (n : ℕ) (xs ys : List ℕ) :
    limitAfter prevBb n (xs ++ ys) = limitAfter (limitAfter prevBb n xs).1 (limitAfter prevBb n xs).2 ys := by
  induction xs generalizing prevBb n with
  | nil => rfl
  | cons x xs ih => exact ih _ _

theorem limitHit_append (prevBb : Option ℕ) (n : ℕ) (xs ys : List ℕ) : limitHit prevBb n (xs ++ ys) =
    (limitHit prevBb n xs || limitHit (limitAfter prevBb n xs).1 (limitAfter prevBb n xs).2 ys) := by
  induction xs generalizing prevBb n with
  | nil => simp only [List.nil_append, limitHit, limitAfter, Bool.false_or]
  | cons x xs ih => simp only [List.cons_append, limitHit, limitAfter, ih, Bool.or_assoc]

end Marks

def ProgramMarked (mtd : MtdDevInfo) (log : List Answer) : Prop :=
  ∃ eb, Marked mtd.start eb log ∧ ∃ b ∈ log, b.failsProgram mtd.start eb

variable {dev : Device} {mtd : MtdDevInfo} {st st' st'' : UbiState}

/-- What leads the walk away from its block map: a block marked for a failed program, or a run of marked blocks
as long as the limit. -/
def FormatSlips (mtd : MtdDevInfo) (st : UbiState) (log : List Answer) : Prop :=
  ProgramMarked mtd log ∨ limitHit st.prevBb st.consecutiveBadBlocks (marksOf mtd.start log) = true

def FormatDoes (dev : Device) (mtd : MtdDevInfo) (st st' : UbiState) : Prop :=
  ∃ log, Logged dev st.toChip st'.toChip log ∧
    (st'.prevBb, st'.consecutiveBadBlocks) = limitAfter st.prevBb st.consecutiveBadBlocks (marksOf mtd.start log) ∧
    (FormatSlips mtd st log ∨ Tracks mtd st.toBmState st'.toBmState log)

section Format

theorem FormatDoes.trans (h : FormatDoes dev mtd st st') (h' : FormatDoes dev mtd st' st'') :
    FormatDoes dev mtd st st'' := by
  obtain ⟨log, hl, hlimit, ht⟩ := h
  obtain ⟨log', hl', hlimit', ht'⟩ := h'
  have hprev : st'.prevBb = _ := congrArg Prod.fst hlimit
  have hcount : st'.consecutiveBadBlocks = _ := congrArg Prod.snd hlimit
  refine ⟨log ++ log', hl.trans hl', ?_, ?_⟩
  · rw [marksOf_append, limitAfter_append, ← hprev, ← hcount, hlimit']
  · have hsplit : limitHit st.prevBb st.consecutiveBadBlocks (marksOf mtd.start (log ++ log')) =
        (limitHit st.prevBb st.consecutiveBadBlocks (marksOf mtd.start log) ||
          limitHit st'.prevBb st'.consecutiveBadBlocks (marksOf mtd.start log')) := by
      rw [marksOf_append, limitHit_append, ← hprev, ← hcount]
    rcases ht with (⟨eb, hm, b, hb, hf⟩ | hhit) | ht
    · exact .inl (.inl ⟨eb, marked_append.mpr (.inl hm), b, List.mem_append_left _ hb, hf⟩)
    · exact .inl (.inr (by rw [hsplit, hhit, Bool.true_or]))
    · rcases ht' with (⟨eb, hm, b, hb, hf⟩ | hhit) | ht'
      · exact .inl (.inl ⟨eb, marked_append.mpr (.inr hm), b, List.mem_append_right _ hb, hf⟩)
      · exact .inl (.inr (by rw [hsplit, hhit, Bool.or_true]))
      · exact .inr (ht.trans ht')

theorem formatDoes_refl (st : UbiState) : FormatDoes dev mtd st st :=
  ⟨[], logged_refl _, rfl, .inr (tracks_refl _)⟩

theorem formatDoes_set (st : UbiState) (eb : ℕ) {status : BlkStatus} (h : status ≠ .bad) :
    FormatDoes dev mtd st (st.mapSet eb status) := by
  refine ⟨[], logged_refl _, rfl, .inr ?_⟩
  exact tracks_quiet (set_map_isSome _ _ _) (fun i => set_isBad_other _ eb i status h) (not_marked_nil _)

theorem formatDoes_plain {log : List Answer} (h : PebPlain dev mtd st st' log) : FormatDoes dev mtd st st' := by
  refine ⟨log, h.unmarking.1, ?_, .inr ?_⟩
  · rw [marksOf_unmarked h.unmarking.2, h.prevBb, h.blocks]
    rfl
  · refine tracks_quiet (by rw [h.map]) (fun i => ?_) h.unmarking.2
    unfold mtdBmBlockMapIsBad
    rw [h.map]

variable {eb : ℕ} {P : Answer → Prop} {log : List Answer} {a : Answer}

theorem PebMarked.limit (h : PebMarked dev mtd eb P st st' log a) :
    (st'.prevBb, st'.consecutiveBadBlocks) =
      limitAfter st.prevBb st.consecutiveBadBlocks (marksOf mtd.start (log ++ [a])) := by
  rw [marksOf_append, marksOf_unmarked h.before, marksOf_singleton h.mark, h.prevBb, h.blocks]
  rfl

theorem formatDoes_limit (h : PebMarked dev mtd eb P st st' log a)
    (hge : maxConsecutiveBadBlocks ≤ st'.consecutiveBadBlocks) : FormatDoes dev mtd st st' := by
  refine ⟨log ++ [a], h.logged, PebMarked.limit h, .inl (.inr ?_)⟩
  rw [h.blocks] at hge
  rw [marksOf_append, marksOf_unmarked h.before, marksOf_singleton h.mark]
  simp only [List.nil_append, limitHit, Bool.or_false, decide_eq_true_eq]
  exact hge

theorem formatDoes_program (h : PebMarked dev mtd eb (fun b => b.failsProgram mtd.start eb) st st' log a) :
    FormatDoes dev mtd st st' := by
  obtain ⟨b, hb, hf⟩ := h.failed
  exact ⟨log ++ [a], h.logged, PebMarked.limit h,
    .inl (.inl ⟨eb, ⟨a, by simp, h.mark⟩, b, List.mem_append_left _ hb, hf⟩)⟩

theorem formatDoes_retire (h : PebMarked dev mtd eb (fun b => b.fails mtd.start eb) st st' log a) :
    FormatDoes dev mtd st (st'.mapSet (mtdEbRelativeToAbsolute mtd eb) .bad) :=
  ⟨log ++ [a], h.logged, (PebMarked.limit h :), .inr (tracks_retire h.map h.before h.failed h.mark)⟩

theorem formatStep_does (crc32 : List UInt8 → ℕ) (startEb : ℕ) (c : FormatCursor) :
    FormatDoes dev mtd c.st (after FormatCursor.st Prod.snd (formatStep dev mtd crc32 startEb c)) := by
  have hsame := @formatDoes_refl dev mtd c.st
  have herase := @erasePeb_ends dev mtd c.eb c.st
  unfold formatStep
  split
  · exact hsame
  · split_ifs
    · exact hsame
    · exact hsame
    · dsimp only
      split
      · rename_i st heq
        rw [heq] at herase
        cases herase with
        | fatal h => exact formatDoes_plain h
        | limit h hge => exact formatDoes_limit h hge
      · rename_i st heq
        rw [heq] at herase
        cases herase with
        | bad h => exact formatDoes_retire h
      · rename_i st heq
        rw [heq] at herase
        cases herase with
        | ok h =>
          have herased := (formatDoes_plain h).trans
            (@formatDoes_set _ _ st (mtdEbRelativeToAbsolute mtd c.eb) .erased (by decide))
          have hprogram := @programPeb_ends dev mtd c.eb
            (formatHdr mtd crc32 c.st.ubi.ui (nextEc c.st c.eb)) (st.mapSet (mtdEbRelativeToAbsolute mtd c.eb) .erased)
          split
          · rename_i heq'
            rw [heq'] at hprogram
            cases hprogram with
            | fatal h' => exact herased.trans (formatDoes_plain h')
            | limit h' hge => exact herased.trans (formatDoes_limit h' hge)
          · rename_i heq'
            rw [heq'] at hprogram
            cases hprogram with
            | bad h' => exact herased.trans (formatDoes_program h')
          · rename_i heq'
            rw [heq'] at hprogram
            cases hprogram with
            | ok h' => exact herased.trans (formatDoes_plain h')

theorem format_does (crc32 : List UInt8 → ℕ) (startEb : ℕ) (st : UbiState) :
    FormatDoes dev mtd st (format dev mtd crc32 startEb st).2 := by
  refine (formatLoop dev mtd crc32 startEb).exec_compose (R := fun c d => FormatDoes dev mtd c.st d.st)
    (S := fun c r => FormatDoes dev mtd c.st r.2) ?_ ?_ (fun _ _ _ => FormatDoes.trans) ⟨startEb, st⟩
  · intro c d hd
    have hstep := @formatStep_does dev mtd crc32 startEb c
    rwa [show formatStep dev mtd crc32 startEb c = .next d from hd] at hstep
  · intro c r hr
    have hstep := @formatStep_does dev mtd crc32 startEb c
    rwa [show formatStep dev mtd crc32 startEb c = .done r from hr] at hstep

end Format

inductive Routine where
  | scan (noskipbad : Bool) (method : OperationMethod) (capacity offset length : ℕ)
  | prepare (ubi : UbiParams)
  | basicErase (fs : FsKind) (length : ℕ)
  | basicWrite (fs : FsKind) (maxSize progressSize : ℕ) (offset : ℤ) (buf : List UInt8)
  | writeOnePeb (eb : ℕ) (buf : List UInt8)
  | format (startEb : ℕ)

structure Call where
  mtd : MtdDevInfo
  routine : Routine

namespace Call

variable (dev : Device) (bm : PartInfo) (crc32 : List UInt8 → ℕ)

def exec (c : Call) (st : UbiState) : UbiState :=
  match c.routine with
  | .scan noskipbad method capacity offset length =>
    st.withBm (mtdBlockScan dev c.mtd noskipbad method capacity offset length st.toBmState).2
  | .prepare ubi => { st with ubi := ubi }
  | .basicErase fs length => st.withBm (mtdBasicErase dev bm c.mtd fs length st.toBmState).2
  | .basicWrite fs maxSize progressSize offset buf =>
    st.withBm (mtdBasicWrite dev c.mtd fs maxSize progressSize offset buf st.toBmState).st
  | .writeOnePeb eb buf => (ubiWriteOnePeb dev c.mtd crc32 eb buf st).2.2
  | .format startEb => (UbiVolume.format dev c.mtd crc32 startEb st).2

def log (c : Call) (st : UbiState) : List Answer :=
  answers dev st.calls ((c.exec dev bm crc32 st).calls.drop st.calls.length)

/-- The call keeps off the paths that lose or misplace an entry: a write marks no block of a partition
with blocks in front of it, a PEB is marked by no write to it, and no failed program or limit ends in a mark
while the tail is formatted. -/
def Meets (c : Call) (st : UbiState) : Prop :=
  match c.routine with
  | .basicWrite fs .. => fs.flag.markbad = true ∧ ¬Shifted c.mtd (c.log dev bm crc32 st)
  | .writeOnePeb .. => ¬Marks c.mtd (c.log dev bm crc32 st)
  | .format _ => ¬FormatSlips c.mtd st (c.log dev bm crc32 st)
  | _ => True

def run (calls : List Call) (st : UbiState) : UbiState := calls.foldl (fun st c => c.exec dev bm crc32 st) st

def trace : List Call → UbiState → List (Call × UbiState)
  | [], _ => []
  | c :: cs, st => (c, st) :: trace cs (c.exec dev bm crc32 st)

/-- Each entry found bad behind the calls was so before, or is that of a block which one of them marked or found
reported bad; each block marked has its entry, and an erase or a program of it had failed. -/
structure Recorded (st : UbiState) (calls : List Call) : Prop where
  only : ∀ i, mtdBmBlockMapIsBad (run dev bm crc32 calls st).toBmState i = true →
    mtdBmBlockMapIsBad st.toBmState i = true ∨ ∃ p ∈ trace dev bm crc32 calls st,
      (∃ eb, Marked p.1.mtd.start eb (p.1.log dev bm crc32 p.2) ∧ i = mtdEbRelativeToAbsolute p.1.mtd eb) ∨
        ∃ a ∈ p.1.log dev bm crc32 p.2, a.reports i
  all : ∀ p ∈ trace dev bm crc32 calls st, ∀ eb, Marked p.1.mtd.start eb (p.1.log dev bm crc32 p.2) →
    mtdBmBlockMapIsBad (run dev bm crc32 calls st).toBmState (mtdEbRelativeToAbsolute p.1.mtd eb) = true
  failed : ∀ p ∈ trace dev bm crc32 calls st, ∀ front a back, p.1.log dev bm crc32 p.2 = front ++ a :: back →
    ∀ eb, a.marks p.1.mtd.start eb → ∃ b ∈ front, b.fails p.1.mtd.start eb

variable {dev bm crc32}

theorem log_of_logged {c : Call} {st : UbiState} {log : List Answer}
    (h : Logged dev st.toChip (c.exec dev bm crc32 st).toChip log) : c.log dev bm crc32 st = log := by
  obtain ⟨new, hcalls, rfl⟩ := h
  unfold Call.log
  rw [hcalls, List.drop_left]

theorem tracks_of_does {c : Call} {st : UbiState}
    (h : Does dev c.mtd st.toBmState (c.exec dev bm crc32 st).toBmState) :
    Tracks c.mtd st.toBmState (c.exec dev bm crc32 st).toBmState (c.log dev bm crc32 st) := by
  obtain ⟨log, hl, ht⟩ := h
  rwa [log_of_logged hl]

theorem tracks_of_unless {c : Call} {st : UbiState} {bad : List Answer → Prop}
    (h : DoesUnless bad dev c.mtd st.toBmState (c.exec dev bm crc32 st).toBmState) (hbad : ¬bad (c.log dev bm crc32 st)) :
    Tracks c.mtd st.toBmState (c.exec dev bm crc32 st).toBmState (c.log dev bm crc32 st) := by
  obtain ⟨log, hl, -, ht⟩ := h
  rw [log_of_logged hl] at hbad ⊢
  exact ht.resolve_left hbad

theorem call_tracks {c : Call} {st : UbiState} (hmap : st.map.isSome = true) (h : c.Meets dev bm crc32 st) :
    Tracks c.mtd st.toBmState (c.exec dev bm crc32 st).toBmState (c.log dev bm crc32 st) := by
  obtain ⟨mtd, routine⟩ := c
  cases routine with
  | scan noskipbad method capacity offset length =>
    exact tracks_of_does (blockScan_does mtd noskipbad method capacity offset length st.toBmState hmap)
  | prepare ubi => exact tracks_of_does (does_refl st.toBmState)
  | basicErase fs length => exact tracks_of_does (basicErase_does bm fs length st.toBmState)
  | basicWrite fs maxSize progressSize offset buf =>
    exact tracks_of_unless (basicWrite_does h.1 maxSize progressSize offset buf st.toBmState) h.2
  | writeOnePeb eb buf => exact tracks_of_unless (writeOnePeb_does crc32 eb buf st) h
  | format startEb =>
    obtain ⟨log, hl, -, ht⟩ := @format_does dev mtd crc32 startEb st
    have hlog := @log_of_logged _ bm _ ⟨mtd, .format startEb⟩ _ _ hl
    rw [hlog]
    exact ht.resolve_left (hlog ▸ h)

theorem run_kept {calls : List Call} {st : UbiState} (hmap : st.map.isSome = true)
    (h : ∀ p ∈ trace dev bm crc32 calls st, p.1.Meets dev bm crc32 p.2) {i : ℕ}
    (hi : mtdBmBlockMapIsBad st.toBmState i = true) :
    mtdBmBlockMapIsBad (run dev bm crc32 calls st).toBmState i = true := by
  induction calls generalizing st with
  | nil => exact hi
  | cons c cs ih =>
    have ht := call_tracks hmap (h (c, st) List.mem_cons_self)
    exact ih (ht.map.trans hmap) (fun p hp => h p (List.mem_cons_of_mem _ hp)) (ht.kept i hi)

theorem run_recorded {calls : List Call} {st : UbiState} (hmap : st.map.isSome = true)
    (h : ∀ p ∈ trace dev bm crc32 calls st, p.1.Meets dev bm crc32 p.2) : Recorded dev bm crc32 st calls := by
  induction calls generalizing st with
  | nil =>
    refine ⟨fun i hi => .inl hi, ?_, ?_⟩
    · intro p hp
      cases hp
    · intro p hp
      cases hp
  | cons c cs ih =>
    have ht := call_tracks hmap (h (c, st) List.mem_cons_self)
    have hmap' := ht.map.trans hmap
    have hrest : ∀ p ∈ trace dev bm crc32 cs (c.exec dev bm crc32 st), p.1.Meets dev bm crc32 p.2 :=
      fun p hp => h p (List.mem_cons_of_mem _ hp)
    obtain ⟨honly, hall, hfailed⟩ := ih hmap' hrest
    constructor
    · intro i hi
      rcases honly i hi with hi | ⟨p, hp, hcase⟩
      · rcases ht.only i hi with hi | hcase
        · exact .inl hi
        · exact .inr ⟨(c, st), List.mem_cons_self, hcase⟩
      · exact .inr ⟨p, List.mem_cons_of_mem _ hp, hcase⟩
    · intro p hp eb hm
      rcases List.mem_cons.mp hp with rfl | hp
      · exact run_kept hmap' hrest (ht.all hmap eb hm)
      · exact hall p hp eb hm
    · intro p hp
      rcases List.mem_cons.mp hp with rfl | hp
      · exact ht.failed
      · exact hfailed p hp

theorem trace_append (cs ds : List Call) (st : UbiState) :
    trace dev bm crc32 (cs ++ ds) st = trace dev bm crc32 cs st ++ trace dev bm crc32 ds (run dev bm crc32 cs st) := by
  induction cs generalizing st with
  | nil => rfl
  | cons c cs ih => exact congrArg ((c, st) :: ·) (ih _)

/-- In a run whose calls all keep off those paths, the map records just the blocks marked, up to every state reached. -/
theorem recorded_throughout {calls : List Call} {st : UbiState} (hmap : st.map.isSome = true)
    (h : ∀ p ∈ trace dev bm crc32 calls st, p.1.Meets dev bm crc32 p.2) :
    ∀ front, front <+: calls → Recorded dev bm crc32 st front := by
  rintro front ⟨back, rfl⟩
  refine run_recorded hmap fun p hp => h p ?_
  rw [trace_append]
  exact List.mem_append_left _ hp

theorem recorded_second : Recorded (failsAt [1]) twoParts (fun _ => 0) blankUbiState
    [⟨secondPart, .basicErase fsNormal 16⟩, ⟨secondPart, .basicWrite fsNormal 4 0 16 [1, 2]⟩,
      ⟨secondPart, .writeOnePeb 1 []⟩, ⟨secondPart, .format 2⟩] := by
  have hnone {c : Call} {st : UbiState} (h : marksOf 16 (c.log (failsAt [1]) twoParts (fun _ => 0) st) = []) (eb : ℕ) :
      ¬Marked 16 eb (c.log (failsAt [1]) twoParts (fun _ => 0) st) := by
    rw [← mem_marksOf, h]
    exact List.not_mem_nil
  refine recorded_throughout rfl (fun p hp => ?_) _ (List.prefix_refl _)
  · fin_cases hp
    · trivial
    · exact ⟨rfl, fun ⟨_, eb, hm⟩ => hnone (by decide +kernel) eb hm⟩
    · exact fun ⟨eb, hm⟩ => hnone (by decide +kernel) eb hm
    · rintro (⟨eb, hm, -⟩ | hhit)
      · exact hnone (by decide +kernel) eb hm
      · exact absurd hhit (by decide +kernel)

/-- A write that fails records block 0 for block 4, `ubi_write_one_peb` records the block behind, and `format` nothing
of the fourth block it marks in a row. -/
theorem failing_block_unrecorded :
    ¬Recorded (failsAt [1]) twoParts (fun _ => 0) blankUbiState [⟨secondPart, .basicWrite fsNormal 4 0 16 [1, 2]⟩] ∧
    ¬Recorded (failsAt [1]) twoParts (fun _ => 0) blankUbiState [⟨secondPart, .writeOnePeb 0 []⟩] ∧
    ¬Recorded (failsAt [1, 3, 5, 7]) twoParts (fun _ => 0) blankUbiState [⟨secondPart, .format 0⟩] := by
  refine ⟨fun h => ?_, fun h => ?_, fun h => ?_⟩
  · exact absurd (h.all _ List.mem_cons_self 0 (mem_marksOf.mp (by decide))) (by decide)
  · exact absurd (h.all _ List.mem_cons_self 0 (mem_marksOf.mp (by decide))) (by decide)
  · exact absurd (h.all _ List.mem_cons_self 3 (mem_marksOf.mp (by decide))) (by decide)

end Call

end LinuxRecovery.RecordedRuns
