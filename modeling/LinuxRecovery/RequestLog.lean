import LinuxRecovery.BlockMap

namespace LinuxRecovery.RequestLog

open Libmtd BlockMap

/-- A request with the driver's two answers, the one to a bad block query and the one to all others. -/
structure Answer where
  call : DevCall
  reply : Option Errno
  bad : BadReply

def answers (dev : Device) : List DevCall → List DevCall → List Answer
  | _, [] => []
  | before, call :: new =>
    ⟨call, dev.reply (before ++ [call]), dev.badBlock (before ++ [call])⟩ :: answers dev (before ++ [call]) new

theorem answers_append (dev : Device) (before a b : List DevCall) :
    answers dev before (a ++ b) = answers dev before a ++ answers dev (before ++ a) b := by
  induction a generalizing before with
  | nil => simp [answers]
  | cons call a ih => simp [answers, ih]

def Answer.marks (start eb : ℕ) (a : Answer) : Prop := a.call = .markBad start eb ∧ a.reply = none

def Answer.fails (start eb : ℕ) (a : Answer) : Prop :=
  a.reply = some .eio ∧ (a.call = .erase start eb ∨ ∃ offs data oob mode, a.call = .write start eb offs data oob mode)

def Answer.failsProgram (start eb : ℕ) (a : Answer) : Prop :=
  a.reply = some .eio ∧ ∃ offs data oob mode, a.call = .write start eb offs data oob mode

def Answer.reports (i : ℕ) (a : Answer) : Prop :=
  a.bad = .bad ∧ ∃ (part : MtdDevInfo) (eb : ℕ), a.call = .isBad part.start eb ∧ i = mtdEbRelativeToAbsolute part eb

def Marked (start eb : ℕ) (log : List Answer) : Prop := ∃ a ∈ log, a.marks start eb

def Logged (dev : Device) (s s' : Chip) (log : List Answer) : Prop :=
  ∃ new, s'.calls = s.calls ++ new ∧ log = answers dev s.calls new

variable {dev : Device} {mtd : MtdDevInfo}

section Logs

variable {s s' s'' : Chip} {log log' : List Answer}

theorem logged_refl (s : Chip) : Logged dev s s [] := ⟨[], by simp, rfl⟩

theorem Logged.trans (h : Logged dev s s' log) (h' : Logged dev s' s'' log') : Logged dev s s'' (log ++ log') := by
  obtain ⟨new, hcalls, rfl⟩ := h
  obtain ⟨new', hcalls', rfl⟩ := h'
  refine ⟨new ++ new', by rw [hcalls', hcalls, List.append_assoc], ?_⟩
  rw [answers_append, hcalls]

theorem Logged.unique (h : Logged dev s s' log) (h' : Logged dev s s' log') : log = log' := by
  obtain ⟨new, hcalls, rfl⟩ := h
  obtain ⟨new', hcalls', rfl⟩ := h'
  rw [hcalls] at hcalls'
  rw [List.append_cancel_left hcalls']

theorem logged_one {call : DevCall} (h : s'.calls = s.calls ++ [call]) :
    Logged dev s s' [⟨call, dev.reply (s.calls ++ [call]), dev.badBlock (s.calls ++ [call])⟩] := ⟨[call], h, rfl⟩

theorem marked_append {start eb : ℕ} : Marked start eb (log ++ log') ↔ Marked start eb log ∨ Marked start eb log' := by
  simp only [Marked, List.mem_append, or_and_right, exists_or]

theorem not_marked_nil (start eb : ℕ) : ¬Marked start eb [] := by
  rintro ⟨a, ha, -⟩
  cases ha

end Logs

/-- What a piece of work adds to the block map: every block it marks bad on the device, after an erase or a
program of it has failed, and besides only blocks that the device reports bad. -/
structure Tracks (mtd : MtdDevInfo) (st st' : BmState) (log : List Answer) : Prop where
  map : st'.map.isSome = st.map.isSome
  kept : ∀ i, mtdBmBlockMapIsBad st i = true → mtdBmBlockMapIsBad st' i = true
  only : ∀ i, mtdBmBlockMapIsBad st' i = true → mtdBmBlockMapIsBad st i = true ∨
    (∃ eb, Marked mtd.start eb log ∧ i = mtdEbRelativeToAbsolute mtd eb) ∨ ∃ a ∈ log, a.reports i
  all : st.map.isSome = true → ∀ eb, Marked mtd.start eb log →
    mtdBmBlockMapIsBad st' (mtdEbRelativeToAbsolute mtd eb) = true
  failed : ∀ front a back, log = front ++ a :: back → ∀ eb, a.marks mtd.start eb → ∃ b ∈ front, b.fails mtd.start eb

section Track

variable {st st' st'' : BmState} {log log' : List Answer}

theorem tracks_quiet (hmap : st'.map.isSome = st.map.isSome)
    (hbad : ∀ i, mtdBmBlockMapIsBad st' i = mtdBmBlockMapIsBad st i) (hlog : ∀ eb, ¬Marked mtd.start eb log) :
    Tracks mtd st st' log := by
  refine ⟨hmap, fun i h => (hbad i).trans h, fun i h => .inl ((hbad i).symm.trans h),
    fun _ eb h => absurd h (hlog eb), ?_⟩
  rintro front a back rfl eb ha
  exact absurd ⟨a, by simp, ha⟩ (hlog eb)

theorem tracks_refl (st : BmState) : Tracks mtd st st [] := tracks_quiet rfl (fun _ => rfl) (not_marked_nil _)

theorem Tracks.trans (h : Tracks mtd st st' log) (h' : Tracks mtd st' st'' log') :
    Tracks mtd st st'' (log ++ log') := by
  constructor
  · exact h'.map.trans h.map
  · exact fun i hi => h'.kept i (h.kept i hi)
  · intro i hi
    rcases h'.only i hi with hi | ⟨eb, hm, rfl⟩ | ⟨a, ha, hr⟩
    · rcases h.only i hi with hi | ⟨eb, hm, rfl⟩ | ⟨a, ha, hr⟩
      · exact .inl hi
      · exact .inr (.inl ⟨eb, marked_append.mpr (.inl hm), rfl⟩)
      · exact .inr (.inr ⟨a, List.mem_append_left _ ha, hr⟩)
    · exact .inr (.inl ⟨eb, marked_append.mpr (.inr hm), rfl⟩)
    · exact .inr (.inr ⟨a, List.mem_append_right _ ha, hr⟩)
  · intro hmap eb hm
    rcases marked_append.mp hm with hm | hm
    · exact h'.kept _ (h.all hmap eb hm)
    · exact h'.all (h.map.trans hmap) eb hm
  · intro front a back heq eb ha
    rcases List.append_eq_append_iff.mp heq with ⟨mid, rfl, hmid⟩ | ⟨mid, rfl, hmid⟩
    · obtain ⟨b, hb, hfail⟩ := h'.failed mid a back hmid eb ha
      exact ⟨b, List.mem_append_right _ hb, hfail⟩
    · cases mid with
      | nil =>
        obtain ⟨b, hb, -⟩ := h'.failed [] a back hmid.symm eb ha
        cases hb
      | cons a' mid =>
        obtain ⟨rfl, -⟩ := List.cons.inj hmid
        exact h.failed front a mid rfl eb ha

theorem tracks_retire {eb : ℕ} {a : Answer} (hmap : st'.map = st.map) (hlog : ∀ eb, ¬Marked mtd.start eb log)
    (hfail : ∃ b ∈ log, b.fails mtd.start eb) (ha : a.marks mtd.start eb) :
    Tracks mtd st (mtdBmBlockMapSet (mtdEbRelativeToAbsolute mtd eb) .bad st') (log ++ [a]) := by
  have hsame (i : ℕ) : mtdBmBlockMapIsBad st' i = mtdBmBlockMapIsBad st i := by
    unfold mtdBmBlockMapIsBad
    rw [hmap]
  have honly (eb' : ℕ) (hm : Marked mtd.start eb' (log ++ [a])) : eb' = eb := by
    rcases marked_append.mp hm with hm | ⟨b, hb, hmarks⟩
    · exact absurd hm (hlog eb')
    · rw [List.mem_singleton.mp hb] at hmarks
      have hcall := ha.1.symm.trans hmarks.1
      simp only [DevCall.markBad.injEq, true_and] at hcall
      exact hcall.symm
  have hmark : Marked mtd.start eb (log ++ [a]) := ⟨a, by simp, ha⟩
  constructor
  · rw [set_map_isSome, hmap]
  · intro i hi
    rw [set_isBad_bad, hsame, hi, Bool.or_true]
  · intro i hi
    rw [set_isBad_bad, hsame, Bool.or_eq_true, Bool.and_eq_true, decide_eq_true_eq] at hi
    rcases hi with ⟨rfl, -⟩ | hi
    · exact .inr (.inl ⟨eb, hmark, rfl⟩)
    · exact .inl hi
  · intro hsome eb' hm
    obtain rfl := honly eb' hm
    rw [set_isBad_bad, hmap, hsome]
    simp
  · intro front b back heq eb' hb
    have hm : Marked mtd.start eb' (log ++ [a]) := ⟨b, by rw [heq]; simp, hb⟩
    obtain rfl := honly eb' hm
    rcases List.append_eq_append_iff.mp heq with ⟨mid, rfl, -⟩ | ⟨mid, rfl, hmid⟩
    · obtain ⟨c, hc, hf⟩ := hfail
      exact ⟨c, List.mem_append_left _ hc, hf⟩
    · cases mid with
      | nil =>
        obtain ⟨c, hc, hf⟩ := hfail
        exact ⟨c, by simpa using hc, hf⟩
      | cons b' mid =>
        obtain ⟨rfl, -⟩ := List.cons.inj hmid
        exact absurd ⟨b, by simp, hb⟩ (hlog eb')

end Track

end LinuxRecovery.RequestLog
