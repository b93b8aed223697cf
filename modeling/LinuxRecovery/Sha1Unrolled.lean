import LinuxRecovery.Sha1Standard

namespace LinuxRecovery.Sha1Unrolled

open Loops Sha1 Sha1Standard

section Words

def bswap32 (x : UInt32) : UInt32 :=
  (x >>> 24) ||| ((x >>> 8) &&& (0xff00 : UInt32)) ||| ((x <<< 8) &&& (0xff0000 : UInt32)) ||| (x <<< 24)

def ror27 (val : UInt32) : UInt32 := (val >>> 27) ||| (val <<< 5)

def ror2 (val : UInt32) : UInt32 := (val >>> 2) ||| (val <<< 30)

def ror31 (val : UInt32) : UInt32 := (val >>> 31) ||| (val <<< 1)

def leWord (b₀ b₁ b₂ b₃ : UInt8) : UInt32 :=
  b₀.toUInt32 ||| (b₁.toUInt32 <<< 8) ||| (b₂.toUInt32 <<< 16) ||| (b₃.toUInt32 <<< 24)

def leBytes (x : UInt32) : List UInt8 := [x.toUInt8, (x >>> 8).toUInt8, (x >>> 16).toUInt8, (x >>> 24).toUInt8]

def bufWord (buf : List UInt8) (t : ℕ) : UInt32 :=
  leWord (buf.getD (4 * t) 0) (buf.getD (4 * t + 1) 0) (buf.getD (4 * t + 2) 0) (buf.getD (4 * t + 3) 0)

end Words

section Rounds

structure Rounds where
  W : List UInt32
  regs : ShaState

def shaF (f : UInt32 → UInt32 → UInt32 → UInt32) (k w A B C D E : UInt32) : UInt32 × UInt32 :=
  (E + (ror27 A + w + f B C D + k), ror2 B)

def word (buf : List UInt8) (t : ℕ) (W : List UInt32) : UInt32 :=
  if t < 16 then bswap32 (bufWord buf t) else ror31 (W.getD 2 0 ^^^ W.getD 7 0 ^^^ W.getD 13 0 ^^^ W.getD 15 0)

def fiveRounds (buf : List UInt8) (f : UInt32 → UInt32 → UInt32 → UInt32) (k : UInt32) (r : Rounds) (t : ℕ) : Rounds :=
  let ⟨W, ⟨A, B, C, D, E⟩⟩ := r
  let w := word buf (t + 0) W
  let W := w :: W
  let (E, B) := shaF f k w A B C D E
  let w := word buf (t + 1) W
  let W := w :: W
  let (D, A) := shaF f k w E A B C D
  let w := word buf (t + 2) W
  let W := w :: W
  let (C, E) := shaF f k w D E A B C
  let w := word buf (t + 3) W
  let W := w :: W
  let (B, D) := shaF f k w C D E A B
  let w := word buf (t + 4) W
  let W := w :: W
  let (A, C) := shaF f k w B C D E A
  ⟨W, ⟨A, B, C, D, E⟩⟩

def transform (state : ShaState) (buf : List UInt8) : ShaState :=
  let r := [0, 5, 10, 15].foldl (fiveRounds buf (fun B C D => D ^^^ (B &&& (C ^^^ D))) 0x5A827999) ⟨[], state⟩
  let r := [20, 25, 30, 35].foldl (fiveRounds buf (fun B C D => B ^^^ C ^^^ D) 0x6ED9EBA1) r
  let r := [40, 45, 50, 55].foldl (fiveRounds buf (fun B C D => (B &&& C) ||| (D &&& (B ||| C))) 0x8F1BBCDC) r
  let r := [60, 65, 70, 75].foldl (fiveRounds buf (fun B C D => B ^^^ C ^^^ D) 0xCA62C1D6) r
  addState state r.regs

theorem transform_def (state : ShaState) (buf : List UInt8) : transform state buf = addState state
    ([60, 65, 70, 75].foldl (fiveRounds buf (fun B C D => B ^^^ C ^^^ D) 0xCA62C1D6)
      ([40, 45, 50, 55].foldl (fiveRounds buf (fun B C D => (B &&& C) ||| (D &&& (B ||| C))) 0x8F1BBCDC)
        ([20, 25, 30, 35].foldl (fiveRounds buf (fun B C D => B ^^^ C ^^^ D) 0x6ED9EBA1)
          ([0, 5, 10, 15].foldl (fiveRounds buf (fun B C D => D ^^^ (B &&& (C ^^^ D))) 0x5A827999) ⟨[], state⟩)))).regs := rfl

attribute [irreducible] transform

end Rounds

section Context

def sha1Transform (ctx : ShaCtx) : ShaCtx := { ctx with state := transform ctx.state ctx.buf }

def bulkLoop : Loop (ShaCtx × Fin bufSize × List UInt8) (ShaCtx × Fin bufSize × List UInt8) where
  step := fun (ctx, i, p) =>
    if bufSize - i.val < p.length then
      .next (sha1Transform { ctx with buf := ctx.buf.take i ++ p.take (bufSize - i) }, ⟨0, by decide⟩, p.drop (bufSize - i))
    else .done (ctx, i, p)
  measure s := s.2.2.length
  decreasing := by
    rintro ⟨ctx, i, p⟩ t h
    dsimp only at h
    split_ifs at h
    cases h
    have hi := i.isLt
    dsimp only
    rw [List.length_drop]
    omega

def absorb (c : ShaCtx × ℕ) (byte : UInt8) : ShaCtx × ℕ :=
  let ctx := { c.1 with buf := c.1.buf.set c.2 byte }
  if c.2 + 1 = bufSize then (sha1Transform ctx, 0) else (ctx, c.2 + 1)

def shaUpdate (ctx : ShaCtx) (data : List UInt8) : ShaCtx :=
  let i : Fin bufSize := ⟨ctx.count.toNat % bufSize, Nat.mod_lt _ (by decide)⟩
  let ctx := { ctx with count := ctx.count + UInt64.ofNat data.length }
  let (ctx, i, p) := bulkLoop.exec (ctx, i, data)
  (p.foldl absorb (ctx, i.val)).1

@[simp] theorem sha1Transform_count (ctx : ShaCtx) : (sha1Transform ctx).count = ctx.count := by
  rw [sha1Transform]

@[simp] theorem sha1Transform_buf (ctx : ShaCtx) : (sha1Transform ctx).buf = ctx.buf := by
  rw [sha1Transform]

theorem absorb_count (c : ShaCtx × ℕ) (data : List UInt8) : (data.foldl absorb c).1.count = c.1.count := by
  induction data generalizing c with
  | nil => rfl
  | cons x data ih =>
    rw [List.foldl_cons, ih, absorb]
    split_ifs
    · rw [sha1Transform_count]
    · rfl

theorem bulkLoop_count (s : ShaCtx × Fin bufSize × List UInt8) : (bulkLoop.exec s).1.count = s.1.count := by
  apply bulkLoop.exec_rule (I := fun t => t.1.count = s.1.count) (Q := fun t => t.1.count = s.1.count)
  · rintro ⟨ctx, i, p⟩ t ht hstep
    simp only [bulkLoop] at hstep
    split_ifs at hstep
    cases hstep
    rw [sha1Transform_count]
    exact ht
  · rintro ⟨ctx, i, p⟩ t ht hstep
    simp only [bulkLoop] at hstep
    split_ifs at hstep
    cases hstep
    exact ht
  · rfl

theorem shaUpdate_count (ctx : ShaCtx) (data : List UInt8) :
    (shaUpdate ctx data).count = ctx.count + UInt64.ofNat data.length := by
  rw [shaUpdate, absorb_count, bulkLoop_count]

def padLoop : Loop ShaCtx ShaCtx where
  step ctx := if ctx.count % 64 ≠ 64 - 8 then .next (shaUpdate ctx [0]) else .done ctx
  measure := missing
  decreasing := by
    intro ctx ctx' h
    split_ifs at h with hne
    cases h
    exact missing_lt hne (shaUpdate_count ctx [0])

def digest (s : ShaState) : List UInt8 := [s.a, s.b, s.c, s.d, s.e].flatMap fun w => leBytes (bswap32 w)

def shaFinal (ctx : ShaCtx) : List UInt8 :=
  let cnt := ctx.count * 8
  let ctx := shaUpdate ctx [0x80]
  let ctx := padLoop.exec ctx
  let ctx := (List.range 8).foldl (fun ctx i => shaUpdate ctx [(cnt >>> UInt64.ofNat ((7 - i) * 8)).toUInt8]) ctx
  digest ctx.state

end Context

section Bytes

theorem bswap_leWord (b₀ b₁ b₂ b₃ : UInt8) : bswap32 (leWord b₀ b₁ b₂ b₃) =
    ((b₀.toUInt32 <<< 24) ||| (b₁.toUInt32 <<< 16) ||| (b₂.toUInt32 <<< 8) ||| b₃.toUInt32) := by
  apply UInt32.toBitVec_inj.mp
  apply BitVec.eq_of_getElem_eq
  intro i hi
  interval_cases i <;> simp [bswap32, leWord]

theorem leBytes_bswap (x : UInt32) : leBytes (bswap32 x) = wordBytes x := by
  have hbyte (k : ℕ) (hk : k = 0 ∨ k = 8 ∨ k = 16 ∨ k = 24) :
      (bswap32 x >>> UInt32.ofNat k).toUInt8 = (x >>> UInt32.ofNat (24 - k)).toUInt8 := by
    apply UInt8.toBitVec_inj.mp
    apply BitVec.eq_of_getElem_eq
    intro i hi
    rcases hk with rfl | rfl | rfl | rfl <;> interval_cases i <;> simp [bswap32]
  have h0 := hbyte 0 (by norm_num)
  have h8 := hbyte 8 (by norm_num)
  have h16 := hbyte 16 (by norm_num)
  have h24 := hbyte 24 (by norm_num)
  rw [leBytes, wordBytes]
  simpa using ⟨h0, h8, h16, h24⟩

end Bytes

section Agree

theorem ror27_eq (x : UInt32) : ror27 x = rol 5 x := UInt32.or_comm _ _

theorem ror2_eq (x : UInt32) : ror2 x = rol 30 x := UInt32.or_comm _ _

theorem ror31_eq (x : UInt32) : ror31 x = rol 1 x := UInt32.or_comm _ _

variable {buf : List UInt8}

theorem bufWord_eq (buf : List UInt8) (t : ℕ) (h : 4 * t + 3 < buf.length) :
    bswap32 (bufWord buf t) = (blockWords buf).getD t 0 := by
  rw [bufWord, bswap_leWord]
  induction t generalizing buf with
  | zero =>
    obtain _ | ⟨b₀, _ | ⟨b₁, _ | ⟨b₂, _ | ⟨b₃, p⟩⟩⟩⟩ := buf
    · simp at h
    · simp at h
    · simp at h
    · simp at h
    · rfl
  | succ t ih =>
    obtain _ | ⟨b₀, _ | ⟨b₁, _ | ⟨b₂, _ | ⟨b₃, p⟩⟩⟩⟩ := buf
    · simp at h
    · simp at h
    · simp at h
    · simp at h
    · have hp : 4 * t + 3 < p.length := by
        simp only [List.length_cons] at h
        omega
      have hskip (k : ℕ) : (b₀ :: b₁ :: b₂ :: b₃ :: p).getD (4 * (t + 1) + k) 0 = p.getD (4 * t + k) 0 := by
        rw [show 4 * (t + 1) + k = 4 * t + k + 1 + 1 + 1 + 1 by ring]
        simp only [List.getD_cons_succ]
      have hfirst := hskip 0
      rw [Nat.add_zero, Nat.add_zero] at hfirst
      rw [hfirst, hskip 1, hskip 2, hskip 3, blockWords]
      exact ih p hp

def wordsUpTo (buf : List UInt8) (t : ℕ) : List UInt32 :=
  (List.range t).reverse.map (messageWord fun i => (blockWords buf).getD i 0)

theorem wordsUpTo_succ (buf : List UInt8) (t : ℕ) :
    wordsUpTo buf (t + 1) = messageWord (fun i => (blockWords buf).getD i 0) t :: wordsUpTo buf t := by
  rw [wordsUpTo, List.range_succ, List.reverse_append]
  rfl

theorem word_eq (h : buf.length = bufSize) (t : ℕ) :
    word buf t (wordsUpTo buf t) = messageWord (fun i => (blockWords buf).getD i 0) t := by
  rw [word]
  split_ifs with hfirst
  · rw [messageWord, if_pos hfirst]
    exact bufWord_eq buf t (by rw [h, bufSize]; omega)
  · rw [ror31_eq]
    exact nextWord_eq (by omega) _ rfl

theorem shaF_round {f : UInt32 → UInt32 → UInt32 → UInt32} {k : UInt32} {t : ℕ} (hmix : ∀ B C D, mix t B C D = f B C D + k)
    (w A B C D E : UInt32) :
    Sha1.round t w ⟨A, B, C, D, E⟩ = ⟨(shaF f k w A B C D E).1, A, (shaF f k w A B C D E).2, C, D⟩ := by
  rw [Sha1.round, shaF, hmix, ror27_eq, ror2_eq]
  congr 1
  ac_rfl

def rounds (buf : List UInt8) (t n : ℕ) (s : ShaState) : ShaState :=
  (List.range' t n).foldl (fun s i => Sha1.round i (messageWord (fun i => (blockWords buf).getD i 0) i) s) s

theorem rounds_zero (buf : List UInt8) (t : ℕ) (s : ShaState) : rounds buf t 0 s = s := by
  rw [rounds, List.range'_zero, List.foldl_nil]

theorem rounds_succ (buf : List UInt8) (t n : ℕ) (s : ShaState) : rounds buf t (n + 1) s =
    rounds buf (t + 1) n (Sha1.round t (messageWord (fun i => (blockWords buf).getD i 0) t) s) := by
  rw [rounds, List.range'_succ, List.foldl_cons, ← rounds]

theorem rounds_add (buf : List UInt8) (t m n : ℕ) (s : ShaState) :
    rounds buf t (m + n) s = rounds buf (t + m) n (rounds buf t m s) := by
  rw [rounds, rounds, rounds, ← List.foldl_append, List.range'_append_1]

theorem fiveRounds_eq (h : buf.length = bufSize) {f : UInt32 → UInt32 → UInt32 → UInt32} {k : UInt32} {t : ℕ}
    (hmix : ∀ i < 5, ∀ B C D, mix (t + i) B C D = f B C D + k) (s : ShaState) :
    fiveRounds buf f k ⟨wordsUpTo buf t, s⟩ t = ⟨wordsUpTo buf (t + 5), rounds buf t 5 s⟩ := by
  obtain ⟨A, B, C, D, E⟩ := s
  have hfirst := hmix 0 (by norm_num)
  rw [Nat.add_zero] at hfirst
  rw [rounds_succ, rounds_succ, rounds_succ, rounds_succ, rounds_succ, rounds_zero]
  simp only [Nat.add_assoc, Nat.reduceAdd]
  rw [shaF_round hfirst, shaF_round (hmix 1 (by norm_num)), shaF_round (hmix 2 (by norm_num)),
    shaF_round (hmix 3 (by norm_num)), shaF_round (hmix 4 (by norm_num))]
  simp only [fiveRounds, Nat.add_zero, word_eq h, ← wordsUpTo_succ, Nat.add_assoc, Nat.reduceAdd]

theorem block_rounds (h : buf.length = bufSize) {f : UInt32 → UInt32 → UInt32 → UInt32} {k : UInt32} {t : ℕ}
    (hmix : ∀ i < 20, ∀ B C D, mix (t + i) B C D = f B C D + k) (s : ShaState) :
    [t, t + 5, t + 10, t + 15].foldl (fiveRounds buf f k) ⟨wordsUpTo buf t, s⟩ =
      ⟨wordsUpTo buf (t + 20), rounds buf t 20 s⟩ := by
  have hfive (j : ℕ) (hj : j + 5 ≤ 20) (s : ShaState) : fiveRounds buf f k ⟨wordsUpTo buf (t + j), s⟩ (t + j) =
      ⟨wordsUpTo buf (t + j + 5), rounds buf (t + j) 5 s⟩ :=
    fiveRounds_eq h (fun i hi => by rw [Nat.add_assoc]; exact hmix (j + i) (by omega)) s
  have h0 := hfive 0 (by norm_num) s
  rw [Nat.add_zero] at h0
  rw [List.foldl_cons, h0, List.foldl_cons, hfive 5 (by norm_num), List.foldl_cons, hfive 10 (by norm_num),
    List.foldl_cons, hfive 15 (by norm_num), List.foldl_nil, show 20 = 5 + (5 + (5 + 5)) from rfl, rounds_add, rounds_add,
    rounds_add]

theorem scheduled_rounds (h : buf.length = bufSize) {n : ℕ} (hn : n ≤ 80) (state : ShaState) :
    (List.range n).foldl (fun s t => Sha1.round t ((schedule buf).getD t 0) s) state = rounds buf 0 n state := by
  have hword (t : ℕ) (ht : t < n) : (schedule buf).getD t 0 = messageWord (fun i => (blockWords buf).getD i 0) t := by
    rw [schedule_eq h, List.getD_eq_getElem _ _ (by simpa using ht.trans_le hn), List.getElem_map, List.getElem_range]
  rw [rounds, ← List.range_eq_range']
  apply List.foldl_ext
  intro s t ht
  rw [hword t (List.mem_range.mp ht)]

theorem plain_rounds (h : buf.length = bufSize) (state : ShaState) :
    Sha1.transform state buf = addState state (rounds buf 0 80 state) := by
  rw [Sha1.transform_def, scheduled_rounds h le_rfl]

theorem transform_agrees (h : buf.length = bufSize) (state : ShaState) : transform state buf = Sha1.transform state buf := by
  have hempty : wordsUpTo buf 0 = [] := by rw [wordsUpTo, List.range_zero, List.reverse_nil, List.map_nil]
  have h1 (s : ShaState) := block_rounds h (f := fun B C D => D ^^^ (B &&& (C ^^^ D))) (k := 0x5A827999) (t := 0)
    (fun i hi B C D => by rw [mix, if_pos (by omega)]) s
  have h2 (s : ShaState) := block_rounds h (f := fun B C D => B ^^^ C ^^^ D) (k := 0x6ED9EBA1) (t := 20)
    (fun i hi B C D => by rw [mix, if_neg (by omega), if_pos (by omega)]) s
  have h3 (s : ShaState) := block_rounds h (f := fun B C D => (B &&& C) ||| (D &&& (B ||| C))) (k := 0x8F1BBCDC) (t := 40)
    (fun i hi B C D => by rw [mix, if_neg (by omega), if_neg (by omega), if_pos (by omega)]) s
  have h4 (s : ShaState) := block_rounds h (f := fun B C D => B ^^^ C ^^^ D) (k := 0xCA62C1D6) (t := 60)
    (fun i hi B C D => by rw [mix, if_neg (by omega), if_neg (by omega), if_neg (by omega)]) s
  simp only [Nat.zero_add, Nat.reduceAdd] at h1 h2 h3 h4
  rw [plain_rounds h, show 80 = 20 + (20 + (20 + 20)) from rfl, rounds_add, rounds_add, rounds_add, transform_def, ← hempty]
  rw [h1, h2, h3, h4]

section Update

variable {ctx : ShaCtx}

theorem sha1Transform_agrees (h : ctx.buf.length = bufSize) : sha1Transform ctx = Sha1.sha1Transform ctx := by
  rw [sha1Transform, Sha1.sha1Transform, transform_agrees h]

theorem absorb_agrees (h : ctx.buf.length = bufSize) (i : ℕ) (x : UInt8) : absorb (ctx, i) x = Sha1.absorb (ctx, i) x := by
  rw [absorb, Sha1.absorb]
  dsimp only
  rw [sha1Transform_agrees (by rw [List.length_set, h])]

theorem absorbs_agree (c : ShaCtx × ℕ) (h : c.1.buf.length = bufSize) (hi : c.2 < bufSize) (p : List UInt8) :
    p.foldl absorb c = p.foldl Sha1.absorb c := by
  induction p generalizing c with
  | nil => rw [List.foldl_nil, List.foldl_nil]
  | cons x p ih =>
    obtain ⟨ctx, i⟩ := c
    obtain ⟨hlen, hnext, -⟩ := absorb_feed hi h x
    rw [List.foldl_cons, List.foldl_cons, absorb_agrees h]
    exact ih _ hlen (by rw [hnext]; exact Nat.mod_lt _ (by decide))

theorem absorb_fill (h : ctx.buf.length = bufSize) {i : ℕ} (p : List UInt8) (hp : i + p.length = bufSize) (hne : p ≠ []) :
    p.foldl Sha1.absorb (ctx, i) = (Sha1.sha1Transform { ctx with buf := ctx.buf.take i ++ p }, 0) := by
  induction p generalizing ctx i with
  | nil => exact absurd rfl hne
  | cons x p ih =>
    rw [List.length_cons] at hp
    have hset : (ctx.buf.set i x).take (i + 1) = ctx.buf.take i ++ [x] := by
      rw [List.take_succ_eq_append_getElem (by rw [List.length_set]; omega), List.getElem_set_self,
        List.take_set_of_le (le_refl i)]
    rw [List.foldl_cons, Sha1.absorb]
    dsimp only
    by_cases hlast : p = []
    · subst hlast
      have hi : i + 1 = bufSize := hp
      have hfull : ctx.buf.set i x = ctx.buf.take i ++ [x] := by
        rw [← hset, List.take_of_length_le (by rw [List.length_set]; omega)]
      rw [if_pos hi, List.foldl_nil, hfull]
    · have hpos := List.length_pos_of_ne_nil hlast
      rw [if_neg (by omega), @ih { ctx with buf := ctx.buf.set i x } (by rw [List.length_set, h]) (i + 1) (by omega) hlast]
      dsimp only
      rw [hset, List.append_assoc, List.singleton_append]

theorem bulkLoop_agrees (s : ShaCtx × Fin bufSize × List UInt8) (h : s.1.buf.length = bufSize) :
    (bulkLoop.exec s).1.buf.length = bufSize ∧
      (bulkLoop.exec s).2.2.foldl Sha1.absorb ((bulkLoop.exec s).1, (bulkLoop.exec s).2.1.val) =
        s.2.2.foldl Sha1.absorb (s.1, s.2.1.val) := by
  induction s using bulkLoop.induct with
  | h s ih =>
    obtain ⟨ctx, i, p⟩ := s
    have hi := i.isLt
    by_cases hmore : bufSize - i.val < p.length
    · have hstep : bulkLoop.step (ctx, i, p) = .next (sha1Transform { ctx with buf := ctx.buf.take i ++ p.take (bufSize - i) },
          ⟨0, by decide⟩, p.drop (bufSize - i)) := if_pos hmore
      have hfill : (p.take (bufSize - i)).length = bufSize - i := by rw [List.length_take]; omega
      have hbuf : (ctx.buf.take i ++ p.take (bufSize - i)).length = bufSize := by
        rw [List.length_append, List.length_take, hfill, h]
        omega
      obtain ⟨hlen, hrest⟩ := ih _ hstep (by rw [sha1Transform_buf]; exact hbuf)
      rw [bulkLoop.exec_next hstep]
      refine ⟨hlen, hrest.trans ?_⟩
      have hblock := absorb_fill h (i := i) (p.take (bufSize - i)) (by rw [hfill]; omega)
        (by rw [← List.length_pos_iff, hfill]; omega)
      conv_rhs => rw [← List.take_append_drop (bufSize - i) p, List.foldl_append]
      dsimp only
      rw [hblock, sha1Transform_agrees hbuf]
    · have hstep : bulkLoop.step (ctx, i, p) = .done (ctx, i, p) := if_neg hmore
      rw [bulkLoop.exec_done hstep]
      exact ⟨h, rfl⟩

theorem shaUpdate_agrees (h : ctx.buf.length = bufSize) (data : List UInt8) : shaUpdate ctx data = Sha1.shaUpdate ctx data := by
  obtain ⟨hlen, hrest⟩ := bulkLoop_agrees ({ ctx with count := ctx.count + UInt64.ofNat data.length },
    ⟨ctx.count.toNat % bufSize, Nat.mod_lt _ (by decide)⟩, data) h
  rw [shaUpdate, Sha1.shaUpdate, count_mod]
  dsimp only at hrest ⊢
  rw [absorbs_agree _ hlen (Fin.isLt _), hrest]
  rfl

theorem shaUpdate_length (h : ctx.buf.length = bufSize) (data : List UInt8) :
    (Sha1.shaUpdate ctx data).buf.length = bufSize := by
  have hindex : (ctx.count % 64).toNat < bufSize := by
    rw [count_mod]
    exact Nat.mod_lt _ (by norm_num)
  have hfold := @absorb_foldl { ctx with count := ctx.count + UInt64.ofNat data.length } (ctx.count % 64).toNat hindex h data
  rw [Sha1.shaUpdate]
  exact hfold.1

theorem updates_agree (h : ctx.buf.length = bufSize) (pieces : List (List UInt8)) :
    pieces.foldl shaUpdate ctx = pieces.foldl Sha1.shaUpdate ctx ∧
      (pieces.foldl Sha1.shaUpdate ctx).buf.length = bufSize := by
  induction pieces generalizing ctx with
  | nil =>
    rw [List.foldl_nil, List.foldl_nil]
    exact ⟨rfl, h⟩
  | cons data pieces ih =>
    rw [List.foldl_cons, List.foldl_cons, shaUpdate_agrees h]
    exact ih (shaUpdate_length h data)

theorem padLoop_agrees (h : ctx.buf.length = bufSize) :
    padLoop.exec ctx = Sha1.padLoop.exec ctx ∧ (Sha1.padLoop.exec ctx).buf.length = bufSize := by
  induction ctx using Sha1.padLoop.induct with
  | h ctx ih =>
    by_cases hend : ctx.count % 64 = 64 - 8
    · rw [padLoop.exec_done (if_neg (not_not.mpr hend)), Sha1.padLoop.exec_done (if_neg (not_not.mpr hend))]
      exact ⟨rfl, h⟩
    · have hstep : Sha1.padLoop.step ctx = .next (Sha1.shaUpdate ctx [0]) := if_pos hend
      rw [padLoop.exec_next (if_pos hend), Sha1.padLoop.exec_next hstep, shaUpdate_agrees h]
      exact ih _ hstep (shaUpdate_length h [0])

theorem digest_agrees (s : ShaState) : digest s = Sha1.digest s := by
  rw [digest, Sha1.digest]
  simp only [leBytes_bswap]

theorem shaFinal_agrees (h : ctx.buf.length = bufSize) : shaFinal ctx = Sha1.shaFinal ctx := by
  obtain ⟨hpad, hlen⟩ := padLoop_agrees (shaUpdate_length h [0x80])
  have hbytes := (updates_agree hlen ((List.range 8).map fun i => [((ctx.count * 8) >>> UInt64.ofNat ((7 - i) * 8)).toUInt8])).1
  rw [List.foldl_map, List.foldl_map] at hbytes
  rw [shaFinal, Sha1.shaFinal, shaUpdate_agrees h, hpad, hbytes, digest_agrees]

/-- The version for machines with the lowest byte first computes the digests of the generic one. -/
theorem unrolled_agrees (buf : List UInt8) (h : buf.length = bufSize) (pieces : List (List UInt8)) :
    shaFinal (pieces.foldl shaUpdate (shaInit buf)) = Sha1.shaFinal (pieces.foldl Sha1.shaUpdate (shaInit buf)) := by
  obtain ⟨hsame, hlen⟩ := updates_agree (show (shaInit buf).buf.length = bufSize from h) pieces
  rw [hsame, shaFinal_agrees hlen]

theorem unrolled_agrees_abc :
    shaFinal ([[0x61], [0x62, 0x63]].foldl shaUpdate (shaInit (List.replicate 64 7))) =
      Sha1.shaFinal ([[0x61], [0x62, 0x63]].foldl Sha1.shaUpdate (shaInit (List.replicate 64 7))) :=
  unrolled_agrees (List.replicate 64 7) (by rw [List.length_replicate]; rfl) _

end Update

end Agree

end LinuxRecovery.Sha1Unrolled
