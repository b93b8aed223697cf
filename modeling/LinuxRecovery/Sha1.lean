import LinuxRecovery.BlockStream
import LinuxRecovery.Loops

namespace LinuxRecovery.Sha1

open BlockStream Loops

structure ShaState where
  a : UInt32
  b : UInt32
  c : UInt32
  d : UInt32
  e : UInt32
  deriving DecidableEq

structure ShaCtx where
  count : UInt64
  state : ShaState
  buf : List UInt8
  deriving DecidableEq

def shaDigestSize : ℕ := 20

def bufSize : ℕ := 64

def rol (bits value : UInt32) : UInt32 := (value <<< bits) ||| (value >>> (32 - bits))

def blockWords : List UInt8 → List UInt32
  | b₀ :: b₁ :: b₂ :: b₃ :: p =>
    ((b₀.toUInt32 <<< 24) ||| (b₁.toUInt32 <<< 16) ||| (b₂.toUInt32 <<< 8) ||| b₃.toUInt32) :: blockWords p
  | _ => []

def nextWord (W : List UInt32) : UInt32 := rol 1 (W.getD 2 0 ^^^ W.getD 7 0 ^^^ W.getD 13 0 ^^^ W.getD 15 0)

def expand : ℕ → List UInt32 → List UInt32
  | 0, W => W
  | k + 1, W => expand k (nextWord W :: W)

def schedule (buf : List UInt8) : List UInt32 := (expand 64 (blockWords buf).reverse).reverse

def mix (t : ℕ) (B C D : UInt32) : UInt32 :=
  if t < 20 then (D ^^^ (B &&& (C ^^^ D))) + 0x5A827999
  else if t < 40 then (B ^^^ C ^^^ D) + 0x6ED9EBA1
  else if t < 60 then ((B &&& C) ||| (D &&& (B ||| C))) + 0x8F1BBCDC
  else (B ^^^ C ^^^ D) + 0xCA62C1D6

def round (t : ℕ) (w : UInt32) (s : ShaState) : ShaState :=
  ⟨rol 5 s.a + s.e + w + mix t s.b s.c s.d, s.a, rol 30 s.b, s.c, s.d⟩

def addState (s t : ShaState) : ShaState := ⟨s.a + t.a, s.b + t.b, s.c + t.c, s.d + t.d, s.e + t.e⟩

def transform (state : ShaState) (buf : List UInt8) : ShaState :=
  addState state ((List.range 80).foldl (fun s t => round t ((schedule buf).getD t 0) s) state)

theorem transform_def (state : ShaState) (buf : List UInt8) : transform state buf =
    addState state ((List.range 80).foldl (fun s t => round t ((schedule buf).getD t 0) s) state) := rfl

attribute [irreducible] transform

def sha1Transform (ctx : ShaCtx) : ShaCtx := { ctx with state := transform ctx.state ctx.buf }

def absorb (c : ShaCtx × ℕ) (byte : UInt8) : ShaCtx × ℕ :=
  let ctx := { c.1 with buf := c.1.buf.set c.2 byte }
  if c.2 + 1 = bufSize then (sha1Transform ctx, 0) else (ctx, c.2 + 1)

def shaUpdate (ctx : ShaCtx) (data : List UInt8) : ShaCtx :=
  (data.foldl absorb ({ ctx with count := ctx.count + UInt64.ofNat data.length }, (ctx.count % 64).toNat)).1

@[simp] theorem sha1Transform_count (ctx : ShaCtx) : (sha1Transform ctx).count = ctx.count := by
  rw [sha1Transform]

@[simp] theorem sha1Transform_buf (ctx : ShaCtx) : (sha1Transform ctx).buf = ctx.buf := by
  rw [sha1Transform]

theorem absorb_count (c : ShaCtx × ℕ) (data : List UInt8) : (data.foldl absorb c).1.count = c.1.count := by
  induction data generalizing c with
  | nil => rfl
  | cons x data ih =>
    rw [List.foldl_cons, ih, absorb]
    split_ifs
    · rw [sha1Transform_count]
    · rfl

@[simp] theorem shaUpdate_count (ctx : ShaCtx) (data : List UInt8) :
    (shaUpdate ctx data).count = ctx.count + UInt64.ofNat data.length := absorb_count _ data

def missing (ctx : ShaCtx) : ℕ := (120 - (ctx.count % 64).toNat) % 64

theorem count_mod (x : UInt64) : (x % 64).toNat = x.toNat % 64 := UInt64.toNat_mod x 64

theorem missing_lt {ctx ctx' : ShaCtx} (h : ctx.count % 64 ≠ 64 - 8) (hnext : ctx'.count = ctx.count + UInt64.ofNat 1) :
    missing ctx' < missing ctx := by
  have hcount : ctx.count.toNat % 64 ≠ 56 := fun heq => h (UInt64.toNat.inj (by rw [count_mod, heq]; rfl))
  have hmod : (ctx.count + UInt64.ofNat 1).toNat % 64 = (ctx.count.toNat + 1) % 64 := by
    rw [UInt64.toNat_add, show (UInt64.ofNat 1).toNat = 1 from rfl]
    omega
  simp only [missing, count_mod, hnext, hmod]
  omega

def padLoop : Loop ShaCtx ShaCtx where
  step ctx := if ctx.count % 64 ≠ 64 - 8 then .next (shaUpdate ctx [0]) else .done ctx
  measure := missing
  decreasing := by
    intro ctx ctx' h
    split_ifs at h with hne
    cases h
    exact missing_lt hne (shaUpdate_count ctx [0])

def wordBytes (tmp : UInt32) : List UInt8 :=
  [(tmp >>> 24).toUInt8, (tmp >>> 16).toUInt8, (tmp >>> 8).toUInt8, (tmp >>> 0).toUInt8]

def digest (s : ShaState) : List UInt8 := [s.a, s.b, s.c, s.d, s.e].flatMap wordBytes

def shaFinal (ctx : ShaCtx) : List UInt8 :=
  let cnt := ctx.count * 8
  let ctx := shaUpdate ctx [0x80]
  let ctx := padLoop.exec ctx
  let ctx := (List.range 8).foldl (fun ctx i => shaUpdate ctx [(cnt >>> UInt64.ofNat ((7 - i) * 8)).toUInt8]) ctx
  digest ctx.state

def initState : ShaState := ⟨0x67452301, 0xEFCDAB89, 0x98BADCFE, 0x10325476, 0xC3D2E1F0⟩

def shaInit (buf : List UInt8) : ShaCtx := ⟨0, initState, buf⟩

/-- The convenience function; `buf` is what its context starts with. -/
def sha (buf data : List UInt8) : List UInt8 := shaFinal (shaUpdate (shaInit buf) data)

section Message

def pad (data : List UInt8) : List UInt8 :=
  data ++ [0x80] ++ List.replicate ((119 - data.length % 64) % 64) 0 ++
    (List.range 8).map fun i => UInt8.ofNat (8 * data.length / 2 ^ ((7 - i) * 8))

def sha1 (data : List UInt8) : List UInt8 :=
  digest (chain bufSize transform ((pad data).length / bufSize) initState (pad data))

theorem pad_length (data : List UInt8) : (pad data).length = (pad data).length / bufSize * bufSize := by
  simp only [pad, bufSize, List.length_append, List.length_singleton, List.length_replicate, List.length_map,
    List.length_range]
  omega

end Message

structure Absorbed (ctx : ShaCtx) (data : List UInt8) : Prop where
  count : ctx.count = UInt64.ofNat data.length
  length : ctx.buf.length = bufSize
  state : data.foldl (feed bufSize transform) (initState, []) = (ctx.state, ctx.buf.take (data.length % bufSize))

section Absorb

variable {ctx : ShaCtx} {data : List UInt8}

theorem absorb_feed {i : ℕ} (hi : i < bufSize) (hlen : ctx.buf.length = bufSize) (x : UInt8) :
    (absorb (ctx, i) x).1.buf.length = bufSize ∧ (absorb (ctx, i) x).2 = (i + 1) % bufSize ∧
      feed bufSize transform (ctx.state, ctx.buf.take i) x =
        ((absorb (ctx, i) x).1.state, (absorb (ctx, i) x).1.buf.take (absorb (ctx, i) x).2) := by
  have htake : (ctx.buf.take i).length = i := by rw [List.length_take]; omega
  have hset : (ctx.buf.set i x).take (i + 1) = ctx.buf.take i ++ [x] := by
    rw [List.take_succ_eq_append_getElem (by rw [List.length_set]; omega), List.getElem_set_self,
      List.take_set_of_le (le_refl i)]
  unfold absorb feed
  dsimp only
  rw [htake]
  by_cases hfull : i + 1 = bufSize
  · rw [if_pos hfull, if_pos hfull]
    refine ⟨by rw [sha1Transform_buf, List.length_set, hlen], by rw [hfull, Nat.mod_self], ?_⟩
    rw [← hset, hfull, List.take_of_length_le (by rw [List.length_set, hlen])]
    rfl
  · rw [if_neg hfull, if_neg hfull]
    exact ⟨by rw [List.length_set, hlen], (Nat.mod_eq_of_lt (by omega)).symm, by rw [hset]⟩

theorem absorb_foldl {i : ℕ} (hi : i < bufSize) (hlen : ctx.buf.length = bufSize) (xs : List UInt8) :
    (xs.foldl absorb (ctx, i)).1.buf.length = bufSize ∧ (xs.foldl absorb (ctx, i)).2 = (i + xs.length) % bufSize ∧
      xs.foldl (feed bufSize transform) (ctx.state, ctx.buf.take i) =
        ((xs.foldl absorb (ctx, i)).1.state, (xs.foldl absorb (ctx, i)).1.buf.take (xs.foldl absorb (ctx, i)).2) := by
  induction xs generalizing ctx i with
  | nil => exact ⟨hlen, (Nat.mod_eq_of_lt hi).symm, rfl⟩
  | cons x xs ih =>
    obtain ⟨hlen', hi', hfeed⟩ := absorb_feed hi hlen x
    rw [List.foldl_cons, List.foldl_cons, hfeed]
    have hrest := @ih (absorb (ctx, i) x).1 (absorb (ctx, i) x).2
      (by rw [hi']; exact Nat.mod_lt _ (by decide)) hlen'
    refine ⟨hrest.1, ?_, hrest.2.2⟩
    rw [hrest.2.1, hi', Nat.mod_add_mod, List.length_cons]
    congr 1
    omega

theorem Absorbed.update (h : Absorbed ctx data) (xs : List UInt8) : Absorbed (shaUpdate ctx xs) (data ++ xs) := by
  have hindex : (ctx.count % 64).toNat = data.length % bufSize := by
    rw [count_mod, h.count, UInt64.toNat_ofNat', bufSize]
    omega
  obtain ⟨hlen, hi, hfeed⟩ := @absorb_foldl { ctx with count := ctx.count + UInt64.ofNat xs.length }
    (data.length % bufSize) (Nat.mod_lt _ (by decide)) h.length xs
  have hupdate : shaUpdate ctx xs =
      (xs.foldl absorb ({ ctx with count := ctx.count + UInt64.ofNat xs.length }, data.length % bufSize)).1 := by
    rw [shaUpdate, hindex]
  refine ⟨?_, by rw [hupdate]; exact hlen, ?_⟩
  · rw [shaUpdate_count, h.count, List.length_append, UInt64.ofNat_add]
  · rw [List.foldl_append, h.state, hupdate, hfeed, hi, Nat.mod_add_mod, List.length_append]

theorem Absorbed.updates (h : Absorbed ctx data) (pieces : List (List UInt8)) :
    Absorbed (pieces.foldl shaUpdate ctx) (data ++ pieces.flatten) := by
  induction pieces generalizing ctx data with
  | nil => rwa [List.flatten_nil, List.append_nil]
  | cons xs pieces ih =>
    rw [List.foldl_cons, List.flatten_cons, ← List.append_assoc]
    exact ih (h.update xs)

theorem Absorbed.padded (h : Absorbed ctx data) :
    Absorbed (padLoop.exec ctx) (data ++ List.replicate ((120 - data.length % 64) % 64) 0) := by
  induction ctx using padLoop.induct generalizing data with
  | h ctx ih =>
    have hcount : (ctx.count % 64).toNat = data.length % 64 := by
      rw [count_mod, h.count, UInt64.toNat_ofNat']
      omega
    by_cases hend : ctx.count % 64 = 64 - 8
    · have hstep : padLoop.step ctx = .done ctx := if_neg (not_not.mpr hend)
      have hzero : (120 - data.length % 64) % 64 = 0 := by
        rw [← hcount, hend]
        rfl
      rw [padLoop.exec_done hstep, hzero, List.replicate_zero, List.append_nil]
      exact h
    · have hstep : padLoop.step ctx = .next (shaUpdate ctx [0]) := if_pos hend
      have hne : data.length % 64 ≠ 56 := fun heq => hend (UInt64.toNat.inj (by rw [hcount, heq]; rfl))
      have hrest := ih _ hstep (h.update [0])
      rw [padLoop.exec_next hstep]
      rw [List.append_assoc, List.length_append, List.length_singleton] at hrest
      have hsplit : List.replicate ((120 - data.length % 64) % 64) (0 : UInt8) =
          [0] ++ List.replicate ((120 - (data.length + 1) % 64) % 64) 0 := by
        rw [show (120 - data.length % 64) % 64 = (120 - (data.length + 1) % 64) % 64 + 1 by omega,
          List.replicate_succ]
        rfl
      rwa [hsplit]

theorem length_byte (len i : ℕ) (hi : i < 8) :
    ((UInt64.ofNat len * 8) >>> UInt64.ofNat ((7 - i) * 8)).toUInt8 = UInt8.ofNat (8 * len / 2 ^ ((7 - i) * 8)) := by
  apply UInt8.toNat.inj
  rw [UInt64.toNat_toUInt8, UInt64.toNat_shiftRight, UInt64.toNat_mul, UInt64.toNat_ofNat', UInt64.toNat_ofNat',
    UInt8.toNat_ofNat', Nat.shiftRight_eq_div_pow, show (8 : UInt64).toNat = 8 from rfl]
  interval_cases i <;> norm_num <;> omega

theorem Absorbed.final (h : Absorbed ctx data) : shaFinal ctx = sha1 data := by
  have hone := (h.update [0x80]).padded
  have hall := hone.updates ((List.range 8).map fun i => [UInt8.ofNat (8 * data.length / 2 ^ ((7 - i) * 8))])
  rw [List.foldl_map] at hall
  have hbytes : (List.range 8).foldl (fun ctx i => shaUpdate ctx [UInt8.ofNat (8 * data.length / 2 ^ ((7 - i) * 8))])
      (padLoop.exec (shaUpdate ctx [0x80])) =
      (List.range 8).foldl (fun c i => shaUpdate c [((ctx.count * 8) >>> UInt64.ofNat ((7 - i) * 8)).toUInt8])
        (padLoop.exec (shaUpdate ctx [0x80])) := by
    apply List.foldl_ext
    intro c i hi
    rw [h.count, length_byte _ _ (List.mem_range.mp hi)]
  rw [hbytes] at hall
  have hpad : (data ++ [0x80] ++ List.replicate ((120 - (data ++ [0x80]).length % 64) % 64) 0 ++
      ((List.range 8).map fun i => [UInt8.ofNat (8 * data.length / 2 ^ ((7 - i) * 8))]).flatten) = pad data := by
    rw [pad, List.length_append, List.length_singleton, ← List.flatMap_def, ← List.map_eq_flatMap,
      show (120 - (data.length + 1) % 64) % 64 = (119 - data.length % 64) % 64 by omega]
  rw [hpad] at hall
  have hstate := hall.state
  rw [feed_chain (by decide) _ _ _ (pad_length data)] at hstate
  exact congrArg digest (Prod.ext_iff.mp hstate).1.symm

end Absorb

end LinuxRecovery.Sha1
