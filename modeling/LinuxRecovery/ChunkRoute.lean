import LinuxRecovery.MtdBlock
import LinuxRecovery.Placement

namespace LinuxRecovery.ChunkRoute

open Placement
open MtdBlock (narrow)

/-- Where a chunk of an image at `offset` starts that is not the first, `next` being what the write before it
returned: nowhere but at 0 as long as there was none. -/
def chunkOffset (offset next : ℕ) : ℕ := if next = 0 then 0 else max next offset

section Route

variable (A : Area) (start offset : ℕ)

/-- The pieces in which chunks of `ns` bytes are written behind `next`. What the last write of a chunk returns
counts for the one behind it. -/
def Route : ℕ → List ℕ → List (ℕ × ℕ) → Prop
  | _, [], ps => ps = []
  | next, n :: ns, ps =>
    ∃ w qs next', start + w = chunkOffset offset next ∧ ps = pieces A.blockSize n w n ++ qs ∧
      ((∀ p ∈ pieces A.blockSize n w n, A.Fits p) →
        narrow (start + A.finish w (pieces A.blockSize n w n)) = some next') ∧ Route next' ns qs

/-- Laid from `w` on, no chunk has a bad block in front of its last piece, and one that is not the last ends
where an `int` still tells the offset. -/
def InStep : ℕ → List ℕ → Prop
  | _, [] => True
  | w, n :: ns => A.Clean w n ∧ (ns ≠ [] → start + A.stop w n < 2 ^ 31) ∧ InStep (A.stop w n) ns

end Route

theorem narrow_le {k n : ℕ} (h : narrow k = some n) : n ≤ k := by
  unfold narrow at h
  split_ifs at h
  rw [Option.some_inj] at h
  rw [Int.bmod_def] at h
  split_ifs at h
  · omega
  · omega

theorem narrow_self {k : ℕ} : narrow k = some k ↔ k < 2 ^ 31 := by
  unfold narrow
  constructor
  · intro h
    split_ifs at h
    rw [Option.some_inj] at h
    have hlt : (k : ℤ).bmod (2 ^ 32) < (2 ^ 32 + 1) / 2 := Int.bmod_lt (by decide)
    omega
  · intro h
    rw [Int.bmod_eq_of_le (by omega) (by omega), if_neg (by omega)]
    rfl

theorem narrow_exact {k n : ℕ} (h : narrow k = some n) (hk : k < 2 ^ 32) : n = k := by
  unfold narrow at h
  split_ifs at h with hneg
  rw [Option.some_inj] at h
  rw [Int.bmod_def] at h hneg
  split_ifs at h hneg
  · omega
  · omega

variable {A : Area} {start offset next v w n : ℕ} {ns : List ℕ} {ps : List (ℕ × ℕ)}

theorem chunkOffset_le (h1 : next ≤ v) (h2 : offset ≤ v) : chunkOffset offset next ≤ v := by
  unfold chunkOffset
  split_ifs
  · exact Nat.zero_le v
  · exact max_le h1 h2

theorem chunkOffset_behind (h : offset < next) : chunkOffset offset next = next := by
  rw [chunkOffset, if_neg (by omega), max_eq_left h.le]

theorem clean_fits {fuel : ℕ} (hf : n ≤ fuel) (hroom : padded A.pageSize n ≤ (A.usable w).length)
    (h : A.Clean w n) : ∀ p ∈ pieces A.blockSize fuel w n, A.Fits p := by
  have hB := A.block_pos
  induction fuel generalizing w n with
  | zero =>
    obtain rfl : n = 0 := by omega
    simp [pieces]
  | succ fuel ih =>
    rcases Nat.eq_zero_or_pos n with rfl | hn
    · simp [pieces]
    rw [pieces_succ hn, List.forall_mem_cons]
    rcases Nat.lt_or_ge A.blockSize n with hlt | hle
    · rw [min_eq_right hlt.le]
      obtain ⟨k, rfl⟩ := Nat.exists_eq_add_of_lt hlt
      rw [Nat.add_assoc, padded_add A.page_dvd] at hroom
      have hfirst : A.Fits (w, A.blockSize) := ⟨hB, by rw [padded_dvd A.page_dvd]; exact (Nat.le_add_right _ _).trans hroom⟩
      have hdiv : (A.blockSize + k + 1 - 1) / A.blockSize = k / A.blockSize + 1 := by
        rw [Nat.add_sub_cancel, Nat.add_div_left _ hB]
      have hgood : ∀ a, w ≤ a → a < w + A.blockSize → A.bad (a / A.blockSize) = false := by
        intro a h1 h2
        apply h a h1
        rw [hdiv, Nat.add_mul, Nat.one_mul]
        omega
      have hlen := congrArg List.length (landing_split hfirst)
      rw [List.length_append, landing_length hfirst, padded_dvd A.page_dvd, ← (stop_block A.page_dvd hfirst).mpr hgood]
        at hlen
      refine ⟨hfirst, ih (by omega) ?_ fun a h1 h2 => h a (by omega) ?_⟩
      · rw [Nat.add_assoc, Nat.add_sub_cancel_left]
        omega
      · rw [hdiv, Nat.add_mul, Nat.one_mul]
        rw [show A.blockSize + k + 1 - A.blockSize - 1 = k by omega] at h2
        omega
    · rw [min_eq_left hle, Nat.sub_eq_zero_of_le hle, pieces_zero]
      exact ⟨⟨hn, hroom⟩, fun p hp => absurd hp List.not_mem_nil⟩

theorem route_pos (h : Route A start offset next ns ps) : ∀ p ∈ ps, 0 < p.2 := by
  induction ns generalizing next ps with
  | nil =>
    obtain rfl : ps = [] := h
    exact fun p hp => absurd hp List.not_mem_nil
  | cons n ns ih =>
    obtain ⟨w, qs, next', -, rfl, -, hqs⟩ := h
    rw [List.forall_mem_append]
    exact ⟨pieces_pos A.block_pos, ih hqs⟩

theorem route_room (h : Route A start offset next ns ps) : A.room ps = (ns.map (padded A.pageSize)).sum := by
  induction ns generalizing next ps with
  | nil =>
    obtain rfl : ps = [] := h
    rfl
  | cons n ns ih =>
    obtain ⟨w, qs, next', -, rfl, -, hqs⟩ := h
    rw [room_append, pieces_room A.page_dvd A.block_pos le_rfl, ih hqs, List.map_cons, List.sum_cons]

theorem stop_from (hn : 0 < n) (hfit : padded A.pageSize n ≤ (A.usable w).length)
    (hfrom : ∀ a ∈ A.usable w, offset ≤ start + a) : offset < start + A.stop w n := by
  have hp : A.Fits (w, n) := ⟨hn, hfit⟩
  obtain ⟨hlast, hlt⟩ := stop_pred hp
  have := hfrom _ (List.mem_of_mem_take hlast)
  omega

theorem route_inTurn (h : Route A start offset next ns ps) (hpos : ∀ n ∈ ns, 0 < n)
    (hw : start + w = chunkOffset offset next) (heq : A.usable w = A.usable v)
    (hroom : (ns.map (padded A.pageSize)).sum ≤ (A.usable v).length) (hfrom : ∀ a ∈ A.usable v, offset ≤ start + a)
    (hstep : InStep A start w ns) : A.InTurn v ps ∧ ∀ p ∈ ps, A.Fits p := by
  induction ns generalizing next ps v w with
  | nil =>
    obtain rfl : ps = [] := h
    exact ⟨trivial, fun p hp => absurd hp List.not_mem_nil⟩
  | cons n ns ih =>
    obtain ⟨w', qs, next', hw', rfl, hnext, hqs⟩ := h
    obtain rfl : w = w' := by omega
    obtain ⟨hclean, hbound, hrest⟩ := hstep
    rw [List.forall_mem_cons] at hpos
    rw [List.map_cons, List.sum_cons, ← heq] at hroom
    have hfits := clean_fits le_rfl ((Nat.le_add_right _ _).trans hroom) hclean
    have hturn : A.InTurn w (pieces A.blockSize n w n) := (inTurn_pieces le_rfl hfits).mpr hclean
    have hfinish := finish_pieces A.page_dvd A.block_pos hpos.1 le_rfl hturn hfits
    have hstop : offset < start + A.stop w n := stop_from hpos.1 (by omega) (by rw [heq]; exact hfrom)
    have hp : A.Fits (w, n) := ⟨hpos.1, (Nat.le_add_right _ _).trans hroom⟩
    have hsplit := landing_split hp
    have hlen := congrArg List.length hsplit
    rw [List.length_append, landing_length hp] at hlen
    obtain ⟨m, rest, hps⟩ := pieces_head (B := A.blockSize) (w := w) hpos.1 (le_refl n)
    have hsame (v : ℕ) : A.finish v (pieces A.blockSize n w n) = A.stop w n := by
      rw [← hfinish, hps]
      rfl
    have hturn' : A.InTurn v (pieces A.blockSize n w n) := by
      rw [hps] at hturn ⊢
      exact (inTurn_head w).mpr ⟨heq, hturn⟩
    have hlater : A.InTurn (A.stop w n) qs ∧ ∀ p ∈ qs, A.Fits p := by
      by_cases hns : ns = []
      · subst hns
        obtain rfl : qs = [] := hqs
        exact ⟨trivial, fun p hp => absurd hp List.not_mem_nil⟩
      · have hvalue := hnext hfits
        rw [hfinish, narrow_self.mpr (hbound hns), Option.some_inj] at hvalue
        subst hvalue
        refine ih hqs hpos.2 (chunkOffset_behind hstop).symm rfl (by omega) (fun a ha => ?_) hrest
        have := (mem_usable.mp ha).1
        omega
    rw [inTurn_append, hsame, List.forall_mem_append]
    exact ⟨⟨hturn', hlater.1⟩, hfits, hlater.2⟩

theorem route_behind (h : Route A start offset next ns ps) (hv : chunkOffset offset next ≤ start + v)
    (hpos : ∀ n ∈ ns, 0 < n) (hfit : ∀ p ∈ ps, A.Fits p) (hfrom : ∀ a ∈ A.layout ps, offset ≤ start + a) : A.Behind v ps := by
  induction ns generalizing next ps v with
  | nil =>
    obtain rfl : ps = [] := h
    trivial
  | cons n ns ih =>
    obtain ⟨w, qs, next', hw, rfl, hnext, hqs⟩ := h
    rw [List.forall_mem_cons] at hpos
    rw [List.forall_mem_append] at hfit
    rw [layout_append] at hfrom
    obtain ⟨m, rest, hps⟩ := pieces_head (B := A.blockSize) (w := w) hpos.1 (le_refl n)
    obtain ⟨a, ha, hfinish⟩ := finish_last (v := v) (by rw [hps]; exact List.cons_ne_nil _ _) hfit.1
    have hsame : A.finish w (pieces A.blockSize n w n) = A.finish v (pieces A.blockSize n w n) := by
      rw [hps]
      rfl
    have hle := narrow_le (hnext hfit.1)
    have hlast := hfrom a (List.mem_append_left _ (List.mem_of_getLast? ha))
    rw [hsame] at hle
    rw [behind_append]
    refine ⟨behind_pieces A.page_dvd le_rfl (by omega) hfit.1, ?_⟩
    exact ih hqs (chunkOffset_le hle (by omega)) hpos.2 hfit.2 (fun a ha => hfrom a (List.mem_append_right _ ha))

theorem route_from (h : Route A start offset next ns ps) (hnext : offset < next) (hpos : ∀ n ∈ ns, 0 < n)
    (hfit : ∀ p ∈ ps, A.Fits p) (hsmall : start + A.size < 2 ^ 32) : ∀ a ∈ A.layout ps, next ≤ start + a := by
  induction ns generalizing next ps with
  | nil =>
    obtain rfl : ps = [] := h
    exact fun a ha => absurd ha List.not_mem_nil
  | cons n ns ih =>
    obtain ⟨w, qs, next', hw, rfl, hvalue, hqs⟩ := h
    rw [List.forall_mem_cons] at hpos
    rw [List.forall_mem_append] at hfit
    rw [chunkOffset_behind hnext] at hw
    obtain ⟨m, rest, hps⟩ := pieces_head (B := A.blockSize) (w := w) hpos.1 (le_refl n)
    obtain ⟨a, ha, hfinish⟩ := finish_last (v := w) (by rw [hps]; exact List.cons_ne_nil _ _) hfit.1
    have hfrom : ∀ a ∈ A.layout (pieces A.blockSize n w n), w ≤ a := layout_from pieces_from
    have hlast := List.mem_of_getLast? ha
    have h1 := hfrom a hlast
    have h2 := layout_lt a hlast
    have hexact : next' = start + (a + 1) := by
      rw [← hfinish]
      exact narrow_exact (hvalue hfit.1) (by omega)
    rw [layout_append]
    intro x hx
    rcases List.mem_append.mp hx with hx | hx
    · have := hfrom x hx
      omega
    · have := ih hqs (by omega) hpos.2 hfit.2 x hx
      omega

theorem inTurn_step (h : Route A start offset next ns ps) (hpos : ∀ n ∈ ns, 0 < n) (hw : start + w = chunkOffset offset next)
    (hturn : A.InTurn v ps) (hfit : ∀ p ∈ ps, A.Fits p) (hfrom : ∀ a ∈ A.usable v, offset ≤ start + a) (hne : ns ≠ []) :
    A.usable w = A.usable v ∧ InStep A start w ns := by
  induction ns generalizing next ps v w with
  | nil => exact absurd rfl hne
  | cons n ns ih =>
    obtain ⟨w', qs, next', hw', rfl, hnext, hqs⟩ := h
    obtain rfl : w = w' := by omega
    rw [List.forall_mem_cons] at hpos
    rw [List.forall_mem_append] at hfit
    rw [inTurn_append] at hturn
    obtain ⟨m, rest, hps⟩ := pieces_head (B := A.blockSize) (w := w) hpos.1 (le_refl n)
    have hhead := hturn.1
    rw [hps, inTurn_head, ← hps] at hhead
    obtain ⟨heq, hown⟩ := hhead
    have hclean := (inTurn_pieces le_rfl hfit.1).mp hown
    have hfinish := finish_pieces A.page_dvd A.block_pos hpos.1 le_rfl hown hfit.1
    have hsame : A.finish v (pieces A.blockSize n w n) = A.stop w n := by
      rw [← hfinish, hps]
      rfl
    rw [hsame] at hturn
    have hroom : padded A.pageSize n ≤ (A.usable w).length := by
      rw [inTurn_split hown hfit.1, List.length_append, layout_length hfit.1, pieces_room A.page_dvd A.block_pos le_rfl]
      exact Nat.le_add_right _ _
    have hstop : offset < start + A.stop w n := stop_from hpos.1 hroom (by rw [heq]; exact hfrom)
    refine ⟨heq, hclean, ?_⟩
    by_cases hns : ns = []
    · subst hns
      exact ⟨fun h => absurd rfl h, trivial⟩
    have hvalue := hnext hfit.1
    rw [hfinish] at hvalue
    have hle := narrow_le hvalue
    obtain ⟨u, hu⟩ : ∃ u, start + u = chunkOffset offset next' := by
      obtain ⟨n', ns', rfl⟩ := List.exists_cons_of_ne_nil hns
      obtain ⟨u, -, -, hu, -⟩ := hqs
      exact ⟨u, hu⟩
    have hfrom' : ∀ a ∈ A.usable (A.stop w n), offset ≤ start + a := by
      intro a ha
      have := (mem_usable.mp ha).1
      omega
    obtain ⟨hused, hstep⟩ := ih hqs hpos.2 hu hturn.2 hfit.2 hfrom' hns
    have hu' := chunkOffset_le hle hstop.le
    have hge : A.stop w n ≤ u := by
      by_contra hlt
      exact usable_stop_ne (A := A) ⟨hpos.1, hroom⟩ (not_le.mp hlt) hused
    obtain rfl : u = A.stop w n := by omega
    have hexact : next' = start + A.stop w n := by
      rw [chunkOffset] at hu
      split_ifs at hu
      · omega
      · omega
    rw [hexact] at hvalue
    exact ⟨fun _ => narrow_self.mp hvalue, hstep⟩

end LinuxRecovery.ChunkRoute
