import LinuxRecovery.GoodBlocks

namespace LinuxRecovery.Placement

structure Area where
  bad : ℕ → Bool
  blockSize : ℕ
  pageSize : ℕ
  size : ℕ
  block_pos : 0 < blockSize
  page_pos : 0 < pageSize
  page_dvd : pageSize ∣ blockSize

def padded (P n : ℕ) : ℕ := n + (P - n % P) % P

/-- The pieces of `n` bytes that are written one block size apart, at most `fuel` of them. -/
def pieces (B : ℕ) : ℕ → ℕ → ℕ → List (ℕ × ℕ)
  | _, _, 0 => []
  | 0, _, _ => []
  | fuel + 1, w, n => (w, min n B) :: pieces B fuel (w + B) (n - B)

namespace Area

variable (A : Area)

def usable (w : ℕ) : List ℕ := GoodBlocks.usable A.bad A.blockSize A.size w

def landing (w n : ℕ) : List ℕ := (A.usable w).take (padded A.pageSize n)

def stop (w n : ℕ) : ℕ :=
  match (A.landing w n).getLast? with
  | none => w
  | some a => a + 1

def Fits (p : ℕ × ℕ) : Prop := 0 < p.2 ∧ padded A.pageSize p.2 ≤ (A.usable p.1).length

def layout (ps : List (ℕ × ℕ)) : List ℕ := ps.flatMap (fun p => A.landing p.1 p.2)

def room (ps : List (ℕ × ℕ)) : ℕ := (ps.map (fun p => padded A.pageSize p.2)).sum

def InTurn : ℕ → List (ℕ × ℕ) → Prop
  | _, [] => True
  | v, (w, n) :: ps => A.usable w = A.usable v ∧ InTurn (A.stop w n) ps

def Behind : ℕ → List (ℕ × ℕ) → Prop
  | _, [] => True
  | v, (w, n) :: ps => w ≤ v ∧ Behind (A.stop w n) ps

def finish : ℕ → List (ℕ × ℕ) → ℕ
  | v, [] => v
  | _, (w, n) :: ps => finish (A.stop w n) ps

def Clean (w n : ℕ) : Prop :=
  ∀ a, w ≤ a → a < w + (n - 1) / A.blockSize * A.blockSize → A.bad (a / A.blockSize) = false

end Area

theorem le_padded (P n : ℕ) : n ≤ padded P n := Nat.le_add_right _ _

theorem padded_dvd {P n : ℕ} (h : P ∣ n) : padded P n = n := by
  rw [padded, Nat.mod_eq_zero_of_dvd h, Nat.sub_zero, Nat.mod_self, Nat.add_zero]

theorem padded_add {P B : ℕ} (h : P ∣ B) (n : ℕ) : padded P (B + n) = B + padded P n := by
  obtain ⟨k, rfl⟩ := h
  rw [padded, padded, Nat.mul_add_mod, Nat.add_assoc]

variable {A : Area} {v w n : ℕ} {ps qs : List (ℕ × ℕ)}

theorem mem_usable {a : ℕ} : a ∈ A.usable w ↔ w ≤ a ∧ a < A.size ∧ A.bad (a / A.blockSize) = false :=
  GoodBlocks.mem_usable _

theorem usable_sorted : (A.usable w).Pairwise (· < ·) := GoodBlocks.usable_sorted _ _

theorem usable_passed (h : w ≤ v) (hbad : ∀ a, w ≤ a → a < v → a < A.size → A.bad (a / A.blockSize) = true) :
    A.usable w = A.usable v := by
  apply List.Perm.eq_of_pairwise' usable_sorted usable_sorted
  rw [List.perm_ext_iff_of_nodup (usable_sorted.imp Nat.ne_of_lt) (usable_sorted.imp Nat.ne_of_lt)]
  intro a
  rw [mem_usable, mem_usable]
  constructor
  · rintro ⟨h1, h2, h3⟩
    refine ⟨?_, h2, h3⟩
    by_contra hlt
    rw [hbad a h1 (by omega) h2] at h3
    cases h3
  · rintro ⟨h1, h2, h3⟩
    exact ⟨by omega, h2, h3⟩

theorem usable_tail {E R : List ℕ} {a : ℕ} (h : A.usable w = E ++ R) (ha : E.getLast? = some a) :
    R = A.usable (a + 1) := by
  have hsorted : (E ++ R).Pairwise (· < ·) := h ▸ usable_sorted
  have hmem : a ∈ E := List.mem_of_getLast? ha
  obtain ⟨hE, hR, hER⟩ := List.pairwise_append.mp hsorted
  apply List.Perm.eq_of_pairwise' hR usable_sorted
  rw [List.perm_ext_iff_of_nodup (hR.imp Nat.ne_of_lt) (usable_sorted.imp Nat.ne_of_lt)]
  intro x
  have hx : x ∈ E ++ R ↔ w ≤ x ∧ x < A.size ∧ A.bad (x / A.blockSize) = false := h ▸ mem_usable
  have hwa : w ≤ a := (mem_usable.mp (h ▸ List.mem_append_left R hmem)).1
  rw [List.mem_append] at hx
  rw [mem_usable]
  constructor
  · intro hxR
    have h1 := hER a hmem x hxR
    obtain ⟨-, h2⟩ := hx.mp (.inr hxR)
    exact ⟨h1, h2⟩
  · rintro ⟨h1, h2⟩
    rcases hx.mpr ⟨by omega, h2⟩ with hxE | hxR
    · obtain ⟨F, rfl⟩ := List.getLast?_eq_some_iff.mp ha
      rcases List.mem_append.mp hxE with hxF | hxa
      · have := (List.pairwise_append.mp hE).2.2 x hxF a List.mem_cons_self
        omega
      · have := List.mem_singleton.mp hxa
        omega
    · exact hxR

section Landing

variable (h : A.Fits (w, n))
include h

theorem landing_length : (A.landing w n).length = padded A.pageSize n := by
  have := h.2
  rw [Area.landing, List.length_take, min_eq_left this]

theorem landing_last : ∃ a, (A.landing w n).getLast? = some a ∧ A.stop w n = a + 1 := by
  have hlen := landing_length h
  have hpos := h.1
  have hle := le_padded A.pageSize n
  cases hl : (A.landing w n).getLast? with
  | none =>
    rw [List.getLast?_eq_none_iff.mp hl, List.length_nil] at hlen
    simp only at hpos
    omega
  | some a => exact ⟨a, rfl, by rw [Area.stop, hl]⟩

theorem landing_split : A.usable w = A.landing w n ++ A.usable (A.stop w n) := by
  obtain ⟨a, ha, hstop⟩ := landing_last h
  have hsplit : A.usable w = A.landing w n ++ (A.usable w).drop (padded A.pageSize n) :=
    (List.take_append_drop _ _).symm
  rw [hstop, ← usable_tail hsplit ha]
  exact hsplit

theorem lt_stop {a : ℕ} (ha : a ∈ A.landing w n) : w ≤ a ∧ a < A.stop w n := by
  have hmem : a ∈ A.usable w := List.mem_of_mem_take ha
  refine ⟨(mem_usable.mp hmem).1, ?_⟩
  by_contra hge
  have hafter : a ∈ A.usable (A.stop w n) := mem_usable.mpr ⟨not_lt.mp hge, (mem_usable.mp hmem).2⟩
  have hnodup : (A.usable w).Nodup := usable_sorted.imp Nat.ne_of_lt
  rw [landing_split h] at hnodup
  exact (List.nodup_append.mp hnodup).2.2 a ha a hafter rfl

theorem stop_pred : A.stop w n - 1 ∈ A.landing w n ∧ w < A.stop w n := by
  obtain ⟨a, ha, hstop⟩ := landing_last h
  have hmem := List.mem_of_getLast? ha
  have := lt_stop h hmem
  refine ⟨?_, by omega⟩
  rwa [hstop, Nat.add_sub_cancel]

theorem usable_stop_ne {u : ℕ} (hu : u < A.stop w n) : A.usable u ≠ A.usable (A.stop w n) := by
  intro heq
  obtain ⟨hlast, -⟩ := stop_pred h
  have hmem := mem_usable.mp (List.mem_of_mem_take hlast)
  have hin : A.stop w n - 1 ∈ A.usable u := mem_usable.mpr ⟨by omega, hmem.2⟩
  rw [heq] at hin
  have := (mem_usable.mp hin).1
  omega

theorem landing_le_stop : w + padded A.pageSize n ≤ A.stop w n := by
  have hlen := landing_length h
  have hnodup : (A.landing w n).Nodup := (usable_sorted.imp Nat.ne_of_lt).sublist (List.take_sublist _ _)
  have hsub : A.landing w n ⊆ List.range' w (A.stop w n - w) := by
    intro a ha
    obtain ⟨h1, h2⟩ := lt_stop h ha
    exact List.mem_range'_1.mpr ⟨h1, by omega⟩
  have hle := (List.subperm_of_subset hnodup hsub).length_le
  have := (stop_pred h).2
  rw [List.length_range'] at hle
  omega

end Landing

theorem inTurn_append : A.InTurn v (ps ++ qs) ↔ A.InTurn v ps ∧ A.InTurn (A.finish v ps) qs := by
  induction ps generalizing v with
  | nil => simp [Area.InTurn, Area.finish]
  | cons p ps ih => simp only [List.cons_append, Area.InTurn, Area.finish, ih, and_assoc]

theorem inTurn_split (h : A.InTurn v ps) (hfit : ∀ p ∈ ps, A.Fits p) :
    A.usable v = A.layout ps ++ A.usable (A.finish v ps) := by
  induction ps generalizing v with
  | nil => rfl
  | cons p ps ih =>
    obtain ⟨heq, hrest⟩ := h
    rw [Area.layout, List.flatMap_cons, List.append_assoc, Area.finish, ← heq,
      landing_split (hfit p List.mem_cons_self)]
    congr 1
    exact ih hrest (fun q hq => hfit q (List.mem_cons_of_mem _ hq))

theorem layout_length (hfit : ∀ p ∈ ps, A.Fits p) : (A.layout ps).length = A.room ps := by
  rw [Area.layout, List.length_flatMap, Area.room]
  congr 1
  apply List.map_congr_left
  intro p hp
  exact landing_length (hfit p hp)

theorem layout_length_le : (A.layout ps).length ≤ A.room ps := by
  rw [Area.layout, List.length_flatMap, Area.room]
  apply List.sum_le_sum
  intro p _
  exact List.length_take_le _ _

theorem fits_of_length (hpos : ∀ p ∈ ps, 0 < p.2) (h : (A.layout ps).length = A.room ps) : ∀ p ∈ ps, A.Fits p := by
  induction ps with
  | nil => exact fun p hp => absurd hp List.not_mem_nil
  | cons p ps ih =>
    rw [List.forall_mem_cons] at hpos ⊢
    rw [Area.layout, List.flatMap_cons, List.length_append, Area.room, List.map_cons, List.sum_cons] at h
    have hrest : (A.layout ps).length ≤ A.room ps := layout_length_le
    have hhead : (A.landing p.1 p.2).length ≤ padded A.pageSize p.2 := List.length_take_le _ _
    have hall : (A.landing p.1 p.2).length ≤ (A.usable p.1).length := List.length_take_le' _ _
    have hlayout : (A.layout ps).length = (ps.flatMap fun p => A.landing p.1 p.2).length := rfl
    have hroom : A.room ps = (ps.map fun p => padded A.pageSize p.2).sum := rfl
    exact ⟨⟨hpos.1, by omega⟩, ih hpos.2 (by omega)⟩

theorem inTurn_layout (h : A.InTurn v ps) (hfit : ∀ p ∈ ps, A.Fits p) :
    A.layout ps = (A.usable v).take (A.room ps) := by
  rw [inTurn_split h hfit, ← layout_length hfit, List.take_left]

theorem behind_inTurn {o : ℕ} {E : List ℕ} (ho : o ≤ v) (hsplit : A.usable o = E ++ A.usable v)
    (h : A.Behind v ps) (hfit : ∀ p ∈ ps, A.Fits p) (hnodup : (E ++ A.layout ps).Nodup)
    (hfrom : ∀ a ∈ A.layout ps, o ≤ a) : A.InTurn v ps := by
  induction ps generalizing v E with
  | nil => trivial
  | cons p ps ih =>
    obtain ⟨w, n⟩ := p
    obtain ⟨hle, hrest⟩ := h
    have hp : A.Fits (w, n) := hfit _ List.mem_cons_self
    have hlay : A.layout ((w, n) :: ps) = A.landing w n ++ A.layout ps := rfl
    rw [hlay] at hnodup hfrom
    have heq : A.usable w = A.usable v := by
      apply usable_passed hle
      intro a h1 h2 h3
      by_contra hgood
      -- the first byte landed on would lie in front of `v`, where all is taken
      obtain ⟨x, rest, hx⟩ : ∃ x rest, A.usable w = x :: rest := by
        cases hu : A.usable w with
        | nil =>
          have hmem : a ∈ A.usable w := mem_usable.mpr ⟨h1, h3, by simpa using hgood⟩
          rw [hu] at hmem
          cases hmem
        | cons x rest => exact ⟨x, rest, rfl⟩
      have hxw : x ∈ A.usable w := by rw [hx]; exact List.mem_cons_self
      have hxl : x ∈ A.landing w n := by
        have hpos := hp.1
        have hle := le_padded A.pageSize n
        obtain ⟨k, hk⟩ : ∃ k, padded A.pageSize n = k + 1 := ⟨padded A.pageSize n - 1, by simp only at hpos; omega⟩
        rw [Area.landing, hx, hk, List.take_succ_cons]
        exact List.mem_cons_self
      have hxa : x ≤ a := by
        have hmem : a ∈ A.usable w := mem_usable.mpr ⟨h1, h3, by simpa using hgood⟩
        have hsorted : (A.usable w).Pairwise (· < ·) := usable_sorted
        rw [hx] at hmem hsorted
        rcases List.mem_cons.mp hmem with rfl | hmem
        · exact le_rfl
        · exact ((List.pairwise_cons.mp hsorted).1 a hmem).le
      have hxo : x ∈ A.usable o := mem_usable.mpr
        ⟨hfrom x (List.mem_append_left _ hxl), (mem_usable.mp hxw).2⟩
      rw [hsplit] at hxo
      rcases List.mem_append.mp hxo with hE | hv
      · exact (List.nodup_append.mp hnodup).2.2 x hE x (List.mem_append_left _ hxl) rfl
      · have := (mem_usable.mp hv).1
        omega
    refine ⟨heq, ih (E := E ++ A.landing w n) ?_ ?_ hrest (fun q hq => hfit q (List.mem_cons_of_mem _ hq)) ?_ ?_⟩
    · have := (stop_pred hp).1
      have h1 := hfrom _ (List.mem_append_left _ this)
      omega
    · rw [hsplit, ← heq, landing_split hp, List.append_assoc]
    · rwa [List.append_assoc]
    · exact fun a ha => hfrom a (List.mem_append_right _ ha)

theorem inTurn_head (w : ℕ) : A.InTurn v ((w, n) :: ps) ↔ A.usable w = A.usable v ∧ A.InTurn w ((w, n) :: ps) := by
  simp only [Area.InTurn, true_and]

theorem behind_append : A.Behind v (ps ++ qs) ↔ A.Behind v ps ∧ A.Behind (A.finish v ps) qs := by
  induction ps generalizing v with
  | nil => simp [Area.Behind, Area.finish]
  | cons p ps ih => simp only [List.cons_append, Area.Behind, Area.finish, ih, and_assoc]

theorem layout_from (h : ∀ p ∈ ps, w ≤ p.1) : ∀ a ∈ A.layout ps, w ≤ a := by
  intro a ha
  obtain ⟨p, hp, hland⟩ := List.mem_flatMap.mp ha
  exact (h p hp).trans (mem_usable.mp (List.mem_of_mem_take hland)).1

theorem layout_lt : ∀ a ∈ A.layout ps, a < A.size := by
  intro a ha
  obtain ⟨p, -, hland⟩ := List.mem_flatMap.mp ha
  exact (mem_usable.mp (List.mem_of_mem_take hland)).2.1

theorem layout_append : A.layout (ps ++ qs) = A.layout ps ++ A.layout qs := List.flatMap_append

theorem finish_last (hne : ps ≠ []) (hfit : ∀ p ∈ ps, A.Fits p) :
    ∃ a, (A.layout ps).getLast? = some a ∧ A.finish v ps = a + 1 := by
  induction ps generalizing v with
  | nil => exact absurd rfl hne
  | cons p ps ih =>
    rw [List.forall_mem_cons] at hfit
    obtain ⟨a, ha, hstop⟩ := landing_last hfit.1
    rw [Area.layout, List.flatMap_cons, List.getLast?_append]
    cases ps with
    | nil => exact ⟨a, by simpa using ha, hstop⟩
    | cons q ps =>
      obtain ⟨x, hx, hfinish⟩ := ih (v := A.stop p.1 p.2) (List.cons_ne_nil _ _) hfit.2
      exact ⟨x, by rw [Area.layout] at hx; rw [hx, Option.some_or], hfinish⟩

theorem room_append : A.room (ps ++ qs) = A.room ps + A.room qs := by
  rw [Area.room, List.map_append, List.sum_append, Area.room, Area.room]

section Pieces

variable {B fuel : ℕ}

theorem pieces_zero (B fuel w : ℕ) : pieces B fuel w 0 = [] := by cases fuel <;> rfl

theorem pieces_succ (hn : 0 < n) : pieces B (fuel + 1) w n = (w, min n B) :: pieces B fuel (w + B) (n - B) := by
  obtain ⟨k, rfl⟩ : ∃ k, n = k + 1 := ⟨n - 1, by omega⟩
  rfl

theorem pieces_head (hn : 0 < n) (hf : n ≤ fuel) : ∃ m ps, pieces B fuel w n = (w, m) :: ps := by
  obtain ⟨k, rfl⟩ : ∃ k, fuel = k + 1 := ⟨fuel - 1, by omega⟩
  exact ⟨_, _, pieces_succ hn⟩

theorem pieces_pos (hB : 0 < B) : ∀ p ∈ pieces B fuel w n, 0 < p.2 := by
  induction fuel generalizing w n with
  | zero => cases n <;> simp [pieces]
  | succ fuel ih =>
    rcases Nat.eq_zero_or_pos n with rfl | hn
    · simp [pieces]
    · rw [pieces_succ hn, List.forall_mem_cons]
      exact ⟨lt_min hn hB, ih⟩

theorem pieces_from : ∀ p ∈ pieces B fuel w n, w ≤ p.1 := by
  induction fuel generalizing w n with
  | zero => cases n <;> simp [pieces]
  | succ fuel ih =>
    rcases Nat.eq_zero_or_pos n with rfl | hn
    · simp [pieces]
    · rw [pieces_succ hn, List.forall_mem_cons]
      exact ⟨le_rfl, fun p hp => (Nat.le_add_right w B).trans (ih p hp)⟩

theorem pieces_room (hB : A.pageSize ∣ B) (h0 : 0 < B) (hf : n ≤ fuel) :
    A.room (pieces B fuel w n) = padded A.pageSize n := by
  induction fuel generalizing w n with
  | zero =>
    obtain rfl : n = 0 := by omega
    rw [pieces_zero, padded_dvd (dvd_zero _)]
    rfl
  | succ fuel ih =>
    rcases Nat.eq_zero_or_pos n with rfl | hn
    · rw [pieces_zero, padded_dvd (dvd_zero _)]
      rfl
    · have hrest : A.room (pieces B fuel (w + B) (n - B)) = padded A.pageSize (n - B) := ih (by omega)
      rw [pieces_succ hn, Area.room, List.map_cons, List.sum_cons]
      change _ + A.room _ = _
      rw [hrest]
      rcases Nat.le_total n B with hle | hle
      · rw [min_eq_left hle, Nat.sub_eq_zero_of_le hle, padded_dvd (dvd_zero _), Nat.add_zero]
      · rw [min_eq_right hle, padded_dvd hB, ← padded_add hB, Nat.add_sub_cancel' hle]

theorem behind_pieces (hB : A.pageSize ∣ B) (hf : n ≤ fuel) (hw : w ≤ v)
    (hfit : ∀ p ∈ pieces B fuel w n, A.Fits p) : A.Behind v (pieces B fuel w n) := by
  induction fuel generalizing v w n with
  | zero =>
    obtain rfl : n = 0 := by omega
    rw [pieces_zero]
    trivial
  | succ fuel ih =>
    rcases Nat.eq_zero_or_pos n with rfl | hn
    · rw [pieces_zero]
      trivial
    · rw [pieces_succ hn, List.forall_mem_cons] at hfit
      rw [pieces_succ hn]
      refine ⟨hw, ?_⟩
      rcases Nat.le_total n B with hle | hle
      · rw [Nat.sub_eq_zero_of_le hle, pieces_zero]
        trivial
      · rw [min_eq_right hle] at hfit ⊢
        rcases Nat.eq_zero_or_pos B with rfl | hpos
        · have := hfit.1.1
          simp only at this
          omega
        · apply ih (by omega) _ hfit.2
          have := landing_le_stop hfit.1
          rwa [padded_dvd hB] at this

theorem stop_block (hB : A.pageSize ∣ B) (hfit : A.Fits (w, B)) :
    A.usable (w + B) = A.usable (A.stop w B) ↔ ∀ a, w ≤ a → a < w + B → A.bad (a / A.blockSize) = false := by
  have hlen := landing_length hfit
  rw [padded_dvd hB] at hlen
  constructor
  · intro heq a h1 h2
    have hle := landing_le_stop hfit
    rw [padded_dvd hB] at hle
    have hstop : A.stop w B = w + B := by
      by_contra hne
      exact usable_stop_ne hfit (by omega) heq
    have hnodup : (A.landing w B).Nodup := (usable_sorted.imp Nat.ne_of_lt).sublist (List.take_sublist _ _)
    have hsub : A.landing w B ⊆ List.range' w B := by
      intro x hx
      obtain ⟨h3, h4⟩ := lt_stop hfit hx
      exact List.mem_range'_1.mpr ⟨h3, by omega⟩
    have hperm := (List.subperm_of_subset hnodup hsub).perm_of_length_le (by rw [hlen, List.length_range'])
    have hmem : a ∈ A.landing w B := hperm.mem_iff.mpr (List.mem_range'_1.mpr ⟨h1, h2⟩)
    exact (mem_usable.mp (List.mem_of_mem_take hmem)).2.2
  · intro hgood
    have hroom : B ≤ A.size - w := by
      have h1 := hfit.2
      rw [padded_dvd hB] at h1
      exact h1.trans ((List.length_filter_le _ _).trans_eq List.length_range')
    have hpos := hfit.1
    have hsplit : A.usable w = List.range' w B ++ A.usable (w + B) := by
      have h := @GoodBlocks.usable_split A.bad A.blockSize A.size w (w + B) (Nat.le_add_right w B)
        (by simp only at hpos; omega)
      rw [Nat.add_sub_cancel_left, List.filter_eq_self.mpr] at h
      · exact h
      · intro a ha
        obtain ⟨h1, h2⟩ := List.mem_range'_1.mp ha
        rw [hgood a h1 h2]
        rfl
    have hland : A.landing w B = List.range' w B := by
      rw [Area.landing, hsplit, padded_dvd hB, List.take_left' List.length_range']
    obtain ⟨a, ha, hstop⟩ := landing_last hfit
    rw [hland, List.getLast?_range'] at ha
    have hw : a = w + B - 1 := by
      split_ifs at ha with h0
      simpa [eq_comm] using ha
    simp only at hpos
    rw [hstop, hw, Nat.sub_add_cancel (by omega)]

theorem inTurn_pieces (hf : n ≤ fuel) (hfit : ∀ p ∈ pieces A.blockSize fuel w n, A.Fits p) :
    A.InTurn w (pieces A.blockSize fuel w n) ↔ A.Clean w n := by
  have hB := A.block_pos
  induction fuel generalizing w n with
  | zero =>
    obtain rfl : n = 0 := by omega
    simp only [pieces_zero, Area.InTurn, Area.Clean, Nat.zero_sub, Nat.zero_div, Nat.zero_mul, true_iff]
    omega
  | succ fuel ih =>
    rcases Nat.eq_zero_or_pos n with rfl | hn
    · simp only [pieces_zero, Area.InTurn, Area.Clean, Nat.zero_sub, Nat.zero_div, Nat.zero_mul, true_iff]
      omega
    · rw [pieces_succ hn] at hfit ⊢
      rw [List.forall_mem_cons] at hfit
      rcases Nat.lt_or_ge A.blockSize n with hlt | hle
      · have hdiv : (n - 1) / A.blockSize = (n - A.blockSize - 1) / A.blockSize + 1 := by
          rw [← Nat.add_div_right _ hB]
          congr 1
          omega
        have hrest : A.InTurn (w + A.blockSize) (pieces A.blockSize fuel (w + A.blockSize) (n - A.blockSize)) ↔
            A.Clean (w + A.blockSize) (n - A.blockSize) := ih (by omega) hfit.2
        rw [min_eq_right hlt.le] at hfit ⊢
        obtain ⟨m, ps, hps⟩ := pieces_head (B := A.blockSize) (w := w + A.blockSize)
          (show 0 < n - A.blockSize by omega) (show n - A.blockSize ≤ fuel by omega)
        have hhead : A.InTurn w ((w, A.blockSize) :: pieces A.blockSize fuel (w + A.blockSize) (n - A.blockSize)) ↔
            A.usable (w + A.blockSize) = A.usable (A.stop w A.blockSize) ∧
              A.InTurn (w + A.blockSize) (pieces A.blockSize fuel (w + A.blockSize) (n - A.blockSize)) := by
          rw [hps, ← inTurn_head]
          simp only [Area.InTurn, true_and]
        rw [hhead, hrest, stop_block A.page_dvd hfit.1, Area.Clean, Area.Clean, hdiv, Nat.add_mul, Nat.one_mul]
        constructor
        · rintro ⟨hfirst, hbehind⟩ a h1 h2
          rcases Nat.lt_or_ge a (w + A.blockSize) with h | h
          · exact hfirst a h1 h
          · exact hbehind a h (by omega)
        · intro hall
          exact ⟨fun a h1 h2 => hall a h1 (by omega), fun a h1 h2 => hall a (by omega) (by omega)⟩
      · rw [Nat.sub_eq_zero_of_le hle, pieces_zero]
        simp only [Area.InTurn, Area.Clean, Nat.div_eq_of_lt (show n - 1 < A.blockSize by omega), Nat.zero_mul, true_and,
          true_iff]
        omega

theorem finish_pieces (hB : A.pageSize ∣ B) (h0 : 0 < B) (hn : 0 < n) (hf : n ≤ fuel)
    (h : A.InTurn w (pieces B fuel w n)) (hfit : ∀ p ∈ pieces B fuel w n, A.Fits p) :
    A.finish w (pieces B fuel w n) = A.stop w n := by
  have hlayout : A.layout (pieces B fuel w n) = A.landing w n := by
    rw [inTurn_layout h hfit, pieces_room hB h0 hf]
    rfl
  obtain ⟨m, ps, hps⟩ := pieces_head (B := B) (w := w) hn hf
  obtain ⟨a, ha, hfinish⟩ := finish_last (v := w) (by rw [hps]; exact List.cons_ne_nil _ _) hfit
  rw [hlayout] at ha
  rw [hfinish, Area.stop, ha]

end Pieces

end LinuxRecovery.Placement
