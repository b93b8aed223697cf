import LinuxRecovery.MergeImages

namespace LinuxRecovery.ImageAttachment

open CircularLists UpdateFile MergeImages

def Attaches (parts : List PartItem) (images : List ImageInfo) (n : ℕ) : Prop :=
  ∃ st, mergeImginfoIntoPartinfo parts images = some (0, st) ∧
    ∀ k < n, ∃ i xs, Circular st.links (.part i) xs ∧ .image k ∈ xs

def Successive (parts : List PartItem) : Prop :=
  parts.Pairwise (fun p q => min (PartItem.stop p) (2 ^ 64 - 1) ≤ q.offset.toNat)

def Ascending (s : List (ImageInfo × ℕ)) : Prop := s.Pairwise (fun x y => x.1.offset.toNat ≤ y.1.offset.toNat)

section Fits

variable {p q : PartItem} {image : ImageInfo}

theorem fits_stop_lt (h : Fits p image) : PartItem.stop p < 2 ^ 64 := by
  obtain ⟨h1, h2, -⟩ := h
  rw [UInt64.le_iff_toNat_le] at h1
  rw [UInt64.lt_iff_toNat_lt, rightBoundary, UInt64.toNat_add] at h2
  have hsize := p.size.toNat_lt
  have hoffset := p.offset.toNat_lt
  unfold PartItem.stop
  by_contra hstop
  omega

theorem fits_lt_stop (h : Fits p image) : image.offset.toNat < PartItem.stop p := by
  have h2 := h.2.1
  rwa [UInt64.lt_iff_toNat_lt, rightBoundary_toNat (fits_stop_lt h)] at h2

theorem fits_behind (h : Fits q image) (hpq : min (PartItem.stop p) (2 ^ 64 - 1) ≤ q.offset.toNat) :
    p.offset ≤ image.offset ∧ rightBoundary p ≤ image.offset := by
  have h1 := h.1
  rw [UInt64.le_iff_toNat_le] at h1
  have hsize := p.size.toNat_lt
  have hoffset := p.offset.toNat_lt
  rw [UInt64.le_iff_toNat_le, UInt64.le_iff_toNat_le, rightBoundary, UInt64.toNat_add]
  unfold PartItem.stop at hpq
  omega

theorem fits_not_later (h : Fits p image) (hpq : min (PartItem.stop p) (2 ^ 64 - 1) ≤ q.offset.toNat) :
    image.offset < q.offset := by
  have hlt := fits_lt_stop h
  have hstop := fits_stop_lt h
  rw [UInt64.lt_iff_toNat_lt]
  omega

end Fits

structure Filled (parts : List PartItem) (s : List (ImageInfo × ℕ)) (i : ℕ) (st st' : MergeState)
    (lists : List (List (ImageInfo × ℕ))) : Prop where
  circular : ∀ (j : ℕ) l, lists[j]? = some l → Circular st'.links (.part (i + j)) (imageNodes l)
  fits : ∀ l ∈ lists, ∀ x ∈ l, x ∈ s ∧ ∃ p ∈ parts, Fits p x.1
  unreached : ∀ j, i + lists.length ≤ j → st'.links.next (.part j) = st.links.next (.part j)
  frame : ∀ n, (∀ j, i ≤ j → n ≠ .part j) → n ∉ imageNodes s → Untouched st st' n

variable {all s : List (ImageInfo × ℕ)} {parts : List PartItem} {posContinue : Option (List (ImageInfo × ℕ))}
  {i : ℕ} {st : MergeState}

theorem filled_nil : Filled parts s i st st [] where
  circular j l h := by simp at h
  fits l h := by simp at h
  unreached _ _ := rfl
  frame _ _ _ := ⟨rfl, rfl⟩

theorem Filled.cons {p : PartItem} {a b : List (ImageInfo × ℕ)} {st₁ st' : MergeState}
    {lists : List (List (ImageInfo × ℕ))} (ha : ∀ x ∈ a, Fits p x.1) (hc : Circular st₁.links (.part i) (imageNodes a))
    (hframe : ∀ n, n ≠ .part i → n ∉ imageNodes a → Untouched st st₁ n)
    (hdisj : ∀ n ∈ imageNodes a, n ∉ imageNodes b) (h : Filled parts b (i + 1) st₁ st' lists) :
    Filled (p :: parts) (a ++ b) i st st' (a :: lists) where
  circular j l hj := by
    cases j with
    | zero =>
      obtain rfl : a = l := by simpa using hj
      refine hc.congr (fun n hn => h.frame n ?_ ?_)
      · rintro m hm rfl
        rcases List.mem_cons.mp hn with he | hn
        · simp only [ListHead.part.injEq] at he
          omega
        · exact part_notMem m a hn
      · rcases List.mem_cons.mp hn with rfl | hn
        · exact part_notMem i b
        · exact hdisj n hn
    | succ j =>
      rw [show i + (j + 1) = i + 1 + j by omega]
      exact h.circular j l (by simpa using hj)
  fits l hl x hx := by
    rcases List.mem_cons.mp hl with rfl | hl
    · exact ⟨by simp [hx], p, by simp, ha x hx⟩
    · obtain ⟨hmem, q, hq, hfit⟩ := h.fits l hl x hx
      exact ⟨by simp [hmem], q, by simp [hq], hfit⟩
  unreached j hj := by
    rw [List.length_cons] at hj
    rw [h.unreached j (by omega), (hframe (.part j) (by simp; omega) (part_notMem j a)).1]
  frame n hn hmem := by
    rw [imageNodes, List.map_append, List.mem_append, not_or] at hmem
    exact (hframe n (hn i le_rfl) hmem.1).trans (h.frame n (fun j hj => hn j (by omega)) hmem.2)

variable (i st) in
theorem mergeInner_misfit {p : PartItem} {y : ImageInfo × ℕ} (hy : ¬Fits p y.1) (b : List (ImageInfo × ℕ)) :
    (mergeInner i p (y :: b) st = some (.returned 0, st) ∧ y.1.offset < p.offset) ∨
      (mergeInner i p (y :: b) st = some (.left (y :: b), st) ∧ rightBoundary p ≤ y.1.offset) ∨
      (mergeInner i p (y :: b) st = some (.returned (-1), st) ∧ y.1.offset < rightBoundary p) := by
  obtain ⟨image, k⟩ := y
  dsimp only at hy ⊢
  by_cases h1 : image.offset < p.offset
  · exact .inl ⟨by rw [mergeInner, if_pos h1], h1⟩
  · by_cases h2 : rightBoundary p ≤ image.offset
    · exact .inr (.inl ⟨by rw [mergeInner, if_neg h1, if_pos h2], h2⟩)
    · have h3 : rightBoundary p < image.offset + image.size := by
        by_contra h3
        exact hy ⟨UInt64.not_lt.mp h1, UInt64.not_le.mp h2, UInt64.not_lt.mp h3⟩
      exact .inr (.inr ⟨by rw [mergeInner, if_neg h1, if_neg h2, if_pos h3], UInt64.not_le.mp h2⟩)

/-- The merge fills lists with images that fit, and with all of them if each fits somewhere. -/
def Serves (all : List (ImageInfo × ℕ)) (i : ℕ) (parts : List PartItem)
    (posContinue : Option (List (ImageInfo × ℕ))) (s : List (ImageInfo × ℕ)) (st : MergeState) : Prop :=
  ∃ r st' lists, mergeParts all i parts posContinue st = some (r, st') ∧ Filled parts s i st st' lists ∧
    (Ascending s → (∀ x ∈ s, ∃ p ∈ parts, Fits p x.1) → r = 0 ∧ ∀ x ∈ s, ∃ l ∈ lists, x ∈ l)

theorem mergeParts_serves (hs : posContinue.getD all = s) (hparts : Successive parts)
    (hnodup : (imageNodes s).Nodup) : Serves all i parts posContinue s st := by
  induction parts generalizing s posContinue i st with
  | nil =>
    refine ⟨0, st, [], rfl, filled_nil, fun _ hfit => ⟨rfl, fun x hx => ?_⟩⟩
    obtain ⟨q, hq, -⟩ := hfit x hx
    cases hq
  | cons p parts ih =>
    obtain ⟨hbehind, hrest⟩ := List.pairwise_cons.mp hparts
    let taken : ImageInfo × ℕ → Bool := fun x => decide (Fits p x.1)
    let st₀ : MergeState := { st with links := initListHead (.part i) st.links }
    have hinit : Circular st₀.links (.part i) [] := circular_init (.part i) st.links
    have hinit' (n : ListHead) (hn : n ≠ .part i) : Untouched st st₀ n := init_other hn st.links
    obtain ⟨a, t, hat, ha, ht⟩ : ∃ a t, s = a ++ t ∧ (∀ x ∈ a, Fits p x.1) ∧ ∀ y ∈ t.head?, ¬Fits p y.1 := by
      refine ⟨s.takeWhile taken, s.dropWhile taken, List.takeWhile_append_dropWhile.symm, fun x hx => ?_, fun y hy => ?_⟩
      · simpa [taken] using List.mem_takeWhile_imp hx
      · have hne : s.dropWhile taken ≠ [] := by
          rintro hnil
          rw [hnil] at hy
          cases hy
        have hhead := List.head_dropWhile_not taken (l := s) hne
        rw [List.head?_eq_some_head hne] at hy
        cases hy
        simpa [taken] using hhead
    subst hat
    obtain ⟨hnodupA, hnodupT, hdisj⟩ := imageNodes_nodup hnodup
    obtain ⟨st₁, hattach, hc, hun⟩ := mergeInner_attach (b := t) ha hinit (by simpa using hnodupA)
    have hframe : ∀ n, n ≠ .part i → n ∉ imageNodes a → Untouched st st₁ n :=
      fun n hn hmem => (hinit' n hn).trans (hun n hn (by simpa using hmem))
    have hc' : Circular st₁.links (.part i) (imageNodes a) := by simpa using hc
    have hfilled {st' : MergeState} {lists : List (List (ImageInfo × ℕ))}
        (h : Filled parts t (i + 1) st₁ st' lists) : Filled (p :: parts) (a ++ t) i st st' (a :: lists) :=
      h.cons ha hc' hframe hdisj
    cases t with
    | nil =>
      have hrun : mergeParts all i (p :: parts) posContinue st = mergeParts all (i + 1) parts posContinue st₁ := by
        rw [mergeParts, hs, hattach, mergeInner]
      have hall (lists : List (List (ImageInfo × ℕ))) : ∀ x ∈ a ++ [], ∃ l ∈ a :: lists, x ∈ l :=
        fun x hx => ⟨a, by simp, by simpa using hx⟩
      cases a with
      | nil =>
        have hserves : Serves all (i + 1) parts posContinue [] st₁ := ih hs hrest List.nodup_nil
        obtain ⟨r, st', lists, hrun', hf, hdone⟩ := hserves
        obtain ⟨hr, -⟩ := hdone .nil (by simp)
        exact ⟨r, st', [] :: lists, hrun.trans hrun', hfilled hf, fun _ _ => ⟨hr, hall lists⟩⟩
      | cons x a =>
        cases parts with
        | nil => exact ⟨0, st₁, [x :: a], hrun, hfilled filled_nil, fun _ _ => ⟨rfl, hall []⟩⟩
        | cons q parts =>
          have hlt : x.1.offset < q.offset := fits_not_later (ha x (by simp)) (hbehind q (by simp))
          let st₂ : MergeState := { st₁ with links := initListHead (.part (i + 1)) st₁.links }
          have hrun' : mergeParts all (i + 1) (q :: parts) posContinue st₁ = some (0, st₂) := by
            rw [mergeParts, hs, List.append_nil, mergeInner_before (UInt64.lt_iff_toNat_lt.mp hlt)]
          have hframe' : ∀ n, n ≠ .part (i + 1) → n ∉ imageNodes [] → Untouched st₁ st₂ n :=
            fun n hn _ => init_other hn st₁.links
          have hnext : Filled (q :: parts) [] (i + 1) st₁ st₂ [[]] :=
            Filled.cons (p := q) (a := []) (b := []) (by simp) (circular_init (.part (i + 1)) st₁.links) hframe'
              (by simp [imageNodes]) filled_nil
          exact ⟨0, st₂, [x :: a, []], hrun.trans hrun', hfilled hnext, fun _ _ => ⟨rfl, hall [[]]⟩⟩
    | cons y b =>
      have hlater (hfit : ∀ x ∈ a ++ y :: b, ∃ q ∈ p :: parts, Fits q x.1) :
          p.offset ≤ y.1.offset ∧ rightBoundary p ≤ y.1.offset := by
        obtain ⟨q, hq, hy⟩ := hfit y (by simp)
        rcases List.mem_cons.mp hq with rfl | hq
        · exact absurd hy (ht y rfl)
        · exact fits_behind hy (hbehind q hq)
      rcases mergeInner_misfit i st₁ (ht y rfl) b with ⟨hin, hlt⟩ | ⟨hin, hle⟩ | ⟨hin, hlt⟩
      · refine ⟨0, st₁, [a], by rw [mergeParts, hs, hattach, hin], hfilled filled_nil, fun _ hfit => ?_⟩
        exact absurd hlt (UInt64.not_lt.mpr (hlater hfit).1)
      · have hserves : Serves all (i + 1) parts (some (y :: b)) (y :: b) st₁ := ih rfl hrest hnodupT
        obtain ⟨r, st', lists, hrun, hf, hdone⟩ := hserves
        refine ⟨r, st', a :: lists, by rw [mergeParts, hs, hattach, hin]; exact hrun, hfilled hf, fun hasc hfit => ?_⟩
        have hasc' := (List.pairwise_append.mp hasc).2.1
        have hfit' : ∀ x ∈ y :: b, ∃ q ∈ parts, Fits q x.1 := by
          intro x hx
          obtain ⟨q, hq, hx'⟩ := hfit x (by simp [hx])
          rcases List.mem_cons.mp hq with rfl | hq
          · rw [UInt64.le_iff_toNat_le] at hle
            have h2 := UInt64.lt_iff_toNat_lt.mp hx'.2.1
            rcases List.mem_cons.mp hx with rfl | hx
            · omega
            · have := (List.pairwise_cons.mp hasc').1 x hx
              omega
          · exact ⟨q, hq, hx'⟩
        obtain ⟨hr, hall⟩ := hdone hasc' hfit'
        refine ⟨hr, fun x hx => ?_⟩
        rcases List.mem_append.mp hx with hx | hx
        · exact ⟨a, by simp, hx⟩
        · obtain ⟨l, hl, hxl⟩ := hall x hx
          exact ⟨l, by simp [hl], hxl⟩
      · refine ⟨-1, st₁, [a], by rw [mergeParts, hs, hattach, hin], hfilled filled_nil, fun _ hfit => ?_⟩
        exact absurd hlt (UInt64.not_lt.mpr (hlater hfit).2)

theorem attaches_iff_fits {images : List ImageInfo} (hparts : Successive parts)
    (himages : images.Pairwise (fun a b => a.offset.toNat ≤ b.offset.toNat)) {n : ℕ} (hn : images.length ≤ n) :
    Attaches parts images n ↔ images.length = n ∧ ∀ image ∈ images, ∃ part ∈ parts, Fits part image := by
  let st₀ : MergeState := ⟨null, fun _ => 0, fun _ => 0⟩
  have hserves : Serves images.zipIdx 0 parts none images.zipIdx st₀ :=
    mergeParts_serves rfl hparts imageNodes_zipIdx_nodup
  obtain ⟨r, st, lists, hrun, hfilled, hdone⟩ := hserves
  have hheld {k i : ℕ} {xs : List ListHead} (hc : Circular st.links (.part i) xs) (hk : .image k ∈ xs) :
      ∃ image, images[k]? = some image ∧ ∃ p ∈ parts, Fits p image := by
    cases hl : lists[i]? with
    | none =>
      have hnull := hfilled.unreached i (by have := List.getElem?_eq_none_iff.mp hl; omega)
      exact absurd hc (not_circular_null hnull)
    | some l =>
      have hc' := hfilled.circular i l hl
      rw [Nat.zero_add] at hc'
      rw [hc.unique hc'] at hk
      obtain ⟨x, hx, hxk⟩ := List.mem_map.mp hk
      obtain ⟨hmem, hfit⟩ := hfilled.fits l (List.mem_of_getElem? hl) x hx
      obtain rfl : x.2 = k := by simpa using hxk
      exact ⟨x.1, List.mem_zipIdx_iff_getElem?.mp hmem, hfit⟩
  constructor
  · rintro ⟨st', hrun', hall⟩
    rw [mergeImginfoIntoPartinfo, hrun] at hrun'
    cases hrun'
    have hlen : images.length = n := by
      by_contra hne
      obtain ⟨i, xs, hc, hk⟩ := hall images.length (by omega)
      obtain ⟨image, himage, -⟩ := hheld hc hk
      simp at himage
    refine ⟨hlen, fun image himage => ?_⟩
    obtain ⟨k, hk, rfl⟩ := List.mem_iff_getElem.mp himage
    obtain ⟨i, xs, hc, hmem⟩ := hall k (by omega)
    obtain ⟨image, hget, hfit⟩ := hheld hc hmem
    rw [List.getElem?_eq_getElem hk] at hget
    cases hget
    exact hfit
  · rintro ⟨rfl, hfit⟩
    have hasc : Ascending images.zipIdx := by
      rw [Ascending, ← List.pairwise_map (f := Prod.fst) (R := fun a b : ImageInfo => a.offset.toNat ≤ b.offset.toNat),
        List.zipIdx_map_fst]
      exact himages
    have hfit' : ∀ x ∈ images.zipIdx, ∃ p ∈ parts, Fits p x.1 := fun x hx =>
      hfit x.1 (List.mem_of_getElem? (List.mem_zipIdx_iff_getElem?.mp hx))
    obtain ⟨rfl, hall⟩ := hdone hasc hfit'
    refine ⟨st, hrun, fun k hk => ?_⟩
    obtain ⟨l, hl, hx⟩ := hall (images[k], k) (List.mem_zipIdx_iff_getElem?.mpr (List.getElem?_eq_getElem hk))
    obtain ⟨j, hj, rfl⟩ := List.mem_iff_getElem.mp hl
    have hc := hfilled.circular j _ (List.getElem?_eq_getElem hj)
    exact ⟨0 + j, _, hc, List.mem_map.mpr ⟨_, hx, rfl⟩⟩

end LinuxRecovery.ImageAttachment
