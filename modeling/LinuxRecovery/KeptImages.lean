import LinuxRecovery.MergeRuns

namespace LinuxRecovery.KeptImages

open CircularLists UpdateFile MergeImages MergeRuns

def Contains (p : PartItem) (image : ImageInfo) : Prop :=
  p.offset.toNat ≤ image.offset.toNat ∧ image.offset.toNat < PartItem.stop p

def InList (st : MergeState) (j k : ℕ) : Prop := Reaches st.links (.part j) (.image k)

structure KeepsAll (parts : List PartItem) (images : List ImageInfo) (st : MergeState) : Prop where
  inOne : ∀ k image, images[k]? = some image →
    ∃ i p, parts[i]? = some p ∧ Contains p image ∧ ∀ j < parts.length, InList st j k ↔ j = i
  imageCount : ∑ j ∈ Finset.range parts.length, (st.imageCount j).toNat = images.length
  totalChunks : ∑ j ∈ Finset.range parts.length, (st.totalChunks j).toNat =
    (images.map (fun image => image.chunkcount.toNat)).sum

/-- A merge that returns 0 has every image in the one list of the partition around it, and counted. -/
def NeverDrops (parts : List PartItem) (images : List ImageInfo) : Prop :=
  ∀ st, mergeImginfoIntoPartinfo parts images = some (0, st) → KeepsAll parts images st

/-- The first image that does not fit a partition starts in it and ends behind it. -/
def Refuses : List PartItem → List (ImageInfo × ℕ) → Prop
  | [], _ => False
  | p :: parts, s =>
    match remaining p s with
    | [] => Refuses parts s
    | x :: b => p.offset ≤ x.1.offset ∧ (rightBoundary p ≤ x.1.offset → Refuses parts (x :: b))

def Passes : List PartItem → ImageInfo → Prop
  | [], _ => True
  | p :: parts, image => image.offset < p.offset ∨ rightBoundary p ≤ image.offset ∧ Passes parts image

/-- Behind the images of a partition come those of the next one, and the images of the last partition
served start before the partitions that follow. -/
def Places : List PartItem → List (ImageInfo × ℕ) → Prop
  | [], s => s = []
  | p :: parts, s =>
    match remaining p s with
    | [] => ∀ x ∈ s.head?, Passes parts x.1
    | x :: b => p.offset ≤ x.1.offset ∧ rightBoundary p ≤ x.1.offset ∧ Places parts (x :: b)

def share : List PartItem → List (ImageInfo × ℕ) → ℕ → List (ImageInfo × ℕ)
  | [], _, _ => []
  | p :: _, s, 0 => fitting p s
  | p :: parts, s, j + 1 => share parts (remaining p s) j

/-- The numbers of images and of chunks of each partition fit the `uint32_t` counters. -/
def CountsFit (parts : List PartItem) (s : List (ImageInfo × ℕ)) : Prop :=
  ∀ j < parts.length, (share parts s j).length < 2 ^ 32 ∧
    ((share parts s j).map (fun x => x.1.chunkcount.toNat)).sum < 2 ^ 32

section Shares

variable {p : PartItem} {parts : List PartItem} {s : List (ImageInfo × ℕ)}

theorem share_nil (parts : List PartItem) (j : ℕ) : share parts [] j = [] := by
  induction parts generalizing j with
  | nil => rfl
  | cons p parts ih =>
    cases j with
    | zero => rfl
    | succ j => exact ih j

theorem fitting_all (h : remaining p s = []) : fitting p s = s := by
  have := fitting_append_remaining p s
  rwa [h, List.append_nil] at this

theorem Places.split (h : Places (p :: parts) s) : remaining p s = [] ∨ Places parts (remaining p s) := by
  unfold Places at h
  cases hb : remaining p s with
  | nil => exact .inl rfl
  | cons x b =>
    rw [hb] at h
    exact .inr h.2.2

theorem Places.share_mem (h : Places parts s) {x : ImageInfo × ℕ} (hx : x ∈ s) :
    ∃ j q, parts[j]? = some q ∧ Fits q x.1 ∧ x ∈ share parts s j := by
  induction parts generalizing s with
  | nil =>
    rw [Places] at h
    simp [h] at hx
  | cons p parts ih =>
    rw [← fitting_append_remaining p s, List.mem_append] at hx
    rcases hx with hx | hx
    · exact ⟨0, p, rfl, fitting_fits hx, hx⟩
    · rcases h.split with hnil | hrest
      · simp [hnil] at hx
      · obtain ⟨j, q, hj, hfits, hmem⟩ := ih hrest hx
        exact ⟨j + 1, q, hj, hfits, hmem⟩

theorem share_sublist (parts : List PartItem) (s : List (ImageInfo × ℕ)) (j : ℕ) : (share parts s j).Sublist s := by
  induction parts generalizing s j with
  | nil => exact List.nil_sublist s
  | cons p parts ih =>
    cases j with
    | zero => exact List.takeWhile_sublist _
    | succ j => exact (ih (remaining p s) j).trans (List.dropWhile_sublist _)

theorem share_unique (hnodup : (imageNodes s).Nodup) {j j' : ℕ} {n : ListHead}
    (hj : n ∈ imageNodes (share parts s j)) (hj' : n ∈ imageNodes (share parts s j')) : j = j' := by
  induction parts generalizing s j j' with
  | nil => simp [share, imageNodes] at hj
  | cons p parts ih =>
    obtain ⟨-, hrem, hdisj⟩ := imageNodes_split hnodup p
    have hlater {i : ℕ} (hi : n ∈ imageNodes (share parts (remaining p s) i)) : n ∈ imageNodes (remaining p s) :=
      ((share_sublist parts (remaining p s) i).map _).subset hi
    cases j with
    | zero =>
      cases j' with
      | zero => rfl
      | succ j' => exact absurd (hlater hj') (hdisj n hj)
    | succ j =>
      cases j' with
      | zero => exact absurd (hlater hj) (hdisj n hj')
      | succ j' => rw [ih hrem hj hj']

theorem Places.sum_share (h : Places parts s) (f : ImageInfo × ℕ → ℕ) :
    ∑ j ∈ Finset.range parts.length, ((share parts s j).map f).sum = (s.map f).sum := by
  induction parts generalizing s with
  | nil =>
    rw [Places] at h
    simp [h]
  | cons p parts ih =>
    have hrest : ∑ j ∈ Finset.range parts.length, ((share parts (remaining p s) j).map f).sum =
        ((remaining p s).map f).sum := by
      rcases h.split with hnil | hrest
      · simp [hnil, share_nil]
      · exact ih hrest
    have hsplit := congrArg (fun l => (l.map f).sum) (fitting_append_remaining p s)
    simp only [List.map_append, List.sum_append] at hsplit
    rw [List.length_cons, Finset.sum_range_succ']
    simp only [share]
    omega

end Shares

section Runs

variable {all s : List (ImageInfo × ℕ)} {posContinue : Option (List (ImageInfo × ℕ))} {p : PartItem}
  {parts : List PartItem} {i : ℕ} {st st' : MergeState}

theorem exitAt_before {x : ImageInfo × ℕ} {b : List (ImageInfo × ℕ)} (h : x.1.offset < p.offset) :
    exitAt p (x :: b) = .returned 0 := if_pos h

theorem exitAt_behind {x : ImageInfo × ℕ} {b : List (ImageInfo × ℕ)} (h : p.offset ≤ x.1.offset)
    (hright : rightBoundary p ≤ x.1.offset) : exitAt p (x :: b) = .left (x :: b) := by
  rw [exitAt, if_neg (UInt64.not_lt.mpr h), if_pos hright]

theorem exitAt_over {x : ImageInfo × ℕ} {b : List (ImageInfo × ℕ)} (h : p.offset ≤ x.1.offset)
    (hright : x.1.offset < rightBoundary p) : exitAt p (x :: b) = .returned (-1) := by
  rw [exitAt, if_neg (UInt64.not_lt.mpr h), if_neg (UInt64.not_le.mpr hright)]

theorem mergeParts_refuses (hs : posContinue.getD all = s) (hnodup : (imageNodes s).Nodup) (h : Refuses parts s)
    (i : ℕ) (st : MergeState) : ∃ st', mergeParts all i parts posContinue st = some (-1, st') := by
  induction parts generalizing s posContinue i st with
  | nil => exact h.elim
  | cons p parts ih =>
    obtain ⟨hfit, hrem, -⟩ := imageNodes_split hnodup p
    obtain ⟨st₁, hvisit, -⟩ := visit_spec i st hfit
    rw [mergeParts_cons all i p parts hs st, hvisit]
    unfold Refuses at h
    cases hb : remaining p s with
    | nil =>
      rw [hb] at h
      exact ih hs hnodup h (i + 1) st₁
    | cons x b =>
      rw [hb] at h hrem
      obtain ⟨hle, hlater⟩ := h
      rcases UInt64.lt_or_le x.1.offset (rightBoundary p) with hlt | hright
      · rw [exitAt_over hle hlt]
        exact ⟨st₁, rfl⟩
      · rw [exitAt_behind hle hright]
        have hpos : (some (x :: b)).getD all = x :: b := rfl
        exact ih hpos hrem (hlater hright) (i + 1) st₁

theorem mergeParts_accepts (hs : posContinue.getD all = s) (hnodup : (imageNodes s).Nodup) (h : ¬Refuses parts s)
    (i : ℕ) (st : MergeState) : ∃ st', mergeParts all i parts posContinue st = some (0, st') := by
  induction parts generalizing s posContinue i st with
  | nil => exact ⟨st, rfl⟩
  | cons p parts ih =>
    obtain ⟨hfit, hrem, -⟩ := imageNodes_split hnodup p
    obtain ⟨st₁, hvisit, -⟩ := visit_spec i st hfit
    rw [mergeParts_cons all i p parts hs st, hvisit]
    unfold Refuses at h
    cases hb : remaining p s with
    | nil =>
      rw [hb] at h
      exact ih hs hnodup h (i + 1) st₁
    | cons x b =>
      rw [hb] at h hrem
      rcases UInt64.lt_or_le x.1.offset p.offset with hlt | hle
      · rw [exitAt_before hlt]
        exact ⟨st₁, rfl⟩
      · have hright : rightBoundary p ≤ x.1.offset := by
          by_contra hn
          exact h ⟨hle, fun hright => absurd hright hn⟩
        rw [exitAt_behind hle hright]
        have hpos : (some (x :: b)).getD all = x :: b := rfl
        exact ih hpos hrem (fun hlater => h ⟨hle, fun _ => hlater⟩) (i + 1) st₁

theorem mergeParts_visits {R : MergeState → MergeState → Prop} (hrefl : ∀ a, R a a)
    (htrans : ∀ a b c, R a b → R b c → R a c) (hs : posContinue.getD all = s) (hnodup : (imageNodes s).Nodup)
    (hvisit : ∀ j a st st', i ≤ j → a.Sublist s → Visited j a st st' → R st st') {r : ℤ}
    (hrun : mergeParts all i parts posContinue st = some (r, st')) : R st st' := by
  induction parts generalizing s posContinue i st with
  | nil =>
    cases hrun
    exact hrefl st'
  | cons p parts ih =>
    obtain ⟨hfit, hrem, -⟩ := imageNodes_split hnodup p
    obtain ⟨st₁, hvisit₁, hvisited⟩ := visit_spec i st hfit
    rw [mergeParts_cons all i p parts hs st, hvisit₁] at hrun
    have hfirst : R st st₁ := hvisit i _ st st₁ le_rfl (List.takeWhile_sublist _) hvisited
    cases hexit : exitAt p (remaining p s) with
    | returned r' =>
      simp only [hexit] at hrun
      cases hrun
      exact hfirst
    | left pos =>
      obtain rfl := exitAt_left hexit
      simp only [hexit] at hrun
      have hpos : (some (remaining p s)).getD all = remaining p s := rfl
      apply htrans _ _ _ hfirst
      refine ih hpos hrem (fun j a st st' hj ha => hvisit j a st st' (by omega) ?_) hrun
      exact ha.trans (List.dropWhile_sublist _)
    | exhausted =>
      simp only [hexit] at hrun
      apply htrans _ _ _ hfirst
      exact ih hs hnodup (fun j a st st' hj => hvisit j a st st' (by omega)) hrun

theorem mergeParts_frame (hs : posContinue.getD all = s) (hnodup : (imageNodes s).Nodup) {r : ℤ}
    (hrun : mergeParts all i parts posContinue st = some (r, st')) {n : ListHead}
    (hn : ∀ j, i ≤ j → n ≠ .part j) (hmem : n ∉ imageNodes s) : Untouched st st' n := by
  refine mergeParts_visits (R := fun a b => Untouched a b n) (fun a => ⟨rfl, rfl⟩)
    (fun a b c h h' => h.trans h') hs hnodup (fun j a st st' hj ha hvisited => ?_) hrun
  apply hvisited.frame
  rw [List.mem_cons, not_or]
  exact ⟨hn j hj, fun hm => hmem ((ha.map _).subset hm)⟩

theorem mergeParts_counts (hs : posContinue.getD all = s) (hnodup : (imageNodes s).Nodup) {r : ℤ}
    (hrun : mergeParts all i parts posContinue st = some (r, st')) {j : ℕ} (hj : j < i) :
    st'.imageCount j = st.imageCount j ∧ st'.totalChunks j = st.totalChunks j := by
  refine mergeParts_visits (R := fun a b => b.imageCount j = a.imageCount j ∧ b.totalChunks j = a.totalChunks j)
    (fun a => ⟨rfl, rfl⟩) (fun a b c h h' => ⟨h'.1.trans h.1, h'.2.trans h.2⟩) hs hnodup
    (fun k a st st' hk ha hvisited => ?_) hrun
  rw [hvisited.counts, hvisited.chunks]
  constructor <;> rw [Function.update_of_ne (by omega)]

theorem mergeParts_first (hs : posContinue.getD all = s) (hnodup : (imageNodes s).Nodup) {r : ℤ}
    (hrun : mergeParts all i (p :: parts) posContinue st = some (r, st')) :
    ∃ st₁, Visited i (fitting p s) st st₁ ∧ st'.links.next (.part i) = st₁.links.next (.part i) ∧
      st'.imageCount i = st₁.imageCount i ∧ st'.totalChunks i = st₁.totalChunks i := by
  obtain ⟨hfit, hrem, -⟩ := imageNodes_split hnodup p
  obtain ⟨st₁, hvisit, hvisited⟩ := visit_spec i st hfit
  rw [mergeParts_cons all i p parts hs st, hvisit] at hrun
  have hpart : ∀ j, i + 1 ≤ j → ListHead.part i ≠ .part j := by
    intro j hj he
    simp only [ListHead.part.injEq] at he
    omega
  refine ⟨st₁, hvisited, ?_⟩
  cases hexit : exitAt p (remaining p s) with
  | returned r' =>
    simp only [hexit] at hrun
    cases hrun
    exact ⟨rfl, rfl, rfl⟩
  | left pos =>
    obtain rfl := exitAt_left hexit
    simp only [hexit] at hrun
    have hpos : (some (remaining p s)).getD all = remaining p s := rfl
    exact ⟨(mergeParts_frame hpos hrem hrun hpart (part_notMem i _)).1, mergeParts_counts hpos hrem hrun (by omega)⟩
  | exhausted =>
    simp only [hexit] at hrun
    exact ⟨(mergeParts_frame hs hnodup hrun hpart (part_notMem i _)).1, mergeParts_counts hs hnodup hrun (by omega)⟩

theorem fitting_nil_of {x : ImageInfo × ℕ} {b : List (ImageInfo × ℕ)} (h : ¬Fits p x.1) :
    fitting p (x :: b) = [] ∧ remaining p (x :: b) = x :: b :=
  ⟨List.takeWhile_cons_of_neg (by simpa using h), List.dropWhile_cons_of_neg (by simpa using h)⟩

theorem not_fits_before {image : ImageInfo} (h : image.offset < p.offset) : ¬Fits p image :=
  fun hf => UInt64.not_lt.mpr hf.1 h

theorem not_fits_behind {image : ImageInfo} (h : rightBoundary p ≤ image.offset) : ¬Fits p image :=
  fun hf => UInt64.not_lt.mpr h hf.2.1

structure Passed (i : ℕ) (st st' : MergeState) : Prop where
  frame : ∀ n, (∀ j, i ≤ j → n ≠ .part j) → Untouched st st' n
  heads : ∀ j, i ≤ j → st'.links.next (.part j) = some (.part j) ∨
    st'.links.next (.part j) = st.links.next (.part j)
  counts : st'.imageCount = st.imageCount ∧ st'.totalChunks = st.totalChunks

theorem passed_of_visited (h : Visited i [] st st') : Passed i st st' := by
  have hframe (n : ListHead) (hn : n ≠ .part i) : Untouched st st' n := h.frame n (by simpa [imageNodes] using hn)
  refine ⟨fun n hn => hframe n (hn i le_rfl), fun j _ => ?_, ?_, ?_⟩
  · by_cases hj : j = i
    · subst hj
      exact .inl h.ring.linked.1
    · exact .inr (hframe (.part j) (by simpa using hj)).1
  · rw [h.counts]
    exact Function.update_eq_self_iff.mpr (by simp)
  · rw [h.chunks]
    exact Function.update_eq_self_iff.mpr (by simp)

theorem Passed.trans {st'' : MergeState} (h : Passed i st st') (h' : Passed (i + 1) st' st'') : Passed i st st'' := by
  refine ⟨fun n hn => (h.frame n hn).trans (h'.frame n (fun j hj => hn j (by omega))), fun j hj => ?_,
    h'.counts.1.trans h.counts.1, h'.counts.2.trans h.counts.2⟩
  by_cases hji : j = i
  · subst hji
    rw [(h'.frame (.part j) (by simp; omega)).1]
    exact h.heads j le_rfl
  · rcases h'.heads j (by omega) with hself | hsame
    · exact .inl hself
    · rw [hsame]
      exact h.heads j hj

theorem mergeParts_passes {x : ImageInfo × ℕ} {b : List (ImageInfo × ℕ)} (hs : posContinue.getD all = x :: b)
    (h : Passes parts x.1) (i : ℕ) (st : MergeState) :
    ∃ st', mergeParts all i parts posContinue st = some (0, st') ∧ Passed i st st' := by
  induction parts generalizing posContinue i st with
  | nil => exact ⟨st, rfl, fun n _ => ⟨rfl, rfl⟩, fun j _ => .inr rfl, rfl, rfl⟩
  | cons p parts ih =>
    have hnot : ¬Fits p x.1 := by
      rcases h with hlt | ⟨hright, -⟩
      · exact not_fits_before hlt
      · exact not_fits_behind hright
    obtain ⟨hfit, hrem⟩ := fitting_nil_of (b := b) hnot
    obtain ⟨st₁, hvisit, hvisited⟩ := visit_spec (a := []) i st (by simp [imageNodes])
    rw [mergeParts_cons all i p parts hs st, hfit, hrem, hvisit]
    rcases UInt64.lt_or_le x.1.offset p.offset with hlt | hle
    · rw [exitAt_before hlt]
      exact ⟨st₁, rfl, passed_of_visited hvisited⟩
    · obtain ⟨hright, hrest⟩ := h.resolve_left (UInt64.not_lt.mpr hle)
      rw [exitAt_behind hle hright]
      have hpos : (some (x :: b)).getD all = x :: b := rfl
      obtain ⟨st', hrun, hpassed⟩ := ih hpos hrest (i + 1) st₁
      exact ⟨st', hrun, (passed_of_visited hvisited).trans hpassed⟩

theorem mergeParts_repeats {x : ImageInfo × ℕ} {b : List (ImageInfo × ℕ)} (hs : posContinue.getD all = x :: b)
    (hnodup : (imageNodes (x :: b)).Nodup) (h : ¬Passes parts x.1) (hr : ¬Refuses parts (x :: b))
    (hrun : mergeParts all i parts posContinue st = some (0, st')) :
    ∃ j, i ≤ j ∧ j < i + parts.length ∧ st'.links.next (.part j) = some (.image x.2) := by
  induction parts generalizing posContinue i st with
  | nil => exact absurd trivial h
  | cons p parts ih =>
    rw [Passes, not_or] at h
    obtain ⟨hle, hpass⟩ := h
    rw [UInt64.not_lt] at hle
    by_cases hfits : Fits p x.1
    · -- the image heads the list of this partition, which is not written again
      obtain ⟨st₁, hvisited, hnext, -⟩ := mergeParts_first hs hnodup hrun
      have hhead : fitting p (x :: b) = x :: fitting p b := List.takeWhile_cons_of_pos (by simpa using hfits)
      have hring := hvisited.ring.linked
      rw [hhead] at hring
      exact ⟨i, le_rfl, by simp, hnext.trans hring.1⟩
    · obtain ⟨hfit, hrem⟩ := fitting_nil_of (b := b) hfits
      obtain ⟨st₁, hvisit, hvisited⟩ := visit_spec (a := []) i st (by simp [imageNodes])
      rw [mergeParts_cons all i p parts hs st, hfit, hrem, hvisit] at hrun
      unfold Refuses at hr
      simp only [hrem] at hr
      have hright : rightBoundary p ≤ x.1.offset := by
        by_contra hn
        exact hr ⟨hle, fun hright => absurd hright hn⟩
      rw [exitAt_behind hle hright] at hrun
      have hpos : (some (x :: b)).getD all = x :: b := rfl
      obtain ⟨j, hj1, hj2, hnext⟩ := ih hpos (fun hp => hpass ⟨hright, hp⟩) (fun hlater => hr ⟨hle, fun _ => hlater⟩) hrun
      exact ⟨j, by omega, by simp; omega, hnext⟩

theorem mergeParts_none (hs : posContinue.getD all = []) (i : ℕ) (st : MergeState) :
    ∃ st', mergeParts all i parts posContinue st = some (0, st') ∧ Passed i st st' := by
  induction parts generalizing i st with
  | nil => exact ⟨st, rfl, fun n _ => ⟨rfl, rfl⟩, fun j _ => .inr rfl, rfl, rfl⟩
  | cons p parts ih =>
    obtain ⟨st₁, hvisit, hvisited⟩ := visit_spec (a := []) i st (by simp [imageNodes])
    rw [mergeParts_cons all i p parts hs st, show fitting p [] = [] from rfl, hvisit]
    obtain ⟨st', hrun, hpassed⟩ := ih (i + 1) st₁
    exact ⟨st', hrun, (passed_of_visited hvisited).trans hpassed⟩

/-- The lists and counters of the partitions from `i` on are those of their shares. -/
structure Placed (parts : List PartItem) (s : List (ImageInfo × ℕ)) (i : ℕ) (st' : MergeState) : Prop where
  reach : ∀ j < parts.length, ∀ k, InList st' (i + j) k ↔ ListHead.image k ∈ imageNodes (share parts s j)
  counts : ∀ j < parts.length, st'.imageCount (i + j) = UInt32.ofNat (share parts s j).length
  chunks : ∀ j < parts.length, st'.totalChunks (i + j) = ((share parts s j).map (fun x => x.1.chunkcount)).sum

def Zeroed (i : ℕ) (st : MergeState) : Prop :=
  ∀ j, i ≤ j → st.links.next (.part j) = none ∧ st.imageCount j = 0 ∧ st.totalChunks j = 0

theorem Zeroed.visited {st₁ : MergeState} {a : List (ImageInfo × ℕ)} (h : Zeroed i st) (hv : Visited i a st st₁) :
    Zeroed (i + 1) st₁ := by
  intro j hj
  obtain ⟨h1, h2, h3⟩ := h j (by omega)
  have hne : ListHead.part j ∉ ListHead.part i :: imageNodes a := by
    rw [List.mem_cons, not_or]
    exact ⟨by simp; omega, part_notMem j a⟩
  refine ⟨(hv.frame _ hne).1.trans h1, ?_, ?_⟩
  · rw [hv.counts, Function.update_of_ne (by omega), h2]
  · rw [hv.chunks, Function.update_of_ne (by omega), h3]

theorem placed_cons {st₁ : MergeState} (hzero : Zeroed i st) (hv : Visited i (fitting p s) st st₁)
    (hring : ∀ n ∈ ListHead.part i :: imageNodes (fitting p s), Untouched st₁ st' n)
    (hcount : st'.imageCount i = st₁.imageCount i ∧ st'.totalChunks i = st₁.totalChunks i)
    (hrest : Placed parts (remaining p s) (i + 1) st') : Placed (p :: parts) s i st' := by
  obtain ⟨-, hz2, hz3⟩ := hzero i le_rfl
  have hc : Circular st'.links (.part i) (imageNodes (fitting p s)) := hv.ring.congr hring
  constructor
  · intro j hj k
    cases j with
    | zero => exact hc.reaches_iff (by simp)
    | succ j =>
      rw [show i + (j + 1) = i + 1 + j by omega]
      exact hrest.reach j (by simpa using hj) k
  · intro j hj
    cases j with
    | zero =>
      rw [Nat.add_zero, hcount.1, hv.counts, Function.update_self, hz2, UInt32.zero_add]
      rfl
    | succ j =>
      rw [show i + (j + 1) = i + 1 + j by omega]
      exact hrest.counts j (by simpa using hj)
  · intro j hj
    cases j with
    | zero =>
      rw [Nat.add_zero, hcount.2, hv.chunks, Function.update_self, hz3, UInt32.zero_add]
      rfl
    | succ j =>
      rw [show i + (j + 1) = i + 1 + j by omega]
      exact hrest.chunks j (by simpa using hj)

theorem placed_nil (hzero : Zeroed i st) (hp : Passed i st st') (parts : List PartItem) : Placed parts [] i st' := by
  constructor
  · intro j _ k
    rw [share_nil]
    refine ⟨fun hr => ?_, fun hm => by simp [imageNodes] at hm⟩
    have hstuck : st'.links.next (.part (i + j)) = some (.part (i + j)) ∨ st'.links.next (.part (i + j)) = none := by
      rw [← (hzero (i + j) (by omega)).1]
      exact hp.heads (i + j) (by omega)
    have := Reaches.stuck hr hstuck
    cases this
  · intro j _
    rw [share_nil, hp.counts.1, (hzero (i + j) (by omega)).2.1]
    rfl
  · intro j _
    rw [share_nil, hp.counts.2, (hzero (i + j) (by omega)).2.2]
    rfl

theorem mergeParts_places (hs : posContinue.getD all = s) (hnodup : (imageNodes s).Nodup) (hzero : Zeroed i st)
    (h : Places parts s) :
    ∃ st', mergeParts all i parts posContinue st = some (0, st') ∧ Placed parts s i st' := by
  induction parts generalizing s posContinue i st with
  | nil =>
    refine ⟨st, rfl, ?_, ?_, ?_⟩
    all_goals
      intro j hj
      simp at hj
  | cons p parts ih =>
    obtain ⟨hfit, hrem, hdisj⟩ := imageNodes_split hnodup p
    obtain ⟨st₁, hvisit, hvisited⟩ := visit_spec i st hfit
    have hzero₁ := hzero.visited hvisited
    have hnotpart : ∀ n ∈ ListHead.part i :: imageNodes (fitting p s), ∀ j, i + 1 ≤ j → n ≠ .part j := by
      rintro n hn j hj rfl
      rcases List.mem_cons.mp hn with he | hn
      · simp only [ListHead.part.injEq] at he
        omega
      · exact part_notMem j _ hn
    rw [mergeParts_cons all i p parts hs st, hvisit]
    unfold Places at h
    cases hb : remaining p s with
    | nil =>
      rw [hb] at h
      obtain ⟨st', hrun, hpassed⟩ : ∃ st', mergeParts all (i + 1) parts posContinue st₁ = some (0, st') ∧
          Passed (i + 1) st₁ st' := by
        cases s with
        | nil => exact mergeParts_none hs (i + 1) st₁
        | cons x b => exact mergeParts_passes hs (h x rfl) (i + 1) st₁
      refine ⟨st', hrun, ?_⟩
      apply placed_cons hzero hvisited
      · exact fun n hn => hpassed.frame n (hnotpart n hn)
      · rw [hpassed.counts.1, hpassed.counts.2]
        exact ⟨rfl, rfl⟩
      · rw [hb]
        exact placed_nil hzero₁ hpassed parts
    | cons x b =>
      rw [hb] at h hrem hdisj
      obtain ⟨hle, hright, hrest⟩ := h
      have hpos : (some (x :: b)).getD all = x :: b := rfl
      obtain ⟨st', hrun, hplaced⟩ := ih hpos hrem hzero₁ hrest
      simp only [exitAt_behind hle hright]
      refine ⟨st', hrun, ?_⟩
      apply placed_cons hzero hvisited
      · intro n hn
        refine mergeParts_frame hpos hrem hrun (hnotpart n hn) ?_
        rcases List.mem_cons.mp hn with rfl | hn
        · exact part_notMem i _
        · exact hdisj n hn
      · exact mergeParts_counts hpos hrem hrun (by omega)
      · rwa [hb]

def Fresh (s : List (ImageInfo × ℕ)) (st : MergeState) : Prop :=
  ∀ n ∈ imageNodes s, ∀ m, st.links.next m ≠ some n

theorem Fresh.visited {st₁ : MergeState} (h : Fresh s st) (hnodup : (imageNodes s).Nodup)
    (hv : Visited i (fitting p s) st st₁) : Fresh (remaining p s) st₁ := by
  obtain ⟨-, -, hdisj⟩ := imageNodes_split hnodup p
  intro n hn m hnext
  by_cases hm : m ∈ ListHead.part i :: imageNodes (fitting p s)
  · have hring := hv.ring.linked.next_mem hm hnext
    rw [List.mem_append, List.mem_singleton] at hring
    rcases hring with hfit | rfl
    · exact hdisj n hfit hn
    · exact part_notMem i _ hn
  · rw [(hv.frame m hm).1] at hnext
    exact h n (((List.dropWhile_sublist _).map _).subset hn) m hnext

theorem mergeParts_misplaces (hs : posContinue.getD all = s) (hnodup : (imageNodes s).Nodup) (hfresh : Fresh s st)
    (h : ¬Places parts s) (hr : ¬Refuses parts s) (hrun : mergeParts all i parts posContinue st = some (0, st')) :
    ∃ x ∈ s, (∀ m, st'.links.next m ≠ some (.image x.2)) ∨
      ∃ j j', i ≤ j ∧ j < j' ∧ j' < i + parts.length ∧ st'.links.next (.part j) = some (.image x.2) ∧
        st'.links.next (.part j') = some (.image x.2) := by
  induction parts generalizing s posContinue i st with
  | nil =>
    cases hrun
    obtain ⟨x, b, rfl⟩ := List.exists_cons_of_ne_nil h
    exact ⟨x, by simp, .inl (hfresh (.image x.2) (by simp [imageNodes]))⟩
  | cons p parts ih =>
    obtain ⟨hfit, hrem, -⟩ := imageNodes_split hnodup p
    obtain ⟨st₂, hvisited₂, hnext, -⟩ := mergeParts_first hs hnodup hrun
    obtain ⟨st₁, hvisit, hvisited⟩ := visit_spec i st hfit
    rw [mergeParts_cons all i p parts hs st, hvisit] at hrun
    unfold Places at h
    unfold Refuses at hr
    cases hb : remaining p s with
    | nil =>
      simp only [hb] at h hr hrun
      push Not at h
      obtain ⟨x, hx, hpass⟩ := h
      obtain ⟨b, rfl⟩ := List.head?_eq_some_iff.mp hx
      obtain ⟨j', hj1, hj2, hnext'⟩ := mergeParts_repeats hs hnodup hpass hr hrun
      have hring := hvisited₂.ring.linked
      rw [fitting_all hb] at hring
      exact ⟨x, by simp, .inr ⟨i, j', le_rfl, by omega, by simp; omega, hnext.trans hring.1, hnext'⟩⟩
    | cons x b =>
      have hx : x ∈ s := (List.dropWhile_sublist _).subset (show x ∈ remaining p s by simp [hb])
      simp only [hb] at h hr hrun
      rcases UInt64.lt_or_le x.1.offset p.offset with hlt | hle
      · rw [exitAt_before hlt] at hrun
        cases hrun
        exact ⟨x, hx, .inl (hfresh.visited hnodup hvisited (.image x.2) (by simp [hb, imageNodes]))⟩
      · have hright : rightBoundary p ≤ x.1.offset := by
          by_contra hn
          exact hr ⟨hle, fun hright => absurd hright hn⟩
        rw [exitAt_behind hle hright, ← hb] at hrun
        rw [← hb] at h hr
        have hpos : (some (remaining p s)).getD all = remaining p s := rfl
        obtain ⟨y, hy, hlost⟩ := ih hpos hrem (hfresh.visited hnodup hvisited)
          (fun hp => h ⟨hle, hright, hp⟩) (fun hlater => hr ⟨hle, fun _ => hlater⟩) hrun
        refine ⟨y, (List.dropWhile_sublist _).subset hy, hlost.imp_right ?_⟩
        rintro ⟨j, j', hj1, hj2, hj3, hnexts⟩
        exact ⟨j, j', by omega, hj2, by simp; omega, hnexts⟩

end Runs

section Claim

variable {parts : List PartItem} {images : List ImageInfo} {st : MergeState}

theorem Fits.contains {p : PartItem} {image : ImageInfo} (h : Fits p image) : Contains p image := by
  have hright := rightBoundary_toNat (Fits.stop_lt h)
  obtain ⟨h1, h2, -⟩ := h
  rw [UInt64.lt_iff_toNat_lt, hright] at h2
  exact ⟨UInt64.le_iff_toNat_le.mp h1, h2⟩

theorem toNat_sum (l : List UInt32) : l.sum.toNat = (l.map UInt32.toNat).sum % 2 ^ 32 := by
  induction l with
  | nil => rfl
  | cons x l ih => rw [List.sum_cons, UInt32.toNat_add, ih, List.map_cons, List.sum_cons, Nat.add_mod_mod]

theorem sum_mod_eq_iff (n m : ℕ) (f : ℕ → ℕ) (hm : 0 < m) :
    ∑ j ∈ Finset.range n, f j % m = ∑ j ∈ Finset.range n, f j ↔ ∀ j < n, f j < m := by
  rw [Finset.sum_eq_sum_iff_of_le (fun j _ => Nat.mod_le (f j) m)]
  simp only [Finset.mem_range, Nat.mod_eq_iff_lt hm.ne']

theorem Placed.inOne (h : Places parts images.zipIdx) (hp : Placed parts images.zipIdx 0 st) {k : ℕ}
    {image : ImageInfo} (hk : images[k]? = some image) :
    ∃ i p, parts[i]? = some p ∧ Contains p image ∧ ∀ j < parts.length, InList st j k ↔ j = i := by
  have hin : (image, k) ∈ images.zipIdx := List.mem_zipIdx_iff_getElem?.mpr hk
  obtain ⟨i, p, hi, hfits, hmem⟩ := h.share_mem hin
  have hnode : ListHead.image k ∈ imageNodes (share parts images.zipIdx i) :=
    List.mem_map_of_mem (f := fun x : ImageInfo × ℕ => ListHead.image x.2) hmem
  refine ⟨i, p, hi, Fits.contains hfits, fun j hj => ?_⟩
  have hreach := hp.reach j hj k
  rw [Nat.zero_add] at hreach
  rw [hreach]
  constructor
  · exact fun hin => share_unique imageNodes_zipIdx_nodup hin hnode
  · rintro rfl
    exact hnode

theorem Placed.keepsAll_iff (h : Places parts images.zipIdx) (hp : Placed parts images.zipIdx 0 st) :
    KeepsAll parts images st ↔ CountsFit parts images.zipIdx := by
  let lengths : ℕ → ℕ := fun j => (share parts images.zipIdx j).length
  let chunks : ℕ → ℕ := fun j => ((share parts images.zipIdx j).map (fun x => x.1.chunkcount.toNat)).sum
  have hcount : ∑ j ∈ Finset.range parts.length, (st.imageCount j).toNat =
      ∑ j ∈ Finset.range parts.length, lengths j % 2 ^ 32 := by
    apply Finset.sum_congr rfl
    intro j hj
    have := hp.counts j (Finset.mem_range.mp hj)
    rw [Nat.zero_add] at this
    rw [this, UInt32.toNat_ofNat']
  have hchunk : ∑ j ∈ Finset.range parts.length, (st.totalChunks j).toNat =
      ∑ j ∈ Finset.range parts.length, chunks j % 2 ^ 32 := by
    apply Finset.sum_congr rfl
    intro j hj
    have := hp.chunks j (Finset.mem_range.mp hj)
    rw [Nat.zero_add] at this
    rw [this, toNat_sum, List.map_map]
    rfl
  have hlengths : ∑ j ∈ Finset.range parts.length, lengths j = images.length := by
    have := h.sum_share (fun _ => 1)
    simpa using this
  have hchunks : ∑ j ∈ Finset.range parts.length, chunks j = (images.map (fun image => image.chunkcount.toNat)).sum := by
    have hzip : images.map (fun image => image.chunkcount.toNat) =
        images.zipIdx.map (fun x => x.1.chunkcount.toNat) := by
      conv_lhs => rw [← List.zipIdx_map_fst 0 images, List.map_map]
      rfl
    rw [hzip]
    exact h.sum_share (fun x => x.1.chunkcount.toNat)
  have hiff : CountsFit parts images.zipIdx ↔
      (∀ j < parts.length, lengths j < 2 ^ 32) ∧ ∀ j < parts.length, chunks j < 2 ^ 32 :=
    ⟨fun hc => ⟨fun j hj => (hc j hj).1, fun j hj => (hc j hj).2⟩, fun hc j hj => ⟨hc.1 j hj, hc.2 j hj⟩⟩
  rw [hiff, ← sum_mod_eq_iff _ _ lengths (by decide), ← sum_mod_eq_iff _ _ chunks (by decide), ← hcount, ← hchunk,
    hlengths, hchunks]
  constructor
  · exact fun hk => ⟨hk.imageCount, hk.totalChunks⟩
  · exact fun hc => ⟨fun k image hk => Placed.inOne h hp hk, hc.1, hc.2⟩

/-- The merge drops nothing exactly if it refuses, or if the partitions take all images one after another. -/
theorem neverDrops_iff (parts : List PartItem) (images : List ImageInfo) : NeverDrops parts images ↔
    Refuses parts images.zipIdx ∨ Places parts images.zipIdx ∧ CountsFit parts images.zipIdx := by
  let st₀ : MergeState := ⟨null, fun _ => 0, fun _ => 0⟩
  have hpos : (none : Option (List (ImageInfo × ℕ))).getD images.zipIdx = images.zipIdx := rfl
  have hnodup := @imageNodes_zipIdx_nodup images
  have hzero : Zeroed 0 st₀ := fun j _ => ⟨rfl, rfl, rfl⟩
  have hfresh : Fresh images.zipIdx st₀ := fun n _ m hm => by cases hm
  by_cases hr : Refuses parts images.zipIdx
  · refine ⟨fun _ => .inl hr, fun _ st hrun => ?_⟩
    obtain ⟨st', hrun'⟩ := mergeParts_refuses hpos hnodup hr 0 st₀
    rw [mergeImginfoIntoPartinfo, hrun'] at hrun
    cases hrun
  · rw [or_iff_right hr]
    obtain ⟨st, hrun⟩ := mergeParts_accepts hpos hnodup hr 0 st₀
    have hkeeps : NeverDrops parts images ↔ KeepsAll parts images st := by
      refine ⟨fun h => h st hrun, fun h st' hrun' => ?_⟩
      rw [mergeImginfoIntoPartinfo, hrun] at hrun'
      cases hrun'
      exact h
    rw [hkeeps]
    by_cases hplace : Places parts images.zipIdx
    · obtain ⟨st', hrun', hplaced⟩ := mergeParts_places hpos hnodup hzero hplace
      rw [hrun] at hrun'
      cases hrun'
      rw [Placed.keepsAll_iff hplace hplaced, and_iff_right hplace]
    · refine ⟨fun hkept => ?_, fun h => absurd h.1 hplace⟩
      obtain ⟨x, hx, hlost⟩ := mergeParts_misplaces hpos hnodup hfresh hplace hr hrun
      obtain ⟨i, p, hi, -, hone⟩ := hkept.inOne x.2 x.1 (List.mem_zipIdx_iff_getElem?.mp hx)
      obtain ⟨hi', -⟩ := List.getElem?_eq_some_iff.mp hi
      rcases hlost with hnone | ⟨j, j', -, hlt, hj', hnext, hnext'⟩
      · obtain ⟨m, hm⟩ := Reaches.last ((hone i hi').mpr rfl) (by simp)
        exact absurd hm (hnone m)
      · have h1 := (hone j (by omega)).mp (Relation.ReflTransGen.single hnext)
        have h2 := (hone j' (by omega)).mp (Relation.ReflTransGen.single hnext')
        omega

theorem gap_image_dropped : ¬NeverDrops [smallPart 0, smallPart 32] [smallImage 0, smallImage 16] := by
  intro h
  have hkept := h _ rfl
  have hcount := hkept.imageCount
  revert hcount
  decide

end Claim

end LinuxRecovery.KeptImages
