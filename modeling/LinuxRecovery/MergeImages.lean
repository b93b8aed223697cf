import LinuxRecovery.CircularLists
import LinuxRecovery.UpdateFile

namespace LinuxRecovery.MergeImages

open CircularLists UpdateFile

inductive ListHead where
  | part (i : ℕ)
  | image (k : ℕ)
  deriving DecidableEq

structure MergeState where
  links : Links ListHead
  imageCount : ℕ → UInt32
  totalChunks : ℕ → UInt32

inductive InnerExit where
  | returned (r : ℤ)
  | left (pos : List (ImageInfo × ℕ))
  | exhausted

def rightBoundary (part : PartItem) : UInt64 := part.offset + part.size

def MergeState.attached (st : MergeState) (i : ℕ) (image : ImageInfo) (links : Links ListHead) : MergeState where
  links := links
  imageCount := Function.update st.imageCount i (st.imageCount i + 1)
  totalChunks := Function.update st.totalChunks i (st.totalChunks i + image.chunkcount)

/-- The inner loop, from an image on to the end of `update_info->list`; a null pointer stops it. -/
def mergeInner (i : ℕ) (part : PartItem) : List (ImageInfo × ℕ) → MergeState → Option (InnerExit × MergeState)
  | [], st => some (.exhausted, st)
  | (image, k) :: rest, st =>
    if image.offset < part.offset then some (.returned 0, st)
    else if rightBoundary part ≤ image.offset then some (.left ((image, k) :: rest), st)
    else if rightBoundary part < image.offset + image.size then some (.returned (-1), st)
    else
      match listAddTail (.image k) (.part i) st.links with
      | none => none
      | some links => mergeInner i part rest (st.attached i image links)

def mergeParts (images : List (ImageInfo × ℕ)) :
    ℕ → List PartItem → Option (List (ImageInfo × ℕ)) → MergeState → Option (ℤ × MergeState)
  | _, [], _, st => some (0, st)
  | i, part :: parts, posContinue, st =>
    let st := { st with links := initListHead (.part i) st.links }
    match mergeInner i part (posContinue.getD images) st with
    | none => none
    | some (.returned r, st) => some (r, st)
    | some (.left pos, st) => mergeParts images (i + 1) parts (some pos) st
    | some (.exhausted, st) => mergeParts images (i + 1) parts posContinue st

def mergeImginfoIntoPartinfo (parts : List PartItem) (images : List ImageInfo) : Option (ℤ × MergeState) :=
  mergeParts images.zipIdx 0 parts none ⟨null, fun _ => 0, fun _ => 0⟩

def PartItem.stop (part : PartItem) : ℕ := part.offset.toNat + part.size.toNat

def Lies (part : PartItem) (image : ImageInfo) : Prop :=
  part.offset.toNat ≤ image.offset.toNat ∧ image.offset.toNat < PartItem.stop part ∧
    image.offset.toNat + image.size.toNat ≤ PartItem.stop part

instance (part : PartItem) (image : ImageInfo) : Decidable (Lies part image) :=
  inferInstanceAs (Decidable (_ ∧ _ ∧ _))

def Fits (part : PartItem) (image : ImageInfo) : Prop :=
  part.offset ≤ image.offset ∧ image.offset < rightBoundary part ∧ image.offset + image.size ≤ rightBoundary part

instance (part : PartItem) (image : ImageInfo) : Decidable (Fits part image) :=
  inferInstanceAs (Decidable (_ ∧ _ ∧ _))

/-- Sorted, disjoint partitions, and sorted, disjoint images each inside one of them. -/
structure Sorted (parts : List PartItem) (images : List ImageInfo) : Prop where
  partsSorted : parts.Pairwise (fun p q => PartItem.stop p ≤ q.offset.toNat)
  imagesSorted : images.Pairwise (fun a b => a.offset.toNat + a.size.toNat ≤ b.offset.toNat)
  inside : ∀ image ∈ images, ∃ part ∈ parts, Lies part image

def imageNodes (images : List (ImageInfo × ℕ)) : List ListHead := images.map (fun x => .image x.2)

def nodesIn (images : List (ImageInfo × ℕ)) (part : PartItem) : List ListHead :=
  imageNodes (images.filter (fun x => Lies part x.1))

/-- The merge returns 0, every partition's list is well formed and holds its own images in order, and
the loops over all of them end, having visited each image once. -/
def Merged (parts : List PartItem) (images : List ImageInfo) : Prop :=
  ∃ st, mergeImginfoIntoPartinfo parts images = some (0, st) ∧
    (∀ i part, parts[i]? = some part → Circular st.links (.part i) (nodesIn images.zipIdx part)) ∧
    ∃ fuel visits, (List.range parts.length).mapM
        (fun i => listForEach st.links (.part i) fuel (st.links.next (.part i))) = some visits ∧
      visits.flatten = (List.range images.length).map .image

section Lists

variable {p : PartItem} {parts : List PartItem} {s : List (ImageInfo × ℕ)}

theorem split_first (h : Sorted (p :: parts) (s.map Prod.fst)) : ∃ a b, s = a ++ b ∧ (∀ x ∈ a, Lies p x.1) ∧
    (∀ x ∈ b, PartItem.stop p ≤ x.1.offset.toNat) ∧ Sorted parts (b.map Prod.fst) := by
  let before : ImageInfo × ℕ → Bool := fun x => decide (x.1.offset.toNat < PartItem.stop p)
  have hparts := List.pairwise_cons.mp h.partsSorted
  have hs : s = s.takeWhile before ++ s.dropWhile before := List.takeWhile_append_dropWhile.symm
  have hsorted := List.pairwise_map.mp h.imagesSorted
  rw [hs, List.pairwise_append] at hsorted
  have hbehind : ∀ x ∈ s.dropWhile before, PartItem.stop p ≤ x.1.offset.toNat := by
    intro x hx
    cases hd : s.dropWhile before with
    | nil => simp [hd] at hx
    | cons y ys =>
      have hy : ¬before y = true := by
        have := List.head_dropWhile_not before (l := s) (by simp [hd])
        simpa [hd] using this
      have hyp : PartItem.stop p ≤ y.1.offset.toNat := by simpa [before] using hy
      rw [hd] at hx hsorted
      rcases List.mem_cons.mp hx with rfl | hx
      · exact hyp
      · have := (List.pairwise_cons.mp hsorted.2.1).1 x hx
        omega
  refine ⟨s.takeWhile before, s.dropWhile before, hs, ?_, hbehind, hparts.2, ?_, ?_⟩
  · intro x hx
    have hlt : x.1.offset.toNat < PartItem.stop p := by simpa [before] using List.mem_takeWhile_imp hx
    obtain ⟨q, hq, hl⟩ := h.inside x.1 (List.mem_map_of_mem ((List.takeWhile_sublist before).subset hx))
    rcases List.mem_cons.mp hq with rfl | hq
    · exact hl
    · have := hparts.1 q hq
      have := hl.1
      omega
  · exact List.pairwise_map.mpr hsorted.2.1
  · intro image himage
    obtain ⟨x, hx, rfl⟩ := List.mem_map.mp himage
    obtain ⟨q, hq, hl⟩ := h.inside x.1 (List.mem_map_of_mem ((List.dropWhile_sublist before).subset hx))
    rcases List.mem_cons.mp hq with rfl | hq
    · have := hbehind x hx
      have := hl.2.1
      omega
    · exact ⟨q, hq, hl⟩

theorem nodesIn_first {a b : List (ImageInfo × ℕ)} (ha : ∀ x ∈ a, Lies p x.1)
    (hb : ∀ x ∈ b, PartItem.stop p ≤ x.1.offset.toNat) : nodesIn (a ++ b) p = imageNodes a := by
  have hb' : b.filter (fun x => decide (Lies p x.1)) = [] := by
    apply List.filter_eq_nil_iff.mpr
    intro x hx hl
    have := hb x hx
    have := (of_decide_eq_true hl).2.1
    omega
  rw [nodesIn, List.filter_append, hb', List.append_nil, List.filter_eq_self.mpr (fun x hx => by simpa using ha x hx)]

theorem nodesIn_later {a b : List (ImageInfo × ℕ)} {q : PartItem} (ha : ∀ x ∈ a, Lies p x.1)
    (hpq : PartItem.stop p ≤ q.offset.toNat) : nodesIn (a ++ b) q = nodesIn b q := by
  have ha' : a.filter (fun x => decide (Lies q x.1)) = [] := by
    apply List.filter_eq_nil_iff.mpr
    intro x hx hl
    have := (ha x hx).2.1
    have := (of_decide_eq_true hl).1
    omega
  rw [nodesIn, List.filter_append, ha', List.nil_append, nodesIn]

theorem nodesIn_flatten (h : Sorted parts (s.map Prod.fst)) :
    (parts.map (nodesIn s)).flatten = imageNodes s := by
  induction parts generalizing s with
  | nil =>
    cases s with
    | nil => rfl
    | cons x s =>
      obtain ⟨q, hq, -⟩ := h.inside x.1 (by simp)
      cases hq
  | cons p parts ih =>
    obtain ⟨a, b, rfl, ha, hb, hrest⟩ := split_first h
    have hlater : parts.map (nodesIn (a ++ b)) = parts.map (nodesIn b) := by
      apply List.map_congr_left
      intro q hq
      exact nodesIn_later ha ((List.pairwise_cons.mp h.partsSorted).1 q hq)
    rw [List.map_cons, List.flatten_cons, nodesIn_first ha hb, hlater, ih hrest, imageNodes, imageNodes,
      imageNodes, List.map_append]

end Lists

section Run

variable {p : PartItem} {st : MergeState} {i : ℕ}

def Untouched (st st' : MergeState) (n : ListHead) : Prop :=
  st'.links.next n = st.links.next n ∧ st'.links.prev n = st.links.prev n

theorem rightBoundary_toNat (h : PartItem.stop p < 2 ^ 64) : (rightBoundary p).toNat = PartItem.stop p := by
  rw [rightBoundary, UInt64.toNat_add]
  exact Nat.mod_eq_of_lt h

theorem Lies.fits {image : ImageInfo} (hl : Lies p image) (hp : PartItem.stop p < 2 ^ 64) : Fits p image := by
  obtain ⟨hl1, hl2, hl3⟩ := hl
  have hright := rightBoundary_toNat hp
  refine ⟨hl1, by rw [UInt64.lt_iff_toNat_lt]; omega, ?_⟩
  rw [UInt64.le_iff_toNat_le, UInt64.toNat_add, hright]
  have := Nat.mod_le (image.offset.toNat + image.size.toNat) (2 ^ 64)
  omega

def attachAll (i : ℕ) : List (ImageInfo × ℕ) → MergeState → Option MergeState
  | [], st => some st
  | x :: a, st =>
    match listAddTail (.image x.2) (.part i) st.links with
    | none => none
    | some links => attachAll i a (st.attached i x.1 links)

theorem mergeInner_append {a : List (ImageInfo × ℕ)} (ha : ∀ x ∈ a, Fits p x.1) (b : List (ImageInfo × ℕ))
    (st : MergeState) : mergeInner i p (a ++ b) st = (attachAll i a st).bind (mergeInner i p b) := by
  induction a generalizing st with
  | nil => rfl
  | cons x a ih =>
    obtain ⟨h1, h2, h3⟩ : Fits p x.1 := ha x (by simp)
    rw [List.cons_append, mergeInner, if_neg (UInt64.not_lt.mpr h1), if_neg (UInt64.not_le.mpr h2),
      if_neg (UInt64.not_lt.mpr h3), attachAll]
    cases listAddTail (.image x.2) (.part i) st.links with
    | none => rfl
    | some links => exact ih (fun y hy => ha y (by simp [hy])) _

theorem attachAll_ring {a : List (ImageInfo × ℕ)} {xs : List ListHead} (hc : Circular st.links (.part i) xs)
    (hnodup : (xs ++ imageNodes a).Nodup) :
    ∃ st', attachAll i a st = some st' ∧ Circular st'.links (.part i) (xs ++ imageNodes a) ∧
      ∀ n, n ≠ .part i → n ∉ xs ++ imageNodes a → Untouched st st' n := by
  induction a generalizing st xs with
  | nil => exact ⟨st, rfl, by simpa [imageNodes] using hc, fun n _ _ => ⟨rfl, rfl⟩⟩
  | cons x a ih =>
    have hfresh : ListHead.image x.2 ∉ ListHead.part i :: xs := by
      have hmid := List.nodup_middle.mp hnodup
      rw [List.nodup_cons, List.mem_append, not_or] at hmid
      simp [hmid.1.1]
    obtain ⟨links, hadd, hc', hother⟩ := hc.addTail hfresh
    have hxs : xs ++ imageNodes (x :: a) = (xs ++ [.image x.2]) ++ imageNodes a := by simp [imageNodes]
    rw [hxs] at hnodup ⊢
    have hc'' : Circular (st.attached i x.1 links).links (.part i) (xs ++ [.image x.2]) := hc'
    obtain ⟨st', hrun, hcirc, hun⟩ := ih hc'' hnodup
    refine ⟨st', ?_, hcirc, ?_⟩
    · rw [attachAll, hadd]
      exact hrun
    · intro n hn hmem
      obtain ⟨g1, g2⟩ := hun n hn hmem
      have hn' : n ∉ ListHead.image x.2 :: ListHead.part i :: xs := by
        simp only [List.mem_append, List.mem_singleton, not_or] at hmem
        simp [hn, hmem.1.1, hmem.1.2]
      exact ⟨g1.trans (hother n hn').1, g2.trans (hother n hn').2⟩

theorem mergeInner_attach {a b : List (ImageInfo × ℕ)} {xs : List ListHead}
    (ha : ∀ x ∈ a, Fits p x.1) (hc : Circular st.links (.part i) xs)
    (hnodup : (xs ++ imageNodes a).Nodup) :
    ∃ st', mergeInner i p (a ++ b) st = mergeInner i p b st' ∧
      Circular st'.links (.part i) (xs ++ imageNodes a) ∧
      ∀ n, n ≠ .part i → n ∉ xs ++ imageNodes a → Untouched st st' n := by
  obtain ⟨st', hrun, hcirc, hun⟩ := attachAll_ring hc hnodup
  refine ⟨st', ?_, hcirc, hun⟩
  rw [mergeInner_append ha, hrun, Option.bind_some]

theorem mergeInner_wrapped (hp : 2 ^ 64 ≤ PartItem.stop p) {x : ImageInfo × ℕ} (hx : Lies p x.1)
    (rest : List (ImageInfo × ℕ)) : mergeInner i p (x :: rest) st = some (.left (x :: rest), st) := by
  obtain ⟨image, k⟩ := x
  obtain ⟨hl1, -, -⟩ : Lies p image := hx
  have hsize := p.size.toNat_lt
  have hoff := p.offset.toNat_lt
  have hright : (rightBoundary p).toNat = PartItem.stop p - 2 ^ 64 := by
    rw [rightBoundary, UInt64.toNat_add]
    unfold PartItem.stop at hp ⊢
    omega
  have h1 : ¬image.offset < p.offset := by rw [UInt64.lt_iff_toNat_lt]; omega
  have h2 : rightBoundary p ≤ image.offset := by
    rw [UInt64.le_iff_toNat_le, hright]
    unfold PartItem.stop at hp ⊢
    omega
  rw [mergeInner, if_neg h1, if_pos h2]

theorem mergeInner_behind (hp : PartItem.stop p < 2 ^ 64) {x : ImageInfo × ℕ}
    (hx : PartItem.stop p ≤ x.1.offset.toNat) (rest : List (ImageInfo × ℕ)) :
    mergeInner i p (x :: rest) st = some (.left (x :: rest), st) := by
  obtain ⟨image, k⟩ := x
  dsimp only at hx
  have hright := rightBoundary_toNat hp
  have h1 : ¬image.offset < p.offset := by
    rw [UInt64.lt_iff_toNat_lt]
    unfold PartItem.stop at hx
    omega
  have h2 : rightBoundary p ≤ image.offset := by rw [UInt64.le_iff_toNat_le]; omega
  rw [mergeInner, if_neg h1, if_pos h2]

theorem mergeInner_before {x : ImageInfo × ℕ} (hx : x.1.offset.toNat < p.offset.toNat)
    (rest : List (ImageInfo × ℕ)) : mergeInner i p (x :: rest) st = some (.returned 0, st) := by
  obtain ⟨image, k⟩ := x
  rw [mergeInner, if_pos (UInt64.lt_iff_toNat_lt.mpr hx)]

/-- What a merge of `s`, none of it empty, into the partitions from `i` on does. `k` is the partition
of the last image: the ones up to the next are served, unless `k` ends past the address space, and the
others are never reached. -/
structure Served (parts : List PartItem) (s : List (ImageInfo × ℕ)) (i k : ℕ) (st st' : MergeState) : Prop where
  last : ∃ part, parts[k]? = some part ∧ (∀ x ∈ s.getLast?, Lies part x.1) ∧
    (2 ^ 64 ≤ PartItem.stop part → Circular st'.links (.part (i + k)) [])
  lists : (∀ part, parts[k]? = some part → PartItem.stop part < 2 ^ 64) → ∀ j q, parts[j]? = some q → j ≤ k + 1 →
    Circular st'.links (.part (i + j)) (nodesIn s q)
  unreached : ∀ j, i + k + 2 ≤ j → st'.links.next (.part j) = st.links.next (.part j)
  frame : ∀ n, (∀ j, i ≤ j → n ≠ .part j) → n ∉ imageNodes s → Untouched st st' n

theorem imageNodes_nodup {a b : List (ImageInfo × ℕ)} (h : (imageNodes (a ++ b)).Nodup) :
    (imageNodes a).Nodup ∧ (imageNodes b).Nodup ∧ ∀ n ∈ imageNodes a, n ∉ imageNodes b := by
  rw [imageNodes, List.map_append, List.nodup_append] at h
  exact ⟨h.1, h.2.1, fun n ha hb => h.2.2 n ha n hb rfl⟩

theorem part_notMem (j : ℕ) (s : List (ImageInfo × ℕ)) : ListHead.part j ∉ imageNodes s := by
  simp [imageNodes]

theorem Untouched.trans {st st' st'' : MergeState} {n : ListHead} (h : Untouched st st' n)
    (h' : Untouched st' st'' n) : Untouched st st'' n := ⟨h'.1.trans h.1, h'.2.trans h.2⟩

theorem mergeParts_stop {all : List (ImageInfo × ℕ)} {parts : List PartItem}
    {posContinue : Option (List (ImageInfo × ℕ))} {x : ImageInfo × ℕ} {rest : List (ImageInfo × ℕ)}
    (hs : posContinue.getD all = x :: rest) (hx : ∀ q ∈ parts, x.1.offset.toNat < q.offset.toNat) :
    ∃ st', mergeParts all i parts posContinue st = some (0, st') ∧
      (parts ≠ [] → Circular st'.links (.part i) []) ∧ ∀ n, n ≠ .part i → Untouched st st' n := by
  cases parts with
  | nil => exact ⟨st, rfl, fun h => absurd rfl h, fun n _ => ⟨rfl, rfl⟩⟩
  | cons q parts =>
    refine ⟨{ st with links := initListHead (.part i) st.links }, ?_, fun _ => circular_init _ _,
      fun n hn => init_other hn st.links⟩
    rw [mergeParts, hs, mergeInner_before (hx q (by simp))]

theorem mergeParts_served {all s : List (ImageInfo × ℕ)} {parts : List PartItem}
    {posContinue : Option (List (ImageInfo × ℕ))} (hs : posContinue.getD all = s) (hne : s ≠ [])
    (h : Sorted parts (s.map Prod.fst)) (hnodup : (imageNodes s).Nodup) :
    ∃ st' k, mergeParts all i parts posContinue st = some (0, st') ∧ Served parts s i k st st' := by
  induction parts generalizing s posContinue i st with
  | nil =>
    obtain ⟨x, s, rfl⟩ := List.exists_cons_of_ne_nil hne
    obtain ⟨q, hq, -⟩ := h.inside x.1 (by simp)
    cases hq
  | cons p parts ih =>
    obtain ⟨a, b, rfl, ha, hb, hrest⟩ := split_first h
    have hbehind := (List.pairwise_cons.mp h.partsSorted).1
    obtain ⟨hnodupA, hnodupB, hdisj⟩ := imageNodes_nodup hnodup
    let st₀ : MergeState := { st with links := initListHead (.part i) st.links }
    have hinit : Circular st₀.links (.part i) [] := circular_init (.part i) st.links
    have hinit' (n : ListHead) (hn : n ≠ .part i) : Untouched st st₀ n := init_other hn st.links
    cases b with
    | cons y b =>
      have hstop : PartItem.stop p < 2 ^ 64 := (hb y (by simp)).trans_lt y.1.offset.toNat_lt
      obtain ⟨st₁, hattach, hc, hun⟩ := mergeInner_attach (b := y :: b) (fun x hx => (ha x hx).fits hstop)
        hinit (by simpa using hnodupA)
      obtain ⟨st', k, hrun, hserved⟩ : ∃ st' k,
          mergeParts all (i + 1) parts (some (y :: b)) st₁ = some (0, st') ∧ Served parts (y :: b) (i + 1) k st₁ st' :=
        ih rfl (List.cons_ne_nil y b) hrest hnodupB
      refine ⟨st', k + 1, ?_, ?_, ?_, ?_, ?_⟩
      · rw [mergeParts, hs, hattach, mergeInner_behind hstop (hb y (by simp))]
        exact hrun
      · obtain ⟨part, hk, hl, hw⟩ := hserved.last
        refine ⟨part, by simpa using hk, by simpa using hl, fun hwrap => ?_⟩
        rw [show i + (k + 1) = i + 1 + k by omega]
        exact hw hwrap
      · intro hfit j q hj hle
        cases j with
        | zero =>
          obtain rfl : p = q := by simpa using hj
          rw [nodesIn_first ha hb]
          refine hc.congr (fun n hn => hserved.frame n ?_ ?_)
          · rintro m hm rfl
            rcases List.mem_cons.mp hn with he | hn
            · simp only [ListHead.part.injEq] at he
              omega
            · exact part_notMem m a (by simpa using hn)
          · rcases List.mem_cons.mp hn with rfl | hn
            · exact part_notMem i _
            · exact hdisj n (by simpa using hn)
        | succ j =>
          have hj' : parts[j]? = some q := by simpa using hj
          rw [nodesIn_later ha (hbehind q (List.mem_of_getElem? hj')), show i + (j + 1) = i + 1 + j by omega]
          exact hserved.lists (fun part hk => hfit part (by simpa using hk)) j q hj' (by omega)
      · intro j hj
        rw [hserved.unreached j (by omega), (hun (.part j) (by simp; omega) (by simpa using part_notMem j a)).1,
          (hinit' (.part j) (by simp; omega)).1]
      · intro n hn hmem
        have hmem' : n ∉ imageNodes a ∧ n ∉ imageNodes (y :: b) := by
          rw [imageNodes, List.map_append, List.mem_append, not_or] at hmem
          exact hmem
        exact (hinit' n (hn i le_rfl)).trans ((hun n (hn i le_rfl) (by simpa using hmem'.1)).trans
          (hserved.frame n (fun j hj => hn j (by omega)) hmem'.2))
    | nil =>
      rw [List.append_nil] at hs hne hnodup ⊢
      obtain ⟨x, a, rfl⟩ := List.exists_cons_of_ne_nil hne
      have hlast : ∀ z ∈ (x :: a).getLast?, Lies p z.1 := fun z hz => ha z (List.mem_of_mem_getLast? hz)
      by_cases hstop : PartItem.stop p < 2 ^ 64
      · obtain ⟨st₁, hattach, hc, hun⟩ := mergeInner_attach (b := []) (fun x hx => (ha x hx).fits hstop)
          hinit (by simpa using hnodupA)
        obtain ⟨st', hrun, hnext, hun'⟩ : ∃ st', mergeParts all (i + 1) parts posContinue st₁ = some (0, st') ∧
            (parts ≠ [] → Circular st'.links (.part (i + 1)) []) ∧ ∀ n, n ≠ .part (i + 1) → Untouched st₁ st' n :=
          mergeParts_stop hs (fun q hq => (ha x (by simp)).2.1.trans_le (hbehind q hq))
        refine ⟨st', 0, ?_, ⟨p, rfl, hlast, fun hw => by omega⟩, ?_, ?_, ?_⟩
        · rw [mergeParts, hs, ← List.append_nil (x :: a), hattach]
          exact hrun
        · intro _ j q hj hle
          cases j with
          | zero =>
            obtain rfl : p = q := by simpa using hj
            rw [← List.append_nil (x :: a), nodesIn_first ha (by simp)]
            refine hc.congr (fun n hn => hun' n ?_)
            rintro rfl
            rcases List.mem_cons.mp hn with he | hn
            · simp at he
            · exact part_notMem (i + 1) (x :: a) (by simpa using hn)
          | succ j =>
            obtain rfl : j = 0 := by omega
            have hj' : parts[0]? = some q := by simpa using hj
            rw [← List.append_nil (x :: a), nodesIn_later ha (hbehind q (List.mem_of_getElem? hj'))]
            exact hnext (by rintro rfl; simp at hj')
        · intro j hj
          rw [(hun' (.part j) (by simp; omega)).1, (hun (.part j) (by simp; omega)
            (by simpa using part_notMem j (x :: a))).1, (hinit' (.part j) (by simp; omega)).1]
        · intro n hn hmem
          exact (hinit' n (hn i le_rfl)).trans ((hun n (hn i le_rfl) (by simpa using hmem)).trans
            (hun' n (hn (i + 1) (by omega))))
      · have hwrap : 2 ^ 64 ≤ PartItem.stop p := by omega
        obtain rfl : parts = [] := by
          apply List.eq_nil_iff_forall_not_mem.mpr
          intro q hq
          have := hbehind q hq
          have := q.offset.toNat_lt
          omega
        refine ⟨st₀, 0, ?_, ⟨p, rfl, hlast, fun _ => hinit⟩, ?_, ?_, fun n hn _ => hinit' n (hn i le_rfl)⟩
        · rw [mergeParts, hs, mergeInner_wrapped hwrap (ha x (by simp))]
          rfl
        · intro hfit
          exact absurd (hfit p rfl) hstop
        · intro j hj
          exact (hinit' (.part j) (by simp; omega)).1

end Run

theorem mergeParts_empty (parts : List PartItem) (i : ℕ) (st : MergeState) :
    ∃ st', mergeParts [] i parts none st = some (0, st') ∧
      (∀ j, i ≤ j → j < i + parts.length → Circular st'.links (.part j) []) ∧
      ∀ j, j < i → Untouched st st' (.part j) := by
  induction parts generalizing i st with
  | nil => exact ⟨st, rfl, fun j h1 h2 => by simp at h2; omega, fun j _ => ⟨rfl, rfl⟩⟩
  | cons p parts ih =>
    let st₀ : MergeState := { st with links := initListHead (.part i) st.links }
    have hinit' (n : ListHead) (hn : n ≠ .part i) : Untouched st st₀ n := init_other hn st.links
    obtain ⟨st', hrun, hc, hun⟩ := ih (i + 1) st₀
    refine ⟨st', hrun, ?_, ?_⟩
    · intro j h1 h2
      rw [List.length_cons] at h2
      by_cases hj : j = i
      · subst hj
        have h0 : Circular st₀.links (.part j) [] := circular_init (.part j) st.links
        refine h0.congr (fun n hn => ?_)
        obtain rfl : n = .part j := by simpa using hn
        exact hun j (by omega)
      · exact hc j (by omega) (by omega)
    · intro j hj
      exact (hinit' (.part j) (by simp; omega)).trans (hun j (by omega))

section Claim

variable {parts : List PartItem} {images : List ImageInfo}

/-- When the merge serves every partition: there is nothing to attach, or the last image lies in one
of the last two partitions, inside the address space. -/
def LastServed (parts : List PartItem) (images : List ImageInfo) : Prop :=
  images = [] ∨ ∃ k part, parts[k]? = some part ∧ (∀ image ∈ images.getLast?, Lies part image) ∧
    parts.length ≤ k + 2 ∧ PartItem.stop part < 2 ^ 64

theorem imageNodes_zipIdx : imageNodes images.zipIdx = (List.range images.length).map .image := by
  have h := List.zipIdx_map_snd 0 images
  rw [imageNodes, List.range_eq_range', ← h, List.map_map]
  rfl

theorem imageNodes_zipIdx_nodup : (imageNodes images.zipIdx).Nodup := by
  rw [imageNodes_zipIdx]
  exact List.nodup_range.map (fun a b h => by simpa using h)

theorem Sorted.indexed (h : Sorted parts images) : Sorted parts (images.zipIdx.map Prod.fst) := by
  rwa [List.zipIdx_map_fst]

theorem lies_unique (h : Sorted parts images) {j k : ℕ} {p q : PartItem} {image : ImageInfo}
    (hj : parts[j]? = some p) (hk : parts[k]? = some q) (hp : Lies p image) (hq : Lies q image) : j = k := by
  obtain ⟨hj', rfl⟩ := List.getElem?_eq_some_iff.mp hj
  obtain ⟨hk', rfl⟩ := List.getElem?_eq_some_iff.mp hk
  have hpair := List.pairwise_iff_getElem.mp h.partsSorted
  obtain ⟨hp1, hp2, -⟩ := hp
  obtain ⟨hq1, hq2, -⟩ := hq
  rcases Nat.lt_trichotomy j k with hlt | heq | hlt
  · have := hpair j k hj' hk' hlt
    omega
  · exact heq
  · have := hpair k j hk' hj' hlt
    omega

theorem mapM_some {α β : Type} {f : α → Option β} {g : α → β} {l : List α} (h : ∀ x ∈ l, f x = some (g x)) :
    l.mapM f = some (l.map g) := by
  induction l with
  | nil => rfl
  | cons x l ih => simp [h x (by simp), ih (fun y hy => h y (by simp [hy]))]

theorem merged_of_lists (h : Sorted parts images) {st : MergeState}
    (hrun : mergeImginfoIntoPartinfo parts images = some (0, st))
    (hlists : ∀ i part, parts[i]? = some part → Circular st.links (.part i) (nodesIn images.zipIdx part)) :
    Merged parts images := by
  let visited : ℕ → List ListHead := fun i => (parts[i]?.map (nodesIn images.zipIdx)).getD []
  refine ⟨st, hrun, hlists, images.length + 1, (List.range parts.length).map visited, ?_, ?_⟩
  · apply mapM_some
    intro i hi
    have hi' := List.mem_range.mp hi
    have hpart := List.getElem?_eq_getElem hi'
    have hvis : visited i = nodesIn images.zipIdx parts[i] := by simp [visited, hpart]
    rw [hvis]
    apply (hlists i _ hpart).forEach
    have hle := List.length_filter_le (fun x : ImageInfo × ℕ => decide (Lies parts[i] x.1)) images.zipIdx
    rw [List.length_zipIdx] at hle
    rw [nodesIn, imageNodes, List.length_map]
    omega
  · have hmap : (List.range parts.length).map visited = parts.map (nodesIn images.zipIdx) := by
      apply List.ext_getElem
      · simp
      · intro i h1 h2
        have hi : i < parts.length := by simpa using h1
        simp [visited, hi]
    rw [hmap, nodesIn_flatten h.indexed, imageNodes_zipIdx]

/-- The merge serves all partitions exactly if its last image lies in one of the last two. -/
theorem merged_iff (h : Sorted parts images) : Merged parts images ↔ LastServed parts images := by
  by_cases hempty : images = []
  · subst hempty
    refine ⟨fun _ => .inl rfl, fun _ => ?_⟩
    obtain ⟨st, hrun, hc, -⟩ := mergeParts_empty parts 0 ⟨null, fun _ => 0, fun _ => 0⟩
    refine merged_of_lists h hrun (fun i part hi => ?_)
    obtain ⟨hi', -⟩ := List.getElem?_eq_some_iff.mp hi
    exact hc i (Nat.zero_le i) (by omega)
  · have hne : images.zipIdx ≠ [] := by simpa using hempty
    let st₀ : MergeState := ⟨null, fun _ => 0, fun _ => 0⟩
    obtain ⟨st, k, hrun, hserved⟩ : ∃ st k, mergeParts images.zipIdx 0 parts none st₀ = some (0, st) ∧
        Served parts images.zipIdx 0 k st₀ st :=
      mergeParts_served rfl hne h.indexed imageNodes_zipIdx_nodup
    obtain ⟨part, hk, hlast, hwrap⟩ := hserved.last
    have hlast' : ∀ image ∈ images.getLast?, Lies part image := by
      intro image himage
      rw [← List.zipIdx_map_fst 0 images, List.getLast?_map] at himage
      obtain ⟨x, hx, rfl⟩ := Option.map_eq_some_iff.mp himage
      exact hlast x hx
    obtain ⟨image, himage⟩ : ∃ image, images.getLast? = some image := ⟨_, List.getLast?_eq_some_getLast hempty⟩
    constructor
    · rintro ⟨st', hrun', hlists, -⟩
      rw [mergeImginfoIntoPartinfo, hrun] at hrun'
      cases hrun'
      refine .inr ⟨k, part, hk, hlast', ?_, ?_⟩
      · by_contra hlong
        have hget := List.getElem?_eq_getElem (show k + 2 < parts.length by omega)
        exact not_circular_null (hserved.unreached (k + 2) (by omega)) (hlists (k + 2) _ hget)
      · by_contra hpast
        have hnil := (hlists k part hk).unique (by simpa using hwrap (by omega))
        obtain ⟨x, hx, rfl⟩ : ∃ x ∈ images.zipIdx, x.1 = image := by
          have hmem := List.mem_of_mem_getLast? himage
          rw [← List.zipIdx_map_fst 0 images] at hmem
          exact List.mem_map.mp hmem
        have hin : ListHead.image x.2 ∈ nodesIn images.zipIdx part :=
          List.mem_map_of_mem (f := fun x : ImageInfo × ℕ => ListHead.image x.2)
            (List.mem_filter.mpr ⟨hx, by simpa using hlast' x.1 himage⟩)
        rw [hnil] at hin
        cases hin
    · rintro (hnil | ⟨k', part', hk', hl', hlen, hfit⟩)
      · exact absurd hnil hempty
      · obtain rfl := lies_unique h hk' hk (hl' image himage) (hlast' image himage)
        rw [hk] at hk'
        cases hk'
        refine merged_of_lists h hrun (fun i q hi => ?_)
        obtain ⟨hi', -⟩ := List.getElem?_eq_some_iff.mp hi
        have hlist := hserved.lists (fun p hp => by rw [hk] at hp; cases hp; exact hfit) i q hi (by omega)
        rwa [Nat.zero_add] at hlist

def smallPart (offset : UInt64) : PartItem := ⟨"part", offset, 16, "mtdblock0"⟩

def smallImage (offset : UInt64) : ImageInfo := ⟨"image", "normal", offset, 16, 0, 1⟩

theorem merged_iff_small :
    Merged [smallPart 0, smallPart 16] [smallImage 0] ↔ LastServed [smallPart 0, smallPart 16] [smallImage 0] :=
  merged_iff ⟨by decide, by decide, by decide⟩

theorem third_list_null : Sorted [smallPart 0, smallPart 16, smallPart 32] [smallImage 0] ∧
    ¬Merged [smallPart 0, smallPart 16, smallPart 32] [smallImage 0] := by
  refine ⟨⟨by decide, by decide, by decide⟩, ?_⟩
  rintro ⟨st, hrun, hlists, -⟩
  cases hrun
  exact not_circular_null rfl (hlists 2 (smallPart 32) rfl)

end Claim

end LinuxRecovery.MergeImages
