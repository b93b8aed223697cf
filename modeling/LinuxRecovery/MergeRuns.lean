import LinuxRecovery.MergeImages

namespace LinuxRecovery.MergeRuns

open CircularLists UpdateFile MergeImages

def fitting (p : PartItem) (s : List (ImageInfo × ℕ)) : List (ImageInfo × ℕ) :=
  s.takeWhile (fun x => decide (Fits p x.1))

def remaining (p : PartItem) (s : List (ImageInfo × ℕ)) : List (ImageInfo × ℕ) :=
  s.dropWhile (fun x => decide (Fits p x.1))

def exitAt (p : PartItem) : List (ImageInfo × ℕ) → InnerExit
  | [] => .exhausted
  | x :: s =>
    if x.1.offset < p.offset then .returned 0
    else if rightBoundary p ≤ x.1.offset then .left (x :: s)
    else .returned (-1)

def visit (i : ℕ) (a : List (ImageInfo × ℕ)) (st : MergeState) : Option MergeState :=
  attachAll i a { st with links := initListHead (.part i) st.links }

def attachments : List PartItem → List (ImageInfo × ℕ) → List (List (ImageInfo × ℕ))
  | [], _ => []
  | p :: parts, s => fitting p s ::
    match exitAt p (remaining p s) with
    | .returned _ => []
    | .left pos => attachments parts pos
    | .exhausted => attachments parts s

def replay : ℕ → List (List (ImageInfo × ℕ)) → MergeState → Option MergeState
  | _, [], st => some st
  | i, a :: t, st =>
    match visit i a st with
    | none => none
    | some st' => replay (i + 1) t st'

section Inner

variable {p : PartItem} {i : ℕ} {st : MergeState} {s a : List (ImageInfo × ℕ)}

theorem fitting_append_remaining (p : PartItem) (s : List (ImageInfo × ℕ)) : fitting p s ++ remaining p s = s :=
  List.takeWhile_append_dropWhile

theorem fitting_fits {x : ImageInfo × ℕ} (hx : x ∈ fitting p s) : Fits p x.1 := by
  simpa using List.mem_takeWhile_imp hx

theorem remaining_not_fits {x : ImageInfo × ℕ} {b : List (ImageInfo × ℕ)} (hb : remaining p s = x :: b) :
    ¬Fits p x.1 := by
  have hb' : s.dropWhile (fun x => decide (Fits p x.1)) = x :: b := hb
  have hhead := List.head_dropWhile_not (fun x : ImageInfo × ℕ => decide (Fits p x.1)) (l := s) (by simp [hb'])
  simpa [hb'] using hhead

theorem mergeInner_remaining (i : ℕ) (p : PartItem) (s : List (ImageInfo × ℕ)) (st : MergeState) :
    mergeInner i p (remaining p s) st = some (exitAt p (remaining p s), st) := by
  cases hb : remaining p s with
  | nil => rfl
  | cons x b =>
    have hnot := remaining_not_fits hb
    rw [mergeInner, exitAt]
    split_ifs with h1 h2 h3
    · rfl
    · rfl
    · rfl
    · exact absurd ⟨UInt64.not_lt.mp h1, UInt64.not_le.mp h2, UInt64.not_lt.mp h3⟩ hnot

theorem mergeInner_eq (i : ℕ) (p : PartItem) (s : List (ImageInfo × ℕ)) (st : MergeState) :
    mergeInner i p s st = (attachAll i (fitting p s) st).map (fun st' => (exitAt p (remaining p s), st')) := by
  have hfits : ∀ x ∈ fitting p s, Fits p x.1 := fun x hx => fitting_fits hx
  have hsplit := mergeInner_append (i := i) hfits (remaining p s) st
  rw [fitting_append_remaining] at hsplit
  rw [hsplit, Option.map_eq_bind]
  congr 1
  funext st'
  exact mergeInner_remaining i p s st'

theorem mergeParts_cons (all : List (ImageInfo × ℕ)) (i : ℕ) (p : PartItem) (parts : List PartItem)
    {posContinue : Option (List (ImageInfo × ℕ))} (hs : posContinue.getD all = s) (st : MergeState) :
    mergeParts all i (p :: parts) posContinue st =
      match visit i (fitting p s) st with
      | none => none
      | some st' =>
        match exitAt p (remaining p s) with
        | .returned r => some (r, st')
        | .left pos => mergeParts all (i + 1) parts (some pos) st'
        | .exhausted => mergeParts all (i + 1) parts posContinue st' := by
  rw [mergeParts, hs, mergeInner_eq, ← visit]
  cases visit i (fitting p s) st with
  | none => rfl
  | some st' => cases exitAt p (remaining p s) <;> rfl

structure Visited (i : ℕ) (a : List (ImageInfo × ℕ)) (st st' : MergeState) : Prop where
  ring : Circular st'.links (.part i) (imageNodes a)
  counts : st'.imageCount = Function.update st.imageCount i (st.imageCount i + UInt32.ofNat a.length)
  chunks : st'.totalChunks = Function.update st.totalChunks i (st.totalChunks i + (a.map (·.1.chunkcount)).sum)
  frame : ∀ n ∉ ListHead.part i :: imageNodes a, Untouched st st' n

theorem attached_counts (st : MergeState) (i : ℕ) (image : ImageInfo) (links : Links ListHead) :
    (st.attached i image links).imageCount = Function.update st.imageCount i (st.imageCount i + 1) ∧
      (st.attached i image links).totalChunks =
        Function.update st.totalChunks i (st.totalChunks i + image.chunkcount) := ⟨rfl, rfl⟩

theorem attachAll_counts {st' : MergeState} (h : attachAll i a st = some st') :
    st'.imageCount = Function.update st.imageCount i (st.imageCount i + UInt32.ofNat a.length) ∧
      st'.totalChunks = Function.update st.totalChunks i (st.totalChunks i + (a.map (·.1.chunkcount)).sum) := by
  induction a generalizing st with
  | nil =>
    cases h
    constructor <;> simp
  | cons x a ih =>
    rw [attachAll] at h
    cases hadd : listAddTail (.image x.2) (.part i) st.links with
    | none => simp [hadd] at h
    | some links =>
      rw [hadd] at h
      obtain ⟨h1, h2⟩ := ih h
      obtain ⟨g1, g2⟩ := attached_counts st i x.1 links
      have hone : UInt32.ofNat (a.length + 1) = 1 + UInt32.ofNat a.length := by
        rw [Nat.add_comm, UInt32.ofNat_add]
        rfl
      constructor
      · rw [h1, g1, List.length_cons, Function.update_idem, Function.update_self, hone, UInt32.add_assoc]
      · rw [h2, g2, List.map_cons, List.sum_cons, Function.update_idem, Function.update_self, UInt32.add_assoc]

theorem visit_spec (i : ℕ) (st : MergeState) (hnodup : (imageNodes a).Nodup) :
    ∃ st', visit i a st = some st' ∧ Visited i a st st' := by
  let st₀ : MergeState := { st with links := initListHead (.part i) st.links }
  have hinit : Circular st₀.links (.part i) [] := circular_init (.part i) st.links
  obtain ⟨st', hrun, hc, hun⟩ := attachAll_ring (a := a) hinit (by simpa using hnodup)
  obtain ⟨h1, h2⟩ := attachAll_counts hrun
  refine ⟨st', hrun, hc, h1, h2, fun n hn => ?_⟩
  rw [List.mem_cons, not_or] at hn
  have hinit' : Untouched st st₀ n := init_other hn.1 st.links
  exact hinit'.trans (hun n hn.1 hn.2)

theorem exitAt_left {pos : List (ImageInfo × ℕ)} (h : exitAt p s = .left pos) : pos = s := by
  cases s with
  | nil => cases h
  | cons x s =>
    rw [exitAt] at h
    split_ifs at h
    cases h
    rfl

theorem imageNodes_split (hnodup : (imageNodes s).Nodup) (p : PartItem) :
    (imageNodes (fitting p s)).Nodup ∧ (imageNodes (remaining p s)).Nodup ∧
      ∀ n ∈ imageNodes (fitting p s), n ∉ imageNodes (remaining p s) := by
  apply imageNodes_nodup
  rwa [fitting_append_remaining]

end Inner

theorem mergeParts_replays {all : List (ImageInfo × ℕ)} {s : List (ImageInfo × ℕ)} {parts : List PartItem}
    {posContinue : Option (List (ImageInfo × ℕ))} (hs : posContinue.getD all = s) (hnodup : (imageNodes s).Nodup)
    (i : ℕ) (st : MergeState) : ∃ r st', mergeParts all i parts posContinue st = some (r, st') ∧
      replay i (attachments parts s) st = some st' := by
  induction parts generalizing s posContinue i st with
  | nil => exact ⟨0, st, rfl, rfl⟩
  | cons p parts ih =>
    obtain ⟨hfit, hrem, -⟩ := imageNodes_split hnodup p
    obtain ⟨st₁, hvisit, -⟩ := visit_spec i st hfit
    rw [mergeParts_cons all i p parts hs st, attachments, replay, hvisit]
    cases hexit : exitAt p (remaining p s) with
    | returned r => exact ⟨r, st₁, rfl, rfl⟩
    | left pos =>
      obtain rfl := exitAt_left hexit
      have hpos : (some (remaining p s)).getD all = remaining p s := rfl
      exact ih hpos hrem (i + 1) st₁
    | exhausted => exact ih hs hnodup (i + 1) st₁

section Bounds

variable {parts : List PartItem} {images : List ImageInfo}

def attached (parts : List PartItem) (s : List (ImageInfo × ℕ)) : List (PartItem × ImageInfo) :=
  (parts.zip (attachments parts s)).flatMap (fun v => v.2.map (fun x => (v.1, x.1)))

/-- From its offset to its end the image is in the partition, as unbounded integers. -/
def Inside (p : PartItem) (image : ImageInfo) : Prop :=
  p.offset.toNat ≤ image.offset.toNat ∧ image.offset.toNat + image.size.toNat ≤ p.offset.toNat + p.size.toNat

/-- The merge makes exactly the attachments of the walk, each of an image inside its partition. -/
def AttachesInside (parts : List PartItem) (images : List ImageInfo) : Prop :=
  ∃ r st, mergeImginfoIntoPartinfo parts images = some (r, st) ∧
    replay 0 (attachments parts images.zipIdx) ⟨null, fun _ => 0, fun _ => 0⟩ = some st ∧
    ∀ c ∈ attached parts images.zipIdx, Inside c.1 c.2

def Holds (p : PartItem) (image : ImageInfo) : Prop := Lies p image ∧ PartItem.stop p < 2 ^ 64

/-- The image starts in the partition and ends so far past the address space that its end, less 2^64, is again
at most the partition's. -/
structure Wraps (p : PartItem) (image : ImageInfo) : Prop where
  start : p.offset.toNat ≤ image.offset.toNat
  front : image.offset.toNat < PartItem.stop p
  space : PartItem.stop p < 2 ^ 64
  wide : 2 ^ 64 ≤ image.offset.toNat + image.size.toNat
  stop : image.offset.toNat + image.size.toNat ≤ 2 ^ 64 + PartItem.stop p

def Behind (p : PartItem) (image : ImageInfo) : Prop :=
  p.offset.toNat ≤ image.offset.toNat ∧ (PartItem.stop p ≤ image.offset.toNat ∨ 2 ^ 64 ≤ PartItem.stop p)

/-- Image `k` wraps in the partition chosen for it, the images in front of it lie in theirs, the choices ascend, and
every partition between two of them is behind. -/
structure Overrun (parts : List PartItem) (images : List ImageInfo) (choice : ℕ → ℕ) (k : ℕ) : Prop where
  wraps : ∃ p ∈ parts[choice k]?, ∃ image ∈ images[k]?, Wraps p image
  holds : ∀ j < k, ∃ p ∈ parts[choice j]?, ∃ image ∈ images[j]?, Holds p image
  ascending : ∀ j < k, choice j ≤ choice (j + 1)
  first : ∀ i < choice 0, ∃ p ∈ parts[i]?, ∃ image ∈ images[0]?, Behind p image
  between : ∀ j < k, ∀ i, choice j ≤ i → i < choice (j + 1) → ∃ p ∈ parts[i]?, ∃ image ∈ images[j + 1]?, Behind p image

inductive Leads : List PartItem → List ImageInfo → Prop where
  | here {p parts image images} : Wraps p image → Leads (p :: parts) (image :: images)
  | kept {p parts image images} : Holds p image → Leads (p :: parts) images → Leads (p :: parts) (image :: images)
  | passed {p parts image images} : Behind p image → Leads parts (image :: images) →
      Leads (p :: parts) (image :: images)

theorem Fits.stop_lt {p : PartItem} {image : ImageInfo} (h : Fits p image) : PartItem.stop p < 2 ^ 64 := by
  obtain ⟨h1, h2, -⟩ := h
  have hright : (rightBoundary p).toNat = PartItem.stop p % 2 ^ 64 := by
    rw [rightBoundary, UInt64.toNat_add]
    rfl
  rw [UInt64.le_iff_toNat_le] at h1
  rw [UInt64.lt_iff_toNat_lt, hright] at h2
  have hsize := p.size.toNat_lt
  unfold PartItem.stop at h2 ⊢
  omega

theorem Fits.inside_iff {p : PartItem} {image : ImageInfo} (h : Fits p image) :
    Inside p image ↔ image.offset.toNat + image.size.toNat < 2 ^ 64 := by
  have hstop : PartItem.stop p < 2 ^ 64 := Fits.stop_lt h
  have hright := rightBoundary_toNat hstop
  obtain ⟨h1, -, h3⟩ := h
  rw [UInt64.le_iff_toNat_le, UInt64.toNat_add, hright] at h3
  constructor
  · intro hin
    exact hin.2.trans_lt hstop
  · intro hlt
    rw [Nat.mod_eq_of_lt hlt] at h3
    exact ⟨UInt64.le_iff_toNat_le.mp h1, h3⟩

theorem fits_iff (p : PartItem) (image : ImageInfo) : Fits p image ↔ Holds p image ∨ Wraps p image := by
  constructor
  · intro h
    have hstop : PartItem.stop p < 2 ^ 64 := Fits.stop_lt h
    have hright := rightBoundary_toNat hstop
    have hin := Fits.inside_iff h
    obtain ⟨h1, h2, h3⟩ := h
    rw [UInt64.lt_iff_toNat_lt, hright] at h2
    rw [UInt64.le_iff_toNat_le] at h1
    by_cases hwide : image.offset.toNat + image.size.toNat < 2 ^ 64
    · exact .inl ⟨⟨h1, h2, (hin.mpr hwide).2⟩, hstop⟩
    · rw [UInt64.le_iff_toNat_le, UInt64.toNat_add, hright] at h3
      have hsize := image.size.toNat_lt
      have hoffset := image.offset.toNat_lt
      exact .inr ⟨h1, h2, hstop, by omega, by omega⟩
  · rintro (⟨hlies, hstop⟩ | h)
    · exact Lies.fits hlies hstop
    · have hright := rightBoundary_toNat h.space
      have hwide := h.wide
      have hend := h.stop
      have hspace := h.space
      refine ⟨UInt64.le_iff_toNat_le.mpr h.start, ?_, ?_⟩
      · rw [UInt64.lt_iff_toNat_lt, hright]
        exact h.front
      · rw [UInt64.le_iff_toNat_le, UInt64.toNat_add, hright]
        omega

theorem behind_iff (p : PartItem) (image : ImageInfo) :
    Behind p image ↔ ¬image.offset < p.offset ∧ rightBoundary p ≤ image.offset := by
  rw [UInt64.not_lt, UInt64.le_iff_toNat_le, UInt64.le_iff_toNat_le, rightBoundary, UInt64.toNat_add]
  have hsize := p.size.toNat_lt
  have hoffset := p.offset.toNat_lt
  unfold Behind PartItem.stop
  constructor
  · rintro ⟨h1, h2 | h2⟩
    · exact ⟨h1, (Nat.mod_le _ _).trans h2⟩
    · exact ⟨h1, by omega⟩
  · rintro ⟨h1, h2⟩
    exact ⟨h1, by omega⟩

theorem Holds.not_wraps {p q : PartItem} {image : ImageInfo} (h : Holds p image) : ¬Wraps q image := by
  intro hw
  have hend := h.1.2.2
  have hstop := h.2
  have hwide := hw.wide
  omega

theorem Behind.exit {p : PartItem} {x : ImageInfo × ℕ} (h : Behind p x.1) (s : List (ImageInfo × ℕ)) :
    ¬Fits p x.1 ∧ exitAt p (x :: s) = .left (x :: s) := by
  obtain ⟨h1, h2⟩ := (behind_iff p x.1).mp h
  refine ⟨fun hfits => absurd hfits.2.1 (UInt64.not_lt.mpr h2), ?_⟩
  rw [exitAt, if_neg h1, if_pos h2]

theorem fitting_cons {p : PartItem} {x : ImageInfo × ℕ} (h : Fits p x.1) (s : List (ImageInfo × ℕ)) :
    fitting p (x :: s) = x :: fitting p s ∧ remaining p (x :: s) = remaining p s := by
  constructor
  · rw [fitting, List.takeWhile_cons_of_pos (by simpa using h)]
    rfl
  · rw [remaining, List.dropWhile_cons_of_pos (by simpa using h)]
    rfl

theorem fitting_stop {p : PartItem} {x : ImageInfo × ℕ} (h : ¬Fits p x.1) (s : List (ImageInfo × ℕ)) :
    fitting p (x :: s) = [] ∧ remaining p (x :: s) = x :: s := by
  constructor
  · rw [fitting, List.takeWhile_cons_of_neg (by simpa using h)]
  · rw [remaining, List.dropWhile_cons_of_neg (by simpa using h)]

theorem attached_cons (p : PartItem) (parts : List PartItem) (s : List (ImageInfo × ℕ)) :
    attached (p :: parts) s = (fitting p s).map (fun x => (p, x.1)) ++
      match exitAt p (remaining p s) with
      | .returned _ => []
      | .left pos => attached parts pos
      | .exhausted => attached parts s := by
  have hcons (t : List (List (ImageInfo × ℕ))) : ((p :: parts).zip (fitting p s :: t)).flatMap
      (fun v => v.2.map (fun x => (v.1, x.1))) = (fitting p s).map (fun x => (p, x.1)) ++
        (parts.zip t).flatMap (fun v => v.2.map (fun x => (v.1, x.1))) := rfl
  rw [attached, attachments, hcons]
  congr 1
  cases exitAt p (remaining p s) with
  | returned r => simp
  | left pos => rfl
  | exhausted => rfl

theorem Leads.visit {p : PartItem} {parts : List PartItem} {s : List (ImageInfo × ℕ)}
    (h : Leads (p :: parts) (s.map Prod.fst)) : (∃ x ∈ fitting p s, Wraps p x.1) ∨
      exitAt p (remaining p s) = .left (remaining p s) ∧ Leads parts ((remaining p s).map Prod.fst) := by
  induction s with
  | nil => cases h
  | cons x s ih =>
    cases h with
    | here hw =>
      rw [(fitting_cons ((fits_iff p x.1).mpr (.inr hw)) s).1]
      exact .inl ⟨x, List.mem_cons_self, hw⟩
    | kept hh h =>
      obtain ⟨hfit, hrem⟩ := fitting_cons ((fits_iff p x.1).mpr (.inl hh)) s
      rw [hfit, hrem]
      rcases ih h with ⟨y, hy, hw⟩ | hleft
      · exact .inl ⟨y, List.mem_cons_of_mem _ hy, hw⟩
      · exact .inr hleft
    | passed hb h =>
      obtain ⟨hnot, hexit⟩ := hb.exit s
      rw [(fitting_stop hnot s).2]
      exact .inr ⟨hexit, h⟩

theorem Leads.attached {parts : List PartItem} {s : List (ImageInfo × ℕ)} (h : Leads parts (s.map Prod.fst)) :
    ∃ c ∈ attached parts s, ¬Inside c.1 c.2 := by
  induction parts generalizing s with
  | nil => cases h
  | cons p parts ih =>
    rw [attached_cons]
    rcases h.visit with ⟨x, hx, hw⟩ | ⟨hexit, h⟩
    · refine ⟨(p, x.1), List.mem_append_left _ (List.mem_map_of_mem hx), fun hin => ?_⟩
      have hend : x.1.offset.toNat + x.1.size.toNat ≤ p.offset.toNat + p.size.toNat := hin.2
      have hspace := hw.space
      have hwide := hw.wide
      unfold PartItem.stop at hspace
      omega
    · obtain ⟨c, hc, hout⟩ := ih h
      refine ⟨c, List.mem_append_right _ ?_, hout⟩
      rwa [hexit]

theorem Leads.keep {p : PartItem} {parts : List PartItem} {a b : List (ImageInfo × ℕ)}
    (ha : ∀ x ∈ a, Holds p x.1) (h : Leads (p :: parts) (b.map Prod.fst)) :
    Leads (p :: parts) ((a ++ b).map Prod.fst) := by
  induction a with
  | nil => exact h
  | cons x a ih => exact .kept (ha x List.mem_cons_self) (ih (fun y hy => ha y (List.mem_cons_of_mem _ hy)))

theorem leads_wraps {p : PartItem} {parts : List PartItem} {s b : List (ImageInfo × ℕ)}
    (hfits : ∀ x ∈ s, Fits p x.1) {x : ImageInfo × ℕ} (hx : x ∈ s) (hw : Wraps p x.1) :
    Leads (p :: parts) ((s ++ b).map Prod.fst) := by
  induction s with
  | nil => cases hx
  | cons y s ih =>
    rcases (fits_iff p y.1).mp (hfits y List.mem_cons_self) with hy | hy
    · rcases List.mem_cons.mp hx with rfl | hx
      · exact absurd hw hy.not_wraps
      · exact .kept hy (ih (fun z hz => hfits z (List.mem_cons_of_mem _ hz)) hx)
    · exact .here hy

theorem Leads.mem {parts : List PartItem} {images : List ImageInfo} (h : Leads parts images) :
    ∃ image ∈ images, ∃ p, Wraps p image := by
  induction h with
  | here hw => exact ⟨_, List.mem_cons_self, _, hw⟩
  | kept _ _ ih =>
    obtain ⟨image, hmem, hw⟩ := ih
    exact ⟨image, List.mem_cons_of_mem _ hmem, hw⟩
  | passed _ _ ih => exact ih

theorem leads_of_attached {parts : List PartItem} {s : List (ImageInfo × ℕ)} {c : PartItem × ImageInfo}
    (hc : c ∈ attached parts s) (hout : ¬Inside c.1 c.2) : Leads parts (s.map Prod.fst) := by
  induction parts generalizing s with
  | nil => cases hc
  | cons p parts ih =>
    have hfits : ∀ x ∈ fitting p s, Fits p x.1 := fun x hx => fitting_fits hx
    have hs := fitting_append_remaining p s
    by_cases hwraps : ∃ x ∈ fitting p s, Wraps p x.1
    · obtain ⟨x, hx, hw⟩ := hwraps
      have hleads : Leads (p :: parts) ((fitting p s ++ remaining p s).map Prod.fst) := leads_wraps hfits hx hw
      rwa [hs] at hleads
    · have hholds : ∀ x ∈ fitting p s, Holds p x.1 := by
        intro x hx
        rcases (fits_iff p x.1).mp (hfits x hx) with h | h
        · exact h
        · exact absurd ⟨x, hx, h⟩ hwraps
      rw [attached_cons, List.mem_append] at hc
      rcases hc with hc | hc
      · obtain ⟨x, hx, rfl⟩ := List.mem_map.mp hc
        obtain ⟨⟨h1, -, h3⟩, -⟩ := hholds x hx
        exact absurd ⟨h1, h3⟩ hout
      · cases hb : remaining p s with
        | nil =>
          -- everything was attached here, so nothing that is attached again ends outside
          rw [hb] at hc hs
          rw [List.append_nil] at hs
          obtain ⟨image, himage, q, hw⟩ := (ih hc).mem
          obtain ⟨x, hx, rfl⟩ := List.mem_map.mp himage
          rw [← hs] at hx
          exact absurd hw (hholds x hx).not_wraps
        | cons z b =>
          rw [hb, exitAt] at hc
          split_ifs at hc with h1 h2
          · cases hc
          · have hleads := ih hc
            have hbehind : Behind p z.1 := (behind_iff p z.1).mpr ⟨h1, h2⟩
            rw [← hs, hb]
            exact .keep hholds (.passed hbehind hleads)
          · cases hc

theorem Leads.overrun {parts : List PartItem} {images : List ImageInfo} (h : Leads parts images) :
    ∃ choice k, Overrun parts images choice k := by
  induction h with
  | @here p parts image images hw =>
    refine ⟨fun _ => 0, 0, ⟨⟨p, rfl, image, rfl, hw⟩, ?_, ?_, ?_, ?_⟩⟩
    · exact fun j hj => absurd hj (Nat.not_lt_zero j)
    · exact fun j hj => absurd hj (Nat.not_lt_zero j)
    · exact fun i hi => absurd hi (Nat.not_lt_zero i)
    · exact fun j hj => absurd hj (Nat.not_lt_zero j)
  | @kept p parts image images hh _ ih =>
    obtain ⟨choice, k, ho⟩ := ih
    refine ⟨fun j => j.casesOn 0 choice, k + 1, ⟨ho.wraps, ?_, ?_, ?_, ?_⟩⟩
    · intro j hj
      cases j with
      | zero => exact ⟨p, rfl, image, rfl, hh⟩
      | succ j => exact ho.holds j (by omega)
    · intro j hj
      cases j with
      | zero => exact Nat.zero_le _
      | succ j => exact ho.ascending j (by omega)
    · exact fun i hi => absurd hi (Nat.not_lt_zero i)
    · intro j hj i hlow hhigh
      cases j with
      | zero => exact ho.first i hhigh
      | succ j => exact ho.between j (by omega) i hlow hhigh
  | @passed p parts image images hb _ ih =>
    obtain ⟨choice, k, ho⟩ := ih
    refine ⟨fun j => choice j + 1, k, ⟨ho.wraps, ho.holds, ?_, ?_, ?_⟩⟩
    · intro j hj
      have := ho.ascending j hj
      omega
    · intro i hi
      cases i with
      | zero => exact ⟨p, rfl, image, rfl, hb⟩
      | succ i => exact ho.first i (by omega)
    · intro j hj i hlow hhigh
      cases i with
      | zero => omega
      | succ i => exact ho.between j hj i (by omega) (by omega)

theorem Overrun.mono {parts : List PartItem} {images : List ImageInfo} {choice : ℕ → ℕ} {k : ℕ}
    (h : Overrun parts images choice k) : ∀ j ≤ k, choice 0 ≤ choice j := by
  intro j hj
  induction j with
  | zero => exact le_rfl
  | succ j ih =>
    have := h.ascending j (by omega)
    have := ih (by omega)
    omega

theorem Overrun.kept {p : PartItem} {parts : List PartItem} {image : ImageInfo} {images : List ImageInfo}
    {choice : ℕ → ℕ} {k : ℕ} (h : Overrun (p :: parts) (image :: images) choice (k + 1)) (h0 : choice 0 = 0) :
    Holds p image ∧ Overrun (p :: parts) images (fun j => choice (j + 1)) k := by
  obtain ⟨q, hq, y, hy, hh⟩ := h.holds 0 (Nat.succ_pos k)
  rw [h0] at hq
  cases hq
  cases hy
  refine ⟨hh, h.wraps, fun j hj => h.holds (j + 1) (by omega), fun j hj => h.ascending (j + 1) (by omega), ?_, ?_⟩
  · exact fun i hi => h.between 0 (by omega) i (by omega) hi
  · exact fun j hj => h.between (j + 1) (by omega)

theorem Overrun.passed {p : PartItem} {parts : List PartItem} {image : ImageInfo} {images : List ImageInfo}
    {choice : ℕ → ℕ} {k : ℕ} (h : Overrun (p :: parts) (image :: images) choice k) (h0 : 0 < choice 0) :
    Behind p image ∧ Overrun parts (image :: images) (fun j => choice j - 1) k := by
  obtain ⟨q, hq, y, hy, hb⟩ := h.first 0 h0
  cases hq
  cases hy
  have hpos : ∀ j ≤ k, (p :: parts)[choice j]? = parts[choice j - 1]? := by
    intro j hj
    have hle := h.mono j hj
    rw [List.getElem?_cons, if_neg (by omega)]
  have hwraps := h.wraps
  rw [hpos k le_rfl] at hwraps
  refine ⟨hb, hwraps, ?_, ?_, ?_, ?_⟩
  · intro j hj
    rw [← hpos j (by omega)]
    exact h.holds j hj
  · exact fun j hj => Nat.sub_le_sub_right (h.ascending j hj) 1
  · exact fun i hi => h.first (i + 1) (by omega)
  · intro j hj i hlow hhigh
    have hle := h.mono j (by omega)
    exact h.between j hj (i + 1) (by omega) (by omega)

theorem Overrun.leads {parts : List PartItem} {images : List ImageInfo} {choice : ℕ → ℕ} {k : ℕ}
    (h : Overrun parts images choice k) : Leads parts images := by
  induction hn : choice k + k using Nat.strong_induction_on generalizing parts images choice k with
  | _ n ih =>
    obtain ⟨p, hp, image, himage, hw⟩ := h.wraps
    cases parts with
    | nil => cases hp
    | cons q parts =>
      cases images with
      | nil => cases himage
      | cons y images =>
        rcases Nat.eq_zero_or_pos (choice 0) with h0 | h0
        · cases k with
          | zero =>
            rw [h0] at hp
            cases hp
            cases himage
            exact .here hw
          | succ k =>
            obtain ⟨hh, hrest⟩ := h.kept h0
            exact .kept hh (ih (choice (k + 1) + k) (by omega) hrest rfl)
        · obtain ⟨hb, hrest⟩ := h.passed h0
          have hle := h.mono k le_rfl
          exact .passed hb (ih (choice k - 1 + k) (by omega) hrest rfl)

theorem leads_iff (parts : List PartItem) (images : List ImageInfo) :
    Leads parts images ↔ ∃ choice k, Overrun parts images choice k :=
  ⟨Leads.overrun, fun ⟨_, _, h⟩ => h.leads⟩

/-- Every image attached is inside its partition, unless the tables bring one that wraps in front of a partition. -/
theorem attachesInside_iff (parts : List PartItem) (images : List ImageInfo) :
    AttachesInside parts images ↔ ¬∃ choice k, Overrun parts images choice k := by
  obtain ⟨r, st, hrun, hreplay⟩ := @mergeParts_replays _ _ parts none rfl
    (@imageNodes_zipIdx_nodup images) 0 ⟨null, fun _ => 0, fun _ => 0⟩
  have hfst : images.zipIdx.map Prod.fst = images := List.zipIdx_map_fst 0 images
  rw [← leads_iff]
  constructor
  · rintro ⟨-, -, -, -, hall⟩ hleads
    rw [← hfst] at hleads
    obtain ⟨c, hc, hout⟩ := hleads.attached
    exact hout (hall c hc)
  · intro hnot
    refine ⟨r, st, hrun, hreplay, fun c hc => ?_⟩
    by_contra hout
    have hleads := leads_of_attached hc hout
    rw [hfst] at hleads
    exact hnot hleads

def wideImage : ImageInfo := ⟨"image", "normal", 8, 0xfffffffffffffffc, 0, 1⟩

theorem wide_image_attached : ¬AttachesInside [smallPart 0] [wideImage] := by
  rintro ⟨-, -, -, -, hall⟩
  have hin : Inside (smallPart 0) wideImage := hall (smallPart 0, wideImage) (by decide)
  have hlt := hin.2
  revert hlt
  decide

end Bounds

end LinuxRecovery.MergeRuns
