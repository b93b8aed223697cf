import Mathlib

namespace LinuxRecovery.DirectoryTree

/-- What a directory holds, in the order in which it is read. The entry that a file system is mounted on is covered by
what that file system holds. -/
inductive Tree (ν β δ : Type) where
  | nil
  | file (name : ν) (data : β) (rest : Tree ν β δ)
  | dir (name : ν) (inside rest : Tree ν β δ)
  | mounted (name : ν) (dev : δ) (readOnly : Bool) (inside covered rest : Tree ν β δ)
  deriving DecidableEq

inductive Outcome where
  | done
  | failed
  | died
  deriving DecidableEq

inductive Made where
  | ok
  | exists
  | absent
  | notDir
  | readOnly
  deriving DecidableEq

namespace Tree

variable {ν β δ α : Type}

def names : Tree ν β δ → List ν
  | nil => []
  | file n _ rest => n :: rest.names
  | dir n _ rest => n :: rest.names
  | mounted n _ _ _ _ rest => n :: rest.names

def append : Tree ν β δ → Tree ν β δ → Tree ν β δ
  | nil, u => u
  | file n d rest, u => file n d (rest.append u)
  | dir n i rest, u => dir n i (rest.append u)
  | mounted n dev ro i c rest, u => mounted n dev ro i c (rest.append u)

def strip : Tree ν β δ → Tree ν β δ
  | nil => nil
  | file n d rest => file n d rest.strip
  | dir n i rest => dir n i.strip rest.strip
  | mounted n _ _ _ c rest => dir n c.strip rest.strip

def Mounts (P : δ → Bool → Tree ν β δ → Prop) : Tree ν β δ → Prop
  | nil => True
  | file _ _ rest => rest.Mounts P
  | dir _ i rest => i.Mounts P ∧ rest.Mounts P
  | mounted _ dev ro i c rest => P dev ro i ∧ i.Mounts P ∧ c.Mounts P ∧ rest.Mounts P

def mountedDevs : Tree ν β δ → List (δ × Bool)
  | nil => []
  | file _ _ rest => rest.mountedDevs
  | dir _ i rest => i.mountedDevs ++ rest.mountedDevs
  | mounted _ dev ro i c rest => (dev, ro) :: (i.mountedDevs ++ c.mountedDevs ++ rest.mountedDevs)

def size : Tree ν β δ → ℕ
  | nil => 0
  | file _ _ rest => rest.size + 1
  | dir _ i rest => i.size + rest.size + 1
  | mounted _ _ _ i _ rest => i.size + rest.size + 1

def first : Tree ν β δ → Tree ν β δ
  | nil => nil
  | file n d _ => file n d nil
  | dir n i _ => dir n i nil
  | mounted n dev ro i c _ => mounted n dev ro i c nil

def tail : Tree ν β δ → Tree ν β δ
  | nil => nil
  | file _ _ rest => rest
  | dir _ _ rest => rest
  | mounted _ _ _ _ _ rest => rest

/-- Remove entry after entry, each directory behind all that it holds, until one stays or the calls run out: a directory
that something is mounted on stays. -/
def removeAll : Bool → ℕ → Tree ν β δ → Outcome × ℕ × Tree ν β δ
  | _, n, nil => (.done, n, nil)
  | _, 0, file m d rest => (.died, 0, file m d rest)
  | ro, n + 1, file m d rest => if ro = true then (.failed, n, file m d rest) else removeAll ro n rest
  | ro, n, dir m i rest =>
    match removeAll ro n i with
    | (.done, 0, i) => (.died, 0, dir m i rest)
    | (.done, n + 1, i) => if ro = true then (.failed, n, dir m i rest) else removeAll ro n rest
    | (.failed, n, i) => (.failed, n, dir m i rest)
    | (.died, n, i) => (.died, n, dir m i rest)
  | _, n, mounted m dev ro i c rest =>
    match removeAll ro n i with
    | (.done, 0, i) => (.died, 0, mounted m dev ro i c rest)
    | (.done, n + 1, i) => (.failed, n, mounted m dev ro i c rest)
    | (.failed, n, i) => (.failed, n, mounted m dev ro i c rest)
    | (.died, n, i) => (.died, n, mounted m dev ro i c rest)

section Walk

variable [DecidableEq ν]

def entry (n : ν) (absent : α × Tree ν β δ) (found : Tree ν β δ → α × Tree ν β δ) : Tree ν β δ → α × Tree ν β δ
  | nil => absent
  | file m d rest => if m = n then found (file m d rest) else Prod.map id (file m d) (rest.entry n absent found)
  | dir m i rest => if m = n then found (dir m i rest) else Prod.map id (dir m i) (rest.entry n absent found)
  | mounted m dev ro i c rest =>
    if m = n then found (mounted m dev ro i c rest)
    else Prod.map id (mounted m dev ro i c) (rest.entry n absent found)

def within (act : Bool → Tree ν β δ → α × Tree ν β δ) (absent noDir : α) : Bool → Tree ν β δ → List ν → α × Tree ν β δ
  | ro, t, [] => act ro t
  | _, nil, _ :: _ => (absent, nil)
  | ro, file m d rest, n :: p =>
    if m = n then (noDir, file m d rest) else Prod.map id (file m d) (within act absent noDir ro rest (n :: p))
  | ro, dir m i rest, n :: p =>
    if m = n then Prod.map id (fun i => dir m i rest) (within act absent noDir ro i p)
    else Prod.map id (dir m i) (within act absent noDir ro rest (n :: p))
  | ro, mounted m dev ro' i c rest, n :: p =>
    if m = n then Prod.map id (fun i => mounted m dev ro' i c rest) (within act absent noDir ro' i p)
    else Prod.map id (mounted m dev ro' i c) (within act absent noDir ro rest (n :: p))

def makeDir (n : ν) (ro : Bool) (t : Tree ν β δ) : Made × Tree ν β δ :=
  t.entry n (if ro = true then (.readOnly, nil) else (.ok, dir n nil nil)) (fun t => (.exists, t))

def putFile (n : ν) (data : β) (ro : Bool) (t : Tree ν β δ) : Bool × Tree ν β δ :=
  t.entry n (if ro = true then (false, nil) else (true, file n data nil)) fun
    | file m d rest => if ro = true then (false, file m d rest) else (true, file m data rest)
    | t => (false, t)

def mountOn (n : ν) (dev : δ) (readOnly : Bool) (t inside : Tree ν β δ) : Bool × Tree ν β δ :=
  t.entry n (false, nil) fun
    | dir m i rest => (true, mounted m dev readOnly inside i rest)
    | t => (false, t)

def unmountOn (n : ν) (busy : δ → Bool) (t : Tree ν β δ) : Option (δ × Tree ν β δ) × Tree ν β δ :=
  t.entry n (none, nil) fun
    | mounted m dev ro i c rest =>
      if busy dev = true ∨ i.mountedDevs ≠ [] then (none, mounted m dev ro i c rest) else (some (dev, i), dir m c rest)
    | t => (none, t)

def removeEntry (n : ν) (calls : ℕ) (ro : Bool) (t : Tree ν β δ) : (Outcome × ℕ) × Tree ν β δ :=
  t.entry n ((.failed, calls), nil) fun t =>
    match removeAll ro calls t.first with
    | (o, left, kept) => ((o, left), kept.append t.tail)

end Walk

structure Kept (P : δ → Bool → Tree ν β δ → Prop) (ro : Bool) (t t' : Tree ν β δ) : Prop where
  mounts : t.Mounts P → t'.Mounts P
  strip : ro = true → t'.strip = t.strip

def Stable (P : δ → Bool → Tree ν β δ → Prop) : Prop :=
  ∀ dev ro i i', P dev ro i → (ro = true → i'.strip = i.strip) → P dev ro i'

variable {P : δ → Bool → Tree ν β δ → Prop} {ro : Bool} {t t' u : Tree ν β δ}

section Append

theorem append_nil (t : Tree ν β δ) : t.append nil = t := by
  induction t with
  | nil => rfl
  | file n d rest ih => rw [append, ih]
  | dir n i rest _ ih => rw [append, ih]
  | mounted n dev ro i c rest _ _ ih => rw [append, ih]

theorem append_assoc (s t u : Tree ν β δ) : (s.append t).append u = s.append (t.append u) := by
  induction s with
  | nil => rfl
  | file n d rest ih => rw [append, append, append, ih]
  | dir n i rest _ ih => rw [append, append, append, ih]
  | mounted n dev ro i c rest _ _ ih => rw [append, append, append, ih]

theorem first_tail (t : Tree ν β δ) : t.first.append t.tail = t := by
  cases t <;> rfl

theorem strip_append (t u : Tree ν β δ) : (t.append u).strip = t.strip.append u.strip := by
  induction t with
  | nil => rfl
  | file n d rest ih => rw [append, strip, strip, append, ih]
  | dir n i rest _ ih => rw [append, strip, strip, append, ih]
  | mounted n dev ro i c rest _ _ ih => rw [append, strip, strip, append, ih]

theorem mounts_append (t u : Tree ν β δ) : (t.append u).Mounts P ↔ t.Mounts P ∧ u.Mounts P := by
  induction t with
  | nil => exact (and_iff_right trivial).symm
  | file n d rest ih => exact ih
  | dir n i rest _ ih => rw [append, Mounts, Mounts, ih, and_assoc]
  | mounted n dev ro i c rest _ _ ih => rw [append, Mounts, Mounts, ih, and_assoc, and_assoc, and_assoc]

theorem names_append (t u : Tree ν β δ) : (t.append u).names = t.names ++ u.names := by
  induction t with
  | nil => rfl
  | file n d rest ih => rw [append, names, names, ih, List.cons_append]
  | dir n i rest _ ih => rw [append, names, names, ih, List.cons_append]
  | mounted n dev ro i c rest _ _ ih => rw [append, names, names, ih, List.cons_append]

theorem mountedDevs_append (t u : Tree ν β δ) : (t.append u).mountedDevs = t.mountedDevs ++ u.mountedDevs := by
  induction t with
  | nil => rfl
  | file n d rest ih => exact ih
  | dir n i rest _ ih => rw [append, mountedDevs, mountedDevs, ih, List.append_assoc]
  | mounted n dev ro i c rest _ _ ih =>
    rw [append, mountedDevs, mountedDevs, ih, List.cons_append, List.append_assoc _ rest.mountedDevs]

end Append

theorem mounts_mono {Q : δ → Bool → Tree ν β δ → Prop} (h : ∀ dev ro i, P dev ro i → Q dev ro i) (ht : t.Mounts P) :
    t.Mounts Q := by
  induction t with
  | nil => trivial
  | file n d rest ih => exact ih ht
  | dir n i rest ihi ih => exact ⟨ihi ht.1, ih ht.2⟩
  | mounted n dev ro i c rest ihi ihc ih => exact ⟨h _ _ _ ht.1, ihi ht.2.1, ihc ht.2.2.1, ih ht.2.2.2⟩

theorem strip_unmounted (h : t.mountedDevs = []) : t.strip = t := by
  induction t with
  | nil => rfl
  | file n d rest ih => rw [strip, ih h]
  | dir n i rest ihi ih => rw [strip, ihi (List.append_eq_nil_iff.mp h).1, ih (List.append_eq_nil_iff.mp h).2]
  | mounted n dev ro i c rest => exact absurd h (List.cons_ne_nil _ _)

theorem mounts_none (h : t.mountedDevs = []) : t.Mounts P := by
  induction t with
  | nil => trivial
  | file n d rest ih => exact ih h
  | dir n i rest ihi ih => exact ⟨ihi (List.append_eq_nil_iff.mp h).1, ih (List.append_eq_nil_iff.mp h).2⟩
  | mounted n dev ro i c rest => exact absurd h (List.cons_ne_nil _ _)

theorem mounts_other {dev : δ} (ht : t.Mounts P) (h : dev ∉ t.mountedDevs.map Prod.fst) :
    t.Mounts fun d ro i => d ≠ dev ∧ P d ro i := by
  induction t with
  | nil => trivial
  | file n d rest ih => exact ih ht h
  | dir n i rest ihi ih =>
    rw [mountedDevs, List.map_append, List.mem_append, not_or] at h
    exact ⟨ihi ht.1 h.1, ih ht.2 h.2⟩
  | mounted n d ro i c rest ihi ihc ih =>
    rw [mountedDevs, List.map_cons, List.map_append, List.map_append, List.mem_cons, List.mem_append, List.mem_append, not_or,
      not_or, not_or] at h
    exact ⟨⟨Ne.symm h.1, ht.1⟩, ihi ht.2.1 h.2.1.1, ihc ht.2.2.1 h.2.1.2, ih ht.2.2.2 h.2.2⟩

namespace Kept

theorem refl : Kept P ro t t := ⟨id, fun _ => rfl⟩

theorem trans (h : Kept P ro t t') (h' : Kept P ro t' u) : Kept P ro t u :=
  ⟨h'.mounts ∘ h.mounts, fun hro => (h'.strip hro).trans (h.strip hro)⟩

theorem file {n : ν} {d : β} (h : Kept P ro t t') : Kept P ro (.file n d t) (.file n d t') :=
  ⟨h.mounts, fun hro => by rw [Tree.strip, Tree.strip, h.strip hro]⟩

theorem dir {n : ν} (h : Kept P ro t t') : Kept P ro (.dir n u t) (.dir n u t') :=
  ⟨fun hm => ⟨hm.1, h.mounts hm.2⟩, fun hro => by rw [Tree.strip, Tree.strip, h.strip hro]⟩

theorem inside {n : ν} (h : Kept P ro t t') : Kept P ro (.dir n t u) (.dir n t' u) :=
  ⟨fun hm => ⟨h.mounts hm.1, hm.2⟩, fun hro => by rw [Tree.strip, Tree.strip, h.strip hro]⟩

theorem mounted {n : ν} {dev : δ} {ro' : Bool} {i c : Tree ν β δ} (h : Kept P ro t t') :
    Kept P ro (.mounted n dev ro' i c t) (.mounted n dev ro' i c t') :=
  ⟨fun hm => ⟨hm.1, hm.2.1, hm.2.2.1, h.mounts hm.2.2.2⟩, fun hro => by rw [Tree.strip, Tree.strip, h.strip hro]⟩

theorem below {n : ν} {dev : δ} {ro' : Bool} {c : Tree ν β δ} (hP : Stable P) (h : Kept P ro' t t') :
    Kept P ro (.mounted n dev ro' t c u) (.mounted n dev ro' t' c u) :=
  ⟨fun hm => ⟨hP _ _ _ _ hm.1 h.strip, h.mounts hm.2.1, hm.2.2⟩, fun _ => rfl⟩

theorem append (h : Kept P ro t t') : Kept P ro (t.append u) (t'.append u) := by
  constructor
  · rw [mounts_append, mounts_append]
    exact And.imp_left h.mounts
  · intro hro
    rw [strip_append, strip_append, h.strip hro]

theorem dropped (hro : ro ≠ true) (h : Kept P ro t.tail t') : Kept P ro t t' := by
  refine ⟨fun hm => h.mounts ?_, fun htrue => absurd htrue hro⟩
  rw [← first_tail t, mounts_append] at hm
  exact hm.2

end Kept

theorem removeAll_kept (hP : Stable P) (ro : Bool) (n : ℕ) (t : Tree ν β δ) : Kept P ro t (removeAll ro n t).2.2 := by
  induction t generalizing ro n with
  | nil => exact .refl
  | file m d rest ih =>
    cases n with
    | zero => exact .refl
    | succ n =>
      rw [removeAll]
      split_ifs with hro
      · exact .refl
      · exact .dropped hro (ih ro n)
  | dir m i rest ihi ih =>
    have hin := ihi ro n
    rw [removeAll]
    cases hr : removeAll ro n i with
    | mk o r =>
      obtain ⟨left, i'⟩ := r
      rw [hr] at hin
      cases o with
      | failed => exact hin.inside
      | died => exact hin.inside
      | done =>
        cases left with
        | zero => exact hin.inside
        | succ left =>
          dsimp only
          split_ifs with hro
          · exact hin.inside
          · exact .dropped hro (ih ro left)
  | mounted m dev ro' i c rest ihi _ _ =>
    have hin := ihi ro' n
    rw [removeAll]
    cases hr : removeAll ro' n i with
    | mk o r =>
      obtain ⟨left, i'⟩ := r
      rw [hr] at hin
      cases o with
      | failed => exact hin.below hP
      | died => exact hin.below hP
      | done => cases left <;> exact hin.below hP

theorem removeAll_clear (h : t.Mounts fun _ _ _ => False) (n : ℕ) : removeAll false (t.size + n) t = (.done, n, nil) := by
  induction t generalizing n with
  | nil => rw [size, zero_add]; rfl
  | file m d rest ih =>
    rw [size, show rest.size + 1 + n = (rest.size + n) + 1 by omega, removeAll, if_neg Bool.false_ne_true]
    exact ih h n
  | dir m i rest ihi ih =>
    rw [size, show i.size + rest.size + 1 + n = i.size + (rest.size + n + 1) by omega, removeAll, ihi h.1]
    exact ih h.2 n
  | mounted m dev ro i c rest => exact h.1.elim

section Walk

variable [DecidableEq ν] {n : ν} {absent : α × Tree ν β δ} {found : Tree ν β δ → α × Tree ν β δ}

theorem entry_kept (ha : Kept P ro nil absent.2) (hf : ∀ t, Kept P ro t (found t).2) (t : Tree ν β δ) :
    Kept P ro t (t.entry n absent found).2 := by
  induction t with
  | nil => exact ha
  | file m d rest ih =>
    rw [entry]
    split_ifs
    · exact hf _
    · exact ih.file
  | dir m i rest _ ih =>
    rw [entry]
    split_ifs
    · exact hf _
    · exact ih.dir
  | mounted m dev ro' i c rest _ _ ih =>
    rw [entry]
    split_ifs
    · exact hf _
    · exact ih.mounted

theorem entry_append (h : n ∉ t.names) (u : Tree ν β δ) :
    (t.append u).entry n absent found = Prod.map id t.append (u.entry n absent found) := by
  induction t with
  | nil => rfl
  | file m d rest ih =>
    have hn := not_or.mp (mt List.mem_cons.mpr h)
    rw [append, entry, if_neg (Ne.symm hn.1), ih hn.2]
    rfl
  | dir m i rest _ ih =>
    have hn := not_or.mp (mt List.mem_cons.mpr h)
    rw [append, entry, if_neg (Ne.symm hn.1), ih hn.2]
    rfl
  | mounted m dev ro' i c rest _ _ ih =>
    have hn := not_or.mp (mt List.mem_cons.mpr h)
    rw [append, entry, if_neg (Ne.symm hn.1), ih hn.2]
    rfl

theorem removeEntry_dir {i : Tree ν β δ} (h : n ∉ t.names) (hi : i.Mounts fun _ _ _ => False) (rest : Tree ν β δ) (calls : ℕ) :
    removeEntry n (i.size + 1 + calls) false (t.append (dir n i rest)) = ((.done, calls), t.append rest) := by
  have hall : removeAll false (i.size + 1 + calls) (dir n i nil) = (.done, calls, nil) :=
    removeAll_clear (t := dir n i nil) ⟨hi, trivial⟩ calls
  rw [removeEntry, entry_append h, entry, if_pos rfl]
  dsimp only [first]
  rw [hall]
  rfl

variable {act : Bool → Tree ν β δ → α × Tree ν β δ} {none noDir : α}

theorem within_kept (hP : Stable P) (hact : ∀ ro t, Kept P ro t (act ro t).2) (ro : Bool) (t : Tree ν β δ) (p : List ν) :
    Kept P ro t (within act none noDir ro t p).2 := by
  induction t generalizing ro p with
  | nil =>
    cases p with
    | nil => exact hact ro _
    | cons n p => exact .refl
  | file m d rest ih =>
    cases p with
    | nil => exact hact ro _
    | cons n p =>
      rw [within]
      split_ifs
      · exact .refl
      · exact (ih ro _).file
  | dir m i rest ihi ih =>
    cases p with
    | nil => exact hact ro _
    | cons n p =>
      rw [within]
      split_ifs
      · exact (ihi ro p).inside
      · exact (ih ro _).dir
  | mounted m dev ro' i c rest ihi _ ih =>
    cases p with
    | nil => exact hact ro _
    | cons n p =>
      rw [within]
      split_ifs
      · exact (ihi ro' p).below hP
      · exact (ih ro _).mounted

theorem within_append {p : List ν} (h : n ∉ t.names) (u : Tree ν β δ) :
    within act none noDir ro (t.append u) (n :: p) = Prod.map id t.append (within act none noDir ro u (n :: p)) := by
  induction t with
  | nil => rfl
  | file m d rest ih =>
    have hn := not_or.mp (mt List.mem_cons.mpr h)
    rw [append, within, if_neg (Ne.symm hn.1), ih hn.2]
    rfl
  | dir m i rest _ ih =>
    have hn := not_or.mp (mt List.mem_cons.mpr h)
    rw [append, within, if_neg (Ne.symm hn.1), ih hn.2]
    rfl
  | mounted m dev ro' i c rest _ _ ih =>
    have hn := not_or.mp (mt List.mem_cons.mpr h)
    rw [append, within, if_neg (Ne.symm hn.1), ih hn.2]
    rfl

theorem entry_result {Q : α → Prop} (ha : Q absent.1) (hf : ∀ t, t.Mounts P → Q (found t).1) (ht : t.Mounts P) :
    Q (t.entry n absent found).1 := by
  induction t with
  | nil => exact ha
  | file m d rest ih =>
    rw [entry]
    split_ifs
    · exact hf _ ht
    · exact ih ht
  | dir m i rest _ ih =>
    rw [entry]
    split_ifs
    · exact hf _ ht
    · exact ih ht.2
  | mounted m dev ro' i c rest _ _ ih =>
    rw [entry]
    split_ifs
    · exact hf _ ht
    · exact ih ht.2.2.2

theorem within_result {Q : α → Prop} (ha : Q none) (hn : Q noDir) (hact : ∀ ro t, t.Mounts P → Q (act ro t).1)
    (ro : Bool) (p : List ν) (ht : t.Mounts P) : Q (within act none noDir ro t p).1 := by
  induction t generalizing ro p with
  | nil =>
    cases p with
    | nil => exact hact ro _ ht
    | cons n p => exact ha
  | file m d rest ih =>
    cases p with
    | nil => exact hact ro _ ht
    | cons n p =>
      rw [within]
      split_ifs
      · exact hn
      · exact ih ro _ ht
  | dir m i rest ihi ih =>
    cases p with
    | nil => exact hact ro _ ht
    | cons n p =>
      rw [within]
      split_ifs
      · exact ihi ro p ht.1
      · exact ih ro _ ht.2
  | mounted m dev ro' i c rest ihi _ ih =>
    cases p with
    | nil => exact hact ro _ ht
    | cons n p =>
      rw [within]
      split_ifs
      · exact ihi ro' p ht.2.1
      · exact ih ro _ ht.2.2.2

theorem unmountOn_result (n : ν) (busy : δ → Bool) (ht : t.Mounts P) {dev : δ} {i : Tree ν β δ} :
    (t.unmountOn n busy).1 = some (dev, i) → i.mountedDevs = [] ∧ ∃ ro, P dev ro i := by
  refine entry_result (Q := fun r => r = some (dev, i) → i.mountedDevs = [] ∧ ∃ ro, P dev ro i) ?_ (fun t ht => ?_) ht
  · exact nofun
  · cases t with
    | mounted m dev' ro i' c rest =>
      dsimp only
      split_ifs with hbusy
      · exact nofun
      · intro h
        obtain ⟨rfl, rfl⟩ := Prod.mk.inj (Option.some.inj h)
        exact ⟨of_not_not (not_or.mp hbusy).2, ro, ht.1⟩
    | nil => exact nofun
    | file m d rest => exact nofun
    | dir m i rest => exact nofun

theorem makeDir_kept (n : ν) (ro : Bool) (t : Tree ν β δ) : Kept P ro t (t.makeDir n ro).2 := by
  refine entry_kept ?_ (fun _ => .refl) t
  split_ifs with hro
  · exact .refl
  · exact ⟨fun _ => ⟨trivial, trivial⟩, fun h => absurd h hro⟩

theorem putFile_kept (n : ν) (data : β) (ro : Bool) (t : Tree ν β δ) : Kept P ro t (t.putFile n data ro).2 := by
  refine entry_kept ?_ (fun t => ?_) t
  · split_ifs with hro
    · exact .refl
    · exact ⟨fun _ => trivial, fun h => absurd h hro⟩
  · cases t with
    | file m d rest =>
      dsimp only
      split_ifs with hro
      · exact .refl
      · exact ⟨id, fun h => absurd h hro⟩
    | nil => exact .refl
    | dir m i rest => exact .refl
    | mounted m dev ro' i c rest => exact .refl

theorem mountOn_kept {dev : δ} {ro' : Bool} {i : Tree ν β δ} (h : P dev ro' i) (hi : i.Mounts P) (n : ν) (ro : Bool)
    (t : Tree ν β δ) : Kept P ro t (t.mountOn n dev ro' i).2 := by
  refine entry_kept ?_ (fun t => ?_) t
  · exact .refl
  cases t with
  | dir m c rest => exact ⟨fun hm => ⟨h, hi, hm⟩, fun _ => rfl⟩
  | nil => exact .refl
  | file m d rest => exact .refl
  | mounted m dev ro' i c rest => exact .refl

theorem unmountOn_kept (n : ν) (busy : δ → Bool) (ro : Bool) (t : Tree ν β δ) : Kept P ro t (t.unmountOn n busy).2 := by
  refine entry_kept ?_ (fun t => ?_) t
  · exact .refl
  cases t with
  | mounted m dev ro' i c rest =>
    dsimp only
    split_ifs
    · exact .refl
    · exact ⟨fun hm => hm.2.2, fun _ => rfl⟩
  | nil => exact .refl
  | file m d rest => exact .refl
  | dir m i rest => exact .refl

theorem removeEntry_kept (hP : Stable P) (n : ν) (calls : ℕ) (ro : Bool) (t : Tree ν β δ) :
    Kept P ro t (t.removeEntry n calls ro).2 := by
  refine entry_kept ?_ (fun t => ?_) t
  · exact .refl
  have h := (removeAll_kept hP ro calls t.first).append (u := t.tail)
  rwa [first_tail] at h

end Walk

end Tree

end LinuxRecovery.DirectoryTree
