import Mathlib

namespace LinuxRecovery.CircularLists

variable {N : Type} [DecidableEq N]

/-- The `next` and `prev` fields of every node; a node never written has null ones. -/
structure Links (N : Type) where
  next : N → Option N
  prev : N → Option N

def null : Links N := ⟨fun _ => none, fun _ => none⟩

def initListHead (n : N) (h : Links N) : Links N :=
  ⟨Function.update h.next n (some n), Function.update h.prev n (some n)⟩

def listAdd (new prev next : N) (h : Links N) : Links N :=
  ⟨Function.update (Function.update h.next new (some next)) prev (some new),
    Function.update (Function.update h.prev next (some new)) new (some prev)⟩

def listAddTail (new head : N) (h : Links N) : Option (Links N) :=
  (h.prev head).map (fun prev => listAdd new prev head h)

/-- The nodes a loop over the list visits from `pos` on; it fails at a null node. -/
def listForEach (h : Links N) (head : N) : ℕ → Option N → Option (List N)
  | 0, _ => none
  | _ + 1, none => none
  | fuel + 1, some n => if n = head then some [] else (listForEach h head fuel (h.next n)).map (n :: ·)

def Linked (h : Links N) : N → List N → N → Prop
  | a, [], b => h.next a = some b ∧ h.prev b = some a
  | a, x :: xs, b => h.next a = some x ∧ h.prev x = some a ∧ Linked h x xs b

structure Circular (h : Links N) (head : N) (xs : List N) : Prop where
  nodup : (head :: xs).Nodup
  linked : Linked h head xs head

def Reaches (h : Links N) : N → N → Prop := Relation.ReflTransGen (fun n m => h.next n = some m)

variable {h h' : Links N} {head : N} {xs ys : List N}

theorem listForEach_mono {fuel fuel' : ℕ} {pos : Option N} (hle : fuel ≤ fuel')
    (hrun : listForEach h head fuel pos = some xs) : listForEach h head fuel' pos = some xs := by
  induction fuel generalizing fuel' pos xs with
  | zero => cases hrun
  | succ fuel ih =>
    obtain ⟨fuel', rfl⟩ : ∃ k, fuel' = k + 1 := ⟨fuel' - 1, by omega⟩
    cases pos with
    | none => cases hrun
    | some n =>
      rw [listForEach] at hrun ⊢
      split_ifs at hrun ⊢ with hn
      · exact hrun
      · obtain ⟨ys, hys, rfl⟩ := Option.map_eq_some_iff.mp hrun
        rw [ih (by omega) hys]
        rfl

omit [DecidableEq N] in
theorem Linked.congr {a b : N} (hl : Linked h a xs b) (hnext : ∀ n ∈ a :: xs, h'.next n = h.next n)
    (hprev : ∀ n ∈ b :: xs, h'.prev n = h.prev n) : Linked h' a xs b := by
  induction xs generalizing a with
  | nil => exact ⟨(hnext a (by simp)).trans hl.1, (hprev b (by simp)).trans hl.2⟩
  | cons x xs ih =>
    refine ⟨(hnext a (by simp)).trans hl.1, (hprev x (by simp)).trans hl.2.1, ih hl.2.2 ?_ ?_⟩
    · exact fun n hn => hnext n (List.mem_cons_of_mem a hn)
    · intro n hn
      rcases List.mem_cons.mp hn with rfl | hn
      · exact hprev n (by simp)
      · exact hprev n (by simp [hn])

omit [DecidableEq N] in
theorem Circular.congr (hc : Circular h head xs)
    (heq : ∀ n ∈ head :: xs, h'.next n = h.next n ∧ h'.prev n = h.prev n) : Circular h' head xs :=
  ⟨hc.nodup, hc.linked.congr (fun n hn => (heq n hn).1) (fun n hn => (heq n hn).2)⟩

theorem circular_init (n : N) (h : Links N) : Circular (initListHead n h) n [] :=
  ⟨by simp, by simp [Linked, initListHead]⟩

theorem init_other {n m : N} (hne : m ≠ n) (h : Links N) :
    (initListHead n h).next m = h.next m ∧ (initListHead n h).prev m = h.prev m := by
  simp [initListHead, hne]

omit [DecidableEq N] in
theorem Linked.prev_last {a b : N} (hl : Linked h a xs b) :
    h.prev b = some ((a :: xs).getLast (List.cons_ne_nil a xs)) := by
  induction xs generalizing a with
  | nil => exact hl.2
  | cons x xs ih => rw [ih hl.2.2, List.getLast_cons (List.cons_ne_nil x xs)]

theorem linked_listAdd {a b new : N} (hl : Linked h a xs b) (hnodup : (a :: xs).Nodup) (hb : b ∉ xs)
    (hnew : new ∉ a :: xs) (hnewb : new ≠ b) :
    Linked (listAdd new ((a :: xs).getLast (List.cons_ne_nil a xs)) b h) a (xs ++ [new]) b := by
  induction xs generalizing a with
  | nil =>
    have hna : a ≠ new := fun he => hnew (by simp [he])
    refine ⟨?_, ?_, ?_, ?_⟩ <;> simp [listAdd, hna.symm, hnewb.symm]
  | cons x xs ih =>
    rw [List.getLast_cons (List.cons_ne_nil x xs)]
    have hlast := List.getLast_mem (List.cons_ne_nil x xs)
    have ha : a ≠ (x :: xs).getLast (List.cons_ne_nil x xs) := fun he =>
      (List.nodup_cons.mp hnodup).1 (he ▸ hlast)
    have hna : a ≠ new := fun he => hnew (by simp [he])
    have hnx : x ≠ new := fun he => hnew (by simp [he])
    have hbx : x ≠ b := fun he => hb (by simp [he])
    refine ⟨?_, ?_, ih hl.2.2 (List.nodup_cons.mp hnodup).2 (fun hm => hb (by simp [hm]))
      (fun hm => hnew (List.mem_cons_of_mem a hm))⟩
    · simpa [listAdd, ha, hna] using hl.1
    · simpa [listAdd, hnx, hbx] using hl.2.1

theorem Circular.addTail {new : N} (hc : Circular h head xs) (hnew : new ∉ head :: xs) :
    ∃ h', listAddTail new head h = some h' ∧ Circular h' head (xs ++ [new]) ∧
      ∀ n ∉ new :: head :: xs, h'.next n = h.next n ∧ h'.prev n = h.prev n := by
  obtain ⟨hhead, hxs⟩ := List.nodup_cons.mp hc.nodup
  have hne : new ≠ head := fun he => hnew (by simp [he])
  refine ⟨listAdd new ((head :: xs).getLast (List.cons_ne_nil head xs)) head h, ?_, ⟨?_, ?_⟩, ?_⟩
  · rw [listAddTail, hc.linked.prev_last]
    rfl
  · rw [← List.cons_append]
    exact List.Nodup.append hc.nodup (List.nodup_singleton new) (by simpa using hnew)
  · exact linked_listAdd hc.linked hc.nodup hhead hnew hne
  · intro n hn
    rw [List.mem_cons, not_or] at hn
    have hlast : n ≠ (head :: xs).getLast (List.cons_ne_nil head xs) := fun he =>
      hn.2 (he ▸ List.getLast_mem (List.cons_ne_nil head xs))
    have hnh : n ≠ head := fun he => hn.2 (by simp [he])
    simp [listAdd, hn.1, hlast, hnh]

theorem Linked.forEach {a : N} (hl : Linked h a xs head) (hhead : head ∉ xs) {fuel : ℕ}
    (hf : xs.length < fuel) : listForEach h head fuel (h.next a) = some xs := by
  induction xs generalizing a fuel with
  | nil =>
    obtain ⟨fuel, rfl⟩ : ∃ k, fuel = k + 1 := ⟨fuel - 1, by omega⟩
    simp [listForEach, hl.1]
  | cons x xs ih =>
    obtain ⟨fuel, rfl⟩ : ∃ k, fuel = k + 1 := ⟨fuel - 1, by omega⟩
    rw [List.mem_cons, not_or] at hhead
    rw [List.length_cons] at hf
    rw [hl.1, listForEach, if_neg (Ne.symm hhead.1), ih hl.2.2 hhead.2 (by omega)]
    rfl

theorem Circular.forEach (hc : Circular h head xs) {fuel : ℕ} (hf : xs.length < fuel) :
    listForEach h head fuel (h.next head) = some xs :=
  hc.linked.forEach (List.nodup_cons.mp hc.nodup).1 hf

theorem Circular.unique (hx : Circular h head xs) (hy : Circular h head ys) : xs = ys := by
  have h1 := hx.forEach (show xs.length < xs.length + ys.length + 1 by omega)
  rw [hy.forEach (by omega)] at h1
  exact (Option.some.inj h1).symm

theorem not_circular_null (hn : h.next head = none) : ¬Circular h head xs := by
  intro hc
  have := hc.forEach (Nat.lt_succ_self _)
  rw [hn] at this
  cases this

omit [DecidableEq N] in
theorem Linked.reaches {a b : N} (hl : Linked h a xs b) {x : N} (hx : x ∈ xs) : Reaches h a x := by
  induction xs generalizing a with
  | nil => cases hx
  | cons y xs ih =>
    have hy : Reaches h a y := Relation.ReflTransGen.single hl.1
    rcases List.mem_cons.mp hx with rfl | hx
    · exact hy
    · exact hy.trans (ih hl.2.2 hx)

omit [DecidableEq N] in
theorem Linked.next_mem {a b : N} (hl : Linked h a xs b) {x y : N} (hx : x ∈ a :: xs) (hy : h.next x = some y) :
    y ∈ xs ++ [b] := by
  induction xs generalizing a with
  | nil =>
    obtain rfl : x = a := by simpa using hx
    have := hl.1.symm.trans hy
    simpa using this.symm
  | cons z xs ih =>
    rcases List.mem_cons.mp hx with rfl | hx
    · have := hl.1.symm.trans hy
      simp only [Option.some.injEq] at this
      simp [this]
    · rw [List.cons_append]
      exact List.mem_cons_of_mem z (ih hl.2.2 hx)

omit [DecidableEq N] in
theorem Circular.reaches_iff (hc : Circular h head xs) {n : N} (hne : n ≠ head) : Reaches h head n ↔ n ∈ xs := by
  constructor
  · intro hr
    have hmem : n ∈ head :: xs := by
      clear hne
      induction hr with
      | refl => simp
      | tail _ hstep ih =>
        have := hc.linked.next_mem (by simpa using ih) hstep
        simp only [List.mem_append, List.mem_singleton] at this
        rcases this with hm | rfl
        · simp [hm]
        · simp
    exact (List.mem_cons.mp hmem).resolve_left hne
  · exact hc.linked.reaches

omit [DecidableEq N] in
theorem Reaches.stuck {a n : N} (hr : Reaches h a n) (ha : h.next a = some a ∨ h.next a = none) : n = a := by
  induction hr with
  | refl => rfl
  | tail _ hstep ih =>
    subst ih
    rcases ha with ha | ha
    · exact (Option.some.inj (ha.symm.trans hstep)).symm
    · cases ha.symm.trans hstep

omit [DecidableEq N] in
theorem Reaches.last {a n : N} (hr : Reaches h a n) (hne : a ≠ n) : ∃ m, h.next m = some n := by
  rcases Relation.ReflTransGen.cases_tail hr with rfl | ⟨m, -, hm⟩
  · exact absurd rfl hne
  · exact ⟨m, hm⟩

end LinuxRecovery.CircularLists
