import Mathlib

namespace LinuxRecovery.Traces

variable {C α β γ : Type}

def Prog (C α : Type) : Type := List (C × Bool) → Option α × List (C × Bool)

namespace Prog

def done (a : α) : Prog C α := fun tr => (some a, tr)

def bind (p : Prog C α) (f : α → Prog C β) : Prog C β := fun tr =>
  match p tr with
  | (some a, tr) => f a tr
  | (none, tr) => (none, tr)

instance : Monad (Prog C) where
  pure := done
  bind := bind

def attempt (ok : List (C × Bool) → Bool) (c : C) : Prog C Unit := fun tr =>
  (if ok tr = true then some () else none, tr ++ [(c, ok tr)])

def perform (answer : List (C × Bool) → Option α) (c : C) : Prog C α := fun tr =>
  (answer tr, tr ++ [(c, (answer tr).isSome)])

def query (answer : List (C × Bool) → Option α) : Prog C α := fun tr => (answer tr, tr)

def require (ok : Prop) [Decidable ok] : Prog C Unit := query (fun _ => if ok then some () else none)

def ignore (c : C) : Prog C Unit := fun tr => (some (), tr ++ [(c, true)])

end Prog

variable (kept barred : C → Bool)

def keptCalls (tr : List (C × Bool)) : List C := (tr.map Prod.fst).filter kept

/-- However its calls go, `p` makes no barred one, and it comes to a value only if all of them
succeed: the value is then `a`, and the kept calls are `cs`. -/
def Does (p : Prog C α) (a : α) (cs : List C) : Prop :=
  ∀ tr, ∃ new, (p tr).2 = tr ++ new ∧ (∀ e ∈ new, barred e.1 = false) ∧
    ((∃ e ∈ new, e.2 = false) → (p tr).1 = none) ∧
    ∀ b, (p tr).1 = some b → b = a ∧ keptCalls kept new = cs

variable {kept barred}

theorem keptCalls_append (s t : List (C × Bool)) :
    keptCalls kept (s ++ t) = keptCalls kept s ++ keptCalls kept t := by
  simp [keptCalls]

theorem does_done (a : α) : Does kept barred (Prog.done a : Prog C α) a [] := by
  intro tr
  refine ⟨[], by simp [Prog.done], by simp, by simp, ?_⟩
  intro b hb
  exact ⟨(Option.some.inj hb).symm, rfl⟩

theorem does_bind {p : Prog C α} {f : α → Prog C β} {a : α} {b : β} {cs ds : List C}
    (hp : Does kept barred p a cs) (hf : Does kept barred (f a) b ds) :
    Does kept barred (p.bind f) b (cs ++ ds) := by
  intro tr
  obtain ⟨new, htr, hbar, hfail, hval⟩ := hp tr
  cases hr : (p tr).1 with
  | none =>
    have hbind : p.bind f tr = (none, tr ++ new) := by
      rw [Prog.bind, show p tr = (none, tr ++ new) from Prod.ext hr htr]
    refine ⟨new, by rw [hbind], hbar, fun _ => by rw [hbind], ?_⟩
    intro c hc
    rw [hbind] at hc
    cases hc
  | some x =>
    obtain ⟨rfl, hcs⟩ := hval x hr
    have hok (e : C × Bool) (he : e ∈ new) : e.2 = true := by
      by_contra hne
      have := hfail ⟨e, he, by simpa using hne⟩
      rw [hr] at this
      cases this
    obtain ⟨new', htr', hbar', hfail', hval'⟩ := hf (tr ++ new)
    have hbind : p.bind f tr = f x (tr ++ new) := by
      rw [Prog.bind, show p tr = (some x, tr ++ new) from Prod.ext hr htr]
    refine ⟨new ++ new', ?_, ?_, ?_, ?_⟩
    · rw [hbind, htr', List.append_assoc]
    · intro e he
      exact (List.mem_append.mp he).elim (hbar e) (hbar' e)
    · rintro ⟨e, he, hfalse⟩
      rw [hbind]
      rcases List.mem_append.mp he with h | h
      · exact absurd (hok e h) (by simp [hfalse])
      · exact hfail' ⟨e, h, hfalse⟩
    · intro c hc
      rw [hbind] at hc
      obtain ⟨rfl, hds⟩ := hval' c hc
      exact ⟨rfl, by rw [keptCalls_append, hcs, hds]⟩

theorem does_attempt {ok : List (C × Bool) → Bool} {c : C} (hc : barred c = false) :
    Does kept barred (Prog.attempt ok c) () (if kept c = true then [c] else []) := by
  intro tr
  refine ⟨[(c, ok tr)], rfl, by simp [hc], ?_, ?_⟩
  · simp [Prog.attempt]
  · intro b _
    exact ⟨rfl, by simp [keptCalls, List.filter_cons]⟩

theorem does_ignore {c : C} (hc : barred c = false) :
    Does kept barred (Prog.ignore c) () (if kept c = true then [c] else []) := by
  intro tr
  exact ⟨[(c, true)], rfl, by simp [hc], by simp, fun b _ => ⟨rfl, by simp [keptCalls, List.filter_cons]⟩⟩

theorem does_numbered {τ : Type} {f : ℕ → α → Prog C ℕ} (g : α → List τ) (calls : τ × ℕ → List C)
    (hf : ∀ i x, Does kept barred (f i x) (i + (g x).length) (((g x).zipIdx i).flatMap calls))
    (xs : List α) (i : ℕ) :
    Does kept barred (xs.foldlM f i) (i + (xs.flatMap g).length) (((xs.flatMap g).zipIdx i).flatMap calls) := by
  induction xs generalizing i with
  | nil => exact does_done i
  | cons x xs ih =>
    rw [List.foldlM_cons, List.flatMap_cons, List.zipIdx_append, List.flatMap_append, List.length_append,
      ← Nat.add_assoc]
    exact does_bind (hf i x) (ih (i + (g x).length))

theorem does_forM {f : α → Prog C PUnit} (calls : α → List C) (hf : ∀ x, Does kept barred (f x) () (calls x))
    (xs : List α) : Does kept barred (xs.forM f) () (xs.flatMap calls) := by
  induction xs with
  | nil => exact does_done ()
  | cons x xs ih => exact does_bind (hf x) ih

section Phases

variable {σ : Type} {advance : σ → C → Option σ}

/-- However its calls go, `p` keeps to the phases of `advance` from `φ` on, a value comes with the phase it
ends in, and where that is `sure` there is a value. -/
def Drives (advance : σ → C → Option σ) (sure : Prop) (φ : σ) (p : Prog C α) (Q : α → σ → Prop) : Prop :=
  ∀ tr, ∃ new ψ, (p tr).2 = tr ++ new ∧ (new.map Prod.fst).foldlM advance φ = some ψ ∧
    (∀ a, (p tr).1 = some a → Q a ψ) ∧ (sure → (p tr).1.isSome = true)

variable {sure : Prop} {φ ψ : σ} {p : Prog C α} {f : α → Prog C β} {Q R : α → σ → Prop} {S : β → σ → Prop}

theorem drives_done {a : α} (h : Q a φ) : Drives advance sure φ (Prog.done a) Q := by
  intro tr
  refine ⟨[], φ, by simp [Prog.done], rfl, ?_, fun _ => rfl⟩
  intro b hb
  cases hb
  exact h

theorem drives_query {answer : List (C × Bool) → Option α} (h : ∀ tr a, answer tr = some a → Q a φ)
    (hsure : sure → ∀ tr, (answer tr).isSome = true) : Drives advance sure φ (Prog.query answer) Q := by
  intro tr
  exact ⟨[], φ, by simp [Prog.query], rfl, h tr, fun hs => hsure hs tr⟩

theorem drives_require {ok : Prop} [Decidable ok] (hsure : sure → ok) :
    Drives advance sure φ (Prog.require ok : Prog C Unit) (fun _ ψ => ok ∧ ψ = φ) := by
  apply drives_query
  · intro tr u hu
    split_ifs at hu with hok
    exact ⟨hok, rfl⟩
  · intro hs tr
    rw [if_pos (hsure hs)]
    rfl

theorem drives_perform {answer : List (C × Bool) → Option α} {c : C} (hc : advance φ c = some ψ)
    (h : ∀ tr a, answer tr = some a → Q a ψ) (hsure : sure → ∀ tr, (answer tr).isSome = true) :
    Drives advance sure φ (Prog.perform answer c) Q := by
  intro tr
  refine ⟨[(c, (answer tr).isSome)], ψ, rfl, ?_, h tr, fun hs => hsure hs tr⟩
  simp [List.foldlM, hc]

theorem drives_bind (hp : Drives advance sure φ p Q) (hf : ∀ a ψ, Q a ψ → Drives advance sure ψ (f a) S) :
    Drives advance sure φ (p.bind f) S := by
  intro tr
  obtain ⟨new, ψ, htr, hnew, hval, hsure⟩ := hp tr
  cases hr : (p tr).1 with
  | none =>
    have hbind : p.bind f tr = (none, tr ++ new) := by
      rw [Prog.bind, show p tr = (none, tr ++ new) from Prod.ext hr htr]
    refine ⟨new, ψ, by rw [hbind], hnew, ?_, ?_⟩
    · intro b hb
      rw [hbind] at hb
      cases hb
    · intro hs
      have hsome := hsure hs
      rw [hr] at hsome
      cases hsome
  | some a =>
    obtain ⟨new', χ, htr', hnew', hval', hsure'⟩ := hf a ψ (hval a hr) (tr ++ new)
    have hbind : p.bind f tr = f a (tr ++ new) := by
      rw [Prog.bind, show p tr = (some a, tr ++ new) from Prod.ext hr htr]
    refine ⟨new ++ new', χ, by rw [hbind, htr', List.append_assoc], ?_, by rwa [hbind], by rwa [hbind]⟩
    rw [List.map_append, List.foldlM_append, hnew]
    exact hnew'

theorem Drives.mono (hp : Drives advance sure φ p Q) (h : ∀ a ψ, Q a ψ → R a ψ) : Drives advance sure φ p R := by
  intro tr
  obtain ⟨new, ψ, htr, hnew, hval, hsure⟩ := hp tr
  exact ⟨new, ψ, htr, hnew, fun a ha => h a ψ (hval a ha), hsure⟩

theorem drives_foldlM {τ : Type} {body : β → τ → Prog C β} {I : β → σ → Prop} (xs : List τ)
    (hbody : ∀ x ∈ xs, ∀ b φ, I b φ → Drives advance sure φ (body b x) I) {b : β} (hb : I b φ) :
    Drives advance sure φ (xs.foldlM body b) I := by
  induction xs generalizing b φ with
  | nil => exact drives_done hb
  | cons x xs ih =>
    rw [List.foldlM_cons]
    exact drives_bind (hbody x List.mem_cons_self b φ hb)
      (fun b ψ hb => ih (fun x hx => hbody x (List.mem_cons_of_mem _ hx)) hb)

end Phases

section Replay

variable {σ : Type} {step : σ → C → σ} {start : σ}

def replay (step : σ → C → σ) (start : σ) (tr : List (C × Bool)) : σ := tr.foldl (fun s e => step s e.1) start

/-- Where `p` is entered in the state `s` of the calls so far and comes to a value, the value and the state that it
leaves satisfy `Q`. -/
def Leaves (step : σ → C → σ) (start s : σ) (p : Prog C α) (Q : α → σ → Prop) : Prop :=
  ∀ tr, replay step start tr = s → ∀ a, (p tr).1 = some a → Q a (replay step start (p tr).2)

variable {s : σ} {p : Prog C α} {f : α → Prog C β} {Q R : α → σ → Prop} {S : β → σ → Prop}

theorem replay_snoc (tr : List (C × Bool)) (c : C) (b : Bool) :
    replay step start (tr ++ [(c, b)]) = step (replay step start tr) c := by
  rw [replay, List.foldl_append]
  rfl

theorem leaves_done {a : α} (h : Q a s) : Leaves step start s (Prog.done a) Q := by
  rintro tr rfl b hb
  cases hb
  exact h

theorem leaves_query {answer : List (C × Bool) → Option α}
    (h : ∀ tr a, replay step start tr = s → answer tr = some a → Q a s) : Leaves step start s (Prog.query answer) Q := by
  rintro tr rfl a ha
  exact h tr a rfl ha

theorem leaves_require {ok : Prop} [Decidable ok] :
    Leaves step start s (Prog.require ok : Prog C Unit) (fun _ t => ok ∧ t = s) := by
  apply leaves_query
  intro tr u _ hu
  split_ifs at hu with hok
  exact ⟨hok, rfl⟩

theorem leaves_perform {answer : List (C × Bool) → Option α} {c : C}
    (h : ∀ tr a, replay step start tr = s → answer tr = some a → Q a (step s c)) :
    Leaves step start s (Prog.perform answer c) Q := by
  rintro tr rfl a ha
  rw [Prog.perform, replay_snoc]
  exact h tr a rfl ha

theorem leaves_bind (hp : Leaves step start s p Q) (hf : ∀ a t, Q a t → Leaves step start t (f a) S) :
    Leaves step start s (p.bind f) S := by
  intro tr hs b hb
  have hval := hp tr hs
  rw [Prog.bind] at hb ⊢
  rcases hr : p tr with ⟨_ | a, tr'⟩
  · rw [hr] at hb
    cases hb
  · rw [hr] at hb hval
    exact hf a _ (hval a rfl) tr' rfl b hb

theorem Leaves.mono (hp : Leaves step start s p Q) (h : ∀ a t, Q a t → R a t) : Leaves step start s p R :=
  fun tr hs a ha => h a _ (hp tr hs a ha)

end Replay

section Agreement

variable {ok : List (C × Bool) → C → Prop} {p p' : Prog C α} {f f' : α → Prog C β}

def Follows (ok : List (C × Bool) → C → Prop) (p p' : Prog C α) : Prop :=
  ∀ tr, ∃ new, (p tr).2 = tr ++ new ∧
    ((∀ before c b behind, new = before ++ (c, b) :: behind → ok (tr ++ before) c) → p' tr = p tr)

theorem follows_query (answer : List (C × Bool) → Option α) : Follows ok (Prog.query answer) (Prog.query answer) :=
  fun tr => ⟨[], by simp [Prog.query], fun _ => rfl⟩

theorem follows_done (a : α) : Follows ok (Prog.done a : Prog C α) (Prog.done a) := fun tr =>
  ⟨[], by simp [Prog.done], fun _ => rfl⟩

theorem follows_perform {answer answer' : List (C × Bool) → Option α} {c : C}
    (h : ∀ tr, ok tr c → answer' tr = answer tr) : Follows ok (Prog.perform answer c) (Prog.perform answer' c) := by
  intro tr
  refine ⟨[(c, (answer tr).isSome)], rfl, fun hok => ?_⟩
  have hc := hok [] c _ [] rfl
  rw [List.append_nil] at hc
  rw [Prog.perform, Prog.perform, h tr hc]

theorem follows_bind (hp : Follows ok p p') (hf : ∀ a, Follows ok (f a) (f' a)) :
    Follows ok (p.bind f) (p'.bind f') := by
  intro tr
  obtain ⟨new, htr, hsame⟩ := hp tr
  cases hr : (p tr).1 with
  | none =>
    have hp : p tr = (none, tr ++ new) := Prod.ext hr htr
    refine ⟨new, by rw [Prog.bind, hp], fun hok => ?_⟩
    rw [Prog.bind, Prog.bind, hsame hok, hp]
  | some a =>
    have hp : p tr = (some a, tr ++ new) := Prod.ext hr htr
    obtain ⟨new', htr', hsame'⟩ := hf a (tr ++ new)
    refine ⟨new ++ new', by rw [Prog.bind, hp]; exact htr'.trans (List.append_assoc _ _ _), fun hok => ?_⟩
    have hfirst : p' tr = p tr := hsame fun before c b behind heq =>
      hok before c b (behind ++ new') (by rw [heq, List.append_assoc, List.cons_append])
    rw [Prog.bind, Prog.bind, hfirst, hp]
    apply hsame'
    intro before c b behind heq
    rw [List.append_assoc]
    exact hok (new ++ before) c b behind (by rw [heq, List.append_assoc])

theorem follows_foldlM {τ : Type} {body body' : β → τ → Prog C β} (xs : List τ)
    (hbody : ∀ b x, Follows ok (body b x) (body' b x)) (b : β) : Follows ok (xs.foldlM body b) (xs.foldlM body' b) := by
  induction xs generalizing b with
  | nil => exact follows_done b
  | cons x xs ih =>
    rw [List.foldlM_cons, List.foldlM_cons]
    exact follows_bind (hbody b x) (fun b => ih b)

end Agreement

end LinuxRecovery.Traces
