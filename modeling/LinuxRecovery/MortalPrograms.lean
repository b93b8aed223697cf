import Mathlib

namespace LinuxRecovery.MortalPrograms

variable {σ α β : Type}

inductive Ended (σ α : Type) where
  | dead (s : σ)
  | alive (a : α) (left : ℕ) (s : σ)

def Ended.state : Ended σ α → σ
  | .dead s => s
  | .alive _ _ s => s

/-- A program that may die in front of any of its steps. -/
def Mortal (σ α : Type) : Type := ℕ → σ → Ended σ α

namespace Mortal

def bind (p : Mortal σ α) (f : α → Mortal σ β) : Mortal σ β := fun n s =>
  match p n s with
  | .dead s => .dead s
  | .alive a n s => f a n s

instance : Monad (Mortal σ) where
  pure a := fun n s => .alive a n s
  bind := bind

def step (f : σ → α × σ) : Mortal σ α
  | 0, s => .dead s
  | n + 1, s => .alive (f s).1 n (f s).2

def look (f : σ → α) : Mortal σ α := fun n s => .alive (f s) n s

def Keeps (I : σ → Prop) (p : Mortal σ α) : Prop := ∀ n s, I s → I (p n s).state

def Yields (p : Mortal σ α) (s : σ) (a : α) (s' : σ) : Prop := ∃ k, ∀ n, p (k + n) s = .alive a n s'

section Keeps

variable {I : σ → Prop}

theorem keeps_pure (a : α) : Keeps I (pure a : Mortal σ α) := fun _ _ h => h

theorem keeps_look (f : σ → α) : Keeps I (look f) := fun _ _ h => h

theorem keeps_step {f : σ → α × σ} (h : ∀ s, I s → I (f s).2) : Keeps I (step f) := by
  intro n s hs
  cases n with
  | zero => exact hs
  | succ n => exact h s hs

theorem keeps_bind {p : Mortal σ α} {f : α → Mortal σ β} (hp : Keeps I p) (hf : ∀ a, Keeps I (f a)) :
    Keeps I (p >>= f) := by
  intro n s hs
  have hstate := hp n s hs
  change I (bind p f n s).state
  rw [bind]
  cases hr : p n s with
  | dead s' =>
    rw [hr] at hstate
    exact hstate
  | alive a left s' =>
    rw [hr] at hstate
    exact hf a left s' hstate

theorem keeps_map {p : Mortal σ α} (f : α → β) (hp : Keeps I p) : Keeps I (f <$> p) :=
  keeps_bind hp (fun a => keeps_pure (f a))

theorem keeps_foldlM {f : β → α → Mortal σ β} (h : ∀ b a, Keeps I (f b a)) (b : β) (as : List α) :
    Keeps I (as.foldlM f b) := by
  induction as generalizing b with
  | nil => exact keeps_pure b
  | cons a as ih =>
    rw [List.foldlM_cons]
    exact keeps_bind (h b a) ih

theorem keeps_forM {f : α → Mortal σ PUnit} (h : ∀ a, Keeps I (f a)) (as : List α) : Keeps I (as.forM f) := by
  induction as with
  | nil => exact keeps_pure _
  | cons a as ih => exact keeps_bind (h a) (fun _ => ih)

end Keeps

section Yields

variable {s s' s'' : σ} {a : α} {b : β}

theorem yields_pure (a : α) (s : σ) : Yields (pure a : Mortal σ α) s a s := ⟨0, fun n => by rw [zero_add]; rfl⟩

theorem yields_look (f : σ → α) (s : σ) : Yields (look f) s (f s) s := ⟨0, fun n => by rw [zero_add]; rfl⟩

theorem yields_step (f : σ → α × σ) (s : σ) : Yields (step f) s (f s).1 (f s).2 := ⟨1, fun n => by rw [Nat.add_comm]; rfl⟩

theorem yields_of_step {f : σ → α × σ} (h : f s = (a, s')) : Yields (step f) s a s' := by
  have hy := yields_step f s
  rwa [h] at hy

theorem yields_bind {p : Mortal σ α} {f : α → Mortal σ β} (hp : Yields p s a s') (hf : Yields (f a) s' b s'') :
    Yields (p >>= f) s b s'' := by
  obtain ⟨k, hk⟩ := hp
  obtain ⟨l, hl⟩ := hf
  refine ⟨k + l, fun n => ?_⟩
  change bind p f (k + l + n) s = _
  rw [bind, Nat.add_assoc, hk]
  exact hl n

theorem yields_map {p : Mortal σ α} (f : α → β) (hp : Yields p s a s') : Yields (f <$> p) s (f a) s' :=
  yields_bind hp (yields_pure (f a) s')

end Yields

end Mortal

end LinuxRecovery.MortalPrograms
