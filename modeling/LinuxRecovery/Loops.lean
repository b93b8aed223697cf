import Mathlib

namespace LinuxRecovery.Loops

inductive Step (σ ρ : Type) where
  | next (s : σ)
  | done (r : ρ)

/-- What the next pass starts from or the loop leaves with, seen through one view of each. -/
def after {σ ρ α : Type} (f : σ → α) (g : ρ → α) : Step σ ρ → α
  | .next s => f s
  | .done r => g r

structure Loop (σ ρ : Type) where
  step : σ → Step σ ρ
  measure : σ → ℕ
  decreasing : ∀ s t, step s = .next t → measure t < measure s

variable {σ ρ τ π : Type}

def run (step : σ → Step σ ρ) : ℕ → σ → Option ρ
  | 0, _ => none
  | n + 1, s =>
    match step s with
    | .next t => run step n t
    | .done r => some r

namespace Loop

theorem run_isSome (L : Loop σ ρ) (n : ℕ) (s : σ) (h : L.measure s < n) :
    (run L.step n s).isSome = true := by
  induction n generalizing s with
  | zero => omega
  | succ n ih =>
    unfold run
    cases hs : L.step s with
    | done r => rfl
    | next t =>
      have := L.decreasing s t hs
      exact ih t (by omega)

theorem run_stable (L : Loop σ ρ) (n m : ℕ) (s : σ) (hn : L.measure s < n) (hm : L.measure s < m) :
    run L.step n s = run L.step m s := by
  induction n generalizing m s with
  | zero => omega
  | succ n ih =>
    obtain ⟨m, rfl⟩ : ∃ k, m = k + 1 := ⟨m - 1, by omega⟩
    unfold run
    cases hs : L.step s with
    | done r => rfl
    | next t =>
      have := L.decreasing s t hs
      exact ih m t (by omega) (by omega)

def exec (L : Loop σ ρ) (s : σ) : ρ :=
  (run L.step (L.measure s + 1) s).get (L.run_isSome _ s (Nat.lt_succ_self _))

theorem exec_done (L : Loop σ ρ) {s : σ} {r : ρ} (h : L.step s = .done r) : L.exec s = r := by
  simp [exec, run, h]

theorem exec_next (L : Loop σ ρ) {s t : σ} (h : L.step s = .next t) : L.exec s = L.exec t := by
  have ht := L.decreasing s t h
  have he : run L.step (L.measure s + 1) s = run L.step (L.measure t + 1) t := by
    rw [run, h]
    exact L.run_stable _ _ _ (by omega) (by omega)
  simp only [exec, he]

theorem induct (L : Loop σ ρ) {P : σ → Prop}
    (h : ∀ s, (∀ t, L.step s = .next t → P t) → P s) (s : σ) : P s := by
  induction hn : L.measure s using Nat.strong_induction_on generalizing s with
  | _ n ih =>
    apply h
    intro t ht
    exact ih _ (hn ▸ L.decreasing s t ht) t rfl

theorem exec_rule (L : Loop σ ρ) {I : σ → Prop} {Q : ρ → Prop}
    (hnext : ∀ s t, I s → L.step s = .next t → I t)
    (hdone : ∀ s r, I s → L.step s = .done r → Q r) {s : σ} (hs : I s) : Q (L.exec s) := by
  induction s using L.induct with
  | h s ih =>
    cases hstep : L.step s with
    | done r => rw [L.exec_done hstep]; exact hdone s r hs hstep
    | next t => rw [L.exec_next hstep]; exact ih t hstep (hnext s t hs hstep)

theorem exec_compose (L : Loop σ ρ) {R : σ → σ → Prop} {S : σ → ρ → Prop}
    (hnext : ∀ s t, L.step s = .next t → R s t) (hdone : ∀ s r, L.step s = .done r → S s r)
    (hcomp : ∀ s t r, R s t → S t r → S s r) (s : σ) : S s (L.exec s) := by
  induction s using L.induct with
  | h s ih =>
    cases hstep : L.step s with
    | done r => rw [L.exec_done hstep]; exact hdone s r hstep
    | next t => rw [L.exec_next hstep]; exact hcomp s t _ (hnext s t hstep) (ih t hstep)

def Reaches (L : Loop σ ρ) : σ → σ → Prop :=
  Relation.ReflTransGen (fun s t => L.step s = .next t)

theorem exec_reaches (L : Loop σ ρ) {s t : σ} (h : L.Reaches s t) : L.exec s = L.exec t := by
  induction h with
  | refl => rfl
  | tail _ hs ih => rw [ih, L.exec_next hs]

theorem reaches_invariant (L : Loop σ ρ) {I : σ → Prop}
    (hnext : ∀ s t, I s → L.step s = .next t → I t) {s t : σ} (h : L.Reaches s t) (hs : I s) :
    I t := by
  induction h with
  | refl => exact hs
  | tail _ hstep ih => exact hnext _ _ ih hstep

theorem reaches_exit (L : Loop σ ρ) (s : σ) :
    ∃ t r, L.Reaches s t ∧ L.step t = .done r ∧ L.exec s = r := by
  induction s using L.induct with
  | h s ih =>
    cases hstep : L.step s with
    | done r => exact ⟨s, r, .refl, hstep, L.exec_done hstep⟩
    | next t =>
      obtain ⟨u, r, hu, hr, he⟩ := ih t hstep
      exact ⟨u, r, .head hstep hu, hr, by rw [L.exec_next hstep, he]⟩

end Loop

end LinuxRecovery.Loops
