import Mathlib

namespace LinuxRecovery.PartialSteps

section Runs

variable {ι σ : Type} (step : ι → σ → Option σ)

/-- The calls of a run with the states in which they are made, up to one that does not return. -/
def trace : List ι → σ → List (ι × σ)
  | [], _ => []
  | i :: is, s => (i, s) :: (step i s).elim [] (trace is)

variable {step}

theorem trace_forall_cons {P : ι × σ → Prop} {i : ι} {is : List ι} {s : σ} :
    (∀ p ∈ trace step (i :: is) s, P p) ↔ P (i, s) ∧ ∀ t, step i s = some t → ∀ p ∈ trace step is t, P p := by
  rw [trace, List.forall_mem_cons]
  apply and_congr_right
  intro _
  cases step i s with
  | none => simp
  | some t => simp

theorem mem_trace {is : List ι} {s : σ} {p : ι × σ} (h : p ∈ trace step is s) : p.1 ∈ is := by
  induction is generalizing s with
  | nil => cases h
  | cons i is ih =>
    rw [trace, List.mem_cons] at h
    rcases h with rfl | h
    · exact List.mem_cons_self
    · cases hstep : step i s with
      | none =>
        rw [hstep] at h
        cases h
      | some t =>
        rw [hstep] at h
        exact List.mem_cons_of_mem _ (ih h)

theorem trace_invariant {I : σ → Prop} {C : ι × σ → Prop}
    (hstep : ∀ i s t, I s → C (i, s) → step i s = some t → I t) {is : List ι} {s : σ} (hs : I s)
    (hC : ∀ p ∈ trace step is s, C p) : ∀ p ∈ trace step is s, I p.2 := by
  induction is generalizing s with
  | nil => exact fun p hp => (List.not_mem_nil hp).elim
  | cons i is ih =>
    obtain ⟨hhead, htail⟩ := trace_forall_cons.mp hC
    apply (trace_forall_cons (P := fun p => I p.2)).mpr
    exact ⟨hs, fun t ht => ih (hstep i s t hs hhead ht) (htail t ht)⟩

end Runs

section Arguments

variable {α β σ : Type} [DecidableEq α] (call : α → σ → Option (β × σ))

def evalArgs : List α → (α → β) → σ → Option ((α → β) × σ)
  | [], v, s => some (v, s)
  | a :: as, v, s => (call a s).elim none (fun r => evalArgs as (Function.update v a r.1) r.2)

variable {call}

theorem evalArgs_cons_some {a : α} {as : List α} {v v' : α → β} {s s' : σ}
    (h : evalArgs call (a :: as) v s = some (v', s')) :
    ∃ b t, call a s = some (b, t) ∧ evalArgs call as (Function.update v a b) t = some (v', s') := by
  rw [evalArgs] at h
  cases hc : call a s with
  | none =>
    rw [hc] at h
    cases h
  | some r =>
    rw [hc] at h
    exact ⟨r.1, r.2, rfl, h⟩

theorem evalArgs_cons {a : α} {as : List α} {v : α → β} {s t : σ} {b : β} (h : call a s = some (b, t)) :
    evalArgs call (a :: as) v s = evalArgs call as (Function.update v a b) t := by
  rw [evalArgs, h]
  rfl

section Kept

variable {I : σ → Prop} (hkept : ∀ a s b t, I s → call a s = some (b, t) → I t)

include hkept

theorem evalArgs_kept {Q : α → β → Prop} (hval : ∀ a s b t, I s → call a s = some (b, t) → Q a b) {as : List α}
    {v v' : α → β} {s s' : σ} (hs : I s) (h : evalArgs call as v s = some (v', s')) :
    I s' ∧ ∀ a, a ∈ as ∨ Q a (v a) → Q a (v' a) := by
  induction as generalizing v s with
  | nil =>
    cases h
    exact ⟨hs, fun a ha => ha.resolve_left List.not_mem_nil⟩
  | cons a as ih =>
    obtain ⟨b, t, hc, hrest⟩ := evalArgs_cons_some h
    obtain ⟨hend, hq⟩ := ih (hkept a s b t hs hc) hrest
    refine ⟨hend, fun a' ha' => hq a' ?_⟩
    by_cases heq : a' = a
    · subst heq
      rw [Function.update_self]
      exact .inr (hval a' s b t hs hc)
    · rw [Function.update_of_ne heq]
      exact ha'.imp_left (fun hm => (List.mem_cons.mp hm).resolve_left heq)

theorem evalArgs_some (hsome : ∀ a s, I s → (call a s).isSome = true) (as : List α) (v : α → β) {s : σ} (hs : I s) :
    (evalArgs call as v s).isSome = true := by
  induction as generalizing v s with
  | nil => rfl
  | cons a as ih =>
    obtain ⟨⟨b, t⟩, hc⟩ := Option.isSome_iff_exists.mp (hsome a s hs)
    rw [evalArgs_cons hc]
    exact ih _ (hkept a s b t hs hc)

theorem evalArgs_none {a : α} (hnone : ∀ s, I s → call a s = none) {as : List α} (ha : a ∈ as) (v : α → β) {s : σ}
    (hs : I s) : evalArgs call as v s = none := by
  induction as generalizing v s with
  | nil => exact (List.not_mem_nil ha).elim
  | cons a' as ih =>
    rw [evalArgs]
    cases hc : call a' s with
    | none => rfl
    | some r =>
      have hne : a ≠ a' := by
        rintro rfl
        rw [hnone s hs] at hc
        cases hc
      exact ih ((List.mem_cons.mp ha).resolve_left hne) _ (hkept a' s r.1 r.2 hs hc)

end Kept

theorem evalArgs_values {I : List α → σ → Prop} {value : α → β}
    (hcall : ∀ done a s, a ∉ done → I done s → ∃ t, call a s = some (value a, t) ∧ I (a :: done) t) {as : List α}
    (hnodup : as.Nodup) {done : List α} (hnew : ∀ a ∈ as, a ∉ done) {v : α → β} {s : σ} (hs : I done s) :
    ∃ t v', evalArgs call as v s = some (v', t) ∧ I (as.reverse ++ done) t ∧
      ∀ a, a ∈ as ∨ v a = value a → v' a = value a := by
  induction as generalizing done v s with
  | nil => exact ⟨s, v, rfl, hs, fun a ha => ha.resolve_left List.not_mem_nil⟩
  | cons a as ih =>
    obtain ⟨hout, hnodup⟩ := List.nodup_cons.mp hnodup
    obtain ⟨t, hc, ht⟩ := hcall done a s (hnew a List.mem_cons_self) hs
    have hnew' : ∀ b ∈ as, b ∉ a :: done := by
      intro b hb hmem
      rcases List.mem_cons.mp hmem with rfl | hmem
      · exact hout hb
      · exact hnew b (List.mem_cons_of_mem _ hb) hmem
    obtain ⟨u, v', hrest, hu, hv⟩ := ih hnodup hnew' (v := Function.update v a (value a)) ht
    refine ⟨u, v', by rw [evalArgs_cons hc, hrest], by simpa using hu, fun b hb => hv b ?_⟩
    by_cases heq : b = a
    · subst heq
      exact .inr (Function.update_self ..)
    · rw [Function.update_of_ne heq]
      exact hb.imp_left (fun hm => (List.mem_cons.mp hm).resolve_left heq)

end Arguments

end LinuxRecovery.PartialSteps
