import LinuxRecovery.Loops

namespace LinuxRecovery.NetlinkHandlers

open Loops

variable {H : Type} [DecidableEq H]

structure NetlinkListener (H : Type) where
  head : Option H
  priority : H → ℤ
  next : H → Option H

def getPriority (this : H) (l : NetlinkListener H) : ℤ := l.priority this

/-- The head moves along with the search, and its own `get_priority` is asked about the new handler. -/
def registerStep (handler : H) (l : NetlinkListener H) : Step (NetlinkListener H) (NetlinkListener H) :=
  match l.head with
  | none => .done l
  | some head =>
    if getPriority handler l < getPriority handler l then .done l
    else .next { l with head := l.next head }

def registerHandler (fuel : ℕ) (handler : H) (l : NetlinkListener H) : Option (NetlinkListener H) :=
  (run (registerStep handler) fuel l).map (fun l =>
    { l with head := some handler, next := Function.update l.next handler l.head })

def unregisterStep (handler : H) (l : NetlinkListener H) : Step (NetlinkListener H) (NetlinkListener H) :=
  match l.head with
  | none => .done l
  | some head =>
    if head = handler then .done { l with head := l.next handler }
    else .next { l with head := l.next head }

def unregisterHandler (fuel : ℕ) (handler : H) (l : NetlinkListener H) : Option (NetlinkListener H) :=
  run (unregisterStep handler) fuel l

def dispatchFrom (l : NetlinkListener H) : ℕ → Option H → Option (List H)
  | 0, _ => none
  | _ + 1, none => some []
  | fuel + 1, some nh => (dispatchFrom l fuel (l.next nh)).map (nh :: ·)

def dispatchEvent (fuel : ℕ) (l : NetlinkListener H) : Option (List H) := dispatchFrom l fuel l.head

inductive Call (H : Type) where
  | register (handler : H)
  | unregister (handler : H)
  deriving DecidableEq

def Call.exec (fuel : ℕ) : Call H → NetlinkListener H → Option (NetlinkListener H)
  | .register handler, l => registerHandler fuel handler l
  | .unregister handler, l => unregisterHandler fuel handler l

def execCalls (fuel : ℕ) : List (Call H) → NetlinkListener H → Option (NetlinkListener H)
  | [], l => some l
  | c :: calls, l => (c.exec fuel l).bind (execCalls fuel calls)

def Call.track : Call H → List H → List H
  | .register handler, hs => handler :: hs
  | .unregister handler, hs => hs.erase handler

def registered (calls : List (Call H)) : List H := calls.foldl (fun hs c => c.track hs) []

def Call.Fresh : Call H → List H → Prop
  | .register handler, hs => handler ∉ hs
  | .unregister _, _ => True

instance : (c : Call H) → (hs : List H) → Decidable (c.Fresh hs)
  | .register handler, hs => inferInstanceAs (Decidable (handler ∉ hs))
  | .unregister _, _ => isTrue trivial

def OnceAtATime : List H → List (Call H) → Prop
  | _, [] => True
  | hs, c :: calls => c.Fresh hs ∧ OnceAtATime (c.track hs) calls

instance decidableOnce : (hs : List H) → (calls : List (Call H)) → Decidable (OnceAtATime hs calls)
  | _, [] => isTrue trivial
  | hs, c :: calls =>
    have := decidableOnce (c.track hs) calls
    inferInstanceAs (Decidable (_ ∧ _))

/-- An event reaches the handlers `hs`, each once, in the order of their priorities. -/
structure Delivers (priority : H → ℤ) (hs : List H) (ds : List H) : Prop where
  once : ds.Nodup
  exact : ∀ h, h ∈ ds ↔ h ∈ hs
  ordered : ds.Pairwise (fun a b => priority b ≤ priority a)

structure Short (l : NetlinkListener H) : Prop where
  last : ∀ h, l.head = some h → l.next h = none

variable {l l' : NetlinkListener H} {fuel : ℕ} {handler : H} {priority : H → ℤ}

omit [DecidableEq H] in
theorem register_run (hl : Short l) (hf : 2 ≤ fuel) :
    run (registerStep handler) fuel l = some { l with head := none } := by
  obtain ⟨n, rfl⟩ : ∃ n, fuel = n + 2 := ⟨fuel - 2, by omega⟩
  cases hh : l.head with
  | none =>
    have hstep : registerStep handler l = .done l := by simp [registerStep, hh]
    rw [run, hstep, ← hh]
  | some head =>
    have hstep : registerStep handler l = .next { l with head := none } := by
      simp [registerStep, hh, hl.last head hh]
    rw [run, hstep]
    simp [run, registerStep]

theorem register_exec (hl : Short l) (hf : 2 ≤ fuel) : registerHandler fuel handler l =
    some { l with head := some handler, next := Function.update l.next handler none } := by
  rw [registerHandler, register_run hl hf]
  rfl

theorem unregister_exec (hl : Short l) (hf : 2 ≤ fuel) :
    unregisterHandler fuel handler l = some { l with head := none } := by
  obtain ⟨n, rfl⟩ : ∃ n, fuel = n + 2 := ⟨fuel - 2, by omega⟩
  unfold unregisterHandler
  cases hh : l.head with
  | none =>
    have hstep : unregisterStep handler l = .done l := by simp [unregisterStep, hh]
    rw [run, hstep, ← hh]
  | some head =>
    have hlast := hl.last head hh
    by_cases heq : head = handler
    · subst heq
      have hstep : unregisterStep head l = .done { l with head := none } := by
        simp [unregisterStep, hh, hlast]
      rw [run, hstep]
    · have hstep : unregisterStep handler l = .next { l with head := none } := by
        simp [unregisterStep, hh, heq, hlast]
      rw [run, hstep]
      simp [run, unregisterStep]

def Call.left : Call H → Option H
  | .register handler => some handler
  | .unregister _ => none

theorem exec_short (hl : Short l) (hf : 2 ≤ fuel) (c : Call H) :
    ∃ l', c.exec fuel l = some l' ∧ Short l' ∧ l'.head = c.left ∧ l'.priority = l.priority := by
  cases c with
  | register handler =>
    refine ⟨_, register_exec hl hf, ⟨?_⟩, rfl, rfl⟩
    intro h hh
    cases hh
    simp
  | unregister handler =>
    refine ⟨_, unregister_exec hl hf, ⟨?_⟩, rfl, rfl⟩
    intro h hh
    cases hh

theorem execCalls_short (hl : Short l) (hf : 2 ≤ fuel) (calls : List (Call H)) :
    ∃ l', execCalls fuel calls l = some l' ∧ Short l' ∧ l'.priority = l.priority ∧
      l'.head = calls.getLast?.elim l.head Call.left := by
  induction calls generalizing l with
  | nil => exact ⟨l, rfl, hl, rfl, rfl⟩
  | cons c calls ih =>
    obtain ⟨m, hm, hshort, hhead, hprio⟩ := exec_short hl hf c
    obtain ⟨l', hl', hshort', hprio', hhead'⟩ := ih hshort
    refine ⟨l', by rw [execCalls, hm, Option.bind_some, hl'], hshort', hprio'.trans hprio, ?_⟩
    rw [hhead']
    cases calls with
    | nil => exact hhead
    | cons d calls => rw [List.getLast?_cons_cons]; simp [List.getLast?_cons]

omit [DecidableEq H] in
theorem dispatch_short (hl : Short l) (hf : 2 ≤ fuel) : dispatchEvent fuel l = some l.head.toList := by
  obtain ⟨n, rfl⟩ : ∃ n, fuel = n + 2 := ⟨fuel - 2, by omega⟩
  unfold dispatchEvent
  cases hh : l.head with
  | none => rfl
  | some head => simp [dispatchFrom, hl.last head hh]

theorem registered_append (calls : List (Call H)) (c : Call H) :
    registered (calls ++ [c]) = c.track (registered calls) := by
  simp [registered]

theorem tracked_nodup {hs : List H} {calls : List (Call H)} (hn : hs.Nodup) (h : OnceAtATime hs calls) :
    (calls.foldl (fun hs c => c.track hs) hs).Nodup := by
  induction calls generalizing hs with
  | nil => exact hn
  | cons c calls ih =>
    refine ih ?_ h.2
    cases c with
    | register handler => exact List.nodup_cons.mpr ⟨h.1, hn⟩
    | unregister handler => exact hn.erase handler

/-- Nobody is registered, or one handler is and the last call was its registration. -/
def LastOnly (calls : List (Call H)) : Prop :=
  registered calls = [] ∨ ∃ handler, registered calls = [handler] ∧ calls.getLast? = some (.register handler)

/-- What an event delivers is right exactly when only the last call's handler is registered. -/
theorem delivers_iff (priority : H → ℤ) (next : H → Option H) {calls : List (Call H)} (h : OnceAtATime [] calls)
    (hf : 2 ≤ fuel) : ∃ l ds, execCalls fuel calls ⟨none, priority, next⟩ = some l ∧
      dispatchEvent fuel l = some ds ∧ (Delivers priority (registered calls) ds ↔ LastOnly calls) := by
  have hempty : Short (⟨none, priority, next⟩ : NetlinkListener H) := ⟨fun _ hh => by cases hh⟩
  obtain ⟨l, hl, hshort, -, hhead⟩ := execCalls_short hempty hf calls
  refine ⟨l, _, hl, dispatch_short hshort hf, ?_⟩
  rw [hhead]
  have hnodup : (registered calls).Nodup := tracked_nodup List.nodup_nil h
  constructor
  · intro hd
    cases hlast : calls.getLast? with
    | none =>
      obtain rfl := List.getLast?_eq_none_iff.mp hlast
      exact .inl rfl
    | some c =>
      have hexact := hd.exact
      rw [hlast] at hexact
      cases c with
      | unregister handler =>
        refine .inl (List.eq_nil_iff_forall_not_mem.mpr (fun x hx => ?_))
        simpa [Call.left] using (hexact x).mpr hx
      | register handler =>
        refine .inr ⟨handler, ?_, hlast⟩
        have hall : ∀ x ∈ registered calls, x = handler := by
          intro x hx
          simpa [Call.left] using (hexact x).mpr hx
        have hmem : handler ∈ registered calls := (hexact handler).mp (by simp [Call.left])
        exact List.perm_singleton.mp ((List.perm_ext_iff_of_nodup hnodup (List.nodup_singleton _)).mpr
          (fun x => ⟨fun hx => by simp [hall x hx], fun hx => by simpa [List.mem_singleton.mp hx] using hmem⟩))
  · rintro (hnone | ⟨handler, hone, hlast⟩)
    · have hleft : calls.getLast?.elim none Call.left = none := by
        cases hlast : calls.getLast? with
        | none => rfl
        | some c =>
          cases c with
          | unregister handler => rfl
          | register handler =>
            obtain ⟨before, rfl⟩ := List.getLast?_eq_some_iff.mp hlast
            rw [registered_append] at hnone
            cases hnone
      rw [hleft, hnone]
      exact ⟨List.nodup_nil, by simp, List.Pairwise.nil⟩
    · rw [hone, hlast]
      exact ⟨List.nodup_singleton _, by simp [Call.left], List.pairwise_singleton _ _⟩

theorem delivers_iff_reregistered : ∃ l ds,
    execCalls 2 [.register 0, .unregister 0, .register 1] ⟨none, fun h : ℕ => h, fun _ => none⟩ = some l ∧
      dispatchEvent 2 l = some ds ∧ (Delivers (fun h : ℕ => (h : ℤ)) [1] ds ↔
        LastOnly [.register 0, .unregister 0, .register (1 : ℕ)]) :=
  delivers_iff (fun h : ℕ => (h : ℤ)) (fun _ => none) (by decide) le_rfl

theorem first_handler_lost : OnceAtATime [] [.register 0, .register (1 : ℕ)] ∧ ∃ l ds,
    execCalls 3 [.register 0, .register 1] ⟨none, fun h : ℕ => h, fun _ => none⟩ = some l ∧
      dispatchEvent 3 l = some ds ∧
      ¬Delivers (fun h : ℕ => (h : ℤ)) (registered [.register 0, .register (1 : ℕ)]) ds := by
  refine ⟨by decide, _, [1], rfl, rfl, fun h => ?_⟩
  have := (h.exact 0).mpr (by simp [registered, Call.track])
  simp at this

end LinuxRecovery.NetlinkHandlers
