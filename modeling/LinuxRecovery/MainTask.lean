import LinuxRecovery.UpdateRun

namespace LinuxRecovery.MainTask

open Traces UpdateRun

/-- Storage first, and the network where that fails; the update file is made anew in between. -/
def mainTask (storage network : Client) (tr : List Event) : ℤ × List Event :=
  if (updateFromStorage storage tr).1 < 0 then updateFromNetwork network (updateFromStorage storage tr).2
  else updateFromStorage storage tr

def isChunkWrite : Call → Bool
  | .writeUpdatePkg .. => true
  | _ => false

def written : Event → Option SysinfoFlagValue
  | (.flagWrite value, true) => some value
  | _ => none

def flagOf (tr : List Event) : Option SysinfoFlagValue := (tr.filterMap written).getLast?

def Quiet (tr : List Event) : Prop := ∀ e ∈ tr, written e = none ∧ isChunkWrite e.1 = false

def Unflagged (tr : List Event) : Prop := ∀ e ∈ tr, isFlagWrite e.1 = false

variable (complete : List Call → Prop)

/-- The calls of any number of starts of `main_task`, each cut off anywhere: by the alarm, or by the power. -/
inductive Reachable : List Event → Prop
  | fresh : Reachable []
  | boot {tr new : List Event} (h : Reachable tr) (storage network : Client) (hstorage : complete (storageSteps storage))
      (hnetwork : complete (networkSteps network)) (hcut : tr ++ new <+: (mainTask storage network tr).2) :
      Reachable (tr ++ new)

/-- If the flag says done, the update that was started last took a complete sequence of steps, none of them failing,
and no partition was written behind it. -/
def Told (tr : List Event) : Prop :=
  flagOf tr = some .updateDone → ∃ before during after,
    tr = before ++ ((Call.flagWrite .updateStart, true) :: during ++ (Call.flagWrite .updateDone, true) :: after) ∧
      (∀ e ∈ during, e.2 = true) ∧ Unflagged during ∧ complete (keptCalls isPackageStep during) ∧ Quiet after

inductive Shape (steps : List Call) : ℤ → List Event → Prop
  | idle {quiet : List Event} (hquiet : Quiet quiet) : Shape steps (-1) quiet
  | broken {quiet body : List Event} (hquiet : Quiet quiet) (hbody : Unflagged body) :
      Shape steps (-1) (quiet ++ (Call.flagWrite .updateStart, true) :: body)
  | whole {quiet body quiet' : List Event} (ok : Bool) (hquiet : Quiet quiet) (hbody : Unflagged body)
      (hok : ∀ e ∈ body, e.2 = true) (hsteps : keptCalls isPackageStep body = steps) (hquiet' : Quiet quiet') :
      Shape steps (if ok = true then 0 else -1)
        (quiet ++ ((Call.flagWrite .updateStart, true) :: body ++ (Call.flagWrite .updateDone, ok) :: quiet'))

variable {complete} {tr new quiet body : List Event} {steps : List Call} {result : ℤ} {client : Client}

theorem Quiet.append {quiet' : List Event} (h : Quiet quiet) (h' : Quiet quiet') : Quiet (quiet ++ quiet') :=
  List.forall_mem_append.mpr ⟨h, h'⟩

theorem Quiet.flagOf (h : Quiet quiet) (tr : List Event) : flagOf (tr ++ quiet) = flagOf tr := by
  have hnone : quiet.filterMap written = [] := List.filterMap_eq_nil_iff.mpr fun e he => (h e he).1
  rw [MainTask.flagOf, List.filterMap_append, hnone, List.append_nil, MainTask.flagOf]

theorem Unflagged.written (h : Unflagged body) : body.filterMap written = [] := by
  apply List.filterMap_eq_nil_iff.mpr
  rintro ⟨c, ok⟩ he
  have hc := h _ he
  cases c <;> first | rfl | cases hc

theorem flagOf_started (tr : List Event) (h : Unflagged body) :
    flagOf (tr ++ (Call.flagWrite .updateStart, true) :: body) = some .updateStart := by
  have hbody : ((Call.flagWrite .updateStart, true) :: body).filterMap written = [.updateStart] := by
    rw [List.filterMap_cons, h.written]
    rfl
  rw [flagOf, List.filterMap_append, hbody, List.getLast?_concat]

theorem cleanUp_quiet : Quiet [(Call.dirDelete prefixLocalUpdatePath, true)] :=
  List.forall_mem_singleton.mpr ⟨rfl, rfl⟩

section Updates

def changes (c : Call) : Bool := isFlagWrite c || isChunkWrite c

theorem quiet_of_changes (h : ∀ e ∈ quiet, changes e.1 = false) : Quiet quiet := by
  rintro ⟨c, ok⟩ he
  have hc := h _ he
  cases c <;> first | exact ⟨rfl, rfl⟩ | cases hc

theorem call_quiet {c : Call} (hc : changes c = false) : Does (fun _ => false) changes (call client c) () [] :=
  does_attempt hc

theorem creatUnzipDir_quiet : Does (fun _ => false) changes (creatUnzipDir client) () [] :=
  does_bind (does_ignore rfl) (call_quiet rfl)

theorem networkPrologue_quiet : Does (fun _ => false) changes (networkPrologue client) () [] :=
  does_bind (call_quiet rfl) (does_bind creatUnzipDir_quiet (does_bind (call_quiet rfl) (call_quiet rfl)))

theorem Shape.prepend {before : List Event} (h : Shape steps result new) (hbefore : Quiet before) :
    Shape steps result (before ++ new) := by
  cases h with
  | idle hquiet => exact .idle (hbefore.append hquiet)
  | broken hquiet hbody =>
    rw [← List.append_assoc]
    exact .broken (hbefore.append hquiet) hbody
  | whole ok hquiet hbody hok hsteps hquiet' =>
    rw [← List.append_assoc]
    exact .whole ok (hbefore.append hquiet) hbody hok hsteps hquiet'

theorem flagged_shape {p : Update Unit} (h : Takes p () steps) (tr : List Event) :
    ∃ new, (exit (flagged client p) tr).2 = tr ++ new ∧ Shape steps (exit (flagged client p) tr).1 new := by
  obtain hrun | ⟨body, hbody, hrun⟩ | ⟨body, ok, hbody, hok, hsteps, hrun⟩ := flagged_cases h tr
  · rw [exit_of hrun]
    refine ⟨_, List.append_assoc _ _ _, .idle (Quiet.append ?_ cleanUp_quiet)⟩
    exact List.forall_mem_singleton.mpr ⟨rfl, rfl⟩
  · rw [exit_of hrun]
    refine ⟨_, List.append_assoc _ _ _, ?_⟩
    have hmore : Unflagged (body ++ [(Call.dirDelete prefixLocalUpdatePath, true)]) :=
      List.forall_mem_append.mpr ⟨hbody, List.forall_mem_singleton.mpr rfl⟩
    exact @Shape.broken steps [] _ nofun hmore
  · rw [exit_of hrun]
    refine ⟨_, by rw [List.append_assoc, List.append_assoc], ?_⟩
    have hshape := @Shape.whole steps [] body _ ok nofun hbody hok hsteps cleanUp_quiet
    cases ok <;> simpa using hshape

theorem storage_shape (client : Client) (tr : List Event) :
    ∃ new, (updateFromStorage client tr).2 = tr ++ new ∧
      Shape (storageSteps client) (updateFromStorage client tr).1 new := by
  unfold updateFromStorage storageSteps
  cases client.validUpdateVolume with
  | none => exact ⟨[], (List.append_nil tr).symm, .idle nofun⟩
  | some mountPoint => exact flagged_shape (storageBody_takes mountPoint) tr

theorem network_shape (client : Client) (tr : List Event) :
    ∃ new, (updateFromNetwork client tr).2 = tr ++ new ∧
      Shape (networkSteps client) (updateFromNetwork client tr).1 new := by
  obtain ⟨before, htr, hbar, -⟩ := (networkPrologue_quiet : Does _ _ (networkPrologue client) _ _) tr
  have hbefore := quiet_of_changes hbar
  unfold updateFromNetwork
  cases hp : (networkPrologue client tr).1 with
  | none =>
    rw [Prod.ext (x := networkPrologue client tr) (y := (none, _)) hp htr]
    exact ⟨before, rfl, .idle hbefore⟩
  | some u =>
    rw [Prod.ext (x := networkPrologue client tr) (y := (some u, _)) hp htr]
    have htakes : Takes (networkBody client) () (networkSteps client) := networkBody_takes
    obtain ⟨new, hnew, hshape⟩ := flagged_shape htakes (tr ++ before)
    exact ⟨before ++ new, hnew.trans (List.append_assoc _ _ _), hshape.prepend hbefore⟩

end Updates

section Cuts

theorem told_quiet (h : Told complete tr) (hquiet : Quiet quiet) : Told complete (tr ++ quiet) := by
  intro hdone
  rw [hquiet.flagOf] at hdone
  obtain ⟨before, during, after, rfl, hok, hno, hsteps, hafter⟩ := h hdone
  exact ⟨before, during, after ++ quiet, by simp, hok, hno, hsteps, hafter.append hquiet⟩

theorem told_started (tr : List Event) (h : Unflagged body) :
    Told complete (tr ++ (Call.flagWrite .updateStart, true) :: body) := by
  intro hdone
  rw [flagOf_started tr h] at hdone
  cases hdone

theorem told_whole (tr : List Event) (ok : Bool) (hbody : Unflagged body) (hok : ∀ e ∈ body, e.2 = true)
    (hsteps : complete (keptCalls isPackageStep body)) (hquiet : Quiet quiet) :
    Told complete (tr ++ ((Call.flagWrite .updateStart, true) :: body ++ (Call.flagWrite .updateDone, ok) :: quiet)) := by
  cases ok with
  | true => exact fun _ => ⟨tr, body, quiet, rfl, hok, hbody, hsteps, hquiet⟩
  | false =>
    have hrest : Quiet ((Call.flagWrite .updateDone, false) :: quiet) := List.forall_mem_cons.mpr ⟨⟨rfl, rfl⟩, hquiet⟩
    rw [← List.append_assoc]
    exact told_quiet (told_started tr hbody) hrest

theorem Quiet.cut (h : Quiet quiet) (hcut : new <+: quiet) : Quiet new := fun e he => h e (hcut.subset he)

theorem Unflagged.cut (h : Unflagged body) (hcut : new <+: body) : Unflagged new := fun e he => h e (hcut.subset he)

theorem prefix_append_cases {α : Type} {p s t : List α} (h : p <+: s ++ t) : p <+: s ∨ ∃ p', p = s ++ p' ∧ p' <+: t := by
  rcases List.prefix_or_prefix_of_prefix h (List.prefix_append s t) with hp | ⟨p', rfl⟩
  · exact .inl hp
  · exact .inr ⟨p', rfl, (List.prefix_append_right_inj s).mp h⟩

theorem told_cut (h : Told complete tr) (hshape : Shape steps result new) (hsteps : complete steps) {cut : List Event}
    (hcut : cut <+: new) : Told complete (tr ++ cut) := by
  cases hshape with
  | idle hquiet => exact told_quiet h (hquiet.cut hcut)
  | broken hquiet hbody =>
    obtain hcut | ⟨rest, rfl, hrest⟩ := prefix_append_cases hcut
    · exact told_quiet h (hquiet.cut hcut)
    · rw [← List.append_assoc]
      obtain rfl | ⟨begun, rfl, hbegun⟩ := List.prefix_cons_iff.mp hrest
      · rw [List.append_nil]
        exact told_quiet h hquiet
      · exact told_started _ (hbody.cut hbegun)
  | whole ok hquiet hbody hok hkept hquiet' =>
    obtain hcut | ⟨rest, rfl, hrest⟩ := prefix_append_cases hcut
    · exact told_quiet h (hquiet.cut hcut)
    · rw [← List.append_assoc]
      obtain rfl | ⟨begun, rfl, hbegun⟩ := List.prefix_cons_iff.mp hrest
      · rw [List.append_nil]
        exact told_quiet h hquiet
      · obtain hbegun | ⟨last, rfl, hlast⟩ := prefix_append_cases hbegun
        · exact told_started _ (hbody.cut hbegun)
        · obtain rfl | ⟨behind, rfl, hbehind⟩ := List.prefix_cons_iff.mp hlast
          · rw [List.append_nil]
            exact told_started _ hbody
          · exact told_whole _ ok hbody hok (hkept ▸ hsteps) (hquiet'.cut hbehind)

end Cuts

section Starts

variable {storage network : Client}

theorem mainTask_cut (h : Told complete tr) (hstorage : complete (storageSteps storage))
    (hnetwork : complete (networkSteps network)) (hcut : tr ++ new <+: (mainTask storage network tr).2) :
    Told complete (tr ++ new) := by
  obtain ⟨first, hfirst, hshape⟩ := storage_shape storage tr
  unfold mainTask at hcut
  split_ifs at hcut with herror
  · obtain ⟨second, hsecond, hshape'⟩ := network_shape network (updateFromStorage storage tr).2
    rw [hsecond, hfirst, List.append_assoc, List.prefix_append_right_inj] at hcut
    obtain hcut | ⟨rest, rfl, hrest⟩ := prefix_append_cases hcut
    · exact told_cut h hshape hstorage hcut
    · rw [← List.append_assoc]
      exact told_cut (told_cut h hshape hstorage (List.prefix_refl first)) hshape' hnetwork hrest
  · rw [hfirst, List.prefix_append_right_inj] at hcut
    exact told_cut h hshape hstorage hcut

theorem reachable_told (h : Reachable complete tr) : Told complete tr := by
  induction h with
  | fresh => nofun
  | boot _ storage network hstorage hnetwork hcut ih => exact mainTask_cut ih hstorage hnetwork hcut

theorem Shape.exit (h : Shape steps result new) (tr : List Event) : (result = 0 → flagOf (tr ++ new) = some .updateDone) ∧
    (result ≠ 0 → flagOf (tr ++ new) = some .updateDone → Quiet new) := by
  cases h with
  | idle hquiet => exact ⟨fun hzero => absurd hzero (by decide), fun _ _ => hquiet⟩
  | broken hquiet hbody =>
    rw [← List.append_assoc, flagOf_started _ hbody]
    exact ⟨fun hzero => absurd hzero (by decide), fun _ hdone => absurd hdone (by decide)⟩
  | whole ok hquiet hbody hok hsteps hquiet' =>
    rw [← List.append_assoc, ← List.append_assoc]
    cases ok with
    | true =>
      refine ⟨fun _ => ?_, fun hne => absurd rfl hne⟩
      rw [List.append_cons, hquiet'.flagOf, flagOf, List.filterMap_append]
      exact List.getLast?_concat
    | false =>
      have hrest : Quiet ((Call.flagWrite .updateDone, false) :: _) := List.forall_mem_cons.mpr ⟨⟨rfl, rfl⟩, hquiet'⟩
      rw [hrest.flagOf, flagOf_started _ hbody]
      exact ⟨fun hzero => absurd hzero (by decide), fun _ hdone => absurd hdone (by decide)⟩

theorem mainTask_exit (storage network : Client) (tr : List Event) :
    ((mainTask storage network tr).1 = 0 → flagOf (mainTask storage network tr).2 = some .updateDone) ∧
    ((mainTask storage network tr).1 ≠ 0 → flagOf (mainTask storage network tr).2 = some .updateDone →
      ∃ new, (mainTask storage network tr).2 = tr ++ new ∧ Quiet new) := by
  obtain ⟨first, hfirst, hshape⟩ := storage_shape storage tr
  have hexit := hshape.exit tr
  unfold mainTask
  split_ifs with herror
  · obtain ⟨second, hsecond, hshape'⟩ := network_shape network (updateFromStorage storage tr).2
    have hexit' := hshape'.exit (tr ++ first)
    rw [hsecond, hfirst] at *
    refine ⟨hexit'.1, fun hne hdone => ?_⟩
    have hquiet := hexit'.2 hne hdone
    rw [hquiet.flagOf] at hdone
    exact ⟨first ++ second, List.append_assoc _ _ _, (hexit.2 herror.ne hdone).append hquiet⟩
  · rw [hfirst]
    exact ⟨hexit.1, fun hne hdone => ⟨first, rfl, hexit.2 hne hdone⟩⟩

/-- However often the task is started and wherever each start is cut off, the flag tells what is on the flash, and the
exit status of a start that comes to its end agrees with the flag. -/
theorem restarts_told (h : Reachable complete tr) : Told complete tr ∧ ∀ storage network : Client,
    ((mainTask storage network tr).1 = 0 → flagOf (mainTask storage network tr).2 = some .updateDone) ∧
    ((mainTask storage network tr).1 ≠ 0 → flagOf (mainTask storage network tr).2 = some .updateDone →
      ∃ new, (mainTask storage network tr).2 = tr ++ new ∧ Quiet new) :=
  ⟨reachable_told h, fun storage network => mainTask_exit storage network tr⟩

def sampleClient : Client where
  reply := fun _ _ => true
  bits := 32
  stat := fun _ _ => some 2048
  serverIp := "192.168.4.13"
  serverUrl := "http://192.168.4.13:8080"
  publicKeyPath := "/res/key"
  validUpdateVolume := some "/mnt/sda1"
  devices := [⟨"nand", [⟨⟨"kernel", 0, 8192, "mtd1"⟩, 1, 2, [⟨"xImage", "normal", 0, 3000, 2048, 2⟩]⟩]⟩]

def begun : List Event := (mainTask sampleClient sampleClient []).2.take 12

theorem restarts_told_sample :
    Told (fun steps => steps = storageSteps sampleClient ∨ steps = networkSteps sampleClient) begun ∧
    ∀ storage network : Client,
      ((mainTask storage network begun).1 = 0 → flagOf (mainTask storage network begun).2 = some .updateDone) ∧
      ((mainTask storage network begun).1 ≠ 0 → flagOf (mainTask storage network begun).2 = some .updateDone →
        ∃ new, (mainTask storage network begun).2 = begun ++ new ∧ Quiet new) :=
  restarts_told (@Reachable.boot _ [] begun .fresh sampleClient sampleClient (.inl rfl) (.inr rfl) (List.take_prefix 12 _))

end Starts

end LinuxRecovery.MainTask
