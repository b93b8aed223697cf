import LinuxRecovery.StorageCycle

namespace LinuxRecovery.Hotplug

open Uevent StorageCycle

/-- An event of the kernel; `environment` is what the subsystem and the driver add to it. -/
structure KernelEvent where
  action : Text
  devpath : Text
  subsystem : Text
  environment : List (Text × Text)
  seqnum : Text

def KernelEvent.assignments (e : KernelEvent) : List (Text × Text) :=
  (bytes "ACTION", e.action) :: (bytes "DEVPATH", e.devpath) :: (bytes "SUBSYSTEM", e.subsystem) ::
    (e.environment ++ [(bytes "SEQNUM", e.seqnum)])

def spelled (v : Text × Text) : Text := v.1 ++ equals :: v.2

def KernelEvent.datagram (e : KernelEvent) : Text :=
  (e.action ++ atSign :: e.devpath) ++ 0 :: (e.assignments.map spelled).flatMap (· ++ [0])

def KernelEvent.params (e : KernelEvent) : List (Text × Text) := (bytes "DEVPATH", e.devpath) :: e.environment

def KernelEvent.param (e : KernelEvent) (key : Text) : Option Text := (e.params.find? fun v => v.1 = key).map Prod.snd

structure WellFormed (e : KernelEvent) : Prop where
  action : 0 ∉ e.action ∧ atSign ∉ e.action
  devpath : e.devpath ≠ [] ∧ 0 ∉ e.devpath
  subsystem : 0 ∉ e.subsystem
  seqnum : 0 ∉ e.seqnum
  clean : ∀ v ∈ e.environment, 0 ∉ v.1 ∧ equals ∉ v.1 ∧ 0 ∉ v.2
  unreserved : ∀ v ∈ e.environment, v.1 ≠ bytes "ACTION" ∧ v.1 ≠ bytes "SEQNUM" ∧ v.1 ≠ bytes "SUBSYSTEM"
  room : e.environment.length < nlParamsMax
  named : e.subsystem = bytes "block" →
    (e.param (bytes "DEVNAME")).isSome = true ∧ (e.param (bytes "DEVTYPE")).isSome = true
  fits : e.subsystem = bytes "block" → (e.param (bytes "DEVNAME")).all (fun name => name.length ≤ 58) = true

def KernelEvent.storage (e : KernelEvent) : Option (Text × Bool) :=
  if e.subsystem = bytes "block" then
    (e.param (bytes "DEVNAME")).bind fun name => (e.param (bytes "DEVTYPE")).bind fun type =>
      if isStorage name = true ∧ ((type = bytes "disk" ∧ (e.param (bytes "NPARTS")).elim (-1) atoi = 0) ∨
          type = bytes "partition") then
        if e.action = bytes "add" then some (name, true)
        else if e.action = bytes "remove" then some (name, false)
        else none
      else none
  else none

def follow (devs : List Text) : Text × Bool → List Text
  | (name, true) => addStorageDev devs name
  | (name, false) => delStorageDev devs name

def listen (es : List KernelEvent) : Option (List Text) := es.foldlM (fun devs e => threadLoop e.datagram devs) []

def lastSaid (changes : List (Text × Bool)) (name : Text) : Option Bool :=
  (changes.filter fun c => c.1 = name).getLast?.map Prod.snd

/-- The devices that stay, in the order in which their stays began: with an add that found them gone and that no
remove follows. -/
def staying : List (Text × Bool) → List (Text × Bool) → List Text
  | _, [] => []
  | before, c :: after =>
    if c.2 = true ∧ lastSaid before c.1 ≠ some true ∧ (c.1, false) ∉ after then c.1 :: staying (before ++ [c]) after
    else staying (before ++ [c]) after

section Spelling

variable {k v key : Text}

theorem split_equals {a : Text} (hk : equals ∉ k) (hkey : equals ∉ key) (h : k ++ equals :: v = key ++ equals :: a) :
    k = key ∧ v = a := by
  rcases List.append_eq_append_iff.mp h with ⟨c, hc, ht⟩ | ⟨c, hc, ht⟩
  · cases c with
    | nil => exact ⟨by rw [hc, List.append_nil], (List.cons.inj ht).2⟩
    | cons d c =>
      obtain rfl : equals = d := (List.cons.inj ht).1
      exact absurd (by rw [hc]; simp) hkey
  · cases c with
    | nil => exact ⟨by rw [hc, List.append_nil], (List.cons.inj ht).2.symm⟩
    | cons d c =>
      obtain rfl : equals = d := (List.cons.inj ht).1
      exact absurd (by rw [hc]; simp) hk

theorem hasPrefix_spelled (hk : equals ∉ k) (hkey : equals ∉ key) :
    hasPrefix (spelled (k, v)) (key ++ [equals]) = if k = key then some v else none := by
  cases h : hasPrefix (spelled (k, v)) (key ++ [equals]) with
  | some a =>
    have htext := hasPrefix_some h
    rw [spelled, List.append_assoc, List.singleton_append] at htext
    obtain ⟨rfl, rfl⟩ := split_equals hk hkey htext
    rw [if_pos rfl]
  | none =>
    rw [if_neg]
    rintro rfl
    have hsplit : spelled (k, v) = (k ++ [equals]) ++ v := List.append_cons k equals v
    rw [hasPrefix, if_pos ⟨hsplit ▸ (List.prefix_append _ v).length_le, by rw [hsplit, List.take_left]⟩] at h
    cases h

theorem paramValue_cons (hk : equals ∉ k) (hkey : equals ∉ key) (texts : List Text) :
    paramValue (spelled (k, v) :: texts) key = if k = key then some v else paramValue texts key := by
  unfold paramValue
  rw [List.findSome?_cons]
  by_cases h : k = key
  · rw [if_pos h, h]
    simp [spelled]
  · have hother : ¬(key.isPrefixOf (spelled (k, v)) && (spelled (k, v))[key.length]? == some equals) = true := by
      rw [Bool.and_eq_true, List.isPrefixOf_iff_prefix, beq_iff_eq]
      rintro ⟨⟨t, ht⟩, hc⟩
      rw [← ht, List.getElem?_append_right le_rfl, Nat.sub_self] at hc
      cases t with
      | nil => cases hc
      | cons d a =>
        obtain rfl : d = equals := Option.some.inj hc
        exact h (split_equals hkey hk ht).1.symm
    rw [if_neg hother, if_neg h]

theorem paramValue_spelled {vs : List (Text × Text)} (hvs : ∀ v ∈ vs, equals ∉ v.1) (hkey : equals ∉ key) :
    paramValue (vs.map spelled) key = (vs.find? fun v => v.1 = key).map Prod.snd := by
  induction vs with
  | nil => rfl
  | cons v vs ih =>
    rw [List.forall_mem_cons] at hvs
    rw [List.map_cons, paramValue_cons hvs.1 hkey, ih hvs.2, List.find?_cons]
    by_cases h : v.1 = key
    · rw [if_pos h, decide_eq_true h]
      rfl
    · rw [if_neg h, decide_eq_false h]

end Spelling

section Decode

variable {e : KernelEvent} {key : Text}

theorem assignments_clean (h : WellFormed e) : ∀ v ∈ e.assignments, 0 ∉ v.1 ∧ equals ∉ v.1 ∧ 0 ∉ v.2 := by
  have hreserved {k value : Text} (hk : 0 ∉ k ∧ equals ∉ k) (hvalue : 0 ∉ value) : 0 ∉ k ∧ equals ∉ k ∧ 0 ∉ value :=
    ⟨hk.1, hk.2, hvalue⟩
  rw [KernelEvent.assignments, List.forall_mem_cons, List.forall_mem_cons, List.forall_mem_cons, List.forall_mem_append,
    List.forall_mem_singleton]
  exact ⟨@hreserved (bytes "ACTION") _ (by decide) h.action.1, @hreserved (bytes "DEVPATH") _ (by decide) h.devpath.2,
    @hreserved (bytes "SUBSYSTEM") _ (by decide) h.subsystem, h.clean, @hreserved (bytes "SEQNUM") _ (by decide) h.seqnum⟩

theorem spelled_clean (h : WellFormed e) : ∀ text ∈ e.assignments.map spelled, 0 ∉ text := by
  rw [List.forall_mem_map]
  intro v hv
  obtain ⟨hk, -, hvalue⟩ := assignments_clean h v hv
  rw [spelled, List.mem_append, List.mem_cons, not_or, not_or]
  exact ⟨hk, by decide, hvalue⟩

theorem datagram_terminated (e : KernelEvent) : terminated e.datagram = e.datagram := by
  have hends (texts : List Text) : ∃ s, 0 :: texts.flatMap (· ++ [0]) = s ++ [(0 : UInt8)] := by
    induction texts using List.reverseRecOn with
    | nil => exact ⟨[], rfl⟩
    | append_singleton texts text _ => exact ⟨0 :: texts.flatMap (· ++ [0]) ++ text, by simp⟩
  obtain ⟨s, hs⟩ := hends (e.assignments.map spelled)
  rw [KernelEvent.datagram, hs, ← List.append_assoc, terminated, List.dropLast_concat]

theorem parsePath_header (h : WellFormed e) (this : NetlinkEvent) (s : Text) :
    parsePath this ((e.action ++ atSign :: e.devpath) ++ 0 :: s) = some { this with path := some (e.devpath.drop 1) } := by
  have hfind : findAt ((e.action ++ atSign :: e.devpath) ++ 0 :: s) = some (e.devpath ++ 0 :: s) :=
    (findAt_iff _ _).mpr ⟨e.action, by rw [List.append_assoc, List.cons_append], h.action.2⟩
  obtain ⟨hne, hclean⟩ := h.devpath
  rw [parsePath, hfind]
  dsimp only
  cases hd : e.devpath with
  | nil => exact absurd hd hne
  | cons c path =>
    rw [hd, List.mem_cons, not_or] at hclean
    rw [List.cons_append, List.drop_one, List.drop_one, List.tail_cons, List.tail_cons, cString_text hclean.2, Option.map_some]

theorem datagram_parsed (h : WellFormed e) : parseAsciiNetlinkMessage constructNetlinkEvent e.datagram =
    some (true, (e.assignments.map spelled).foldl NetlinkEvent.store
      { constructNetlinkEvent with path := some (e.devpath.drop 1) }) := by
  have hheader : 0 ∉ e.action ++ atSign :: e.devpath := by
    rw [List.mem_append, List.mem_cons, not_or, not_or]
    exact ⟨h.action.1, by decide, h.devpath.2⟩
  have hparse : Scan.parse ⟨true, e.datagram, constructNetlinkEvent⟩ = _ := parsePath_header h constructNetlinkEvent _
  have hne : e.datagram ≠ [] := by simp [KernelEvent.datagram]
  rw [parseAsciiNetlinkMessage, if_neg hne, datagram_terminated]
  rw [KernelEvent.datagram] at hparse ⊢
  rw [scan_parsed hheader hparse, scan_fields (spelled_clean h), Option.map_some]

def valuesOf (vs : List (Text × Text)) (key : Text) : List Text :=
  vs.filterMap fun v => if v.1 = key then some v.2 else none

theorem valuesOf_cons (k v : Text) (vs : List (Text × Text)) (key : Text) :
    valuesOf ((k, v) :: vs) key = if k = key then v :: valuesOf vs key else valuesOf vs key := by
  by_cases h : k = key <;> simp [valuesOf, h]

theorem valuesOf_free {vs : List (Text × Text)} (h : ∀ v ∈ vs, v.1 ≠ key) (us : List (Text × Text)) :
    valuesOf (vs ++ us) key = valuesOf us key := by
  have hvs : valuesOf vs key = [] := List.filterMap_eq_nil_iff.mpr fun v hv => if_neg (h v hv)
  rw [valuesOf, List.filterMap_append, ← valuesOf, ← valuesOf, hvs, List.nil_append]

theorem filterMap_spelled (h : WellFormed e) (hkey : equals ∉ key) :
    (e.assignments.map spelled).filterMap (hasPrefix · (key ++ [equals])) = valuesOf e.assignments key := by
  rw [List.filterMap_map]
  exact List.filterMap_congr fun v hv => hasPrefix_spelled (assignments_clean h v hv).2.1 hkey

theorem subsystem_said (h : WellFormed e) :
    (e.assignments.map spelled).filterMap (hasPrefix · (bytes "SUBSYSTEM=")) = [e.subsystem] := by
  refine (@filterMap_spelled e (bytes "SUBSYSTEM") h (by decide)).trans ?_
  rw [KernelEvent.assignments, valuesOf_cons, if_neg (by decide), valuesOf_cons, if_neg (by decide), valuesOf_cons, if_pos rfl,
    valuesOf_free (fun v hv => (h.unreserved v hv).2.2), valuesOf_cons, if_neg (by decide)]
  rfl

theorem action_said (h : WellFormed e) :
    (e.assignments.map spelled).filterMap (hasPrefix · (bytes "ACTION=")) = [e.action] := by
  refine (@filterMap_spelled e (bytes "ACTION") h (by decide)).trans ?_
  rw [KernelEvent.assignments, valuesOf_cons, if_pos rfl, valuesOf_cons, if_neg (by decide), valuesOf_cons, if_neg (by decide),
    valuesOf_free (fun v hv => (h.unreserved v hv).1), valuesOf_cons, if_neg (by decide)]
  rfl

theorem isParam_spelled {v : Text × Text} (hv : equals ∉ v.1) : isParam (spelled v) = true ↔
    v.1 ≠ bytes "ACTION" ∧ v.1 ≠ bytes "SEQNUM" ∧ v.1 ≠ bytes "SUBSYSTEM" := by
  have hnone {key : Text} (hkey : equals ∉ key) : (hasPrefix (spelled v) (key ++ [equals])).isNone = true ↔ v.1 ≠ key := by
    rw [hasPrefix_spelled hv hkey]
    split_ifs with h <;> simp [h]
  rw [isParam, Bool.and_eq_true, Bool.and_eq_true, and_assoc]
  exact and_congr (@hnone (bytes "ACTION") (by decide)) (and_congr (@hnone (bytes "SEQNUM") (by decide))
    (@hnone (bytes "SUBSYSTEM") (by decide)))

theorem params_said (h : WellFormed e) : (e.assignments.map spelled).filter isParam = e.params.map spelled := by
  have hkeys : ∀ v ∈ e.params.map spelled, isParam v = true := by
    rw [List.forall_mem_map, KernelEvent.params, List.forall_mem_cons]
    have hpath : equals ∉ bytes "DEVPATH" := by decide
    have hfree : bytes "DEVPATH" ≠ bytes "ACTION" ∧ bytes "DEVPATH" ≠ bytes "SEQNUM" ∧
        bytes "DEVPATH" ≠ bytes "SUBSYSTEM" := by decide
    exact ⟨(isParam_spelled hpath).mpr hfree, fun v hv => (isParam_spelled (h.clean v hv).2.1).mpr (h.unreserved v hv)⟩
  have hnot {key value : Text} (hkey : equals ∉ key)
      (hr : ¬(key ≠ bytes "ACTION" ∧ key ≠ bytes "SEQNUM" ∧ key ≠ bytes "SUBSYSTEM")) :
      ¬isParam (spelled (key, value)) = true := mt (isParam_spelled hkey).mp hr
  rw [KernelEvent.params, List.map_cons, List.forall_mem_cons] at hkeys
  rw [KernelEvent.assignments, List.map_cons, List.map_cons, List.map_cons, List.map_append, List.map_singleton,
    List.filter_cons_of_neg (hnot (by decide) (by decide)), List.filter_cons_of_pos hkeys.1,
    List.filter_cons_of_neg (hnot (by decide) (by decide)), List.filter_append, List.filter_eq_self.mpr hkeys.2,
    List.filter_cons_of_neg (hnot (by decide) (by decide)), List.filter_nil, List.append_nil]
  rfl

end Decode

section Handle

variable {e : KernelEvent} {event : NetlinkEvent}

structure Decoded (e : KernelEvent) (event : NetlinkEvent) : Prop where
  subsystem : event.subsystem = some e.subsystem
  action : event.action = (actionNamed e.action).getD .unknown
  params : event.params = e.params.map spelled

theorem stored_decoded (h : WellFormed e) (path : Option Text) :
    Decoded e ((e.assignments.map spelled).foldl NetlinkEvent.store { constructNetlinkEvent with path := path }) where
  subsystem := by
    rw [foldl_last NetlinkEvent.subsystem store_subsystem, subsystem_said h]
    rfl
  action := by
    have hlast := foldl_last (fun this : NetlinkEvent => some this.action) store_action
      { constructNetlinkEvent with path := path } (e.assignments.map spelled)
    rw [← List.filterMap_filterMap, action_said h] at hlast
    apply Option.some.inj
    rw [hlast]
    cases hact : actionNamed e.action with
    | none => rw [List.filterMap_cons_none hact]; rfl
    | some act => rw [List.filterMap_cons_some hact]; rfl
  params := by
    rw [foldl_params _ _ (Nat.zero_le _), params_said h]
    refine List.take_of_length_le ?_
    rw [List.length_append, List.length_map]
    change 0 + (e.environment.length + 1) ≤ nlParamsMax
    rw [zero_add]
    exact h.room

theorem params_clean (h : WellFormed e) : ∀ v ∈ e.params, equals ∉ v.1 := by
  have hpath : equals ∉ bytes "DEVPATH" := by decide
  rw [KernelEvent.params, List.forall_mem_cons]
  exact ⟨hpath, fun v hv => (h.clean v hv).2.1⟩

theorem handled (h : WellFormed e) (hd : Decoded e event) (devs : List Text) :
    handleEvent event devs = some (e.storage.elim devs (follow devs)) := by
  have hparam {key : Text} (hkey : equals ∉ key) : findParam event key = e.param key := by
    rw [findParam, hd.params, paramValue_spelled (params_clean h) hkey, KernelEvent.param]
  rw [handleEvent, hd.subsystem, KernelEvent.storage]
  dsimp only
  by_cases hb : e.subsystem = bytes "block"
  · obtain ⟨hname, htype⟩ := h.named hb
    obtain ⟨name, hname⟩ := Option.isSome_iff_exists.mp hname
    obtain ⟨type, htype⟩ := Option.isSome_iff_exists.mp htype
    rw [if_pos hb, if_pos hb, handleBlockEvent, hparam (by decide), hparam (by decide), hparam (by decide), hname, htype,
      hd.action, Option.bind_some, Option.bind_some]
    dsimp only
    cases hs : isStorage name with
    | false => simp
    | true =>
      rw [actionNamed]
      by_cases hlisted : (type = bytes "disk" ∧ (e.param (bytes "NPARTS")).elim (-1) atoi = 0) ∨ type = bytes "partition"
      · split_ifs <;> simp_all [follow]
      · split_ifs <;> simp_all
  · rw [if_neg hb, if_neg hb]
    rfl

theorem heard (h : WellFormed e) (devs : List Text) :
    threadLoop e.datagram devs = some (e.storage.elim devs (follow devs)) := by
  rw [threadLoop, datagram_parsed h]
  exact handled h (stored_decoded h _) devs

end Handle

section Listening

variable {devs : List Text} {changes : List (Text × Bool)} {es : List KernelEvent}

theorem mem_follow (devs : List Text) (n name : Text) (comes : Bool) :
    name ∈ follow devs (n, comes) ↔ (n = name ∧ comes = true) ∨ (n ≠ name ∧ name ∈ devs) := by
  cases comes with
  | false =>
    rw [follow, delStorageDev, List.mem_filter, decide_eq_true_iff]
    constructor
    · rintro ⟨hmem, hne⟩
      exact .inr ⟨Ne.symm hne, hmem⟩
    · rintro (⟨-, hfalse⟩ | ⟨hne, hmem⟩)
      · exact Bool.noConfusion hfalse
      · exact ⟨hmem, Ne.symm hne⟩
  | true =>
    rw [follow, addStorageDev]
    by_cases h : n = name
    · subst h
      split_ifs with hmem <;> simp [hmem]
    · split_ifs <;> simp [h, Ne.symm h]

theorem follow_nodup (h : devs.Nodup) (c : Text × Bool) : (follow devs c).Nodup := by
  obtain ⟨name, comes⟩ := c
  cases comes with
  | false => exact h.filter _
  | true =>
    rw [follow, addStorageDev]
    split_ifs with hmem
    · exact h
    · exact List.nodup_append'.mpr ⟨h, List.nodup_singleton _, List.disjoint_singleton.mpr hmem⟩

theorem followed_nodup (changes : List (Text × Bool)) : (changes.foldl follow []).Nodup := by
  induction changes using List.reverseRecOn with
  | nil => exact List.nodup_nil
  | append_singleton changes c ih =>
    rw [List.foldl_append, List.foldl_cons, List.foldl_nil]
    exact follow_nodup ih c

theorem mem_followed (changes : List (Text × Bool)) (name : Text) :
    name ∈ changes.foldl follow [] ↔ lastSaid changes name = some true := by
  induction changes using List.reverseRecOn with
  | nil => simp [lastSaid]
  | append_singleton changes c ih =>
    obtain ⟨n, comes⟩ := c
    rw [List.foldl_append, List.foldl_cons, List.foldl_nil, mem_follow, ih, lastSaid, lastSaid, List.filter_append]
    by_cases h : n = name
    · simp [h]
    · simp [h]

theorem staying_cons (before : List (Text × Bool)) (c : Text × Bool) (after : List (Text × Bool)) :
    staying before (c :: after) =
      if c.2 = true ∧ lastSaid before c.1 ≠ some true ∧ (c.1, false) ∉ after then c.1 :: staying (before ++ [c]) after
      else staying (before ++ [c]) after := rfl

theorem staying_nil (before : List (Text × Bool)) : staying before [] = [] := rfl

theorem staying_add (before changes : List (Text × Bool)) (name : Text) :
    staying before (changes ++ [(name, true)]) =
      staying before changes ++ if lastSaid (before ++ changes) name = some true then [] else [name] := by
  induction changes generalizing before with
  | nil =>
    rw [List.nil_append, List.append_nil, staying_cons, staying_nil, staying_nil]
    by_cases h : lastSaid before name = some true
    · simp [h]
    · simp [h]
  | cons c changes ih =>
    have hlater : (c.1, false) ∈ changes ++ [(name, true)] ↔ (c.1, false) ∈ changes := by simp
    have hsplit : before ++ [c] ++ changes = before ++ c :: changes := by simp
    rw [List.cons_append, staying_cons, staying_cons, ih, hsplit]
    simp only [hlater]
    split_ifs <;> rfl

theorem staying_remove (before changes : List (Text × Bool)) (name : Text) :
    staying before (changes ++ [(name, false)]) = (staying before changes).filter (· ≠ name) := by
  induction changes generalizing before with
  | nil =>
    rw [List.nil_append, staying_cons, staying_nil, staying_nil, if_neg (fun h => Bool.noConfusion h.1)]
    rfl
  | cons c changes ih =>
    rw [List.cons_append, staying_cons, staying_cons, ih]
    by_cases hname : c.1 = name
    · have hgone : (c.1, false) ∈ changes ++ [(name, false)] := by simp [hname]
      rw [if_neg (fun h => h.2.2 hgone)]
      split_ifs
      · rw [List.filter_cons_of_neg (by simp [hname])]
      · rfl
    · have hlater : (c.1, false) ∈ changes ++ [(name, false)] ↔ (c.1, false) ∈ changes := by simp [hname]
      simp only [hlater]
      split_ifs
      · rw [List.filter_cons_of_pos (by simp [hname])]
      · rfl

theorem followed_staying (changes : List (Text × Bool)) : changes.foldl follow [] = staying [] changes := by
  induction changes using List.reverseRecOn with
  | nil => rfl
  | append_singleton changes c ih =>
    obtain ⟨name, comes⟩ := c
    have hknown := mem_followed changes name
    rw [List.foldl_append, List.foldl_cons, List.foldl_nil]
    rw [ih] at hknown ⊢
    cases comes with
    | false => rw [staying_remove, follow, delStorageDev]
    | true =>
      rw [staying_add, List.nil_append, follow, addStorageDev]
      by_cases hmem : name ∈ staying [] changes
      · rw [if_pos hmem, if_pos (hknown.mp hmem), List.append_nil]
      · rw [if_neg hmem, if_neg (fun hsaid => hmem (hknown.mpr hsaid))]

theorem listen_followed (hes : ∀ e ∈ es, WellFormed e) :
    listen es = some ((es.filterMap KernelEvent.storage).foldl follow []) := by
  have hrun (devs : List Text) : es.foldlM (fun devs e => threadLoop e.datagram devs) devs =
      some ((es.filterMap KernelEvent.storage).foldl follow devs) := by
    induction es generalizing devs with
    | nil => rfl
    | cons e es ih =>
      rw [List.forall_mem_cons] at hes
      rw [List.foldlM_cons, heard hes.1, Option.bind_eq_bind, Option.bind_some, ih hes.2, List.filterMap_cons]
      cases e.storage <;> rfl
  exact hrun []

theorem listened_known (hes : ∀ e ∈ es, WellFormed e)
    (hnames : ∀ e ∈ es, ∀ name, e.storage = some (name, true) → DeviceName name) (hdevs : listen es = some devs) :
    Known devs := by
  rw [listen_followed hes] at hdevs
  cases hdevs
  have hadded : ∀ name, (name, true) ∈ es.filterMap KernelEvent.storage → DeviceName name := by
    intro name hmem
    obtain ⟨e, he, hsaid⟩ := List.mem_filterMap.mp hmem
    exact hnames e he name hsaid
  generalize es.filterMap KernelEvent.storage = changes at hadded
  induction changes using List.reverseRecOn with
  | nil => exact .none
  | append_singleton changes c ih =>
    have hbefore := ih fun name hmem => hadded name (List.mem_append_left _ hmem)
    rw [List.foldl_append, List.foldl_cons, List.foldl_nil]
    obtain ⟨name, comes⟩ := c
    cases comes with
    | false => exact .del name hbefore
    | true => exact .add (hadded name (List.mem_append_right _ (List.mem_singleton_self _))) hbefore

/-- Behind any events of the kernel the list holds just the storage devices that came and have not gone since. -/
theorem listened_devices (hes : ∀ e ∈ es, WellFormed e) : ∃ devs, listen es = some devs ∧ devs.Nodup ∧
    devs = staying [] (es.filterMap KernelEvent.storage) ∧
    ∀ name, name ∈ devs ↔ lastSaid (es.filterMap KernelEvent.storage) name = some true :=
  ⟨_, listen_followed hes, followed_nodup _, followed_staying _, mem_followed _⟩

def arrival : KernelEvent where
  action := bytes "add"
  devpath := bytes "/block/sda/sda1"
  subsystem := bytes "block"
  environment := [(bytes "MAJOR", bytes "8"), (bytes "DEVNAME", bytes "sda1"), (bytes "DEVTYPE", bytes "partition")]
  seqnum := bytes "7"

def second : KernelEvent := { arrival with
  devpath := bytes "/block/sdb/sdb1"
  environment := [(bytes "DEVNAME", bytes "sdb1"), (bytes "DEVTYPE", bytes "partition")] }

def departure : KernelEvent := { arrival with action := bytes "remove", seqnum := bytes "8" }

theorem arrival_wellFormed : WellFormed arrival := by
  constructor <;> decide

theorem second_wellFormed : WellFormed second := by
  constructor <;> decide

theorem departure_wellFormed : WellFormed departure := by
  constructor <;> decide

theorem listened_devices_sample : ∃ devs, listen [arrival, second, departure, arrival] = some devs ∧ devs.Nodup ∧
    devs = [bytes "sdb1", bytes "sda1"] ∧
    ∀ name, name ∈ devs ↔ lastSaid [(bytes "sda1", true), (bytes "sdb1", true), (bytes "sda1", false),
      (bytes "sda1", true)] name = some true :=
  listened_devices (List.forall_mem_cons.mpr ⟨arrival_wellFormed, List.forall_mem_cons.mpr
    ⟨second_wellFormed, List.forall_mem_cons.mpr ⟨departure_wellFormed,
      List.forall_mem_singleton.mpr arrival_wellFormed⟩⟩⟩)

end Listening

end LinuxRecovery.Hotplug
