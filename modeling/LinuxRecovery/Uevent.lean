import LinuxRecovery.Loops
import LinuxRecovery.NumberText

namespace LinuxRecovery.Uevent

open Loops

abbrev Text : Type := List UInt8

def bytes (s : String) : Text := s.toList.map (fun c => UInt8.ofNat c.toNat)

def atSign : UInt8 := 64

def equals : UInt8 := 61

def nlParamsMax : ℕ := 128

inductive NlAction where
  | unknown
  | add
  | remove
  | change
  deriving DecidableEq

structure NetlinkEvent where
  path : Option Text
  action : NlAction
  subsystem : Option Text
  seq : ℤ
  params : List Text
  deriving DecidableEq

def constructNetlinkEvent : NetlinkEvent := ⟨none, .unknown, none, 0, []⟩

/-- A pointer into the message is what is left of the message behind it; nothing is what a read beyond it gives. -/
def cString : Text → Option Text
  | [] => none
  | c :: s => if c = 0 then some [] else (cString s).map (c :: ·)

def findAt : Text → Option Text
  | [] => none
  | c :: p => if c = atSign then some p else findAt p

def hasPrefix (str key : Text) : Option Text :=
  if key.length ≤ str.length ∧ str.take key.length = key then some (str.drop key.length) else none

def atoi (text : Text) : ℤ :=
  let s := text.map (fun b => Char.ofNat b.toNat)
  let (neg, t) := NumberText.readSign (s.dropWhile NumberText.isSpace)
  let n := NumberText.readNumber 10 neg s t
  if n.neg then max (-2 ^ 31) (-(n.magnitude : ℤ)) else min (2 ^ 31 - 1) (n.magnitude : ℤ)

def NetlinkEvent.setAction (this : NetlinkEvent) (text : Text) : NetlinkEvent :=
  if text = bytes "add" then { this with action := .add }
  else if text = bytes "remove" then { this with action := .remove }
  else if text = bytes "change" then { this with action := .change }
  else this

def parsePath (this : NetlinkEvent) (s : Text) : Option NetlinkEvent :=
  match findAt s with
  | none => none
  | some p => (cString (p.drop 1)).map (fun path => { this with path := some path })

def parseField (this : NetlinkEvent) (s : Text) : Option NetlinkEvent :=
  match hasPrefix s (bytes "ACTION=") with
  | some a => (cString a).map this.setAction
  | none =>
    match hasPrefix s (bytes "SEQNUM=") with
    | some a => (cString a).map (fun text => { this with seq := atoi text })
    | none =>
      match hasPrefix s (bytes "SUBSYSTEM=") with
      | some a => (cString a).map (fun text => { this with subsystem := some text })
      | none =>
        if this.params.length < nlParamsMax then
          (cString s).map (fun text => { this with params := this.params ++ [text] })
        else some this

structure Scan where
  first : Bool
  s : Text
  this : NetlinkEvent

def Scan.parse (st : Scan) : Option NetlinkEvent :=
  if st.first then parsePath st.this st.s else parseField st.this st.s

def scanStep (st : Scan) : Step Scan (Option NetlinkEvent) :=
  if st.s = [] then .done (some st.this)
  else
    match st.parse, cString st.s with
    | some this, some text => .next ⟨false, st.s.drop (text.length + 1), this⟩
    | _, _ => .done none

theorem scanStep_next {st st' : Scan} (h : scanStep st = .next st') :
    st.s ≠ [] ∧ ∃ text, cString st.s = some text ∧ st'.s = st.s.drop (text.length + 1) := by
  unfold scanStep at h
  split_ifs at h with hs
  · cases hp : st.parse with
    | none => rw [hp] at h; cases h
    | some this =>
      cases hc : cString st.s with
      | none => rw [hp, hc] at h; cases h
      | some text =>
        rw [hp, hc] at h
        cases h
        exact ⟨hs, text, rfl, rfl⟩

def scanLoop : Loop Scan (Option NetlinkEvent) where
  step := scanStep
  measure := fun st => st.s.length
  decreasing := by
    intro st st' h
    obtain ⟨hs, text, -, hdrop⟩ := scanStep_next h
    have := List.length_pos_iff.mpr hs
    rw [hdrop, List.length_drop]
    omega

def terminated (buffer : Text) : Text := buffer.dropLast ++ [0]

def parseAsciiNetlinkMessage (this : NetlinkEvent) (buffer : Text) : Option (Bool × NetlinkEvent) :=
  if buffer = [] then some (false, this)
  else (scanLoop.exec ⟨true, terminated buffer, this⟩).map (fun this => (true, this))

def paramValue (params : List Text) (paramName : Text) : Option Text :=
  params.findSome? (fun param =>
    if paramName.isPrefixOf param && param[paramName.length]? == some equals then
      some (param.drop (paramName.length + 1))
    else none)

def findParam (this : NetlinkEvent) (paramName : Text) : Option Text := paramValue this.params paramName

def addStorageDev (devs : List Text) (name : Text) : List Text := if name ∈ devs then devs else devs ++ [name]

def delStorageDev (devs : List Text) (name : Text) : List Text := devs.filter (· ≠ name)

def isPrefixedWith (string key : Text) : Bool := key.isPrefixOf string

def isStorage (name : Text) : Bool := isPrefixedWith name (bytes "sd") || isPrefixedWith name (bytes "mmcblk")

def handleBlockEvent (event : NetlinkEvent) (devs : List Text) : Option (List Text) :=
  let type := findParam event (bytes "DEVTYPE")
  let nparts := (findParam event (bytes "NPARTS")).elim (-1) atoi
  let listed := fun type => (type = bytes "disk" ∧ nparts = 0) ∨ type = bytes "partition"
  match findParam event (bytes "DEVNAME") with
  | none => none
  | some name =>
    if !isStorage name then some devs
    else match event.action with
      | .add => type.map (fun type => if listed type then addStorageDev devs name else devs)
      | .remove => type.map (fun type => if listed type then delStorageDev devs name else devs)
      | _ => some devs

def handleEvent (event : NetlinkEvent) (devs : List Text) : Option (List Text) :=
  match event.subsystem with
  | none => none
  | some subsystem => if subsystem = bytes "block" then handleBlockEvent event devs else some devs

/-- What the listener does with a datagram: that decoding failed is never seen. -/
def threadLoop (buffer : Text) (devs : List Text) : Option (List Text) :=
  match parseAsciiNetlinkMessage constructNetlinkEvent buffer with
  | none => none
  | some (_, event) => handleEvent event devs

/-- The message is decoded within its bounds, and no handler reads a field that is not there. -/
structure Safe (buffer : Text) : Prop where
  decodes : (parseAsciiNetlinkMessage constructNetlinkEvent buffer).isSome = true
  handles : ∀ event devs, parseAsciiNetlinkMessage constructNetlinkEvent buffer = some (true, event) →
    (handleEvent event devs).isSome = true

def fields (buffer : Text) : List Text := (buffer.dropLast.splitOn 0).tail

/-- Behind the first `@` there is a byte more, not counting the last byte received. -/
def Located (buffer : Text) : Prop :=
  ∃ before c after, buffer.dropLast = before ++ atSign :: c :: after ∧ atSign ∉ before

def subsystemOf (texts : List Text) : Option Text :=
  (texts.filterMap (hasPrefix · (bytes "SUBSYSTEM="))).getLast?

def actionNamed (text : Text) : Option NlAction :=
  if text = bytes "add" then some .add
  else if text = bytes "remove" then some .remove
  else if text = bytes "change" then some .change
  else none

def actionOf (texts : List Text) : NlAction :=
  (texts.filterMap (fun text => (hasPrefix text (bytes "ACTION=")).bind actionNamed)).getLast?.getD .unknown

def isParam (text : Text) : Bool :=
  (hasPrefix text (bytes "ACTION=")).isNone && (hasPrefix text (bytes "SEQNUM=")).isNone &&
    (hasPrefix text (bytes "SUBSYSTEM=")).isNone

def paramsOf (texts : List Text) : List Text := (texts.filter isParam).take nlParamsMax

def Supplied (subsystem : Option Text) (action : NlAction) (params : List Text) : Prop :=
  ∃ text, subsystem = some text ∧ (text = bytes "block" →
    ∃ name, paramValue params (bytes "DEVNAME") = some name ∧
      (isStorage name = true → action = .add ∨ action = .remove →
        (paramValue params (bytes "DEVTYPE")).isSome = true))

def NetlinkEvent.store (this : NetlinkEvent) (text : Text) : NetlinkEvent :=
  match hasPrefix text (bytes "ACTION=") with
  | some a => this.setAction a
  | none =>
    match hasPrefix text (bytes "SEQNUM=") with
    | some a => { this with seq := atoi a }
    | none =>
      match hasPrefix text (bytes "SUBSYSTEM=") with
      | some a => { this with subsystem := some a }
      | none => if this.params.length < nlParamsMax then { this with params := this.params ++ [text] } else this

variable {s text key : Text} {this : NetlinkEvent} {texts : List Text}

theorem cString_isSome (s : Text) : (cString s).isSome = true ↔ 0 ∈ s := by
  induction s with
  | nil => simp [cString]
  | cons c s ih =>
    rw [cString]
    split_ifs with hc
    · simp [hc]
    · simp [ih, Ne.symm hc]

theorem cString_text (h : 0 ∉ text) (s : Text) : cString (text ++ 0 :: s) = some text := by
  induction text with
  | nil => rfl
  | cons c text ih =>
    rw [List.mem_cons, not_or] at h
    rw [List.cons_append, cString, if_neg (Ne.symm h.1), ih h.2, Option.map_some]

theorem findAt_iff (s p : Text) : findAt s = some p ↔ ∃ before, s = before ++ atSign :: p ∧ atSign ∉ before := by
  induction s with
  | nil => simp [findAt]
  | cons c s ih =>
    rw [findAt]
    split_ifs with hc
    · constructor
      · intro h
        cases h
        exact ⟨[], by rw [hc]; rfl, List.not_mem_nil⟩
      · rintro ⟨before, hs, hnot⟩
        cases before with
        | nil =>
          cases hs
          rfl
        | cons b before =>
          cases hs
          exact absurd (hc ▸ List.mem_cons_self) hnot
    · rw [ih]
      constructor
      · rintro ⟨before, rfl, hnot⟩
        exact ⟨c :: before, rfl, by simp [hnot, Ne.symm hc]⟩
      · rintro ⟨before, hs, hnot⟩
        cases before with
        | nil =>
          cases hs
          exact absurd rfl hc
        | cons b before =>
          cases hs
          exact ⟨before, rfl, fun h => hnot (List.mem_cons_of_mem _ h)⟩

theorem hasPrefix_text (hkey : 0 ∉ key) (text s : Text) :
    hasPrefix (text ++ 0 :: s) key = (hasPrefix text key).map (· ++ 0 :: s) := by
  have hiff : ∀ t : Text, key.length ≤ t.length ∧ t.take key.length = key ↔ key <+: t := by
    intro t
    rw [List.prefix_iff_eq_take]
    constructor
    · rintro ⟨-, h⟩
      exact h.symm
    · intro h
      refine ⟨?_, h.symm⟩
      have := congrArg List.length h
      rw [List.length_take] at this
      omega
  have hsame : key <+: text ++ 0 :: s ↔ key <+: text := by
    constructor
    · intro h
      rcases List.prefix_or_prefix_of_prefix h (List.prefix_append text (0 :: s)) with h' | ⟨t, ht⟩
      · exact h'
      · cases t with
        | nil =>
          rw [List.append_nil] at ht
          rw [ht]
        | cons c t =>
          rw [← ht, List.prefix_append_right_inj] at h
          obtain rfl : c = 0 := (List.cons_prefix_cons.mp h).1
          exact absurd (by rw [← ht]; simp) hkey
    · exact fun h => h.trans (List.prefix_append _ _)
  unfold hasPrefix
  simp only [hiff, hsame]
  split_ifs with h
  · rw [Option.map_some, List.drop_append_of_le_length h.length_le]
  · rfl

theorem hasPrefix_some {a : Text} (h : hasPrefix text key = some a) : text = key ++ a := by
  unfold hasPrefix at h
  split_ifs at h with hk
  cases h
  conv_lhs => rw [← List.take_append_drop key.length text, hk.2]

theorem hasPrefix_exclusive {a : Text} (other : Text) (h : hasPrefix text key = some a)
    (hk : ¬key <+: other) (ho : ¬other <+: key) : hasPrefix text other = none := by
  cases hb : hasPrefix text other with
  | none => rfl
  | some b =>
    have hkey : key <+: text := ⟨a, (hasPrefix_some h).symm⟩
    have hother : other <+: text := ⟨b, (hasPrefix_some hb).symm⟩
    rcases List.prefix_or_prefix_of_prefix hkey hother with h' | h'
    · exact absurd h' hk
    · exact absurd h' ho

theorem parseField_text (h : 0 ∉ text) (s : Text) : parseField this (text ++ 0 :: s) = some (this.store text) := by
  have hrest : ∀ {key a : Text}, hasPrefix text key = some a → cString (a ++ 0 :: s) = some a := by
    intro key a ha
    refine cString_text (fun h0 => h ?_) s
    rw [hasPrefix_some ha]
    exact List.mem_append_right _ h0
  unfold parseField NetlinkEvent.store
  rw [hasPrefix_text (by decide), hasPrefix_text (by decide), hasPrefix_text (by decide)]
  cases ha : hasPrefix text (bytes "ACTION=") with
  | some a => simp only [Option.map_some, hrest ha]
  | none =>
    cases hn : hasPrefix text (bytes "SEQNUM=") with
    | some a => simp only [Option.map_some, Option.map_none, hrest hn]
    | none =>
      cases hs : hasPrefix text (bytes "SUBSYSTEM=") with
      | some a => simp only [Option.map_some, Option.map_none, hrest hs]
      | none =>
        simp only [Option.map_none]
        split_ifs
        · rw [cString_text h, Option.map_some]
        · rfl

theorem scan_parsed {first : Bool} {event : NetlinkEvent} (h : 0 ∉ text)
    (hp : Scan.parse ⟨first, text ++ 0 :: s, this⟩ = some event) :
    scanLoop.exec ⟨first, text ++ 0 :: s, this⟩ = scanLoop.exec ⟨false, s, event⟩ := by
  refine scanLoop.exec_next ?_
  show scanStep _ = _
  rw [scanStep, if_neg (by simp), hp, cString_text h]
  have hdrop : (text ++ 0 :: s).drop (text.length + 1) = s := by
    rw [List.drop_append]
    simp
  simp only [hdrop]

theorem scan_fields (h : ∀ text ∈ texts, 0 ∉ text) (this : NetlinkEvent) :
    scanLoop.exec ⟨false, texts.flatMap (· ++ [0]), this⟩ = some (texts.foldl NetlinkEvent.store this) := by
  induction texts generalizing this with
  | nil => exact scanLoop.exec_done rfl
  | cons text texts ih =>
    rw [List.forall_mem_cons] at h
    rw [List.flatMap_cons, List.append_assoc, List.singleton_append]
    have hparse : Scan.parse ⟨false, text ++ 0 :: texts.flatMap (· ++ [0]), this⟩ = some (this.store text) :=
      parseField_text h.1 _
    rw [scan_parsed h.1 hparse, ih h.2, List.foldl_cons]

theorem splitOn_join (s : Text) : (s.splitOn 0).flatMap (· ++ [0]) = s ++ [0] ∧ ∀ text ∈ s.splitOn 0, 0 ∉ text := by
  unfold List.splitOn
  induction s with
  | nil => simp
  | cons c s ih =>
    rw [List.splitOnP_cons_eq_if_modifyHead]
    by_cases hc : c = 0
    · subst hc
      simp [ih.1]
      exact ih.2
    · rw [if_neg (by simpa using hc)]
      cases hl : s.splitOnP (· == 0) with
      | nil => exact absurd hl (List.splitOnP_ne_nil _ _)
      | cons text texts =>
        rw [hl, List.forall_mem_cons, List.flatMap_cons] at ih
        obtain ⟨hjoin, hfirst, hrest⟩ := ih
        refine ⟨?_, ?_⟩
        · rw [List.modifyHead_cons, List.flatMap_cons, List.cons_append, List.cons_append, hjoin, List.cons_append]
        · rw [List.modifyHead_cons, List.forall_mem_cons]
          exact ⟨by simp [hfirst, Ne.symm hc], hrest⟩

theorem parsePath_isSome (this : NetlinkEvent) (l : Text) : (parsePath this (l ++ [0])).isSome = true ↔
    ∃ before c after, l = before ++ atSign :: c :: after ∧ atSign ∉ before := by
  have hsome : (parsePath this (l ++ [0])).isSome = true ↔ ∃ p, findAt (l ++ [0]) = some p ∧ 0 ∈ p.drop 1 := by
    unfold parsePath
    cases findAt (l ++ [0]) with
    | none => simp
    | some p => simp [← cString_isSome]
  rw [hsome]
  constructor
  · rintro ⟨p, hp, h0⟩
    obtain ⟨before, hl, hnot⟩ := (findAt_iff _ _).mp hp
    rcases List.eq_nil_or_concat p with rfl | ⟨after, z, rfl⟩
    · cases h0
    · have hz : l = before ++ atSign :: after := by
        have := congrArg List.dropLast hl
        rwa [List.dropLast_concat, List.concat_eq_append, ← List.cons_append, ← List.append_assoc,
          List.dropLast_concat] at this
      cases after with
      | nil => cases h0
      | cons c after => exact ⟨before, c, after, hz, hnot⟩
  · rintro ⟨before, c, after, rfl, hnot⟩
    refine ⟨c :: after ++ [0], (findAt_iff _ _).mpr ⟨before, by simp, hnot⟩, by simp⟩

theorem parse_eq (this : NetlinkEvent) {buffer : Text} (h : buffer ≠ []) : parseAsciiNetlinkMessage this buffer =
    (parsePath this (terminated buffer)).map (fun event => (true, (fields buffer).foldl NetlinkEvent.store event)) := by
  rw [parseAsciiNetlinkMessage, if_neg h]
  obtain ⟨hjoin, hclean⟩ := splitOn_join buffer.dropLast
  have hfields : fields buffer = (buffer.dropLast.splitOn 0).tail := rfl
  cases hl : buffer.dropLast.splitOn 0 with
  | nil => exact absurd hl (List.splitOnP_ne_nil _ _)
  | cons first texts =>
    rw [hl] at hjoin hclean hfields
    rw [List.flatMap_cons, List.append_assoc, List.singleton_append] at hjoin
    rw [List.forall_mem_cons] at hclean
    rw [hfields, terminated, ← hjoin, List.tail_cons]
    cases hp : parsePath this (first ++ 0 :: texts.flatMap (· ++ [0])) with
    | none =>
      have hdone : scanLoop.step ⟨true, first ++ 0 :: texts.flatMap (· ++ [0]), this⟩ = .done none := by
        show scanStep _ = _
        have hnone : Scan.parse ⟨true, first ++ 0 :: texts.flatMap (· ++ [0]), this⟩ = none := hp
        rw [scanStep, if_neg (by simp), hnone]
      rw [scanLoop.exec_done hdone]
      rfl
    | some event =>
      have hparse : Scan.parse ⟨true, first ++ 0 :: texts.flatMap (· ++ [0]), this⟩ = some event := hp
      rw [scan_parsed hclean.1 hparse, scan_fields hclean.2]
      rfl

theorem foldl_last {σ α β : Type} {step : σ → α → σ} (view : σ → Option β) {f : α → Option β}
    (hstep : ∀ a t, view (step a t) = (f t).or (view a)) (a : σ) (ts : List α) :
    view (ts.foldl step a) = (ts.filterMap f).getLast?.or (view a) := by
  induction ts generalizing a with
  | nil => rfl
  | cons t ts ih =>
    rw [List.foldl_cons, ih, hstep, List.filterMap_cons]
    cases f t with
    | none => rfl
    | some b =>
      rw [List.getLast?_cons]
      cases (ts.filterMap f).getLast? <;> rfl

theorem store_subsystem (this : NetlinkEvent) (text : Text) :
    (this.store text).subsystem = (hasPrefix text (bytes "SUBSYSTEM=")).or this.subsystem := by
  unfold NetlinkEvent.store
  cases ha : hasPrefix text (bytes "ACTION=") with
  | some a =>
    rw [hasPrefix_exclusive (bytes "SUBSYSTEM=") ha (by decide) (by decide)]
    dsimp only
    unfold NetlinkEvent.setAction
    split_ifs <;> rfl
  | none =>
    cases hn : hasPrefix text (bytes "SEQNUM=") with
    | some a =>
      rw [hasPrefix_exclusive (bytes "SUBSYSTEM=") hn (by decide) (by decide)]
      rfl
    | none =>
      cases hs : hasPrefix text (bytes "SUBSYSTEM=") with
      | some a => rfl
      | none =>
        dsimp only
        split_ifs <;> rfl

theorem store_action (this : NetlinkEvent) (text : Text) : some (this.store text).action =
    ((hasPrefix text (bytes "ACTION=")).bind actionNamed).or (some this.action) := by
  unfold NetlinkEvent.store
  cases ha : hasPrefix text (bytes "ACTION=") with
  | some a =>
    rw [Option.bind_some]
    dsimp only
    unfold NetlinkEvent.setAction actionNamed
    split_ifs <;> rfl
  | none =>
    dsimp only
    split
    · rfl
    · split
      · rfl
      · split_ifs <;> rfl

theorem store_params (this : NetlinkEvent) (text : Text) : (this.store text).params =
    if isParam text = true ∧ this.params.length < nlParamsMax then this.params ++ [text] else this.params := by
  cases ha : hasPrefix text (bytes "ACTION=") with
  | some a =>
    have hp : isParam text = false := by simp [isParam, ha]
    rw [if_neg (by simp [hp]), NetlinkEvent.store, ha]
    dsimp only
    unfold NetlinkEvent.setAction
    split_ifs <;> rfl
  | none =>
    cases hn : hasPrefix text (bytes "SEQNUM=") with
    | some a =>
      have hp : isParam text = false := by simp [isParam, hn]
      rw [if_neg (by simp [hp]), NetlinkEvent.store, ha, hn]
    | none =>
      cases hs : hasPrefix text (bytes "SUBSYSTEM=") with
      | some a =>
        have hp : isParam text = false := by simp [isParam, hs]
        rw [if_neg (by simp [hp]), NetlinkEvent.store, ha, hn, hs]
      | none =>
        have hp : isParam text = true := by simp [isParam, ha, hn, hs]
        rw [NetlinkEvent.store, ha, hn, hs]
        simp only [hp, true_and]
        split_ifs <;> rfl

theorem foldl_params (this : NetlinkEvent) (texts : List Text) (h : this.params.length ≤ nlParamsMax) :
    (texts.foldl NetlinkEvent.store this).params = (this.params ++ texts.filter isParam).take nlParamsMax := by
  induction texts generalizing this with
  | nil =>
    rw [List.foldl_nil, List.filter_nil, List.append_nil, List.take_of_length_le h]
  | cons text texts ih =>
    have hstore := store_params this text
    rw [List.foldl_cons]
    by_cases hroom : this.params.length < nlParamsMax
    · cases hp : isParam text with
      | true =>
        rw [if_pos ⟨hp, hroom⟩] at hstore
        rw [ih _ (by rw [hstore, List.length_append]; exact hroom), hstore, List.filter_cons_of_pos hp, List.append_assoc]
        rfl
      | false =>
        rw [if_neg (by simp [hp])] at hstore
        rw [ih _ (by rw [hstore]; exact h), hstore, List.filter_cons_of_neg (by simp [hp])]
    · rw [if_neg (fun hc => hroom hc.2)] at hstore
      rw [ih _ (by rw [hstore]; exact h), hstore, List.take_append_of_le_length (by omega),
        List.take_append_of_le_length (by omega)]

theorem handleEvent_isSome (event : NetlinkEvent) (devs : List Text) :
    (handleEvent event devs).isSome = true ↔ Supplied event.subsystem event.action event.params := by
  unfold handleEvent Supplied
  cases hs : event.subsystem with
  | none => simp
  | some subsystem =>
    by_cases hb : subsystem = bytes "block"
    · subst hb
      simp only [if_true, Option.some.injEq, exists_eq_left', true_implies]
      unfold handleBlockEvent findParam
      cases hn : paramValue event.params (bytes "DEVNAME") with
      | none => simp
      | some name =>
        cases hd : isStorage name with
        | false => simp [hd]
        | true => cases ha : event.action <;> simp [hd]
    · simp [hb]

theorem fields_supplied (event : NetlinkEvent) (texts : List Text) (hs : event.subsystem = none)
    (ha : event.action = .unknown) (hp : event.params = []) :
    Supplied (texts.foldl NetlinkEvent.store event).subsystem (texts.foldl NetlinkEvent.store event).action
      (texts.foldl NetlinkEvent.store event).params ↔
    Supplied (subsystemOf texts) (actionOf texts) (paramsOf texts) := by
  have hsub := foldl_last NetlinkEvent.subsystem store_subsystem event texts
  have hact := foldl_last (fun this : NetlinkEvent => some this.action) store_action event texts
  have hpar := foldl_params event texts (by rw [hp]; exact Nat.zero_le _)
  rw [hs, Option.or_none] at hsub
  rw [hp, List.nil_append] at hpar
  have haction : (texts.foldl NetlinkEvent.store event).action = actionOf texts := by
    unfold actionOf
    rw [ha] at hact
    cases hl : (texts.filterMap (fun text => (hasPrefix text (bytes "ACTION=")).bind actionNamed)).getLast? with
    | none =>
      rw [hl] at hact
      exact Option.some.inj hact
    | some act =>
      rw [hl] at hact
      exact Option.some.inj hact
  rw [hsub, hpar, haction]
  rfl

/-- A datagram is handled safely exactly when it is empty, or its path is where the decoder looks for it and
the fields that the handlers read are there. -/
theorem safe_iff (buffer : Text) : Safe buffer ↔ buffer = [] ∨ (Located buffer ∧
    Supplied (subsystemOf (fields buffer)) (actionOf (fields buffer)) (paramsOf (fields buffer))) := by
  by_cases hb : buffer = []
  · subst hb
    refine ⟨fun _ => .inl rfl, fun _ => ⟨rfl, fun event devs h => ?_⟩⟩
    simp [parseAsciiNetlinkMessage] at h
  have hparse := parse_eq constructNetlinkEvent hb
  have hpath := parsePath_isSome constructNetlinkEvent buffer.dropLast
  cases hp : parsePath constructNetlinkEvent (terminated buffer) with
  | none =>
    rw [hp] at hparse
    constructor
    · intro h
      have := h.decodes
      rw [hparse] at this
      cases this
    · rintro (h | ⟨h, -⟩)
      · exact absurd h hb
      · have := hpath.mpr h
        rw [← terminated, hp] at this
        cases this
  | some event =>
    have hlocated : Located buffer := hpath.mp (by rw [← terminated, hp]; rfl)
    rw [hp, Option.map_some] at hparse
    have hevent : event.subsystem = none ∧ event.action = .unknown ∧ event.params = [] := by
      unfold parsePath at hp
      cases hf : findAt (terminated buffer) with
      | none => rw [hf] at hp; cases hp
      | some p =>
        rw [hf] at hp
        obtain ⟨path, -, rfl⟩ := Option.map_eq_some_iff.mp hp
        exact ⟨rfl, rfl, rfl⟩
    have hsupplied := fields_supplied event (fields buffer) hevent.1 hevent.2.1 hevent.2.2
    constructor
    · intro h
      exact .inr ⟨hlocated, hsupplied.mp ((handleEvent_isSome _ []).mp (h.handles _ [] hparse))⟩
    · rintro (h | ⟨-, h⟩)
      · exact absurd h hb
      · refine ⟨by rw [hparse]; rfl, ?_⟩
        intro decoded devs hd
        rw [hparse] at hd
        cases hd
        exact (handleEvent_isSome _ devs).mpr (hsupplied.mpr h)

theorem threadLoop_isSome (buffer : Text) (devs : List Text) :
    (threadLoop buffer devs).isSome = true ↔ buffer ≠ [] ∧ Safe buffer := by
  by_cases hb : buffer = []
  · subst hb
    simp [threadLoop, parseAsciiNetlinkMessage, handleEvent, constructNetlinkEvent]
  have hparse := parse_eq constructNetlinkEvent hb
  unfold threadLoop
  cases hp : parsePath constructNetlinkEvent (terminated buffer) with
  | none =>
    rw [hp, Option.map_none] at hparse
    rw [hparse]
    refine ⟨fun h => absurd h (by simp), fun h => ?_⟩
    have := h.2.decodes
    rw [hparse] at this
    cases this
  | some event =>
    rw [hp, Option.map_some] at hparse
    rw [hparse]
    refine ⟨fun h => ⟨hb, by rw [hparse]; rfl, ?_⟩, fun h => h.2.handles _ devs hparse⟩
    intro decoded devs' hd
    rw [hparse] at hd
    cases hd
    exact (handleEvent_isSome _ devs').mpr ((handleEvent_isSome _ devs).mp h)

theorem unmarked_overread : parseAsciiNetlinkMessage constructNetlinkEvent [97, 0] = none ∧ ¬Safe [97, 0] := by
  have h : parseAsciiNetlinkMessage constructNetlinkEvent [97, 0] = none := by decide
  refine ⟨h, fun hs => ?_⟩
  have := hs.decodes
  rw [h] at this
  cases this

end LinuxRecovery.Uevent
