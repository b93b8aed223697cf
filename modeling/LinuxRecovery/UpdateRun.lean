import LinuxRecovery.Traces
import LinuxRecovery.UpdateFile

namespace LinuxRecovery.UpdateRun

open Traces UpdateFile

def prefixGlobalXml : String := "global.xml"

def prefixDeviceXml : String := "device.xml"

def prefixUpdateXml : String := "update.xml"

def prefixStorageUpdatePath : String := "recovery-update"

def prefixUpdatePkg : String := "update"

def prefixLocalUpdatePath : String := "/tmp/update"

inductive SysinfoFlagValue where
  | updateStart
  | updateDone
  deriving DecidableEq

inductive Call where
  | icmpEcho (serverIp : String) (timeout : ℕ)
  | dirDelete (path : String)
  | dirCreate (path : String)
  | downloadFile (file path : String)
  | parseGlobalXml (path : String)
  | flagWrite (value : SysinfoFlagValue)
  | findDevice (devtype : String)
  | fileExist (path : String)
  | loadKeys (path : String)
  | verifyFile (path : String)
  | unzip (path dir : String)
  | parseDeviceXml (path : String)
  | checkDeviceInfo (devtype : String)
  | parseUpdateXml (path : String)
  | mergeImginfo (devtype : String)
  | sizeCheck (path : String)
  | writeUpdatePkg (devtype : String) (part : PartInfo) (image : ImageInfo) (path : String) (j : ℕ)
  deriving DecidableEq

abbrev Event : Type := Call × Bool

abbrev Update (α : Type) : Type := Prog Call α

/-- What the rest of the client answers; every answer may depend on all the calls before it. -/
structure Client where
  reply : List Event → Call → Bool
  bits : ℕ
  stat : List Event → String → Option ℕ
  serverIp : String
  serverUrl : String
  publicKeyPath : String
  validUpdateVolume : Option String
  devices : List DeviceInfo

variable (client : Client)

def call (c : Call) : Update Unit := Prog.attempt (fun tr => client.reply tr c) c

def pad3 (n : ℕ) : String := String.ofList (List.replicate (3 - (toString n).length) '0') ++ toString n

def storagePkg (mountPoint devtype : String) (index : ℕ) : String :=
  mountPoint ++ "/" ++ prefixStorageUpdatePath ++ "/" ++ devtype ++ "/" ++ prefixUpdatePkg ++ pad3 index ++ ".zip"

def serverPkg (devtype : String) (index : ℕ) : String :=
  client.serverUrl ++ "/" ++ devtype ++ "/" ++ prefixUpdatePkg ++ pad3 index ++ ".zip"

def localPkg (index : ℕ) : String := prefixLocalUpdatePath ++ "/" ++ prefixUpdatePkg ++ pad3 index ++ ".zip"

def chunkPath (image : ImageInfo) (j : ℕ) : String :=
  if image.chunkcount = 1 then prefixLocalUpdatePath ++ "/" ++ image.name
  else prefixLocalUpdatePath ++ "/" ++ image.name ++ "_" ++ pad3 j

def creatUnzipDir : Update Unit := do
  Prog.ignore (.dirDelete prefixLocalUpdatePath)
  call client (.dirCreate prefixLocalUpdatePath)

def verifyUpdatePkg (path : String) : Update Unit := do
  call client (.loadKeys client.publicKeyPath)
  call client (.verifyFile path)

/-- `stat` also fails on a size that `off_t` does not hold; the `int` is declared to the callers as unsigned. -/
def getFileSize (bits : ℕ) : Option ℕ → UInt32
  | none => UInt32.ofInt (-1)
  | some size => if size < 2 ^ (bits - 1) then UInt32.ofNat size else UInt32.ofInt (-1)

def sizeCheck (image : ImageInfo) (path : String) (j : ℕ) : Update Unit :=
  if j ≠ image.chunkcount.toNat then
    Prog.attempt (fun tr => getFileSize client.bits (client.stat tr path) == image.chunksize) (.sizeCheck path)
  else pure ()

def installChunk (devtype : String) (part : PartInfo) (image : ImageInfo) (pkg : String) (j : ℕ) : Update Unit := do
  call client (.fileExist pkg)
  verifyUpdatePkg client pkg
  call client (.unzip pkg prefixLocalUpdatePath)
  let path := chunkPath image j
  call client (.fileExist path)
  sizeCheck client image path j
  call client (.writeUpdatePkg devtype part image path j)

def updateDevice (chunk : PartInfo → ImageInfo → ℕ → ℕ → Update Unit) (device : DeviceInfo) : Update ℕ :=
  device.list.foldlM (fun index part =>
    part.list.foldlM (fun index image =>
      (List.range' 1 image.chunkcount.toNat).foldlM (fun index j => do
        chunk part image index j
        pure (index + 1)) index) index) 1

def storageChunk (mountPoint devtype : String) (part : PartInfo) (image : ImageInfo) (index j : ℕ) :
    Update Unit := do
  creatUnzipDir client
  installChunk client devtype part image (storagePkg mountPoint devtype index) j

def networkChunk (devtype : String) (part : PartInfo) (image : ImageInfo) (index j : ℕ) : Update Unit := do
  creatUnzipDir client
  call client (.downloadFile (serverPkg client devtype index) prefixLocalUpdatePath)
  installChunk client devtype part image (localPkg index) j

def checkDeviceUpdateInfo (path devtype : String) : Update Unit := do
  call client (.fileExist path)
  verifyUpdatePkg client path
  call client (.unzip path prefixLocalUpdatePath)
  call client (.parseDeviceXml (prefixLocalUpdatePath ++ "/" ++ prefixDeviceXml))
  call client (.checkDeviceInfo devtype)
  call client (.parseUpdateXml (prefixLocalUpdatePath ++ "/" ++ prefixUpdateXml))
  call client (.mergeImginfo devtype)

def flagged (body : Update Unit) : Update Unit := do
  call client (.flagWrite .updateStart)
  body
  call client (.flagWrite .updateDone)

def exit (p : Update Unit) (tr : List Event) : ℤ × List Event :=
  match p tr with
  | (some _, tr) => (0, tr ++ [(.dirDelete prefixLocalUpdatePath, true)])
  | (none, tr) => (-1, tr ++ [(.dirDelete prefixLocalUpdatePath, true)])

def storageBody (mountPoint : String) : Update Unit :=
  client.devices.forM (fun device => do
    let _ ← updateDevice (storageChunk client mountPoint device.type) device
    pure ())

def updateFromStorage (tr : List Event) : ℤ × List Event :=
  match client.validUpdateVolume with
  | none => (-1, tr)
  | some mountPoint => exit (flagged client (storageBody client mountPoint)) tr

def networkPrologue : Update Unit := do
  call client (.icmpEcho client.serverIp 30000)
  creatUnzipDir client
  call client (.downloadFile (client.serverUrl ++ "/" ++ prefixGlobalXml) prefixLocalUpdatePath)
  call client (.parseGlobalXml (prefixLocalUpdatePath ++ "/" ++ prefixGlobalXml))

def networkBody : Update Unit :=
  client.devices.forM (fun device => do
    call client (.findDevice device.type)
    call client (.downloadFile (client.serverUrl ++ "/" ++ device.type ++ "/" ++ prefixUpdatePkg ++ "000.zip")
      prefixLocalUpdatePath)
    checkDeviceUpdateInfo client (prefixLocalUpdatePath ++ "/" ++ prefixUpdatePkg ++ "000.zip") device.type
    let _ ← updateDevice (networkChunk client device.type) device
    pure ())

def updateFromNetwork (tr : List Event) : ℤ × List Event :=
  match networkPrologue client tr with
  | (none, tr) => (-1, tr)
  | (some _, tr) => exit (flagged client (networkBody client)) tr

def isFlagWrite : Call → Bool
  | .flagWrite _ => true
  | _ => false

def isPackageStep : Call → Bool
  | .verifyFile _ => true
  | .unzip _ _ => true
  | .writeUpdatePkg .. => true
  | _ => false

abbrev Takes (p : Update α) (a : α) (steps : List Call) : Prop := Does isPackageStep isFlagWrite p a steps

def chunks (device : DeviceInfo) : List (PartInfo × ImageInfo × ℕ) :=
  device.list.flatMap (fun part => part.list.flatMap (fun image =>
    (List.range' 1 image.chunkcount.toNat).map (fun j => (part, image, j))))

def chunkSteps (devtype : String) (pkg : ℕ → String) : (PartInfo × ImageInfo × ℕ) × ℕ → List Call
  | ((part, image, j), index) =>
    [.verifyFile (pkg index), .unzip (pkg index) prefixLocalUpdatePath,
      .writeUpdatePkg devtype part image (chunkPath image j) j]

def deviceSteps (pkg : ℕ → String) (device : DeviceInfo) : List Call :=
  ((chunks device).zipIdx 1).flatMap (chunkSteps device.type pkg)

def storageSteps : List Call :=
  match client.validUpdateVolume with
  | none => []
  | some mountPoint => client.devices.flatMap (fun device => deviceSteps (storagePkg mountPoint device.type) device)

def networkSteps : List Call :=
  client.devices.flatMap (fun device =>
    [.verifyFile (prefixLocalUpdatePath ++ "/" ++ prefixUpdatePkg ++ "000.zip"),
      .unzip (prefixLocalUpdatePath ++ "/" ++ prefixUpdatePkg ++ "000.zip") prefixLocalUpdatePath] ++
      deviceSteps localPkg device)

/-- A run whose new calls are `tr`: done is written only behind a started update that took exactly
`steps`, none of them failing, and a failed call keeps it from being written. -/
structure CompleteUpdate (steps : List Call) (tr : List Event) (result : ℤ) : Prop where
  only : ∀ ok, (Call.flagWrite .updateDone, ok) ∈ tr → ∃ before during after,
    tr = before ++ (Call.flagWrite .updateStart, true) :: during ++ (Call.flagWrite .updateDone, ok) :: after ∧
      (∀ e ∈ during, e.2 = true) ∧ keptCalls isPackageStep during = steps ∧
      ∀ e ∈ before ++ during ++ after, isFlagWrite e.1 = false
  failed : (∃ e ∈ tr, e.2 = false) → result = -1 ∧ (Call.flagWrite .updateDone, true) ∉ tr

variable {client}

theorem call_takes {c : Call} (hc : isFlagWrite c = false) :
    Takes (call client c) () (if isPackageStep c = true then [c] else []) :=
  does_attempt hc

theorem creatUnzipDir_takes : Takes (creatUnzipDir client) () [] :=
  does_bind (does_ignore rfl) (call_takes rfl)

theorem verifyUpdatePkg_takes (path : String) : Takes (verifyUpdatePkg client path) () [.verifyFile path] :=
  does_bind (call_takes rfl) (call_takes rfl)

theorem sizeCheck_takes (image : ImageInfo) (path : String) (j : ℕ) :
    Takes (sizeCheck client image path j) () [] := by
  unfold sizeCheck
  split_ifs
  · exact does_attempt rfl
  · exact does_done ()

theorem installChunk_takes (devtype : String) (part : PartInfo) (image : ImageInfo) (pkg : String) (j : ℕ) :
    Takes (installChunk client devtype part image pkg j) ()
      [.verifyFile pkg, .unzip pkg prefixLocalUpdatePath,
        .writeUpdatePkg devtype part image (chunkPath image j) j] :=
  does_bind (call_takes rfl) (does_bind (verifyUpdatePkg_takes pkg) (does_bind (call_takes rfl)
    (does_bind (call_takes rfl) (does_bind (sizeCheck_takes image (chunkPath image j) j) (call_takes rfl)))))

theorem updateDevice_takes {chunk : PartInfo → ImageInfo → ℕ → ℕ → Update Unit} {pkg : ℕ → String}
    (device : DeviceInfo)
    (hchunk : ∀ part image index j,
      Takes (chunk part image index j) () (chunkSteps device.type pkg ((part, image, j), index))) :
    Takes (updateDevice chunk device) (1 + (chunks device).length) (deviceSteps pkg device) := by
  apply does_numbered _ (chunkSteps device.type pkg) _ device.list 1
  intro index part
  apply does_numbered _ (chunkSteps device.type pkg) _ part.list index
  intro index image
  rw [List.map_eq_flatMap]
  apply does_numbered (fun j => [(part, image, j)]) (chunkSteps device.type pkg) _ _ index
  intro index j
  rw [← List.append_nil (List.flatMap _ _)]
  refine does_bind (a := ()) ?_ (does_done (index + 1))
  simpa only [List.zipIdx_cons, List.zipIdx_nil, List.flatMap_cons, List.flatMap_nil, List.append_nil] using
    hchunk part image index j

theorem storageBody_takes (mountPoint : String) : Takes (storageBody client mountPoint) ()
    (client.devices.flatMap (fun device => deviceSteps (storagePkg mountPoint device.type) device)) := by
  apply does_forM
  intro device
  rw [← List.append_nil (deviceSteps _ _)]
  refine does_bind (updateDevice_takes device (fun part image index j => ?_)) (does_done ())
  exact does_bind creatUnzipDir_takes (installChunk_takes _ part image _ j)

theorem checkDeviceUpdateInfo_takes (path devtype : String) :
    Takes (checkDeviceUpdateInfo client path devtype) () [.verifyFile path, .unzip path prefixLocalUpdatePath] :=
  does_bind (call_takes rfl) (does_bind (verifyUpdatePkg_takes path) (does_bind (call_takes rfl)
    (does_bind (call_takes rfl) (does_bind (call_takes rfl) (does_bind (call_takes rfl) (call_takes rfl))))))

theorem networkBody_takes : Takes (networkBody client) () (networkSteps client) := by
  apply does_forM
  intro device
  have hdevice : Takes (do
      let _ ← updateDevice (networkChunk client device.type) device
      pure ()) () (deviceSteps localPkg device) := by
    rw [← List.append_nil (deviceSteps _ _)]
    refine does_bind (updateDevice_takes device (fun part image index j => ?_)) (does_done ())
    exact does_bind creatUnzipDir_takes (does_bind (call_takes rfl) (installChunk_takes _ part image _ j))
  have hcheck : Takes (do
      checkDeviceUpdateInfo client (prefixLocalUpdatePath ++ "/" ++ prefixUpdatePkg ++ "000.zip") device.type
      let _ ← updateDevice (networkChunk client device.type) device
      pure ()) () ([.verifyFile (prefixLocalUpdatePath ++ "/" ++ prefixUpdatePkg ++ "000.zip"),
        .unzip (prefixLocalUpdatePath ++ "/" ++ prefixUpdatePkg ++ "000.zip") prefixLocalUpdatePath] ++
          deviceSteps localPkg device) :=
    does_bind (checkDeviceUpdateInfo_takes _ device.type) hdevice
  rw [← List.nil_append (_ ++ deviceSteps _ _), ← List.nil_append ([] ++ _)]
  exact does_bind (call_takes rfl) (does_bind (call_takes rfl) hcheck)

theorem networkPrologue_takes : Takes (networkPrologue client) () [] :=
  does_bind (call_takes rfl) (does_bind creatUnzipDir_takes (does_bind (call_takes rfl) (call_takes rfl)))

theorem flagWrite_notMem {tr : List Event} (h : ∀ e ∈ tr, isFlagWrite e.1 = false) (value : SysinfoFlagValue)
    (ok : Bool) : (Call.flagWrite value, ok) ∉ tr := fun hmem => absurd (h _ hmem) (by simp [isFlagWrite])

theorem does_ok {p : Update α} {tr new : List Event} {a : α}
    (hfail : (∃ e ∈ new, e.2 = false) → (p tr).1 = none) (ha : (p tr).1 = some a) : ∀ e ∈ new, e.2 = true := by
  intro e he
  by_contra hne
  rw [hfail ⟨e, he, by simpa using hne⟩] at ha
  cases ha

theorem flagged_cases {body : Update Unit} {steps : List Call} (h : Takes body () steps) (tr : List Event) :
    flagged client body tr = (none, tr ++ [(.flagWrite .updateStart, false)]) ∨
      (∃ new, (∀ e ∈ new, isFlagWrite e.1 = false) ∧
        flagged client body tr = (none, tr ++ (.flagWrite .updateStart, true) :: new)) ∨
      ∃ new written, (∀ e ∈ new, isFlagWrite e.1 = false) ∧ (∀ e ∈ new, e.2 = true) ∧
        keptCalls isPackageStep new = steps ∧
        flagged client body tr = (if written = true then some () else none,
          tr ++ (.flagWrite .updateStart, true) :: new ++ [(.flagWrite .updateDone, written)]) := by
  cases hstart : client.reply tr (.flagWrite .updateStart) with
  | false =>
    left
    simp [flagged, Bind.bind, Prog.bind, call, Prog.attempt, hstart]
  | true =>
    right
    obtain ⟨new, htr, hbar, hfail, hval⟩ := h (tr ++ [(.flagWrite .updateStart, true)])
    cases hb : (body (tr ++ [(.flagWrite .updateStart, true)])).1 with
    | none =>
      left
      refine ⟨new, hbar, ?_⟩
      have hbody := Prod.ext (x := body _) (y := (_, _)) hb htr
      simp [flagged, Bind.bind, Prog.bind, call, Prog.attempt, hstart, hbody]
    | some u =>
      right
      refine ⟨new, client.reply (tr ++ [(.flagWrite .updateStart, true)] ++ new) (.flagWrite .updateDone), hbar,
        does_ok hfail hb, (hval u hb).2, ?_⟩
      have hbody := Prod.ext (x := body _) (y := (_, _)) hb htr
      simp [flagged, Bind.bind, Prog.bind, call, Prog.attempt, hstart, hbody]

theorem exit_of {p : Update Unit} {tr tr' : List Event} {r : Option Unit} (h : p tr = (r, tr')) :
    exit p tr = (if r.isSome = true then 0 else -1, tr' ++ [(.dirDelete prefixLocalUpdatePath, true)]) := by
  unfold exit
  rw [h]
  cases r <;> rfl

theorem flagged_complete {body : Update Unit} {steps : List Call} (h : Takes body () steps) (tr : List Event) :
    ∃ new, (exit (flagged client body) tr).2 = tr ++ new ∧
      CompleteUpdate steps new (exit (flagged client body) tr).1 := by
  obtain hrun | ⟨new, hbar, hrun⟩ | ⟨new, written, hbar, hok, hsteps, hrun⟩ := flagged_cases h tr
  · rw [exit_of hrun]
    exact ⟨_, List.append_assoc _ _ _, by simp, by simp⟩
  · rw [exit_of hrun]
    refine ⟨_, List.append_assoc _ _ _, ?_, fun _ => ⟨rfl, ?_⟩⟩
    · intro ok hmem
      exact absurd hmem (by simp [flagWrite_notMem hbar])
    · simp [flagWrite_notMem hbar]
  · rw [exit_of hrun, List.append_assoc, List.append_assoc]
    refine ⟨_, rfl, ?_, ?_⟩
    · intro ok hmem
      obtain rfl : ok = written := by simpa [flagWrite_notMem hbar] using hmem
      refine ⟨[], new, [(.dirDelete prefixLocalUpdatePath, true)], by simp, hok, hsteps, ?_⟩
      intro e he
      simp only [List.nil_append, List.mem_append, List.mem_singleton] at he
      rcases he with he | rfl
      · exact hbar e he
      · rfl
    · rintro ⟨e, he, hfalse⟩
      have hwritten : written = false := by
        simp only [List.cons_append, List.nil_append, List.mem_cons, List.mem_append, List.not_mem_nil,
          or_false] at he
        rcases he with rfl | he | rfl | rfl
        · cases hfalse
        · exact absurd (hok e he) (by simp [hfalse])
        · exact hfalse
        · cases hfalse
      subst hwritten
      exact ⟨rfl, by simp [flagWrite_notMem hbar]⟩

theorem CompleteUpdate.prepend {steps : List Call} {before tr : List Event} {result : ℤ}
    (h : CompleteUpdate steps tr result) (hok : ∀ e ∈ before, e.2 = true)
    (hflag : ∀ e ∈ before, isFlagWrite e.1 = false) : CompleteUpdate steps (before ++ tr) result := by
  constructor
  · intro ok hmem
    rcases List.mem_append.mp hmem with hb | ht
    · exact absurd (hflag _ hb) (by simp [isFlagWrite])
    · obtain ⟨b, d, a, rfl, hd, hs, hno⟩ := h.only ok ht
      refine ⟨before ++ b, d, a, by simp, hd, hs, ?_⟩
      intro e he
      rw [List.append_assoc, List.append_assoc, List.mem_append, ← List.append_assoc] at he
      exact he.elim (hflag e) (hno e)
  · rintro ⟨e, he, hfalse⟩
    have htr : ∃ e ∈ tr, e.2 = false := by
      rcases List.mem_append.mp he with hb | ht
      · exact absurd (hok e hb) (by simp [hfalse])
      · exact ⟨e, ht, hfalse⟩
    obtain ⟨hr, hno⟩ := h.failed htr
    refine ⟨hr, fun hmem => ?_⟩
    rcases List.mem_append.mp hmem with hb | ht
    · exact absurd (hflag _ hb) (by simp [isFlagWrite])
    · exact hno ht

theorem update_complete (client : Client) (tr : List Event) :
    (∃ new, (updateFromStorage client tr).2 = tr ++ new ∧
        CompleteUpdate (storageSteps client) new (updateFromStorage client tr).1) ∧
      ∃ new, (updateFromNetwork client tr).2 = tr ++ new ∧
        CompleteUpdate (networkSteps client) new (updateFromNetwork client tr).1 := by
  constructor
  · unfold updateFromStorage storageSteps
    cases client.validUpdateVolume with
    | none => exact ⟨[], by simp, by simp, by simp⟩
    | some mountPoint => exact flagged_complete (storageBody_takes mountPoint) tr
  · obtain ⟨before, htr, hbar, hfail, -⟩ := (networkPrologue_takes : Takes (networkPrologue client) () []) tr
    unfold updateFromNetwork
    cases hp : (networkPrologue client tr).1 with
    | none =>
      rw [Prod.ext (x := networkPrologue client tr) (y := (none, _)) hp htr]
      have hno := flagWrite_notMem hbar .updateDone
      exact ⟨before, rfl, fun ok hmem => absurd hmem (hno ok), fun _ => ⟨rfl, hno true⟩⟩
    | some u =>
      rw [Prod.ext (x := networkPrologue client tr) (y := (some u, _)) hp htr]
      obtain ⟨new, hnew, hc⟩ := flagged_complete (networkBody_takes : Takes (networkBody client) ()
        (networkSteps client)) (tr ++ before)
      exact ⟨before ++ new, hnew.trans (List.append_assoc _ _ _), hc.prepend (does_ok hfail hp) hbar⟩

end LinuxRecovery.UpdateRun
