import LinuxRecovery.NumberText

namespace LinuxRecovery.Mxml

open NumberText

inductive Element where
  | mk (tag : String) (attrib : List (String × String)) (text : List Char) (children : List Element)

inductive Value where
  | element (name : String) (attrs : List (String × String))
  | integer (n : ℤ)
  | opaqueText (s : String)
  | real (s : String)
  | text (s : String)
  deriving DecidableEq

inductive Nodes where
  | nil
  | cons (value : Value) (child : Nodes) (next : Nodes)
  deriving DecidableEq

def Nodes.append : Nodes → Nodes → Nodes
  | .nil, t => t
  | .cons value child next, t => .cons value child (next.append t)

def Nodes.ofValues : List Value → Nodes
  | [] => .nil
  | v :: vs => .cons v .nil (.ofValues vs)

structure Found where
  value : Value
  child : Nodes
  parentChild : Nodes
  deriving DecidableEq

def walkFrom (parentChild : Nodes) : Nodes → List Found
  | .nil => []
  | .cons value child next =>
    ⟨value, child, parentChild⟩ :: (walkFrom child child ++ walkFrom parentChild next)

def walk (top : Nodes) : List Found := walkFrom top top

def isElement (name : String) (f : Found) : Bool :=
  match f.value with
  | .element n _ => n == name
  | _ => false

def findElement (top : Nodes) (name : String) : Option Found := (walk top).find? (isElement name)

def walkBehind (name : String) (fs : List Found) : List Found :=
  (fs.dropWhile (fun f => !isElement name f)).tail

def findElements (name : String) (fs : List Found) : List Found := fs.filter (isElement name)

def elementGetAttr (f : Found) (name : String) : Option String :=
  match f.value with
  | .element _ attrs => attrs.lookup name
  | _ => none

def firstChild (f : Found) : Option Value :=
  match f.child with
  | .nil => none
  | .cons value _ _ => some value

def getOpaque (f : Found) : Option String :=
  match firstChild f with
  | some (.opaqueText s) => some s
  | _ => none

def getText (f : Found) : Option String :=
  match firstChild f with
  | some (.text s) => some s
  | _ => none

def getInteger (f : Found) : ℤ :=
  match firstChild f with
  | some (.integer n) => n
  | _ => 0

inductive ValueType where
  | integer
  | opaqueText
  | real
  | text
  deriving DecidableEq

def mxmlTypeCallback (name : String) (attrs : List (String × String)) : ValueType :=
  let type := (attrs.lookup "type").getD name
  if type = "integer" then .integer
  else if type = "opaque" ∨ type = "pre" then .opaqueText
  else if type = "real" then .real
  else .text

def toInt (n : ℤ) : ℤ := n.bmod (2 ^ 32)

def loadInteger (bits : ℕ) (word : List Char) : Option Value :=
  if (scan word).rest = [] then some (.integer (toInt (strtol bits word))) else none

def words (text : List Char) : List (List Char) := (text.splitOnP isSpace).filter (· ≠ [])

def loadText (bits : ℕ) (type : ValueType) (text : List Char) : Option (List Value) :=
  match type with
  | .opaqueText => some (if text = [] then [] else [.opaqueText (String.ofList text)])
  | .integer => (words text).mapM (loadInteger bits)
  | .real => some ((words text).map (fun w => .real (String.ofList w)))
  | .text => some ((words text).map (fun w => .text (String.ofList w)))

mutual

def loadElement (bits : ℕ) : Element → Nodes → Option Nodes
  | .mk tag attrib text children, next =>
    match loadText bits (mxmlTypeCallback tag attrib) text, loadElements bits children with
    | some values, some below => some (.cons (.element tag attrib) ((Nodes.ofValues values).append below) next)
    | _, _ => none

def loadElements (bits : ℕ) : List Element → Option Nodes
  | [] => some .nil
  | e :: es =>
    match loadElements bits es with
    | some next => loadElement bits e next
    | none => none

end

/-- The tree of a file: the declaration, and below it the white space behind it and the root. -/
def loadFile (bits : ℕ) (root : Element) : Option Nodes :=
  (loadElement bits root .nil).map (fun nodes => .cons (.text "") .nil nodes)

section Load

variable {bits n : ℕ} {t : List Char}

theorem words_single (hne : t ≠ []) (h : ∀ c ∈ t, isSpace c = false) : words t = [t] := by
  have hsplit : t.splitOnP isSpace = [t] := List.splitOnP_eq_singleton (fun c hc => by simp [h c hc])
  simp [words, hsplit, hne]

theorem loadText_single (hne : t ≠ []) (h : ∀ c ∈ t, isSpace c = false) :
    loadText bits .text t = some [.text (String.ofList t)] := by
  simp [loadText, words_single hne h]

theorem loadText_integer (hne : t ≠ []) (h : ∀ c ∈ t, isSpace c = false) (hs : scan t = ⟨false, n, []⟩) :
    loadText bits .integer t = some [.integer (toInt (min (2 ^ (bits - 1) - 1 : ℤ) (n : ℤ)))] := by
  simp [loadText, words_single hne h, loadInteger, hs, strtol_scan hs]

theorem loadText_opaqueNode {s : String} (hne : s ≠ "") : loadText bits .opaqueText s.toList = some [.opaqueText s] := by
  have hlist : s.toList ≠ [] := by simpa using hne
  simp [loadText, hlist]

end Load

example : (loadFile 32 (.mk "a" [] [] [.mk "n" [("type", "integer")] (hexadecimal 18) []])).map
    (fun t => (findElement t "n").map getInteger) = some (some 18) := by decide

end LinuxRecovery.Mxml
