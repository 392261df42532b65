/-
The settings of a construction.  `Settings.validate` accepts the usable ones: at least two levels,
and a name directive that is more than white space and has none inside.
-/
import ObjectMarkup.Markup
import ObjectMarkup.Number.Integer

namespace ObjectMarkup

/-- The scope that a root gets which its caller supplies and whose type opens one. -/
inductive RootScope where
  /-- a new scope that the root owns -/
  | fresh
  /-- the scope that the root sees already -/
  | inherit
deriving DecidableEq, Repr, Inhabited

def RootScope.name : RootScope → String
  | fresh => "fresh"
  | inherit => "inherit"

def RootScope.ofName? : String → Option RootScope
  | "fresh" => some fresh
  | "inherit" => some inherit
  | _ => none

structure Settings where
  rootScope : RootScope := .fresh
  reading : Markup.Reading := {}
  /-- the number of objects that may be open at once -/
  maxDepth : Nat := 256
  traceInstructions : Bool := false
deriving DecidableEq, Repr

/-- Why settings are not accepted. -/
inductive SettingsFault where
  | tooShallow
  | badDirective
  | depthNotANumber (text : String)
  | unknownRootScope (text : String)
deriving DecidableEq, Repr

def SettingsFault.message : SettingsFault → String
  | tooShallow => "limits.max_depth must be at least 2"
  | badDirective => "extraction.name_directive must be a non-empty identifier"
  | depthNotANumber text => s!"WEAVER_MAX_DEPTH is not a number: '{text}'"
  | unknownRootScope text =>
    s!"unknown root namescope policy '{text}' (expected 'fresh' or 'inherit')"

/-- What can go wrong with settings. -/
inductive SettingsError where
  /-- the file is no readable text -/
  | unreadable
  /-- the text is no description of settings -/
  | malformed
  | invalid (fault : SettingsFault)
deriving DecidableEq, Repr

/-- The message of settings that were understood and are not accepted. -/
def SettingsFault.report (fault : SettingsFault) : String :=
  "Configuration validation failed: " ++ fault.message

/-- Reads a root scope, whatever the case of its letters and the white space around it. -/
def RootScope.read (s : String) : Except SettingsFault RootScope :=
  let name := Text.lowerAscii (Text.trim s)
  match ofName? name with
  | some r => .ok r
  | none => .error (.unknownRootScope name)

namespace Settings

/-- A directive that can name an attribute; white space around it is allowed. -/
def isDirective (s : String) : Bool :=
  let inner := Text.trimChars s.toList
  !inner.isEmpty && !inner.any Text.isBlank

def validate (s : Settings) : Except SettingsFault Unit :=
  if s.maxDepth < 2 then .error .tooShallow
  else if !isDirective s.reading.nameDirective then .error .badDirective
  else .ok ()

/-- Values from outside that take the place of settings. -/
structure Overrides where
  maxDepth : Option String := none
  rootScope : Option String := none
deriving DecidableEq, Repr

def overrideDepth (s : Settings) : Option String → Except SettingsFault Settings
  | none => .ok s
  | some text =>
    match IntegerRange.unsigned64.read (Text.trim text) with
    | .ok n => .ok { s with maxDepth := n.toNat }
    | .error _ => .error (.depthNotANumber text)

def overrideRootScope (s : Settings) : Option String → Except SettingsFault Settings
  | none => .ok s
  | some text => (RootScope.read text).map fun r => { s with rootScope := r }

/-- Overrides settings one by one, and validates the outcome.  The settings that a failure leaves
behind hold the overrides before it. -/
def override (o : Overrides) : EStateM SettingsFault Settings Unit := fun s =>
  match s.overrideDepth o.maxDepth with
  | .error e => .error e s
  | .ok s =>
    match s.overrideRootScope o.rootScope with
    | .error e => .error e s
    | .ok s =>
      match s.validate with
      | .error e => .error e s
      | .ok () => .ok () s

end Settings
end ObjectMarkup
