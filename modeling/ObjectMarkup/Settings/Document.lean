/-
Settings in a document.  Each group of settings is a table of it; what a document does not say has
its default, and what it says beyond is passed over.  A group may also be an array, which gives its
settings by their position.
-/
import ObjectMarkup.Settings
import ObjectMarkup.Toml.Document

namespace ObjectMarkup
namespace Settings

open Toml (Value)

/-- A group of settings as far as a document gives it: its values by position or by name. -/
inductive Group where
  | byPosition (items : List Value)
  | byName (entries : List (String × Value))

namespace Group

/-- A moment names a part of its own, which is no setting. -/
def ofValue? : Value → Option Group
  | .table _ entries => some (byName entries)
  | .array items => some (byPosition items)
  | .tables items => some (byPosition (items.map (.table .header)))
  | .moment => some (byName [])
  | _ => none

/-- The group of a name, empty if the document has none. -/
def find? (entries : List (String × Value)) (name : String) : Option Group :=
  match entries.lookup name with
  | none => some (byName [])
  | some v => ofValue? v

/-- A setting, read with `f`, or its default. -/
def setting {α : Type} (g : Group) (position : Nat) (name : String) (default : α)
    (f : Value → Option α) : Option α :=
  let given := match g with
    | byPosition items => items[position]?
    | byName entries => entries.lookup name
  match given with
  | none => some default
  | some v => f v

end Group

def string? : Value → Option String
  | .string s => some s
  | _ => none

def boolean? : Value → Option Bool
  | .boolean b => some b
  | _ => none

def natural? : Value → Option Nat
  | .integer n => if 0 ≤ n then some n.toNat else none
  | _ => none

/-- Whether a value holds nothing. -/
def isNothing : Value → Bool
  | .table _ entries => entries.isEmpty
  | .array items => items.isEmpty
  | .tables items => items.isEmpty
  | _ => false

/-- A root scope is written as its name, or as the one key of a table, which then holds nothing. -/
def rootScope? : Value → Option RootScope
  | .string s => RootScope.ofName? s
  | .table _ [(name, v)] => if isNothing v then RootScope.ofName? name else none
  | _ => none

/-- The settings that a table gives. -/
def ofTable? (entries : List (String × Value)) : Option Settings := do
  let default : Settings := {}
  let namescope ← Group.find? entries "namescope"
  let extraction ← Group.find? entries "extraction"
  let limits ← Group.find? entries "limits"
  let diagnostics ← Group.find? entries "diagnostics"
  let rootScope ← namescope.setting 0 "root_instance_policy" default.rootScope rootScope?
  let nameDirective ←
    extraction.setting 0 "name_directive" default.reading.nameDirective string?
  let ignoreBlankText ←
    extraction.setting 1 "ignore_whitespace_text" default.reading.ignoreBlankText boolean?
  let maxDepth ← limits.setting 0 "max_depth" default.maxDepth natural?
  let traceInstructions ←
    diagnostics.setting 0 "trace_instructions" default.traceInstructions boolean?
  return { rootScope, reading := { nameDirective, ignoreBlankText }, maxDepth, traceInstructions }

/-- Reads settings from a document and validates them.  Documents are read with `read`. -/
def ofTextBy (read : String → Option Toml.Table) (text : String) :
    Except SettingsError Settings :=
  match (read text).bind fun t => ofTable? t.entries with
  | none => .error .malformed
  | some s =>
    match s.validate with
    | .ok () => .ok s
    | .error fault => .error (.invalid fault)

def ofText (text : String) : Except SettingsError Settings :=
  ofTextBy Toml.read? text

/-- What there is in the place of a file of settings. -/
inductive Source where
  | missing
  /-- something that is no file -/
  | unreadable
  | bytes (b : ByteArray)

/-- Reads settings from a file; without a file they are the default ones. -/
def ofSourceBy (read : String → Option Toml.Table) : Source → Except SettingsError Settings
  | .missing => .ok {}
  | .unreadable => .error .unreadable
  | .bytes b =>
    match String.fromUTF8? b with
    | some text => ofTextBy read text
    | none => .error .unreadable

def ofSource (source : Source) : Except SettingsError Settings :=
  ofSourceBy Toml.read? source

/-- Settings with overrides on top. -/
def overridden (s : Settings) (o : Overrides) : Except SettingsError Settings :=
  match override o s with
  | .ok () s => .ok s
  | .error fault _ => .error (.invalid fault)

/-- Reads settings from a file and applies the overrides. -/
def loadBy (read : String → Option Toml.Table) (source : Source) (o : Overrides) :
    Except SettingsError Settings := do
  let s ← ofSourceBy read source
  s.overridden o

def load (source : Source) (o : Overrides) : Except SettingsError Settings :=
  loadBy Toml.read? source o

/-! ## The default document -/

def defaultPath : String := "weaver.toml"

/-- A document that gives every setting its default. -/
def defaultText : String :=
  let s : Settings := {}
  "\n".intercalate [
    "[namescope]",
    s!"root_instance_policy = \"{s.rootScope.name}\"",
    "",
    "[extraction]",
    s!"name_directive = \"{s.reading.nameDirective}\"",
    s!"ignore_whitespace_text = {s.reading.ignoreBlankText}",
    "",
    "[limits]",
    s!"max_depth = {s.maxDepth}",
    "",
    "[diagnostics]",
    s!"trace_instructions = {s.traceInstructions}",
    ""]

end Settings
end ObjectMarkup
