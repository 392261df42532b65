/-
What can go wrong, by cause.  The wording of a cause is in its `message` and nowhere else;
`Error.message` puts the name of the area before it.
-/
import ObjectMarkup.Value

namespace ObjectMarkup

/-- A stream of instructions that nests wrongly. -/
inductive StructureError where
  | rootAlreadyClosed (type : TypeName)
  | secondRoot (type root : TypeName)
  | objectWithoutMember (type parent : TypeName)
  | memberWithoutObject (member : String)
  | memberAlreadyOpen (member other : String)
  | valueWithoutMember (value : String)
  | unmatchedEndMember
  | unmatchedEndObject
  | endObjectWithOpenMember (member : String)
  | getObjectWithoutValue (member : String)
  | tooDeep (maxDepth : Nat)
  | incomplete (openLevels : Nat)
  | noRoot
deriving DecidableEq, Repr

def StructureError.message : StructureError → String
  | rootAlreadyClosed type =>
    s!"object '{type}' started after the root object was closed; only one root object is allowed"
  | secondRoot type root =>
    s!"object '{type}' started while root '{root}' is still open without an open member"
  | objectWithoutMember type parent =>
    s!"object '{type}' started inside '{parent}' without an open member"
  | memberWithoutObject member => s!"member '{member}' started with no open object"
  | memberAlreadyOpen member other =>
    s!"member '{member}' started while member '{other}' is still open"
  | valueWithoutMember value => s!"value '{value}' supplied with no open member"
  | unmatchedEndMember => "end-member with no matching start-member"
  | unmatchedEndObject => "end-object with no matching start-object"
  | endObjectWithOpenMember member => s!"end-object while member '{member}' is still open"
  | getObjectWithoutValue member => s!"get-object for member '{member}' found no current value"
  | tooDeep maxDepth => s!"nesting depth exceeds the configured limit of {maxDepth}"
  | incomplete openLevels => s!"instruction stream ended with {openLevels} open level(s)"
  | noRoot => "instruction stream produced no root object"

/-- Markup that describes no construction. -/
inductive ExtractionError where
  | contentContiguity (type : TypeName) (member : String)
  | ambiguousContent (type : TypeName) (count : Nat)
  | noContentMember (type : TypeName)
  | unknownMember (type : TypeName) (member : String)
  | mixedContent (type : TypeName)
  | emptyAssignment (type : TypeName) (member : String)
  | nestedPropertyElement (outer inner : String)
  | invalidLabel (label : String)
deriving DecidableEq, Repr

def ExtractionError.message : ExtractionError → String
  | contentContiguity type member =>
    s!"content of '{type}' is interleaved with property element '{member}'"
  | ambiguousContent type count =>
    s!"'{type}' has a single-valued content member but {count} content children"
  | noContentMember type => s!"'{type}' has element content but no content member"
  | unknownMember type member => s!"'{type}' has no member named '{member}'"
  | mixedContent type => s!"content of '{type}' mixes text and elements"
  | emptyAssignment type member =>
    s!"member '{member}' of '{type}' is not a collection and received no value"
  | nestedPropertyElement outer inner =>
    s!"property element '{inner}' cannot appear inside property element '{outer}'"
  | invalidLabel label => s!"'{label}' is not a valid member label"

/-- No object could be made. -/
inductive ActivationError where
  | noMatchingConstructor (type : TypeName) (arity : Nat)
  | notActivatable (type : TypeName)
  | failed (type : TypeName) (reason : String)
deriving DecidableEq, Repr

def ActivationError.message : ActivationError → String
  | noMatchingConstructor type arity => s!"no constructor of '{type}' accepts {arity} argument(s)"
  | notActivatable type => s!"type '{type}' is not activatable"
  | failed type reason => s!"constructor of '{type}' failed: {reason}"

/-- A literal that is no value of its member. -/
structure ConversionError where
  literal : String
  target : ValueType
  member : String
  reason : String
deriving DecidableEq, Repr

def ConversionError.message (e : ConversionError) : String :=
  s!"cannot convert '{e.literal}' to {e.target.name} for member '{e.member}': {e.reason}"

/-- What a type may promise of its objects. -/
inductive Capability where
  | lifecycle
  | collection
  | extension
deriving DecidableEq, Repr

def Capability.phrase : Capability → String
  | lifecycle => "lifecycle-aware"
  | collection => "a collection"
  | extension => "a value-producing extension"

/-- A value that could not be committed to its member. -/
inductive MemberError where
  | setFailed (member reason : String)
  | notAttachable (member : String) (target : TypeName)
  | notCollection (member : String)
  | unexpectedValueCount (member : String) (count : Nat)
  | unknownHandler (handler member : String)
  | missingCapability (type : TypeName) (capability : Capability)
deriving DecidableEq, Repr

def MemberError.message : MemberError → String
  | setFailed member reason => s!"setting '{member}' failed: {reason}"
  | notAttachable member target => s!"'{target}' does not accept attached member '{member}'"
  | notCollection member => s!"member '{member}' does not expose a collection to append to"
  | unexpectedValueCount member count =>
    s!"member '{member}' expects a single value but received {count}"
  | unknownHandler handler member =>
    s!"handler '{handler}' for event '{member}' is not exposed by the root instance"
  | missingCapability type capability =>
    s!"'{type}' is declared {capability.phrase} but its instance does not expose it"

/-- A name that could not be registered. -/
inductive NamescopeError where
  | duplicateName (name : String)
  | unknownScope (index : Nat)
deriving DecidableEq, Repr

def NamescopeError.message : NamescopeError → String
  | duplicateName name => s!"name '{name}' is already registered in this namescope"
  | unknownScope index => s!"namescope {index} does not exist"

/-- An extension that provides no value. -/
structure ExtensionError where
  extension : TypeName
  reason : String
deriving DecidableEq, Repr

def ExtensionError.message (e : ExtensionError) : String :=
  s!"extension '{e.extension}' failed to provide a value: {e.reason}"

/-- A deferred member that could not be loaded. -/
inductive DeferredError where
  | duplicateLoader (member : String)
  | missingLoader (member : String)
  | loadFailed (member reason : String)
deriving DecidableEq, Repr

def DeferredError.message : DeferredError → String
  | duplicateLoader member => s!"a deferred loader is already registered for '{member}'"
  | missingLoader member => s!"member '{member}' is declared deferred but no loader is registered"
  | loadFailed member reason => s!"deferred loader for '{member}' failed: {reason}"

/-- The first thing that went wrong in a construction. -/
inductive Error where
  | structural (e : StructureError)
  | extraction (e : ExtractionError)
  | dependencyCycle (owner : TypeName) (members : List String)
  | unknownType (name : String)
  | activation (e : ActivationError)
  | conversion (e : ConversionError)
  | member (e : MemberError)
  | namescope (e : NamescopeError)
  | extension (e : ExtensionError)
  | deferred (e : DeferredError)
deriving DecidableEq, Repr

namespace Error

/-- The causes that concern the types and the shape of a description, and not what happens while it
is carried out. -/
def isStatic : Error → Bool
  | extraction _ | unknownType _ | dependencyCycle .. => true
  | _ => false

def message : Error → String
  | structural e => "Structural ordering error: " ++ e.message
  | extraction e => "Extraction error: " ++ e.message
  | dependencyCycle owner members =>
    s!"Dependency cycle among members of '{owner}': " ++ ", ".intercalate members
  | unknownType name => s!"Type resolution error: unknown type '{name}'"
  | activation e => "Construction failure: " ++ e.message
  | conversion e => "Conversion failure: " ++ e.message
  | member e => "Member error: " ++ e.message
  | namescope e => "Namescope error: " ++ e.message
  | extension e => "Extension error: " ++ e.message
  | deferred e => "Deferred assembly error: " ++ e.message

end Error
end ObjectMarkup
