/-
Settings that are handed out, and the attribute that names an object.

Whichever way settings come about, and whatever reads the documents they come from, they were
validated last (`Settings.HandedOut.validate`).  What that is worth to a reader of markup is that an
attribute with the name directive names its element and assigns nothing (`Element.tree_called`).
The directive is compared as it is written: white space around it is allowed, and belongs to the
name that the attribute has to have.
-/
import ObjectMarkup.Markup.Construction
import ObjectMarkup.Proofs.Action
import ObjectMarkup.Proofs.Literals
import ObjectMarkup.Proofs.Overriding
import ObjectMarkup.Settings.Document
import ObjectMarkup.Widget.Catalogue

namespace ObjectMarkup

/-! ## White space around a text -/

namespace Text

/-- What is trimmed off is white space on either side. -/
theorem exists_surrounded (s : String) : ∃ front back, s = front ++ trim s ++ back ∧
    allBlank front = true ∧ allBlank back = true := by
  let rest := (s.toList.dropWhile isBlank).reverse
  refine ⟨String.ofList (s.toList.takeWhile isBlank),
    String.ofList (rest.takeWhile isBlank).reverse, ?_, ?_, ?_⟩
  · have hrest : s.toList.dropWhile isBlank =
        (rest.dropWhile isBlank).reverse ++ (rest.takeWhile isBlank).reverse := by
      rw [← List.reverse_append, List.takeWhile_append_dropWhile, List.reverse_reverse]
    have hs : s.toList = s.toList.takeWhile isBlank ++
        (trimChars s.toList ++ (rest.takeWhile isBlank).reverse) := by
      rw [trimChars, ← hrest, List.takeWhile_append_dropWhile]
    rw [← String.toList_inj, trim]
    simpa using hs
  · simp [allBlank]
  · simp [allBlank]

end Text

/-! ## Directives -/

namespace Settings

/-- A text without white space, and white space around it. -/
structure Surrounds (front name back s : String) : Prop where
  eq : s = front ++ name ++ back
  front : Text.allBlank front = true
  back : Text.allBlank back = true
  nonempty : name ≠ ""
  solid : ∀ c ∈ name.toList, Text.isBlank c = false

theorem isDirective_iff {s : String} :
    isDirective s = true ↔ ∃ front name back, Surrounds front name back s := by
  rw [isDirective]
  constructor
  · intro h
    obtain ⟨hne, hsolid⟩ := Bool.and_eq_true_iff.1 h
    obtain ⟨front, back, heq, hfront, hback⟩ := Text.exists_surrounded s
    refine ⟨front, Text.trim s, back, heq, hfront, hback, ?_, ?_⟩
    · simpa [Text.trim] using hne
    · simpa [Text.trim] using hsolid
  · rintro ⟨front, name, back, rfl, hfront, hback, hne, hsolid⟩
    have htight := Text.isTight_of_forall (fun h => hne (String.toList_eq_nil_iff.1 h)) hsolid
    have htrim : Text.trimChars (front ++ name ++ back).toList = name.toList := by
      rw [String.toList_append, String.toList_append]
      exact Text.trimChars_surrounded hfront hback htight
    rw [htrim]
    simpa [hne] using hsolid

theorem validate_eq_ok_iff {s : Settings} :
    s.validate = .ok () ↔ 2 ≤ s.maxDepth ∧ isDirective s.reading.nameDirective = true := by
  rw [validate]
  by_cases hdepth : s.maxDepth < 2
  · simp [hdepth, Nat.not_le.2 hdepth]
  · rw [if_neg hdepth]
    cases isDirective s.reading.nameDirective <;> simp [Nat.not_lt.1 hdepth]

/-! ## Where settings come from -/

/-- Settings that are handed out: read from a text or a file, with overrides on top or without.  It
does not matter what `read` makes of a document. -/
inductive HandedOut (read : String → Option Toml.Table) : Settings → Prop
  | ofText {text : String} {s : Settings} : ofTextBy read text = .ok s → HandedOut read s
  | ofSource {source : Source} {s : Settings} : ofSourceBy read source = .ok s → HandedOut read s
  | load {source : Source} {o : Overrides} {s : Settings} :
      loadBy read source o = .ok s → HandedOut read s
  | override {s s' : Settings} {o : Overrides} : override o s = .ok () s' → HandedOut read s'

variable {read : String → Option Toml.Table}

theorem validate_of_ofText {text : String} {s : Settings} (h : ofTextBy read text = .ok s) :
    s.validate = .ok () := by
  rw [ofTextBy] at h
  split at h
  · cases h
  · next s' _ =>
    cases hvalid : s'.validate with
    | ok _ =>
      rw [hvalid] at h
      rwa [← Except.ok.inj h]
    | error fault =>
      rw [hvalid] at h
      cases h

theorem validate_of_ofSource {source : Source} {s : Settings}
    (h : ofSourceBy read source = .ok s) : s.validate = .ok () := by
  rw [ofSourceBy.eq_def] at h
  split at h
  · rw [← Except.ok.inj h]
    rfl
  · cases h
  · split at h
    · exact validate_of_ofText h
    · cases h

theorem validate_of_override {o : Overrides} {s s' : Settings} (h : override o s = .ok () s') :
    s'.validate = .ok () := by
  have houtcome := override_overriding o s
  rw [h] at houtcome
  cases houtcome with
  | accepted _ _ hvalid => exact hvalid

/-- Settings are validated before they are handed out. -/
theorem HandedOut.validate {s : Settings} (h : HandedOut read s) : s.validate = .ok () := by
  cases h with
  | ofText h => exact validate_of_ofText h
  | ofSource h => exact validate_of_ofSource h
  | override h => exact validate_of_override h
  | @load source o _ h =>
    obtain ⟨read, -, h⟩ := Answer.bind_eq_ok.1 h
    rw [overridden] at h
    split at h
    · next hover =>
      rw [← Except.ok.inj h]
      exact validate_of_override hover
    · cases h

end Settings

/-! ## The attribute that names an object -/

/-- The tree with a name for its object. -/
def Tree.called (name : String) : Tree → Tree
  | node type _ arguments assignments => node type (some name) arguments assignments

namespace Markup

variable {schema : Schema} {reading : Reading} {type : TypeName}

/-- The attributes that assign something. -/
def Reading.assigning (reading : Reading) (attributes : List Attribute) : List Attribute :=
  attributes.filter fun a => a.name != reading.nameDirective

theorem attributeSlots_assigning (attributes : List Attribute) :
    attributeSlots schema reading type (reading.assigning attributes) =
      attributeSlots schema reading type attributes := by
  induction attributes with
  | nil => rfl
  | cons a as ih =>
    rw [Reading.assigning] at ih ⊢
    by_cases h : a.name = reading.nameDirective
    · rw [List.filter_cons_of_neg (by simp [h]), attributeSlots, if_pos (by simp [h]), ih]
    · rw [List.filter_cons_of_pos (by simp [h]), attributeSlots, attributeSlots, ih]

theorem describe_assigning (attributes : List Attribute) (children : List Child) :
    describe schema reading type (reading.assigning attributes) children =
      describe schema reading type attributes children := by
  rw [describe, describe, attributeSlots_assigning]

theorem nameOf_assigning (attributes : List Attribute) :
    nameOf reading (reading.assigning attributes) = none := by
  rw [nameOf, Option.map_eq_none_iff, List.find?_eq_none]
  intro a ha
  simpa [Reading.assigning] using (List.mem_filter.1 ha).2

/-- The first attribute with the directive gives the name. -/
theorem nameOf_append {pre post : List Attribute} {a : Attribute}
    (hpre : ∀ b ∈ pre, b.name ≠ reading.nameDirective) (ha : a.name = reading.nameDirective) :
    nameOf reading (pre ++ a :: post) = some a.value := by
  have hnone : pre.find? (fun b => b.name == reading.nameDirective) = none :=
    List.find?_eq_none.2 fun b hb => by simpa using hpre b hb
  rw [nameOf, List.find?_append, hnone, Option.none_or,
    List.find?_cons_of_pos (by simpa using ha), Option.map_some]

theorem construct_called {name value : String} {attributes : List Attribute}
    (h : nameOf reading attributes = some value) (children : List Child) :
    construct schema reading name attributes children =
      (construct schema reading name (reading.assigning attributes) children).map
        (Tree.called value) := by
  rw [construct, construct, h, nameOf_assigning]
  cases resolve schema name with
  | error fault => rfl
  | ok type =>
    change (describe schema reading type attributes children).bind _ =
      ((describe schema reading type (reading.assigning attributes) children).bind _).map _
    rw [describe_assigning]
    cases describe schema reading type attributes children <;> rfl

/-- An attribute with the directive names the object and assigns nothing: the tree is that of the
element without such attributes, with the name, and so is what is wrong with it. -/
theorem Element.tree_called {e : Element} {pre post : List Attribute} {a : Attribute}
    (he : e.attributes = pre ++ a :: post) (hpre : ∀ b ∈ pre, b.name ≠ reading.nameDirective)
    (ha : a.name = reading.nameDirective) :
    e.tree schema reading =
      (({ e with attributes := reading.assigning e.attributes } : Element).tree schema reading).map
        (Tree.called a.value) := by
  refine construct_called ?_ _
  rw [he, nameOf_append hpre ha]

end Markup

/-! ## Settings that are handed out -/

namespace Settings

open Markup

/-- What a name without white space is to a directive that surrounds it: the directive itself, if
nothing stands around it. -/
theorem Surrounds.eq_name_iff {front name back s : String} (h : Surrounds front name back s) :
    s = name ↔ front = "" ∧ back = "" := by
  rw [h.eq]
  constructor
  · intro heq
    have hlength : front.length + name.length + back.length = name.length := by
      rw [← String.length_append, ← String.length_append, heq]
    exact ⟨String.length_eq_zero_iff.1 (by omega), String.length_eq_zero_iff.1 (by omega)⟩
  · rintro ⟨rfl, rfl⟩
    simp

/-- Settings that are handed out are of use, whatever reads the documents.  There may be two objects
open, and the directive is a name with white space around it or without.  The first attribute that
is spelled like the directive, white space included, gives the name of its object and assigns
nothing.  An attribute that is spelled like the name alone is the directive only if there is no
white space around it. -/
theorem handedOut_usable {read : String → Option Toml.Table} {s : Settings}
    (h : HandedOut read s) :
    2 ≤ s.maxDepth ∧ ∃ front name back, Surrounds front name back s.reading.nameDirective ∧
      (s.reading.nameDirective = name ↔ front = "" ∧ back = "") ∧
      ∀ (schema : Schema) (e : Element) (pre post : List Attribute) (a : Attribute),
        e.attributes = pre ++ a :: post → (∀ b ∈ pre, b.name ≠ front ++ name ++ back) →
        a.name = front ++ name ++ back →
        e.tree schema s.reading =
          (({ e with attributes := s.reading.assigning e.attributes } : Element).tree schema
            s.reading).map (Tree.called a.value) := by
  obtain ⟨hdepth, hdirective⟩ := validate_eq_ok_iff.1 h.validate
  obtain ⟨front, name, back, hsurrounds⟩ := isDirective_iff.1 hdirective
  refine ⟨hdepth, front, name, back, hsurrounds, hsurrounds.eq_name_iff, ?_⟩
  intro schema e pre post a he hpre ha
  rw [← hsurrounds.eq] at hpre ha
  exact Element.tree_called he hpre ha

/-- A window whose second attribute names it, under a directive from a document. -/
theorem handedOut_usable_window :
    ofText "[extraction]\nname_directive = \"x:Name\"" =
      .ok { reading := { nameDirective := "x:Name" } } ∧
    ({ type := "Window", attributes := [⟨"Title", "Main"⟩, ⟨"x:Name", "main"⟩] } : Element).tree
        Widget.catalogue.schema { nameDirective := "x:Name" } =
      .ok (.node "Window" (some "main") []
        [.literal (Widget.stringMember "Window" "Title") "Main"]) := by
  have hread : ofText "[extraction]\nname_directive = \"x:Name\"" =
      .ok { reading := { nameDirective := "x:Name" } } := rfl
  obtain ⟨-, front, name, back, hsurrounds, -, htree⟩ := handedOut_usable (.ofText hread)
  have hdirective : "x:Name" = front ++ name ++ back := hsurrounds.eq
  refine ⟨hread, (htree Widget.catalogue.schema _ [⟨"Title", "Main"⟩] [] ⟨"x:Name", "main"⟩ rfl ?_
    ?_).trans rfl⟩
  · rw [← hdirective]
    decide
  · exact hdirective

/-- A directive with white space around it is accepted, and then an attribute that is spelled
without is no name but an unknown member. -/
theorem handedOut_spaced_window :
    ofText "[extraction]\nname_directive = \" Name \"" =
      .ok { reading := { nameDirective := " Name " } } ∧
    (" Name ".toList.any Text.isBlank) = true ∧
    ({ type := "Window", attributes := [⟨"Name", "main"⟩] } : Element).tree
        Widget.catalogue.schema { nameDirective := " Name " } =
      .error (.extraction (.unknownMember "Window" "Name")) :=
  ⟨rfl, rfl, rfl⟩

end Settings
end ObjectMarkup
