/-
Blank text and comments do not matter.

They are put in and taken out among the children of an element or of a property element, at any
depth, and the construction that the document describes stays the same, or fails in the same way
(`tree_passesOver`).  The one place where blank text counts is a property element that assigns text
while white space is not dropped: there it is part of the text.
-/
import Mathlib.Logic.Relation
import ObjectMarkup.Proofs.Layout

namespace ObjectMarkup
namespace Markup

variable {schema : Schema} {reading : Reading} {type : TypeName}

/-! ## One node more -/

/-- Text stands alone and is more than white space: what a property element assigns as a literal. -/
def IsLiteral (ns : List Node) : Prop :=
  (∀ n ∈ ns, n.element? = none ∧ n.isProperty = false) ∧
    Text.allBlank (String.join (ns.filterMap Node.text?)) = false

/-- A node is passed over among the other children `ns` of a property element. -/
def Reading.PassesOver (reading : Reading) (ns : List Node) (n : Node) : Prop :=
  n.isComment = true ∨ (n.isBlankText = true ∧ (reading.ignoreBlankText = true ∨ ¬ IsLiteral ns))

/-- The second node is the first one with a blank text or a comment put in, at some place inside
it. -/
inductive Node.Gains (reading : Reading) : Node → Node → Prop
  | child {type : TypeName} {attributes : List Attribute} {front back : List Node} {n : Node} :
      n.isAside = true →
      Gains reading (.element type attributes (front ++ back))
        (.element type attributes (front ++ n :: back))
  | part {label : String} {front back : List Node} {n : Node} :
      reading.PassesOver (front ++ back) n →
      Gains reading (.property label (front ++ back)) (.property label (front ++ n :: back))
  | inChild {type : TypeName} {attributes : List Attribute} {front back : List Node}
      {n n' : Node} : Gains reading n n' →
      Gains reading (.element type attributes (front ++ n :: back))
        (.element type attributes (front ++ n' :: back))
  | inPart {label : String} {front back : List Node} {n n' : Node} : Gains reading n n' →
      Gains reading (.property label (front ++ n :: back)) (.property label (front ++ n' :: back))

/-- Any number of blank texts and comments are put in and taken out. -/
def Element.Respaced (reading : Reading) : Element → Element → Prop :=
  Relation.EqvGen fun e e' => Node.Gains reading e.toNode e'.toNode

/-! ## Children that are read alike -/

/-- The children are read to the same, or are property elements that assign the same. -/
inductive Child.Alike (schema : Schema) (reading : Reading) : Child → Child → Prop
  | same (c : Child) : Alike schema reading c c
  | property {label : String} {cs cs' : List Child} :
      (∀ type, assignProperty schema reading type label cs =
        assignProperty schema reading type label cs') →
      Alike schema reading (.property label cs) (.property label cs')

theorem divide_congr {cs cs' : List Child}
    (h : ∀ type place, divide schema reading type place cs = divide schema reading type place cs')
    (front : List Child) (type : TypeName) (place : Place) :
    divide schema reading type place (front ++ cs) =
      divide schema reading type place (front ++ cs') := by
  induction front generalizing place with
  | nil => exact h type place
  | cons c front ih =>
    rw [List.cons_append, List.cons_append]
    cases c with
    | comment => rw [divide, divide, ih]
    | property label inner => rw [divide_property, divide_property, ih]
    | element tree => rw [divide.eq_def, divide.eq_def]; cases place <;> simp only [ih]
    | text s => rw [divide.eq_def, divide.eq_def]; cases place <;> simp only [ih]

theorem Child.Alike.divide_eq {c c' : Child} (h : c.Alike schema reading c')
    (back : List Child) (type : TypeName) (place : Place) :
    divide schema reading type place (c :: back) =
      divide schema reading type place (c' :: back) := by
  cases h with
  | same => rfl
  | property h => rw [divide_property, divide_property, h]

theorem construct_congr {cs cs' : List Child}
    (h : ∀ type place, divide schema reading type place cs = divide schema reading type place cs')
    (name : String) (attributes : List Attribute) :
    construct schema reading name attributes cs = construct schema reading name attributes cs' := by
  simp only [construct, describe, h]

/-! ## Property elements -/

namespace Child

theorem textOf_append (cs ds : List Child) : textOf (cs ++ ds) = textOf cs ++ textOf ds := by
  induction cs with
  | nil => simp [textOf]
  | cons c cs ih => cases c <;> simp [textOf, ih, String.append_assoc]

theorem elementsOf_append (cs ds : List Child) :
    elementsOf (cs ++ ds) = elementsOf cs ++ elementsOf ds := by
  induction cs with
  | nil => rfl
  | cons c cs ih => cases c <;> simp [elementsOf, ih]

end Child

theorem firstProperty_append (cs ds : List Child) :
    firstProperty (cs ++ ds) = (firstProperty cs).or (firstProperty ds) := by
  induction cs with
  | nil => rfl
  | cons c cs ih => cases c <;> simp [firstProperty, ih]

/-- The children of a property element that are taken. -/
def taken (reading : Reading) (cs : List Child) : List Child :=
  cs.filter fun c => !(reading.ignoreBlankText && c.isBlankText)

theorem taken_append (cs ds : List Child) :
    taken reading (cs ++ ds) = taken reading cs ++ taken reading ds :=
  List.filter_append cs ds

theorem firstProperty_taken (cs : List Child) :
    firstProperty (taken reading cs) = firstProperty cs := by
  induction cs with
  | nil => rfl
  | cons c cs ih =>
    rw [taken, List.filter_cons, ← taken]
    split
    · cases c <;> simp [firstProperty, ih]
    · cases c <;> simp_all [firstProperty, Child.isBlankText]

theorem elementsOf_taken (cs : List Child) :
    Child.elementsOf (taken reading cs) = Child.elementsOf cs := by
  induction cs with
  | nil => rfl
  | cons c cs ih =>
    rw [taken, List.filter_cons, ← taken]
    split
    · cases c <;> simp [Child.elementsOf, ih]
    · cases c <;> simp_all [Child.elementsOf, Child.isBlankText]

theorem taken_of_keeping (h : reading.ignoreBlankText = false) (cs : List Child) :
    taken reading cs = cs :=
  List.filter_eq_self.2 fun c _ => by simp [h]

theorem assignProperty_congr {label : String} {cs cs' : List Child}
    (hfirst : firstProperty cs = firstProperty cs')
    (hpayload : firstProperty cs = none →
      payload reading type (taken reading cs) = payload reading type (taken reading cs')) :
    assignProperty schema reading type label cs = assignProperty schema reading type label cs' := by
  have hboth : firstProperty (taken reading cs) = firstProperty (taken reading cs') := by
    rw [firstProperty_taken, firstProperty_taken, hfirst]
  have hnone : firstProperty (taken reading cs) = none →
      payload reading type (taken reading cs) = payload reading type (taken reading cs') := by
    rw [firstProperty_taken]
    exact hpayload
  rw [taken, taken] at hboth hnone
  rw [assignProperty, assignProperty]
  refine bind_congr fun m => ?_
  dsimp only
  rw [← hboth]
  split
  · rfl
  · next hkept => rw [hnone (Option.eq_none_iff_forall_ne_some.2 hkept)]

/-- Of the text of a run that is not text alone, only whether it is blank matters. -/
theorem payload_congr {cs cs' : List Child} (helements : Child.elementsOf cs = Child.elementsOf cs')
    (hblank : Text.allBlank (Child.textOf cs) = Text.allBlank (Child.textOf cs'))
    (htext : Child.elementsOf cs = [] → Text.allBlank (Child.textOf cs) = false →
      Child.textOf cs = Child.textOf cs') :
    payload reading type cs = payload reading type cs' := by
  simp only [payload, ← helements, ← hblank]
  cases hb : Text.allBlank (Child.textOf cs) with
  | true => cases (Child.elementsOf cs).isEmpty <;> rfl
  | false =>
    cases he : Child.elementsOf cs with
    | nil => rw [htext he hb]
    | cons tree trees => rfl

theorem allBlank_append (s t : String) :
    Text.allBlank (s ++ t) = (Text.allBlank s && Text.allBlank t) := by
  simp [Text.allBlank]

theorem Child.Alike.assignProperty_eq {c c' : Child} (h : c.Alike schema reading c')
    (front back : List Child) (type : TypeName) (label : String) :
    assignProperty schema reading type label (front ++ c :: back) =
      assignProperty schema reading type label (front ++ c' :: back) := by
  cases h with
  | same => rfl
  | property _ =>
    -- a property element inside another one is refused whatever it holds
    refine assignProperty_congr (by simp [firstProperty_append, firstProperty]) fun hnone => ?_
    simp [firstProperty_append, firstProperty] at hnone

/-! ## A node that is passed over -/

theorem Node.readAll_append (ns ms : List Node) :
    readAll schema reading (ns ++ ms) = readAll schema reading ns ++ readAll schema reading ms := by
  simp only [readAll_eq_map, List.map_append]

theorem Node.read_of_isAside {n : Node} (h : n.isAside = true) :
    n.read schema reading = .comment ∨
      ∃ s, n.read schema reading = .text s ∧ Text.allBlank s = true := by
  cases n with
  | element => cases h
  | property => cases h
  | comment s => exact .inl (by rw [Node.read])
  | text s => exact .inr ⟨s, by rw [Node.read], h⟩

theorem isLiteral_readAll {ns : List Node}
    (hproperty : firstProperty (Node.readAll schema reading ns) = none)
    (helements : Child.elementsOf (Node.readAll schema reading ns) = [])
    (htext : Text.allBlank (Child.textOf (Node.readAll schema reading ns)) = false) :
    IsLiteral ns := by
  rw [elementsOf_readAll, List.map_eq_nil_iff, List.filterMap_eq_nil_iff] at helements
  rw [Node.textOf_readAll] at htext
  exact ⟨fun n hn => ⟨helements n hn, no_property_of_firstProperty hproperty n hn⟩, htext⟩

theorem Reading.PassesOver.isAside {ns : List Node} {n : Node} (h : reading.PassesOver ns n) :
    n.isAside = true := by
  rcases h with h | ⟨h, -⟩ <;>
    cases n <;> simp_all [Node.isComment, Node.isAside, Node.isBlankText]

/-- What is passed over adds nothing to the text of a property element that assigns text. -/
theorem Reading.PassesOver.textOf_eq {ns : List Node} {n : Node} (h : reading.PassesOver ns n)
    (hliteral : reading.ignoreBlankText = false → IsLiteral ns) :
    Child.textOf (taken reading [n.read schema reading]) = "" := by
  rcases h with h | ⟨hblank, hpasses⟩
  · cases n with
    | comment s => rw [Node.read, taken]; simp [Child.isBlankText, Child.textOf]
    | _ => cases h
  · cases hignore : reading.ignoreBlankText with
    | true => simp [taken, hignore, isBlankText_read, hblank, Child.textOf]
    | false => exact absurd (hliteral hignore) (by simpa [hignore] using hpasses)

/-- A blank text or comment among the children of a property element does not change what it
assigns. -/
theorem assignProperty_passesOver {front back : List Node} {n : Node}
    (h : reading.PassesOver (front ++ back) n) (type : TypeName) (label : String) :
    assignProperty schema reading type label (Node.readAll schema reading (front ++ back)) =
      assignProperty schema reading type label
        (Node.readAll schema reading (front ++ n :: back)) := by
  have happend := @Node.readAll_append schema reading front back
  have hinsert : Node.readAll schema reading (front ++ n :: back) =
      Node.readAll schema reading front ++ ([n.read schema reading] ++
        Node.readAll schema reading back) := by
    rw [Node.readAll_append, Node.readAll, List.singleton_append]
  have haside := @Node.read_of_isAside schema reading n h.isAside
  have hfirst : firstProperty [n.read schema reading] = none := by
    rcases haside with hn | ⟨s, hn, -⟩ <;> rw [hn] <;> rfl
  have helements : Child.elementsOf [n.read schema reading] = [] := by
    rcases haside with hn | ⟨s, hn, -⟩ <;> rw [hn] <;> rfl
  have hblank : Text.allBlank (Child.textOf (taken reading [n.read schema reading])) = true := by
    rcases haside with hn | ⟨s, hn, hs⟩
    · rw [hn, taken]; simp [Child.isBlankText, Child.textOf, Text.allBlank]
    · rw [hn, taken, List.filter_cons]
      split
      · simp [Child.textOf, hs]
      · rfl
  refine assignProperty_congr ?_ fun hnone => payload_congr ?_ ?_ fun hempty htext => ?_
  · rw [happend, hinsert, firstProperty_append, firstProperty_append, firstProperty_append, hfirst,
      Option.none_or]
  · rw [elementsOf_taken, elementsOf_taken, happend, hinsert, Child.elementsOf_append,
      Child.elementsOf_append, Child.elementsOf_append, helements, List.nil_append]
  · rw [happend, hinsert]
    simp only [taken_append, Child.textOf_append, allBlank_append, hblank, Bool.true_and]
  · have hadds : Child.textOf (taken reading [n.read schema reading]) = "" := by
      refine h.textOf_eq fun hkeeps => ?_
      rw [taken_of_keeping hkeeps] at hempty htext
      exact isLiteral_readAll hnone hempty htext
    rw [happend, hinsert]
    simp only [taken_append, Child.textOf_append, hadds, String.empty_append]

/-! ## Whole documents -/

theorem Node.Gains.alike {n n' : Node} (h : n.Gains reading n') :
    (n.read schema reading).Alike schema reading (n'.read schema reading) := by
  induction h with
  | @child type attributes front back n haside =>
    have hdivide : ∀ type place,
        divide schema reading type place (readAll schema reading (front ++ back)) =
          divide schema reading type place (readAll schema reading (front ++ n :: back)) := by
      intro type place
      rw [readAll_append, readAll_append, readAll]
      exact divide_congr (fun type place => (divide_aside haside place _).symm) _ type place
    rw [read, read, construct_congr hdivide]
    exact .same _
  | @part label front back n hpasses =>
    rw [read, read]
    exact .property fun type => assignProperty_passesOver hpasses type label
  | @inChild type attributes front back n n' _ ih =>
    have hdivide : ∀ type place,
        divide schema reading type place (readAll schema reading (front ++ n :: back)) =
          divide schema reading type place (readAll schema reading (front ++ n' :: back)) := by
      intro type place
      rw [readAll_append, readAll_append, readAll, readAll]
      exact divide_congr (fun type place => ih.divide_eq _ type place) _ type place
    rw [read, read, construct_congr hdivide]
    exact .same _
  | @inPart label front back n n' _ ih =>
    rw [read, read]
    refine .property fun type => ?_
    rw [readAll_append, readAll_append, readAll, readAll]
    exact ih.assignProperty_eq _ _ type label

theorem Child.Alike.tree_eq {t t' : Except Error Tree}
    (h : (Child.element t).Alike schema reading (.element t')) : t = t' := by
  cases h
  rfl

theorem Element.tree_of_gains {e e' : Element} (h : Node.Gains reading e.toNode e'.toNode) :
    e.tree schema reading = e'.tree schema reading := by
  have halike := @Node.Gains.alike schema reading _ _ h
  rw [toNode, toNode, Node.read, Node.read] at halike
  exact halike.tree_eq

theorem Element.tree_of_respaced {e e' : Element} (h : e.Respaced reading e') :
    e.tree schema reading = e'.tree schema reading := by
  induction h with
  | rel e e' h => exact tree_of_gains h
  | refl e => rfl
  | symm e e' _ ih => exact ih.symm
  | trans e e' e'' _ _ ih ih' => exact ih.trans ih'

/-! ## Where blank text counts -/

theorem firstProperty_readAll {ns : List Node} (h : ∀ n ∈ ns, n.isProperty = false) :
    firstProperty (Node.readAll schema reading ns) = none := by
  induction ns with
  | nil => rfl
  | cons n ns ih =>
    obtain ⟨hn, hns⟩ := List.forall_mem_cons.1 h
    cases n with
    | property label inner => cases hn
    | _ => exact ih hns

theorem IsLiteral.insert {front back : List Node} (h : IsLiteral (front ++ back)) (s : String) :
    IsLiteral (front ++ .text s :: back) := by
  obtain ⟨hnodes, htext⟩ := h
  refine ⟨fun n hn => ?_, ?_⟩
  · rcases List.mem_append.1 hn with hn | hn
    · exact hnodes n (List.mem_append_left back hn)
    · rcases List.mem_cons.1 hn with rfl | hn
      · exact ⟨rfl, rfl⟩
      · exact hnodes n (List.mem_append_right front hn)
  · simp only [List.filterMap_append, List.filterMap_cons, Node.text?, String.join_append,
      String.join_cons, allBlank_append, Bool.and_eq_false_iff] at htext ⊢
    exact htext.imp_right .inr

/-- Text alone is assigned as it stands where white space is kept. -/
theorem assignProperty_literal {label : String} {m : Member} {ns : List Node}
    (hkeeps : reading.ignoreBlankText = false) (hm : resolveMember schema type label = .ok m)
    (hliteral : IsLiteral ns) :
    assignProperty schema reading type label (Node.readAll schema reading ns) =
      .ok (.literal m (String.join (ns.filterMap Node.text?))) := by
  obtain ⟨hnodes, htext⟩ := hliteral
  have hfirst := @firstProperty_readAll schema reading ns fun n hn => (hnodes n hn).2
  have helements : Child.elementsOf (Node.readAll schema reading ns) = [] := by
    rw [elementsOf_readAll, List.map_eq_nil_iff, List.filterMap_eq_nil_iff]
    exact fun n hn => (hnodes n hn).1
  have hpayload : payload reading type (Node.readAll schema reading ns) =
      .ok (.text (String.join (ns.filterMap Node.text?))) := by
    simp [payload, Node.textOf_readAll, helements, htext, hkeeps]
  have htaken := taken_of_keeping hkeeps (Node.readAll schema reading ns)
  rw [taken] at htaken
  rw [assignProperty, hm, htaken]
  simp only [bind, Except.bind, hfirst, hpayload]
  rfl

/-- Blank text and comments may be put in and taken out anywhere: the document describes the same
construction, or fails with the same error.  Blank text counts only in a property element whose
text is kept as it stands, and there it is part of the text. -/
theorem tree_passesOver :
    (∀ {e e' : Element}, e.Respaced reading e' →
      e.tree schema reading = e'.tree schema reading) ∧
    (reading.ignoreBlankText = false → ∀ {type : TypeName} {label : String} {m : Member}
      {front back : List Node} {s : String}, resolveMember schema type label = .ok m →
      IsLiteral (front ++ back) →
      assignProperty schema reading type label
        (Node.readAll schema reading (front ++ .text s :: back)) =
          .ok (.literal m (String.join (front.filterMap Node.text?) ++ s ++
            String.join (back.filterMap Node.text?)))) := by
  refine ⟨Element.tree_of_respaced, fun hkeeps type label m front back s hm hliteral => ?_⟩
  rw [assignProperty_literal hkeeps hm (hliteral.insert s), List.filterMap_append,
    List.filterMap_cons_some (by rfl), String.join_append, String.join_cons, String.append_assoc]

end Markup

namespace Widget

open Markup (Element Node Reading)

/-- A list with a header, one text and a template, and more nodes behind the text of its header,
before the other text, and in the template. -/
def headedList (header gap template : List Node) : Element where
  type := "ItemsControl"
  attributes := [{ name := "Name", value := "list" }]
  children := [.property "ItemsControl.HeaderText" ([.text "Hola"] ++ header)] ++ gap ++
    [.element "TextBlock" [] [.text "one"]] ++
    [.property "ItemsControl.ItemTemplate" (template ++ [.element "DataTemplate" [] []])]

/-- White space is kept. -/
def keeping : Reading := { ignoreBlankText := false }

theorem headedList_header {reading : Reading} {n : Node}
    (h : reading.PassesOver [.text "Hola"] n) :
    (headedList [] [] []).Respaced reading (headedList [n] [] []) :=
  .rel _ _ (@Node.Gains.inChild reading _ _ [] _ _ _ (@Node.Gains.part reading _ [_] [] n h))

theorem headedList_gap {header : List Node} :
    (headedList header [] []).Respaced keeping (headedList header [.text "\n"] []) :=
  .rel _ _ (@Node.Gains.child keeping _ _ [_] _ _ (by rfl))

theorem headedList_template {header gap : List Node} :
    (headedList header gap []).Respaced keeping (headedList header gap [.text " "]) := by
  have hpasses : keeping.PassesOver ([] ++ [.element "DataTemplate" [] []]) (.text " ") :=
    .inr ⟨by decide, .inr fun h => absurd (h.1 _ List.mem_cons_self).1 (by simp [Node.element?])⟩
  exact .rel _ _ (@Node.Gains.inChild keeping _ _ (_ ++ [_]) [] _ _
    (@Node.Gains.part keeping _ [] _ _ hpasses))

end Widget

namespace Markup

open Widget (headedList keeping)

theorem tree_passesOver_headedList :
    ((headedList [] [.text "\n"] []).Respaced keeping
        (headedList [.comment "greeting"] [] [.text " "]) ∧
      (headedList [] [.text "\n"] []).tree Widget.catalogue.schema keeping =
        (headedList [.comment "greeting"] [] [.text " "]).tree Widget.catalogue.schema keeping) ∧
    keeping.ignoreBlankText = false ∧ IsLiteral ([.text "Hola"] ++ []) ∧
      ∃ m, assignProperty Widget.catalogue.schema keeping "ItemsControl" "ItemsControl.HeaderText"
        (Node.readAll Widget.catalogue.schema keeping [.text "Hola", .text " "]) =
          .ok (.literal m "Hola ") := by
  have hspaced : (headedList [] [.text "\n"] []).Respaced keeping
      (headedList [.comment "greeting"] [] [.text " "]) :=
    Widget.headedList_gap.symm.trans _ _ _
      ((Widget.headedList_header (.inl rfl)).trans _ _ _ Widget.headedList_template)
  have hliteral : IsLiteral ([.text "Hola"] ++ []) :=
    ⟨by simp [Node.element?, Node.isProperty, Node.label?], by decide⟩
  exact ⟨⟨hspaced, tree_passesOver.1 hspaced⟩, rfl, hliteral, _,
    (@tree_passesOver Widget.catalogue.schema keeping).2 rfl rfl hliteral⟩

/-- White space that is kept counts in the header, which is the same but for it. -/
theorem respaced_apart_headedList :
    (headedList [] [] []).Respaced {} (headedList [.text " "] [] []) ∧
      (headedList [] [] []).tree Widget.catalogue.schema keeping ≠
        (headedList [.text " "] [] []).tree Widget.catalogue.schema keeping := by
  refine ⟨Widget.headedList_header (.inr ⟨by decide, .inl rfl⟩), fun h => ?_⟩
  have hplain : (headedList [] [] []).tree Widget.catalogue.schema keeping =
    .ok (.node "ItemsControl" (some "list") [] (.literal _ "Hola" :: _)) := rfl
  have hspaced : (headedList [.text " "] [] []).tree Widget.catalogue.schema keeping =
    .ok (.node "ItemsControl" (some "list") [] (.literal _ "Hola " :: _)) := rfl
  rw [hplain, hspaced] at h
  simp at h

end Markup
end ObjectMarkup
