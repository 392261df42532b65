/-
The trees that documents give keep to the catalogue they are read with.

Every node is of a type in the catalogue and assigns members that objects of the type may be
assigned (`Catalogue.Assignable`), a member of one value one object, and none only to a member of
many.  A node that is constructed from a text takes one that is not blank, and has no assignment of
its content then: its assignments are those of the attributes and of the property elements.
-/
import ObjectMarkup.Proofs.Layout
import ObjectMarkup.Widget.Catalogue

namespace ObjectMarkup

open ObjectMarkup.Markup

variable {σ : Type} {c : Catalogue σ} {reading : Reading} {type : TypeName}

/-! ## Members -/

/-- What an object of a type may be assigned: the members that the type declares, those that another
type attaches, and the items of a collection that declares no content member. -/
inductive Catalogue.Assignable (c : Catalogue σ) (type : TypeName) : Member → Prop
  | declared {d : Descriptor σ} {m : Member} : c.find? type = some d → m ∈ d.members →
      Assignable c type m
  | attached {owner : TypeName} {d : Descriptor σ} {m : Member} : c.find? owner = some d →
      owner ≠ type → m ∈ d.attached → Assignable c type m
  | items {d : Descriptor σ} : c.find? type = some d → d.traits.collection = true →
      (∀ m ∈ d.members, m.content = false) → Assignable c type (.items type)

namespace Catalogue

theorem mem_members {m : Member} (h : m ∈ c.members type) :
    ∃ d, c.find? type = some d ∧ m ∈ d.members := by
  rw [members] at h
  split at h
  · next d hd => exact ⟨d, hd, h⟩
  · cases h

theorem assignable_of_members {m : Member} (h : m ∈ c.members type) : c.Assignable type m := by
  obtain ⟨d, hd, hm⟩ := mem_members h
  exact .declared hd hm

/-- A label means a member of the type itself, or one that another type attaches. -/
theorem assignable_of_resolveMember {label : String} {m : Member}
    (h : resolveMember c.schema type label = .ok m) : c.Assignable type m := by
  have hown : ∀ {name : String}, c.schema.member? type name = some m → c.Assignable type m :=
    fun hm => assignable_of_members (List.mem_of_find?_eq_some hm)
  rw [resolveMember] at h
  cases hsplit : splitLabel label with
  | none =>
    simp only [hsplit] at h
    split at h
    · cases h
    · split at h
      · next hm =>
        obtain rfl := Except.ok.inj h
        exact hown hm
      · cases h
  | some parts =>
    obtain ⟨owner, name⟩ := parts
    simp only [hsplit] at h
    obtain ⟨owner, -, h⟩ := Answer.bind_eq_ok.1 h
    split at h
    · next hm =>
      obtain rfl := Except.ok.inj h
      by_cases heq : owner = type
      · exact hown (by simpa [heq] using hm)
      · rw [if_neg (by simpa using heq)] at hm
        obtain ⟨d, hd, hm⟩ := Option.bind_eq_some_iff.1 hm
        exact .attached hd heq (List.mem_of_find?_eq_some hm)
    · cases h

theorem no_content {d : Descriptor σ} (hd : c.find? type = some d)
    (h : c.schema.content? type = none) : ∀ m ∈ d.members, m.content = false := by
  have hmembers : c.members type = d.members := by rw [members, hd]
  intro m hm
  have hnone : (c.members type).find? (·.content) = none := h
  rw [hmembers] at hnone
  simpa using List.find?_eq_none.1 hnone m hm

theorem TakesContent.assignable {m : Member} (h : TakesContent c.schema type m)
    {d : Descriptor σ} (hd : c.find? type = some d) : c.Assignable type m := by
  cases h with
  | declared hm => exact assignable_of_members (List.mem_of_find?_eq_some hm)
  | items hnone hcollection =>
    have htraits : c.schema.traits type = d.traits := by
      change c.traits type = d.traits
      rw [traits, hd]
    exact .items hd (htraits ▸ hcollection) (no_content hd hnone)

/-- Whatever an element assigns, an object of its type may be assigned. -/
theorem assignable_of_gives {e : Element} {t : Tree} (h : e.Gives c.schema reading t)
    {d : Descriptor σ} (hd : c.find? t.type = some d) :
    ∀ a ∈ t.assignments, c.Assignable t.type a.member := by
  intro given hgiven
  rcases h.of_mem hgiven with ⟨a, m, hm, rfl⟩ | ⟨n, hn⟩ | ⟨run, arguments, hrun⟩
  · exact assignable_of_resolveMember hm
  · cases hn with
    | text hm _ _ => exact assignable_of_resolveMember hm
    | elements hm _ hes =>
      cases hes
      exact assignable_of_resolveMember hm
    | empty hm _ _ => exact assignable_of_resolveMember hm
  · cases hrun with
    | literal hm _ => exact assignable_of_members (List.mem_of_find?_eq_some hm)
    | elements hm hes =>
      cases hes
      exact TakesContent.assignable hm hd

end Catalogue

/-! ## Nodes -/

/-- A text that is taken is not blank. -/
theorem Markup.Reading.allBlank_shown (reading : Reading) (s : String) :
    Text.allBlank (reading.shown s) = Text.allBlank s := by
  rw [shown]
  split
  · exact Text.allBlank_trim s
  · rfl

/-- A node keeps to the catalogue that its element is read with. -/
structure Catalogue.WellFormed (c : Catalogue σ) (reading : Reading) (e : Element) (t : Tree) :
    Prop where
  registered : ∃ d, c.find? t.type = some d
  members : ∀ a ∈ t.assignments, c.Assignable t.type a.member
  single : ∀ m trees, .children m trees ∈ t.assignments → m.collection = false → trees.length = 1
  empty : ∀ m, .children m [] ∈ t.assignments → m.collection = true
  argument : t.arguments.length ≤ 1 ∧ ∀ s ∈ t.arguments, Text.allBlank s = false
  constructed : t.arguments ≠ [] →
    (∀ d, c.find? t.type = some d → ∀ m ∈ d.members, m.content = false) ∧
    ∃ own given, t.assignments = own ++ given ∧
      List.Forall₂ (AttributeGives c.schema t.type)
        (e.attributes.filter fun a => a.name != reading.nameDirective) own ∧
      List.Forall₂ (PropertyGives c.schema reading t.type)
        (e.children.filter Node.isProperty) given

namespace Catalogue

theorem filter_isProperty_of_gives {ns : List Node} {as : List Assignment}
    (h : List.Forall₂ (PropertyGives c.schema reading type) ns as) :
    ns.filter Node.isProperty = ns := by
  induction h with
  | nil => rfl
  | cons hgives _ ih =>
    rw [List.filter_cons_of_pos (by cases hgives <;> rfl), ih]

theorem filter_isProperty {children pre run post : List Node}
    (hns : significant children = pre ++ run ++ post) (hrun : ∀ n ∈ run, n.isContent = true)
    (hpre : pre.filter Node.isProperty = pre) (hpost : post.filter Node.isProperty = post) :
    children.filter Node.isProperty = pre ++ post := by
  have hnone : run.filter Node.isProperty = [] :=
    List.filter_eq_nil_iff.2 fun n hn => by simp [Node.isProperty_of_isContent (hrun n hn)]
  calc children.filter Node.isProperty = (significant children).filter Node.isProperty := by
        rw [significant, List.filter_filter]
        refine List.filter_congr fun n _ => ?_
        cases haside : n.isAside with
        | true => simp [Node.isProperty_of_isAside haside]
        | false => simp
    _ = pre ++ post := by
        rw [hns, List.filter_append, List.filter_append, hpre, hnone, hpost, List.append_nil]

theorem wellFormed_of_gives {e : Element} {t : Tree} (h : e.Gives c.schema reading t) :
    c.WellFormed reading e t := by
  have hassignable := @assignable_of_gives σ c reading e t h
  have hcounts := h.counts
  cases h with
  | @intro name attributes children pre run post type own before after content arguments hresolve
      hown hns hrun hbefore hcontent hafter =>
    obtain ⟨d, hd⟩ := find?_of_resolve hresolve
    refine ⟨⟨d, hd⟩, hassignable hd, fun m trees ha hone => ?_, fun m ha => ?_, ?_,
      fun harguments => ?_⟩
    · have hcount : m.collection = true ∨ trees.length = 1 := hcounts _ ha
      exact hcount.resolve_left (by simp [hone])
    · have hcount : m.collection = true ∨ ([] : List Tree).length = 1 := hcounts _ ha
      exact hcount.resolve_right (by simp)
    · cases hcontent with
      | argument _ htext =>
        refine ⟨Nat.le_refl 1, fun s hs => ?_⟩
        rw [List.mem_singleton.1 hs, Reading.allBlank_shown, htext]
      | _ => simp [Tree.arguments]
    · cases hcontent with
      | argument hnone _ =>
        refine ⟨fun d' hd' => no_content hd' hnone, own, before ++ after, ?_, hown, ?_⟩
        · simp [Tree.assignments]
        · rw [filter_isProperty hns hrun (filter_isProperty_of_gives hbefore)
            (filter_isProperty_of_gives hafter)]
          exact List.rel_append hbefore hafter
      | _ => exact absurd rfl harguments

/-- Every node of a tree that is read keeps to the catalogue, and is the tree of an element of the
document. -/
theorem tree_wellFormed (c : Catalogue σ) {e : Element} {t : Tree}
    (h : e.tree c.schema reading = .ok t) :
    ∀ u ∈ t.nodes, ∃ inner ∈ e.elements, inner.tree c.schema reading = .ok u ∧
      c.WellFormed reading inner u := by
  intro u hu
  obtain ⟨inner, hinner, htree, hgives⟩ := Element.gives_of_mem h u hu
  exact ⟨inner, hinner, htree, wellFormed_of_gives hgives⟩

end Catalogue

/-- A collection with a title and two items, one of which is constructed from a text. -/
def Widget.titledCollection : Markup.Element where
  type := "Collection"
  attributes := [{ name := "Collection.Title", value := "Mixed" }]
  children := [.element "MyImmutable" [{ name := "Grid.Row", value := "1" }]
      [.text " Hola ", .property "Grid.Column" [.text "2"]],
    .element "TextBlock" [] []]

namespace Catalogue

theorem tree_wellFormed_titledCollection :
    ∃ t, Widget.titledCollection.tree Widget.catalogue.schema {} = .ok t ∧
      ∀ u ∈ t.nodes, ∃ inner ∈ Widget.titledCollection.elements,
        inner.tree Widget.catalogue.schema {} = .ok u ∧ Widget.catalogue.WellFormed {} inner u := by
  have hread : Widget.titledCollection.tree Widget.catalogue.schema {} = .ok _ := rfl
  exact ⟨_, hread, Widget.catalogue.tree_wellFormed hread⟩

end Catalogue
end ObjectMarkup
