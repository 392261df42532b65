/-
Labels and the names of members.

A label with a dot has one last dot, and is the qualified name of the member that it means: what
stands before the last dot is the owner, dots and all, and what stands after it the name.  Without a
dot it is the name of a member of the type itself.  `resolveMember_names` says that the two
directions are inverse, and which labels are none at all.
-/
import Mathlib.Data.List.TakeWhile
import ObjectMarkup.Proofs.WellFormed

namespace ObjectMarkup
namespace Markup

/-! ## The last dot -/

/-- A label with a dot, divided at the last one. -/
theorem exists_last_dot {label : String} (h : '.' ∈ label.toList) :
    ∃ front back, label = front ++ "." ++ back ∧ '.' ∉ back.toList := by
  obtain ⟨back, front, hlabel, hback⟩ := List.eq_append_cons_of_mem (List.mem_reverse.2 h)
  refine ⟨String.ofList front.reverse, String.ofList back.reverse, ?_, by simpa using hback⟩
  have hlist : label.toList = front.reverse ++ '.' :: back.reverse := by
    simpa using congrArg List.reverse hlabel
  rw [← String.toList_inj, hlist]
  simp

theorem splitLabel_undotted {label : String} (h : '.' ∉ label.toList) :
    splitLabel label = none := by
  have hnone : label.toList.reverse.dropWhile (· != '.') = [] :=
    List.dropWhile_eq_nil_iff.2 fun c hc => by
      have hne : c ≠ '.' := fun heq => h (heq ▸ List.mem_reverse.1 hc)
      simpa using hne
  rw [splitLabel]
  simp only [hnone]

/-- A label is divided at its last dot, if there is something on both sides of it. -/
theorem splitLabel_dotted {front back : String} (h : '.' ∉ back.toList) :
    splitLabel (front ++ "." ++ back) =
      if front = "" ∨ back = "" then none else some (front, back) := by
  have hback : ∀ c ∈ back.toList.reverse, (c != '.') = true := fun c hc => by
    have hne : c ≠ '.' := fun heq => h (heq ▸ List.mem_reverse.1 hc)
    simpa using hne
  have hlist : (front ++ "." ++ back).toList.reverse =
      back.toList.reverse ++ '.' :: front.toList.reverse := by simp
  have hname : (front ++ "." ++ back).toList.reverse.takeWhile (· != '.') =
      back.toList.reverse := by
    rw [hlist, List.takeWhile_append_of_pos hback]
    simp
  have howner : (front ++ "." ++ back).toList.reverse.dropWhile (· != '.') =
      '.' :: front.toList.reverse := by
    rw [hlist, List.dropWhile_append_of_pos hback]
    simp
  rw [splitLabel]
  simp only [hname, howner]
  by_cases hempty : front = "" ∨ back = ""
  · rw [if_pos hempty, if_pos (by simpa using hempty)]
  · rw [if_neg hempty, if_neg (by simpa using hempty)]
    simp

/-! ## What labels mean -/

section

variable {schema : Schema} {type : TypeName}

/-- The member that was found, or that there is none of this label. -/
def foundMember (type : TypeName) (label : String) : Option Member → Except Error Member
  | some m => .ok m
  | none => .error (.extraction (.unknownMember type label))

theorem foundMember_eq_ok {label : String} {found : Option Member} {m : Member} :
    foundMember type label found = .ok m ↔ found = some m := by
  cases found <;> simp [foundMember]

theorem foundMember_ne_invalid {label bad : String} {found : Option Member} :
    foundMember type label found ≠ .error (.extraction (.invalidLabel bad)) := by
  cases found <;> simp [foundMember]

theorem resolveMember_undotted {label : String} (h : '.' ∉ label.toList) :
    resolveMember schema type label = foundMember type label (schema.member? type label) := by
  rw [resolveMember, splitLabel_undotted h]
  simp only [List.contains_eq_mem, h, decide_false, Bool.false_eq_true, if_false]
  cases schema.member? type label <;> rfl

/-- Nothing may be missing before or after the last dot. -/
theorem resolveMember_incomplete {front back : String} (hdot : '.' ∉ back.toList)
    (h : front = "" ∨ back = "") :
    resolveMember schema type (front ++ "." ++ back) =
      .error (.extraction (.invalidLabel (front ++ "." ++ back))) := by
  rw [resolveMember, splitLabel_dotted hdot, if_pos h]
  have hmem : '.' ∈ (front ++ "." ++ back).toList := by simp
  simp only [List.contains_eq_mem, hmem, decide_true, if_true]

/-- A member of the type that stands before the last dot, which is one of its own for the type
itself and an attached one for others. -/
theorem resolveMember_dotted {front back : String} (hdot : '.' ∉ back.toList)
    (hfront : front ≠ "") (hback : back ≠ "") :
    resolveMember schema type (front ++ "." ++ back) =
      match schema.resolve front with
      | none => .error (.unknownType front)
      | some owner => foundMember type (front ++ "." ++ back)
        (if owner == type then schema.member? type back else schema.attached? owner back) := by
  have hboth : ¬ (front = "" ∨ back = "") := not_or.2 ⟨hfront, hback⟩
  rw [resolveMember, splitLabel_dotted hdot, if_neg hboth]
  simp only [resolve]
  cases schema.resolve front with
  | none => rfl
  | some owner =>
    simp only [bind, Except.bind]
    generalize (if owner == type then schema.member? type back
      else schema.attached? owner back) = found
    cases found <;> rfl

/-- The labels that are none: the last dot has nothing on one side. -/
theorem resolveMember_invalid_iff {label bad : String} :
    resolveMember schema type label = .error (.extraction (.invalidLabel bad)) ↔
      bad = label ∧ ∃ front back, label = front ++ "." ++ back ∧ '.' ∉ back.toList ∧
        (front = "" ∨ back = "") := by
  constructor
  · intro h
    by_cases hdot : '.' ∈ label.toList
    · obtain ⟨front, back, rfl, hback⟩ := exists_last_dot hdot
      by_cases hempty : front = "" ∨ back = ""
      · rw [resolveMember_incomplete hback hempty] at h
        obtain rfl : front ++ "." ++ back = bad := by simpa using h
        exact ⟨rfl, front, back, rfl, hback, hempty⟩
      · obtain ⟨hfront, hname⟩ := not_or.1 hempty
        rw [resolveMember_dotted hback hfront hname] at h
        split at h
        · cases h
        · exact absurd h foundMember_ne_invalid
    · rw [resolveMember_undotted hdot] at h
      exact absurd h foundMember_ne_invalid
  · rintro ⟨rfl, front, back, rfl, hback, hempty⟩
    exact resolveMember_incomplete hback hempty

end
end Markup

/-! ## Labels in a catalogue -/

open Markup

variable {σ : Type} {c : Catalogue σ} {type : TypeName}

/-- Every type declares the members of its own objects, none of them attached.  What it attaches to
the objects of others is its own, which is so of every description: there is no other way to
attach. -/
structure Catalogue.OwnsMembers (c : Catalogue σ) : Prop where
  own : ∀ d ∈ c.types, ∀ m ∈ d.members, m.owner = d.type ∧ m.isAttached = false
  attached : ∀ d ∈ c.types, ∀ m ∈ d.attached, m.owner = d.type

namespace Catalogue

theorem mem_of_find? {d : Descriptor σ} (h : c.find? type = some d) :
    d ∈ c.types ∧ d.type = type :=
  ⟨List.mem_of_find?_eq_some h, by simpa using List.find?_some h⟩

theorem resolve_of_find? {d : Descriptor σ} (h : c.find? type = some d) :
    c.schema.resolve type = some type := by
  change c.resolve type = some type
  rw [resolve, h, Option.map_some, (mem_of_find? h).2]

theorem resolve_eq {name : String} {owner : TypeName} (h : c.schema.resolve name = some owner) :
    owner = name := by
  obtain ⟨d, hd, rfl⟩ := Option.map_eq_some_iff.1 (show (c.find? name).map (·.type) = _ from h)
  exact (mem_of_find? hd).2

theorem member?_of_find? {d : Descriptor σ} (h : c.find? type = some d) (name : String) :
    c.schema.member? type name = d.members.find? fun m => m.name == name := by
  change (c.members type).find? _ = _
  rw [members, h]

theorem attached?_of_find? {d : Descriptor σ} (h : c.find? type = some d) (name : String) :
    c.schema.attached? type name = d.attached.find? fun m => m.name == name := by
  change c.attached? type name = _
  rw [attached?, h, Option.bind_some]

namespace OwnsMembers

/-- A member that a type declares for its own objects. -/
theorem of_member? (hc : c.OwnsMembers) {name : String} {m : Member}
    (h : c.schema.member? type name = some m) :
    m.owner = type ∧ m.name = name ∧ m.isAttached = false := by
  have hfind : (c.members type).find? (fun m => m.name == name) = some m := h
  have hname : m.name = name := by simpa using List.find?_some hfind
  obtain ⟨d, hd, hmem⟩ := mem_members (List.mem_of_find?_eq_some hfind)
  obtain ⟨hd', rfl⟩ := mem_of_find? hd
  exact ⟨(hc.own d hd' m hmem).1, hname, (hc.own d hd' m hmem).2⟩

/-- A member that a type attaches to the objects of others. -/
theorem of_attached? (hc : c.OwnsMembers) {name : String} {m : Member}
    (h : c.schema.attached? type name = some m) : m.owner = type ∧ m.name = name := by
  obtain ⟨d, hd, hfind⟩ := Option.bind_eq_some_iff.1
    (show (c.find? type).bind (fun d => d.attached.find? fun m => m.name == name) = some m from h)
  obtain ⟨hd', rfl⟩ := mem_of_find? hd
  exact ⟨hc.attached d hd' m (List.mem_of_find?_eq_some hfind), by
    simpa using List.find?_some hfind⟩

/-- The member that a label with a dot means has that label as its qualified name. -/
theorem qualifiedName_of_resolve (hc : c.OwnsMembers) {label : String} {m : Member}
    (hdot : '.' ∈ label.toList) (h : resolveMember c.schema type label = .ok m) :
    m.qualifiedName = label ∧ (m.isAttached = true → m.owner ≠ type) := by
  obtain ⟨front, back, rfl, hback⟩ := exists_last_dot hdot
  by_cases hempty : front = "" ∨ back = ""
  · rw [resolveMember_incomplete hback hempty] at h
    cases h
  · obtain ⟨hfront, hname⟩ := not_or.1 hempty
    rw [resolveMember_dotted hback hfront hname] at h
    split at h
    · cases h
    · next owner howner =>
      obtain rfl : owner = front := resolve_eq howner
      rw [foundMember_eq_ok] at h
      by_cases hown : owner = type
      · subst hown
        rw [if_pos (by simp)] at h
        obtain ⟨ho, hn, hattached⟩ := hc.of_member? h
        refine ⟨by rw [Member.qualifiedName, ho, hn], fun htrue => ?_⟩
        simp [hattached] at htrue
      · rw [if_neg (by simpa using hown)] at h
        obtain ⟨ho, hn⟩ := hc.of_attached? h
        exact ⟨by rw [Member.qualifiedName, ho, hn], fun _ => ho ▸ hown⟩

end OwnsMembers

/-- There is a first member of the name of any. -/
theorem exists_first {ms : List Member} {m : Member} (h : m ∈ ms) :
    ∃ first, ms.find? (fun other => other.name == m.name) = some first :=
  Option.isSome_iff_exists.1 (List.find?_isSome.2 ⟨m, h, by simp⟩)

/-- Labels and names are inverse.  The name of a member that a type declares means on that type the
first one of that name, whether it is qualified or not, and the qualified name of a member that
another type attaches means the first one of that name there.  A label with a dot is the qualified
name of the member it means, and means an attached one only of another type.  No label are those
which have a dot and nothing before or nothing after the last one. -/
theorem resolveMember_names (hc : c.OwnsMembers) (type : TypeName) :
    (∀ d, c.find? type = some d → ∀ m ∈ d.members, m.name ≠ "" → '.' ∉ m.name.toList →
      ∃ first, d.members.find? (fun other => other.name == m.name) = some first ∧
        resolveMember c.schema type m.name = .ok first ∧
        (type ≠ "" → resolveMember c.schema type m.qualifiedName = .ok first)) ∧
    (∀ owner d, c.find? owner = some d → owner ≠ type → owner ≠ "" →
      ∀ m ∈ d.attached, m.name ≠ "" → '.' ∉ m.name.toList →
      ∃ first, d.attached.find? (fun other => other.name == m.name) = some first ∧
        resolveMember c.schema type m.qualifiedName = .ok first) ∧
    (∀ label m, '.' ∈ label.toList → resolveMember c.schema type label = .ok m →
      m.qualifiedName = label ∧ (m.isAttached = true → m.owner ≠ type)) ∧
    (∀ label bad, resolveMember c.schema type label = .error (.extraction (.invalidLabel bad)) ↔
      bad = label ∧ ∃ front back, label = front ++ "." ++ back ∧ '.' ∉ back.toList ∧
        (front = "" ∨ back = "")) := by
  refine ⟨fun d hd m hm hname hdot => ?_, fun owner d hd hother howner m hm hname hdot => ?_,
    fun label m => hc.qualifiedName_of_resolve, fun label bad => resolveMember_invalid_iff⟩
  · obtain ⟨first, hfirst⟩ := exists_first hm
    have hfound := (member?_of_find? hd m.name).trans hfirst
    refine ⟨first, hfirst, ?_, fun htype => ?_⟩
    · rw [resolveMember_undotted hdot, hfound, foundMember]
    · obtain ⟨hmem, rfl⟩ := mem_of_find? hd
      rw [Member.qualifiedName, (hc.own d hmem m hm).1, resolveMember_dotted hdot htype hname,
        resolve_of_find? hd]
      simp only [BEq.rfl, if_true, hfound, foundMember]
  · obtain ⟨first, hfirst⟩ := exists_first hm
    have hfound := (attached?_of_find? hd m.name).trans hfirst
    obtain ⟨hmem, rfl⟩ := mem_of_find? hd
    refine ⟨first, hfirst, ?_⟩
    rw [Member.qualifiedName, hc.attached d hmem m hm, resolveMember_dotted hdot howner hname,
      resolve_of_find? hd]
    simp only [beq_eq_false_iff_ne.2 hother, Bool.false_eq_true, if_false, hfound, foundMember]

end Catalogue

/-- A panel, the name of whose type has a dot, and which declares two members of one name. -/
def Widget.panel : Descriptor Heap where
  type := "ui.Panel"
  members := [stringMember "ui.Panel" "Row", contentMember "ui.Panel",
    { owner := "ui.Panel", name := "Row", collection := true }]

namespace Catalogue

/-- The row of a panel is the first one that it declares, that of a grid is the one that grids
attach, and no label ends with its dot. -/
theorem resolveMember_names_panel :
    (Widget.catalogue.add Widget.panel).OwnsMembers ∧
    resolveMember (Widget.catalogue.add Widget.panel).schema "ui.Panel" "Row" =
      .ok (Widget.stringMember "ui.Panel" "Row") ∧
    resolveMember (Widget.catalogue.add Widget.panel).schema "ui.Panel" "ui.Panel.Row" =
      .ok (Widget.stringMember "ui.Panel" "Row") ∧
    resolveMember (Widget.catalogue.add Widget.panel).schema "ui.Panel" "Grid.Row" =
      .ok (Widget.attachedInteger "Grid" "Row") ∧
    (Widget.attachedInteger "Grid" "Row").qualifiedName = "Grid.Row" ∧
    resolveMember (Widget.catalogue.add Widget.panel).schema "ui.Panel" "ui.Panel." =
      .error (.extraction (.invalidLabel "ui.Panel.")) := by
  have howns : (Widget.catalogue.add Widget.panel).OwnsMembers := ⟨by decide, by decide⟩
  obtain ⟨hown, hattached, hdotted, hinvalid⟩ := resolveMember_names howns "ui.Panel"
  have hpanel : (Widget.catalogue.add Widget.panel).find? "ui.Panel" = some Widget.panel := rfl
  obtain ⟨grid, hgrid, hrow, hfirstRow⟩ : ∃ d : Descriptor Heap,
      (Widget.catalogue.add Widget.panel).find? "Grid" = some d ∧
      Widget.attachedInteger "Grid" "Row" ∈ d.attached ∧
      d.attached.find? (fun other => other.name == "Row") =
        some (Widget.attachedInteger "Grid" "Row") := ⟨_, rfl, by decide, rfl⟩
  obtain ⟨first, hfirst, hname, hqualified⟩ := hown _ hpanel
    { owner := "ui.Panel", name := "Row", collection := true } (by decide) (by decide) (by decide)
  obtain rfl : Widget.stringMember "ui.Panel" "Row" = first := Option.some.inj hfirst
  obtain ⟨attached, hfound, hrowOfGrid⟩ := hattached "Grid" grid hgrid (by decide) (by decide)
    (Widget.attachedInteger "Grid" "Row") hrow (by decide) (by decide)
  obtain rfl : Widget.attachedInteger "Grid" "Row" = attached :=
    Option.some.inj (hfirstRow.symm.trans hfound)
  exact ⟨howns, hname, hqualified (by decide), hrowOfGrid,
    (hdotted "Grid.Row" _ (by decide) hrowOfGrid).1,
    (hinvalid "ui.Panel." "ui.Panel.").2 ⟨rfl, "ui.Panel", "", rfl, by decide, .inr rfl⟩⟩

end Catalogue
end ObjectMarkup
