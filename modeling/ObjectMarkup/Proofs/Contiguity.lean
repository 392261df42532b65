/-
Content stands together.

The children of an element that are not passed over are property elements and content.  Content is
interleaved when some of it stands behind a property element that stands behind other content.  What
was read so far decides the place that dividing has come to (`Place.Reached`), so that it fails at
the first content that comes too late and names the last property element before it
(`divide_decides`).  Where it does not fail, the content is one run between property elements
(`divide_before_ok`).  `describe_contiguous` says this of whole elements.
-/
import Mathlib.Data.List.Forall2
import ObjectMarkup.Markup.Construction
import ObjectMarkup.Proofs.Action
import ObjectMarkup.Widget.Catalogue

namespace ObjectMarkup
namespace Markup

variable {schema : Schema} {reading : Reading} {type : TypeName}

/-! ## Children -/

namespace Node

/-- Elements and text are content; blank text is no text. -/
def isContent : Node → Bool
  | .element .. => true
  | .text s => !Text.allBlank s
  | _ => false

/-- The label of a property element. -/
def label? : Node → Option String
  | .property label _ => some label
  | _ => none

def isProperty (n : Node) : Bool := n.label?.isSome

/-- Blank text and comments are passed over. -/
def isAside : Node → Bool
  | .comment _ => true
  | n => n.isBlankText

theorem isContent_of_isAside {n : Node} (h : n.isAside = true) : n.isContent = false := by
  cases n <;> simp_all [isAside, isContent, isBlankText]

theorem isProperty_of_isAside {n : Node} (h : n.isAside = true) : n.isProperty = false := by
  cases n <;> simp_all [isAside, isProperty, label?, isBlankText]

theorem isAside_of_isContent {n : Node} (h : n.isContent = true) : n.isAside = false := by
  cases n <;> simp_all [isAside, isContent, isBlankText]

theorem isProperty_of_isContent {n : Node} (h : n.isContent = true) : n.isProperty = false := by
  cases n <;> simp_all [isContent, isProperty, label?]

theorem readAll_eq_map (ns : List Node) :
    readAll schema reading ns = ns.map (read schema reading) := by
  induction ns with
  | nil => rfl
  | cons n ns ih => rw [readAll, ih, List.map_cons]

/-- A child is passed over, a property element, or content. -/
theorem kinds (n : Node) :
    n.isAside = true ∨ (∃ label inner, n = .property label inner) ∨ n.isContent = true := by
  cases n with
  | element => exact .inr (.inr rfl)
  | property label inner => exact .inr (.inl ⟨label, inner, rfl⟩)
  | comment => exact .inl rfl
  | text s =>
    cases h : Text.allBlank s with
    | true => exact .inl h
    | false => exact .inr (.inr (by simp [isContent, h]))

end Node

/-! ## One child more -/

/-- There is content. -/
def HasContent (ns : List Node) : Prop :=
  ∃ n ∈ ns, n.isContent = true

/-- There is content, and a property element behind it. -/
def HasEnded (ns : List Node) : Prop :=
  ∃ n p : Node, [n, p].Sublist ns ∧ n.isContent = true ∧ p.isProperty = true

/-- There is content behind a property element that is behind other content. -/
def Interleaved (ns : List Node) : Prop :=
  ∃ n p late : Node, [n, p, late].Sublist ns ∧ n.isContent = true ∧ p.isProperty = true ∧
    late.isContent = true

theorem concat_sublist_concat {α : Type} (xs : List α) {ys : List α} {x y : α} :
    (xs ++ [x]).Sublist (ys ++ [y]) ↔ (xs ++ [x]).Sublist ys ∨ (xs.Sublist ys ∧ x = y) := by
  have hreverse : ∀ zs : List α, (xs ++ [x]).Sublist zs ↔ (x :: xs.reverse).Sublist zs.reverse := by
    intro zs
    rw [← List.reverse_sublist, List.reverse_concat]
  rw [hreverse, hreverse, List.reverse_concat, List.sublist_cons_iff]
  refine or_congr_right ⟨?_, ?_⟩
  · rintro ⟨zs, hzs, hsub⟩
    obtain ⟨rfl, rfl⟩ := List.cons.inj hzs
    exact ⟨List.reverse_sublist.1 hsub, rfl⟩
  · rintro ⟨hsub, rfl⟩
    exact ⟨xs.reverse, rfl, List.reverse_sublist.2 hsub⟩

theorem hasContent_concat {ns : List Node} {n : Node} :
    HasContent (ns ++ [n]) ↔ HasContent ns ∨ n.isContent = true := by
  simp [HasContent, or_and_right, exists_or]

theorem hasEnded_concat {ns : List Node} {n : Node} :
    HasEnded (ns ++ [n]) ↔ HasEnded ns ∨ (HasContent ns ∧ n.isProperty = true) := by
  constructor
  · rintro ⟨x, p, h, hx, hp⟩
    rcases (concat_sublist_concat [x]).1 h with hns | ⟨hns, rfl⟩
    · exact .inl ⟨x, p, hns, hx, hp⟩
    · exact .inr ⟨⟨x, List.singleton_sublist.1 hns, hx⟩, hp⟩
  · rintro (⟨x, p, h, hx, hp⟩ | ⟨⟨x, h, hx⟩, hn⟩)
    · exact ⟨x, p, h.trans (List.sublist_append_left ns [n]), hx, hp⟩
    · exact ⟨x, n, (concat_sublist_concat [x]).2
        (.inr ⟨List.singleton_sublist.2 h, rfl⟩), hx, hn⟩

theorem interleaved_concat {ns : List Node} {n : Node} :
    Interleaved (ns ++ [n]) ↔ Interleaved ns ∨ (HasEnded ns ∧ n.isContent = true) := by
  constructor
  · rintro ⟨x, p, late, h, hx, hp, hlate⟩
    rcases (concat_sublist_concat [x, p]).1 h with hns | ⟨hns, rfl⟩
    · exact .inl ⟨x, p, late, hns, hx, hp, hlate⟩
    · exact .inr ⟨⟨x, p, hns, hx, hp⟩, hlate⟩
  · rintro (⟨x, p, late, h, hx, hp, hlate⟩ | ⟨⟨x, p, h, hx, hp⟩, hn⟩)
    · exact ⟨x, p, late, h.trans (List.sublist_append_left ns [n]), hx, hp, hlate⟩
    · exact ⟨x, p, n, (concat_sublist_concat [x, p]).2 (.inr ⟨h, rfl⟩), hx, hp, hn⟩

theorem Interleaved.append {ns : List Node} (h : Interleaved ns) (more : List Node) :
    Interleaved (ns ++ more) := by
  obtain ⟨x, p, late, h, hx, hp, hlate⟩ := h
  exact ⟨x, p, late, h.trans (List.sublist_append_left ns more), hx, hp, hlate⟩

theorem HasEnded.hasContent {ns : List Node} (h : HasEnded ns) : HasContent ns := by
  obtain ⟨x, p, h, hx, -⟩ := h
  exact ⟨x, h.subset List.mem_cons_self, hx⟩

theorem Interleaved.hasEnded {ns : List Node} (h : Interleaved ns) : HasEnded ns := by
  obtain ⟨x, p, late, h, hx, hp, -⟩ := h
  exact ⟨x, p, (by simp : [x, p].Sublist [x, p, late]).trans h, hx, hp⟩

/-! ## Late content -/

/-- The label of the last property element. -/
def lastLabel (ns : List Node) : Option String :=
  (ns.filterMap Node.label?).getLast?

/-- The first content that comes too late, and the label of the last property element before it. -/
def BrokenAt (ns : List Node) (label : String) : Prop :=
  ∃ front late back, ns = front ++ late :: back ∧ ¬ Interleaved front ∧
    Interleaved (front ++ [late]) ∧ lastLabel front = some label

theorem BrokenAt.interleaved {ns : List Node} {label : String} (h : BrokenAt ns label) :
    Interleaved ns := by
  obtain ⟨front, late, back, rfl, -, hlate, -⟩ := h
  simpa using hlate.append back

theorem BrokenAt.unique {ns : List Node} {label label' : String} (h : BrokenAt ns label)
    (h' : BrokenAt ns label') : label = label' := by
  obtain ⟨front, late, back, rfl, hfront, hlate, hlabel⟩ := h
  obtain ⟨front', late', back', heq, hfront', hlate', hlabel'⟩ := h'
  -- if one of the two stood further on, it would have the other one before it
  rcases List.append_eq_append_iff.1 heq with ⟨more, hmore, hrest⟩ | ⟨more, hmore, hrest⟩
  · cases more with
    | nil =>
      rw [hmore, List.append_nil, hlabel] at hlabel'
      exact Option.some.inj hlabel'
    | cons n more =>
      obtain ⟨rfl, -⟩ := List.cons.inj hrest
      exact absurd (hmore ▸ by simpa using hlate.append more) hfront'
  · cases more with
    | nil =>
      rw [hmore, List.append_nil, hlabel'] at hlabel
      exact (Option.some.inj hlabel).symm
    | cons n more =>
      obtain ⟨rfl, -⟩ := List.cons.inj hrest
      exact absurd (hmore ▸ by simpa using hlate'.append more) hfront

/-! ## The place that dividing has come to -/

/-- Dividing the children `done` has come to this place. -/
def Place.Reached (done : List Node) : Place → Prop
  | .before => ¬ HasContent done
  | .inside => HasContent done ∧ ¬ HasEnded done
  | .after last => HasEnded done ∧ ¬ Interleaved done ∧ lastLabel done = some last

namespace Place.Reached

variable {done : List Node} {place : Place} {n : Node}

theorem not_interleaved (h : place.Reached done) : ¬ Interleaved done := by
  cases place with
  | before => exact fun hi => h hi.hasEnded.hasContent
  | inside => exact fun hi => h.2 hi.hasEnded
  | after last => exact h.2.1

theorem aside (h : place.Reached done) (hn : n.isAside = true) : place.Reached (done ++ [n]) := by
  have hcontent := Node.isContent_of_isAside hn
  have hproperty := Node.isProperty_of_isAside hn
  have hlabel : lastLabel (done ++ [n]) = lastLabel done := by
    have hnone : n.label? = none := by simpa [Node.isProperty] using hproperty
    simp [lastLabel, hnone]
  cases place with
  | before => simpa [Reached, hasContent_concat, hcontent] using h
  | inside => simpa [Reached, hasContent_concat, hasEnded_concat, hcontent, hproperty] using h
  | after last =>
    simpa [Reached, hasEnded_concat, interleaved_concat, hcontent, hproperty, hlabel] using h

theorem property {label : String} {inner : List Node} (h : place.Reached done) :
    (place.afterProperty label).Reached (done ++ [.property label inner]) := by
  have hcontent : (Node.property label inner).isContent = false := rfl
  have hproperty : (Node.property label inner).isProperty = true := rfl
  have hlabel : lastLabel (done ++ [.property label inner]) = some label := by
    simp [lastLabel, Node.label?]
  have hnot := h.not_interleaved
  cases place with
  | before => simpa [Reached, afterProperty, hasContent_concat, hcontent] using h
  | inside =>
    simp [Reached, afterProperty, hasEnded_concat, interleaved_concat, hcontent, hproperty, hlabel,
      h.1, hnot]
  | after last =>
    simp [Reached, afterProperty, hasEnded_concat, interleaved_concat, hcontent, hlabel, h.1, hnot]

theorem content (hended : ¬ HasEnded done) (hn : n.isContent = true) :
    Reached (done ++ [n]) .inside := by
  simp [Reached, hasContent_concat, hasEnded_concat, hn, Node.isProperty_of_isContent hn, hended]

end Place.Reached

/-! ## Dividing -/

theorem divide_aside {n : Node} (h : n.isAside = true) (place : Place) (cs : List Child) :
    divide schema reading type place (n.read schema reading :: cs) =
      divide schema reading type place cs := by
  cases n with
  | element => cases h
  | property => cases h
  | comment => rw [Node.read, divide]
  | text s =>
    have h : Text.allBlank s = true := h
    rw [Node.read, divide.eq_def]
    simp [Child.isBlankText, h]

theorem divide_property (place : Place) (label : String) (inner cs : List Child) :
    divide schema reading type place (.property label inner :: cs) = (do
      let a ← assignProperty schema reading type label inner
      let d ← divide schema reading type (place.afterProperty label) cs
      return { d with slots := .assignment a :: d.slots }) := by
  rw [divide]

theorem divide_content {n : Node} (h : n.isContent = true) (place : Place) (cs : List Child) :
    divide schema reading type place (n.read schema reading :: cs) = (match place with
      | .before => do
        let d ← divide schema reading type .inside cs
        return { slots := .content :: d.slots, content := n.read schema reading :: d.content }
      | .inside => do
        let d ← divide schema reading type .inside cs
        return { d with content := n.read schema reading :: d.content }
      | .after last => .error (.extraction (.contentContiguity type last))) := by
  cases n with
  | element => rfl
  | property => cases h
  | comment => cases h
  | text s =>
    have h : Text.allBlank s = false := by simpa [Node.isContent] using h
    rw [Node.read, divide.eq_def]
    cases place <;> simp [Child.isBlankText, h]

/-- What dividing children comes to: they are divided, or one of their property elements fails, or
content comes too late. -/
inductive Decided (type : TypeName) (fails : Error → Prop) (ns : List Node) :
    Except Error Division → Prop
  | divided {d : Division} : ¬ Interleaved ns → Decided type fails ns (.ok d)
  | refused {e : Error} : fails e → Decided type fails ns (.error e)
  | broken {label : String} : BrokenAt ns label →
      Decided type fails ns (.error (.extraction (.contentContiguity type label)))

theorem Decided.map {fails : Error → Prop} {ns : List Node} {x : Except Error Division}
    (h : Decided type fails ns x) (f : Division → Division) :
    Decided type fails ns (do return f (← x)) := by
  cases h with
  | divided h => exact .divided h
  | refused h => exact .refused h
  | broken h => exact .broken h

/-- Dividing the children after those that were read decides whether all of them are contiguous. -/
theorem divide_decided {fails : Error → Prop} {place : Place} {done rest : List Node}
    (hreached : place.Reached done)
    (hfails : ∀ label inner e, .property label inner ∈ rest →
      assignProperty schema reading type label (Node.readAll schema reading inner) = .error e →
      fails e) :
    Decided type fails (done ++ rest)
      (divide schema reading type place (Node.readAll schema reading rest)) := by
  induction rest generalizing place done with
  | nil =>
    rw [List.append_nil, Node.readAll, divide]
    exact .divided hreached.not_interleaved
  | cons n rest ih =>
    have hrest : ∀ {place' : Place}, place'.Reached (done ++ [n]) →
        Decided type fails (done ++ n :: rest)
          (divide schema reading type place' (Node.readAll schema reading rest)) := by
      intro place' h
      simpa using ih h fun label inner e hmem => hfails label inner e (List.mem_cons_of_mem n hmem)
    rw [Node.readAll]
    rcases n.kinds with haside | ⟨label, inner, rfl⟩ | hcontent
    · rw [divide_aside haside]
      exact hrest (hreached.aside haside)
    · rw [Node.read, divide_property]
      cases hassign : assignProperty schema reading type label (Node.readAll schema reading inner)
        with
      | error e => exact .refused (hfails label inner e List.mem_cons_self hassign)
      | ok a => exact (hrest hreached.property).map _
    · rw [divide_content hcontent]
      cases place with
      | before =>
        exact (hrest (.content (fun h => hreached h.hasContent) hcontent)).map _
      | inside => exact (hrest (.content hreached.2 hcontent)).map _
      | after last =>
        exact .broken ⟨done, n, rest, rfl, hreached.2.1,
          interleaved_concat.2 (.inr ⟨hreached.1, hcontent⟩), hreached.2.2⟩

/-! ## One run -/

/-- A property element makes an assignment. -/
def Node.Makes (schema : Schema) (reading : Reading) (type : TypeName) (n : Node)
    (a : Assignment) : Prop :=
  ∃ label inner, n = .property label inner ∧
    assignProperty schema reading type label (Node.readAll schema reading inner) = .ok a

/-- The children that are not passed over. -/
def significant (ns : List Node) : List Node :=
  ns.filter fun n => !n.isAside

/-- The place of a run of content, if there is content. -/
def contentSlot (run : List Node) : List Slot :=
  if run.isEmpty then [] else [.content]

theorem significant_cons_of_aside {n : Node} (h : n.isAside = true) (ns : List Node) :
    significant (n :: ns) = significant ns := by
  simp [significant, h]

theorem significant_cons_property (label : String) (inner ns : List Node) :
    significant (.property label inner :: ns) = .property label inner :: significant ns := by
  simp [significant, Node.isAside, Node.isBlankText]

theorem significant_cons_of_content {n : Node} (h : n.isContent = true) (ns : List Node) :
    significant (n :: ns) = n :: significant ns := by
  simp [significant, Node.isAside_of_isContent h]

theorem divide_property_ok {place : Place} {label : String} {inner : List Node} {cs : List Child}
    {d : Division}
    (h : divide schema reading type place
      ((Node.property label inner).read schema reading :: cs) = .ok d) :
    ∃ a d', (Node.property label inner).Makes schema reading type a ∧
      divide schema reading type (place.afterProperty label) cs = .ok d' ∧
      d = { d' with slots := .assignment a :: d'.slots } := by
  rw [Node.read, divide_property] at h
  obtain ⟨a, hassign, h⟩ := Answer.bind_eq_ok.1 h
  obtain ⟨d', hd', h⟩ := Answer.bind_eq_ok.1 h
  exact ⟨a, d', ⟨label, inner, rfl, hassign⟩, hd', (Answer.pure_eq_ok.1 h).symm⟩

/-- After the content there are property elements only. -/
theorem divide_after_ok {last : String} {ns : List Node} {d : Division}
    (h : divide schema reading type (.after last) (Node.readAll schema reading ns) = .ok d) :
    ∃ as, List.Forall₂ (Node.Makes schema reading type) (significant ns) as ∧
      d = { slots := as.map .assignment } := by
  induction ns generalizing last d with
  | nil =>
    rw [Node.readAll, divide] at h
    exact ⟨[], .nil, (Except.ok.inj h).symm⟩
  | cons n ns ih =>
    rw [Node.readAll] at h
    rcases n.kinds with haside | ⟨label, inner, rfl⟩ | hcontent
    · rw [divide_aside haside] at h
      rw [significant_cons_of_aside haside]
      exact ih h
    · obtain ⟨a, d', hmakes, hd', rfl⟩ := divide_property_ok h
      obtain ⟨as, has, rfl⟩ := ih hd'
      rw [significant_cons_property]
      exact ⟨a :: as, .cons hmakes has, rfl⟩
    · rw [divide_content hcontent] at h
      cases h

/-- In the content there is more of it, and then property elements. -/
theorem divide_inside_ok {ns : List Node} {d : Division}
    (h : divide schema reading type .inside (Node.readAll schema reading ns) = .ok d) :
    ∃ run post as, significant ns = run ++ post ∧ (∀ n ∈ run, n.isContent = true) ∧
      List.Forall₂ (Node.Makes schema reading type) post as ∧
      d = { slots := as.map .assignment, content := Node.readAll schema reading run } := by
  induction ns generalizing d with
  | nil =>
    rw [Node.readAll, divide] at h
    exact ⟨[], [], [], rfl, by simp, .nil, (Except.ok.inj h).symm⟩
  | cons n ns ih =>
    rw [Node.readAll] at h
    rcases n.kinds with haside | ⟨label, inner, rfl⟩ | hcontent
    · rw [divide_aside haside] at h
      rw [significant_cons_of_aside haside]
      exact ih h
    · obtain ⟨a, d', hmakes, hd', rfl⟩ := divide_property_ok h
      obtain ⟨as, has, rfl⟩ := divide_after_ok hd'
      rw [significant_cons_property]
      exact ⟨[], _, a :: as, rfl, by simp, .cons hmakes has, rfl⟩
    · rw [divide_content hcontent] at h
      obtain ⟨d', hd', h⟩ := Answer.bind_eq_ok.1 h
      obtain rfl := Answer.pure_eq_ok.1 h
      obtain ⟨run, post, as, hns, hrun, has, rfl⟩ := ih hd'
      rw [significant_cons_of_content hcontent, hns]
      exact ⟨n :: run, post, as, rfl, List.forall_mem_cons.2 ⟨hcontent, hrun⟩, has, rfl⟩

/-- Children that are divided are property elements, a run of content, and property elements. -/
theorem divide_before_ok {ns : List Node} {d : Division}
    (h : divide schema reading type .before (Node.readAll schema reading ns) = .ok d) :
    ∃ pre run post as bs, significant ns = pre ++ run ++ post ∧
      (∀ n ∈ run, n.isContent = true) ∧
      List.Forall₂ (Node.Makes schema reading type) pre as ∧
      List.Forall₂ (Node.Makes schema reading type) post bs ∧
      d = { slots := as.map .assignment ++ contentSlot run ++ bs.map .assignment,
            content := Node.readAll schema reading run } := by
  induction ns generalizing d with
  | nil =>
    rw [Node.readAll, divide] at h
    exact ⟨[], [], [], [], [], rfl, by simp, .nil, .nil, (Except.ok.inj h).symm⟩
  | cons n ns ih =>
    rw [Node.readAll] at h
    rcases n.kinds with haside | ⟨label, inner, rfl⟩ | hcontent
    · rw [divide_aside haside] at h
      rw [significant_cons_of_aside haside]
      exact ih h
    · obtain ⟨a, d', hmakes, hd', rfl⟩ := divide_property_ok h
      obtain ⟨pre, run, post, as, bs, hns, hrun, has, hbs, rfl⟩ := ih hd'
      rw [significant_cons_property, hns]
      exact ⟨.property label inner :: pre, run, post, a :: as, bs, rfl, hrun,
        .cons hmakes has, hbs, rfl⟩
    · rw [divide_content hcontent] at h
      obtain ⟨d', hd', h⟩ := Answer.bind_eq_ok.1 h
      obtain rfl := Answer.pure_eq_ok.1 h
      obtain ⟨run, post, as, hns, hrun, has, rfl⟩ := divide_inside_ok hd'
      rw [significant_cons_of_content hcontent, hns]
      exact ⟨[], n :: run, post, [], as, rfl, List.forall_mem_cons.2 ⟨hcontent, hrun⟩, .nil, has,
        rfl⟩

theorem Node.Makes.isContent {n : Node} {a : Assignment} (h : n.Makes schema reading type a) :
    n.isContent = false := by
  obtain ⟨label, inner, rfl, -⟩ := h
  rfl

theorem filter_isContent_of_makes {ns : List Node} {as : List Assignment}
    (h : List.Forall₂ (Node.Makes schema reading type) ns as) : ns.filter Node.isContent = [] := by
  induction h with
  | nil => rfl
  | cons h _ ih => rw [List.filter_cons_of_neg (by simp [h.isContent]), ih]

theorem filter_significant (ns : List Node) :
    (significant ns).filter Node.isContent = ns.filter Node.isContent := by
  rw [significant, List.filter_filter]
  refine List.filter_congr fun n _ => ?_
  cases hcontent : n.isContent with
  | true => simp [Node.isAside_of_isContent hcontent]
  | false => simp

/-- The one run of divided children is all their content. -/
theorem filter_isContent_of_divided {ns pre run post : List Node} {as bs : List Assignment}
    (hns : significant ns = pre ++ run ++ post) (hrun : ∀ n ∈ run, n.isContent = true)
    (has : List.Forall₂ (Node.Makes schema reading type) pre as)
    (hbs : List.Forall₂ (Node.Makes schema reading type) post bs) :
    ns.filter Node.isContent = run := by
  rw [← filter_significant, hns, List.filter_append, List.filter_append,
    filter_isContent_of_makes has, filter_isContent_of_makes hbs, List.filter_eq_self.2 hrun,
    List.nil_append, List.append_nil]

/-! ## Whole elements -/

/-- The description that slots make with what the content amounts to. -/
def Payload.describe (schema : Schema) (type : TypeName) (slots : List Slot) :
    Payload → Except Error Description
  | .empty => .ok { assignments := fill none slots }
  | .text s =>
    match schema.content? type with
    | some m => .ok { assignments := fill (some (.literal m s)) slots }
    | none => .ok { assignments := fill none slots, arguments := [s] }
  | .elements trees =>
    (assignContent schema type trees).map fun a => { assignments := fill (some a) slots }

theorem describe_eq (attributes : List Attribute) (children : List Child) :
    describe schema reading type attributes children = (do
      let own ← attributeSlots schema reading type attributes
      let d ← divide schema reading type .before children
      let content ← payload reading type d.content
      content.describe schema type (own ++ d.slots)) := by
  rw [describe]
  refine bind_congr fun own => bind_congr fun d => bind_congr fun content => ?_
  cases content with
  | empty => rfl
  | text s =>
    rw [Payload.describe]
    cases schema.content? type <;> rfl
  | elements trees =>
    change (assignContent schema type trees >>= fun a =>
      pure ({ assignments := fill (some a) (own ++ d.slots) } : Description)) = _
    rw [Payload.describe]
    cases assignContent schema type trees <;> rfl

theorem attributeSlots_of_resolves {attributes : List Attribute}
    (h : ∀ a ∈ attributes, a.name ≠ reading.nameDirective →
      ∃ m, resolveMember schema type a.name = .ok m) :
    ∃ own, attributeSlots schema reading type attributes = .ok own := by
  induction attributes with
  | nil => exact ⟨[], rfl⟩
  | cons a attributes ih =>
    obtain ⟨own, hown⟩ := ih fun b hb => h b (List.mem_cons_of_mem a hb)
    rw [attributeSlots]
    split
    · exact ⟨own, hown⟩
    · next hname =>
      obtain ⟨m, hm⟩ := h a List.mem_cons_self (by simpa using hname)
      exact ⟨.assignment (.literal m a.value) :: own, by rw [hm, hown]; rfl⟩

/-! ### What can fail once the children are divided -/

theorem collect_ok {ts : List (Except Error Tree)} {trees : List Tree}
    (h : collect ts = .ok trees) : ts = trees.map .ok := by
  induction ts generalizing trees with
  | nil =>
    obtain rfl : [] = trees := Except.ok.inj h
    rfl
  | cons t ts ih =>
    simp only [collect, Answer.bind_eq_ok, Answer.pure_eq_ok] at h
    obtain ⟨t', rfl, rest, hrest, rfl⟩ := h
    rw [ih hrest, List.map_cons]

theorem collect_map_ok (trees : List Tree) : collect (trees.map .ok) = .ok trees := by
  induction trees with
  | nil => rfl
  | cons t trees ih => simp [collect, ih]

theorem assignElements_ok {m : Member} {ts : List (Except Error Tree)} {a : Assignment}
    (h : assignElements schema type m ts = .ok a) :
    ∃ trees, a = .children m trees ∧ ts = trees.map .ok ∧
      (schema.takesMany m = true ∨ ts.length ≤ 1) := by
  rw [assignElements] at h
  split at h
  · cases h
  · next hcount =>
    obtain ⟨trees, htrees, rfl⟩ := Answer.map_eq_ok.1 h
    refine ⟨trees, rfl, collect_ok htrees, ?_⟩
    cases hmany : schema.takesMany m with
    | true => exact .inl rfl
    | false => exact .inr (by simpa [hmany] using hcount)

theorem assignElements_error {m : Member} {trees : List Tree} {e : Error}
    (h : assignElements schema type m (trees.map .ok) = .error e) :
    e = .extraction (.ambiguousContent type trees.length) := by
  rw [assignElements] at h
  split at h
  · rw [← Except.error.inj h, List.length_map]
  · rw [collect_map_ok] at h
    cases h

theorem assignContent_error {trees : List Tree} {e : Error}
    (h : assignContent schema type (trees.map .ok) = .error e) :
    e = .extraction (.noContentMember type) ∨
      e = .extraction (.ambiguousContent type trees.length) := by
  rw [assignContent] at h
  split at h
  · exact .inr (assignElements_error h)
  · split at h
    · exact .inr (assignElements_error h)
    · exact .inl (Except.error.inj h).symm

theorem payload_elements {cs : List Child} {ts : List (Except Error Tree)}
    (h : payload reading type cs = .ok (.elements ts)) : ts = Child.elementsOf cs ∧ ts ≠ [] := by
  simp only [payload] at h
  cases ht : Text.allBlank (Child.textOf cs) <;>
    cases he : (Child.elementsOf cs).isEmpty <;> simp [ht, he] at h
  subst h
  exact ⟨rfl, by simpa using he⟩

theorem payload_error {cs : List Child} {e : Error} (h : payload reading type cs = .error e) :
    e = .extraction (.mixedContent type) := by
  simp only [payload] at h
  split at h
  · exact (Except.error.inj h).symm
  all_goals cases h

/-- The element that a child is. -/
def Node.element? : Node → Option Element
  | .element type attributes children => some { type, attributes, children }
  | _ => none

theorem elementsOf_readAll (ns : List Node) :
    Child.elementsOf (Node.readAll schema reading ns) =
      (ns.filterMap Node.element?).map (Element.tree schema reading) := by
  induction ns with
  | nil => rfl
  | cons n ns ih =>
    cases n <;> simp [Node.readAll, Node.read, Child.elementsOf, List.filterMap_cons, Node.element?,
      Element.tree, ih]

/-- The elements of a list whose trees are all read. -/
theorem exists_trees {es : List Element} (h : ∀ e ∈ es, ∃ t, e.tree schema reading = .ok t) :
    ∃ trees : List Tree, es.map (Element.tree schema reading) = trees.map .ok := by
  induction es with
  | nil => exact ⟨[], rfl⟩
  | cons e es ih =>
    obtain ⟨t, ht⟩ := h e List.mem_cons_self
    obtain ⟨trees, htrees⟩ := ih fun e' he' => h e' (List.mem_cons_of_mem e he')
    exact ⟨t :: trees, by rw [List.map_cons, List.map_cons, ht, htrees]⟩

/-- Once children whose elements are all read are divided, nothing more is said of their places. -/
theorem ne_contentContiguity {run : List Node} {slots : List Slot} {e : Error}
    (helements : ∀ child : Element, child.toNode ∈ run → ∃ t, child.tree schema reading = .ok t)
    (h : (payload reading type (Node.readAll schema reading run) >>= fun content =>
      content.describe schema type slots) = .error e) (type' : TypeName) (label : String) :
    e ≠ .extraction (.contentContiguity type' label) := by
  rintro rfl
  rcases Answer.bind_eq_error.1 h with hpayload | ⟨content, hcontent, h⟩
  · cases payload_error hpayload
  · cases content with
    | empty => cases h
    | text s =>
      rw [Payload.describe] at h
      split at h <;> cases h
    | elements ts =>
      obtain ⟨rfl, -⟩ := payload_elements hcontent
      have hread : ∀ child ∈ run.filterMap Node.element?,
          ∃ t, child.tree schema reading = .ok t := by
        intro child hchild
        obtain ⟨n, hn, hchild⟩ := List.mem_filterMap.1 hchild
        cases n with
        | element name attributes children =>
          obtain rfl := Option.some.inj hchild
          exact helements _ hn
        | _ => cases hchild
      obtain ⟨trees, htrees⟩ := exists_trees hread
      rw [Payload.describe, elementsOf_readAll, htrees] at h
      cases hassign : assignContent schema type (trees.map .ok) with
      | ok a =>
        rw [hassign] at h
        cases h
      | error e =>
        rw [hassign] at h
        obtain rfl := Except.error.inj h
        rcases assignContent_error hassign with h | h <;> cases h

/-- Where the attributes, the property elements and the child elements of an element are read, it
fails for content that does not stand together just when its content is interleaved.  The error
names the last property element before the first content that comes too late.  Where it does not
fail so, all content makes up one run. -/
theorem describe_contiguous {e : Element}
    (hattributes : ∀ a ∈ e.attributes, a.name ≠ reading.nameDirective →
      ∃ m, resolveMember schema type a.name = .ok m)
    (hproperties : ∀ label inner, Node.property label inner ∈ e.children →
      ∃ a, assignProperty schema reading type label (Node.readAll schema reading inner) = .ok a)
    (helements : ∀ child : Element, child.toNode ∈ e.children →
      ∃ t, child.tree schema reading = .ok t) :
    ((∃ type' label, describe schema reading type e.attributes
        (Node.readAll schema reading e.children) =
          .error (.extraction (.contentContiguity type' label))) ↔ Interleaved e.children) ∧
    (∀ type' label, describe schema reading type e.attributes
        (Node.readAll schema reading e.children) =
          .error (.extraction (.contentContiguity type' label)) ↔
      type' = type ∧ BrokenAt e.children label) ∧
    (¬ Interleaved e.children → ∃ pre post slots,
      significant e.children = pre ++ e.children.filter Node.isContent ++ post ∧
      describe schema reading type e.attributes (Node.readAll schema reading e.children) =
        payload reading type (Node.readAll schema reading (e.children.filter Node.isContent)) >>=
          fun content => content.describe schema type slots) := by
  obtain ⟨own, hown⟩ := attributeSlots_of_resolves hattributes
  have hdecided : Decided type (fun _ => False) ([] ++ e.children)
      (divide schema reading type .before (Node.readAll schema reading e.children)) := by
    have hreached : Place.Reached [] .before := by simp [Place.Reached, HasContent]
    refine divide_decided hreached fun label inner err hmem herror => ?_
    obtain ⟨a, ha⟩ := hproperties label inner hmem
    rw [ha] at herror
    cases herror
  rw [List.nil_append] at hdecided
  rw [describe_eq, hown]
  cases hdivide : divide schema reading type .before (Node.readAll schema reading e.children) with
  | error err =>
    rw [hdivide] at hdecided
    cases hdecided with
    | refused h => exact h.elim
    | broken hbroken =>
      refine ⟨⟨fun _ => hbroken.interleaved, fun _ => ⟨_, _, rfl⟩⟩,
        fun type' label' => ⟨fun h => ?_, ?_⟩, fun h => absurd hbroken.interleaved h⟩
      · cases h
        exact ⟨rfl, hbroken⟩
      · rintro ⟨rfl, hbroken'⟩
        rw [hbroken.unique hbroken']
        rfl
  | ok d =>
    rw [hdivide] at hdecided
    cases hdecided with
    | divided hnot =>
      obtain ⟨pre, run, post, as, bs, hns, hrun, has, hbs, rfl⟩ := divide_before_ok hdivide
      have hcontent := filter_isContent_of_divided hns hrun has hbs
      have hread : ∀ child : Element, child.toNode ∈ run →
          ∃ t, child.tree schema reading = .ok t := by
        intro child hchild
        rw [← hcontent] at hchild
        exact helements child (List.mem_filter.1 hchild).1
      refine ⟨⟨fun ⟨type', label, h⟩ => ?_, fun h => absurd h hnot⟩,
        fun type' label => ⟨fun h => ?_, fun h => absurd h.2.interleaved hnot⟩, fun _ => ?_⟩
      · exact absurd rfl (ne_contentContiguity hread h type' label)
      · exact absurd rfl (ne_contentContiguity hread h type' label)
      · rw [hcontent]
        exact ⟨pre, post, own ++ (as.map .assignment ++ contentSlot run ++ bs.map .assignment), hns,
          rfl⟩

end Markup

/-- An items control with items before and after its header and its row. -/
def Widget.partedItems : Markup.Element where
  type := "ItemsControl"
  attributes := [{ name := "Name", value := "list" }]
  children := [.text "\n", .element "TextBlock" [] [], .property "ItemsControl.HeaderText"
    [.text "Hola"], .comment "spacer", .property "Grid.Row" [.text "1"], .text " ",
    .element "TextBlock" [] [.text "late"], .property "Grid.Column" [.text "2"],
    .element "TextBlock" [] []]

namespace Markup

theorem describe_contiguous_partedItems :
    Interleaved Widget.partedItems.children ∧ BrokenAt Widget.partedItems.children "Grid.Row" := by
  have hfails : describe Widget.catalogue.schema {} "ItemsControl" Widget.partedItems.attributes
      (Node.readAll Widget.catalogue.schema {} Widget.partedItems.children) =
        .error (.extraction (.contentContiguity "ItemsControl" "Grid.Row")) := rfl
  have h := @describe_contiguous Widget.catalogue.schema {} "ItemsControl" Widget.partedItems
    (by simp [Widget.partedItems]) ?_ ?_
  · exact ⟨h.1.1 ⟨_, _, hfails⟩, ((h.2.1 _ _).1 hfails).2⟩
  · intro label inner hmem
    have hmem : (label = "ItemsControl.HeaderText" ∧ inner = [.text "Hola"]) ∨
        (label = "Grid.Row" ∧ inner = [.text "1"]) ∨
        (label = "Grid.Column" ∧ inner = [.text "2"]) := by simpa [Widget.partedItems] using hmem
    rcases hmem with ⟨rfl, rfl⟩ | ⟨rfl, rfl⟩ | ⟨rfl, rfl⟩ <;> exact ⟨_, rfl⟩
  · rintro ⟨name, attributes, children⟩ hmem
    have hmem : (name = "TextBlock" ∧ attributes = [] ∧ children = []) ∨
        (name = "TextBlock" ∧ attributes = [] ∧ children = [.text "late"]) ∨
        (name = "TextBlock" ∧ attributes = [] ∧ children = []) := by
      simpa [Widget.partedItems, Element.toNode] using hmem
    rcases hmem with ⟨rfl, rfl, rfl⟩ | ⟨rfl, rfl, rfl⟩ | ⟨rfl, rfl, rfl⟩ <;> exact ⟨_, rfl⟩

end Markup
end ObjectMarkup
