/-
What the elements of a document become.

An element that is read becomes one node (`Element.Gives`): its attributes, but for the one that
names it, become literals, its property elements become one assignment each, and its content becomes
one assignment that stands where the content stands, or a text to construct the object from.  The
elements of a document, each before those inside it, become the nodes of the tree in the same order
(`Element.nodes_eq`), so that none is lost and none is added.
-/
import ObjectMarkup.Proofs.Contiguity
import ObjectMarkup.Proofs.Reordering

namespace ObjectMarkup
namespace Markup

variable {schema : Schema} {reading : Reading} {type : TypeName}

/-! ## The elements of a document -/

mutual

/-- The elements of a node, each before those inside it, as they are written. -/
def Node.elements : Node → List Element
  | .element type attributes children =>
    { type, attributes, children } :: Node.elementsAll children
  | .property _ children => Node.elementsAll children
  | .text _ => []
  | .comment _ => []

def Node.elementsAll : List Node → List Element
  | [] => []
  | n :: ns => n.elements ++ Node.elementsAll ns

end

def Element.elements (e : Element) : List Element := e.toNode.elements

theorem Element.elements_eq (e : Element) : e.elements = e :: Node.elementsAll e.children := by
  rw [elements, toNode, Node.elements]

namespace Node

theorem elementsAll_eq_flatMap (ns : List Node) : elementsAll ns = ns.flatMap elements := by
  induction ns with
  | nil => rfl
  | cons n ns ih => rw [elementsAll, ih, List.flatMap_cons]

theorem elementsAll_append (ns ms : List Node) :
    elementsAll (ns ++ ms) = elementsAll ns ++ elementsAll ms := by
  simp [elementsAll_eq_flatMap]

theorem elementsAll_filter {p : Node → Bool} {ns : List Node}
    (h : ∀ n ∈ ns, p n = false → n.elements = []) :
    elementsAll (ns.filter p) = elementsAll ns := by
  induction ns with
  | nil => rfl
  | cons n ns ih =>
    obtain ⟨hn, hns⟩ := List.forall_mem_cons.1 h
    cases hp : p n with
    | true => rw [List.filter_cons_of_pos hp, elementsAll, elementsAll, ih hns]
    | false =>
      rw [List.filter_cons_of_neg (by simp [hp]), elementsAll, hn hp, ih hns, List.nil_append]

theorem elements_of_isAside {n : Node} (h : n.isAside = true) : n.elements = [] := by
  cases n <;> simp_all [isAside, isBlankText, elements]

/-- What is passed over holds no elements. -/
theorem elementsAll_significant (ns : List Node) :
    elementsAll (significant ns) = elementsAll ns :=
  elementsAll_filter fun n _ hn => elements_of_isAside (by simpa using hn)

theorem elementsAll_texts (texts : List String) : elementsAll (texts.map .text) = [] := by
  induction texts with
  | nil => rfl
  | cons s texts ih => rw [List.map_cons, elementsAll, elements, ih, List.nil_append]

mutual

theorem length_elements_le : (n : Node) → ∀ e ∈ n.elements, e.elements.length ≤ n.elements.length
  | .element type attributes children => by
    intro e he
    rw [elements] at he ⊢
    rcases List.mem_cons.1 he with rfl | he
    · rw [Element.elements_eq]
    · exact Nat.le_succ_of_le (length_elementsAll_le children e he)
  | .property label children => by
    intro e he
    rw [elements] at he ⊢
    exact length_elementsAll_le children e he
  | .text s => by simp [elements]
  | .comment s => by simp [elements]

theorem length_elementsAll_le :
    (ns : List Node) → ∀ e ∈ elementsAll ns, e.elements.length ≤ (elementsAll ns).length
  | [] => by simp [elementsAll]
  | n :: ns => by
    intro e he
    rw [elementsAll] at he ⊢
    rw [List.length_append]
    rcases List.mem_append.1 he with he | he
    · exact Nat.le_add_right_of_le (length_elements_le n e he)
    · exact Nat.le_add_left_of_le (length_elementsAll_le ns e he)

end

end Node

/-- What holds of an element when it holds of all elements inside it holds of every element. -/
theorem Element.induction {p : Element → Prop}
    (h : ∀ e, (∀ inner ∈ Node.elementsAll e.children, p inner) → p e) (e : Element) : p e := by
  generalize hn : e.elements.length = n
  induction n using Nat.strong_induction_on generalizing e with
  | _ n ih =>
    refine h e fun inner hinner => ih inner.elements.length ?_ inner rfl
    have hle := Node.length_elementsAll_le e.children inner hinner
    have hlength : e.elements.length = (Node.elementsAll e.children).length + 1 := by
      rw [elements_eq, List.length_cons]
    omega

/-! ## Texts and elements of a run -/

namespace Node

def text? : Node → Option String
  | .text s => some s
  | _ => none

def isComment : Node → Bool
  | .comment _ => true
  | _ => false

theorem textOf_readAll (ns : List Node) :
    Child.textOf (readAll schema reading ns) = String.join (ns.filterMap text?) := by
  induction ns with
  | nil => rfl
  | cons n ns ih =>
    cases n <;>
      simp [readAll, read, Child.textOf, List.filterMap_cons, text?, ih]

/-- Without elements there is text, but for comments. -/
theorem texts_of_no_element {ns : List Node} (hproperty : ∀ n ∈ ns, n.isProperty = false)
    (helement : ns.filterMap element? = []) :
    (ns.filter fun n => !n.isComment) = (ns.filterMap text?).map .text := by
  induction ns with
  | nil => rfl
  | cons n ns ih =>
    obtain ⟨hn, hns⟩ := List.forall_mem_cons.1 hproperty
    cases n with
    | element type attributes children => simp [element?] at helement
    | property label inner => cases hn
    | text s =>
      have ih := ih hns (by simpa [List.filterMap_cons, element?] using helement)
      simpa [List.filter_cons, List.filterMap_cons, isComment, text?] using ih
    | comment s =>
      have ih := ih hns (by simpa [List.filterMap_cons, element?] using helement)
      simpa [List.filter_cons, List.filterMap_cons, isComment, text?] using ih

/-- Without text there are elements, but for what is passed over. -/
theorem elements_of_no_text {ns : List Node} (hproperty : ∀ n ∈ ns, n.isProperty = false)
    (htext : Text.allBlank (String.join (ns.filterMap text?)) = true) :
    significant ns = (ns.filterMap element?).map Element.toNode := by
  induction ns with
  | nil => rfl
  | cons n ns ih =>
    obtain ⟨hn, hns⟩ := List.forall_mem_cons.1 hproperty
    cases n with
    | element type attributes children =>
      have ih := ih hns (by simpa [List.filterMap_cons, text?] using htext)
      rw [significant_cons_of_content rfl, ih]
      rfl
    | property label inner => cases hn
    | text s =>
      have hboth : Text.allBlank s = true ∧
          Text.allBlank (String.join (ns.filterMap text?)) = true := by
        simpa [List.filterMap_cons, text?, Text.allBlank] using htext
      have haside : (Node.text s).isAside = true := hboth.1
      rw [significant_cons_of_aside haside, ih hns hboth.2]
      rfl
    | comment s =>
      have ih := ih hns (by simpa [List.filterMap_cons, text?] using htext)
      rw [significant_cons_of_aside rfl, ih]
      rfl

end Node

/-- A text as it is taken, without the white space around it where that is dropped. -/
def Reading.shown (reading : Reading) (s : String) : String :=
  if reading.ignoreBlankText then Text.trim s else s

/-- What nodes that are no property elements amount to: nothing, text alone, or elements alone. -/
inductive Payload.Of (schema : Schema) (reading : Reading) (ns : List Node) : Payload → Prop
  | empty : significant ns = [] → Of schema reading ns .empty
  | text {texts : List String} : (ns.filter fun n => !n.isComment) = texts.map .text →
      Text.allBlank (String.join texts) = false →
      Of schema reading ns (.text (reading.shown (String.join texts)))
  | elements {es : List Element} : significant ns = es.map Element.toNode → es ≠ [] →
      Of schema reading ns (.elements (es.map (Element.tree schema reading)))

theorem payload_ok {ns : List Node} {content : Payload}
    (hproperty : ∀ n ∈ ns, n.isProperty = false)
    (h : payload reading type (Node.readAll schema reading ns) = .ok content) :
    content.Of schema reading ns := by
  simp only [payload, Node.textOf_readAll, elementsOf_readAll] at h
  cases htext : Text.allBlank (String.join (ns.filterMap Node.text?)) with
  | true =>
    have hsignificant := Node.elements_of_no_text hproperty htext
    cases hes : ns.filterMap Node.element? with
    | nil =>
      simp only [htext, hes, List.map_nil, List.isEmpty_nil] at h
      obtain rfl := Except.ok.inj h
      exact .empty (by rw [hsignificant, hes, List.map_nil])
    | cons e es =>
      simp only [htext, hes, List.map_cons, List.isEmpty_cons] at h
      obtain rfl := Except.ok.inj h
      exact .elements (hes ▸ hsignificant) (List.cons_ne_nil e es)
  | false =>
    cases hes : ns.filterMap Node.element? with
    | nil =>
      simp only [htext, hes, List.map_nil, List.isEmpty_nil] at h
      obtain rfl := Except.ok.inj h
      exact .text (Node.texts_of_no_element hproperty hes) htext
    | cons e es =>
      simp [htext, hes] at h

/-! ## What the parts of an element become -/

/-- An attribute becomes a literal of the member that its name means. -/
def AttributeGives (schema : Schema) (type : TypeName) (a : Attribute) (given : Assignment) :
    Prop :=
  ∃ m, resolveMember schema type a.name = .ok m ∧ given = .literal m a.value

/-- Elements are assigned to a member: their trees, as many as it takes. -/
inductive ElementsGive (schema : Schema) (reading : Reading) (m : Member) (es : List Element) :
    Assignment → Prop
  | intro {trees : List Tree} : es.map (Element.tree schema reading) = trees.map .ok → es ≠ [] →
      (schema.takesMany m = true ∨ es.length = 1) →
      ElementsGive schema reading m es (.children m trees)

/-- A node of a property element that is taken: no comment, and blank text only where white space
counts. -/
def Reading.keeps (reading : Reading) (n : Node) : Bool :=
  !n.isComment && !(reading.ignoreBlankText && n.isBlankText)

/-- A property element becomes an assignment to the member that its label means: of its text, of
its elements, or of nothing at all to a member that takes many values. -/
inductive PropertyGives (schema : Schema) (reading : Reading) (type : TypeName) :
    Node → Assignment → Prop
  | text {label : String} {inner : List Node} {m : Member} {texts : List String} :
      resolveMember schema type label = .ok m → inner.filter reading.keeps = texts.map .text →
      Text.allBlank (String.join texts) = false →
      PropertyGives schema reading type (.property label inner)
        (.literal m (reading.shown (String.join texts)))
  | elements {label : String} {inner : List Node} {m : Member} {es : List Element}
      {given : Assignment} :
      resolveMember schema type label = .ok m → significant inner = es.map Element.toNode →
      ElementsGive schema reading m es given →
      PropertyGives schema reading type (.property label inner) given
  | empty {label : String} {inner : List Node} {m : Member} :
      resolveMember schema type label = .ok m → significant inner = [] →
      schema.takesMany m = true →
      PropertyGives schema reading type (.property label inner) (.children m [])

/-- The member that takes the elements of the content: the content member, or the items of a
collection that declares none. -/
inductive TakesContent (schema : Schema) (type : TypeName) : Member → Prop
  | declared {m : Member} : schema.content? type = some m → TakesContent schema type m
  | items : schema.content? type = none → (schema.traits type).collection = true →
      TakesContent schema type (.items type)

/-- What a run of content becomes: nothing without content, else one assignment, of its elements or
of its text, or the one argument where the type has no member for the text. -/
inductive ContentGives (schema : Schema) (reading : Reading) (type : TypeName) :
    List Node → Option Assignment → List String → Prop
  | nothing : ContentGives schema reading type [] none []
  | literal {texts : List String} {m : Member} : schema.content? type = some m →
      Text.allBlank (String.join texts) = false →
      ContentGives schema reading type (texts.map .text)
        (some (.literal m (reading.shown (String.join texts)))) []
  | argument {texts : List String} : schema.content? type = none →
      Text.allBlank (String.join texts) = false →
      ContentGives schema reading type (texts.map .text) none [reading.shown (String.join texts)]
  | elements {es : List Element} {m : Member} {given : Assignment} :
      TakesContent schema type m → ElementsGive schema reading m es given →
      ContentGives schema reading type (es.map Element.toNode) (some given) []

/-- What an element becomes.  Its children, but for blank text and comments, are property elements,
a run of content, and property elements; the assignments are those of the attributes, and behind
them those of the children, as they stand. -/
inductive Element.Gives (schema : Schema) (reading : Reading) : Element → Tree → Prop
  | intro {name : String} {attributes : List Attribute} {children pre run post : List Node}
      {type : TypeName} {own before after : List Assignment} {content : Option Assignment}
      {arguments : List String} :
      schema.resolve name = some type →
      List.Forall₂ (AttributeGives schema type)
        (attributes.filter fun a => a.name != reading.nameDirective) own →
      significant children = pre ++ run ++ post → (∀ n ∈ run, n.isContent = true) →
      List.Forall₂ (PropertyGives schema reading type) pre before →
      ContentGives schema reading type run content arguments →
      List.Forall₂ (PropertyGives schema reading type) post after →
      Gives schema reading { type := name, attributes, children }
        (.node type ((attributes.find? fun a => a.name == reading.nameDirective).map (·.value))
          arguments (own ++ before ++ content.toList ++ after))

/-! ## Reading the parts -/

theorem attributeSlots_gives {attributes : List Attribute} {slots : List Slot}
    (h : attributeSlots schema reading type attributes = .ok slots) :
    ∃ own, slots = own.map .assignment ∧ List.Forall₂ (AttributeGives schema type)
      (attributes.filter fun a => a.name != reading.nameDirective) own := by
  induction attributes generalizing slots with
  | nil => exact ⟨[], (Except.ok.inj h).symm, .nil⟩
  | cons a attributes ih =>
    rw [attributeSlots] at h
    split at h
    · next hname =>
      rw [List.filter_cons_of_neg (by simpa using hname)]
      exact ih h
    · next hname =>
      obtain ⟨m, hm, h⟩ := Answer.bind_eq_ok.1 h
      obtain ⟨rest, hrest, h⟩ := Answer.bind_eq_ok.1 h
      obtain rfl := Answer.pure_eq_ok.1 h
      obtain ⟨own, rfl, hown⟩ := ih hrest
      rw [List.filter_cons_of_pos (by simpa using hname)]
      exact ⟨.literal m a.value :: own, rfl, .cons ⟨m, hm, rfl⟩ hown⟩

theorem assignElements_gives {m : Member} {es : List Element} {given : Assignment}
    (hne : es ≠ [])
    (h : assignElements schema type m (es.map (Element.tree schema reading)) = .ok given) :
    ElementsGive schema reading m es given := by
  obtain ⟨trees, rfl, htrees, hcount⟩ := assignElements_ok h
  refine .intro htrees hne (hcount.imp_right fun hle => ?_)
  rw [List.length_map] at hle
  have hpos : 0 < es.length := List.length_pos_iff.2 hne
  omega

theorem filter_readAll (p : Child → Bool) (ns : List Node) :
    (Node.readAll schema reading ns).filter p =
      Node.readAll schema reading (ns.filter fun n => p (n.read schema reading)) := by
  rw [Node.readAll_eq_map, Node.readAll_eq_map, List.filter_map]
  rfl

theorem isBlankText_read (n : Node) : (n.read schema reading).isBlankText = n.isBlankText := by
  cases n <;> rfl

theorem no_property_of_firstProperty {ns : List Node}
    (h : firstProperty (Node.readAll schema reading ns) = none) :
    ∀ n ∈ ns, n.isProperty = false := by
  induction ns with
  | nil => simp
  | cons n ns ih =>
    refine List.forall_mem_cons.2 ?_
    cases n with
    | property label inner => cases h
    | _ => exact ⟨rfl, ih h⟩

theorem assignProperty_gives {label : String} {inner : List Node} {given : Assignment}
    (h : assignProperty schema reading type label (Node.readAll schema reading inner) = .ok given) :
    PropertyGives schema reading type (.property label inner) given := by
  rw [assignProperty] at h
  obtain ⟨m, hm, h⟩ := Answer.bind_eq_ok.1 h
  rw [filter_readAll] at h
  simp only [isBlankText_read] at h
  generalize hkept : (inner.filter fun n => !(reading.ignoreBlankText && n.isBlankText)) = kept at h
  have hsignificant : significant kept = significant inner := by
    rw [← hkept, significant, significant, List.filter_filter]
    refine List.filter_congr fun n _ => ?_
    cases n <;> simp +contextual [Node.isAside, Node.isBlankText]
  have htexts : (kept.filter fun n => !n.isComment) = inner.filter reading.keeps := by
    rw [← hkept, List.filter_filter]
    rfl
  cases hfirst : firstProperty (Node.readAll schema reading kept) with
  | some other => simp [hfirst] at h
  | none =>
    simp only [hfirst] at h
    obtain ⟨content, hcontent, h⟩ := Answer.bind_eq_ok.1 h
    cases payload_ok (no_property_of_firstProperty hfirst) hcontent with
    | text hkept htext =>
      obtain rfl := Answer.pure_eq_ok.1 h
      exact .text hm (htexts ▸ hkept) htext
    | empty hkept =>
      cases hmany : schema.takesMany m with
      | false => simp [hmany] at h
      | true =>
        simp only [hmany, if_true] at h
        obtain rfl := Answer.pure_eq_ok.1 h
        exact .empty hm (hsignificant ▸ hkept) hmany
    | elements hkept hne =>
      exact .elements hm (hsignificant ▸ hkept) (assignElements_gives hne h)

theorem assignContent_gives {es : List Element} {given : Assignment} (hne : es ≠ [])
    (h : assignContent schema type (es.map (Element.tree schema reading)) = .ok given) :
    ∃ m, TakesContent schema type m ∧ ElementsGive schema reading m es given := by
  rw [assignContent] at h
  cases hm : schema.content? type with
  | some m =>
    simp only [hm] at h
    exact ⟨m, .declared hm, assignElements_gives hne h⟩
  | none =>
    cases hc : (schema.traits type).collection with
    | true =>
      simp only [hm, hc, if_true] at h
      exact ⟨.items type, .items hm hc, assignElements_gives hne h⟩
    | false => simp [hm, hc] at h

theorem fill_append (content : Option Assignment) (slots slots' : List Slot) :
    fill content (slots ++ slots') = fill content slots ++ fill content slots' := by
  induction slots with
  | nil => rfl
  | cons slot slots ih =>
    cases slot with
    | assignment a => simp [fill, ih]
    | content => simp [fill, ih]

theorem fill_assignments (content : Option Assignment) (as : List Assignment) :
    fill content (as.map .assignment) = as := by
  induction as with
  | nil => rfl
  | cons a as ih => rw [List.map_cons, fill, ih]

theorem significant_of_isContent {run : List Node} (h : ∀ n ∈ run, n.isContent = true) :
    significant run = run :=
  List.filter_eq_self.2 fun n hn => by simp [Node.isAside_of_isContent (h n hn)]

theorem texts_of_isContent {run : List Node} (h : ∀ n ∈ run, n.isContent = true) :
    (run.filter fun n => !n.isComment) = run :=
  List.filter_eq_self.2 fun n hn => by
    have hn := h n hn
    cases n <;> simp_all [Node.isComment, Node.isContent]

/-- What content that is put where it stands makes of the assignments of an element. -/
theorem payload_describe {run : List Node} {own as bs : List Assignment} {content : Payload}
    {d : Description} (hrun : ∀ n ∈ run, n.isContent = true)
    (hpayload : payload reading type (Node.readAll schema reading run) = .ok content)
    (h : content.describe schema type
      (own.map .assignment ++ (as.map .assignment ++ contentSlot run ++ bs.map .assignment)) =
        .ok d) :
    ∃ given, ContentGives schema reading type run given d.arguments ∧
      d.assignments = own ++ as ++ given.toList ++ bs := by
  have hfill : ∀ given, (run = [] → given = none) →
      fill given (own.map .assignment ++
        (as.map .assignment ++ contentSlot run ++ bs.map .assignment)) =
          own ++ as ++ given.toList ++ bs := by
    intro given hgiven
    have hcontent : fill given (contentSlot run) = given.toList := by
      cases run with
      | nil => rw [hgiven rfl]; rfl
      | cons n run => simp [contentSlot, fill]
    simp only [fill_append, fill_assignments, hcontent, List.append_assoc]
  have hproperty : ∀ n ∈ run, n.isProperty = false := fun n hn =>
    Node.isProperty_of_isContent (hrun n hn)
  cases payload_ok hproperty hpayload with
  | empty hempty =>
    rw [significant_of_isContent hrun] at hempty
    obtain rfl := Except.ok.inj h
    subst hempty
    exact ⟨none, .nothing, hfill none fun _ => rfl⟩
  | text htexts htext =>
    rw [texts_of_isContent hrun] at htexts
    have hne : run ≠ [] := by
      rintro rfl
      rw [List.map_eq_nil_iff.1 htexts.symm] at htext
      cases htext
    rw [Payload.describe] at h
    cases hm : schema.content? type with
    | some m =>
      simp only [hm] at h
      obtain rfl := Except.ok.inj h
      exact ⟨_, htexts ▸ .literal hm htext, hfill _ fun hnil => absurd hnil hne⟩
    | none =>
      simp only [hm] at h
      obtain rfl := Except.ok.inj h
      exact ⟨none, htexts ▸ .argument hm htext, hfill none fun _ => rfl⟩
  | elements hes hne =>
    rw [significant_of_isContent hrun] at hes
    have hrunne : run ≠ [] := by
      rintro rfl
      exact hne (List.map_eq_nil_iff.1 hes.symm)
    obtain ⟨given, hgiven, rfl⟩ := Answer.map_eq_ok.1 h
    obtain ⟨m, hm, hgives⟩ := assignContent_gives hne hgiven
    exact ⟨some given, hes ▸ .elements hm hgives, hfill _ fun hnil => absurd hnil hrunne⟩

theorem gives_of_makes {ns : List Node} {as : List Assignment}
    (h : List.Forall₂ (Node.Makes schema reading type) ns as) :
    List.Forall₂ (PropertyGives schema reading type) ns as := by
  refine h.imp fun n a hmakes => ?_
  obtain ⟨label, inner, rfl, hassign⟩ := hmakes
  exact assignProperty_gives hassign

theorem Element.gives {e : Element} {t : Tree} (h : e.tree schema reading = .ok t) :
    e.Gives schema reading t := by
  obtain ⟨name, attributes, children⟩ := e
  rw [tree, construct] at h
  obtain ⟨type, htype, h⟩ := Answer.bind_eq_ok.1 h
  obtain ⟨d, hd, h⟩ := Answer.bind_eq_ok.1 h
  obtain rfl := Answer.pure_eq_ok.1 h
  rw [describe_eq] at hd
  obtain ⟨slots, hslots, hd⟩ := Answer.bind_eq_ok.1 hd
  obtain ⟨division, hdivision, hd⟩ := Answer.bind_eq_ok.1 hd
  obtain ⟨content, hcontent, hd⟩ := Answer.bind_eq_ok.1 hd
  obtain ⟨own, rfl, hown⟩ := attributeSlots_gives hslots
  obtain ⟨pre, run, post, as, bs, hns, hrun, has, hbs, rfl⟩ := divide_before_ok hdivision
  obtain ⟨given, hgiven, hassignments⟩ := payload_describe hrun hcontent hd
  have hresolve : schema.resolve name = some type := by
    rw [resolve] at htype
    split at htype
    · next hname => rw [hname, Except.ok.inj htype]
    · cases htype
  rw [hassignments]
  exact .intro hresolve hown hns hrun (gives_of_makes has) hgiven (gives_of_makes hbs)

/-! ## What an element assigns -/

theorem exists_of_forall₂ {α β : Type} {r : α → β → Prop} {xs : List α} {ys : List β}
    (h : List.Forall₂ r xs ys) {y : β} (hy : y ∈ ys) : ∃ x ∈ xs, r x y := by
  induction h with
  | nil => cases hy
  | @cons x' y' xs ys hr _ ih =>
    rcases List.mem_cons.1 hy with rfl | hy
    · exact ⟨x', List.mem_cons_self, hr⟩
    · obtain ⟨x, hx, hr⟩ := ih hy
      exact ⟨x, List.mem_cons_of_mem x' hx, hr⟩

/-- What is assigned is what an attribute, a property element or the content becomes. -/
theorem Element.Gives.of_mem {e : Element} {t : Tree} (h : e.Gives schema reading t)
    {given : Assignment} (hgiven : given ∈ t.assignments) :
    (∃ a, AttributeGives schema t.type a given) ∨
      (∃ n, PropertyGives schema reading t.type n given) ∨
      ∃ run arguments, ContentGives schema reading t.type run (some given) arguments := by
  cases h with
  | intro _ hown _ _ hbefore hcontent hafter =>
    simp only [Tree.assignments, List.mem_append, Option.mem_toList] at hgiven
    rcases hgiven with ((hgiven | hgiven) | rfl) | hgiven
    · obtain ⟨a, -, ha⟩ := exists_of_forall₂ hown hgiven
      exact .inl ⟨a, ha⟩
    · obtain ⟨n, -, hn⟩ := exists_of_forall₂ hbefore hgiven
      exact .inr (.inl ⟨n, hn⟩)
    · exact .inr (.inr ⟨_, _, hcontent⟩)
    · obtain ⟨n, -, hn⟩ := exists_of_forall₂ hafter hgiven
      exact .inr (.inl ⟨n, hn⟩)

theorem ElementsGive.counts {m : Member} {es : List Element} {given : Assignment}
    (h : ElementsGive schema reading m es given) : given.Counts schema := by
  obtain ⟨htrees, -, hcount⟩ := h
  have hlength := congrArg List.length htrees
  rw [List.length_map, List.length_map] at hlength
  exact hcount.imp_right hlength.symm.trans

theorem Element.Gives.counts {e : Element} {t : Tree} (h : e.Gives schema reading t) :
    ∀ given ∈ t.assignments, given.Counts schema := by
  intro given hgiven
  rcases h.of_mem hgiven with ⟨a, m, -, rfl⟩ | ⟨n, hn⟩ | ⟨run, arguments, hrun⟩
  · trivial
  · cases hn with
    | text _ _ _ => trivial
    | elements _ _ hes => exact hes.counts
    | empty _ _ hmany => exact .inl hmany
  · cases hrun with
    | literal _ _ => trivial
    | elements _ hes => exact hes.counts

/-! ## Whole documents -/

/-- The nodes of the tree of this element, if it has one, are the trees of its elements. -/
def Element.Counted (schema : Schema) (reading : Reading) (e : Element) : Prop :=
  ∀ t, e.tree schema reading = .ok t →
    t.nodes.map .ok = e.elements.map (Element.tree schema reading)

theorem nodes_of_trees {es : List Element} {trees : List Tree}
    (h : es.map (Element.tree schema reading) = trees.map .ok)
    (hes : ∀ e ∈ Node.elementsAll (es.map Element.toNode), e.Counted schema reading) :
    (Tree.nodesAll trees).map .ok =
      (Node.elementsAll (es.map Element.toNode)).map (Element.tree schema reading) := by
  induction es generalizing trees with
  | nil =>
    rw [List.map_eq_nil_iff.1 h.symm]
    rfl
  | cons e es ih =>
    cases trees with
    | nil => cases h
    | cons t trees =>
      obtain ⟨ht, htrees⟩ := List.cons.inj h
      rw [List.map_cons, Node.elementsAll, List.forall_mem_append] at hes
      have he : e ∈ e.toNode.elements := by
        rw [← Element.elements, Element.elements_eq]
        exact List.mem_cons_self
      rw [Tree.nodesAll, List.map_cons, Node.elementsAll, List.map_append, List.map_append,
        hes.1 e he t ht, ih htrees hes.2, Element.elements]

theorem ElementsGive.nodes {m : Member} {es : List Element} {given : Assignment}
    (h : ElementsGive schema reading m es given)
    (hes : ∀ e ∈ Node.elementsAll (es.map Element.toNode), e.Counted schema reading) :
    given.nodes.map .ok =
      (Node.elementsAll (es.map Element.toNode)).map (Element.tree schema reading) := by
  obtain ⟨htrees, -, -⟩ := h
  exact nodes_of_trees htrees hes

theorem PropertyGives.nodes {n : Node} {given : Assignment}
    (h : PropertyGives schema reading type n given)
    (hn : ∀ e ∈ n.elements, e.Counted schema reading) :
    given.nodes.map .ok = n.elements.map (Element.tree schema reading) := by
  cases h with
  | @text label inner m texts _ htexts _ =>
    have hkept : Node.elementsAll (inner.filter reading.keeps) = Node.elementsAll inner :=
      Node.elementsAll_filter fun n _ hn => by
        cases n <;> simp_all [Reading.keeps, Node.isComment, Node.isBlankText, Node.elements]
    rw [htexts, Node.elementsAll_texts] at hkept
    rw [Assignment.nodes, Node.elements, ← hkept]
    rfl
  | @elements label inner m es given _ hes hgives =>
    rw [Node.elements, ← Node.elementsAll_significant, hes] at hn ⊢
    exact hgives.nodes hn
  | @empty label inner m _ hnone _ =>
    rw [Node.elements, ← Node.elementsAll_significant, hnone]
    rfl

theorem nodes_of_properties {ns : List Node} {as : List Assignment}
    (h : List.Forall₂ (PropertyGives schema reading type) ns as)
    (hns : ∀ e ∈ Node.elementsAll ns, e.Counted schema reading) :
    (Assignment.nodesAll as).map .ok = (Node.elementsAll ns).map (Element.tree schema reading) := by
  induction h with
  | nil => rfl
  | cons hgives _ ih =>
    rw [Node.elementsAll, List.forall_mem_append] at hns
    rw [Assignment.nodesAll, Node.elementsAll, List.map_append, List.map_append,
      hgives.nodes hns.1, ih hns.2]

theorem ContentGives.nodes {run : List Node} {given : Option Assignment} {arguments : List String}
    (h : ContentGives schema reading type run given arguments)
    (hrun : ∀ e ∈ Node.elementsAll run, e.Counted schema reading) :
    (Assignment.nodesAll given.toList).map .ok =
      (Node.elementsAll run).map (Element.tree schema reading) := by
  cases h with
  | nothing => rfl
  | literal _ _ =>
    rw [Node.elementsAll_texts]
    rfl
  | argument _ _ =>
    rw [Node.elementsAll_texts]
    rfl
  | elements _ hgives =>
    rw [Option.toList_some, Assignment.nodesAll, Assignment.nodesAll, List.append_nil]
    exact hgives.nodes hrun

theorem nodes_of_attributes {attributes : List Attribute} {as : List Assignment}
    (h : List.Forall₂ (AttributeGives schema type) attributes as) :
    Assignment.nodesAll as = [] := by
  induction h with
  | nil => rfl
  | cons hgives _ ih =>
    obtain ⟨m, -, rfl⟩ := hgives
    rw [Assignment.nodesAll, Assignment.nodes, ih, List.nil_append]

/-- The nodes of a tree that is read are the trees of the elements, in the same order. -/
theorem Element.nodes_eq (e : Element) : e.Counted schema reading := by
  induction e using Element.induction with
  | _ e ih =>
    intro t h
    cases Element.gives h with
    | @intro name attributes children pre run post type own before after content arguments _ hown
        hns _ hbefore hcontent hafter =>
      have hall : Node.elementsAll children =
          Node.elementsAll pre ++ Node.elementsAll run ++ Node.elementsAll post := by
        rw [← Node.elementsAll_significant, hns, Node.elementsAll_append, Node.elementsAll_append]
      rw [hall, List.forall_mem_append, List.forall_mem_append] at ih
      obtain ⟨⟨hpre, hrun⟩, hpost⟩ := ih
      rw [Element.elements_eq, Tree.nodes, List.map_cons, List.map_cons, h, hall]
      simp only [Assignment.nodesAll_append, List.map_append, nodes_of_attributes hown,
        nodes_of_properties hbefore hpre, hcontent.nodes hrun, nodes_of_properties hafter hpost,
        List.nil_append]

/-- Every node of a tree that is read is what an element of the document becomes. -/
theorem Element.gives_of_mem {e : Element} {t : Tree} (h : e.tree schema reading = .ok t) :
    ∀ u ∈ t.nodes, ∃ inner ∈ e.elements, inner.tree schema reading = .ok u ∧
      inner.Gives schema reading u := by
  intro u hu
  have hmem : .ok u ∈ e.elements.map (Element.tree schema reading) := by
    rw [← Element.nodes_eq e t h]
    exact List.mem_map_of_mem hu
  obtain ⟨inner, hinner, htree⟩ := List.mem_map.1 hmem
  exact ⟨inner, hinner, htree, Element.gives htree⟩

/-- The nodes of a tree that is read have known types, and what they assign fits. -/
theorem Element.tree_fits
    (hschema : ∀ {name type}, schema.resolve name = some type →
      (schema.resolve type).isSome = true)
    {e : Element} {t : Tree} (h : e.tree schema reading = .ok t) :
    t.Forall (Tree.Fits schema) := by
  refine Tree.forall_of_nodes t fun u hu => ?_
  obtain ⟨inner, -, -, hgives⟩ := Element.gives_of_mem h u hu
  refine ⟨?_, fun a ha => (hgives.counts a ha).fits⟩
  cases hgives with
  | intro hresolve _ _ _ _ _ _ => exact hschema hresolve

/-- Each element of a document becomes one node, in the order in which the elements are written, and
there are no other nodes; what the element says is what the node holds. -/
theorem tree_layout {e : Element} {t : Tree} (h : e.tree schema reading = .ok t) :
    t.nodes.map .ok = e.elements.map (Element.tree schema reading) ∧
    t.size = e.elements.length ∧
    ∀ inner ∈ e.elements, ∃ u ∈ t.nodes, inner.tree schema reading = .ok u ∧
      inner.Gives schema reading u := by
  have hnodes := Element.nodes_eq e t h
  refine ⟨hnodes, ?_, fun inner hinner => ?_⟩
  · calc t.size = t.nodes.length := (Tree.length_nodes t).symm
      _ = (t.nodes.map (.ok : Tree → Except Error Tree)).length := (List.length_map _).symm
      _ = e.elements.length := by rw [hnodes, List.length_map]
  · have hmem : inner.tree schema reading ∈ t.nodes.map .ok := by
      rw [hnodes]
      exact List.mem_map_of_mem hinner
    obtain ⟨u, hu, htree⟩ := List.mem_map.1 hmem
    exact ⟨u, hu, htree.symm, Element.gives htree.symm⟩

end Markup

/-- A named window with items, one of which has a text, and a template for them. -/
def Widget.itemsWindow : Markup.Element where
  type := "Window"
  attributes := [{ name := "Name", value := "main" }, { name := "Title", value := "Items" }]
  children := [.property "Window.Height" [.text " 12 "], .text "\n",
    .element "ItemsControl" [{ name := "Grid.Row", value := "1" }] [
      .element "TextBlock" [] [.text " one", .comment "and", .text "two "],
      .text " ", .element "TextBlock" [] [],
      .property "ItemsControl.ItemTemplate" [.comment "template", .element "DataTemplate" [] []]]]

namespace Markup

theorem tree_layout_itemsWindow :
    ∃ t, Widget.itemsWindow.tree Widget.catalogue.schema {} = .ok t ∧ t.size = 5 ∧
      ∀ inner ∈ Widget.itemsWindow.elements, ∃ u ∈ t.nodes,
        inner.tree Widget.catalogue.schema {} = .ok u ∧
          inner.Gives Widget.catalogue.schema {} u := by
  have hread : Widget.itemsWindow.tree Widget.catalogue.schema {} = .ok _ := rfl
  obtain ⟨-, hsize, hgives⟩ := tree_layout hread
  exact ⟨_, hread, hsize, hgives⟩

end Markup
end ObjectMarkup
