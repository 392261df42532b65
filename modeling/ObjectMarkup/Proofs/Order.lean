/-
What putting assignments into their order leaves as it is.  Nothing is lost and nothing is added
(`arrange_perm`), so that a sorted tree has the nodes of the tree, each with the assignments it had
(`Tree.sort_forall`).
-/
import ObjectMarkup.Proofs.Dependencies
import ObjectMarkup.Proofs.Fitting
import ObjectMarkup.Tree.Stream

namespace ObjectMarkup

/-! ## Whole trees -/

theorem mem_of_mapM_error {ε α β : Type} {f : α → Except ε β} {xs : List α} {e : ε}
    (h : xs.mapM f = .error e) : ∃ x ∈ xs, f x = .error e := by
  induction xs with
  | nil => cases h
  | cons x xs ih =>
    rw [List.mapM_cons] at h
    rcases Answer.bind_eq_error.1 h with hx | ⟨y, -, h⟩
    · exact ⟨x, List.mem_cons_self, hx⟩
    · rcases Answer.bind_eq_error.1 h with hrest | ⟨rest, -, h⟩
      · obtain ⟨z, hz, hfz⟩ := ih hrest
        exact ⟨z, List.mem_cons_of_mem _ hz, hfz⟩
      · cases h

theorem mem_of_mapM_ok {ε α β : Type} {f : α → Except ε β} {xs : List α} {ys : List β}
    (h : xs.mapM f = .ok ys) : ∀ y ∈ ys, ∃ x ∈ xs, f x = .ok y := by
  induction xs generalizing ys with
  | nil =>
    obtain rfl := Answer.pure_eq_ok.1 h
    simp
  | cons x xs ih =>
    rw [List.mapM_cons] at h
    obtain ⟨y, hy, h⟩ := Answer.bind_eq_ok.1 h
    obtain ⟨rest, hrest, h⟩ := Answer.bind_eq_ok.1 h
    obtain rfl := Answer.pure_eq_ok.1 h
    intro z hz
    rcases List.mem_cons.1 hz with rfl | hz
    · exact ⟨x, List.mem_cons_self, hy⟩
    · obtain ⟨w, hw, hfw⟩ := ih hrest z hz
      exact ⟨w, List.mem_cons_of_mem _ hw, hfw⟩

theorem Assignment.sortEach_eq_map (as : List Assignment) :
    Assignment.sortEach as = as.map fun a => (a.member, a.sort) := by
  induction as with
  | nil => rfl
  | cons a as ih => rw [sortEach, ih, List.map_cons]

/-- Only the assignments of a node change when it is sorted. -/
theorem Tree.sort_node {type : TypeName} {name : Option String} {arguments : List String}
    {assignments : List Assignment} {t : Tree}
    (h : (Tree.node type name arguments assignments).sort = .ok t) :
    ∃ sorted, t = .node type name arguments sorted := by
  rw [sort] at h
  obtain ⟨order, -, h⟩ := Answer.bind_eq_ok.1 h
  obtain ⟨sorted, -, h⟩ := Answer.bind_eq_ok.1 h
  exact ⟨sorted, (Answer.pure_eq_ok.1 h).symm⟩

theorem Tree.sort_ok {t t' : Tree} (h : t.sort = .ok t') :
    t'.type = t.type ∧ ∀ a' ∈ t'.assignments, ∃ a ∈ t.assignments, a.sort = .ok a' := by
  obtain ⟨type, name, arguments, assignments⟩ := t
  rw [sort] at h
  obtain ⟨order, horder, h⟩ := Answer.bind_eq_ok.1 h
  obtain ⟨sorted, hsorted, h⟩ := Answer.bind_eq_ok.1 h
  obtain rfl := Answer.pure_eq_ok.1 h
  refine ⟨rfl, fun a' ha' => ?_⟩
  obtain ⟨r, hr, hsort⟩ := mem_of_mapM_ok hsorted a' ha'
  have hr := (arrange_perm horder).mem_iff.1 hr
  rw [Assignment.sortEach_eq_map] at hr
  obtain ⟨a, ha, rfl⟩ := List.mem_map.1 hr
  exact ⟨a, ha, hsort⟩

theorem Tree.sortAll_ok {ts ts' : List Tree} (h : Tree.sortAll ts = .ok ts') :
    ts'.length = ts.length ∧ ∀ t' ∈ ts', ∃ t ∈ ts, t.sort = .ok t' := by
  induction ts generalizing ts' with
  | nil =>
    obtain rfl := Except.ok.inj h
    simp
  | cons t ts ih =>
    simp only [sortAll, Answer.bind_eq_ok, Answer.pure_eq_ok] at h
    obtain ⟨t', ht, rest, hrest, rfl⟩ := h
    obtain ⟨hlength, hmem⟩ := ih hrest
    refine ⟨by simp [hlength], fun u hu => ?_⟩
    rcases List.mem_cons.1 hu with rfl | hu
    · exact ⟨t, List.mem_cons_self, ht⟩
    · obtain ⟨v, hv, hsort⟩ := hmem u hu
      exact ⟨v, List.mem_cons_of_mem _ hv, hsort⟩

theorem Assignment.sort_ok {a a' : Assignment} (h : a.sort = .ok a') :
    a'.member = a.member ∧ a'.isLiteral = a.isLiteral ∧ a'.trees.length = a.trees.length ∧
      ∀ t' ∈ a'.trees, ∃ t ∈ a.trees, t.sort = .ok t' := by
  cases a with
  | literal m s =>
    obtain rfl := Except.ok.inj h
    exact ⟨rfl, rfl, rfl, by simp [trees]⟩
  | children m ts =>
    simp only [sort, Answer.bind_eq_ok, Answer.pure_eq_ok] at h
    obtain ⟨ts', hts, rfl⟩ := h
    obtain ⟨hlength, hmem⟩ := Tree.sortAll_ok hts
    exact ⟨rfl, rfl, hlength, hmem⟩

theorem Assignment.Fits.sort {schema : Schema} {a a' : Assignment} (h : a.Fits schema)
    (ha : a.sort = .ok a') : a'.Fits schema := by
  obtain ⟨hmember, hliteral, hlength, -⟩ := Assignment.sort_ok ha
  cases a with
  | literal m s =>
    obtain rfl := Except.ok.inj ha
    trivial
  | children m ts =>
    cases a' with
    | literal m' s => trivial
    | children m' ts' =>
      obtain rfl : m' = m := hmember
      have hlength : ts'.length = ts.length := hlength
      exact h.imp_right (Or.imp_right hlength.trans)

/-- What sorting leaves true of a node holds of every node of a sorted tree. -/
theorem Tree.sort_forall {p : Tree → Prop} (hp : ∀ {t t'}, p t → t.sort = .ok t' → p t')
    {t t' : Tree} (h : t.Forall p) (ht : t.sort = .ok t') : t'.Forall p := by
  induction h generalizing t' with
  | node hself _ ih =>
    obtain ⟨-, hassignments⟩ := Tree.sort_ok ht
    refine .node (hp hself ht) fun a' ha' u' hu' => ?_
    obtain ⟨a, ha, hsort⟩ := hassignments a' ha'
    obtain ⟨-, -, -, htrees⟩ := Assignment.sort_ok hsort
    obtain ⟨u, hu, husort⟩ := htrees u' hu'
    exact ih a ha u hu husort

theorem Tree.sort_fits {schema : Schema} {t t' : Tree} (h : t.Forall (Tree.Fits schema))
    (ht : t.sort = .ok t') : t'.Forall (Tree.Fits schema) := by
  refine Tree.sort_forall (fun {t t'} hfits ht => ?_) h ht
  obtain ⟨htype, hassignments⟩ := Tree.sort_ok ht
  refine ⟨htype ▸ hfits.type, fun a' ha' => ?_⟩
  obtain ⟨a, ha, hsort⟩ := hassignments a' ha'
  exact (hfits.assignments a ha).sort hsort

/-! ## Failures -/

mutual

/-- A tree that is not sorted has a circle. -/
theorem Tree.sort_error : (t : Tree) → {e : Error} → t.sort = .error e →
    ∃ owner names, e = .dependencyCycle owner names
  | .node type name arguments assignments, e, h => by
    rw [Tree.sort] at h
    rcases Answer.bind_eq_error.1 h with harrange | ⟨order, horder, h⟩
    · exact ⟨type, arrange_error harrange⟩
    · rcases Answer.bind_eq_error.1 h with hsorted | ⟨sorted, -, h⟩
      · obtain ⟨entry, hentry, hfails⟩ := mem_of_mapM_error hsorted
        exact Assignment.sortEach_error assignments entry ((arrange_perm horder).mem_iff.1 hentry)
          hfails
      · cases h

theorem Assignment.sort_error : (a : Assignment) → {e : Error} → a.sort = .error e →
    ∃ owner names, e = .dependencyCycle owner names
  | .literal m s, e, h => by cases h
  | .children m trees, e, h => by
    rw [Assignment.sort] at h
    rcases Answer.bind_eq_error.1 h with htrees | ⟨sorted, -, h⟩
    · exact Tree.sortAll_error trees htrees
    · cases h

theorem Assignment.sortEach_error : (as : List Assignment) → {e : Error} →
    (entry : Member × Except Error Assignment) → entry ∈ Assignment.sortEach as →
      entry.2 = .error e → ∃ owner names, e = .dependencyCycle owner names
  | [], e, entry, hentry, h => absurd hentry List.not_mem_nil
  | a :: as, e, entry, hentry, h => by
    rw [Assignment.sortEach] at hentry
    rcases List.mem_cons.1 hentry with rfl | hentry
    · exact Assignment.sort_error a h
    · exact Assignment.sortEach_error as entry hentry h

theorem Tree.sortAll_error : (ts : List Tree) → {e : Error} → Tree.sortAll ts = .error e →
    ∃ owner names, e = .dependencyCycle owner names
  | [], e, h => by cases h
  | t :: ts, e, h => by
    rw [Tree.sortAll] at h
    rcases Answer.bind_eq_error.1 h with ht | ⟨t', -, h⟩
    · exact Tree.sort_error t ht
    · rcases Answer.bind_eq_error.1 h with hts | ⟨ts', -, h⟩
      · exact Tree.sortAll_error ts hts
      · cases h

end

theorem Tree.write_error {t : Tree} {e : Error} (h : t.write = .error e) :
    ∃ owner names, e = .dependencyCycle owner names := by
  rw [write] at h
  cases hsort : t.sort with
  | ok t' =>
    rw [hsort] at h
    cases h
  | error e' =>
    rw [hsort] at h
    cases h
    exact Tree.sort_error t hsort

end ObjectMarkup
