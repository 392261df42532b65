/-
What objects are told of the stages of their construction.

An object that is made for a type with stages is told that it begins, and an object that ends is
told once that it is complete.  The calls that watched services note are compared here with what the
context counts (`Services.Tallied`), and with the objects that are open (`Services.Settles`,
`Services.Begun`).  Each comparison holds after a turn if it held before it.
-/
import ObjectMarkup.Proofs.Turns

namespace ObjectMarkup

open ObjectMarkup.Action (Leaves endState)
open Watched (Notes)

variable {σ : Type}

/-! ## What was told -/

def Call.begun? : Call → Option ObjectId
  | .beginInit id => some id
  | _ => none

def Call.ended? : Call → Option ObjectId
  | .endInit id => some id
  | _ => none

/-- The objects that were told that they begin, in the order of the calls. -/
def begins (calls : List Call) : List ObjectId := calls.filterMap Call.begun?

/-- The objects that were told that they are complete, in the order of the calls. -/
def ends (calls : List Call) : List ObjectId := calls.filterMap Call.ended?

@[simp] theorem begins_append (calls more : List Call) :
    begins (calls ++ more) = begins calls ++ begins more := List.filterMap_append

@[simp] theorem ends_append (calls more : List Call) :
    ends (calls ++ more) = ends calls ++ ends more := List.filterMap_append

theorem mem_begins {calls : List Call} {id : ObjectId} :
    id ∈ begins calls ↔ .beginInit id ∈ calls := by
  rw [begins, List.mem_filterMap]
  constructor
  · rintro ⟨c, hc, hid⟩
    cases c <;> simp [Call.begun?] at hid
    exact hid ▸ hc
  · intro hc
    exact ⟨_, hc, rfl⟩

theorem mem_ends {calls : List Call} {id : ObjectId} :
    id ∈ ends calls ↔ .endInit id ∈ calls := by
  rw [ends, List.mem_filterMap]
  constructor
  · rintro ⟨c, hc, hid⟩
    cases c <;> simp [Call.ended?] at hid
    exact hid ▸ hc
  · intro hc
    exact ⟨_, hc, rfl⟩

/-- The objects that are there stay, and listen or not as they did. -/
def Host.SameEars (host : Host σ) (there : σ → ObjectId → Prop) (heap heap' : σ) : Prop :=
  ∀ id, there heap id → there heap' id ∧ host.listens heap' id = host.listens heap id

section

variable {host : Host σ} {there : σ → ObjectId → Prop}

instance : Std.Refl (host.SameEars there) := ⟨fun _ _ h => ⟨h, rfl⟩⟩

instance : Trans (host.SameEars there) (host.SameEars there) (host.SameEars there) where
  trans := by
    intro h h' h'' hears hears' id hid
    obtain ⟨hthere, hsame⟩ := hears id hid
    obtain ⟨hthere', hsame'⟩ := hears' id hthere
    exact ⟨hthere', hsame'.trans hsame⟩

end

namespace Services

variable (services : Services σ) (there : σ → ObjectId → Prop)

/-- The object that a call makes for a type with stages. -/
def listener? : Call → Option ObjectId
  | .activate type _ made => if (services.schema.traits type).lifecycle then made else none
  | _ => none

/-- The objects that were made for types with stages, in the order of the calls. -/
def listeners (calls : List Call) : List ObjectId := calls.filterMap services.listener?

@[simp] theorem listeners_append (calls more : List Call) :
    services.listeners (calls ++ more) = services.listeners calls ++ services.listeners more :=
  List.filterMap_append

/-- An object that is made for a type with stages listens, and no call changes who listens. -/
structure Hears : Prop where
  activate : ∀ type arguments heap id heap', services.activate type arguments heap = .ok id heap' →
    there heap' id ∧
      ((services.schema.traits type).lifecycle = true → services.host.listens heap' id = true)
  calls : services.CallsLeave (services.host.SameEars there)

/-- No constructor gives an object out that was there. -/
def MakesFresh : Prop := ∀ type arguments heap id heap',
  services.activate type arguments heap = .ok id heap' → ¬ there heap id

/-! ## What is counted -/

/-- What was told agrees with what was made and with what is counted. -/
structure Tallied (w : World (Watched σ)) : Prop where
  begun : begins w.heap.calls = services.listeners w.heap.calls
  count : w.context.lifecycle.begun = (begins w.heap.calls).length
  created : w.context.lifecycle.created = ends w.heap.calls
  once : (ends w.heap.calls).Nodup
  listens : ∀ x ∈ services.listeners w.heap.calls,
    there w.heap.heap x ∧ services.host.listens w.heap.heap x = true
  fresh : services.MakesFresh there → (services.listeners w.heap.calls).Nodup

variable {services there} {m : Machine (Watched σ)} {i : Instruction} {top : Frame}
  {rest : List Frame} {id : ObjectId} {w w' : World (Watched σ)} {as : List Actor}

variable (services) in
theorem nothing_of_aside {more : List Call} (h : ∀ c ∈ more, c.Aside m i) :
    begins more = [] ∧ ends more = [] ∧ services.listeners more = [] := by
  refine ⟨List.filterMap_eq_nil_iff.2 fun c hc => ?_, List.filterMap_eq_nil_iff.2 fun c hc => ?_,
    List.filterMap_eq_nil_iff.2 fun c hc => ?_⟩ <;>
  · have haside := h c hc
    cases c with
    | activate | beginInit | endInit => cases haside
    | _ => rfl

variable (services there) in
/-- More objects were told that they begin, and others that they are complete.  The former were made
for types with stages, and all of it is counted. -/
structure Tells (begun ended : List ObjectId) (w w' : World (Watched σ)) : Prop where
  calls : ∃ more, w'.heap.calls = w.heap.calls ++ more ∧ begins more = begun ∧
    services.listeners more = begun ∧ ends more = ended
  stages : w'.context.lifecycle = {
    begun := w.context.lifecycle.begun + begun.length
    created := w.context.lifecycle.created ++ ended }
  ears : services.host.SameEars there w.heap.heap w'.heap.heap

theorem tells_of_silent (h : World.Silent (services.host.SameEars there) m i w w') :
    services.Tells there [] [] w w' := by
  obtain ⟨more, hmore, haside⟩ := h.notes
  obtain ⟨hbegins, hends, hlisteners⟩ := services.nothing_of_aside haside
  have hstages : w'.context.lifecycle = w.context.lifecycle := h.stages
  exact ⟨⟨more, hmore, hbegins, hlisteners, hends⟩, by simp [hstages], h.heap⟩

/-- A constructor that fails, or makes an object for a type without stages, tells nothing. -/
theorem tells_of_activate {type : TypeName} {arguments : List String} {made : Option ObjectId}
    {heap : σ} (hears : services.host.SameEars there w.heap.heap heap)
    (hdeaf : services.listener? (.activate type arguments made) = none) :
    services.Tells there [] [] w
      (w.setHeap ⟨heap, w.heap.calls ++ [.activate type arguments made]⟩) where
  calls := ⟨[.activate type arguments made], rfl, rfl, by simp [listeners, hdeaf], rfl⟩
  stages := by simp [World.setHeap]
  ears := hears

/-- An object that does not listen was made for a type without stages. -/
theorem Hears.deaf (hears : services.Hears there) {type : TypeName} {arguments : List String}
    {heap heap' : σ} (hactivate : services.activate type arguments heap = .ok id heap')
    (hdeaf : (services.schema.traits type).lifecycle = true →
      services.host.listens heap' id = false) :
    services.listener? (.activate type arguments (some id)) = none := by
  have hstages : (services.schema.traits type).lifecycle = false := by
    refine Bool.eq_false_iff.2 fun hlifecycle => ?_
    have hlistens := (hears.activate _ _ _ _ _ hactivate).2 hlifecycle
    simp [hdeaf hlifecycle] at hlistens
  simp [listener?, hstages]

/-- What making an object tells: the object itself, if it is there and its type has stages. -/
theorem Constructs.tells (hears : services.Hears there) {type : TypeName}
    {arguments : List String} {made : Option ObjectId}
    (h : services.Constructs type arguments w made w') :
    services.Tells there (services.listener? (.activate type arguments made)).toList [] w w' := by
  cases h with
  | fails hactivate =>
    have hdeaf : services.listener? (.activate type arguments none) = none := by simp [listener?]
    rw [hdeaf]
    exact tells_of_activate ((hears.calls.activate type arguments).of_error hactivate) hdeaf
  | @untold id heap hactivate hdeaf =>
    have hdeaf := hears.deaf hactivate hdeaf
    rw [hdeaf]
    exact tells_of_activate ((hears.calls.activate type arguments).of_ok hactivate) hdeaf
  | @told id heap hactivate hlifecycle hlistens =>
    have hmade : services.listener? (.activate type arguments (some id)) = some id := by
      simp [listener?, hlifecycle]
    rw [hmade]
    exact {
      calls := ⟨[.activate type arguments (some id), .beginInit id], rfl, rfl,
        by simp [listeners, listener?, hlifecycle], rfl⟩
      stages := by simp [World.setLifecycle]
      ears := Trans.trans ((hears.calls.activate type arguments).of_ok hactivate)
        (hears.calls.beginInit id heap) }

/-- What ending an object tells: the object itself, or nothing. -/
theorem Completes.tells (hears : services.Hears there) {type : TypeName}
    (h : services.Completes type id w w') : ∃ ended, services.Tells there [] ended w w' ∧
      (ended = [] ∨ ended = [id] ∧ id ∉ w.context.lifecycle.created) := by
  cases h with
  | untold _ =>
    exact ⟨[], ⟨⟨[], by simp, rfl, rfl, rfl⟩, by simp, Std.Refl.refl w.heap.heap⟩, .inl rfl⟩
  | told hlifecycle hnew hlistens =>
    exact ⟨[id], ⟨⟨[.endInit id], rfl, rfl, rfl, rfl⟩, rfl,
      hears.calls.endInit id w.heap.heap⟩, .inr ⟨rfl, hnew⟩⟩

namespace Tallied

theorem tells (h : services.Tallied there w) {begun ended : List ObjectId}
    (htells : services.Tells there begun ended w w')
    (hnew : ∀ x ∈ begun, there w'.heap.heap x ∧ services.host.listens w'.heap.heap x = true ∧
      (services.MakesFresh there → ¬ there w.heap.heap x))
    (hbegun : begun.Nodup) (hended : ended.Nodup)
    (honce : ∀ x ∈ ended, x ∉ w.context.lifecycle.created) : services.Tallied there w' := by
  obtain ⟨⟨more, hmore, hbegun', hlisteners', hended'⟩, hstages, hears⟩ := htells
  have hbegins : begins w'.heap.calls = begins w.heap.calls ++ begun := by simp [hmore, hbegun']
  have hlisteners : services.listeners w'.heap.calls =
      services.listeners w.heap.calls ++ begun := by
    simp [hmore, hlisteners']
  have hends : ends w'.heap.calls = ends w.heap.calls ++ ended := by simp [hmore, hended']
  refine ⟨?_, ?_, ?_, ?_, fun x hx => ?_, fun hfresh => ?_⟩
  · rw [hbegins, hlisteners, h.begun]
  · rw [hstages, hbegins, List.length_append, h.count]
  · rw [hstages, hends, h.created]
  · rw [hends]
    refine List.nodup_append.2 ⟨h.once, hended, ?_⟩
    rintro x hx y hy rfl
    exact honce x hy (h.created ▸ hx)
  · rw [hlisteners] at hx
    rcases List.mem_append.1 hx with hx | hx
    · obtain ⟨hthere, hlistens⟩ := h.listens x hx
      obtain ⟨hthere', hsame⟩ := hears x hthere
      exact ⟨hthere', hsame.trans hlistens⟩
    · exact ⟨(hnew x hx).1, (hnew x hx).2.1⟩
  · rw [hlisteners]
    refine List.nodup_append.2 ⟨h.fresh hfresh, hbegun, ?_⟩
    rintro x hx y hy rfl
    exact (hnew x hy).2.2 hfresh (h.listens x hx).1

theorem silent (h : services.Tallied there w)
    (hsilent : World.Silent (services.host.SameEars there) m i w w') :
    services.Tallied there w' :=
  h.tells (tells_of_silent hsilent) (by simp) List.nodup_nil List.nodup_nil (by simp)

/-- An object that is made for a type with stages is told that it begins. -/
theorem constructs (hears : services.Hears there) (h : services.Tallied there w) {type : TypeName}
    {arguments : List String} {made : Option ObjectId}
    (hconstructs : services.Constructs type arguments w made w') :
    services.Tallied there w' := by
  refine h.tells (hconstructs.tells hears) (fun x hx => ?_) (by cases services.listener? _ <;> simp)
    List.nodup_nil (by simp)
  cases hconstructs with
  | fails _ => simp [listener?] at hx
  | untold hactivate hdeaf => simp [hears.deaf hactivate hdeaf] at hx
  | @told id heap hactivate hlifecycle hlistens =>
    obtain rfl : x = id := by simpa [listener?, hlifecycle] using hx
    obtain ⟨hthere, -⟩ := hears.activate _ _ _ _ _ hactivate
    obtain ⟨hthere', hsame⟩ := hears.calls.beginInit x heap x hthere
    exact ⟨hthere', hsame.trans hlistens, fun hfresh => hfresh _ _ _ _ _ hactivate⟩

/-- An object that ends is told once that it is complete. -/
theorem completes (hears : services.Hears there) (h : services.Tallied there w) {type : TypeName}
    (hcompletes : services.Completes type id w w') : services.Tallied there w' := by
  obtain ⟨ended, htells, rfl | ⟨rfl, hnew⟩⟩ := hcompletes.tells hears
  · exact h.tells htells (by simp) List.nodup_nil List.nodup_nil (by simp)
  · exact h.tells htells (by simp) List.nodup_nil (by simp) (by simpa using hnew)

theorem obtains (hears : services.Hears there) (h : services.Tallied there m.world)
    (hobtains : services.Obtains (services.host.SameEars there) m i top id w) :
    services.Tallied there w := by
  cases hobtains with
  | found _ => exact h
  | made _ hconstructs hsilent =>
    exact (h.constructs hears hconstructs).silent hsilent

theorem turn (hears : services.Hears there) (h : services.Tallied there m.world)
    (hturn : services.Turn (services.host.SameEars there) m i as w) :
    services.Tallied there w := by
  cases hturn with
  | silent hsilent => exact h.silent hsilent
  | enters _ hsilent => exact h.silent hsilent
  | leaves _ _ => exact h
  | makes _ _ _ hconstructs hsilent =>
    exact (h.constructs hears hconstructs).silent hsilent
  | ends _ _ _ _ _ hobtains hcompletes hsilent =>
    exact ((h.obtains hears hobtains).completes hears hcompletes).silent
      hsilent

end Tallied
/-! ## The objects that are open -/

variable (services) in
/-- The object is open, as one that was made here for a type with stages. -/
def Opens (x : ObjectId) (a : Actor) : Prop :=
  a.object = some x ∧ a.isPlaceholder = false ∧ (services.schema.traits a.type).lifecycle = true

variable (services) in
/-- The object is open above the outermost `base` objects. -/
def OpenAbove (base : Nat) (x : ObjectId) : List Actor → Prop
  | [] => False
  | a :: as => (base ≤ as.length ∧ services.Opens x a) ∨ OpenAbove base x as

theorem not_openAbove {base : Nat} {x : ObjectId} (h : as.length ≤ base) :
    ¬ services.OpenAbove base x as := by
  induction as with
  | nil => exact id
  | cons a as ih =>
    rintro (⟨hbase, -⟩ | hopen)
    · rw [List.length_cons] at h
      omega
    · exact ih (by rw [List.length_cons] at h; omega) hopen

variable (services) in
/-- Of the objects that were made for types with stages after the calls `since`, each was told that
it is complete, or is open above the outermost `base` objects. -/
def Settles (base : Nat) (since : List Call) (as : List Actor) (calls : List Call) : Prop :=
  ∃ more, calls = since ++ more ∧
    ∀ x ∈ services.listeners more, x ∈ ends calls ∨ services.OpenAbove base x as

variable (services) in
theorem settles_self (base : Nat) (as : List Actor) (calls : List Call) :
    services.Settles base calls as calls :=
  ⟨[], by simp, by simp [listeners]⟩

/-- What was made stays settled when what is open stays open or is told that it is complete. -/
theorem Settles.tells {base : Nat} {since : List Call} {as' : List Actor}
    (h : services.Settles base since as w.heap.calls) {begun ended : List ObjectId}
    (htells : services.Tells there begun ended w w')
    (hbegun : ∀ x ∈ begun, services.OpenAbove base x as')
    (hopen : ∀ x ∈ services.listeners w.heap.calls, services.OpenAbove base x as →
      x ∈ ends w'.heap.calls ∨ services.OpenAbove base x as') :
    services.Settles base since as' w'.heap.calls := by
  obtain ⟨more, hmore, hsettled⟩ := h
  obtain ⟨added, hadded, -, hlisteners, -⟩ := htells.calls
  refine ⟨more ++ added, by rw [hadded, hmore, List.append_assoc], fun x hx => ?_⟩
  rw [listeners_append, hlisteners] at hx
  rcases List.mem_append.1 hx with hx | hx
  · rcases hsettled x hx with hended | hopened
    · left
      rw [hadded, ends_append]
      exact List.mem_append_left _ hended
    · exact hopen x (by simp [hmore, hx]) hopened
  · exact .inr (hbegun x hx)

theorem Settles.silent {base : Nat} {since : List Call}
    (h : services.Settles base since as w.heap.calls)
    (hsilent : World.Silent (services.host.SameEars there) m i w w') :
    services.Settles base since as w'.heap.calls :=
  h.tells (tells_of_silent hsilent) (by simp) fun _ _ => .inr

/-- The object of the innermost frame is made while it is open. -/
theorem Settles.constructs (hears : services.Hears there) {base : Nat} {since : List Call}
    {made : Option ObjectId} (hbase : base ≤ rest.length) (hsite : top.site = none)
    (hp : top.isPlaceholder = false)
    (h : services.Settles base since (top.actor :: rest.map Frame.actor) w.heap.calls)
    (hconstructs : services.Constructs top.type top.arguments w made w') :
    services.Settles base since ({ top.actor with object := made } :: rest.map Frame.actor)
      w'.heap.calls := by
  refine h.tells (hconstructs.tells hears) (fun x hx => ?_) ?_
  · obtain ⟨hlifecycle, rfl⟩ :
        (services.schema.traits top.type).lifecycle = true ∧ made = some x := by
      simpa [listener?] using hx
    exact .inl ⟨by simpa using hbase, rfl, hp, hlifecycle⟩
  · rintro x - (⟨-, hobject, -⟩ | hopen)
    · simp [Frame.actor, Frame.object, hsite] at hobject
    · exact .inr (.inr hopen)

theorem Settles.obtains (hears : services.Hears there) {base : Nat} {since : List Call}
    (hbase : base ≤ rest.length) (hp : top.isPlaceholder = false) (hs : m.stack = top :: rest)
    (h : services.Settles base since m.actors m.world.heap.calls)
    (hobtains : services.Obtains (services.host.SameEars there) m i top id w) :
    services.Settles base since ({ top.actor with object := some id } :: rest.map Frame.actor)
      w.heap.calls := by
  rw [Machine.actors_of_stack hs] at h
  cases hobtains with
  | found hobject =>
    rw [← hobject]
    exact h
  | made hsite hconstructs hsilent =>
    exact (h.constructs hears hbase hsite hp hconstructs).silent hsilent

/-- An object that listens and ends is told that it is complete, if it was not told before. -/
theorem Completes.ended (h : services.Tallied there w) {type : TypeName}
    (hcompletes : services.Completes type id w w')
    (hlifecycle : (services.schema.traits type).lifecycle = true)
    (hlistens : services.host.listens w.heap.heap id = true) : id ∈ ends w'.heap.calls := by
  cases hcompletes with
  | told _ _ _ =>
    rw [mem_ends]
    exact List.mem_append_right _ (List.mem_singleton_self _)
  | untold htold =>
    rw [← h.created]
    exact htold hlifecycle hlistens

/-- An object that ends leaves nothing of it unsettled. -/
theorem Settles.completes (hears : services.Hears there) (htallied : services.Tallied there w)
    {base : Nat} {since : List Call} {a : Actor} (ha : a.object = some id)
    (h : services.Settles base since (a :: as) w.heap.calls)
    (hcompletes : services.Completes a.type id w w') :
    services.Settles base since as w'.heap.calls := by
  obtain ⟨ended, htells, -⟩ := hcompletes.tells hears
  refine h.tells htells (by simp) ?_
  rintro x hx (⟨-, hobject, -, hlifecycle⟩ | hopen)
  · obtain rfl : id = x := Option.some.inj (ha.symm.trans hobject)
    exact .inl (hcompletes.ended htallied hlifecycle (htallied.listens id hx).2)
  · exact .inr hopen

/-- What was made inside stays settled as long as the objects around it are open. -/
theorem Turn.settles (hears : services.Hears there) {maxDepth : Nat} (hm : m.Sound maxDepth)
    (htallied : services.Tallied there m.world) {base : Nat} {since : List Call}
    (hbase : base < m.level ∨ base < as.length)
    (h : services.Settles base since m.actors m.world.heap.calls)
    (hturn : services.Turn (services.host.SameEars there) m i as w) :
    services.Settles base since as w.heap.calls := by
  have hlevel : ∀ {top rest}, m.stack = top :: rest → m.level = rest.length + 1 := by
    intro top rest hs
    rw [Machine.level, hs, List.length_cons]
  cases hturn with
  | silent hsilent => exact h.silent hsilent
  | enters _ hsilent =>
    exact h.tells (tells_of_silent hsilent) (by simp) fun x _ hopen => .inr (.inr hopen)
  | leaves hs hp =>
    rw [Machine.actors_of_stack hs] at h
    have same : World.Silent (services.host.SameEars there) m i m.world m.world :=
      Std.Refl.refl m.world
    refine h.tells (tells_of_silent same) (by simp) ?_
    rintro x - (⟨-, -, hown, -⟩ | hopen)
    · exact absurd (hp.symm.trans hown) (by simp)
    · exact .inr hopen
  | @makes top rest made w w' hr hs hsite hconstructs hsilent =>
    have hp : top.isPlaceholder = false := by
      refine Bool.eq_false_iff.2 fun hp => ?_
      simpa [hsite] using (hm.frames top (by simp [hs])).site_of_placeholder hp
    have hle : base ≤ rest.length := by
      rw [hlevel hs, List.length_cons, List.length_map] at hbase
      omega
    rw [Machine.actors_of_stack hs] at h
    exact (h.constructs hears hle hsite hp hconstructs).silent hsilent
  | @ends top rest id w w₁ w' hi hr hs ht hp hobtains hcompletes hsilent =>
    have hle : base ≤ rest.length := by
      rw [hlevel hs, List.length_map] at hbase
      omega
    have hsettled := h.obtains hears hle hp hs hobtains
    exact (hsettled.completes hears (htallied.obtains hears hobtains) rfl hcompletes).silent hsilent

/-! ## Who was told that it begins -/

variable (services) in
/-- Each open object that was made here for a type with stages was told that it begins.  The
outermost one was not made here if it is `root`. -/
def Begun (root : Option ObjectId) (calls : List Call) : List Actor → Prop
  | [] => True
  | a :: as => ((as = [] → root = none) → ∀ x, services.Opens x a → x ∈ begins calls) ∧
      Begun root calls as

variable {root : Option ObjectId} {calls : List Call}

theorem Begun.mono {more : List Call} (h : services.Begun root calls as) :
    services.Begun root (calls ++ more) as := by
  induction as with
  | nil => trivial
  | cons a as ih =>
    refine ⟨fun hown x hopens => ?_, ih h.2⟩
    rw [begins_append]
    exact List.mem_append_left _ (h.1 hown x hopens)

theorem Begun.at {above below : List Actor} {a : Actor}
    (h : services.Begun root calls (above ++ a :: below)) (hown : below = [] → root = none)
    {x : ObjectId} (hopens : services.Opens x a) : x ∈ begins calls := by
  induction above with
  | nil => exact h.1 hown x hopens
  | cons b above ih => exact ih h.2

/-- An object that is made for a type with stages was told that it begins. -/
theorem Constructs.begun (hears : services.Hears there) {type : TypeName} {arguments : List String}
    (h : services.Constructs type arguments w (some id) w')
    (hlifecycle : (services.schema.traits type).lifecycle = true) : id ∈ begins w'.heap.calls := by
  obtain ⟨more, hmore, hbegins, -⟩ := (h.tells hears).calls
  rw [hmore, begins_append, hbegins]
  exact List.mem_append_right _ (by simp [listener?, hlifecycle])

theorem Begun.heapsIn {kind : Call → Prop} (h : services.Begun root w.heap.calls as)
    (hw : w.HeapsIn (Notes kind) w') : services.Begun root w'.heap.calls as := by
  obtain ⟨more, hmore, -⟩ := hw
  rw [hmore]
  exact h.mono

theorem Turn.begun (hears : services.Hears there)
    (hroot : m.supplied.isSome = true → root.isSome = true)
    (h : services.Begun root m.world.heap.calls m.actors)
    (hturn : services.Turn (services.host.SameEars there) m i as w) :
    services.Begun root w.heap.calls as := by
  have hnotes := hturn.notes
  cases hturn with
  | silent _ => exact h.heapsIn hnotes
  | enters ha _ =>
    refine ⟨fun hown x hopens => ?_, h.heapsIn hnotes⟩
    obtain ⟨hobject, hp, -⟩ := hopens
    rcases ha with hnone | hplaceholder | ⟨hs, hsupplied⟩
    · simp [hnone] at hobject
    · simp [hplaceholder] at hp
    · have hnone := hown (by simp [Machine.actors, hs])
      simpa [hnone] using hroot hsupplied
  | leaves hs _ =>
    rw [Machine.actors_of_stack hs] at h
    exact h.2
  | @makes top rest made w₁ w' hr hs hsite hconstructs hsilent =>
    rw [Machine.actors_of_stack hs] at h
    refine ⟨fun hown x hopens => ?_, h.2.heapsIn hnotes⟩
    obtain ⟨hobject, -, hlifecycle⟩ := hopens
    obtain rfl : made = some x := hobject
    obtain ⟨more, hmore, -⟩ := hsilent.notes
    rw [hmore, begins_append]
    exact List.mem_append_left _ (hconstructs.begun hears hlifecycle)
  | ends _ _ hs _ _ _ _ _ =>
    rw [Machine.actors_of_stack hs] at h
    exact h.2.heapsIn hnotes

end Services
end ObjectMarkup
