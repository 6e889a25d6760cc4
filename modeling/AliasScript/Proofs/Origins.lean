import AliasScript.Proofs.CallTree
import Mathlib.Logic.Function.Basic

/-!
# Where copies come from

Resolving puts new lists in the place of older ones. When every new list is read as the older one
that it is a copy of, whatever a container holds still leads where something led that this container
held before (`Projects`). So a container that is met again while it is being resolved reached itself
from the beginning (`Call.Starts.not_meetsAgain`).
-/

namespace AliasScript

open Relation

/-! ## Values by way of their origins -/

/-- A value, with the container that it comes from in its place. -/
def Value.via (origin : Addr → Addr) : Value → Value
  | .scalar s => .scalar s
  | .cell a => .cell (origin a)

def Binding.via (origin : Addr → Addr) : Binding → Binding
  | .value v => .value (v.via origin)
  | .reference r => .reference r

/-- The containers below a size have the same origins. -/
def AgreeBelow (n : Nat) (origin origin' : Addr → Addr) : Prop := ∀ a < n, origin' a = origin a

namespace AgreeBelow

variable {n m : Nat} {origin origin' origin'' : Addr → Addr}

theorem refl : AgreeBelow n origin origin := fun _ _ => rfl

theorem trans (g : AgreeBelow n origin origin') (le : n ≤ m) (k : AgreeBelow m origin' origin'') :
    AgreeBelow n origin origin'' :=
  fun a lt => (k a (Nat.lt_of_lt_of_le lt le)).trans (g a lt)

theorem update (n a : Addr) : AgreeBelow n origin (Function.update origin n a) :=
  fun _ lt => Function.update_of_ne (Nat.ne_of_lt lt) ..

theorem value (g : AgreeBelow n origin origin') {v : Value} (within : v.Within n) :
    v.via origin' = v.via origin := by
  cases v with
  | scalar s => rfl
  | cell a => exact congrArg Value.cell (g a within)

theorem binding (g : AgreeBelow n origin origin') {b : Binding} (within : b.Within n) :
    b.via origin' = b.via origin := by
  cases b with
  | value v => exact congrArg Binding.value (g.value within)
  | reference r => rfl

end AgreeBelow

@[simp] theorem Binding.via_id (b : Binding) : b.via id = b := by rcases b with (_ | _) | _ <;> rfl

theorem Value.via_ne_nothing {origin : Addr → Addr} {v : Value} (some : v ≠ .nothing) :
    v.via origin ≠ .nothing := by
  cases v with
  | scalar s => exact some
  | cell a => exact fun same => nomatch same

/-! ## Heaps by way of origins -/

/-- By way of their origins, the containers hold what leads where something held by the older ones
leads. -/
structure Projects (names : Table Binding) (old : Heap) (origin : Addr → Addr) (h : Heap) :
    Prop where
  size_le : old.size ≤ h.size
  older : AgreeBelow old.size id origin
  slots : ∀ a key v, v ≠ .nothing → Leads names old ((h.readAttribute (.cell a) key).via origin) v →
    Leads names old (old.readAttribute (.cell (origin a)) key) v
  parts : ∀ a b, Part h a b → ∃ b₀, Part old (origin a) b₀ ∧
    ∀ v, Leads names old (b.via origin) v → Leads names old b₀ v

variable {names : Table Binding} {old h h' : Heap} {origin : Addr → Addr}

namespace Projects

theorem refl (names : Table Binding) (h : Heap) : Projects names h id h where
  size_le := Nat.le_refl _
  older _ _ := rfl
  slots _ _ v _ leads := by rwa [Binding.via_id] at leads
  parts _ b part := ⟨b, part, fun v leads => by rwa [Binding.via_id] at leads⟩

variable (g : Projects names old origin h)
include g

/-- By way of origins a binding leads where it led in the older heap. -/
theorem leads (before : Closed names old) {b : Binding} {v : Value} (leads : Leads names h b v) :
    Leads names old (b.via origin) (v.via origin) := by
  have read : ∀ n, (names.read n).via origin = names.read n := by
    intro n
    rw [g.older.binding (before.read n), Binding.via_id]
  induction leads with
  | value v => exact .value _
  | @name n v _ some ih =>
    rw [read] at ih
    exact .name ih (Value.via_ne_nothing some)
  | @path obj attr base v _ inner some ihBase ih =>
    rw [read] at ihBase
    cases base with
    | scalar s => exact absurd (leads_value_iff.1 inner) some
    | cell a =>
      have some' : v.via origin ≠ .nothing := Value.via_ne_nothing some
      exact .path ihBase (g.slots a attr _ some' ih) some'

theorem links {a c : Addr} {b : Binding} (part : Part h a b)
    (leads : Leads names old (b.via origin) (.cell c)) : Links names old (origin a) c := by
  obtain ⟨b₀, part₀, led⟩ := g.parts a b part
  exact ⟨b₀, part₀, led _ leads⟩

theorem alloc_list (closed : Closed names h) {a : Addr} {type : Option String} {vs : List Value}
    (within : ∀ v ∈ vs, v.Within h.size)
    (items : ∀ v ∈ vs, ∃ b₀, Part old (origin a) b₀ ∧ Leads names old b₀ (v.via origin)) :
    Projects names old (Function.update origin h.size (origin a))
      (h.alloc (.list type (vs.map .value))).2 := by
  -- Only the origin of the new address is another one, and nothing refers to it yet.
  have agree : AgreeBelow h.size origin _ := .update h.size (origin a)
  refine ⟨?_, g.older.trans g.size_le agree, fun x key v some leads => ?_, fun x b part => ?_⟩
  · rw [Heap.size_alloc]
    exact Nat.le_succ_of_le g.size_le
  · rw [Heap.readAttribute_alloc_list, agree.binding (closed.readAttribute _ _)] at leads
    by_cases lt : x < h.size
    · rw [agree x lt]
      exact g.slots x key v some leads
    · rw [Heap.readAttribute, Heap.get?_eq_none_of_le (Nat.le_of_not_lt lt)] at leads
      exact absurd (leads_value_iff.1 leads) some
  · rcases part.of_alloc_list with ⟨rfl, mem⟩ | part
    · obtain ⟨v, mem', rfl⟩ := List.mem_map.1 mem
      obtain ⟨b₀, part, leads⟩ := items v mem'
      rw [Function.update_self]
      refine ⟨b₀, part, fun w led => ?_⟩
      rw [Binding.via, agree.value (within v mem'), leads_value_iff] at led
      rwa [led]
    · rw [agree.binding (part.within closed), agree x part.lt_size]
      exact g.parts x b part

theorem setAttribute {a : Addr} {type : Option String} {attrs : Table Binding} {key : String}
    {b : Binding} {v : Value} (there : h.get? a = some (.object type attrs))
    (slot : attrs.get? key = some b) (led : Leads names old (b.via origin) (v.via origin)) :
    Projects names old origin (h.setAttribute a key (.value v)) := by
  refine ⟨?_, g.older, fun x key' w some leads => ?_, fun x c part => ?_⟩
  · rw [Heap.size_setAttribute]
    exact g.size_le
  · rw [Heap.readAttribute_setAttribute there] at leads
    split at leads
    · next same =>
      obtain ⟨⟨⟩, rfl⟩ := same
      rw [Binding.via, leads_value_iff] at leads
      subst leads
      refine g.slots a key' _ some ?_
      rwa [Heap.readAttribute_of_get? there slot]
    · exact g.slots x key' w some leads
  · rcases part.of_setAttribute there with ⟨rfl, rfl⟩ | part
    · obtain ⟨b₀, part₀, leads⟩ := g.parts x b (.slot there slot)
      refine ⟨b₀, part₀, fun w found => ?_⟩
      rw [Binding.via, leads_value_iff] at found
      rw [found]
      exact leads _ led
    · exact g.parts x c part

end Projects

theorem Projects.settle {active : List Addr} {a : Addr} {key : String} {keys : List String}
    {v : Value} {origin' : Addr → Addr} (g : Projects names old origin' h')
    (call : Resolves names (a :: active) (h.readAttribute (.cell a) key) h (.ok v) h')
    (closed : Closed names h) (object : h.HasAttributes a (key :: keys))
    (agree : AgreeBelow h.size origin origin')
    (led : Leads names old ((h.readAttribute (.cell a) key).via origin) (v.via origin')) :
    Projects names old origin' (h'.setAttribute a key (.value v)) := by
  obtain ⟨type, attrs, there, named⟩ := object
  obtain ⟨b, slot⟩ := Table.exists_get?_of_mem_names (named key (List.mem_cons_self ..))
  rw [← agree.binding (closed.readAttribute _ _), Heap.readAttribute_of_get? there slot] at led
  exact g.setAttribute (call.slot closed there slot).1 slot led

/-! ## Resolving keeps to the origins -/

mutual

theorem Resolves.projects (before : Closed names old) {active : List Addr} {b : Binding}
    {h h' : Heap} {origin : Addr → Addr} {result : Except Fault Value} (closed : Closed names h)
    (g : Projects names old origin h) :
    Resolves names active b h result h' → ∃ origin', AgreeBelow h.size origin origin' ∧
      Projects names old origin' h' ∧
        ∀ v, result = .ok v → Leads names old (b.via origin) (v.via origin')
  | .lost _ => ⟨origin, .refl, g, fun _ same => nomatch same⟩
  | .inert found _ => by
    refine ⟨origin, .refl, g, fun v same => ?_⟩
    cases same
    exact g.leads before (leads_of_deref found)
  | @Resolves.list _ _ _ _ made a type items vs found fresh there calls => by
    have inside := closed.cells a _ there
    obtain ⟨changes, results⟩ := calls.changes closed inside
    obtain ⟨origin', agree, g', items'⟩ := calls.projects before closed inside g
    refine ⟨_, agree.trans changes.size_le (.update made.size (origin' a)),
      g'.alloc_list (changes.closed closed) (results vs rfl) fun v mem => ?_, fun v same => ?_⟩
    · obtain ⟨c, mem', leads⟩ := items' vs rfl v mem
      obtain ⟨b₀, part, led⟩ := g.parts a c (.item there mem')
      rw [agree a (Heap.lt_size_of_get? there)]
      exact ⟨b₀, part, led _ leads⟩
    · cases same
      rw [Value.via, Function.update_self, agree a (Heap.lt_size_of_get? there)]
      exact g.leads before (leads_of_deref found)
  | .listFails found fresh there calls => by
    obtain ⟨origin', agree, g', -⟩ := calls.projects before closed (closed.cells _ _ there) g
    exact ⟨origin', agree, g', fun _ same => nomatch same⟩
  | @Resolves.object _ _ _ _ _ a type attrs r found fresh there calls => by
    obtain ⟨origin', agree, g'⟩ := calls.projects before closed fresh
      (Heap.hasAttributes_of_get? there) g
    refine ⟨origin', agree, g', fun v same => ?_⟩
    cases r with
    | error e => cases same
    | ok =>
      cases same
      rw [Value.via, agree a (Heap.lt_size_of_get? there)]
      exact g.leads before (leads_of_deref found)

theorem ResolvesItems.projects (before : Closed names old) {active : List Addr}
    {items : List Binding} {h h' : Heap} {origin : Addr → Addr}
    {result : Except Fault (List Value)} (closed : Closed names h)
    (within : ∀ b ∈ items, b.Within h.size) (g : Projects names old origin h) :
    ResolvesItems names active items h result h' → ∃ origin', AgreeBelow h.size origin origin' ∧
      Projects names old origin' h' ∧ ∀ vs, result = .ok vs → ∀ v ∈ vs, ∃ b ∈ items,
        Leads names old (b.via origin) (v.via origin')
  | .noItems => by
    refine ⟨origin, .refl, g, fun vs same v mem => ?_⟩
    cases same
    cases mem
  | @ResolvesItems.item _ _ b items h h' h'' v r call calls => by
    have first := within b (List.mem_cons_self ..)
    obtain ⟨changes, result⟩ := call.changes closed first
    have rest := fun c mem => within c (List.mem_cons_of_mem b mem)
    obtain ⟨origin', agree, g', led⟩ := call.projects before closed g
    obtain ⟨origin'', agree', g'', led'⟩ := calls.projects before (changes.closed closed)
      (fun c mem => (rest c mem).mono changes.size_le) g'
    refine ⟨origin'', agree.trans changes.size_le agree', g'', fun vs same w mem => ?_⟩
    cases r with
    | error e => cases same
    | ok ws =>
      cases same
      rcases List.mem_cons.1 mem with rfl | mem
      · rw [agree'.value (result w rfl).1]
        exact ⟨b, List.mem_cons_self .., led w rfl⟩
      · obtain ⟨c, mem', leads⟩ := led' ws rfl w mem
        rw [agree.binding (rest c mem')] at leads
        exact ⟨c, List.mem_cons_of_mem _ mem', leads⟩
  | .itemFails call => by
    obtain ⟨origin', agree, g', -⟩ := call.projects before closed g
    exact ⟨origin', agree, g', fun _ same => nomatch same⟩

theorem ResolvesAttributes.projects (before : Closed names old) {active : List Addr} {a : Addr}
    {keys : List String} {h h' : Heap} {origin : Addr → Addr} {result : Except Fault Unit}
    (closed : Closed names h) (fresh : a ∉ active) (object : h.HasAttributes a keys)
    (g : Projects names old origin h) : ResolvesAttributes names active a keys h result h' →
      ∃ origin', AgreeBelow h.size origin origin' ∧ Projects names old origin' h'
  | .noAttributes => ⟨origin, .refl, g⟩
  | @ResolvesAttributes.attr _ _ _ key keys h h' h'' v r call calls => by
    have changes := call.changes_setAttribute closed fresh object
    obtain ⟨origin', agree, g', led⟩ := call.projects before closed g
    obtain ⟨origin'', agree', g''⟩ := calls.projects before (changes.closed closed) fresh
      (changes.hasAttributes object.tail) (g'.settle call closed object agree (led v rfl))
    exact ⟨origin'', agree.trans changes.size_le agree', g''⟩
  | .attrFails call => by
    obtain ⟨origin', agree, g', -⟩ := call.projects before closed g
    exact ⟨origin', agree, g'⟩

end

/-! ## Calls below a call -/

theorem ItemCall.projects (before : Closed names old) {active : List Addr} {items : List Binding}
    {h h' : Heap} {vs : List Value} {d : Call} (call : ItemCall names active items h vs h' d)
    (closed : Closed names h) (within : ∀ b ∈ items, b.Within h.size) {origin : Addr → Addr}
    (g : Projects names old origin h) :
    ∃ origin', AgreeBelow h.size origin origin' ∧ Projects names old origin' d.heap := by
  induction call generalizing origin with
  | first => exact ⟨origin, .refl, g⟩
  | later call _ ih =>
    have first := within _ (List.mem_cons_self ..)
    have changes := (call.changes closed first).1
    obtain ⟨origin', agree, g', -⟩ := call.projects before closed g
    obtain ⟨origin'', agree', g''⟩ := ih (changes.closed closed)
      (fun c mem => (within c (List.mem_cons_of_mem _ mem)).mono changes.size_le) g'
    exact ⟨origin'', agree.trans changes.size_le agree', g''⟩

theorem SlotCall.projects (before : Closed names old) {active : List Addr} {a : Addr}
    {keys : List String} {h h' : Heap} {key : String} {d : Call}
    (call : SlotCall names active a keys h h' key d) (closed : Closed names h) (fresh : a ∉ active)
    (object : h.HasAttributes a keys) {origin : Addr → Addr} (g : Projects names old origin h) :
    ∃ origin', AgreeBelow h.size origin origin' ∧ Projects names old origin' d.heap := by
  induction call generalizing origin with
  | first => exact ⟨origin, .refl, g⟩
  | later call _ ih =>
    have changes := call.changes_setAttribute closed fresh object
    obtain ⟨origin', agree, g', led⟩ := call.projects before closed g
    obtain ⟨origin'', agree', g''⟩ := ih (changes.closed closed) (changes.hasAttributes object.tail)
      (g'.settle call closed object agree (led _ rfl))
    exact ⟨origin'', agree.trans changes.size_le agree', g''⟩

namespace Call

theorem Makes.projects {c d : Call} (makes : c.Makes names d) (before : Closed names old)
    (closed : Closed names c.heap) {origin : Addr → Addr} (g : Projects names old origin c.heap) :
    ∃ origin', AgreeBelow c.heap.size origin origin' ∧ Projects names old origin' d.heap := by
  cases makes with
  | item copies call => exact call.projects before closed (closed.cells _ _ copies.there) g
  | slot fills call =>
    exact call.projects before closed fills.fresh (Heap.hasAttributes_of_get? fills.there) g

/-- By way of origins, what a call is on is reached by the call at the top, and every container being
resolved reaches it. -/
structure Traced (names : Table Binding) (root c : Call) (origin : Addr → Addr) : Prop where
  projects : Projects names root.heap origin c.heap
  there : ∀ a ∈ c.active, a < c.heap.size
  reached : ∀ y, Leads names root.heap (c.binding.via origin) (.cell y) →
    Reached names root.heap root.binding y
  linked : ∀ y, Leads names root.heap (c.binding.via origin) (.cell y) → ∀ a ∈ c.active,
    TransGen (Links names root.heap) (origin a) y

theorem Makes.traced {root c d : Call} (makes : c.Makes names d) (before : Closed names root.heap)
    (closed : Closed names c.heap) {origin : Addr → Addr} (g : Traced names root c origin) :
    ∃ origin', Traced names root d origin' := by
  obtain ⟨origin', agree, projects⟩ := makes.projects before closed g.projects
  obtain ⟨a, ⟨cell, finds, -⟩, active, part⟩ := makes.part closed
  have lt := Heap.lt_size_of_get? finds.there
  have led := g.projects.leads before (leads_of_deref finds.found)
  have le := (makes.sound closed).2.2.2.1.size_le
  have link : ∀ y, Leads names root.heap (d.binding.via origin') (.cell y) →
      Links names root.heap (origin a) y := fun y leads => agree a lt ▸ projects.links part leads
  refine ⟨origin', projects, fun x mem => ?_, fun y leads => ?_, fun y leads x mem => ?_⟩
  · rw [active] at mem
    rcases List.mem_cons.1 mem with rfl | mem
    · exact Nat.lt_of_lt_of_le lt le
    · exact Nat.lt_of_lt_of_le (g.there x mem) le
  · exact scope_reached _ _ _ (g.reached _ led) (link y leads)
  · rw [active] at mem
    rcases List.mem_cons.1 mem with rfl | mem
    · rw [agree x lt]
      exact .single (link y leads)
    · rw [agree x (g.there x mem)]
      exact .tail (g.linked _ led x mem) (link y leads)

/-- Where nothing reached reaches itself, no call meets a container again. -/
theorem Starts.not_meetsAgain {root c : Call} (starts : root.Starts names)
    (below : root.Below names c) (acyclic : ∀ a, Reached names root.heap root.binding a →
      ¬ TransGen (Links names root.heap) a a) (a : Addr) : ¬ c.MeetsAgain names a := by
  -- The induction goes down from the call at the top, with more origins known at every step.
  have traced : ∃ origin, Traced names root c origin := by
    induction below with
    | refl =>
      refine ⟨id, .refl names root.heap, ?_, fun y leads => ?_, ?_⟩
      · simp [starts.top]
      · rw [Binding.via_id] at leads
        exact ⟨y, leads, .refl⟩
      · simp [starts.top]
    | tail above makes ih =>
      obtain ⟨origin, g⟩ := ih
      exact makes.traced starts.closed (starts.sound above).closed g
  obtain ⟨origin, g⟩ := traced
  rintro ⟨found, mem⟩
  have led := g.projects.leads starts.closed (leads_of_deref found)
  exact acyclic _ (g.reached _ led) (g.linked _ led a mem)

end Call

end AliasScript
