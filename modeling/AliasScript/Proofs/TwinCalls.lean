import AliasScript.Proofs.Calls
import AliasScript.Proofs.Twins

/-!
# Resolving on twins

Resolving twins makes the same calls on either side, in the same order, and each of them leaves
twins (`Resolves.twins`). A list that is copied on one side is copied on the other one, and the copies
are a new pair.
-/

namespace AliasScript

/-! ## What a call is known to do -/

theorem Heap.LeavesAlone.isInert {h : Heap} {active : List Addr} {a : Addr} {c : Cell}
    (alone : h.LeavesAlone active (.cell a)) (new : a ∉ active) (there : h.get? a = some c) :
    c.IsInert := alone.resolve_left new c there

section

variable {names : Table Binding} {active : List Addr} {b : Binding} {h h' : Heap}
  {r : Except Fault Value} (call : Resolves names active b h r h')
include call

theorem Resolves.of_error {e : Fault} (failed : deref names h b = .error e) :
    r = .error e ∧ h' = h := by
  cases call with
  | lost failed' =>
    cases failed.symm.trans failed'
    exact ⟨rfl, rfl⟩
  | inert found _ | list found _ _ _ | listFails found _ _ _ | object found _ _ _ =>
    cases failed.symm.trans found

theorem Resolves.of_leavesAlone {v : Value} (found : deref names h b = .ok v)
    (alone : h.LeavesAlone active v) : r = .ok v ∧ h' = h := by
  cases call with
  | lost failed => cases found.symm.trans failed
  | inert found' _ =>
    cases found.symm.trans found'
    exact ⟨rfl, rfl⟩
  | list found' new there _ | listFails found' new there _ | object found' new there _ =>
    cases found.symm.trans found'
    exact (alone.isInert new there).elim

variable {a : Addr} {type : Option String} (found : deref names h b = .ok (.cell a))
  (new : a ∉ active)
include found new

theorem Resolves.of_list {items : List Binding} (there : h.get? a = some (.list type items)) :
    (∃ vs made, ResolvesItems names (a :: active) items h (.ok vs) made ∧
      r = .ok (.cell made.size) ∧ h' = (made.alloc (.list type (vs.map .value))).2) ∨
    ∃ e, ResolvesItems names (a :: active) items h (.error e) h' ∧ r = .error e := by
  cases call with
  | lost failed => cases found.symm.trans failed
  | inert found' alone =>
    cases found.symm.trans found'
    exact (alone.isInert new there).elim
  | list found' _ there' calls =>
    cases found.symm.trans found'
    cases there.symm.trans there'
    exact .inl ⟨_, _, calls, rfl, rfl⟩
  | listFails found' _ there' calls =>
    cases found.symm.trans found'
    cases there.symm.trans there'
    exact .inr ⟨_, calls, rfl⟩
  | object found' _ there' _ =>
    cases found.symm.trans found'
    cases there.symm.trans there'

theorem Resolves.of_object {attrs : Table Binding} (there : h.get? a = some (.object type attrs)) :
    ∃ result, ResolvesAttributes names active a attrs.names h result h' ∧
      r = result.map fun _ => .cell a := by
  cases call with
  | lost failed => cases found.symm.trans failed
  | inert found' alone =>
    cases found.symm.trans found'
    exact (alone.isInert new there).elim
  | list found' _ there' _ | listFails found' _ there' _ =>
    cases found.symm.trans found'
    cases there.symm.trans there'
  | object found' _ there' calls =>
    cases found.symm.trans found'
    cases there.symm.trans there'
    exact ⟨_, calls, rfl⟩

end

/-! ## Calls on twins -/

section

variable {ρ : Pairing} {h h' : Heap} {active active' : List Addr}

theorem Heap.Twins.leavesAlone (twins : h.Twins ρ h') (paths : active.Forall₂ ρ active')
    {v w : Value} (same : v.Twins ρ w) (alone : h.LeavesAlone active v) :
    h'.LeavesAlone active' w := by
  cases same with
  | scalar s => trivial
  | cell pair =>
    refine alone.imp (twins.mem_iff paths pair).1 fun inert c' there' => ?_
    obtain ⟨c, d, there, found, same⟩ := twins.cells pair
    cases there'.symm.trans found
    have := inert c there
    cases same with
    | list | object => exact this.elim
    | _ => trivial

theorem Value.Twins.values {vs ws : List Value} (h : vs.Forall₂ (Value.Twins ρ) ws) :
    (vs.map .value).Forall₂ (Binding.Twins ρ) (ws.map .value) :=
  List.forall₂_map_left_iff.2 (List.forall₂_map_right_iff.2 (h.imp fun _ _ same => .value same))

end

variable {names names' : Table Binding}

mutual

/-- Calls on twins leave twins, and end alike. -/
theorem Resolves.twins {ρ : Pairing} {h h' h₁ h₁' : Heap} {active active' : List Addr}
    {b b' : Binding} {r r' : Except Fault Value} (bound : names.Twins ρ names')
    (twins : h.Twins ρ h') (paths : active.Forall₂ ρ active') (same : b.Twins ρ b') :
    Resolves names active b h r h₁ → Resolves names' active' b' h' r' h₁' →
      ∃ ρ', ρ ≤ ρ' ∧ h₁.Twins ρ' h₁' ∧ SameEnd (Value.Twins ρ') r r'
  | .lost failed, call' => by
    have ends := deref_twins bound twins same
    rw [failed] at ends
    generalize failed' : deref names' h' b' = found at ends
    cases ends
    obtain ⟨rfl, rfl⟩ := call'.of_error failed'
    exact ⟨ρ, le_rfl, twins, .error _⟩
  | .inert found alone, call' => by
    have ends := deref_twins bound twins same
    rw [found] at ends
    generalize found' : deref names' h' b' = result at ends
    cases ends with
    | ok same' =>
      obtain ⟨rfl, rfl⟩ := call'.of_leavesAlone found' (twins.leavesAlone paths same' alone)
      exact ⟨ρ, le_rfl, twins, .ok same'⟩
  | .list found new there calls, call' => by
    obtain ⟨a', found', pair⟩ := deref_cell_twins bound twins same found
    obtain ⟨c', there', cells⟩ := twins.get? pair there
    have new' := mt (twins.mem_iff paths pair).2 new
    obtain @⟨_, _, items', items⟩ := cells
    rcases call'.of_list found' new' there' with ⟨ws, made', calls', rfl, rfl⟩ | ⟨e, calls', rfl⟩ <;>
      obtain ⟨ρ', le, made, ends⟩ := calls.twins bound twins (.cons pair paths) items calls' <;>
      cases ends
    next values =>
    exact ⟨_, le.trans (ρ'.le_extend _ _), made.alloc (.list (Value.Twins.values values)),
      .ok (.cell (.inr ⟨rfl, rfl⟩))⟩
  | .listFails found new there calls, call' => by
    obtain ⟨a', found', pair⟩ := deref_cell_twins bound twins same found
    obtain ⟨c', there', cells⟩ := twins.get? pair there
    have new' := mt (twins.mem_iff paths pair).2 new
    obtain @⟨_, _, items', items⟩ := cells
    rcases call'.of_list found' new' there' with ⟨ws, made', calls', rfl, rfl⟩ | ⟨e, calls', rfl⟩ <;>
      obtain ⟨ρ', le, made, ends⟩ := calls.twins bound twins (.cons pair paths) items calls' <;>
      cases ends
    exact ⟨ρ', le, made, .error _⟩
  | .object found new there calls, call' => by
    obtain ⟨a', found', pair⟩ := deref_cell_twins bound twins same found
    obtain ⟨c', there', cells⟩ := twins.get? pair there
    have new' := mt (twins.mem_iff paths pair).2 new
    cases cells with
    | object attrs =>
    obtain ⟨result', calls', rfl⟩ := call'.of_object found' new' there'
    rw [← attrs.names] at calls'
    obtain ⟨ρ', le, after, ends⟩ := calls.twins bound twins paths pair calls'
    exact ⟨ρ', le, after, ends.map fun _ _ _ => .cell (le _ _ pair)⟩

theorem ResolvesItems.twins {ρ : Pairing} {h h' h₁ h₁' : Heap} {active active' : List Addr}
    {items items' : List Binding} {r r' : Except Fault (List Value)} (bound : names.Twins ρ names')
    (twins : h.Twins ρ h') (paths : active.Forall₂ ρ active')
    (same : items.Forall₂ (Binding.Twins ρ) items') :
    ResolvesItems names active items h r h₁ → ResolvesItems names' active' items' h' r' h₁' →
      ∃ ρ', ρ ≤ ρ' ∧ h₁.Twins ρ' h₁' ∧ SameEnd (List.Forall₂ (Value.Twins ρ')) r r'
  | .noItems, calls' => by
    cases same
    cases calls'
    exact ⟨ρ, le_rfl, twins, .ok .nil⟩
  | .item call calls, calls' => by
    obtain _ | ⟨first, rest⟩ := same
    cases calls' with
    | item call' calls' =>
      obtain ⟨ρ₁, le, twins₁, ends⟩ := call.twins bound twins paths first call'
      cases ends with
      | ok same' =>
      obtain ⟨ρ₂, le', twins₂, ends⟩ := calls.twins (bound.mono le) twins₁
        (paths.imp fun _ _ pair => le _ _ pair) (Binding.Twins.mono_all le rest) calls'
      exact ⟨ρ₂, le.trans le', twins₂, ends.map fun _ _ all => .cons (same'.mono le') all⟩
    | itemFails call' =>
      obtain ⟨ρ₁, le, twins₁, ends⟩ := call.twins bound twins paths first call'
      cases ends
  | .itemFails call, calls' => by
    obtain _ | ⟨first, rest⟩ := same
    cases calls' with
    | item call' calls' =>
      obtain ⟨ρ₁, le, twins₁, ends⟩ := call.twins bound twins paths first call'
      cases ends
    | itemFails call' =>
      obtain ⟨ρ₁, le, twins₁, ends⟩ := call.twins bound twins paths first call'
      cases ends
      exact ⟨ρ₁, le, twins₁, .error _⟩

theorem ResolvesAttributes.twins {ρ : Pairing} {h h' h₁ h₁' : Heap} {active active' : List Addr}
    {a a' : Addr} {keys : List String} {r r' : Except Fault Unit} (bound : names.Twins ρ names')
    (twins : h.Twins ρ h') (paths : active.Forall₂ ρ active') (pair : ρ a a') :
    ResolvesAttributes names active a keys h r h₁ →
      ResolvesAttributes names' active' a' keys h' r' h₁' →
        ∃ ρ', ρ ≤ ρ' ∧ h₁.Twins ρ' h₁' ∧ SameEnd (fun _ _ => True) r r'
  | .noAttributes, calls' => by
    cases calls'
    exact ⟨ρ, le_rfl, twins, .ok trivial⟩
  | .attr call calls, calls' => by
    have held := twins.readAttribute (.cell pair)
    cases calls' with
    | attr call' calls' =>
      obtain ⟨ρ₁, le, twins₁, ends⟩ := call.twins bound twins (.cons pair paths) (held _) call'
      cases ends with
      | ok same' =>
      obtain ⟨ρ₂, le', twins₂, ends⟩ := calls.twins (bound.mono le)
        (twins₁.setAttribute (le _ _ pair) _ (.value same'))
        (paths.imp fun _ _ pair => le _ _ pair) (le _ _ pair) calls'
      exact ⟨ρ₂, le.trans le', twins₂, ends⟩
    | attrFails call' =>
      obtain ⟨ρ₁, le, twins₁, ends⟩ := call.twins bound twins (.cons pair paths) (held _) call'
      cases ends
  | .attrFails call, calls' => by
    have held := twins.readAttribute (.cell pair)
    cases calls' with
    | attr call' calls' =>
      obtain ⟨ρ₁, le, twins₁, ends⟩ := call.twins bound twins (.cons pair paths) (held _) call'
      cases ends
    | attrFails call' =>
      obtain ⟨ρ₁, le, twins₁, ends⟩ := call.twins bound twins (.cons pair paths) (held _) call'
      cases ends
      exact ⟨ρ₁, le, twins₁, .error _⟩

end

theorem StoreTwins.resolve {ρ : Pairing} {h h' : Heap} (twins : StoreTwins ρ names h names' h')
    {b b' : Binding} (same : b.Twins ρ b') : ∃ ρ', ρ ≤ ρ' ∧
      StoreTwins ρ' names (resolve names b h).2 names' (resolve names' b' h').2 ∧
        SameEnd (Value.Twins ρ') (resolve names b h).1 (resolve names' b' h').1 := by
  obtain ⟨bound, heap, closed, closed'⟩ := twins
  obtain ⟨within, within'⟩ := heap.within same
  have call := resolves_resolve closed within
  have call' := resolves_resolve closed' within'
  obtain ⟨ρ', le, after, ends⟩ := call.twins bound heap .nil same call'
  exact ⟨ρ', le, ⟨bound.mono le, after, (call.changes closed within).1.closed closed,
    (call'.changes closed' within').1.closed closed'⟩, ends⟩

end AliasScript
