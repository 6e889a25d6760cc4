import AliasScript.Eval.Machine
import AliasScript.Proofs.Parts

/-!
# What resolving touches

Whether resolving returns or fails, it works on the heap alone, and there on the attributes of the
objects that the resolved binding reaches: each keeps what it holds, or takes in its place the value
that this leads to, a list being as good as a copy of it (`Run.resolve_touches`). Everything that an
object held and that was neither a reference nor a list is still there.
-/

namespace AliasScript

/-- What an attribute may take in place of what it held: the value that a reference leads to, or
another list in place of a list. -/
structure Settled (names : Table Binding) (h h' : Heap) (old new : Binding) : Prop where
  loose : (∃ r, old = .reference r) ∨ ∃ v, old = .value v ∧ h.IsList v
  led : ∃ v w, Leads names h old v ∧ h'.Alike v w ∧ new = .value w

/-- From one heap to the other nothing changes but attributes of objects that a binding reaches. -/
structure Touches (names : Table Binding) (b : Binding) (h h' : Heap) : Prop where
  /-- Lists keep their items, and containers of a host what they hold. -/
  others : ∀ a c, h.get? a = some c → (∀ type attrs, c ≠ .object type attrs) → h'.get? a = some c
  /-- Objects keep their type and the names of their attributes in order. -/
  objects : ∀ a type attrs, h.get? a = some (.object type attrs) → ∃ attrs',
    h'.get? a = some (.object type attrs') ∧ attrs'.names = attrs.names ∧
      ∀ key, attrs'.get? key = attrs.get? key ∨ Reached names h b a ∧ ∃ old new,
        attrs.get? key = some old ∧ attrs'.get? key = some new ∧ Settled names h h' old new
  /-- An attribute that holds a reference has held it before. -/
  references : ∀ v key r, h'.readAttribute v key = .reference r → h.readAttribute v key = .reference r

variable {names : Table Binding} {b : Binding} {h h' : Heap}

theorem Changes.touches {active : List Addr} (c : Changes names active h h')
    (closed : Closed names h)
    (same : ∀ a, a < h.size → ¬ Reached names h b a → h'.get? a = h.get? a) :
    Touches names b h h' where
  others _ _ there noObject := c.other there noObject
  objects a type attrs there := by
    obtain ⟨attrs', there', keys⟩ := c.object there
    refine ⟨attrs', there', keys, fun key => ?_⟩
    by_cases reached : Reached names h b a
    · rcases c.get?_attrs there there' key with kept | ⟨old, v, w, slot, leads, alike, held⟩
      · exact .inl kept
      · by_cases equal : old = .value w
        · exact .inl (by rw [held, slot, equal])
        · refine .inr ⟨reached, old, _, slot, held, ?_, v, w, leads, alike, rfl⟩
          cases old with
          | reference r => exact .inl ⟨r, rfl⟩
          | value u =>
            cases leads_value_iff.1 leads
            have list := (alike.resolve_left fun h => equal (h ▸ rfl)).1
            have within : v.Within h.size := (Part.slot there slot).within closed
            exact .inr ⟨v, rfl, c.isList_of_isList within list⟩
    · have unchanged := same a (Heap.lt_size_of_get? there) reached
      rw [there', there] at unchanged
      cases unchanged
      exact .inl rfl
  references _ _ _ g := c.readAttribute_reference g

/-- The calls on a binding touch what the binding reaches. -/
theorem Resolves.touches {active : List Addr} {result : Except Fault Value}
    (call : Resolves names active b h result h') (closed : Closed names h)
    (within : b.Within h.size) : Touches names b h h' := by
  -- The scope is what the binding reaches together with what the calls make.
  have scope : Scope names h fun x => Reached names h b x ∨ h.size ≤ x := by
    rintro x y (reached | new) link
    · exact .inl (scope_reached b x y reached link)
    · obtain ⟨_, part, -⟩ := link
      have missing := Heap.get?_eq_none_of_le new
      cases part with
      | item there => cases missing.symm.trans there
      | slot there => cases missing.symm.trans there
  obtain ⟨-, same, -⟩ := call.untouched closed scope (fun x le => .inr le)
    fun x leads => .inl ⟨x, leads, .refl⟩
  refine (call.changes closed within).1.touches closed fun a old unreached => same a ?_
  rintro (reached | new)
  · exact unreached reached
  · exact Nat.not_lt.2 new old

/-- Resolving a binding of a machine, whether it returns or fails, changes nothing but the heap, and
there nothing but attributes of objects that the binding reaches. -/
theorem Run.resolve_touches {m m' : Machine} {result : Except Fault Value}
    (closed : Closed m.names m.heap) (within : b.Within m.heap.size)
    (run : Run.resolve b m = (result, m')) :
    { m' with heap := m.heap } = m ∧ Touches m.names b m.heap m'.heap := by
  cases run
  exact ⟨rfl, (resolves_resolve closed within).touches closed within⟩

/-- The third attribute of the object named `o` refers to a name that is not bound. -/
def halfBound : Machine := { Machine.fresh false with
  names := .ofList [("one", .value (.number 1)), ("o", .value (.cell 0))]
  heap := ⟨#[
    .object none (.ofList [("p", .reference (.name "one")), ("parts", .value (.cell 1)),
      ("q", .reference (.name "gone"))]),
    .list none [.reference (.name "one")]]⟩ }

/-- The object when resolving it has failed: the first two attributes have been resolved. -/
def halfResolved : Heap := ⟨#[
  .object none (.ofList [("p", .value (.number 1)), ("parts", .value (.cell 2)),
    ("q", .reference (.name "gone"))]),
  .list none [.reference (.name "one")],
  .list none [.value (.number 1)]]⟩

theorem resolve_halfBound : Run.resolve (.reference (.name "o")) halfBound =
    (.error (.failure (.unboundVariable "gone")), { halfBound with heap := halfResolved }) := by
  let h₁ := halfBound.heap.setAttribute 0 "p" (.value (.number 1))
  have first : ∀ active h, resolveBinding halfBound.names 2 active (.reference (.name "one")) h =
      (.ok (.number 1), h) :=
    fun _ _ => resolveBinding_of_scalar (deref_name_of_value rfl nofun)
  have second : resolveBinding halfBound.names 2 [0] (.value (.cell 1)) h₁ =
      (.ok (.cell 2), (h₁.alloc (.list none [.value (.number 1)])).2) := by
    rw [resolveBinding_of_ok rfl, resolveValue_list (by decide) (by decide) rfl
      (resolveItems_of_ok (first _ _) resolveItems_nil)]
    rfl
  have third : ∀ h, resolveBinding halfBound.names 2 [0] (.reference (.name "gone")) h =
      (.error (.failure (.unboundVariable "gone")), h) :=
    fun _ => resolveBinding_of_error (deref_name_of_unbound rfl)
  have run : resolve halfBound.names (.reference (.name "o")) halfBound.heap =
      (.error (.failure (.unboundVariable "gone")), halfResolved) := by
    show resolveBinding halfBound.names 2 [] (.reference (.name "o")) halfBound.heap = _
    rw [resolveBinding_of_ok (deref_name_of_value (v := .cell 0) rfl nofun),
      resolveValue_object (by decide) (by decide) rfl]
    show (Except.map _ (resolveAttributes halfBound.names 2 [0] 0 ["p", "parts", "q"] _).1,
      (resolveAttributes halfBound.names 2 [0] 0 ["p", "parts", "q"] _).2) = _
    rw [resolveAttributes_of_ok (first _ _), resolveAttributes_of_ok second,
      resolveAttributes_of_error (third _)]
    rfl
  show ((resolve halfBound.names (.reference (.name "o")) halfBound.heap).1,
    { halfBound with
      heap := (resolve halfBound.names (.reference (.name "o")) halfBound.heap).2 }) = _
  rw [run]

theorem resolve_touches_halfBound :
    Run.resolve (.reference (.name "o")) halfBound =
        (.error (.failure (.unboundVariable "gone")), { halfBound with heap := halfResolved }) ∧
      Touches halfBound.names (.reference (.name "o")) halfBound.heap halfResolved :=
  ⟨resolve_halfBound, (Run.resolve_touches (b := .reference (.name "o"))
    (closed_of_forall_mem (by decide) (by decide)) trivial resolve_halfBound).2⟩

end AliasScript
