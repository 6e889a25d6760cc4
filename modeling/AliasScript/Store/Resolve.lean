import AliasScript.Store.Deref

/-!
# Resolving a value

Resolving a binding puts, in place of every reference in it, the value that the reference leads to.
Objects are changed in place, attribute by attribute; a list stays as it is and a new list takes its
place. A container that is met again while it is being resolved is left as it is.

A list made on the way can be met again too, as the new content of an attribute, and is then copied
once more. It holds values only, and any list in it was made before it, so this ends.
-/

namespace AliasScript

/-- Works on the heap; what has been changed before a fault stays changed. -/
abbrev HeapM := ExceptT Fault (StateM Heap)

namespace HeapM

def alloc (c : Cell) : HeapM Value := fun h => (.ok (.cell (h.alloc c).1), (h.alloc c).2)

def cell? (a : Addr) : HeapM (Option Cell) := fun h => (.ok (h.get? a), h)

def readAttribute (a : Addr) (attr : String) : HeapM Binding := fun h =>
  (.ok (h.readAttribute (.cell a) attr), h)

def setAttribute (a : Addr) (attr : String) (b : Binding) : HeapM Unit := fun h =>
  (.ok (), h.setAttribute a attr b)

def deref (names : Table Binding) (b : Binding) : HeapM Value := fun h =>
  (AliasScript.deref names h b, h)

end HeapM

section

variable (names : Table Binding) (base : Nat)

/-- The containers older than the call that are not being resolved. -/
def restingCount (active : List Addr) : Nat := unseen (List.range base) active

/-- How new a value is: zero, unless it is a list made during the call. -/
def Value.novelty : Value → Nat
  | .scalar _ => 0
  | .cell a => if a < base then 0 else a + 1

theorem Value.novelty_le {base a b : Nat} (h : b < a) : Value.novelty base (.cell b) ≤ a := by
  rw [Value.novelty]
  split <;> omega

mutual

/-- Resolves a binding. Containers below `base` are older than the call, and those in `active` are
being resolved. -/
def resolveBinding (active : List Addr) (b : Binding) : HeapM Value :=
  HeapM.deref names b >>= resolveValue active
termination_by (restingCount base active, 1, 0, 0)
decreasing_by
  apply Prod.Lex.right
  exact Prod.Lex.left _ _ (by decide)

def resolveValue (active : List Addr) (v : Value) : HeapM Value :=
  match v with
  | .scalar s => pure (.scalar s)
  | .cell a =>
    if _ : a ∈ active then pure (.cell a)
    else HeapM.cell? a >>= fun
      | some (.list type items) =>
        if _ : a < base then
          resolveItems (a :: active) items >>= fun resolved => HeapM.alloc (.list type resolved)
        else
          copyItems (a :: active) a items >>= fun resolved => HeapM.alloc (.list type resolved)
      | some (.object _ attrs) =>
        if _ : a < base then
          resolveAttributes (a :: active) a attrs.names >>= fun _ => pure (.cell a)
        else pure (.cell a)
      | _ => pure (.cell a)
termination_by (restingCount base active, 0, v.novelty base, 0)
decreasing_by
  · apply Prod.Lex.left
    exact unseen_cons_lt (List.mem_range.2 ‹_›) ‹_›
  · apply Prod.Lex.right' _ (unseen_cons_le ..)
    apply Prod.Lex.right
    apply Prod.Lex.left
    rw [Value.novelty, if_neg ‹_›]
    exact Nat.lt_succ_self a
  · apply Prod.Lex.left
    exact unseen_cons_lt (List.mem_range.2 ‹_›) ‹_›

def resolveItems (active : List Addr) (items : List Binding) : HeapM (List Binding) :=
  match items with
  | [] => pure []
  | item :: rest => resolveBinding active item >>= fun v =>
    resolveItems active rest >>= fun vs => pure (.value v :: vs)
termination_by (restingCount base active, 2, 0, items.length)
decreasing_by
  · apply Prod.Lex.right
    exact Prod.Lex.left _ _ (by decide)
  · apply Prod.Lex.right
    apply Prod.Lex.right
    exact Prod.Lex.right _ (by simp)

/-- Resolves the items of a list at an address that was made during the call. -/
def copyItems (active : List Addr) (a : Addr) (items : List Binding) : HeapM (List Binding) :=
  match items with
  | [] => pure []
  | .value (.cell b) :: rest =>
    if _ : b < a then
      resolveValue active (.cell b) >>= fun v =>
        copyItems active a rest >>= fun vs => pure (.value v :: vs)
    else copyItems active a rest >>= fun vs => pure (.value (.cell b) :: vs)
  | item :: rest => copyItems active a rest >>= fun vs => pure (item :: vs)
termination_by (restingCount base active, 0, a, items.length)
decreasing_by
  · apply Prod.Lex.right
    apply Prod.Lex.right
    exact Prod.Lex.right' _ (Value.novelty_le ‹_›) (by simp)
  all_goals
    apply Prod.Lex.right
    apply Prod.Lex.right
    exact Prod.Lex.right _ (by simp)

def resolveAttributes (active : List Addr) (a : Addr) (attrs : List String) : HeapM Unit :=
  match attrs with
  | [] => pure ()
  | attr :: rest => HeapM.readAttribute a attr >>= fun b => resolveBinding active b >>= fun v =>
    HeapM.setAttribute a attr (.value v) >>= fun _ => resolveAttributes active a rest
termination_by (restingCount base active, 2, 0, attrs.length)
decreasing_by
  · apply Prod.Lex.right
    exact Prod.Lex.left _ _ (by decide)
  · apply Prod.Lex.right
    apply Prod.Lex.right
    exact Prod.Lex.right _ (by simp)

end

end

/-- Replaces every reference in a binding by the value that it leads to. -/
def resolve (names : Table Binding) (b : Binding) : HeapM Value := fun h =>
  resolveBinding names h.size [] b h

end AliasScript
