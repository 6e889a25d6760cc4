import AliasScript.Number.Double
import AliasScript.Text.Quoted

/-!
# Raw data

What a parser hands over: nothing, truth values, numbers, texts, arrays, and objects whose fields
keep their order. A program tree is built from it, and error messages show it.
-/

namespace AliasScript

/-- A piece of raw data. -/
inductive Raw where
  | null
  | bool (b : Bool)
  | int (n : Int)
  | decimal (x : Double)
  | text (s : String)
  | array (items : List Raw)
  | object (fields : List (String × Raw))
deriving Inhabited

namespace Raw

def kindName : Raw → String
  | .null => "NoneType"
  | .bool _ => "bool"
  | .int _ => "int"
  | .decimal _ => "float"
  | .text _ => "str"
  | .array _ => "list"
  | .object _ => "dict"

/-! ## Written form -/

def truthText (b : Bool) : String := if b then "True" else "False"

mutual

/-- The data as an error message shows it. -/
def shown : Raw → String
  | .null => "None"
  | .bool b => truthText b
  | .int n => toString n
  | .decimal x => x.text
  | .text s => Text.quoted s
  | .array items => "[" ++ ", ".intercalate (shownItems items) ++ "]"
  | .object fields => "\x7b" ++ ", ".intercalate (shownFields fields) ++ "\x7d"

def shownItems : List Raw → List String
  | [] => []
  | item :: items => item.shown :: shownItems items

def shownFields : List (String × Raw) → List String
  | [] => []
  | (name, value) :: fields => (Text.quoted name ++ ": " ++ value.shown) :: shownFields fields

end

/-- The data in running text: a text stands for itself. -/
def plain : Raw → String
  | .text s => s
  | raw => raw.shown

/-- Counts as present: not null, false, zero or empty. -/
def isTruthy : Raw → Bool
  | .null => false
  | .bool b => b
  | .int n => n != 0
  | .decimal x => x.mantissa != 0 || !x.isFinite
  | .text s => s != ""
  | .array items => !items.isEmpty
  | .object fields => !fields.isEmpty

/-! ## Fields -/

def lookup (name : String) : List (String × Raw) → Option Raw
  | [] => none
  | (key, value) :: fields => if key = name then some value else lookup name fields

/-- The value of a field, if the data is an object that has it. -/
def field? (raw : Raw) (name : String) : Option Raw :=
  match raw with
  | .object fields => lookup name fields
  | _ => none

def field (raw : Raw) (name : String) : Raw := (raw.field? name).getD .null

/-! ## Height -/

mutual

/-- How deeply arrays and objects are nested. -/
def height : Raw → Nat
  | .array items => heightItems items + 1
  | .object fields => heightFields fields + 1
  | _ => 0

def heightItems : List Raw → Nat
  | [] => 0
  | item :: items => max item.height (heightItems items)

def heightFields : List (String × Raw) → Nat
  | [] => 0
  | (_, value) :: fields => max value.height (heightFields fields)

end

theorem height_le_heightItems {raw : Raw} {items : List Raw} (h : raw ∈ items) :
    raw.height ≤ heightItems items := by
  induction items with
  | nil => cases h
  | cons item items ih =>
    rw [heightItems]
    rcases List.mem_cons.1 h with rfl | h
    · exact Nat.le_max_left ..
    · exact Nat.le_trans (ih h) (Nat.le_max_right ..)

theorem height_le_heightFields {raw : Raw} {fields : List (String × Raw)}
    (h : raw ∈ fields.map Prod.snd) : raw.height ≤ heightFields fields := by
  induction fields with
  | nil => cases h
  | cons field fields ih =>
    obtain ⟨name, value⟩ := field
    rw [heightFields]
    rcases List.mem_cons.1 h with rfl | h
    · exact Nat.le_max_left ..
    · exact Nat.le_trans (ih h) (Nat.le_max_right ..)

theorem mem_of_lookup {name : String} {raw : Raw} {fields : List (String × Raw)}
    (h : lookup name fields = some raw) : raw ∈ fields.map Prod.snd := by
  induction fields with
  | nil => cases h
  | cons field fields ih =>
    obtain ⟨key, value⟩ := field
    rw [lookup] at h
    split at h
    · cases h
      exact List.mem_cons_self ..
    · exact List.mem_cons_of_mem _ (ih h)

theorem height_lt_of_lookup {name : String} {raw : Raw} {fields : List (String × Raw)}
    (h : lookup name fields = some raw) : raw.height < (Raw.object fields).height := by
  rw [height]
  exact Nat.lt_succ_of_le (height_le_heightFields (mem_of_lookup h))

end Raw

end AliasScript
