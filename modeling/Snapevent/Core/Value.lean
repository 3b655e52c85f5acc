import Mathlib.Data.String.Basic
import Snapevent.Core.Records
import Snapevent.Lib.JsonInteger
import Snapevent.Lib.SortedMap

/-!
# JSON values

The value type of the JSON library: its accessors, how a value is written as a document, and what a
document is read as.  Objects are maps sorted by key; when a key is repeated the last member counts.
What the library computes with floating-point numbers and the texts of its own errors stay
parameters.
-/

namespace Snapevent

/-- The parts of the JSON library that are not computed here: the printed form of the 64-bit float
a literal is read as (`none`: it is out of range), the message for a text that is not a document,
and the message for a value that does not have the shape a type wants. -/
structure JsonLib where
  float : List Char → Option String
  textError : String → String
  typeError : Value → String

/-- The library on texts without floating-point numbers. -/
def JsonLib.integral : JsonLib :=
  { float := fun _ => none, textError := fun _ => "expected value"
    typeError := fun _ => "invalid type" }

/-! ## Accessors -/

namespace Value

/-- The member of an object. -/
def get (key : String) : Value → Option Value
  | .object fields => fields.lookup key
  | _ => none

def asStr : Value → Option String
  | .string s => some s
  | _ => none

def asArray : Value → Option (List Value)
  | .array xs => some xs
  | _ => none

/-- The value as an unsigned 64-bit integer. -/
def asU64 : Value → Option UInt64
  | .number (.posInt n) => some n
  | _ => none

/-- The value as a signed 64-bit integer. -/
def asI64 : Value → Option Int64
  | .number (.posInt n) => if n.toNat < 2 ^ 63 then some (Int64.ofInt n.toNat) else none
  | .number (.negInt n) => some n
  | _ => none

end Value

/-! ## Values as documents -/

/-- A number as it is written; a float text that is no literal is written as `null`. -/
def Number.json : Number → Json
  | .posInt n => .number (.ofNat n.toNat)
  | .negInt n => .number (.ofInt n.toInt)
  | .float r => if h : Json.isNumber r.toList = true then .number ⟨r.toList, h⟩ else .null

namespace Value

mutual

/-- A value as a document. -/
def json : Value → Json
  | .null => .null
  | .bool b => .bool b
  | .number n => n.json
  | .string s => .string s
  | .array xs => .array (jsonElements xs)
  | .object fields => .object (jsonMembers fields)

def jsonElements : List Value → List Json
  | [] => []
  | x :: xs => x.json :: jsonElements xs

def jsonMembers : List (String × Value) → List (String × Json)
  | [] => []
  | (k, v) :: fields => (k, v.json) :: jsonMembers fields

end

/-- The text of a value. -/
def text (v : Value) : String := String.ofList v.json.print

mutual

/-- How many arrays and objects stand in each other. -/
def depth : Value → ℕ
  | .null => 0
  | .bool _ => 0
  | .number _ => 0
  | .string _ => 0
  | .array xs => depthElements xs + 1
  | .object fields => depthMembers fields + 1

def depthElements : List Value → ℕ
  | [] => 0
  | x :: xs => max x.depth (depthElements xs)

def depthMembers : List (String × Value) → ℕ
  | [] => 0
  | (_, v) :: fields => max v.depth (depthMembers fields)

end

theorem depth_number (n : Number) : n.json.depth = 0 := by
  cases n with
  | posInt | negInt => rfl
  | float r =>
    rw [Number.json]
    split_ifs <;> rfl

mutual

/-- A value is nested as its document is. -/
theorem depth_json (v : Value) : v.json.depth = v.depth := by
  match v with
  | .null | .bool _ | .string _ => rfl
  | .number n => exact depth_number n
  | .array xs => rw [json, Json.depth, depth, depth_jsonElements xs]
  | .object fields => rw [json, Json.depth, depth, depth_jsonMembers fields]

theorem depth_jsonElements (xs : List Value) :
    Json.depthElements (jsonElements xs) = depthElements xs := by
  match xs with
  | [] => rfl
  | x :: xs =>
    rw [jsonElements, Json.depthElements, depthElements, depth_json x, depth_jsonElements xs]

theorem depth_jsonMembers (fields : List (String × Value)) :
    Json.depthMembers (jsonMembers fields) = depthMembers fields := by
  match fields with
  | [] => rfl
  | (_, v) :: fields =>
    rw [jsonMembers, Json.depthMembers, depthMembers, depth_json v, depth_jsonMembers fields]

end

end Value

/-! ## Documents as values -/

/-- How many arrays and objects the library reads in each other: it counts down from 128 and gives
up at zero. -/
def nestingLimit : ℕ := 127

namespace JsonLib

variable (lib : JsonLib)

/-- The number a literal is read as. -/
def number (n : JsonNumber) : Option Number :=
  match n.read with
  | .natural v => if v < 2 ^ 64 then some (.posInt (UInt64.ofNat v)) else
      (lib.float n.chars).map .float
  | .negated v =>
    if 0 < v ∧ v ≤ 2 ^ 63 then some (.negInt (Int64.ofInt (-v))) else (lib.float n.chars).map .float
  | .decimal => (lib.float n.chars).map .float

mutual

/-- The value of a document. -/
def value : Json → Option Value
  | .null => some .null
  | .bool b => some (.bool b)
  | .number n => (lib.number n).map .number
  | .string s => some (.string s)
  | .array xs => (elements xs).map .array
  | .object members => (fields members).map fun fs => .object (SortedMap.ofList fs)

def elements : List Json → Option (List Value)
  | [] => some []
  | x :: xs => do return (← value x) :: (← elements xs)

def fields : List (String × Json) → Option (List (String × Value))
  | [] => some []
  | (k, x) :: members => do return (k, ← value x) :: (← fields members)

end

/-- Read a text as a value. -/
def parse (text : String) : Except String Value :=
  match (Json.parseWithin nestingLimit text.toList).bind lib.value with
  | some v => .ok v
  | none => .error (lib.textError text)

end JsonLib

/-! ## What the library can represent -/

/-- The printed form of a float is read as the float that was printed. -/
def JsonLib.Prints (lib : JsonLib) (r : String) : Prop :=
  ∃ h : Json.isNumber r.toList = true,
    JsonNumber.read ⟨r.toList, h⟩ = .decimal ∧ lib.float r.toList = some r

/-- A number the library holds: negative integers are negative, floats print faithfully. -/
def Number.Held (lib : JsonLib) : Number → Prop
  | .posInt _ => True
  | .negInt n => n.toInt < 0
  | .float r => lib.Prints r

namespace Value

mutual

/-- A value the library holds: the keys of its objects are sorted. -/
def Held (lib : JsonLib) : Value → Prop
  | .null => True
  | .bool _ => True
  | .number n => n.Held lib
  | .string _ => True
  | .array xs => HeldElements lib xs
  | .object fields => SortedMap.Sorted fields ∧ HeldMembers lib fields

def HeldElements (lib : JsonLib) : List Value → Prop
  | [] => True
  | x :: xs => x.Held lib ∧ HeldElements lib xs

def HeldMembers (lib : JsonLib) : List (String × Value) → Prop
  | [] => True
  | (_, v) :: fields => v.Held lib ∧ HeldMembers lib fields

end

end Value

variable {lib : JsonLib}

theorem JsonLib.number_json {n : Number} (h : n.Held lib) :
    lib.value n.json = some (.number n) := by
  cases n with
  | posInt n =>
    have hlt : n.toNat < 2 ^ 64 := n.toNat_lt
    simp only [Number.json, JsonLib.value, JsonLib.number, JsonNumber.read_ofNat]
    rw [if_pos hlt, UInt64.ofNat_toNat]
    rfl
  | negInt n =>
    have hmin : -2 ^ 63 ≤ n.toInt := n.le_toInt
    have hneg : n.toInt < 0 := h
    obtain ⟨m, hm⟩ : ∃ m : ℕ, n.toInt = Int.negSucc m := Int.eq_negSucc_of_lt_zero hneg
    have hle : m + 1 ≤ 2 ^ 63 := by omega
    have hof : Int64.ofInt (-((m + 1 : ℕ) : ℤ)) = n := by
      rw [show -((m + 1 : ℕ) : ℤ) = n.toInt by omega, Int64.ofInt_toInt]
    simp only [Number.json, JsonNumber.ofInt, hm, JsonLib.value, JsonLib.number,
      JsonNumber.read_ofNeg]
    rw [if_pos ⟨by omega, hle⟩, hof]
    rfl
  | float r =>
    obtain ⟨hr, hread, hfloat⟩ := h
    simp [Number.json, hr, JsonLib.value, JsonLib.number, hread, hfloat]

mutual

theorem JsonLib.value_json (v : Value) (h : v.Held lib) : lib.value v.json = some v := by
  cases v with
  | null => rfl
  | bool b => rfl
  | number n => exact JsonLib.number_json h
  | string s => rfl
  | array xs =>
    rw [Value.json, JsonLib.value, JsonLib.elements_json xs h]
    rfl
  | object fields =>
    rw [Value.json, JsonLib.value, JsonLib.fields_json fields h.2, Option.map_some,
      SortedMap.ofList_of_sorted h.1]

theorem JsonLib.elements_json (xs : List Value) (h : Value.HeldElements lib xs) :
    lib.elements (Value.jsonElements xs) = some xs := by
  cases xs with
  | nil => rfl
  | cons x xs =>
    rw [Value.jsonElements, JsonLib.elements, JsonLib.value_json x h.1,
      JsonLib.elements_json xs h.2]
    rfl

theorem JsonLib.fields_json (fields : List (String × Value)) (h : Value.HeldMembers lib fields) :
    lib.fields (Value.jsonMembers fields) = some fields := by
  cases fields with
  | nil => rfl
  | cons f fields =>
    rw [Value.jsonMembers, JsonLib.fields, JsonLib.value_json f.2 h.1,
      JsonLib.fields_json fields h.2]
    rfl

end

theorem JsonLib.parse_text {v : Value} (h : v.Held lib) (hdepth : v.depth ≤ nestingLimit) :
    lib.parse v.text = .ok v := by
  rw [JsonLib.parse, Value.text, String.toList_ofList, Json.parseWithin_print, Value.depth_json,
    if_pos hdepth, Option.bind_some, JsonLib.value_json v h]

end Snapevent
