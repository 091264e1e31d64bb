/-
  Parsed JSON, read the way the `get` functions of `nlohmann::json` read it: a value of another
  type is a `type_error`, `contains` is false of what is no object, and `operator[]` makes a
  missing member `null`.
-/
import NarMusic.Lib.Bytes
import NarMusic.Lib.Int
import NarMusic.Lib.Utf8

open Cxx

/-- What a JSON text is read as.  Strings are UTF-8 then; of a number with a fraction or an
    exponent only what `static_cast` to `int` and to `size_t` makes of it is used. -/
inductive JsonValue where
  | null
  | bool (b : Bool)
  | int (n : ℤ)
  | float (asInt : ℤ) (asSize : ℕ)
  | str (s : List Char)
  | arr (items : List JsonValue)
  | obj (members : List (String × JsonValue))

namespace JsonValue

/-- `get<std::string>()` -/
def getString : JsonValue → Except Exn Str
  | str s => .ok (Utf8.encode s)
  | _ => .error .typeError

/-- `get<bool>()` -/
def getBool : JsonValue → Except Exn Bool
  | bool b => .ok b
  | _ => .error .typeError

/-- `get<int>()` -/
def getInt : JsonValue → Except Exn ℤ
  | int n => .ok (int32 n)
  | float asInt _ => .ok asInt
  | bool b => .ok (if b then 1 else 0)
  | _ => .error .typeError

/-- `get<long long>()`; `truncate` is what `static_cast` makes of a number with a fraction or an
    exponent. -/
def getLong (truncate : ℤ → ℕ → ℤ) : JsonValue → Except Exn ℤ
  | int n => .ok (n.bmod (2 ^ 64))
  | float asInt asSize => .ok (truncate asInt asSize)
  | bool b => .ok (if b then 1 else 0)
  | _ => .error .typeError

/-- `get<size_t>()`, which takes no `bool`. -/
def getSize : JsonValue → Except Exn ℕ
  | int n => .ok (n % 2 ^ 64).toNat
  | float _ asSize => .ok asSize
  | _ => .error .typeError

/-- The member `key` of an object that has it. -/
def find? (key : String) : JsonValue → Option JsonValue
  | obj members => members.lookup key
  | _ => none

/-- `contains(key)` -/
def contains (key : String) (v : JsonValue) : Bool := (v.find? key).isSome

/-- `operator[](key)` -/
def member (key : String) : JsonValue → Except Exn JsonValue
  | obj members => .ok ((members.lookup key).getD null)
  | null => .ok null
  | _ => .error .typeError

/-- `value(key, defaultValue)` -/
def value {α : Type} (get : JsonValue → Except Exn α) (key : String) (defaultValue : α) : JsonValue → Except Exn α
  | obj members =>
    match members.lookup key with
    | some v => get v
    | none => .ok defaultValue
  | _ => .error .typeError

/-- `value(key, "")` -/
def stringOr (key : String) : JsonValue → Except Exn Str := value getString key []

/-- The elements of the member `key`, where `contains(key)` and `is_array()` are true. -/
def array (key : String) (v : JsonValue) : Option (List JsonValue) :=
  match v.find? key with
  | some (arr items) => some items
  | _ => none

/-- What a range-based `for` runs over. -/
def elements : JsonValue → List JsonValue
  | arr items => items
  | obj members => members.map (·.2)
  | null => []
  | v => [v]

theorem getString_eq_ok {v : JsonValue} {s : Str} :
    v.getString = .ok s ↔ ∃ cs, v = .str cs ∧ s = Utf8.encode cs := by
  cases v <;> simp [getString, eq_comm]

theorem member_of_find? {key : String} {v w : JsonValue} (h : v.find? key = some w) : v.member key = .ok w := by
  cases v with
  | obj members =>
    have hlookup : members.lookup key = some w := h
    rw [member, hlookup]
    rfl
  | _ => cases h

/-- What is read behind a `contains` is read of a member that the object has. -/
theorem bind_contains {α : Type} {key : String} {v : JsonValue} {f : JsonValue → Except Exn α} {d a : α} (hd : d ≠ a) :
    (if v.contains key then v.member key >>= f else .ok d) = .ok a ↔ ∃ w, v.find? key = some w ∧ f w = .ok a := by
  unfold contains
  cases hfind : v.find? key with
  | none => simp [hd]
  | some w =>
    rw [member_of_find? hfind]
    constructor
    · intro h
      exact ⟨w, rfl, h⟩
    · rintro ⟨_, hw, h⟩
      obtain rfl := Option.some.inj hw
      exact h

/-- A string at a member is one of an object that has it. -/
theorem string_member {key : String} {v : JsonValue} {s : Str} :
    (v.member key >>= getString) = .ok s ↔ ∃ cs, v.find? key = some (.str cs) ∧ s = Utf8.encode cs := by
  constructor
  · intro h
    cases v with
    | obj members =>
      obtain ⟨cs, hcs, rfl⟩ := getString_eq_ok.1 h
      cases hlookup : members.lookup key with
      | none =>
        rw [hlookup] at hcs
        cases hcs
      | some w =>
        rw [hlookup] at hcs
        exact ⟨cs, hlookup.trans (congrArg some hcs), rfl⟩
    | _ => cases h
  · rintro ⟨cs, hfind, rfl⟩
    rw [member_of_find? hfind]
    rfl

end JsonValue
