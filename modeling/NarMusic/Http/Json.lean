/-
  The JSON values the server builds, and the compact text `dump` writes for them.
  An object lists its members in ascending order of their names, and a string that
  is not UTF-8 makes `dump` throw.
-/
import NarMusic.Lib.Hex
import NarMusic.Lib.OrdMap

namespace NarMusic

open Cxx

inductive Json where
  | bool (b : Bool)
  | int (n : ℤ)
  | str (s : Str)
  | arr (items : List Json)
  | obj (members : List (Str × Json))

namespace Json

/-- The object with the given members. -/
def object (members : List (Str × Json)) : Json :=
  .obj (members.foldl (fun ms m => OrdMap.insertEntry m.1 m.2 ms) [])

/-- A continuation byte of a UTF-8 sequence. -/
def isCont (b : Byte) : Bool := 0x80 ≤ b && b ≤ 0xBF

/-- The first two bytes of a three-byte sequence. -/
def isLead3 (a b : Byte) : Bool :=
  (a = 0xE0 && 0xA0 ≤ b && b ≤ 0xBF) || (a = 0xED && 0x80 ≤ b && b ≤ 0x9F) ||
    (0xE1 ≤ a && a ≤ 0xEF && a ≠ 0xED && isCont b)

/-- The first two bytes of a four-byte sequence. -/
def isLead4 (a b : Byte) : Bool :=
  (a = 0xF0 && 0x90 ≤ b && b ≤ 0xBF) || (a = 0xF4 && 0x80 ≤ b && b ≤ 0x8F) ||
    (0xF1 ≤ a && a ≤ 0xF3 && isCont b)

def utf8Valid : Str → Bool
  | [] => true
  | a :: s =>
    if a < 0x80 then utf8Valid s
    else match s with
      | [] => false
      | b :: s =>
        if 0xC2 ≤ a && a ≤ 0xDF then isCont b && utf8Valid s
        else match s with
          | [] => false
          | c :: s =>
            if isLead3 a b then isCont c && utf8Valid s
            else match s with
              | [] => false
              | d :: s => isLead4 a b && isCont c && isCont d && utf8Valid s

def escapeByte (b : Byte) : Str :=
  if b = 8 then [92, 98]
  else if b = 9 then [92, 116]
  else if b = 10 then [92, 110]
  else if b = 12 then [92, 102]
  else if b = 13 then [92, 114]
  else if b = 34 then [92, 34]
  else if b = 92 then [92, 92]
  else if b ≤ 31 then [92, 117, 48, 48, hexDigit (b / 16), hexDigit (b % 16)]
  else [b]

def dumpString (s : Str) : Except Exn Str :=
  if utf8Valid s then .ok (34 :: (s.flatMap escapeByte ++ [34])) else .error .typeError

/-- The parts of an array or object, with a comma between two of them. -/
def joinComma : List Str → Str
  | [] => []
  | [s] => s
  | s :: s' :: ss => s ++ 44 :: joinComma (s' :: ss)

mutual

/-- `dump()`. -/
def dump : Json → Except Exn Str
  | .bool true => .ok (lit "true")
  | .bool false => .ok (lit "false")
  | .int n => .ok (decInt n)
  | .str s => dumpString s
  | .arr items => (dumpItems items).map fun ss => 91 :: (joinComma ss ++ [93])
  | .obj members => (dumpMembers members).map fun ss => 123 :: (joinComma ss ++ [125])

def dumpItems : List Json → Except Exn (List Str)
  | [] => .ok []
  | j :: js => do return (← dump j) :: (← dumpItems js)

def dumpMembers : List (Str × Json) → Except Exn (List Str)
  | [] => .ok []
  | (k, j) :: ms => do return ((← dumpString k) ++ 58 :: (← dump j)) :: (← dumpMembers ms)

end

/-! ## Text of ASCII characters -/

/-- Quantified over the bytes of the text, not over all bytes, for `decide`. -/
theorem ascii_of_all {s : Str} (h : s.all (· < 0x80) = true) : ∀ c ∈ s, c < 0x80 := by
  simpa only [List.all_eq_true, decide_eq_true_eq] using h

theorem utf8Valid_ascii : ∀ {s : Str}, (∀ c ∈ s, c < 0x80) → utf8Valid s = true
  | [], _ => rfl
  | c :: s, h => by
    rw [utf8Valid.eq_def]
    dsimp only
    rw [if_pos (h c List.mem_cons_self)]
    exact utf8Valid_ascii fun d hd => h d (List.mem_cons_of_mem _ hd)

theorem dumpString_valid {s : Str} (h : utf8Valid s = true) :
    dumpString s = .ok (34 :: (s.flatMap escapeByte ++ [34])) := if_pos h

theorem dumpString_invalid {s : Str} (h : utf8Valid s = false) : dumpString s = .error .typeError :=
  if_neg (by simp [h])

theorem dumpString_ascii {s : Str} (h : ∀ c ∈ s, c < 0x80) :
    dumpString s = .ok (34 :: (s.flatMap escapeByte ++ [34])) := dumpString_valid (utf8Valid_ascii h)

/-! ## What can be written -/

/-- `dump` does not throw. -/
def Dumps (j : Json) : Prop := ∃ s, j.dump = .ok s

theorem dumpString_ok_iff {s : Str} : (∃ t, dumpString s = .ok t) ↔ utf8Valid s = true := by
  constructor
  · rintro ⟨t, ht⟩
    by_contra h
    rw [dumpString_invalid (Bool.eq_false_of_not_eq_true h)] at ht
    cases ht
  · exact fun h => ⟨_, dumpString_valid h⟩

theorem dumps_bool (b : Bool) : (bool b).Dumps := by
  cases b <;> exact ⟨_, rfl⟩

theorem dumps_int (n : ℤ) : (int n).Dumps := ⟨_, rfl⟩

theorem dumps_str {s : Str} : (str s).Dumps ↔ utf8Valid s = true := dumpString_ok_iff

theorem map_ok_iff {α β : Type} {x : Except Exn α} {f : α → β} :
    (∃ b, x.map f = .ok b) ↔ ∃ a, x = .ok a := by
  cases x with
  | error e => simp [Except.map]
  | ok a => simp [Except.map]

theorem dumpItems_ok_iff {js : List Json} : (∃ ss, dumpItems js = .ok ss) ↔ ∀ j ∈ js, j.Dumps := by
  induction js with
  | nil => exact ⟨fun _ j hj => absurd hj List.not_mem_nil, fun _ => ⟨_, rfl⟩⟩
  | cons j js ih =>
    rw [List.forall_mem_cons, ← ih, Dumps, dumpItems]
    cases dump j with
    | error e => simp [bind, Except.bind]
    | ok s => cases dumpItems js <;> simp [bind, Except.bind, pure, Except.pure]

theorem dumpMembers_ok_iff {ms : List (Str × Json)} :
    (∃ ss, dumpMembers ms = .ok ss) ↔ ∀ m ∈ ms, utf8Valid m.1 = true ∧ m.2.Dumps := by
  induction ms with
  | nil => exact ⟨fun _ m hm => absurd hm List.not_mem_nil, fun _ => ⟨_, rfl⟩⟩
  | cons m ms ih =>
    obtain ⟨k, j⟩ := m
    rw [List.forall_mem_cons, ← ih, ← dumpString_ok_iff, Dumps, dumpMembers]
    cases dumpString k with
    | error e => simp [bind, Except.bind]
    | ok t =>
      cases dump j with
      | error e => simp [bind, Except.bind]
      | ok s => cases dumpMembers ms <;> simp [bind, Except.bind, pure, Except.pure]

theorem dumps_arr {js : List Json} : (arr js).Dumps ↔ ∀ j ∈ js, j.Dumps := by
  rw [← dumpItems_ok_iff, Dumps, dump, map_ok_iff]

theorem dumps_obj {ms : List (Str × Json)} :
    (obj ms).Dumps ↔ ∀ m ∈ ms, utf8Valid m.1 = true ∧ m.2.Dumps := by
  rw [← dumpMembers_ok_iff, Dumps, dump, map_ok_iff]

end Json

end NarMusic
