import Mathlib.Data.List.DropRight
import RhPools.BigEndian

/-! Values as a Python program gets them from `json.loads`, with byte strings. A dictionary is
the list of its entries in insertion order; a float keeps the text it was written with. -/

namespace RhPools.PyValues
open BigEndian

inductive Value where
  | none
  | bool (value : Bool)
  | int (value : Int)
  | float (text : String)
  | str (text : String)
  | bytes (value : Bytes)
  | list (items : List Value)
  | dict (entries : List (String × Value))

abbrev Dict := List (String × Value)

/-- `entries.get(key)`. -/
def Dict.get (entries : Dict) (key : String) : Value :=
  ((entries.find? fun entry => entry.1 = key).map Prod.snd).getD .none

/-- `entries.get(key, other)`. -/
def Dict.getOr (entries : Dict) (key : String) (other : Value) : Value :=
  ((entries.find? fun entry => entry.1 = key).map Prod.snd).getD other

/-- `entries[key] = value`: a key that is there keeps its place. -/
def Dict.set : Dict → String → Value → Dict
  | [], key, value => [(key, value)]
  | entry :: rest, key, value =>
    if entry.1 = key then (key, value) :: rest else entry :: Dict.set rest key value

def Dict.keys (entries : Dict) : List String := entries.map Prod.fst

def Value.is (value : Value) (text : String) : Bool :=
  match value with
  | .str other => other = text
  | _ => false

variable (entries : Dict)

theorem getOr_set_same (key : String) (value other : Value) :
    (entries.set key value).getOr key other = value := by
  induction entries with
  | nil => simp [Dict.set, Dict.getOr]
  | cons entry rest ih =>
    by_cases here : entry.1 = key
    · simp [Dict.set, Dict.getOr, here]
    · rw [Dict.set, if_neg here]
      simpa [Dict.getOr, here] using ih

theorem getOr_set_other (key name : String) (value other : Value) (apart : name ≠ key) :
    (entries.set key value).getOr name other = entries.getOr name other := by
  induction entries with
  | nil => simp [Dict.set, Dict.getOr, Ne.symm apart]
  | cons entry rest ih =>
    by_cases here : entry.1 = key
    · simp [Dict.set, Dict.getOr, here, Ne.symm apart]
    · rw [Dict.set, if_neg here]
      by_cases there : entry.1 = name
      · simp [Dict.getOr, there]
      · simpa [Dict.getOr, there] using ih

@[simp] theorem get_set_same (key : String) (value : Value) :
    (entries.set key value).get key = value := getOr_set_same entries key value .none

theorem get_set_other (key other : String) (value : Value) (apart : other ≠ key) :
    (entries.set key value).get other = entries.get other :=
  getOr_set_other entries key other value .none apart

@[simp] theorem is_str (text : String) : (Value.str text).is text = true := by
  simp [Value.is]

def hexDigit (char : Char) : Option Nat :=
  if '0' ≤ char ∧ char ≤ '9' then some (char.toNat - 48)
  else if 'a' ≤ char ∧ char ≤ 'f' then some (char.toNat - 87)
  else none

/-- The number of a text that matches `0x[0-9a-f]{digits}` once it is lower case. No letter
outside ASCII becomes one of these. -/
def hexText (digits : Nat) (text : String) : Option Nat :=
  match text.toList.map Char.toLower with
  | '0' :: 'x' :: rest =>
    if rest.length = digits then
      rest.foldlM (fun value char => (hexDigit char).map (value * 16 + ·)) 0
    else none
  | _ => none

/-! `int(text, base)`. -/

def DECIMAL_ZEROS : List Nat :=
  [0x660, 0x6F0, 0x7C0, 0x966, 0x9E6, 0xA66, 0xAE6, 0xB66, 0xBE6, 0xC66, 0xCE6, 0xD66, 0xDE6,
    0xE50, 0xED0, 0xF20, 0x1040, 0x1090, 0x17E0, 0x1810, 0x1946, 0x19D0, 0x1A80, 0x1A90, 0x1B50,
    0x1BB0, 0x1C40, 0x1C50, 0xA620, 0xA8D0, 0xA900, 0xA9D0, 0xA9F0, 0xAA50, 0xABF0, 0xFF10,
    0x104A0, 0x10D30, 0x11066, 0x110F0, 0x11136, 0x111D0, 0x112F0, 0x11450, 0x114D0, 0x11650,
    0x116C0, 0x11730, 0x118E0, 0x11950, 0x11C50, 0x11D50, 0x11DA0, 0x16A60, 0x16AC0, 0x16B50,
    0x1D7CE, 0x1D7D8, 0x1D7E2, 0x1D7EC, 0x1D7F6, 0x1E140, 0x1E2F0, 0x1E950, 0x1FBF0]

def WIDE_SPACES : List Nat :=
  [0x85, 0xA0, 0x1680, 0x2000, 0x2001, 0x2002, 0x2003, 0x2004, 0x2005, 0x2006, 0x2007, 0x2008,
    0x2009, 0x200A, 0x2028, 0x2029, 0x202F, 0x205F, 0x3000]

def isSpace (char : Char) : Bool :=
  char.toNat = 32 || (9 ≤ char.toNat && char.toNat ≤ 13) || char.toNat ∈ WIDE_SPACES

def digitValue (char : Char) : Option Nat :=
  let code := char.toNat
  if 48 ≤ code ∧ code ≤ 57 then some (code - 48)
  else if 97 ≤ code ∧ code ≤ 122 then some (code - 97 + 10)
  else if 65 ≤ code ∧ code ≤ 90 then some (code - 65 + 10)
  else (DECIMAL_ZEROS.find? fun first => first ≤ code ∧ code ≤ first + 9).map (code - ·)

/-- Digits with single underscores between them; `open_` before a digit must come. -/
def readDigits (base : Nat) : Nat → Bool → List Char → Option Nat
  | value, open_, [] => if open_ then .none else some value
  | value, open_, char :: rest =>
    match (digitValue char).filter (· < base) with
    | some digit => readDigits base (value * base + digit) false rest
    | .none => if char = '_' ∧ !open_ then readDigits base value true rest else .none

def dropPrefix (base : Nat) : List Char → List Char
  | '0' :: letter :: rest =>
    if base = 16 ∧ (letter = 'x' ∨ letter = 'X') then
      match rest with
      | '_' :: digits => digits
      | digits => digits
    else '0' :: letter :: rest
  | chars => chars

def MAX_STR_DIGITS : Nat := 4300

def tooLong (base : Nat) (digits : List Char) : Bool :=
  base = 10 && MAX_STR_DIGITS < (digits.filter (· ≠ '_')).length

/-- `int(text, base)`; none is a `ValueError`. -/
def readInt (base : Nat) (text : String) : Option Int :=
  let chars := (text.toList.dropWhile isSpace).rdropWhile isSpace
  let unsigned := match chars with
    | '+' :: rest => rest
    | '-' :: rest => rest
    | rest => rest
  let digits := dropPrefix base unsigned
  if tooLong base digits then .none
  else (readDigits base 0 true digits).map fun value =>
    if chars.head? = some '-' then -(value : Int) else value

example : readInt 10 " -1_000\n" = some (-1000) := by decide
example : readInt 16 "0x_fF" = some 255 := by decide
example : readInt 10 "1__0" = .none := by decide

end RhPools.PyValues
