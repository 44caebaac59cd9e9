import Mathlib.Algebra.Group.Int.Defs
import Mathlib.Data.List.DropRight
import Mathlib.Data.String.Basic

/-!
# Python's standard library

The built-in functions that the service relies on: `int` of a string, what `json.loads` yields and what
`int` makes of it, and the parts of `hashlib` and `datetime` that end up in the store.
-/

namespace Python

/-! ## `int` of a string -/

/-- `str.isspace` of a character: what `str.strip` takes away. -/
def isSpace (c : Char) : Bool :=
  0x09 ≤ c.toNat && c.toNat ≤ 0x0d || 0x1c ≤ c.toNat && c.toNat ≤ 0x20 || c.toNat = 0x85 || c.toNat = 0xa0 ||
    c.toNat = 0x1680 || 0x2000 ≤ c.toNat && c.toNat ≤ 0x200a || c.toNat = 0x2028 || c.toNat = 0x2029 ||
    c.toNat = 0x202f || c.toNat = 0x205f || c.toNat = 0x3000

/-- What `int` skips at both ends: the separators U+001C to U+001F are spaces to `str.strip` only. -/
def isIntSpace (c : Char) : Bool := isSpace c && !(0x1c ≤ c.toNat && c.toNat ≤ 0x1f)

/-- The zeros of the decimal digits; each is followed by its one to nine. -/
def zeros : List Nat :=
  [0x30, 0x660, 0x6f0, 0x7c0, 0x966, 0x9e6, 0xa66, 0xae6, 0xb66, 0xbe6, 0xc66, 0xce6, 0xd66, 0xde6, 0xe50,
    0xed0, 0xf20, 0x1040, 0x1090, 0x17e0, 0x1810, 0x1946, 0x19d0, 0x1a80, 0x1a90, 0x1b50, 0x1bb0, 0x1c40,
    0x1c50, 0xa620, 0xa8d0, 0xa900, 0xa9d0, 0xa9f0, 0xaa50, 0xabf0, 0xff10, 0x104a0, 0x10d30, 0x11066,
    0x110f0, 0x11136, 0x111d0, 0x112f0, 0x11450, 0x114d0, 0x11650, 0x116c0, 0x11730, 0x118e0, 0x11950,
    0x11c50, 0x11d50, 0x11da0, 0x16a60, 0x16ac0, 0x16b50, 0x1d7ce, 0x1d7d8, 0x1d7e2, 0x1d7ec, 0x1d7f6,
    0x1e140, 0x1e2f0, 0x1e950, 0x1fbf0]

/-- `unicodedata.decimal(c)`. -/
def decimal (c : Char) : Option Nat :=
  (zeros.find? fun z => z ≤ c.toNat && c.toNat < z + 10).map (c.toNat - ·)

/-- Decimal digits, with single underscores between them; `digit` says whether a digit came last. -/
def digits : List Char → Nat → Bool → Option Nat
  | [], n, digit => if digit then some n else none
  | '_' :: cs, n, digit => if digit then digits cs n false else none
  | c :: cs, n, _ => (decimal c).bind fun d => digits cs (10 * n + d) true

/-- `s.strip()`. -/
def strip (cs : List Char) : List Char := (cs.dropWhile isSpace).rdropWhile isSpace

/-- `s.split(sep)[0]`: what comes before the first separator. -/
def splitFirst (sep : Char) (cs : List Char) : List Char := cs.takeWhile (· ≠ sep)

/-- `int(s)`; `none` is a `ValueError`. The limit on the digits is in `Json.toInt`, for the other texts come from `str`,
which has the same limit. -/
def int (s : String) : Option Int :=
  match (s.toList.dropWhile isIntSpace).rdropWhile isIntSpace with
  | '-' :: cs => (digits cs 0 false).map fun n : Nat => -(n : Int)
  | '+' :: cs => (digits cs 0 false).map fun n : Nat => (n : Int)
  | cs => (digits cs 0 false).map fun n : Nat => (n : Int)

theorem isDigit_iff {c : Char} : c.isDigit = true ↔ 48 ≤ c.toNat ∧ c.toNat ≤ 57 := by
  simp only [Char.isDigit, Bool.and_eq_true, decide_eq_true_eq]
  exact Iff.rfl

theorem decimal_of_isDigit {c : Char} (h : c.isDigit = true) : decimal c = some (c.toNat - '0'.toNat) := by
  obtain ⟨hlow, hhigh⟩ := isDigit_iff.mp h
  have hfirst : (decide (0x30 ≤ c.toNat) && decide (c.toNat < 0x30 + 10)) = true := by
    simp only [Bool.and_eq_true, decide_eq_true_eq]
    omega
  have hfind : (zeros.find? fun z => z ≤ c.toNat && c.toNat < z + 10) = some 0x30 :=
    List.find?_cons_of_pos hfirst
  rw [decimal, hfind]
  rfl

theorem digits_of_isDigit {cs : List Char} (h : ∀ c ∈ cs, c.isDigit) (n : Nat) (digit : Bool)
    (hne : cs ≠ [] ∨ digit = true) : digits cs n digit = some (Nat.ofDigitChars 10 cs n) := by
  induction cs generalizing n digit with
  | nil => simp_all [digits]
  | cons c cs ih =>
      have hc : c.isDigit = true := h c (by simp)
      have hu : c ≠ '_' := by
        rintro rfl
        exact absurd hc (by decide)
      rw [digits, decimal_of_isDigit hc, Option.bind_some, ih (fun d hd => h d (by simp [hd])) _ _ (Or.inr rfl),
        Nat.ofDigitChars_cons]
      exact hu

theorem trim_of_none {space : Char → Bool} {cs : List Char} (h : ∀ c ∈ cs, space c = false) :
    (cs.dropWhile space).rdropWhile space = cs := by
  have key : ∀ l : List Char, (∀ c ∈ l, space c = false) → l.dropWhile space = l := by
    intro l hl
    cases l with
    | nil => rfl
    | cons c l => simp [hl c (by simp)]
  unfold List.rdropWhile
  rw [key cs h, key cs.reverse fun c hc => h c (by simpa using hc), List.reverse_reverse]

theorem isDigit_not_space {c : Char} (h : c.isDigit = true) : isIntSpace c = false := by
  obtain ⟨hlow, hhigh⟩ := isDigit_iff.mp h
  have hspace : isSpace c = false := by
    simp only [isSpace, Bool.or_eq_false_iff, Bool.and_eq_false_iff, decide_eq_false_iff_not]
    omega
  rw [isIntSpace, hspace, Bool.false_and]

theorem isDigit_of_mem_toDigits {n : Nat} {c : Char} (hc : c ∈ Nat.toDigits 10 n) : c.isDigit = true :=
  Nat.isDigit_of_mem_toDigits (by decide) (by decide) hc

theorem digits_toDigits (n : Nat) : digits (Nat.toDigits 10 n) 0 false = some n := by
  have hv := digits_of_isDigit (fun _ => isDigit_of_mem_toDigits) 0 false (Or.inl (@Nat.toDigits_ne_nil n 10))
  rwa [Nat.ofDigitChars_ten_toDigits] at hv

theorem int_repr (n : Nat) : int n.repr = some (n : Int) := by
  have hd : ∀ c ∈ Nat.toDigits 10 n, c.isDigit = true := fun _ => isDigit_of_mem_toDigits
  unfold int
  rw [Nat.toList_repr, trim_of_none fun c hc => isDigit_not_space (hd c hc)]
  split
  · rename_i h
    exact absurd (hd '-' (h ▸ by simp)) (by decide)
  · rename_i h
    exact absurd (hd '+' (h ▸ by simp)) (by decide)
  · rw [digits_toDigits]; rfl

theorem int_neg_repr (n : Nat) : int ("-" ++ n.repr) = some (-(n : Int)) := by
  have hs : ∀ c ∈ '-' :: Nat.toDigits 10 n, isIntSpace c = false := by
    intro c hc
    rcases List.mem_cons.mp hc with rfl | hc
    · rfl
    · exact isDigit_not_space (isDigit_of_mem_toDigits hc)
  have hl : ("-" ++ n.repr).toList = '-' :: Nat.toDigits 10 n := by
    rw [String.toList_append, Nat.toList_repr]; rfl
  unfold int
  rw [hl, trim_of_none hs]
  simp only [digits_toDigits, Option.map_some]

/-- `int(str(n)) == n`. -/
theorem int_toString (n : Int) : int (toString n) = some n := by
  rw [Int.toString_eq_repr, Int.repr_eq_if]
  split
  · rw [int_repr, Int.toNat_of_nonneg ‹_›]
  · rw [int_neg_repr, Int.toNat_of_nonneg (by omega), Int.neg_neg]

/-! ## Prefixes -/

/-- `s.startswith(pre)`. -/
def startsWith (s pre : String) : Bool := pre.toList.isPrefixOf s.toList

/-- `s.removeprefix(pre)`. -/
def removePrefix (s pre : String) : String :=
  if startsWith s pre then String.ofList (s.toList.drop pre.toList.length) else s

theorem removePrefix_append (pre s : String) : removePrefix (pre ++ s) pre = s := by
  simp [removePrefix, startsWith, String.toList_append]

/-! ## What `json.loads` yields -/

/-- A float: a finite one is `m * 2 ^ e`. -/
inductive Float where
  | finite (m e : Int)
  | inf (negative : Bool)
  | nan

inductive Json where
  | null
  | bool (b : Bool)
  | int (n : Int)
  | float (x : Float)
  | str (s : String)
  | arr (xs : List Json)
  | obj (fields : List (String × Json))

/-- A stored or sent text, up to what `json.loads` makes of it. -/
inductive Text where
  /-- A text that decodes to `v`. -/
  | json (v : Json)
  /-- A text that `json.loads` rejects with a `ValueError`, mostly a `JSONDecodeError`. -/
  | other (s : String)
  /-- A text that is nested too deeply for `json.loads`. -/
  | nested (s : String)
  /-- Bytes that are not UTF-8. -/
  | binary (bytes : List UInt8)

/-- The exceptions of the built-in operations. -/
inductive Error where
  | keyError
  | typeError
  | valueError
  | overflowError
  | recursionError
  deriving DecidableEq, Repr

/-- `json.loads(text)`. -/
def loads : Text → Except Error Json
  | .json v => .ok v
  | .other _ => .error .valueError
  | .nested _ => .error .recursionError
  | .binary _ => .error .valueError

/-- `json.dumps(v)`. -/
def dumps (v : Json) : Text := .json v

/-- `value[key]`. -/
def Json.getItem (v : Json) (key : String) : Except Error Json :=
  match v with
  | .obj fields =>
      match fields.find? fun f => f.1 = key with
      | some f => .ok f.2
      | none => .error .keyError
  | _ => .error .typeError

/-- `int(x)` of a float drops the fraction. -/
def Float.toInt : Float → Except Error Int
  | .finite m e => .ok (if 0 ≤ e then m * 2 ^ e.toNat else m.tdiv (2 ^ (-e).toNat))
  | .inf _ => .error .overflowError
  | .nan => .error .valueError

/-- `sys.get_int_max_str_digits()`. -/
def intMaxStrDigits : Nat := 4300

/-- `int(value)`. -/
def Json.toInt : Json → Except Error Int
  | .int n => .ok n
  | .bool b => .ok (if b then 1 else 0)
  | .float x => x.toInt
  | .str s =>
      if intMaxStrDigits < s.toList.countP fun c => (decimal c).isSome then .error .valueError
      else
        match Python.int s with
        | some n => .ok n
        | none => .error .valueError
  | _ => .error .typeError

/-- `value[key] = v`. -/
def Json.setItem (value : Json) (key : String) (v : Json) : Except Error Json :=
  match value with
  | .obj fields =>
      if key ∈ fields.map (·.1) then .ok (.obj (fields.map fun f => if f.1 = key then (key, v) else f))
      else .ok (.obj (fields ++ [(key, v)]))
  | _ => .error .typeError

/-! ## `hashlib` -/

class HashLib where
  /-- `hashlib.sha256(s.encode("utf-8")).hexdigest()`. -/
  sha256 : String → String

/-! ## `datetime` -/

/-- The part of `datetime` that the service uses, and the instant for which the database takes a value. -/
class DatetimeLib where
  T : Type
  isoformat : T → String
  /-- `none` is a `ValueError`. -/
  fromisoformat : String → Option T
  fromisoformat_isoformat : ∀ t, fromisoformat (isoformat t) = some t
  isoformat_ne_empty : ∀ t, isoformat t ≠ ""
  /-- Microseconds since the epoch. -/
  timestamptz : T → Int
  /-- Whether the value has a time zone. -/
  aware : T → Bool
  /-- The value in UTC so many microseconds after the epoch; `none` is an `OverflowError`. -/
  utc : Int → Option T
  utc_spec : ∀ n t, utc n = some t → aware t ∧ timestamptz t = n

abbrev Datetime [DatetimeLib] : Type := DatetimeLib.T

namespace Datetime

variable [DatetimeLib]

def utc (n : Int) : Except Error Datetime :=
  match DatetimeLib.utc n with
  | some t => .ok t
  | none => .error .overflowError

/-- `datetime.fromisoformat(value)`. -/
def fromisoformat (value : Json) : Except Error Datetime :=
  match value with
  | .str s =>
      match DatetimeLib.fromisoformat s with
      | some t => .ok t
      | none => .error .valueError
  | _ => .error .typeError

/-- `t <= now`, where `now` has a time zone. -/
def le (t now : Datetime) : Except Error Bool :=
  if DatetimeLib.aware t then .ok (decide (DatetimeLib.timestamptz t ≤ DatetimeLib.timestamptz now))
  else .error .typeError

end Datetime

namespace Utc

/-- UTC datetimes, written as their number of microseconds. -/
scoped instance : DatetimeLib where
  T := Int
  isoformat := toString
  fromisoformat := int
  fromisoformat_isoformat := int_toString
  isoformat_ne_empty t h := by
    have := int_toString t
    rw [h, show int "" = none by decide] at this
    cases this
  timestamptz := id
  aware _ := true
  utc := some
  utc_spec n t h := ⟨rfl, (Option.some.inj h).symm⟩

end Utc

end Python
