import Mathlib.Data.List.DropRight
import Mathlib.Data.Rat.Floor
import Mathlib.Algebra.Order.Field.Rat

set_option autoImplicit false

namespace Hunter

/-- Source strings as lists of characters, ordered by code point like Rust's `str`. -/
abbrev Text := List Char

namespace Text

def nat (n : Nat) : Text := Nat.toDigits 10 n

def int (i : Int) : Text :=
  if i < 0 then '-' :: nat i.natAbs else nat i.natAbs

def roundHalfEven (q : ℚ) : Int :=
  let f := ⌊q⌋
  if q - f < 1 / 2 then f
  else if 1 / 2 < q - f then f + 1
  else if f % 2 = 0 then f else f + 1

/-- `{:.2}` of an exact number. -/
def fixed2 (q : ℚ) : Text :=
  let n := (roundHalfEven (|q| * 100)).natAbs
  let digits := nat (n / 100) ++ ['.'] ++ nat (n % 100 / 10) ++ nat (n % 10)
  if q < 0 then '-' :: digits else digits

/-- Unicode's `White_Space`. -/
def isWhite (c : Char) : Bool :=
  let n := c.toNat
  9 ≤ n && n ≤ 13 || n = 0x20 || n = 0x85 || n = 0xA0 || n = 0x1680
    || 0x2000 ≤ n && n ≤ 0x200A || n = 0x2028 || n = 0x2029 || n = 0x202F || n = 0x205F
    || n = 0x3000

def trim (s : Text) : Text := ((s.dropWhile isWhite).reverse.dropWhile isWhite).reverse

/-- `trim_matches`. -/
def trimMatches (p : Char → Bool) (s : Text) : Text := (s.dropWhile p).rdropWhile p

def consLine (c : Char) : List Text → List Text
  | [] => [[c]]
  | line :: rest => (c :: line) :: rest

/-- `lines`: a line ends at `\n` or `\r\n`, the last one also without. -/
def lines : Text → List Text
  | [] => []
  | '\r' :: '\n' :: s => [] :: lines s
  | '\n' :: s => [] :: lines s
  | c :: s => consLine c (lines s)

/-- `split_whitespace`. -/
def words (s : Text) : List Text := (s.splitOnP isWhite).filter fun w => !w.isEmpty

end Text

/-- Rust's `as i64` on an exact number: towards zero, saturating. -/
def castI64 (q : ℚ) : Int :=
  let t := if 0 ≤ q then ⌊q⌋ else ⌈q⌉
  max (-(2 ^ 63)) (min (2 ^ 63 - 1) t)

theorem castI64_le {q : ℚ} (hq : 0 ≤ q) : (castI64 q : ℚ) ≤ q := by
  have hnonneg : 0 ≤ ⌊q⌋ := Int.floor_nonneg.mpr hq
  have hle : castI64 q ≤ ⌊q⌋ := by
    simp only [castI64, if_pos hq]; omega
  exact le_trans (by exact_mod_cast hle) (Int.floor_le q)

end Hunter
