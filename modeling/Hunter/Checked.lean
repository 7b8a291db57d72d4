import Hunter.Delimited
import Mathlib.Tactic.Common
import Mathlib.Tactic.Ring
set_option autoImplicit false

/-! Operations that panic instead of giving a wrong answer: fixed-width arithmetic, slices of UTF-8
text at byte offsets. Decimal numerals are read into a width, never wrapped. -/

namespace Checked

inductive Panic where
  | overflow
  | boundary
deriving Repr, DecidableEq

abbrev Result (α : Type) := Except Panic α

def Returns {α : Type} (r : Result α) : Prop := ∃ a, r = .ok a

section
variable {ε α β : Type} {r : Except ε α} {f : α → Except ε β} {a a' : α} {b : β}

@[simp] theorem pure_eq_ok : (pure a : Except ε α) = .ok a' ↔ a = a' := by
  simp [pure, Except.pure]

theorem bind_eq_ok : r >>= f = .ok b ↔ ∃ a, r = .ok a ∧ f a = .ok b := by
  cases r with
  | error p => simp [bind, Except.bind]
  | ok a => simp [bind, Except.bind]

end

structure Width where
  lo : Int
  hi : Int

def i64 : Width := ⟨-9223372036854775808, 9223372036854775807⟩

def u32 : Width := ⟨0, 4294967295⟩

def Width.Holds (w : Width) (x : Int) : Prop := w.lo ≤ x ∧ x ≤ w.hi

instance (w : Width) (x : Int) : Decidable (w.Holds x) := inferInstanceAs (Decidable (_ ∧ _))

def Width.fit (w : Width) (x : Int) : Result Int :=
  if w.Holds x then .ok x else .error .overflow

section
variable {w : Width} {x y : Int} {α : Type} {f : Int → Result α} {a : α}

theorem holds_i64 :
    i64.Holds x ↔ -9223372036854775808 ≤ x ∧ x ≤ 9223372036854775807 := Iff.rfl

theorem holds_u32 : u32.Holds x ↔ 0 ≤ x ∧ x ≤ 4294967295 := Iff.rfl

@[simp] theorem Width.fit_eq_ok : w.fit x = .ok y ↔ w.Holds x ∧ x = y := by
  by_cases h : w.Holds x
  · simp [Width.fit, h]
  · simp [Width.fit, h]

@[simp] theorem Width.fit_bind_eq_ok : w.fit x >>= f = .ok a ↔ w.Holds x ∧ f x = .ok a := by
  rw [bind_eq_ok]
  by_cases h : w.Holds x
  · simp [Width.fit, h]
  · simp [Width.fit, h]

end

def digit (c : Char) : Nat := c.toNat - 48

def number (ds : List Char) : Nat := ds.foldl (fun n c => 10 * n + digit c) 0

def digits (s : List Char) : Option Nat :=
  if s ≠ [] ∧ s.all Char.isDigit then some (number s) else none

/-- A decimal numeral with an optional sign (a minus only where the width is signed). -/
def Width.parse (w : Width) (s : List Char) : Option Int :=
  (match s with
    | '+' :: ds => (digits ds).map Int.ofNat
    | '-' :: ds => if w.lo < 0 then (digits ds).map fun (n : Nat) => -Int.ofNat n else none
    | ds => (digits ds).map Int.ofNat).filter w.Holds

section
variable {w : Width} {s ds : List Char} {x : Int} {n : Nat}

theorem Width.holds_of_parse (h : w.parse s = some x) : w.Holds x := by
  obtain ⟨-, hx⟩ := Option.filter_eq_some_iff.mp h
  simpa using hx

theorem Width.parse_of_digits (hne : ds ≠ []) (hds : ∀ c ∈ ds, c.isDigit) :
    w.parse ds = (some (number ds : Int)).filter w.Holds := by
  have hdigits : digits ds = some (number ds) := if_pos ⟨hne, by simpa using hds⟩
  rw [Width.parse, hdigits]
  · rfl
  · rintro rest rfl
    exact absurd (hds '+' (by simp)) (by decide)
  · rintro rest rfl
    exact absurd (hds '-' (by simp)) (by decide)

theorem number_append {c : Char} : number (ds ++ [c]) = 10 * number ds + digit c := by
  simp [number]

theorem number_lt (h : ∀ c ∈ ds, c.isDigit) : number ds < 10 ^ ds.length := by
  induction ds using List.reverseRecOn with
  | nil => simp [number]
  | append_singleton ds c ih =>
    have hlt := ih fun d hd => h d (by simp [hd])
    have hc : c.isDigit := h c (by simp)
    have hdigit : digit c ≤ 9 := by
      simp only [Char.isDigit, Bool.and_eq_true, decide_eq_true_eq] at hc
      have hle : c.toNat ≤ 57 := hc.2
      simp only [digit]
      omega
    rw [number_append, List.length_append, List.length_singleton, Nat.pow_succ]
    omega

theorem lt_of_digits (h : digits s = some n) : n < 10 ^ s.length := by
  rw [digits] at h
  split at h
  · rename_i hs
    obtain rfl := Option.some.inj h
    exact number_lt (by simpa using hs.2)
  · cases h

theorem Width.natAbs_lt_of_parse (h : w.parse s = some x) : x.natAbs < 10 ^ s.length := by
  obtain ⟨hx, -⟩ := Option.filter_eq_some_iff.mp h
  have hsucc (ds : List Char) : 10 ^ ds.length ≤ 10 ^ (ds.length + 1) :=
    Nat.pow_le_pow_right (by decide) (by omega)
  split at hx
  · rename_i ds
    obtain ⟨n, hn, rfl⟩ := Option.map_eq_some_iff.mp hx
    have hlt := lt_of_digits hn
    exact lt_of_lt_of_le hlt (hsucc ds)
  · rename_i ds
    by_cases hlo : w.lo < 0
    · simp only [hlo, if_true, Option.map_eq_some_iff] at hx
      obtain ⟨n, hn, rfl⟩ := hx
      have hlt := lt_of_digits hn
      have habs : (-Int.ofNat n).natAbs = n := by simp
      rw [habs]
      exact lt_of_lt_of_le hlt (hsucc ds)
    · simp [hlo] at hx
  · obtain ⟨n, hn, rfl⟩ := Option.map_eq_some_iff.mp hx
    exact lt_of_digits hn

end

def digitChar (n : Nat) : Char := Char.ofNat (48 + n % 10)

def padded : Nat → Nat → List Char
  | 0, _ => []
  | k + 1, n => padded k (n / 10) ++ [digitChar n]

section
variable {k n : Nat} {a b : List Char}

theorem digitChar_spec (n : Nat) : (digitChar n).isDigit ∧ digit (digitChar n) = n % 10 := by
  have hall : ∀ d : Fin 10, (Char.ofNat (48 + d)).isDigit ∧ digit (Char.ofNat (48 + d)) = d := by
    decide
  exact hall ⟨n % 10, Nat.mod_lt n (by decide)⟩

@[simp] theorem padded_length : (padded k n).length = k := by
  induction k generalizing n with
  | zero => rfl
  | succ k ih => rw [padded, List.length_append, ih, List.length_singleton]

theorem padded_isDigit : ∀ c ∈ padded k n, c.isDigit := by
  induction k generalizing n with
  | zero => simp [padded]
  | succ k ih =>
    intro c hc
    simp only [padded, List.mem_append, List.mem_singleton] at hc
    obtain hc | rfl := hc
    · exact ih c hc
    · exact (digitChar_spec n).1

theorem number_padded (h : n < 10 ^ k) : number (padded k n) = n := by
  induction k generalizing n with
  | zero =>
    have hn : n = 0 := by simpa using h
    rw [hn]
    rfl
  | succ k ih =>
    have hdiv : n / 10 < 10 ^ k := by
      rw [Nat.pow_succ] at h
      omega
    rw [padded, number_append, ih hdiv, (digitChar_spec n).2]
    omega

theorem number_join : number (a ++ b) = number a * 10 ^ b.length + number b := by
  induction b using List.reverseRecOn with
  | nil => simp [number]
  | append_singleton b c ih =>
    rw [← List.append_assoc, number_append, ih, number_append, List.length_append,
      List.length_singleton, Nat.pow_succ]
    ring

theorem Width.parse_padded {w : Width} (hk : 0 < k) (h : n < 10 ^ k) (hw : w.Holds n) :
    w.parse (padded k n) = some (n : Int) := by
  have hne : padded k n ≠ [] := by
    intro hnil
    have hlen := padded_length (k := k) (n := n)
    rw [hnil, List.length_nil] at hlen
    omega
  rw [Width.parse_of_digits hne padded_isDigit, number_padded h]
  simp [Option.filter, hw]

end

def bytes (s : List Char) : Nat := (s.map Char.utf8Size).sum

/-- `&s[..n]`. -/
def sliceTo : List Char → Nat → Result (List Char)
  | _, 0 => .ok []
  | [], _ + 1 => .error .boundary
  | c :: s, n + 1 =>
    if c.utf8Size ≤ n + 1 then (sliceTo s (n + 1 - c.utf8Size)).map fun t => c :: t
    else .error .boundary

/-- `&s[n..]`. -/
def sliceFrom : List Char → Nat → Result (List Char)
  | s, 0 => .ok s
  | [], _ + 1 => .error .boundary
  | c :: s, n + 1 =>
    if c.utf8Size ≤ n + 1 then sliceFrom s (n + 1 - c.utf8Size) else .error .boundary

def rfind (c : Char) (s : List Char) : Option Nat :=
  (Delimited.rsplitOnce [c] s).map fun p => bytes p.1

section
variable {a b : List Char} {c : Char}

theorem sliceTo_append : sliceTo (a ++ b) (bytes a) = .ok a := by
  induction a with
  | nil => cases b <;> simp [sliceTo, bytes]
  | cons c a ih =>
    have hpos := c.utf8Size_pos
    obtain ⟨n, hn⟩ : ∃ n, bytes (c :: a) = n + 1 := ⟨bytes (c :: a) - 1, by
      simp only [bytes, List.map_cons, List.sum_cons]
      omega⟩
    have hrest : n + 1 - c.utf8Size = bytes a := by
      simp only [bytes, List.map_cons, List.sum_cons] at hn ⊢
      omega
    have hle : c.utf8Size ≤ n + 1 := by
      simp only [bytes, List.map_cons, List.sum_cons] at hn
      omega
    rw [hn, List.cons_append, sliceTo, if_pos hle, hrest, ih]
    rfl

theorem sliceFrom_append : sliceFrom (a ++ b) (bytes a) = .ok b := by
  induction a with
  | nil => cases b <;> simp [sliceFrom, bytes]
  | cons c a ih =>
    have hpos := c.utf8Size_pos
    obtain ⟨n, hn⟩ : ∃ n, bytes (c :: a) = n + 1 := ⟨bytes (c :: a) - 1, by
      simp only [bytes, List.map_cons, List.sum_cons]
      omega⟩
    have hrest : n + 1 - c.utf8Size = bytes a := by
      simp only [bytes, List.map_cons, List.sum_cons] at hn ⊢
      omega
    have hle : c.utf8Size ≤ n + 1 := by
      simp only [bytes, List.map_cons, List.sum_cons] at hn
      omega
    rw [hn, List.cons_append, sliceFrom, if_pos hle, hrest, ih]

theorem sliceFrom_succ (hc : c.utf8Size = 1) :
    sliceFrom (a ++ c :: b) (bytes a + 1) = .ok b := by
  have hbytes : bytes (a ++ [c]) = bytes a + 1 := by simp [bytes, hc]
  have hsplit : a ++ c :: b = (a ++ [c]) ++ b := by simp
  rw [hsplit, ← hbytes, sliceFrom_append]

theorem length_le_bytes : a.length ≤ bytes a := by
  induction a with
  | nil => simp
  | cons c a ih =>
    have hpos := c.utf8Size_pos
    simp only [bytes, List.map_cons, List.sum_cons, List.length_cons] at ih ⊢
    omega

theorem bytes_of_sliceTo {s : List Char} {n : Nat} (h : sliceTo s n = .ok a) : bytes a = n := by
  induction s generalizing n a with
  | nil =>
    cases n with
    | zero =>
      simp only [sliceTo, Except.ok.injEq] at h
      simp [← h, bytes]
    | succ n => simp [sliceTo] at h
  | cons c s ih =>
    cases n with
    | zero =>
      simp only [sliceTo, Except.ok.injEq] at h
      simp [← h, bytes]
    | succ n =>
      by_cases hc : c.utf8Size ≤ n + 1
      · simp only [sliceTo, hc, if_true] at h
        cases ht : sliceTo s (n + 1 - c.utf8Size) with
        | error e => simp [ht, Except.map] at h
        | ok t =>
          simp only [ht, Except.map, Except.ok.injEq] at h
          have hbytes := ih ht
          simp only [bytes] at hbytes
          simp only [← h, bytes, List.map_cons, List.sum_cons, hbytes]
          omega
      · simp [sliceTo, hc] at h

end

end Checked
