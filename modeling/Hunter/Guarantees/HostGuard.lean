import Hunter.Server.HostGuard
import Mathlib

set_option autoImplicit false

namespace Hunter
open Checked Delimited

namespace HostSyntax

def isHex (c : Char) : Bool := c.isDigit || "abcdefABCDEF".toList.contains c

def isNameChar (c : Char) : Bool := c.isAlphanum || "-._~!$&'()*+,;=".toList.contains c

def regName : Text → Bool
  | [] => true
  | '%' :: a :: b :: s => isHex a && isHex b && regName s
  | c :: s => isNameChar c && regName s

def h16 (s : Text) : Bool := s.all isHex && decide (1 ≤ s.length ∧ s.length ≤ 4)

def decOctet (s : Text) : Bool :=
  s.all Char.isDigit && !s.isEmpty && (s.length = 1 || s.head? ≠ some '0') &&
    decide (number s ≤ 255)

def ipv4 (s : Text) : Bool := (s.splitOn '.').length = 4 && (s.splitOn '.').all decOctet

/-- How many groups the parts of an address are, the last two being a dotted address at its end. -/
def groups : List Text → Option Nat
  | [] => some 0
  | [s] => if h16 s then some 1 else if ipv4 s then some 2 else none
  | s :: rest => if h16 s then (groups rest).map (· + 1) else none

def ipv6 (s : Text) : Bool :=
  s.all (fun c => isHex c || c = ':' || c = '.') &&
    match splitOnce "::".toList s with
    | none => groups (s.splitOn ':') = some 8
    | some (left, right) =>
      let before := if left.isEmpty then [] else left.splitOn ':'
      let after := if right.isEmpty then [] else right.splitOn ':'
      before.all h16 && match groups after with
        | some n => decide (before.length + n ≤ 7)
        | none => false

def Port (s : Text) : Prop := s = [] ∨ ∃ ds, s = ':' :: ds ∧ ∀ c ∈ ds, c.isDigit

end HostSyntax

open HostSyntax

/-- A `Host` value and its name part. -/
@[mk_iff] inductive HostForm : Text → Text → Prop where
  | name {n p : Text} : n ≠ [] → regName n → Port p → HostForm (n ++ p) n
  | literal {n p : Text} : ipv6 n → Port p → HostForm ('[' :: (n ++ ']' :: p)) n

/-- Values the guard decides otherwise than their name part: what is taken for a listed name is not
one, or a listed name is not taken for it. -/
def Misread (list : HostAllowList) (s : Text) : Prop :=
  match stripPrefix ['['] s with
  | some rest =>
    match splitOnce [']'] rest with
    | none => list.allows s
    -- a name between brackets that is no address, or with more than a port behind them
    | some (n, t) => list.allows n ∧ ¬ (ipv6 n ∧ Port t)
  | none =>
    match splitOnce [':'] s with
    | none => list.allows s ∧ ¬ regName s
    | some (n, t) =>
      if t = [] then ¬ (list.allows s ↔ n ≠ [] ∧ regName n ∧ list.allows n)
      else if ∀ c ∈ t, c.isDigit then list.allows n ∧ ¬ (n ≠ [] ∧ regName n)
      -- no port follows, so the whole value is looked up
      else list.allows s

example : ipv6 "::1".toList ∧ ipv6 "fe80::1.2.3.4".toList ∧ ¬ ipv6 "1:2:3".toList ∧
    ¬ ipv6 "1::2::3".toList := by decide +kernel

section
variable {n p s t m : Text} {c : Char} {list : HostAllowList}

theorem regName_mem (h : regName n) (hc : c ∈ n) : isNameChar c ∨ isHex c ∨ c = '%' := by
  induction n using regName.induct with
  | case1 => cases hc
  | case2 a b s ih =>
    simp only [regName, Bool.and_eq_true] at h
    simp only [List.mem_cons] at hc
    rcases hc with rfl | rfl | rfl | hc
    · exact .inr (.inr rfl)
    · exact .inr (.inl h.1.1)
    · exact .inr (.inl h.1.2)
    · exact ih h.2 hc
  | case3 d s hpercent ih =>
    rw [regName.eq_3 _ _ hpercent, Bool.and_eq_true] at h
    rcases List.mem_cons.mp hc with rfl | hc
    · exact .inl h.1
    · exact ih h.2 hc

theorem colon_not_mem_regName (h : regName n) : ':' ∉ n := by
  intro hc
  rcases regName_mem h hc with h | h | h <;> revert h <;> decide

theorem head_regName (h : regName n) : n.head? ≠ some '[' := by
  intro hc
  rcases regName_mem h (List.mem_of_mem_head? hc) with h | h | h <;> revert h <;> decide

theorem bracket_not_mem_ipv6 (h : ipv6 n) : ']' ∉ n := by
  intro hc
  simp only [ipv6, Bool.and_eq_true, List.all_eq_true] at h
  exact absurd (h.1 ']' hc) (by decide)

theorem hostName_bracketed (h : ']' ∉ n) : hostName ('[' :: (n ++ ']' :: t)) = n := by
  have hstrip : stripPrefix ['['] ('[' :: (n ++ ']' :: t)) = some (n ++ ']' :: t) :=
    stripPrefix_eq_some.mpr rfl
  rw [hostName, hstrip]
  simp only [splitOnce_singleton.mpr ⟨(rfl : n ++ ']' :: t = _), h⟩]

theorem hostName_unclosed (h : ']' ∉ t) : hostName ('[' :: t) = '[' :: t := by
  have hstrip : stripPrefix ['['] ('[' :: t) = some t := stripPrefix_eq_some.mpr rfl
  rw [hostName, hstrip]
  simp only [splitOnce_singleton_eq_none.mpr h]

theorem stripPrefix_head (h : s.head? ≠ some '[') : stripPrefix ['['] s = none := by
  cases hs : stripPrefix ['['] s with
  | none => rfl
  | some rest =>
    obtain rfl := stripPrefix_eq_some.mp hs
    exact absurd rfl h

theorem hostName_bare (hhead : s.head? ≠ some '[') (h : ':' ∉ s) : hostName s = s := by
  rw [hostName, stripPrefix_head hhead]
  simp only [rsplitOnce_singleton_eq_none.mpr h]

theorem digits_no_colon {ds : Text} (h : ∀ c ∈ ds, c.isDigit) : ':' ∉ ds :=
  fun hc => absurd (h ':' hc) (by decide)

theorem hostName_ported {ds : Text} (hhead : (n ++ ':' :: ds).head? ≠ some '[') (hn : ':' ∉ n)
    (hne : ds ≠ []) (hds : ∀ c ∈ ds, c.isDigit) : hostName (n ++ ':' :: ds) = n := by
  rw [hostName, stripPrefix_head hhead]
  simp only [rsplitOnce_singleton.mpr ⟨(rfl : n ++ ':' :: ds = _), digits_no_colon hds⟩]
  simp [hn, hne, List.all_eq_true.mpr hds]

theorem hostName_whole (hhead : (n ++ ':' :: t).head? ≠ some '[') (hn : ':' ∉ n)
    (ht : t = [] ∨ ¬ ∀ c ∈ t, c.isDigit) : hostName (n ++ ':' :: t) = n ++ ':' :: t := by
  rw [hostName, stripPrefix_head hhead]
  cases hsplit : rsplitOnce [':'] (n ++ ':' :: t) with
  | none => rfl
  | some q =>
    obtain ⟨a, port⟩ := q
    obtain ⟨hspells, -⟩ := rsplitOnce_singleton.mp hsplit
    simp only
    refine if_neg fun hcond => ?_
    simp only [Bool.and_eq_true, Bool.not_eq_true', List.isEmpty_eq_false_iff, List.all_eq_true,
      List.contains_eq_mem, decide_eq_false_iff_not] at hcond
    obtain ⟨⟨ha, hne⟩, hdigits⟩ := hcond
    have hfirst : splitOnce [':'] (n ++ ':' :: t) = some (a, port) :=
      splitOnce_singleton.mpr ⟨hspells, ha⟩
    rw [splitOnce_singleton.mpr ⟨rfl, hn⟩] at hfirst
    obtain ⟨rfl, rfl⟩ := Prod.mk.inj (Option.some.inj hfirst)
    rcases ht with ht | ht
    · exact hne ht
    · exact ht hdigits

theorem name_head (hne : n ≠ []) (h : regName n) : (n ++ p).head? ≠ some '[' := by
  rw [List.head?_append_of_ne_nil n hne]
  exact head_regName h

theorem form_bracketed (h : ']' ∉ n) :
    HostForm ('[' :: (n ++ ']' :: t)) m ↔ m = n ∧ ipv6 n ∧ Port t := by
  constructor
  · intro hform
    rcases (hostForm_iff _ _).mp hform with
      ⟨p, hne, hreg, hport, hspells⟩ | ⟨p, hv6, hport, hspells⟩
    · exact absurd (by rw [← hspells]; rfl) (name_head (p := p) hne hreg)
    · have hfirst : splitOnce [']'] (n ++ ']' :: t) = some (m, p) :=
        splitOnce_singleton.mpr ⟨(List.cons.inj hspells).2, bracket_not_mem_ipv6 hv6⟩
      rw [splitOnce_singleton.mpr ⟨rfl, h⟩] at hfirst
      obtain ⟨rfl, rfl⟩ := Prod.mk.inj (Option.some.inj hfirst)
      exact ⟨rfl, hv6, hport⟩
  · rintro ⟨rfl, hv6, hport⟩
    exact .literal hv6 hport

theorem not_form_unclosed (h : ']' ∉ t) : ¬ HostForm ('[' :: t) m := by
  intro hform
  rcases (hostForm_iff _ _).mp hform with ⟨p, hne, hreg, hport, hspells⟩ | ⟨p, hv6, hport, hspells⟩
  · exact absurd (by rw [← hspells]; rfl) (name_head (p := p) hne hreg)
  · exact h (by simp [(List.cons.inj hspells).2])

theorem form_bare (hhead : s.head? ≠ some '[') (h : ':' ∉ s) :
    HostForm s m ↔ m = s ∧ s ≠ [] ∧ regName s := by
  constructor
  · intro hform
    rcases (hostForm_iff _ _).mp hform with ⟨p, hne, hreg, hport, rfl⟩ | ⟨p, hv6, hport, rfl⟩
    · rcases hport with rfl | ⟨ds, rfl, hds⟩
      · rw [List.append_nil]
        exact ⟨rfl, hne, hreg⟩
      · exact absurd (by simp) h
    · exact absurd rfl hhead
  · rintro ⟨rfl, hne, hreg⟩
    have hform := HostForm.name hne hreg (.inl rfl)
    rwa [List.append_nil] at hform

theorem form_colon (hhead : (n ++ ':' :: t).head? ≠ some '[') (hn : ':' ∉ n) :
    HostForm (n ++ ':' :: t) m ↔ m = n ∧ n ≠ [] ∧ regName n ∧ ∀ c ∈ t, c.isDigit := by
  constructor
  · intro hform
    rcases (hostForm_iff _ _).mp hform with
      ⟨p, hne, hreg, hport, hspells⟩ | ⟨p, hv6, hport, hspells⟩
    · rcases hport with rfl | ⟨ds, rfl, hds⟩
      · rw [List.append_nil] at hspells
        exact absurd (by simp [← hspells]) (colon_not_mem_regName hreg)
      · have hfirst : splitOnce [':'] (n ++ ':' :: t) = some (m, ds) :=
          splitOnce_singleton.mpr ⟨hspells, colon_not_mem_regName hreg⟩
        rw [splitOnce_singleton.mpr ⟨rfl, hn⟩] at hfirst
        obtain ⟨rfl, rfl⟩ := Prod.mk.inj (Option.some.inj hfirst)
        exact ⟨rfl, hne, hreg, hds⟩
    · rw [hspells] at hhead
      exact absurd rfl hhead
  · rintro ⟨rfl, hne, hreg, hds⟩
    exact .name hne hreg (.inr ⟨t, rfl, hds⟩)

def NameAllowed (list : HostAllowList) (s : Text) : Prop := ∃ n, HostForm s n ∧ list.allows n

theorem allows_hostName_iff (hs : s ≠ []) :
    (list.allows (hostName s) ↔ NameAllowed list s) ↔ ¬ Misread list s := by
  cases hstrip : stripPrefix ['['] s with
  | some rest =>
    obtain rfl := stripPrefix_eq_some.mp hstrip
    rw [List.singleton_append] at hstrip ⊢
    cases hsplit : splitOnce [']'] rest with
    | none =>
      have hnone := splitOnce_singleton_eq_none.mp hsplit
      have hform : ¬ NameAllowed list ('[' :: rest) := fun ⟨m, hm, _⟩ => not_form_unclosed hnone hm
      simp [Misread, hstrip, hsplit, hform, hostName_unclosed hnone]
    | some q =>
      obtain ⟨n, t⟩ := q
      obtain ⟨rfl, hn⟩ := splitOnce_singleton.mp hsplit
      simp only [Misread, hstrip, hsplit, NameAllowed, form_bracketed hn, hostName_bracketed hn,
        and_assoc, exists_eq_left]
      tauto
  | none =>
    have hhead : s.head? ≠ some '[' := by
      intro h
      obtain ⟨c, rest, rfl⟩ := List.exists_cons_of_ne_nil hs
      obtain rfl := Option.some.inj h
      rw [stripPrefix_eq_some.mpr (List.singleton_append).symm] at hstrip
      cases hstrip
    cases hsplit : splitOnce [':'] s with
    | none =>
      have hnone := splitOnce_singleton_eq_none.mp hsplit
      simp only [Misread, hstrip, hsplit, NameAllowed, form_bare hhead hnone,
        hostName_bare hhead hnone, and_assoc, exists_eq_left]
      tauto
    | some q =>
      obtain ⟨n, t⟩ := q
      obtain ⟨rfl, hn⟩ := splitOnce_singleton.mp hsplit
      simp only [Misread, hstrip, hsplit, NameAllowed, form_colon hhead hn, and_assoc,
        exists_eq_left]
      by_cases ht : t = []
      · subst ht
        rw [hostName_whole hhead hn (.inl rfl), if_pos rfl]
        simp
      · by_cases hdigits : ∀ c ∈ t, c.isDigit
        · rw [hostName_ported hhead hn ht hdigits, if_neg ht, if_pos hdigits]
          tauto
        · rw [hostName_whole hhead hn (.inr hdigits), if_neg ht, if_neg hdigits]
          tauto

def asChars (v : List UInt8) : Text := v.map fun b => Char.ofNat b.toNat

/-- What reading a header value as text promises: visible ASCII is read, and nothing is read as
other characters than its bytes. -/
structure ReadsAscii (toStr : List UInt8 → Option Text) : Prop where
  visible : ∀ v, (∀ b ∈ v, 32 ≤ b.toNat ∧ b.toNat < 127) → toStr v = some (asChars v)
  chars : ∀ v s, toStr v = some s → s = asChars v

def IsVisible (c : Char) : Prop := 32 ≤ c.toNat ∧ c.toNat < 127

instance (c : Char) : Decidable (IsVisible c) := inferInstanceAs (Decidable (_ ∧ _))

theorem visible_of_all {cs : Text} (h : cs.all fun c => decide (IsVisible c)) (hc : c ∈ cs) :
    IsVisible c := by
  simpa using List.all_eq_true.mp h c hc

theorem visible_of_isAlphanum (h : c.isAlphanum) : IsVisible c := by
  simp only [Char.isAlphanum, Char.isAlpha, Char.isUpper, Char.isLower, Char.isDigit,
    Bool.or_eq_true, Bool.and_eq_true, decide_eq_true_eq, ge_iff_le, UInt32.le_iff_toNat_le] at h
  have hval : c.toNat = c.val.toNat := rfl
  simp only [IsVisible, hval]
  have hZ : 'Z'.val.toNat = 90 := rfl
  have hz : 'z'.val.toNat = 122 := rfl
  have h9 : '9'.val.toNat = 57 := rfl
  have hA : 'A'.val.toNat = 65 := rfl
  have ha : 'a'.val.toNat = 97 := rfl
  have h0 : '0'.val.toNat = 48 := rfl
  omega

theorem visible_of_isDigit (h : c.isDigit) : IsVisible c :=
  visible_of_isAlphanum (by simp [Char.isAlphanum, h])

theorem visible_of_isHex (h : isHex c) : IsVisible c := by
  simp only [isHex, Bool.or_eq_true, List.contains_eq_mem, decide_eq_true_eq] at h
  rcases h with h | h
  · exact visible_of_isDigit h
  · exact visible_of_all (by decide) h

theorem visible_of_isNameChar (h : isNameChar c) : IsVisible c := by
  simp only [isNameChar, Bool.or_eq_true, List.contains_eq_mem, decide_eq_true_eq] at h
  rcases h with h | h
  · exact visible_of_isAlphanum h
  · exact visible_of_all (by decide) h

theorem port_visible (h : Port p) : ∀ c ∈ p, IsVisible c := by
  rcases h with rfl | ⟨ds, rfl, hds⟩
  · simp
  · intro c hc
    rcases List.mem_cons.mp hc with rfl | hc
    · decide
    · exact visible_of_isDigit (hds c hc)

theorem form_visible (h : HostForm s m) : ∀ c ∈ s, IsVisible c := by
  cases h with
  | name hne hreg hport =>
    intro c hc
    rcases List.mem_append.mp hc with hc | hc
    · rcases regName_mem hreg hc with h | h | rfl
      · exact visible_of_isNameChar h
      · exact visible_of_isHex h
      · decide
    · exact port_visible hport c hc
  | literal hv6 hport =>
    intro c hc
    simp only [List.mem_cons, List.mem_append] at hc
    rcases hc with rfl | hc | rfl | hc
    · decide
    · simp only [ipv6, Bool.and_eq_true, List.all_eq_true, Bool.or_eq_true,
        decide_eq_true_eq] at hv6
      rcases hv6.1 c hc with (h | rfl) | rfl
      · exact visible_of_isHex h
      · decide
      · decide
    · decide
    · exact port_visible hport c hc

theorem toNat_asChar (b : UInt8) : (Char.ofNat b.toNat).toNat = b.toNat := by
  have hlt : b.toNat < 256 := b.toNat_lt
  have hvalid : b.toNat.isValidChar := .inl (by omega)
  simp [Char.ofNat, hvalid, Char.toNat, Char.ofNatAux]

variable {toStr : List UInt8 → Option Text} {v : List UInt8}

theorem toStr_isSome_of_form (h : ReadsAscii toStr) (hform : HostForm (asChars v) m) :
    (toStr v).isSome := by
  have hvisible : ∀ b ∈ v, 32 ≤ b.toNat ∧ b.toNat < 127 := by
    intro b hb
    have hc := form_visible hform (Char.ofNat b.toNat) (List.mem_map_of_mem hb)
    rwa [IsVisible, toNat_asChar] at hc
  simp [h.visible v hvisible]

/-- For every header value and allow list: the guard lets through exactly the values whose name
part is listed, save those that do not read as text, the empty one and the misread ones. -/
theorem requireAllowedHost_iff (h : ReadsAscii toStr) (list : HostAllowList) (v : List UInt8) :
    (requireAllowedHost toStr (some v) list = .ok () ↔ NameAllowed list (asChars v)) ↔
      (toStr v).isSome ∧ v ≠ [] ∧ ¬ Misread list (asChars v) := by
  cases hread : toStr v with
  | none =>
    have hnot : ¬ NameAllowed list (asChars v) := by
      rintro ⟨m, hform, -⟩
      have hsome := toStr_isSome_of_form h hform
      simp [hread] at hsome
    simp [requireAllowedHost, hread, hnot]
  | some s =>
    obtain rfl := h.chars v s hread
    by_cases hv : v = []
    · subst hv
      have hnot : ¬ NameAllowed list (asChars []) := by
        rintro ⟨m, hform, -⟩
        rcases (hostForm_iff _ _).mp hform with ⟨p, hne, -, -, hspells⟩ | ⟨p, -, -, hspells⟩
        · exact hne (List.append_eq_nil_iff.mp hspells.symm).1
        · cases hspells
      have hok : requireAllowedHost toStr (some []) list = .ok () := by
        simp [requireAllowedHost, hread, asChars]
      simp [hok, hnot]
    · have hs : asChars v ≠ [] := by simpa [asChars] using hv
      have hempty : (asChars v).isEmpty = false := by simpa using hs
      have hok : requireAllowedHost toStr (some v) list = .ok () ↔
          list.allows (hostName (asChars v)) := by
        simp only [requireAllowedHost, Option.bind_some, hread, Option.getD_some, hempty,
          Bool.false_or]
        split <;> simp [*]
      rw [hok, allows_hostName_iff hs]
      simp [hv]

end

def readAscii (v : List UInt8) : Option Text :=
  if v.all fun b => 32 ≤ b.toNat && b.toNat < 127 || b = 9 then some (asChars v) else none

theorem readAscii_reads : ReadsAscii readAscii := by
  constructor
  · intro v hv
    refine if_pos (List.all_eq_true.mpr fun b hb => ?_)
    simp [hv b hb]
  · intro v s h
    rw [readAscii] at h
    split at h
    · exact (Option.some.inj h).symm
    · cases h

def localhostPort : List UInt8 := "localhost:8377".toUTF8.data.toList

theorem requireAllowedHost_localhost :
    (requireAllowedHost readAscii (some localhostPort) (.names []) = .ok () ↔
        NameAllowed (.names []) (asChars localhostPort)) ↔
      (readAscii localhostPort).isSome ∧ localhostPort ≠ [] ∧
        ¬ Misread (.names []) (asChars localhostPort) :=
  requireAllowedHost_iff readAscii_reads (.names []) localhostPort

/-- A byte beyond ASCII reads as an absent header, whatever the rest of the value is. -/
theorem undecodable_host_admitted :
    ¬ (requireAllowedHost readAscii (some [0xFF]) (.names []) = .ok () ↔
      NameAllowed (.names []) (asChars [0xFF])) := by
  have hok : requireAllowedHost readAscii (some [0xFF]) (.names []) = .ok () := by decide
  rintro ⟨hname, -⟩
  obtain ⟨m, hform, -⟩ := hname hok
  have hsome := toStr_isSome_of_form readAscii_reads hform
  exact absurd hsome (by decide)

end Hunter
