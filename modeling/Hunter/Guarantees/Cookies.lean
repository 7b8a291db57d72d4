import Hunter.Guarantees.Declines
import Hunter.Server.Accounts
set_option autoImplicit false

namespace Hunter.Auth
open Delimited

/-! A login's cookie comes back as its token. -/

/-- The part of a `Set-Cookie` value that a browser keeps and sends. -/
def cookiePair (header : Text) : Text := header.takeWhile fun c => c ≠ ';'

def pairToken (pair : Text) : Option Text :=
  match splitOnce ['='] (Text.trim pair) with
  | some (name, value) => if name = sessionCookieName ∧ value ≠ [] then some value else none
  | none => none

section
variable {cookies cookies' : List (Option Text)} {pair token : Text} {bytes : List UInt8}

theorem sessionToken_eq : sessionToken cookies =
    ((cookies.filterMap id).flatMap fun v => v.splitOn ';').findSome? pairToken := rfl

theorem sessionToken_append :
    sessionToken (cookies ++ cookies') = (sessionToken cookies).or (sessionToken cookies') := by
  simp only [sessionToken_eq, List.filterMap_append, List.flatMap_append, List.findSome?_append]

theorem sessionToken_pair (hpair : ';' ∉ pair) : sessionToken [some pair] = pairToken pair := by
  have hwhole : pair.splitOn ';' = [pair] := by
    have hpairs : ∀ l ∈ [pair], ';' ∉ l := by simpa using hpair
    simpa using List.splitOn_intercalate ';' hpairs (by simp)
  simp [sessionToken_eq, hwhole]

theorem pairToken_space : pairToken (' ' :: pair) = pairToken pair := by
  have htrim : Text.trim (' ' :: pair) = Text.trim pair := Text.trimMatches_cons (by decide)
  rw [pairToken, htrim, pairToken]

theorem intercalate_cons_head {sep : Text} {c : Char} {pairs : List Text} :
    List.intercalate sep ((c :: pair) :: pairs) = c :: List.intercalate sep (pair :: pairs) := by
  cases pairs with
  | nil => simp
  | cons p pairs => simp [List.intercalate_cons_cons]

theorem intercalate_cookies {pairs : List Text} :
    List.intercalate [';', ' '] (pair :: pairs) =
      List.intercalate [';'] (pair :: pairs.map fun p => ' ' :: p) := by
  induction pairs generalizing pair with
  | nil => simp
  | cons p pairs ih =>
    rw [List.map_cons, List.intercalate_cons_cons, List.intercalate_cons_cons, ih,
      intercalate_cons_head]
    simp

theorem sessionToken_header {pairs : List Text} (hwhole : ∀ p ∈ pairs, ';' ∉ p) :
    sessionToken [some (List.intercalate [';', ' '] pairs)] = pairs.findSome? pairToken := by
  cases pairs with
  | nil => decide
  | cons p pairs =>
    have hpieces : ∀ q ∈ p :: pairs.map (fun q => ' ' :: q), ';' ∉ q := by
      simpa using hwhole
    rw [intercalate_cookies, sessionToken_eq]
    simp only [List.filterMap_cons, List.filterMap_nil, id, List.flatMap_cons, List.flatMap_nil,
      List.append_nil, List.splitOn_intercalate ';' hpieces (List.cons_ne_nil _ _),
      List.findSome?_cons, List.findSome?_map, Function.comp_def, pairToken_space]

theorem hex_digits (c : Char) (hc : c ∈ hex bytes) :
    c ∈ ['0', '1', '2', '3', '4', '5', '6', '7', '8', '9', 'a', 'b', 'c', 'd', 'e', 'f'] := by
  obtain ⟨b, -, hb⟩ := List.mem_flatMap.1 hc
  have hdigit : ∀ n < 16, Nat.digitChar n ∈
      ['0', '1', '2', '3', '4', '5', '6', '7', '8', '9', 'a', 'b', 'c', 'd', 'e', 'f'] := by
    decide
  have hlt := b.toNat_lt
  rcases List.mem_cons.1 hb with rfl | hb
  · exact hdigit _ (by omega)
  · rw [List.mem_singleton.1 hb]
    exact hdigit _ (by omega)

theorem hex_all {p : Char → Bool} (hp : ['0', '1', '2', '3', '4', '5', '6', '7', '8', '9',
    'a', 'b', 'c', 'd', 'e', 'f'].all p = true) : ∀ c ∈ hex bytes, p c = true :=
  fun c hc => List.all_eq_true.1 hp c (hex_digits c hc)

theorem hex_ne_nil (hbytes : bytes ≠ []) : hex bytes ≠ [] := by
  cases bytes with
  | nil => exact absurd rfl hbytes
  | cons b bytes => simp [hex]

theorem sessionCookie_hex (bytes : List UInt8) : ∃ rest, sessionCookie (hex bytes) =
    some (sessionCookieName ++ ['='] ++ hex bytes ++ ';' :: rest) := by
  have htoken : (hex bytes).all (fun c => 32 ≤ c.toNat && c.toNat < 127 || c = '\t') = true :=
    List.all_eq_true.2 (hex_all (by decide))
  have hname : (sessionCookieName ++ ['=']).all
      (fun c => 32 ≤ c.toNat && c.toNat < 127 || c = '\t') = true := by decide
  have hrest : ("; Path=/; HttpOnly; SameSite=Strict; Max-Age=".toList ++
      Text.int (sessionTtlMs / 1000)).all
      (fun c => 32 ≤ c.toNat && c.toNat < 127 || c = '\t') = true := by decide
  rw [sessionCookie, headerValue, List.append_assoc, List.all_append, List.all_append, hname,
    htoken, hrest]
  exact ⟨_, rfl⟩

theorem pairToken_session (hbytes : bytes ≠ []) :
    pairToken (sessionCookieName ++ '=' :: hex bytes) = some (hex bytes) := by
  have htrim : Text.trim (sessionCookieName ++ '=' :: hex bytes) =
      sessionCookieName ++ '=' :: hex bytes := by
    refine Text.trimMatches_eq_self.2 ⟨fun c hc => ?_, fun c hc => ?_⟩
    · cases hc
      decide
    · rw [List.append_cons, List.getLast?_append_of_ne_nil _ (hex_ne_nil hbytes)] at hc
      have hblack := hex_all (p := fun c => !Text.isWhite c) (by decide) c (List.mem_of_getLast? hc)
      simpa using hblack
  rw [pairToken, htrim, splitOnce_singleton.2 ⟨rfl, by decide⟩]
  simp [hex_ne_nil hbytes]

theorem cookiePair_session (rest : Text) :
    cookiePair (sessionCookieName ++ ['='] ++ hex bytes ++ ';' :: rest) =
      sessionCookieName ++ '=' :: hex bytes := by
  have hrun : ∀ c ∈ sessionCookieName ++ ['='] ++ hex bytes, decide (c ≠ ';') = true := by
    intro c hc
    have hname : (sessionCookieName ++ ['=']).all (fun c => c ≠ ';') = true := by decide
    rcases List.mem_append.1 hc with hc | hc
    · exact List.all_eq_true.1 hname c hc
    · exact hex_all (p := fun c => decide (c ≠ ';')) (by decide) c hc
  rw [cookiePair, takeWhile_stop hrun (by simp)]
  simp

/-- The token a login sets as a cookie is the one read from any later request of that browser,
whatever other cookies and headers it is sent among. -/
theorem cookie_returned {earlier later : List (Option Text)} {before after : List Text}
    (hbytes : bytes ≠ []) (hearlier : sessionToken earlier = none)
    (hbefore : ∀ p ∈ before, sessionToken [some p] = none)
    (hwhole : ∀ p ∈ before ++ after, ';' ∉ p) :
    ∃ header, sessionCookie (hex bytes) = some header ∧
      sessionToken (earlier ++ some (List.intercalate [';', ' ']
        (before ++ cookiePair header :: after)) :: later) = some (hex bytes) := by
  obtain ⟨rest, hcookie⟩ := sessionCookie_hex bytes
  refine ⟨_, hcookie, ?_⟩
  have hpairs : ∀ p ∈ before ++ (sessionCookieName ++ '=' :: hex bytes) :: after, ';' ∉ p := by
    intro p hp
    rcases List.mem_append.1 hp with hp | hp
    · exact hwhole p (List.mem_append_left _ hp)
    rcases List.mem_cons.1 hp with rfl | hp
    · rw [← cookiePair_session rest]
      intro hsemicolon
      simpa using List.mem_takeWhile_imp hsemicolon
    · exact hwhole p (List.mem_append_right _ hp)
  have hnone : before.findSome? pairToken = none := by
    refine List.findSome?_eq_none_iff.2 fun p hp => ?_
    rw [← sessionToken_pair (hwhole p (List.mem_append_left _ hp))]
    exact hbefore p hp
  have hheader : sessionToken [some (List.intercalate [';', ' ']
      (before ++ (sessionCookieName ++ '=' :: hex bytes) :: after))] = some (hex bytes) := by
    rw [sessionToken_header hpairs, List.findSome?_append, hnone, Option.none_or,
      List.findSome?_cons, pairToken_session hbytes]
  rw [cookiePair_session, sessionToken_append, hearlier, Option.none_or, ← List.singleton_append,
    sessionToken_append, hheader, Option.some_or]

theorem cookie_returned_among : ∃ header, sessionCookie (hex [7, 255]) = some header ∧
    sessionToken ([none, some "lang=de".toList] ++ some (List.intercalate [';', ' ']
      (["xhunter_session=abc".toList, "hunter_session=".toList] ++
        cookiePair header :: ["hunter_session=other".toList])) :: []) = some (hex [7, 255]) :=
  cookie_returned (by decide) (by decide) (by decide) (by decide)

end

end Hunter.Auth
