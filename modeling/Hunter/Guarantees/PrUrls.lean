import Hunter.Forge.Urls

set_option autoImplicit false

namespace Hunter
open Checked Delimited

/-- The marker's first occurrence in the word is after `before`, and just `digits` follow it. -/
structure MarkedAt (word before marker digits : Text) : Prop where
  first : ∀ a, a ++ marker <+: word → before.length ≤ a.length
  nonempty : digits ≠ []
  allDigits : ∀ c ∈ digits, c.isDigit
  spells : ∃ rest, word = before ++ marker ++ (digits ++ rest) ∧ ∀ c ∈ rest.head?, ¬ c.isDigit

/-- A word's URL ends behind the first number a marker carries, a pull request's before a merge
request's. -/
structure Numbered (word before digits : Text) (forge : ForgeName) : Prop where
  scheme : "https://".toList <+: word
  marked : MarkedAt word before forge.marker digits
  noPull : forge = .gitlab → ∀ b d, ¬ MarkedAt word b ForgeName.github.marker d

def FirstNumbered (text before digits : Text) (forge : ForgeName) : Prop :=
  ∃ front word back, text.words = front ++ word :: back ∧ Numbered word before digits forge ∧
    ∀ w ∈ front, ∀ b d g, ¬ Numbered w b d g

section
variable {marker word before digits text url : Text} {forge : ForgeName}

theorem urlUpTo_eq_some :
    urlUpTo marker word = some url ↔
      ∃ before digits, MarkedAt word before marker digits ∧ url = before ++ marker ++ digits := by
  constructor
  · intro h
    rw [urlUpTo] at h
    split at h
    · cases h
    · rename_i before after hsplit
      obtain ⟨rfl, hfirst⟩ := splitOnce_eq_some.mp hsplit
      simp only [Option.ite_none_left_eq_some, List.isEmpty_iff, Option.some.injEq] at h
      obtain ⟨hne, rfl⟩ := h
      refine ⟨before, after.takeWhile Char.isDigit, ⟨hfirst, hne, ?_, ?_⟩, rfl⟩
      · intro c hc
        exact List.mem_takeWhile_imp hc
      · exact ⟨after.dropWhile Char.isDigit, by rw [List.takeWhile_append_dropWhile],
          head?_dropWhile_not⟩
  · rintro ⟨before, digits, ⟨hfirst, hne, hdigits, rest, rfl, hrest⟩, rfl⟩
    have hsplit := splitOnce_eq_some.mpr ⟨rfl, hfirst⟩
    simp only [urlUpTo, hsplit, takeWhile_stop hdigits hrest]
    simp [hne]

theorem urlUpTo_eq_none (h : ∀ b d, ¬ MarkedAt word b marker d) : urlUpTo marker word = none := by
  cases hurl : urlUpTo marker word with
  | none => rfl
  | some url =>
    obtain ⟨b, d, hmarked, -⟩ := urlUpTo_eq_some.mp hurl
    exact absurd hmarked (h b d)

theorem urlInWord_eq_some :
    urlInWord word = some url ↔
      ∃ before digits forge, Numbered word before digits forge ∧
        url = before ++ forge.marker ++ digits := by
  constructor
  · intro h
    by_cases hscheme : "https://".toList <+: word
    · rw [urlInWord, if_pos hscheme, List.findSome?, List.findSome?] at h
      cases hpull : urlUpTo ForgeName.github.marker word with
      | some pull =>
        rw [hpull] at h
        obtain ⟨b, d, hmarked, rfl⟩ := urlUpTo_eq_some.mp (hpull.trans h)
        exact ⟨b, d, .github, ⟨hscheme, hmarked, fun hforge => by cases hforge⟩, rfl⟩
      | none =>
        have hmerge : urlUpTo ForgeName.gitlab.marker word = some url := by
          rw [hpull] at h
          cases hmerge : urlUpTo ForgeName.gitlab.marker word with
          | none => simp [hmerge] at h
          | some merge => simpa [hmerge] using h
        obtain ⟨b, d, hmarked, rfl⟩ := urlUpTo_eq_some.mp hmerge
        refine ⟨b, d, .gitlab, ⟨hscheme, hmarked, fun _ b' d' hmarked' => ?_⟩, rfl⟩
        have hsome := urlUpTo_eq_some.mpr ⟨b', d', hmarked', rfl⟩
        rw [hpull] at hsome
        cases hsome
    · rw [urlInWord, if_neg hscheme] at h
      cases h
  · rintro ⟨b, d, forge, ⟨hscheme, hmarked, hnoPull⟩, rfl⟩
    have hown := urlUpTo_eq_some.mpr ⟨b, d, hmarked, rfl⟩
    rw [urlInWord, if_pos hscheme, List.findSome?, List.findSome?]
    cases forge with
    | github => rw [hown]
    | gitlab => rw [urlUpTo_eq_none (hnoPull rfl), hown]

theorem urlInWord_eq_none :
    urlInWord word = none ↔ ∀ before digits forge, ¬ Numbered word before digits forge := by
  constructor
  · intro h b d forge hnumbered
    have hsome := urlInWord_eq_some.mpr ⟨b, d, forge, hnumbered, rfl⟩
    rw [h] at hsome
    cases hsome
  · intro h
    cases hurl : urlInWord word with
    | none => rfl
    | some url =>
      obtain ⟨b, d, forge, hnumbered, -⟩ := urlInWord_eq_some.mp hurl
      exact absurd hnumbered (h b d forge)

theorem extractPrUrl_eq_some :
    extractPrUrl text = some url ↔
      ∃ before digits forge, FirstNumbered text before digits forge ∧
        url = before ++ forge.marker ++ digits := by
  rw [extractPrUrl, List.findSome?_eq_some_iff]
  constructor
  · rintro ⟨front, word, back, hwords, hurl, hfront⟩
    obtain ⟨b, d, forge, hnumbered, rfl⟩ := urlInWord_eq_some.mp hurl
    exact ⟨b, d, forge, ⟨front, word, back, hwords, hnumbered,
      fun w hw => urlInWord_eq_none.mp (hfront w hw)⟩, rfl⟩
  · rintro ⟨b, d, forge, ⟨front, word, back, hwords, hnumbered, hfront⟩, rfl⟩
    exact ⟨front, word, back, hwords, urlInWord_eq_some.mpr ⟨b, d, forge, hnumbered, rfl⟩,
      fun w hw => urlInWord_eq_none.mpr (hfront w hw)⟩

end

/-- The forge's host of an `https` URL, and the path behind it. -/
structure OnForge (forge : ForgeName) (url authority path : Text) : Prop where
  spells : url = "https://".toList ++ (authority ++ '/' :: path)
  noSlash : '/' ∉ authority
  host : forge = .github → isGithubHost (withoutPort (withoutUser authority))

section
variable {forge : ForgeName} {url rest authority path slug tail : Text} {n : Int}

theorem stripScheme_https : stripScheme ("https://".toList ++ rest) "https".toList = some rest := by
  have hhead : ("https://".toList ++ rest).take "https".toList.length = "https".toList := rfl
  have htail : ("https://".toList ++ rest).drop "https".toList.length = "://".toList ++ rest := rfl
  rw [stripScheme, hhead, htail]
  exact (if_pos rfl).trans (stripPrefix_eq_some.mpr rfl)

theorem stripAnyScheme_https : stripAnyScheme ("https://".toList ++ rest) = some rest := by
  rw [stripAnyScheme, List.findSome?, stripScheme_https]

theorem takeWhile_authority (h : '/' ∉ authority) :
    (authority ++ '/' :: path).takeWhile (· ≠ '/') = authority := by
  refine takeWhile_stop (fun c hc => ?_) (by simp)
  have hne : c ≠ '/' := by
    rintro rfl
    exact h hc
  simpa using hne

theorem not_isGithubHost_nil : isGithubHost [] = false := by decide +kernel

theorem urlHost_https (h : '/' ∉ authority) :
    urlHost ("https://".toList ++ (authority ++ '/' :: path)) =
      if (withoutPort (withoutUser authority)).isEmpty then none
      else some (withoutPort (withoutUser authority)) := by
  have hauthority : Hunter.authority ("https://".toList ++ (authority ++ '/' :: path)) =
      some authority := by
    simp only [Hunter.authority, stripAnyScheme_https, takeWhile_authority h]
  simp only [urlHost, hauthority, stripAnyScheme_https, Option.isSome_some, if_true]

theorem remotePath_https (h : '/' ∉ authority) :
    remotePath ("https://".toList ++ (authority ++ '/' :: path)) = some path := by
  have hsplit := splitOnce_singleton.mpr ⟨(rfl : authority ++ '/' :: path = _), h⟩
  simp only [remotePath, stripAnyScheme_https, hsplit, Option.map_some]

theorem remotePath_none (h : '/' ∉ rest) : remotePath ("https://".toList ++ rest) = none := by
  simp only [remotePath, stripAnyScheme_https, splitOnce_singleton_eq_none.mpr h, Option.map_none]

theorem urlHostPath_of_no_path (h : remotePath url = none) : urlHostPath url = none := by
  rw [urlHostPath, h]
  cases urlHost url <;> rfl

theorem onForge_iff (h : '/' ∉ authority) {a p : Text} :
    OnForge forge ("https://".toList ++ (authority ++ '/' :: path)) a p ↔
      a = authority ∧ p = path ∧
        (forge = .github → isGithubHost (withoutPort (withoutUser authority))) := by
  constructor
  · rintro ⟨hspells, hslash, hhost⟩
    have hrest := List.append_cancel_left hspells
    have hread : splitOnce ['/'] (authority ++ '/' :: path) = some (a, p) :=
      splitOnce_singleton.mpr ⟨hrest, hslash⟩
    rw [splitOnce_singleton.mpr ⟨rfl, h⟩] at hread
    obtain ⟨rfl, rfl⟩ := Prod.mk.inj (Option.some.inj hread)
    exact ⟨rfl, rfl, hhost⟩
  · rintro ⟨rfl, rfl, hhost⟩
    exact ⟨rfl, h, hhost⟩

theorem rsplitOnce_marker_nil : rsplitOnce forge.marker [] = none := by
  rw [rsplitOnce_eq_none, List.infix_nil]
  cases forge <;> decide

theorem gitlabParsePrUrl_https (h : '/' ∉ authority) :
    (∃ slug, gitlabParsePrUrl ("https://".toList ++ (authority ++ '/' :: path)) =
        some (slug, n)) ↔
      ∃ slug tail, rsplitOnce ForgeName.gitlab.marker path = some (slug, tail) ∧
        leadingNumber tail = some n := by
  have hsplit := splitOnce_singleton.mpr ⟨(rfl : authority ++ '/' :: path = _), h⟩
  rw [gitlabParsePrUrl, stripScheme_https, Option.bind_some, hsplit]
  cases hlast : rsplitOnce ForgeName.gitlab.marker path with
  | none => simp [hlast]
  | some p =>
    obtain ⟨slug, tail⟩ := p
    cases hnum : leadingNumber tail with
    | none => simp [hlast, hnum]
    | some k => simp [hlast, hnum]

theorem githubParsePrUrl_https (h : '/' ∉ authority) :
    (∃ slug, githubParsePrUrl ("https://".toList ++ (authority ++ '/' :: path)) =
        some (slug, n)) ↔
      isGithubHost (withoutPort (withoutUser authority)) ∧
        ∃ slug tail, rsplitOnce ForgeName.github.marker path = some (slug, tail) ∧
          leadingNumber tail = some n := by
  rw [githubParsePrUrl, urlHostPath, urlHost_https h, remotePath_https h, stripScheme_https]
  by_cases hhost : isGithubHost (withoutPort (withoutUser authority))
  · have hne : (withoutPort (withoutUser authority)).isEmpty = false := by
      cases hnil : withoutPort (withoutUser authority) with
      | nil =>
        rw [hnil, not_isGithubHost_nil] at hhost
        cases hhost
      | cons c host => rfl
    simp only [hne, Bool.false_eq_true, if_false, hhost, true_and]
    cases path with
    | nil => simp [rsplitOnce_marker_nil]
    | cons c path =>
      cases hlast : rsplitOnce ForgeName.github.marker (c :: path) with
      | none => simp [hlast]
      | some p =>
        obtain ⟨slug, tail⟩ := p
        cases hnum : leadingNumber tail with
        | none => simp [hlast, hnum, hhost]
        | some k =>
          simp only [List.isEmpty_cons, Bool.false_eq_true, if_false, hlast, hnum, hhost,
            Option.isNone_some, Bool.not_true, Bool.or_self]
          split <;> simp [hnum]
  · simp only [hhost, Bool.false_eq_true, false_and, iff_false, not_exists]
    intro slug
    cases (withoutPort (withoutUser authority)).isEmpty <;> cases path <;> simp [hhost]

/-- The slug aside, a forge's parse is its host, the last of its markers in the path, and the
number behind it. -/
theorem parsePrUrl_eq_some (h : "https://".toList <+: url) :
    (∃ slug, forge.parsePrUrl url = some (slug, n)) ↔
      ∃ authority path slug tail, OnForge forge url authority path ∧
        rsplitOnce forge.marker path = some (slug, tail) ∧ leadingNumber tail = some n := by
  obtain ⟨rest, rfl⟩ := h
  by_cases hslash : '/' ∈ rest
  · obtain ⟨authority, path, rfl, hauthority⟩ := List.eq_append_cons_of_mem hslash
    have hread : (∃ slug, forge.parsePrUrl ("https://".toList ++ (authority ++ '/' :: path)) =
        some (slug, n)) ↔
        (forge = .github → isGithubHost (withoutPort (withoutUser authority))) ∧
          ∃ slug tail, rsplitOnce forge.marker path = some (slug, tail) ∧
            leadingNumber tail = some n := by
      cases forge with
      | github =>
        simp only [ForgeName.parsePrUrl, true_implies]
        exact githubParsePrUrl_https hauthority
      | gitlab =>
        simp only [ForgeName.parsePrUrl, reduceCtorEq, false_implies, true_and]
        exact gitlabParsePrUrl_https hauthority
    rw [hread]
    simp only [onForge_iff hauthority]
    constructor
    · rintro ⟨hhost, slug, tail, hlast, hnum⟩
      exact ⟨authority, path, slug, tail, ⟨rfl, rfl, hhost⟩, hlast, hnum⟩
    · rintro ⟨_, _, slug, tail, ⟨rfl, rfl, hhost⟩, hlast, hnum⟩
      exact ⟨hhost, slug, tail, hlast, hnum⟩
  · constructor
    · rintro ⟨slug, h⟩
      cases forge with
      | github =>
        rw [ForgeName.parsePrUrl, githubParsePrUrl,
          urlHostPath_of_no_path (remotePath_none hslash)] at h
        cases h
      | gitlab =>
        rw [ForgeName.parsePrUrl, gitlabParsePrUrl, stripScheme_https, Option.bind_some,
          splitOnce_singleton_eq_none.mpr hslash] at h
        cases h
    · rintro ⟨authority, path, slug, tail, ⟨hspells, -, -⟩, -⟩
      have hrest := List.append_cancel_left hspells
      exact absurd (by simp [hrest]) hslash

end

def namedNumber (url : Text) : Int := number (url.rtakeWhile Char.isDigit)

/-- A recovered URL is of the repository's forge: its host, the forge's own marker behind it, and a
number of 64 bits. (The other forge's marker may only end a URL whose own one carries that number
already.) -/
def Followable (forge found : ForgeName) (before digits : Text) : Prop :=
  ∃ authority path, OnForge forge (before ++ found.marker ++ digits) authority path ∧
    if found = forge then found.marker <:+: path ∧ (number digits : Int) ≤ i64.hi
    else ∃ slug tail, rsplitOnce forge.marker path = some (slug, tail) ∧
      leadingNumber tail = some (number digits)

section
variable {forge found : ForgeName} {text before digits path slug tail url : Text}

theorem marker_concat (forge : ForgeName) : ∃ m, forge.marker = m ++ ['/'] := by
  cases forge with
  | github => exact ⟨"/pull".toList, rfl⟩
  | gitlab => exact ⟨"/-/merge_requests".toList, rfl⟩

theorem marker_cons (forge : ForgeName) : ∃ m, forge.marker = '/' :: m ∧ 5 ≤ m.length := by
  cases forge with
  | github => exact ⟨"pull/".toList, rfl, by decide⟩
  | gitlab => exact ⟨"-/merge_requests/".toList, rfl, by decide⟩

theorem namedNumber_eq (hdigits : ∀ c ∈ digits, c.isDigit) :
    namedNumber (before ++ forge.marker ++ digits) = number digits := by
  obtain ⟨m, hm⟩ := marker_concat forge
  have hstop : ∀ c ∈ (before ++ forge.marker).getLast?, ¬ c.isDigit := by
    simp only [hm, ← List.append_assoc, List.getLast?_append, List.getLast?_singleton,
      Option.some_or, Option.mem_some_iff, forall_eq']
    decide
  rw [namedNumber, rtakeWhile_stop hdigits hstop]

theorem tail_eq_digits (hpath : path <:+ before ++ forge.marker ++ digits)
    (hdigits : ∀ c ∈ digits, c.isDigit) (h : rsplitOnce forge.marker path = some (slug, tail)) :
    tail = digits := by
  obtain ⟨hspells, hlast⟩ := rsplitOnce_eq_some.mp h
  obtain ⟨m, hm⟩ := marker_concat forge
  have hslash : '/' :: tail <:+ path := ⟨slug ++ m, by simp [hspells, hm]⟩
  have hge : digits.length ≤ tail.length := by
    by_contra hlt
    have hsuf : '/' :: tail <:+ digits :=
      List.suffix_of_suffix_length_le (hslash.trans hpath) (List.suffix_append _ digits)
        (by simp only [List.length_cons]; omega)
    exact absurd (hdigits '/' (hsuf.subset (List.mem_cons_self))) (by decide)
  have hle : tail.length ≤ digits.length := by
    refine hlast digits ?_
    refine List.suffix_of_suffix_length_le ⟨before, by simp⟩ hpath ?_
    simp only [hspells, List.length_append]
    omega
  have htail : tail <:+ path := ⟨slug ++ forge.marker, hspells.symm⟩
  exact (List.suffix_of_suffix_length_le (htail.trans hpath) (List.suffix_append _ digits)
    hle).eq_of_length (by omega)

theorem leadingNumber_digits (hne : digits ≠ []) (hdigits : ∀ c ∈ digits, c.isDigit) :
    leadingNumber digits = (some (number digits : Int)).filter i64.Holds := by
  have hall : digits.takeWhile (fun c => !(['/', '?', '#'].contains c)) = digits := by
    rw [List.takeWhile_eq_self_iff]
    intro c hc
    have hdigit := hdigits c hc
    simp only [List.contains_cons, List.contains_nil, Bool.or_false, Bool.not_or, Bool.and_eq_true,
      Bool.not_eq_true', beq_eq_false_iff_ne]
    refine ⟨?_, ?_, ?_⟩ <;> rintro rfl <;> exact absurd hdigit (by decide)
  rw [leadingNumber, hall, Width.parse_of_digits hne hdigits]

theorem scheme_within (h : "https://".toList <+: before ++ forge.marker ++ tail) :
    "https://".toList <+: before ++ forge.marker := by
  obtain ⟨m, hm, hlen⟩ := marker_cons forge
  refine List.prefix_of_prefix_length_le h (List.prefix_append _ tail) ?_
  by_contra hlt
  have hshort : before.length ≤ 1 := by
    simp only [hm, List.length_append, List.length_cons] at hlt
    change ¬ 8 ≤ _ at hlt
    omega
  have hbefore : before ++ ['/'] <+: before ++ forge.marker ++ tail := ⟨m ++ tail, by simp [hm]⟩
  have hscheme : "https:".toList <+: before ++ forge.marker ++ tail :=
    List.IsPrefix.trans ⟨"//".toList, rfl⟩ h
  have hslash : before ++ ['/'] <+: "https:".toList := by
    refine List.prefix_of_prefix_length_le hbefore hscheme ?_
    simp only [List.length_append, List.length_singleton]
    change _ ≤ 6
    omega
  exact absurd (hslash.subset (by simp)) (by decide : '/' ∉ "https:".toList)

/-- Behind the host, the forge's own marker leads to the number that ends the URL. -/
theorem own_number (hpath : path <:+ before ++ forge.marker ++ digits) (hne : digits ≠ [])
    (hdigits : ∀ c ∈ digits, c.isDigit) :
    (∃ slug t, rsplitOnce forge.marker path = some (slug, t) ∧
        leadingNumber t = some (number digits : Int)) ↔
      forge.marker <:+: path ∧ (number digits : Int) ≤ i64.hi := by
  constructor
  · rintro ⟨slug, t, hlast, hnum⟩
    obtain rfl := tail_eq_digits hpath hdigits hlast
    rw [leadingNumber_digits hne hdigits] at hnum
    have hholds := (Option.filter_eq_some_iff.mp hnum).2
    refine ⟨⟨slug, t, (rsplitOnce_eq_some.mp hlast).1.symm⟩, ?_⟩
    exact (of_decide_eq_true hholds).2
  · rintro ⟨hwithin, hle⟩
    cases hlast : rsplitOnce forge.marker path with
    | none => exact absurd hwithin (rsplitOnce_eq_none.mp hlast)
    | some p =>
      obtain ⟨slug, t⟩ := p
      obtain rfl := tail_eq_digits hpath hdigits hlast
      have hholds : i64.Holds (number t : Int) := ⟨by simp only [i64]; omega, hle⟩
      refine ⟨slug, t, rfl, ?_⟩
      rw [leadingNumber_digits hne hdigits]
      exact Option.filter_eq_some_iff.mpr ⟨rfl, decide_eq_true hholds⟩

theorem OnForge.suffix {authority : Text} (h : OnForge forge url authority path) : path <:+ url :=
  ⟨"https://".toList ++ (authority ++ ['/']), by
    rw [h.spells, List.append_assoc, List.append_assoc, List.singleton_append]⟩

theorem followable_iff (h : "https://".toList <+: before ++ found.marker ++ digits)
    (hne : digits ≠ []) (hdigits : ∀ c ∈ digits, c.isDigit) :
    (∃ slug, forge.parsePrUrl (before ++ found.marker ++ digits) =
        some (slug, (number digits : Int))) ↔ Followable forge found before digits := by
  rw [parsePrUrl_eq_some h]
  constructor
  · rintro ⟨authority, path, slug, t, hon, hlast, hnum⟩
    refine ⟨authority, path, hon, ?_⟩
    by_cases hfound : found = forge
    · subst hfound
      rw [if_pos rfl]
      exact (own_number hon.suffix hne hdigits).mp ⟨slug, t, hlast, hnum⟩
    · rw [if_neg hfound]
      exact ⟨slug, t, hlast, hnum⟩
  · rintro ⟨authority, path, hon, hcond⟩
    have hread : ∃ slug t, rsplitOnce forge.marker path = some (slug, t) ∧
        leadingNumber t = some (number digits : Int) := by
      by_cases hfound : found = forge
      · subst hfound
        rw [if_pos rfl] at hcond
        exact (own_number hon.suffix hne hdigits).mpr hcond
      · rwa [if_neg hfound] at hcond
    obtain ⟨slug, t, hlast, hnum⟩ := hread
    exact ⟨authority, path, slug, t, hon, hlast, hnum⟩

theorem FirstNumbered.https {before digits : Text} (h : FirstNumbered text before digits found) :
    "https://".toList <+: before ++ found.marker ++ digits ∧ digits ≠ [] ∧
      ∀ c ∈ digits, c.isDigit := by
  obtain ⟨front, word, back, -, ⟨hscheme, hmarked, -⟩, -⟩ := h
  obtain ⟨rest, rfl, -⟩ := hmarked.spells
  exact ⟨(scheme_within hscheme).trans (List.prefix_append _ digits), hmarked.nonempty,
    hmarked.allDigits⟩

/-- For every text: the recovered URL is parsed to its number exactly when it is followable. -/
theorem recovered_parses_iff (forge : ForgeName) (text : Text) :
    (∀ url, extractPrUrl text = some url →
        ∃ slug, forge.parsePrUrl url = some (slug, namedNumber url)) ↔
      ∀ before digits found, FirstNumbered text before digits found →
        Followable forge found before digits := by
  constructor
  · intro h before digits found hfirst
    obtain ⟨hscheme, hne, hdigits⟩ := hfirst.https
    have hparse := h _ (extractPrUrl_eq_some.mpr ⟨before, digits, found, hfirst, rfl⟩)
    rw [namedNumber_eq hdigits] at hparse
    exact (followable_iff hscheme hne hdigits).mp hparse
  · intro h url hurl
    obtain ⟨before, digits, found, hfirst, rfl⟩ := extractPrUrl_eq_some.mp hurl
    obtain ⟨hscheme, hne, hdigits⟩ := hfirst.https
    rw [namedNumber_eq hdigits]
    exact (followable_iff hscheme hne hdigits).mpr (h before digits found hfirst)

/-- A project called by a number in a group called `pull`: its merge request's URL is cut at the
project. -/
theorem recovered_project_cut :
    ¬ ∀ url, extractPrUrl
          "already exists: https://gitlab.com/team/pull/2024/-/merge_requests/7".toList = some url →
        ∃ slug, ForgeName.gitlab.parsePrUrl url = some (slug, namedNumber url) := by
  intro h
  have hcut : extractPrUrl
      "already exists: https://gitlab.com/team/pull/2024/-/merge_requests/7".toList =
        some "https://gitlab.com/team/pull/2024".toList := by decide +kernel
  have hunread : ForgeName.gitlab.parsePrUrl "https://gitlab.com/team/pull/2024".toList = none := by
    decide +kernel
  obtain ⟨slug, hparse⟩ := h _ hcut
  rw [hunread] at hparse
  cases hparse

end

end Hunter
