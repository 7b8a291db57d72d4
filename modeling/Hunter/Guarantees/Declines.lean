import Hunter.Scheduler.Decline
import Hunter.Scheduler.Fix

set_option autoImplicit false

namespace Hunter
open Delimited

namespace Text

section
variable {a s e l : Text} {c : Char} {rest : List Text}

theorem lines_cons (hcr : ∀ t, c = '\r' → s = '\n' :: t → False) (hc : c ≠ '\n') :
    lines (c :: s) = consLine c (lines s) := lines.eq_4 _ _ hcr hc

theorem lines_line (h : '\n' ∉ a) (hcr : a.getLast? ≠ some '\r') :
    lines (a ++ '\n' :: s) = a :: lines s := by
  induction a with
  | nil => rfl
  | cons c a ih =>
    have hc : c ≠ '\n' := fun hc => h (by simp [hc])
    have ha : '\n' ∉ a := fun ha => h (by simp [ha])
    cases a with
    | nil =>
      have hplain : ∀ t, c = '\r' → '\n' :: s = '\n' :: t → False := by
        rintro t rfl -
        exact hcr rfl
      rw [List.singleton_append, lines_cons hplain hc]
      rfl
    | cons d a =>
      have hplain : ∀ t, c = '\r' → d :: a ++ '\n' :: s = '\n' :: t → False := by
        intro t _ ht
        exact ha (by simp [(List.cons.inj ht).1])
      rw [List.cons_append, lines_cons hplain hc, ih ha (by simpa using hcr)]
      rfl

theorem consLine_ne_nil : consLine c rest ≠ [] := by
  cases rest <;> simp [consLine]

theorem lines_ne_nil (h : s ≠ []) : lines s ≠ [] := by
  induction s using lines.induct with
  | case1 => exact absurd rfl h
  | case2 s ih => simp [lines]
  | case3 s ih => simp [lines]
  | case4 c s hcr hc ih =>
    rw [lines_cons hcr hc]
    exact consLine_ne_nil

theorem intercalate_consLine : ['\n'].intercalate (consLine c rest) =
    c :: ['\n'].intercalate rest := by
  cases rest with
  | nil => simp [consLine]
  | cons l rest => cases rest <;> simp [consLine, List.intercalate_cons_cons]

theorem intercalate_lines (hcr : ¬ ['\r', '\n'] <:+: s) (hend : s.getLast? ≠ some '\n') :
    ['\n'].intercalate (lines s) = s := by
  induction s using lines.induct with
  | case1 => rfl
  | case2 s ih => exact absurd ⟨[], s, rfl⟩ hcr
  | case3 s ih =>
    have hne : s ≠ [] := by
      rintro rfl
      exact hend rfl
    have hrest := ih (fun h => hcr (h.trans (List.suffix_cons _ s).isInfix))
      (by rwa [List.getLast?_cons_of_ne_nil hne] at hend)
    rw [lines, List.intercalate_cons_of_ne_nil (lines_ne_nil hne), hrest]
    rfl
  | case4 c s hplain hc ih =>
    by_cases hne : s = []
    · subst hne
      rw [lines_cons hplain hc]
      rfl
    · have hrest := ih (fun h => hcr (h.trans (List.suffix_cons _ s).isInfix))
        (by rwa [List.getLast?_cons_of_ne_nil hne] at hend)
      rw [lines_cons hplain hc, intercalate_consLine, hrest]

theorem lines_head (hc : isWhite c = false) : ∃ l rest, lines (c :: s) = (c :: l) :: rest := by
  have hcr : ∀ t, c = '\r' → s = '\n' :: t → False := by
    rintro t rfl -
    exact absurd hc (by decide)
  have hlf : c ≠ '\n' := by
    rintro rfl
    exact absurd hc (by decide)
  rw [lines_cons hcr hlf]
  cases lines s with
  | nil => exact ⟨[], [], rfl⟩
  | cons l rest => exact ⟨l, rest, rfl⟩

end

section
variable {s : Text} {c : Char} {p q : Char → Bool}

theorem trim_eq_trimMatches : trim s = trimMatches isWhite s := rfl

theorem trimMatches_cons (hc : p c) : trimMatches p (c :: s) = trimMatches p s := by
  rw [trimMatches, List.dropWhile_cons_of_pos hc, trimMatches]

theorem trimMatches_of_head (hc : ¬ p c) :
    trimMatches p (c :: s) = (c :: s).rdropWhile p := by
  rw [trimMatches, List.dropWhile_cons_of_neg hc]

theorem trimMatches_eq_self :
    trimMatches p s = s ↔ (∀ c ∈ s.head?, ¬ p c) ∧ ∀ c ∈ s.getLast?, ¬ p c := by
  cases s with
  | nil => simp [trimMatches]
  | cons c s =>
    by_cases hc : p c
    · have hlen : (trimMatches p (c :: s)).length ≤ s.length := by
        rw [trimMatches_cons hc, trimMatches]
        exact (List.rdropWhile_prefix p _).length_le.trans (List.length_dropWhile_le p s)
      constructor
      · intro h
        rw [h, List.length_cons] at hlen
        omega
      · rintro ⟨hhead, -⟩
        exact absurd hc (hhead c rfl)
    · rw [trimMatches_of_head hc, List.rdropWhile_eq_self_iff]
      have hlast := List.getLast?_eq_some_getLast (List.cons_ne_nil c s)
      simp [hlast, hc]

theorem trim_ne_nil (hc : isWhite c = false) : trim (c :: s) ≠ [] := by
  have hnot : ¬ isWhite c := by simp [hc]
  rw [trim_eq_trimMatches, trimMatches_of_head hnot]
  intro hnil
  exact hnot (List.rdropWhile_eq_nil_iff.mp hnil c (by simp))

end

end Text

def isEdge (c : Char) : Bool := c = '*' || Text.isWhite c

def written (cls : ClosureClass) (holdsWhile : Text) (dependsOn : List Text) (explanation : Text) :
    Text :=
  ("Classification: ".toList ++ cls.asStr) ++ '\n' ::
    (("Holds while: ".toList ++ holdsWhile) ++ '\n' ::
      (("Depends on: ".toList ++ [',', ' '].intercalate dependsOn) ++ '\n' :: explanation))

def Recognized (line : Text) : Prop :=
  ∃ value, header line = some ("holds while".toList, value) ∨
    header line = some ("depends on".toList, value)

section
variable {cls : ClosureClass} {h e value line : Text} {ps : List Text} {c : Char}

theorem classification_written :
    classification ("Classification: ".toList ++ cls.asStr) = some cls := by
  cases cls <;> decide +kernel

/-- What a header line's key is once emphasis, bullet and case are gone. -/
def plainKey (key : Text) : Text :=
  (Text.trim ((Text.trim (key.filter fun c => !(['*', '`', '_', '#'].contains c))).dropWhile
    (· = '-'))).map Char.toLower

theorem header_eq {key : Text} (hkey : ':' ∉ key) (hh : Text.trimMatches isEdge h = h) :
    header (key ++ ':' :: ' ' :: h) = some (plainKey key, h) := by
  have hvalue : Text.trimMatches isEdge (' ' :: h) = h :=
    (Text.trimMatches_cons (by decide)).trans hh
  rw [header, splitOnce_singleton.mpr ⟨rfl, hkey⟩]
  exact congrArg (fun value => some (plainKey key, value)) hvalue

theorem header_holdsWhile (hh : Text.trimMatches isEdge h = h) :
    header ("Holds while: ".toList ++ h) = some ("holds while".toList, h) := by
  have hkey : plainKey "Holds while".toList = "holds while".toList := by decide +kernel
  have hcolon : ':' ∉ "Holds while".toList := by decide
  rw [← hkey]
  exact header_eq hcolon hh

theorem header_dependsOn (hh : Text.trimMatches isEdge h = h) :
    header ("Depends on: ".toList ++ h) = some ("depends on".toList, h) := by
  have hkey : plainKey "Depends on".toList = "depends on".toList := by decide +kernel
  have hcolon : ':' ∉ "Depends on".toList := by decide
  rw [← hkey]
  exact header_eq hcolon hh

/-- A path as one entry of a comma-separated list. -/
structure Listable (p : Text) : Prop where
  nonempty : p ≠ []
  noComma : ',' ∉ p
  oneLine : '\n' ∉ p
  edges : Text.trimMatches isEdge p = p

theorem edge_of_white (hc : Text.isWhite c) : isEdge c := by
  simp [isEdge, hc]

theorem trim_eq_self (hh : Text.trimMatches isEdge h = h) : Text.trim h = h := by
  obtain ⟨hhead, hlast⟩ := Text.trimMatches_eq_self.mp hh
  exact Text.trimMatches_eq_self.mpr
    ⟨fun c hc hw => hhead c hc (edge_of_white hw), fun c hc hw => hlast c hc (edge_of_white hw)⟩

theorem intercalate_comma {p : Text} :
    [',', ' '].intercalate (p :: ps) = [','].intercalate (p :: ps.map fun q => ' ' :: q) := by
  induction ps generalizing p with
  | nil => simp
  | cons q ps ih =>
    rw [List.intercalate_cons_cons, ih, List.map_cons, List.intercalate_cons_cons,
      List.intercalate_cons_cons_left]
    simp

theorem paths_join (hps : ∀ p ∈ ps, Listable p) : paths ([',', ' '].intercalate ps) = ps := by
  cases ps with
  | nil => rfl
  | cons p ps =>
    have hcomma : ∀ q ∈ p :: ps.map (fun q => ' ' :: q), ',' ∉ q := by
      intro q hq
      rcases List.mem_cons.mp hq with rfl | hq
      · exact (hps q (by simp)).noComma
      · obtain ⟨r, hr, rfl⟩ := List.mem_map.mp hq
        simpa using (hps r (by simp [hr])).noComma
    have htrim : (p :: ps.map fun q => ' ' :: q).map Text.trim = p :: ps := by
      have hrest : ps.map (Text.trim ∘ fun q => ' ' :: q) = ps.map id := by
        refine List.map_congr_left fun q hq => ?_
        exact (Text.trimMatches_cons (by decide)).trans (trim_eq_self (hps q (by simp [hq])).edges)
      rw [List.map_cons, List.map_map, hrest, List.map_id, trim_eq_self (hps p (by simp)).edges]
    have hkept : (p :: ps).filter (fun p => !p.isEmpty) = p :: ps := by
      rw [List.filter_eq_self]
      intro q hq
      simpa using (hps q hq).nonempty
    rw [paths, intercalate_comma, List.splitOn_intercalate ',' hcomma (by simp), htrim, hkept]

theorem join_cons {p : Text} : ∃ t, [',', ' '].intercalate (p :: ps) = p ++ t := by
  cases ps with
  | nil => exact ⟨[], by simp⟩
  | cons q ps => exact ⟨_, List.intercalate_cons_cons.trans (List.append_assoc _ _ _)⟩

theorem join_getLast (hps : ∀ p ∈ ps, p ≠ []) :
    ∀ c ∈ ([',', ' '].intercalate ps).getLast?, ∃ p ∈ ps, c ∈ p.getLast? := by
  induction ps with
  | nil => simp
  | cons p ps ih =>
    intro c hc
    cases ps with
    | nil => exact ⟨p, by simp, by simpa using hc⟩
    | cons q ps =>
      have hne : [',', ' '].intercalate (q :: ps) ≠ [] := by
        obtain ⟨t, ht⟩ := @join_cons ps q
        have hq := hps q (by simp)
        simp [ht, hq]
      rw [List.intercalate_cons_cons, List.getLast?_append_of_ne_nil _ hne] at hc
      obtain ⟨r, hr, hlast⟩ := ih (fun r hr => hps r (by simp [hr])) c hc
      exact ⟨r, by simp [hr], hlast⟩

theorem join_edges (hps : ∀ p ∈ ps, Listable p) :
    Text.trimMatches isEdge ([',', ' '].intercalate ps) = [',', ' '].intercalate ps := by
  refine Text.trimMatches_eq_self.mpr ⟨fun c hc => ?_, fun c hc => ?_⟩
  · cases ps with
    | nil => cases hc
    | cons p ps =>
      obtain ⟨t, ht⟩ := @join_cons ps p
      have hp := hps p (by simp)
      rw [ht, List.head?_append_of_ne_nil p hp.nonempty] at hc
      exact (Text.trimMatches_eq_self.mp hp.edges).1 c hc
  · obtain ⟨p, hp, hlast⟩ := join_getLast (fun p hp => (hps p hp).nonempty) c hc
    exact (Text.trimMatches_eq_self.mp (hps p hp).edges).2 c hlast

theorem join_oneLine (hps : ∀ p ∈ ps, Listable p) : '\n' ∉ [',', ' '].intercalate ps := by
  induction ps with
  | nil => simp
  | cons p ps ih =>
    have hp := (hps p (by simp)).oneLine
    have hrest := ih fun q hq => hps q (by simp [hq])
    cases ps with
    | nil => simpa using hp
    | cons q ps =>
      rw [List.intercalate_cons_cons]
      simp [hp, hrest]

/-- An explanation that comes back as it was written. -/
structure Explains (e : Text) : Prop where
  nonempty : e ≠ []
  trimmed : Text.trim e = e
  noCrLf : ¬ ['\r', '\n'] <:+: e
  noHeader : ∀ l ∈ (Text.lines e).head?, ¬ Recognized l

theorem last_not_white (hh : Text.trim h = h) : ∀ c ∈ h.getLast?, Text.isWhite c = false := by
  intro c hc
  simpa using (Text.trimMatches_eq_self.mp hh).2 c hc

theorem lines_header {key : Text} (hkey : '\n' ∉ key) (hlast : key.getLast? ≠ some '\r')
    (hline : '\n' ∉ h) (hh : Text.trimMatches isEdge h = h) :
    Text.lines ((key ++ h) ++ '\n' :: e) = (key ++ h) :: Text.lines e := by
  refine Text.lines_line (by simp [hkey, hline]) ?_
  by_cases hnil : h = []
  · simpa [hnil] using hlast
  · rw [List.getLast?_append_of_ne_nil key hnil]
    intro hcr
    exact absurd (last_not_white (trim_eq_self hh) _ hcr) (by decide)

theorem readHeaders_explanation (he : Explains e) {w : Option Text} :
    readHeaders (Text.lines e) w ps = (w, ps, Text.lines e) := by
  obtain ⟨c, t, rfl⟩ := List.exists_cons_of_ne_nil he.nonempty
  have hc : Text.isWhite c = false := by
    simpa using (Text.trimMatches_eq_self.mp he.trimmed).1 c rfl
  obtain ⟨l, rest, hlines⟩ := @Text.lines_head t c hc
  have hplain := he.noHeader (c :: l) (by simp [hlines])
  have hblank : (Text.trim (c :: l)).isEmpty = false := by simpa using Text.trim_ne_nil hc
  rw [hlines, readHeaders]
  cases hheader : header (c :: l) with
  | none => simp only [hblank, Bool.false_eq_true, if_false]
  | some q =>
    obtain ⟨key, value⟩ := q
    have hholds : key ≠ "holds while".toList := by
      rintro rfl
      exact hplain ⟨value, .inl hheader⟩
    have hdepends : key ≠ "depends on".toList := by
      rintro rfl
      exact hplain ⟨value, .inr hheader⟩
    simp only [hholds, hdepends, hblank, Bool.false_eq_true, if_false]

theorem readHeaders_holdsWhile {rest : List Text} {w : Option Text}
    (hh : Text.trimMatches isEdge h = h) :
    readHeaders (("Holds while: ".toList ++ h) :: rest) w ps = readHeaders rest (some h) ps := by
  rw [readHeaders, header_holdsWhile hh]
  exact if_pos rfl

theorem readHeaders_dependsOn {rest : List Text} {w : Option Text}
    (hh : Text.trimMatches isEdge h = h) :
    readHeaders (("Depends on: ".toList ++ h) :: rest) w ps =
      readHeaders rest w (ps ++ paths h) := by
  have hkey : "depends on".toList ≠ "holds while".toList := by decide
  rw [readHeaders, header_dependsOn hh]
  exact (if_neg hkey).trans (if_pos rfl)

theorem explanation_back (he : Explains e) :
    Text.trim (['\n'].intercalate (Text.lines e)) = e := by
  have hend : e.getLast? ≠ some '\n' := by
    intro hlf
    exact absurd (last_not_white he.trimmed _ hlf) (by decide)
  rw [Text.intercalate_lines he.noCrLf hend, he.trimmed]

theorem readHeaders_written (hh : Text.trimMatches isEdge h = h) (hline : '\n' ∉ h)
    (hps : ∀ p ∈ ps, Listable p) (he : Explains e) :
    readHeaders (Text.lines (("Holds while: ".toList ++ h) ++ '\n' ::
        (("Depends on: ".toList ++ [',', ' '].intercalate ps) ++ '\n' :: e))) none [] =
      (some h, ps, Text.lines e) := by
  have hholds : '\n' ∉ "Holds while: ".toList := by decide
  have hdepends : '\n' ∉ "Depends on: ".toList := by decide
  rw [lines_header hholds (by decide) hline hh,
    lines_header hdepends (by decide) (join_oneLine hps) (join_edges hps),
    readHeaders_holdsWhile hh, readHeaders_dependsOn (join_edges hps), paths_join hps,
    List.nil_append, readHeaders_explanation he]

theorem parseDecline_written (hh : Text.trimMatches isEdge h = h) (hline : '\n' ∉ h)
    (hps : ∀ p ∈ ps, Listable p) (he : Explains e)
    (hbound : (cls.asStr ++ ": ".toList ++ e).length ≤ 500) :
    parseDecline (written cls h ps e) =
      { cls := some cls, reason := cls.asStr ++ ": ".toList ++ e, holdsWhile := some h,
        dependsOn := ps } := by
  have hbody : (written cls h ps e).dropWhile Text.isWhite = written cls h ps e := rfl
  have hfirst : '\n' ∉ "Classification: ".toList ++ cls.asStr := by cases cls <;> decide
  have hsplit := splitOnce_singleton.mpr ⟨(rfl : written cls h ps e = _), hfirst⟩
  have hsome : (some cls).filter (fun _ => !e.isEmpty) = some cls := by
    simp [Option.filter, he.nonempty]
  simp only [parseDecline, hbody, hsplit, Option.getD_some, readHeaders_written hh hline hps he,
    explanation_back he, classification_written, hsome, List.take_of_length_le hbound]

end

section
variable {report : Text} {cls : ClosureClass}

theorem asStr_of_parse {s : Text} (h : ClosureClass.parse s = some cls) : cls.asStr = s := by
  simpa using List.find?_some h

theorem header_of_classification {first : Text} (h : classification first = some cls) :
    ∃ word, header first = some ("classification".toList, word) ∧
      (Text.trimMatches (· = '`') word).map Char.toLower = cls.asStr := by
  rw [classification] at h
  cases hheader : header first with
  | none => simp [hheader] at h
  | some q =>
    obtain ⟨key, word⟩ := q
    rw [hheader] at h
    by_cases hkey : key = "classification".toList
    · subst hkey
      exact ⟨word, rfl, (asStr_of_parse ((if_pos rfl).symm.trans h)).symm⟩
    · exact absurd ((if_neg hkey).symm.trans h) (by simp)

def explanation (rest : Text) : Text :=
  Text.trim (['\n'].intercalate (readHeaders (Text.lines rest) none []).2.2)

theorem parseDecline_cases (report : Text) :
    ∃ first rest, (splitOnce ['\n'] (report.dropWhile Text.isWhite)).getD
        (report.dropWhile Text.isWhite, []) = (first, rest) ∧
      (((classification first).filter (fun _ => !(explanation rest).isEmpty) = none ∧
          (parseDecline report).cls = none ∧ (parseDecline report).reason = report.take 500) ∨
        ∃ cls, (classification first).filter (fun _ => !(explanation rest).isEmpty) = some cls ∧
          (parseDecline report).cls = some cls ∧
          (parseDecline report).reason =
            (cls.asStr ++ ": ".toList ++ explanation rest).take 500) := by
  cases hsplit : (splitOnce ['\n'] (report.dropWhile Text.isWhite)).getD
    (report.dropWhile Text.isWhite, []) with
  | mk first rest =>
    refine ⟨first, rest, rfl, ?_⟩
    cases hcls : (classification first).filter (fun _ => !(explanation rest).isEmpty) with
    | none =>
      left
      rw [explanation] at hcls
      simp [parseDecline, hsplit, hcls]
    | some cls =>
      right
      rw [explanation] at hcls
      exact ⟨cls, rfl, by simp [parseDecline, hsplit, hcls], by
        simp [parseDecline, hsplit, hcls, explanation]⟩

/-- A class needs a valid classification on the first line and an explanation behind it. -/
theorem parseDecline_cls (h : (parseDecline report).cls = some cls) :
    ∃ first rest word, report.dropWhile Text.isWhite = first ++ '\n' :: rest ∧ '\n' ∉ first ∧
      header first = some ("classification".toList, word) ∧
      (Text.trimMatches (· = '`') word).map Char.toLower = cls.asStr ∧ explanation rest ≠ [] := by
  obtain ⟨first, rest, hsplit, ⟨-, hnone, -⟩ | ⟨c, hcls, hsome, -⟩⟩ := parseDecline_cases report
  · rw [hnone] at h
    cases h
  · rw [hsome] at h
    obtain rfl := Option.some.inj h
    obtain ⟨hclass, hexplained⟩ := Option.filter_eq_some_iff.mp hcls
    have hne : explanation rest ≠ [] := by simpa using hexplained
    obtain ⟨word, hheader, hword⟩ := header_of_classification hclass
    cases hline : splitOnce ['\n'] (report.dropWhile Text.isWhite) with
    | none =>
      rw [hline] at hsplit
      obtain ⟨-, rfl⟩ := Prod.mk.inj hsplit
      exact absurd rfl hne
    | some q =>
      rw [hline] at hsplit
      obtain rfl : q = (first, rest) := hsplit
      obtain ⟨hbody, hfirst⟩ := splitOnce_singleton.mp hline
      exact ⟨first, rest, word, hbody, hfirst, hheader, hword, hne⟩

theorem parseDecline_reason :
    (parseDecline report).reason.length ≤ 500 ∧
      ((parseDecline report).reason <+: report ∨
        ∃ cls explanation, (parseDecline report).cls = some cls ∧
          (parseDecline report).reason <+: cls.asStr ++ ": ".toList ++ explanation) := by
  obtain ⟨first, rest, -, ⟨-, -, hreason⟩ | ⟨c, -, hcls, hreason⟩⟩ := parseDecline_cases report
  · rw [hreason]
    exact ⟨List.length_take_le 500 report, .inl (List.take_prefix 500 report)⟩
  · rw [hreason]
    exact ⟨List.length_take_le 500 _, .inr ⟨c, _, hcls, List.take_prefix 500 _⟩⟩

theorem recordDeclinedFix_parsed (fid : Nat) (start : FixStart) (parts : AnchorParts) :
    ∃ status anchor,
      recordDeclinedFix fid start
          { cls := (parseDecline report).cls, reason := (parseDecline report).reason, parts } =
        (do logWriteFailure (.setAnchoredVerdict fid status (parseDecline report).reason anchor)
            clearFixAttempts fid
            releaseClaim fid) ∧
      (status.isSuppressed → (parseDecline report).cls = some .wrong ∨
        (parseDecline report).cls = some .unwanted) := by
  refine ⟨_, _, rfl, fun h => ?_⟩
  cases hcls : (parseDecline report).cls with
  | none => simp [hcls, FindingStatus.isSuppressed] at h
  | some c =>
    rw [hcls] at h
    cases c with
    | wrong => exact .inl rfl
    | unwanted => exact .inr rfl
    | superseded | duplicate | obsolete | abandoned =>
      simp [ClosureClass.status, FindingStatus.isSuppressed] at h

end

/-- A report in the documented format comes back as written; whatever the report is, only a valid
first line with an explanation classifies, only `wrong` and `unwanted` suppress, and the reason is
at most 500 characters of what was written. -/
theorem decline_parses :
    (∀ (cls : ClosureClass) (h : Text) (ps : List Text) (e : Text),
      h ≠ [] → '\n' ∉ h → Text.trimMatches isEdge h = h → (∀ p ∈ ps, Listable p) → Explains e →
        (cls.asStr ++ ": ".toList ++ e).length ≤ 500 →
        parseDecline (written cls h ps e) =
          { cls := some cls, reason := cls.asStr ++ ": ".toList ++ e, holdsWhile := some h,
            dependsOn := ps }) ∧
    (∀ (report : Text) (cls : ClosureClass), (parseDecline report).cls = some cls →
      ∃ first rest word, report.dropWhile Text.isWhite = first ++ '\n' :: rest ∧ '\n' ∉ first ∧
        header first = some ("classification".toList, word) ∧
        (Text.trimMatches (· = '`') word).map Char.toLower = cls.asStr ∧ explanation rest ≠ []) ∧
    (∀ (report : Text) (fid : Nat) (start : FixStart) (parts : AnchorParts), ∃ status anchor,
      recordDeclinedFix fid start
          { cls := (parseDecline report).cls, reason := (parseDecline report).reason, parts } =
        (do logWriteFailure (.setAnchoredVerdict fid status (parseDecline report).reason anchor)
            clearFixAttempts fid
            releaseClaim fid) ∧
      (status.isSuppressed → (parseDecline report).cls = some .wrong ∨
        (parseDecline report).cls = some .unwanted)) ∧
    ∀ report : Text, (parseDecline report).reason.length ≤ 500 ∧
      ((parseDecline report).reason <+: report ∨
        ∃ cls explanation, (parseDecline report).cls = some cls ∧
          (parseDecline report).reason <+: cls.asStr ++ ": ".toList ++ explanation) :=
  ⟨fun _ _ _ _ _ hline hh hps he hbound => parseDecline_written hh hline hps he hbound,
    fun _ _ h => parseDecline_cls h,
    fun _ fid start parts => recordDeclinedFix_parsed fid start parts,
    fun _ => parseDecline_reason⟩

theorem decline_parses_wrong :
    parseDecline (written .wrong "it holds".toList ["a.rs".toList, "b c".toList] "Seen.".toList) =
      { cls := some .wrong, reason := "wrong: Seen.".toList, holdsWhile := some "it holds".toList,
        dependsOn := ["a.rs".toList, "b c".toList] } := by
  have hpaths : ∀ p ∈ ["a.rs".toList, "b c".toList], Listable p := by
    intro p hp
    rcases List.mem_pair.mp hp with rfl | rfl
    · exact ⟨by decide, by decide, by decide, by decide⟩
    · exact ⟨by decide, by decide, by decide, by decide⟩
  have hexplains : Explains "Seen.".toList := by
    refine ⟨by decide, by decide, by decide, ?_⟩
    rintro l hl ⟨value, hvalue⟩
    obtain rfl : "Seen.".toList = l := Option.some.inj hl
    rcases hvalue with hvalue | hvalue <;> cases hvalue
  exact decline_parses.1 .wrong "it holds".toList _ "Seen.".toList (by decide) (by decide)
    (by decide) hpaths hexplains (by decide)

/-- An explanation over two lines ended as on Windows comes back with plain line ends; neither an
empty path, nor one over two lines, nor an empty explanation comes back. -/
theorem decline_line_ends :
    (¬ ∀ (cls : ClosureClass) (h : Text) (ps : List Text) (e : Text),
      h ≠ [] → '\n' ∉ h → Text.trimMatches isEdge h = h →
        (∀ p ∈ ps, ',' ∉ p ∧ Text.trimMatches isEdge p = p) → Text.trim e = e →
        (∀ l ∈ (Text.lines e).head?, ¬ Recognized l) →
        (cls.asStr ++ ": ".toList ++ e).length ≤ 500 →
        parseDecline (written cls h ps e) =
          { cls := some cls, reason := cls.asStr ++ ": ".toList ++ e, holdsWhile := some h,
            dependsOn := ps }) ∧
      (parseDecline (written .wrong ['h'] [[]] ['e'])).dependsOn = [] ∧
      (parseDecline (written .wrong ['h'] [['a', '\n', 'b']] ['e'])).dependsOn = [['a']] ∧
      (parseDecline (written .wrong ['h'] [] [])).cls = none := by
  refine ⟨fun h => ?_, by decide +kernel, by decide +kernel, by decide +kernel⟩
  have hplain : ∀ l ∈ (Text.lines "No.\r\nSee b.".toList).head?, ¬ Recognized l := by
    rintro l hl ⟨value, hvalue⟩
    obtain rfl : "No.".toList = l := Option.some.inj hl
    rcases hvalue with hvalue | hvalue <;> cases hvalue
  have hback := h .wrong "it holds".toList [] "No.\r\nSee b.".toList (by decide) (by decide)
    (by decide) (by simp) (by decide) hplain (by decide)
  exact absurd (congrArg DeclineReport.reason hback) (by decide +kernel)

end Hunter
