import Hunter.Prompts.Render
import Mathlib.Data.Set.Basic

set_option autoImplicit false

namespace Hunter
open Delimited

inductive Piece where
  | literal (text : Text)
  | slot (key : Text)

/-- As the template has it. -/
def Piece.spell : Piece → Text
  | .literal text => text
  | .slot key => openBraces ++ key ++ closeBraces

/-- As the prompt has it. -/
def Piece.fill (slots : Slots) : Piece → Text
  | .literal text => text
  | .slot key => (slots key).getD []

/-- The pieces of a template up to its end or its first unterminated placeholder. -/
def scan (rest : Text) : List Piece × Option Text :=
  match _hopen : splitOnce openBraces rest with
  | none => ([.literal rest], none)
  | some (literal, after) =>
    match _hclose : splitOnce closeBraces after with
    | none => ([.literal literal], some (openBraces ++ after))
    | some (key, rest') => (.literal literal :: .slot key :: (scan rest').1, (scan rest').2)
termination_by rest.length
decreasing_by all_goals exact rest_shorter _hopen _hclose

section
variable {rest literal after key rest' : Text}

theorem scan_literal (hopen : splitOnce openBraces rest = none) :
    scan rest = ([.literal rest], none) := by
  rw [scan]
  split
  · rfl
  · simp_all

theorem scan_unterminated (hopen : splitOnce openBraces rest = some (literal, after))
    (hclose : splitOnce closeBraces after = none) :
    scan rest = ([.literal literal], some (openBraces ++ after)) := by
  rw [scan]
  split
  · simp_all
  · rename_i h
    obtain ⟨rfl, rfl⟩ : literal = _ ∧ after = _ := by simpa [hopen] using h
    split
    · rfl
    · simp_all

theorem scan_placeholder (hopen : splitOnce openBraces rest = some (literal, after))
    (hclose : splitOnce closeBraces after = some (key, rest')) :
    scan rest = (.literal literal :: .slot key :: (scan rest').1, (scan rest').2) := by
  rw [scan]
  split
  · simp_all
  · rename_i h
    obtain ⟨rfl, rfl⟩ : literal = _ ∧ after = _ := by simpa [hopen] using h
    split
    · simp_all
    · rename_i h
      obtain ⟨rfl, rfl⟩ : key = _ ∧ rest' = _ := by simpa [hclose] using h
      rfl

end

/-- The pieces and what is left make up the template. -/
theorem spell_scan (rest : Text) :
    (scan rest).1.flatMap Piece.spell ++ (scan rest).2.getD [] = rest := by
  induction rest using scan.induct with
  | case1 rest hopen =>
    rw [scan_literal hopen]
    simp [Piece.spell]
  | case2 rest literal after hopen hclose =>
    rw [scan_unterminated hopen hclose]
    simp [Piece.spell, eq_of_splitOnce hopen]
  | case3 rest literal after hopen key rest' hclose ih =>
    rw [scan_placeholder hopen hclose, eq_of_splitOnce hopen, eq_of_splitOnce hclose]
    simp only [List.flatMap_cons, Piece.spell, List.append_assoc, ih]

def Piece.Unbraced : Piece → Prop
  | .literal text => ¬ openBraces <:+: text
  | .slot key => ¬ closeBraces <:+: key

theorem unbraced_scan (rest : Text) : ∀ piece ∈ (scan rest).1, piece.Unbraced := by
  induction rest using scan.induct with
  | case1 rest hopen =>
    rw [scan_literal hopen]
    simpa [Piece.Unbraced] using splitOnce_eq_none.mp hopen
  | case2 rest literal after hopen hclose =>
    rw [scan_unterminated hopen hclose]
    simpa [Piece.Unbraced] using not_infix_of_splitOnce (by simp [openBraces]) hopen
  | case3 rest literal after hopen key rest' hclose ih =>
    have hliteral := not_infix_of_splitOnce (by simp [openBraces]) hopen
    have hkey := not_infix_of_splitOnce (by simp [closeBraces]) hclose
    rw [scan_placeholder hopen hclose]
    simpa [Piece.Unbraced] using ⟨hliteral, hkey, ih⟩

def fillPieces (slots : Slots) : Text → List Piece → Option Text → Except Text Text
  | out, [], none => .ok out
  | _, [], some rest => .error (unterminated rest)
  | out, .literal text :: pieces, left => fillPieces slots (out ++ text) pieces left
  | out, .slot key :: pieces, left =>
    match slots key with
    | none => .error (unfilled key)
    | some value => fillPieces slots (out ++ value) pieces left

/-- The loop reads the template once, and the values not at all. -/
theorem renderLoop_eq (slots : Slots) (out rest : Text) :
    renderLoop slots out rest = fillPieces slots out (scan rest).1 (scan rest).2 := by
  induction rest using scan.induct generalizing out with
  | case1 rest hopen =>
    rw [scan_literal hopen, renderLoop]
    split
    · rfl
    · simp_all
  | case2 rest literal after hopen hclose =>
    rw [scan_unterminated hopen hclose, renderLoop]
    split
    · simp_all
    · rename_i h
      obtain ⟨rfl, rfl⟩ : literal = _ ∧ after = _ := by simpa [hopen] using h
      split
      · rfl
      · simp_all
  | case3 rest literal after hopen key rest' hclose ih =>
    rw [scan_placeholder hopen hclose, renderLoop]
    split
    · simp_all
    · rename_i h
      obtain ⟨rfl, rfl⟩ : literal = _ ∧ after = _ := by simpa [hopen] using h
      split
      · simp_all
      · rename_i h
        obtain ⟨rfl, rfl⟩ : key = _ ∧ rest' = _ := by simpa [hclose] using h
        simp only [fillPieces]
        cases slots key with
        | none => rfl
        | some value => exact ih (out ++ literal ++ value)

def HasKeys (slots : Slots) (keys : Set Text) : Prop := ∀ key, (slots key).isSome ↔ key ∈ keys

/-- Which keys there are decides whether the pieces can be filled, and the message if not. -/
theorem fillPieces_cases (keys : Set Text) (pieces : List Piece) (left : Option Text) :
    ((left.isSome ∨ ∃ key ∉ keys, .slot key ∈ pieces) ∧
        ∃ message, ∀ slots out, HasKeys slots keys →
          fillPieces slots out pieces left = .error message) ∨
      (left = none ∧ ∀ key, .slot key ∈ pieces → key ∈ keys) ∧
        ∀ slots out, HasKeys slots keys →
          fillPieces slots out pieces left = .ok (out ++ pieces.flatMap (Piece.fill slots)) := by
  induction pieces with
  | nil =>
    cases left with
    | none =>
      right
      simp [fillPieces]
    | some rest =>
      left
      exact ⟨by simp, unterminated rest, fun _ _ _ => rfl⟩
  | cons piece pieces ih =>
    cases piece with
    | literal text =>
      rcases ih with ⟨hwhy, message, hfails⟩ | ⟨hkeyed, hfills⟩
      · left
        refine ⟨by simpa using hwhy, message, fun slots out hkeys => ?_⟩
        exact hfails slots (out ++ text) hkeys
      · right
        refine ⟨by simpa using hkeyed, fun slots out hkeys => ?_⟩
        rw [fillPieces, hfills slots (out ++ text) hkeys, List.flatMap_cons, Piece.fill,
          List.append_assoc]
    | slot key =>
      by_cases hkey : key ∈ keys
      · rcases ih with ⟨hwhy, message, hfails⟩ | ⟨⟨hleft, hkeyed⟩, hfills⟩
        · left
          have hwhy' : left.isSome ∨ ∃ key' ∉ keys, .slot key' ∈ Piece.slot key :: pieces :=
            hwhy.imp_right fun ⟨key', hnew, hmem⟩ => ⟨key', hnew, List.mem_cons_of_mem _ hmem⟩
          refine ⟨hwhy', message, fun slots out hkeys => ?_⟩
          obtain ⟨value, hvalue⟩ := Option.isSome_iff_exists.mp ((hkeys key).mpr hkey)
          simp only [fillPieces, hvalue]
          exact hfails slots (out ++ value) hkeys
        · right
          refine ⟨⟨hleft, fun key' hmem => ?_⟩, fun slots out hkeys => ?_⟩
          · obtain heq | hmem := List.mem_cons.mp hmem
            · cases heq
              exact hkey
            · exact hkeyed key' hmem
          · obtain ⟨value, hvalue⟩ := Option.isSome_iff_exists.mp ((hkeys key).mpr hkey)
            simp only [fillPieces, hvalue, hfills slots (out ++ value) hkeys, List.flatMap_cons,
              Piece.fill, Option.getD_some, List.append_assoc]
      · left
        refine ⟨Or.inr ⟨key, hkey, by simp⟩, unfilled key, fun slots out hkeys => ?_⟩
        have hnone : slots key = none := by
          rw [Option.eq_none_iff_forall_ne_some]
          intro value hvalue
          exact hkey ((hkeys key).mp (by simp [hvalue]))
        simp only [fillPieces, hnone]

/-- A template is cut at its placeholders, whatever the values are. The keys of the slots alone
decide whether it renders: it fails if a placeholder is unterminated or has no slot. If it renders,
the literals and the values stand there verbatim, each value at its own key's places only. -/
theorem render_verbatim (template : Text) (keys : Set Text) :
    ((scan template).1.flatMap Piece.spell ++ (scan template).2.getD [] = template ∧
      ∀ piece ∈ (scan template).1, piece.Unbraced) ∧
    (((scan template).2.isSome ∨ ∃ key ∉ keys, .slot key ∈ (scan template).1) ∧
        (∃ message, ∀ slots, HasKeys slots keys → render template slots = .error message) ∨
      ((scan template).2 = none ∧ ∀ key, .slot key ∈ (scan template).1 → key ∈ keys) ∧
        (∀ slots, HasKeys slots keys →
          render template slots = .ok ((scan template).1.flatMap (Piece.fill slots))) ∧
        ∀ slots slots' key, (∀ other, other ≠ key → slots other = slots' other) →
          ∀ piece ∈ (scan template).1, piece ≠ .slot key →
            piece.fill slots = piece.fill slots') := by
  refine ⟨⟨spell_scan template, unbraced_scan template⟩, ?_⟩
  rcases fillPieces_cases keys (scan template).1 (scan template).2 with
    ⟨hwhy, message, hfails⟩ | ⟨hkeyed, hfills⟩
  · left
    refine ⟨hwhy, message, fun slots hkeys => ?_⟩
    rw [render, renderLoop_eq]
    exact hfails slots [] hkeys
  · right
    refine ⟨hkeyed, fun slots hkeys => ?_, ?_⟩
    · rw [render, renderLoop_eq]
      exact hfills slots [] hkeys
    · intro slots slots' key hsame piece _ hpiece
      cases piece with
      | literal text => rfl
      | slot other =>
        have hother : other ≠ key := fun h => hpiece (h ▸ rfl)
        simp only [Piece.fill, hsame other hother]

end Hunter
