import Mathlib.Data.List.Infix
import StackCode.Source.Path

/-!
# Paths and their text

To write a path and to read it again gives the same path, both for the paths that can be read at all
and for those made of proper segments (`Path.parse_text_eq`). Of three colons in a row the first two
separate, and the third begins the next segment. So a segment may begin with a colon, and only the
last one may end with it (`Cut`).
-/

namespace StackCode

open List

/-- A name that can be a segment of a full name: it is not empty, and there is no colon in it. -/
def IsSegment (name : String) : Prop := name ≠ "" ∧ ':' ∉ name.toList

instance : DecidablePred IsSegment := fun _ => inferInstanceAs (Decidable (_ ∧ _))

/-! ## Pieces -/

/-- A text has no separator in it. -/
def NoSeparator (text : List Char) : Prop := ¬[':', ':'] <:+: text

/-- Some pieces as they stand behind another one. -/
def behindSeparators (pieces : List (List Char)) : List Char := pieces.flatMap (':' :: ':' :: ·)

/-- The pieces of a text: the first separator behind a piece begins where the piece ends. -/
def Cut : List (List Char) → Prop
  | [] => True
  | piece :: rest => NoSeparator (piece ++ (behindSeparators rest).take 1) ∧ Cut rest

theorem NoSeparator.of_not_mem {text : List Char} (plain : ':' ∉ text) (next : List Char) :
    NoSeparator (text ++ next.take 1) := by
  intro inside
  obtain ⟨before, after, whole⟩ := inside
  have counted := congrArg (List.count ':') whole
  have few : (next.take 1).count ':' ≤ 1 := count_le_length.trans (length_take_le 1 next)
  simp only [count_append, count_eq_zero_of_not_mem plain] at counted
  have two : [':', ':'].count ':' = 2 := rfl
  omega

/-- What has no separator, not even with the character behind it, belongs to one piece. -/
theorem splitSegments_append {first rest : List Char} (plain : NoSeparator (first ++ rest.take 1))
    (piece : List Char) :
    splitSegments (first ++ rest) piece = splitSegments rest (first.reverse ++ piece) := by
  induction first generalizing piece with
  | nil => rfl
  | cons c first ih =>
    rw [cons_append, splitSegments, ih fun inside => plain (inside.trans (infix_cons infix_rfl)),
      reverse_cons, List.append_assoc]
    · rfl
    · rintro after rfl isColon
      refine plain ⟨[], (first ++ rest.take 1).drop 1, ?_⟩
      cases first with
      | nil => rw [show rest = _ from isColon]; rfl
      | cons d first => cases isColon; rfl

theorem Cut.splitSegments {first : List Char} {rest : List (List Char)}
    (cut : Cut (first :: rest)) :
    splitSegments (first ++ behindSeparators rest) [] = first :: rest := by
  induction rest generalizing first with
  | nil =>
    rw [splitSegments_append cut.1]
    simp [behindSeparators]
  | cons next rest ih =>
    have following : behindSeparators (next :: rest) =
      ':' :: ':' :: (next ++ behindSeparators rest) := rfl
    rw [splitSegments_append cut.1, following, splitSegments_separator, ih cut.2]
    simp

theorem Cut.sublist {pieces fewer : List (List Char)} (cut : Cut pieces)
    (sublist : fewer.Sublist pieces) :
    Cut fewer := by
  induction sublist with
  | slnil => trivial
  | cons _ _ ih => exact ih cut.2
  | @cons_cons fewer rest piece sublist ih =>
    refine ⟨fun inside => cut.1 (inside.trans (List.IsPrefix.isInfix ?_)), ih cut.2⟩
    refine (prefix_append_right_inj piece).2 ?_
    cases fewer with
    | nil => exact nil_prefix
    | cons =>
      cases rest with
      | nil => cases sublist
      | cons => exact prefix_refl [':']

theorem Cut.of_plain {pieces : List (List Char)} (plain : ∀ piece ∈ pieces, ':' ∉ piece) :
    Cut pieces := by
  induction pieces with
  | nil => trivial
  | cons piece rest ih =>
    exact ⟨.of_not_mem (plain piece mem_cons_self) _,
      ih fun other member => plain other (mem_cons_of_mem piece member)⟩

/-- Reading cuts a text into pieces, if there is no separator in what is begun so far. -/
theorem cut_splitSegments (text piece : List Char)
    (plain : NoSeparator (piece.reverse ++ text.take 1)) :
    Cut (splitSegments text piece) := by
  induction text, piece using splitSegments.induct with
  | case1 piece => exact ⟨plain, trivial⟩
  | case2 rest piece ih =>
    rw [splitSegments_separator]
    refine ⟨?_, ih (.of_not_mem not_mem_nil rest)⟩
    cases splitSegments rest [] with
    | nil =>
      exact fun inside => plain (inside.trans ((prefix_append_right_inj _).2 nil_prefix).isInfix)
    | cons => exact plain
  | case3 c rest piece other ih =>
    rw [splitSegments]
    · refine ih fun inside => ?_
      rw [reverse_cons] at inside
      cases rest with
      | nil => exact plain (by simpa using inside)
      | cons d rest =>
        rcases infix_concat_iff.1 inside with ⟨before, ending⟩ | within
        · rw [List.append_assoc] at ending
          cases (append_inj' ending rfl).2
          exact other rest rfl rfl
        · exact plain within
    · exact other

/-! ## Paths -/

namespace Path

theorem toList_text (first : String) (rest : List String) :
    (separator.intercalate (first :: rest)).toList =
      first.toList ++ behindSeparators (rest.map String.toList) := by
  induction rest generalizing first with
  | nil => simp [behindSeparators]
  | cons next rest ih =>
    rw [String.intercalate_cons_cons, String.toList_append, String.toList_append, ih]
    simp [behindSeparators, separator]

theorem parse_text_of_cut {p : Path} (cut : Cut (p.segments.map String.toList))
    (full : ∀ segment ∈ p.segments, segment ≠ "") : parse p.text = p := by
  obtain ⟨segments, absolute⟩ := p
  dsimp only at cut full
  have pieces : ((splitSegments (separator.intercalate segments).toList []).filter (!·.isEmpty)).map
      String.ofList = segments := by
    cases segments with
    | nil => rfl
    | cons first rest =>
      rw [toList_text, cut.splitSegments, ← map_cons, filter_eq_self.2, List.map_map]
      · simp
      · intro piece member
        obtain ⟨segment, isSegment, rfl⟩ := List.mem_map.1 member
        simpa using full segment isSegment
  cases absolute with
  | true =>
    have text : (text ⟨segments, true⟩).toList =
        ':' :: ':' :: (separator.intercalate segments).toList := by
      simp [Path.text, separator]
    simp only [parse, text, splitSegments_separator, reverse_nil]
    rw [filter_cons_of_neg (by decide), pieces]
    rfl
  | false =>
    have text : text ⟨segments, false⟩ = separator.intercalate segments := by simp [Path.text]
    simp only [parse, text, pieces]
    congr
    refine beq_eq_false_iff_ne.2 fun separated => ?_
    cases segments with
    | nil => cases separated
    | cons first rest =>
      rw [toList_text] at separated
      refine cut.1 (List.IsPrefix.isInfix ?_)
      rw [← separated]
      have isFull : first.toList ≠ [] := by simpa using full first mem_cons_self
      generalize first.toList = chars at isFull
      rcases chars with _ | ⟨c, _ | ⟨d, more⟩⟩
      · exact (isFull rfl).elim
      · exact prefix_refl _
      · exact ⟨_, rfl⟩

/-- **A path is read back from its text**, if it was read from any text at all, or if its segments
are proper. -/
theorem parse_text_eq :
    (∀ text, parse (parse text).text = parse text) ∧
      ∀ p : Path, (∀ segment ∈ p.segments, IsSegment segment) → parse p.text = p := by
  refine ⟨fun text => parse_text_of_cut ?_ ?_, fun p proper =>
    parse_text_of_cut ?_ fun segment member =>
    (proper segment member).1⟩
  · have cut := cut_splitSegments text.toList [] (.of_not_mem not_mem_nil _)
    simpa [parse] using cut.sublist filter_sublist
  · intro segment member
    obtain ⟨piece, isPiece, rfl⟩ := List.mem_map.1 member
    simpa using (mem_filter.1 isPiece).2
  · refine .of_plain fun piece member => ?_
    obtain ⟨segment, isSegment, rfl⟩ := List.mem_map.1 member
    exact (proper segment isSegment).2

/-- Colons that overlap, and a path from the root. -/
theorem parse_text_eq_colons :
    let p := parse ":::A::::B:::"
    let list : Path := ⟨["Std", "List"], true⟩
    p = ⟨[":A", "B", ":"], true⟩ ∧ parse p.text = p ∧
      (∀ segment ∈ list.segments, IsSegment segment) ∧ parse list.text = list :=
  ⟨by decide +kernel, parse_text_eq.1 _, by decide +kernel, parse_text_eq.2 _ (by decide +kernel)⟩

end Path

end StackCode
