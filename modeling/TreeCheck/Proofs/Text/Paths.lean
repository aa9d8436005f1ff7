/-
Cleaned paths. A path in its shortest form is left alone: cutting it gives back the
segments it was put together from, and stepping through those drops none of them, since
`..` stands only in front and nothing empty is left.
-/

import Mathlib.Data.List.Basic
import TreeCheck.Text.Path

namespace TreeCheck.Text

variable {α : Type} {rooted : Bool} {kept segments : List String} {segment : String} {separator : α}
  {items part : List α}

/-! ### Cutting what was put together -/

theorem notMem_of_mem_splitList [DecidableEq α] (member : part ∈ splitList separator items) :
    separator ∉ part := by
  induction items generalizing part with
  | nil => simp_all [splitList]
  | cons item rest inductionHypothesis =>
    unfold splitList at member
    split at member
    · obtain rfl | member := List.mem_cons.mp member
      · exact List.not_mem_nil
      · exact inductionHypothesis member
    · next differs =>
      split at member
      · simp_all [splitList_ne_nil]
      · next first parts cut =>
        rw [cut] at inductionHypothesis
        obtain rfl | member := List.mem_cons.mp member
        · have clear := inductionHypothesis (.head _)
          simp [clear, Ne.symm differs]
        · exact inductionHypothesis (.tail _ member)

theorem splitList_of_notMem [DecidableEq α] (clear : separator ∉ items) :
    splitList separator items = [items] := by
  induction items with
  | nil => rfl
  | cons item rest inductionHypothesis =>
    rw [List.mem_cons, not_or] at clear
    rw [splitList, if_neg (Ne.symm clear.1), inductionHypothesis clear.2]

theorem splitList_append [DecidableEq α] (clear : separator ∉ part) (rest : List α) :
    splitList separator (part ++ separator :: rest) = part :: splitList separator rest := by
  induction part with
  | nil => rw [List.nil_append, splitList, if_pos rfl]
  | cons item part inductionHypothesis =>
    rw [List.mem_cons, not_or] at clear
    rw [List.cons_append, splitList, if_neg (Ne.symm clear.1), inductionHypothesis clear.2]

theorem splitOn_join {separator : Char} {parts : List String} (some : parts ≠ [])
    (clear : ∀ part ∈ parts, separator ∉ part.toList) :
    splitOn separator (join (String.singleton separator) parts) = parts := by
  induction parts with
  | nil => exact absurd rfl some
  | cons part rest inductionHypothesis =>
    have partClear := clear part (.head _)
    cases rest with
    | nil => rw [join, splitOn, splitList_of_notMem partClear, List.map_singleton, String.ofList_toList]
    | cons next rest =>
      have others := inductionHypothesis (List.cons_ne_nil _ _)
        fun other member => clear other (.tail _ member)
      rw [splitOn] at others ⊢
      show ((splitList separator (part ++ String.singleton separator ++
        join (String.singleton separator) (next :: rest)).toList).map String.ofList) = _
      rw [String.toList_append, String.toList_append, String.toList_singleton,
        List.append_assoc, List.singleton_append, splitList_append partClear, List.map_cons,
        String.ofList_toList, others]

namespace Path

/-! ### Segments -/

/-- A segment that is kept as it is. -/
structure Plain (segment : String) : Prop where
  notEmpty : segment ≠ ""
  notHere : segment ≠ "."
  notUp : segment ≠ ".."
  whole : '/' ∉ segment.toList

/-- The segments kept on the way, the last one first: ways up stand at the far end, and
only in a relative path. -/
structure Kept (rooted : Bool) (kept : List String) : Prop where
  parts : ∃ plain ups, kept = plain ++ List.replicate ups ".." ∧ (∀ segment ∈ plain, Plain segment) ∧
    (rooted → ups = 0)

theorem Kept.step (isKept : Kept rooted kept) (whole : '/' ∉ segment.toList) :
    Kept rooted (stepSegment rooted kept segment) := by
  obtain ⟨plain, ups, rfl, each, noUps⟩ := isKept
  unfold stepSegment
  split
  · exact ⟨plain, ups, rfl, each, noUps⟩
  · next visible =>
    rw [not_or] at visible
    split
    · cases plain with
      | nil =>
        cases ups with
        | zero =>
          cases rooted with
          | true => exact ⟨[], 0, rfl, nofun, fun _ => rfl⟩
          | false => exact ⟨[], 1, rfl, nofun, nofun⟩
        | succ ups => exact ⟨[], ups + 2, rfl, nofun, fun isRooted => nomatch noUps isRooted⟩
      | cons last earlier =>
        have notUp := (each last (.head _)).notUp
        dsimp only [List.cons_append]
        rw [if_neg notUp]
        exact ⟨earlier, ups, rfl, fun segment member => each segment (.tail _ member), noUps⟩
    · next notUp =>
      refine ⟨segment :: plain, ups, rfl, fun other member => ?_, noUps⟩
      obtain rfl | member := List.mem_cons.mp member
      · exact ⟨visible.1, visible.2, notUp, whole⟩
      · exact each other member

theorem kept_foldl (isKept : Kept rooted kept)
    (whole : ∀ segment ∈ segments, '/' ∉ segment.toList) :
    Kept rooted (segments.foldl (stepSegment rooted) kept) := by
  induction segments generalizing kept with
  | nil => exact isKept
  | cons segment rest inductionHypothesis =>
    exact inductionHypothesis (isKept.step (whole segment (.head _)))
      fun other member => whole other (.tail _ member)

theorem stepSegment_plain (rooted : Bool) (kept : List String) (plain : Plain segment) :
    stepSegment rooted kept segment = segment :: kept := by
  unfold stepSegment
  rw [if_neg (not_or.mpr ⟨plain.notEmpty, plain.notHere⟩), if_neg plain.notUp]

theorem foldl_replicate_up (ups kept : Nat) :
    (List.replicate ups "..").foldl (stepSegment false) (List.replicate kept "..") =
      List.replicate (kept + ups) ".." := by
  induction ups generalizing kept with
  | zero => rfl
  | succ ups inductionHypothesis =>
    have climbs : stepSegment false (List.replicate kept "..") ".." =
        List.replicate (kept + 1) ".." := by
      cases kept <;> rfl
    rw [List.replicate_succ, List.foldl_cons, climbs, inductionHypothesis]
    congr 1
    omega

/-- Stepping through the kept segments keeps them all. -/
theorem Kept.foldl_reverse (isKept : Kept rooted kept) :
    kept.reverse.foldl (stepSegment rooted) [] = kept := by
  obtain ⟨plain, ups, rfl, each, noUps⟩ := isKept
  have climbed : (List.replicate ups "..").foldl (stepSegment rooted) [] =
      List.replicate ups ".." := by
    cases rooted with
    | true => rw [noUps rfl]; rfl
    | false => simpa using foldl_replicate_up ups 0
  rw [List.reverse_append, List.reverse_replicate, List.foldl_append, climbed]
  induction plain with
  | nil => rfl
  | cons segment plain inductionHypothesis =>
    rw [List.reverse_cons, List.foldl_append,
      inductionHypothesis fun other member => each other (.tail _ member)]
    exact stepSegment_plain _ _ (each segment (.head _))

/-! ### Cleaned paths -/

theorem kept_cleanSegments (path : String) :
    Kept (isAbsolute path) (cleanSegments path).reverse := by
  rw [cleanSegments, List.reverse_reverse]
  refine kept_foldl ⟨[], 0, rfl, nofun, fun _ => rfl⟩ fun segment member => ?_
  obtain ⟨part, isPart, rfl⟩ := List.mem_map.mp member
  rw [String.toList_ofList]
  exact notMem_of_mem_splitList isPart

theorem Kept.clear (isKept : Kept rooted kept) :
    ∀ segment ∈ kept, segment ≠ "" ∧ '/' ∉ segment.toList := by
  obtain ⟨plain, ups, rfl, each, _⟩ := isKept
  intro segment member
  obtain isPlain | isUp := List.mem_append.mp member
  · exact ⟨(each segment isPlain).notEmpty, (each segment isPlain).whole⟩
  · rw [(List.mem_replicate.mp isUp).2]
    decide

/-- The segments a text is put together from, in which nothing is to be cleaned. -/
theorem foldl_splitOn_join (isKept : Kept rooted segments.reverse) :
    ((splitOn '/' (join "/" segments)).foldl (stepSegment rooted) []).reverse = segments := by
  cases segments with
  | nil => cases rooted <;> rfl
  | cons first rest =>
    have cut : splitOn '/' (join "/" (first :: rest)) = first :: rest :=
      splitOn_join (List.cons_ne_nil _ _) fun part member =>
        (isKept.clear part (List.mem_reverse.mpr member)).2
    have again := isKept.foldl_reverse
    rw [List.reverse_reverse] at again
    rw [cut, again, List.reverse_reverse]

/-- A text put together from segments begins as the first of them. -/
theorem head?_join {first : String} (rest : List String) (notEmpty : first ≠ "") :
    (join "/" (first :: rest)).toList.head? = first.toList.head? := by
  have some : first.toList ≠ [] := fun none => notEmpty (String.toList_eq_nil_iff.mp none)
  cases rest with
  | nil => rfl
  | cons next rest =>
    show (first ++ "/" ++ join "/" (next :: rest)).toList.head? = _
    rw [String.toList_append, String.toList_append, List.append_assoc,
      List.head?_append_of_ne_nil _ some]

theorem isAbsolute_join (clear : ∀ segment ∈ segments, segment ≠ "" ∧ '/' ∉ segment.toList) :
    isAbsolute (join "/" segments) = false := by
  cases segments with
  | nil => rfl
  | cons first rest =>
    obtain ⟨notEmpty, whole⟩ := clear first (.head _)
    rw [isAbsolute, head?_join rest notEmpty, decide_eq_false_iff_not]
    exact fun isSlash => whole (List.mem_of_mem_head? isSlash)

/-- A cleaned path stays as it is. -/
theorem clean_clean (path : String) : clean (clean path) = clean path := by
  have kept := kept_cleanSegments path
  have clear (segment : String) (member : segment ∈ cleanSegments path) :=
    kept.clear segment (List.mem_reverse.mpr member)
  cases rooted : isAbsolute path with
  | true =>
    rw [rooted] at kept
    have cleaned : clean path = "/" ++ join "/" (cleanSegments path) := by
      rw [clean, rooted, if_pos rfl]
    have stillRooted : isAbsolute ("/" ++ join "/" (cleanSegments path)) = true := by
      rw [isAbsolute, String.toList_append]
      rfl
    -- the part in front of the slash is empty, and dropped
    have cut : splitOn '/' ("/" ++ join "/" (cleanSegments path)) =
        "" :: splitOn '/' (join "/" (cleanSegments path)) := by
      rw [splitOn, String.toList_append]
      rfl
    have again : cleanSegments ("/" ++ join "/" (cleanSegments path)) = cleanSegments path := by
      have dropped : stepSegment true [] "" = [] := rfl
      rw [cleanSegments, stillRooted, cut, List.foldl_cons, dropped]
      exact foldl_splitOn_join kept
    rw [cleaned, clean, stillRooted, if_pos rfl, again]
  | false =>
    rw [rooted] at kept
    by_cases none : join "/" (cleanSegments path) = ""
    · have cleaned : clean path = "." := by
        rw [clean, rooted, if_neg Bool.false_ne_true, if_pos none]
      rw [cleaned]
      decide
    · have cleaned : clean path = join "/" (cleanSegments path) := by
        rw [clean, rooted, if_neg Bool.false_ne_true, if_neg none]
      have again : cleanSegments (join "/" (cleanSegments path)) = cleanSegments path := by
        rw [cleanSegments, isAbsolute_join clear]
        exact foldl_splitOn_join kept
      rw [cleaned, clean, isAbsolute_join clear, if_neg Bool.false_ne_true, again, if_neg none]

end Path

end TreeCheck.Text
