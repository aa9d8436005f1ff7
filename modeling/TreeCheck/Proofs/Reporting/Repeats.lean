/-
Repeats may be dropped early or late. A sink can refuse a diagnostic that it has seen, and a bag
can drop repeats once it is sorted. Diagnostics that repeat each other stand at the same place
of the order, and sorting keeps the order of diagnostics at one place, so the first of a group
is the same before and after sorting, and both ways end with the same list.
-/

import Mathlib.Data.Prod.Lex
import TreeCheck.Proofs.Reporting.Delivery

namespace TreeCheck

/-! ### The order -/

/-- Where a span starts: its file, line and column. -/
def Span.place (span : Span) : ℕ ×ₗ ℕ ×ₗ ℕ :=
  toLex (span.file, toLex (span.start.line.toNat, span.start.column.toNat))

theorem Span.before_iff {first second : Span} :
    first.before second = true ↔ first.place < second.place := by
  simp only [before, Position.before, place, Prod.Lex.toLex_lt_toLex]
  by_cases same : first.file = second.file
  · simp [same, UInt32.lt_iff_toNat_lt, ← UInt32.toNat_inj]
  · simp [same]

namespace Diagnostic

variable {first second diagnostic : Diagnostic} {diagnostics emitted others : List Diagnostic}

/-- What diagnostics are ordered by: file, line, column, the more severe first, and code. -/
def sortKey (diagnostic : Diagnostic) : (ℕ ×ₗ ℕ ×ₗ ℕ) ×ₗ ℕᵒᵈ ×ₗ ℕ :=
  toLex (diagnostic.span.place,
    toLex (OrderDual.toDual diagnostic.severity.rank, diagnostic.code.number))

theorem le_iff : le first second = true ↔ first.sortKey ≤ second.sortKey := by
  have severities : first.severity = second.severity ↔
      first.severity.rank = second.severity.rank := by
    cases first.severity; cases second.severity; simp
  simp only [le, sortKey, Span.before_iff, Prod.Lex.toLex_le_toLex, OrderDual.toDual_lt_toDual,
    OrderDual.toDual_inj, ne_eq, severities]
  rcases lt_trichotomy first.span.place second.span.place with before | same | after
  · simp [before]
  · simp only [same, lt_irrefl, if_false, false_or, true_and]
    split <;> simp <;> omega
  · simp [after, after.not_gt, after.ne']

theorem le_transitive (first second third : Diagnostic) (near : first.le second = true)
    (far : second.le third = true) : first.le third = true := by
  rw [le_iff] at near far ⊢
  exact near.trans far

theorem le_or_ge (first second : Diagnostic) : (first.le second || second.le first) = true := by
  simpa only [Bool.or_eq_true, le_iff] using le_total first.sortKey second.sortKey

theorem ordered_sort (diagnostics : List Diagnostic) :
    (sort diagnostics).Pairwise fun first second => first.sortKey ≤ second.sortKey :=
  (List.pairwise_mergeSort le_transitive le_or_ge diagnostics).imp fun le => by rwa [le_iff] at le

/-- Sorting keeps the order of diagnostics that stand at the same place. -/
theorem filter_sort (key : (ℕ ×ₗ ℕ ×ₗ ℕ) ×ₗ ℕᵒᵈ ×ₗ ℕ) (diagnostics : List Diagnostic) :
    (sort diagnostics).filter (·.sortKey = key) = diagnostics.filter (·.sortKey = key) := by
  have tied : (diagnostics.filter (·.sortKey = key)).Pairwise fun first second => first.le second :=
    List.pairwise_of_forall_mem_list fun first isFirst second isSecond => by
      simp only [List.mem_filter, decide_eq_true_eq] at isFirst isSecond
      exact le_iff.mpr (isFirst.2.trans isSecond.2.symm).le
  have kept := (List.sublist_mergeSort le_transitive le_or_ge tied
    List.filter_sublist).filter (·.sortKey = key)
  simp only [List.filter_filter, Bool.and_self] at kept
  exact (kept.eq_of_length
    ((List.mergeSort_perm diagnostics le).filter _).length_eq.symm).symm

theorem mem_of_same
    (same : ∀ key, diagnostics.filter (·.sortKey = key) = others.filter (·.sortKey = key))
    (member : diagnostic ∈ diagnostics) : diagnostic ∈ others := by
  have among : diagnostic ∈ diagnostics.filter (·.sortKey = diagnostic.sortKey) :=
    List.mem_filter.mpr ⟨member, decide_eq_true rfl⟩
  rw [same] at among
  exact (List.mem_filter.mp among).1

/-- Ordered lists are the same if they are the same at every place of the order. -/
theorem eq_of_ordered
    (ordered : diagnostics.Pairwise fun first second => first.sortKey ≤ second.sortKey)
    (ordered' : others.Pairwise fun first second => first.sortKey ≤ second.sortKey)
    (same : ∀ key, diagnostics.filter (·.sortKey = key) = others.filter (·.sortKey = key)) :
    diagnostics = others := by
  induction diagnostics generalizing others with
  | nil =>
    cases others with
    | nil => rfl
    | cons other rest => simpa using same other.sortKey
  | cons diagnostic rest inductionHypothesis =>
    cases others with
    | nil => simpa using same diagnostic.sortKey
    | cons other others =>
      -- Either head stands somewhere in the other list, so neither is before the other.
      have sameKey : diagnostic.sortKey = other.sortKey := by
        rcases List.mem_cons.mp (mem_of_same same (.head _)) with rfl | behind
        · rfl
        rcases List.mem_cons.mp (mem_of_same (fun key => (same key).symm) (.head _)) with
          rfl | behind'
        · rfl
        exact le_antisymm (List.rel_of_pairwise_cons ordered behind')
          (List.rel_of_pairwise_cons ordered' behind)
      obtain ⟨rfl, -⟩ := List.cons.inj (by simpa [sameKey] using same other.sortKey)
      refine congrArg (diagnostic :: ·)
        (inductionHypothesis ordered.of_cons ordered'.of_cons fun key => ?_)
      have sameHere := same key
      simp only [List.filter_cons] at sameHere
      split at sameHere
      · exact (List.cons.inj sameHere).2
      · exact sameHere

/-! ### Repeats -/

/-- What two diagnostics have in common if one of them repeats the other. -/
def identity (diagnostic : Diagnostic) : Code × Severity × Span × String :=
  (diagnostic.code, diagnostic.severity, diagnostic.span, diagnostic.message)

theorem sameReport_iff : first.sameReport second = true ↔ first.identity = second.identity := by
  simp [sameReport, identity, and_assoc]

/-- The repeats of a diagnostic are those of its code, severity, span and message. -/
theorem sameReport_eq (diagnostic : Diagnostic) :
    diagnostic.sameReport = fun other => decide (other.identity = diagnostic.identity) := by
  funext other
  rw [Bool.eq_iff_iff, sameReport_iff, decide_eq_true_iff]
  exact eq_comm

theorem sortKey_of_sameReport (same : first.sameReport second = true) :
    first.sortKey = second.sortKey := by
  obtain ⟨code, severity, span, -⟩ := by simpa [sameReport_iff, identity] using same
  rw [sortKey, sortKey, code, severity, span]

/-- Dropping repeats from a part that holds whole groups is the same before and after. -/
theorem filter_dedupFrom {part : Diagnostic → Bool}
    (whole : ∀ first second, sameReport first second = true → part first = part second)
    (seen diagnostics : List Diagnostic) :
    (dedupFrom seen diagnostics).filter part =
      dedupFrom (seen.filter part) (diagnostics.filter part) := by
  induction diagnostics generalizing seen with
  | nil => rfl
  | cons diagnostic rest inductionHypothesis =>
    have again : part diagnostic = true →
        (seen.filter part).any diagnostic.sameReport = seen.any diagnostic.sameReport := fun inPart => by
      rw [List.any_filter]
      exact congrArg (List.any seen) (funext fun other => by
        by_cases same : diagnostic.sameReport other = true
        · rw [same, ← whole _ _ same, inPart]; rfl
        · simp [same])
    by_cases inPart : part diagnostic = true
    · rw [List.filter_cons_of_pos inPart, dedupFrom, dedupFrom, again inPart]
      split
      · exact inductionHypothesis seen
      · rw [List.filter_cons_of_pos inPart, inductionHypothesis, List.filter_cons_of_pos inPart]
    · rw [List.filter_cons_of_neg inPart, dedupFrom]
      split
      · exact inductionHypothesis seen
      · rw [List.filter_cons_of_neg inPart, inductionHypothesis, List.filter_cons_of_neg inPart]

/-- Of each group the first is kept. -/
theorem filter_dedup (diagnostic : Diagnostic) (diagnostics : List Diagnostic) :
    (dedup diagnostics).filter diagnostic.sameReport =
      (diagnostics.find? diagnostic.sameReport).toList := by
  have group {first second third : Diagnostic} (near : first.sameReport second = true) :
      first.sameReport third = second.sameReport third := by
    rw [Bool.eq_iff_iff, sameReport_iff, sameReport_iff, sameReport_iff.mp near]
  rw [dedup, filter_dedupFrom fun first second same => by
    rw [Bool.eq_iff_iff, sameReport_iff, sameReport_iff, sameReport_iff.mp same]]
  have repeats (kept : Diagnostic) (others : List Diagnostic)
      (same : ∀ other ∈ others, diagnostic.sameReport other = true)
      (isKept : diagnostic.sameReport kept = true) : dedupFrom [kept] others = [] := by
    induction others with
    | nil => rfl
    | cons other rest inductionHypothesis =>
      rw [List.forall_mem_cons] at same
      have isRepeat : other.sameReport kept = true := by rwa [← group same.1]
      rw [dedupFrom, if_pos (by simp [isRepeat]), inductionHypothesis same.2]
  rw [← List.head?_filter]
  have same : ∀ other ∈ diagnostics.filter diagnostic.sameReport,
      diagnostic.sameReport other = true := fun other among => (List.mem_filter.mp among).2
  cases found : diagnostics.filter diagnostic.sameReport with
  | nil => rfl
  | cons kept others =>
    rw [found, List.forall_mem_cons] at same
    rw [List.filter_nil, dedupFrom, if_neg (by simp), repeats kept others same.2 same.1]
    rfl

theorem sublist_dedupFrom (seen diagnostics : List Diagnostic) :
    (dedupFrom seen diagnostics).Sublist diagnostics := by
  induction diagnostics generalizing seen with
  | nil => exact .slnil
  | cons diagnostic rest inductionHypothesis =>
    unfold dedupFrom
    split
    · exact (inductionHypothesis _).cons _
    · exact (inductionHypothesis _).cons_cons _

/-- Sorting and dropping repeats may change places. -/
theorem dedup_sort (diagnostics : List Diagnostic) :
    dedup (sort diagnostics) = sort (dedup diagnostics) := by
  refine eq_of_ordered ((ordered_sort diagnostics).sublist (sublist_dedupFrom _ _))
    (ordered_sort _) fun key => ?_
  have whole (first second : Diagnostic) (same : first.sameReport second = true) :
      decide (first.sortKey = key) = decide (second.sortKey = key) := by
    rw [sortKey_of_sameReport same]
  rw [filter_sort, dedup, dedup, filter_dedupFrom whole, filter_dedupFrom whole, filter_sort]

/-! ### Reports that are settled -/

/-- Diagnostics in the order in which they are shown, each once, and the first one that was
emitted where several were the same. -/
structure Settled (emitted shown : List Diagnostic) : Prop where
  ordered : shown.Pairwise fun first second => first.sortKey ≤ second.sortKey
  inTurn : ∀ key, (shown.filter (·.sortKey = key)).Sublist emitted
  /-- No two have the same code, severity, span and message. -/
  unrepeated : (shown.map identity).Nodup
  /-- Of those that have these in common with a diagnostic, the first that was emitted is shown. -/
  firsts : ∀ diagnostic : Diagnostic, shown.filter (·.identity = diagnostic.identity) =
    (emitted.find? (·.identity = diagnostic.identity)).toList
  again : dedup (sort shown) = shown

theorem unrepeated_dedup (diagnostics : List Diagnostic) :
    (dedup diagnostics).Pairwise fun first second => first.sameReport second = false := by
  refine List.pairwise_iff_forall_sublist.mpr fun {first second} both => ?_
  by_contra same
  rw [Bool.not_eq_false] at same
  -- Both would be kept for the group of the first.
  have kept := (both.filter first.sameReport).length_le
  rw [filter_dedup, List.filter_cons_of_pos (sameReport_iff.mpr rfl),
    List.filter_cons_of_pos same] at kept
  cases found : diagnostics.find? first.sameReport <;> simp [found] at kept

theorem dedupFrom_of_unrepeated (seen : List Diagnostic)
    (unrepeated : diagnostics.Pairwise fun first second => first.sameReport second = false)
    (new : ∀ diagnostic ∈ diagnostics, ∀ other ∈ seen, other.sameReport diagnostic = false) :
    dedupFrom seen diagnostics = diagnostics := by
  induction diagnostics generalizing seen with
  | nil => rfl
  | cons diagnostic rest inductionHypothesis =>
    rw [List.pairwise_cons] at unrepeated
    rw [List.forall_mem_cons] at new
    have unseen : ¬seen.any diagnostic.sameReport := fun among => by
      obtain ⟨other, isSeen, same⟩ := List.any_eq_true.mp among
      have differs := new.1 other isSeen
      rw [sameReport_iff.mpr (sameReport_iff.mp same).symm] at differs
      cases differs
    rw [dedupFrom, if_neg unseen,
      inductionHypothesis (diagnostic :: seen) unrepeated.2 fun later isLater =>
      List.forall_mem_cons.mpr ⟨unrepeated.1 later isLater, new.2 later isLater⟩]

theorem settled_dedup_sort (emitted : List Diagnostic) : Settled emitted (dedup (sort emitted)) where
  ordered := (ordered_sort emitted).sublist (sublist_dedupFrom _ _)
  inTurn key := by
    rw [dedup_sort, filter_sort]
    exact List.filter_sublist.trans (sublist_dedupFrom _ _)
  unrepeated := by
    refine List.pairwise_map.mpr ((unrepeated_dedup _).imp fun differs same => ?_)
    rw [sameReport_iff.mpr same] at differs
    cases differs
  firsts diagnostic := by
    rw [← sameReport_eq]
    have sorted : (sort emitted).filter diagnostic.sameReport =
        emitted.filter diagnostic.sameReport := by
      have narrow (diagnostics : List Diagnostic) : diagnostics.filter diagnostic.sameReport =
          (diagnostics.filter (·.sortKey = diagnostic.sortKey)).filter diagnostic.sameReport := by
        rw [List.filter_filter]
        refine List.filter_congr fun other _ => ?_
        cases same : diagnostic.sameReport other with
        | false => rfl
        | true => simp [sortKey_of_sameReport same]
      rw [narrow, filter_sort, ← narrow]
    rw [filter_dedup, ← List.head?_filter, sorted, List.head?_filter]
  again := by
    have ordered : (dedup (sort emitted)).Pairwise fun first second => first.sortKey ≤ second.sortKey :=
      (ordered_sort emitted).sublist (sublist_dedupFrom _ _)
    rw [sort, List.mergeSort_of_pairwise (ordered.imp le_iff.mpr)]
    exact dedupFrom_of_unrepeated [] (unrepeated_dedup _) fun _ _ _ isSeen =>
      nomatch isSeen

end Diagnostic

/-- A sink that refuses repeats ends with the same bag, once it is sorted, as a bag from which
repeats are dropped after it was sorted; and what it shows is settled. -/
theorem repeats_dropped_early_or_late (emitted : List Diagnostic) {limit : Int}
    (unlimited : limit ≤ 0) :
    ((Bag.addAll { limit } emitted).sort.dedup).items =
        (Sink.reportAll ⟨[.dedup []], { limit }⟩ emitted).bag.sort.items ∧
      Diagnostic.Settled emitted ((Bag.addAll { limit } emitted).sort.dedup).items := by
  have early (seen : List Diagnostic) (bag : Bag) :
      (Sink.reportAll ⟨[.dedup seen], bag⟩ emitted).bag =
        bag.addAll (Diagnostic.dedupFrom seen emitted) := by
    induction emitted generalizing seen bag with
    | nil => rfl
    | cons diagnostic rest inductionHypothesis =>
      by_cases repeated : seen.any diagnostic.sameReport
      · rw [Diagnostic.dedupFrom, if_pos repeated, ← inductionHypothesis seen bag]
        simp [Sink.reportAll, Sink.report, Sink.reportThrough, repeated]
      · rw [Diagnostic.dedupFrom, if_neg repeated]
        refine .trans ?_ (inductionHypothesis (diagnostic :: seen) (bag.add diagnostic))
        simp [Sink.reportAll, Sink.report, Sink.reportThrough, Sink.behind, repeated]
  have added (diagnostics : List Diagnostic) :
      (Bag.addAll { limit } diagnostics).items = diagnostics := by
    simpa using Bag.items_addAll_unlimited { limit } unlimited diagnostics
  simp only [Bag.sort, Bag.dedup, early, added]
  exact ⟨Diagnostic.dedup_sort emitted, Diagnostic.settled_dedup_sort emitted⟩

/-- Two reports of one name, of which the later has a note, behind one on a later line: the one with
the note is dropped. -/
theorem repeats_dropped_early_or_late_noted :
    let report := Diagnostic.error .redeclared (.point 1 4 2) ["x"]
    let later := Diagnostic.error .redeclared (.point 1 9 2) ["y"]
    let noted := report.withNote (.point 1 2 2) "first declared here"
    let emitted := [later, report, noted]
    ((Bag.addAll { limit := 0 } emitted).sort.dedup).items = [report, later] ∧
      (Sink.reportAll ⟨[.dedup []], { limit := 0 }⟩ emitted).bag.sort.items = [report, later] ∧
      Diagnostic.Settled emitted [report, later] := by
  intro report later noted emitted
  obtain ⟨same, settled⟩ := repeats_dropped_early_or_late emitted (show (0 : Int) ≤ 0 by decide)
  have sorted : Diagnostic.sort emitted = [report, noted, later] := by
    have first : later.le report = false := by decide
    have second : later.le noted = false := by decide
    have third : report.le noted = true := by decide
    simp [emitted, Diagnostic.sort, List.mergeSort, List.MergeSort.Internal.splitInTwo, first, second,
      third]
  have shown : ((Bag.addAll { limit := 0 } emitted).sort.dedup).items = [report, later] := by
    change Diagnostic.dedup (Diagnostic.sort emitted) = _
    rw [sorted]
    decide
  exact ⟨shown, same.symm.trans shown, shown ▸ settled⟩

end TreeCheck
