/-
What is left of a list of reports once it went through the sink of a batch run: the bag
keeps a prefix of them, warnings promoted or not, and sorting and dropping repeats neither
makes up an error nor loses the last one.
-/

import TreeCheck.Pipeline.Batch
import TreeCheck.Proofs.Reporting.Actions

namespace TreeCheck

variable {α : Type} {diagnostic : Diagnostic} {before after : Analysis}
  {diagnostics : List Diagnostic}

/-! ### Order and repeats -/

namespace Diagnostic

theorem mem_of_mem_dedupFrom {seen : List Diagnostic}
    (member : diagnostic ∈ dedupFrom seen diagnostics) : diagnostic ∈ diagnostics := by
  induction diagnostics generalizing seen with
  | nil => exact member
  | cons first rest inductionHypothesis =>
    unfold dedupFrom at member
    split at member
    · exact .tail _ (inductionHypothesis member)
    · rcases List.mem_cons.mp member with rfl | later
      · exact .head _
      · exact .tail _ (inductionHypothesis later)

/-- Whatever is dropped repeats something that was seen before or is kept. -/
theorem covered_dedupFrom (seen : List Diagnostic) (member : diagnostic ∈ diagnostics) :
    ∃ kept, (kept ∈ seen ∨ kept ∈ dedupFrom seen diagnostics) ∧ sameReport diagnostic kept := by
  have itself (other : Diagnostic) : sameReport other other := by simp [sameReport]
  induction diagnostics generalizing seen with
  | nil => nomatch member
  | cons first rest inductionHypothesis =>
    unfold dedupFrom
    split
    · next repeated =>
      rcases List.mem_cons.mp member with rfl | later
      · obtain ⟨kept, known, same⟩ := List.any_eq_true.mp repeated
        exact ⟨kept, .inl known, same⟩
      · exact inductionHypothesis seen later
    · rcases List.mem_cons.mp member with rfl | later
      · exact ⟨diagnostic, .inr (.head _), itself diagnostic⟩
      · obtain ⟨kept, known | stays, same⟩ := inductionHypothesis (first :: seen) later
        · rcases List.mem_cons.mp known with rfl | before
          · exact ⟨kept, .inr (.head _), same⟩
          · exact ⟨kept, .inl before, same⟩
        · exact ⟨kept, .inr (.tail _ stays), same⟩

theorem isError_of_sameReport {first second : Diagnostic} (same : sameReport first second)
    (severe : first.isError) : second.isError := by
  have sameSeverity : first.severity = second.severity := by
    simp only [sameReport, Bool.and_eq_true, decide_eq_true_eq] at same
    exact same.1.1.2
  simpa only [isError, sameSeverity] using severe

/-- Sorting and dropping repeats keeps whether there are errors. -/
theorem errorCount_dedup_sort (diagnostics : List Diagnostic) :
    0 < errorCount (dedup (sort diagnostics)) ↔ ∃ diagnostic ∈ diagnostics, diagnostic.isError := by
  unfold errorCount
  rw [List.countP_pos_iff]
  constructor
  · rintro ⟨diagnostic, member, severe⟩
    exact ⟨diagnostic, List.mem_mergeSort.mp (mem_of_mem_dedupFrom member), severe⟩
  · rintro ⟨diagnostic, member, severe⟩
    obtain ⟨kept, seen | stays, same⟩ :=
      covered_dedupFrom [] (List.mem_mergeSort.mpr member : diagnostic ∈ sort diagnostics)
    · nomatch seen
    · exact ⟨kept, stays, isError_of_sameReport same severe⟩

end Diagnostic

/-! ### Bags -/

/-- What a bag with a limit keeps of a list. -/
def keptWithin {α : Type} (limit : Int) (items : List α) : List α :=
  if limit ≤ 0 then items else items.take limit.toNat

theorem keptWithin_map {β : Type} (view : α → β) (limit : Int) (items : List α) :
    keptWithin limit (items.map view) = (keptWithin limit items).map view := by
  unfold keptWithin
  split
  · rfl
  · exact List.map_take.symm

theorem mem_of_mem_keptWithin {limit : Int} {items : List α} {item : α}
    (member : item ∈ keptWithin limit items) : item ∈ items := by
  unfold keptWithin at member
  split at member
  · exact member
  · exact List.mem_of_mem_take member

namespace Bag

theorem items_addAll_unlimited (bag : Bag) (unlimited : bag.limit ≤ 0)
    (diagnostics : List Diagnostic) :
    (bag.addAll diagnostics).items = bag.items ++ diagnostics := by
  induction diagnostics generalizing bag with
  | nil => exact (List.append_nil _).symm
  | cons diagnostic rest inductionHypothesis =>
    have room : bag.add diagnostic = { bag with items := bag.items ++ [diagnostic] } := by
      simp [add, hasRoom, unlimited]
    show ((bag.add diagnostic).addAll rest).items = _
    rw [room]
    refine (inductionHypothesis { bag with items := bag.items ++ [diagnostic] } unlimited).trans ?_
    exact List.append_assoc ..

theorem items_addAll_limited (bag : Bag) (limited : 0 < bag.limit)
    (fits : bag.items.length ≤ bag.limit.toNat) (diagnostics : List Diagnostic) :
    (bag.addAll diagnostics).items = (bag.items ++ diagnostics).take bag.limit.toNat := by
  induction diagnostics generalizing bag with
  | nil => rw [List.append_nil, List.take_of_length_le fits]; rfl
  | cons diagnostic rest inductionHypothesis =>
    show ((bag.add diagnostic).addAll rest).items = _
    by_cases full : bag.items.length = bag.limit.toNat
    · -- A full bag stays as it is; of the longer list only its own items are taken.
      have refused : bag.add diagnostic = { bag with dropped := bag.dropped + 1 } := by
        have noRoom : bag.hasRoom = false := by
          simp only [hasRoom, Bool.or_eq_false_iff, decide_eq_false_iff_not]
          omega
        simp [add, noRoom]
      rw [refused]
      refine (inductionHypothesis { bag with dropped := bag.dropped + 1 } limited fits).trans ?_
      show (bag.items ++ rest).take bag.limit.toNat = _
      rw [← full, List.take_left, List.take_left]
    · have kept : bag.add diagnostic = { bag with items := bag.items ++ [diagnostic] } := by
        have room : bag.hasRoom = true := by
          simp only [hasRoom, Bool.or_eq_true, decide_eq_true_eq]
          omega
        simp [add, room]
      have stillFits : (bag.items ++ [diagnostic]).length ≤ bag.limit.toNat := by
        rw [List.length_append, List.length_singleton]
        omega
      rw [kept]
      refine (inductionHypothesis { bag with items := bag.items ++ [diagnostic] } limited
        stillFits).trans ?_
      show ((bag.items ++ [diagnostic]) ++ rest).take bag.limit.toNat = _
      rw [List.append_assoc, List.singleton_append]

theorem limit_addAll (bag : Bag) (diagnostics : List Diagnostic) :
    (bag.addAll diagnostics).limit = bag.limit := by
  have limit_add (bag : Bag) (diagnostic : Diagnostic) : (bag.add diagnostic).limit = bag.limit := by
    unfold add
    split <;> rfl
  induction diagnostics generalizing bag with
  | nil => rfl
  | cons diagnostic rest inductionHypothesis =>
    exact (inductionHypothesis (bag.add diagnostic)).trans (limit_add bag diagnostic)

/-- An empty bag keeps the first diagnostics, as many as its limit allows. -/
theorem items_addAll_empty (limit : Int) (diagnostics : List Diagnostic) :
    (addAll { limit } diagnostics).items = keptWithin limit diagnostics := by
  unfold keptWithin
  split
  · next unlimited => exact items_addAll_unlimited { limit } unlimited diagnostics
  · next limited =>
    exact items_addAll_limited { limit } (by simpa using limited) (by simp) diagnostics

end Bag

/-! ### The sinks of a batch run -/

/-- A diagnostic as a batch run delivers it. -/
def BatchOptions.delivered (options : BatchOptions) (diagnostic : Diagnostic) : Diagnostic :=
  if options.warningsAsErrors then diagnostic.promote else diagnostic

namespace Sink

theorem reportAll_plain (bag : Bag) (diagnostics : List Diagnostic) :
    reportAll { stages := [], bag } diagnostics = { stages := [], bag := bag.addAll diagnostics } := by
  induction diagnostics generalizing bag with
  | nil => rfl
  | cons diagnostic rest inductionHypothesis => exact inductionHypothesis (bag.add diagnostic)

theorem reportAll_promote (bag : Bag) (diagnostics : List Diagnostic) :
    reportAll { stages := [.promote], bag } diagnostics =
      { stages := [.promote], bag := bag.addAll (diagnostics.map Diagnostic.promote) } := by
  induction diagnostics generalizing bag with
  | nil => rfl
  | cons diagnostic rest inductionHypothesis =>
    exact inductionHypothesis (bag.add diagnostic.promote)

theorem items_reportAll_open (diagnostics : List Diagnostic) :
    (reportAll {} diagnostics).bag.items = diagnostics := by
  rw [show ({} : Sink) = { stages := [], bag := {} } from rfl, reportAll_plain]
  exact Bag.items_addAll_empty 0 diagnostics

theorem items_reportAll_batch (options : BatchOptions) (diagnostics : List Diagnostic) :
    ((Pipeline.batchSink options).reportAll diagnostics).bag.items =
      (keptWithin options.limit diagnostics).map options.delivered := by
  unfold Pipeline.batchSink
  by_cases promoted : options.warningsAsErrors
  · have delivered : options.delivered = Diagnostic.promote := by
      funext diagnostic
      exact if_pos promoted
    rw [if_pos promoted, reportAll_promote, delivered, ← keptWithin_map]
    exact Bag.items_addAll_empty ..
  · have delivered : options.delivered = id := by
      funext diagnostic
      exact if_neg promoted
    rw [if_neg promoted, reportAll_plain, delivered, List.map_id]
    exact Bag.items_addAll_empty ..

theorem quiet_open : Quiet {} := nofun

theorem quiet_batchSink (options : BatchOptions) : (Pipeline.batchSink options).Quiet := by
  intro stage member
  unfold Pipeline.batchSink at member
  dsimp only at member
  split at member
  · rw [List.mem_singleton.mp member]
    nofun
  · nomatch member

end Sink

/-! ### Sinks without errors -/

namespace Sink

/-- Everything that was reported is kept, and none of it is an error. -/
structure Spotless (sink : Sink) : Prop where
  stages : sink.stages = []
  limit : sink.bag.limit ≤ 0
  items : ∀ diagnostic ∈ sink.bag.items, ¬diagnostic.isError

/-- A sink that keeps everything has no errors if none was reported to it. -/
theorem spotless_reportAll_open (clean : ∀ diagnostic ∈ diagnostics, ¬diagnostic.isError) :
    (reportAll {} diagnostics).Spotless where
  stages := by rw [show ({} : Sink) = { stages := [], bag := {} } from rfl, reportAll_plain]
  limit := by
    rw [show ({} : Sink) = { stages := [], bag := {} } from rfl, reportAll_plain]
    exact Int.le_of_eq (Bag.limit_addAll {} diagnostics)
  items := by
    rw [items_reportAll_open]
    exact clean

/-- A sink without errors had none before the last report, which was none either. -/
theorem Spotless.of_report {sink : Sink} (spotless : (sink.report diagnostic).1.Spotless) :
    sink.Spotless ∧ ¬diagnostic.isError := by
  obtain ⟨stages, bag⟩ := sink
  cases stages with
  | nil =>
    have added : (report ⟨[], bag⟩ diagnostic).1 = ⟨[], bag.add diagnostic⟩ := rfl
    rw [added] at spotless
    have limit : bag.limit ≤ 0 := Bag.limit_addAll bag [diagnostic] ▸ spotless.limit
    have items : (bag.add diagnostic).items = bag.items ++ [diagnostic] := by
      simp [Bag.add, Bag.hasRoom, limit]
    have clean := spotless.items
    simp only [items, List.mem_append, List.mem_singleton] at clean
    exact ⟨⟨rfl, limit, fun other member => clean other (.inl member)⟩, clean diagnostic (.inr rfl)⟩
  | cons stage rest =>
    have never : (reportThrough (stage :: rest).length (stage :: rest) bag diagnostic).1.stages ≠
        [] := by
      cases stage with
      | dedup seen =>
        simp only [List.length_cons, reportThrough]
        split <;> simp [behind]
      | twice =>
        simp only [List.length_cons, reportThrough]
        split <;> simp [behind]
      | _ => simp [List.length_cons, reportThrough, behind]
    exact absurd spotless.stages never

/-- A sink without errors had none before the last reports, and none of these was one. -/
theorem Spotless.of_reportAll {sink : Sink} (spotless : (sink.reportAll diagnostics).Spotless) :
    sink.Spotless ∧ ∀ diagnostic ∈ diagnostics, ¬diagnostic.isError := by
  induction diagnostics generalizing sink with
  | nil => exact ⟨spotless, fun _ member => nomatch member⟩
  | cons first rest inductionHypothesis =>
    obtain ⟨between, clean⟩ := inductionHypothesis spotless
    obtain ⟨before, isClean⟩ := Spotless.of_report between
    exact ⟨before, List.forall_mem_cons.mpr ⟨isClean, clean⟩⟩

end Sink

/-- Behind a report of an error a sink has an error. -/
theorem AnalysisM.not_spotless_of_error (severe : diagnostic.isError)
    (ran : report diagnostic before = .ok () after) : ¬after.sink.Spotless := by
  intro clean
  obtain rfl := report_eq_ok ran
  exact (Sink.Spotless.of_report clean).2 severe

/-- A sink that has no errors behind an action had none in front of it. -/
theorem Acts.spotless {allowed : (Analysis → Analysis) → Prop} {action : AnalysisM α}
    (acts : Acts allowed action) (free : ∀ change, allowed change → SinkFree change) {value : α}
    (ran : action before = .ok value after) (clean : after.sink.Spotless) :
    before.sink.Spotless := by
  refine ActsOver.leads (fun before after : Analysis => after.sink.Spotless → before.sink.Spotless)
    (fun _ clean => clean) (fun first second clean => first (second clean))
    (fun change permitted state clean => ?_) (fun _ _ clean => (Sink.Spotless.of_report clean).1)
    (fun inner => inner) (fun givesUp _ _ _ ran => absurd ran givesUp.not_ok) acts ran clean
  have sink : (change (state.withSink state.sink)).sink = state.sink := by
    rw [free change permitted]
    rfl
  exact sink ▸ clean

end TreeCheck
