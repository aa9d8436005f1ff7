/-
Which callables a name may mean, in programs and in sessions. In a resolved program everything is
held under the key that is recorded for it. In a session this need not be so: what was bound stays
bound when its submission fails, and bound again, perhaps under another key, has the last key recorded
alone. Short of that, what the scopes hold and what is recorded agree at any point.
-/

import TreeCheck.Proofs.Pipeline.Integrity
import TreeCheck.Proofs.Scoping.Candidates
import TreeCheck.Proofs.Scoping.Keying

namespace TreeCheck

/-- At any point of a session what scopes hold has a recorded key. -/
theorem Session.Reached.keyed {loader : Loader} {session : Session} (reached : Reached loader session) :
    session.analysis.names.Keyed := by
  induction reached with
  | start =>
    rintro decl ⟨id, scope, found, -⟩
    exact absurd found ScopeTable.absent_empty
  | @submit loader session item reached inductionHypothesis =>
    have touches := touches_anywhere reached.loaded.forest item
    exact (submit_restores touches reached.valid_and_closed.1).1.keyed inductionHypothesis
  | drain _ inductionHypothesis => exact inductionHypothesis
  | load _ _ inductionHypothesis => exact inductionHypothesis
  | newUnit _ _ inductionHypothesis => exact inductionHypothesis
  | addTopLevel _ _ _ inductionHypothesis => exact inductionHypothesis

/-- Whatever operations a table comes about through, the callables that are visible under a name
are those that look-ups of its signatures find; they can be listed for every scope as long as
only scopes are attached that are there. In a resolved program, and at any point of a session where
no declaration is held under two keys, the methods of a name that a class has are those of the nearest
class that binds their signatures, and a call may mean the visible callables and, behind them, the
methods of bases whose signatures are not among those. -/
theorem candidates_are_found (loader : Loader) :
    (∀ (attachable : ScopeTable → ScopeId → ScopeId → Prop) (table : ScopeTable),
      table.Operated attachable → ∀ id name callables,
        table.overloads? id name = some callables →
          ∃ entries, table.Gathers id name entries ∧ entries.map Prod.snd = callables) ∧
    (∀ table : ScopeTable, table.Operated ScopeTable.Known →
      ∀ id name, id = 0 ∨ (table.get? id).isSome → (table.overloads? id name).isSome) ∧
    (∀ (root : UnitId) (checked : Bool) (typing : Typing) (trace : Trace.Recorder) (sink : Sink)
      (after : Analysis), loader.Reached →
      Resolve.program loader.tree root checked { typing, trace, sink } = .ok () after →
      after.names.FindsCandidates) ∧
    ∀ session : Session, Session.Reached loader session →
      session.analysis.names.HeldOnce → session.analysis.names.FindsCandidates := by
  refine ⟨fun attachable table operated id name callables gathered => ?_,
    fun table operated id name known => ?_,
    fun root checked typing trace sink after loaded ran => ?_, fun session reached once => ?_⟩
  · obtain ⟨scopes, visible, -⟩ := Option.map_eq_some_iff.mp gathered
    have sound (scope : Scope) (member : scope ∈ scopes) : scope.Sound := by
      obtain ⟨home, found⟩ := ScopeTable.get?_of_visible? visible member
      exact operated.sound found
    obtain ⟨candidates, listed⟩ := ScopeTable.candidates_of_visible? visible sound name
    exact ⟨_, ⟨scopes, visible, candidates⟩, Option.some.inj (listed.symm.trans gathered)⟩
  · obtain ⟨_, _, _, _, _, _, _, _, _, _, visible⟩ := operated.anchored.walks_end known
    rw [ScopeTable.overloads?, visible]
    rfl
  · have held : after.names.HeldUnderKeys := (Resolve.recorded_program loaded.forest ran).keys
    exact held.findsCandidates (Resolve.valid_program loaded.forest ran).table.toSound
  · obtain ⟨valid, -⟩ := reached.valid_and_closed
    exact ((reached.keyed.heldUnderKeys_iff valid).mpr once).findsCandidates valid.table.toSound

/-- A class that overrides one of the two methods of its base, and a function that the method
hides. -/
def overriding : Loader :=
  let document : Doc.Document :=
    { version := 1
      units := [some
        { path := "a"
          classes :=
            [some { name := "A", methods := [some { name := "f" }, some { name := "g" }] },
              some { name := "B", base := some { kind := "named", name := "A" },
                     methods := [some { name := "f" }] }]
          functions := [some { name := "f" }] }] }
  Loader.behind (Loader.load document {})

/-- The program when it was resolved. -/
def overridingResolved : Analysis := Acts.behind (Resolve.program overriding.tree 1 true {})

theorem overriding_runs :
    Acts.ended (Resolve.program overriding.tree 1 true {}) ∧
      overridingResolved.names.ancestors 5 = [3] ∧
      overridingResolved.names.methodCandidates 5 "f" = [4] ∧
      (overridingResolved.names.scopes.get? (overridingResolved.names.scopeOf 5)).isSome ∧
      overridingResolved.names.callCandidates (overridingResolved.names.scopeOf 5) (some 5) "g" =
        [2] := by
  simp only [overridingResolved, overriding, Loader.load_eq_loadWithin]
  decide +kernel

/-- A function with a parameter of a class. -/
def retrying : Loader :=
  let document : Doc.Document :=
    { version := 1
      units := [some
        { path := "a"
          classes := [some { name := "A" }]
          functions := [some
            { name := "f"
              params := [some { name := "x", type := some { kind := "named", name := "A" } }] }] }] }
  Loader.behind (Loader.load document {})

/-- The session in which the function was submitted, which failed, and then the class. -/
def retryingOnce : Session :=
  ((((Session.start .full 1 {} false {} 0).submit retrying.tree (.decl 3)).1).submit retrying.tree
    (.decl 1)).1

/-- The session in which the function was submitted again. -/
def retryingTwice : Session := (retryingOnce.submit retrying.tree (.decl 3)).1

theorem retrying_reached : Session.Reached retrying retryingOnce :=
  .submit _ (.submit _ (.start (.load _ (.fresh {})) .full 1 {} false {} 0))

theorem retrying_runs :
    (∀ id < 4, ∀ scope ∈ retryingOnce.analysis.names.scopes.get? id, ∀ entry ∈ scope.entries,
      retryingOnce.analysis.names.keys[entry.2]? = some entry.1) ∧
    retryingOnce.analysis.names.scopes.scopes.size = 3 ∧
    ((retryingOnce.analysis.names.scopes.get? 1).isSome ∧
      retryingOnce.analysis.names.callCandidates 1 none "f" = [3]) ∧
    (retryingTwice.analysis.names.scopes.get? 1).isSome ∧
    retryingTwice.analysis.names.scopes.overloads? 1 "f" = some [3, 3] ∧
    retryingTwice.analysis.names.callCandidates 1 none "f" = [3] := by
  simp only [retryingTwice, retryingOnce, retrying, Loader.load_eq_loadWithin]
  decide +kernel

theorem retryingOnce_heldOnce : retryingOnce.analysis.names.HeldOnce := by
  obtain ⟨held, size, -⟩ := retrying_runs
  refine (retrying_reached.keyed.heldUnderKeys_iff retrying_reached.valid_and_closed.1).mp
    fun id scope found entry member => held id ?_ scope found entry member
  exact Nat.lt_succ_of_le (size ▸ (ScopeTable.le_size found).2)

/-- The method of the nearest class is the candidate, a call may mean the other method of the
base, and one function in a table is found from there. A function that failed is found in the
session; submitted again it is held under two keys, and one of the two is lost. -/
theorem candidates_are_found_overriding :
    (∃ entries, overridingResolved.names.Gathers [5, 3] "f" [] entries ∧
      entries.map Prod.snd = [4]) ∧
    (∃ seen added, overridingResolved.names.scopes.Gathers (overridingResolved.names.scopeOf 5)
        "g" seen ∧
      overridingResolved.names.Gathers [3] "g" (seen.map Prod.fst) added ∧
      (seen ++ added).map Prod.snd = [2]) ∧
    (∃ table : ScopeTable, table.Operated ScopeTable.Known ∧ (table.overloads? 1 "f").isSome ∧
      ∃ entries, table.Gathers 1 "f" entries ∧ entries.map Prod.snd = [9]) ∧
    (∃ seen added, retryingOnce.analysis.names.scopes.Gathers 1 "f" seen ∧
      (seen ++ added).map Prod.snd = [3]) ∧
    ¬retryingTwice.analysis.names.FindsCandidates := by
  obtain ⟨ends, bases, methods, known, calls⟩ := overriding_runs
  obtain ⟨ofTables, total, ofPrograms, -⟩ := candidates_are_found overriding
  have found := ofPrograms 1 true {} {} {} overridingResolved
    (.load _ (.fresh {})) (Acts.eq_ok_behind ends)
  refine ⟨?_, ?_, ?_, ?_, fun lost => ?_⟩
  · obtain ⟨entries, gathers, listed⟩ := found.methods 5 "f"
    exact ⟨entries, bases ▸ gathers, listed.trans methods⟩
  · obtain ⟨seen, added, gathers, -, inherits, listed⟩ :=
      found.calls (overridingResolved.names.scopeOf 5) (some 5) "g" (.inr known)
    rw [Resolution.inheriting, bases] at inherits
    exact ⟨seen, added, gathers, inherits, listed.trans calls⟩
  · have empty : ScopeTable.Operated ScopeTable.Known {} := .empty
    have operated := (empty.step (.newRoot _ 1 {})).step
      (@ScopeTable.Operation.bindIn ScopeTable.Known _ _ 1 (.ofSignature "f" []) 9 rfl)
    exact ⟨_, operated, total _ operated 1 "f" (.inr rfl), ofTables _ _ operated 1 "f" [9] rfl⟩
  · obtain ⟨-, -, ⟨known, calls⟩, -⟩ := retrying_runs
    obtain ⟨seen, added, gathers, -, -, listed⟩ :=
      ((candidates_are_found retrying).2.2.2 retryingOnce retrying_reached
        retryingOnce_heldOnce).calls 1 none "f" (.inr known)
    exact ⟨seen, added, gathers, listed.trans calls⟩
  · obtain ⟨-, -, -, known, visible, calls⟩ := retrying_runs
    obtain ⟨seen, added, -, isVisible, -, listed⟩ := lost.calls 1 none "f" (.inr known)
    have isSeen : seen.map Prod.snd = [3, 3] := Option.some.inj (isVisible.symm.trans visible)
    rw [List.map_append, isSeen, calls] at listed
    simp at listed

end TreeCheck
