/-
Whatever a class that is not abstract has by way of methods has a body, if the rules find no
errors. A candidate is found in the nearest class that binds its signature. If it has no
body, that class is abstract, or else it is at fault; and then no class nearer than it says
anything of the signature, so it was left without a body on the way down, and the class that
is not abstract is at fault.
-/

import TreeCheck.Proofs.Rules.Exactness
import TreeCheck.Proofs.Scoping.Membership

namespace TreeCheck

variable {tree : Tree} {loose : List Node}

open Lexical (classesOf)

variable {base id method : DeclId} {loader : Loader} {root : UnitId} {checked : Bool} {sink' : Sink}
  {trace trace' : Trace.Recorder} {resolved typed : Analysis}

/-! ### Chains of classes -/

namespace Lineage

variable {bases : Std.TreeMap DeclId DeclId} {id : DeclId} {chain : List DeclId}

/-- Every class of a chain is the base of one before it. -/
theorem exists_derived (lineage : Lineage bases id chain) (member : base ∈ chain) :
    ∃ owner ∈ id :: chain, bases[owner]? = some base := by
  induction lineage with
  | root none => nomatch member
  | @step id next rest some _ inductionHypothesis =>
    rcases List.mem_cons.mp member with rfl | later
    · exact ⟨id, .head _, some⟩
    · obtain ⟨owner, inside, isBase⟩ := inductionHypothesis later
      exact ⟨owner, .tail _ inside, isBase⟩

end Lineage

namespace Resolution

variable {names : Resolution}

/-- Every ancestor of a class is the base of the class or of another ancestor. -/
theorem Rooted.exists_derived (rooted : names.Rooted tree) (member : base ∈ names.ancestors id) :
    ∃ owner ∈ id :: names.ancestors id, names.bases[owner]? = some base := by
  obtain ⟨chain, lineage⟩ := rooted.lineage id
  rw [lineage.ancestors_eq] at member ⊢
  exact lineage.exists_derived member

theorem Rooted.kindOf?_ancestor (rooted : names.Rooted tree) (member : base ∈ names.ancestors id) :
    tree.kindOf? base = some .classDecl := by
  obtain ⟨owner, -, isBase⟩ := rooted.exists_derived member
  obtain ⟨_, _, _, _, -, -, -, -, -, isClass⟩ := rooted.written owner base isBase
  exact isClass

theorem Rooted.kindOf?_of_lineage (rooted : names.Rooted tree) {chain : List DeclId}
    (lineage : Lineage names.bases id chain) (member : base ∈ chain) :
    tree.kindOf? base = some .classDecl :=
  rooted.kindOf?_ancestor (lineage.ancestors_eq ▸ member)

/-! ### Candidates -/

/-- A callable that is kept stands before all others of its key. -/
theorem mem_firstOfKey {seen : List Key} {callables : List DeclId}
    (member : id ∈ names.firstOfKey seen callables) :
    names.keys.getD id ⟨""⟩ ∉ seen ∧ ∃ front back, callables = front ++ id :: back ∧
      ∀ other ∈ front, names.keys.getD other ⟨""⟩ ≠ names.keys.getD id ⟨""⟩ := by
  induction callables generalizing seen with
  | nil => cases member
  | cons first rest inductionHypothesis =>
    unfold firstOfKey at member
    dsimp only at member
    split at member
    · next old =>
      obtain ⟨fresh, front, back, split, apart⟩ := inductionHypothesis member
      refine ⟨fresh, first :: front, back, by rw [split]; rfl, fun other among => ?_⟩
      rcases List.mem_cons.mp among with rfl | later
      · exact fun same => fresh (same ▸ old)
      · exact apart other later
    · next new =>
      rcases List.mem_cons.mp member with rfl | later
      · exact ⟨new, [], rest, rfl, by rintro _ ⟨⟩⟩
      · obtain ⟨fresh, front, back, split, apart⟩ := inductionHypothesis later
        refine ⟨fun old => fresh (.tail _ old), first :: front, back,
          by rw [split]; rfl, fun other among => ?_⟩
        rcases List.mem_cons.mp among with rfl | later
        · exact fun same => fresh (same ▸ .head _)
        · exact apart other later

/-- What is at a place of joined lists is in one of them, and what is before it too. -/
theorem flatMap_eq_append_cons {levels : List DeclId} {each : DeclId → List DeclId}
    {front back : List DeclId} (split : levels.flatMap each = front ++ id :: back) :
    ∃ near level far, levels = near ++ level :: far ∧ id ∈ each level ∧
      ∀ other ∈ near, each other ⊆ front := by
  induction levels generalizing front with
  | nil => simp at split
  | cons level rest inductionHypothesis =>
    rw [List.flatMap_cons, List.append_eq_append_iff] at split
    rcases split with ⟨further, rfl, split⟩ | ⟨further, isLevel, split⟩
    · obtain ⟨near, level', far, rfl, isHere, before⟩ := inductionHypothesis split
      refine ⟨level :: near, level', far, rfl, isHere, fun other among => ?_⟩
      rcases List.mem_cons.mp among with rfl | later
      · exact List.subset_append_left _ _
      · exact fun decl member => List.mem_append_right _ (before other later member)
    · cases further with
      | nil =>
        have split : rest.flatMap each = [] ++ id :: back := split.symm
        obtain ⟨near, level', far, rfl, isHere, before⟩ := inductionHypothesis split
        refine ⟨level :: near, level', far, rfl, isHere, fun other among => ?_⟩
        rcases List.mem_cons.mp among with rfl | later
        · rw [isLevel, List.append_nil]
          exact .refl _
        · exact fun decl member => nomatch (before other later member)
      | cons first later =>
        cases split
        exact ⟨[], level, rest, rfl, by simp [isLevel], fun _ among => nomatch among⟩

end Resolution

namespace Rules

/-! ### What is reported of the classes of a program -/

/-- Where a program was resolved and checked, the walk of the rules comes to its end and reports the
same whatever the sink is, and everything that is wrong with a class of it is reported. -/
theorem findings_reported (loaded : loader.Reached) {sink : Sink} {span : Nat}
    (resolves : Resolve.program loader.tree root checked { sink, trace } = .ok () resolved)
    (checks : TypeCheck.program loader.tree span { resolved with sink := sink', trace := trace' } =
      .ok () typed) (parent : Nat) :
    ∃ reports : List Diagnostic,
      (∀ (sink : Sink) (trace : Trace.Recorder), sink.Quiet → ∃ final,
        program loader.tree parent { typed with sink, trace } = .ok () final ∧
          final.sink = sink.reportAll reports) ∧
      ∀ owner, typed.names.Processed loader.tree owner →
        classFindings loader.tree typed.names owner ⊆ reports := by
  obtain ⟨-, hold⟩ := Resolve.units_program loaded.forest resolves
  have names : typed.names = resolved.names := (TypeCheck.names_program checks).trans rfl
  rw [← names] at hold
  obtain ⟨reports, delivers, covers⟩ :=
    @covers_program loader.tree [] typed loaded.forest loaded.bare parent hold
  refine ⟨reports, fun sink trace quiet => ?_, fun owner processed => ?_⟩
  · obtain ⟨final, ends, -, reported⟩ := delivers { typed with sink, trace } ⟨rfl, rfl⟩ quiet
    exact ⟨final, ends, reported⟩
  · obtain ⟨unit, done, isClass⟩ := processed
    obtain ⟨body, isUnit⟩ := Option.isSome_iff_exists.mp (hold unit done)
    refine covers unit done body isUnit owner ?_
    rw [classesOf, isUnit] at isClass
    exact isClass

/-- What is known of names when a program was resolved is known when it was checked. -/
theorem names_checked (loaded : loader.Reached) {sink : Sink} {span : Nat}
    (resolves : Resolve.program loader.tree root checked { sink, trace } = .ok () resolved)
    (checks : TypeCheck.program loader.tree span { resolved with sink := sink', trace := trace' } =
      .ok () typed) : typed.names.Members loader.tree ∧ typed.names.Rooted loader.tree := by
  have names : typed.names = resolved.names := (TypeCheck.names_program checks).trans rfl
  rw [names]
  exact ⟨Resolve.members_program loaded.forest resolves,
    Resolve.rooted_program loaded.forest resolves⟩

/-! ### Signatures that are left without a body -/

variable {names : Resolution}

/-- Where a class says one thing only of a signature, and no nearer class says anything, that is the
last that is said. -/
theorem mostDerived?_eq_some {near far : List DeclId} {level : DeclId} {key : Key}
    (said : (key, method) ∈ mentions tree names [level])
    (only : ∀ other, (key, other) ∈ mentions tree names [level] → other = method)
    (absent : ∀ other, (key, other) ∉ mentions tree names near) :
    mostDerived? (mentions tree names (far ++ level :: near)) key = some method := by
  have split : mentions tree names (far ++ level :: near) =
      mentions tree names far ++ (mentions tree names [level] ++ mentions tree names near) := by
    rw [List.append_cons]
    simp only [mentions, List.flatMap_append, List.append_assoc]
  have silent : (mentions tree names near).reverse.lookup key = none := by
    refine lookup_eq_none_iff_notMem.mpr fun member => ?_
    obtain ⟨⟨_, other⟩, among, rfl⟩ := List.mem_map.mp member
    exact absent other (List.mem_reverse.mp among)
  have here : (mentions tree names [level]).reverse.lookup key = some method := by
    obtain ⟨other, found⟩ := Option.isSome_iff_exists.mp (isSome_lookup_iff_mem.mpr
      (List.mem_map_of_mem (f := Prod.fst) (List.mem_reverse.mpr said)))
    obtain ⟨front, back, same, -⟩ := List.lookup_eq_some_iff.mp found
    rw [found, only other (List.mem_reverse.mp (by simp [same]))]
  rw [mostDerived?, split, List.reverse_append, List.reverse_append, List.lookup_append,
    List.lookup_append, silent, here]
  rfl

/-- Where nothing is wrong with any class, the methods that a class has that is not abstract have
bodies. -/
theorem hasBody_of_mem_methodCandidates (forest : tree.Forest loose) (members : names.Members tree)
    (rooted : names.Rooted tree)
    (clean : ∀ owner, names.Processed tree owner → classFindings tree names owner = [])
    {owner : DeclId} (isClass : tree.kindOf? owner = some .classDecl)
    (isConcrete : (modsOf tree owner).has .isAbstract = false) {name : String}
    (candidate : method ∈ names.methodCandidates owner name)
    (isMethod : tree.kindOf? method = some .method) : hasBody tree method = true := by
  by_contra bodiless
  rw [Bool.not_eq_true] at bodiless
  obtain ⟨-, front, back, split, apart⟩ := Resolution.mem_firstOfKey candidate
  obtain ⟨near, level, far, isChain, isLocal, nearer⟩ := Resolution.flatMap_eq_append_cons split
  obtain ⟨key, isSignature, isName, held⟩ := (members.overloads level name method).mp isLocal
  -- The candidate is a method of a class of the chain, under its key.
  have isLevel : tree.kindOf? level = some .classDecl := by
    have inside : level ∈ owner :: names.ancestors owner := by simp [isChain]
    rcases List.mem_cons.mp inside with rfl | isAncestor
    · exact isClass
    · exact rooted.kindOf?_ancestor isAncestor
  have processed := members.processed level key method isLevel held
  have isMember := members.mem_methodsOf forest isLevel isMethod held
  have isKey := (members.findIn?_eq_some forest isMember).mpr held
  have there : (tree.decls.get? method).isSome := by
    obtain ⟨decl, found, -⟩ := Option.map_eq_some_iff.mp isMethod
    rw [found]
    rfl
  have nothing {owner : DeclId} {code : Code} (processed : names.Processed tree owner) :
      ¬ ∃ diagnostic ∈ classFindings tree names owner, diagnostic.code = code := by
    rw [clean owner processed]
    simp
  -- Without a body it can only stand in an abstract class.
  have isAbstract : (modsOf tree level).has .isAbstract = true := by
    by_contra concrete
    rw [Bool.not_eq_true] at concrete
    exact nothing processed (finds_bodiless isLevel concrete isMember there bodiless)
  have said : (key, method) ∈ mentions tree names [level] := mem_mentions.mpr
    ⟨level, .head _, isMember, by rw [isAbstract, Bool.or_true], isKey⟩
  have only (other : DeclId) (said' : (key, other) ∈ mentions tree names [level]) :
      other = method := by
    obtain ⟨level', isLevel', member, -, isKey'⟩ := mem_mentions.mp said'
    obtain rfl := List.mem_singleton.mp isLevel'
    exact Option.some.inj (((members.findIn?_eq_some forest member).mp isKey').symm.trans held)
  -- A nearer method of the same signature would be the candidate instead.
  have absent (other : DeclId) : (key, other) ∉ mentions tree names near.reverse := by
    intro said'
    obtain ⟨level', isNear, member, -, isKey'⟩ := mem_mentions.mp said'
    have isLocal' : other ∈ names.scopes.localOverloads (names.scopeOf level') name :=
      (members.overloads level' name other).mpr
        ⟨key, isSignature, isName, (members.findIn?_eq_some forest member).mp isKey'⟩
    refine apart other (nearer level' (List.mem_reverse.mp isNear) isLocal') ?_
    rw [Std.TreeMap.getD_eq_getD_getElem?, Std.TreeMap.getD_eq_getD_getElem?, isKey', isKey]
  -- So its signature was left without a body.
  obtain ⟨keys, missing⟩ := exists_missing tree names owner
  have isMissing : key ∈ keys := by
    refine (missing.exact key).mpr ⟨method, ?_, bodiless⟩
    have chain : chainOf names owner = far.reverse ++ level :: near.reverse := by
      rw [chainOf, ← List.reverse_cons, isChain]
      simp
    rw [chain]
    exact mostDerived?_eq_some said only absent
  have processed' : names.Processed tree owner := by
    cases near with
    | nil =>
      cases isChain
      exact processed
    | cons first rest =>
      obtain ⟨-, isRest⟩ := List.cons.inj isChain
      have inside : level ∈ names.ancestors owner := by simp [isRest]
      cases isBase : names.bases[owner]? with
      | some base => exact members.derived owner base isBase
      | none =>
        have nobody : names.ancestors owner = [] := (Lineage.root isBase).ancestors_eq
        rw [nobody] at inside
        nomatch inside
  refine nothing processed' (finds_incomplete isClass isConcrete ?_)
  rw [missing.listed]
  exact fun none => List.ne_nil_of_mem isMissing (List.map_eq_nil_iff.mp none)

/-! ### Programs -/

/-- Of a program that was resolved and checked, the signatures that any class does not implement are
those whose most derived method has no body; and where the rules report no error, every method that
a class has that is not abstract has a body. -/
theorem abstract_methods_implemented {loader : Loader} (loaded : loader.Reached) {root : UnitId}
    {checked : Bool} {sink sink' : Sink} {trace trace' : Trace.Recorder} {resolved typed : Analysis}
    {span : Nat}
    (resolves : Resolve.program loader.tree root checked { sink, trace } = .ok () resolved)
    (checks : TypeCheck.program loader.tree span { resolved with sink := sink', trace := trace' } =
      .ok () typed)
    (parent : Nat) :
    (∀ owner, ∃ keys, Missing loader.tree typed.names owner keys) ∧
    ∃ reports : List Diagnostic,
      (∀ (sink : Sink) (trace : Trace.Recorder), sink.Quiet → ∃ final,
        program loader.tree parent { typed with sink, trace } = .ok () final ∧
          final.sink = sink.reportAll reports) ∧
      ((∀ diagnostic ∈ reports, ¬ diagnostic.isError) → ∀ owner,
        loader.tree.kindOf? owner = some .classDecl →
          (modsOf loader.tree owner).has .isAbstract = false → ∀ name,
            ∀ method ∈ typed.names.methodCandidates owner name,
              loader.tree.kindOf? method = some .method → hasBody loader.tree method = true) := by
  refine ⟨exists_missing loader.tree typed.names, ?_⟩
  obtain ⟨reports, runs, covers⟩ := findings_reported loaded resolves checks parent
  refine ⟨reports, runs, fun spotless owner isClass isConcrete name method candidate isMethod => ?_⟩
  have forest := loaded.forest
  obtain ⟨members, rooted⟩ := names_checked loaded resolves checks
  have clean (owner : DeclId) (processed : typed.names.Processed loader.tree owner) :
      classFindings loader.tree typed.names owner = [] := by
    refine List.eq_nil_iff_forall_not_mem.mpr fun diagnostic isFound => ?_
    have isError := (isError_classFindings (processed.kindOf? forest) diagnostic isFound).1
    exact spotless diagnostic (covers owner processed isFound) isError
  exact hasBody_of_mem_methodCandidates forest members rooted clean isClass isConcrete candidate
    isMethod

/-- An abstract class with a method without a body, and a class that implements it. -/
def abstractPair : Loader :=
  let document : Doc.Document :=
    { version := 1
      units := [some
        { path := "a"
          classes :=
            [some { name := "A", mods := ["abstract"],
                    methods := [some { name := "f", noBody := true }] },
              some { name := "B", base := some { kind := "named", name := "A" },
                     methods := [some { name := "f" }] }] }] }
  Loader.behind (Loader.load document {})

/-- The program when it was resolved. -/
def abstractPairResolved : Analysis := Acts.behind (Resolve.program abstractPair.tree 1 true {})

/-- The program when it was checked. -/
def abstractPairTyped : Analysis :=
  Acts.behind (TypeCheck.program abstractPair.tree 0 abstractPairResolved)

theorem abstractPair_runs :
    Acts.ended (Resolve.program abstractPair.tree 1 true {}) ∧
      Acts.ended (TypeCheck.program abstractPair.tree 0 abstractPairResolved) ∧
      (Acts.behind (program abstractPair.tree 0
        { abstractPairTyped with sink := {}, trace := {} })).sink.bag.items.map Diagnostic.code = [] ∧
      abstractPair.tree.kindOf? 4 = some .classDecl ∧
      (modsOf abstractPair.tree 4).has .isAbstract = false ∧
      abstractPair.tree.kindOf? 3 = some .method ∧
      abstractPairTyped.names.methodCandidates 4 "f" = [3] := by
  simp only [abstractPairTyped, abstractPairResolved, abstractPair, Loader.load_eq_loadWithin]
  decide +kernel

theorem abstractPair_resolves :
    Resolve.program abstractPair.tree 1 true {} = .ok () abstractPairResolved :=
  Acts.eq_ok_behind abstractPair_runs.1

theorem abstractPair_checks :
    TypeCheck.program abstractPair.tree 0 abstractPairResolved = .ok () abstractPairTyped :=
  Acts.eq_ok_behind abstractPair_runs.2.1

theorem abstract_methods_implemented_abstractPair :
    (∃ keys, Missing abstractPair.tree abstractPairTyped.names 2 keys) ∧
      abstractPairTyped.names.methodCandidates 4 "f" = [3] ∧ hasBody abstractPair.tree 3 = true := by
  have loaded : abstractPair.Reached := .load _ (.fresh {})
  obtain ⟨missing, reports, runs, hasBodies⟩ :=
    abstract_methods_implemented loaded abstractPair_resolves abstractPair_checks 0
  obtain ⟨final, ends, reported⟩ := runs {} {} Sink.quiet_open
  obtain ⟨-, -, noCodes, isClass, isConcrete, isMethod, candidates⟩ := abstractPair_runs
  have silent : reports = [] := by
    rw [← Sink.items_reportAll_open reports, ← reported,
      show final = Acts.behind (.ok () final) from rfl, ← ends]
    exact List.map_eq_nil_iff.mp noCodes
  refine ⟨missing 2, candidates, ?_⟩
  refine hasBodies (by simp [silent]) 4 isClass isConcrete "f" 3 ?_ isMethod
  rw [candidates]
  exact .head _

end Rules

end TreeCheck
