/-
Finality reaches through chains of classes, though the rules look at the nearest class only.
Every ancestor of a class is the base of some class, so none is final if no base is. The
nearest ancestor that binds the signature of a method binds it to a method that is not
final, and so on from there; a field in its place would have been inherited by a nearer
class. Only a template parameter that is spelled like the signature can stand in between,
and then the rules report its class as a base.
-/

import TreeCheck.Proofs.Rules.Completeness

namespace TreeCheck

variable {tree : Tree} {loose : List Node}
variable {base owner : DeclId} {chain : List DeclId}

/-! ### Chains of classes -/

namespace Lineage

variable {bases : Std.TreeMap DeclId DeclId} {id : DeclId}

/-- From a class of a chain on, the rest is its own chain, and the class is the base of the one
before it. -/
theorem split {front back : List DeclId} (lineage : Lineage bases id (front ++ base :: back)) :
    Lineage bases base back ∧ ∃ owner ∈ id :: front, bases[owner]? = some base := by
  induction front generalizing id with
  | nil =>
    cases lineage with
    | step isBase rest => exact ⟨rest, id, .head _, isBase⟩
  | cons first front inductionHypothesis =>
    cases lineage with
    | step isBase rest =>
      obtain ⟨further, owner, inside, isBase'⟩ := inductionHypothesis rest
      exact ⟨further, owner, .tail _ inside, isBase'⟩

/-- A class with others on its chain has a base. -/
theorem isSome_of_mem (lineage : Lineage bases id chain) (member : base ∈ chain) :
    (bases[id]?).isSome := by
  cases lineage with
  | root none => nomatch member
  | step isBase _ => exact Option.isSome_of_mem isBase

end Lineage

namespace Rules

variable {names : Resolution}

/-! ### Final classes and methods -/

/-- No class is found to have a final base or to override a final method. -/
def RespectsFinal (tree : Tree) (names : Resolution) : Prop :=
  ∀ owner, names.Processed tree owner → ∀ diagnostic ∈ classFindings tree names owner,
    diagnostic.code ≠ .finalBase ∧ diagnostic.code ≠ .finalOverride

theorem not_isFinal_ancestor (forest : tree.Forest loose) (members : names.Members tree)
    (rooted : names.Rooted tree) (respects : RespectsFinal tree names)
    (isAncestor : base ∈ names.ancestors owner) : (modsOf tree base).has .isFinal = false := by
  by_contra isFinal
  rw [Bool.not_eq_false] at isFinal
  obtain ⟨derived, -, isBase⟩ := rooted.exists_derived isAncestor
  have processed := members.derived derived base isBase
  obtain ⟨diagnostic, isFound, isCode⟩ :=
    finds_finalBase (processed.kindOf? forest) isBase isFinal
  exact (respects derived processed diagnostic isFound).1 isCode

/-- A class binds a key to one of its template parameters. -/
def BindsParam (tree : Tree) (names : Resolution) (key : Key) (id : DeclId) : Prop :=
  ∃ param ∈ tree.typeParamsOf id, names.findIn? id key = some param

/-- Of the classes above a method, the nearest that binds its key is below any that binds it to a
final method. It binds the key to a template parameter, or again to a method: a field would have
been taken over by the class before. -/
theorem nearest_below_final (forest : tree.Forest loose) (members : names.Members tree)
    (rooted : names.Rooted tree) (respects : RespectsFinal tree names) {key : Key}
    {method inherited : DeclId} (lineage : Lineage names.bases owner chain)
    (isClass : tree.kindOf? owner = some .classDecl) (isMethod : tree.kindOf? method = some .method)
    (held : names.findIn? owner key = some method) (isBase : base ∈ chain)
    (held' : names.findIn? base key = some inherited)
    (isFinal : (modsOf tree inherited).has .isFinal) :
    ∃ front near back, chain = front ++ near :: back ∧ base ∈ back ∧ (BindsParam tree names key near ∨
      ∃ decl, tree.kindOf? decl = some .method ∧ names.findIn? near key = some decl) := by
  obtain ⟨decl, nearest⟩ : ∃ decl, (chain.findSome? fun id => names.findIn? id key) = some decl :=
    Option.isSome_iff_exists.mp (List.findSome?_isSome_iff.mpr ⟨base, isBase, by rw [held']; rfl⟩)
  obtain ⟨front, near, back, split, isNear, free⟩ := List.findSome?_eq_some_iff.mp nearest
  have isNearClass := rooted.kindOf?_of_lineage lineage (show near ∈ chain by simp [split])
  have there : (tree.decls.get? method).isSome := by
    obtain ⟨_, found, -⟩ := Option.map_eq_some_iff.mp isMethod
    rw [found]
    rfl
  -- What it binds is what the method overrides, so it is no final method.
  have isMember := members.mem_methodsOf forest isClass isMethod held
  have overrides : names.overridden? method owner = some decl := by
    rw [Resolution.overridden?, (members.findIn?_eq_some forest isMember).mpr held,
      lineage.ancestors_eq]
    exact nearest
  have isBelow : base ∈ back := by
    rw [split] at isBase
    rcases List.mem_append.mp isBase with before | here
    · rw [free base before] at held'
      cases held'
    · rcases List.mem_cons.mp here with rfl | later
      · cases isNear.symm.trans held'
        have processed := members.processed owner key method isClass held
        obtain ⟨diagnostic, isFound, isCode⟩ :=
          finds_finalOverride isClass isMember there overrides isFinal
        exact absurd isCode (respects owner processed diagnostic isFound).2
      · exact later
  refine ⟨front, near, back, split, isBelow, ?_⟩
  rcases members.binds near key decl isNearClass isNear with isParam | isField | isNearMethod
  · exact .inl ⟨decl, isParam, isNear⟩
  · rw [split] at lineage
    obtain ⟨further, derived, isDerived, isDerived'⟩ := lineage.split
    obtain ⟨taken, isTaken, other⟩ := members.takes derived near isDerived'
      (further.isSome_of_mem isBelow) key decl isNear isField
    rcases List.mem_cons.mp isDerived with rfl | before
    · cases isTaken.symm.trans held
      exact absurd isMethod other
    · rw [free derived before] at isTaken
      cases isTaken
  · exact .inr ⟨decl, forest.kindOf?_method isNearMethod, isNear⟩

/-- Between a method and a final one that a class further up binds under the same key there is a
class that binds the key to a template parameter. -/
theorem exists_bindsParam (forest : tree.Forest loose) (members : names.Members tree)
    (rooted : names.Rooted tree) (respects : RespectsFinal tree names) {key : Key}
    {owner method base inherited : DeclId} {chain : List DeclId}
    (lineage : Lineage names.bases owner chain) (isClass : tree.kindOf? owner = some .classDecl)
    (isMethod : tree.kindOf? method = some .method) (held : names.findIn? owner key = some method)
    (isBase : base ∈ chain) (held' : names.findIn? base key = some inherited)
    (isFinal : (modsOf tree inherited).has .isFinal) :
    ∃ between ∈ chain, base ∈ names.ancestors between ∧ BindsParam tree names key between := by
  obtain ⟨front, near, back, split, isBelow, binds⟩ := nearest_below_final forest members rooted
    respects lineage isClass isMethod held isBase held' isFinal
  have further : Lineage names.bases near back := (split ▸ lineage).split.1
  rcases binds with isParam | ⟨decl, isDecl, isNear⟩
  · refine ⟨near, by simp [split], ?_, isParam⟩
    rwa [further.ancestors_eq]
  · have isNearClass := rooted.kindOf?_of_lineage lineage (show near ∈ chain by simp [split])
    obtain ⟨between, inside, above, isParam⟩ := exists_bindsParam forest members rooted respects
      further isNearClass isDecl isNear isBelow held' isFinal
    exact ⟨between, by simp [split, inside], above, isParam⟩
termination_by chain.length
decreasing_by
  rw [split, List.length_append, List.length_cons]
  omega

/-! ### Programs -/

/-- Of a program that was resolved and checked and for which the rules report neither a final base
nor that a final method is overridden, no class has a final ancestor, and no ancestor of a class binds
the key of a method of the class to a final method, unless a class in between binds the key to one of
its template parameters; then the class derived from that one is reported, for its base. -/
theorem finality_is_transitive {loader : Loader} (loaded : loader.Reached) {root : UnitId}
    {checked : Bool} {sink sink' : Sink} {trace trace' : Trace.Recorder} {resolved typed : Analysis}
    {span : Nat}
    (resolves : Resolve.program loader.tree root checked { sink, trace } = .ok () resolved)
    (checks : TypeCheck.program loader.tree span { resolved with sink := sink', trace := trace' } =
      .ok () typed)
    (parent : Nat) :
    ∃ reports : List Diagnostic,
      (∀ (sink : Sink) (trace : Trace.Recorder), sink.Quiet → ∃ final,
        program loader.tree parent { typed with sink, trace } = .ok () final ∧
          final.sink = sink.reportAll reports) ∧
      ((∀ diagnostic ∈ reports, diagnostic.code ≠ .finalBase ∧ diagnostic.code ≠ .finalOverride) →
        (∀ owner, ∀ base ∈ typed.names.ancestors owner,
          (modsOf loader.tree base).has .isFinal = false) ∧
        ∀ owner key method, loader.tree.kindOf? owner = some .classDecl →
          loader.tree.kindOf? method = some .method →
          typed.names.findIn? owner key = some method →
          ∀ base ∈ typed.names.ancestors owner, ∀ inherited,
            typed.names.findIn? base key = some inherited →
            loader.tree.kindOf? inherited = some .method →
            (modsOf loader.tree inherited).has .isFinal →
            ∃ between ∈ typed.names.ancestors owner, base ∈ typed.names.ancestors between ∧
              BindsParam loader.tree typed.names key between ∧
              ∃ derived ∈ owner :: typed.names.ancestors owner,
                typed.names.bases[derived]? = some between ∧
                ∃ decl, loader.tree.decls.get? derived = some decl ∧
                  Diagnostic.error .templatedBase decl.span
                    [loader.tree.nameOf between, loader.tree.nameOf derived] ∈ reports) := by
  have forest := loaded.forest
  obtain ⟨reports, runs, covers⟩ := findings_reported loaded resolves checks parent
  obtain ⟨members, rooted⟩ := names_checked loaded resolves checks
  refine ⟨reports, runs, fun none => ?_⟩
  have respects : RespectsFinal loader.tree typed.names :=
    fun owner processed diagnostic isFound => none diagnostic (covers owner processed isFound)
  refine ⟨fun owner base => not_isFinal_ancestor forest members rooted respects, ?_⟩
  intro owner key method isClass isMethod held base isAncestor inherited held' isInherited isFinal
  obtain ⟨chain, lineage⟩ := rooted.lineage owner
  rw [lineage.ancestors_eq] at isAncestor
  obtain ⟨between, inside, above, param, isParam, isBound⟩ := exists_bindsParam forest members
    rooted respects lineage isClass isMethod held isAncestor held' isFinal
  rw [← lineage.ancestors_eq] at inside
  refine ⟨between, inside, above, ⟨param, isParam, isBound⟩, ?_⟩
  obtain ⟨derived, onChain, isBase⟩ := rooted.exists_derived inside
  have processed := members.derived derived between isBase
  obtain ⟨decl, isDecl, isFound⟩ := finds_templatedBase (processed.kindOf? forest) isBase isParam
  exact ⟨derived, onChain, isBase, decl, isDecl, covers derived processed isFound⟩

/-- A class with a final method; a class derived from it, with a template parameter that is spelled
like the signature of the method; and a class derived from that one, with a method of the same
signature. -/
def shadowed : Loader :=
  let named (name : String) (args : List (Option Doc.TypeExpr)) : Option Doc.TypeExpr :=
    some { kind := "named", name, args }
  let document : Doc.Document :=
    { version := 1
      units := [some
        { path := "a"
          classes :=
            [some { name := "A", methods := [some { name := "f", mods := ["final"] }] },
              some { name := "B", typeParams := [some { name := "f()" }], base := named "A" [] },
              some { name := "C", base := named "B" [named "Int" []],
                     methods := [some { name := "f" }] }] }] }
  Loader.behind (Loader.load document {})

/-- The program when it was resolved. -/
def shadowedResolved : Analysis := Acts.behind (Resolve.program shadowed.tree 1 true {})

/-- The program when it was checked. -/
def shadowedTyped : Analysis := Acts.behind (TypeCheck.program shadowed.tree 0 shadowedResolved)

/-- The program when the rules were walked. -/
def shadowedRuled : Analysis := Acts.behind (program shadowed.tree 0 { shadowedTyped with sink := {} })

theorem shadowed_runs :
    Acts.ended (Resolve.program shadowed.tree 1 true {}) ∧
      Acts.ended (TypeCheck.program shadowed.tree 0 shadowedResolved) ∧
      Acts.ended (program shadowed.tree 0 { shadowedTyped with sink := {} }) ∧
      shadowedResolved.sink.bag.items.map Diagnostic.code = [] ∧
      shadowedRuled.sink.bag.items.map Diagnostic.code = [.templatedBase] := by
  simp only [shadowedRuled, shadowedTyped, shadowedResolved, shadowed, Loader.load_eq_loadWithin]
  decide +kernel

theorem shadowed_names :
    shadowedTyped.names.ancestors 6 = [3, 2] ∧ shadowedTyped.names.ancestors 2 = [] ∧
      shadowedTyped.names.bases[3]? = some 2 ∧
      shadowedTyped.names.bases[2]? = none ∧
      shadowedTyped.names.findIn? 6 (.ofSignature "f" []) = some 5 ∧
      shadowedTyped.names.findIn? 2 (.ofSignature "f" []) = some 1 := by
  simp only [shadowedTyped, shadowedResolved, shadowed, Loader.load_eq_loadWithin]
  decide +kernel

theorem shadowed_tree :
    shadowed.tree.kindOf? 6 = some .classDecl ∧ shadowed.tree.kindOf? 5 = some .method ∧
      shadowed.tree.kindOf? 1 = some .method ∧ (modsOf shadowed.tree 1).has .isFinal ∧
      shadowed.tree.nameOf 3 = "B" ∧ shadowed.tree.nameOf 6 = "C" := by
  simp only [shadowed, Loader.load_eq_loadWithin]
  decide +kernel

/-- No error is reported when the program is resolved, and neither a final base nor that a final
method is overridden when the rules are walked. Yet `C` binds the signature to a method, and `A` to a
final one. What is reported is that `C` is derived from `B`. -/
theorem finality_is_transitive_shadowed :
    shadowedResolved.sink.bag.items = [] ∧
      shadowedRuled.sink.bag.items.map Diagnostic.code = [.templatedBase] ∧
      (∀ base ∈ shadowedTyped.names.ancestors 6, (modsOf shadowed.tree base).has .isFinal = false) ∧
      (shadowedTyped.names.findIn? 6 (.ofSignature "f" []) = some 5 ∧
        2 ∈ shadowedTyped.names.ancestors 6 ∧
        shadowedTyped.names.findIn? 2 (.ofSignature "f" []) = some 1 ∧
        (modsOf shadowed.tree 1).has .isFinal) ∧
      BindsParam shadowed.tree shadowedTyped.names (.ofSignature "f" []) 3 ∧
      ∃ decl, shadowed.tree.decls.get? 6 = some decl ∧
        Diagnostic.error .templatedBase decl.span ["B", "C"] ∈ shadowedRuled.sink.bag.items := by
  have loaded : shadowed.Reached := .load _ (.fresh {})
  obtain ⟨resolves, checks, rules, silent, codes⟩ := shadowed_runs
  have checks : TypeCheck.program shadowed.tree 0 shadowedResolved = .ok () shadowedTyped :=
    Acts.eq_ok_behind checks
  have rules : program shadowed.tree 0 { shadowedTyped with sink := {} } = .ok () shadowedRuled :=
    Acts.eq_ok_behind rules
  obtain ⟨ancestors, ancestorsA, baseB, baseA, held, held'⟩ := shadowed_names
  obtain ⟨isClass, isMethod, isInherited, isFinal, nameB, nameC⟩ := shadowed_tree
  obtain ⟨reports, runs, respects⟩ :=
    finality_is_transitive loaded (Acts.eq_ok_behind resolves) checks 0
  obtain ⟨final, ends, reported⟩ := runs {} shadowedTyped.trace Sink.quiet_open
  cases rules.symm.trans ends
  have isReports : shadowedRuled.sink.bag.items = reports :=
    (congrArg (·.bag.items) reported).trans (Sink.items_reportAll_open reports)
  obtain ⟨noBase, noMethod⟩ := respects fun diagnostic member => by
    have isCode := List.mem_map_of_mem (f := Diagnostic.code) (isReports ▸ member)
    rw [codes] at isCode
    rw [List.mem_singleton.mp isCode]
    decide
  have isAncestor : 2 ∈ shadowedTyped.names.ancestors 6 := by
    rw [ancestors]
    decide
  obtain ⟨between, inside, above, isParam, derived, onChain, isBase, decl, isDecl, isReported⟩ :=
    noMethod 6 _ 5 isClass isMethod held 2 isAncestor 1 held' isInherited isFinal
  -- Only `B` has `A` above it, and only `C` is derived from `B`.
  obtain rfl : between = 3 := by
    rw [ancestors] at inside
    rcases List.mem_pair.mp inside with isB | isA
    · exact isB
    · rw [isA, ancestorsA] at above
      cases above
  obtain rfl : derived = 6 := by
    rw [ancestors] at onChain
    simp only [List.mem_cons, List.not_mem_nil, or_false] at onChain
    rcases onChain with isC | isB | isA
    · exact isC
    · rw [isB, baseB] at isBase
      cases isBase
    · rw [isA, baseA] at isBase
      cases isBase
  rw [nameB, nameC, ← isReports] at isReported
  exact ⟨List.map_eq_nil_iff.mp silent, codes, noBase 6, ⟨held, isAncestor, held', isFinal⟩,
    isParam, decl,
    isDecl, isReported⟩

end Rules

end TreeCheck
