/-
What the rules on classes say. `classFindings` lists what is wrong with a class: a base that
is final or has template parameters, a final method that is overridden, a method without a
body in a class that is not abstract, and signatures that were left without a body. Which
these are depends on the last mention of a signature on the way from the outermost base down
to the class, and they are listed in the order in which they were first left without a body.
-/

import Mathlib.Data.List.Induction
import TreeCheck.Proofs.Scoping.Tables
import TreeCheck.Rules.Classes

namespace TreeCheck.Rules

/-! ### Findings -/

/-- The codes of what may be wrong with a class. -/
def classCodes : List Code :=
  [.finalBase, .templatedBase, .finalOverride, .bodilessConcrete, .abstractIncomplete]

/-- What is wrong with the base of a class. -/
def baseFindings (tree : Tree) (id : DeclId) (decl : Decl) (base : DeclId) : List Diagnostic :=
  match tree.decls.get? base with
  | none => []
  | some baseDecl =>
    (if baseDecl.mods.has .isFinal then
      [((Diagnostic.error .finalBase decl.span [tree.nameOf base, tree.nameOf id]).withHint
        .removeFinal [tree.nameOf base]).withNote baseDecl.span "declared final here"]
    else []) ++
    (if !baseDecl.typeParams.isEmpty then
      [Diagnostic.error .templatedBase decl.span [tree.nameOf base, tree.nameOf id]]
    else [])

/-- What is wrong with what a method overrides. -/
def overrideFindings (tree : Tree) (names : Resolution) (owner method : DeclId) (decl : Decl) :
    List Diagnostic :=
  match (names.overridden? method owner).bind tree.decls.get? with
  | none => []
  | some inherited =>
    if inherited.mods.has .isFinal then
      [(Diagnostic.error .finalOverride decl.span
        [tree.nameOf method, (inherited.owner.map tree.nameOf).getD ""]).withNote inherited.span
          "final method declared here"]
    else []

/-- What is wrong with a method of a class. -/
def methodFindings (tree : Tree) (names : Resolution) (owner : DeclId) (isAbstract : Bool)
    (method : DeclId) : List Diagnostic :=
  match tree.decls.get? method with
  | none => []
  | some decl =>
    overrideFindings tree names owner method decl ++
    (if !hasBody tree method ∧ !isAbstract then
      [Diagnostic.error .bodilessConcrete decl.span [tree.nameOf method, tree.nameOf owner]]
    else [])

/-- What is wrong with what a class does not implement. -/
def missingFindings (tree : Tree) (names : Resolution) (id : DeclId) (decl : Decl) :
    List Diagnostic :=
  match unimplemented tree names id with
  | [] => []
  | missing =>
    [(Diagnostic.error .abstractIncomplete decl.span
      [tree.nameOf id, Text.join ", " missing]).withHint .implement
        [Text.join ", " missing, tree.nameOf id]]

/-- What is wrong with the header of a class and its methods. -/
def classFindings (tree : Tree) (names : Resolution) (id : DeclId) : List Diagnostic :=
  match tree.decls.get? id, tree.classBody? id with
  | some decl, some body =>
    names.bases[id]?.toList.flatMap (baseFindings tree id decl) ++
    body.methods.flatMap (methodFindings tree names id (decl.mods.has .isAbstract)) ++
    if !decl.mods.has .isAbstract then missingFindings tree names id decl else []
  | _, _ => []

section

variable {tree : Tree} {names : Resolution} {id base method : DeclId}

theorem mem_classFindings (isClass : tree.kindOf? id = some .classDecl) {diagnostic : Diagnostic} :
    diagnostic ∈ classFindings tree names id ↔ ∃ decl, tree.decls.get? id = some decl ∧
      ((∃ base, names.bases[id]? = some base ∧ diagnostic ∈ baseFindings tree id decl base) ∨
        (∃ method ∈ tree.methodsOf id,
          diagnostic ∈ methodFindings tree names id (decl.mods.has .isAbstract) method) ∨
        decl.mods.has .isAbstract = false ∧ diagnostic ∈ missingFindings tree names id decl) := by
  obtain ⟨decl, found, isKind⟩ := Option.map_eq_some_iff.mp isClass
  obtain ⟨body, isForm⟩ := decl.form_of_classDecl isKind
  have isBody := Tree.classBody?_eq_some.mpr ⟨decl, found, isForm⟩
  rw [Tree.methodsOf_eq isBody]
  cases isAbstract : decl.mods.has .isAbstract <;>
    simp [classFindings, found, isBody, isAbstract]

/-- All that is found is an error. -/
theorem isError_classFindings (isClass : tree.kindOf? id = some .classDecl) :
    ∀ diagnostic ∈ classFindings tree names id,
      diagnostic.isError ∧ diagnostic.code ∈ classCodes := by
  intro diagnostic member
  have severe {diagnostic : Diagnostic} (code : Code) (isError : diagnostic.isError)
      (isCode : diagnostic.code = code) (listed : code ∈ classCodes) :
      diagnostic.isError ∧ diagnostic.code ∈ classCodes := ⟨isError, isCode ▸ listed⟩
  obtain ⟨decl, -, ⟨base, -, found⟩ | ⟨method, -, found⟩ | ⟨-, found⟩⟩ :=
    (mem_classFindings isClass).mp member
  · unfold baseFindings at found
    split at found
    · nomatch found
    · simp only [List.mem_append, List.mem_ite_nil_right, List.mem_singleton] at found
      rcases found with ⟨-, rfl⟩ | ⟨-, rfl⟩
      · exact severe .finalBase rfl rfl (by decide)
      · exact severe .templatedBase rfl rfl (by decide)
  · unfold methodFindings at found
    split at found
    · nomatch found
    · rcases List.mem_append.mp found with overrides | bodiless
      · unfold overrideFindings at overrides
        split at overrides
        · nomatch overrides
        · simp only [List.mem_ite_nil_right, List.mem_singleton] at overrides
          obtain ⟨-, rfl⟩ := overrides
          exact severe .finalOverride rfl rfl (by decide)
      · simp only [List.mem_ite_nil_right, List.mem_singleton] at bodiless
        obtain ⟨-, rfl⟩ := bodiless
        exact severe .bodilessConcrete rfl rfl (by decide)
  · unfold missingFindings at found
    split at found
    · nomatch found
    · obtain rfl := List.mem_singleton.mp found
      exact severe .abstractIncomplete rfl rfl (by decide)

/-! ### What is found -/

theorem modsOf_eq {decl : Decl} (found : tree.decls.get? id = some decl) :
    modsOf tree id = decl.mods := by
  rw [modsOf, found]
  rfl

/-- A declaration that is final is there. -/
theorem exists_of_isFinal (isFinal : (modsOf tree id).has .isFinal) :
    ∃ decl, tree.decls.get? id = some decl ∧ decl.mods.has .isFinal := by
  cases found : tree.decls.get? id with
  | none => simp [modsOf, found, Modifiers.has, Modifiers.none, Modifiers.isFinal] at isFinal
  | some decl => exact ⟨decl, rfl, modsOf_eq found ▸ isFinal⟩

section

variable (isClass : tree.kindOf? id = some .classDecl)

include isClass

theorem finds_finalBase (isBase : names.bases[id]? = some base)
    (isFinal : (modsOf tree base).has .isFinal) :
    ∃ diagnostic ∈ classFindings tree names id, diagnostic.code = .finalBase := by
  obtain ⟨decl, found, -⟩ := Option.map_eq_some_iff.mp isClass
  obtain ⟨baseDecl, found', isFinal⟩ := exists_of_isFinal isFinal
  have finding : ∃ diagnostic ∈ baseFindings tree id decl base, diagnostic.code = .finalBase := by
    simp [baseFindings, found', isFinal, Diagnostic.withNote, Diagnostic.withHint, Diagnostic.error]
  obtain ⟨diagnostic, isFound, isCode⟩ := finding
  exact ⟨diagnostic, (mem_classFindings isClass).mpr ⟨decl, found, .inl ⟨base, isBase, isFound⟩⟩,
    isCode⟩

theorem finds_templatedBase (isBase : names.bases[id]? = some base)
    {param : DeclId} (templated : param ∈ tree.typeParamsOf base) :
    ∃ decl, tree.decls.get? id = some decl ∧
      Diagnostic.error .templatedBase decl.span [tree.nameOf base, tree.nameOf id] ∈
        classFindings tree names id := by
  obtain ⟨decl, found, -⟩ := Option.map_eq_some_iff.mp isClass
  refine ⟨decl, found, (mem_classFindings isClass).mpr ⟨decl, found, .inl ⟨base, isBase, ?_⟩⟩⟩
  unfold Tree.typeParamsOf at templated
  unfold baseFindings
  cases found' : tree.decls.get? base with
  | none => simp [found'] at templated
  | some baseDecl =>
    rw [found'] at templated
    have templated := List.ne_nil_of_mem templated
    simp [templated]

theorem finds_finalOverride (member : method ∈ tree.methodsOf id)
    (there : (tree.decls.get? method).isSome) {inherited : DeclId}
    (overrides : names.overridden? method id = some inherited)
    (isFinal : (modsOf tree inherited).has .isFinal) :
    ∃ diagnostic ∈ classFindings tree names id, diagnostic.code = .finalOverride := by
  obtain ⟨decl, found, -⟩ := Option.map_eq_some_iff.mp isClass
  obtain ⟨methodDecl, found'⟩ := Option.isSome_iff_exists.mp there
  obtain ⟨inheritedDecl, found'', isFinal⟩ := exists_of_isFinal isFinal
  have finding : ∃ diagnostic ∈ methodFindings tree names id (decl.mods.has .isAbstract) method,
      diagnostic.code = .finalOverride := by
    simp [methodFindings, found', overrideFindings, overrides, found'', isFinal,
      Diagnostic.withNote, Diagnostic.error]
  obtain ⟨diagnostic, isFound, isCode⟩ := finding
  exact ⟨diagnostic, (mem_classFindings isClass).mpr
    ⟨decl, found, .inr (.inl ⟨method, member, isFound⟩)⟩, isCode⟩

theorem finds_bodiless (isConcrete : (modsOf tree id).has .isAbstract = false)
    (member : method ∈ tree.methodsOf id) (there : (tree.decls.get? method).isSome)
    (bodiless : hasBody tree method = false) :
    ∃ diagnostic ∈ classFindings tree names id, diagnostic.code = .bodilessConcrete := by
  obtain ⟨decl, found, -⟩ := Option.map_eq_some_iff.mp isClass
  obtain ⟨methodDecl, found'⟩ := Option.isSome_iff_exists.mp there
  rw [modsOf_eq found] at isConcrete
  have finding : ∃ diagnostic ∈ methodFindings tree names id (decl.mods.has .isAbstract) method,
      diagnostic.code = .bodilessConcrete := by
    simp [methodFindings, found', bodiless, isConcrete, Diagnostic.error]
  obtain ⟨diagnostic, isFound, isCode⟩ := finding
  exact ⟨diagnostic, (mem_classFindings isClass).mpr
    ⟨decl, found, .inr (.inl ⟨method, member, isFound⟩)⟩, isCode⟩

theorem finds_incomplete (isConcrete : (modsOf tree id).has .isAbstract = false)
    (missing : unimplemented tree names id ≠ []) :
    ∃ diagnostic ∈ classFindings tree names id, diagnostic.code = .abstractIncomplete := by
  obtain ⟨decl, found, -⟩ := Option.map_eq_some_iff.mp isClass
  rw [modsOf_eq found] at isConcrete
  have finding : ∃ diagnostic ∈ missingFindings tree names id decl,
      diagnostic.code = .abstractIncomplete := by
    unfold missingFindings
    split
    · contradiction
    · exact ⟨_, .head _, rfl⟩
  obtain ⟨diagnostic, isFound, isCode⟩ := finding
  exact ⟨diagnostic, (mem_classFindings isClass).mpr
    ⟨decl, found, .inr (.inr ⟨isConcrete, isFound⟩)⟩, isCode⟩

end

end

/-! ### Obligations -/

section

variable (tree : Tree) (names : Resolution)

/-- What a chain of classes says of signatures, outermost class first: the methods with a body, and
those without one in abstract classes, each with its key. -/
def mentions (levels : List DeclId) : List (Key × DeclId) :=
  levels.flatMap fun level => (tree.methodsOf level).filterMap fun method =>
    if hasBody tree method || (modsOf tree level).has .isAbstract then
      names.keys[method]?.map fun key => (key, method)
    else none

/-- The last method that is mentioned for a signature. -/
def mostDerived? (said : List (Key × DeclId)) (key : Key) : Option DeclId :=
  said.reverse.lookup key

/-- The signatures that are mentioned without a body. -/
def openings (said : List (Key × DeclId)) : List Key :=
  (said.filter fun (_, method) => !hasBody tree method).map Prod.fst

/-- Whether a signature was left without a body. -/
def leavesOpen (said : List (Key × DeclId)) (key : Key) : Bool :=
  (mostDerived? said key).any fun method => !hasBody tree method

/-- A class and its bases, outermost first. -/
def chainOf (id : DeclId) : List DeclId := (names.ancestors id).reverse ++ [id]

/-- What a mention does to the obligations. -/
def meet (obligations : Obligations) (said : Key × DeclId) : Obligations :=
  if hasBody tree said.2 then obligations.settle said.1 false
  else if obligations.any (·.1 = said.1) then obligations.settle said.1 true
  else obligations ++ [(said.1, true)]

end

variable {tree : Tree} {names : Resolution}

theorem foldl_oblige (levels : List DeclId) :
    levels.foldl
      (fun obligations level =>
        let methods := ((tree.classBody? level).map ClassBody.methods).getD []
        methods.foldl (oblige tree names ((modsOf tree level).has .isAbstract)) obligations) [] =
      (mentions tree names levels).foldl (meet tree) [] := by
  rw [mentions, List.foldl_flatMap]
  congr 1
  funext obligations level
  rw [List.foldl_filterMap]
  show (tree.methodsOf level).foldl _ _ = _
  congr 1
  funext obligations method
  unfold oblige meet
  cases names.keys[method]? with
  | none => simp
  | some key =>
    cases body : hasBody tree method <;> cases (modsOf tree level).has .isAbstract <;> simp [body]

theorem nodup_eraseDups (keys : List Key) : keys.eraseDups.Nodup := by
  induction keys using List.reverseRecOn with
  | nil => exact List.nodup_nil
  | append_singleton keys key inductionHypothesis =>
    rw [eraseDups_concat]
    split
    · rwa [List.append_nil]
    · next absent =>
      refine List.nodup_append.mpr ⟨inductionHypothesis, List.nodup_singleton _, ?_⟩
      rintro other member _ isKey rfl
      obtain rfl := List.mem_singleton.mp isKey
      exact absent (List.mem_eraseDups.mp member)

theorem leavesOpen_concat (said : List (Key × DeclId)) (key : Key) (method : DeclId) (other : Key) :
    leavesOpen tree (said ++ [(key, method)]) other =
      if other = key then !hasBody tree method else leavesOpen tree said other := by
  unfold leavesOpen mostDerived?
  rw [List.reverse_concat, List.lookup_cons]
  by_cases same : other = key
  · simp [same]
  · have different : (other == key) = false := by simpa using same
    rw [different, if_neg same]

/-- The obligations are the signatures that were mentioned without a body, in order of the first
such mention, and each says whether it still is without one. -/
theorem foldl_meet (said : List (Key × DeclId)) :
    said.foldl (meet tree) [] =
      (openings tree said).eraseDups.map fun key => (key, leavesOpen tree said key) := by
  induction said using List.reverseRecOn with
  | nil => rfl
  | append_singleton said entry inductionHypothesis =>
    obtain ⟨key, method⟩ := entry
    have settled (isOpen : Bool) (same : isOpen = !hasBody tree method) :
        (Obligations.settle key isOpen
          ((openings tree said).eraseDups.map fun key => (key, leavesOpen tree said key))) =
        (openings tree said).eraseDups.map fun other =>
          (other, leavesOpen tree (said ++ [(key, method)]) other) := by
      rw [Obligations.settle, List.map_map]
      refine List.map_congr_left fun other _ => ?_
      rw [leavesOpen_concat, same]
      by_cases here : other = key <;> simp [here]
    rw [List.foldl_concat, inductionHypothesis]
    unfold meet
    dsimp only
    cases body : hasBody tree method with
    | true =>
      have same : openings tree (said ++ [(key, method)]) = openings tree said := by
        simp [openings, List.filter_append, body]
      rw [same, if_pos rfl]
      exact settled false (by rw [body]; rfl)
    | false =>
      have more : openings tree (said ++ [(key, method)]) = openings tree said ++ [key] := by
        simp [openings, List.filter_append, body]
      have isListed : (((openings tree said).eraseDups.map fun key =>
          (key, leavesOpen tree said key)).any (·.1 = key)) = decide (key ∈ openings tree said) := by
        rw [Bool.eq_iff_iff]
        simp [List.mem_eraseDups]
      rw [more, eraseDups_concat, List.map_append, if_neg Bool.false_ne_true, isListed]
      by_cases member : key ∈ openings tree said
      · rw [if_pos (decide_eq_true member), if_pos member]
        simpa using settled true (by rw [body]; rfl)
      · have absent : key ∉ (openings tree said).eraseDups := fun again =>
          member (List.mem_eraseDups.mp again)
        have others : (openings tree said).eraseDups.map (fun other =>
            (other, leavesOpen tree (said ++ [(key, method)]) other)) =
            (openings tree said).eraseDups.map fun other => (other, leavesOpen tree said other) := by
          refine List.map_congr_left fun other among => ?_
          rw [leavesOpen_concat, if_neg (by rintro rfl; exact absent among)]
        rw [decide_eq_false member, if_neg Bool.false_ne_true, if_neg member, others,
          List.map_singleton, leavesOpen_concat, if_pos rfl, body]
        rfl

theorem mem_mentions {levels : List DeclId} {key : Key} {method : DeclId} :
    (key, method) ∈ mentions tree names levels ↔ ∃ level ∈ levels, method ∈ tree.methodsOf level ∧
      (hasBody tree method || (modsOf tree level).has .isAbstract) = true ∧
        names.keys[method]? = some key := by
  simp only [mentions, List.mem_flatMap, List.mem_filterMap]
  refine exists_congr fun level => and_congr_right fun _ => ?_
  constructor
  · rintro ⟨other, member, isSaid⟩
    split at isSaid
    · next said =>
      obtain ⟨_, isKey, same⟩ := Option.map_eq_some_iff.mp isSaid
      cases same
      exact ⟨member, said, isKey⟩
    · nomatch isSaid
  · rintro ⟨member, said, isKey⟩
    exact ⟨method, member, by rw [if_pos said, isKey]; rfl⟩

/-- A signature that was left without a body was mentioned without one. -/
theorem mem_openings_of_leavesOpen {said : List (Key × DeclId)} {key : Key}
    (isOpen : leavesOpen tree said key) : key ∈ openings tree said := by
  obtain ⟨method, last, bodiless⟩ := (Option.any_eq_true _ _).mp isOpen
  obtain ⟨front, back, same, -⟩ := List.lookup_eq_some_iff.mp last
  refine List.mem_map.mpr ⟨(key, method), List.mem_filter.mpr ⟨?_, bodiless⟩, rfl⟩
  exact List.mem_reverse.mp (by simp [same])

/-- The signatures that a class does not implement: those whose last mention on the way down to it
is without a body, each once, in the order in which they were first mentioned without one. -/
structure Missing (tree : Tree) (names : Resolution) (id : DeclId) (keys : List Key) : Prop where
  listed : unimplemented tree names id = keys.map Key.name
  once : keys.Nodup
  inOrder : keys.Sublist (openings tree (mentions tree names (chainOf names id))).eraseDups
  exact : ∀ key, key ∈ keys ↔ ∃ method,
    mostDerived? (mentions tree names (chainOf names id)) key = some method ∧
      hasBody tree method = false

theorem exists_missing (tree : Tree) (names : Resolution) (id : DeclId) :
    ∃ keys, Missing tree names id keys := by
  have inOrder := List.filter_sublist (p := leavesOpen tree (mentions tree names (chainOf names id)))
    (l := (openings tree (mentions tree names (chainOf names id))).eraseDups)
  refine ⟨_, ?_, (nodup_eraseDups _).sublist inOrder, inOrder, fun key => ?_⟩
  · show List.map _ (List.filter Prod.snd (List.foldl _ _ (chainOf names id))) = _
    rw [foldl_oblige, foldl_meet, List.filter_map, List.map_map]
    rfl
  · rw [List.mem_filter, List.mem_eraseDups]
    constructor
    · rintro ⟨-, isOpen⟩
      obtain ⟨method, last, bodiless⟩ := (Option.any_eq_true _ _).mp isOpen
      exact ⟨method, last, by simpa using bodiless⟩
    · rintro ⟨method, last, bodiless⟩
      have isOpen : leavesOpen tree (mentions tree names (chainOf names id)) key := by
        rw [leavesOpen, last, Option.any_some, bodiless]
        rfl
      exact ⟨mem_openings_of_leavesOpen isOpen, isOpen⟩

end TreeCheck.Rules
