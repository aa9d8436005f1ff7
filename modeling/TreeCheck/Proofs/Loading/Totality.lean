/-
A load ends by itself. With a finite supply of units there is always room for the ones
that are still to come, so the fuel of a load never runs out and any larger amount gives
the same; and what is left that a load can crash at is a gap in one of the units.
-/

import TreeCheck.Doc.Codec
import TreeCheck.Proofs.Loading.Registering

namespace TreeCheck

open LoadM

/-! ### Fuel plays no part -/

namespace LoadM

variable {supply : Supply} {known : String → Prop} {fuel fuel' : Nat} {α β : Type}

/-- Two actions do the same as long as there is room for either amount of fuel. -/
def Agree (supply : Supply) (known : String → Prop) (fuel fuel' : Nat) (action action' : LoadM α) :
    Prop :=
  ∀ loader : Loader, loader.source = supply.source → loader.Room known fuel →
    loader.Room known fuel' → action loader = action' loader

namespace Agree

theorem refl (action : LoadM α) : Agree supply known fuel fuel' action action := fun _ _ _ _ => rfl

theorem bind {action action' : LoadM α} {next next' : α → LoadM β} {gives : α → Loader → Prop}
    (first : Agree supply known fuel fuel' action action')
    (adds : Adds supply known True fuel (fun _ => True) action gives)
    (second : ∀ value, Agree supply known fuel fuel' (next value) (next' value)) :
    Agree supply known fuel fuel' (action >>= next) (action' >>= next') := by
  intro loader fixed room room'
  have same := first loader fixed room room'
  have grows := adds.grows loader fixed trivial
  cases ran : action loader with
  | error fault middle => rw [run_bind_error next ran, run_bind_error next' (same.symm.trans ran)]
  | ok value middle =>
    rw [ran] at grows
    rw [run_bind_ok next ran, run_bind_ok next' (same.symm.trans ran)]
    exact second value middle (grows.source.trans fixed) (room.grows grows) (room'.grows grows)

theorem read {next next' : Loader → LoadM β}
    (each : ∀ loader, loader.source = supply.source → loader.Room known fuel →
      loader.Room known fuel' → next loader loader = next' loader loader) :
    Agree supply known fuel fuel' (get >>= next) (get >>= next') :=
  each

end Agree

end LoadM

namespace Build

variable {supply : Supply} {known : String → Prop} {fuel fuel' : Nat}

theorem agree_appendEach {α : Type} {build build' : α → LoadM DeclId}
    (builds : ∀ item, Agree supply known fuel fuel' (build item) (build' item))
    (adds : ∀ item, Adds supply known True fuel (fun _ => True) (build item) fun _ _ => True)
    (unit : UnitId) (append : DeclId → ProgramUnit → ProgramUnit) (items : List (Option α)) :
    Agree supply known fuel fuel' (appendEach unit build append items)
      (appendEach unit build' append items) := by
  induction items with
  | nil => exact .refl _
  | cons item rest inductionHypothesis =>
    cases item with
    | none => exact .refl _
    | some item =>
      exact (builds item).bind (adds item) fun id =>
        (Agree.refl _).bind (.modifyUnit (fun _ _ _ held => held) unit _) fun _ =>
          inductionHypothesis

theorem agree_importOf (bounded : supply.Bounded known True)
    (builds : ∀ isImported unit, supply.Offers unit →
      Agree supply known fuel fuel' (Build.unit fuel supply.byPath isImported unit)
        (Build.unit fuel' supply.byPath isImported unit))
    (place : BuildPlace) (item : Doc.Import) :
    Agree supply known fuel fuel' (importOf fuel supply.byPath place item)
      (importOf fuel' supply.byPath place item) := by
  have built (unit : Doc.Unit) (offered : supply.Offers unit) :
      Agree supply known fuel fuel'
        (Build.unit fuel supply.byPath true unit >>= fun id =>
          Pure.pure (some id) >>= importDecl place item)
        (Build.unit fuel' supply.byPath true unit >>= fun id =>
          Pure.pure (some id) >>= importDecl place item) :=
    (builds true unit offered).bind
      (adds_unit bounded fuel true unit (bounded.known unit offered) fun _ => trivial)
      fun id => .refl _
  unfold importOf
  refine .read fun loader fixed room room' => ?_
  cases loader.unit? (Text.Path.clean item.path) with
  | some id => rfl
  | none =>
    cases inside : supply.byPath.lookup (Text.Path.clean item.path) with
    | some unit => exact built unit (.inl ⟨_, inside⟩) loader fixed room room'
    | none =>
      have noted : loader.Grows known { loader with asked := loader.asked.push item.path } :=
        ⟨rfl, [], rfl, rfl, rfl, .nil, nofun⟩
      have asks : ask item.path loader = .ok (loader.source.find item.path)
          { loader with asked := loader.asked.push item.path } := rfl
      dsimp only
      rw [run_bind_ok _ asks, run_bind_ok _ asks]
      cases asked : loader.source.find item.path with
      | error message => rfl
      | ok answer =>
        cases answer with
        | none => rfl
        | some unit =>
          exact built unit (.inr ⟨item.path, fixed ▸ asked⟩) _ fixed (room.grows noted)
            (room'.grows noted)

theorem agree_unit (bounded : supply.Bounded known True) (fuel fuel' : Nat) (isImported : Bool)
    (item : Doc.Unit) (isKnown : known (Text.Path.clean item.path)) :
    Agree supply known fuel fuel' (Build.unit fuel supply.byPath isImported item)
      (Build.unit fuel' supply.byPath isImported item) := by
  induction fuel generalizing fuel' isImported item with
  | zero =>
    intro loader _ room _
    obtain ⟨id, registered⟩ := Option.ne_none_iff_exists'.mp (room.registered isKnown)
    rw [unit_of_registered registered, unit_of_registered registered]
  | succ fuel inductionHypothesis =>
    intro loader fixed room room'
    cases registered : loader.unit? (Text.Path.clean item.path) with
    | some id => rw [unit_of_registered registered, unit_of_registered registered]
    | none =>
      cases fuel' with
      | zero => exact absurd registered (room'.registered isKnown)
      | succ fuel' =>
        have builds (isImported : Bool) (unit : Doc.Unit) (offered : supply.Offers unit) :=
          inductionHypothesis fuel' isImported unit (bounded.known unit offered)
        have importing (place : BuildPlace) (item : Doc.Import) :
            Adds supply known True fuel (fun _ => True) (importOf fuel supply.byPath place item)
              fun _ _ => True :=
          adds_importOf (fun _ _ _ held => held) (fun isImported unit offered =>
            adds_unit bounded fuel isImported unit (bounded.known unit offered) fun _ => trivial)
            place item
        have grows (flags : FileFlags) := Loader.grows_registerUnit isKnown registered flags
        have taken (flags : FileFlags) := Loader.unit?_registerUnit item.path flags loader
        rw [unit_succ registered, unit_succ registered, run_bind_ok _ (Loader.run_registerUnit ..),
          run_bind_ok _ (Loader.run_registerUnit ..)]
        -- the imports are where fuel is used
        exact Agree.bind (agree_appendEach (agree_importOf bounded builds _) (importing _) _ _ _)
          (adds_appendEach (fun _ _ _ held => held) (fun _ => false)
            (fun item _ => importing _ item) _ _ _ fun _ => trivial)
          (fun _ => .refl _) _ ((grows _).source.trans fixed)
          (room.takes (grows _) isKnown registered (by rw [taken]; nofun))
          (room'.takes (grows _) isKnown registered (by rw [taken]; nofun))

end Build

/-! ### What a load can come across -/

/-- A source answers only with units of a list, and no chain it promises is shorter than that. -/
structure ImportSource.AnswersFrom (source : ImportSource) (outside : List Doc.Unit) : Prop where
  among : ∀ path unit, source.find path = .ok (some unit) → unit ∈ outside
  bounded : outside.length ≤ source.bound

namespace Loader

/-- The units of a document and all that there are outside. -/
def withinReach (document : Doc.Document) (outside : List Doc.Unit) : List Doc.Unit :=
  document.units.filterMap id ++ outside

/-- The cleaned paths of the units within reach. -/
def pathsWithinReach (document : Doc.Document) (outside : List Doc.Unit) : List String :=
  (withinReach document outside).map fun unit => Text.Path.clean unit.path

variable {document : Doc.Document} {outside : List Doc.Unit} {root : Doc.Unit}
  {others : List (Option Doc.Unit)} {loader : Loader}

theorem of_lookup_unitsByPath {path : String} {unit : Doc.Unit}
    (found : (unitsByPath others).lookup path = some unit) :
    some unit ∈ others ∧ Text.Path.clean unit.path = path := by
  have member : (path, unit) ∈ unitsByPath others := by
    obtain ⟨before, after, isList, _⟩ := List.lookup_eq_some_iff.mp found
    rw [isList]
    exact List.mem_append_right _ (.head _)
  rw [unitsByPath, List.mem_reverse, List.mem_filterMap] at member
  obtain ⟨other, isOther, same⟩ := member
  obtain ⟨unit', rfl, pair⟩ := Option.map_eq_some_iff.mp same
  cases pair
  exact ⟨isOther, rfl⟩

/-- What a load is supplied with. -/
def supply (loader : Loader) (others : List (Option Doc.Unit)) : Supply :=
  ⟨loader.source, unitsByPath others⟩

theorem withinReach_of_offers (isRoot : document.units = some root :: others)
    (finite : loader.source.AnswersFrom outside) {unit : Doc.Unit}
    (offered : (loader.supply others).Offers unit) : unit ∈ withinReach document outside := by
  rw [withinReach, List.mem_append, List.mem_filterMap]
  obtain ⟨path, inside⟩ | ⟨path, answered⟩ := offered
  · refine .inl ⟨some unit, ?_, rfl⟩
    rw [isRoot]
    exact .tail _ (of_lookup_unitsByPath inside).1
  · exact .inr (finite.among path unit answered)

/-- All gaps that a load can come across are gaps of the units within reach. -/
theorem bounded_supply (isRoot : document.units = some root :: others)
    (finite : loader.source.AnswersFrom outside) :
    (loader.supply others).Bounded (· ∈ pathsWithinReach document outside)
      (∃ unit ∈ withinReach document outside, unit.gap) where
  known _ offered := List.mem_map_of_mem (withinReach_of_offers isRoot finite offered)
  gap unit offered missing := ⟨unit, withinReach_of_offers isRoot finite offered, missing⟩

theorem root_mem_withinReach (isRoot : document.units = some root :: others) :
    root ∈ withinReach document outside := by
  rw [withinReach, isRoot]
  exact List.mem_append_left _ (List.mem_filterMap.mpr ⟨_, .head _, rfl⟩)

/-- The fuel of a load is enough for every unit within reach. -/
theorem room_unitBound (finite : loader.source.AnswersFrom outside) :
    loader.Room (· ∈ pathsWithinReach document outside) (loader.unitBound document.units.length) := by
  refine ⟨pathsWithinReach document outside, fun _ => id, ?_⟩
  have bounded := finite.bounded
  have inside : (document.units.filterMap id).length ≤ document.units.length :=
    List.length_filterMap_le ..
  calc (loader.free (pathsWithinReach document outside)).length
      ≤ (pathsWithinReach document outside).length := List.length_filter_le ..
    _ = (document.units.filterMap id).length + outside.length := by
      rw [pathsWithinReach, List.length_map, withinReach, List.length_append]
    _ ≤ loader.unitBound document.units.length := by
      rw [unitBound]
      omega

theorem load_eq (isRoot : document.units = some root :: others) (loader : Loader) :
    load document loader = Build.unit (loader.unitBound document.units.length) (unitsByPath others)
      false root loader := by
  rw [load, isRoot]
  rfl

/-! ### Loading is total -/

theorem exists_root {form : Doc.WireForm} {bytes : List UInt8}
    (accepted : Doc.Document.decode form bytes = .ok document) :
    ∃ root others, document.units = some root :: others := by
  unfold Doc.Document.decode at accepted
  cases read : Doc.decodeRecord .document form bytes with
  | error fault =>
    rw [read] at accepted
    nomatch accepted
  | ok datum =>
    rw [read] at accepted
    dsimp only [bind, Except.bind] at accepted
    split at accepted
    · nomatch accepted
    · split at accepted
      · next root others isRoot =>
        cases accepted
        exact ⟨root, others, isRoot⟩
      · nomatch accepted

/-- A document that was accepted is loaded, or refused for a fault that has a place: as long as
imports lead to finitely many units, and no list has a gap in one of them. -/
theorem gapless_document_loads_or_is_refused {form : Doc.WireForm} {bytes : List UInt8}
    (accepted : Doc.Document.decode form bytes = .ok document) (loader : Loader)
    (finite : loader.source.AnswersFrom outside)
    (gapless : ∀ unit ∈ withinReach document outside, unit.gap = false) :
    (∃ root after, load document loader = .ok root after) ∨
      ∃ fault left, load document loader = .error fault left ∧ fault.IsReported := by
  obtain ⟨root, others, isRoot⟩ := exists_root accepted
  have rootInside : root ∈ withinReach document outside := root_mem_withinReach isRoot
  have adds := Build.adds_unit (bounded_supply isRoot finite)
    (loader.unitBound document.units.length) false root (List.mem_map_of_mem rootInside)
    fun missing => ⟨root, rootInside, missing⟩
  cases loaded : load document loader with
  | ok root after => exact .inl ⟨root, after, rfl⟩
  | error fault left =>
    rw [load_eq isRoot] at loaded
    obtain isReported | ⟨unit, inside, missing⟩ :=
      adds.reported loader fault left rfl trivial (room_unitBound finite) loaded
    · exact .inr ⟨fault, left, rfl, isReported⟩
    · rw [gapless unit inside] at missing
      nomatch missing

/-- Two units, each of which imports the other; the second also a unit from outside. -/
def importCircle : List UInt8 :=
  Text.Utf8.encode ("\x7b\"version\":1,\"units\":[\x7b\"path\":\"a.sb\",\"imports\":[\x7b\"path\":\"./b.sb\"\x7d]\x7d," ++
    "\x7b\"path\":\"b.sb\",\"imports\":[\x7b\"path\":\"a.sb\"\x7d,\x7b\"path\":\"c.sb\"\x7d]\x7d]\x7d")

/-- The unit from outside, which imports itself. -/
def selfImport : Doc.Unit := { path := "c.sb", imports := [some { path := "c.sb" }] }

def selfImportSource : ImportSource where
  find path := .ok (if path = "c.sb" then some selfImport else none)
  bound := 1

theorem answersFrom_selfImport : selfImportSource.AnswersFrom [selfImport] where
  among path unit answered := by
    have same := Except.ok.inj answered
    split at same
    · exact List.mem_singleton.mpr (Option.some.inj same).symm
    · nomatch same
  bounded := Nat.le_refl 1

theorem gapless_document_loads_or_is_refused_importCircle :
    ∃ document, Doc.Document.decode .json importCircle = .ok document ∧
      ((∃ root after, load document { source := selfImportSource } = .ok root after) ∨
        ∃ fault left, load document { source := selfImportSource } = .error fault left ∧
          fault.IsReported) := by
  have whole : (Doc.Document.decode .json importCircle).toOption.any (fun document =>
      (withinReach document [selfImport]).all fun unit => !unit.gap) = true := by decide +kernel
  cases decoded : Doc.Document.decode .json importCircle with
  | error fault =>
    rw [decoded] at whole
    nomatch whole
  | ok document =>
    rw [decoded] at whole
    refine ⟨document, rfl, gapless_document_loads_or_is_refused decoded _ answersFrom_selfImport
      fun unit inside => ?_⟩
    simpa using List.all_eq_true.mp whole unit inside

end Loader

end TreeCheck
