/-
The registration of units. A load registers each unit under its cleaned path before it
builds it, and never registers a path twice, so the table of units only grows, by paths
that were free; and a unit that is built once is found from then on. The paths that can
still be registered get fewer with every unit under construction. If the units behind
imports are finitely many, there are therefore not more of them under construction
at once than the fuel allows, and how much fuel there is beyond that plays no part.
-/

import TreeCheck.Proofs.Loading.Builders
import TreeCheck.Proofs.Scoping.Tables
import TreeCheck.Proofs.Text.Paths

namespace TreeCheck

open LoadM Text.Path Loader

variable {loader : Loader} {item : Doc.Unit}

/-! ### The table of units -/

namespace Loader

/-- New units are registered one after the other, each under a known path that was free. -/
structure Grows (known : String → Prop) (before after : Loader) : Prop where
  source : after.source = before.source
  registers : ∃ added : List (String × UnitId), after.units = added ++ before.units ∧
    after.tree.units.size = before.tree.units.size + added.length ∧
    added.map Prod.snd = (List.range' before.tree.units.next added.length).reverse ∧
    (added.map Prod.fst).Nodup ∧
    ∀ path ∈ added.map Prod.fst, before.unit? path = none ∧ known path

variable {known : String → Prop} {before middle after : Loader} {path : String} {id : UnitId}

/-- A path that is registered leads to the same unit for ever. -/
theorem Grows.unit? (grows : Grows known before after) (found : before.unit? path = some id) :
    after.unit? path = some id := by
  obtain ⟨added, isAdded, _, _, _, free⟩ := grows.registers
  have notAdded : added.lookup path = none := by
    refine lookup_eq_none_iff_notMem.mpr fun member => ?_
    rw [(free path member).1] at found
    nomatch found
  rw [Loader.unit?, isAdded, List.lookup_append, notAdded, Option.none_or]
  exact found

theorem Grows.unit?_eq_none (grows : Grows known before after) (free : after.unit? path = none) :
    before.unit? path = none := by
  cases found : before.unit? path with
  | none => rfl
  | some id =>
    rw [grows.unit? found] at free
    nomatch free

theorem Grows.of_steady (steady : Steady before after) : Grows known before after :=
  ⟨steady.source, [], steady.units, congrArg Arena.size steady.nodes, rfl, .nil, nofun⟩

theorem Grows.refl (loader : Loader) : Grows known loader loader := .of_steady (.refl loader)

theorem Grows.trans (first : Grows known before middle) (second : Grows known middle after) :
    Grows known before after := by
  obtain ⟨added, isAdded, size, ids, nodup, free⟩ := first.registers
  obtain ⟨more, isMore, size', ids', nodup', free'⟩ := second.registers
  refine ⟨second.source.trans first.source, more ++ added, ?_, ?_, ?_, ?_, ?_⟩
  · rw [isMore, isAdded, List.append_assoc]
  · rw [size', size, List.length_append]
    omega
  · have next : middle.tree.units.next = before.tree.units.next + added.length := by
      simp only [Arena.next]
      omega
    rw [List.map_append, ids, ids', next, List.length_append, Nat.add_comm more.length,
      ← List.range'_append_1, List.reverse_append]
  · rw [List.map_append, List.nodup_append']
    refine ⟨nodup', nodup, fun path late early => ?_⟩
    obtain ⟨id, found⟩ := Option.isSome_iff_exists.mp (isSome_lookup_iff_mem.mpr early)
    have registered : middle.unit? path = some id := by
      rw [Loader.unit?, isAdded, List.lookup_append, found, Option.some_or]
    rw [(free' path late).1] at registered
    cases registered
  · intro path member
    rw [List.map_append, List.mem_append] at member
    obtain late | early := member
    · exact ⟨first.unit?_eq_none (free' path late).1, (free' path late).2⟩
    · exact free path early

/-- A unit is changed, but none is registered. -/
theorem grows_modifyUnit (unit : UnitId) (change : ProgramUnit → ProgramUnit) (loader : Loader) :
    Grows known loader (behind (modifyUnit unit change loader)) :=
  ⟨rfl, [], rfl, Arena.size_modify .., rfl, .nil, nofun⟩

/-- A unit that is registered under its cleaned path. -/
theorem grows_registerUnit (isKnown : known (clean path))
    (free : before.unit? (clean path) = none) (flags : FileFlags) :
    Grows known before (behind (registerUnit (clean path) flags before)) := by
  refine ⟨rfl, [(clean (clean path), before.tree.units.next)], rfl,
    Arena.size_push .., rfl, List.nodup_singleton _, fun other member => ?_⟩
  obtain rfl := List.mem_singleton.mp member
  rw [clean_clean]
  exact ⟨free, isKnown⟩

theorem run_registerUnit (path : String) (flags : FileFlags) (loader : Loader) :
    registerUnit path flags loader = .ok (loader.tree.units.next, (loader.files.add path flags).1)
      (behind (registerUnit path flags loader)) := rfl

theorem unit?_registerUnit (path : String) (flags : FileFlags) (loader : Loader) :
    (behind (registerUnit (clean path) flags loader)).unit? (clean path) =
      some loader.tree.units.next := by
  have registered : (behind (registerUnit (clean path) flags loader)).unit?
      (clean (clean path)) = some loader.tree.units.next :=
    List.lookup_cons_self
  rwa [clean_clean] at registered

/-! ### Room for more -/

/-- The paths of a list that are not registered. -/
def free (loader : Loader) (paths : List String) : List String :=
  paths.filter fun path => (loader.unit? path).isNone

/-- Not more than so many known paths are left. -/
def Room (known : String → Prop) (fuel : Nat) (loader : Loader) : Prop :=
  ∃ paths : List String, (∀ path, known path → path ∈ paths) ∧ (loader.free paths).length ≤ fuel

theorem mem_free {paths : List String} :
    path ∈ before.free paths ↔ path ∈ paths ∧ before.unit? path = none := by
  rw [free, List.mem_filter, Option.isNone_iff_eq_none]

theorem Grows.free_sublist (grows : Grows known before after) (paths : List String) :
    (after.free paths).Sublist (before.free paths) := by
  refine List.monotone_filter_right paths fun path isFree => ?_
  rw [Option.isNone_iff_eq_none] at isFree ⊢
  exact grows.unit?_eq_none isFree

variable {fuel : Nat}

theorem Room.grows (room : Room known fuel before) (grows : Grows known before after) :
    Room known fuel after := by
  obtain ⟨paths, listed, few⟩ := room
  exact ⟨paths, listed, Nat.le_trans (grows.free_sublist paths).length_le few⟩

/-- Without room every known path is registered. -/
theorem Room.registered (room : Room known 0 before) (isKnown : known path) :
    before.unit? path ≠ none := by
  obtain ⟨paths, listed, few⟩ := room
  intro isFree
  have member := mem_free.mpr ⟨listed path isKnown, isFree⟩
  rw [List.length_eq_zero_iff.mp (Nat.le_zero.mp few)] at member
  exact List.not_mem_nil member

/-- A path that is registered takes up room. -/
theorem Room.takes (room : Room known (fuel + 1) before) (grows : Grows known before after)
    (isKnown : known path) (wasFree : before.unit? path = none) (taken : after.unit? path ≠ none) :
    Room known fuel after := by
  obtain ⟨paths, listed, few⟩ := room
  have sublist := grows.free_sublist paths
  refine ⟨paths, listed, Nat.le_of_lt_succ (Nat.lt_of_lt_of_le ?_ few)⟩
  refine Nat.lt_of_le_of_ne sublist.length_le fun same => ?_
  have member := mem_free.mpr ⟨listed path isKnown, wasFree⟩
  rw [← sublist.eq_of_length same] at member
  exact taken (mem_free.mp member).2

end Loader

/-! ### Building units -/

/-- The units that an import can lead to: those of the document and those from outside. -/
structure Supply where
  source : ImportSource
  byPath : UnitsByPath

namespace Supply

variable (supply : Supply)

/-- A unit that some import leads to. -/
def Offers (unit : Doc.Unit) : Prop :=
  (∃ path, supply.byPath.lookup path = some unit) ∨
    ∃ path, supply.source.find path = .ok (some unit)

/-- What is known of the supply: its paths, and that a gap in a unit of it is a gap. -/
structure Bounded (known : String → Prop) (gap : Prop) : Prop where
  known : ∀ unit, supply.Offers unit → known (clean unit.path)
  gap : ∀ unit, supply.Offers unit → unit.gap → gap

end Supply

namespace LoadM

variable {supply : Supply} {known : String → Prop} {gap : Prop} {fuel : Nat} {α β : Type}
variable {gives : α → Loader → Prop} {next : α → LoadM β} {action : LoadM α}
  {result : β → Loader → Prop}

/-- An action that registers known units, and crashes only at a gap as long as there is room for
what is not yet registered. -/
structure Adds (supply : Supply) (known : String → Prop) (gap : Prop) (fuel : Nat)
    (holds : Loader → Prop) (action : LoadM α) (gives : α → Loader → Prop) : Prop where
  grows : ∀ loader, loader.source = supply.source → holds loader →
    loader.Grows known (behind (action loader))
  gives : ∀ loader value after, loader.source = supply.source → holds loader →
    action loader = .ok value after → gives value after
  reported : ∀ loader fault after, loader.source = supply.source → holds loader →
    loader.Room known fuel → action loader = .error fault after → fault.IsReported ∨ gap

namespace Adds

variable {holds : Loader → Prop}

theorem pure {value : α} (given : ∀ loader, holds loader → gives value loader) :
    Adds supply known gap fuel holds (Pure.pure value) gives where
  grows loader _ _ := .refl loader
  gives loader other after _ held ran := by
    cases ran
    exact given _ held
  reported := nofun

theorem failThen {gives : β → Loader → Prop} (place : BuildPlace) (subject : String)
    (extent : Doc.Extent) (fault : NodeFault) :
    Adds supply known gap fuel holds (place.fail subject extent fault >>= next) gives :=
  ⟨fun loader _ _ => .refl loader, nofun, fun _ _ _ _ _ _ failed => by
    cases failed
    exact .inl trivial⟩

theorem crash (missing : gap) : Adds supply known gap fuel holds (throw .crash) gives :=
  ⟨fun loader _ _ => .refl loader, nofun, fun _ _ _ _ _ _ _ => .inr missing⟩

theorem bind (first : Adds supply known gap fuel holds action gives)
    (second : ∀ value, Adds supply known gap fuel (gives value) (next value) result) :
    Adds supply known gap fuel holds (action >>= next) result where
  grows loader fixed held := by
    have grows := first.grows loader fixed held
    cases ran : action loader with
    | error fault middle =>
      rw [run_bind_error next ran]
      rwa [ran] at grows
    | ok value middle =>
      rw [ran] at grows
      rw [run_bind_ok next ran]
      exact grows.trans ((second value).grows middle (grows.source.trans fixed)
        (first.gives loader value middle fixed held ran))
  gives loader value after fixed held ran := by
    have grows := first.grows loader fixed held
    cases done : action loader with
    | error fault middle =>
      rw [run_bind_error next done] at ran
      nomatch ran
    | ok value middle =>
      rw [done] at grows
      rw [run_bind_ok next done] at ran
      exact (second value).gives middle _ after (grows.source.trans fixed)
        (first.gives loader value middle fixed held done) ran
  reported loader fault after fixed held room failed := by
    have grows := first.grows loader fixed held
    cases ran : action loader with
    | error fault middle =>
      rw [run_bind_error next ran] at failed
      cases failed
      exact first.reported loader _ _ fixed held room ran
    | ok value middle =>
      rw [ran] at grows
      rw [run_bind_ok next ran] at failed
      exact (second value).reported middle fault after (grows.source.trans fixed)
        (first.gives loader value middle fixed held ran) (room.grows grows) failed

theorem mono {more : Loader → Prop} (adds : Adds supply known gap fuel holds action gives)
    (implies : ∀ loader, more loader → holds loader) :
    Adds supply known gap fuel more action gives where
  grows loader fixed held := adds.grows loader fixed (implies loader held)
  gives loader value after fixed held := adds.gives loader value after fixed (implies loader held)
  reported loader fault after fixed held := adds.reported loader fault after fixed (implies loader held)

theorem imp {more : α → Loader → Prop} (adds : Adds supply known gap fuel holds action gives)
    (implies : ∀ value after, gives value after → more value after) :
    Adds supply known gap fuel holds action more where
  grows := adds.grows
  gives loader value after fixed held ran :=
    implies value after (adds.gives loader value after fixed held ran)
  reported := adds.reported

/-- The state is read, which is known from then on. -/
theorem read {next : Loader → LoadM β}
    (each : ∀ loader, holds loader → Adds supply known gap fuel (· = loader) (next loader) result) :
    Adds supply known gap fuel holds (get >>= next) result where
  grows loader fixed held := (each loader held).grows loader fixed rfl
  gives loader value after fixed held := (each loader held).gives loader value after fixed rfl
  reported loader fault after fixed held := (each loader held).reported loader fault after fixed rfl

/-- What holds of a loader still holds when units have been registered. -/
def Lasts (known : String → Prop) (holds : Loader → Prop) : Prop :=
  ∀ before after, Loader.Grows known before after → holds before → holds after

theorem of_grows (lasts : Lasts known holds)
    (grows : ∀ loader : Loader, loader.Grows known (behind (action loader)))
    (reported : ∀ loader fault after, action loader = .error fault after → fault.IsReported ∨ gap) :
    Adds supply known gap fuel holds action fun _ => holds where
  grows loader _ _ := grows loader
  gives loader value after _ held ran := by
    have grows := grows loader
    rw [ran] at grows
    exact lasts loader after grows held
  reported loader fault after _ _ _ failed := reported loader fault after failed

theorem of_plain {gives : α → List Node} (lasts : Lasts known holds)
    (plain : Plain gap True [] [] action gives) :
    Adds supply known gap fuel holds action fun _ => holds :=
  .of_grows lasts (fun loader => .of_steady (plain.steady loader))
    fun _ _ _ failed => plain.reported failed

theorem modifyUnit (lasts : Lasts known holds) (unit : UnitId)
    (change : ProgramUnit → ProgramUnit) :
    Adds supply known gap fuel holds (LoadM.modifyUnit unit change) fun _ => holds :=
  .of_grows lasts (fun loader => grows_modifyUnit unit change loader) nofun

/-- What is known of the state may be a fact that has nothing to do with it. -/
theorem given {fact : Prop} (adds : fact → Adds supply known gap fuel holds action gives) :
    Adds supply known gap fuel (fun loader => fact ∧ holds loader) action gives where
  grows loader fixed held := (adds held.1).grows loader fixed held.2
  gives loader value after fixed held := (adds held.1).gives loader value after fixed held.2
  reported loader fault after fixed held := (adds held.1).reported loader fault after fixed held.2

theorem ask (lasts : Lasts known holds) (path : String) :
    Adds supply known gap fuel holds (LoadM.ask path) fun answer after =>
      supply.source.find path = answer ∧ holds after where
  grows loader _ _ := ⟨rfl, [], rfl, rfl, rfl, .nil, nofun⟩
  gives loader answer after fixed held ran := by
    cases ran
    exact ⟨by rw [fixed], lasts loader _ ⟨rfl, [], rfl, rfl, rfl, .nil, nofun⟩ held⟩
  reported := nofun

/-- What lasts can be kept along. -/
theorem keep (lasts : Lasts known holds)
    (adds : Adds supply known gap fuel (fun _ => True) action gives) :
    Adds supply known gap fuel holds action fun value after => gives value after ∧ holds after where
  grows loader fixed _ := adds.grows loader fixed trivial
  gives loader value after fixed held ran := by
    have grows := adds.grows loader fixed trivial
    rw [ran] at grows
    exact ⟨adds.gives loader value after fixed trivial ran, lasts loader after grows held⟩
  reported loader fault after fixed _ := adds.reported loader fault after fixed trivial

/-- An action may be looked at for one state at a time. -/
theorem each
    (adds : ∀ loader, holds loader → Adds supply known gap fuel (· = loader) action gives) :
    Adds supply known gap fuel holds action gives where
  grows loader fixed held := (adds loader held).grows loader fixed rfl
  gives loader value after fixed held := (adds loader held).gives loader value after fixed rfl
  reported loader fault after fixed held := (adds loader held).reported loader fault after fixed rfl

theorem of_run {action' : LoadM α} (same : action loader = action' loader)
    (adds : Adds supply known gap fuel (· = loader) action' gives) :
    Adds supply known gap fuel (· = loader) action gives where
  grows := by
    rintro _ fixed rfl
    rw [same]
    exact adds.grows _ fixed rfl
  gives := by
    rintro _ value after fixed rfl ran
    exact adds.gives _ value after fixed rfl (same ▸ ran)
  reported := by
    rintro _ fault after fixed rfl room failed
    exact adds.reported _ fault after fixed rfl room (same ▸ failed)

/-- A unit is registered, and then there is room for one less. -/
theorem register {path : String} {flags : FileFlags} {next : UnitId × FileId → LoadM β}
    (isKnown : known (clean path)) (isFree : loader.unit? (clean path) = none)
    (rest : ∀ made, Adds supply known gap fuel
      (fun after => after.unit? (clean path) = some made.1) (next made) result) :
    Adds supply known gap (fuel + 1) (· = loader)
      (registerUnit (clean path) flags >>= next) result where
  grows := by
    rintro loader fixed rfl
    have grows := grows_registerUnit isKnown isFree flags
    exact grows.trans ((rest _).grows _ (grows.source.trans fixed)
      (unit?_registerUnit path flags loader))
  gives := by
    rintro loader value after fixed rfl ran
    have grows := grows_registerUnit isKnown isFree flags
    exact (rest _).gives _ value after (grows.source.trans fixed)
      (unit?_registerUnit path flags loader) ran
  reported := by
    rintro loader fault after fixed rfl room failed
    have grows := grows_registerUnit isKnown isFree flags
    have registered := unit?_registerUnit path flags loader
    refine (rest _).reported _ fault after (grows.source.trans fixed) registered ?_ failed
    exact room.takes grows isKnown isFree (by rw [registered]; nofun)

end Adds

end LoadM

namespace Build

variable {supply : Supply} {known : String → Prop} {gap : Prop} {fuel : Nat}
  {holds : Loader → Prop}

theorem adds_appendEach {α : Type} (lasts : Adds.Lasts known holds) (itemGap : α → Bool)
    {build : α → LoadM DeclId}
    (builds : ∀ item, (itemGap item → gap) →
      Adds supply known gap fuel holds (build item) fun _ => holds)
    (unit : UnitId) (append : DeclId → ProgramUnit → ProgramUnit) (items : List (Option α))
    (isGap : Doc.anyGap true itemGap items → gap) :
    Adds supply known gap fuel holds (appendEach unit build append items) fun _ => holds := by
  induction items with
  | nil => exact .pure fun _ => id
  | cons item rest inductionHypothesis =>
    cases item with
    | none => exact .crash (isGap rfl)
    | some item =>
      rw [Doc.anyGap, List.any_cons, Option.elim_some, Bool.or_eq_true, ← Doc.anyGap] at isGap
      exact .bind (builds item fun missing => isGap (.inl missing)) fun id =>
        .bind (.modifyUnit lasts unit _) fun _ =>
          inductionHypothesis fun missing => isGap (.inr missing)

theorem adds_appendVariables (place : BuildPlace) (lasts : Adds.Lasts known holds) (unit : UnitId)
    (kind : VariableKind) (other : kind ≠ .enumConst) (append : DeclId → ProgramUnit → ProgramUnit)
    (items : List (Option Doc.Variable)) (isGap : Doc.anyGap false Doc.Variable.gap items → gap) :
    Adds supply known gap fuel holds (appendVariables place unit kind append items)
      fun _ => holds := by
  induction items with
  | nil => exact .pure fun _ => id
  | cons item rest inductionHypothesis =>
    rw [Doc.anyGap, List.any_cons, Bool.or_eq_true, ← Doc.anyGap] at isGap
    exact .bind (.of_plain lasts
      (plain_optionalVariable place kind other item fun missing => isGap (.inl missing))) fun id =>
        .bind (.modifyUnit lasts unit _) fun _ =>
        inductionHypothesis fun missing => isGap (.inr missing)

theorem adds_importOf (lasts : Adds.Lasts known holds)
    (builds : ∀ isImported unit, supply.Offers unit →
      Adds supply known gap fuel (fun _ => True) (Build.unit fuel supply.byPath isImported unit)
        fun id after => after.unit? (clean unit.path) = some id)
    (place : BuildPlace) (item : Doc.Import) :
    Adds supply known gap fuel holds (importOf fuel supply.byPath place item) fun _ => holds := by
  have found (target : Option UnitId) :
      Adds supply known gap fuel holds (Pure.pure target >>= importDecl place item)
        fun _ => holds :=
    .of_plain lasts (plain_importDecl place item target)
  have built (unit : Doc.Unit) (offered : supply.Offers unit) :
      Adds supply known gap fuel holds (Build.unit fuel supply.byPath true unit >>= fun id =>
        Pure.pure (some id) >>= importDecl place item) fun _ => holds :=
    ((builds true unit offered).keep lasts).bind fun id => (found (some id)).mono fun _ held => held.2
  unfold importOf
  refine .read fun loader held => ?_
  have here {action : LoadM DeclId} (adds : Adds supply known gap fuel holds action fun _ => holds) :
      Adds supply known gap fuel (· = loader) action fun _ => holds :=
    adds.mono fun _ same => same ▸ held
  dsimp only
  split
  · exact here (found _)
  · split
    · next unit isInside => exact here (built unit (.inl ⟨_, isInside⟩))
    · refine here (.bind (.ask lasts item.path) fun answer => .given fun asked => ?_)
      split
      · exact .failThen ..
      · exact found none
      · next unit => exact built unit (.inr ⟨item.path, asked⟩)

/-- What is built of a unit once it is registered. -/
def contents (fuel : Nat) (byPath : UnitsByPath) (place : BuildPlace) (id : UnitId)
    (item : Doc.Unit) : LoadM UnitId := do
  appendEach id (importOf fuel byPath place) .addImport item.imports
  appendEach id (enumDecl place) .addEnum item.enums
  appendVariables place id .global .addGlobal item.globals
  appendEach id (classDecl place) .addClass item.classes
  appendEach id (function place false) .addFunction item.functions
  match item.main with
  | none => pure ⟨⟩
  | some main =>
    let main ← function place false main
    modifyUnit id (.setMain main)
  return id

theorem adds_contents (lasts : Adds.Lasts known holds)
    (builds : ∀ isImported unit, supply.Offers unit →
      Adds supply known gap fuel (fun _ => True) (Build.unit fuel supply.byPath isImported unit)
        fun id after => after.unit? (clean unit.path) = some id)
    (place : BuildPlace) (id : UnitId) (item : Doc.Unit) (isGap : item.gap → gap) :
    Adds supply known gap fuel holds (contents fuel supply.byPath place id item)
      fun value after => value = id ∧ holds after := by
  simp only [Doc.Unit.gap, Bool.or_eq_true] at isGap
  unfold contents
  refine .bind (adds_appendEach lasts (fun _ => false)
      (fun item _ => adds_importOf lasts builds _ item) id _ _ (by tauto)) fun _ =>
    .bind (adds_appendEach lasts Doc.Enumeration.gap
      (fun item isGap => .of_plain lasts (plain_enumDecl _ item isGap)) id _ _ (by tauto)) fun _ =>
    .bind (adds_appendVariables _ lasts id .global nofun _ _ (by tauto)) fun _ =>
    .bind (adds_appendEach lasts Doc.Class.gap
      (fun item isGap => .of_plain lasts (plain_classDecl _ item isGap)) id _ _ (by tauto)) fun _ =>
    .bind (adds_appendEach lasts Doc.Function.gap
      (fun item isGap => .of_plain lasts (plain_function _ false item isGap))
      id _ _ (by tauto)) fun _ => ?_
  split
  · exact .pure fun _ held => ⟨rfl, held⟩
  · next main isMain =>
    rw [isMain] at isGap
    exact .bind (.of_plain lasts (plain_function _ false main (by simp_all))) fun main =>
      .bind (.modifyUnit lasts id _) fun _ => .pure fun _ held => ⟨rfl, held⟩

/-- A unit that is registered is found. -/
theorem unit_of_registered {id : UnitId}
    (registered : loader.unit? (clean item.path) = some id) (fuel : Nat)
    (byPath : UnitsByPath) (isImported : Bool) :
    Build.unit fuel byPath isImported item loader = .ok id loader := by
  unfold Build.unit
  rw [run_get, registered]
  rfl

theorem unit_zero (isFree : loader.unit? (clean item.path) = none) (byPath : UnitsByPath)
    (isImported : Bool) : Build.unit 0 byPath isImported item loader = .error .crash loader := by
  unfold Build.unit
  rw [run_get, isFree]
  rfl

theorem unit_succ (isFree : loader.unit? (clean item.path) = none) (fuel : Nat)
    (byPath : UnitsByPath) (isImported : Bool) :
    Build.unit (fuel + 1) byPath isImported item loader =
      (registerUnit (clean item.path) (if isImported then .imported else 0) >>= fun made =>
        contents fuel byPath ⟨made.2, clean item.path⟩ made.1 item) loader := by
  conv_lhs => unfold Build.unit
  rw [run_get, isFree]
  rfl

theorem adds_unit (bounded : supply.Bounded known gap) (fuel : Nat) (isImported : Bool)
    (item : Doc.Unit) (isKnown : known (clean item.path)) (isGap : item.gap → gap) :
    Adds supply known gap fuel (fun _ => True) (Build.unit fuel supply.byPath isImported item)
      fun id after => after.unit? (clean item.path) = some id := by
  induction fuel generalizing isImported item with
  | zero =>
    refine .each fun loader _ => ?_
    cases registered : loader.unit? (clean item.path) with
    | some id =>
      exact .of_run (unit_of_registered registered ..) (.pure fun _ same => same ▸ registered)
    | none =>
      refine .of_run (unit_zero registered ..) ⟨fun loader _ _ => .refl loader, nofun, ?_⟩
      rintro loader _ _ _ rfl room _
      exact absurd registered (room.registered isKnown)
  | succ fuel inductionHypothesis =>
    refine .each fun loader _ => ?_
    cases registered : loader.unit? (clean item.path) with
    | some id =>
      exact .of_run (unit_of_registered registered ..) (.pure fun _ same => same ▸ registered)
    | none =>
      refine .of_run (unit_succ registered ..) (.register isKnown registered fun (id, file) => ?_)
      have lasts : Adds.Lasts known fun after => after.unit? (clean item.path) = some id :=
        fun _ _ grows found => grows.unit? found
      refine (adds_contents lasts (fun isImported unit offered => ?_) _ id item isGap).imp ?_
      · exact inductionHypothesis isImported unit (bounded.known unit offered)
          (bounded.gap unit offered)
      · rintro value after ⟨rfl, held⟩
        exact held

end Build

end TreeCheck
