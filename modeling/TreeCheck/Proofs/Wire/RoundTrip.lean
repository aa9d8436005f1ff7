/-
A document survives being written and read, in either form, and being converted from one
form into the other and back.

In JSON it comes back exactly. The binary form writes nothing for a list that is given but
empty, so such a list comes back as none, and two documents count as the same when they
differ in no more than that. What a form can carry is limited: JSON is not read beyond a
depth, and in the binary form no header says a length of two to the power of 32.
-/

import TreeCheck.CommandLine.Showing
import TreeCheck.Proofs.Wire.Packing
import TreeCheck.Proofs.Wire.Records

namespace TreeCheck

variable {form : WireForm} {found : Place} {path : String}

/-! ### Files that can be written -/

namespace Disk

/-- A file can be written at the path. -/
def Takes (disk : Disk) (path : String) : Prop :=
  ∃ place, disk.locate path = .ok place ∧ disk.at? place ≠ some .directory

section
variable {disk : Disk} {place : Place} {content : List UInt8}

section

variable (free : disk.at? place ≠ some .directory)

include free

/-- A place that is no directory is not the top directory. -/
theorem ne_nil_of_at? : place ≠ [] := by
  rintro rfl
  exact free rfl

theorem step_put {here next : Place} {part : String}
    (stepped : disk.step here part = .ok next) :
    (disk.put place (.file content)).step here part = .ok next := by
  have directory : disk.at? here = some .directory := by
    unfold step at stepped
    split at stepped
    · cases stepped
    · cases stepped
    · assumption
  have other : here ≠ place := fun same => free (same ▸ directory)
  rw [step, directory] at stepped
  rw [step, at?_put_other disk place here _ other, directory]
  exact stepped

theorem foldlM_step_put (parts : List String)
    {start : Place} (walked : parts.foldlM disk.step start = .ok found) :
    parts.foldlM (disk.put place (.file content)).step start = .ok found := by
  induction parts generalizing start with
  | nil => exact walked
  | cons part rest inductionHypothesis =>
    rw [List.foldlM_cons] at walked ⊢
    cases stepped : disk.step start part with
    | error cause =>
      rw [stepped] at walked
      cases walked
    | ok next =>
      rw [stepped] at walked
      rw [step_put free stepped]
      exact inductionHypothesis walked

/-- A file that is written stands in nobody's way. -/
theorem locate_put (located : disk.locate path = .ok found) :
    (disk.put place (.file content)).locate path = .ok found := by
  unfold locate at located ⊢
  split at located
  · cases located
  · rw [if_neg ‹_›]
    exact foldlM_step_put free _ located

end

theorem write_of_takes (takes : disk.Takes path) (content : List UInt8) :
    ∃ after, disk.write path content = .ok after ∧ after.read path = .ok content ∧
      ∀ other, disk.Takes other → after.Takes other := by
  obtain ⟨place, located, free⟩ := takes
  refine ⟨disk.put place (.file content), ?_, ?_, ?_⟩
  · simp only [write, located]
  · have there := at?_put_self disk place (.file content) (ne_nil_of_at? free)
    have found : (disk.put place (.file content)).find path = .ok (place, .file content) := by
      simp only [find, locate_put free located, bind, Except.bind, there, pure, Except.pure]
    rw [read, found]
  · rintro other ⟨otherPlace, otherLocated, otherFree⟩
    refine ⟨otherPlace, locate_put free otherLocated, ?_⟩
    by_cases same : otherPlace = place
    · rw [same, at?_put_self disk place _ (ne_nil_of_at? free)]
      simp
    · rwa [at?_put_other disk place otherPlace _ same]

end

end Disk

namespace Doc

namespace Document

/-! ### What can be written -/

/-- A document that is read at all: of the schema version that is read, with a root unit. -/
structure Complete (document : Document) : Prop where
  version : document.version = schemaVersion
  root : ∃ unit others, document.units = some unit :: others

/-- A form can carry the document: JSON does not nest it too deep, in the binary form its texts
and lists are not too long for a header. -/
structure CarriedBy (document : Document) (form : WireForm) : Prop where
  known : form ≠ .unknown
  shallow : form = .json →
    (document.toDatum.toJson (.link .document)).depth ≤ Json.nestingLimit
  sized : form = .msgpack → document.toDatum.Sized

/-- The documents differ at most in lists that are empty in one and not given in the other. -/
def Same (first second : Document) : Prop := first.normal = second.normal

section
variable {document : Document} (complete : document.Complete)
include complete

theorem Complete.fits : document.toDatum.Fits (.link .document) :=
  document.fits_toDatum (by rw [complete.version]; decide) (by rw [complete.version]; decide)

theorem Complete.units_ne_nil : document.units ≠ [] := by
  obtain ⟨unit, others, units⟩ := complete.root
  simp [units]

theorem Complete.normal : document.normal.Complete where
  version := complete.version
  root := by
    obtain ⟨unit, others, units⟩ := complete.root
    exact ⟨unit.normal, others.map (·.map Unit.normal), by simp [Document.normal, units]⟩

theorem Complete.normal_normal : document.normal.normal = document.normal := by
  have data : document.normal.normal.toDatum = document.normal.toDatum := by
    rw [← normal_toDatum _ complete.normal.units_ne_nil, ← normal_toDatum _ complete.units_ne_nil,
      Datum.normal_normal]
  have read := document.normal.ofDatum?_toDatum
  rw [← data, ofDatum?_toDatum] at read
  exact Option.some.inj read

theorem Complete.normal_carriedBy (carried : document.CarriedBy form) :
    document.normal.CarriedBy form where
  known := carried.known
  shallow := fun json => by
    rw [← normal_toDatum _ complete.units_ne_nil]
    exact Nat.le_trans (Datum.depth_normal _ _) (carried.shallow json)
  sized := fun msgpack => by
    rw [← normal_toDatum _ complete.units_ne_nil]
    exact Datum.sized_normal _ (carried.sized msgpack)

/-! ### Written and read -/

theorem Complete.decode_of_record {bytes : List UInt8}
    (record : decodeRecord .document form bytes = .ok document.toDatum) :
    decode form bytes = .ok document := by
  obtain ⟨unit, others, units⟩ := complete.root
  rw [decode, record]
  simp only [bind, Except.bind, pure, Except.pure, ofDatum?_toDatum, Option.getD_some,
    complete.version, units]
  rfl

/-- From JSON a document comes back exactly. -/
theorem Complete.decode_json (carried : document.CarriedBy .json) :
    ∃ bytes, document.encode .json = .ok bytes ∧ decode .json bytes = .ok document := by
  refine ⟨_, rfl, complete.decode_of_record ?_⟩
  obtain ⟨values, data⟩ : ∃ values, document.toDatum = .record values := ⟨_, rfl⟩
  have fits := complete.fits
  have read := Json.read?_document (Datum.whole_toJson document.toDatum (.link .document))
    (carried.shallow rfl)
  rw [data] at fits read ⊢
  simp only [decodeRecord, Text.Utf8.decode_encode, read, Option.bind_some,
    readRecord?_toJson true fits]

/-- From the binary form a document comes back without lists that were given but empty. -/
theorem Complete.decode_msgpack (carried : document.CarriedBy .msgpack) :
    ∃ bytes, document.encode .msgpack = .ok bytes ∧
      decode .msgpack bytes = .ok document.normal := by
  refine ⟨_, rfl, complete.normal.decode_of_record ?_⟩
  obtain ⟨values, data⟩ : ∃ values, document.toDatum = .record values := ⟨_, rfl⟩
  have fits := complete.fits
  have read := readValue?_pack document.toDatum fits (carried.sized rfl) []
    (Nat.le_succ (2 * (document.toDatum.pack (.link .document)).length))
  rw [← normal_toDatum _ complete.units_ne_nil]
  rw [List.append_nil] at read
  rw [data] at fits read ⊢
  simp only [decodeRecord, Msgpack.read?, read, Option.bind_some, unpackRecord?_wire fits,
    Datum.normal]

/-- The bytes of the binary form do not tell an empty list from none. -/
theorem Complete.encode_normal : document.normal.encode .msgpack = document.encode .msgpack := by
  have same := Datum.pack_normal document.toDatum complete.fits (fun _ => nofun)
  rw [normal_toDatum _ complete.units_ne_nil] at same
  exact congrArg Except.ok same

/-- Whatever is written in a form is read as the same document, and that is written alike. -/
theorem Complete.decode_encode (carried : document.CarriedBy form) :
    ∃ bytes again, document.encode form = .ok bytes ∧ decode form bytes = .ok again ∧
      again.Same document ∧ again.encode form = .ok bytes ∧ again.Complete ∧
      (∀ other, document.CarriedBy other → again.CarriedBy other) ∧
      (form = .json → again = document) := by
  cases form with
  | json =>
    obtain ⟨bytes, encoded, decoded⟩ := complete.decode_json carried
    exact ⟨bytes, document, encoded, decoded, rfl, encoded, complete, fun _ carried => carried,
      fun _ => rfl⟩
  | msgpack =>
    obtain ⟨bytes, encoded, decoded⟩ := complete.decode_msgpack carried
    exact ⟨bytes, document.normal, encoded, decoded, complete.normal_normal,
      complete.encode_normal.trans encoded, complete.normal,
      fun _ carried => complete.normal_carriedBy carried, nofun⟩
  | unknown => exact absurd rfl carried.known

end

end Document

end Doc

/-! ### Files -/

open Doc

/-- The file at the path is the document, written in the form of the path's extension. -/
def Disk.Holds (disk : Disk) (path : String) (document : Document) : Prop :=
  ∃ bytes, document.encode (.ofPath path) = .ok bytes ∧ disk.read path = .ok bytes

section
variable {disk : Disk} {path : String} {document : Document}

theorem TreeFile.form_of_carriedBy (carried : document.CarriedBy (.ofPath path)) :
    TreeFile.form path = .ok (.ofPath path) := by
  unfold TreeFile.form
  split
  · rename_i unknown
    exact absurd unknown carried.known
  · rfl

/-- A file that holds a document is read as the same document. -/
theorem Doc.Document.Complete.readStream (complete : document.Complete)
    (carried : document.CarriedBy (.ofPath path)) (holds : disk.Holds path document) :
    ∃ again, TreeFile.readStream disk path = .ok again ∧ again.Same document ∧ again.Complete ∧
      ∀ other, document.CarriedBy other → again.CarriedBy other := by
  obtain ⟨bytes, encoded, content⟩ := holds
  obtain ⟨_, again, written, decoded, same, -, whole, carries, -⟩ := complete.decode_encode carried
  cases written.symm.trans encoded
  refine ⟨again, ?_, same, whole, carries⟩
  simp only [TreeFile.readStream, TreeFile.form_of_carriedBy carried, bind, Except.bind, content,
    TreeFile.decode, decoded]
  rfl

/-- Converting a file that holds a document makes a file that holds the same document. -/
theorem Doc.Document.Complete.convertFile (complete : document.Complete) {source target : String}
    (fromForm : document.CarriedBy (.ofPath source)) (toForm : document.CarriedBy (.ofPath target))
    (holds : disk.Holds source document) (takes : disk.Takes target) :
    ∃ again after, CommandLine.convertFile source target disk = .ok (again, after) ∧
      after.Holds target again ∧ (∀ other, disk.Takes other → after.Takes other) ∧
      again.Same document ∧ again.Complete ∧
      ∀ other, document.CarriedBy other → again.CarriedBy other := by
  obtain ⟨again, read, same, whole, carries⟩ := complete.readStream fromForm holds
  obtain ⟨bytes, -, encoded, -⟩ := whole.decode_encode (carries (.ofPath target) toForm)
  obtain ⟨after, written, content, takes⟩ := Disk.write_of_takes takes bytes
  refine ⟨again, after, ?_, ⟨bytes, encoded, content⟩, takes, same, whole, carries⟩
  have taken : TreeFile.write disk target again = .ok after := by
    simp only [TreeFile.write, TreeFile.form_of_carriedBy toForm, bind, Except.bind, encoded]
    exact congrArg (Except.mapError _) written
  simp only [CommandLine.convertFile, read, bind, Except.bind, taken]
  rfl

end

/-! ### The round trip -/

/-- A document that is read at all comes back from every form that can carry it, the same up to
lists that were given but empty, exactly so from JSON; written again it has the same bytes. And a
file that holds it is converted, whatever the forms, into one that is converted back into the same
document. -/
theorem Doc.Document.round_trip {document : Document} (complete : document.Complete) :
    (∀ form, document.CarriedBy form → ∃ bytes again, document.encode form = .ok bytes ∧
      Document.decode form bytes = .ok again ∧ again.Same document ∧
      again.encode form = .ok bytes ∧ (form = .json → again = document)) ∧
    ∀ (disk : Disk) (source middle target : String), disk.Holds source document →
      disk.Takes middle → disk.Takes target → document.CarriedBy (.ofPath source) →
      document.CarriedBy (.ofPath middle) → document.CarriedBy (.ofPath target) →
      ∃ there back again after last,
        CommandLine.convertFile source middle disk = .ok (there, after) ∧
        CommandLine.convertFile middle target after = .ok (back, last) ∧
        TreeFile.readStream last target = .ok again ∧ again.Same document := by
  constructor
  · intro form carried
    obtain ⟨bytes, again, encoded, decoded, same, stable, -, -, exact⟩ :=
      complete.decode_encode carried
    exact ⟨bytes, again, encoded, decoded, same, stable, exact⟩
  · intro disk source middle target holds takesMiddle takesTarget fromForm overForm toForm
    obtain ⟨there, after, away, held, takes, same, whole, carries⟩ :=
      complete.convertFile fromForm overForm holds takesMiddle
    obtain ⟨back, last, home, kept, -, sameBack, wholeBack, carriesBack⟩ :=
      whole.convertFile (carries (.ofPath middle) overForm) (carries (.ofPath target) toForm) held
        (takes target takesTarget)
    obtain ⟨again, read, sameAgain, -, -⟩ :=
      wholeBack.readStream
        (carriesBack (.ofPath target) (carries (.ofPath target) toForm)) kept
    exact ⟨there, back, again, after, last, away, home, read,
      (sameAgain.trans sameBack).trans same⟩

/-- A unit with an enumeration without constants and a choice by no values. -/
def emptyChoice : Document :=
  { version := 1
    units := [some
      { path := "é"
        enums := [some { name := "E", consts := some [] }]
        main := some
          { name := "main"
            body := [some { kind := "match", arms := [some { values := some [] }] }] } }] }

theorem emptyChoice_complete : emptyChoice.Complete := ⟨rfl, _, [], rfl⟩

theorem emptyChoice_carriedBy (known : form ≠ .unknown) :
    emptyChoice.CarriedBy form where
  known := known
  shallow := fun _ => by decide
  sized := fun _ => by decide

/-- A disk with one file. -/
def diskOf (content : List UInt8) : Disk := { entries := [(["a.json"], .file content)] }

theorem Doc.Document.round_trip_emptyChoice :
    emptyChoice.Complete ∧ emptyChoice.CarriedBy .json ∧ emptyChoice.CarriedBy .msgpack ∧
    (∃ bytes again, emptyChoice.encode .msgpack = .ok bytes ∧
      Document.decode .msgpack bytes = .ok again ∧ again.Same emptyChoice ∧
      again.encode .msgpack = .ok bytes ∧ (WireForm.msgpack = .json → again = emptyChoice)) ∧
    ∃ content there back again after last, emptyChoice.encode .json = .ok content ∧
      CommandLine.convertFile "a.json" "b.sbt" (diskOf content) = .ok (there, after) ∧
      CommandLine.convertFile "b.sbt" "c.json" after = .ok (back, last) ∧
      TreeFile.readStream last "c.json" = .ok again ∧ again.Same emptyChoice := by
  have source : WireForm.ofPath "a.json" = .json := by decide
  have middle : WireForm.ofPath "b.sbt" = .msgpack := by decide
  have target : WireForm.ofPath "c.json" = .json := by decide
  obtain ⟨content, encoded⟩ : ∃ content, emptyChoice.encode .json = .ok content := ⟨_, rfl⟩
  have holds : (diskOf content).Holds "a.json" emptyChoice :=
    ⟨content, by rw [source, encoded], rfl⟩
  have takes : (diskOf content).Takes "b.sbt" ∧ (diskOf content).Takes "c.json" :=
    ⟨⟨["b.sbt"], rfl, nofun⟩, ⟨["c.json"], rfl, nofun⟩⟩
  have round := Document.round_trip emptyChoice_complete
  obtain ⟨there, back, again, after, last, converted⟩ := round.2 (diskOf content) "a.json" "b.sbt"
    "c.json" holds takes.1 takes.2 (emptyChoice_carriedBy (by rw [source]; decide))
    (emptyChoice_carriedBy (by rw [middle]; decide))
    (emptyChoice_carriedBy (by rw [target]; decide))
  exact ⟨emptyChoice_complete, emptyChoice_carriedBy (by decide),
    emptyChoice_carriedBy (by decide), round.1 .msgpack (emptyChoice_carriedBy (by decide)),
    content, there, back, again, after, last, encoded, converted⟩

end TreeCheck
