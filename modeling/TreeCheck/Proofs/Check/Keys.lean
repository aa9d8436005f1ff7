/-
What a key of the cache is a digest of can be read back. A digest of contents may hold any
bytes, so end marks do not tell where a part ends; but a path holds no end mark, a digest has
32 bytes, and the settings are the last four parts and hold no end mark either. The settings
are read from the back and the files from the front.
-/

import Mathlib.Data.List.Induction
import Std.Data.String.ToInt
import TreeCheck.Check.Cache
import TreeCheck.Proofs.Text.Paths
import TreeCheck.Proofs.Text.Utf8

namespace TreeCheck

/-! ### Digests as bytes -/

namespace Digest

theorem bytesOfWord_injective : Function.Injective bytesOfWord := by
  intro first second same
  simp only [bytesOfWord, List.cons.injEq, ← UInt8.toNat_inj, UInt32.toNat_toUInt8,
    UInt32.toNat_shiftRight, Nat.shiftRight_eq_div_pow, UInt32.reduceToNat, Nat.reduceMod,
    Nat.reducePow] at same
  obtain ⟨lead, upper, lower, last, -⟩ := same
  have bound := first.toNat_lt
  have bound' := second.toNat_lt
  apply UInt32.toNat_inj.mp
  omega

theorem flatMap_bytesOfWord_injective : Function.Injective (List.flatMap bytesOfWord) := by
  intro first
  induction first with
  | nil => intro second same; cases second <;> simp_all [bytesOfWord]
  | cons word rest inductionHypothesis =>
    intro second same
    cases second with
    | nil => simp [bytesOfWord] at same
    | cons word' rest' =>
      obtain ⟨sameWord, sameRest⟩ := List.append_inj same rfl
      rw [bytesOfWord_injective sameWord, inductionHypothesis sameRest]

theorem bytes_injective : Function.Injective bytes := by
  intro first second same
  cases first
  cases second
  simpa using flatMap_bytesOfWord_injective same

end Digest

/-! ### Texts as bytes -/

theorem Text.Utf8.encode_injective : Function.Injective encode := fun first second same => by
  rw [← ofBytes_encode first, same, ofBytes_encode]

/-- A zero is written for the character with number zero only. -/
theorem Text.Utf8.zero_notMem_encode {text : String} (free : '\x00' ∉ text.toList) :
    0 ∉ encode text := by
  rw [encode_eq, List.mem_flatMap]
  rintro ⟨character, inText, isZero⟩
  have nonzero : character.toNat ≠ 0 := fun zero =>
    free (by rwa [← show character = '\x00' from Char.toNat_inj.mp zero])
  have lead (value bits least : Nat) (room : 0 < bits ∧ 0 < least ∧ bits + least ≤ 256) :
      (0 : UInt8) ≠ UInt8.ofNat (value % bits + least) := fun same => by
    have := toNat_lead value bits least room.1 room.2.2
    rw [← same, UInt8.toNat_zero] at this
    omega
  rw [utf8EncodeChar_eq] at isZero
  split at isZero
  · next small =>
    have same := congrArg UInt8.toNat (List.mem_singleton.mp isZero)
    rw [UInt8.toNat_ofNat_of_lt' (show character.toNat < 256 by omega)] at same
    exact nonzero same.symm
  · repeat' split at isZero
    all_goals simp (disch := decide) only [List.mem_cons, lead, List.not_mem_nil, or_self] at isZero

/-! ### Settings as texts -/

theorem Pass.name_injective : Function.Injective name := by
  intro first second same
  cases first <;> cases second <;> first | rfl | exact absurd same (by decide)

theorem Pass.joinNames_injective :
    Function.Injective fun passes : List Pass => Text.join "," (passes.map name) := by
  have back (pass : Pass) (rest : List Pass) :
      Text.splitOn ',' (Text.join "," ((pass :: rest).map name)) = (pass :: rest).map name :=
    Text.splitOn_join (by simp) fun part isName => by
      obtain ⟨pass, -, rfl⟩ := List.mem_map.mp isName
      cases pass <;> decide
  have unnamed (pass : Pass) (rest : List Pass) :
      Text.join "," ((pass :: rest).map name) ≠ "" := fun empty => by
    have parts := back pass rest
    rw [empty, show Text.splitOn ',' "" = [""] by decide, List.map_cons, List.cons.injEq] at parts
    cases pass <;> exact absurd parts.1 (by decide)
  intro passes passes' same
  match passes, passes' with
  | [], [] => rfl
  | [], pass :: rest => exact absurd same.symm (unnamed pass rest)
  | pass :: rest, [] => exact absurd same (unnamed pass rest)
  | pass :: rest, pass' :: rest' =>
    have sameNames := congrArg (Text.splitOn ',') same
    exact name_injective.list_map ((back pass rest).symm.trans (sameNames.trans (back pass' rest')))

/-- No setting is written with an end mark. -/
theorem Fingerprint.zero_notMem_parts (fingerprint : Fingerprint) :
    ∀ part ∈ fingerprint.parts, 0 ∉ Text.Utf8.encode part := by
  intro part isPart
  apply Text.Utf8.zero_notMem_encode
  simp only [parts, List.mem_cons, List.not_mem_nil, or_false] at isPart
  rcases isPart with rfl | rfl | rfl | rfl
  · induction fingerprint.passes with
    | nil => decide
    | cons pass rest inductionHypothesis =>
      cases rest with
      | nil => cases pass <;> decide
      | cons next rest =>
        show '\x00' ∉ (pass.name ++ "," ++ Text.join "," ((next :: rest).map Pass.name)).toList
        cases pass <;> simpa [Pass.name] using inductionHypothesis
  · have digits (count : Nat) : '\x00' ∉ count.repr.toList := fun among =>
      absurd (Nat.isDigit_of_mem_toDigits (b := 10) (n := count) (by decide) (by decide)
      (by simpa using among)) (by decide)
    rw [Int.toString_eq_repr, Int.repr_eq_if]
    split
    · exact digits _
    · rw [String.toList_append]
      simpa using digits _
  · cases fingerprint.warningsAsErrors <;> decide
  · cases fingerprint.interactive <;> decide

theorem Fingerprint.parts_injective : Function.Injective parts := by
  intro first second same
  simp only [parts, List.cons.injEq, and_true] at same
  obtain ⟨passes, limit, promoted, interactive⟩ := same
  have flags {flag flag' : Bool} (same : toString flag = toString flag') : flag = flag' := by
    cases flag <;> cases flag' <;> first | rfl | exact absurd same (by decide)
  cases first
  cases second
  simp only [Fingerprint.mk.injEq]
  exact ⟨Pass.joinNames_injective passes, Int.repr_injective limit, flags promoted, flags interactive⟩

/-! ### Reading the key back -/

namespace CacheKey

variable {first second part part' rest rest' : List UInt8}

/-- What stands before an end mark is told apart from what follows, if it holds none. -/
theorem append_cons_inj (free : 0 ∉ part) (free' : 0 ∉ part')
    (same : part ++ 0 :: rest = part' ++ 0 :: rest') : part = part' ∧ rest = rest' := by
  have front {part rest : List UInt8} (free : 0 ∉ part) :
      (part ++ 0 :: rest).takeWhile (· ≠ 0) = part := by
    rw [List.takeWhile_append_of_pos fun byte inPart => by
      simpa using ne_of_mem_of_not_mem inPart free]
    simp
  have samePart : part = part' := by rw [← front free, same, front free']
  rw [samePart] at same
  exact ⟨samePart, List.tail_eq_of_cons_eq (List.append_cancel_left same)⟩

/-- Bytes with an end mark before and behind them, or nothing between two end marks. -/
def Ended (bytes : List UInt8) : Prop := ∃ front, 0 :: bytes = terminated front

theorem ended_nil : Ended [] := ⟨[], rfl⟩

theorem ended_append (bytes part : List UInt8) : Ended (bytes ++ terminated part) :=
  ⟨0 :: (bytes ++ part), by simp [terminated]⟩

/-- The last part without end marks is told apart from what stands before it. -/
theorem Ended.append_inj (ended : Ended first) (ended' : Ended second) (free : 0 ∉ part)
    (free' : 0 ∉ part') (same : first ++ terminated part = second ++ terminated part') :
    first = second ∧ part = part' := by
  obtain ⟨front, isFront⟩ := ended
  obtain ⟨front', isFront'⟩ := ended'
  simp only [terminated, ← List.append_assoc] at same
  have backwards := congrArg (fun bytes => (0 :: bytes).reverse) (List.append_cancel_right same)
  simp only [← List.cons_append, isFront, isFront', terminated, List.reverse_append,
    List.reverse_cons, List.reverse_nil, List.nil_append, List.singleton_append] at backwards
  obtain ⟨samePart, sameFront⟩ :=
    append_cons_inj (by simpa using free) (by simpa using free') backwards
  rw [List.reverse_inj.mp sameFront, ← isFront'] at isFront
  exact ⟨List.tail_eq_of_cons_eq isFront, List.reverse_inj.mp samePart⟩

/-- The settings are read from the back. -/
theorem settings_inj {texts texts' : List String} (ended : Ended first) (ended' : Ended second)
    (free : ∀ text ∈ texts, 0 ∉ Text.Utf8.encode text)
    (free' : ∀ text ∈ texts', 0 ∉ Text.Utf8.encode text) (long : texts.length = texts'.length)
    (same : first ++ texts.flatMap (fun text => terminated (Text.Utf8.encode text)) =
      second ++ texts'.flatMap fun text => terminated (Text.Utf8.encode text)) :
    first = second ∧ texts = texts' := by
  induction texts using List.reverseRecOn generalizing texts' with
  | nil =>
    obtain rfl := List.eq_nil_of_length_eq_zero long.symm
    exact ⟨by simpa using same, rfl⟩
  | append_singleton texts text inductionHypothesis =>
    rcases List.eq_nil_or_concat' texts' with rfl | ⟨texts', text', rfl⟩
    · simp at long
    simp only [List.flatMap_append, List.flatMap_cons, List.flatMap_nil, List.append_nil,
      ← List.append_assoc] at same
    have behind {first : List UInt8} (ended : Ended first) (texts : List String) :
        Ended (first ++ texts.flatMap fun text => terminated (Text.Utf8.encode text)) := by
      rcases List.eq_nil_or_concat' texts with rfl | ⟨texts, text, rfl⟩
      · simpa using ended
      · simpa [← List.append_assoc] using ended_append _ _
    obtain ⟨sameFront, sameText⟩ := (behind ended texts).append_inj (behind ended' texts')
      (free text (by simp)) (free' text' (by simp)) same
    obtain ⟨sameFirst, rfl⟩ := inductionHypothesis (fun text inTexts => free text (by simp [inTexts]))
      (fun text inTexts => free' text (by simp [inTexts])) (by simpa using long) sameFront
    exact ⟨sameFirst, by rw [Text.Utf8.encode_injective sameText]⟩

/-- The files are read from the front. -/
theorem sources_inj {sources sources' : List (String × Digest)}
    (free : ∀ source ∈ sources, '\x00' ∉ source.1.toList)
    (free' : ∀ source ∈ sources', '\x00' ∉ source.1.toList)
    (same : sources.flatMap (fun (path, content) =>
        terminated (Text.Utf8.encode path) ++ terminated content.bytes) =
      sources'.flatMap fun (path, content) =>
        terminated (Text.Utf8.encode path) ++ terminated content.bytes) :
    sources = sources' := by
  induction sources generalizing sources' with
  | nil =>
    cases sources' with
    | nil => rfl
    | cons source rest => simp [terminated] at same
  | cons source rest inductionHypothesis =>
    cases sources' with
    | nil => simp [terminated] at same
    | cons source' rest' =>
      rw [List.forall_mem_cons] at free free'
      simp only [List.flatMap_cons, terminated, List.append_assoc, List.singleton_append] at same
      obtain ⟨samePath, same⟩ := append_cons_inj (Text.Utf8.zero_notMem_encode free.1)
        (Text.Utf8.zero_notMem_encode free'.1) same
      obtain ⟨sameContent, same⟩ := List.append_inj same
        (by simp only [List.length_append, Digest.length_bytes])
      rw [inductionHypothesis free.2 free'.2 (by simpa [terminated] using same), Prod.ext
        (Text.Utf8.encode_injective samePath)
        (Digest.bytes_injective (List.append_cancel_right sameContent))]

/-- What a key is a digest of determines the files, in order, and the settings, as long as no
path holds the character that marks an end. -/
theorem preimage_inj {sources sources' : List (String × Digest)}
    (free : ∀ source ∈ sources, '\x00' ∉ source.1.toList)
    (free' : ∀ source ∈ sources', '\x00' ∉ source.1.toList) (fingerprint fingerprint' : Fingerprint)
    (same : preimage sources fingerprint = preimage sources' fingerprint') :
    sources = sources' ∧ fingerprint = fingerprint' := by
  have ended (sources : List (String × Digest)) : Ended (sources.flatMap fun (path, content) =>
      terminated (Text.Utf8.encode path) ++ terminated content.bytes) := by
    rcases List.eq_nil_or_concat' sources with rfl | ⟨sources, source, rfl⟩
    · exact ended_nil
    · simpa [← List.append_assoc] using ended_append _ _
  obtain ⟨sameSources, sameParts⟩ := settings_inj (ended sources) (ended sources')
    fingerprint.zero_notMem_parts fingerprint'.zero_notMem_parts rfl same
  exact ⟨sources_inj free free' sameSources, Fingerprint.parts_injective sameParts⟩

/-- Three files, two of them with a digest of nothing but zeros, and the passes named one by one or
all together; without the first file the key is a digest of something else. -/
theorem preimage_inj_threeFiles :
    let zeros : Digest := ⟨0, 0, 0, 0, 0, 0, 0, 0⟩
    let sources := [("a.json", zeros), ("b.json", Digest.initial), ("c.json", zeros)]
    let named : Fingerprint := ⟨[.resolve, .typecheck, .modifiers], 100, true, false⟩
    let every : Fingerprint := ⟨Pass.all, 100, true, false⟩
    preimage sources named =
      preimage (["a.json", "b.json", "c.json"].zip [zeros, .initial, zeros]) every ∧
      (sources = ["a.json", "b.json", "c.json"].zip [zeros, .initial, zeros] ∧ named = every) ∧
      preimage sources every ≠ preimage sources.tail every :=
  ⟨rfl, preimage_inj (by decide) (by decide) _ _ rfl,
    fun same => absurd (preimage_inj (by decide) (by decide) _ _ same).1 (by decide)⟩

end CacheKey

end TreeCheck
