/-
Chains of links. Every item has one link at most, and the chain of an item is what its
links lead to, until one leads to the item itself or to something that was passed. The
chain is found in finitely many steps when the items a link may lead to are finitely
many; how many steps are allowed beyond that makes no difference.
-/

import Mathlib.Data.List.Chain
import Mathlib.Data.List.Nodup
import Mathlib.Data.List.Perm.Subperm
import Mathlib.Logic.Relation

namespace TreeCheck

variable {α β : Type} [DecidableEq α] [DecidableEq β]
variable {next : α → Option α} {root item : α} {items passed : List α} {start : Option α}
  {next' : β → Option β} {bound bound' steps : Nat}

/-- The chain from an item on, in so many steps at most; `passed` is the part found so far and
`root` is where it starts. -/
def chainWithin (next : α → Option α) (root : α) : Nat → List α → Option α → List α
  | 0, passed, _ => passed
  | _ + 1, passed, none => passed
  | steps + 1, passed, some item =>
    if item = root ∨ item ∈ passed then passed
    else chainWithin next root steps (passed ++ [item]) (next item)

/-- The chain of an item; `bound` is how long it may get. -/
def chain (next : α → Option α) (bound : Nat) (root : α) : List α :=
  chainWithin next root (bound + 1) [] (next root)

/-- Once there is nothing left to pass, steps make no difference. -/
theorem chainWithin_steps (closed : ∀ item other, next item = some other → other ∈ items)
    {first second : Nat} (nodup : passed.Nodup) (inside : passed ⊆ items)
    (starts : ∀ item, start = some item → item ∈ items)
    (enough : items.length < first + passed.length)
    (enough' : items.length < second + passed.length) :
    chainWithin next root first passed start = chainWithin next root second passed start := by
  have short : passed.length ≤ items.length := (List.subperm_of_subset nodup inside).length_le
  induction first generalizing second passed start with
  | zero => omega
  | succ first inductionHypothesis =>
    cases second with
    | zero => omega
    | succ second =>
      cases start with
      | none => rfl
      | some item =>
        simp only [chainWithin]
        split
        · rfl
        · next fresh =>
          rw [not_or] at fresh
          have nodup' : (passed ++ [item]).Nodup :=
            List.Nodup.append nodup (List.nodup_singleton _) (by simpa using fresh.2)
          have inside' : passed ++ [item] ⊆ items :=
            List.append_subset.mpr ⟨inside, by simpa using starts item rfl⟩
          have longer : (passed ++ [item]).length = passed.length + 1 := by simp
          exact inductionHypothesis nodup' inside' (closed item) (by omega) (by omega)
            (List.subperm_of_subset nodup' inside').length_le

/-- A map of items that respects links, and keeps those apart that may be met, maps chains. -/
theorem chainWithin_map {view : α → β} (known : α → Prop) (rootKnown : known root)
    (closed : ∀ item other, known item → next item = some other → known other)
    (respects : ∀ item, known item → next' (view item) = (next item).map view)
    (apart : ∀ item other, known item → known other → view item = view other → item = other)
    (steps : Nat) (passed : List α) (start : Option α) (passedKnown : ∀ item ∈ passed, known item)
    (startKnown : ∀ item, start = some item → known item) :
    chainWithin next' (view root) steps (passed.map view) (start.map view) =
      (chainWithin next root steps passed start).map view := by
  induction steps generalizing passed start with
  | zero => rfl
  | succ steps inductionHypothesis =>
    cases start with
    | none => rfl
    | some item =>
      have itemKnown := startKnown item rfl
      have same : (view item = view root ∨ view item ∈ passed.map view) ↔
          (item = root ∨ item ∈ passed) := by
        refine or_congr ⟨apart _ _ itemKnown rootKnown, fun equal => equal ▸ rfl⟩ ?_
        refine ⟨fun member => ?_, List.mem_map_of_mem⟩
        obtain ⟨other, inside, equal⟩ := List.mem_map.mp member
        exact apart _ _ (passedKnown other inside) itemKnown equal ▸ inside
      simp only [Option.map_some, chainWithin]
      rw [if_congr same rfl rfl]
      split
      · rfl
      · have allKnown : ∀ other ∈ passed ++ [item], known other := by
          intro other member
          rcases List.mem_append.mp member with old | new
          · exact passedKnown other old
          · exact List.mem_singleton.mp new ▸ itemKnown
        rw [respects item itemKnown, ← inductionHypothesis _ _ allKnown (closed item · itemKnown),
          List.map_append, List.map_singleton]

/-- A map of items that respects links maps the chain of an item, whatever the bounds are. -/
theorem chain_map (view : α → β) (items : List α)
    (closed : ∀ item other, next item = some other → other ∈ items)
    (respects : ∀ item, item ∈ root :: items → next' (view item) = (next item).map view)
    (apart : ∀ item other, item ∈ root :: items → other ∈ root :: items →
      view item = view other → item = other) (enough : items.length ≤ bound)
    (enough' : items.length ≤ bound') :
    chain next' bound' (view root) = (chain next bound root).map view := by
  have leads {item other : α} (led : next item = some other) : other ∈ root :: items :=
    .tail _ (closed item other led)
  have mapped : chainWithin next' (view root) (bound' + 1) [] ((next root).map view) =
      (chainWithin next root (bound' + 1) [] (next root)).map view := by
    refine chainWithin_map (· ∈ root :: items) (.head _) ?_ respects apart _ [] _ ?_ ?_
    · exact fun _ _ _ led => leads led
    · exact fun _ member => nomatch member
    · exact fun _ led => leads led
  have steps : chainWithin next root (bound' + 1) [] (next root) =
      chainWithin next root (bound + 1) [] (next root) :=
    chainWithin_steps closed List.nodup_nil (List.nil_subset _) (closed root)
      (by rw [List.length_nil]; omega) (by rw [List.length_nil]; omega)
  rw [steps] at mapped
  rw [chain, chain, respects root (.head _)]
  exact mapped

/-- Only the links of the items that may be met count. -/
theorem chain_congr {next' : α → Option α} (items : List α)
    (closed : ∀ item other, next item = some other → other ∈ items)
    (same : ∀ item, item ∈ root :: items → next' item = next item) (enough : items.length ≤ bound)
    (enough' : items.length ≤ bound') : chain next' bound' root = chain next bound root := by
  have mapped : chain next' bound' (id root) = (chain next bound root).map id := by
    refine chain_map id items closed (fun item member => ?_) (fun _ _ _ _ equal => equal) enough
      enough'
    rw [Option.map_id, id_eq]
    exact same item member
  rwa [List.map_id] at mapped

/-- What stands on a chain was passed before, is where it starts, or is led to by a link. -/
theorem mem_chainWithin (member : item ∈ chainWithin next root steps passed start) :
    item ∈ passed ∨ item ≠ root ∧ (start = some item ∨ ∃ other, next other = some item) := by
  induction steps generalizing passed start with
  | zero => exact .inl member
  | succ steps inductionHypothesis =>
    cases start with
    | none => exact .inl member
    | some first =>
      simp only [chainWithin] at member
      split at member
      · exact .inl member
      · next fresh =>
        rw [not_or] at fresh
        rcases inductionHypothesis member with old | ⟨different, starts | led⟩
        · rcases List.mem_append.mp old with old | new
          · exact .inl old
          · obtain rfl := List.mem_singleton.mp new
            exact .inr ⟨fresh.1, .inl rfl⟩
        · exact .inr ⟨different, .inr ⟨first, starts⟩⟩
        · exact .inr ⟨different, .inr led⟩

theorem mem_chain (member : item ∈ chain next bound root) :
    item ≠ root ∧ ∃ other, next other = some item := by
  rcases mem_chainWithin member with passed | ⟨different, starts | led⟩
  · nomatch passed
  · exact ⟨different, root, starts⟩
  · exact ⟨different, led⟩

/-! ### What a chain leads to -/

/-- The link of an item leads to another one. -/
def Leads (next : α → Option α) (item other : α) : Prop := next item = some other

/-- One item is got to from another one along links. -/
abbrev Reach (next : α → Option α) : α → α → Prop := Relation.ReflTransGen (Leads next)

/-- Where a chain ends; the chain of an item without a link ends at the item. -/
def lastOf (root : α) (items : List α) : α := items.getLast?.getD root

omit [DecidableEq α] in
theorem getLast?_cons_eq (root : α) (items : List α) :
    (root :: items).getLast? = some (lastOf root items) :=
  List.getLast?_cons

/-- A chain goes from link to link, meets nothing twice, and ends where there is no link or one
that leads back. -/
structure IsWhole (next : α → Option α) (root : α) (items : List α) : Prop where
  nodup : (root :: items).Nodup
  path : (root :: items).IsChain (Leads next)
  ends : ∀ other, next (lastOf root items) = some other → other ∈ root :: items

theorem isWhole_chainWithin (closed : ∀ item other, next item = some other → other ∈ items)
    (passed : List α) (nodup : (root :: passed).Nodup)
    (path : (root :: passed).IsChain (Leads next)) (inside : passed ⊆ items)
    (enough : items.length < steps + passed.length) :
    IsWhole next root (chainWithin next root steps passed (next (lastOf root passed))) := by
  induction steps generalizing passed with
  | zero =>
    have := (List.subperm_of_subset (List.nodup_cons.mp nodup).2 inside).length_le
    omega
  | succ steps inductionHypothesis =>
    cases led : next (lastOf root passed) with
    | none => exact ⟨nodup, path, fun other impossible => nomatch led.symm.trans impossible⟩
    | some item =>
      rw [chainWithin]
      split
      · next met =>
        refine ⟨nodup, path, fun other led' => ?_⟩
        cases led.symm.trans led'
        exact List.mem_cons.mpr met
      · next fresh =>
        have last : lastOf root (passed ++ [item]) = item := by simp [lastOf]
        have unmet : item ∉ root :: passed := by simpa using fresh
        have further := inductionHypothesis (passed ++ [item])
        rw [last] at further
        refine further ?_ ?_ ?_ ?_
        · rw [← List.cons_append]
          exact List.Nodup.append nodup (List.nodup_singleton _) (by simpa using unmet)
        · rw [← List.cons_append]
          refine List.IsChain.append path (.singleton _) fun before isLast after isFirst => ?_
          rw [getLast?_cons_eq] at isLast
          cases isLast
          cases isFirst
          exact led
        · exact List.append_subset.mpr ⟨inside, by simpa using closed _ _ led⟩
        · simp only [List.length_append, List.length_singleton]
          omega

theorem isWhole_chain (closed : ∀ item other, next item = some other → other ∈ items)
    (enough : items.length ≤ bound) (root : α) : IsWhole next root (chain next bound root) :=
  isWhole_chainWithin closed [] (List.nodup_singleton _) (.singleton _) (List.nil_subset _)
    (by rw [List.length_nil]; omega)

/-- What was passed stays in front. -/
theorem prefix_chainWithin (next : α → Option α) (root : α) (steps : Nat) (passed : List α)
    (start : Option α) : passed <+: chainWithin next root steps passed start := by
  induction steps generalizing passed start with
  | zero => exact List.prefix_rfl
  | succ steps inductionHypothesis =>
    cases start with
    | none => exact List.prefix_rfl
    | some item =>
      rw [chainWithin]
      split
      · exact List.prefix_rfl
      · exact (List.prefix_append ..).trans (inductionHypothesis ..)

/-- A chain goes along every way on which nothing is met twice. -/
theorem prefix_chain {ahead : List α} (path : (root :: (passed ++ ahead)).IsChain (Leads next))
    (nodup : (root :: (passed ++ ahead)).Nodup) (enough : ahead.length ≤ steps) :
    passed ++ ahead <+: chainWithin next root steps passed (next (lastOf root passed)) := by
  induction ahead generalizing passed steps with
  | nil =>
    rw [List.append_nil]
    exact prefix_chainWithin ..
  | cons item ahead inductionHypothesis =>
    obtain ⟨steps, rfl⟩ := Nat.exists_eq_add_one_of_ne_zero
      (Nat.ne_of_gt (Nat.lt_of_lt_of_le (Nat.succ_pos _) enough))
    have split : passed ++ item :: ahead = (passed ++ [item]) ++ ahead := by simp
    have led : next (lastOf root passed) = some item := by
      rw [← List.cons_append] at path
      exact (List.isChain_append.mp path).2.2 _ (getLast?_cons_eq root passed) item rfl
    have fresh : ¬ (item = root ∨ item ∈ passed) := by
      rw [← List.cons_append] at nodup
      have apart := List.disjoint_of_nodup_append nodup
      exact fun met => apart (List.mem_cons.mpr met) (.head _)
    have last : lastOf root (passed ++ [item]) = item := by simp [lastOf]
    rw [led, chainWithin, if_neg fresh, split]
    rw [split] at path nodup
    have further := inductionHypothesis path nodup (Nat.le_of_succ_le_succ enough)
    rwa [last] at further

namespace IsWhole

variable {next : α → Option α} {root : α} {items : List α}

omit [DecidableEq α] in
/-- No link leads out of a whole chain. -/
theorem closed (whole : IsWhole next root items) {other : α} (member : item ∈ root :: items)
    (led : next item = some other) : other ∈ root :: items := by
  obtain ⟨before, after, split⟩ := List.append_of_mem member
  cases after with
  | nil =>
    have last := getLast?_cons_eq root items
    rw [split, List.getLast?_concat] at last
    exact whole.ends other (Option.some.inj last ▸ led)
  | cons second rest =>
    have step : Leads next item second :=
      List.isChain_iff_forall_rel_of_append_cons_cons.mp whole.path split
    cases step.symm.trans led
    rw [split]
    simp

omit [DecidableEq α] in
theorem mem_iff (whole : IsWhole next root items) (item : α) :
    item ∈ root :: items ↔ Reach next root item := by
  constructor
  · refine fun member => List.IsChain.induction (Reach next root) _ whole.path ?_ ?_ item member
    · exact fun first second led reached => reached.tail led
    · exact fun _ => .refl
  · intro reached
    induction reached with
    | refl => exact .head _
    | tail _ led inductionHypothesis => exact whole.closed inductionHypothesis led

end IsWhole

/-- The chain of an item is what is got to from it, without the item itself. -/
theorem mem_chain_iff (closed : ∀ item other, next item = some other → other ∈ items)
    (enough : items.length ≤ bound) (root item : α) :
    item ∈ chain next bound root ↔ item ≠ root ∧ Reach next root item := by
  have whole := isWhole_chain closed enough root
  rw [← whole.mem_iff, List.mem_cons]
  have apart := (List.nodup_cons.mp whole.nodup).1
  constructor
  · exact fun member => ⟨fun same => apart (same ▸ member), .inr member⟩
  · exact fun ⟨different, member⟩ => member.resolve_left different

end TreeCheck
