/-
Putting items on chains one after the other. An item is put behind the last item of a
chain, whose link is replaced if it has one; it has one when the chain leads back into
itself. What was replaced may then be out of reach, and with it items that were put on
other chains before.

An attachment is destructive when it replaces a link and what this led to cannot be got to
from there any more. `stayOnChains_iff` says that these are the attachments that do harm:
everything stays on the chains it was put on, at every moment, exactly when no attachment
is destructive.
-/

import TreeCheck.Proofs.Imports.Chain
import Mathlib.Logic.Function.Basic

namespace TreeCheck

variable {α : Type} [DecidableEq α]
variable {next : α → Option α} {item first last : α} {pairs : List (α × α)}

/-! ### Cutting a link -/

/-- The links without that of one item. -/
def cut (next : α → Option α) (item : α) : α → Option α := Function.update next item none

theorem leads_cut_iff {second : α} :
    Leads (cut next item) first second ↔ first ≠ item ∧ Leads next first second := by
  unfold Leads cut
  by_cases same : first = item
  · subst same
    rw [Function.update_self]
    exact ⟨nofun, fun both => absurd rfl both.1⟩
  · rw [Function.update_of_ne same]
    exact ⟨fun led => ⟨same, led⟩, And.right⟩

theorem Reach.of_cut (reach : Reach (cut next item) first last) : Reach next first last :=
  Relation.ReflTransGen.mono (fun _ _ led => (leads_cut_iff.mp led).2) _ _ reach

theorem Reach.linked_of_cut (target : α) (reach : Reach (cut next item) first last) :
    Reach (Function.update next item (some target)) first last := by
  refine Relation.ReflTransGen.mono (fun before after led => ?_) _ _ reach
  obtain ⟨different, led⟩ := leads_cut_iff.mp led
  rw [Leads, Function.update_of_ne different]
  exact led

/-- A way either does without a link or gets to it, and goes on behind it, without it. -/
theorem Reach.cut_or_through (item : α) (reach : Reach next first last) :
    Reach (cut next item) first last ∨
      Reach (cut next item) first item ∧
        ∃ behind, next item = some behind ∧ Reach (cut next item) behind last := by
  induction reach with
  | refl => exact .inl .refl
  | @tail before after _ led inductionHypothesis =>
    by_cases same : before = item
    · subst same
      refine .inr ⟨?_, after, led, .refl⟩
      exact inductionHypothesis.elim (fun reach => reach) And.left
    · have led' : Leads (cut next item) before after := leads_cut_iff.mpr ⟨same, led⟩
      exact inductionHypothesis.imp (fun reach => reach.tail led') fun ⟨gets, behind, linked, goes⟩ =>
        ⟨gets, behind, linked, goes.tail led'⟩

omit [DecidableEq α] in
theorem rightUnique_leads (next : α → Option α) : Relator.RightUnique (Leads next) :=
  fun _ _ _ led led' => Option.some.inj (led.symm.trans led')

omit [DecidableEq α] in
theorem Reach.eq_of_end {other : α} (unlinked : next item = none) (reach : Reach next item other) :
    other = item := by
  rcases Relation.ReflTransGen.cases_head reach with same | ⟨second, led, _⟩
  · exact same.symm
  · nomatch unlinked.symm.trans led

theorem cut_self (next : α → Option α) (item : α) : cut next item item = none :=
  Function.update_self ..

omit [DecidableEq α] in
/-- From where one gets to an end there is no way round to where one was. -/
theorem Reach.no_way_back {second : α} (unlinked : next last = none) (gets : Reach next item last)
    (led : Leads next item second) (back : Reach next second item) : False := by
  have returns (other : α) (goes : Reach next item other) : Reach next other item := by
    induction goes with
    | refl => exact .refl
    | @tail before after _ step inductionHypothesis =>
      rcases Relation.ReflTransGen.cases_head inductionHypothesis with rfl | ⟨follower, step', rest⟩
      · exact rightUnique_leads next led step ▸ back
      · exact rightUnique_leads next step' step ▸ rest
  obtain rfl := Reach.eq_of_end unlinked (returns last gets)
  nomatch unlinked.symm.trans led

/-! ### The end of a chain -/

namespace IsWhole

variable {next : α → Option α} {root : α} {items : List α}

/-- A chain is a way that does without the link that its end may have. -/
theorem path_cut (whole : IsWhole next root items) :
    (root :: items).IsChain (Leads (cut next (lastOf root items))) := by
  have isLast := getLast?_cons_eq root items
  refine List.isChain_iff_forall_rel_of_append_cons_cons.mpr fun first second before after split => ?_
  have led : Leads next first second :=
    List.isChain_iff_forall_rel_of_append_cons_cons.mp whole.path split
  refine leads_cut_iff.mpr ⟨fun same => ?_, led⟩
  have later : lastOf root items ∈ second :: after := by
    rw [split, List.getLast?_append_of_ne_nil _ (List.cons_ne_nil _ _),
      List.getLast?_cons_cons] at isLast
    exact List.mem_of_getLast? isLast
  have nodup := whole.nodup
  rw [split] at nodup
  exact (List.nodup_cons.mp (List.nodup_append.mp nodup).2.1).1 (same ▸ later)

/-- Along a chain one gets to its end without the link that the end may have. -/
theorem reach_last (whole : IsWhole next root items) (member : item ∈ root :: items) :
    Reach (cut next (lastOf root items)) item (lastOf root items) := by
  have isLast := getLast?_cons_eq root items
  have path := whole.path_cut
  refine List.IsChain.backwards_induction
    (fun item => Reach (cut next (lastOf root items)) item (lastOf root items)) _ path ?_ ?_ item member
  · exact fun first second led reached => reached.head led
  · intro nonempty
    rw [List.getLast?_eq_some_getLast nonempty] at isLast
    rw [Option.some.inj isLast]

/-- What is put behind the last item of a chain follows the chain. -/
theorem prefix_update (whole : IsWhole next root items) {target : α}
    (fresh : target ∉ root :: items) {bound : Nat} (enough : items.length ≤ bound) :
    items ++ [target] <+: chain (Function.update next (lastOf root items) (some target)) bound root := by
  have path : (root :: items ++ [target]).IsChain
      (Leads (Function.update next (lastOf root items) (some target))) := by
    refine List.IsChain.append (whole.path_cut.imp fun first second led => ?_) (.singleton _)
      fun before isLast after isFirst => ?_
    · obtain ⟨different, led⟩ := leads_cut_iff.mp led
      rw [Leads, Function.update_of_ne different]
      exact led
    · rw [getLast?_cons_eq] at isLast
      cases isLast
      cases isFirst
      exact Function.update_self ..
  have nodup : (root :: items ++ [target]).Nodup :=
    List.Nodup.append whole.nodup (List.nodup_singleton _) (by simpa using fresh)
  have along : [] ++ (items ++ [target]) <+: _ :=
    prefix_chain path nodup (Nat.le_trans (Nat.le_of_eq List.length_append) (Nat.succ_le_succ enough))
  exact along

end IsWhole

/-! ### Attachments -/

/-- Puts an item behind the last item of the chain of another one, unless it is on that chain. -/
def attachLink (bound : Nat) (next : α → Option α) (pair : α × α) : α → Option α :=
  if pair.2 ∈ chain next bound pair.1 then next
  else Function.update next (lastOf pair.1 (chain next bound pair.1)) (some pair.2)

/-- The links behind a list of attachments. -/
def linksAfter (bound : Nat) (pairs : List (α × α)) : α → Option α :=
  pairs.foldl (attachLink bound) fun _ => none

/-- An attachment replaces a link, and what this led to is not got to any more from there. -/
def Destructive (bound : Nat) (next : α → Option α) (pair : α × α) : Prop :=
  pair.2 ∉ chain next bound pair.1 ∧
    ∃ old ∈ next (lastOf pair.1 (chain next bound pair.1)),
      old ∉ chain (attachLink bound next pair) bound (lastOf pair.1 (chain next bound pair.1))

instance (bound : Nat) (next : α → Option α) (pair : α × α) :
    Decidable (Destructive bound next pair) :=
  inferInstanceAs (Decidable (_ ∧ _))

/-- Everything is on the chain it was put on. -/
def AllOnChains (bound : Nat) (pairs : List (α × α)) : Prop :=
  ∀ pair ∈ pairs, pair.2 ∈ chain (linksAfter bound pairs) bound pair.1

instance (bound : Nat) (pairs : List (α × α)) : Decidable (AllOnChains bound pairs) :=
  inferInstanceAs (Decidable (∀ pair ∈ pairs, _))

/-- None of a list of attachments is destructive when its turn comes. -/
def Harmless (bound : Nat) (pairs : List (α × α)) : Prop :=
  ∀ before pair later, before ++ pair :: later = pairs →
    ¬ Destructive bound (linksAfter bound before) pair

/-- What attachments keep up as long as none is destructive: everything is got to from where it
was attached, and no link can be done without. -/
structure Attached (items : List α) (pairs : List (α × α)) (next : α → Option α) : Prop where
  closed : ∀ item other, next item = some other → other ∈ items
  reached : ∀ pair ∈ pairs, Reach next pair.1 pair.2
  needed : ∀ item other, next item = some other →
    ∃ owner, (owner, other) ∈ pairs ∧ ¬ Reach (cut next item) owner other

theorem cut_update (next : α → Option α) (item : α) (link : Option α) :
    cut (Function.update next item link) item = cut next item :=
  Function.update_idem ..

theorem cut_update_of_ne (next : α → Option α) {other : α} (different : item ≠ other)
    (link : Option α) :
    cut (Function.update next other link) item = Function.update (cut next item) other link :=
  Function.update_comm different.symm ..

theorem cut_comm (next : α → Option α) (item other : α) :
    cut (cut next item) other = cut (cut next other) item := by
  by_cases same : item = other
  · rw [same]
  · exact Function.update_comm same ..

namespace Attached

variable {items : List α} {pairs : List (α × α)} {next : α → Option α}
variable {pair : α × α}

/-- No link leads to where it comes from. -/
theorem irrefl (attached : Attached items pairs next) (item : α) : next item ≠ some item := by
  intro led
  obtain ⟨owner, isPair, needed⟩ := attached.needed item item led
  rcases (attached.reached _ isPair).cut_or_through item with reach | ⟨reach, _⟩ <;>
    exact needed reach

/-- Where the link of one item is replaced, the links of other items are still needed. -/
theorem needed_of_relinked (attached : Attached items pairs next) {last target : α}
    (loops : ∀ old, next last = some old → Reach (cut next last) old last)
    (kept : ∀ old, next last = some old → Reach (cut next last) target old) {item other owner : α}
    (different : item ≠ last) (led : next item = some other) (isPair : (owner, other) ∈ pairs)
    (needed : ¬ Reach (cut next item) owner other) :
    ¬ Reach (cut (Function.update next last (some target)) item) owner other := by
  intro reach
  rw [cut_update_of_ne next different] at reach
  rcases reach.cut_or_through last with around | ⟨gets, behind, linked, goes⟩
  · rw [cut_update] at around
    exact needed around.of_cut
  rw [cut_update] at gets goes
  rw [Function.update_self] at linked
  cases linked
  -- The way of the owner to `item` leads through `last`, which therefore has a link.
  have toItem : Reach (cut next item) owner item := by
    rcases (attached.reached _ isPair).cut_or_through item with reach | ⟨reach, _⟩
    · exact absurd reach needed
    · exact reach
  have lastToItem : Reach (cut next item) last item := by
    rcases gets.of_cut.total_of_right_unique (rightUnique_leads _) toItem with there | back
    · exact there
    · exact absurd (Reach.eq_of_end (cut_self next item) back) different.symm
  obtain ⟨old, lastLed, oldToItem⟩ : ∃ old, Leads (cut next item) last old ∧
      Reach (cut next item) old item :=
    (Relation.ReflTransGen.cases_head lastToItem).resolve_left different.symm
  have lastLinked : next last = some old := (leads_cut_iff.mp lastLed).2
  -- From `other` one gets to `old`: the new target leads to both, and not to `other` second.
  have back : Reach (cut next last) other old := by
    rcases (kept old lastLinked).cut_or_through item with around | ⟨_, behind, linked, onwards⟩
    · rw [cut_comm] at around
      rcases goes.total_of_right_unique (rightUnique_leads _) around with onwards | impossible
      · rw [cut_comm] at onwards
        exact Reach.of_cut onwards
      · exact absurd ((gets.of_cut.tail lastLed).trans (Reach.of_cut impossible)) needed
    · have isOther : next item = some behind := (leads_cut_iff.mp linked).2
      cases led.symm.trans isOther
      exact onwards.of_cut
  have toItem' : Reach (cut next last) old item := by
    rcases oldToItem.of_cut.cut_or_through last with reach | ⟨_, behind, linked, reach⟩
    · exact reach
    · exact Option.some.inj (linked.symm.trans lastLinked) ▸ reach
  have step : Leads (cut next last) item other := leads_cut_iff.mpr ⟨different, led⟩
  exact Reach.no_way_back (cut_self next last) (.head step (back.trans (loops old lastLinked))) step
    (back.trans toItem')

section

variable {bound : Nat} (enough : items.length ≤ bound)

include enough

theorem mem_chain_iff (attached : Attached items pairs next) (root item : α) :
    item ∈ chain next bound root ↔ item ≠ root ∧ Reach next root item :=
  TreeCheck.mem_chain_iff attached.closed enough root item

omit enough in
theorem closed_update {target : α} (closed : ∀ item other, next item = some other → other ∈ items)
    (inside : target ∈ items) (last : α) (item other : α)
    (led : Function.update next last (some target) item = some other) : other ∈ items := by
  by_cases same : item = last
  · subst same
    rw [Function.update_self] at led
    exact Option.some.inj led ▸ inside
  · rw [Function.update_of_ne same] at led
    exact closed item other led

/-- What a link led to that was replaced is got to from the new target, without the link. -/
theorem reach_replaced (attached : Attached items pairs next) (inside : pair.2 ∈ items)
    (fresh : pair.2 ∉ chain next bound pair.1) (harmless : ¬ Destructive bound next pair) {old : α}
    (linked : next (lastOf pair.1 (chain next bound pair.1)) = some old) :
    Reach (cut next (lastOf pair.1 (chain next bound pair.1))) pair.2 old := by
  generalize isLast : lastOf pair.1 (chain next bound pair.1) = last at linked
  have links : attachLink bound next pair = Function.update next last (some pair.2) := by
    rw [attachLink, if_neg fresh, isLast]
  have member : old ∈ chain (attachLink bound next pair) bound last := by
    by_contra lost
    exact harmless ⟨fresh, old, isLast ▸ linked, isLast ▸ lost⟩
  rw [links, TreeCheck.mem_chain_iff (closed_update attached.closed inside last) enough] at member
  rcases member.2.cut_or_through last with around | ⟨_, behind, led, goes⟩
  · rw [cut_update] at around
    exact absurd (Reach.eq_of_end (cut_self next last) around) member.1
  · rw [Function.update_self] at led
    rw [cut_update] at goes
    exact Option.some.inj led ▸ goes

/-- An attachment that is not destructive keeps everything where it was put. -/
theorem attach (attached : Attached items pairs next) (inside : pair.2 ∈ items)
    (apart : pair.1 ≠ pair.2) (harmless : ¬ Destructive bound next pair) :
    Attached items (pairs ++ [pair]) (attachLink bound next pair) := by
  by_cases fresh : pair.2 ∈ chain next bound pair.1
  · rw [attachLink, if_pos fresh]
    refine ⟨attached.closed, fun other member => ?_, fun item other led => ?_⟩
    · rcases List.mem_append.mp member with old | new
      · exact attached.reached other old
      · rw [List.mem_singleton.mp new]
        exact ((attached.mem_chain_iff enough _ _).mp fresh).2
    · obtain ⟨owner, isPair, needed⟩ := attached.needed item other led
      exact ⟨owner, List.mem_append_left _ isPair, needed⟩
  · have whole := isWhole_chain attached.closed enough pair.1
    have kept (old : α) (linked : next (lastOf pair.1 (chain next bound pair.1)) = some old) :=
      attached.reach_replaced enough inside fresh harmless linked
    have unreached : ¬ Reach next pair.1 pair.2 := fun reach =>
      fresh ((attached.mem_chain_iff enough _ _).mpr ⟨apart.symm, reach⟩)
    have gets := whole.reach_last (.head _)
    have loops (old : α) (linked : next (lastOf pair.1 (chain next bound pair.1)) = some old) :=
      whole.reach_last (whole.ends old linked)
    rw [attachLink, if_neg fresh]
    generalize lastOf pair.1 (chain next bound pair.1) = last at kept gets loops
    have toTarget : Leads (Function.update next last (some pair.2)) last pair.2 :=
      Function.update_self ..
    refine ⟨closed_update attached.closed inside last, fun other member => ?_,
      fun item other led => ?_⟩
    · rcases List.mem_append.mp member with old | new
      · rcases (attached.reached other old).cut_or_through last with around | ⟨there, behind, led, goes⟩
        · exact around.linked_of_cut pair.2
        · exact ((there.linked_of_cut pair.2).tail toTarget).trans
            (Reach.linked_of_cut pair.2 ((kept behind led).trans goes))
      · rw [List.mem_singleton.mp new]
        exact (gets.linked_of_cut pair.2).tail toTarget
    · by_cases same : item = last
      · subst same
        cases toTarget.symm.trans led
        refine ⟨pair.1, List.mem_append_right _ (.head _), fun reach => ?_⟩
        rw [cut_update] at reach
        exact unreached reach.of_cut
      · rw [Function.update_of_ne same] at led
        obtain ⟨owner, isPair, needed⟩ := attached.needed item other led
        exact ⟨owner, List.mem_append_left _ isPair,
          attached.needed_of_relinked loops kept same led isPair needed⟩

/-- A destructive attachment takes something off a chain that it was put on. -/
theorem lost_of_destructive (attached : Attached items pairs next) (inside : pair.2 ∈ items)
    (destructive : Destructive bound next pair) :
    ∃ other ∈ pairs, other.2 ∉ chain (attachLink bound next pair) bound other.1 := by
  obtain ⟨fresh, old, linked, lost⟩ := destructive
  rw [attachLink, if_neg fresh] at lost ⊢
  generalize lastOf pair.1 (chain next bound pair.1) = last at linked lost
  obtain ⟨owner, isPair, needed⟩ := attached.needed last old linked
  have iff := TreeCheck.mem_chain_iff (closed_update attached.closed inside last) enough
  refine ⟨(owner, old), isPair, fun member => ?_⟩
  rcases ((iff owner old).mp member).2.cut_or_through last with around | ⟨_, behind, led, goes⟩
  · rw [cut_update] at around
    exact needed around
  · have different : old ≠ last := fun same => attached.irrefl last (same ▸ linked)
    exact lost ((iff last old).mpr ⟨different, .head led (goes.of_cut)⟩)

end

end Attached

/-! ### Runs of attachments -/

theorem linksAfter_append (bound : Nat) (pairs : List (α × α)) (pair : α × α) :
    linksAfter bound (pairs ++ [pair]) = attachLink bound (linksAfter bound pairs) pair :=
  List.foldl_concat ..

section

variable {items : List α} {bound : Nat} (enough : items.length ≤ bound)

include enough

theorem attached_linksAfter (inside : ∀ pair ∈ pairs, pair.2 ∈ items)
    (apart : ∀ pair ∈ pairs, pair.1 ≠ pair.2) (harmless : Harmless bound pairs) :
    Attached items pairs (linksAfter bound pairs) := by
  induction pairs using List.reverseRecOn with
  | nil => exact ⟨nofun, nofun, nofun⟩
  | append_singleton before pair inductionHypothesis =>
    have attached := inductionHypothesis
      (fun other member => inside other (List.mem_append_left _ member))
      (fun other member => apart other (List.mem_append_left _ member))
      fun first other rest split => harmless first other (rest ++ [pair]) (by simp [← split])
    rw [linksAfter_append]
    exact attached.attach enough (inside pair (by simp)) (apart pair (by simp))
      (harmless before pair [] rfl)

/-- Everything stays on the chains it was put on, at every moment, exactly when no attachment is
destructive. -/
theorem stayOnChains_iff (inside : ∀ pair ∈ pairs, pair.2 ∈ items)
    (apart : ∀ pair ∈ pairs, pair.1 ≠ pair.2) :
    (∀ before later, before ++ later = pairs → AllOnChains bound before) ↔ Harmless bound pairs := by
  constructor
  · intro stay before pair later split
    induction length : before.length using Nat.strongRecOn generalizing before pair later with
    | ind size inductionHypothesis =>
      subst length split
      have attached := attached_linksAfter enough
        (fun other member => inside other (List.mem_append_left _ member))
        (fun other member => apart other (List.mem_append_left _ member))
        fun first other rest split => inductionHypothesis first.length
          (by simp [← split]) first other (rest ++ pair :: later) (by simp [← split]) rfl
      intro destructive
      obtain ⟨other, member, lost⟩ :=
        attached.lost_of_destructive enough (inside pair (by simp)) destructive
      rw [← linksAfter_append] at lost
      exact lost (stay (before ++ [pair]) later (by simp) other (List.mem_append_left _ member))
  · rintro harmless before later rfl pair member
    have attached := attached_linksAfter enough
      (fun other member => inside other (List.mem_append_left _ member))
      (fun other member => apart other (List.mem_append_left _ member))
      fun first other rest split => harmless first other (rest ++ later) (by simp [← split])
    refine (attached.mem_chain_iff enough _ _).mpr ⟨?_, attached.reached pair member⟩
    exact (apart pair (List.mem_append_left _ member)).symm

end

end TreeCheck
