import Mathlib.Data.List.Dedup
import Mathlib.Data.List.Infix
import Mathlib.Data.Set.Function
import Mathlib.Order.Interval.Set.Defs
import PatternText.Proofs.Generation.Course
import PatternText.Proofs.Program.Numbering

/-! Captured groups and what happened to groups. At every moment the captures list the groups entered so
far, each once, in the order of their first entries, and with each the text of its last completed
evaluation, empty before the first. So a place among the captures stands for the group that came at this
place. A group is entered only after those it is nested in. -/

namespace PatternText

namespace GroupEvent

/-- The group that was entered. -/
def entered? : GroupEvent → Option Nat
  | entered id => some id
  | completed _ _ => none

/-- The text that the group `id` was completed with. -/
def completed? (id : Nat) : GroupEvent → Option String
  | entered _ => none
  | completed id' text => if id' = id then some text else none

end GroupEvent

/-- The groups that were entered, each once, in the order of their first entries. Of the events the
latest is the first. -/
def firstEntries (events : List GroupEvent) : List Nat :=
  (events.filterMap GroupEvent.entered?).dedup.reverse

/-- The text of the last completed evaluation of a group, empty if there was none. -/
def lastText (events : List GroupEvent) (id : Nat) : String :=
  (events.findSome? (GroupEvent.completed? id)).getD ""

theorem mem_firstEntries {events : List GroupEvent} {id : Nat} :
    id ∈ firstEntries events ↔ .entered id ∈ events := by
  rw [firstEntries, List.mem_reverse, List.mem_dedup, List.mem_filterMap]
  constructor
  · rintro ⟨event, hmem, hevent⟩
    cases event with
    | entered id' =>
      cases hevent
      exact hmem
    | completed _ _ => cases hevent
  · exact fun hmem => ⟨.entered id, hmem, rfl⟩

theorem nodup_firstEntries (events : List GroupEvent) : (firstEntries events).Nodup :=
  List.nodup_reverse.2 (List.nodup_dedup _)

theorem firstEntries_entered_of_mem {events : List GroupEvent} {id : Nat}
    (h : id ∈ firstEntries events) : firstEntries (.entered id :: events) = firstEntries events := by
  rw [firstEntries, List.mem_reverse, List.mem_dedup] at h
  change (id :: events.filterMap GroupEvent.entered?).dedup.reverse = firstEntries events
  rw [List.dedup_cons_of_mem h, firstEntries]

theorem firstEntries_entered_of_not_mem {events : List GroupEvent} {id : Nat}
    (h : id ∉ firstEntries events) :
    firstEntries (.entered id :: events) = firstEntries events ++ [id] := by
  rw [firstEntries, List.mem_reverse, List.mem_dedup] at h
  change (id :: events.filterMap GroupEvent.entered?).dedup.reverse = firstEntries events ++ [id]
  rw [List.dedup_cons_of_notMem h, List.reverse_cons, firstEntries]

theorem firstEntries_completed (events : List GroupEvent) (id : Nat) (text : String) :
    firstEntries (.completed id text :: events) = firstEntries events := rfl

theorem firstEntries_prefix_cons (event : GroupEvent) (events : List GroupEvent) :
    firstEntries events <+: firstEntries (event :: events) := by
  cases event with
  | completed id text => exact List.prefix_rfl
  | entered id =>
    by_cases h : id ∈ firstEntries events
    · rw [firstEntries_entered_of_mem h]
    · rw [firstEntries_entered_of_not_mem h]
      exact List.prefix_append _ _

/-- Later entries come after the earlier ones. -/
theorem firstEntries_prefix {before events : List GroupEvent} (h : before <:+ events) :
    firstEntries before <+: firstEntries events := by
  obtain ⟨later, rfl⟩ := h
  induction later with
  | nil => exact List.prefix_rfl
  | cons event later ih => exact ih.trans (firstEntries_prefix_cons event (later ++ before))

theorem lastText_entered (events : List GroupEvent) (id id' : Nat) :
    lastText (.entered id :: events) id' = lastText events id' := rfl

theorem lastText_completed (events : List GroupEvent) (id id' : Nat) (text : String) :
    lastText (.completed id text :: events) id' = if id = id' then text else lastText events id' := by
  rw [lastText, List.findSome?_cons, GroupEvent.completed?]
  by_cases h : id = id'
  · rw [if_pos h, if_pos h]
    rfl
  · rw [if_neg h, if_neg h]
    rfl

/-! ### The captures are what the events tell -/

variable {σ : Type}

/-- The captures list the groups entered, each with its last text. -/
def Records (captures : Array (Nat × String)) (events : List GroupEvent) : Prop :=
  captures.toList = (firstEntries events).map fun id => (id, lastText events id)

namespace Records

variable {p : Progress σ} {captures : Array (Nat × String)} {events : List GroupEvent}

theorem enter (h : Records p.captures events) {id : Nat}
    (hnew : id ∉ firstEntries events → lastText events id = "") :
    Records (p.enter id).captures (.entered id :: events) := by
  have hany : p.captures.any (·.1 == id) = true ↔ id ∈ firstEntries events := by
    rw [← Array.any_toList, h, List.any_map, List.any_eq_true]
    simp
  rw [Progress.enter]
  by_cases hmem : id ∈ firstEntries events
  · rw [if_pos (hany.2 hmem), Records, firstEntries_entered_of_mem hmem]
    exact h
  · rw [if_neg (hmem ∘ hany.1), Records, firstEntries_entered_of_not_mem hmem, List.map_append,
      Array.toList_push, h, List.map_singleton, lastText_entered, hnew hmem]
    rfl

theorem complete (h : Records p.captures events) (id : Nat) (text : String) :
    Records (p.complete id text).captures (.completed id text :: events) := by
  rw [Records, Progress.complete, Array.toList_map, h, List.map_map, firstEntries_completed]
  refine List.map_congr_left fun id' _ => ?_
  rw [Function.comp_apply, lastText_completed]
  by_cases hid : id = id'
  · rw [if_pos hid, if_pos (beq_iff_eq.2 hid.symm), hid]
  · rw [if_neg hid, if_neg fun heq => hid (beq_iff_eq.1 heq).symm]

theorem size_eq (h : Records captures events) : captures.size = (firstEntries events).length := by
  rw [← Array.length_toList, h, List.length_map]

theorem getElem?_eq (h : Records captures events) (k : Nat) :
    captures[k]? = ((firstEntries events)[k]?).map fun id => (id, lastText events id) := by
  rw [← Array.getElem?_toList, h, List.getElem?_map]

end Records

/-- The place of a group among the captures, counted from zero. -/
def Progress.slot? (p : Progress σ) (id : Nat) : Option Nat := p.captures.findIdx? (·.1 == id)

theorem Progress.slot?_eq_idxOf? {p : Progress σ} {events : List GroupEvent}
    (h : Records p.captures events) (id : Nat) : p.slot? id = (firstEntries events).idxOf? id := by
  have hcaptures : p.captures = ((firstEntries events).map fun id => (id, lastText events id)).toArray := by
    rw [← h]
  rw [Progress.slot?, hcaptures, List.findIdx?_toArray, List.findIdx?_map]
  rfl

theorem Progress.slot?_eq_some_iff {p : Progress σ} {events : List GroupEvent}
    (h : Records p.captures events) {id k : Nat} :
    p.slot? id = some k ↔ (firstEntries events)[k]? = some id := by
  rw [p.slot?_eq_idxOf? h, List.idxOf?_eq_some_iff, List.getElem?_eq_some_iff]
  refine ⟨fun ⟨hk, hid, _⟩ => ⟨hk, hid⟩, fun ⟨hk, hid⟩ => ⟨hk, hid, fun j hj hsame => ?_⟩⟩
  exact hj.ne ((nodup_firstEntries events).getElem_inj_iff.1 (hsame.trans hid.symm))

/-! ### Places -/

theorem Records.captured?_eq {p : Progress σ} {events : List GroupEvent}
    (h : Records p.captures events) (place : UInt64) :
    p.captured? place =
      if place = 0 then none else ((firstEntries events)[place.toNat - 1]?).map (lastText events) := by
  rw [Progress.captured?, h.getElem?_eq, Option.map_map]
  rfl

theorem Records.captured?_eq_some {p : Progress σ} {events : List GroupEvent}
    (h : Records p.captures events) {place : UInt64} {n id : Nat} (hplace : place.toNat = n + 1)
    (hid : (firstEntries events)[n]? = some id) : p.captured? place = some (lastText events id) := by
  have hne : place ≠ 0 := by
    rintro rfl
    cases hplace
  rw [h.captured?_eq, if_neg hne, hplace, Nat.add_sub_cancel, hid]
  rfl

theorem Records.captured?_eq_none_iff {p : Progress σ} {events : List GroupEvent}
    (h : Records p.captures events) (place : UInt64) :
    p.captured? place = none ↔ place = 0 ∨ (firstEntries events).length < place.toNat := by
  rw [h.captured?_eq]
  by_cases hzero : place = 0
  · simp [hzero]
  · have hpos : 0 < place.toNat := Nat.pos_of_ne_zero fun heq => hzero (UInt64.toNat_inj.1 heq)
    rw [if_neg hzero, Option.map_eq_none_iff, List.getElem?_eq_none_iff]
    simp only [hzero, false_or]
    omega

theorem Records.slots_bijOn {p : Progress σ} {events : List GroupEvent}
    (h : Records p.captures events) :
    Set.BijOn p.slot? {id | .entered id ∈ events} (some '' Set.Iio p.captures.size) := by
  refine ⟨fun id hid => ?_, fun id _ id' hid' heq => ?_, ?_⟩
  · obtain ⟨k, hk, hget⟩ := List.getElem_of_mem (mem_firstEntries.2 hid)
    refine ⟨k, h.size_eq ▸ hk, (p.slot?_eq_some_iff h |>.2 ?_).symm⟩
    rw [List.getElem?_eq_getElem hk, hget]
  · obtain ⟨k, hk⟩ := List.getElem?_of_mem (mem_firstEntries.2 hid')
    have hslot : p.slot? id = some k := heq.trans ((p.slot?_eq_some_iff h).2 hk)
    exact Option.some.inj (((p.slot?_eq_some_iff h).1 hslot).symm.trans hk)
  · rintro _ ⟨k, hk, rfl⟩
    have hlt : k < (firstEntries events).length := h.size_eq ▸ hk
    have hget : (firstEntries events)[k]? = some (firstEntries events)[k] :=
      List.getElem?_eq_getElem hlt
    exact ⟨_, mem_firstEntries.1 (List.getElem_mem hlt), (p.slot?_eq_some_iff h).2 hget⟩

/-! ### Nesting -/

theorem Stands.mem_nestedGroups {program : List Step} {around : Around} {step : Step}
    (h : Stands program around step) {site : List Nat × Nat}
    (hsite : site ∈ step.nestedGroups around.groups) : site ∈ stepsNestedGroups [] program := by
  induction h with
  | outermost hmem => exact mem_stepsNestedGroups hmem hsite
  | inGroup _ hmem ih =>
    exact ih (List.mem_cons_of_mem _ (mem_stepsNestedGroups hmem hsite))
  | inRound _ _ ih => exact ih hsite
  | inBranch _ hbranch hmem ih =>
    exact ih (mem_branchesNestedGroups hbranch (mem_stepsNestedGroups hmem hsite))

theorem Stands.mem_of_group {program : List Step} {around : Around} {id : Nat} {body : List Step}
    (h : Stands program around (.group id body)) :
    (around.groups, id) ∈ stepsNestedGroups [] program :=
  h.mem_nestedGroups (List.mem_cons_self ..)

theorem Stands.mem_groupIds {program : List Step} {around : Around} {id : Nat} {body : List Step}
    (h : Stands program around (.group id body)) : id ∈ stepsGroupIds program :=
  map_snd_stepsNestedGroups [] program ▸ List.mem_map_of_mem h.mem_of_group

/-- Where no two groups share a number, the number tells what its group is nested in. -/
theorem Stands.groups_eq {program : List Step} (hnodup : (stepsGroupIds program).Nodup)
    {around around' : Around} {id : Nat} {body body' : List Step}
    (h : Stands program around (.group id body)) (h' : Stands program around' (.group id body')) :
    around.groups = around'.groups := by
  rw [← map_snd_stepsNestedGroups []] at hnodup
  exact congrArg Prod.fst (List.inj_on_of_nodup_map hnodup h.mem_of_group h'.mem_of_group rfl)

/-- Wherever `id` comes, `outer` came before. -/
def Precedes (entries : List Nat) (outer id : Nat) : Prop :=
  ∀ k : Nat, entries[k]? = some id → ∃ j < k, entries[j]? = some outer

theorem Precedes.append {entries : List Nat} {outer id last : Nat} (h : Precedes entries outer id)
    (hlast : last = id → outer ∈ entries) : Precedes (entries ++ [last]) outer id := by
  intro k hk
  by_cases hlt : k < entries.length
  · rw [List.getElem?_append_left hlt] at hk
    obtain ⟨j, hj, houter⟩ := h k hk
    exact ⟨j, hj, by rw [List.getElem?_append_left (hj.trans hlt), houter]⟩
  · rw [List.getElem?_append_right (Nat.not_lt.1 hlt), List.getElem?_singleton] at hk
    split at hk
    · obtain ⟨j, hj, houter⟩ := List.getElem_of_mem (hlast (Option.some.inj hk))
      exact ⟨j, by omega, by rw [List.getElem?_append_left hj, List.getElem?_eq_getElem hj, houter]⟩
    · cases hk

/-! ### Every change -/

/-- The captures follow the events: they record them, and groups came after those around them. -/
structure CapturesFollow (program : List Step) (captures : Array (Nat × String))
    (events : List GroupEvent) : Prop where
  records : Records captures events
  standing : ∀ id ∈ firstEntries events, id ∈ stepsGroupIds program
  nested {around : Around} {id : Nat} {body : List Step} (h : Stands program around (.group id body)) :
    ∀ outer ∈ around.groups, Precedes (firstEntries events) outer id
  untouched : ∀ id ∉ firstEntries events, lastText events id = ""

namespace CapturesFollow

variable {program : List Step} {p : Progress σ} {events : List GroupEvent}

theorem start : CapturesFollow program #[] [] where
  records := rfl
  standing _ hmem := absurd hmem List.not_mem_nil
  nested _ _ _ _ hk := nomatch hk
  untouched _ _ := rfl

theorem enter (hnodup : (stepsGroupIds program).Nodup) {around : Around} {id : Nat} {body : List Step}
    (hgroup : Stands program around (.group id body))
    (hentered : ∀ outer ∈ around.groups, outer ∈ firstEntries events)
    (h : CapturesFollow program p.captures events) :
    CapturesFollow program (p.enter id).captures (.entered id :: events) where
  records := h.records.enter (h.untouched id)
  standing id' hmem := by
    cases mem_firstEntries.1 hmem with
    | head => exact hgroup.mem_groupIds
    | tail _ hmem => exact h.standing id' (mem_firstEntries.2 hmem)
  nested := by
    intro around' id' body' hgroup' outer houter
    by_cases hmem : id ∈ firstEntries events
    · rw [firstEntries_entered_of_mem hmem]
      exact h.nested hgroup' outer houter
    · rw [firstEntries_entered_of_not_mem hmem]
      refine (h.nested hgroup' outer houter).append fun heq => hentered outer ?_
      subst heq
      rwa [hgroup.groups_eq hnodup hgroup']
  untouched id' hmem :=
    h.untouched id' fun hmem' => hmem ((firstEntries_prefix_cons _ _).subset hmem')

theorem complete (h : CapturesFollow program p.captures events) {id : Nat}
    (hid : id ∈ firstEntries events) (text : String) :
    CapturesFollow program (p.complete id text).captures (.completed id text :: events) where
  records := h.records.complete id text
  standing := h.standing
  nested := h.nested
  untouched id' hmem := by
    have hne : id ≠ id' := fun heq => hmem (heq ▸ hid)
    rw [lastText_completed, if_neg hne]
    exact h.untouched id' hmem

end CapturesFollow

/-- The captures follow the events now and did so at all moments, each of which came after some of the
events. All groups around have been entered. -/
structure Captured (program : List Step) (around : Around) (c : Course σ) : Prop where
  now : CapturesFollow program c.progress.captures c.events
  entered : ∀ id ∈ around.groups, id ∈ firstEntries c.events
  moments : ∀ m ∈ c.moments, CapturesFollow program m.progress.captures m.events ∧ m.events <:+ c.events
  ordered : c.moments.Pairwise fun later earlier => earlier.events <:+ later.events

/-- With one more event all moments still came after some of the events. -/
theorem Captured.moments_cons {program : List Step} {around : Around} {c : Course σ}
    (h : Captured program around c) (event : GroupEvent) :
    ∀ m ∈ c.moments, CapturesFollow program m.progress.captures m.events ∧
      m.events <:+ event :: c.events := by
  intro m hm
  obtain ⟨hfollow, hsuffix⟩ := h.moments m hm
  exact ⟨hfollow, hsuffix.trans (List.suffix_cons event c.events)⟩

theorem captured_kept {program : List Step} (hnodup : (stepsGroupIds program).Nodup) :
    Kept program (Captured (σ := σ) program) where
  note _ h := {
    now := h.now
    entered := h.entered
    moments := List.forall_mem_cons.2 ⟨⟨h.now, List.suffix_rfl⟩, h.moments⟩
    ordered := List.pairwise_cons.2 ⟨fun m hm => (h.moments m hm).2, h.ordered⟩ }
  settle h _ _ := ⟨h.now, h.entered, h.moments, h.ordered⟩
  enter hgroup h := {
    now := h.now.enter hnodup hgroup h.entered
    entered := List.forall_mem_cons.2 ⟨mem_firstEntries.2 (List.mem_cons_self ..), fun id hid =>
      (firstEntries_prefix_cons _ _).subset (h.entered id hid)⟩
    moments := h.moments_cons _
    ordered := h.ordered }
  complete h text := {
    now := h.now.complete (h.entered _ (List.mem_cons_self ..)) text
    entered := fun id hid => h.entered id (List.mem_cons_of_mem _ hid)
    moments := h.moments_cons _
    ordered := h.ordered }
  push h := ⟨h.now, h.entered, h.moments, h.ordered⟩
  setTop h j := by
    rw [Course.setTop]
    split
    · exact ⟨h.now, h.entered, h.moments, h.ordered⟩
    · exact ⟨h.now, h.entered, h.moments, h.ordered⟩
  pop h := ⟨h.now, h.entered, h.moments, h.ordered⟩

end PatternText
