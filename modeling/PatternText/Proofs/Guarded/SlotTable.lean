import Mathlib.Data.List.Perm.Subperm
import PatternText.Proofs.Generation.Language
import PatternText.Proofs.Guarded.Simulation
import PatternText.Proofs.Program.Compose

/-! The numbers of groups. In a compiled program no group is numbered as high as the table has slots, so
there are never more captures than groups, and each event finds the slot that it asks for. At every moment
of a generation the table holds for each group the place at which it came among those entered so far, and
the row holds at this place the text of its last completed evaluation. A back reference to a place yields
this text, and fails where fewer groups have been entered. -/

namespace PatternText

variable {σ : Type}

namespace Guarded.Context

/-- What entering and completing groups make of a free table of so many slots and an empty row, event
after event; the latest event is the first. Between them the table and the row stay as they are. -/
inductive Made (groupCount : Nat) : List GroupEvent → Context σ → Prop where
  | start {c : Context σ} (hgroups : c.groups = #[])
      (hslots : c.slots = Array.replicate groupCount none) : Made groupCount [] c
  | entered {events : List GroupEvent} {c c' : Context σ} {id slot : Nat}
      (before : Made groupCount events c) (henter : c.enter id = .ok (slot, c')) :
      Made groupCount (.entered id :: events) c'
  | completed {events : List GroupEvent} {c c' : Context σ} {id slot : Nat} {text : String}
      (before : Made groupCount events c) (hslot : c.slots[id]? = some (some slot))
      (hcomplete : c.complete slot text = .ok c') : Made groupCount (.completed id text :: events) c'
  | between {events : List GroupEvent} {c c' : Context σ} (before : Made groupCount events c)
      (hgroups : c'.groups = c.groups) (hslots : c'.slots = c.slots) : Made groupCount events c'

end Guarded.Context

/-! ### Every event finds its slot -/

/-- The events make a table that agrees with the captures. -/
def IsTabled (groupCount : Nat) (counters : List UInt64) (events : List GroupEvent)
    (p : Progress σ) : Prop :=
  ∃ c : Guarded.Context σ, c.Made groupCount events ∧ Agrees groupCount counters p c

namespace IsTabled

variable {n id : Nat} {counters : List UInt64} {events : List GroupEvent} {p : Progress σ}

theorem start (chooser : σ) (firstGroups : Option (Array (Option String))) :
    IsTabled n [] [] (⟨chooser, #[], firstGroups⟩ : Progress σ) :=
  ⟨_, .start rfl rfl, .start n chooser firstGroups⟩

theorem enter (h : IsTabled n counters events p) (hid : id < n) :
    IsTabled n counters (.entered id :: events) (p.enter id) := by
  obtain ⟨c, hmade, hc⟩ := h
  obtain ⟨slot, c', henter, -, hc', -⟩ := hc.enter hid
  exact ⟨c', .entered hmade henter, hc'⟩

/-- A group that was entered has a slot for its text. -/
theorem complete (h : IsTabled n counters events p) (hid : id < n) {slot : Nat}
    (hslot : p.slot? id = some slot) (text : String) :
    IsTabled n counters (.completed id text :: events) (p.complete id text) := by
  obtain ⟨c, hmade, hc⟩ := h
  obtain ⟨c', hcomplete, hc', -⟩ := hc.complete hslot text
  exact ⟨c', .completed hmade ((hc.slots id hid).trans (congrArg some hslot)) hcomplete, hc'⟩

theorem settle (h : IsTabled n counters events p) (chooser : σ)
    (firstGroups : Option (Array (Option String))) :
    IsTabled n counters events { p with chooser, firstGroups } := by
  obtain ⟨c, hmade, hc⟩ := h
  exact ⟨{ c with chooser, firstGroups }, .between hmade rfl rfl,
    ⟨rfl, rfl, hc.groups, hc.slots, hc.counters, hc.nodup⟩⟩

theorem push (h : IsTabled n counters events p) : IsTabled n (0 :: counters) events p := by
  obtain ⟨c, hmade, hc⟩ := h
  exact ⟨c.push, .between hmade rfl rfl, hc.push⟩

theorem setTop {top : UInt64} (h : IsTabled n (top :: counters) events p) (i : UInt64) :
    IsTabled n (i :: counters) events p := by
  obtain ⟨c, hmade, hc⟩ := h
  exact ⟨c.setTop i, .between hmade rfl rfl, hc.setTop i⟩

theorem pop {top : UInt64} (h : IsTabled n (top :: counters) events p) :
    IsTabled n counters events p := by
  obtain ⟨c, hmade, hc⟩ := h
  exact ⟨c.pop, .between hmade rfl rfl, hc.pop⟩

end IsTabled

/-- The captures follow the events, and there was a table at all moments. -/
structure Tabled (program : Program) (around : Around) (c : Course σ) : Prop where
  captured : Captured program.steps around c
  now : IsTabled program.groupCount c.counters c.events c.progress
  moments : ∀ m ∈ c.moments, IsTabled program.groupCount m.counters m.events m.progress

theorem tabled_kept {program : Program} (hids : program.groupIds = List.range program.groupCount) :
    Kept program.steps (Tabled (σ := σ) program) := by
  have hnodup : (stepsGroupIds program.steps).Nodup := by
    rw [← Program.groupIds, hids]
    exact List.nodup_range
  have kept := captured_kept (σ := σ) hnodup
  exact {
    note := fun hnext h =>
      ⟨kept.note hnext h.captured, h.now, List.forall_mem_cons.2 ⟨h.now, h.moments⟩⟩
    settle := fun h chooser firstGroups =>
      ⟨kept.settle h.captured chooser firstGroups, h.now.settle chooser firstGroups, h.moments⟩
    enter := fun hgroup h =>
      ⟨kept.enter hgroup h.captured,
        h.now.enter (Program.lt_groupCount hids hgroup.mem_groupIds), h.moments⟩
    complete := fun {_ c id} h text => by
      have hentered : id ∈ firstEntries c.events := h.captured.entered id (List.mem_cons_self ..)
      obtain ⟨slot, hslot⟩ := List.getElem?_of_mem hentered
      exact ⟨kept.complete h.captured text,
        h.now.complete (Program.lt_groupCount hids (h.captured.now.standing id hentered))
          ((Progress.slot?_eq_some_iff h.captured.now.records).2 hslot) text, h.moments⟩
    push := fun h => ⟨kept.push h.captured, h.now.push, h.moments⟩
    setTop := fun {_ c i} h j => by
      refine ⟨kept.setTop h.captured j, ?_, ?_⟩
      · have hnow := h.now
        rw [Course.setTop]
        split
        next hempty => exact hnow
        next hcounters =>
          rw [hcounters] at hnow
          exact hnow.setTop j
      · rw [Course.setTop]
        split <;> exact h.moments
    pop := fun {_ c i} h => by
      refine ⟨kept.pop h.captured, ?_, h.moments⟩
      have hnow := h.now
      rw [Course.pop]
      cases hcounters : c.counters with
      | nil => rwa [hcounters] at hnow
      | cons top outer =>
        rw [hcounters] at hnow
        exact hnow.pop }

/-! ### Numbers -/

/-- How the table and the row of texts number the groups of a program after these events. -/
structure Guarded.Context.SlotsByEntry [Chooser σ] (c : Guarded.Context σ) (program : Program)
    (events : List GroupEvent) : Prop where
  /-- Each group that was entered has a slot of its own, and no slot is left free. -/
  slots_bijOn :
    Set.BijOn (fun id => c.slots[id]?.join) {id | .entered id ∈ events} (some '' Set.Iio c.groups.size)
  slot_eq {id : Nat} (hid : id < program.groupCount) :
    c.slots[id]? = some ((firstEntries events).idxOf? id)
  outer_before {around : Around} {id : Nat} {body : List Step}
    (h : Stands program.steps around (.group id body)) {outer : Nat} (houter : outer ∈ around.groups)
    {k : Nat} (hk : c.slots[id]? = some (some k)) : ∃ j < k, c.slots[outer]? = some (some j)
  size_le : c.groups.size ≤ program.groupCount
  texts : c.groups.toList = (firstEntries events).map (lastText events)
  backref_ok (s : Setting) {place : UInt64} {n id : Nat} (hplace : place.toNat = n + 1)
    (hid : (firstEntries events)[n]? = some id) :
    Guarded.evalStep s (.backref place) c = .ok (.ok (lastText events id), c)
  backref_error (s : Setting) (place : UInt64) :
    Guarded.evalStep s (.backref place) c = .ok (.error (.unknownGroup place), c) ↔
      place = 0 ∨ (firstEntries events).length < place.toNat

theorem CapturesFollow.size_le {program : Program} {captures : Array (Nat × String)}
    {events : List GroupEvent} (hids : program.groupIds = List.range program.groupCount)
    (h : CapturesFollow program.steps captures events) : captures.size ≤ program.groupCount := by
  have hsubset : firstEntries events ⊆ List.range program.groupCount :=
    fun id hid => hids ▸ h.standing id hid
  have hlength := (List.subperm_of_subset (nodup_firstEntries events) hsubset).length_le
  rwa [List.length_range, ← h.records.size_eq] at hlength

theorem CapturesFollow.slotsByEntry [Chooser σ] {program : Program} {p : Progress σ}
    {events : List GroupEvent} (hids : program.groupIds = List.range program.groupCount)
    (h : CapturesFollow program.steps p.captures events) {counters : List UInt64}
    {c : Guarded.Context σ} (hc : Agrees program.groupCount counters p c) :
    c.SlotsByEntry program events := by
  have hsize : c.groups.size = p.captures.size := by rw [hc.groups, Array.size_map]
  have hslot {id k : Nat} (hid : id < program.groupCount) :
      c.slots[id]? = some (some k) ↔ (firstEntries events)[k]? = some id := by
    rw [hc.slots id hid, Option.some_inj, p.slot?_eq_some_iff h.records]
  exact {
    slots_bijOn := by
      rw [hsize]
      refine h.records.slots_bijOn.congr fun id hid => ?_
      have hid := Program.lt_groupCount hids (h.standing id (mem_firstEntries.2 hid))
      show p.slot? id = c.slots[id]?.join
      rw [hc.slots id hid, Option.join_some]
    slot_eq := fun hid => by rw [hc.slots _ hid, p.slot?_eq_idxOf? h.records]
    outer_before := fun hgroup outer houter k hk => by
      have hid := Program.lt_groupCount hids hgroup.mem_groupIds
      obtain ⟨j, hj, hget⟩ := h.nested hgroup outer houter k ((hslot hid).1 hk)
      have houter := Program.lt_groupCount hids (h.standing outer (List.mem_of_getElem? hget))
      exact ⟨j, hj, (hslot houter).2 hget⟩
    size_le := hsize ▸ h.size_le hids
    texts := by
      rw [hc.groups, Array.toList_map, h.records, List.map_map]
      rfl
    backref_ok := fun s place n id hplace hid => by
      rw [Guarded.evalStep, hc.captured?_eq, h.records.captured?_eq_some hplace hid]
    backref_error := fun s place => by
      rw [Guarded.evalStep, hc.captured?_eq, ← h.records.captured?_eq_none_iff]
      cases p.captured? place <;> simp }

/-- What the captures of a program are after these events. -/
structure NumberedByEntry [Chooser σ] (program : Program) (events : List GroupEvent) (p : Progress σ) :
    Prop where
  /-- Each group that was entered has a place of its own, and no place is left free. -/
  slots_bijOn : Set.BijOn p.slot? {id | .entered id ∈ events} (some '' Set.Iio p.captures.size)
  slot?_isSome (id : Nat) : (p.slot? id).isSome ↔ .entered id ∈ events
  slot?_eq_some (id k : Nat) : p.slot? id = some k ↔ (firstEntries events)[k]? = some id
  outer_before {around : Around} {id : Nat} {body : List Step}
    (h : Stands program.steps around (.group id body)) {outer : Nat} (houter : outer ∈ around.groups)
    {k : Nat} (hk : p.slot? id = some k) : ∃ j < k, p.slot? outer = some j
  size_le : p.captures.size ≤ program.groupCount
  text {id k : Nat} (hk : p.slot? id = some k) :
    (p.captures[k]?).map Prod.snd = some (lastText events id)
  backref_ok (s : Setting) (counters : List UInt64) {place : UInt64} {n id : Nat}
    (hplace : place.toNat = n + 1) (hid : (firstEntries events)[n]? = some id) :
    evalStep s counters (.backref place) p = (.ok (lastText events id), p)
  backref_error (s : Setting) (counters : List UInt64) (place : UInt64) :
    (evalStep s counters (.backref place) p).1 = .error (.unknownGroup place) ↔
      place = 0 ∨ (firstEntries events).length < place.toNat
  /-- Whatever agrees with the captures numbers the groups in the same way. -/
  table {counters : List UInt64} {c : Guarded.Context σ}
    (hc : Agrees program.groupCount counters p c) : c.SlotsByEntry program events

theorem CapturesFollow.numberedByEntry [Chooser σ] {program : Program} {p : Progress σ}
    {events : List GroupEvent} (hids : program.groupIds = List.range program.groupCount)
    (h : CapturesFollow program.steps p.captures events) : NumberedByEntry program events p where
  slots_bijOn := h.records.slots_bijOn
  slot?_isSome id := by
    rw [Option.isSome_iff_exists, ← mem_firstEntries, List.mem_iff_getElem?]
    exact exists_congr fun k => p.slot?_eq_some_iff h.records
  slot?_eq_some id k := p.slot?_eq_some_iff h.records
  outer_before hgroup outer houter k hk := by
    obtain ⟨j, hj, hget⟩ := h.nested hgroup outer houter k ((p.slot?_eq_some_iff h.records).1 hk)
    exact ⟨j, hj, (p.slot?_eq_some_iff h.records).2 hget⟩
  size_le := h.size_le hids
  text hk := by
    rw [h.records.getElem?_eq, (p.slot?_eq_some_iff h.records).1 hk]
    rfl
  backref_ok s counters place n id hplace hid := by
    rw [evalStep, h.records.captured?_eq_some hplace hid]
  backref_error s counters place := by
    rw [evalStep, ← h.records.captured?_eq_none_iff]
    cases p.captured? place <;> simp
  table hc := h.slotsByEntry hids hc

/-- At all moments of a generation the captures of a compiled program are numbered in the order in
which their groups were first entered and hold the texts last completed, and they never get fewer. The
slots that groups claim in the table are the same. -/
theorem generate_numbered_by_entry [Chooser σ] {config : Config} {tree : ParseTree} (g : Generator σ)
    (h : Program.ofTree config tree = .ok g.program) :
    g.generate = (g.generateRun.1.mapError (⟨g.rangeIndex, ·⟩),
        { g with
          chooser := g.generateRun.2.progress.chooser
          firstGroups := g.generateRun.2.progress.firstGroups }) ∧
      (∀ m ∈ g.generateRun.2.moments, NumberedByEntry g.program m.events m.progress ∧
        IsTabled g.program.groupCount m.counters m.events m.progress ∧
        firstEntries m.events <+: firstEntries g.generateRun.2.events) ∧
      NumberedByEntry g.program g.generateRun.2.events g.generateRun.2.progress ∧
      IsTabled g.program.groupCount g.generateRun.2.counters g.generateRun.2.events
        g.generateRun.2.progress ∧
      g.generateRun.2.moments.Pairwise fun later earlier =>
        firstEntries earlier.events <+: firstEntries later.events ∧
          earlier.progress.captures.size ≤ later.progress.captures.size := by
  have hids := Program.groupIds_ofTree h
  have hafter : After (Tabled g.program) {} g.generateRun :=
    (tabled_kept hids).runSteps g.setting (fun _ => .outermost) ""
      ⟨⟨.start, fun _ hmem => absurd hmem List.not_mem_nil, fun _ hmem => absurd hmem List.not_mem_nil,
        .nil⟩, .start _ _, fun _ hmem => absurd hmem List.not_mem_nil⟩
  obtain ⟨inside, htabled⟩ := hafter.exists_inside
  have hcaptured := htabled.captured
  refine ⟨g.generate_eq_generateRun, fun m hm => ?_, hcaptured.now.numberedByEntry hids, htabled.now,
    hcaptured.ordered.imp_of_mem fun hlater hearlier hsuffix => ?_⟩
  · obtain ⟨hfollow, hsuffix⟩ := hcaptured.moments m hm
    exact ⟨hfollow.numberedByEntry hids, htabled.moments m hm, firstEntries_prefix hsuffix⟩
  · have hgrown := firstEntries_prefix hsuffix
    rw [(hcaptured.moments _ hearlier).1.records.size_eq, (hcaptured.moments _ hlater).1.records.size_eq]
    exact ⟨hgrown, hgrown.length_le⟩

/-- A generator for two groups, one inside the other, and a reference to the inner one. -/
def nestedGroups : Generator Script where
  program := ⟨[.group 0 [.group 1 [.literal "b"]], .backref 2], 2⟩
  upperBound := 10
  chooser := ⟨[]⟩

theorem nestedGroups_compiled (config : Config) :
    Program.ofText config "((b))\\2" = .ok nestedGroups.program := by
  have hletter : Program.ofText config "b" = .ok ⟨[.literal "b"], 0⟩ :=
    Program.ofText_plain (by decide)
  have hinner : Program.ofText config "(b)" = .ok ⟨[.group 0 [.literal "b"]], 1⟩ :=
    (Program.ofText_parens hletter).trans (Program.limited_of_le (by decide))
  have houter : Program.ofText config "((b))" = .ok ⟨[.group 0 [.group 1 [.literal "b"]]], 2⟩ :=
    (Program.ofText_parens hinner).trans (Program.limited_of_le (by decide))
  have hbackref : Program.ofText config "\\2" = .ok ⟨[.backref 2], 0⟩ :=
    Program.ofText_backref (d := '2') (by decide) (by decide)
  have htext : "((b))" ++ "\\2" = "((b))\\2" := by decide
  rw [← htext]
  exact Program.ofText_append houter hbackref (Program.not_topLevelBar houter rfl)
    (Program.not_topLevelBar hbackref rfl)

theorem nestedGroups_numbered :
    (∃ tree, parse patternGrammar "((b))\\2" = .ok tree ∧
      Program.ofTree (Config.ofSettings {}) tree = .ok nestedGroups.program) ∧
    nestedGroups.generate.1 = .ok "bb" ∧
    NumberedByEntry nestedGroups.program
      [.completed 0 "b", .completed 1 "b", .entered 1, .entered 0]
      nestedGroups.generateRun.2.progress ∧
    IsTabled 2 [] [.completed 0 "b", .completed 1 "b", .entered 1, .entered 0]
      nestedGroups.generateRun.2.progress := by
  obtain ⟨tree, hparse, htree⟩ : ∃ tree, parse patternGrammar "((b))\\2" = .ok tree ∧
      Program.ofTree (Config.ofSettings {}) tree = .ok nestedGroups.program := by
    have hcompiled := nestedGroups_compiled (Config.ofSettings {})
    rw [Program.ofText] at hcompiled
    split at hcompiled
    next tree hparse => exact ⟨tree, hparse, hcompiled⟩
    next => cases hcompiled
  obtain ⟨hgenerate, -, hend, htabled, -⟩ := generate_numbered_by_entry nestedGroups htree
  have htext : nestedGroups.generateRun.1 = .ok "bb" := by with_unfolding_all rfl
  have hevents : nestedGroups.generateRun.2.events =
      [.completed 0 "b", .completed 1 "b", .entered 1, .entered 0] := by with_unfolding_all rfl
  have hcounters : nestedGroups.generateRun.2.counters = [] := by with_unfolding_all rfl
  rw [hevents] at hend htabled
  rw [hcounters] at htabled
  refine ⟨⟨tree, hparse, htree⟩, ?_, hend, htabled⟩
  rw [hgenerate, htext]
  rfl

end PatternText
