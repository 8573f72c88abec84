import PatternText.Proofs.Generation.Captures
import PatternText.Proofs.Guarded.Machine
import PatternText.Proofs.Program.Numbering

/-! Guarded generation is generation. The row of texts holds those of the captures, the table tells for
each group its place among the captures, and the stack holds the counters passed down to the step. While
a step is evaluated more captures come behind those that are there, so a group finds its own slot again
when its body is done. As long as the numbers of all groups are below the size of the table, every access
succeeds and every count is drawn from an interval, and what comes out is what comes out of plain
generation, unless a limit was passed. -/

namespace PatternText

variable {σ : Type}

/-- What lies on the mutable data inside loops with these counters. -/
structure Agrees (groupCount : Nat) (counters : List UInt64) (p : Progress σ)
    (c : Guarded.Context σ) : Prop where
  chooser : c.chooser = p.chooser
  firstGroups : c.firstGroups = p.firstGroups
  groups : c.groups = p.captures.map Prod.snd
  slots : ∀ id < groupCount, c.slots[id]? = some (p.slot? id)
  counters : c.counters.toList.reverse = counters
  /-- No group was entered twice. -/
  nodup : (p.captures.toList.map Prod.fst).Nodup

/-- Groups keep their places. -/
def KeepsSlots (p p' : Progress σ) : Prop := ∀ id k, p.slot? id = some k → p'.slot? id = some k

theorem KeepsSlots.refl (p : Progress σ) : KeepsSlots p p := fun _ _ h => h

theorem KeepsSlots.trans {p p' p'' : Progress σ} (h : KeepsSlots p p') (h' : KeepsSlots p' p'') :
    KeepsSlots p p'' := fun id k hk => h' id k (h id k hk)

namespace Agrees

variable {n id : Nat} {counters : List UInt64} {p : Progress σ} {c : Guarded.Context σ}

/-- Nothing is captured yet, and no group has claimed a slot. -/
theorem start (n : Nat) (chooser : σ) (firstGroups : Option (Array (Option String))) :
    Agrees n [] ⟨chooser, #[], firstGroups⟩
      ⟨chooser, firstGroups, #[], Array.replicate n none, #[]⟩ where
  chooser := rfl
  firstGroups := rfl
  groups := Array.map_empty.symm
  slots id hid := by
    rw [Array.getElem?_replicate, if_pos hid, Progress.slot?, Array.findIdx?_empty]
  counters := rfl
  nodup := List.nodup_nil

/-! ### Groups -/

theorem any_eq_isSome_slot? :
    p.captures.any (·.1 == id) = (p.slot? id).isSome := by
  rw [Progress.slot?, Array.findIdx?_isSome]

/-- A new group comes behind all others. -/
theorem slot?_push (hslot : p.slot? id = none) (id' : Nat) :
    ({ p with captures := p.captures.push (id, "") } : Progress σ).slot? id' =
      if id = id' then some p.captures.size else p.slot? id' := by
  show (p.captures.push (id, "")).findIdx? (·.1 == id') = _
  rw [Array.findIdx?_push]
  by_cases heq : id = id'
  · subst heq
    rw [if_pos rfl, if_pos (beq_self_eq_true id), ← Progress.slot?, hslot, Option.none_or]
  · rw [if_neg heq, if_neg (by rwa [beq_iff_eq]), Option.or_none, Progress.slot?]

/-- The slot of a group is claimed when it is entered first, and found again later. -/
theorem enter (h : Agrees n counters p c) (hid : id < n) :
    ∃ slot c', c.enter id = .ok (slot, c') ∧ (p.enter id).slot? id = some slot ∧
      Agrees n counters (p.enter id) c' ∧ KeepsSlots p (p.enter id) := by
  rw [Guarded.Context.enter, require_some (h.slots id hid), Progress.enter, any_eq_isSome_slot?]
  cases hslot : p.slot? id with
  | some slot => exact ⟨slot, c, rfl, hslot, h, .refl p⟩
  | none =>
    have hnew := slot?_push hslot
    have hsize : c.groups.size = p.captures.size := by rw [h.groups, Array.size_map]
    refine ⟨c.groups.size, _, rfl, ?_, ⟨h.chooser, h.firstGroups, ?_, ?_, h.counters, ?_⟩, ?_⟩
    · show Progress.slot? { p with captures := p.captures.push (id, "") } id = _
      rw [hnew, if_pos rfl, hsize]
    · show c.groups.push "" = (p.captures.push (id, "")).map Prod.snd
      rw [Array.map_push, h.groups]
    · intro id' hid'
      show (c.slots.setIfInBounds id (some c.groups.size))[id']? =
        some (Progress.slot? { p with captures := p.captures.push (id, "") } id')
      have hlt : id < c.slots.size := (Array.getElem?_eq_some_iff.1 (h.slots id hid)).1
      rw [Array.getElem?_setIfInBounds, hnew, if_pos hlt, hsize, h.slots id' hid']
      split <;> rfl
    · show ((p.captures.push (id, "")).toList.map Prod.fst).Nodup
      rw [Array.toList_push, List.map_append, List.map_singleton, List.nodup_append]
      refine ⟨h.nodup, List.nodup_singleton id, fun a ha b hb => ?_⟩
      obtain ⟨captured, hmem, rfl⟩ := List.mem_map.1 ha
      rw [List.mem_singleton.1 hb]
      have hne := Array.findIdx?_eq_none_iff.1 hslot captured (Array.mem_toList_iff.1 hmem)
      exact fun heq => Bool.false_ne_true (hne.symm.trans (beq_iff_eq.2 heq))
    · intro id' k hk
      show Progress.slot? { p with captures := p.captures.push (id, "") } id' = some k
      rw [hnew, if_neg (fun heq => by rw [← heq, hslot] at hk; cases hk), hk]

theorem slot?_complete (p : Progress σ) (id : Nat) (text : String) (id' : Nat) :
    (p.complete id text).slot? id' = p.slot? id' := by
  show (p.captures.map _).findIdx? _ = p.captures.findIdx? _
  rw [Array.findIdx?_map]
  congr 1
  funext captured
  rw [Function.comp_apply]
  split
  next heq => rw [beq_iff_eq.1 heq]
  next => rfl

/-- Of the captures only the one in the slot of the group changes. -/
theorem complete (h : Agrees n counters p c) {slot : Nat} (hslot : p.slot? id = some slot)
    (text : String) :
    ∃ c', c.complete slot text = .ok c' ∧ Agrees n counters (p.complete id text) c' ∧
      KeepsSlots p (p.complete id text) := by
  obtain ⟨hlt, hfound, -⟩ := Array.findIdx?_eq_some_iff_getElem.1 hslot
  have hsize : slot < c.groups.size := by rwa [h.groups, Array.size_map]
  rw [Guarded.Context.complete, dif_pos hsize]
  refine ⟨_, rfl, ⟨h.chooser, h.firstGroups, ?_, ?_, h.counters, ?_⟩, ?_⟩
  · show c.groups.set slot text hsize = (p.complete id text).captures.map Prod.snd
    rw [Progress.complete, Array.map_map]
    refine Array.ext (by rw [Array.size_set, Array.size_map, h.groups, Array.size_map]) ?_
    intro k hk hk'
    rw [Array.size_map] at hk'
    have hk'' : k < c.groups.size := by rwa [h.groups, Array.size_map]
    have hgroup : c.groups[k] = p.captures[k].2 := by simp [h.groups]
    have hplace : (p.captures[k].1 == id) = true ↔ slot = k := by
      rw [beq_iff_eq, ← beq_iff_eq.1 hfound]
      have hk : k < (p.captures.toList.map Prod.fst).length := by simpa using hk'
      have hslot' : slot < (p.captures.toList.map Prod.fst).length := by simpa using hlt
      have hinj : (p.captures.toList.map Prod.fst)[k] = (p.captures.toList.map Prod.fst)[slot] ↔
          k = slot := h.nodup.getElem_inj_iff
      simp only [List.getElem_map, Array.getElem_toList] at hinj
      rw [hinj]
      exact eq_comm
    rw [Array.getElem_set, Array.getElem_map, Function.comp_apply, hgroup]
    by_cases heq : slot = k
    · rw [if_pos heq, if_pos (hplace.2 heq)]
    · rw [if_neg heq, if_neg (mt hplace.1 heq)]
  · intro id' hid'
    rw [slot?_complete]
    exact h.slots id' hid'
  · have hnames : (p.complete id text).captures.toList.map Prod.fst = p.captures.toList.map Prod.fst := by
      rw [Progress.complete, Array.toList_map, List.map_map]
      refine List.map_congr_left fun captured _ => ?_
      rw [Function.comp_apply]
      split
      next heq => exact (beq_iff_eq.1 heq).symm
      next => rfl
    rw [hnames]
    exact h.nodup
  · intro id' k hk
    rw [slot?_complete, hk]

/-- A place is looked up in the row as among the captures. -/
theorem captured?_eq (h : Agrees n counters p c) (place : UInt64) :
    (if place = 0 then none else c.groups[place.toNat - 1]?) = p.captured? place := by
  rw [Progress.captured?, h.groups, Array.getElem?_map]

/-! ### Counters -/

theorem push (h : Agrees n counters p c) : Agrees n (0 :: counters) p c.push := by
  refine ⟨h.chooser, h.firstGroups, h.groups, h.slots, ?_, h.nodup⟩
  show (c.counters.push 0).toList.reverse = 0 :: counters
  rw [Array.toList_push, List.reverse_append, h.counters]
  rfl

theorem setTop {top : UInt64} (h : Agrees n (top :: counters) p c) (i : UInt64) :
    Agrees n (i :: counters) p (c.setTop i) := by
  refine ⟨h.chooser, h.firstGroups, h.groups, h.slots, ?_, h.nodup⟩
  have hstack : c.counters.toList = counters.reverse ++ [top] := by
    rw [← List.reverse_cons, ← h.counters, List.reverse_reverse]
  have hsize : c.counters.size - 1 = counters.reverse.length := by
    rw [← Array.length_toList, hstack, List.length_append, List.length_singleton, Nat.add_sub_cancel]
  show (c.counters.setIfInBounds (c.counters.size - 1) i).toList.reverse = i :: counters
  rw [Array.toList_setIfInBounds, hsize, hstack, List.set_append_right _ _ (Nat.le_refl _),
    Nat.sub_self, List.set_cons_zero, List.reverse_append, List.reverse_reverse]
  rfl

theorem pop {top : UInt64} (h : Agrees n (top :: counters) p c) : Agrees n counters p c.pop := by
  refine ⟨h.chooser, h.firstGroups, h.groups, h.slots, ?_, h.nodup⟩
  show c.counters.pop.toList.reverse = counters
  rw [Array.toList_pop, ← List.tail_reverse, h.counters, List.tail_cons]

/-! ### The rest -/

theorem withChooser (h : Agrees n counters p c) (chooser : σ) :
    Agrees n counters { p with chooser } { c with chooser } :=
  ⟨rfl, h.firstGroups, h.groups, h.slots, h.counters, h.nodup⟩

theorem rememberFirst (h : Agrees n counters p c) (s : Setting) :
    Agrees n counters (s.rememberFirst p) (c.rememberFirst s) ∧ KeepsSlots p (s.rememberFirst p) := by
  rw [Setting.rememberFirst, Guarded.Context.rememberFirst, h.firstGroups]
  split
  · exact ⟨⟨h.chooser, rfl, h.groups, h.slots, h.counters, h.nodup⟩, fun _ _ hk => hk⟩
  · exact ⟨h, .refl p⟩

end Agrees

/-- What ends a guarded evaluation that began where `p` was: the same text with what agrees, or the same
fault with the same random source and the same first range. -/
def Follows (n : Nat) (counters : List UInt64) (p : Progress σ) :
    Evaluation σ → Guarded.Ending σ → Prop
  | (.ok text, p'), e => e.1 = .ok text ∧ Agrees n counters p' e.2 ∧ KeepsSlots p p'
  | (.error fault, p'), e =>
    e.1 = .error fault ∧ e.2.chooser = p'.chooser ∧ e.2.firstGroups = p'.firstGroups

namespace Follows

variable {n : Nat} {counters : List UInt64} {p p' : Progress σ} {e : Evaluation σ}
  {ending : Guarded.Ending σ}

theorem elim (h : Follows n counters p e ending) :
    (∃ text p' c, e = (.ok text, p') ∧ ending = (.ok text, c) ∧ Agrees n counters p' c ∧
      KeepsSlots p p') ∨
    ∃ fault p' c, e = (.error fault, p') ∧ ending = (.error fault, c) ∧ c.chooser = p'.chooser ∧
      c.firstGroups = p'.firstGroups := by
  obtain ⟨result, p'⟩ := e
  obtain ⟨result', c⟩ := ending
  cases result with
  | ok text =>
    obtain ⟨hresult, hc, hkeep⟩ := h
    exact .inl ⟨text, p', c, rfl, Prod.ext hresult rfl, hc, hkeep⟩
  | error fault =>
    obtain ⟨hresult, hc⟩ := h
    exact .inr ⟨fault, p', c, rfl, Prod.ext hresult rfl, hc⟩

/-- What comes before a step may claim slots. -/
theorem before (h : Follows n counters p' e ending) (hkeep : KeepsSlots p p') :
    Follows n counters p e ending := by
  obtain ⟨result, p''⟩ := e
  cases result with
  | ok text => exact ⟨h.1, h.2.1, hkeep.trans h.2.2⟩
  | error fault => exact h

end Follows

/-! ### Steps -/

section

variable (s : Setting) {n : Nat} {counters : List UInt64} {p : Progress σ} {c : Guarded.Context σ}

/-- A fault leaves no more than the random source and the first range. -/
theorem Agrees.fault (h : Agrees n counters p c) (fault : Fault) :
    Follows n counters p (.error fault, p) (.error fault, c) :=
  ⟨rfl, h.chooser, h.firstGroups⟩

theorem Agrees.text (h : Agrees n counters p c) (text : String) :
    Follows n counters p (.ok text, p) (.ok text, c) :=
  ⟨rfl, h, .refl p⟩

theorem safe_sourceText (place : Expression) (modifier : Option FirstModifier) (construct : String)
    (h : Agrees n counters p c) :
    Safe (Guarded.sourceText s place modifier construct c)
      (Follows n counters p (s.sourceText counters place modifier construct p)) := by
  refine (safe_value s c.counters place).bind fun x hx => ?_
  rw [h.counters] at hx
  rw [Setting.sourceText, ← hx]
  cases x with
  | error fault => exact safe_ok (h.fault fault)
  | ok x =>
    have hremember : Agrees n counters (if modifier.isSome then s.rememberFirst p else p)
        (if modifier.isSome then c.rememberFirst s else c) ∧
        KeepsSlots p (if modifier.isSome then s.rememberFirst p else p) := by
      split
      · exact h.rememberFirst s
      · exact ⟨h, .refl p⟩
    dsimp only
    generalize (if modifier.isSome then s.rememberFirst p else p) = p' at hremember ⊢
    generalize (if modifier.isSome then c.rememberFirst s else c) = c' at hremember ⊢
    obtain ⟨h', hkeep⟩ := hremember
    rw [h'.firstGroups]
    generalize (groupAt? (p'.firstGroups.getD #[]) (indexValue? x)).filter _ = first
    cases groupAt? s.sourceGroups (indexValue? x) with
    | none => exact safe_ok ((h'.fault _).before hkeep)
    | some current =>
      have htext (text : String) : Follows n counters p (.ok text, p') (.ok text, c') :=
        (h'.text text).before hkeep
      rcases modifier with _ | _ | _ <;> cases first <;> exact safe_ok (htext _)

/-- The counter on top is that of the last round, if there was one. -/
theorem safe_joinLoop {body : UInt64 → Progress σ → Evaluation σ}
    {body' : Guarded.Context σ → Guarded (Guarded.Ending σ)}
    (hbody : ∀ i p c, Agrees n (i :: counters) p c →
      Safe (body' c) (Follows n (i :: counters) p (body i p)))
    (acc : String) (i : UInt64) (count : Nat) {top : UInt64} (h : Agrees n (top :: counters) p c) :
    Safe (Guarded.joinLoop body' acc i count c)
      fun ending => ∃ top, Follows n (top :: counters) p (joinLoop body acc i count p) ending := by
  induction count generalizing acc i top p c with
  | zero => exact safe_ok ⟨top, h.text acc⟩
  | succ count ih =>
    rw [Guarded.joinLoop, joinLoop]
    refine (hbody i p (c.setTop i) (h.setTop i)).bind fun ending hround => ?_
    rcases hround.elim with ⟨text, p', c', he, rfl, hc, hkeep⟩ | ⟨fault, p', c', he, rfl, hc⟩
    · rw [he]
      refine (ih (acc ++ text) (i + 1) hc).mono fun ending hrest => ?_
      obtain ⟨top, hrest⟩ := hrest
      exact ⟨top, hrest.before hkeep⟩
    · rw [he]
      exact safe_ok ⟨i, rfl, hc⟩

variable [Chooser σ]

mutual

/-- A guarded step does what the step does. -/
theorem safe_evalStep (step : Step) (hids : ∀ id ∈ step.groupIds, id < n)
    {counters : List UInt64} {p : Progress σ} {c : Guarded.Context σ} (h : Agrees n counters p c) :
    Safe (Guarded.evalStep s step c) (Follows n counters p (evalStep s counters step p)) := by
  cases step with
  | literal text => exact safe_ok (h.text text)
  | oneOf chars =>
    rw [Guarded.evalStep, evalStep, h.chooser]
    exact safe_ok ⟨rfl, h.withChooser _, fun _ _ hk => hk⟩
  | backref place =>
    rw [Guarded.evalStep, evalStep, h.captured?_eq]
    cases p.captured? place with
    | none => exact safe_ok (h.fault _)
    | some text => exact safe_ok (h.text text)
  | source place modifier construct =>
    rw [Guarded.evalStep, evalStep]
    exact safe_sourceText s place modifier construct h
  | numeric value format =>
    rw [Guarded.evalStep, evalStep]
    refine (safe_value s c.counters value).bind fun x hx => ?_
    rw [h.counters] at hx
    rw [← hx]
    cases x with
    | error fault => exact safe_ok (h.fault fault)
    | ok x =>
      refine (safe_applyFormat format x).bind fun text htext => safe_ok ?_
      rw [htext]
      exact h.text _
  | group id body =>
    rw [Step.groupIds] at hids
    obtain ⟨slot, c', henter, hslot, hc, hkeep⟩ := h.enter (hids id List.mem_cons_self)
    rw [Guarded.evalStep, evalStep, henter]
    refine (safe_evalSteps body (fun id' hid => hids id' (List.mem_cons_of_mem id hid)) "" hc).bind
      fun ending hbody => ?_
    rcases hbody.elim with ⟨text, p', c'', he, rfl, hc', hkeep'⟩ | ⟨fault, p', c'', he, rfl, hc'⟩
    · obtain ⟨done, hdone, hagrees, hkept⟩ := hc'.complete (hkeep' id slot hslot) text
      rw [he]
      dsimp only
      rw [hdone]
      exact safe_ok ⟨rfl, hagrees, (hkeep.trans hkeep').trans hkept⟩
    · rw [he]
      exact safe_ok ⟨rfl, hc'⟩
  | repetition step bounds construct =>
    rw [Guarded.evalStep, evalStep]
    refine (safe_countBounds s c.counters construct bounds).bind fun range hrange => ?_
    rw [h.counters] at hrange
    subst hrange
    cases s.countRange counters construct bounds with
    | error fault => exact safe_ok (h.fault fault)
    | ok r =>
      show Safe (Guarded.sample r.lo r.hi c.chooser >>= _) _
      dsimp only
      rw [Guarded.sample, dif_pos r.le, h.chooser]
      generalize Chooser.count r.lo r.hi r.le p.chooser = drawn
      obtain ⟨count, chooser⟩ := drawn
      have hround (i : UInt64) (p : Progress σ) (c : Guarded.Context σ)
          (hc : Agrees n (i :: counters) p c) : Safe (Guarded.evalStep s step c)
            (Follows n (i :: counters) p ((fun i p => evalStep s (i :: counters) step p) i p)) :=
        safe_evalStep step hids hc
      refine (safe_joinLoop hround "" 0 count.val.toNat (h.withChooser chooser).push).bind
        fun ending hloop => ?_
      obtain ⟨top, hloop⟩ := hloop
      rcases hloop.elim with ⟨text, p', c', he, rfl, hc, hkeep⟩ | ⟨fault, p', c', he, rfl, hc⟩
      · rw [he]
        exact safe_ok ⟨rfl, hc.pop, hkeep⟩
      · rw [he]
        exact safe_ok ⟨rfl, hc⟩
  | alternation branches =>
    rw [Guarded.evalStep, evalStep]
    by_cases hpos : 0 < branches.length
    · rw [dif_pos hpos, dif_pos hpos, h.chooser]
      exact (safe_evalBranch branches hids _ (h.withChooser _)).mono
        fun ending hbranch => hbranch.before fun _ _ hk => hk
    · rw [dif_neg hpos, dif_neg hpos]
      exact safe_ok (h.text "")

theorem safe_evalSteps (steps : List Step) (hids : ∀ id ∈ stepsGroupIds steps, id < n) (acc : String)
    {counters : List UInt64} {p : Progress σ} {c : Guarded.Context σ} (h : Agrees n counters p c) :
    Safe (Guarded.evalSteps s acc steps c) (Follows n counters p (evalSteps s counters acc steps p)) := by
  cases steps with
  | nil => exact safe_ok (h.text acc)
  | cons step steps =>
    rw [stepsGroupIds] at hids
    rw [Guarded.evalSteps, evalSteps]
    refine (safe_evalStep step (fun id hid => hids id (List.mem_append_left _ hid)) h).bind
      fun ending hstep => ?_
    rcases hstep.elim with ⟨text, p', c', he, rfl, hc, hkeep⟩ | ⟨fault, p', c', he, rfl, hc⟩
    · rw [he]
      exact (safe_evalSteps steps (fun id hid => hids id (List.mem_append_right _ hid)) _ hc).mono
        fun ending hrest => hrest.before hkeep
    · rw [he]
      exact safe_ok ⟨rfl, hc⟩

theorem safe_evalBranch (branches : List (List Step))
    (hids : ∀ id ∈ branchesGroupIds branches, id < n) (i : Nat)
    {counters : List UInt64} {p : Progress σ} {c : Guarded.Context σ} (h : Agrees n counters p c) :
    Safe (Guarded.evalBranch s branches i c) (Follows n counters p (evalBranch s counters branches i p)) := by
  cases branches with
  | nil => exact safe_ok (h.text "")
  | cons branch branches =>
    rw [branchesGroupIds] at hids
    cases i with
    | zero =>
      rw [Guarded.evalBranch, evalBranch]
      exact safe_evalSteps branch (fun id hid => hids id (List.mem_append_left _ hid)) "" h
    | succ i =>
      rw [Guarded.evalBranch, evalBranch]
      exact safe_evalBranch branches (fun id hid => hids id (List.mem_append_right _ hid)) i h

end

end

end PatternText
