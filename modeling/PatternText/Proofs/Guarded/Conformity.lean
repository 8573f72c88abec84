import PatternText.Proofs.Generation.Language
import PatternText.Proofs.Guarded.Session
import PatternText.Proofs.Program.Levels

/-! The language of a program and its guarded runs. A step that yields a text in plain generation yields it
on the mutable data too: a counter that is found lies on the stack, so the limit on loops outwards is not
met as long as fewer loops are nested than there are words, and what a plain program does besides has no
limit. So the texts of guarded generation are those of the language, and none of them is lost. -/

namespace PatternText

/-! ### Values that are found -/

section Values

variable {s : Setting} {counters : Array UInt64} (hsize : counters.size < UInt64.size)
include hsize

theorem guarded_outerCounter {level : UInt64} {x : Float}
    (h : ((counters.toList.reverse)[level.toNat]?).map UInt64.toFloat = some x) :
    Guarded.outerCounter counters level = .ok (some x) := by
  obtain ⟨counter, hcounter, -⟩ := Option.map_eq_some_iff.1 h
  have hlevel : level.toNat < counters.size := by
    obtain ⟨hlt, -⟩ := List.getElem?_eq_some_iff.1 hcounter
    rwa [List.length_reverse, Array.length_toList] at hlt
  obtain ⟨y, hy, hvalue⟩ := (safe_outerCounter counters level).exists_ok fun limit hlimit => by
    have hplace : counters.size - (level.toNat + 1) < counters.size := by omega
    rw [Guarded.outerCounter, dif_neg (by omega), if_pos (by omega)] at hlimit
    dsimp only at hlimit
    rw [require_some (Array.getElem?_eq_getElem hplace)] at hlimit
    cases hlimit
  rw [hy, hvalue, h]

theorem guarded_evalExpr {e : Expr} {x : Float}
    (h : e.eval? (s.scope counters.toList.reverse) = some x) :
    Guarded.evalExpr s counters e = .ok (some x) := by
  induction e generalizing x with
  | number _ =>
    exact congrArg Except.ok h
  | counter =>
    obtain ⟨y, hy, hvalue⟩ := (safe_evalExpr s counters .counter).exists_ok fun _ => nofun
    rw [hy, hvalue, h]
  | sourceCount =>
    exact congrArg Except.ok h
  | outerCounter e ih =>
    obtain ⟨y, hy, h⟩ := Option.bind_eq_some_iff.1 h
    obtain ⟨level, hlevel, h⟩ := Option.bind_eq_some_iff.1 h
    rw [Guarded.evalExpr, ih hy]
    simp only [bind, Except.bind, Option.bind, hlevel]
    exact guarded_outerCounter hsize h
  | sourceValue e ih =>
    obtain ⟨y, hy, h⟩ := Option.bind_eq_some_iff.1 h
    obtain ⟨place, hplace, h⟩ := Option.bind_eq_some_iff.1 h
    rw [Guarded.evalExpr, ih hy]
    simp only [bind, Except.bind, Option.bind, hplace]
    exact congrArg Except.ok h
  | negate e ih =>
    obtain ⟨y, hy, rfl⟩ := Option.map_eq_some_iff.1 h
    rw [Guarded.evalExpr, ih hy]
    rfl
  | binary op l r ihl ihr =>
    obtain ⟨y, hy, h⟩ := Option.bind_eq_some_iff.1 h
    obtain ⟨z, hz, h⟩ := Option.bind_eq_some_iff.1 h
    rw [Guarded.evalExpr, ihl hy]
    dsimp only [bind, Except.bind]
    rw [ihr hz]
    exact congrArg Except.ok h

theorem guarded_value {e : Expression} {x : Float}
    (h : e.value (s.scope counters.toList.reverse) = .ok x) :
    Guarded.value s counters e = .ok (.ok x) := by
  obtain ⟨y, hy, hvalue⟩ := (safe_value s counters e).exists_ok fun limit hlimit => by
    unfold Guarded.value at hlimit
    unfold Expression.value Expression.eval at h
    cases hparsed : e.parsed with
    | error cause =>
      rw [hparsed] at hlimit
      cases hlimit
    | ok tree =>
      rw [hparsed] at h hlimit
      dsimp only at h hlimit
      cases hfinite : tree.evalFinite? (s.scope counters.toList.reverse) with
      | none =>
        rw [hfinite] at h
        cases h
      | some y =>
        have hy := (Option.filter_eq_some_iff.1 hfinite).1
        rw [guarded_evalExpr hsize hy] at hlimit
        dsimp only [bind, Except.bind] at hlimit
        split at hlimit <;> cases hlimit
  rw [hy, hvalue, h]

theorem guarded_count {e : Expression} {construct : String} {n : UInt64}
    (h : s.count counters.toList.reverse e construct = .ok n) :
    Guarded.count s counters e construct = .ok (.ok n) := by
  obtain ⟨y, hy, hcount⟩ := (safe_count s counters e construct).exists_ok fun limit hlimit => by
    rw [Setting.count] at h
    cases hvalue : e.value (s.scope counters.toList.reverse) with
    | error fault =>
      rw [hvalue] at h
      cases h
    | ok x =>
      rw [Guarded.count, guarded_value hsize hvalue] at hlimit
      cases hlimit
  rw [hy, hcount, h]

theorem guarded_countBounds {construct : String} {bounds : Bounds} {r : CountRange}
    (h : s.countRange counters.toList.reverse construct bounds = .ok r) :
    Guarded.countBounds s counters construct bounds = .ok (.ok (r.lo, r.hi)) := by
  have hfound : ∀ limit, Guarded.countBounds s counters construct bounds ≠ .error (.limit limit) := by
    intro limit hlimit
    cases bounds with
    | zeroOrMore | zeroOrOne | oneOrMore => cases hlimit
    | exactly n | atLeast n =>
      rw [Setting.countRange] at h
      cases hn : s.count counters.toList.reverse n construct with
      | error fault =>
        rw [hn] at h
        cases h
      | ok n' =>
        rw [Guarded.countBounds, guarded_count hsize hn] at hlimit
        cases hlimit
    | between n m =>
      rw [Setting.countRange] at h
      cases hn : s.count counters.toList.reverse n construct with
      | error fault =>
        rw [hn] at h
        cases h
      | ok n' =>
        rw [hn] at h
        dsimp only at h
        cases hm : s.count counters.toList.reverse m construct with
        | error fault =>
          rw [hm] at h
          cases h
        | ok m' =>
          rw [Guarded.countBounds, guarded_count hsize hn] at hlimit
          dsimp only [bind, Except.bind] at hlimit
          rw [guarded_count hsize hm] at hlimit
          cases hlimit
  obtain ⟨range, hrange, heq⟩ := (safe_countBounds s counters construct bounds).exists_ok hfound
  rw [hrange, heq, h]
  rfl

end Values

/-! ### Steps that yield texts -/

variable {σ : Type}

/-- The guarded evaluation yields the text too, and agrees with the progress after it. -/
def Yields (n : Nat) (counters : List UInt64) (p : Progress σ) (text : String) (p' : Progress σ)
    (run : Guarded (Guarded.Ending σ)) : Prop :=
  ∃ c, run = .ok (.ok text, c) ∧ Agrees n counters p' c ∧ KeepsSlots p p'

section

variable {s : Setting} {n : Nat} {counters : List UInt64} {p p' : Progress σ} {c : Guarded.Context σ}

theorem Agrees.size_counters (h : Agrees n counters p c) : c.counters.size = counters.length := by
  rw [← h.counters, List.length_reverse, Array.length_toList]

theorem yields_joinLoop {body : UInt64 → Progress σ → Evaluation σ}
    {body' : Guarded.Context σ → Guarded (Guarded.Ending σ)}
    (hbody : ∀ i p c text p', Agrees n (i :: counters) p c → body i p = (.ok text, p') →
      Yields n (i :: counters) p text p' (body' c))
    {acc text : String} {i : UInt64} {count : Nat} {top : UInt64} (h : Agrees n (top :: counters) p c)
    (hloop : joinLoop body acc i count p = (.ok text, p')) :
    ∃ top, Yields n (top :: counters) p text p' (Guarded.joinLoop body' acc i count c) := by
  induction count generalizing acc i top p c with
  | zero =>
    cases hloop
    exact ⟨top, c, rfl, h, .refl _⟩
  | succ count ih =>
    rw [joinLoop] at hloop
    rcases hround : body i p with ⟨fault | round, p₁⟩
    · rw [hround] at hloop
      cases hloop
    · rw [hround] at hloop
      obtain ⟨c₁, hc₁, hagrees, hkeep⟩ := hbody i p (c.setTop i) round p₁ (h.setTop i) hround
      obtain ⟨top', c₂, hc₂, hlast, hkept⟩ := ih hagrees hloop
      refine ⟨top', c₂, ?_, hlast, hkeep.trans hkept⟩
      rw [Guarded.joinLoop, hc₁]
      exact hc₂

variable [Chooser σ]

mutual

/-- A plain step that yields a text has slots for its groups and meets no limit. -/
theorem yields_evalStep (step : Step) (hplain : step.isPlain = true) (hids : ∀ id ∈ step.groupIds, id < n)
    {counters : List UInt64} (hdepth : counters.length + step.depth < UInt64.size)
    {p p' : Progress σ} {c : Guarded.Context σ} (h : Agrees n counters p c) {text : String}
    (heval : evalStep s counters step p = (.ok text, p')) :
    Yields n counters p text p' (Guarded.evalStep s step c) := by
  cases step with
  | literal t =>
    rw [evalStep] at heval
    cases heval
    exact ⟨c, by rw [Guarded.evalStep], h, .refl p⟩
  | oneOf chars =>
    rw [evalStep] at heval
    rw [Guarded.evalStep, h.chooser]
    generalize chars.drawText p.chooser = drawn at heval ⊢
    cases heval
    exact ⟨_, rfl, h.withChooser drawn.2, fun _ _ hk => hk⟩
  | group id body =>
    rw [Step.groupIds] at hids
    rw [Step.depth] at hdepth
    obtain ⟨slot, c₁, henter, hslot, hentered, hkeep⟩ := h.enter (hids id List.mem_cons_self)
    rw [evalStep] at heval
    split at heval
    next p₂ hbody =>
      cases heval
      obtain ⟨c₂, hc₂, hafter, hkeep'⟩ := yields_evalSteps body hplain
        (fun id' hid => hids id' (List.mem_cons_of_mem id hid)) (by omega) hentered hbody
      obtain ⟨c₃, hc₃, hagrees, hkept⟩ := hafter.complete (hkeep' id slot hslot) text
      refine ⟨c₃, ?_, hagrees, (hkeep.trans hkeep').trans hkept⟩
      rw [Guarded.evalStep, henter]
      dsimp only [bind, Except.bind]
      rw [hc₂]
      dsimp only
      rw [hc₃]
    next => cases heval
  | repetition step bounds construct =>
    rw [Step.depth] at hdepth
    rw [evalStep] at heval
    split at heval
    next => cases heval
    next r hr =>
      have hsize : c.counters.size < UInt64.size := by
        rw [h.size_counters]
        omega
      rw [← h.counters] at hr
      have hround (i : UInt64) (p : Progress σ) (c : Guarded.Context σ) (text : String) (p' : Progress σ)
          (hc : Agrees n (i :: counters) p c)
          (hi : (fun i p => evalStep s (i :: counters) step p) i p = (.ok text, p')) :
          Yields n (i :: counters) p text p' (Guarded.evalStep s step c) :=
        yields_evalStep step hplain hids (by rw [List.length_cons]; omega) hc hi
      generalize hdrawn : Chooser.count r.lo r.hi r.le p.chooser = drawn at heval
      obtain ⟨count, chooser⟩ := drawn
      obtain ⟨top, c₁, hc₁, hagrees, hkeep⟩ :=
        yields_joinLoop hround (h.withChooser chooser).push heval
      refine ⟨c₁.pop, ?_, hagrees.pop, hkeep⟩
      rw [Guarded.evalStep, guarded_countBounds hsize hr]
      dsimp only [bind, Except.bind]
      rw [Guarded.sample, dif_pos r.le, h.chooser, hdrawn]
      dsimp only
      rw [hc₁]
  | alternation branches =>
    rw [Step.depth] at hdepth
    rw [evalStep] at heval
    rw [Guarded.evalStep]
    by_cases hpos : 0 < branches.length
    · rw [dif_pos hpos] at heval ⊢
      rw [h.chooser]
      exact yields_evalBranch branches hplain hids (by omega) _ (h.withChooser _) heval
    · rw [dif_neg hpos] at heval ⊢
      cases heval
      exact ⟨c, rfl, h, .refl p⟩
  | backref _ | source _ _ _ | numeric _ _ => cases hplain

theorem yields_evalSteps (steps : List Step) (hplain : stepsPlain steps = true)
    (hids : ∀ id ∈ stepsGroupIds steps, id < n) {counters : List UInt64}
    (hdepth : counters.length + stepsDepth 0 steps < UInt64.size) {acc : String}
    {p p' : Progress σ} {c : Guarded.Context σ} (h : Agrees n counters p c) {text : String}
    (heval : evalSteps s counters acc steps p = (.ok text, p')) :
    Yields n counters p text p' (Guarded.evalSteps s acc steps c) := by
  cases steps with
  | nil =>
    cases heval
    exact ⟨c, by rw [Guarded.evalSteps], h, .refl p⟩
  | cons step steps =>
    rw [stepsGroupIds] at hids
    rw [stepsPlain, Bool.and_eq_true] at hplain
    rw [stepsDepth_cons] at hdepth
    rw [evalSteps] at heval
    split at heval
    next t p₁ hstep =>
      obtain ⟨c₁, hc₁, hafter, hkeep⟩ := yields_evalStep step hplain.1
        (fun id hid => hids id (List.mem_append_left _ hid)) (by omega) h hstep
      obtain ⟨c₂, hc₂, hagrees, hkept⟩ := yields_evalSteps steps hplain.2
        (fun id hid => hids id (List.mem_append_right _ hid)) (by omega) hafter heval
      refine ⟨c₂, ?_, hagrees, hkeep.trans hkept⟩
      rw [Guarded.evalSteps, hc₁]
      exact hc₂
    next => cases heval

theorem yields_evalBranch (branches : List (List Step)) (hplain : branchesPlain branches = true)
    (hids : ∀ id ∈ branchesGroupIds branches, id < n) {counters : List UInt64}
    (hdepth : counters.length + branchesDepth 0 branches < UInt64.size) (i : Nat)
    {p p' : Progress σ} {c : Guarded.Context σ} (h : Agrees n counters p c) {text : String}
    (heval : evalBranch s counters branches i p = (.ok text, p')) :
    Yields n counters p text p' (Guarded.evalBranch s branches i c) := by
  cases branches with
  | nil =>
    cases heval
    exact ⟨c, by rw [Guarded.evalBranch], h, .refl p⟩
  | cons branch branches =>
    rw [branchesGroupIds] at hids
    rw [branchesPlain, Bool.and_eq_true] at hplain
    rw [branchesDepth_cons] at hdepth
    cases i with
    | zero =>
      rw [evalBranch] at heval
      rw [Guarded.evalBranch]
      exact yields_evalSteps branch hplain.1 (fun id hid => hids id (List.mem_append_left _ hid))
        (by omega) h heval
    | succ i =>
      rw [evalBranch] at heval
      rw [Guarded.evalBranch]
      exact yields_evalBranch branches hplain.2 (fun id hid => hids id (List.mem_append_right _ hid))
        (by omega) i h heval

end

end

/-! ### The language -/

namespace Guarded.Machine

/-- A machine that decides as the script says. -/
def scripted (m : Machine σ) (d : Script) : Machine Script :=
  { m.toGenerator.scripted d with sourceValues := m.sourceValues }

theorem Ready.scripted {m : Machine σ} (hready : m.Ready) (d : Script) : (m.scripted d).Ready :=
  ⟨hready.setting, hready.ids⟩

/-- A text that plain generation yields is yielded on the mutable data. -/
theorem generate_eq_ok [Chooser σ] {m : Machine σ} (hready : m.Ready) (hplain : m.program.isPlain)
    (hdepth : m.program.depth < UInt64.size) {text : String}
    (h : m.toGenerator.generate.1 = .ok text) : ∃ m', m.generate = .ok (.ok text, m') := by
  obtain ⟨p, heval⟩ := (m.toGenerator.generate_eq_ok_iff text).1 h
  rw [← hready.setting] at heval
  have hnone : ([] : List UInt64).length + stepsDepth 0 m.program.steps < UInt64.size := by
    rwa [List.length_nil, Nat.zero_add]
  obtain ⟨c, hc, -⟩ := yields_evalSteps m.program.steps hplain hready.ids hnone (.start ..) heval
  rw [generate]
  dsimp only
  rw [hc]
  exact ⟨_, rfl⟩

/-- A program of texts, character sets, groups, repetitions and alternations whose groups are numbered
below their count asks for no slot, capture, counter or interval that does not exist, whatever the source
of decisions, the range and the upper bound. What is generated from it belongs to its language, and each
text of the language is generated by some decisions, on the mutable data as long as the levels of the
program are fewer than the words. An alternation without branches stands for the empty text. -/
theorem generate_language [Chooser σ] (m : Machine σ) (hready : m.Ready) (hplain : m.program.isPlain) :
    (∀ breach, m.generate ≠ .error (.breach breach)) ∧
    ∀ text : String,
      (∀ m', m.generate = .ok (.ok text, m') → m.toGenerator.generate.1 = .ok text) ∧
      (m.toGenerator.generate.1 = .ok text → text.toList ∈ m.program.language 1 m.setting) ∧
      (text.toList ∈ m.program.language 1 m.setting →
        ∃ d : Script, (m.toGenerator.scripted d).generate.1 = .ok text ∧
          (m.program.depth < UInt64.size → ∃ m', (m.scripted d).generate = .ok (.ok text, m'))) := by
  have hsafe := safe_generate hready
  refine ⟨fun breach h => ?_, fun text => ⟨fun m' h => ?_, fun h => ?_, fun h => ?_⟩⟩
  · rw [h] at hsafe
    exact hsafe
  · rw [h] at hsafe
    exact (congrArg Prod.fst hsafe.1).symm
  · rw [hready.setting]
    exact Generator.mem_language_of_generate hplain h
  · rw [hready.setting] at h
    obtain ⟨d, hd⟩ := Generator.exists_script_of_mem_language h
    exact ⟨d, hd, fun hdepth => generate_eq_ok (hready.scripted d) hplain hdepth hd⟩

/-- Up to one round of a group that is `a` or nothing; one round and the letter are decided on. -/
def optionalLetter : Machine Script where
  program := ⟨[.repetition (.group 0 [.alternation [[.literal "a"], []]]) .zeroOrOne "?"], 1⟩
  upperBound := 10
  chooser := ⟨[1, 0]⟩
  sourceValues := #[]

theorem optionalLetter_language :
    optionalLetter.Ready ∧ optionalLetter.program.isPlain ∧
    (∃ m', optionalLetter.generate = .ok (.ok "a", m')) ∧
    "a".toList ∈ optionalLetter.program.language 1 optionalLetter.setting ∧
    optionalLetter.program.depth < UInt64.size ∧
    ∃ d m', (optionalLetter.scripted d).generate = .ok (.ok "a", m') := by
  have hready : optionalLetter.Ready := by
    refine ⟨?_, by decide⟩
    rw [setting, Generator.setting, optionalLetter, Array.map_empty]
  have hplain : optionalLetter.program.isPlain := by decide
  have hdepth : optionalLetter.program.depth < UInt64.size := by decide
  obtain ⟨m', hm'⟩ : ∃ m', optionalLetter.generate = .ok (.ok "a", m') := ⟨_, rfl⟩
  obtain ⟨hplainly, hmem, hscript⟩ := (generate_language optionalLetter hready hplain).2 "a"
  have hlanguage := hmem (hplainly m' hm')
  obtain ⟨d, -, hd⟩ := hscript hlanguage
  exact ⟨hready, hplain, ⟨m', hm'⟩, hlanguage, hdepth, d, hd hdepth⟩

/-- An alternation without branches. -/
def bareAlternation : Machine Script where
  program := ⟨[.alternation []], 0⟩
  upperBound := 10
  chooser := ⟨[]⟩
  sourceValues := #[]

/-- A group whose number is not below the number of groups. -/
def strayGroup : Machine Script where
  program := ⟨[.group 7 []], 1⟩
  upperBound := 10
  chooser := ⟨[]⟩
  sourceValues := #[]

/-- With the sum of the branches alone as the language of an alternation, generation leaves the language:
the empty text is generated although no branch yields it. And where a group has no slot no decisions lead
to the text that the language has. -/
theorem bareAlternation_outside_branches :
    (bareAlternation.program.isPlain ∧ (∃ m', bareAlternation.generate = .ok (.ok "", m')) ∧
      "".toList ∉ bareAlternation.program.language 0 bareAlternation.setting) ∧
    strayGroup.program.isPlain ∧ "".toList ∈ strayGroup.program.language 0 strayGroup.setting ∧
      ∀ d, (strayGroup.scripted d).generate = .error (.breach (.slot 7)) := by
  refine ⟨⟨by decide, ⟨_, rfl⟩, fun h => ?_⟩, by decide, ?_, fun d => rfl⟩
  · obtain ⟨a, ha, -⟩ := Language.mem_mul.1 h
    exact Language.notMem_zero a ha
  · exact Language.mem_mul.2 ⟨[], rfl, [], rfl, rfl⟩

end Guarded.Machine

end PatternText
