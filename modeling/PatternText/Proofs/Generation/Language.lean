import Mathlib.Computability.Language
import PatternText.Generation.Generator

/-! The texts that a program stands for. Each step has a language: a row of steps has the product of
theirs, an alternation the sum of those of its branches, and a repetition the products of as many
copies of its body as its bounds allow, each copy read with its own index as the innermost counter.
Generation yields members of the language only, whatever the source of decisions; and each member is
the result of some decisions, given as a script. -/

namespace PatternText

/-- The texts of a character set: its members, or nothing at all if it has none. -/
def CharSet.language (s : CharSet) : Language Char :=
  fun cs => if s.isEmpty then cs = [] else ∃ c ∈ s.chars, cs = [c]

/-- The texts that `n` rounds of a loop join from the index `first` on, the round with index `i`
taking one of `body i`. -/
def roundsLanguage (body : UInt64 → Language Char) (first n : Nat) : Language Char :=
  ((List.range' first n).map fun i => body (UInt64.ofNat i)).prod

/-- The texts of a loop whose number of rounds lies in the range, if there is one. -/
def repetitionLanguage (range : Except Fault CountRange) (body : UInt64 → Language Char) :
    Language Char :=
  fun cs => ∃ r, range = .ok r ∧ ∃ n, r.lo ≤ n ∧ n ≤ r.hi ∧ cs ∈ roundsLanguage body 0 n.toNat

mutual

/-- The texts of a step inside loops with these counters. What an alternation without branches stands
for is left to `bare`. A step that reads what was captured, the source text or a number has none. -/
def Step.language (bare : Language Char) (s : Setting) (counters : List UInt64) :
    Step → Language Char
  | .literal text => {text.toList}
  | .oneOf chars => chars.language
  | .group _ body => stepsLanguage bare s counters body
  | .repetition step bounds construct =>
    repetitionLanguage (s.countRange counters construct bounds) fun i =>
      step.language bare s (i :: counters)
  | .alternation [] => bare
  | .alternation (branch :: branches) => branchesLanguage bare s counters (branch :: branches)
  | .backref _ | .source _ _ _ | .numeric _ _ => 0

/-- The texts of steps one after the other. -/
def stepsLanguage (bare : Language Char) (s : Setting) (counters : List UInt64) :
    List Step → Language Char
  | [] => 1
  | step :: steps => step.language bare s counters * stepsLanguage bare s counters steps

/-- The texts of any of the branches. -/
def branchesLanguage (bare : Language Char) (s : Setting) (counters : List UInt64) :
    List (List Step) → Language Char
  | [] => 0
  | branch :: branches => stepsLanguage bare s counters branch + branchesLanguage bare s counters branches

end

/-- The texts of a program in a setting, outside all loops. -/
def Program.language (bare : Language Char) (s : Setting) (p : Program) : Language Char :=
  stepsLanguage bare s [] p.steps

mutual

/-- Whether a step is made of texts, character sets, groups, repetitions and alternations only. -/
def Step.isPlain : Step → Bool
  | .literal _ | .oneOf _ => true
  | .group _ body => stepsPlain body
  | .repetition step _ _ => step.isPlain
  | .alternation branches => branchesPlain branches
  | .backref _ | .source _ _ _ | .numeric _ _ => false

def stepsPlain : List Step → Bool
  | [] => true
  | step :: steps => step.isPlain && stepsPlain steps

def branchesPlain : List (List Step) → Bool
  | [] => true
  | branch :: branches => stepsPlain branch && branchesPlain branches

end

def Program.isPlain (p : Program) : Bool := stepsPlain p.steps

theorem roundsLanguage_zero (body : UInt64 → Language Char) (first : Nat) :
    roundsLanguage body first 0 = 1 := rfl

theorem roundsLanguage_succ (body : UInt64 → Language Char) (first n : Nat) :
    roundsLanguage body first (n + 1) =
      body (UInt64.ofNat first) * roundsLanguage body (first + 1) n := by
  simp only [roundsLanguage, List.range'_succ, List.map_cons, List.prod_cons]

theorem CharSet.mem_language {s : CharSet} {cs : List Char} :
    cs ∈ s.language ↔ if s.isEmpty then cs = [] else ∃ c ∈ s.chars, cs = [c] := Iff.rfl

theorem CharSet.mem_language_of_pos {s : CharSet} {cs : List Char} (h : 0 < s.chars.size) :
    cs ∈ s.language ↔ ∃ c ∈ s.chars, cs = [c] := by
  have hne : ¬s.isEmpty = true := by
    rw [isEmpty, Array.isEmpty_iff_size_eq_zero]
    omega
  rw [mem_language, if_neg hne]

theorem CharSet.mem_language_of_not_pos {s : CharSet} {cs : List Char} (h : ¬0 < s.chars.size) :
    cs ∈ s.language ↔ cs = [] := by
  have he : s.isEmpty = true := by
    rw [isEmpty, Array.isEmpty_iff_size_eq_zero]
    omega
  rw [mem_language, if_pos he]

/-! ### What is generated belongs to the language -/

section Conformity

variable {σ : Type} {s : Setting}

theorem CharSet.drawText_mem [Chooser σ] (chars : CharSet) (g : σ) :
    (chars.drawText g).1.toList ∈ chars.language := by
  by_cases h : 0 < chars.chars.size
  · rw [mem_language_of_pos h]
    simp only [drawText, draw, dif_pos h, Option.map_some, Option.getD_some, String.toList_singleton]
    exact ⟨_, Array.getElem_mem _, rfl⟩
  · rw [mem_language_of_not_pos h]
    simp [drawText, draw, h]

/-- What a loop joins after the text before it is a product of as many texts of its body. -/
theorem mem_rounds_of_joinLoop {body : UInt64 → Progress σ → Evaluation σ}
    {texts : UInt64 → Language Char}
    (hbody : ∀ i p q text, body i p = (.ok text, q) → text.toList ∈ texts i)
    (n first : Nat) (acc text : String) (p q : Progress σ)
    (h : joinLoop body acc (UInt64.ofNat first) n p = (.ok text, q)) :
    ∃ cs ∈ roundsLanguage texts first n, text.toList = acc.toList ++ cs := by
  induction n generalizing first acc p with
  | zero =>
    simp only [joinLoop, Prod.mk.injEq, Except.ok.injEq] at h
    obtain ⟨rfl, rfl⟩ := h
    exact ⟨[], rfl, (List.append_nil _).symm⟩
  | succ n ih =>
    rw [joinLoop] at h
    split at h
    next round p' hround =>
      have hnext : UInt64.ofNat first + 1 = UInt64.ofNat (first + 1) := by
        rw [UInt64.ofNat_add]; rfl
      rw [hnext] at h
      obtain ⟨cs, hcs, htext⟩ := ih (first + 1) _ _ h
      refine ⟨round.toList ++ cs, ?_, ?_⟩
      · rw [roundsLanguage_succ]
        exact Language.append_mem_mul (hbody _ _ _ _ hround) hcs
      · rw [htext, String.toList_append, List.append_assoc]
    next => simp at h

variable [Chooser σ]

mutual

theorem mem_language_of_evalStep (step : Step) (counters : List UInt64) (hplain : step.isPlain)
    (p q : Progress σ) (text : String) (h : evalStep s counters step p = (.ok text, q)) :
    text.toList ∈ step.language 1 s counters := by
  cases step with
  | literal t =>
    simp only [evalStep, Prod.mk.injEq, Except.ok.injEq] at h
    obtain ⟨rfl, -⟩ := h
    rfl
  | oneOf chars =>
    simp only [evalStep, Prod.mk.injEq, Except.ok.injEq] at h
    obtain ⟨rfl, -⟩ := h
    exact chars.drawText_mem p.chooser
  | group id body =>
    simp only [evalStep] at h
    split at h
    next t p' hbody =>
      simp only [Prod.mk.injEq, Except.ok.injEq] at h
      obtain ⟨rfl, -⟩ := h
      obtain ⟨cs, hcs, ht⟩ := mem_language_of_evalSteps body counters hplain _ _ _ _ hbody
      rw [ht]
      exact hcs
    next => simp at h
  | repetition step bounds construct =>
    simp only [evalStep] at h
    split at h
    next => simp at h
    next r hr =>
      obtain ⟨cs, hcs, ht⟩ := mem_rounds_of_joinLoop
        (fun i p q t hi => mem_language_of_evalStep step (i :: counters) hplain p q t hi)
        _ 0 _ _ _ _ h
      rw [ht]
      exact ⟨r, hr, _, (Chooser.count r.lo r.hi r.le p.chooser).1.2.1,
        (Chooser.count r.lo r.hi r.le p.chooser).1.2.2, hcs⟩
  | alternation branches =>
    simp only [evalStep] at h
    split at h
    next hpos =>
      cases branches with
      | nil => simp at hpos
      | cons branch branches =>
        exact mem_language_of_evalBranch (branch :: branches) counters hplain _
          (Chooser.index _ hpos p.chooser).1.2 _ _ _ h
    next hpos =>
      cases branches with
      | nil =>
        simp only [Prod.mk.injEq, Except.ok.injEq] at h
        obtain ⟨rfl, -⟩ := h
        rfl
      | cons branch branches => simp at hpos
  | backref _ => simp [Step.isPlain] at hplain
  | source _ _ _ => simp [Step.isPlain] at hplain
  | numeric _ _ => simp [Step.isPlain] at hplain

theorem mem_language_of_evalSteps (steps : List Step) (counters : List UInt64)
    (hplain : stepsPlain steps) (acc : String) (p q : Progress σ) (text : String)
    (h : evalSteps s counters acc steps p = (.ok text, q)) :
    ∃ cs ∈ stepsLanguage 1 s counters steps, text.toList = acc.toList ++ cs := by
  cases steps with
  | nil =>
    simp only [evalSteps, Prod.mk.injEq, Except.ok.injEq] at h
    obtain ⟨rfl, -⟩ := h
    exact ⟨[], rfl, (List.append_nil _).symm⟩
  | cons step steps =>
    rw [stepsPlain, Bool.and_eq_true] at hplain
    rw [evalSteps] at h
    split at h
    next t p' ht =>
      obtain ⟨cs, hcs, htext⟩ := mem_language_of_evalSteps steps counters hplain.2 _ _ _ _ h
      refine ⟨t.toList ++ cs, ?_, ?_⟩
      · exact Language.append_mem_mul (mem_language_of_evalStep step counters hplain.1 _ _ _ ht) hcs
      · rw [htext, String.toList_append, List.append_assoc]
    next => simp at h

theorem mem_language_of_evalBranch (branches : List (List Step)) (counters : List UInt64)
    (hplain : branchesPlain branches) (i : Nat) (hi : i < branches.length) (p q : Progress σ)
    (text : String) (h : evalBranch s counters branches i p = (.ok text, q)) :
    text.toList ∈ branchesLanguage 1 s counters branches := by
  cases branches with
  | nil => simp at hi
  | cons branch branches =>
    rw [branchesPlain, Bool.and_eq_true] at hplain
    rw [branchesLanguage, Language.mem_add]
    cases i with
    | zero =>
      obtain ⟨cs, hcs, ht⟩ := mem_language_of_evalSteps branch counters hplain.1 "" p q text h
      exact .inl (ht ▸ hcs)
    | succ i =>
      exact .inr (mem_language_of_evalBranch branches counters hplain.2 i
        (Nat.lt_of_succ_lt_succ hi) p q text h)

end

end Conformity

/-! ### Every member of the language can be generated -/

/-- Decisions made in advance. Each is given as a number; one that is out of range, or missing, counts
as the lowest that is allowed. -/
structure Script where
  decisions : List Nat

namespace Script

/-- The next decision, and the decisions after it. -/
def next (d : Script) : Nat × Script := (d.decisions.headD 0, ⟨d.decisions.tail⟩)

instance : Chooser Script where
  index n pos d :=
    if h : d.next.1 < n then (⟨d.next.1, h⟩, d.next.2) else (⟨0, pos⟩, d.next.2)
  count lo hi le d :=
    let c := UInt64.ofNat d.next.1
    if h : lo ≤ c ∧ c ≤ hi then (⟨c, h⟩, d.next.2) else (⟨hi, le, UInt64.le_refl hi⟩, d.next.2)

theorem index_cons {n i : Nat} (pos : 0 < n) (hi : i < n) (ds : List Nat) :
    Chooser.index n pos (⟨i :: ds⟩ : Script) = (⟨i, hi⟩, ⟨ds⟩) :=
  dif_pos hi

theorem count_cons {lo hi n : UInt64} (le : lo ≤ hi) (hlo : lo ≤ n) (hhi : n ≤ hi) (ds : List Nat) :
    Chooser.count lo hi le (⟨n.toNat :: ds⟩ : Script) = (⟨n, hlo, hhi⟩, ⟨ds⟩) := by
  have hn : UInt64.ofNat n.toNat = n := UInt64.ofNat_toNat
  simp only [Chooser.count, next, List.headD_cons, List.tail_cons, hn, hlo, hhi, and_self, dif_pos]

end Script

/-- Entering a group leaves the source of decisions and what is known of the first range. -/
theorem Progress.enter_eq {σ : Type} (p : Progress σ) (id : Nat) :
    p.enter id = ⟨p.chooser, (p.enter id).captures, p.firstGroups⟩ := by
  rw [enter]
  split <;> rfl

/-- Some decisions, whatever comes after them, make the evaluation end with the text. -/
def Attains (eval : Progress Script → Evaluation Script) (text : String) : Prop :=
  ∃ made : List Nat, ∀ later captures first, ∃ q : Progress Script,
    eval ⟨⟨made ++ later⟩, captures, first⟩ = (.ok text, q) ∧ q.chooser = ⟨later⟩

section Completeness

variable {s : Setting}

theorem attains_ok (text : String) : Attains (fun p => (.ok text, p)) text :=
  ⟨[], fun _ _ _ => ⟨_, rfl, rfl⟩⟩

theorem attains_joinLoop {body : UInt64 → Progress Script → Evaluation Script}
    {texts : UInt64 → Language Char}
    (hbody : ∀ i, ∀ cs ∈ texts i, Attains (body i) (String.ofList cs)) (n first : Nat) (acc : String)
    (cs : List Char) (h : cs ∈ roundsLanguage texts first n) :
    Attains (joinLoop body acc (UInt64.ofNat first) n) (acc ++ String.ofList cs) := by
  induction n generalizing first acc cs with
  | zero =>
    rw [roundsLanguage_zero, Language.mem_one] at h
    rw [h, String.ofList_nil, String.append_empty]
    exact attains_ok acc
  | succ n ih =>
    rw [roundsLanguage_succ, Language.mem_mul] at h
    obtain ⟨a, ha, b, hb, rfl⟩ := h
    obtain ⟨made, hmade⟩ := hbody _ a ha
    obtain ⟨made', hmade'⟩ := ih (first + 1) (acc ++ String.ofList a) b hb
    refine ⟨made ++ made', fun later captures first' => ?_⟩
    obtain ⟨p, hp, hpc⟩ := hmade (made' ++ later) captures first'
    obtain ⟨q, hq, hqc⟩ := hmade' later p.captures p.firstGroups
    have hnext : UInt64.ofNat first + 1 = UInt64.ofNat (first + 1) := by
      rw [UInt64.ofNat_add]; rfl
    refine ⟨q, ?_, hqc⟩
    rw [joinLoop, List.append_assoc, hp, hnext, String.ofList_append, ← String.append_assoc, ← hq,
      ← hpc]

mutual

theorem attains_of_mem_language (step : Step) (counters : List UInt64) (cs : List Char)
    (h : cs ∈ step.language 1 s counters) :
    Attains (evalStep s counters step) (String.ofList cs) := by
  cases step with
  | literal t =>
    have hcs : cs = t.toList := h
    subst hcs
    exact ⟨[], fun later captures first => ⟨_, by rw [evalStep, String.ofList_toList], rfl⟩⟩
  | oneOf chars =>
    by_cases hpos : 0 < chars.chars.size
    · rw [Step.language, CharSet.mem_language_of_pos hpos] at h
      obtain ⟨c, hc, rfl⟩ := h
      obtain ⟨i, hi, rfl⟩ := Array.mem_iff_getElem.1 hc
      refine ⟨[i], fun later captures first => ⟨⟨⟨later⟩, captures, first⟩, ?_, rfl⟩⟩
      simp [evalStep, CharSet.drawText, CharSet.draw, hpos, Script.index_cons hpos hi]
    · rw [Step.language, CharSet.mem_language_of_not_pos hpos] at h
      subst h
      refine ⟨[], fun later captures first => ⟨⟨⟨later⟩, captures, first⟩, ?_, rfl⟩⟩
      simp [evalStep, CharSet.drawText, CharSet.draw, hpos]
  | group id body =>
    obtain ⟨made, hmade⟩ := attains_of_mem_stepsLanguage body counters "" cs h
    refine ⟨made, fun later captures first => ?_⟩
    let captures' := (Progress.enter (⟨⟨made ++ later⟩, captures, first⟩ : Progress Script) id).captures
    obtain ⟨q, hq, hqc⟩ := hmade later captures' first
    refine ⟨q.complete id ("" ++ String.ofList cs), ?_, hqc⟩
    rw [evalStep, Progress.enter_eq, hq, String.empty_append]
  | repetition step bounds construct =>
    obtain ⟨r, hr, n, hlo, hhi, hcs⟩ := h
    obtain ⟨made, hmade⟩ := attains_joinLoop
      (fun i cs hi => attains_of_mem_language step (i :: counters) cs hi) _ 0 "" _ hcs
    refine ⟨n.toNat :: made, fun later captures first => ?_⟩
    obtain ⟨q, hq, hqc⟩ := hmade later captures first
    refine ⟨q, ?_, hqc⟩
    rw [String.empty_append] at hq
    rw [evalStep, hr]
    simp only [List.cons_append, Script.count_cons r.le hlo hhi]
    exact hq
  | alternation branches =>
    cases branches with
    | nil =>
      have hcs : cs = [] := h
      rw [hcs, String.ofList_nil]
      exact attains_ok ""
    | cons branch branches =>
      obtain ⟨i, hi, made, hmade⟩ :=
        attains_of_mem_branchesLanguage (branch :: branches) counters cs h
      refine ⟨i :: made, fun later captures first => ?_⟩
      obtain ⟨q, hq, hqc⟩ := hmade later captures first
      refine ⟨q, ?_, hqc⟩
      have hpos : 0 < (branch :: branches).length := by simp
      rw [evalStep]
      simp only [dif_pos hpos, List.cons_append, Script.index_cons hpos hi]
      exact hq
  | backref _ => exact (Language.notMem_zero cs h).elim
  | source _ _ _ => exact (Language.notMem_zero cs h).elim
  | numeric _ _ => exact (Language.notMem_zero cs h).elim

theorem attains_of_mem_stepsLanguage (steps : List Step) (counters : List UInt64) (acc : String)
    (cs : List Char) (h : cs ∈ stepsLanguage 1 s counters steps) :
    Attains (evalSteps s counters acc steps) (acc ++ String.ofList cs) := by
  cases steps with
  | nil =>
    have hcs : cs = [] := h
    rw [hcs, String.ofList_nil, String.append_empty]
    exact attains_ok acc
  | cons step steps =>
    rw [stepsLanguage, Language.mem_mul] at h
    obtain ⟨a, ha, b, hb, rfl⟩ := h
    obtain ⟨made, hmade⟩ := attains_of_mem_language step counters a ha
    obtain ⟨made', hmade'⟩ :=
      attains_of_mem_stepsLanguage steps counters (acc ++ String.ofList a) b hb
    refine ⟨made ++ made', fun later captures first => ?_⟩
    obtain ⟨p, hp, hpc⟩ := hmade (made' ++ later) captures first
    obtain ⟨q, hq, hqc⟩ := hmade' later p.captures p.firstGroups
    refine ⟨q, ?_, hqc⟩
    rw [evalSteps, List.append_assoc, hp, String.ofList_append, ← String.append_assoc, ← hq, ← hpc]

theorem attains_of_mem_branchesLanguage (branches : List (List Step)) (counters : List UInt64)
    (cs : List Char) (h : cs ∈ branchesLanguage 1 s counters branches) :
    ∃ i, i < branches.length ∧
      Attains (evalBranch s counters branches i) (String.ofList cs) := by
  cases branches with
  | nil => exact (Language.notMem_zero cs h).elim
  | cons branch branches =>
    rw [branchesLanguage, Language.mem_add] at h
    cases h with
    | inl h =>
      refine ⟨0, by simp, ?_⟩
      have := attains_of_mem_stepsLanguage branch counters "" cs h
      rwa [String.empty_append] at this
    | inr h =>
      obtain ⟨i, hi, hat⟩ := attains_of_mem_branchesLanguage branches counters cs h
      exact ⟨i + 1, Nat.succ_lt_succ hi, hat⟩

end

end Completeness

namespace Generator

/-- A generator that decides as the script says. -/
def scripted {σ : Type} (g : Generator σ) (d : Script) : Generator Script where
  program := g.program
  upperBound := g.upperBound
  chooser := d
  rangeIndex := g.rangeIndex
  sourceGroups := g.sourceGroups
  firstGroups := g.firstGroups

theorem generate_eq_ok_iff {σ : Type} [Chooser σ] (g : Generator σ) (text : String) :
    g.generate.1 = .ok text ↔ ∃ q,
      evalSteps g.setting [] "" g.program.steps ⟨g.chooser, #[], g.firstGroups⟩ = (.ok text, q) := by
  rw [generate]
  obtain ⟨result, q⟩ := evalSteps g.setting [] "" g.program.steps ⟨g.chooser, #[], g.firstGroups⟩
  cases result <;> simp [Except.mapError]

theorem mem_language_of_generate {σ : Type} [Chooser σ] {g : Generator σ} {text : String}
    (hplain : g.program.isPlain) (h : g.generate.1 = .ok text) :
    text.toList ∈ g.program.language 1 g.setting := by
  obtain ⟨q, heval⟩ := (g.generate_eq_ok_iff text).1 h
  obtain ⟨cs, hcs, ht⟩ := mem_language_of_evalSteps _ _ hplain _ _ _ _ heval
  rw [ht]
  exact hcs

theorem exists_script_of_mem_language {σ : Type} {g : Generator σ} {text : String}
    (h : text.toList ∈ g.program.language 1 g.setting) :
    ∃ d : Script, (g.scripted d).generate.1 = .ok text := by
  obtain ⟨made, hmade⟩ := attains_of_mem_stepsLanguage _ _ "" _ h
  obtain ⟨q, hq, -⟩ := hmade [] #[] g.firstGroups
  rw [String.empty_append, String.ofList_toList] at hq
  exact ⟨⟨made ++ []⟩, (generate_eq_ok_iff _ _).2 ⟨q, hq⟩⟩

end Generator

end PatternText
