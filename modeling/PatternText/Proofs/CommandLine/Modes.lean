import PatternText.CommandLine.Session
import PatternText.Proofs.Generation.CountFaults
import PatternText.Proofs.Operation.Ranges

/-! Counting and replacing. The command generates ranges without input, or one for each line of its input.
Lines in which the matching pattern finds nothing have no source groups, just as ranges without input, and
a new generator has no first range to forget; so both ways pass the same generator through the same ranges.
What they print is then a matter of the results alone: only a range that fails is printed in one of them,
by its line. -/

namespace PatternText

/-! ### Results -/

namespace Generator

variable {σ : Type}

/-- The results of so many ranges from `index` on, none of them with source groups. -/
def resultsFrom [Chooser σ] (index : UInt64) :
    Nat → Generator σ → List (Except GenerationError String)
  | 0, _ => []
  | count + 1, g =>
    let (result, g) := (g.setRange index #[]).generate
    result :: resultsFrom (index + 1) count g

/-- Ranges whose originals have no groups are generated as ranges without originals. -/
theorem outcomesFrom_eq_mapIdx [Chooser σ] {groupsOf : String → Array (Option String)}
    {originals : List String} (h : ∀ original ∈ originals, groupsOf original = #[]) (index : UInt64)
    (g : Generator σ) :
    g.outcomesFrom groupsOf index originals =
      (g.resultsFrom index originals.length).mapIdx fun k result => ⟨index + UInt64.ofNat k, result⟩ := by
  induction originals generalizing index g with
  | nil => rfl
  | cons original originals ih =>
    obtain ⟨horiginal, horiginals⟩ := List.forall_mem_cons.1 h
    have hindex : index + UInt64.ofNat 0 = index := UInt64.add_zero index
    rw [outcomesFrom, List.length_cons, resultsFrom, List.mapIdx_cons, hindex, horiginal]
    simp only [← add_one_add_ofNat]
    rw [ih horiginals]

/-- A new generator remembers no first range. -/
theorem resetFirst_of_ofPattern {config : Config} {pattern : String} {seed : UInt64}
    {g : Generator WordSource} (h : ofPattern config pattern seed = .ok g) : g.resetFirst = g := by
  rw [ofPattern] at h
  cases hprogram : Program.ofPattern config pattern with
  | error e =>
    rw [hprogram] at h
    cases h
  | ok program =>
    rw [hprogram] at h
    cases h
    rfl

end Generator

/-! ### Lines without a match -/

namespace Source.Matcher

/-- The pattern matches nowhere in the text. -/
def Misses (m : Matcher) (text : String) : Prop := m.searcher.firstMatch? text = none

theorem exists_of_read {engine : Engine} {pattern : String} {m : Matcher}
    (h : read engine pattern = .ok m) : ∃ flags body, engine flags body = some m.searcher := by
  rw [read] at h
  dsimp only at h
  split at h
  next searcher hsearcher =>
    cases h
    exact ⟨_, _, hsearcher⟩
  next => cases h

theorem captures_of_misses {engine : Engine} (hengine : engine.Coherent) {pattern : String} {m : Matcher}
    (hread : read engine pattern = .ok m) {text : String} (h : m.Misses text) : m.captures text = #[] := by
  rw [captures]
  split
  · obtain ⟨flags, body, hsearcher⟩ := exists_of_read hread
    rw [hengine flags body m.searcher hsearcher text h, Array.map_empty]
  · rw [h, Option.getD_none]

end Source.Matcher

namespace CommandLine

/-! ### Output -/

/-- Lines, each with its end. -/
def unlines : List String → String
  | [] => ""
  | line :: lines => line ++ "\n" ++ unlines lines

/-- The texts of the ranges that do not fail. -/
def generated (results : List (Except GenerationError String)) : List String :=
  results.filterMap Except.toOption

/-- The texts of the ranges, and the lines of those that fail. -/
def replaced (results : List (Except GenerationError String)) (lines : List String) : List String :=
  List.zipWith (fun result line => result.toOption.getD line) results lines

/-- The messages of the ranges that fail. -/
def complaints : List (Except GenerationError String) → List String
  | [] => []
  | .ok _ :: results => complaints results
  | .error e :: results => e.message :: complaints results

namespace Outcome

/-- The outcome with more output and messages, and a failing code unless all ranges are fine. -/
def after (o : Outcome) (results : List (Except GenerationError String)) (printed : List String) :
    Outcome where
  code := if results.all Except.isOk then o.code else 1
  stdout := o.stdout ++ unlines printed
  stderr := o.stderr ++ unlines (complaints results)

theorem after_nil (o : Outcome) : o.after [] [] = o := by
  simp [after, complaints, unlines]

theorem after_ok (o : Outcome) (text : String) (results : List (Except GenerationError String))
    (printed : List String) : o.after (.ok text :: results) printed = o.after results printed := by
  simp [after, complaints, Except.isOk, Except.toBool]

theorem after_print (o : Outcome) (line : String) (results : List (Except GenerationError String))
    (printed : List String) :
    (o.print line).after results printed = o.after results (line :: printed) := by
  simp [after, print, unlines, String.append_assoc]

theorem after_complain (o : Outcome) (e : GenerationError)
    (results : List (Except GenerationError String)) (printed : List String) :
    (o.complain e).after results printed = o.after (.error e :: results) printed := by
  simp [after, complain, complaints, unlines, Except.isOk, Except.toBool, String.append_assoc]

theorem foldl_addResult (results : List (Except GenerationError String)) (o : Outcome) :
    results.foldl addResult o = o.after results (generated results) := by
  induction results generalizing o with
  | nil => exact o.after_nil.symm
  | cons result results ih =>
    rw [List.foldl_cons, ih]
    cases result with
    | ok text =>
      rw [after_ok]
      exact after_print o text results _
    | error e => exact after_complain o e results _

theorem foldl_addReplaced {outcomes : List RangeOutcome} {lines : List String}
    (hlength : outcomes.length = lines.length) (o : Outcome) :
    (outcomes.zip lines).foldl (fun o pair => o.addReplaced pair.1 pair.2) o =
      o.after (outcomes.map RangeOutcome.result) (replaced (outcomes.map RangeOutcome.result) lines) := by
  induction outcomes generalizing lines o with
  | nil =>
    obtain rfl := List.length_eq_zero_iff.1 hlength.symm
    exact o.after_nil.symm
  | cons outcome outcomes ih =>
    obtain ⟨line, lines, rfl⟩ := List.exists_cons_of_length_eq_add_one hlength.symm
    rw [List.zip_cons_cons, List.foldl_cons, ih (Nat.succ.inj hlength)]
    obtain ⟨index, result⟩ := outcome
    cases result with
    | ok text =>
      rw [List.map_cons, after_ok]
      exact after_print o text _ _
    | error e => exact (after_complain (o.print line) e _ _).trans (after_print o line _ _)

end Outcome

/-! ### The two ways -/

section

variable {σ : Type} [Chooser σ]

theorem generateFrom_eq_foldl (o : Outcome) (index : UInt64) (count : Nat) (g : Generator σ) :
    generateFrom o index count g = (g.resultsFrom index count).foldl Outcome.addResult o := by
  induction count generalizing o index g with
  | zero => rfl
  | succ count ih =>
    rw [generateFrom, Generator.resultsFrom, List.foldl_cons]
    exact ih _ _ _

theorem generateCount_eq (count : UInt64) (g : Generator σ) :
    generateCount count g =
      Outcome.after ⟨0, "", ""⟩ (g.resultsFrom 0 count.toNat)
        (generated (g.resultsFrom 0 count.toNat)) := by
  rw [generateCount, generateFrom_eq_foldl, Outcome.foldl_addResult]

variable {groupsOf : String → Array (Option String)} {lines : List String}

/-- An operation on lines without groups is a row of ranges without originals. -/
theorem run_eq_mapIdx (h : ∀ line ∈ lines, groupsOf line = #[]) (g : Generator σ) :
    (g.run groupsOf lines).1 =
      (g.resetFirst.resultsFrom 0 lines.length).mapIdx fun k result => ⟨UInt64.ofNat k, result⟩ := by
  rw [Generator.run, Generator.runFrom_fst, List.reverse_nil, List.nil_append,
    Generator.outcomesFrom_eq_mapIdx h]
  simp only [UInt64.zero_add]

theorem replaceLines_eq (h : ∀ line ∈ lines, groupsOf line = #[]) (g : Generator σ) :
    replaceLines groupsOf lines g =
      Outcome.after ⟨0, "", ""⟩ (g.resetFirst.resultsFrom 0 lines.length)
        (replaced (g.resetFirst.resultsFrom 0 lines.length) lines) := by
  have hresults : (g.run groupsOf lines).1.map RangeOutcome.result =
      g.resetFirst.resultsFrom 0 lines.length := by
    rw [run_eq_mapIdx h]
    apply List.ext_getElem?
    simp [Function.comp_def]
  rw [replaceLines]
  dsimp only
  rw [Outcome.foldl_addReplaced (Generator.length_run groupsOf g lines), hresults]

end

section

variable (engine : Source.Engine) (args : Arguments) {freshSeed : UInt64} (htree : args.tree = false)
include htree

theorem start_of_isEmpty (hbase : (Config.ofSettings args.settings).base.isEmpty = true) :
    Session.startWith engine args freshSeed = .over (.failed .emptyBase) := by
  simp [Session.startWith, htree, hbase]

variable (hbase : (Config.ofSettings args.settings).base.isEmpty = false)
include hbase

theorem start_of_error {cause : CompileError}
    (hg : Generator.ofPattern (.ofSettings args.settings) args.pattern (args.seed.getD freshSeed) =
      .error cause) :
    Session.startWith engine args freshSeed = .over (.failed (.compile cause)) := by
  simp [Session.startWith, htree, hbase, hg]

/-- A session with a generator counts, or waits for the lines to replace. -/
theorem start_of_ofPattern {g : Generator WordSource}
    (hg : Generator.ofPattern (.ofSettings args.settings) args.pattern (args.seed.getD freshSeed) = .ok g) :
    Session.startWith engine args freshSeed =
      match args.count with
      | some count => .over (generateCount count g)
      | none => .reads args.file (finish engine args g) := by
  simp only [Session.startWith, htree, hbase, hg]
  rfl

end

/-- A session without a generator is over, whatever it was to count or to read. -/
theorem start_over_or_exists (engine : Source.Engine) {args : Arguments} (htree : args.tree = false)
    (freshSeed : UInt64) :
    (∃ outcome, ∀ (file : Option String) (count : Option UInt64),
      Session.startWith engine { args with file, count } freshSeed = .over outcome) ∨
    ((Config.ofSettings args.settings).base.isEmpty = false ∧ ∃ g,
      Generator.ofPattern (.ofSettings args.settings) args.pattern (args.seed.getD freshSeed) = .ok g) := by
  cases hbase : (Config.ofSettings args.settings).base.isEmpty with
  | true =>
    exact .inl ⟨.failed .emptyBase, fun file count =>
      start_of_isEmpty engine { args with file, count } htree hbase⟩
  | false =>
    cases hg : Generator.ofPattern (.ofSettings args.settings) args.pattern (args.seed.getD freshSeed) with
    | error cause =>
      exact .inl ⟨.failed (.compile cause), fun file count =>
        start_of_error engine { args with file, count } htree hbase hg⟩
    | ok g => exact .inr ⟨rfl, g, rfl⟩

/-- Counting to `n` and replacing `n` lines in which nothing matches agree. Where there is no generator both
end in the same way. Otherwise, with the same seed, both generate the same results, range by range and in
the same order; both write the messages of the ranges that fail, in order, and both end with the code one
just when some range fails. Counting prints the texts of the ranges that do not fail, and replacing prints
the line of each range that fails among them. -/
theorem modes_agree {engine : Source.Engine} (hengine : engine.Coherent) (args : Arguments)
    (htree : args.tree = false) (freshSeed n : UInt64) {text : String}
    (hlines : (splitLines text).length = n.toNat) {matcher : Source.Matcher}
    (horiginal : Source.Matcher.read engine args.original = .ok matcher)
    (hmisses : ∀ line ∈ splitLines text, matcher.Misses line) :
    let config := Config.ofSettings args.settings
    let counting := Session.startWith engine { args with file := none, count := some n } freshSeed
    let replacing := Session.startWith engine { args with count := none } freshSeed
    (∀ outcome, replacing = .over outcome → counting = .over outcome) ∧
    ∀ g, config.base.isEmpty = false →
      Generator.ofPattern config args.pattern (args.seed.getD freshSeed) = .ok g →
      let results := g.resultsFrom 0 n.toNat
      let code : UInt8 := if results.all Except.isOk then 0 else 1
      (g.run matcher.captures (splitLines text)).1 =
          results.mapIdx (fun k result => ⟨UInt64.ofNat k, result⟩) ∧
        counting = .over ⟨code, unlines (generated results), unlines (complaints results)⟩ ∧
        ∃ resume, replacing = .reads args.file resume ∧ resume (.ok text) =
          ⟨code, unlines (replaced results (splitLines text)), unlines (complaints results)⟩ := by
  intro config counting replacing
  have hgroups (line : String) (hline : line ∈ splitLines text) : matcher.captures line = #[] :=
    Source.Matcher.captures_of_misses hengine horiginal (hmisses line hline)
  have hreads {g : Generator WordSource} (hbase : config.base.isEmpty = false)
      (hg : Generator.ofPattern config args.pattern (args.seed.getD freshSeed) = .ok g) :
      replacing = .reads args.file (finish engine { args with count := none } g) :=
    start_of_ofPattern engine { args with count := none } htree hbase hg
  refine ⟨fun outcome hover => ?_, fun g hbase hg => ?_⟩
  · obtain ⟨outcome', hsame⟩ | ⟨hbase, g, hg⟩ := start_over_or_exists engine htree freshSeed
    · exact (hsame none (some n)).trans ((hsame args.file none).symm.trans hover)
    · cases (hreads hbase hg).symm.trans hover
  · have hrun := run_eq_mapIdx hgroups g
    have hreplace := replaceLines_eq hgroups g
    rw [Generator.resetFirst_of_ofPattern hg, hlines] at hrun hreplace
    refine ⟨hrun, ?_, _, hreads hbase hg, ?_⟩
    · have hcounting : counting = .over (generateCount n g) :=
        start_of_ofPattern engine { args with file := none, count := some n } htree hbase hg
      rw [hcounting, generateCount_eq]
      simp [Outcome.after]
    · rw [finish, horiginal]
      dsimp only
      rw [hreplace]
      simp [Outcome.after]

/-- A machine for the letter q. -/
def letterMachine : Source.Machine where
  states := #[.done, .mark 1 0, .take (.range 'q' 'q') 1, .mark 0 2]
  start := 3
  groupCount := 1

/-- A matcher of the letter q. -/
def letterMatcher : Source.Matcher := ⟨letterMachine.searcher, false⟩

theorem read_letterMatcher : Source.Matcher.read Source.Machine.engine "q" = .ok letterMatcher := by
  have hmachine : Source.Machine.ofText? {} "q" = some letterMachine := by decide +kernel
  have hengine : Source.Machine.engine {} "q" = some letterMachine.searcher := by
    rw [Source.Machine.engine, hmachine, Option.map_some]
  have hsplit : Source.Matcher.splitFlags "q".toList = ([], "q".toList) := by decide
  rw [Source.Matcher.read, hsplit]
  simp [hengine, letterMatcher]

theorem letterMatcher_misses : letterMatcher.Misses "" := by
  have hsearch : letterMachine.search "".toList.toArray 0 = none := by
    rw [letterMachine, Source.Machine.search, if_pos (by decide), Source.Machine.searchFrom.eq_def]
    simp [Source.Machine.explore, Source.Machine.follow]
  exact Option.map_eq_none_iff.2 hsearch

/-- The first of these two ranges asks for no letter and the second one for less than one, which fails. -/
theorem twoEmptyLines_modes_agree :
    let args : Arguments := { pattern := "a{i,N}", original := "q", seed := some 1 }
    let results := (Generator.ofProgram (.ofSettings {}) countedLetter 1).resultsFrom 0 2
    splitLines "\n\n" = ["", ""] ∧ results.all Except.isOk = false ∧
    Session.start { args with count := some 2 } 0 =
      .over ⟨1, unlines (generated results), unlines (complaints results)⟩ ∧
    ∃ resume, Session.start args 0 = .reads none resume ∧ resume (.ok "\n\n") =
      ⟨1, unlines (replaced results ["", ""]), unlines (complaints results)⟩ := by
  intro args results
  have hsplit : splitLines "\n\n" = ["", ""] := by decide +kernel
  have hfails : results.all Except.isOk = false := by decide +kernel
  have hmisses : ∀ line ∈ splitLines "\n\n", letterMatcher.Misses line := by
    simp [hsplit, letterMatcher_misses]
  have hbase : (Config.ofSettings args.settings).base.isEmpty = false := by
    have hmem : 'a' ∈ (Config.ofSettings args.settings).base.chars.toList := by
      rw [Config.ofSettings, CharSet.ofSpecs, CharSet.toList_ofChars, List.mem_eraseDups]
      decide +kernel
    rw [CharSet.isEmpty, Array.isEmpty_eq_false_iff]
    intro hempty
    rw [hempty] at hmem
    cases hmem
  have hg : Generator.ofPattern (.ofSettings args.settings) "a{i,N}" 1 =
      .ok (Generator.ofProgram (.ofSettings {}) countedLetter 1) := by
    rw [Generator.ofPattern, countedLetter_compiled]
    rfl
  have hagree := (modes_agree Source.Machine.coherent_engine args rfl 0 2 (by rw [hsplit]; rfl)
    read_letterMatcher hmisses).2 _ hbase hg
  obtain ⟨-, hcounting, resume, hreplacing, hresume⟩ := hagree
  rw [hsplit] at hresume
  have hcode : (if results.all Except.isOk then 0 else 1 : UInt8) = 1 := by
    rw [hfails]
    rfl
  refine ⟨hsplit, hfails, ?_, resume, hreplacing, ?_⟩
  · rw [← hcode]
    exact hcounting
  · rw [← hcode]
    exact hresume

end CommandLine

end PatternText
