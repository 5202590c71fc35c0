/-
The status of the command line.  Once the settings are loaded, a text that is no
formula is refused before a machine is started, and a machine on a formula never
finds it malformed: it finishes, or it is abandoned for its steps or its
nesting.  So the status tells which of these came about.  What the command line
does not foresee are failures to load without a verdict on the settings, and a
recursion limit that is too large to be taken over; every other run is
reported.
-/
import Combinatory.Command
import Combinatory.Proofs.Meaning
import Combinatory.Proofs.Resumption
import Combinatory.Proofs.SettingsTable

namespace Combinatory

/-- The texts of the words of the grammar are the formulas. -/
theorem isFormula_iff_derivable {text : String} :
    IsFormula text ↔ ∃ w : Word, w.Derivable ∧ w.text = text := by
  constructor
  · intro htext
    obtain ⟨t, rfl⟩ := htext.exists_tree
    exact ⟨t.tokens, Word.derivable_tokens t, t.text_eq.symm⟩
  · rintro ⟨w, hw, rfl⟩
    obtain ⟨t, rfl⟩ := Word.derivable_iff.1 hw
    rw [← t.text_eq]
    exact ⟨t.tokens, Word.ofFormula_text t⟩

theorem Word.text_injective {v w : Word} (h : v.text = w.text) : v = w := by
  have hread := Word.lex_text v
  rw [h, Word.lex_text] at hread
  cases hread
  rfl

theorem evaluate_of_not_isFormula (o : Options) {text : String}
    (htext : ¬ IsFormula text) :
    ∃ e, evaluate o text = ⟨.error (.input e), none⟩ := by
  unfold evaluate
  cases hread : Word.ofFormula text with
  | error e => exact ⟨e, rfl⟩
  | ok w => exact absurd ⟨w, hread⟩ htext

/-- How the machine ends on a word under the settings.  There is room for as
many active applications as the recursion limit says, but for no fewer than a
thousand. -/
def Settings.outcome (s : Settings) (w : Word) : Machine.Result Word :=
  (Machine.ofWord w).eval (s.options (max 1000 s.recursionLimit))

namespace Command

variable {formula : String} {named : Option String} {host : Host}

/-- Loaded settings whose recursion limit can be taken over, or a failure to
load that is a verdict: there is no such file, the decoder finds it wrong, or an
entry of its table cannot be used. -/
inductive Foreseen : Except LoadError Settings → Prop where
  | loaded {s : Settings} : s.recursionLimit ≤ 2147483647 → Foreseen (.ok s)
  | noFile (path : String) : Foreseen (.error (.noFile path))
  | badEncoding (message : String) :
      Foreseen (.error (.undecoded (.badEncoding message)))
  | badSyntax (message : String) :
      Foreseen (.error (.undecoded (.badSyntax message)))
  | table (path : String) (e : TableError) : Foreseen (.error (.table path e))
  | longNumber : Foreseen (.error (.unshowable .longNumber))

/-- The status and the output that a formula has coming, by the outcome of
loading the settings. -/
inductive Verdict (formula : String) :
    Except LoadError Settings → Nat → String → Prop where
  | unloaded (e : LoadError) : Verdict formula (.error e) 2 ""
  | refused (s : Settings) : (¬ ∃ w : Word, w.Derivable ∧ w.text = formula) →
      Verdict formula (.ok s) 1 ""
  | finished {s : Settings} {w result : Word} {left : Machine} : w.Derivable →
      w.text = formula → s.outcome w = .ok result left →
      Verdict formula (.ok s) 0 (result.text ++ "\n")
  | abandoned {s : Settings} {w : Word} {fault : Fault} {left : Machine} :
      w.Derivable → w.text = formula →
      s.outcome w = .error (.fault fault) left → Verdict formula (.ok s) 3 ""

namespace Verdict

variable {loaded : Except LoadError Settings} {s : Settings} {status : Nat}
  {out : String}

theorem status_mem (h : Verdict formula loaded status out) :
    status ∈ [0, 1, 2, 3] := by
  cases h <;> simp

theorem status_eq_two_iff (h : Verdict formula loaded status out) :
    status = 2 ↔ ∃ e, loaded = .error e := by
  cases h <;> simp

end Verdict

/-- Evaluation under settings that can be taken over gives the verdict on the
formula. -/
theorem exists_verdict_evaluateWith {s : Settings}
    (hlimit : s.recursionLimit ≤ 2147483647) (formula : String) :
    ∃ report, evaluateWith s formula = .ok report ∧
      Verdict formula (.ok s) report.status report.out := by
  have hdepth : ¬ greatestDepth < max leastDepth s.recursionLimit := by
    simp only [greatestDepth, leastDepth]
    omega
  unfold evaluateWith
  rw [if_neg hdepth]
  refine ⟨_, rfl, ?_⟩
  by_cases htext : IsFormula formula
  · obtain ⟨w, hw, rfl⟩ := isFormula_iff_derivable.1 htext
    obtain ⟨t, rfl⟩ := Word.derivable_iff.1 hw
    rw [← t.text_eq, evaluate_text, Evaluation.ofWord]
    rcases Machine.eval_ofWord_tokens
        (s.options (max 1000 s.recursionLimit)) t with
      ⟨result, left, heval⟩ | ⟨fault, left, heval⟩
    · simp only [leastDepth, heval]
      exact .finished hw t.text_eq.symm heval
    · simp only [leastDepth, heval]
      exact .abandoned hw t.text_eq.symm heval
  · obtain ⟨e, heval⟩ := evaluate_of_not_isFormula
      (s.options (max leastDepth s.recursionLimit)) htext
    simp only [heval]
    exact .refused s fun hword => htext (isFormula_iff_derivable.2 hword)

theorem evaluateWith_of_lt {s : Settings}
    (hlimit : 2147483647 < s.recursionLimit) (formula : String) :
    evaluateWith s formula = .error (.recursionLimit s.recursionLimit) := by
  have hdepth : greatestDepth < max leastDepth s.recursionLimit := by
    simp only [greatestDepth, leastDepth]
    omega
  simp only [evaluateWith, if_pos hdepth]

/-- The failures that are foreseen are the verdicts. -/
theorem foreseen_error_iff {e : LoadError} :
    Foreseen (.error e) ↔ e.isVerdict = true := by
  constructor
  · intro h
    cases h <;> rfl
  · intro h
    unfold LoadError.isVerdict at h
    split at h
    · exact .noFile _
    · exact .badEncoding _
    · exact .badSyntax _
    · exact .table _ _
    · exact .longNumber
    all_goals cases h

/-- Where the outcome of loading is foreseen, the run gives the verdict on the
formula. -/
theorem exists_verdict (hload : Foreseen (Settings.load host named))
    (formula : String) :
    ∃ report, runOn host formula named = .ok report ∧
      Verdict formula (Settings.load host named) report.status report.out := by
  unfold runOn
  cases hresult : Settings.load host named with
  | ok s =>
      rw [hresult] at hload
      cases hload with
      | loaded hlimit => exact exists_verdict_evaluateWith hlimit formula
  | error e =>
      rw [hresult] at hload
      exact ⟨_, if_pos (foreseen_error_iff.1 hload), .unloaded e⟩

theorem runOn_of_load_error {e : LoadError}
    (hload : Settings.load host named = .error e) (he : e.isVerdict = false)
    (formula : String) : runOn host formula named = .error (.load e) := by
  rw [runOn, hload]
  exact if_neg (Bool.eq_false_iff.1 he)

/-- Where it is not, the run passes a failure on. -/
theorem exists_escape (hload : ¬ Foreseen (Settings.load host named))
    (formula : String) :
    ∃ e, runOn host formula named = .error e := by
  cases hresult : Settings.load host named with
  | ok s =>
      rw [hresult] at hload
      have hlimit : 2147483647 < s.recursionLimit :=
        Nat.lt_of_not_le fun hle => hload (.loaded hle)
      rw [runOn, hresult]
      exact ⟨_, evaluateWith_of_lt hlimit formula⟩
  | error e =>
      rw [hresult, foreseen_error_iff, Bool.not_eq_true] at hload
      exact ⟨_, runOn_of_load_error hresult hload formula⟩

theorem run_cons_toList (host : Host) (formula : String)
    (named : Option String) :
    run host (formula :: named.toList) = runOn host formula named := by
  cases named <;> rfl

theorem run_of_length (host : Host) {arguments : List String}
    (hone : arguments.length ≠ 1) (htwo : arguments.length ≠ 2) :
    run host arguments = .ok { status := 2, said := [usage] } := by
  match arguments with
  | [] => rfl
  | [_] => exact absurd rfl hone
  | [_, _] => exact absurd rfl htwo
  | _ :: _ :: _ :: _ => rfl

/-- One or two arguments are a formula and perhaps a path. -/
theorem request_cases (arguments : List String) :
    (arguments.length ≠ 1 ∧ arguments.length ≠ 2) ∨
      ∃ (formula : String) (named : Option String),
        arguments = formula :: named.toList := by
  match arguments with
  | [] => simp
  | [formula] => exact Or.inr ⟨formula, none, rfl⟩
  | [formula, path] => exact Or.inr ⟨formula, some path, rfl⟩
  | _ :: _ :: _ :: _ => simp

theorem request_injective {formula' : String} {named' : Option String}
    (h : formula :: named.toList = formula' :: named'.toList) :
    formula = formula' ∧ named = named' := by
  cases named <;> cases named' <;> simp_all

/-- What stands at the path of the settings is not foreseen.  It is a directory
or cannot be opened; the decoder breaks down on it; its settings are no table;
the first entry that cannot be used has a value nested too deeply to be shown;
or it sets a recursion limit too large to be taken over.  What else the system
can do to a file that it has opened, such as failing while it is read, is left
out. -/
inductive Unforeseen (host : Host) : Found → Prop where
  | directory : Unforeseen host .directory
  | closed : Unforeseen host .closed
  | failed {content : ByteArray} {message : String} :
      host.decode content = .error (.failed message) →
      Unforeseen host (.file content)
  | notTable {content : ByteArray} {entries : List (String × Toml.Datum)}
      {value : Toml.Datum} : host.decode content = .ok entries →
      entries.lookup "stax" = some value → (∀ table, value ≠ .table table) →
      Unforeseen host (.file content)
  | deepValue {content : ByteArray}
      {entries before after : List (String × Toml.Datum)}
      {entry : String × Toml.Datum} : host.decode content = .ok entries →
      entries.lookup "stax" = some (.table (before ++ entry :: after)) →
      (∀ u ∈ before, Usable u) → ¬ Usable entry →
      Hindered host.room .deepNesting entry → Unforeseen host (.file content)
  | recursionLimit {content : ByteArray}
      {entries table : List (String × Toml.Datum)} {s : Settings} :
      host.decode content = .ok entries →
      entries.lookup "stax" = some (.table table) →
      Settings.ofTable table = .ok s → 2147483647 < s.recursionLimit →
      Unforeseen host (.file content)

theorem foreseen_refusal_iff (room : Nat) (path : String)
    (entry : String × Toml.Datum) :
    Foreseen (.error (.ofTable room path (Settings.refusal entry))) ↔
      ¬ Hindered room .deepNesting entry :=
  foreseen_error_iff.trans (LoadError.isVerdict_ofTable_iff room path entry)

theorem foreseen_ofContent_iff (path : String) (content : ByteArray) :
    Foreseen (Settings.ofContent host path content) ↔
      ¬ Unforeseen host (.file content) := by
  constructor
  · intro hforeseen hunforeseen
    cases hunforeseen with
    | failed hdecode =>
        simp only [Settings.ofContent, hdecode] at hforeseen
        cases hforeseen
    | @notTable _ _ value hdecode hentry htable =>
        simp only [Settings.ofContent, Settings.tableName, hdecode, hentry]
          at hforeseen
        cases value with
        | table table => exact htable table rfl
        | _ => cases hforeseen
    | deepValue hdecode hentry hbefore hunusable hdeep =>
        simp only [Settings.ofContent, Settings.tableName, hdecode, hentry,
          Settings.ofTable, Settings.foldlM_put_of_first hbefore hunusable]
          at hforeseen
        exact (foreseen_refusal_iff _ _ _).1 hforeseen hdeep
    | recursionLimit hdecode hentry hsettings hlimit =>
        simp only [Settings.ofContent, Settings.tableName, hdecode, hentry,
          hsettings] at hforeseen
        cases hforeseen with
        | loaded hle => omega
  · intro hforeseen
    unfold Settings.ofContent
    split
    · next error hdecode =>
      cases error with
      | badEncoding message => exact .badEncoding message
      | badSyntax message => exact .badSyntax message
      | failed message => exact absurd (.failed hdecode) hforeseen
    · next entries hdecode =>
      split
      · exact .loaded (by decide)
      · next table hentry =>
        cases hsettings : Settings.ofTable table with
        | error e =>
            obtain ⟨before, entry, after, rfl, hbefore, hunusable, rfl⟩ :=
              Settings.exists_first_of_foldlM_put hsettings
            exact (foreseen_refusal_iff _ _ _).2 fun hdeep =>
              hforeseen (.deepValue hdecode hentry hbefore hunusable hdeep)
        | ok s =>
            have hlimit : ¬ 2147483647 < s.recursionLimit := fun hlimit =>
              hforeseen (.recursionLimit hdecode hentry hsettings hlimit)
            exact .loaded (Nat.le_of_not_lt hlimit)
      · next value htable hentry =>
        exact absurd (.notTable hdecode hentry htable) hforeseen

/-- The outcome of loading is foreseen unless what stands at the path is not. -/
theorem foreseen_load_iff :
    Foreseen (Settings.load host named) ↔
      ¬ Unforeseen host (host.look (Settings.path named host.chosen)) := by
  simp only [Settings.load]
  cases hfound : host.look (Settings.path named host.chosen) with
  | nothing =>
      have hforeseen : Foreseen (if named.isSome then
          .error (.noFile (Settings.path named host.chosen)) else .ok {}) := by
        split
        · exact .noFile _
        · exact .loaded (by decide)
      have hlooked : ¬ Unforeseen host .nothing := by rintro ⟨⟩
      exact iff_of_true hforeseen hlooked
  | directory =>
      exact iff_of_false (by rintro ⟨⟩) fun h => h .directory
  | closed =>
      exact iff_of_false (by rintro ⟨⟩) fun h => h .closed
  | file content => exact foreseen_ofContent_iff _ content

/-- A run ends with a status, and with status 2 if its settings cannot be used,
exactly if what stands at the path of its settings is foreseen; without one or
two arguments it looks at no path.  This holds for every decoder, for every
answer of the system to the question what stands at a path, and for any room in
which values are shown; a failure of the console is left out. -/
theorem reported_iff_foreseen (host : Host) (arguments : List String) :
    (∃ report, run host arguments = .ok report ∧ report.status ∈ [0, 1, 2, 3] ∧
      ∀ formula named, arguments = formula :: named.toList →
        (∀ s, Settings.load host named = .ok s →
          2147483647 < s.recursionLimit) →
        report.status = 2) ↔
    ∀ formula named, arguments = formula :: named.toList →
      ¬ Unforeseen host (host.look (Settings.path named host.chosen)) := by
  constructor
  · rintro ⟨report, hrun, _⟩ formula named rfl hunforeseen
    have hload : ¬ Foreseen (Settings.load host named) :=
      fun hforeseen => foreseen_load_iff.1 hforeseen hunforeseen
    obtain ⟨e, hescape⟩ := exists_escape hload formula
    rw [run_cons_toList, hescape] at hrun
    cases hrun
  · intro hforeseen
    rcases request_cases arguments with ⟨hone, htwo⟩ | ⟨formula, named, rfl⟩
    · exact ⟨_, run_of_length host hone htwo, by simp, fun _ _ _ _ => rfl⟩
    · have hload := foreseen_load_iff.2 (hforeseen formula named rfl)
      obtain ⟨report, hrun, hverdict⟩ := exists_verdict hload formula
      refine ⟨report, by rw [run_cons_toList, hrun], hverdict.status_mem, ?_⟩
      intro formula' named' hrequest hunusable
      obtain ⟨rfl, rfl⟩ := request_injective hrequest
      rw [hverdict.status_eq_two_iff]
      cases hresult : Settings.load host named with
      | error e => exact ⟨e, rfl⟩
      | ok s =>
          have hlimit := hunusable s hresult
          rw [hresult] at hload
          cases hload with
          | loaded hle => omega

/-- A recursion limit of 2 ^ 31, a number in the place of the table, a directory
in the place of the file and a mode nested too deeply all escape, so that not
every run ends with a status. -/
theorem unforeseen_runs_escape :
    run (.ofText "[stax]\nrecursionlimit = 2147483648\n") ["i"] =
        .error (.recursionLimit 2147483648) ∧
      run (.ofText "stax = 5\n") ["i"] =
        .error (.load (.notTable (.int 5))) ∧
      run { look := fun _ => .directory, decode := Toml.decode } ["i"] =
        .error (.load (.directory "stax.toml")) ∧
      run (.ofText (String.ofList Settings.deepModeFile)) ["i"] =
        .error (.load (.unshowable .deepNesting)) ∧
      ¬ ∀ host arguments, ∃ report, run host arguments = .ok report := by
  have hlimit : run (.ofText "[stax]\nrecursionlimit = 2147483648\n") ["i"] =
      .error (.recursionLimit 2147483648) := by
    have htable : Settings.TableAt
        (.ofText "[stax]\nrecursionlimit = 2147483648\n") "stax.toml"
        [("recursionlimit", .int 2147483648)] :=
      Settings.tableAt_ofText (Toml.parse_of_sameEntries (by decide +kernel))
        (by decide)
    have hload : Settings.load
        (.ofText "[stax]\nrecursionlimit = 2147483648\n") none =
        .ok { recursionLimit := 2147483648 } :=
      (Settings.load_eq_ok_iff htable).2 rfl
    rw [run, runOn, hload]
    exact evaluateWith_of_lt (by decide) "i"
  have hnumber : run (.ofText "stax = 5\n") ["i"] =
      .error (.load (.notTable (.int 5))) := by
    have hparse : Toml.parse "stax = 5\n" = some [("stax", .int 5)] :=
      Toml.parse_of_sameEntries (by decide +kernel)
    have hload : Settings.load (.ofText "stax = 5\n") none =
        .error (.notTable (.int 5)) := by
      simp only [Settings.load, Host.ofText, Settings.ofContent,
        Toml.decode_toUTF8 hparse]
      rfl
    rw [run]
    exact runOn_of_load_error hload rfl "i"
  have hdirectory : run { look := fun _ => .directory, decode := Toml.decode }
      ["i"] = .error (.load (.directory "stax.toml")) := rfl
  have hdeep : run (.ofText (String.ofList Settings.deepModeFile)) ["i"] =
      .error (.load (.unshowable .deepNesting)) := by
    rw [run]
    obtain ⟨_, _, rfl, _, _, _, _, hload⟩ :=
      Settings.exists_load_of_hindersMode Settings.hindersMode_deepModeFile
    exact runOn_of_load_error hload rfl "i"
  refine ⟨hlimit, hnumber, hdirectory, hdeep, ?_⟩
  intro hreported
  obtain ⟨report, hrun⟩ := hreported _ _
  rw [hdirectory] at hrun
  cases hrun

end Command

end Combinatory
