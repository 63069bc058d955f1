import QueryTree.CommandLine.Run
import QueryTree.Proofs.Json.Scalars

/-! The commands that compile a tree agree.  All go through the same stages: the tree is decoded,
the configuration is read, and the tree is compiled.  When a stage fails they fail alike; else they
show one statement, as text, as a document, and below the outline of the tree. -/

namespace QueryTree

/-! ### Lines without colours -/

theorem Line.renderAll_cons (colors : Bool) (line : Line) (lines : List Line) :
    Line.renderAll colors (line :: lines) = line.render colors ++ Line.renderAll colors lines :=
  String.join_cons

theorem Line.renderAll_append (colors : Bool) (lines more : List Line) :
    Line.renderAll colors (lines ++ more) =
      Line.renderAll colors lines ++ Line.renderAll colors more := by
  rw [renderAll, List.map_append, String.join_append, renderAll, renderAll]

namespace CommandLine

/-! ### Arguments -/

section Arguments

variable {allowed : List Switch} {arg value : String} {rest : List String} {found : Found}

theorem ne_of_isSwitch (h : isSwitch arg = false) : arg ≠ "--" := by
  rintro rfl
  cases h

theorem gather_command (hWord : isSwitch arg = false) :
    gather allowed none (arg :: rest) found = .ok ⟨found, some (arg, rest)⟩ := by
  rw [gather, if_neg (ne_of_isSwitch hWord), hWord]
  rfl

theorem gather_word (hWord : isSwitch arg = false) (limit : Nat) :
    gather allowed (some limit) (arg :: rest) found =
      (found.addWords limit [arg] >>= gather allowed (some limit) rest) := by
  rw [gather, if_neg (ne_of_isSwitch hWord), hWord]
  rfl

/-- A switch whose value is the next argument. -/
theorem gather_valued {s : Switch} {limit : Option Nat} (hArg : arg ≠ "--")
    (hSwitch : isSwitch arg = true) (hEvents : events allowed arg = [.valued s none])
    (hValue : isSwitch value = false) :
    gather allowed limit (arg :: value :: rest) found =
      (found.set s value >>= gather allowed limit rest) := by
  rw [gather.eq_def]
  simp only [hArg, if_false, hSwitch, if_true, hEvents, Found.take, hValue]
  rfl

theorem gather_config {path : String} (hPath : path ≠ "") (hWord : isSwitch path = false)
    (hEvents : events allowed "--config" = [.valued .config none]) (limit : Option Nat)
    (hFound : found.config = none) :
    gather allowed limit ["--config", path] found =
      .ok { found := { found with config := some path } } := by
  rw [gather_valued (by decide) (by decide) hEvents hWord, Found.set, hFound]
  rw [if_neg (by simpa using hPath)]
  rfl

end Arguments

section Usage

variable {fallback : Option String} {path : String} (hPath : path ≠ "")
  (hWord : isSwitch path = false) (hFallback : fallback ≠ some "")
include hPath hWord hFallback

theorem ofArguments_compile {name : String} {format : Format} (hName : isSwitch name = false)
    (hFormat : Format.ofName? name = some format) :
    Usage.ofArguments fallback ["compile", "-", "--format", name, "--config", path] =
      .run ⟨.compile "-" format, some path, false⟩ := by
  have hAfter : gather [.config, .verbose, .format, .help] (some 1)
      ["-", "--format", name, "--config", path] {} =
        .ok ⟨{ config := some path, format := some format, words := ["-"] }, none⟩ := by
    have hSet : Found.set { words := ["-"] } .format name =
        .ok { format := some format, words := ["-"] } := by
      rw [Found.set, hFormat]
    rw [gather_word (by decide)]
    show gather _ _ _ { words := ["-"] } = _
    rw [gather_valued (by decide) (by decide) rfl hName, hSet]
    exact gather_config hPath hWord rfl (some 1) rfl
  rw [Usage.ofArguments, gather_command (by decide)]
  simp [commandShape?, hAfter, command?, hFallback]

theorem ofArguments_explain :
    Usage.ofArguments fallback ["explain", "-", "--config", path] =
      .run ⟨.explain "-", some path, false⟩ := by
  have hAfter : gather [.config, .verbose, .help] (some 1) ["-", "--config", path] {} =
      .ok ⟨{ config := some path, words := ["-"] }, none⟩ := by
    rw [gather_word (by decide)]
    show gather _ _ _ { words := ["-"] } = _
    exact gather_config hPath hWord rfl (some 1) rfl
  rw [Usage.ofArguments, gather_command (by decide)]
  simp [commandShape?, hAfter, command?, hFallback]

end Usage

/-! ### Stages -/

/-- What the tree on standard input and a configuration come to: the tree is decoded, the
configuration is read, and the tree is compiled; the first failure ends it. -/
def stages (path tree toml : String) : Except Failure (Query × Settings × Statement) :=
  match Query.ofText tree with
  | .error reason => .error (.invalidTree "-" reason)
  | .ok q =>
    match Settings.ofToml toml with
    | .error reason => .error (.invalidConfig (some path) reason)
    | .ok settings =>
      match q.compile settings.dialect with
      | .error reason => .error (.uncompilable reason)
      | .ok st => .ok (q, settings, st)

section Stages

variable {s : Surroundings} {path tree toml : String}

theorem readTree_hyphen (hTree : s.standardInput = .ok tree) :
    readTree s "-" = (Query.ofText tree).mapError (.invalidTree "-") := by
  rw [readTree, if_pos rfl, hTree]

theorem settings_named (hConfig : s.file path = .ok toml) :
    settings s (some path) = (Settings.ofToml toml).mapError (.invalidConfig (some path)) := by
  rw [settings, hConfig, loadSettings]

variable (hTree : s.standardInput = .ok tree) (hConfig : s.file path = .ok toml)
include hTree hConfig

theorem compileReport_eq (format : Format) :
    compileReport s (some path) "-" format =
      match stages path tree toml with
      | .error failure => ⟨[], .failed failure⟩
      | .ok (_, _, st) => ⟨format.lines st, .success⟩ := by
  rw [compileReport, readTree_hyphen hTree, settings_named hConfig, stages]
  cases Query.ofText tree with
  | error => rfl
  | ok q =>
    cases Settings.ofToml toml with
    | error => rfl
    | ok settings =>
      dsimp only [Except.mapError, bind, Except.bind]
      cases q.compile settings.dialect <;> rfl

/-- A tree is explained in the same stages; part of it may have been printed before one fails. -/
theorem exists_explainReport_eq :
    ∃ begun, explainReport s (some path) "-" =
      match stages path tree toml with
      | .error failure => ⟨begun, .failed failure⟩
      | .ok (q, settings, st) =>
        ⟨outlineLines q ++ explainedLines settings.dialect st, .success⟩ := by
  rw [explainReport, readTree_hyphen hTree, settings_named hConfig, stages]
  cases Query.ofText tree with
  | error => exact ⟨[], rfl⟩
  | ok q =>
    cases Settings.ofToml toml with
    | error => exact ⟨[], rfl⟩
    | ok settings =>
      refine ⟨outlineLines q, ?_⟩
      dsimp only [Except.mapError, bind, Except.bind]
      cases q.compile settings.dialect <;> rfl

end Stages

/-! ### Statements shown -/

theorem renderAll_placeholderLines (d : Dialect) (index : Nat) (vs : List Scalar) :
    Line.renderAll false (placeholderLines d index vs) =
      String.join (vs.mapIdx fun i v =>
        "  " ++ d.placeholder (index + i) ++ " = " ++ v.display ++ "\n") := by
  induction vs generalizing index with
  | nil => rfl
  | cons v vs ih =>
    have hShift : ∀ i, index + 1 + i = index + (i + 1) := by omega
    rw [placeholderLines, Line.renderAll_cons, ih, List.mapIdx_cons, String.join_cons]
    simp only [hShift, Nat.add_zero]
    simp [Line.render, Span.plain, Span.color, String.append_assoc]

/-- A text is a document: it is read as the draft, nothing but white space is left over, and nothing
of the draft is refused. -/
def IsDocument (text : String) (d : Draft) : Prop :=
  ∃ rest, Draft.ofText text.toList = (d, .ok rest) ∧
    (Json.Read.skipSpace rest).isEmpty = true ∧ d.refusal? nestingLimit = none

theorem refusal?_draft_of_nesting {j : Json} (h : j.Legible) (hNesting : j.nesting ≤ nestingLimit) :
    j.draft.refusal? nestingLimit = none := by
  rw [Json.refusal?_draft _ j h, beyond?, if_pos hNesting]

theorem isDocument_scalar (v : Scalar) : IsDocument v.toJson.compact v.toJson.draft := by
  have hNesting : v.toJson.nesting ≤ nestingLimit := Nat.le_trans v.nesting_toJson (by decide)
  exact ⟨[], Json.ofText_compact v.legible_toJson, rfl,
    refusal?_draft_of_nesting v.legible_toJson hNesting⟩

section Bindings

variable (vs : List Scalar)

theorem legibleItems_bindings : Json.LegibleItems (vs.map Scalar.toJson) := by
  induction vs with
  | nil => trivial
  | cons v vs ih => exact ⟨v.legible_toJson, ih⟩

theorem nestingItems_bindings : Json.nestingItems (vs.map Scalar.toJson) ≤ 1 := by
  induction vs with
  | nil => exact Nat.zero_le 1
  | cons v vs ih => exact Nat.max_le.mpr ⟨v.nesting_toJson, ih⟩

theorem forall₂_draftItems_bindings :
    List.Forall₂ (fun v d => IsDocument v.toJson.compact d) vs
      (Json.draftItems (vs.map Scalar.toJson)) := by
  induction vs with
  | nil => exact .nil
  | cons v vs ih => exact .cons (isDocument_scalar v) ih

end Bindings

/-- The indented text of a statement is a document with its text and its bindings. -/
theorem isDocument_statement (st : Statement) :
    IsDocument (st.toJson.indented 0 ++ "\n") (.object [(some "sql", .string st.sql),
      (some "bindings", .array (Json.draftItems (st.bindings.map Scalar.toJson)) .closed)]
        .closed) := by
  have hLegible : st.toJson.Legible := ⟨trivial, legibleItems_bindings st.bindings, trivial⟩
  have hNesting : st.toJson.nesting ≤ 3 := by
    have := nestingItems_bindings st.bindings
    simp only [Statement.toJson, Json.nesting, Json.nestingMembers]
    omega
  have hBlank : Json.Read.Blank ['\n'] := by
    intro c hc
    rw [List.mem_singleton.mp hc]
    rfl
  refine ⟨['\n'], ?_, rfl, ?_⟩
  · rw [String.toList_append]
    exact Json.ofText_indented hLegible hBlank
  · exact refusal?_draft_of_nesting hLegible (Nat.le_trans hNesting (by decide))

/-! ### Agreement -/

/-- The reports of the three commands, each in one of the ways to show a tree. -/
structure Reports where
  text : Report
  json : Report
  explain : Report

def Reports.all (r : Reports) : List Report := [r.text, r.json, r.explain]

/-- All commands fail for the same reason, and those that print nothing but a statement print
nothing. -/
structure Reports.FailAlike (s : Surroundings) (r : Reports) (failure : Failure) : Prop where
  exitCode : ∀ report ∈ r.all, report.outcome.exitCode = 1
  errorText : ∀ report ∈ r.all,
    report.errorText s = "Error: " ++ ": ".intercalate failure.causes ++ "\n"
  text : r.text.outputText s = ""
  json : r.json.outputText s = ""

/-- All commands show the same statement. -/
structure Reports.ShowAlike (s : Surroundings) (r : Reports) (q : Query) (d : Dialect)
    (st : Statement) : Prop where
  exitCode : ∀ report ∈ r.all, report.outcome.exitCode = 0
  text : ∃ bindings, r.text.outputText s = st.sql ++ "\n" ++ bindings
  json : ∃ items, List.Forall₂ (fun v item => IsDocument v.toJson.compact item) st.bindings items ∧
    IsDocument (r.json.outputText s)
      (.object [(some "sql", .string st.sql), (some "bindings", .array items .closed)] .closed)
  explain : r.explain.outputText s =
    "Tree:\n" ++ Line.renderAll s.colors ((Outline.query 1 q).map Outline.Entry.line) ++
    "\nCompiled:\n  " ++ st.sql ++ "\n" ++
    String.join (st.bindings.mapIdx fun i v =>
      "  " ++ d.placeholder i ++ " = " ++ v.display ++ "\n")

/-- What the commands report is what the stages come to. -/
inductive Reports.Agree (s : Surroundings) (r : Reports) :
    Except Failure (Query × Settings × Statement) → Prop
  | failed {failure : Failure} : r.FailAlike s failure → r.Agree s (.error failure)
  | shown {q : Query} {settings : Settings} {st : Statement} :
      r.ShowAlike s q settings.dialect st → r.Agree s (.ok (q, settings, st))

/-- The reports for a tree on standard input with a configuration that is named. -/
def reports (s : Surroundings) (path : String) : Reports where
  text := run s ["compile", "-", "--format", "text", "--config", path]
  json := run s ["compile", "-", "--format", "json", "--config", path]
  explain := run s ["explain", "-", "--config", path]

section Alike

variable {s : Surroundings} (hColors : s.colors = false)
include hColors

theorem errorText_of_failed (output : List Line) (failure : Failure) :
    Report.errorText s ⟨output, .failed failure⟩ =
      "Error: " ++ ": ".intercalate failure.causes ++ "\n" := by
  rw [Report.errorText, hColors]
  simp [errorLine, Line.render, Span.bold, Span.plain, ← String.append_assoc]

theorem failAlike (failure : Failure) (begun : List Line) :
    Reports.FailAlike s ⟨⟨[], .failed failure⟩, ⟨[], .failed failure⟩, ⟨begun, .failed failure⟩⟩
      failure where
  exitCode := by simp [Reports.all, Outcome.exitCode]
  errorText := by simp [Reports.all, errorText_of_failed hColors]
  text := rfl
  json := rfl

theorem showAlike (q : Query) (d : Dialect) (st : Statement) :
    Reports.ShowAlike s ⟨⟨Format.lines .text st, .success⟩, ⟨Format.lines .json st, .success⟩,
      ⟨outlineLines q ++ explainedLines d st, .success⟩⟩ q d st where
  exitCode := by simp [Reports.all, Outcome.exitCode]
  text := by
    have hLine : Line.render false [.color .white st.sql] = st.sql ++ "\n" := by
      simp [Line.render, Span.color]
    rw [Report.outputText, hColors, Format.lines, statementLines, Line.renderAll_cons, hLine]
    exact ⟨_, rfl⟩
  json := by
    refine ⟨_, forall₂_draftItems_bindings st.bindings, ?_⟩
    have hText : Report.outputText s ⟨Format.lines .json st, .success⟩ =
        st.toJson.indented 0 ++ "\n" := by
      rw [Report.outputText, hColors]
      simp [Format.lines, Line.renderAll, Line.render, Span.plain]
    rw [hText]
    exact isDocument_statement st
  explain := by
    have hPlaceholders := renderAll_placeholderLines d 0 st.bindings
    have hTree : Line.render false [.bold .green "Tree:"] = "Tree:\n" := rfl
    have hTitle : Line.renderAll false [[.plain ""], [.bold .green "Compiled:"]] ++ "  " =
        "\nCompiled:\n  " := rfl
    have hSql : Line.render false [.plain "  ", .color .white st.sql] =
        "  " ++ (st.sql ++ "\n") := by
      simp [Line.render, Span.plain, Span.color, String.append_assoc]
    simp only [Nat.zero_add] at hPlaceholders
    simp only [Report.outputText, hColors, outlineLines, explainedLines, Line.renderAll_append,
      Line.renderAll_cons, hTree, hSql, hPlaceholders, ← hTitle, String.append_assoc]

end Alike

/-- The commands agree with the stages on every tree and every configuration, and so with one
another.  The path must be one that can follow its switch, and the environment must not name an
empty one. -/
theorem front_ends_agree {s : Surroundings} {path tree toml : String}
    (hTree : s.standardInput = .ok tree) (hConfig : s.file path = .ok toml)
    (hColors : s.colors = false) (hPath : path ≠ "") (hWord : isSwitch path = false)
    (hVariable : s.configVariable ≠ some "") :
    (reports s path).Agree s (stages path tree toml) := by
  have hCompile : ∀ {name format}, isSwitch name = false → Format.ofName? name = some format →
      run s ["compile", "-", "--format", name, "--config", path] =
        compileReport s (some path) "-" format := by
    intro name format hName hFormat
    rw [run, ofArguments_compile hPath hWord hVariable hName hFormat]
    rfl
  have hExplain : run s ["explain", "-", "--config", path] = explainReport s (some path) "-" := by
    rw [run, ofArguments_explain hPath hWord hVariable]
    rfl
  obtain ⟨begun, hExplained⟩ := exists_explainReport_eq hTree hConfig
  rw [reports, hCompile (by decide) rfl, hCompile (by decide) rfl, hExplain, hExplained,
    compileReport_eq hTree hConfig, compileReport_eq hTree hConfig]
  cases stages path tree toml with
  | error failure => exact .failed (failAlike hColors failure begun)
  | ok shown => exact .shown (showAlike hColors shown.1 shown.2.1.dialect shown.2.2)

section Cases

variable {s : Surroundings} {r : Reports} {come : Except Failure (Query × Settings × Statement)}

theorem Reports.Agree.showAlike {text : String}
    (hText : (come.toOption.map fun shown => shown.2.2.toJson.compact) = some text)
    (h : r.Agree s come) :
    ∃ q settings st, come = .ok (q, settings, st) ∧ st.toJson.compact = text ∧
      r.ShowAlike s q settings.dialect st := by
  cases h with
  | failed => cases hText
  | shown hShown => exact ⟨_, _, _, rfl, Option.some.inj hText, hShown⟩

theorem Reports.Agree.failAlike {causes : List String}
    (hCauses : (match come with
      | .error failure => some failure.causes
      | .ok _ => none) = some causes)
    (h : r.Agree s come) :
    ∃ failure, come = .error failure ∧ failure.causes = causes ∧ r.FailAlike s failure := by
  cases h with
  | failed hFailed => exact ⟨_, rfl, Option.some.inj hCauses, hFailed⟩
  | shown => cases hCauses

end Cases

/-- A call with quotes in its text and a double for a parameter. -/
def callTree : String :=
  "\x7b\"from\":[[\"Raw\",[\"f(\\\"x\\\", \",\")\"],[[\"Value\",1.5]]]]\x7d"

/-- Settings with a lead of their own and a base. -/
def countedFrom (base : String) : String :=
  "[compiler]\nplaceholder_prefix = \":\"\nplaceholder_base = " ++ base

def caller (base : String) : Surroundings where
  standardInput := .ok callTree
  file _ := .ok (countedFrom base)

/-- The call is shown; with a base that is negative it is refused. -/
theorem front_ends_agree_callTree :
    (∃ q settings st, stages "a.toml" callTree (countedFrom "7") = .ok (q, settings, st) ∧
      st.toJson.compact = "\x7b\"sql\":\"from f(\\\"x\\\", :7)\",\"bindings\":[1.5]\x7d" ∧
      (reports (caller "7") "a.toml").ShowAlike (caller "7") q settings.dialect st) ∧
    ∃ failure, stages "a.toml" callTree (countedFrom "-7") = .error failure ∧
      failure.causes = ["Failed to load config 'a.toml'", "Configuration error: TOML parse error"] ∧
      (reports (caller "-7") "a.toml").FailAlike (caller "-7") failure := by
  have hAgree : ∀ base, (reports (caller base) "a.toml").Agree (caller base)
      (stages "a.toml" callTree (countedFrom base)) := fun base =>
    front_ends_agree rfl rfl rfl (by decide) rfl nofun
  exact ⟨(hAgree "7").showAlike (by decide +kernel), (hAgree "-7").failAlike (by decide +kernel)⟩

end CommandLine

end QueryTree
