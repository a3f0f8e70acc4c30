import Mathlib
import SchoolAlgebra.Cli.Request
import SchoolAlgebra.Proofs.ForMathlib.Except

/-!
# Arguments that ask for a request

The same request can be asked for in many ways: names of options may be cut short, values may be
attached or stand alone, and an option may be given again. Here is one way that always works. Each
option has its full name and its value attached; then come the separator and the operands, which
may be any texts there, also those that look like options.

Only one text cannot be a value. Two hyphens attached to an option give it nothing, so no arguments
ask for a request in which they are the name of a file or the denominator.

## Why these arguments

An attached value is never looked at again, so it may begin with a hyphen or hold an equals sign.
Full names are not cut short, and so it does not matter which other options there are. Behind the
separator every argument is an operand. What remains to be shown is that going through such
arguments is a fold over the options followed by the operands, and that the fold over the options of
a request makes that request.

## Main definitions

* `Cli.Request.arguments` — arguments that ask for a request
* `Cli.Request.Spelled` — two hyphens are no value in the request

## Main results

* `Cli.Request.spelled_of_ofArguments` — two hyphens are no value in what arguments ask for
* `Cli.Request.ofArguments_arguments` — the arguments of a request ask for it
-/

namespace SchoolAlgebra

namespace Cli

/-! ### Options with their values -/

/-- An option, and its value if it takes one. -/
abbrev GivenFlag : Type := Flag × Option String

namespace Flag

/-- The argument for an option with its value attached. -/
def argument (flag : Flag) : Option String → String
  | none => "--" ++ flag.name
  | some value => "--" ++ flag.name ++ "=" ++ value

/-- The text of an argument after two hyphens. -/
def body (flag : Flag) : Option String → List Char
  | none => flag.name.toList
  | some value => flag.name.toList ++ '=' :: value.toList

theorem toList_argument (flag : Flag) (value? : Option String) :
    (flag.argument value?).toList = '-' :: '-' :: flag.body value? := by
  cases value? <;> simp [argument, body]

/-- No name holds an equals sign. -/
theorem ne_equals_of_mem_name (flag : Flag) : ∀ c ∈ flag.name.toList, (c != '=') = true := by
  cases flag <;> simp [name]

theorem takeWhile_body (flag : Flag) (value? : Option String) :
    (flag.body value?).takeWhile (· != '=') = flag.name.toList := by
  cases value? with
  | none => exact List.takeWhile_eq_self_iff.mpr flag.ne_equals_of_mem_name
  | some value =>
    rw [body, List.takeWhile_append_of_pos flag.ne_equals_of_mem_name,
      List.takeWhile_cons_of_neg (by decide), List.append_nil]

theorem tail?_dropWhile_body (flag : Flag) (value? : Option String) :
    ((flag.body value?).dropWhile (· != '=')).tail? = value?.map String.toList := by
  cases value? with
  | none => rw [body, List.dropWhile_eq_nil_iff.mpr flag.ne_equals_of_mem_name]; rfl
  | some value =>
    rw [body, List.dropWhile_append_of_pos flag.ne_equals_of_mem_name,
      List.dropWhile_cons_of_neg (by decide)]
    rfl

theorem body_ne_nil (flag : Flag) (value? : Option String) : flag.body value? ≠ [] := by
  intro h
  have hname := flag.takeWhile_body value?
  rw [h] at hname
  revert hname
  cases flag <;> decide

end Flag

namespace Word

variable {flag : Flag} {value? : Option String}

/-- An option with its value attached is recognized. -/
theorem recognize_argument (h : flag.takesValue = value?.isSome) :
    recognize (flag.argument value?) = .ok (.option [] flag value?) := by
  rw [recognize, flag.toList_argument]
  simp only [recognizeLong, flag.takeWhile_body, flag.tail?_dropWhile_body, Flag.ofName?_name]
  cases value? with
  | none => rfl
  | some value =>
    have htakes : flag.takesValue = true := h
    simp only [Option.map_some, withValue, htakes, if_true, String.ofList_toList]

/-- Options with their values attached are recognized, and what follows the separator is plain. -/
theorem recognizeAll_arguments {options : List GivenFlag} (operands : List String)
    (h : ∀ option ∈ options, option.1.takesValue = option.2.isSome) :
    recognizeAll (options.map (fun option => option.1.argument option.2) ++ "--" :: operands) =
      .ok (options.map (fun option => .option [] option.1 option.2) ++
        .separator :: operands.map .plain) := by
  induction options with
  | nil => rfl
  | cons option options ih =>
    have hseparator : option.1.argument option.2 ≠ "--" := by
      intro heq
      have hlist := option.1.toList_argument option.2
      rw [heq] at hlist
      exact option.1.body_ne_nil option.2 (List.cons.inj (List.cons.inj hlist).2).2.symm
    rw [List.map_cons, List.cons_append, recognizeAll, if_neg hseparator,
      recognize_argument (h option List.mem_cons_self),
      ih fun o ho => h o (List.mem_cons_of_mem _ ho)]
    rfl

end Word

/-! ### Going through the arguments

As long as no operand has been met, an option changes only the request, and the rest of the progress
is as it was at the beginning. So options become a fold. -/

/-- The request after an option and its value. -/
def Request.withGivenFlag (r : Request) (option : GivenFlag) : Except Stop Request :=
  match option.2 with
  | some value => r.withValue (.ofText value) option.1
  | none => r.withFlag option.1

namespace Progress

theorem addOption_eq (p : Progress) (before : List Flag) (flag : Flag) (value? : Option String) :
    p.addOption before flag value? =
      before.foldlM Request.withFlag p.request >>= fun r => r.withGivenFlag (flag, value?) >>=
        fun request => .ok { p.closeOperands with request } := by
  cases value? <;> rfl

/-- An option before all operands only changes the request. -/
theorem addWords_option {flag : Flag} {value? : Option String} (r : Request) (rest : List Word)
    (h : flag.takesValue = value?.isSome) :
    addWords ⟨r, .before, false⟩ (.option [] flag value? :: rest) =
      r.withGivenFlag (flag, value?) >>= fun r => addWords ⟨r, .before, false⟩ rest := by
  have hstep : addWords ⟨r, .before, false⟩ (.option [] flag value? :: rest) =
      addOption ⟨r, .before, false⟩ [] flag value? >>= fun p => p.addWords rest := by
    cases value? with
    | none =>
      have htakes : flag.takesValue = false := h
      rw [addWords.eq_def]
      simp only [htakes, Bool.false_eq_true, if_false]
    | some value => rw [addWords]
  rw [hstep, addOption_eq, List.foldlM_nil, pure_bind, bind_assoc]
  rfl

/-- Options before all operands only change the request. -/
theorem addWords_options {options : List GivenFlag} (r : Request) (rest : List Word)
    (h : ∀ option ∈ options, option.1.takesValue = option.2.isSome) :
    addWords ⟨r, .before, false⟩
        (options.map (fun option => .option [] option.1 option.2) ++ rest) =
      options.foldlM Request.withGivenFlag r >>= fun r => addWords ⟨r, .before, false⟩ rest := by
  induction options generalizing r with
  | nil => rfl
  | cons option options ih =>
    rw [List.map_cons, List.cons_append, addWords_option _ _ (h option List.mem_cons_self),
      List.foldlM_cons, bind_assoc]
    congr 1
    funext r
    exact ih r fun o ho => h o (List.mem_cons_of_mem _ ho)

/-- Operands are taken as they come. -/
theorem addWords_operands (r : Request) (operands : List String) :
    addWords ⟨r, .within, false⟩ (operands.map .plain) =
      .ok ⟨{ r with expressions := r.expressions ++ operands }, .within, false⟩ := by
  induction operands generalizing r with
  | nil => rw [List.append_nil]; rfl
  | cons operand operands ih =>
    rw [List.map_cons, addWords]
    refine (ih { r with expressions := r.expressions ++ [operand] }).trans ?_
    rw [List.append_assoc]
    rfl

end Progress

/-! ### What arguments ask for

Two hyphens attached to an option are taken away. Every step that puts a value into the request goes
through `Given.ofText`, which is the only place where this has to be shown; all other steps leave
the two fields alone. -/

namespace Given

/-- The text that gives something to an option. -/
def text : Given String → String
  | .nothing => "--"
  | .value text => text

theorem ofText_text {given : Given String} (h : given ≠ .value "--") :
    ofText given.text = given := by
  cases given with
  | nothing => rfl
  | value text => exact if_neg fun heq => h (congrArg value heq)

theorem ofText_ne (text : String) : ofText text ≠ .value "--" := by
  rw [ofText]
  split
  · decide
  · next h => exact fun heq => h (value.inj heq)

theorem value?_ofText_ne (text : String) : (ofText text).value? ≠ some "--" := by
  cases h : ofText text with
  | nothing => nofun
  | value t => exact fun heq => ofText_ne text (h.trans (congrArg value (Option.some.inj heq)))

end Given

namespace Request

variable {r r' : Request}

/-- Two hyphens are neither the name of a file nor the denominator. -/
structure Spelled (r : Request) : Prop where
  file_ne : r.file? ≠ some "--"
  over_ne : r.over? ≠ some (.value "--")
  config_ne : r.config? ≠ some "--"

theorem Spelled.withFlag {flag : Flag} (hr : r.Spelled) (h : r.withFlag flag = .ok r') :
    r'.Spelled := by
  cases flag <;> cases h
  case json => exact { hr with }
  case debug => exact { hr with }

theorem Spelled.withValue {flag : Flag} {text : String} (hr : r.Spelled)
    (h : r.withValue (.ofText text) flag = .ok r') : r'.Spelled := by
  match flag, h with
  | .file, h =>
    cases h
    exact { hr with file_ne := Given.value?_ofText_ne text }
  | .over, h =>
    cases h
    exact { hr with over_ne := fun heq => Given.ofText_ne text (Option.some.inj heq) }
  | .config, h =>
    cases h
    exact { hr with config_ne := Given.value?_ofText_ne text }
  | .mode, h =>
    rw [Request.withValue] at h
    split at h
    · cases h
      exact { hr with }
    · cases h

theorem Spelled.withFlags {flags : List Flag} (hr : r.Spelled)
    (h : flags.foldlM Request.withFlag r = .ok r') : r'.Spelled := by
  induction flags generalizing r with
  | nil =>
    cases h
    exact hr
  | cons flag flags ih =>
    rw [List.foldlM_cons] at h
    obtain ⟨next, hnext, h⟩ := exists_of_bind_eq_ok h
    exact ih (hr.withFlag hnext) h

theorem Spelled.withGivenFlag {option : GivenFlag} (hr : r.Spelled)
    (h : r.withGivenFlag option = .ok r') : r'.Spelled := by
  obtain ⟨flag, value?⟩ := option
  cases value? with
  | none => exact hr.withFlag h
  | some value => exact hr.withValue h

end Request

namespace Progress

open Request

variable {p q : Progress}

theorem spelled_addOperands (hp : p.request.Spelled) (operands : List String) :
    (p.addOperands operands).request.Spelled := by
  rw [addOperands]
  split
  · exact hp
  · exact { hp with }

theorem spelled_of_addOption {before : List Flag} {flag : Flag} {value? : Option String}
    (hp : p.request.Spelled) (h : p.addOption before flag value? = .ok q) : q.request.Spelled := by
  rw [addOption_eq] at h
  obtain ⟨r, hr, h⟩ := exists_of_bind_eq_ok h
  obtain ⟨request, hrequest, h⟩ := exists_of_bind_eq_ok h
  cases h
  exact (hp.withFlags hr).withGivenFlag hrequest

/-- Going through arguments takes two hyphens for no value. -/
theorem spelled_of_addWords {words : List Word} (hp : p.request.Spelled)
    (h : p.addWords words = .ok q) : q.request.Spelled := by
  fun_induction p.addWords words with
  | case1 p =>
    cases h
    exact hp
  | case2 p text rest ih => exact ih (spelled_addOperands hp [text]) h
  | case3 p rest ih => exact ih (spelled_addOperands hp []) h
  | case4 => cases h
  | case5 p rest ih => exact ih hp h
  | case8 => cases h
  | case6 p _ _ _ _ ih | case7 p _ _ _ _ _ ih | case9 p _ _ _ _ ih =>
    obtain ⟨next, hnext, h⟩ := exists_of_bind_eq_ok h
    exact ih next (spelled_of_addOption hp hnext) h

end Progress

namespace Request

variable {r : Request}

theorem spelled_empty : empty.Spelled := ⟨nofun, nofun, nofun⟩

/-- Two hyphens are no value in what arguments ask for. -/
theorem spelled_of_ofArguments {arguments : List String} (h : ofArguments arguments = .ok r) :
    r.Spelled := by
  rw [ofArguments] at h
  obtain ⟨words, -, h⟩ := exists_of_bind_eq_ok h
  obtain ⟨progress, hprogress, h⟩ := exists_of_bind_eq_ok h
  split at h
  · cases h
  · cases h
    exact Progress.spelled_of_addWords spelled_empty hprogress

/-! ### Arguments for a request -/

/-- The text that gives a mode. -/
def modeText : Given Mode → String
  | .nothing => "--"
  | .value mode => mode.name

/-- An option with the value that it may have. -/
def optional (flag : Flag) (value? : Option String) : List GivenFlag :=
  (value?.map fun value => (flag, some value)).toList

/-- An option without value that may be wanted. -/
def wanted (flag : Flag) (isWanted : Bool) : List GivenFlag :=
  if isWanted then [(flag, none)] else []

/-- The options of a request, with their values. -/
def options (r : Request) : List GivenFlag :=
  optional .file r.file? ++ optional .over (r.over?.map Given.text) ++
    optional .mode (r.mode?.map modeText) ++ optional .config r.config? ++
    wanted .json r.json ++ wanted .debug r.debug

/-- Arguments that ask for a request: its options, and behind the separator its expressions. -/
def arguments (r : Request) : List String :=
  r.options.map (fun option => option.1.argument option.2) ++ "--" :: r.expressions

theorem takesValue_of_mem_optional {flag : Flag} {value? : Option String}
    (h : flag.takesValue = true) :
    ∀ option ∈ optional flag value?, option.1.takesValue = option.2.isSome := by
  intro option hoption
  obtain ⟨value, -, rfl⟩ := Option.map_eq_some_iff.mp (Option.mem_toList.mp hoption)
  exact h

theorem takesValue_of_mem_wanted {flag : Flag} {isWanted : Bool} (h : flag.takesValue = false) :
    ∀ option ∈ wanted flag isWanted, option.1.takesValue = option.2.isSome := by
  intro option hoption
  cases isWanted with
  | false => cases hoption
  | true =>
    obtain rfl := List.mem_singleton.mp hoption
    exact h

theorem takesValue_of_mem_options (r : Request) :
    ∀ option ∈ r.options, option.1.takesValue = option.2.isSome := by
  simp only [options, List.forall_mem_append]
  exact ⟨⟨⟨⟨⟨takesValue_of_mem_optional rfl, takesValue_of_mem_optional rfl⟩,
    takesValue_of_mem_optional rfl⟩, takesValue_of_mem_optional rfl⟩,
    takesValue_of_mem_wanted rfl⟩, takesValue_of_mem_wanted rfl⟩

theorem foldlM_optional_some (r : Request) (flag : Flag) (value : String) :
    (optional flag (some value)).foldlM Request.withGivenFlag r =
      r.withValue (.ofText value) flag := by
  rw [optional, Option.map_some, Option.toList_some, List.foldlM_cons]
  exact bind_pure _

/-- The options of a request make it, but for its expressions. -/
theorem foldlM_options (hr : r.Spelled) :
    r.options.foldlM Request.withGivenFlag empty = .ok { r with expressions := [] } := by
  obtain ⟨expressions, file?, over?, mode?, json, config?, debug⟩ := r
  have hfile : (optional .file file?).foldlM Request.withGivenFlag empty =
      .ok ⟨[], file?, none, none, false, none, false⟩ := by
    cases file? with
    | none => rfl
    | some path =>
      have hpath : (Given.ofText path).value? = some path :=
        Given.value?_ofText fun h => hr.file_ne (congrArg some h)
      rw [foldlM_optional_some, Request.withValue, hpath, empty]
  have hover : (optional .over (over?.map Given.text)).foldlM Request.withGivenFlag
      ⟨[], file?, none, none, false, none, false⟩ =
        .ok ⟨[], file?, over?, none, false, none, false⟩ := by
    cases over? with
    | none => rfl
    | some given =>
      have hgiven : Given.ofText given.text = given :=
        Given.ofText_text fun h => hr.over_ne (congrArg some h)
      rw [Option.map_some, foldlM_optional_some, Request.withValue, hgiven]
  have hmode : (optional .mode (mode?.map modeText)).foldlM Request.withGivenFlag
      ⟨[], file?, over?, none, false, none, false⟩ =
        .ok ⟨[], file?, over?, mode?, false, none, false⟩ := by
    cases mode? with
    | none => rfl
    | some given =>
      cases given with
      | nothing => rfl
      | value mode => cases mode <;> rfl
  have hconfig : (optional .config config?).foldlM Request.withGivenFlag
      ⟨[], file?, over?, mode?, false, none, false⟩ =
        .ok ⟨[], file?, over?, mode?, false, config?, false⟩ := by
    cases config? with
    | none => rfl
    | some path =>
      have hpath : (Given.ofText path).value? = some path :=
        Given.value?_ofText fun h => hr.config_ne (congrArg some h)
      rw [foldlM_optional_some, Request.withValue, hpath]
  have hjson : (wanted .json json).foldlM Request.withGivenFlag
      ⟨[], file?, over?, mode?, false, config?, false⟩ =
        .ok ⟨[], file?, over?, mode?, json, config?, false⟩ := by
    cases json <;> rfl
  have hdebug : (wanted .debug debug).foldlM Request.withGivenFlag
      ⟨[], file?, over?, mode?, json, config?, false⟩ =
        .ok ⟨[], file?, over?, mode?, json, config?, debug⟩ := by
    cases debug <;> rfl
  simp only [options, List.foldlM_append, hfile, hover, hmode, hconfig, hjson, hdebug, bind,
    Except.bind]

/-- **The arguments of a request ask for it.** -/
theorem ofArguments_arguments (hr : r.Spelled) : ofArguments r.arguments = .ok r := by
  have hprogress : Progress.start.addWords
      (r.options.map (fun option => .option [] option.1 option.2) ++
        .separator :: r.expressions.map .plain) = .ok ⟨r, .within, false⟩ := by
    rw [Progress.start, Progress.addWords_options _ _ r.takesValue_of_mem_options,
      foldlM_options hr]
    exact Progress.addWords_operands { r with expressions := [] } r.expressions
  rw [ofArguments, arguments, Word.recognizeAll_arguments _ r.takesValue_of_mem_options]
  change (Progress.start.addWords _ >>= _) = _
  rw [hprogress]
  rfl

end Request

end Cli

end SchoolAlgebra
