import LambdaAny.Proofs.PlacelessReading
import LambdaAny.Session.Line

/-!
# Lines of a session as programs

A session evaluates a line without the blanks around it.  What is left is a part of the line that
would be taken as it is, and it ends as the whole line would end in a file: with the same value and
type, with a failure of the same stage in the same words, or not at all.

A session trims by the Unicode property, and the lexer separates by a set of its own, so this needs
that only spaces, line feeds and carriage returns were trimmed.  A tab before an expression is
trimmed in a session and is an error in a file.
-/

namespace LambdaAny

/-! ## Trimming -/

namespace Text

variable {cs : List Char}

/-- What trimming takes off in front. -/
def leading (cs : List Char) : List Char := cs.takeWhile isBlank

/-- What trimming takes off behind. -/
def trailing (cs : List Char) : List Char :=
  ((cs.dropWhile isBlank).reverse.takeWhile isBlank).reverse

theorem trim_append_trailing (cs : List Char) :
    trim cs ++ trailing cs = cs.dropWhile isBlank := by
  rw [trim, trailing, ← List.reverse_append, List.takeWhile_append_dropWhile, List.reverse_reverse]

theorem leading_trim_trailing (cs : List Char) : leading cs ++ (trim cs ++ trailing cs) = cs := by
  rw [trim_append_trailing, leading, List.takeWhile_append_dropWhile]

theorem isBlank_of_mem_leading {c : Char} (hc : c ∈ leading cs) : isBlank c = true :=
  List.all_eq_true.mp List.all_takeWhile c hc

theorem isBlank_of_mem_trailing {c : Char} (hc : c ∈ trailing cs) : isBlank c = true :=
  List.all_eq_true.mp List.all_takeWhile c (List.mem_reverse.mp hc)

/-- There is no blank at either end. -/
structure IsTrimmed (cs : List Char) : Prop where
  front : ∀ c ∈ cs.head?, isBlank c = false
  rear : ∀ c ∈ cs.getLast?, isBlank c = false

theorem dropWhile_isBlank_eq (h : ∀ c ∈ cs.head?, isBlank c = false) :
    cs.dropWhile isBlank = cs := by
  cases cs with
  | nil => rfl
  | cons c cs => exact List.dropWhile_cons_of_neg (by rw [h c rfl]; exact Bool.false_ne_true)

theorem isBlank_head?_dropWhile (cs : List Char) :
    ∀ c ∈ (cs.dropWhile isBlank).head?, isBlank c = false := by
  intro c hc
  have hstop := List.head?_dropWhile_not isBlank cs
  rw [Option.mem_def.mp hc] at hstop
  exact hstop

theorem IsTrimmed.trim_eq (h : IsTrimmed cs) : trim cs = cs := by
  have hrear : ∀ c ∈ cs.reverse.head?, isBlank c = false := by
    rw [List.head?_reverse]
    exact h.rear
  rw [trim, dropWhile_isBlank_eq h.front, dropWhile_isBlank_eq hrear, List.reverse_reverse]

theorem isTrimmed_trim (cs : List Char) : IsTrimmed (trim cs) := by
  constructor
  · intro c hc
    -- what is trimmed behind leaves the first character in its place
    have hhead : (trim cs ++ trailing cs).head? = some c := by
      rw [List.head?_append, Option.mem_def.mp hc, Option.some_or]
    rw [trim_append_trailing] at hhead
    exact isBlank_head?_dropWhile cs c hhead
  · intro c hc
    rw [trim, List.getLast?_reverse] at hc
    exact isBlank_head?_dropWhile _ c hc

theorem trim_trim (cs : List Char) : trim (trim cs) = trim cs := (isTrimmed_trim cs).trim_eq

/-- Only blanks are trimmed to nothing. -/
theorem isBlank_of_trim_eq_nil (h : trim cs = []) {c : Char} (hc : c ∈ cs) : isBlank c = true := by
  rw [← leading_trim_trailing cs, h, List.nil_append] at hc
  rcases List.mem_append.mp hc with hleading | htrailing
  · exact isBlank_of_mem_leading hleading
  · exact isBlank_of_mem_trailing htrailing

/-- A trimmed text does not end in blanks, whatever stands before them. -/
theorem IsTrimmed.trim_ne_nil {front rest : List Char} (h : IsTrimmed (front ++ ' ' :: rest)) :
    trim rest ≠ [] := by
  intro hnil
  have hne : ' ' :: rest ≠ [] := List.cons_ne_nil _ _
  have hlast : (front ++ ' ' :: rest).getLast? = some ((' ' :: rest).getLast hne) := by
    rw [List.getLast?_append, List.getLast?_eq_some_getLast hne, Option.some_or]
  have hblank : isBlank ((' ' :: rest).getLast hne) = true := by
    rcases List.mem_cons.mp (List.getLast_mem hne) with hspace | hrest
    · rw [hspace]
      decide
    · exact isBlank_of_trim_eq_nil hnil hrest
  rw [h.rear _ hlast] at hblank
  cases hblank

end Text

/-! ## What a line asks for -/

namespace Session.Line

variable {line source : String} {cs : List Char}

theorem exists_of_behind? {front : String} {rest : List Char} (h : behind? front cs = some rest) :
    cs = front.toList ++ rest := by
  unfold behind? at h
  split at h
  next hstarts =>
    obtain ⟨more, rfl⟩ := List.isPrefixOf_iff_prefix.mp hstarts
    rw [← Option.some.inj h, List.drop_left]
  next => cases h

/-- A command is never an expression to evaluate, and asks for a type only by one of its two names
and a space. -/
theorem command_cases (line : String) (cs : List Char) :
    (∀ source, command line cs ≠ .eval source) ∧
      ∀ source, command line cs = .typeOf source →
        ∃ name rest, (name = "t" ∨ name = "type") ∧ cs = name.toList ++ ' ' :: rest ∧
          source = String.ofList (Text.trim rest) := by
  unfold command
  split
  · exact ⟨nofun, nofun⟩
  split
  · exact ⟨nofun, nofun⟩
  split
  next rest hrest =>
    refine ⟨nofun, ?_⟩
    intro source hsource
    have hsource : source = String.ofList (Text.trim rest) := (Line.typeOf.inj hsource).symm
    rcases Option.or_eq_some_iff.mp hrest with hshort | ⟨-, hlong⟩
    · exact ⟨"t", rest, .inl rfl, (exists_of_behind? hshort).trans rfl, hsource⟩
    · exact ⟨"type", rest, .inr rfl, (exists_of_behind? hlong).trans rfl, hsource⟩
  next => exact ⟨nofun, nofun⟩

/-- A blank line asks for nothing; any other is a command or an expression, as it has a colon in
front or not. -/
theorem ofText?_cases (line : String) :
    (Text.trim line.toList = [] ∧ ofText? line = none) ∨
      (∃ cs, Text.trim line.toList = ':' :: cs ∧
        ofText? line = some (command (String.ofList (':' :: cs)) cs)) ∨
      ∃ c cs, Text.trim line.toList = c :: cs ∧ c ≠ ':' ∧
        ofText? line = some (.eval (String.ofList (c :: cs))) := by
  unfold ofText?
  generalize Text.trim line.toList = chars
  split
  next => exact .inl ⟨rfl, rfl⟩
  next cs => exact .inr (.inl ⟨cs, rfl, rfl⟩)
  next hne hcolon =>
    cases chars with
    | nil => exact absurd rfl hne
    | cons c cs => exact .inr (.inr ⟨c, cs, rfl, fun hc => hcolon cs (by rw [hc]), rfl⟩)

theorem ofText?_eq_eval_iff :
    ofText? line = some (.eval source) ↔
      Text.trim line.toList = source.toList ∧ source ≠ "" ∧ source.toList.head? ≠ some ':' := by
  rcases ofText?_cases line with ⟨htrim, hline⟩ | ⟨cs, htrim, hline⟩ | ⟨c, cs, htrim, hc, hline⟩
  · rw [htrim, hline]
    constructor
    · intro h
      cases h
    · rintro ⟨hnil, hne, -⟩
      exact absurd (String.toList_eq_nil_iff.mp hnil.symm) hne
  · rw [htrim, hline]
    constructor
    · intro h
      exact absurd (Option.some.inj h) ((command_cases _ cs).1 source)
    · rintro ⟨hchars, -, hcolon⟩
      rw [← hchars] at hcolon
      exact absurd rfl hcolon
  · rw [htrim, hline]
    constructor
    · intro h
      have hsource : String.ofList (c :: cs) = source := Line.eval.inj (Option.some.inj h)
      have hchars : c :: cs = source.toList := by rw [← hsource, String.toList_ofList]
      refine ⟨hchars, ?_, ?_⟩
      · rintro rfl
        cases hchars
      · rw [← hchars]
        exact fun hhead => hc (Option.some.inj hhead)
    · rintro ⟨hchars, -, -⟩
      rw [hchars, String.ofList_toList]

/-- An expression that was found in a line is found in itself. -/
theorem ofText?_eval (h : ofText? line = some (.eval source)) :
    ofText? source = some (.eval source) := by
  obtain ⟨htrim, hne, hcolon⟩ := ofText?_eq_eval_iff.mp h
  refine ofText?_eq_eval_iff.mpr ⟨?_, hne, hcolon⟩
  rw [← htrim, Text.trim_trim]

theorem exists_of_ofText?_typeOf (h : ofText? line = some (.typeOf source)) :
    ∃ name rest, (name = "t" ∨ name = "type") ∧
      Text.trim line.toList = ':' :: (name.toList ++ ' ' :: rest) ∧
      source = String.ofList (Text.trim rest) := by
  rcases ofText?_cases line with ⟨-, hline⟩ | ⟨cs, htrim, hline⟩ | ⟨c, cs, -, -, hline⟩
  · rw [hline] at h
    cases h
  · rw [hline] at h
    obtain ⟨name, rest, hname, rfl, hsource⟩ := (command_cases _ cs).2 source (Option.some.inj h)
    exact ⟨name, rest, hname, htrim, hsource⟩
  · rw [hline] at h
    cases h

end Session.Line

/-! ## Programs that end alike -/

/-- The steps from a text to its value. -/
inductive Stage where
  | lexing
  | parsing
  | resolving
  | typing
  | evaluating
deriving DecidableEq, Repr

namespace Failure

/-- The step that failed, if the program itself is at fault. -/
def stage? : Failure → Option Stage
  | lex _ => some .lexing
  | parse _ => some .parsing
  | resolve _ => some .resolving
  | type _ => some .typing
  | eval _ => some .evaluating
  | read _ | timeout _ | died => none

/-- Failures of one stage in the same words; their places may differ. -/
structure Alike (failure failure' : Failure) : Prop where
  stage : ∃ stage, failure.stage? = some stage ∧ failure'.stage? = some stage
  message : failure.message = failure'.message

theorem Alike.refl {failure : Failure} {stage : Stage} (h : failure.stage? = some stage) :
    failure.Alike failure :=
  ⟨⟨stage, h, h⟩, rfl⟩

/-- The words of a failure to read a text tell which step failed. -/
theorem lex_message_ne_parse_message (cause : LexError) (cause' : ParseError) :
    (lex cause).message ≠ (parse cause').message := by
  intro h
  have hhead : ("Lexer error:\n\t" ++ cause.message).toList.head? =
      ("Parse error:\n\t" ++ cause'.message).toList.head? :=
    congrArg (fun text : String => text.toList.head?) h
  have hlex : "Lexer error:\n\t".toList.head? = some 'L' := by decide
  have hparse : "Parse error:\n\t".toList.head? = some 'P' := by decide
  rw [String.toList_append, String.toList_append, List.head?_append, List.head?_append, hlex, hparse,
    Option.some_or, Option.some_or] at hhead
  exact absurd hhead (by decide)

end Failure

namespace Program

variable {source source' : String} {failure failure' : Failure}

theorem alike_of_message_eq (h : parse source = .error failure)
    (h' : parse source' = .error failure') (hmessage : failure.message = failure'.message) :
    failure.Alike failure' := by
  refine ⟨?_, hmessage⟩
  rcases parse_eq_error h with ⟨cause, rfl⟩ | ⟨cause, rfl⟩
  · rcases parse_eq_error h' with ⟨cause', rfl⟩ | ⟨cause', rfl⟩
    · exact ⟨.lexing, rfl, rfl⟩
    · exact absurd hmessage (Failure.lex_message_ne_parse_message cause cause')
  · rcases parse_eq_error h' with ⟨cause', rfl⟩ | ⟨cause', rfl⟩
    · exact absurd hmessage.symm (Failure.lex_message_ne_parse_message cause' cause)
    · exact ⟨.parsing, rfl, rfl⟩

theorem exists_stage_of_check_error (h : check source = .error failure) :
    ∃ stage, failure.stage? = some stage := by
  rcases exists_of_check_error h with hparse | ⟨e, -, ⟨cause, rfl, -⟩ | ⟨cause, rfl, -⟩⟩
  · rcases parse_eq_error hparse with ⟨cause, rfl⟩ | ⟨cause, rfl⟩
    · exact ⟨.lexing, rfl⟩
    · exact ⟨.parsing, rfl⟩
  · exact ⟨.resolving, rfl⟩
  · exact ⟨.typing, rfl⟩

/-- From some depth on both programs have one outcome, or both fail alike; or neither ever ends. -/
inductive EndAlike (source source' : String) : Prop where
  | ok (outcome : Outcome) (depth : Nat)
      (h : ∀ depth', depth ≤ depth' →
        run depth' source = .ok outcome ∧ run depth' source' = .ok outcome)
  | error {failure failure' : Failure} (halike : failure.Alike failure') (depth : Nat)
      (h : ∀ depth', depth ≤ depth' →
        run depth' source = .error failure ∧ run depth' source' = .error failure')
  | never (h : ∀ depth, run depth source = .error .died ∧ run depth source' = .error .died)

theorem run_of_check_error (h : check source = .error failure) (depth : Nat) :
    run depth source = .error failure := by
  rw [run, h]

theorem run_of_check_ok {e : Expr} {ty : Ty} (h : check source = .ok (e, ty)) (depth : Nat) :
    run depth source = outcome ty (e.eval depth ∅) := by
  rw [run, h]

theorem check_of_parse_error (h : parse source = .error failure) :
    check source = .error failure := by
  rw [check, h]

theorem check_of_parse_eq (h : parse source = parse source') : check source = check source' := by
  rw [check, check, h]

/-- Evaluation finds its answer at some depth and keeps it, or is cut off at every depth. -/
theorem EndAlike.of_check_eq (h : check source = check source') : EndAlike source source' := by
  cases hcheck : check source with
  | error failure =>
      obtain ⟨stage, hstage⟩ := exists_stage_of_check_error hcheck
      exact .error (.refl hstage) 0 fun depth' _ =>
        ⟨run_of_check_error hcheck depth', run_of_check_error (h ▸ hcheck) depth'⟩
  | ok checked =>
      obtain ⟨e, ty⟩ := checked
      have hrun : ∀ depth, run depth source = outcome ty (e.eval depth ∅) ∧
          run depth source' = outcome ty (e.eval depth ∅) :=
        fun depth => ⟨run_of_check_ok hcheck depth, run_of_check_ok (h ▸ hcheck) depth⟩
      by_cases hends : ∃ depth, e.eval depth ∅ ≠ .error .exhausted
      · obtain ⟨depth, hanswer⟩ := hends
        have hkept : ∀ depth', depth ≤ depth' →
            run depth' source = outcome ty (e.eval depth ∅) ∧
              run depth' source' = outcome ty (e.eval depth ∅) := by
          intro depth' hle
          have hrun' := hrun depth'
          rwa [Expr.eval_eq_of_le hle hanswer] at hrun'
        cases heval : e.eval depth ∅ with
        | ok value => exact .ok ⟨value, ty⟩ depth (by rwa [heval] at hkept)
        | error halt =>
            cases halt with
            | error cause => exact .error (.refl rfl) depth (by rwa [heval] at hkept)
            | exhausted => exact absurd heval hanswer
      · refine .never ?_
        intro depth
        have hrun' := hrun depth
        rwa [Classical.not_not.mp (not_exists.mp hends depth)] at hrun'

/-- Programs that are read alike end alike. -/
theorem EndAlike.of_parse
    (h : (parse source).mapError Failure.message = (parse source').mapError Failure.message) :
    EndAlike source source' := by
  cases hparse : parse source with
  | error failure =>
      cases hparse' : parse source' with
      | error failure' =>
          rw [hparse, hparse'] at h
          have halike := alike_of_message_eq hparse hparse' (Except.error.inj h)
          exact .error halike 0 fun depth' _ =>
            ⟨run_of_check_error (check_of_parse_error hparse) depth',
              run_of_check_error (check_of_parse_error hparse') depth'⟩
      | ok e' =>
          rw [hparse, hparse'] at h
          cases h
  | ok e =>
      cases hparse' : parse source' with
      | error failure' =>
          rw [hparse, hparse'] at h
          cases h
      | ok e' =>
          rw [hparse, hparse'] at h
          have hsame : parse source = parse source' := by
            rw [hparse, hparse', Except.ok.inj h]
          exact .of_check_eq (check_of_parse_eq hsame)

end Program

/-! ## Blanks around a program -/

namespace Lexer

theorem isBlankText_ofList {cs : List Char} (h : ∀ c ∈ cs, c = ' ' ∨ c = '\n' ∨ c = '\r') :
    IsBlankText (String.ofList cs) := by
  intro c hc
  rw [String.toList_ofList] at hc
  rcases h c hc with hspace | hfeed | hreturn
  · exact .inl hspace
  · exact .inr (.inl hfeed)
  · exact .inr (.inr (.inl hreturn))

theorem itemsFrom_append_blanks {blanks : List Char} (h : ∀ c ∈ blanks, isBlank c = true)
    (offset : Nat) (cs : List Char) : itemsFrom offset (cs ++ blanks) = itemsFrom offset cs := by
  cases blanks with
  | nil => rw [List.append_nil]
  | cons c more =>
      have hstarts : StartsBlank (c :: more) := ⟨c, rfl, h c List.mem_cons_self⟩
      have hnone := itemsFrom_blanks h (offset + byteLength cs) []
      rw [List.append_nil, itemsFrom_nil] at hnone
      rw [itemsFrom_append hstarts, hnone, List.append_nil]

/-- Blanks around a text move its items and add none. -/
theorem items_surrounded {front rear : String} (hfront : IsBlankText front)
    (hrear : IsBlankText rear) (source : String) :
    items (front ++ source ++ rear) =
      (items source).map (shiftItem (byteLength front.toList)) := by
  rw [items_eq_itemsFrom, items_eq_itemsFrom, String.toList_append, String.toList_append,
    itemsFrom_append_blanks hrear.isBlank,
    itemsFrom_blanks hfront.isBlank, itemsFrom_add]

end Lexer

/-- Blanks around a program do not change how it ends. -/
theorem Program.EndAlike.surrounded {front rear : String} (hfront : Lexer.IsBlankText front)
    (hrear : Lexer.IsBlankText rear) (source : String) :
    EndAlike source (front ++ source ++ rear) := by
  refine .of_parse (Program.parse_of_bare_items ?_)
  have hshift : ∀ n, Lexer.bare ∘ Lexer.shiftItem n = Lexer.bare :=
    fun n => funext (Lexer.bare_shiftItem n)
  rw [Lexer.items_surrounded hfront hrear, List.map_map, hshift]

namespace Session.Line

variable {line source : String}

theorem eq_surrounded_of_trim (h : Text.trim line.toList = source.toList) :
    line = String.ofList (Text.leading line.toList) ++ source ++
      String.ofList (Text.trailing line.toList) := by
  apply String.toList_inj.mp
  rw [String.toList_append, String.toList_append, String.toList_ofList, String.toList_ofList, ← h,
    List.append_assoc, Text.leading_trim_trailing]

/-- What is left of a trimmed command behind its name ends where the command ends. -/
theorem typeOf_place (h : ofText? line = some (.typeOf source)) :
    source ≠ "" ∧ Text.IsTrimmed source.toList ∧
      ∃ name front gap rear, (name = ":t " ∨ name = ":type ") ∧
        line = front ++ name ++ gap ++ source ++ rear ∧
        ∀ c ∈ (front ++ gap ++ rear).toList, Text.isBlank c = true := by
  obtain ⟨name, rest, hname, htrim, rfl⟩ := exists_of_ofText?_typeOf h
  have htrimmed : Text.IsTrimmed (':' :: name.toList ++ ' ' :: rest) := by
    have hline := Text.isTrimmed_trim line.toList
    rwa [htrim] at hline
  refine ⟨?_, ?_, ":" ++ name ++ " ", String.ofList (Text.leading line.toList),
    String.ofList (Text.leading rest),
    String.ofList (Text.trailing rest ++ Text.trailing line.toList), ?_, ?_, ?_⟩
  · intro hempty
    have hnil := congrArg String.toList hempty
    rw [String.toList_ofList] at hnil
    exact htrimmed.trim_ne_nil hnil
  · rw [String.toList_ofList]
    exact Text.isTrimmed_trim rest
  · rcases hname with rfl | rfl
    · exact .inl (by decide)
    · exact .inr (by decide)
  · have hrest := Text.leading_trim_trailing rest
    have hline := Text.leading_trim_trailing line.toList
    rw [htrim, ← hrest] at hline
    apply String.toList_inj.mp
    refine hline.symm.trans ?_
    simp
  · intro c hc
    simp only [String.toList_append, String.toList_ofList, List.mem_append] at hc
    rcases hc with (hc | hc) | hc | hc
    · exact Text.isBlank_of_mem_leading hc
    · exact Text.isBlank_of_mem_leading hc
    · exact Text.isBlank_of_mem_trailing hc
    · exact Text.isBlank_of_mem_trailing hc

/-- A line that is evaluated ends as it would in a file. -/
theorem line_runs_as_written (line : String) :
    (∀ source, ofText? line = some (.eval source) →
      source ≠ "" ∧
        line = String.ofList (Text.leading line.toList) ++ source ++
          String.ofList (Text.trailing line.toList) ∧
        ofText? source = some (.eval source) ∧
        ((∀ c ∈ Text.leading line.toList ++ Text.trailing line.toList,
            c = ' ' ∨ c = '\n' ∨ c = '\r') → Program.EndAlike source line)) ∧
      ∀ source, ofText? line = some (.typeOf source) →
        source ≠ "" ∧ Text.IsTrimmed source.toList ∧
          ∃ name front gap rear, (name = ":t " ∨ name = ":type ") ∧
            line = front ++ name ++ gap ++ source ++ rear ∧
            ∀ c ∈ (front ++ gap ++ rear).toList, Text.isBlank c = true := by
  refine ⟨?_, fun source => typeOf_place⟩
  intro source h
  obtain ⟨htrim, hne, -⟩ := ofText?_eq_eval_iff.mp h
  have hline := eq_surrounded_of_trim htrim
  refine ⟨hne, hline, ofText?_eval h, ?_⟩
  intro htaken
  obtain ⟨hleading, htrailing⟩ := List.forall_mem_append.mp htaken
  have halike := Program.EndAlike.surrounded (Lexer.isBlankText_ofList hleading)
    (Lexer.isBlankText_ofList htrailing) source
  rwa [← hline] at halike

/-- A line with a value, a line that fails where it ends, and a line that asks for a type. -/
theorem line_runs_as_written_threeLines :
    ofText? "\r 6 * 7 \n" = some (.eval "6 * 7") ∧ Program.EndAlike "6 * 7" "\r 6 * 7 \n" ∧
      ofText? "  (1 +\n " = some (.eval "(1 +") ∧ Program.EndAlike "(1 +" "  (1 +\n " ∧
      ofText? " :type  fun (x: int) -> x\n" = some (.typeOf "fun (x: int) -> x") ∧
      Text.IsTrimmed "fun (x: int) -> x".toList := by
  have hvalue : ofText? "\r 6 * 7 \n" = some (.eval "6 * 7") := by decide +kernel
  have hfails : ofText? "  (1 +\n " = some (.eval "(1 +") := by decide +kernel
  have htype : ofText? " :type  fun (x: int) -> x\n" = some (.typeOf "fun (x: int) -> x") := by
    decide +kernel
  have hvalueEnds : Text.leading "\r 6 * 7 \n".toList ++ Text.trailing "\r 6 * 7 \n".toList =
      ['\r', ' ', ' ', '\n'] := by decide +kernel
  have hfailsEnds : Text.leading "  (1 +\n ".toList ++ Text.trailing "  (1 +\n ".toList =
      [' ', ' ', '\n', ' '] := by decide +kernel
  obtain ⟨-, -, -, hvalue'⟩ := (line_runs_as_written "\r 6 * 7 \n").1 _ hvalue
  obtain ⟨-, -, -, hfails'⟩ := (line_runs_as_written "  (1 +\n ").1 _ hfails
  obtain ⟨-, htype', -⟩ := (line_runs_as_written " :type  fun (x: int) -> x\n").2 _ htype
  rw [hvalueEnds] at hvalue'
  rw [hfailsEnds] at hfails'
  exact ⟨hvalue, hvalue' (by simp), hfails, hfails' (by simp), htype, htype'⟩

-- a tab is trimmed, and starts no token
example : ofText? "\t1" = some (.eval "1") ∧
    reason? (Program.check "\t1") = some (.lex (.illegalChar "\t" ⟨0, 1⟩)) := by
  decide +kernel

end Session.Line

end LambdaAny
