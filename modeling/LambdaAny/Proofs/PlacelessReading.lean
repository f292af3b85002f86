import LambdaAny.Proofs.Seams
import LambdaAny.Proofs.ViablePrefix
import LambdaAny.Program

/-!
# Reading without places

The places of lexemes are carried into the errors and looked at nowhere else.  Two lists of the same
tokens are read alike, wherever the tokens stand: both give the same tree, or both are complained of
in the same words.

With what holds at seams, the blanks between two parts of a program can be replaced by others.  This
is not said of the places that errors name, which do move, nor of blanks that are taken away.
-/

namespace LambdaAny

/-! ## The words of complaints -/

theorem Found.text_of_token {lexeme first : Lexeme} (h : first.token = lexeme.token) :
    (token lexeme).text = (token first).text := by
  rw [Found.text, Found.text, h]

/-- The same complaint about something else. -/
def ParseError.about (found : Found) : ParseError → ParseError
  | expectedToken expected _ => expectedToken expected found
  | expectedIdent _ => expectedIdent found
  | expectedType _ => expectedType found
  | illegalSequence _ => illegalSequence found

/-- What was found enters the words by its text only. -/
theorem ParseError.message_about {found found' : Found} (h : found.text = found'.text)
    (err : ParseError) : (err.about found).message = (err.about found').message := by
  cases err <;> exact congrArg (_ ++ ·) h

namespace Parser

/-! ## Readers that do not look at places -/

/-- The same tokens, at any places. -/
def SameTokens (ts us : List Lexeme) : Prop := ts.map Lexeme.token = us.map Lexeme.token

variable {α β : Type}

/-- The same value with the same tokens left, or complaints in the same words. -/
inductive SameReading : Except ParseError (α × List Lexeme) →
    Except ParseError (α × List Lexeme) → Prop where
  | ok (value : α) {rest rest' : List Lexeme} (hrest : SameTokens rest rest') :
      SameReading (.ok (value, rest)) (.ok (value, rest'))
  | error {err err' : ParseError} (hmessage : err.message = err'.message) :
      SameReading (.error err) (.error err')

/-- On these tokens the reader does the same wherever they stand. -/
def BlindAt (R : Reader α) (ts : List Lexeme) : Prop :=
  ∀ eof eof' us, SameTokens ts us → SameReading (R eof ts) (R eof' us)

/-- The reader looks at no place in lists of at most `n` lexemes. -/
def Blind (n : Nat) (R : Reader α) : Prop := ∀ ts, ts.length ≤ n → BlindAt R ts

section

variable {R S : Reader α} {next : α → Reader β} {n : Nat} {lexeme : Lexeme} {ts us : List Lexeme}

theorem SameTokens.head?_eq (h : SameTokens ts us) :
    us.head?.map Lexeme.token = ts.head?.map Lexeme.token := by
  rw [← List.head?_map, ← List.head?_map, h]

theorem SameTokens.exists_cons (h : SameTokens (lexeme :: ts) us) :
    ∃ lexeme' us', us = lexeme' :: us' ∧ lexeme'.token = lexeme.token ∧ SameTokens ts us' := by
  cases us with
  | nil => cases h
  | cons lexeme' us' =>
      obtain ⟨htoken, htokens⟩ := List.cons.inj h
      exact ⟨lexeme', us', rfl, htoken.symm, htokens⟩

theorem BlindAt.andThen (hfirst : BlindAt R ts)
    (hnext : ∀ eof value rest, R eof ts = .ok (value, rest) → BlindAt (next value) rest) :
    BlindAt (R.andThen next) ts := by
  intro eof eof' us hus
  have hread := hfirst eof eof' us hus
  unfold Reader.andThen
  generalize hmid : R eof ts = result at hread
  generalize R eof' us = result' at hread
  cases hread with
  | error hmessage => exact .error hmessage
  | ok value hrest => exact hnext eof value _ hmid eof eof' _ hrest

theorem blindAt_done (value : α) : BlindAt (.done value) ts := fun _ _ _ hus => .ok value hus

/-- Where something must stand, the complaint about the end does not depend on where that is. -/
theorem blindAt_nil (err : ParseError) (hR : ∀ eof, R eof [] = .error (err.about (.eof eof))) :
    BlindAt R [] := by
  intro eof eof' us hus
  obtain rfl : us = [] := List.map_eq_nil_iff.mp hus.symm
  have htext : (Found.eof eof).text = (Found.eof eof').text := rfl
  rw [hR, hR]
  exact .error (err.message_about htext)

/-- A lexeme that fits nothing is complained of by its token. -/
theorem blindAt_reject (err : ParseError)
    (hR : ∀ first, first.token = lexeme.token → ∀ eof ts,
      R eof (first :: ts) = .error (err.about (.token first))) : BlindAt R (lexeme :: ts) := by
  intro eof eof' us hus
  obtain ⟨first, us, rfl, htoken, -⟩ := hus.exists_cons
  rw [hR lexeme rfl, hR first htoken]
  exact .error (err.message_about (Found.text_of_token htoken))

/-- A lexeme that is taken for its token. -/
theorem BlindAt.cons
    (hR : ∀ first, first.token = lexeme.token → ∀ eof ts, R eof (first :: ts) = S eof ts)
    (h : BlindAt S ts) : BlindAt R (lexeme :: ts) := by
  intro eof eof' us hus
  obtain ⟨first, us, rfl, htoken, hrest⟩ := hus.exists_cons
  rw [hR lexeme rfl, hR first htoken]
  exact h eof eof' us hrest

/-- Readers that agree on all lists with the same first token, or at the end. -/
theorem BlindAt.congr
    (hR : ∀ eof us, us.head?.map Lexeme.token = ts.head?.map Lexeme.token → R eof us = S eof us)
    (h : BlindAt S ts) : BlindAt R ts := by
  intro eof eof' us hus
  rw [hR eof ts rfl, hR eof' us hus.head?_eq]
  exact h eof eof' us hus

theorem blind_done (value : α) : Blind n (.done value) := fun _ _ => blindAt_done value

/-- A reader that takes something leaves a shorter list, so the bound serves for what follows. -/
theorem Blind.followedBy
    {read : Nat → (ts : List Lexeme) → Except ParseError (Parsed α ts.length)}
    (hfirst : Blind n (plain read)) (hnext : ∀ value, Blind n (next value)) :
    Blind n ((plain read).andThen next) := by
  intro ts hle
  refine (hfirst ts hle).andThen ?_
  intro eof value rest hread
  have hshorter : rest.length < ts.length := (forget_eq_ok_iff.mp hread).shorter
  exact hnext value rest (by omega)

/-- The last reader of a sequence, with what the sequence makes of it. -/
theorem Blind.map {read : Nat → (ts : List Lexeme) → Except ParseError (Parsed α ts.length)}
    (h : Blind n (plain read)) (f : α → β) :
    Blind n ((plain read).andThen fun value => .done (f value)) :=
  h.followedBy fun value => blind_done (f value)

end

/-! ## Tokens and types -/

section

variable {n : Nat}

theorem blind_just (token : Token) : Blind n (.just token) := by
  intro ts _
  cases ts with
  | nil => exact blindAt_nil (.expectedToken token (.eof 0)) fun _ => rfl
  | cons lexeme ts =>
      by_cases htoken : lexeme.token = token
      · refine .cons (S := .done ()) ?_ (blindAt_done ())
        intro first hfirst eof ts
        simp [Reader.just, plain, expect, hfirst, htoken, forget, Reader.done]
      · refine blindAt_reject (.expectedToken token (.token lexeme)) ?_
        intro first hfirst eof ts
        simp [Reader.just, plain, expect, hfirst, htoken, forget, ParseError.about]

theorem blind_ident : Blind n (plain ident) := by
  intro ts _
  cases ts with
  | nil => exact blindAt_nil (.expectedIdent (.eof 0)) fun _ => rfl
  | cons lexeme ts =>
      by_cases hname : ∃ name, lexeme.token = .ident name
      · obtain ⟨name, hname⟩ := hname
        refine .cons (S := .done name) ?_ (blindAt_done name)
        intro first hfirst eof ts
        simp [plain, ident, hfirst, hname, forget, Reader.done]
      · refine blindAt_reject (.expectedIdent (.token lexeme)) ?_
        intro first hfirst eof ts
        rw [plain, ident]
        split
        next name htoken => exact absurd ⟨name, hfirst ▸ htoken⟩ hname
        next => rfl

theorem blind_tyAtom (hty : ∀ m, m < n → Blind m (plain ty)) : Blind n (plain tyAtom) := by
  intro ts hle
  cases ts with
  | nil =>
      refine blindAt_nil (.expectedType (.eof 0)) ?_
      intro eof
      rw [plain, tyAtom]
      rfl
  | cons lexeme ts =>
      rcases plain_tyAtom_cases lexeme.token with ⟨whole, -, hread⟩ | hopen | hreject
      · exact .cons (S := .done whole) hread (blindAt_done whole)
      · refine .cons (fun first hfirst => plain_tyAtom_parens (hfirst.trans hopen)) ?_
        have hinner : Blind ts.length (plain ty) := hty _ hle
        exact (hinner.followedBy fun inner => (blind_just _).map fun _ => inner) ts (Nat.le_refl _)
      · exact blindAt_reject (.expectedType (.token lexeme)) hreject

theorem blind_arrowTail (hty : ∀ m, m < n → Blind m (plain ty)) (dom : Ty) :
    Blind n (arrowTail dom) := by
  intro ts hle
  by_cases harrow : ts.head?.map Lexeme.token = some (.symbol .arrow)
  · cases ts with
    | nil => cases harrow
    | cons lexeme ts =>
        have hlexeme : lexeme.token = .symbol .arrow := Option.some.inj harrow
        refine .cons (fun first hfirst eof ts => if_pos (hfirst.trans hlexeme)) ?_
        exact (hty ts.length hle).map (Ty.arrow dom) ts (Nat.le_refl _)
  · refine .congr (S := .done dom) ?_ (blindAt_done dom)
    intro eof us hus
    cases us with
    | nil => rfl
    | cons lexeme us =>
        exact if_neg fun hlexeme => harrow (hus.symm.trans (congrArg some hlexeme))

theorem blind_ty (n : Nat) : Blind n (plain ty) := by
  induction n using Nat.strongRecOn with
  | ind n ih =>
      rw [plain_ty]
      exact (blind_tyAtom ih).followedBy (blind_arrowTail ih)

theorem blind_param : Blind n (plain param) := by
  rw [plain_param]
  exact (blind_just _).followedBy fun _ => blind_ident.followedBy fun name =>
    (blind_just _).followedBy fun _ => (blind_ty n).followedBy fun paramTy =>
      (blind_just _).map fun _ => (name, paramTy)

theorem blind_funHead : Blind n (plain funHead) := by
  rw [plain_funHead]
  exact blind_param.followedBy fun head => (blind_just _).map fun _ => head

theorem blind_letHead : Blind n (plain letHead) := by
  rw [plain_letHead]
  exact blind_ident.followedBy fun binder => (blind_just _).map fun _ => binder

theorem blind_recHead : Blind n (plain recHead) := by
  rw [plain_recHead]
  exact blind_ident.followedBy fun func => blind_param.followedBy fun param =>
    (blind_just _).followedBy fun _ => (blind_ty n).followedBy fun ret =>
      (blind_just _).map fun _ => RecHead.mk func param.1 param.2 ret

/-! ## Expressions -/

theorem blind_iteTail (hexpr : Blind n (plain expr)) : Blind n iteTail :=
  hexpr.followedBy fun cond => (blind_just _).followedBy fun _ => hexpr.followedBy fun thn =>
    (blind_just _).followedBy fun _ => hexpr.map fun els => Expr.ite cond thn els

theorem blind_absTail (hexpr : Blind n (plain expr)) : Blind n absTail :=
  blind_funHead.followedBy fun head => hexpr.map fun body => Expr.abs head.1 head.2 body

theorem blind_letTail (hexpr : Blind n (plain expr)) : Blind n letTail := by
  have hletIn : Blind n letInTail :=
    blind_letHead.followedBy fun binder => hexpr.followedBy fun bindee =>
      (blind_just _).followedBy fun _ => hexpr.map fun tail => Expr.letIn binder bindee tail
  have hletRec : Blind n letRecTail :=
    (blind_just _).followedBy fun _ => blind_recHead.followedBy fun head =>
      hexpr.followedBy fun body => (blind_just _).followedBy fun _ => hexpr.map fun tail =>
        Expr.letRec head.func head.param head.paramTy head.ret body tail
  intro ts hle
  by_cases hrec : ts.head?.map Lexeme.token = some (.keyword .recKw)
  · exact .congr (fun _ _ hus => if_pos (hus.trans hrec)) (hletRec ts hle)
  · exact .congr (fun _ _ hus => if_neg (hus ▸ hrec)) (hletIn ts hle)

theorem blind_atom (hexpr : ∀ m, m < n → Blind m (plain expr)) : Blind n (plain atom) := by
  intro ts hle
  cases ts with
  | nil =>
      refine blindAt_nil (.illegalSequence (.eof 0)) ?_
      intro eof
      rw [plain, atom]
      rfl
  | cons lexeme ts =>
      have hexpr : Blind ts.length (plain expr) := hexpr _ hle
      have htail : ∀ {S : Reader Expr}, Blind ts.length S → BlindAt S ts :=
        fun h => h ts (Nat.le_refl _)
      rcases plain_atom_cases lexeme.token with
        ⟨e, -, hread⟩ | hopen | hif | hlet | hfun | hreject
      · exact .cons (S := .done e) hread (blindAt_done e)
      · refine .cons (fun first hfirst => plain_atom_parens (hfirst.trans hopen)) (htail ?_)
        exact hexpr.followedBy fun inner => (blind_just _).map fun _ => inner
      · exact .cons (fun first hfirst => plain_atom_ite (hfirst.trans hif))
          (htail (blind_iteTail hexpr))
      · exact .cons (fun first hfirst => plain_atom_let (hfirst.trans hlet))
          (htail (blind_letTail hexpr))
      · exact .cons (fun first hfirst => plain_atom_abs (hfirst.trans hfun))
          (htail (blind_absTail hexpr))
      · exact blindAt_reject (.illegalSequence (.token lexeme)) hreject

section

variable {lhs : Expr} {power : Nat} {lexeme : Lexeme} {ts : List Lexeme}

/-- Behind an operator the right operand is read, and the loop goes on with what is joined. -/
theorem blindAt_extending_op (hatom : Blind ts.length (plain atom))
    (hextend : ∀ lhs power, Blind ts.length (extending lhs power)) {o : Op}
    (hjoint : Joint.ofToken? lexeme.token = some (.op o)) (hpower : power ≤ (Joint.op o).left) :
    BlindAt (extending lhs power) (lexeme :: ts) := by
  refine .cons (fun first hfirst => extending_op (hfirst ▸ hjoint) hpower) ?_
  refine (hatom ts (Nat.le_refl _)).andThen ?_
  intro eof first mid hfirst
  have hmid : mid.length < ts.length := (forget_eq_ok_iff.mp hfirst).shorter
  refine (hextend first _ mid (Nat.le_of_lt hmid)).andThen ?_
  intro eof' rhs rest hrhs
  -- an operand need not be extended, so here nothing may have been taken
  have hrest : rest.length < mid.length + 1 := (forget_eq_ok_iff.mp hrhs).shorter
  exact hextend _ power rest (by omega)

/-- An application takes no token of its own, but its argument does. -/
theorem blindAt_extending_apply (hatom : BlindAt (plain atom) (lexeme :: ts))
    (hextend : ∀ lhs power, Blind ts.length (extending lhs power))
    (hjoint : Joint.ofToken? lexeme.token = some .apply) (hpower : power ≤ Joint.apply.left) :
    BlindAt (extending lhs power) (lexeme :: ts) := by
  refine .congr (S := (plain atom).andThen fun arg => extending (.app lhs arg) power) ?_ ?_
  · intro eof us hus
    cases us with
    | nil => cases hus
    | cons first us =>
        have hfirst : first.token = lexeme.token := Option.some.inj hus
        exact extending_apply (hfirst ▸ hjoint) hpower eof us
  · refine hatom.andThen ?_
    intro eof arg rest harg
    have hrest : rest.length < ts.length + 1 := (forget_eq_ok_iff.mp harg).shorter
    exact hextend _ power rest (Nat.le_of_lt_succ hrest)

end

theorem blind_extending_of_shorter (hexpr : ∀ m, m < n → Blind m (plain expr))
    (hextend : ∀ m, m < n → ∀ lhs power, Blind m (extending lhs power)) (lhs : Expr)
    (power : Nat) : Blind n (extending lhs power) := by
  intro ts hle
  by_cases hstops : Stops power ts
  · refine .congr (S := .done lhs) ?_ (blindAt_done lhs)
    exact fun eof us hus => extending_stop (hstops.of_head? hus) eof
  · cases ts with
    | nil => exact absurd trivial hstops
    | cons lexeme ts =>
        obtain ⟨joint, hjoint, hleft⟩ := exists_joint_of_not_stops hstops
        cases joint with
        | op o =>
            have hatom : Blind ts.length (plain atom) :=
              blind_atom fun m hm => hexpr m (Nat.lt_trans hm hle)
            exact blindAt_extending_op hatom (hextend _ hle) hjoint hleft
        | apply =>
            exact blindAt_extending_apply (blind_atom hexpr _ hle) (hextend _ hle) hjoint hleft

/-- By induction on the number of lexemes, for expressions and extensions together. -/
theorem blind_expr (n : Nat) : Blind n (plain expr) := by
  have hall : Blind n (plain expr) ∧ ∀ lhs power, Blind n (extending lhs power) := by
    induction n using Nat.strongRecOn with
    | ind n ih =>
        have hexpr : ∀ m, m < n → Blind m (plain expr) := fun m hm => (ih m hm).1
        have hextend := blind_extending_of_shorter hexpr fun m hm => (ih m hm).2
        refine ⟨?_, hextend⟩
        rw [plain_expr]
        exact (blind_atom hexpr).followedBy fun first => hextend first 0
  exact hall.1

end

end Parser

/-! ## Programs -/

open LambdaAny.Parser

theorem Failure.parse_message_eq {tree tree' : Except ParseError Expr}
    (h : tree.mapError ParseError.message = tree'.mapError ParseError.message) :
    (tree.mapError Failure.parse).mapError message =
      (tree'.mapError Failure.parse).mapError message := by
  have hmessage : ∀ result : Except ParseError Expr,
      (result.mapError Failure.parse).mapError message =
        (result.mapError ParseError.message).mapError ("Parse error:\n\t" ++ ·) := by
    intro result
    cases result <;> rfl
  rw [hmessage, hmessage, h]

/-- The same tokens make the same tree, or are complained of in the same words. -/
theorem Expr.ofLexemes_of_sameTokens {ts us : List Lexeme} (h : SameTokens ts us) :
    (Expr.ofLexemes ts).mapError ParseError.message =
      (Expr.ofLexemes us).mapError ParseError.message := by
  have hread := blind_expr ts.length ts (Nat.le_refl _) (endOffset ts) (endOffset us) us h
  rw [Expr.ofLexemes_eq, Expr.ofLexemes_eq]
  generalize plain expr (endOffset ts) ts = result at hread
  generalize plain expr (endOffset us) us = result' at hread
  cases hread with
  | error hmessage => exact congrArg Except.error hmessage
  | @ok e rest rest' hrest =>
      cases rest with
      | nil =>
          obtain rfl : rest' = [] := List.map_eq_nil_iff.mp hrest.symm
          rfl
      | cons lexeme rest =>
          obtain ⟨first, rest', rfl, hfirst, -⟩ := hrest.exists_cons
          have htext := Found.text_of_token hfirst
          exact congrArg Except.error
            (ParseError.message_about htext (.illegalSequence (.token lexeme)))

namespace Lexer

/-- What an item says, without its place. -/
def bare : Item → Except String Token
  | .ok lexeme => .ok lexeme.token
  | .error cause => .error cause.message

theorem bare_shiftItem (n : Nat) (item : Item) : bare (shiftItem n item) = bare item := by
  cases item with
  | ok lexeme => rfl
  | error cause => cases cause <;> rfl

/-- The tokens of a text, or the words of its first error. -/
def bareLex : Except LexError (List Lexeme) → Except String (List Token)
  | .ok lexemes => .ok (lexemes.map Lexeme.token)
  | .error cause => .error cause.message

theorem mapM_bare (items : List Item) : (items.map bare).mapM id = bareLex (items.mapM id) := by
  induction items with
  | nil => rfl
  | cons first items ih =>
      rw [List.map_cons, List.mapM_cons, List.mapM_cons, ih]
      cases first with
      | error cause => rfl
      | ok lexeme => cases items.mapM id <;> rfl

end Lexer

open LambdaAny.Lexer

theorem Program.parse_eq_bind (source : String) :
    Program.parse source = ((lex source).mapError Failure.lex).bind fun lexemes =>
      (Expr.ofLexemes lexemes).mapError Failure.parse := by
  unfold Program.parse
  cases lex source with
  | error cause => rfl
  | ok lexemes =>
      dsimp only [Except.mapError, Except.bind]
      cases Expr.ofLexemes lexemes <;> rfl

/-- Two texts whose items differ in their places only are read alike. -/
theorem Program.parse_of_bare_items {source source' : String}
    (h : (items source).map bare = (items source').map bare) :
    (Program.parse source).mapError Failure.message =
      (Program.parse source').mapError Failure.message := by
  have hlex : bareLex (lex source) = bareLex (lex source') := by
    rw [lex, lex, ← mapM_bare, ← mapM_bare, h]
  rw [Program.parse_eq_bind, Program.parse_eq_bind]
  cases hresult : lex source with
  | error cause =>
      cases hresult' : lex source' with
      | error cause' =>
          rw [hresult, hresult'] at hlex
          have hmessage : cause.message = cause'.message := Except.error.inj hlex
          exact congrArg Except.error (congrArg (_ ++ ·) hmessage)
      | ok us =>
          rw [hresult, hresult'] at hlex
          cases hlex
  | ok ts =>
      cases hresult' : lex source' with
      | error cause' =>
          rw [hresult, hresult'] at hlex
          cases hlex
      | ok us =>
          rw [hresult, hresult'] at hlex
          exact Failure.parse_message_eq (Expr.ofLexemes_of_sameTokens (Except.ok.inj hlex))

/-- Blanks separate whatever stands on their two sides, and which blanks they are shows in no tree
and in no message. -/
theorem lexing_composes_at_blanks (front back : String) {gap : String} (hgap : gap ≠ "")
    (hblank : IsBlankText gap) :
    items (front ++ gap ++ back) =
        items front ++ (items back).map (shiftItem (front ++ gap).utf8ByteSize) ∧
      ∀ gap', gap' ≠ "" → IsBlankText gap' →
        (Program.parse (front ++ gap ++ back)).mapError Failure.message =
          (Program.parse (front ++ gap' ++ back)).mapError Failure.message := by
  refine ⟨items_append_gap front back hgap hblank, ?_⟩
  intro gap' hgap' hblank'
  apply Program.parse_of_bare_items
  have hshift : ∀ n, bare ∘ shiftItem n = bare := fun n => funext (bare_shiftItem n)
  rw [items_append_gap front back hgap hblank, items_append_gap front back hgap' hblank',
    List.map_append, List.map_append, List.map_map, List.map_map, hshift, hshift]

/-- A letter of two bytes that starts no token, a number out of range, and a symbol that is open to
another one behind it. -/
def brokenFront : String := "é 9223372036854775808 <"

def brokenBack : String := "= €"

/-- The texts above have errors of their own on both sides of the blanks; `x <` and `= 3` have none,
and what is wrong with them shows only when they are put together. -/
theorem lexing_composes_at_blanks_broken :
    " \x08" ≠ "" ∧ IsBlankText " \x08" ∧ "\r\n\n" ≠ "" ∧ IsBlankText "\r\n\n" ∧
      items (brokenFront ++ " \x08" ++ brokenBack) =
        items brokenFront ++ (items brokenBack).map (shiftItem 26) ∧
      (Program.parse (brokenFront ++ " \x08" ++ brokenBack)).mapError Failure.message =
        (Program.parse (brokenFront ++ "\r\n\n" ++ brokenBack)).mapError Failure.message ∧
      (Program.parse ("x <" ++ " \x08" ++ "= 3")).mapError Failure.message =
        (Program.parse ("x <" ++ "\r\n\n" ++ "= 3")).mapError Failure.message := by
  have hgap : " \x08" ≠ "" := by decide
  have hblank : IsBlankText " \x08" := by decide
  have hgap' : "\r\n\n" ≠ "" := by decide
  have hblank' : IsBlankText "\r\n\n" := by decide
  have hsize : (brokenFront ++ " \x08").utf8ByteSize = 26 := by decide +kernel
  obtain ⟨hitems, hparse⟩ := lexing_composes_at_blanks brokenFront brokenBack hgap hblank
  obtain ⟨-, hparse'⟩ := lexing_composes_at_blanks "x <" "= 3" hgap hblank
  exact ⟨hgap, hblank, hgap', hblank', hsize ▸ hitems, hparse _ hgap' hblank',
    hparse' _ hgap' hblank'⟩

end LambdaAny
