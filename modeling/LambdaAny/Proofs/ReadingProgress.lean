import LambdaAny.Proofs.CallLayers

/-!
# The readers make progress and come to an end

A reader is given the lexemes behind some place of a list.  If it succeeds it leaves those behind a
later place, which is at most the end of the list, and so does every round of the loop over infix
positions.  The round for an application has no token to take, but the lexeme that makes the position
an application also starts an operand.  Only behind an opening parenthesis can that operand fail.

So all calls end, on lists that spell a program and on others.  They are nested at most twice as deep
as there are lexemes left, and two deeper; lists of opening parentheses need that depth.
-/

namespace LambdaAny
namespace Parser

variable {eof pos : Nat} {lexemes ts rest : List Lexeme} {lexeme : Lexeme}

/-! ## What is left -/

theorem suffix_of_reads_ty {t : Ty} (h : Reads (ty eof ts) t rest) : rest <:+ ts := by
  obtain ⟨used, rfl, _⟩ := ty_sound h
  exact List.suffix_append used rest

theorem suffix_of_reads_atom {e : Expr} (h : Reads (atom eof ts) e rest) : rest <:+ ts := by
  have hsound : AtomSound eof ts :=
    atomSound_of_parts fun us _ => (sound_of_length us.length us rfl).1
  obtain ⟨_, used, rfl, _⟩ := hsound e rest h
  exact List.suffix_append used rest

theorem suffix_of_reads_extend_of_length (n : Nat) : ∀ ts : List Lexeme, ts.length = n →
    ∀ lhs power e rest, Reads (extend eof lhs power ts) e rest → rest <:+ ts := by
  induction n using Nat.strongRecOn with
  | ind n ih =>
      rintro ts rfl lhs power e rest h
      -- an operand is read from a list that is no longer, and extended on one that is shorter
      have hclimbs : ∀ us rhs mid power, us.length ≤ ts.length → Climbs eof power us rhs mid →
          mid <:+ us := by
        rintro us rhs mid power hle ⟨first, us', hfirst, hrhs⟩
        have hshorter : us'.length < ts.length := Nat.lt_of_lt_of_le hfirst.shorter hle
        exact (ih _ hshorter us' rfl _ _ _ _ hrhs).trans (suffix_of_reads_atom hfirst)
      cases reads_extend_iff.mp h with
      | stop _ => exact List.suffix_refl ts
      | op lexeme o _ _ hrhs hwhole =>
          have hmid := (hclimbs _ _ _ _ (Nat.le_succ _) hrhs).trans (List.suffix_cons lexeme _)
          exact (ih _ (Nat.lt_succ_of_lt hrhs.shorter) _ rfl _ _ _ _ hwhole).trans hmid
      | apply lexeme _ _ harg hwhole =>
          have hmid := hclimbs _ _ _ _ (Nat.le_refl _) harg
          exact (ih _ harg.shorter _ rfl _ _ _ _ hwhole).trans hmid

theorem Climbs.suffix {power : Nat} {e : Expr} (h : Climbs eof power ts e rest) : rest <:+ ts := by
  obtain ⟨first, mid, hfirst, hwhole⟩ := h
  exact (suffix_of_reads_extend_of_length _ mid rfl _ _ _ _ hwhole).trans
    (suffix_of_reads_atom hfirst)

/-- What is left stands behind a later place, which is not past the end. -/
def MovesOn (lexemes : List Lexeme) (pos : Nat) (rest : List Lexeme) : Prop :=
  ∃ pos', pos < pos' ∧ pos' ≤ lexemes.length ∧ rest = lexemes.drop pos'

theorem movesOn_of_suffix (hsuffix : rest <:+ lexemes.drop pos)
    (hshorter : rest.length < (lexemes.drop pos).length) : MovesOn lexemes pos rest := by
  obtain ⟨used, hused⟩ := hsuffix
  have hlength := congrArg List.length hused
  rw [List.length_append, List.length_drop] at hlength
  rw [List.length_drop] at hshorter
  refine ⟨pos + used.length, by omega, by omega, ?_⟩
  rw [← List.drop_drop, ← hused, List.drop_left]

/-! ## Rounds -/

/-- A round that does not end the loop reads an operand, from where the token of an operator was
taken or from where it stood. -/
theorem exists_climbs_of_round {lhs joined : Expr} {power : Nat}
    (h : Readers.actual.round lhs power eof ts = some (.ok (some joined, rest))) :
    ∃ us right rhs, us <:+ ts ∧ Climbs eof right us rhs rest := by
  by_cases hstops : Stops power ts
  · rw [round_stop hstops] at h
    cases h
  · cases ts with
    | nil => exact absurd trivial hstops
    | cons lexeme ts =>
        obtain ⟨joint, hjoint, hleft⟩ := exists_joint_of_not_stops hstops
        rw [round_joint hjoint hleft] at h
        obtain ⟨_, us, htake, h⟩ := exists_of_bind h
        obtain ⟨first, mid, hfirst, h⟩ := exists_of_bind h
        obtain ⟨rhs, rest', hrhs, h⟩ := exists_of_bind h
        obtain rfl : rest' = rest := by cases h; rfl
        have hclimbs : Climbs eof joint.right us rhs rest' :=
          ⟨first, mid, forget_eq_ok_iff.mp (Option.some.inj hfirst),
            forget_eq_ok_iff.mp (Option.some.inj hrhs)⟩
        refine ⟨us, joint.right, rhs, ?_, hclimbs⟩
        cases joint with
        | op o =>
            cases htake
            exact List.suffix_cons lexeme ts
        | apply =>
            cases htake
            exact List.suffix_refl _

/-! ## Applications -/

/-- The round for an application reads one operand, and takes nothing else. -/
theorem round_apply {lhs arg : Expr} {power : Nat}
    (hjoint : Joint.ofToken? lexeme.token = some .apply) (hpower : power ≤ Joint.apply.left)
    (harg : Reads (atom eof (lexeme :: ts)) arg rest) :
    Readers.actual.round lhs power eof (lexeme :: ts) = some (.ok (some (.app lhs arg), rest)) := by
  have hatom : Readers.actual.atom eof (lexeme :: ts) = (pure arg : Attempt Expr) eof rest :=
    congrArg some (forget_eq_ok_iff.mpr harg)
  have hstay : Readers.actual.extend arg Joint.apply.right eof rest =
      (pure arg : Attempt Expr) eof rest :=
    congrArg some (extending_stop (stops_seven rest) eof)
  rw [round_joint hjoint hpower, Joint.take, pure_bind, bind_of_eq hatom, pure_bind,
    bind_of_eq hstay]
  rfl

/-- The complaint is about the expression at the front, or about what stands behind it where a
parenthesis must be closed. -/
def FailsInParens (eof : Nat) (ts : List Lexeme) (err : ParseError) : Prop :=
  expr eof ts = .error err ∨ ∃ inner rest, Reads (expr eof ts) inner rest ∧
    expect eof (.symbol .parenClose) rest = .error err

/-- Reads what stands behind an opening parenthesis. -/
def closing : Reader Expr :=
  (plain expr).andThen fun inner =>
  (Reader.just (.symbol .parenClose)).andThen fun _ => .done inner

/-- Of the lexemes that make a position an application, all but the opening parenthesis are operands
by themselves. -/
theorem closing_of_apply (hjoint : Joint.ofToken? lexeme.token = some .apply) {err : ParseError}
    (h : atom eof (lexeme :: ts) = .error err) :
    lexeme.token = .symbol .parenOpen ∧ closing eof ts = .error err := by
  have hliteral : ∀ e, ¬AtomReads eof (lexeme :: ts) e ts := by
    intro e hreads
    obtain ⟨_, heq⟩ := reads_atom_iff.mpr hreads
    rw [h] at heq
    cases heq
  cases htoken : lexeme.token with
  | int n => exact absurd (.int lexeme htoken) (hliteral _)
  | bool b => exact absurd (.bool lexeme htoken) (hliteral _)
  | ident name => exact absurd (.var lexeme htoken) (hliteral _)
  | keyword k =>
      rw [htoken] at hjoint
      exact absurd hjoint (Joint.ofToken?_keyword_ne_apply k)
  | symbol s =>
      rw [htoken] at hjoint
      obtain rfl := eq_parenOpen_of_apply hjoint
      have hread : plain atom eof (lexeme :: ts) = closing eof ts := plain_atom_parens htoken eof ts
      exact ⟨rfl, hread.symm.trans (forget_eq_error_iff.mpr h)⟩

theorem failsInParens_of_closing {err : ParseError} (h : closing eof ts = .error err) :
    FailsInParens eof ts err := by
  rcases Reader.andThen_eq_error h with hinner | ⟨inner, rest, hinner, h⟩
  · exact .inl (forget_eq_error_iff.mp hinner)
  · rcases Reader.andThen_eq_error h with hclose | ⟨_, _, _, hdone⟩
    · exact .inr ⟨inner, rest, forget_eq_ok_iff.mp hinner, forget_eq_error_iff.mp hclose⟩
    · cases hdone

/-- The complaint names a lexeme behind the parenthesis, or the end. -/
theorem found_of_closing {err : ParseError} (h : closing eof ts = .error err) :
    ∃ rest, rest <:+ ts ∧ err.found = foundAt eof rest := by
  have hpredicts := (predicts_expr ts.length).followedBy fun inner : Expr =>
    (predicts_just (.symbol .parenClose)).map fun _ => inner
  obtain ⟨seen, rest, rfl, hfound, _⟩ := (hpredicts eof ts (Nat.le_refl _)).complains err h
  exact ⟨rest, List.suffix_append seen rest, hfound⟩

/-- Where a position is an application, its argument is read or an opening parenthesis is taken, and
then something behind that is complained of. -/
theorem atom_of_apply (hjoint : Joint.ofToken? lexeme.token = some .apply) :
    (∃ e rest, Reads (atom eof (lexeme :: ts)) e rest) ∨
      lexeme.token = .symbol .parenOpen ∧ ∃ err, atom eof (lexeme :: ts) = .error err ∧
        FailsInParens eof ts err ∧ ∃ rest, rest <:+ ts ∧ err.found = foundAt eof rest := by
  cases hatom : atom eof (lexeme :: ts) with
  | ok parsed => exact .inl ⟨parsed.value, parsed.rest, parsed.shorter, rfl⟩
  | error err =>
      obtain ⟨hopen, hclosing⟩ := closing_of_apply hjoint hatom
      exact .inr ⟨hopen, err, rfl, failsInParens_of_closing hclosing, found_of_closing hclosing⟩

/-! ## Progress and the end of all calls -/

/-- What is taken by reading at a place of a list. -/
structure Progresses (eof : Nat) (lexemes : List Lexeme) (pos : Nat) : Prop where
  atom : ∀ e rest, Reads (Parser.atom eof (lexemes.drop pos)) e rest → MovesOn lexemes pos rest
  ty : ∀ t rest, Reads (Parser.ty eof (lexemes.drop pos)) t rest → MovesOn lexemes pos rest
  /-- Every round takes something, unless it ends the loop. -/
  round : ∀ lhs power joined rest,
    Readers.actual.round lhs power eof (lexemes.drop pos) = some (.ok (some joined, rest)) →
      MovesOn lexemes pos rest
  /-- The argument of an application fails at most behind an opening parenthesis. -/
  application : ∀ lexeme, lexemes[pos]? = some lexeme →
    Joint.ofToken? lexeme.token = some .apply →
      (∃ e rest, Reads (Parser.atom eof (lexemes.drop pos)) e rest) ∨
        lexeme.token = .symbol .parenOpen ∧
          ∃ err, Parser.atom eof (lexemes.drop pos) = .error err ∧
            FailsInParens eof (lexemes.drop (pos + 1)) err ∧
            ∃ rest, MovesOn lexemes pos rest ∧ err.found = foundAt eof rest

theorem progresses (eof : Nat) (lexemes : List Lexeme) (pos : Nat) :
    Progresses eof lexemes pos where
  atom _ _ h := movesOn_of_suffix (suffix_of_reads_atom h) h.shorter
  ty _ _ h := movesOn_of_suffix (suffix_of_reads_ty h) h.shorter
  round _ _ _ _ h := by
    obtain ⟨us, right, rhs, hus, hclimbs⟩ := exists_climbs_of_round h
    exact movesOn_of_suffix (hclimbs.suffix.trans hus)
      (Nat.lt_of_lt_of_le hclimbs.shorter hus.length_le)
  application := by
    intro lexeme hlexeme hjoint
    obtain ⟨hpos, rfl⟩ := List.getElem?_eq_some_iff.mp hlexeme
    have hdrop := List.drop_eq_getElem_cons hpos
    have hmoves : ∀ rest, rest <:+ lexemes.drop (pos + 1) → MovesOn lexemes pos rest := by
      intro rest hrest
      have hle := hrest.length_le
      refine movesOn_of_suffix (hrest.trans ?_) ?_
      · rw [hdrop]
        exact List.suffix_cons _ _
      · rw [hdrop, List.length_cons]
        omega
    rw [hdrop]
    refine (atom_of_apply hjoint).imp_right ?_
    rintro ⟨hopen, err, hatom, hfails, rest, hrest, hfound⟩
    exact ⟨hopen, err, hatom, hfails, rest, hmoves rest hrest, hfound⟩

/-- At every place of every list of lexemes, what is read moves on and stays inside the list, and so
does every round of the loop over infix positions.  So all calls end, for all lists: cut off two calls
deeper than twice the number of lexemes left, the readers do what they do. -/
theorem readers_progress_and_end (eof : Nat) (lexemes : List Lexeme) (pos : Nat) :
    Progresses eof lexemes pos ∧ Readers.actual.next = Readers.actual ∧
      ∀ depth, 2 * (lexemes.length - pos) + 2 ≤ depth →
        (Readers.within depth).expr eof (lexemes.drop pos) =
            some (plain expr eof (lexemes.drop pos)) ∧
          (∀ lhs power, (Readers.within depth).extend lhs power eof (lexemes.drop pos) =
            some (extending lhs power eof (lexemes.drop pos))) ∧
          (Readers.within depth).atom eof (lexemes.drop pos) =
            some (plain atom eof (lexemes.drop pos)) ∧
          (Readers.within depth).ty eof (lexemes.drop pos) =
            some (plain ty eof (lexemes.drop pos)) := by
  refine ⟨progresses eof lexemes pos, Readers.next_actual, ?_⟩
  intro depth hdepth
  have hreach := Readers.reach_within depth
  have hlength : (lexemes.drop pos).length ≤ lexemes.length - pos := Nat.le_of_eq List.length_drop
  exact ⟨hreach.expr _ (by omega) eof _ hlength,
    fun lhs power => hreach.extend _ (by omega) lhs power eof _ hlength,
    hreach.atom _ (by omega) eof _ hlength, hreach.ty _ (by omega) eof _ hlength⟩

/-- Three parentheses that are only opened need all eight calls. -/
example :
    (Readers.within 7).expr 0 (.replicate 3 ⟨.symbol .parenOpen, .point 0⟩) = none ∧
      (Readers.within 8).expr 0 (.replicate 3 ⟨.symbol .parenOpen, .point 0⟩) =
        some (.error (.illegalSequence (.eof 0))) := ⟨rfl, rfl⟩

/-- `f (g 1) (2 *`, with one byte for each token. -/
def unclosedArgument : List Lexeme :=
  [⟨.ident "f", 0, 1⟩, ⟨.symbol .parenOpen, 1, 2⟩, ⟨.ident "g", 2, 3⟩, ⟨.int 1, 3, 4⟩,
    ⟨.symbol .parenClose, 4, 5⟩, ⟨.symbol .parenOpen, 5, 6⟩, ⟨.int 2, 6, 7⟩, ⟨.symbol .star, 7, 8⟩]

/-- `(int -> any) = 1`, with one byte for each token. -/
def typeInFront : List Lexeme :=
  [⟨.symbol .parenOpen, 0, 1⟩, ⟨.keyword .intKw, 1, 2⟩, ⟨.symbol .arrow, 2, 3⟩,
    ⟨.keyword .anyKw, 3, 4⟩, ⟨.symbol .parenClose, 4, 5⟩, ⟨.symbol .equals, 5, 6⟩, ⟨.int 1, 6, 7⟩]

/-- The first argument is taken whole; the second one fails at the end, behind its parenthesis. -/
theorem readers_progress_and_end_unclosedArgument :
    (Reads (atom 8 (unclosedArgument.drop 1)) (.app (.var "g") (.int 1)) (unclosedArgument.drop 5) ∧
        MovesOn unclosedArgument 1 (unclosedArgument.drop 5)) ∧
      (∃ joined, Readers.actual.round (.var "f") 0 8 (unclosedArgument.drop 1) =
          some (.ok (some joined, unclosedArgument.drop 5)) ∧
        MovesOn unclosedArgument 1 (unclosedArgument.drop 5)) ∧
      (unclosedArgument[5]? = some ⟨.symbol .parenOpen, 5, 6⟩ ∧
        Joint.ofToken? (.symbol .parenOpen) = some .apply ∧
        ∃ err, atom 8 (unclosedArgument.drop 5) = .error err ∧
          FailsInParens 8 (unclosedArgument.drop 6) err ∧
          ∃ rest, MovesOn unclosedArgument 5 rest ∧ err.found = foundAt 8 rest) ∧
      (Reads (ty 7 (typeInFront.drop 0)) (.arrow .int .any) (typeInFront.drop 5) ∧
        MovesOn typeInFront 0 (typeInFront.drop 5)) ∧
      (Readers.within 18).expr 8 unclosedArgument = some (plain expr 8 unclosedArgument) := by
  have hatom : Reads (atom 8 (unclosedArgument.drop 1)) (.app (.var "g") (.int 1))
      (unclosedArgument.drop 5) := by
    have hreach := (Readers.reach_within 15).atom 7 (by decide) 8 (unclosedArgument.drop 1)
      (by decide)
    exact forget_eq_ok_iff.mp (Option.some.inj hreach.symm)
  have hround : Readers.actual.round (.var "f") 0 8 (unclosedArgument.drop 1) =
      some (.ok (some (.app (.var "f") (.app (.var "g") (.int 1))), unclosedArgument.drop 5)) :=
    round_apply rfl (by decide) hatom
  have hfails : atom 8 (unclosedArgument.drop 5) = .error (.illegalSequence (.eof 8)) := by
    have hreach := (Readers.reach_within 7).atom 3 (by decide) 8 (unclosedArgument.drop 5)
      (by decide)
    exact forget_eq_error_iff.mp (Option.some.inj hreach.symm)
  have hty : Reads (ty 7 (typeInFront.drop 0)) (.arrow .int .any) (typeInFront.drop 5) := by
    have hreach := (Readers.reach_within 8).ty 7 (by decide) 7 (typeInFront.drop 0) (by decide)
    exact forget_eq_ok_iff.mp (Option.some.inj hreach.symm)
  obtain ⟨hfirst, -⟩ := readers_progress_and_end 8 unclosedArgument 1
  obtain ⟨hsecond, -⟩ := readers_progress_and_end 8 unclosedArgument 5
  obtain ⟨htype, -⟩ := readers_progress_and_end 7 typeInFront 0
  obtain ⟨-, -, hends⟩ := readers_progress_and_end 8 unclosedArgument 0
  refine ⟨⟨hatom, hfirst.atom _ _ hatom⟩, ⟨_, hround, hfirst.round _ _ _ _ hround⟩,
    ⟨rfl, rfl, ?_⟩, ⟨hty, htype.ty _ _ hty⟩, (hends 18 (by decide)).1⟩
  rcases hsecond.application _ rfl rfl with ⟨e, rest, _, hreads⟩ | ⟨_, hbehind⟩
  · rw [hfails] at hreads
    cases hreads
  · exact hbehind

end Parser
end LambdaAny
