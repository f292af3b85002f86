import LambdaAny.Proofs.ParserCompleteness
import LambdaAny.Proofs.PredictiveReading

/-!
# Where a program goes wrong

A parse error names the first lexeme that no program goes on with: what stands before it begins some
program, and with it no program begins that way any more.  Only if the whole list begins a program
does the error name the end.

The readers of expressions predict their languages.  For the loop over infix positions the language
depends on the operand read so far: it holds what makes that operand a phrase again.
-/

namespace LambdaAny
namespace Parser

open Grammar

/-! ## The readers of expressions as sequences -/

/-- Extends an operand by the infix positions with at least this power. -/
def extending (lhs : Expr) (power : Nat) : Reader Expr := plain fun eof => extend eof lhs power

theorem plain_expr : plain expr = (plain atom).andThen fun first => extending first 0 := by
  funext eof ts
  rw [plain, expr]
  exact forget_bind fun _ _ _ => forget_bind_done fun _ _ _ => rfl

section

variable {lhs : Expr} {power : Nat} {lexeme : Lexeme}

theorem extending_stop {ts : List Lexeme} (hstops : Stops power ts) (eof : Nat) :
    extending lhs power eof ts = .ok (lhs, ts) :=
  forget_eq_ok_iff.mpr (reads_extend_iff.mpr (.stop hstops))

theorem extending_op {o : Op} (hjoint : Joint.ofToken? lexeme.token = some (.op o))
    (hpower : power ≤ (Joint.op o).left) (eof : Nat) (ts : List Lexeme) :
    extending lhs power eof (lexeme :: ts) =
      ((plain atom).andThen fun first =>
        (extending first (Joint.op o).right).andThen fun rhs =>
        extending (.op o lhs rhs) power) eof ts := by
  rw [extending, plain, extend]
  simp only [hjoint, if_neg (Nat.not_lt_of_le hpower)]
  exact forget_bind fun _ _ _ => forget_bind fun _ _ _ => forget_bind_done fun _ _ _ => rfl

/-- Nothing holds its left operand as strongly as an application holds its right one, so an argument
is never extended. -/
theorem extending_apply (hjoint : Joint.ofToken? lexeme.token = some .apply)
    (hpower : power ≤ Joint.apply.left) (eof : Nat) (ts : List Lexeme) :
    extending lhs power eof (lexeme :: ts) =
      ((plain atom).andThen fun arg => extending (.app lhs arg) power) eof (lexeme :: ts) := by
  have hargument : ∀ first, extending first Joint.apply.right = .done first :=
    fun first => funext fun eof => funext fun mid => extending_stop (stops_seven mid) eof
  have hread : extending lhs power eof (lexeme :: ts) =
      ((plain atom).andThen fun first =>
        (extending first Joint.apply.right).andThen fun arg =>
        extending (.app lhs arg) power) eof (lexeme :: ts) := by
    rw [extending, plain, extend]
    simp only [hjoint, if_neg (Nat.not_lt_of_le hpower)]
    exact forget_bind fun _ _ _ => forget_bind fun _ _ _ => forget_bind_done fun _ _ _ => rfl
  rw [hread]
  simp only [hargument]
  rfl

end

/-- What stands behind `if`. -/
def iteTail : Reader Expr :=
  (plain expr).andThen fun cond =>
  (Reader.just (.keyword .thenKw)).andThen fun _ =>
  (plain expr).andThen fun thn =>
  (Reader.just (.keyword .elseKw)).andThen fun _ =>
  (plain expr).andThen fun els => .done (.ite cond thn els)

/-- What stands behind `fun`. -/
def absTail : Reader Expr :=
  (plain funHead).andThen fun head =>
  (plain expr).andThen fun body => .done (.abs head.1 head.2 body)

/-- What stands behind `let` without `rec`. -/
def letInTail : Reader Expr :=
  (plain letHead).andThen fun binder =>
  (plain expr).andThen fun bindee =>
  (Reader.just (.keyword .inKw)).andThen fun _ =>
  (plain expr).andThen fun tail => .done (.letIn binder bindee tail)

/-- What stands behind `let`, if that starts with `rec`. -/
def letRecTail : Reader Expr :=
  (Reader.just (.keyword .recKw)).andThen fun _ =>
  (plain recHead).andThen fun head =>
  (plain expr).andThen fun body =>
  (Reader.just (.keyword .inKw)).andThen fun _ =>
  (plain expr).andThen fun tail =>
    .done (.letRec head.func head.param head.paramTy head.ret body tail)

/-- What stands behind `let`. -/
def letTail : Reader Expr := fun eof ts =>
  if (ts.head?.map Lexeme.token) = some (.keyword .recKw) then letRecTail eof ts
  else letInTail eof ts

section

variable {lexeme : Lexeme}

theorem plain_atom_parens (h : lexeme.token = .symbol .parenOpen) (eof : Nat) (ts : List Lexeme) :
    plain atom eof (lexeme :: ts) =
      ((plain expr).andThen fun inner =>
        (Reader.just (.symbol .parenClose)).andThen fun _ => .done inner) eof ts := by
  rw [plain, atom]
  simp only [h]
  exact forget_bind fun _ _ _ => forget_bind fun _ _ _ => rfl

theorem plain_atom_ite (h : lexeme.token = .keyword .ifKw) (eof : Nat) (ts : List Lexeme) :
    plain atom eof (lexeme :: ts) = iteTail eof ts := by
  rw [plain, atom]
  simp only [h]
  exact forget_bind fun _ _ _ => forget_bind fun _ _ _ => forget_bind fun _ _ _ =>
    forget_bind fun _ _ _ => forget_bind fun _ _ _ => rfl

theorem plain_atom_abs (h : lexeme.token = .keyword .funKw) (eof : Nat) (ts : List Lexeme) :
    plain atom eof (lexeme :: ts) = absTail eof ts := by
  rw [plain, atom]
  simp only [h]
  exact forget_bind fun _ _ _ => forget_bind fun _ _ _ => rfl

theorem plain_atom_let (h : lexeme.token = .keyword .letKw) (eof : Nat) (ts : List Lexeme) :
    plain atom eof (lexeme :: ts) = letTail eof ts := by
  rw [plain, atom, letTail]
  simp only [h]
  split
  · exact forget_bind fun _ _ _ => forget_bind fun _ _ _ => forget_bind fun _ _ _ =>
      forget_bind fun _ _ _ => forget_bind fun _ _ _ => rfl
  · exact forget_bind fun _ _ _ => forget_bind fun _ _ _ => forget_bind fun _ _ _ =>
      forget_bind fun _ _ _ => rfl

end

/-- The first token alone decides what the reader does. -/
theorem plain_atom_cases (token : Token) :
    (∃ e, Derives .simple [token] e ∧ ∀ lexeme, lexeme.token = token → ∀ eof ts,
        plain atom eof (lexeme :: ts) = .ok (e, ts)) ∨
      token = .symbol .parenOpen ∨ token = .keyword .ifKw ∨ token = .keyword .letKw ∨
      token = .keyword .funKw ∨
      ∀ lexeme, lexeme.token = token → ∀ eof ts,
        plain atom eof (lexeme :: ts) = .error (.illegalSequence (.token lexeme)) := by
  have hliteral : ∀ e, Derives .simple [token] e →
      (∀ lexeme, lexeme.token = token → ∀ eof ts, AtomReads eof (lexeme :: ts) e ts) →
      ∃ e, Derives .simple [token] e ∧ ∀ lexeme, lexeme.token = token → ∀ eof ts,
        plain atom eof (lexeme :: ts) = .ok (e, ts) :=
    fun e he hread => ⟨e, he, fun lexeme h eof ts =>
      forget_eq_ok_iff.mpr (reads_atom_iff.mpr (hread lexeme h eof ts))⟩
  cases token with
  | int n => exact .inl (hliteral (.int n) (.int n) fun lexeme h _ _ => .int lexeme h)
  | bool b => exact .inl (hliteral (.bool b) (.bool b) fun lexeme h _ _ => .bool lexeme h)
  | ident name => exact .inl (hliteral (.var name) (.var name) fun lexeme h _ _ => .var lexeme h)
  | symbol s =>
      cases s with
      | parenOpen => exact .inr (.inl rfl)
      | parenClose | colon | equals | arrow | lt | le | gt | ge | plus | minus | star | slash =>
          refine .inr (.inr (.inr (.inr (.inr fun lexeme h eof ts => ?_))))
          rw [plain, atom]
          simp only [h]
          rfl
  | keyword k =>
      cases k with
      | ifKw => exact .inr (.inr (.inl rfl))
      | letKw => exact .inr (.inr (.inr (.inl rfl)))
      | funKw => exact .inr (.inr (.inr (.inr (.inl rfl))))
      | recKw | inKw | thenKw | elseKw | modKw | intKw | boolKw | anyKw =>
          refine .inr (.inr (.inr (.inr (.inr fun lexeme h eof ts => ?_))))
          rw [plain, atom]
          simp only [h]
          rfl

/-! ## Operands -/

namespace Language

def simple : Language := ⟨fun us => ∃ e, Derives .simple us e, _, _, .bool true⟩

/-- Simple operands and keyword forms. -/
def operand : Language where
  Spells us := ∃ phrase e, Derives phrase us e ∧ 7 ≤ phrase.power
  exists_spells := ⟨_, .simple, _, .bool true, Nat.le_refl 7⟩

def expr : Language := ⟨fun us => ∃ e, Derives .expr us e, _, _, (Derives.bool true).toExpr⟩

theorem operand_of_simple {us : List Token} (h : simple.Spells us) : operand.Spells us := by
  obtain ⟨e, he⟩ := h
  exact ⟨.simple, e, he, Nat.le_refl 7⟩

theorem operand_of_form {us : List Token} {e : Expr} (h : Derives .form us e) : operand.Spells us :=
  ⟨.form, e, h, Nat.le_refl 7⟩

end Language

section

variable {n : Nat} {lexeme : Lexeme} {ts : List Lexeme} {eof : Nat}

theorem eq_parenOpen_of_apply {s : Symbol} (h : Joint.ofToken? (.symbol s) = some .apply) :
    s = .parenOpen := by
  cases s with
  | parenOpen => rfl
  | parenClose | colon | equals | arrow | lt | le | gt | ge | plus | minus | star | slash => cases h

/-- A lexeme that makes the position in front of it an application starts a simple operand. -/
theorem predictsAt_simple (hexpr : Predicts ts.length .expr (plain expr))
    (hjoint : Joint.ofToken? lexeme.token = some .apply) :
    PredictsAt Language.simple.Spells (plain atom) eof (lexeme :: ts) := by
  have hliteral : ∀ e, Derives .simple [lexeme.token] e →
      (∀ eof ts, AtomReads eof (lexeme :: ts) e ts) →
      PredictsAt Language.simple.Spells (plain atom) eof (lexeme :: ts) := by
    intro e he hread
    refine .cons (S := .done e) ?_ (predictsAt_done ⟨e, he⟩)
    exact fun eof ts => forget_eq_ok_iff.mpr (reads_atom_iff.mpr (hread eof ts))
  cases htoken : lexeme.token with
  | int n => exact hliteral (.int n) (htoken ▸ .int n) fun _ _ => .int lexeme htoken
  | bool b => exact hliteral (.bool b) (htoken ▸ .bool b) fun _ _ => .bool lexeme htoken
  | ident name => exact hliteral (.var name) (htoken ▸ .var name) fun _ _ => .var lexeme htoken
  | keyword k =>
      rw [htoken] at hjoint
      exact absurd hjoint (Joint.ofToken?_keyword_ne_apply k)
  | symbol s =>
      rw [htoken] at hjoint
      obtain rfl := eq_parenOpen_of_apply hjoint
      refine .cons (plain_atom_parens htoken) ?_
      have hinner := hexpr.followedBy fun inner =>
        (predicts_just (.symbol .parenClose)).map fun _ => inner
      refine (hinner eof ts (Nat.le_refl _)).mono ?_
      rintro _ ⟨us, _, rfl, ⟨inner, hus⟩, rfl⟩
      exact ⟨inner, htoken ▸ .parens hus⟩

theorem predictsAt_iteTail (hexpr : Predicts ts.length .expr (plain expr)) :
    PredictsAt (fun us => Language.operand.Spells (.keyword .ifKw :: us)) iteTail eof ts := by
  have htail := hexpr.followedBy fun cond =>
    (predicts_just (.keyword .thenKw)).followedBy fun _ => hexpr.followedBy fun thn =>
    (predicts_just (.keyword .elseKw)).followedBy fun _ => hexpr.map fun els =>
      Expr.ite cond thn els
  refine (htail eof ts (Nat.le_refl _)).mono ?_
  rintro _ ⟨cs, _, rfl, ⟨cond, hcond⟩, _, _, rfl, rfl, us, _, rfl, ⟨thn, hthn⟩, _, es, rfl, rfl,
    ⟨els, hels⟩⟩
  exact Language.operand_of_form (.ite hcond hthn hels)

theorem predictsAt_absTail (hexpr : Predicts ts.length .expr (plain expr)) :
    PredictsAt (fun us => Language.operand.Spells (.keyword .funKw :: us)) absTail eof ts := by
  have htail := predicts_funHead.followedBy fun head => hexpr.map fun body =>
    Expr.abs head.1 head.2 body
  refine (htail eof ts (Nat.le_refl _)).mono ?_
  rintro _ ⟨_, bs, rfl, ⟨_, _, rfl, hparam, rfl⟩, ⟨body, hbody⟩⟩
  obtain ⟨name, ps, paramTy, hps, rfl⟩ := Language.exists_of_param hparam
  have hform : Derives .form _ (.abs name paramTy body) := .abs name hps hbody
  exact Language.operand_of_form (by simpa using hform)

theorem predictsAt_letInTail (hexpr : Predicts ts.length .expr (plain expr)) :
    PredictsAt (fun us => Language.operand.Spells (.keyword .letKw :: us)) letInTail eof ts := by
  have htail := predicts_letHead.followedBy fun binder => hexpr.followedBy fun bindee =>
    (predicts_just (.keyword .inKw)).followedBy fun _ => hexpr.map fun tail =>
      Expr.letIn binder bindee tail
  refine (htail eof ts (Nat.le_refl _)).mono ?_
  rintro _ ⟨_, _, rfl, ⟨_, _, rfl, ⟨binder, rfl⟩, rfl⟩, bs, _, rfl, ⟨bindee, hbs⟩, _, us, rfl, rfl,
    ⟨tail, hus⟩⟩
  exact Language.operand_of_form (.letIn binder hbs hus)

theorem predictsAt_letRecTail (hexpr : Predicts ts.length .expr (plain expr)) :
    PredictsAt (fun us => Language.operand.Spells (.keyword .letKw :: us)) letRecTail eof ts := by
  have htail := (predicts_just (.keyword .recKw)).followedBy fun _ =>
    predicts_recHead.followedBy fun head => hexpr.followedBy fun body =>
    (predicts_just (.keyword .inKw)).followedBy fun _ => hexpr.map fun tail =>
      Expr.letRec head.func head.param head.paramTy head.ret body tail
  refine (htail eof ts (Nat.le_refl _)).mono ?_
  rintro _ ⟨_, _, rfl, rfl, _, _, rfl, ⟨_, _, rfl, ⟨func, rfl⟩, _, _, rfl, hparam, _, _, rfl, rfl,
    rs, _, rfl, ⟨ret, hrs⟩, rfl⟩, bs, _, rfl, ⟨body, hbs⟩, _, us, rfl, rfl, ⟨tail, hus⟩⟩
  obtain ⟨name, ps, paramTy, hps, rfl⟩ := Language.exists_of_param hparam
  have hform : Derives .form _ (.letRec func name paramTy ret body tail) :=
    .letRec func name hps hrs hbs hus
  exact Language.operand_of_form (by simpa using hform)

/-- One lexeme behind `let` tells the two forms apart. -/
theorem predictsAt_letTail (hexpr : Predicts ts.length .expr (plain expr)) :
    PredictsAt (fun us => Language.operand.Spells (.keyword .letKw :: us)) letTail eof ts := by
  by_cases hrec : ts.head?.map Lexeme.token = some (.keyword .recKw)
  · refine .congr ?_ (predictsAt_letRecTail hexpr)
    intro eof us hus
    exact if_pos (hus ▸ hrec)
  · refine .congr ?_ (predictsAt_letInTail hexpr)
    intro eof us hus
    exact if_neg (hus ▸ hrec)

theorem predicts_atom (hexpr : ∀ m, m < n → Predicts m .expr (plain expr)) :
    Predicts n .operand (plain atom) := by
  intro eof ts hle
  cases ts with
  | nil =>
      refine predictsAt_nil (.illegalSequence (.eof eof)) ?_ rfl (Language.exists_spells _)
      rw [plain, atom]
      rfl
  | cons lexeme ts =>
      have hexpr : Predicts ts.length .expr (plain expr) := hexpr _ hle
      rcases plain_atom_cases lexeme.token with
        ⟨e, he, hread⟩ | hopen | hif | hlet | hfun | hreject
      · have hspells : Language.operand.Spells [lexeme.token] := Language.operand_of_simple ⟨e, he⟩
        exact .cons (S := .done e) (hread lexeme rfl) (predictsAt_done hspells)
      · have hjoint : Joint.ofToken? lexeme.token = some .apply := by rw [hopen]; rfl
        exact (predictsAt_simple hexpr hjoint).mono fun _ => Language.operand_of_simple
      · exact .cons (plain_atom_ite hif) (hif ▸ predictsAt_iteTail hexpr)
      · exact .cons (plain_atom_let hlet) (hlet ▸ predictsAt_letTail hexpr)
      · exact .cons (plain_atom_abs hfun) (hfun ▸ predictsAt_absTail hexpr)
      · exact predictsAt_reject _ (hreject lexeme rfl) rfl (Language.exists_spells _)

end

/-! ## Infix positions -/

section

variable {eof : Nat} {ts used rest : List Lexeme} {phrase : Phrase} {spelled : List Token}
  {lhs e : Expr} {power : Nat} {lexeme : Lexeme}

/-- What was used is determined by what is left, so it is what soundness speaks of. -/
theorem held_of_atom (h : plain atom eof ts = .ok (e, rest)) (hts : ts = used ++ rest) :
    ∃ phrase, Held phrase (used.map Lexeme.token) e rest ∧ 7 ≤ phrase.power := by
  have hsound : AtomSound eof ts :=
    atomSound_of_parts fun us _ => (sound_of_length us.length us rfl).1
  obtain ⟨phrase, used', hts', hheld, hpower⟩ := hsound e rest (forget_eq_ok_iff.mp h)
  obtain rfl := List.append_cancel_right (hts.symm.trans hts')
  exact ⟨phrase, hheld, hpower⟩

theorem held_of_extend (hlhs : Held phrase spelled lhs ts) (hpower : power ≤ phrase.power)
    (h : extending lhs power eof ts = .ok (e, rest)) (hts : ts = used ++ rest) :
    ∃ phrase', Held phrase' (spelled ++ used.map Lexeme.token) e rest ∧ power ≤ phrase'.power ∧
      Stops power rest := by
  have hsound : ExtendSound eof ts := (sound_of_length ts.length ts rfl).2
  obtain ⟨phrase', used', hts', hheld, hpower', hstops⟩ :=
    hsound phrase spelled lhs power e rest hlhs hpower (forget_eq_ok_iff.mp h)
  obtain rfl := List.append_cancel_right (hts.symm.trans hts')
  exact ⟨phrase', hheld, hpower', hstops⟩

theorem Stops.of_head? {us : List Lexeme} (h : Stops power ts)
    (hhead : us.head?.map Lexeme.token = ts.head?.map Lexeme.token) : Stops power us := by
  cases us with
  | nil => trivial
  | cons first us =>
      cases ts with
      | nil => cases hhead
      | cons lexeme ts =>
          have htoken : first.token = lexeme.token := Option.some.inj hhead
          simpa only [Stops, htoken] using h

/-- A climb that does not stop is in front of a position that holds its left operand. -/
theorem exists_joint_of_not_stops (h : ¬Stops power (lexeme :: ts)) :
    ∃ joint, Joint.ofToken? lexeme.token = some joint ∧ power ≤ joint.left := by
  simpa [Stops] using h

/-- What behind the tokens `spelled` makes a phrase that a climb with this power can end in. -/
def Continues (spelled : List Token) (power : Nat) (us : List Token) : Prop :=
  ∃ phrase e, Derives phrase (spelled ++ us) e ∧ power ≤ phrase.power

/-- Extending an operand predicts what can follow it, on lists of at most `n` lexemes. -/
def ExtendPredicts (n : Nat) : Prop :=
  ∀ eof ts phrase spelled lhs power, ts.length ≤ n → Held phrase spelled lhs ts →
    power ≤ phrase.power → PredictsAt (Continues spelled power) (extending lhs power) eof ts

/-- Behind an operator, whatever its right operand can be goes on with the left one. -/
theorem continues_op (hlhs : Held phrase spelled lhs (lexeme :: ts)) {o : Op}
    (hjoint : Joint.ofToken? lexeme.token = some (.op o)) (hpower : power ≤ (Joint.op o).left)
    {us : List Token} (h : Continues [] (Joint.op o).right us) :
    Continues spelled power (lexeme.token :: us) := by
  obtain ⟨phrase', rhs, hrhs, hright⟩ := h
  have hheld : Held phrase' us rhs [] := ⟨hrhs, trivial⟩
  obtain ⟨joined, hjoined, hleft⟩ := hlhs.join_op hjoint hheld hright trivial
  exact ⟨joined, _, hjoined.derives, Nat.le_trans hpower hleft⟩

theorem predictsAt_extend_op (hatom : Predicts ts.length .operand (plain atom))
    (hextend : ExtendPredicts ts.length) (hlhs : Held phrase spelled lhs (lexeme :: ts)) {o : Op}
    (hjoint : Joint.ofToken? lexeme.token = some (.op o)) (hpower : power ≤ (Joint.op o).left) :
    PredictsAt (Continues spelled power) (extending lhs power) eof (lexeme :: ts) := by
  have hseven : (Joint.op o).right ≤ 7 := Joint.right_le_seven _
  refine .cons (extending_op hjoint hpower) ((hatom eof ts (Nat.le_refl _)).andThen ?_ ?_)
  · rintro us ⟨phrase', rhs, hrhs, hpower'⟩
    refine ⟨[], continues_op hlhs hjoint hpower ?_⟩
    exact ⟨phrase', rhs, by simpa using hrhs, Nat.le_trans hseven hpower'⟩
  · -- the first part of the right operand is there, and is extended to the whole of it
    intro first used mid hfirst hts _
    obtain ⟨phrase', hheld, hpower'⟩ := held_of_atom hfirst hts
    have hright := Nat.le_trans hseven hpower'
    have hmid : mid.length ≤ ts.length := by simp [hts]
    refine (hextend eof mid phrase' _ first _ hmid hheld hright).andThen ?_ ?_
    · rintro us ⟨phrase'', rhs, hrhs, hpower''⟩
      refine ⟨[], continues_op hlhs hjoint hpower ?_⟩
      exact ⟨phrase'', rhs, by simpa using hrhs, hpower''⟩
    · -- the two operands are joined, and the loop goes on with what they are joined to
      intro rhs used' rest hrhs hmid' _
      obtain ⟨phrase'', hheld', hright', hstops⟩ := held_of_extend hheld hright hrhs hmid'
      obtain ⟨joined, hjoined, hleft⟩ := hlhs.join_op hjoint hheld' hright' hstops
      have hrest : rest.length ≤ ts.length := by
        rw [hts, hmid']
        simp only [List.length_append]
        omega
      refine (hextend eof rest joined _ _ power hrest hjoined (Nat.le_trans hpower hleft)).mono ?_
      rintro us ⟨phrase, e, he, hle⟩
      exact ⟨phrase, e, by simpa using he, hle⟩

theorem predictsAt_extend_apply (hexpr : Predicts ts.length .expr (plain expr))
    (hextend : ExtendPredicts ts.length) (hlhs : Held phrase spelled lhs (lexeme :: ts))
    (hjoint : Joint.ofToken? lexeme.token = some .apply) (hpower : power ≤ Joint.apply.left) :
    PredictsAt (Continues spelled power) (extending lhs power) eof (lexeme :: ts) := by
  have hcall : Derives .call spelled lhs := hlhs.derives.call_of_limit (hlhs.left_lt_limit hjoint)
  refine .congr (S := (plain atom).andThen fun arg => extending (.app lhs arg) power) ?_
    ((predictsAt_simple hexpr hjoint).andThen ?_ ?_)
  · intro eof us hus
    obtain ⟨rest, rfl⟩ := List.head?_eq_some_iff.mp hus
    exact extending_apply hjoint hpower eof rest
  · rintro us ⟨arg, harg⟩
    refine ⟨[], .call, .app lhs arg, ?_, hpower⟩
    simpa using Derives.app hcall harg
  · intro arg used rest harg hts _
    obtain ⟨phrase', hheld, hpower'⟩ := held_of_atom harg hts
    have hjoined := hlhs.join_apply hjoint hts hheld hpower'
    have hrest : rest.length ≤ ts.length := Nat.le_of_lt_succ (forget_eq_ok_iff.mp harg).shorter
    refine (hextend eof rest .call _ _ power hrest hjoined hpower).mono ?_
    rintro us ⟨phrase, e, he, hle⟩
    exact ⟨phrase, e, by simpa using he, hle⟩

theorem extendPredicts_of_shorter {n : Nat}
    (hexpr : ∀ m, m < n → Predicts m .expr (plain expr))
    (hextend : ∀ m, m < n → ExtendPredicts m) : ExtendPredicts n := by
  intro eof ts phrase spelled lhs power hle hlhs hpower
  by_cases hstops : Stops power ts
  · refine .congr (S := .done lhs) ?_ (predictsAt_done ?_)
    · intro eof us hus
      exact extending_stop (hstops.of_head? (congrArg (Option.map Lexeme.token) hus)) eof
    · exact ⟨phrase, lhs, by simpa using hlhs.derives, hpower⟩
  · cases ts with
    | nil => exact absurd trivial hstops
    | cons lexeme ts =>
        obtain ⟨joint, hjoint, hleft⟩ := exists_joint_of_not_stops hstops
        have hatom : Predicts ts.length .operand (plain atom) :=
          predicts_atom fun m hm => hexpr m (Nat.lt_trans hm hle)
        cases joint with
        | op o => exact predictsAt_extend_op hatom (hextend _ hle) hlhs hjoint hleft
        | apply => exact predictsAt_extend_apply (hexpr _ hle) (hextend _ hle) hlhs hjoint hleft

theorem predicts_expr_of_shorter {n : Nat}
    (hexpr : ∀ m, m < n → Predicts m .expr (plain expr))
    (hextend : ∀ m, m < n → ExtendPredicts m) : Predicts n .expr (plain expr) := by
  rw [plain_expr]
  intro eof ts hle
  refine (predicts_atom hexpr eof ts hle).andThen ?_ ?_
  · rintro us ⟨phrase, e, he, -⟩
    exact ⟨[], e, by simpa using he.toExpr⟩
  · intro first used mid hfirst hts _
    obtain ⟨phrase, hheld, -⟩ := held_of_atom hfirst hts
    have hmid : mid.length < n := Nat.lt_of_lt_of_le (forget_eq_ok_iff.mp hfirst).shorter hle
    refine (hextend _ hmid eof mid phrase _ first 0 (Nat.le_refl _) hheld (Nat.zero_le _)).mono ?_
    rintro us ⟨phrase', e, he, -⟩
    exact ⟨e, he.toExpr⟩

/-- By induction on the number of lexemes.  Expressions and extensions call each other on shorter
lists only, so both are in the hypothesis. -/
theorem predicts_expr (n : Nat) : Predicts n .expr (plain expr) := by
  have hall : Predicts n .expr (plain expr) ∧ ExtendPredicts n := by
    induction n using Nat.strongRecOn with
    | ind n ih =>
        have hexpr : ∀ m, m < n → Predicts m .expr (plain expr) := fun m hm => (ih m hm).1
        have hextend : ∀ m, m < n → ExtendPredicts m := fun m hm => (ih m hm).2
        exact ⟨predicts_expr_of_shorter hexpr hextend, extendPredicts_of_shorter hexpr hextend⟩
  exact hall.1

end

end Parser

/-! ## Programs -/

namespace Expr

open LambdaAny.Parser

/-- Some program begins with the lexemes. -/
def Begins (ts : List Lexeme) : Prop := ∃ more e, Expr.ofLexemes (ts ++ more) = .ok e

theorem Begins.take {ts : List Lexeme} (h : Begins ts) (n : Nat) : Begins (ts.take n) := by
  obtain ⟨more, e, he⟩ := h
  refine ⟨ts.drop n ++ more, e, ?_⟩
  rw [← List.append_assoc, List.take_append_drop]
  exact he

/-- Any lexemes with the missing tokens complete a list. -/
theorem begins_of_derives {ts : List Lexeme} {more : List Token} {e : Expr}
    (h : Grammar.Derives .expr (ts.map Lexeme.token ++ more) e) : Begins ts := by
  refine ⟨more.map fun token => ⟨token, default⟩, e, Expr.ofLexemes_of_derives ?_⟩
  simpa [Function.comp_def] using h

theorem ofLexemes_eq (ts : List Lexeme) :
    Expr.ofLexemes ts =
      match plain expr (endOffset ts) ts with
      | .error err => .error err
      | .ok (e, []) => .ok e
      | .ok (_, lexeme :: _) => .error (.illegalSequence (.token lexeme)) := by
  unfold Expr.ofLexemes plain
  cases hread : Parser.expr (endOffset ts) ts with
  | error err => rfl
  | ok whole =>
      obtain ⟨value, rest, hlt⟩ := whole
      cases rest <;> rfl

/-- An error is about the lexeme in front of which a program could still have gone on. -/
theorem exists_of_ofLexemes_error {ts : List Lexeme} {err : ParseError}
    (h : Expr.ofLexemes ts = .error err) :
    ∃ seen rest, ts = seen ++ rest ∧ err.found = foundAt (endOffset ts) rest ∧ Begins seen ∧
      ∀ lexeme tail, rest = lexeme :: tail → ¬Begins (seen ++ [lexeme]) := by
  have hpredicts := predicts_expr ts.length (endOffset ts) ts (Nat.le_refl _)
  rw [ofLexemes_eq] at h
  split at h
  next err' hread =>
    cases h
    obtain ⟨seen, rest, hts, hfound, ⟨more, e, he⟩, hsettles⟩ := hpredicts.complains err hread
    refine ⟨seen, rest, hts, hfound, begins_of_derives he, ?_⟩
    -- the same error is found however the list goes on
    rintro lexeme tail hrest ⟨more', e', he'⟩
    rw [List.append_assoc, List.singleton_append, ofLexemes_eq,
      hsettles lexeme tail hrest] at he'
    cases he'
  next e hread => cases h
  next e lexeme tail hread =>
    -- a whole program was read and something is left
    cases h
    obtain ⟨used, hts, ⟨e', he'⟩, hsettles⟩ := hpredicts.reads e _ hread
    have hbegins : Begins used := ⟨[], e', Expr.ofLexemes_of_derives (by simpa using he')⟩
    refine ⟨used, _, hts, rfl, hbegins, ?_⟩
    rintro lexeme' tail' hrest ⟨more, e'', he''⟩
    rw [List.append_assoc, List.singleton_append, ofLexemes_eq,
      hsettles lexeme' tail' hrest] at he''
    cases he''

theorem endOffset_eq (ts : List Lexeme) :
    endOffset ts = (ts.getLast?.map fun last => last.span.stop).getD 0 := by
  unfold endOffset
  cases ts.getLast? <;> rfl

/-- An error names the first lexeme that no program goes on with.  It names the end, which is that
of the last lexeme, exactly if the list is no program but begins one. -/
theorem ofLexemes_error_at_first_misfit (ts : List Lexeme) :
    (∀ err lexeme, Expr.ofLexemes ts = .error err → err.found = .token lexeme →
        ∃ i, ts[i]? = some lexeme ∧ Begins (ts.take i) ∧ ¬Begins (ts.take (i + 1))) ∧
      ∀ offset, (∃ err, Expr.ofLexemes ts = .error err ∧ err.found = .eof offset) ↔
        offset = (ts.getLast?.map fun last => last.span.stop).getD 0 ∧
          (∀ e, Expr.ofLexemes ts ≠ .ok e) ∧ Begins ts := by
  constructor
  · intro err lexeme herr hfound
    obtain ⟨seen, rest, rfl, hfoundAt, hbegins, hmisfit⟩ := exists_of_ofLexemes_error herr
    rw [hfound] at hfoundAt
    cases rest with
    | nil => cases hfoundAt
    | cons lexeme' tail =>
        cases hfoundAt
        refine ⟨seen.length, by simp, by simpa using hbegins, ?_⟩
        rw [List.take_length_add_append]
        exact hmisfit lexeme tail rfl
  · intro offset
    rw [← endOffset_eq]
    constructor
    · rintro ⟨err, herr, hfound⟩
      obtain ⟨seen, rest, hts, hfoundAt, hbegins, -⟩ := exists_of_ofLexemes_error herr
      rw [hfound] at hfoundAt
      cases rest with
      | nil =>
          rw [List.append_nil] at hts
          cases hfoundAt
          refine ⟨rfl, ?_, hts ▸ hbegins⟩
          intro e he
          rw [herr] at he
          cases he
      | cons lexeme tail => cases hfoundAt
    · rintro ⟨rfl, hfails, hbegins⟩
      cases herr : Expr.ofLexemes ts with
      | ok e => exact absurd herr (hfails e)
      | error err =>
          refine ⟨err, rfl, ?_⟩
          obtain ⟨seen, rest, hts, hfoundAt, -, hmisfit⟩ := exists_of_ofLexemes_error herr
          cases rest with
          | nil => exact hfoundAt
          | cons lexeme tail =>
              have hshort := hbegins.take (seen.length + 1)
              rw [hts, List.take_length_add_append] at hshort
              exact absurd hshort (hmisfit lexeme tail rfl)

/-- Behind a whole program, what cannot follow an operand is complained of. -/
theorem ofLexemes_append_of_derives {ts : List Lexeme} {e : Expr}
    (h : Grammar.Derives .expr (ts.map Lexeme.token) e) {lexeme : Lexeme}
    (hlexeme : Joint.ofToken? lexeme.token = none) (rest : List Lexeme) :
    Expr.ofLexemes (ts ++ lexeme :: rest) = .error (.illegalSequence (.token lexeme)) := by
  have hstops : Stops 1 (lexeme :: rest) := stops_of_token hlexeme
  have hread : plain expr (endOffset (ts ++ lexeme :: rest)) (ts ++ lexeme :: rest) =
      .ok (e, lexeme :: rest) :=
    forget_eq_ok_iff.mpr (reads_expr_iff.mpr ((completes_of_derives h).expr rfl _ hstops))
  rw [ofLexemes_eq, hread]

/-- `1 * fun (x : int -> any) -> x 2`, with one byte for each token. -/
def scaledFunction : List Lexeme :=
  [⟨.int 1, 0, 1⟩, ⟨.symbol .star, 1, 2⟩, ⟨.keyword .funKw, 2, 3⟩, ⟨.symbol .parenOpen, 3, 4⟩,
    ⟨.ident "x", 4, 5⟩, ⟨.symbol .colon, 5, 6⟩, ⟨.keyword .intKw, 6, 7⟩, ⟨.symbol .arrow, 7, 8⟩,
    ⟨.keyword .anyKw, 8, 9⟩, ⟨.symbol .parenClose, 9, 10⟩, ⟨.symbol .arrow, 10, 11⟩,
    ⟨.ident "x", 11, 12⟩, ⟨.int 2, 12, 13⟩]

theorem derives_scaledFunction :
    Grammar.Derives .expr (scaledFunction.map Lexeme.token)
      (.op (.arith .mul) (.int 1) (.abs "x" (.arrow .int .any) (.app (.var "x") (.int 2)))) := by
  have htype : Grammar.DerivesTy .ty [.keyword .intKw, .symbol .arrow, .keyword .anyKw]
      (.arrow .int .any) := .arrow .int (.ofAtom .any)
  have hbody : Grammar.Derives .expr [.ident "x", .int 2] (.app (.var "x") (.int 2)) :=
    .exprSum (.sumProduct (.productCall (.app (.callSimple (.var "x")) (.int 2))))
  have hproduct : Grammar.Derives .productForm (scaledFunction.map Lexeme.token) _ :=
    .mulForm (.inl rfl) (.productCall (.callSimple (.int 1))) (.abs "x" htype hbody)
  exact hproduct.toExpr

/-- It closes nothing behind that program: the parentheses there are paired. -/
def strayParen : Lexeme := ⟨.symbol .parenClose, 13, 14⟩

theorem ofLexemes_error_strayParen :
    Expr.ofLexemes (scaledFunction ++ [strayParen]) =
        .error (.illegalSequence (.token strayParen)) ∧
      ∃ i, (scaledFunction ++ [strayParen])[i]? = some strayParen ∧
        Begins ((scaledFunction ++ [strayParen]).take i) ∧
        ¬Begins ((scaledFunction ++ [strayParen]).take (i + 1)) := by
  have herr : Expr.ofLexemes (scaledFunction ++ [strayParen]) =
      .error (.illegalSequence (.token strayParen)) :=
    ofLexemes_append_of_derives derives_scaledFunction rfl []
  exact ⟨herr, (ofLexemes_error_at_first_misfit _).1 _ _ herr rfl⟩

end Expr
end LambdaAny
