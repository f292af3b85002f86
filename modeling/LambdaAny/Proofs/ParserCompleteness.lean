import LambdaAny.Proofs.ParserSoundness

/-!
# What the grammar spells is read

The readers find every derivation.  A phrase is read as part of a longer list, so the statement for
each phrase is about what may follow: climbing over the phrase comes to the same as extending it by
what stands behind, if the infix position there is weak enough for the phrase.  In this form it goes
through the left recursion of the grammar, where the operand on the left is read before anything
that is joined to it.

Together with the converse this is the equivalence of reader and grammar.
-/

namespace LambdaAny
namespace Parser

open Grammar

variable {eof : Nat}

theorem stops_of_token {power : Nat} {lexeme : Lexeme} {ts : List Lexeme}
    (h : Joint.ofToken? lexeme.token = none) : Stops power (lexeme :: ts) := by
  intro joint hjoint
  rw [h] at hjoint
  cases hjoint

/-! ## Types -/

/-- A type is read wherever its tokens stand; one that could go on must not be followed by an
arrow. -/
def CompletesTy (eof : Nat) (us : List Token) (whole : Ty) : TyPhrase → Prop
  | .atom => ∀ ts rest : List Lexeme, ts.map Lexeme.token = us →
      Reads (tyAtom eof (ts ++ rest)) whole rest
  | .ty => ∀ ts rest : List Lexeme, ts.map Lexeme.token = us →
      (∀ lexeme tail, rest = lexeme :: tail → lexeme.token ≠ .symbol .arrow) →
      Reads (ty eof (ts ++ rest)) whole rest

theorem completesTy_of_derives {phrase : TyPhrase} {us : List Token} {whole : Ty}
    (h : DerivesTy phrase us whole) : CompletesTy eof us whole phrase := by
  induction h with
  | int =>
      intro ts rest hts
      obtain ⟨lexeme, rfl, htoken⟩ := List.map_eq_singleton_iff.mp hts
      exact reads_tyAtom_iff.mpr (.int lexeme htoken)
  | bool =>
      intro ts rest hts
      obtain ⟨lexeme, rfl, htoken⟩ := List.map_eq_singleton_iff.mp hts
      exact reads_tyAtom_iff.mpr (.bool lexeme htoken)
  | any =>
      intro ts rest hts
      obtain ⟨lexeme, rfl, htoken⟩ := List.map_eq_singleton_iff.mp hts
      exact reads_tyAtom_iff.mpr (.any lexeme htoken)
  | parens _ ih =>
      intro ts rest hts
      obtain ⟨first, more, rfl, hopen, hmore⟩ := List.map_eq_cons_iff.mp hts
      obtain ⟨inner, close, rfl, hinner, hclose⟩ := List.map_eq_append_iff.mp hmore
      obtain ⟨last, rfl, hlast⟩ := List.map_eq_singleton_iff.mp hclose
      have hreads := ih inner (last :: rest) hinner (by
        rintro _ _ heq
        obtain ⟨rfl, _⟩ := List.cons.inj heq
        simp [hlast])
      refine reads_tyAtom_iff.mpr ?_
      simpa using TyAtomReads.parens first last hopen hreads hlast
  | ofAtom _ ih =>
      intro ts rest hts hrest
      exact reads_ty_iff.mpr ⟨_, rest, ih ts rest hts, .inr ⟨hrest, rfl, rfl⟩⟩
  | arrow _ _ ihdom ihcod =>
      intro ts rest hts hrest
      obtain ⟨dom, more, rfl, hdom, hmore⟩ := List.map_eq_append_iff.mp hts
      obtain ⟨arrow, cod, rfl, harrow, hcod⟩ := List.map_eq_cons_iff.mp hmore
      have hreads := ihdom dom (arrow :: (cod ++ rest)) hdom
      rw [List.append_assoc, List.cons_append]
      refine reads_ty_iff.mpr ⟨_, arrow :: (cod ++ rest), hreads, .inl ?_⟩
      exact ⟨arrow, cod ++ rest, _, rfl, harrow, ihcod cod rest hcod hrest, rfl⟩

theorem ty_complete {ts : List Lexeme} {whole : Ty}
    (h : DerivesTy .ty (ts.map Lexeme.token) whole) {next : Lexeme} (rest : List Lexeme)
    (hnext : next.token ≠ .symbol .arrow) :
    Reads (ty eof (ts ++ next :: rest)) whole (next :: rest) := by
  refine completesTy_of_derives h ts (next :: rest) rfl ?_
  intro lexeme tail heq
  obtain ⟨rfl, _⟩ := List.cons.inj heq
  exact hnext

theorem param_complete {ts : List Lexeme} {name : String} {paramTy : Ty} {ps more : List Token}
    (hps : DerivesTy .ty ps paramTy)
    (hts : ts.map Lexeme.token =
      .symbol .parenOpen :: .ident name :: .symbol .colon ::
        (ps ++ .symbol .parenClose :: more)) :
    ∃ behind, behind.map Lexeme.token = more ∧
      ∀ rest, Reads (param eof (ts ++ rest)) (name, paramTy) (behind ++ rest) := by
  obtain ⟨first, ts, rfl, hfirst, hts⟩ := List.map_eq_cons_iff.mp hts
  obtain ⟨second, ts, rfl, hsecond, hts⟩ := List.map_eq_cons_iff.mp hts
  obtain ⟨third, ts, rfl, hthird, hts⟩ := List.map_eq_cons_iff.mp hts
  obtain ⟨inner, ts, rfl, rfl, hclose⟩ := List.map_eq_append_iff.mp hts
  obtain ⟨last, behind, rfl, hlast, hbehind⟩ := List.map_eq_cons_iff.mp hclose
  refine ⟨behind, hbehind, ?_⟩
  intro rest
  have hreads : Reads (ty eof (inner ++ last :: (behind ++ rest))) paramTy
      (last :: (behind ++ rest)) :=
    ty_complete hps (behind ++ rest) (by simp [hlast])
  exact reads_param_iff.mpr
    ⟨first, second, third, _, last, hfirst, hsecond, hthird, by simp, hreads, hlast⟩

/-! ## Expressions -/

/-- Climbing over the phrase comes to the same as extending it by what stands behind. -/
def Completes (eof : Nat) (phrase : Phrase) (us : List Token) (e : Expr) : Prop :=
  ∀ (ts rest : List Lexeme) (power : Nat), ts.map Lexeme.token = us → power ≤ phrase.power →
    Stops phrase.limit rest → ∀ (whole : Expr) (rest' : List Lexeme),
      Reads (extend eof e power rest) whole rest' → Climbs eof power (ts ++ rest) whole rest'

section

variable {phrase phrase' : Phrase} {us vs : List Token} {e lhs rhs : Expr}

theorem Completes.weaken (h : Completes eof phrase us e) (hpower : phrase'.power ≤ phrase.power)
    (hlimit : phrase'.limit ≤ phrase.limit) : Completes eof phrase' us e :=
  fun ts rest power hts hle hstops =>
    h ts rest power hts (Nat.le_trans hle hpower) (hstops.mono hlimit)

/-- The phrase alone, where climbing ends behind it. -/
theorem Completes.climbs (h : Completes eof phrase us e) {ts rest : List Lexeme} {power : Nat}
    (hts : ts.map Lexeme.token = us) (hpower : power ≤ phrase.power)
    (hstops : Stops phrase.limit rest) (hend : Stops power rest) :
    Climbs eof power (ts ++ rest) e rest :=
  h ts rest power hts hpower hstops e rest (reads_extend_iff.mpr (.stop hend))

theorem Completes.expr (h : Completes eof .expr us e) {ts : List Lexeme}
    (hts : ts.map Lexeme.token = us) (rest : List Lexeme) (hstops : Stops 1 rest) :
    Climbs eof 0 (ts ++ rest) e rest :=
  h.climbs hts (Nat.zero_le _) hstops hstops.zero_of_one

theorem completes_of_atom
    (h : ∀ ts rest : List Lexeme, ts.map Lexeme.token = us → Stops phrase.limit rest →
      AtomReads eof (ts ++ rest) e rest) : Completes eof phrase us e := by
  intro ts rest power hts _ hstops whole rest' hwhole
  exact ⟨e, rest, reads_atom_iff.mpr (h ts rest hts hstops), hwhole⟩

/-- The powers of the operator fit the phrases of its operands and of the whole: the operator is
reached behind the left one, and climbing over the right one ends where the whole ends. -/
def PowersFit (o : Op) (lhs rhs whole : Phrase) : Prop :=
  (whole.power ≤ lhs.power ∧ whole.power ≤ (Joint.op o).left ∧ (Joint.op o).left < lhs.limit) ∧
    (Joint.op o).right ≤ rhs.power ∧ whole.limit ≤ rhs.limit ∧ whole.limit ≤ (Joint.op o).right

instance (o : Op) (lhs rhs whole : Phrase) : Decidable (PowersFit o lhs rhs whole) :=
  inferInstanceAs (Decidable (_ ∧ _))

/-- Two operands around an operator. -/
theorem Completes.join_op {joined : Phrase} {o : Op} (hlhs : Completes eof phrase us lhs)
    (hrhs : Completes eof phrase' vs rhs) (hfit : PowersFit o phrase phrase' joined) :
    Completes eof joined (us ++ o.token :: vs) (.op o lhs rhs) := by
  obtain ⟨⟨hleft, hjoined, hlimit⟩, hright, hbehind, hend⟩ := hfit
  intro ts rest power hts hpower hstops whole rest' hwhole
  obtain ⟨ls, more, rfl, hls, hmore⟩ := List.map_eq_append_iff.mp hts
  obtain ⟨lexeme, rs, rfl, htoken, hrs⟩ := List.map_eq_cons_iff.mp hmore
  have hjoint : Joint.ofToken? lexeme.token = some (.op o) := Joint.ofToken?_eq_op_iff.mpr htoken
  have hposition : Stops phrase.limit (lexeme :: (rs ++ rest)) := stops_of_joint hjoint hlimit
  have hclimbs : Climbs eof (Joint.op o).right (rs ++ rest) rhs rest :=
    hrhs.climbs hrs hright (hstops.mono hbehind) (hstops.mono hend)
  -- the left operand is extended by the operator first, and then as the whole is
  have hextend : Reads (extend eof lhs power (lexeme :: (rs ++ rest))) whole rest' :=
    reads_extend_iff.mpr
      (.op lexeme o hjoint (Nat.le_trans hpower hjoined) hclimbs hwhole)
  have hall := hlhs ls (lexeme :: (rs ++ rest)) power hls (Nat.le_trans hpower hleft) hposition
    whole rest' hextend
  simpa using hall

theorem simple_head (h : Derives .simple us e) :
    ∃ token more, us = token :: more ∧ Joint.ofToken? token = some .apply := by
  cases h with
  | int n => exact ⟨_, _, rfl, rfl⟩
  | bool b => exact ⟨_, _, rfl, rfl⟩
  | var name => exact ⟨_, _, rfl, rfl⟩
  | parens _ => exact ⟨_, _, rfl, rfl⟩

theorem Completes.join_apply {func arg : Expr} (hfunc : Completes eof .call us func)
    (hsimple : Derives .simple vs arg) (harg : Completes eof .simple vs arg) :
    Completes eof .call (us ++ vs) (.app func arg) := by
  intro ts rest power hts hpower _ whole rest' hwhole
  obtain ⟨fs, as, rfl, hfs, has⟩ := List.map_eq_append_iff.mp hts
  have hclimbs : Climbs eof Joint.apply.right (as ++ rest) arg rest :=
    harg.climbs has (Nat.le_refl 7) (stops_seven rest) (stops_seven rest)
  -- the first token of the argument is what makes the position an application
  obtain ⟨token, more, hvs, hjoint⟩ := simple_head hsimple
  obtain ⟨lexeme, as, rfl, htoken, _⟩ := List.map_eq_cons_iff.mp (has.trans hvs)
  have hextend : Reads (extend eof func power (lexeme :: (as ++ rest))) whole rest' :=
    reads_extend_iff.mpr (.apply lexeme (htoken ▸ hjoint) hpower hclimbs hwhole)
  have hall := hfunc fs (lexeme :: (as ++ rest)) power hfs hpower (stops_seven _) whole rest'
    hextend
  simpa using hall

/-- By induction on the derivation. -/
theorem completes_of_derives (h : Derives phrase us e) : Completes eof phrase us e := by
  induction h with
  | int n =>
      refine completes_of_atom fun ts rest hts _ => ?_
      obtain ⟨lexeme, rfl, htoken⟩ := List.map_eq_singleton_iff.mp hts
      exact .int lexeme htoken
  | bool b =>
      refine completes_of_atom fun ts rest hts _ => ?_
      obtain ⟨lexeme, rfl, htoken⟩ := List.map_eq_singleton_iff.mp hts
      exact .bool lexeme htoken
  | var name =>
      refine completes_of_atom fun ts rest hts _ => ?_
      obtain ⟨lexeme, rfl, htoken⟩ := List.map_eq_singleton_iff.mp hts
      exact .var lexeme htoken
  | parens _ ih =>
      refine completes_of_atom fun ts rest hts _ => ?_
      obtain ⟨first, ts, rfl, hopen, hts⟩ := List.map_eq_cons_iff.mp hts
      obtain ⟨inner, ts, rfl, hinner, hts⟩ := List.map_eq_append_iff.mp hts
      obtain ⟨last, rfl, hclose⟩ := List.map_eq_singleton_iff.mp hts
      have hreads := ih.expr hinner (last :: rest) (stops_of_token (by rw [hclose]; rfl))
      simpa using AtomReads.parens first last hopen hreads hclose
  | ite _ _ _ ihc iht ihe =>
      refine completes_of_atom fun ts rest hts hstops => ?_
      obtain ⟨first, ts, rfl, hif, hts⟩ := List.map_eq_cons_iff.mp hts
      obtain ⟨cs, ts, rfl, hcs, hts⟩ := List.map_eq_append_iff.mp hts
      obtain ⟨second, ts, rfl, hthen, hts⟩ := List.map_eq_cons_iff.mp hts
      obtain ⟨us, ts, rfl, hus, hts⟩ := List.map_eq_append_iff.mp hts
      obtain ⟨third, es, rfl, helse, hes⟩ := List.map_eq_cons_iff.mp hts
      have hels := ihe.expr hes rest hstops
      have hthn := iht.expr hus (third :: (es ++ rest))
        (stops_of_token (by rw [helse]; rfl))
      have hcond := ihc.expr hcs (second :: (us ++ third :: (es ++ rest)))
        (stops_of_token (by rw [hthen]; rfl))
      simpa using AtomReads.ite first second third hif hcond hthen hthn helse hels
  | letIn binder _ _ ihb iht =>
      refine completes_of_atom fun ts rest hts hstops => ?_
      obtain ⟨first, ts, rfl, hlet, hts⟩ := List.map_eq_cons_iff.mp hts
      obtain ⟨name, ts, rfl, hname, hts⟩ := List.map_eq_cons_iff.mp hts
      obtain ⟨equals, ts, rfl, hequals, hts⟩ := List.map_eq_cons_iff.mp hts
      obtain ⟨bs, ts, rfl, hbs, hts⟩ := List.map_eq_append_iff.mp hts
      obtain ⟨second, us, rfl, hin, hus⟩ := List.map_eq_cons_iff.mp hts
      have htail := iht.expr hus rest hstops
      have hbindee := ihb.expr hbs (second :: (us ++ rest))
        (stops_of_token (by rw [hin]; rfl))
      have hhead : Reads (letHead eof (name :: equals :: (bs ++ second :: (us ++ rest)))) binder
          (bs ++ second :: (us ++ rest)) :=
        reads_letHead_iff.mpr ⟨name, equals, hname, hequals, rfl⟩
      simpa using AtomReads.letIn first second hlet hhead hbindee hin htail
  | @letRec _ _ _ _ func param paramTy ret _ _ hparamTy hret _ _ ihb iht =>
      refine completes_of_atom fun ts rest hts hstops => ?_
      obtain ⟨first, ts, rfl, hlet, hts⟩ := List.map_eq_cons_iff.mp hts
      obtain ⟨second, ts, rfl, hrec, hts⟩ := List.map_eq_cons_iff.mp hts
      obtain ⟨name, ts, rfl, hname, hts⟩ := List.map_eq_cons_iff.mp hts
      obtain ⟨behind, hbehind, hparam⟩ := param_complete hparamTy hts
      obtain ⟨colon, behind, rfl, hcolon, hbehind⟩ := List.map_eq_cons_iff.mp hbehind
      obtain ⟨rs, behind, rfl, rfl, hrest⟩ := List.map_eq_append_iff.mp hbehind
      obtain ⟨equals, behind, rfl, hequals, hbehind⟩ := List.map_eq_cons_iff.mp hrest
      obtain ⟨bs, behind, rfl, hbs, hbehind⟩ := List.map_eq_append_iff.mp hbehind
      obtain ⟨third, us, rfl, hin, hus⟩ := List.map_eq_cons_iff.mp hbehind
      have htail := iht.expr hus rest hstops
      have hbody := ihb.expr hbs (third :: (us ++ rest)) (stops_of_token (by rw [hin]; rfl))
      have hretReads : Reads (ty eof (rs ++ equals :: (bs ++ third :: (us ++ rest)))) ret
          (equals :: (bs ++ third :: (us ++ rest))) :=
        ty_complete hret _ (by simp [hequals])
      have hhead : Reads (recHead eof (name :: (ts ++ rest))) ⟨func, param, paramTy, ret⟩
          (bs ++ third :: (us ++ rest)) := by
        refine reads_recHead_iff.mpr ⟨name, ts ++ rest, colon, _, equals, hname, rfl, ?_, hcolon,
          hretReads, hequals⟩
        simpa using hparam rest
      exact AtomReads.letRec first second third hlet hrec hhead hbody hin htail
  | @abs _ _ param paramTy _ hparamTy _ ihb =>
      refine completes_of_atom fun ts rest hts hstops => ?_
      obtain ⟨first, ts, rfl, hfun, hts⟩ := List.map_eq_cons_iff.mp hts
      obtain ⟨behind, hbehind, hparam⟩ := param_complete hparamTy hts
      obtain ⟨arrow, bs, rfl, harrow, hbs⟩ := List.map_eq_cons_iff.mp hbehind
      have hbody := ihb.expr hbs rest hstops
      have hhead : Reads (funHead eof (ts ++ rest)) (param, paramTy) (bs ++ rest) :=
        reads_funHead_iff.mpr ⟨arrow, hparam rest, harrow⟩
      exact AtomReads.abs first hfun hhead hbody
  | callSimple _ ih => exact ih.weaken (by decide) (by decide)
  | app _ hsimple ihf iha => exact ihf.join_apply hsimple iha
  | productCall _ ih => exact ih.weaken (by decide) (by decide)
  | mul ho _ _ ihl ihr =>
      rcases ho with rfl | rfl | rfl <;>
        exact ihl.join_op ihr (by decide)
  | mulForm ho _ _ ihl ihr =>
      rcases ho with rfl | rfl | rfl <;>
        exact ihl.join_op ihr (by decide)
  | sumProduct _ ih => exact ih.weaken (by decide) (by decide)
  | add ho _ _ ihl ihr =>
      rcases ho with rfl | rfl <;>
        exact ihl.join_op ihr (by decide)
  | sumFormProductForm _ ih => exact ih.weaken (by decide) (by decide)
  | addProductForm ho _ _ ihl ihr =>
      rcases ho with rfl | rfl <;>
        exact ihl.join_op ihr (by decide)
  | addForm ho _ _ ihl ihr =>
      rcases ho with rfl | rfl <;>
        exact ihl.join_op ihr (by decide)
  | exprSum _ ih => exact ih.weaken (by decide) (by decide)
  | exprSumForm _ ih => exact ih.weaken (by decide) (by decide)
  | exprForm _ ih => exact ih.weaken (by decide) (by decide)
  | cmp o _ _ ihl ihr =>
      cases o <;>
        exact ihl.join_op ihr (by decide)

end

theorem expr_complete {ts : List Lexeme} {e : Expr}
    (h : Derives .expr (ts.map Lexeme.token) e) : Reads (expr eof ts) e [] := by
  have hclimbs : Climbs eof 0 (ts ++ []) e [] := (completes_of_derives h).expr rfl [] trivial
  rw [List.append_nil] at hclimbs
  exact reads_expr_iff.mpr hclimbs

end Parser

theorem Expr.ofLexemes_eq_ok_iff_reads {ts : List Lexeme} {e : Expr} :
    Expr.ofLexemes ts = .ok e ↔ Parser.Reads (Parser.expr (Parser.endOffset ts) ts) e [] := by
  unfold Expr.ofLexemes
  cases hread : Parser.expr (Parser.endOffset ts) ts with
  | error err => simp [bind, Except.bind]
  | ok whole =>
      obtain ⟨value, rest, hlt⟩ := whole
      cases rest with
      | nil => simp [bind, Except.bind, pure, Except.pure]
      | cons lexeme rest => simp [bind, Except.bind, throw, throwThe, MonadExceptOf.throw]

theorem Expr.derives_of_ofLexemes {ts : List Lexeme} {e : Expr} (h : Expr.ofLexemes ts = .ok e) :
    Grammar.Derives .expr (ts.map Lexeme.token) e := by
  obtain ⟨used, hts, hused, _⟩ := Parser.expr_sound (Expr.ofLexemes_eq_ok_iff_reads.mp h)
  rw [List.append_nil] at hts
  rw [hts]
  exact hused

theorem Expr.ofLexemes_of_derives {ts : List Lexeme} {e : Expr}
    (h : Grammar.Derives .expr (ts.map Lexeme.token) e) : Expr.ofLexemes ts = .ok e := by
  rw [Expr.ofLexemes_eq_ok_iff_reads]
  exact Parser.expr_complete h

/-- A list of lexemes is read as an expression exactly if its tokens spell that expression in the
grammar; no token is left over. -/
theorem Expr.ofLexemes_eq_ok_iff_derives (ts : List Lexeme) (e : Expr) :
    Expr.ofLexemes ts = .ok e ↔ Grammar.Derives .expr (ts.map Lexeme.token) e := by
  constructor
  · exact Expr.derives_of_ofLexemes
  · exact Expr.ofLexemes_of_derives

end LambdaAny
