import LambdaAny.Expr.Printer
import LambdaAny.Program
import LambdaAny.Proofs.Lexing
import LambdaAny.Proofs.ParserCompleteness
import LambdaAny.Proofs.Rendering

/-!
# Printed trees read back

The printer and the reader meet in a list of tokens.  On the one side, the tokens of a tree, with
the printer's parentheses, spell the tree in the grammar.  On the other side, every rendering of the
printed document consists of these tokens and blanks, wherever its lines are broken, if the tree
holds only names and literals that texts denote.  Trees that hold others are printed as well, and
their texts read as something else or not at all.
-/

namespace LambdaAny

open Grammar
open Lexer (Spells Leads IsGap)

/-! ## The tokens of a printed tree -/

/-- The tokens between parentheses if `parens` says so. -/
def enclose (parens : Bool) (ts : List Token) : List Token :=
  if parens then .symbol .parenOpen :: (ts ++ [.symbol .parenClose]) else ts

def Ty.tokens : Ty → List Token
  | .int => [.keyword .intKw]
  | .bool => [.keyword .boolKw]
  | .any => [.keyword .anyKw]
  | .arrow dom cod => enclose dom.isArrow dom.tokens ++ .symbol .arrow :: cod.tokens

namespace Expr

def tokens : Expr → List Token
  | int n => [.int n]
  | bool b => [.bool b]
  | var name => [.ident name]
  | op o lhs rhs =>
    enclose (lhsParens o lhs) lhs.tokens ++ o.token :: enclose (rhsParens o rhs) rhs.tokens
  | app func arg => enclose (func.level < 4) func.tokens ++ enclose (arg.level ≤ 4) arg.tokens
  | ite cond thn els =>
    .keyword .ifKw ::
      (cond.tokens ++ .keyword .thenKw :: (thn.tokens ++ .keyword .elseKw :: els.tokens))
  | letIn binder bindee tail =>
    .keyword .letKw :: .ident binder :: .symbol .equals ::
      (bindee.tokens ++ .keyword .inKw :: tail.tokens)
  | letRec func param paramTy ret body tail =>
    .keyword .letKw :: .keyword .recKw :: .ident func ::
      .symbol .parenOpen :: .ident param :: .symbol .colon :: (paramTy.tokens ++
        .symbol .parenClose :: .symbol .colon :: (ret.tokens ++ .symbol .equals ::
          (body.tokens ++ .keyword .inKw :: tail.tokens)))
  | abs param paramTy body =>
    .keyword .funKw :: .symbol .parenOpen :: .ident param :: .symbol .colon ::
      (paramTy.tokens ++ .symbol .parenClose :: .symbol .arrow :: body.tokens)

/-- The phrase of the grammar that the printed tree is. -/
def phrase : Expr → Phrase
  | int _ | bool _ | var _ => .simple
  | app _ _ => .call
  | op (.arith .mul) _ _ | op (.arith .div) _ _ | op (.arith .mod) _ _ => .product
  | op (.arith .add) _ _ | op (.arith .sub) _ _ => .sum
  | op (.cmp _) _ _ => .expr
  | ite _ _ _ | letIn _ _ _ | letRec _ _ _ _ _ _ | abs _ _ _ => .form

end Expr

/-! ## Printed tokens are in the grammar -/

theorem Ty.derives_tokens (ty : Ty) :
    DerivesTy .ty ty.tokens ty ∧ DerivesTy .atom (enclose ty.isArrow ty.tokens) ty := by
  induction ty with
  | int => exact ⟨.ofAtom .int, .int⟩
  | bool => exact ⟨.ofAtom .bool, .bool⟩
  | any => exact ⟨.ofAtom .any, .any⟩
  | arrow dom cod ihdom ihcod =>
      have harrow : DerivesTy .ty (Ty.arrow dom cod).tokens (.arrow dom cod) :=
        .arrow ihdom.2 ihcod.1
      exact ⟨harrow, .parens harrow⟩

namespace Expr

variable {e : Expr} {parens : Bool}

theorem phrase_eq_simple (h : 5 ≤ e.level) : e.phrase = .simple := by
  cases e with
  | op o lhs rhs =>
      cases o with
      | cmp o => simp [level, Op.level] at h
      | arith o => cases o <;> simp [level, Op.level] at h
  | int _ | bool _ | var _ => rfl
  | _ => simp [level] at h

/-- The level of a printed tree bounds what can stand behind its phrase. -/
theorem limit_phrase (e : Expr) :
    (2 ≤ e.level → 1 < e.phrase.limit) ∧ (3 ≤ e.level → 4 < e.phrase.limit) ∧
      (4 ≤ e.level → 6 < e.phrase.limit) := by
  cases e with
  | op o lhs rhs =>
      cases o with
      | cmp o => simp [level, Op.level]
      | arith o => cases o <;> simp [level, Op.level, phrase, Phrase.limit]
  | _ => simp [level, phrase, Phrase.limit]

theorem derives_enclose {target : Phrase} {ts : List Token} (h : Derives .expr ts e)
    (hsimple : ∀ us, Derives .simple us e → Derives target us e)
    (hbare : parens = false → Derives target ts e) : Derives target (enclose parens ts) e := by
  cases parens with
  | true => exact hsimple _ (.parens h)
  | false => exact hbare rfl

theorem simple_enclose (h : Derives e.phrase e.tokens e) (hlevel : parens = false → 5 ≤ e.level) :
    Derives .simple (enclose parens e.tokens) e := by
  apply derives_enclose h.toExpr (fun _ hus => hus)
  intro hbare
  rw [phrase_eq_simple (hlevel hbare)] at h
  exact h

theorem call_enclose (h : Derives e.phrase e.tokens e) (hlevel : parens = false → 4 ≤ e.level) :
    Derives .call (enclose parens e.tokens) e :=
  derives_enclose h.toExpr (fun _ hus => .callSimple hus)
    (fun hbare => h.call_of_limit (e.limit_phrase.2.2 (hlevel hbare)))

theorem product_enclose (h : Derives e.phrase e.tokens e) (hlevel : parens = false → 3 ≤ e.level) :
    Derives .product (enclose parens e.tokens) e :=
  derives_enclose h.toExpr (fun _ hus => .productCall (.callSimple hus))
    (fun hbare => h.product_of_limit (e.limit_phrase.2.1 (hlevel hbare)))

theorem sum_enclose (h : Derives e.phrase e.tokens e) (hlevel : parens = false → 2 ≤ e.level) :
    Derives .sum (enclose parens e.tokens) e :=
  derives_enclose h.toExpr (fun _ hus => .sumProduct (.productCall (.callSimple hus)))
    (fun hbare => h.sum_of_limit (e.limit_phrase.1 (hlevel hbare)))

theorem two_le_level_of_lhsParens {o : Cmp} (h : lhsParens (.cmp o) e = false) : 2 ≤ e.level :=
  Nat.not_le.mp (of_decide_eq_false h)

theorem level_le_of_lhsParens {o : Arith} (h : lhsParens (.arith o) e = false) :
    (Op.arith o).level ≤ e.level :=
  Nat.not_lt.mp (of_decide_eq_false h)

theorem level_lt_of_rhsParens {o : Arith} (h : rhsParens (.arith o) e = false) :
    (Op.arith o).level < e.level :=
  Nat.not_le.mp (of_decide_eq_false h)

theorem derives_op_tokens {o : Op} {lhs rhs : Expr} (hlhs : Derives lhs.phrase lhs.tokens lhs)
    (hrhs : Derives rhs.phrase rhs.tokens rhs) :
    Derives (op o lhs rhs).phrase (op o lhs rhs).tokens (op o lhs rhs) := by
  -- the two operands of each kind of operator, as the phrases its rule asks for
  have hadd : ∀ {o : Arith}, o.IsAddop → (Op.arith o).level = 2 →
      Derives .sum (op (.arith o) lhs rhs).tokens (op (.arith o) lhs rhs) := by
    intro o ho hlevel
    refine .add ho (sum_enclose hlhs fun h => ?_) (product_enclose hrhs fun h => ?_)
    · have hle := level_le_of_lhsParens h
      omega
    · have hlt := level_lt_of_rhsParens h
      omega
  have hmul : ∀ {o : Arith}, o.IsMulop → (Op.arith o).level = 3 →
      Derives .product (op (.arith o) lhs rhs).tokens (op (.arith o) lhs rhs) := by
    intro o ho hlevel
    refine .mul ho (product_enclose hlhs fun h => ?_) (call_enclose hrhs fun h => ?_)
    · have hle := level_le_of_lhsParens h
      omega
    · have hlt := level_lt_of_rhsParens h
      omega
  cases o with
  | cmp o =>
      exact .cmp o (sum_enclose hlhs two_le_level_of_lhsParens)
        (derives_enclose hrhs.toExpr (fun _ hus => hus.toExpr) (fun _ => hrhs.toExpr))
  | arith o =>
      cases o with
      | add => exact hadd (.inl rfl) rfl
      | sub => exact hadd (.inr rfl) rfl
      | mul => exact hmul (.inl rfl) rfl
      | div => exact hmul (.inr (.inl rfl)) rfl
      | mod => exact hmul (.inr (.inr rfl)) rfl

theorem derives_tokens (e : Expr) : Derives e.phrase e.tokens e := by
  induction e with
  | int n => exact .int n
  | bool b => exact .bool b
  | var name => exact .var name
  | op o lhs rhs ihlhs ihrhs => exact derives_op_tokens ihlhs ihrhs
  | ite cond thn els ihcond ihthn ihels => exact .ite ihcond.toExpr ihthn.toExpr ihels.toExpr
  | letIn binder bindee tail ihbindee ihtail =>
      exact .letIn binder ihbindee.toExpr ihtail.toExpr
  | letRec func param paramTy ret body tail ihbody ihtail =>
      exact .letRec func param paramTy.derives_tokens.1 ret.derives_tokens.1 ihbody.toExpr
        ihtail.toExpr
  | abs param paramTy body ihbody => exact .abs param paramTy.derives_tokens.1 ihbody.toExpr
  -- the printer brackets a function that is no call and an argument that is not simple
  | app func arg ihfunc iharg =>
      refine .app (call_enclose ihfunc fun h => ?_) (simple_enclose iharg fun h => ?_)
      · exact Nat.not_lt.mp (of_decide_eq_false h)
      · exact Nat.not_le.mp (of_decide_eq_false h)

end Expr

/-! ## Documents that spell tokens -/

namespace Doc

/-- However the document is rendered, it reads as the tokens in front of whatever cannot continue
the last one. -/
def Spells (doc : Doc) (ts : List Token) : Prop := ∀ s, doc.Renders s → Lexer.Spells s ts

/-- However the document is rendered, it reads as the tokens, whatever stands behind it. -/
def Leads (doc : Doc) (ts : List Token) : Prop := ∀ s, doc.Renders s → Lexer.Leads s ts

variable {doc next : Doc} {s : String} {ts us : List Token}

theorem spells_text (h : Lexer.Spells s ts) : (text s).Spells ts := forall_renders_text h

theorem leads_text (h : Lexer.Leads s ts) : (text s).Leads ts := forall_renders_text h

theorem Spells.group (h : doc.Spells ts) : (Doc.group doc).Spells ts :=
  fun s hs => h s (renders_group_iff.mp hs)

theorem Spells.nest (h : doc.Spells ts) (k : Int) : (Doc.nest k doc).Spells ts :=
  fun s hs => h s (renders_nest_iff.mp hs)

theorem Leads.append (h : doc.Leads ts) (hnext : next.Spells us) :
    (doc ++ next).Spells (ts ++ us) :=
  forall_renders_append h hnext fun _ _ hs hs' => hs.append_spells hs'

theorem Leads.append_keyword (h : doc.Leads ts) (k : Keyword) :
    (doc ++ text (k.text ++ " ")).Leads (ts ++ [.keyword k]) :=
  forall_renders_append h (leads_text (Lexer.leads_keyword k)) fun _ _ hs hs' => hs.append hs'

theorem isGap_of_renders_line (h : Renders .line s) : IsGap s := by
  rcases renders_line_iff.mp h with rfl | ⟨indent, rfl⟩
  · exact Lexer.isGap_space
  · have hchars : ("\n" ++ String.ofList (List.replicate indent ' ')).toList =
        '\n' :: List.replicate indent ' ' := by simp
    rw [IsGap, hchars]
    constructor
    · exact List.cons_ne_nil _ _
    · intro c hc
      rcases List.mem_cons.mp hc with rfl | hspace
      · rfl
      · rw [List.eq_of_mem_replicate hspace]
        rfl

theorem Spells.append_line (h : doc.Spells ts) : (doc ++ line).Leads ts :=
  forall_renders_append h (fun _ => isGap_of_renders_line) fun _ _ hs hgap => hs.append_gap hgap

theorem Spells.append_space (h : doc.Spells ts) : (doc ++ text " ").Leads ts :=
  forall_renders_append h (forall_renders_text Lexer.isGap_space) fun _ _ hs hgap =>
    hs.append_gap hgap

/-- A break and a document behind it, indented together. -/
theorem Spells.append_nested (h : doc.Spells ts) (hnext : next.Spells us) (k : Int) :
    (doc ++ Doc.nest k (line ++ next)).Spells (ts ++ us) := by
  intro t ht
  obtain ⟨s, hs, s', hs', rfl⟩ := renders_append_iff.mp ht
  obtain ⟨gap, hgap, s'', hs'', rfl⟩ := renders_append_iff.mp (renders_nest_iff.mp hs')
  rw [← String.append_assoc]
  exact ((h s hs).append_gap (isGap_of_renders_line hgap)).append_spells (hnext s'' hs'')

theorem Spells.append_spaced (h : doc.Spells ts) (hnext : Lexer.Spells s us) :
    (doc ++ text (" " ++ s)).Spells (ts ++ us) := by
  refine forall_renders_append h (fun _ => renders_text_iff.mp) fun s' t hs' ht => ?_
  rw [ht]
  exact hs'.append_spaced hnext

theorem Spells.bracket (h : doc.Spells ts) (parens : Bool) :
    (Expr.bracket parens doc).Spells (enclose parens ts) := by
  cases parens with
  | false => exact h
  | true =>
      have hopen := (leads_text Lexer.leads_parenOpen).append h
      refine forall_renders_append hopen (fun _ => renders_text_iff.mp) fun s t hs ht => ?_
      rw [ht]
      exact hs.append_parenClose

end Doc

/-! ## Printed texts consist of these tokens -/

theorem Op.writable_token (o : Op) : o.token.Writable := by
  rcases o with o | o <;> cases o <;> trivial

theorem Op.text_token (o : Op) : o.token.text = o.text := by
  rcases o with o | o <;> cases o <;> rfl

theorem spells_keyword (k : Keyword) : Lexer.Spells k.text [.keyword k] :=
  Lexer.spells_token (t := .keyword k) trivial

theorem spells_symbol (s : Symbol) : Lexer.Spells s.text [.symbol s] :=
  Lexer.spells_token (t := .symbol s) trivial

theorem spells_name {name : String} (h : IsName name) : Lexer.Spells name [.ident name] :=
  Lexer.spells_token (t := .ident name) h

theorem Ty.spells_text (ty : Ty) : Lexer.Spells ty.text ty.tokens := by
  induction ty with
  | int => exact spells_keyword .intKw
  | bool => exact spells_keyword .boolKw
  | any => exact spells_keyword .anyKw
  | arrow dom cod ihdom ihcod =>
      have hdom : Lexer.Spells (if dom.isArrow then "(" ++ dom.text ++ ")" else dom.text)
          (enclose dom.isArrow dom.tokens) := by
        cases dom.isArrow with
        | true => exact (Lexer.leads_parenOpen.append_spells ihdom).append_parenClose
        | false => exact ihdom
      have harrow := (hdom.append_spaced (spells_symbol .arrow)).append_gap Lexer.isGap_space
      -- the arrow stands between two spaces in one piece of text
      rw [tokens, List.append_cons]
      rw [String.append_assoc, show " " ++ Symbol.text .arrow ++ " " = " -> " by decide] at harrow
      exact harrow.append_spells ihcod

namespace Expr

/-- Every literal and every name of the tree is one that texts denote. -/
def Printable : Expr → Prop
  | int n => 0 ≤ n.toInt
  | bool _ => True
  | var name => IsName name
  | op _ lhs rhs => lhs.Printable ∧ rhs.Printable
  | ite cond thn els => cond.Printable ∧ thn.Printable ∧ els.Printable
  | letIn binder bindee tail => IsName binder ∧ bindee.Printable ∧ tail.Printable
  | letRec func param _ _ body tail =>
    IsName func ∧ IsName param ∧ body.Printable ∧ tail.Printable
  | abs param _ body => IsName param ∧ body.Printable
  | app func arg => func.Printable ∧ arg.Printable

instance decidablePrintable : (e : Expr) → Decidable e.Printable
  | int n => inferInstanceAs (Decidable (0 ≤ n.toInt))
  | bool _ => inferInstanceAs (Decidable True)
  | var name => inferInstanceAs (Decidable (IsName name))
  | op _ lhs rhs =>
    have := decidablePrintable lhs
    have := decidablePrintable rhs
    inferInstanceAs (Decidable (lhs.Printable ∧ rhs.Printable))
  | ite cond thn els =>
    have := decidablePrintable cond
    have := decidablePrintable thn
    have := decidablePrintable els
    inferInstanceAs (Decidable (cond.Printable ∧ thn.Printable ∧ els.Printable))
  | letIn binder bindee tail =>
    have := decidablePrintable bindee
    have := decidablePrintable tail
    inferInstanceAs (Decidable (IsName binder ∧ bindee.Printable ∧ tail.Printable))
  | letRec func param _ _ body tail =>
    have := decidablePrintable body
    have := decidablePrintable tail
    inferInstanceAs (Decidable (IsName func ∧ IsName param ∧ body.Printable ∧ tail.Printable))
  | abs param _ body =>
    have := decidablePrintable body
    inferInstanceAs (Decidable (IsName param ∧ body.Printable))
  | app func arg =>
    have := decidablePrintable func
    have := decidablePrintable arg
    inferInstanceAs (Decidable (func.Printable ∧ arg.Printable))

theorem spells_paramText {param : String} (h : IsName param) (paramTy : Ty) :
    Lexer.Spells (paramText param paramTy)
      (.symbol .parenOpen :: .ident param :: .symbol .colon ::
        (paramTy.tokens ++ [.symbol .parenClose])) :=
  ((Lexer.leads_parenOpen.append_spells (spells_name h)).append_colon.append_spells
    paramTy.spells_text).append_parenClose

theorem spells_recHead {func param : String} (hfunc : IsName func) (hparam : IsName param)
    (paramTy ret : Ty) :
    Lexer.Spells (func ++ " " ++ paramText param paramTy ++ ": " ++ ret.text ++ " =")
      (.ident func :: .symbol .parenOpen :: .ident param :: .symbol .colon ::
        (paramTy.tokens ++ .symbol .parenClose :: .symbol .colon ::
          (ret.tokens ++ [.symbol .equals]))) := by
  have hhead := ((spells_name hfunc).append_gap Lexer.isGap_space).append_spells
    (spells_paramText hparam paramTy)
  have hret := hhead.append_colon.append_spells ret.spells_text
  simpa [Symbol.text] using hret.append_spaced (spells_symbol .equals)

theorem spells_toDoc {e : Expr} (h : e.Printable) (indent : Int) :
    (e.toDoc indent).Spells e.tokens := by
  induction e with
  | int n => exact Doc.spells_text (Lexer.spells_token (t := .int n) h)
  | bool b =>
      have hbool := Lexer.spells_token (t := .bool b) trivial
      cases b <;> exact Doc.spells_text hbool
  | var name => exact Doc.spells_text (spells_name h)
  | op o lhs rhs ihlhs ihrhs =>
      have hop : Lexer.Spells o.text [o.token] := by
        rw [← o.text_token]
        exact Lexer.spells_token o.writable_token
      have hhead := (((ihlhs h.1).bracket (lhsParens o lhs)).append_line.append
        (Doc.spells_text hop)).append_space
      have hall := (hhead.append ((ihrhs h.2).bracket (rhsParens o rhs))).group
      rw [tokens, List.append_cons]
      exact hall
  | app func arg ihfunc iharg =>
      have hall := ((ihfunc h.1).bracket (func.level < 4)).append_line.append
        ((iharg h.2).bracket (arg.level ≤ 4))
      exact (hall.nest indent).group
  | ite cond thn els ihcond ihthn ihels =>
      have hcond := (Doc.leads_text (Lexer.leads_keyword .ifKw)).append (ihcond h.1)
      have hthn := (hcond.append_line.append_keyword .thenKw).append (ihthn h.2.1)
      have hels := (hthn.append_line.append_keyword .elseKw).append (ihels h.2.2)
      simpa [tokens, toDoc, Keyword.text, Symbol.text] using hels.group
  | letIn binder bindee tail ihbindee ihtail =>
      have hlet := (Doc.leads_text (Lexer.leads_keyword .letKw)).append
        (Doc.spells_text (spells_name h.1))
      have hequals := hlet.append_spaced (spells_symbol .equals)
      have hbindee := hequals.append_nested (ihbindee h.2.1) indent
      have hin := (hbindee.append_line.append (Doc.spells_text (spells_keyword .inKw))).group
      have htail := hin.append_line.append (ihtail h.2.2)
      simpa [tokens, toDoc, Keyword.text, Symbol.text] using htail.group
  | letRec func param paramTy ret body tail ihbody ihtail =>
      have hrec := (Lexer.leads_keyword .letKw).append (Lexer.leads_keyword .recKw)
      have hhead := (Doc.leads_text hrec).append
        (Doc.spells_text (spells_recHead h.1 h.2.1 paramTy ret))
      have hbody := hhead.append_nested (ihbody h.2.2.1) indent
      have hin := (hbody.append_line.append (Doc.spells_text (spells_keyword .inKw))).group
      have htail := hin.append_line.append (ihtail h.2.2.2)
      simpa [tokens, toDoc, Keyword.text, Symbol.text] using htail.group
  | abs param paramTy body ihbody =>
      have hparam := (spells_paramText h.1 paramTy).append_spaced (spells_symbol .arrow)
      have hhead := (Doc.leads_text (Lexer.leads_keyword .funKw)).append (Doc.spells_text hparam)
      have hbody := hhead.append_nested (ihbody h.2) indent
      simpa [tokens, toDoc, Keyword.text, Symbol.text] using hbody.group

/-- What the grammar builds from tokens that texts denote holds nothing else. -/
theorem printable_of_derives {target : Phrase} {ts : List Token} {e : Expr}
    (h : Derives target ts e) (hts : ∀ t ∈ ts, t.Writable) : e.Printable := by
  induction h with
  | int n => exact hts (.int n) List.mem_cons_self
  | bool b => trivial
  | var name => exact hts (.ident name) List.mem_cons_self
  | parens _ ih =>
      simp only [List.forall_mem_cons, List.forall_mem_append] at hts
      exact ih hts.2.1
  | ite _ _ _ ihcond ihthn ihels =>
      simp only [List.forall_mem_cons, List.forall_mem_append] at hts
      obtain ⟨_, hcond, _, hthn, _, hels⟩ := hts
      exact ⟨ihcond hcond, ihthn hthn, ihels hels⟩
  | letIn binder _ _ ihbindee ihtail =>
      simp only [List.forall_mem_cons, List.forall_mem_append] at hts
      obtain ⟨_, hbinder, _, hbindee, _, htail⟩ := hts
      exact ⟨hbinder, ihbindee hbindee, ihtail htail⟩
  | letRec func param _ _ _ _ ihbody ihtail =>
      simp only [List.forall_mem_cons, List.forall_mem_append] at hts
      obtain ⟨_, _, hfunc, _, hparam, _, _, _, _, _, _, hbody, _, htail⟩ := hts
      exact ⟨hfunc, hparam, ihbody hbody, ihtail htail⟩
  | abs param _ _ ihbody =>
      simp only [List.forall_mem_cons, List.forall_mem_append] at hts
      obtain ⟨_, _, hparam, _, _, _, _, hbody⟩ := hts
      exact ⟨hparam, ihbody hbody⟩
  | app _ _ ihfunc iharg =>
      rw [List.forall_mem_append] at hts
      exact ⟨ihfunc hts.1, iharg hts.2⟩
  | mul _ _ _ ihlhs ihrhs | mulForm _ _ _ ihlhs ihrhs | add _ _ _ ihlhs ihrhs
  | addProductForm _ _ _ ihlhs ihrhs | addForm _ _ _ ihlhs ihrhs | cmp _ _ _ ihlhs ihrhs =>
      simp only [List.forall_mem_cons, List.forall_mem_append] at hts
      exact ⟨ihlhs hts.1, ihrhs hts.2.2⟩
  | callSimple _ ih | productCall _ ih | sumProduct _ ih | sumFormProductForm _ ih | exprSum _ ih
  | exprSumForm _ ih | exprForm _ ih => exact ih hts

end Expr

/-! ## Reading what was printed -/

namespace Program

theorem parse_eq_ok_iff {source : String} {e : Expr} :
    parse source = .ok e ↔
      ∃ lexemes, Lexer.lex source = .ok lexemes ∧ Expr.ofLexemes lexemes = .ok e := by
  unfold parse
  cases Lexer.lex source with
  | error cause => simp
  | ok lexemes =>
      cases htree : Expr.ofLexemes lexemes with
      | error cause => simp [htree]
      | ok e' => simp [htree]

theorem printable_of_parse {source : String} {e : Expr} (h : parse source = .ok e) :
    e.Printable := by
  obtain ⟨lexemes, hlex, htree⟩ := parse_eq_ok_iff.mp h
  exact Expr.printable_of_derives (Expr.derives_of_ofLexemes htree) (Lexer.writable_of_lex hlex)

theorem parse_of_renders {source : String} {e : Expr} {indent : Int} (h : e.Printable)
    (hsource : (e.toDoc indent).Renders source) : parse source = .ok e := by
  have hspelled : Lexer.Spelled source.toList e.tokens :=
    (Expr.spells_toDoc h indent source hsource).spelled
  obtain ⟨lexemes, hlex, htokens⟩ := Lexer.lex_spelled hspelled
  have hderives : Derives .expr (lexemes.map Lexeme.token) e := by
    rw [htokens]
    exact e.derives_tokens.toExpr
  exact parse_eq_ok_iff.mpr ⟨lexemes, hlex, Expr.ofLexemes_of_derives hderives⟩

/-- A tree reads back from its printed text, in every width and with every step of indentation,
exactly if its literals and names are such as texts denote.  It does so however the lines of the
printed document are broken and indented, and every tree that was read before reads back. -/
theorem parse_format_eq_ok_iff (e : Expr) (indent : Int) :
    (∀ source, (e.toDoc indent).Renders source → (parse source = .ok e ↔ e.Printable)) ∧
      (∀ width, parse (e.format width indent) = .ok e ↔ e.Printable) ∧
      ∀ source, parse source = .ok e → ∀ width, parse (e.format width indent) = .ok e := by
  have hall : ∀ source, (e.toDoc indent).Renders source → (parse source = .ok e ↔ e.Printable) :=
    fun source hsource => ⟨printable_of_parse, fun h => parse_of_renders h hsource⟩
  have hformat : ∀ width, parse (e.format width indent) = .ok e ↔ e.Printable :=
    fun width => hall _ (Doc.renders_render width (e.toDoc indent))
  refine ⟨hall, hformat, ?_⟩
  intro source hsource width
  exact (hformat width).mpr (printable_of_parse hsource)

/-- Operands that need their parentheses: a comparison on the left of a comparison, a difference on
the right of a difference, a function that is called and an argument that is a call. -/
def bracketedOperands : Expr :=
  .op (.cmp .lt)
    (.op (.cmp .le) (.int 1) (.op (.arith .sub) (.int 2) (.op (.arith .sub) (.int 3) (.int 4))))
    (.app
      (.abs "x'" (.arrow (.arrow .int .any) .bool) (.app (.var "x'") (.app (.var "f") (.var "_"))))
      (.letRec "f" "x" .int .int (.ite (.bool true) (.var "x") (.int 9223372036854775807))
        (.var "f")))

/-- Every break is taken in a width of 1, and a negative step of indentation stops at the margin. -/
theorem parse_format_bracketedOperands :
    (bracketedOperands.toDoc (-1)).Renders (bracketedOperands.format 1 (-1)) ∧
      bracketedOperands.Printable ∧
      parse (bracketedOperands.format 1 (-1)) = .ok bracketedOperands := by
  have hrenders := Doc.renders_render 1 (bracketedOperands.toDoc (-1))
  have hprintable : bracketedOperands.Printable := by decide
  exact ⟨hrenders, hprintable,
    ((parse_format_eq_ok_iff bracketedOperands (-1)).1 _ hrenders).mpr hprintable⟩

end Program
end LambdaAny
