import LambdaAny.Proofs.Grammar
import LambdaAny.Proofs.Reading

/-!
# What is read is spelled by the grammar

The loop that extends an operand by infix positions is the place where binding powers meet the
layers of the grammar.  Its invariant speaks of two numbers for each phrase: `power`, the strongest
climb that can end in the phrase, and `limit`, the bound on the infix positions that can stand
behind it once it has been read.  A chain that ended before a weak position cannot be continued by a
strong one, and behind a keyword form there is no infix position at all.
-/

namespace LambdaAny

open Grammar

/-! ## Phrases and powers -/

namespace Grammar.Phrase

/-- The strongest climb that can end in the phrase. -/
def power : Phrase → Nat
  | simple | form => 7
  | call => 6
  | product | productForm => 4
  | sum | sumForm => 2
  | expr => 1

/-- The infix positions behind the phrase, once it is read, hold their left operand with less. -/
def limit : Phrase → Nat
  | simple | call => 7
  | product => 5
  | sum => 3
  | form | productForm | sumForm | expr => 1

end Grammar.Phrase

namespace Grammar.Derives

variable {phrase : Phrase} {ts : List Token} {e : Expr}

theorem toExpr (h : Derives phrase ts e) : Derives .expr ts e := by
  cases phrase with
  | simple => exact .exprSum (.sumProduct (.productCall (.callSimple h)))
  | form => exact .exprForm h
  | call => exact .exprSum (.sumProduct (.productCall h))
  | product => exact .exprSum (.sumProduct h)
  | productForm => exact .exprSumForm (.sumFormProductForm h)
  | sum => exact .exprSum h
  | sumForm => exact .exprSumForm h
  | expr => exact h

theorem call_of_limit (h : Derives phrase ts e) (hlimit : 6 < phrase.limit) :
    Derives .call ts e := by
  cases phrase with
  | simple => exact .callSimple h
  | call => exact h
  | product | sum | form | productForm | sumForm | expr => simp [Phrase.limit] at hlimit

theorem product_of_limit (h : Derives phrase ts e) (hlimit : 4 < phrase.limit) :
    Derives .product ts e := by
  cases phrase with
  | simple => exact .productCall (.callSimple h)
  | call => exact .productCall h
  | product => exact h
  | sum | form | productForm | sumForm | expr => simp [Phrase.limit] at hlimit

theorem sum_of_limit (h : Derives phrase ts e) (hlimit : 1 < phrase.limit) :
    Derives .sum ts e := by
  cases phrase with
  | simple => exact .sumProduct (.productCall (.callSimple h))
  | call => exact .sumProduct (.productCall h)
  | product => exact .sumProduct h
  | sum => exact h
  | form | productForm | sumForm | expr => simp [Phrase.limit] at hlimit

theorem form_head (h : Derives .form ts e) : ∃ k rest, ts = .keyword k :: rest := by
  cases h with
  | ite _ _ _ => exact ⟨_, _, rfl⟩
  | letIn _ _ _ => exact ⟨_, _, rfl⟩
  | letRec _ _ _ _ _ _ => exact ⟨_, _, rfl⟩
  | abs _ _ _ => exact ⟨_, _, rfl⟩

end Grammar.Derives

namespace Parser

theorem Joint.ofToken?_eq_op_iff {token : Token} {o : Op} :
    Joint.ofToken? token = some (.op o) ↔ token = o.token := by
  constructor
  · intro h
    unfold Joint.ofToken? at h
    split at h <;> cases h <;> rfl
  · rintro rfl
    cases o with
    | arith a => cases a <;> rfl
    | cmp c => cases c <;> rfl

theorem Joint.right_le_seven (joint : Joint) : joint.right ≤ 7 := by
  cases joint with
  | op o =>
      cases o with
      | arith a => cases a <;> decide
      | cmp c => exact (by decide : 1 ≤ 7)
  | apply => exact Nat.le_refl 7

theorem Joint.ofToken?_keyword_ne_apply (k : Keyword) :
    Joint.ofToken? (.keyword k) ≠ some .apply := by
  cases k <;> decide

/-! ## Types -/

section

variable {eof : Nat}

theorem ty_sound_of_length (n : Nat) : ∀ ts : List Lexeme, ts.length = n →
    (∀ whole rest, Reads (tyAtom eof ts) whole rest →
      ∃ used, ts = used ++ rest ∧ DerivesTy .atom (used.map Lexeme.token) whole) ∧
    (∀ whole rest, Reads (ty eof ts) whole rest →
      ∃ used, ts = used ++ rest ∧ DerivesTy .ty (used.map Lexeme.token) whole) := by
  induction n using Nat.strongRecOn with
  | ind n ih =>
      rintro ts rfl
      have hatom : ∀ whole rest, Reads (tyAtom eof ts) whole rest →
          ∃ used, ts = used ++ rest ∧ DerivesTy .atom (used.map Lexeme.token) whole := by
        intro whole rest h
        cases reads_tyAtom_iff.mp h with
        | int lexeme htoken => exact ⟨[lexeme], rfl, by simpa [htoken] using DerivesTy.int⟩
        | bool lexeme htoken => exact ⟨[lexeme], rfl, by simpa [htoken] using DerivesTy.bool⟩
        | any lexeme htoken => exact ⟨[lexeme], rfl, by simpa [htoken] using DerivesTy.any⟩
        | parens first last hopen hinner hclose =>
            obtain ⟨used, rfl, hderives⟩ := (ih _ (Nat.lt_succ_self _) _ rfl).2 _ _ hinner
            refine ⟨first :: (used ++ [last]), by simp, ?_⟩
            simpa [hopen, hclose] using DerivesTy.parens hderives
      refine ⟨hatom, ?_⟩
      intro whole rest h
      obtain ⟨dom, mid, hdom, harrow | ⟨_, rfl, rfl⟩⟩ := reads_ty_iff.mp h
      · obtain ⟨lexeme, tail, cod, rfl, htoken, hcod, rfl⟩ := harrow
        obtain ⟨used, rfl, hused⟩ := hatom _ _ hdom
        obtain ⟨used', rfl, hused'⟩ :=
          (ih tail.length (by simp only [List.length_append, List.length_cons]; omega) tail rfl).2
            _ _ hcod
        refine ⟨used ++ lexeme :: used', by simp, ?_⟩
        simpa [htoken] using DerivesTy.arrow hused hused'
      · obtain ⟨used, hts, hused⟩ := hatom _ _ hdom
        exact ⟨used, hts, .ofAtom hused⟩

theorem ty_sound {ts rest : List Lexeme} {whole : Ty} (h : Reads (ty eof ts) whole rest) :
    ∃ used, ts = used ++ rest ∧ DerivesTy .ty (used.map Lexeme.token) whole :=
  (ty_sound_of_length ts.length ts rfl).2 whole rest h

theorem param_sound {ts rest : List Lexeme} {name : String} {paramTy : Ty}
    (h : Reads (param eof ts) (name, paramTy) rest) :
    ∃ used ps, ts = used ++ rest ∧ DerivesTy .ty ps paramTy ∧
      used.map Lexeme.token =
        .symbol .parenOpen :: .ident name :: .symbol .colon :: (ps ++ [.symbol .parenClose]) := by
  obtain ⟨first, second, third, tail, last, hfirst, hsecond, hthird, rfl, hty, hlast⟩ :=
    reads_param_iff.mp h
  obtain ⟨used, rfl, hused⟩ := ty_sound hty
  refine ⟨first :: second :: third :: (used ++ [last]), used.map Lexeme.token, by simp, hused, ?_⟩
  simp [hfirst, hsecond, hthird, hlast]

/-! ## The loop's invariant -/

/-- What was read so far spells the operand as this phrase, and what is left can stand behind it. -/
structure Held (phrase : Phrase) (spelled : List Token) (operand : Expr) (rest : List Lexeme) :
    Prop where
  derives : Derives phrase spelled operand
  stops : Stops phrase.limit rest

variable {phrase : Phrase} {spelled : List Token} {lhs : Expr} {lexeme : Lexeme}
  {ts : List Lexeme}

theorem Held.left_lt_limit (h : Held phrase spelled lhs (lexeme :: ts)) {joint : Joint}
    (hjoint : Joint.ofToken? lexeme.token = some joint) : joint.left < phrase.limit :=
  h.stops joint hjoint

theorem Held.call_or_form {rest : List Lexeme} (h : Held phrase spelled lhs rest)
    (hpower : 5 ≤ phrase.power) :
    Derives .call spelled lhs ∨ Held .form spelled lhs rest := by
  cases phrase with
  | simple => exact .inl (.callSimple h.derives)
  | form => exact .inr h
  | call => exact .inl h.derives
  | product | productForm | sum | sumForm | expr => simp [Phrase.power] at hpower

theorem Held.product_or_form {rest : List Lexeme} (h : Held phrase spelled lhs rest)
    (hpower : 3 ≤ phrase.power) :
    Derives .product spelled lhs ∨ Held .productForm spelled lhs rest ∨
      Held .form spelled lhs rest := by
  cases phrase with
  | simple => exact .inl (.productCall (.callSimple h.derives))
  | form => exact .inr (.inr h)
  | call => exact .inl (.productCall h.derives)
  | product => exact .inl h.derives
  | productForm => exact .inr (.inl h)
  | sum | sumForm | expr => simp [Phrase.power] at hpower

/-- An operator joins two operands into a phrase that a climb with the operator's own power can
end in. -/
theorem Held.join_op (hlhs : Held phrase spelled lhs (lexeme :: ts)) {o : Op}
    (hjoint : Joint.ofToken? lexeme.token = some (.op o)) {phrase' : Phrase}
    {spelled' : List Token} {rhs : Expr} {rest : List Lexeme}
    (hrhs : Held phrase' spelled' rhs rest) (hpower : (Joint.op o).right ≤ phrase'.power)
    (hstops : Stops (Joint.op o).right rest) :
    ∃ joined : Phrase, Held joined (spelled ++ lexeme.token :: spelled') (.op o lhs rhs) rest ∧
      (Joint.op o).left ≤ joined.power := by
  have htoken : lexeme.token = o.token := Joint.ofToken?_eq_op_iff.mp hjoint
  have hlimit := hlhs.left_lt_limit hjoint
  rw [htoken]
  cases o with
  | cmp c =>
      have hl : Derives .sum spelled lhs := hlhs.derives.sum_of_limit hlimit
      exact ⟨.expr, ⟨.cmp c hl hrhs.derives.toExpr, hstops⟩, Nat.le_refl 1⟩
  | arith a =>
      rcases a.isAddop_or_isMulop with hadd | hmul
      · have hleft : (Joint.op (.arith a)).left = 2 := by rcases hadd with rfl | rfl <;> rfl
        have hright : (Joint.op (.arith a)).right = 3 := by rcases hadd with rfl | rfl <;> rfl
        rw [hleft] at hlimit ⊢
        rw [hright] at hpower hstops
        have hl : Derives .sum spelled lhs := hlhs.derives.sum_of_limit (by omega)
        -- a right operand that ends in a keyword form makes a chain that nothing continues
        rcases hrhs.product_or_form hpower with hproduct | hopen | hform
        · exact ⟨.sum, ⟨.add hadd hl hproduct, hstops⟩, Nat.le_refl 2⟩
        · exact ⟨.sumForm, ⟨.addProductForm hadd hl hopen.derives, hopen.stops⟩, Nat.le_refl 2⟩
        · exact ⟨.sumForm, ⟨.addForm hadd hl hform.derives, hform.stops⟩, Nat.le_refl 2⟩
      · have hleft : (Joint.op (.arith a)).left = 4 := by rcases hmul with rfl | rfl | rfl <;> rfl
        have hright : (Joint.op (.arith a)).right = 5 := by
          rcases hmul with rfl | rfl | rfl <;> rfl
        rw [hleft] at hlimit ⊢
        rw [hright] at hpower hstops
        have hl : Derives .product spelled lhs := hlhs.derives.product_of_limit hlimit
        rcases hrhs.call_or_form hpower with hcall | hform
        · exact ⟨.product, ⟨.mul hmul hl hcall, hstops⟩, Nat.le_refl 4⟩
        · exact ⟨.productForm, ⟨.mulForm hmul hl hform.derives, hform.stops⟩, Nat.le_refl 4⟩

/-- An application joins a call and a simple operand.  A keyword form is no operand here: the
lexeme that makes the position an application starts the argument, and it is no keyword. -/
theorem Held.join_apply (hlhs : Held phrase spelled lhs (lexeme :: ts))
    (hjoint : Joint.ofToken? lexeme.token = some .apply) {phrase' : Phrase}
    {used : List Lexeme} {arg : Expr} {rest : List Lexeme} (hused : lexeme :: ts = used ++ rest)
    (harg : Held phrase' (used.map Lexeme.token) arg rest)
    (hpower : Joint.apply.right ≤ phrase'.power) :
    Held .call (spelled ++ used.map Lexeme.token) (.app lhs arg) rest := by
  have hlimit := hlhs.left_lt_limit hjoint
  have hl : Derives .call spelled lhs := hlhs.derives.call_of_limit hlimit
  cases phrase' with
  | simple => exact ⟨.app hl harg.derives, stops_seven rest⟩
  | form =>
      -- then the lexeme at the position would be the form's keyword
      obtain ⟨k, more, hhead⟩ := harg.derives.form_head
      cases used with
      | nil => simp at hhead
      | cons first used =>
          obtain ⟨rfl, _⟩ := List.cons.inj hused
          have hkeyword : lexeme.token = .keyword k := (List.cons.inj hhead).1
          rw [hkeyword] at hjoint
          exact absurd hjoint (Joint.ofToken?_keyword_ne_apply k)
  | call | product | productForm | sum | sumForm | expr =>
      simp [Phrase.power, Joint.right] at hpower

/-! ## Expressions -/

/-- What a climb with some power has read: a phrase that such a climb can end in. -/
def ReadsPhrase (power : Nat) (ts : List Lexeme) (e : Expr) (rest : List Lexeme) : Prop :=
  ∃ phrase used, ts = used ++ rest ∧ Held phrase (used.map Lexeme.token) e rest ∧
    power ≤ phrase.power ∧ Stops power rest

def AtomSound (eof : Nat) (ts : List Lexeme) : Prop :=
  ∀ e rest, Reads (atom eof ts) e rest →
    ∃ phrase used, ts = used ++ rest ∧ Held phrase (used.map Lexeme.token) e rest ∧
      7 ≤ phrase.power

def ClimbSound (eof : Nat) (ts : List Lexeme) : Prop :=
  ∀ power e rest, power ≤ 7 → Climbs eof power ts e rest → ReadsPhrase power ts e rest

def ExtendSound (eof : Nat) (ts : List Lexeme) : Prop :=
  ∀ phrase spelled lhs power e rest, Held phrase spelled lhs ts → power ≤ phrase.power →
    Reads (extend eof lhs power ts) e rest →
      ∃ phrase' used, ts = used ++ rest ∧ Held phrase' (spelled ++ used.map Lexeme.token) e rest ∧
        power ≤ phrase'.power ∧ Stops power rest

theorem ClimbSound.expr (h : ClimbSound eof ts) {e : Expr} {rest : List Lexeme}
    (hreads : Climbs eof 0 ts e rest) :
    ∃ used, ts = used ++ rest ∧ Derives .expr (used.map Lexeme.token) e ∧ Stops 1 rest := by
  obtain ⟨phrase, used, hts, hheld, _, hstops⟩ := h 0 e rest (Nat.zero_le 7) hreads
  exact ⟨used, hts, hheld.derives.toExpr, hstops.mono (Nat.zero_le 1)⟩

theorem climbSound_of_parts (hatom : AtomSound eof ts)
    (hextend : ∀ mid : List Lexeme, mid.length < ts.length → ExtendSound eof mid) :
    ClimbSound eof ts := by
  rintro power e rest hpower ⟨first, mid, hfirst, hwhole⟩
  have hshorter : mid.length < ts.length := hfirst.shorter
  obtain ⟨phrase, used, rfl, hheld, hseven⟩ := hatom first mid hfirst
  obtain ⟨phrase', used', rfl, hheld', hpower', hstops⟩ :=
    hextend mid hshorter phrase _ first power e rest hheld (Nat.le_trans hpower hseven) hwhole
  refine ⟨phrase', used ++ used', by simp, ?_, hpower', hstops⟩
  simpa using hheld'

theorem extendSound_of_parts
    (hclimb : ∀ us : List Lexeme, us.length ≤ ts.length → ClimbSound eof us)
    (hextend : ∀ mid : List Lexeme, mid.length < ts.length → ExtendSound eof mid) :
    ExtendSound eof ts := by
  intro phrase spelled lhs power e rest hheld hpower h
  cases reads_extend_iff.mp h with
  | stop hstops => exact ⟨phrase, [], rfl, by simpa using hheld, hpower, hstops⟩
  | op lexeme o hjoint hleft hrhs hwhole =>
      -- read the right operand, join the two, and go on with what they are joined to
      obtain ⟨phrase', used, rfl, hheld', hpower', hstops⟩ :=
        hclimb _ (Nat.le_succ _) _ _ _ (Joint.right_le_seven _) hrhs
      obtain ⟨joined, hjoined, hjoinedPower⟩ := hheld.join_op hjoint hheld' hpower' hstops
      obtain ⟨phrase'', used', rfl, hheld'', hpower'', hstops'⟩ :=
        hextend _ (Nat.lt_succ_of_lt hrhs.shorter) joined _ _ power e rest hjoined
          (Nat.le_trans hleft hjoinedPower) hwhole
      refine ⟨phrase'', lexeme :: (used ++ used'), by simp, ?_, hpower'', hstops'⟩
      simpa using hheld''
  | apply lexeme hjoint hleft harg hwhole =>
      obtain ⟨phrase', used, hused, hheld', hpower', _⟩ :=
        hclimb _ (Nat.le_refl _) _ _ _ (Joint.right_le_seven _) harg
      have hjoined := hheld.join_apply hjoint hused hheld' hpower'
      obtain ⟨phrase'', used', rfl, hheld'', hpower'', hstops'⟩ :=
        hextend _ harg.shorter .call _ _ power e rest hjoined hleft hwhole
      refine ⟨phrase'', used ++ used', by simp [hused], ?_, hpower'', hstops'⟩
      simpa using hheld''

theorem atomSound_of_parts
    (hclimb : ∀ us : List Lexeme, us.length < ts.length → ClimbSound eof us) :
    AtomSound eof ts := by
  intro e rest h
  cases reads_atom_iff.mp h with
  | int lexeme htoken =>
      refine ⟨.simple, [lexeme], rfl, ⟨?_, stops_seven rest⟩, Nat.le_refl 7⟩
      simpa [htoken] using Derives.int _
  | bool lexeme htoken =>
      refine ⟨.simple, [lexeme], rfl, ⟨?_, stops_seven rest⟩, Nat.le_refl 7⟩
      simpa [htoken] using Derives.bool _
  | var lexeme htoken =>
      refine ⟨.simple, [lexeme], rfl, ⟨?_, stops_seven rest⟩, Nat.le_refl 7⟩
      simpa [htoken] using Derives.var _
  | parens first last hopen hinner hclose =>
      obtain ⟨used, rfl, hused, _⟩ := (hclimb _ (Nat.lt_succ_self _)).expr hinner
      refine ⟨.simple, first :: (used ++ [last]), by simp, ⟨?_, stops_seven rest⟩, Nat.le_refl 7⟩
      simpa [hopen, hclose] using Derives.parens hused
  -- a keyword form stops where its last expression does
  | ite first second third hif hcond hthen hthn helse hels =>
      have hlt := hcond.shorter
      have hlt' := hthn.shorter
      simp only [List.length_cons] at hclimb hlt hlt'
      obtain ⟨cs, rfl, hcs, _⟩ := (hclimb _ (by omega)).expr hcond
      obtain ⟨us, rfl, hus, _⟩ := (hclimb _ (by omega)).expr hthn
      obtain ⟨es, rfl, hes, hstops⟩ := (hclimb _ (by omega)).expr hels
      refine ⟨.form, first :: (cs ++ second :: (us ++ third :: es)), by simp, ⟨?_, hstops⟩,
        Nat.le_refl 7⟩
      simpa [hif, hthen, helse] using Derives.ite hcs hus hes
  | letIn first second hlet hhead hbindee hin htail =>
      obtain ⟨name, equals, hname, hequals, rfl⟩ := reads_letHead_iff.mp hhead
      have hlt := hbindee.shorter
      simp only [List.length_cons] at hclimb hlt
      obtain ⟨bs, rfl, hbs, _⟩ := (hclimb _ (by omega)).expr hbindee
      obtain ⟨us, rfl, hus, hstops⟩ := (hclimb _ (by omega)).expr htail
      refine ⟨.form, first :: name :: equals :: (bs ++ second :: us), by simp, ⟨?_, hstops⟩,
        Nat.le_refl 7⟩
      simpa [hlet, hname, hequals, hin] using Derives.letIn _ hbs hus
  | letRec first second third hlet hrec hhead hbody hin htail =>
      obtain ⟨func, tail, colon, mid, equals, hfunc, rfl, hparam, hcolon, hret, hequals⟩ :=
        reads_recHead_iff.mp hhead
      obtain ⟨ps, pts, rfl, hpts, hps⟩ := param_sound hparam
      obtain ⟨rs, rfl, hrs⟩ := ty_sound hret
      have hlt := hbody.shorter
      simp only [List.length_cons, List.length_append] at hclimb hlt
      obtain ⟨bs, rfl, hbs, _⟩ := (hclimb _ (by omega)).expr hbody
      obtain ⟨us, rfl, hus, hstops⟩ := (hclimb _ (by omega)).expr htail
      refine ⟨.form,
        first :: second :: func :: (ps ++ colon :: (rs ++ equals :: (bs ++ third :: us))),
        by simp, ⟨?_, hstops⟩, Nat.le_refl 7⟩
      simpa [hlet, hrec, hfunc, hps, hcolon, hequals, hin] using
        Derives.letRec _ _ hpts hrs hbs hus
  | abs first hfun hhead hbody =>
      obtain ⟨arrow, hparam, harrow⟩ := reads_funHead_iff.mp hhead
      obtain ⟨ps, pts, rfl, hpts, hps⟩ := param_sound hparam
      simp only [List.length_cons, List.length_append] at hclimb
      obtain ⟨bs, rfl, hbs, hstops⟩ := (hclimb _ (by omega)).expr hbody
      refine ⟨.form, first :: (ps ++ arrow :: bs), by simp, ⟨?_, hstops⟩, Nat.le_refl 7⟩
      simpa [hfun, hps, harrow] using Derives.abs _ hpts hbs

/-- The readers call one another on shorter lists, an extension and an expression also on lists of
the same length, so the statements go through together by induction on the length. -/
theorem sound_of_length (n : Nat) : ∀ ts : List Lexeme, ts.length = n →
    ClimbSound eof ts ∧ ExtendSound eof ts := by
  induction n using Nat.strongRecOn with
  | ind n ih =>
      have hshorter : ∀ us : List Lexeme, us.length < n → ClimbSound eof us :=
        fun us hlt => (ih us.length hlt us rfl).1
      have hextend : ∀ mid : List Lexeme, mid.length < n → ExtendSound eof mid :=
        fun mid hlt => (ih mid.length hlt mid rfl).2
      -- an extension climbs over lists of its own length too, so the climbs come first
      have hclimb : ∀ us : List Lexeme, us.length ≤ n → ClimbSound eof us := by
        intro us hle
        rcases Nat.lt_or_eq_of_le hle with hlt | rfl
        · exact hshorter us hlt
        · exact climbSound_of_parts (atomSound_of_parts hshorter) hextend
      rintro ts rfl
      exact ⟨hclimb ts (Nat.le_refl _), extendSound_of_parts hclimb hextend⟩

theorem expr_sound {ts rest : List Lexeme} {e : Expr} (h : Reads (expr eof ts) e rest) :
    ∃ used, ts = used ++ rest ∧ Derives .expr (used.map Lexeme.token) e ∧ Stops 1 rest :=
  (sound_of_length ts.length ts rfl).1.expr (reads_expr_iff.mp h)

end

end Parser
end LambdaAny
