import LambdaAny.Expr.Parser

/-!
# What the readers read

Inversion of the readers of lexemes: for each of them, what it must have seen at the front of its
input to hand back a given value and a given rest.  The bound that a reader's answer carries is
dropped here; later proofs speak of the value and the rest alone and unfold no reader.
-/

namespace LambdaAny
namespace Parser

/-- The reader succeeded with this value and left these lexemes. -/
def Reads {α : Type} {bound : Nat} (result : Except ParseError (Parsed α bound)) (value : α)
    (rest : List Lexeme) : Prop :=
  ∃ h, result = .ok ⟨value, rest, h⟩

section

variable {α β : Type} {bound bound' : Nat}

theorem Reads.shorter {result : Except ParseError (Parsed α bound)} {value : α}
    {rest : List Lexeme} (h : Reads result value rest) : rest.length < bound := h.1

@[simp] theorem reads_ok_iff {value value' : α} {rest rest' : List Lexeme}
    {h : rest.length < bound} :
    Reads (.ok ⟨value, rest, h⟩) value' rest' ↔ value = value' ∧ rest = rest' := by
  constructor
  · rintro ⟨_, heq⟩
    cases heq
    exact ⟨rfl, rfl⟩
  · rintro ⟨rfl, rfl⟩
    exact ⟨h, rfl⟩

@[simp] theorem reads_pure_iff {value value' : α} {rest rest' : List Lexeme}
    {h : rest.length < bound} :
    Reads (pure ⟨value, rest, h⟩) value' rest' ↔ value = value' ∧ rest = rest' := reads_ok_iff

@[simp] theorem not_reads_error {error : ParseError} {value : α} {rest : List Lexeme} :
    ¬Reads (.error error : Except ParseError (Parsed α bound)) value rest := by
  rintro ⟨_, heq⟩
  cases heq

theorem reads_bind_iff {first : Except ParseError (Parsed α bound)}
    {next : Parsed α bound → Except ParseError (Parsed β bound')} {value : β}
    {rest : List Lexeme} :
    Reads (first >>= next) value rest ↔
      ∃ a mid, ∃ h : Reads first a mid, Reads (next ⟨a, mid, h.shorter⟩) value rest := by
  constructor
  · rintro ⟨hlt, heq⟩
    cases hfirst : first with
    | error err =>
        rw [hfirst] at heq
        cases heq
    | ok parsed =>
        rw [hfirst] at heq
        exact ⟨parsed.value, parsed.rest, ⟨parsed.shorter, rfl⟩, hlt, heq⟩
  · rintro ⟨a, mid, ⟨h, rfl⟩, hnext⟩
    exact hnext

end

section

variable {eof : Nat} {ts rest : List Lexeme}

/-! ## Single tokens -/

theorem exists_first_iff {lexeme : Lexeme} {token : Token} :
    (∃ first : Lexeme, first.token = token ∧ lexeme :: ts = first :: rest) ↔
      lexeme.token = token ∧ ts = rest := by
  constructor
  · rintro ⟨first, htoken, heq⟩
    obtain ⟨rfl, rfl⟩ := List.cons.inj heq
    exact ⟨htoken, rfl⟩
  · rintro ⟨htoken, rfl⟩
    exact ⟨lexeme, htoken, rfl⟩

theorem reads_expect_iff {token : Token} {u : Unit} :
    Reads (expect eof token ts) u rest ↔ ∃ lexeme, lexeme.token = token ∧ ts = lexeme :: rest := by
  cases ts with
  | nil => simp [expect]
  | cons lexeme ts =>
      rw [exists_first_iff]
      by_cases htoken : lexeme.token = token
      · simp [expect, htoken]
      · simp [expect, htoken]

theorem reads_ident_iff {name : String} :
    Reads (ident eof ts) name rest ↔
      ∃ lexeme, lexeme.token = .ident name ∧ ts = lexeme :: rest := by
  cases ts with
  | nil => simp [ident]
  | cons lexeme ts =>
      rw [exists_first_iff]
      cases htoken : lexeme.token with
      | ident found => simp [ident, htoken]
      | int n => simp [ident, htoken]
      | bool b => simp [ident, htoken]
      | keyword k => simp [ident, htoken]
      | symbol s => simp [ident, htoken]

/-! ## Types -/

theorem reads_ty_iff {whole : Ty} :
    Reads (ty eof ts) whole rest ↔
      ∃ dom mid, Reads (tyAtom eof ts) dom mid ∧
        ((∃ lexeme tail cod, mid = lexeme :: tail ∧ lexeme.token = .symbol .arrow ∧
            Reads (ty eof tail) cod rest ∧ .arrow dom cod = whole) ∨
          ((∀ lexeme tail, mid = lexeme :: tail → lexeme.token ≠ .symbol .arrow) ∧
            dom = whole ∧ mid = rest)) := by
  rw [ty, reads_bind_iff]
  -- both sides read the same domain; what is left to compare is the choice made behind it
  refine exists_congr fun dom => exists_congr fun mid => ?_
  rw [← exists_prop]
  refine exists_congr fun _ => ?_
  cases mid with
  | nil => simp
  | cons lexeme tail =>
      by_cases harrow : lexeme.token = .symbol .arrow
      · simp only [if_pos harrow, reads_bind_iff, reads_pure_iff]
        constructor
        · rintro ⟨cod, _, hcod, hwhole, rfl⟩
          exact .inl ⟨lexeme, tail, cod, rfl, harrow, hcod, hwhole⟩
        · rintro (⟨_, _, cod, heq, _, hcod, hwhole⟩ | ⟨hno, _, _⟩)
          · obtain ⟨rfl, rfl⟩ := List.cons.inj heq
            exact ⟨cod, rest, hcod, hwhole, rfl⟩
          · exact absurd harrow (hno lexeme tail rfl)
      · simp only [if_neg harrow, reads_pure_iff]
        constructor
        · rintro ⟨hwhole, hrest⟩
          refine .inr ⟨?_, hwhole, hrest⟩
          intro _ _ heq
          exact (List.cons.inj heq).1 ▸ harrow
        · rintro (⟨_, _, _, heq, htoken, _⟩ | ⟨_, hwhole, hrest⟩)
          · exact absurd ((List.cons.inj heq).1 ▸ htoken) harrow
          · exact ⟨hwhole, hrest⟩

/-- How a type that is not an arrow, or one in parentheses, is read. -/
inductive TyAtomReads (eof : Nat) : List Lexeme → Ty → List Lexeme → Prop where
  | int (lexeme : Lexeme) {rest : List Lexeme} (htoken : lexeme.token = .keyword .intKw) :
      TyAtomReads eof (lexeme :: rest) .int rest
  | bool (lexeme : Lexeme) {rest : List Lexeme} (htoken : lexeme.token = .keyword .boolKw) :
      TyAtomReads eof (lexeme :: rest) .bool rest
  | any (lexeme : Lexeme) {rest : List Lexeme} (htoken : lexeme.token = .keyword .anyKw) :
      TyAtomReads eof (lexeme :: rest) .any rest
  | parens (first last : Lexeme) {ts rest : List Lexeme} {inner : Ty}
      (hopen : first.token = .symbol .parenOpen) (hinner : Reads (ty eof ts) inner (last :: rest))
      (hclose : last.token = .symbol .parenClose) : TyAtomReads eof (first :: ts) inner rest

theorem reads_tyAtom_iff {whole : Ty} :
    Reads (tyAtom eof ts) whole rest ↔ TyAtomReads eof ts whole rest := by
  constructor
  · intro h
    cases ts with
    | nil => simp [tyAtom] at h
    | cons lexeme ts =>
        rw [tyAtom] at h
        split at h
        · next htoken =>
          obtain ⟨rfl, rfl⟩ := reads_ok_iff.mp h
          exact .int lexeme htoken
        · next htoken =>
          obtain ⟨rfl, rfl⟩ := reads_ok_iff.mp h
          exact .bool lexeme htoken
        · next htoken =>
          obtain ⟨rfl, rfl⟩ := reads_ok_iff.mp h
          exact .any lexeme htoken
        · next htoken =>
          simp only [reads_bind_iff, reads_expect_iff, reads_pure_iff] at h
          obtain ⟨_, _, hinner, _, _, ⟨last, hlast, rfl⟩, rfl, rfl⟩ := h
          exact .parens lexeme last htoken hinner hlast
        · exact absurd h not_reads_error
  · intro h
    cases h with
    | int lexeme htoken => simp [tyAtom, htoken]
    | bool lexeme htoken => simp [tyAtom, htoken]
    | any lexeme htoken => simp [tyAtom, htoken]
    | parens first last hopen hinner hclose =>
        simp only [tyAtom, hopen, reads_bind_iff, reads_expect_iff, reads_pure_iff]
        exact ⟨_, _, hinner, (), _, ⟨_, hclose, rfl⟩, rfl, rfl⟩

/-! ## What stands in front of a body -/

theorem reads_param_iff {name : String} {paramTy : Ty} :
    Reads (param eof ts) (name, paramTy) rest ↔
      ∃ first second third tail last, first.token = .symbol .parenOpen ∧
        second.token = .ident name ∧ third.token = .symbol .colon ∧
        ts = first :: second :: third :: tail ∧ Reads (ty eof tail) paramTy (last :: rest) ∧
        last.token = .symbol .parenClose := by
  simp only [param, reads_bind_iff, reads_expect_iff, reads_ident_iff, reads_pure_iff,
    Prod.mk.injEq]
  constructor
  · rintro ⟨_, _, ⟨first, hfirst, rfl⟩, _, _, ⟨second, hsecond, rfl⟩, _, _, ⟨third, hthird, rfl⟩,
      _, _, hty, _, _, ⟨last, hlast, rfl⟩, ⟨rfl, rfl⟩, rfl⟩
    exact ⟨first, second, third, _, last, hfirst, hsecond, hthird, rfl, hty, hlast⟩
  · rintro ⟨first, second, third, tail, last, hfirst, hsecond, hthird, rfl, hty, hlast⟩
    exact ⟨(), _, ⟨first, hfirst, rfl⟩, name, _, ⟨second, hsecond, rfl⟩, (), _,
      ⟨third, hthird, rfl⟩, paramTy, _, hty, (), _, ⟨last, hlast, rfl⟩, ⟨rfl, rfl⟩, rfl⟩

theorem reads_funHead_iff {name : String} {paramTy : Ty} :
    Reads (funHead eof ts) (name, paramTy) rest ↔
      ∃ last, Reads (param eof ts) (name, paramTy) (last :: rest) ∧
        last.token = .symbol .arrow := by
  simp only [funHead, reads_bind_iff, reads_expect_iff, reads_pure_iff]
  constructor
  · rintro ⟨_, _, hparam, _, _, ⟨last, hlast, rfl⟩, rfl, rfl⟩
    exact ⟨last, hparam, hlast⟩
  · rintro ⟨last, hparam, hlast⟩
    exact ⟨_, _, hparam, (), _, ⟨last, hlast, rfl⟩, rfl, rfl⟩

theorem reads_letHead_iff {binder : String} :
    Reads (letHead eof ts) binder rest ↔
      ∃ first last, first.token = .ident binder ∧ last.token = .symbol .equals ∧
        ts = first :: last :: rest := by
  simp only [letHead, reads_bind_iff, reads_expect_iff, reads_ident_iff, reads_pure_iff]
  constructor
  · rintro ⟨_, _, ⟨first, hfirst, rfl⟩, _, _, ⟨last, hlast, rfl⟩, rfl, rfl⟩
    exact ⟨first, last, hfirst, hlast, rfl⟩
  · rintro ⟨first, last, hfirst, hlast, rfl⟩
    exact ⟨binder, _, ⟨first, hfirst, rfl⟩, (), _, ⟨last, hlast, rfl⟩, rfl, rfl⟩

theorem reads_recHead_iff {head : RecHead} :
    Reads (recHead eof ts) head rest ↔
      ∃ first tail colon mid last, first.token = .ident head.func ∧ ts = first :: tail ∧
        Reads (param eof tail) (head.param, head.paramTy) (colon :: mid) ∧
        colon.token = .symbol .colon ∧ Reads (ty eof mid) head.ret (last :: rest) ∧
        last.token = .symbol .equals := by
  simp only [recHead, reads_bind_iff, reads_expect_iff, reads_ident_iff, reads_pure_iff]
  constructor
  · rintro ⟨_, _, ⟨first, hfirst, rfl⟩, _, _, hparam, _, _, ⟨colon, hcolon, rfl⟩, _, _, hret, _, _,
      ⟨last, hlast, rfl⟩, rfl, rfl⟩
    exact ⟨first, _, colon, _, last, hfirst, rfl, hparam, hcolon, hret, hlast⟩
  · rintro ⟨first, tail, colon, mid, last, hfirst, rfl, hparam, hcolon, hret, hlast⟩
    exact ⟨head.func, _, ⟨first, hfirst, rfl⟩, _, _, hparam, (), _, ⟨colon, hcolon, rfl⟩, _, _,
      hret, (), _, ⟨last, hlast, rfl⟩, rfl, rfl⟩

/-! ## Expressions -/

/-- A first operand is read and extended by the infix positions that hold it with this power. -/
def Climbs (eof power : Nat) (ts : List Lexeme) (e : Expr) (rest : List Lexeme) : Prop :=
  ∃ first mid, Reads (atom eof ts) first mid ∧ Reads (extend eof first power mid) e rest

theorem Climbs.shorter {power : Nat} {e : Expr} (h : Climbs eof power ts e rest) :
    rest.length < ts.length := by
  obtain ⟨first, mid, hfirst, hwhole⟩ := h
  have hmid : mid.length < ts.length := hfirst.shorter
  have hrest : rest.length < mid.length + 1 := hwhole.shorter
  omega

theorem reads_expr_iff {e : Expr} : Reads (expr eof ts) e rest ↔ Climbs eof 0 ts e rest := by
  rw [expr]
  simp only [reads_bind_iff, reads_pure_iff, Climbs]
  constructor
  · rintro ⟨first, mid, hfirst, _, _, hwhole, rfl, rfl⟩
    exact ⟨first, mid, hfirst, hwhole⟩
  · rintro ⟨first, mid, hfirst, hwhole⟩
    exact ⟨first, mid, hfirst, _, _, hwhole, rfl, rfl⟩

/-- No infix position with at least this power stands at the front. -/
def Stops (power : Nat) : List Lexeme → Prop
  | [] => True
  | lexeme :: _ => ∀ joint, Joint.ofToken? lexeme.token = some joint → joint.left < power

theorem Stops.mono {power power' : Nat} (h : Stops power ts) (hle : power ≤ power') :
    Stops power' ts := by
  cases ts with
  | nil => trivial
  | cons lexeme ts => exact fun joint hjoint => Nat.lt_of_lt_of_le (h joint hjoint) hle

theorem stops_of_joint {power : Nat} {lexeme : Lexeme} {joint : Joint}
    (hjoint : Joint.ofToken? lexeme.token = some joint) (hlt : joint.left < power) :
    Stops power (lexeme :: ts) := by
  intro joint' hjoint'
  obtain rfl := Option.some.inj (hjoint.symm.trans hjoint')
  exact hlt

theorem Joint.one_le_left (joint : Joint) : 1 ≤ joint.left := by
  cases joint with
  | op o =>
      cases o with
      | arith a => cases a <;> decide
      | cmp c => exact Nat.le_refl 1
  | apply => decide

theorem Joint.left_le_six (joint : Joint) : joint.left ≤ 6 := by
  cases joint with
  | op o =>
      cases o with
      | arith a => cases a <;> decide
      | cmp c => exact (by decide : 1 ≤ 6)
  | apply => exact Nat.le_refl 6

/-- Power one already asks for every infix position. -/
theorem Stops.zero_of_one (h : Stops 1 ts) : Stops 0 ts := by
  cases ts with
  | nil => trivial
  | cons lexeme ts =>
      intro joint hjoint
      have hlt := h joint hjoint
      have hle := joint.one_le_left
      omega

/-- Nothing holds its left operand with power seven. -/
theorem stops_seven (ts : List Lexeme) : Stops 7 ts := by
  cases ts with
  | nil => trivial
  | cons lexeme ts => exact fun joint _ => Nat.lt_succ_of_le joint.left_le_six

/-- How an operand is extended. -/
inductive ExtendReads (eof : Nat) :
    Expr → Nat → List Lexeme → Expr → List Lexeme → Prop where
  | stop {lhs : Expr} {power : Nat} {ts : List Lexeme} (hstops : Stops power ts) :
      ExtendReads eof lhs power ts lhs ts
  | op {lhs rhs whole : Expr} {power : Nat} (lexeme : Lexeme) {ts mid rest : List Lexeme} (o : Op)
      (hjoint : Joint.ofToken? lexeme.token = some (.op o)) (hpower : power ≤ (Joint.op o).left)
      (hrhs : Climbs eof (Joint.op o).right ts rhs mid)
      (hwhole : Reads (extend eof (.op o lhs rhs) power mid) whole rest) :
      ExtendReads eof lhs power (lexeme :: ts) whole rest
  | apply {lhs arg whole : Expr} {power : Nat} (lexeme : Lexeme) {ts mid rest : List Lexeme}
      (hjoint : Joint.ofToken? lexeme.token = some .apply) (hpower : power ≤ Joint.apply.left)
      (harg : Climbs eof Joint.apply.right (lexeme :: ts) arg mid)
      (hwhole : Reads (extend eof (.app lhs arg) power mid) whole rest) :
      ExtendReads eof lhs power (lexeme :: ts) whole rest

theorem reads_extend_iff {lhs whole : Expr} {power : Nat} :
    Reads (extend eof lhs power ts) whole rest ↔ ExtendReads eof lhs power ts whole rest := by
  constructor
  · intro h
    cases ts with
    | nil =>
        rw [extend] at h
        obtain ⟨rfl, rfl⟩ := reads_ok_iff.mp h
        exact .stop trivial
    | cons lexeme ts =>
        rw [extend] at h
        split at h
        · next hjoint =>
          obtain ⟨rfl, rfl⟩ := reads_ok_iff.mp h
          exact .stop fun joint hsome => by simp [hjoint] at hsome
        · next o hjoint =>
          split at h
          · next hlt =>
            obtain ⟨rfl, rfl⟩ := reads_ok_iff.mp h
            exact .stop (stops_of_joint hjoint hlt)
          · next hge =>
            simp only [reads_bind_iff, reads_pure_iff] at h
            obtain ⟨first, _, hfirst, rhs, _, hrhs, _, _, hwhole, rfl, rfl⟩ := h
            exact .op lexeme o hjoint (Nat.le_of_not_lt hge) ⟨first, _, hfirst, hrhs⟩ hwhole
        · next hjoint =>
          split at h
          · next hlt =>
            obtain ⟨rfl, rfl⟩ := reads_ok_iff.mp h
            exact .stop (stops_of_joint hjoint hlt)
          · next hge =>
            simp only [reads_bind_iff, reads_pure_iff] at h
            obtain ⟨first, _, hfirst, arg, _, harg, _, _, hwhole, rfl, rfl⟩ := h
            exact .apply lexeme hjoint (Nat.le_of_not_lt hge) ⟨first, _, hfirst, harg⟩ hwhole
  · intro h
    cases h with
    | stop hstops =>
        cases ts with
        | nil => simp [extend]
        | cons lexeme ts =>
            rw [extend]
            split
            · simp
            · next o hjoint => simp [hstops _ hjoint]
            · next hjoint => simp [hstops _ hjoint]
    | op lexeme o hjoint hpower hrhs hwhole =>
        obtain ⟨first, mid, hfirst, hrhs⟩ := hrhs
        rw [extend]
        simp only [hjoint, if_neg (Nat.not_lt_of_le hpower), reads_bind_iff, reads_pure_iff]
        exact ⟨first, _, hfirst, _, _, hrhs, _, _, hwhole, rfl, rfl⟩
    | apply lexeme hjoint hpower harg hwhole =>
        obtain ⟨first, mid, hfirst, harg⟩ := harg
        rw [extend]
        simp only [hjoint, if_neg (Nat.not_lt_of_le hpower), reads_bind_iff, reads_pure_iff]
        exact ⟨first, _, hfirst, _, _, harg, _, _, hwhole, rfl, rfl⟩

/-- How a simple operand or a keyword form is read. -/
inductive AtomReads (eof : Nat) : List Lexeme → Expr → List Lexeme → Prop where
  | int (lexeme : Lexeme) {rest : List Lexeme} {n : Int64} (htoken : lexeme.token = .int n) :
      AtomReads eof (lexeme :: rest) (.int n) rest
  | bool (lexeme : Lexeme) {rest : List Lexeme} {b : Bool} (htoken : lexeme.token = .bool b) :
      AtomReads eof (lexeme :: rest) (.bool b) rest
  | var (lexeme : Lexeme) {rest : List Lexeme} {name : String}
      (htoken : lexeme.token = .ident name) : AtomReads eof (lexeme :: rest) (.var name) rest
  | parens (first last : Lexeme) {ts rest : List Lexeme} {inner : Expr}
      (hopen : first.token = .symbol .parenOpen)
      (hinner : Climbs eof 0 ts inner (last :: rest)) (hclose : last.token = .symbol .parenClose) :
      AtomReads eof (first :: ts) inner rest
  | ite (first second third : Lexeme) {ts ts' ts'' rest : List Lexeme} {cond thn els : Expr}
      (hif : first.token = .keyword .ifKw) (hcond : Climbs eof 0 ts cond (second :: ts'))
      (hthen : second.token = .keyword .thenKw) (hthn : Climbs eof 0 ts' thn (third :: ts''))
      (helse : third.token = .keyword .elseKw) (hels : Climbs eof 0 ts'' els rest) :
      AtomReads eof (first :: ts) (.ite cond thn els) rest
  | letIn (first second : Lexeme) {ts ts' ts'' rest : List Lexeme} {binder : String}
      {bindee tail : Expr} (hlet : first.token = .keyword .letKw)
      (hhead : Reads (letHead eof ts) binder ts')
      (hbindee : Climbs eof 0 ts' bindee (second :: ts'')) (hin : second.token = .keyword .inKw)
      (htail : Climbs eof 0 ts'' tail rest) :
      AtomReads eof (first :: ts) (.letIn binder bindee tail) rest
  | letRec (first second third : Lexeme) {ts ts' ts'' rest : List Lexeme} {head : RecHead}
      {body tail : Expr} (hlet : first.token = .keyword .letKw)
      (hrec : second.token = .keyword .recKw) (hhead : Reads (recHead eof ts) head ts')
      (hbody : Climbs eof 0 ts' body (third :: ts'')) (hin : third.token = .keyword .inKw)
      (htail : Climbs eof 0 ts'' tail rest) :
      AtomReads eof (first :: second :: ts)
        (.letRec head.func head.param head.paramTy head.ret body tail) rest
  | abs (first : Lexeme) {ts ts' rest : List Lexeme} {name : String} {paramTy : Ty} {body : Expr}
      (hfun : first.token = .keyword .funKw) (hhead : Reads (funHead eof ts) (name, paramTy) ts')
      (hbody : Climbs eof 0 ts' body rest) :
      AtomReads eof (first :: ts) (.abs name paramTy body) rest

theorem reads_atom_iff {e : Expr} :
    Reads (atom eof ts) e rest ↔ AtomReads eof ts e rest := by
  constructor
  · intro h
    cases ts with
    | nil => simp [atom] at h
    | cons lexeme ts =>
        rw [atom] at h
        split at h
        · next htoken =>
          obtain ⟨rfl, rfl⟩ := reads_ok_iff.mp h
          exact .int lexeme htoken
        · next htoken =>
          obtain ⟨rfl, rfl⟩ := reads_ok_iff.mp h
          exact .bool lexeme htoken
        · next htoken =>
          obtain ⟨rfl, rfl⟩ := reads_ok_iff.mp h
          exact .var lexeme htoken
        · next htoken =>
          simp only [reads_bind_iff, reads_expect_iff, reads_expr_iff, reads_pure_iff] at h
          obtain ⟨_, _, hinner, _, _, ⟨last, hlast, rfl⟩, rfl, rfl⟩ := h
          exact .parens lexeme last htoken hinner hlast
        · next htoken =>
          simp only [reads_bind_iff, reads_expect_iff, reads_expr_iff, reads_pure_iff] at h
          obtain ⟨_, _, hcond, _, _, ⟨second, hthen, rfl⟩, _, _, hthn, _, _, ⟨third, helse, rfl⟩,
            _, _, hels, rfl, rfl⟩ := h
          exact .ite lexeme second third htoken hcond hthen hthn helse hels
        · next htoken =>
          split at h
          · simp only [reads_bind_iff, reads_expect_iff, reads_expr_iff, reads_pure_iff] at h
            obtain ⟨_, _, ⟨second, hrec, rfl⟩, head, _, hhead, _, _, hbody, _, _,
              ⟨third, hin, rfl⟩, _, _, htail, rfl, rfl⟩ := h
            exact .letRec lexeme second third htoken hrec hhead hbody hin htail
          · simp only [reads_bind_iff, reads_expect_iff, reads_expr_iff, reads_pure_iff] at h
            obtain ⟨binder, _, hhead, _, _, hbindee, _, _, ⟨second, hin, rfl⟩, _, _, htail,
              rfl, rfl⟩ := h
            exact .letIn lexeme second htoken hhead hbindee hin htail
        · next htoken =>
          simp only [reads_bind_iff, reads_expr_iff, reads_pure_iff] at h
          obtain ⟨⟨name, paramTy⟩, _, hhead, _, _, hbody, rfl, rfl⟩ := h
          exact .abs lexeme htoken hhead hbody
        · exact absurd h not_reads_error
        · exact absurd h not_reads_error
  · intro h
    cases h with
    | int lexeme htoken => simp [atom, htoken]
    | bool lexeme htoken => simp [atom, htoken]
    | var lexeme htoken => simp [atom, htoken]
    | parens first last hopen hinner hclose =>
        rw [atom]
        simp only [hopen, reads_bind_iff, reads_expect_iff, reads_expr_iff, reads_pure_iff]
        exact ⟨_, _, hinner, (), _, ⟨_, hclose, rfl⟩, rfl, rfl⟩
    | ite first second third hif hcond hthen hthn helse hels =>
        rw [atom]
        simp only [hif, reads_bind_iff, reads_expect_iff, reads_expr_iff, reads_pure_iff]
        exact ⟨_, _, hcond, (), _, ⟨_, hthen, rfl⟩, _, _, hthn, (), _, ⟨_, helse, rfl⟩, _, _, hels,
          rfl, rfl⟩
    | letIn first second hlet hhead hbindee hin htail =>
        -- the head starts with an identifier, so this is not taken for a recursive definition
        obtain ⟨name, equals, hname, _, rfl⟩ := reads_letHead_iff.mp hhead
        rw [atom]
        simp only [hlet, List.head?_cons, Option.map_some, hname, Option.some.injEq, reduceCtorEq,
          if_false, reads_bind_iff, reads_expect_iff, reads_expr_iff, reads_pure_iff]
        exact ⟨_, _, hhead, _, _, hbindee, (), _, ⟨_, hin, rfl⟩, _, _, htail, rfl, rfl⟩
    | letRec first second third hlet hrec hhead hbody hin htail =>
        rw [atom]
        simp only [hlet, List.head?_cons, Option.map_some, hrec, if_true, reads_bind_iff,
          reads_expect_iff, reads_expr_iff, reads_pure_iff]
        exact ⟨(), _, ⟨_, hrec, rfl⟩, _, _, hhead, _, _, hbody, (), _, ⟨_, hin, rfl⟩, _, _, htail,
          rfl, rfl⟩
    | abs first hfun hhead hbody =>
        rw [atom]
        simp only [hfun, reads_bind_iff, reads_expr_iff, reads_pure_iff]
        exact ⟨_, _, hhead, _, _, hbody, rfl, rfl⟩

end

end Parser
end LambdaAny
