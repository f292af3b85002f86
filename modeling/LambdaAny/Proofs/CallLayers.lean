import LambdaAny.Proofs.ViablePrefix

/-!
# Layers of calls

The readers call each other, and the loop over infix positions goes on by calling itself.  Here one
layer of these calls stands alone, around readers that may be cut off before they answer.  Readers
that are made of layers only, with nothing inside, are cut off where calls are nested deeper than
there are layers.

With two layers for each lexeme and two more they answer like the readers, whatever the lexemes are.
All that is used of the readers is that one which succeeds has taken something.  Fewer layers may do
for some lists; nothing is said of those.
-/

namespace LambdaAny
namespace Parser

variable {α β : Type}

/-! ## Readers that may be cut off -/

/-- What a reader does to a list of lexemes, if it is not cut off. -/
def Attempt (α : Type) : Type :=
  (eof : Nat) → List Lexeme → Option (Except ParseError (α × List Lexeme))

namespace Attempt

/-- One attempt, and another on what is left. -/
def andThen (first : Attempt α) (next : α → Attempt β) : Attempt β := fun eof ts =>
  match first eof ts with
  | none => none
  | some (.error err) => some (.error err)
  | some (.ok (value, rest)) => next value eof rest

instance : Monad Attempt where
  pure value := fun _ ts => some (.ok (value, ts))
  bind := andThen

instance : LawfulMonad Attempt := by
  refine .mk' Attempt ?_ (fun _ _ => rfl) ?_
  · intro α A
    funext eof ts
    change A.andThen pure eof ts = A eof ts
    rw [andThen]
    rcases A eof ts with _ | _ | _ <;> rfl
  · intro α β γ A next after
    funext eof ts
    change (A.andThen next).andThen after eof ts =
      A.andThen (fun value => (next value).andThen after) eof ts
    unfold andThen
    rcases A eof ts with _ | _ | _ <;> rfl

/-- A reader that is never cut off. -/
def sure (R : Reader α) : Attempt α := fun eof ts => some (R eof ts)

def cutOff : Attempt α := fun _ _ => none

def fail (err : ParseError) : Attempt α := fun _ _ => some (.error err)

def just (token : Token) : Attempt Unit := sure (.just token)

/-- The token at the front, which stays there. -/
def peek : Attempt (Option Token) := fun _ ts => some (.ok (ts.head?.map Lexeme.token, ts))

/-- Takes the lexeme at the front, whatever it is. -/
def skip : Attempt Unit := fun _ ts => some (.ok ((), ts.tail))

/-- Takes the lexeme at the front, or complains of the end. -/
def bump (complaint : Found → ParseError) : Attempt Lexeme := fun eof ts =>
  match ts with
  | [] => some (.error (complaint (.eof eof)))
  | lexeme :: rest => some (.ok (lexeme, rest))

end Attempt

open Attempt

/-! ## One layer of calls -/

namespace Joint

/-- Takes the token of an operator.  An application has none. -/
def take : Joint → Attempt Unit
  | op _ => skip
  | apply => pure ()

def join (lhs rhs : Expr) : Joint → Expr
  | op o => .op o lhs rhs
  | apply => .app lhs rhs

end Joint

/-- The readers that call each other. -/
structure Readers where
  ty : Attempt Ty
  expr : Attempt Expr
  extend : Expr → Nat → Attempt Expr
  atom : Attempt Expr

namespace Readers

/-- The readers as they are. -/
def actual : Readers where
  ty := sure (plain Parser.ty)
  expr := sure (plain Parser.expr)
  extend lhs power := sure (extending lhs power)
  atom := sure (plain Parser.atom)

/-- Readers that never answer. -/
def cutOff : Readers := ⟨.cutOff, .cutOff, fun _ _ => .cutOff, .cutOff⟩

section

variable (self : Readers)

/-- What a type does behind its first lexeme. -/
def tyOperand (lexeme : Lexeme) : Attempt Ty :=
  match lexeme.token with
  | .keyword .intKw => return .int
  | .keyword .boolKw => return .bool
  | .keyword .anyKw => return .any
  | .symbol .parenOpen => do
    let inner ← self.ty
    just (.symbol .parenClose)
    return inner
  | .ident _ | .int _ | .bool _ | .keyword _ | .symbol _ => fail (.expectedType (.token lexeme))

def tyAtom : Attempt Ty := do
  let lexeme ← bump .expectedType
  self.tyOperand lexeme

def arrowTail (dom : Ty) : Attempt Ty := do
  let token ← peek
  if token = some (.symbol .arrow) then
    skip
    let cod ← self.ty
    return .arrow dom cod
  else
    return dom

def nextTy : Attempt Ty := do
  let dom ← self.tyAtom
  self.arrowTail dom

def param : Attempt (String × Ty) := do
  just (.symbol .parenOpen)
  let name ← sure (plain ident)
  just (.symbol .colon)
  let paramTy ← self.ty
  just (.symbol .parenClose)
  return (name, paramTy)

def funHead : Attempt (String × Ty) := do
  let head ← self.param
  just (.symbol .arrow)
  return head

def recHead : Attempt RecHead := do
  let func ← sure (plain ident)
  let param ← self.param
  just (.symbol .colon)
  let ret ← self.ty
  just (.symbol .equals)
  return ⟨func, param.1, param.2, ret⟩

def iteTail : Attempt Expr := do
  let cond ← self.expr
  just (.keyword .thenKw)
  let thn ← self.expr
  just (.keyword .elseKw)
  let els ← self.expr
  return .ite cond thn els

def letRecTail : Attempt Expr := do
  just (.keyword .recKw)
  let head ← self.recHead
  let body ← self.expr
  just (.keyword .inKw)
  let tail ← self.expr
  return .letRec head.func head.param head.paramTy head.ret body tail

def letInTail : Attempt Expr := do
  let binder ← sure (plain letHead)
  let bindee ← self.expr
  just (.keyword .inKw)
  let tail ← self.expr
  return .letIn binder bindee tail

def letTail : Attempt Expr := do
  let token ← peek
  if token = some (.keyword .recKw) then self.letRecTail else self.letInTail

def absTail : Attempt Expr := do
  let head ← self.funHead
  let body ← self.expr
  return .abs head.1 head.2 body

/-- What an operand does behind its first lexeme. -/
def operand (lexeme : Lexeme) : Attempt Expr :=
  match lexeme.token with
  | .int n => return .int n
  | .bool b => return .bool b
  | .ident name => return .var name
  | .symbol .parenOpen => do
    let inner ← self.expr
    just (.symbol .parenClose)
    return inner
  | .keyword .ifKw => self.iteTail
  | .keyword .letKw => self.letTail
  | .keyword .funKw => self.absTail
  | .symbol _ | .keyword _ => fail (.illegalSequence (.token lexeme))

def nextAtom : Attempt Expr := do
  let lexeme ← bump .illegalSequence
  self.operand lexeme

def nextExpr : Attempt Expr := do
  let first ← self.atom
  self.extend first 0

/-- One round of the loop over infix positions: the operand joined to the next one, or nothing if the
loop ends here. -/
def round (lhs : Expr) (power : Nat) : Attempt (Option Expr) := do
  let token ← peek
  match token.bind Joint.ofToken? with
  | none => return none
  | some joint =>
    if joint.left < power then
      return none
    else
      joint.take
      let first ← self.atom
      let rhs ← self.extend first joint.right
      return some (joint.join lhs rhs)

def nextExtend (lhs : Expr) (power : Nat) : Attempt Expr := do
  let joined ← self.round lhs power
  match joined with
  | none => return lhs
  | some joined => self.extend joined power

/-- What the readers do if every call that they make is left to the given ones. -/
def next : Readers := ⟨self.nextTy, self.nextExpr, self.nextExtend, self.nextAtom⟩

end

/-- The readers, cut off where calls and rounds are nested deeper than `depth`. -/
def within : Nat → Readers
  | 0 => cutOff
  | depth + 1 => (within depth).next

end Readers

/-! ## Answers like those of a reader -/

/-- On lists of at most `n` lexemes the attempt is not cut off and answers like the reader. -/
def Reaches (n : Nat) (A : Attempt α) (R : Reader α) : Prop :=
  ∀ eof ts, ts.length ≤ n → A eof ts = some (R eof ts)

section

variable {A : Attempt α} {R : Reader α} {next : α → Attempt β} {next' : α → Reader β} {n eof : Nat}
  {ts : List Lexeme}

theorem bind_eq_some (hfirst : A eof ts = some (R eof ts))
    (hnext : ∀ value rest, R eof ts = .ok (value, rest) →
      next value eof rest = some (next' value eof rest)) :
    (A >>= next) eof ts = some (R.andThen next' eof ts) := by
  change A.andThen next eof ts = some (R.andThen next' eof ts)
  rw [Attempt.andThen, hfirst, Reader.andThen]
  cases hread : R eof ts with
  | error err => rfl
  | ok answer => exact hnext answer.1 answer.2 hread

/-- Only the answer of the first attempt matters for what follows. -/
theorem bind_of_eq {B : Attempt α} {us : List Lexeme} (h : A eof ts = B eof us) :
    (A >>= next) eof ts = (B >>= next) eof us := by
  change A.andThen next eof ts = B.andThen next eof us
  rw [Attempt.andThen, Attempt.andThen, h]

theorem exists_of_bind {value : β} {rest : List Lexeme}
    (h : (A >>= next) eof ts = some (.ok (value, rest))) :
    ∃ a mid, A eof ts = some (.ok (a, mid)) ∧ next a eof mid = some (.ok (value, rest)) := by
  change A.andThen next eof ts = some (.ok (value, rest)) at h
  rw [Attempt.andThen] at h
  split at h
  next => cases h
  next => cases h
  next a mid hA => exact ⟨a, mid, hA, h⟩

theorem reaches_sure (R : Reader α) : Reaches n (sure R) R := fun _ _ _ => rfl

theorem reaches_done (value : α) : Reaches n (pure value) (.done value) := fun _ _ _ => rfl

theorem reaches_just (token : Token) : Reaches n (just token) (.just token) := reaches_sure _

/-- A reader that takes something leaves a shorter list, so the bound serves for what follows. -/
theorem Reaches.followedBy
    {read : Nat → (ts : List Lexeme) → Except ParseError (Parsed α ts.length)}
    (hfirst : Reaches n A (plain read)) (hnext : ∀ value, Reaches n (next value) (next' value)) :
    Reaches n (A >>= next) ((plain read).andThen next') := by
  intro eof ts hle
  refine bind_eq_some (hfirst eof ts hle) ?_
  intro value rest hread
  have hshorter : rest.length < ts.length := (forget_eq_ok_iff.mp hread).shorter
  exact hnext value eof rest (by omega)

theorem Reaches.map {read : Nat → (ts : List Lexeme) → Except ParseError (Parsed α ts.length)}
    (h : Reaches n A (plain read)) (f : α → β) :
    Reaches n (do let value ← A; return f value)
      ((plain read).andThen fun value => .done (f value)) :=
  h.followedBy fun value => reaches_done (f value)

end

/-! ## What one layer reaches -/

section

variable {self : Readers} {n : Nat}

theorem reaches_parens {A : Attempt α}
    {read : Nat → (ts : List Lexeme) → Except ParseError (Parsed α ts.length)}
    (h : Reaches n A (plain read)) :
    Reaches n (do let inner ← A; just (.symbol .parenClose); return inner)
      ((plain read).andThen fun inner =>
        (Reader.just (.symbol .parenClose)).andThen fun _ => .done inner) :=
  h.followedBy fun inner => (reaches_just _).map fun _ => inner

theorem reaches_tyAtom (hty : ∀ m, m < n → Reaches m self.ty (plain ty)) :
    Reaches n self.tyAtom (plain tyAtom) := by
  intro eof ts hle
  cases ts with
  | nil =>
      rw [plain, tyAtom]
      rfl
  | cons lexeme ts =>
      change self.tyOperand lexeme eof ts = some (plain tyAtom eof (lexeme :: ts))
      cases htoken : lexeme.token with
      | ident _ | int _ | bool _ =>
          rw [plain, tyAtom, Readers.tyOperand, htoken]
          rfl
      | keyword k =>
          cases k <;>
            · rw [plain, tyAtom, Readers.tyOperand, htoken]
              rfl
      | symbol s =>
          cases s with
          | parenOpen =>
              rw [plain_tyAtom_parens htoken, Readers.tyOperand, htoken]
              exact reaches_parens (hty ts.length hle) eof ts (Nat.le_refl _)
          | parenClose | colon | equals | arrow | lt | le | gt | ge | plus | minus | star | slash =>
              rw [plain, tyAtom, Readers.tyOperand, htoken]
              rfl

theorem reaches_arrowTail (hty : ∀ m, m < n → Reaches m self.ty (plain ty)) (dom : Ty) :
    Reaches n (self.arrowTail dom) (arrowTail dom) := by
  intro eof ts hle
  cases ts with
  | nil => rfl
  | cons lexeme ts =>
      change (if some lexeme.token = some (.symbol .arrow) then _ else _ : Attempt Ty) eof _ =
        some (if lexeme.token = .symbol .arrow then _ else _)
      by_cases harrow : lexeme.token = .symbol .arrow
      · rw [if_pos harrow, if_pos (congrArg some harrow)]
        exact (hty ts.length hle).map (Ty.arrow dom) eof ts (Nat.le_refl _)
      · rw [if_neg harrow, if_neg fun h => harrow (Option.some.inj h)]
        rfl

theorem reaches_nextTy (hty : ∀ m, m < n → Reaches m self.ty (plain ty)) :
    Reaches n self.nextTy (plain ty) := by
  rw [plain_ty]
  exact (reaches_tyAtom hty).followedBy (reaches_arrowTail hty)

theorem reaches_param (hty : Reaches n self.ty (plain ty)) : Reaches n self.param (plain param) := by
  rw [plain_param]
  exact (reaches_just _).followedBy fun _ => (reaches_sure _).followedBy fun name =>
    (reaches_just _).followedBy fun _ => hty.followedBy fun paramTy =>
      (reaches_just _).map fun _ => (name, paramTy)

theorem reaches_funHead (hty : Reaches n self.ty (plain ty)) :
    Reaches n self.funHead (plain funHead) := by
  rw [plain_funHead]
  exact (reaches_param hty).followedBy fun head => (reaches_just _).map fun _ => head

theorem reaches_recHead (hty : Reaches n self.ty (plain ty)) :
    Reaches n self.recHead (plain recHead) := by
  rw [plain_recHead]
  exact (reaches_sure _).followedBy fun func => (reaches_param hty).followedBy fun param =>
    (reaches_just _).followedBy fun _ => hty.followedBy fun ret =>
      (reaches_just _).map fun _ => RecHead.mk func param.1 param.2 ret

theorem reaches_iteTail (hexpr : Reaches n self.expr (plain expr)) :
    Reaches n self.iteTail iteTail :=
  hexpr.followedBy fun cond => (reaches_just _).followedBy fun _ => hexpr.followedBy fun thn =>
    (reaches_just _).followedBy fun _ => hexpr.map fun els => Expr.ite cond thn els

theorem reaches_letTail (hty : Reaches n self.ty (plain ty))
    (hexpr : Reaches n self.expr (plain expr)) : Reaches n self.letTail letTail := by
  have hletIn : Reaches n self.letInTail letInTail :=
    (reaches_sure _).followedBy fun binder => hexpr.followedBy fun bindee =>
      (reaches_just _).followedBy fun _ => hexpr.map fun tail => Expr.letIn binder bindee tail
  have hletRec : Reaches n self.letRecTail letRecTail :=
    (reaches_just _).followedBy fun _ => (reaches_recHead hty).followedBy fun head =>
      hexpr.followedBy fun body => (reaches_just _).followedBy fun _ => hexpr.map fun tail =>
        Expr.letRec head.func head.param head.paramTy head.ret body tail
  intro eof ts hle
  change (if ts.head?.map Lexeme.token = some (.keyword .recKw) then self.letRecTail
    else self.letInTail) eof ts = some (letTail eof ts)
  rw [letTail]
  split
  · exact hletRec eof ts hle
  · exact hletIn eof ts hle

theorem reaches_absTail (hty : Reaches n self.ty (plain ty))
    (hexpr : Reaches n self.expr (plain expr)) : Reaches n self.absTail absTail :=
  (reaches_funHead hty).followedBy fun head => hexpr.map fun body => Expr.abs head.1 head.2 body

theorem reaches_nextAtom (hty : ∀ m, m < n → Reaches m self.ty (plain ty))
    (hexpr : ∀ m, m < n → Reaches m self.expr (plain expr)) :
    Reaches n self.nextAtom (plain atom) := by
  intro eof ts hle
  cases ts with
  | nil =>
      rw [plain, atom]
      rfl
  | cons lexeme ts =>
      have hty : Reaches ts.length self.ty (plain ty) := hty _ hle
      have hexpr : Reaches ts.length self.expr (plain expr) := hexpr _ hle
      change self.operand lexeme eof ts = some (plain atom eof (lexeme :: ts))
      cases htoken : lexeme.token with
      | int _ | bool _ | ident _ =>
          rw [plain, atom, Readers.operand, htoken]
          rfl
      | symbol s =>
          cases s with
          | parenOpen =>
              rw [plain_atom_parens htoken, Readers.operand, htoken]
              exact reaches_parens hexpr eof ts (Nat.le_refl _)
          | parenClose | colon | equals | arrow | lt | le | gt | ge | plus | minus | star | slash =>
              rw [plain, atom, Readers.operand, htoken]
              rfl
      | keyword k =>
          cases k with
          | ifKw =>
              rw [plain_atom_ite htoken, Readers.operand, htoken]
              exact reaches_iteTail hexpr eof ts (Nat.le_refl _)
          | letKw =>
              rw [plain_atom_let htoken, Readers.operand, htoken]
              exact reaches_letTail hty hexpr eof ts (Nat.le_refl _)
          | funKw =>
              rw [plain_atom_abs htoken, Readers.operand, htoken]
              exact reaches_absTail hty hexpr eof ts (Nat.le_refl _)
          | recKw | inKw | thenKw | elseKw | modKw | intKw | boolKw | anyKw =>
              rw [plain, atom, Readers.operand, htoken]
              rfl

theorem reaches_nextExpr (hatom : Reaches n self.atom (plain atom))
    (hextend : ∀ m, m < n → ∀ lhs power, Reaches m (self.extend lhs power) (extending lhs power)) :
    Reaches n self.nextExpr (plain expr) := by
  intro eof ts hle
  rw [plain_expr]
  refine bind_eq_some (hatom eof ts hle) ?_
  intro first rest hread
  have hshorter : rest.length < ts.length := (forget_eq_ok_iff.mp hread).shorter
  exact hextend rest.length (by omega) first 0 eof rest (Nat.le_refl _)

section

variable {lhs : Expr} {power eof : Nat} {lexeme : Lexeme} {ts : List Lexeme}

theorem round_cons :
    self.round lhs power eof (lexeme :: ts) =
      (match Joint.ofToken? lexeme.token with
      | none => return none
      | some joint =>
        if joint.left < power then return none
        else do
          joint.take
          let first ← self.atom
          let rhs ← self.extend first joint.right
          return some (joint.join lhs rhs) : Attempt (Option Expr)) eof (lexeme :: ts) := rfl

theorem round_stop (hstops : Stops power ts) :
    self.round lhs power eof ts = some (.ok (none, ts)) := by
  cases ts with
  | nil => rfl
  | cons lexeme ts =>
      rw [round_cons]
      cases hjoint : Joint.ofToken? lexeme.token with
      | none => rfl
      | some joint =>
          dsimp only
          rw [if_pos (hstops joint hjoint)]
          rfl

theorem round_joint {joint : Joint} (hjoint : Joint.ofToken? lexeme.token = some joint)
    (hpower : power ≤ joint.left) :
    self.round lhs power eof (lexeme :: ts) =
      (do
        joint.take
        let first ← self.atom
        let rhs ← self.extend first joint.right
        return some (joint.join lhs rhs) : Attempt (Option Expr)) eof (lexeme :: ts) := by
  rw [round_cons, hjoint]
  dsimp only
  rw [if_neg (Nat.not_lt_of_le hpower)]

theorem nextExtend_stop (hstops : Stops power ts) :
    self.nextExtend lhs power eof ts = some (.ok (lhs, ts)) := by
  have hround : self.round lhs power eof ts = (pure none : Attempt (Option Expr)) eof ts :=
    round_stop hstops
  rw [Readers.nextExtend, bind_of_eq hround, pure_bind]
  rfl

theorem nextExtend_joint {joint : Joint} (hjoint : Joint.ofToken? lexeme.token = some joint)
    (hpower : power ≤ joint.left) :
    self.nextExtend lhs power eof (lexeme :: ts) =
      (do
        joint.take
        let first ← self.atom
        let rhs ← self.extend first joint.right
        self.extend (joint.join lhs rhs) power : Attempt Expr) eof (lexeme :: ts) := by
  rw [Readers.nextExtend, bind_of_eq (round_joint hjoint hpower)]
  simp only [bind_assoc, pure_bind]

end

theorem reaches_nextExtend (hatom : Reaches n self.atom (plain atom))
    (hextend : ∀ m, m < n → ∀ lhs power, Reaches m (self.extend lhs power) (extending lhs power))
    (lhs : Expr) (power : Nat) : Reaches n (self.nextExtend lhs power) (extending lhs power) := by
  intro eof ts hle
  have hbehind : ∀ lhs power us, us.length < ts.length →
      self.extend lhs power eof us = some (extending lhs power eof us) := fun lhs power us hlt =>
    hextend us.length (by omega) lhs power eof us (Nat.le_refl _)
  by_cases hstops : Stops power ts
  · rw [nextExtend_stop hstops, extending_stop hstops]
  · cases ts with
    | nil => exact absurd trivial hstops
    | cons lexeme ts =>
        obtain ⟨joint, hjoint, hleft⟩ := exists_joint_of_not_stops hstops
        rw [nextExtend_joint hjoint hleft]
        rw [List.length_cons] at hle hbehind
        cases joint with
        | op o =>
            rw [extending_op hjoint hleft]
            refine bind_eq_some (hatom eof ts (by omega)) ?_
            intro first mid hfirst
            have hmid : mid.length < ts.length := (forget_eq_ok_iff.mp hfirst).shorter
            refine bind_eq_some (hbehind first _ mid (by omega)) ?_
            intro rhs rest hrhs
            have hrest : rest.length < mid.length + 1 := (forget_eq_ok_iff.mp hrhs).shorter
            exact hbehind _ power rest (by omega)
        | apply =>
            rw [extending_apply hjoint hleft]
            refine bind_eq_some (hatom eof (lexeme :: ts) (by simpa using hle)) ?_
            intro arg mid harg
            have hmid : mid.length < ts.length + 1 := (forget_eq_ok_iff.mp harg).shorter
            -- nothing holds its left operand as strongly as an application its right one
            have hstop : extending arg Joint.apply.right eof mid = .ok (arg, mid) :=
              extending_stop (stops_seven mid) eof
            have hstay : self.extend arg Joint.apply.right eof mid =
                (pure arg : Attempt Expr) eof mid :=
              (hbehind arg _ mid hmid).trans (congrArg some hstop)
            rw [bind_of_eq hstay, pure_bind]
            exact hbehind _ power mid hmid

/-! ## Layers -/

/-- As far as `depth` layers of calls go, the given readers answer like the readers.  An operand may be
read from the very list that an expression is called with, but it calls expressions on shorter lists
only: this makes two layers for each lexeme. -/
structure Readers.Reach (readers : Readers) (depth : Nat) : Prop where
  ty : ∀ n, n < depth → Reaches n readers.ty (plain Parser.ty)
  atom : ∀ n, 2 * n < depth → Reaches n readers.atom (plain Parser.atom)
  expr : ∀ n, 2 * n + 1 < depth → Reaches n readers.expr (plain Parser.expr)
  extend : ∀ n, 2 * n + 1 < depth → ∀ lhs power,
    Reaches n (readers.extend lhs power) (extending lhs power)

theorem Readers.Reach.next {depth : Nat} (h : self.Reach depth) : self.next.Reach (depth + 1) where
  ty n hn := reaches_nextTy fun m hm => h.ty m (by omega)
  atom n hn := reaches_nextAtom (fun m hm => h.ty m (by omega)) fun m hm => h.expr m (by omega)
  expr n hn := reaches_nextExpr (h.atom n (by omega)) fun m hm => h.extend m (by omega)
  extend n hn := reaches_nextExtend (h.atom n (by omega)) fun m hm => h.extend m (by omega)

/-- By induction on the number of layers; without any, nothing is asked. -/
theorem Readers.reach_within (depth : Nat) : (within depth).Reach depth := by
  induction depth with
  | zero => exact ⟨nofun, nofun, nofun, nofun⟩
  | succ depth ih => exact ih.next

theorem Readers.reach_actual (depth : Nat) : actual.Reach depth :=
  ⟨fun _ _ => reaches_sure _, fun _ _ => reaches_sure _, fun _ _ => reaches_sure _,
    fun _ _ _ _ => reaches_sure _⟩

/-- The readers are what one layer of calls makes of them. -/
theorem Readers.next_actual : actual.next = actual := by
  -- the readers answer like themselves, so a layer around them reaches every list
  have h : ∀ ts : List Lexeme, actual.next.Reach (2 * ts.length + 2) := fun ts =>
    (reach_actual (2 * ts.length + 1)).next
  have hty : actual.next.ty = actual.ty := by
    funext eof ts
    exact (h ts).ty ts.length (by omega) eof ts (Nat.le_refl _)
  have hexpr : actual.next.expr = actual.expr := by
    funext eof ts
    exact (h ts).expr ts.length (by omega) eof ts (Nat.le_refl _)
  have hextend : actual.next.extend = actual.extend := by
    funext lhs power eof ts
    exact (h ts).extend ts.length (by omega) lhs power eof ts (Nat.le_refl _)
  have hatom : actual.next.atom = actual.atom := by
    funext eof ts
    exact (h ts).atom ts.length (by omega) eof ts (Nat.le_refl _)
  rw [next, mk.injEq]
  exact ⟨hty, hexpr, hextend, hatom⟩

end

end Parser
end LambdaAny
