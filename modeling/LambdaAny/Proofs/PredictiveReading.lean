import LambdaAny.Proofs.ParserSoundness

/-!
# Readers that complain at the first lexeme that does not fit

A reader predicts a language of token lists if it complains at the earliest lexeme that it can: what
it accepted before that lexeme begins some list of the language, and the lexeme itself settles the
answer, whatever stands behind it.  A reader that succeeds has read a list of the language, and its
answer is settled by one lexeme more.

Both halves are kept in one statement, since a sequence of readers needs them for the same place.
Sequences of readers predict sequences of languages, so the readers of types and of what stands in
front of a body follow from the readers of single tokens.
-/

namespace LambdaAny
namespace Parser

open Grammar

/-! ## Readers without bounds -/

/-- What a reader does to a list of lexemes. -/
abbrev Reader (α : Type) := (eof : Nat) → List Lexeme → Except ParseError (α × List Lexeme)

/-- An answer without its bound. -/
def forget {α : Type} {bound : Nat} :
    Except ParseError (Parsed α bound) → Except ParseError (α × List Lexeme)
  | .error err => .error err
  | .ok parsed => .ok (parsed.value, parsed.rest)

/-- A reader whose answers are stripped of their bounds. -/
def plain {α : Type} {bound : List Lexeme → Nat}
    (read : Nat → (ts : List Lexeme) → Except ParseError (Parsed α (bound ts))) : Reader α :=
  fun eof ts => forget (read eof ts)

namespace Reader

variable {α β : Type}

/-- Reads nothing. -/
def done (value : α) : Reader α := fun _ ts => .ok (value, ts)

/-- One reader, and another on what is left. -/
def andThen (first : Reader α) (next : α → Reader β) : Reader β := fun eof ts =>
  match first eof ts with
  | .error err => .error err
  | .ok (value, rest) => next value eof rest

theorem andThen_eq_error {first : Reader α} {next : α → Reader β} {eof : Nat} {ts : List Lexeme}
    {err : ParseError} (h : first.andThen next eof ts = .error err) :
    first eof ts = .error err ∨
      ∃ value rest, first eof ts = .ok (value, rest) ∧ next value eof rest = .error err := by
  rw [andThen] at h
  cases hfirst : first eof ts with
  | error err' =>
      rw [hfirst] at h
      cases h
      exact .inl rfl
  | ok answer =>
      rw [hfirst] at h
      exact .inr ⟨answer.1, answer.2, rfl, h⟩

/-- Reads one given token. -/
def just (token : Token) : Reader Unit := plain fun eof => expect eof token

end Reader

section

variable {α β : Type} {bound bound' : Nat}

theorem forget_eq_ok_iff {result : Except ParseError (Parsed α bound)} {value : α}
    {rest : List Lexeme} : forget result = .ok (value, rest) ↔ Reads result value rest := by
  cases result with
  | error err => simp [forget]
  | ok parsed =>
      obtain ⟨value', rest', hlt⟩ := parsed
      simp [forget]

theorem forget_eq_error_iff {result : Except ParseError (Parsed α bound)} {err : ParseError} :
    forget result = .error err ↔ result = .error err := by
  cases result with
  | error err' => simp [forget]
  | ok parsed => simp [forget]

theorem forget_bind {first : Except ParseError (Parsed α bound)}
    {next : Parsed α bound → Except ParseError (Parsed β bound')}
    {cont : α → List Lexeme → Except ParseError (β × List Lexeme)}
    (h : ∀ value rest hlt, forget (next ⟨value, rest, hlt⟩) = cont value rest) :
    forget (first >>= next) =
      match forget first with
      | .error err => .error err
      | .ok (value, rest) => cont value rest := by
  cases first with
  | error err => rfl
  | ok parsed => exact h parsed.value parsed.rest parsed.shorter

/-- A last step that only hands on what was read. -/
theorem forget_bind_done {first : Except ParseError (Parsed α bound)}
    {next : Parsed α bound → Except ParseError (Parsed α bound')}
    (h : ∀ value rest hlt, forget (next ⟨value, rest, hlt⟩) = .ok (value, rest)) :
    forget (first >>= next) = forget first := by
  cases first with
  | error err => rfl
  | ok parsed => exact h parsed.value parsed.rest parsed.shorter

end

/-! ## Languages -/

/-- A set of token lists, not empty. -/
structure Language where
  Spells : List Token → Prop
  exists_spells : ∃ us, Spells us

namespace Language

def just (token : Token) : Language := ⟨fun us => us = [token], [token], rfl⟩

def name : Language := ⟨fun us => ∃ name, us = [.ident name], [.ident ""], "", rfl⟩

/-- A list of the first language and one of the second behind it. -/
def followedBy (L M : Language) : Language where
  Spells us := ∃ ls ms, us = ls ++ ms ∧ L.Spells ls ∧ M.Spells ms
  exists_spells := by
    obtain ⟨ls, hls⟩ := L.exists_spells
    obtain ⟨ms, hms⟩ := M.exists_spells
    exact ⟨ls ++ ms, ls, ms, rfl, hls, hms⟩

def tyAtom : Language := ⟨fun us => ∃ whole, DerivesTy .atom us whole, _, _, .int⟩

def ty : Language := ⟨fun us => ∃ whole, DerivesTy .ty us whole, _, _, .ofAtom .int⟩

/-- What may stand behind a type that is not an arrow. -/
def arrowTail : Language where
  Spells us := us = [] ∨ ∃ vs cod, us = .symbol .arrow :: vs ∧ DerivesTy .ty vs cod
  exists_spells := ⟨[], .inl rfl⟩

/-- A name and its type, in parentheses. -/
def param : Language :=
  (just (.symbol .parenOpen)).followedBy <| name.followedBy <| (just (.symbol .colon)).followedBy <|
    ty.followedBy <| just (.symbol .parenClose)

theorem exists_of_param {us : List Token} (h : param.Spells us) :
    ∃ name ps paramTy, DerivesTy .ty ps paramTy ∧
      us = .symbol .parenOpen :: .ident name :: .symbol .colon ::
        (ps ++ [.symbol .parenClose]) := by
  obtain ⟨_, _, rfl, rfl, _, _, rfl, ⟨name, rfl⟩, _, _, rfl, rfl, ps, _, rfl, htype, rfl⟩ := h
  obtain ⟨paramTy, hps⟩ := htype
  exact ⟨name, ps, paramTy, hps, rfl⟩

end Language

/-! ## Prediction -/

/-- What a reader finds in front of the given lexemes. -/
def foundAt (eof : Nat) : List Lexeme → Found
  | [] => .eof eof
  | lexeme :: _ => .token lexeme

variable {α β : Type}

/-- If there is a lexeme at the front of `rest`, nothing behind it matters. -/
def Settles (R : Reader α) (front rest : List Lexeme)
    (outcome : List Lexeme → Except ParseError (α × List Lexeme)) : Prop :=
  ∀ lexeme tail, rest = lexeme :: tail →
    ∀ eof tail', R eof (front ++ lexeme :: tail') = outcome (lexeme :: tail')

/-- The reader predicts the language on this list of lexemes. -/
structure PredictsAt (Spells : List Token → Prop) (R : Reader α) (eof : Nat) (ts : List Lexeme) :
    Prop where
  reads : ∀ value rest, R eof ts = .ok (value, rest) →
    ∃ used, ts = used ++ rest ∧ Spells (used.map Lexeme.token) ∧
      Settles R used rest fun rest' => .ok (value, rest')
  complains : ∀ err, R eof ts = .error err →
    ∃ seen rest, ts = seen ++ rest ∧ err.found = foundAt eof rest ∧
      (∃ more, Spells (seen.map Lexeme.token ++ more)) ∧ Settles R seen rest fun _ => .error err

/-- The reader predicts the language on all lists of at most `n` lexemes. -/
def Predicts (n : Nat) (L : Language) (R : Reader α) : Prop :=
  ∀ eof ts, ts.length ≤ n → PredictsAt L.Spells R eof ts

section

variable {Spells Spells' : List Token → Prop} {R S : Reader α} {next : α → Reader β} {eof : Nat}
  {lexeme : Lexeme} {front seen mid rest ts : List Lexeme} {value : α}

theorem Settles.andThen {outcome : List Lexeme → Except ParseError (β × List Lexeme)}
    (hfirst : Settles R front mid fun mid' => .ok (value, mid')) (hmid : mid = seen ++ rest)
    (hnext : Settles (next value) seen rest outcome) :
    Settles (R.andThen next) (front ++ seen) rest outcome := by
  rintro lexeme tail rfl eof tail'
  have hread : R eof (front ++ (seen ++ lexeme :: tail')) =
      .ok (value, seen ++ lexeme :: tail') := by
    -- the first reader is settled by the lexeme behind it, which is in `seen` or right behind that
    cases seen with
    | nil => exact hfirst lexeme tail hmid eof tail'
    | cons second seen => exact hfirst second _ hmid eof _
  rw [List.append_assoc, Reader.andThen, hread]
  exact hnext lexeme tail rfl eof tail'

theorem Settles.andThen_error {err : ParseError} (h : Settles R seen rest fun _ => .error err) :
    Settles (R.andThen next) seen rest fun _ => .error err := by
  intro lexeme tail hrest eof tail'
  rw [Reader.andThen, h lexeme tail hrest eof tail']

theorem PredictsAt.mono (h : PredictsAt Spells R eof ts) (hsub : ∀ us, Spells us → Spells' us) :
    PredictsAt Spells' R eof ts := by
  constructor
  · intro value rest hread
    obtain ⟨used, hts, hused, hsettles⟩ := h.reads value rest hread
    exact ⟨used, hts, hsub _ hused, hsettles⟩
  · intro err hread
    obtain ⟨seen, rest, hts, hfound, ⟨more, hmore⟩, hsettles⟩ := h.complains err hread
    exact ⟨seen, rest, hts, hfound, ⟨more, hsub _ hmore⟩, hsettles⟩

/-- A reader behind another predicts what can follow the lexemes that the first one used.  Whatever
the first can read must be the beginning of something. -/
theorem PredictsAt.andThen {Spells₁ : List Token → Prop} (hfirst : PredictsAt Spells₁ R eof ts)
    (hgoes : ∀ us, Spells₁ us → ∃ more, Spells (us ++ more))
    (hnext : ∀ value used rest, R eof ts = .ok (value, rest) → ts = used ++ rest →
      Spells₁ (used.map Lexeme.token) →
      PredictsAt (fun us => Spells (used.map Lexeme.token ++ us)) (next value) eof rest) :
    PredictsAt Spells (R.andThen next) eof ts := by
  constructor
  · intro value rest hread
    cases hmid : R eof ts with
    | error err =>
        rw [Reader.andThen, hmid] at hread
        cases hread
    | ok answer =>
        obtain ⟨a, mid⟩ := answer
        rw [Reader.andThen, hmid] at hread
        obtain ⟨used, rfl, hused, hsettles⟩ := hfirst.reads a mid hmid
        obtain ⟨used', rfl, hused', hsettles'⟩ :=
          (hnext a used mid hmid rfl hused).reads value rest hread
        refine ⟨used ++ used', by simp, by simpa using hused', hsettles.andThen rfl hsettles'⟩
  · intro err hread
    cases hmid : R eof ts with
    | error err' =>
        rw [Reader.andThen, hmid] at hread
        cases hread
        obtain ⟨seen, rest, hts, hfound, ⟨more, hmore⟩, hsettles⟩ := hfirst.complains err hmid
        obtain ⟨more', hmore'⟩ := hgoes _ hmore
        exact ⟨seen, rest, hts, hfound, ⟨more ++ more', by simpa using hmore'⟩,
          hsettles.andThen_error⟩
    | ok answer =>
        obtain ⟨a, mid⟩ := answer
        rw [Reader.andThen, hmid] at hread
        obtain ⟨used, rfl, hused, hsettles⟩ := hfirst.reads a mid hmid
        obtain ⟨seen, rest, rfl, hfound, ⟨more, hmore⟩, hsettles'⟩ :=
          (hnext a used mid hmid rfl hused).complains err hread
        exact ⟨used ++ seen, rest, by simp, hfound, ⟨more, by simpa using hmore⟩,
          hsettles.andThen rfl hsettles'⟩

theorem predictsAt_done (h : Spells []) : PredictsAt Spells (Reader.done value) eof ts := by
  constructor
  · rintro _ _ ⟨⟩
    exact ⟨[], rfl, h, fun _ _ _ _ _ => rfl⟩
  · rintro _ ⟨⟩

/-- Where something must stand, the end is complained of. -/
theorem predictsAt_nil (err : ParseError) (hR : R eof [] = .error err)
    (hfound : err.found = .eof eof) (hsome : ∃ us, Spells us) : PredictsAt Spells R eof [] := by
  constructor
  · intro value rest hread
    rw [hR] at hread
    cases hread
  · intro err' hread
    rw [hR] at hread
    cases hread
    exact ⟨[], [], rfl, hfound, hsome, nofun⟩

/-- A lexeme that fits nothing is complained of at once. -/
theorem predictsAt_reject (err : ParseError) (hR : ∀ eof ts, R eof (lexeme :: ts) = .error err)
    (hfound : err.found = .token lexeme) (hsome : ∃ us, Spells us) :
    PredictsAt Spells R eof (lexeme :: ts) := by
  constructor
  · intro value rest hread
    rw [hR] at hread
    cases hread
  · intro err' hread
    rw [hR] at hread
    cases hread
    refine ⟨[], lexeme :: ts, rfl, hfound, hsome, ?_⟩
    rintro _ _ ⟨⟩ eof' tail'
    exact hR eof' tail'

/-- A lexeme that is taken whatever follows it. -/
theorem PredictsAt.cons (hR : ∀ eof ts, R eof (lexeme :: ts) = S eof ts)
    (h : PredictsAt (fun us => Spells (lexeme.token :: us)) S eof ts) :
    PredictsAt Spells R eof (lexeme :: ts) := by
  constructor
  · intro value rest hread
    rw [hR] at hread
    obtain ⟨used, rfl, hused, hsettles⟩ := h.reads value rest hread
    refine ⟨lexeme :: used, rfl, hused, ?_⟩
    intro next tail hrest eof' tail'
    exact (hR _ _).trans (hsettles next tail hrest eof' tail')
  · intro err hread
    rw [hR] at hread
    obtain ⟨seen, rest, rfl, hfound, hmore, hsettles⟩ := h.complains err hread
    refine ⟨lexeme :: seen, rest, rfl, hfound, hmore, ?_⟩
    intro next tail hrest eof' tail'
    exact (hR _ _).trans (hsettles next tail hrest eof' tail')

/-- Readers that agree on all lists with the same first lexeme, or at the end. -/
theorem PredictsAt.congr (hR : ∀ eof us, us.head? = ts.head? → R eof us = S eof us)
    (h : PredictsAt Spells S eof ts) : PredictsAt Spells R eof ts := by
  have hsettles : ∀ {front rest outcome}, ts = front ++ rest →
      Settles S front rest outcome → Settles R front rest outcome := by
    rintro front _ outcome rfl hsettles next tail rfl eof' tail'
    rw [← hsettles next tail rfl eof' tail']
    apply hR
    cases front <;> rfl
  have hread : R eof ts = S eof ts := hR eof ts rfl
  constructor
  · intro value rest hvalue
    obtain ⟨used, hts, hused, hsettles'⟩ := h.reads value rest (hread ▸ hvalue)
    exact ⟨used, hts, hused, hsettles hts hsettles'⟩
  · intro err herr
    obtain ⟨seen, rest, hts, hfound, hmore, hsettles'⟩ := h.complains err (hread ▸ herr)
    exact ⟨seen, rest, hts, hfound, hmore, hsettles hts hsettles'⟩

end

/-! ## Sequences -/

section

variable {n : Nat} {L M : Language} {R : Reader α} {next : α → Reader β}

theorem Predicts.mono_language (h : Predicts n L R) (hsub : ∀ us, L.Spells us → M.Spells us) :
    Predicts n M R := fun eof ts hle => (h eof ts hle).mono hsub

theorem Predicts.followedBy (hfirst : Predicts n L R) (hnext : ∀ value, Predicts n M (next value)) :
    Predicts n (L.followedBy M) (R.andThen next) := by
  intro eof ts hle
  refine (hfirst eof ts hle).andThen ?_ ?_
  · intro us hus
    obtain ⟨more, hmore⟩ := M.exists_spells
    exact ⟨more, us, more, rfl, hus, hmore⟩
  · rintro value used rest - rfl hused
    have hrest : rest.length ≤ n := by
      rw [List.length_append] at hle
      omega
    exact (hnext value eof rest hrest).mono fun us hus => ⟨_, us, rfl, hused, hus⟩

/-- The last reader of a sequence, with what the sequence makes of it. -/
theorem Predicts.map (h : Predicts n L R) (f : α → β) :
    Predicts n L (R.andThen fun value => .done (f value)) := by
  intro eof ts hle
  refine (h eof ts hle).andThen (fun us hus => ⟨[], by simpa using hus⟩) ?_
  rintro value used rest - - hused
  exact predictsAt_done (by simpa using hused)

theorem predicts_just (token : Token) :
    Predicts n (.just token) (.just token) := by
  intro eof ts _
  cases ts with
  | nil => exact predictsAt_nil _ rfl rfl (Language.exists_spells _)
  | cons lexeme ts =>
      by_cases htoken : lexeme.token = token
      · refine .cons (S := .done ()) ?_ (predictsAt_done ?_)
        · intro eof ts
          simp [Reader.just, plain, expect, htoken, forget, Reader.done]
        · simp [Language.just, htoken]
      · refine predictsAt_reject (.expectedToken token (.token lexeme)) ?_ rfl
          (Language.exists_spells _)
        intro eof ts
        simp [Reader.just, plain, expect, htoken, forget]

theorem predicts_ident : Predicts n .name (plain ident) := by
  intro eof ts _
  cases ts with
  | nil => exact predictsAt_nil _ rfl rfl (Language.exists_spells _)
  | cons lexeme ts =>
      have hreject : (∀ name, lexeme.token ≠ .ident name) →
          PredictsAt Language.name.Spells (plain ident) eof (lexeme :: ts) := by
        intro hno
        refine predictsAt_reject (.expectedIdent (.token lexeme)) ?_ rfl
          (Language.exists_spells _)
        intro eof ts
        rw [plain, ident]
        split
        next name htoken => exact absurd htoken (hno name)
        next => rfl
      cases htoken : lexeme.token with
      | ident name =>
          refine .cons (S := .done name) ?_ (predictsAt_done ?_)
          · intro eof ts
            simp [plain, ident, htoken, forget, Reader.done]
          · exact ⟨name, by rw [htoken]⟩
      | int n => exact hreject (by simp [htoken])
      | bool b => exact hreject (by simp [htoken])
      | keyword k => exact hreject (by simp [htoken])
      | symbol s => exact hreject (by simp [htoken])

end

/-! ## Types -/

/-- Reads what stands behind a type that is not an arrow. -/
def arrowTail (dom : Ty) : Reader Ty := fun eof ts =>
  match ts with
  | [] => .ok (dom, [])
  | lexeme :: rest =>
    if lexeme.token = .symbol .arrow then
      ((plain ty).andThen fun cod => .done (.arrow dom cod)) eof rest
    else .ok (dom, lexeme :: rest)

theorem plain_ty : plain ty = (plain tyAtom).andThen arrowTail := by
  funext eof ts
  rw [plain, ty]
  refine forget_bind fun dom rest hlt => ?_
  cases rest with
  | nil => rfl
  | cons lexeme rest =>
      rw [arrowTail]
      by_cases harrow : lexeme.token = .symbol .arrow
      · simp only [if_pos harrow]
        exact forget_bind fun _ _ _ => rfl
      · simp only [if_neg harrow]
        rfl

theorem plain_tyAtom_parens {lexeme : Lexeme} (h : lexeme.token = .symbol .parenOpen) (eof : Nat)
    (ts : List Lexeme) :
    plain tyAtom eof (lexeme :: ts) =
      ((plain ty).andThen fun inner =>
        (Reader.just (.symbol .parenClose)).andThen fun _ => .done inner) eof ts := by
  rw [plain, tyAtom]
  simp only [h]
  exact forget_bind fun _ _ _ => forget_bind fun _ _ _ => rfl

/-- The first token alone decides what the reader does. -/
theorem plain_tyAtom_cases (token : Token) :
    (∃ whole, DerivesTy .atom [token] whole ∧ ∀ lexeme, lexeme.token = token → ∀ eof ts,
        plain tyAtom eof (lexeme :: ts) = .ok (whole, ts)) ∨
      token = .symbol .parenOpen ∨
      ∀ lexeme, lexeme.token = token → ∀ eof ts,
        plain tyAtom eof (lexeme :: ts) = .error (.expectedType (.token lexeme)) := by
  by_cases hint : token = .keyword .intKw
  · exact .inl ⟨.int, hint ▸ .int, fun _ h eof ts => by simp [plain, tyAtom, h, hint, forget]⟩
  by_cases hbool : token = .keyword .boolKw
  · exact .inl ⟨.bool, hbool ▸ .bool, fun _ h eof ts => by simp [plain, tyAtom, h, hbool, forget]⟩
  by_cases hany : token = .keyword .anyKw
  · exact .inl ⟨.any, hany ▸ .any, fun _ h eof ts => by simp [plain, tyAtom, h, hany, forget]⟩
  by_cases hopen : token = .symbol .parenOpen
  · exact .inr (.inl hopen)
  refine .inr (.inr ?_)
  rintro lexeme rfl eof ts
  rw [plain, tyAtom]
  split
  next h => exact absurd h hint
  next h => exact absurd h hbool
  next h => exact absurd h hany
  next h => exact absurd h hopen
  next => rfl

section

variable {n : Nat}

theorem predicts_tyAtom (hty : ∀ m, m < n → Predicts m .ty (plain ty)) :
    Predicts n .tyAtom (plain tyAtom) := by
  intro eof ts hle
  cases ts with
  | nil =>
      refine predictsAt_nil (.expectedType (.eof eof)) ?_ rfl (Language.exists_spells _)
      rw [plain, tyAtom]
      rfl
  | cons lexeme ts =>
      rcases plain_tyAtom_cases lexeme.token with ⟨whole, hwhole, hread⟩ | hopen | hreject
      · exact .cons (S := .done whole) (hread lexeme rfl) (predictsAt_done ⟨whole, hwhole⟩)
      · refine .cons (plain_tyAtom_parens hopen) ?_
        have hinner : Predicts ts.length .ty (plain ty) := hty _ hle
        refine ((hinner.followedBy fun inner => (predicts_just _).map fun _ => inner) eof ts
          (Nat.le_refl _)).mono ?_
        rintro _ ⟨us, _, rfl, ⟨inner, hus⟩, rfl⟩
        exact ⟨inner, hopen ▸ .parens hus⟩
      · exact predictsAt_reject _ (hreject lexeme rfl) rfl (Language.exists_spells _)

theorem predicts_arrowTail (hty : ∀ m, m < n → Predicts m .ty (plain ty)) (dom : Ty) :
    Predicts n .arrowTail (arrowTail dom) := by
  intro eof ts hle
  cases ts with
  | nil =>
      refine .congr (S := .done dom) ?_ (predictsAt_done (.inl rfl))
      intro eof us hus
      rw [List.head?_eq_none_iff.mp hus]
      rfl
  | cons lexeme ts =>
      by_cases harrow : lexeme.token = .symbol .arrow
      · refine .cons (fun eof ts => if_pos harrow) ?_
        refine (((hty ts.length hle).map (Ty.arrow dom)) eof ts (Nat.le_refl _)).mono ?_
        rintro us ⟨cod, hcod⟩
        exact .inr ⟨us, cod, by rw [harrow], hcod⟩
      · refine .congr (S := .done dom) ?_ (predictsAt_done (.inl rfl))
        intro eof us hus
        obtain ⟨rest, rfl⟩ := List.head?_eq_some_iff.mp hus
        exact if_neg harrow

theorem predicts_ty (n : Nat) : Predicts n .ty (plain ty) := by
  induction n using Nat.strongRecOn with
  | ind n ih =>
      rw [plain_ty]
      refine ((predicts_tyAtom ih).followedBy (predicts_arrowTail ih)).mono_language ?_
      rintro _ ⟨us, _, rfl, ⟨dom, hdom⟩, rfl | ⟨vs, cod, rfl, hcod⟩⟩
      · rw [List.append_nil]
        exact ⟨dom, .ofAtom hdom⟩
      · exact ⟨_, .arrow hdom hcod⟩

/-! ## What stands in front of a body -/

theorem plain_param :
    plain param =
      (Reader.just (.symbol .parenOpen)).andThen fun _ =>
      (plain ident).andThen fun name =>
      (Reader.just (.symbol .colon)).andThen fun _ =>
      (plain ty).andThen fun paramTy =>
      (Reader.just (.symbol .parenClose)).andThen fun _ => .done (name, paramTy) := by
  funext eof ts
  exact forget_bind fun _ _ _ => forget_bind fun _ _ _ => forget_bind fun _ _ _ =>
    forget_bind fun _ _ _ => forget_bind fun _ _ _ => rfl

theorem plain_funHead :
    plain funHead =
      (plain param).andThen fun head =>
      (Reader.just (.symbol .arrow)).andThen fun _ => .done head := by
  funext eof ts
  exact forget_bind fun _ _ _ => forget_bind fun _ _ _ => rfl

theorem plain_letHead :
    plain letHead =
      (plain ident).andThen fun binder =>
      (Reader.just (.symbol .equals)).andThen fun _ => .done binder := by
  funext eof ts
  exact forget_bind fun _ _ _ => forget_bind fun _ _ _ => rfl

theorem plain_recHead :
    plain recHead =
      (plain ident).andThen fun func =>
      (plain param).andThen fun param =>
      (Reader.just (.symbol .colon)).andThen fun _ =>
      (plain ty).andThen fun ret =>
      (Reader.just (.symbol .equals)).andThen fun _ =>
        .done ⟨func, param.1, param.2, ret⟩ := by
  funext eof ts
  exact forget_bind fun _ _ _ => forget_bind fun _ _ _ => forget_bind fun _ _ _ =>
    forget_bind fun _ _ _ => forget_bind fun _ _ _ => rfl

theorem predicts_param : Predicts n .param (plain param) := by
  rw [plain_param]
  exact (predicts_just _).followedBy fun _ => predicts_ident.followedBy fun name =>
    (predicts_just _).followedBy fun _ => (predicts_ty n).followedBy fun paramTy =>
      (predicts_just _).map fun _ => (name, paramTy)

theorem predicts_funHead :
    Predicts n (Language.param.followedBy (.just (.symbol .arrow))) (plain funHead) := by
  rw [plain_funHead]
  exact predicts_param.followedBy fun head => (predicts_just _).map fun _ => head

theorem predicts_letHead :
    Predicts n (Language.name.followedBy (.just (.symbol .equals))) (plain letHead) := by
  rw [plain_letHead]
  exact predicts_ident.followedBy fun binder => (predicts_just _).map fun _ => binder

theorem predicts_recHead :
    Predicts n
      (Language.name.followedBy <| Language.param.followedBy <|
        (Language.just (.symbol .colon)).followedBy <| Language.ty.followedBy <|
          .just (.symbol .equals))
      (plain recHead) := by
  rw [plain_recHead]
  exact predicts_ident.followedBy fun func => predicts_param.followedBy fun param =>
    (predicts_just _).followedBy fun _ => (predicts_ty n).followedBy fun ret =>
      (predicts_just _).map fun _ => RecHead.mk func param.1 param.2 ret

end

end Parser
end LambdaAny
