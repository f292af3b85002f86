import LambdaAny.Text.Quoted

/-!
# Environments

An environment binds names to values.  A newer binding of a name hides the older ones; they stay in
the list, so two environments that answer every lookup alike need not be equal.
-/

namespace LambdaAny

/-- Bindings, newest first. -/
structure Env (α : Type) where
  bindings : List (String × α)
deriving Repr

namespace Env

variable {α : Type}

/-- No name is bound. -/
def empty : Env α := ⟨[]⟩

instance : EmptyCollection (Env α) := ⟨empty⟩

instance : Inhabited (Env α) := ⟨empty⟩

/-- The environment in which `name` has the value `a` and every other name keeps its own. -/
def update (env : Env α) (name : String) (a : α) : Env α :=
  ⟨(name, a) :: env.bindings⟩

/-- The newest value of `name`. -/
def lookup? (env : Env α) (name : String) : Option α :=
  env.bindings.lookup name

/-- Whether `name` has a value. -/
def contains (env : Env α) (name : String) : Bool :=
  (env.lookup? name).isSome

/-- The environment that a list of bindings builds from its front; later ones hide earlier ones. -/
def ofList (entries : List (String × α)) : Env α :=
  entries.foldl (fun env entry => env.update entry.1 entry.2) empty

@[simp] theorem lookup?_empty (name : String) : (empty : Env α).lookup? name = none := rfl

@[simp] theorem lookup?_update_self (env : Env α) (name : String) (a : α) :
    (env.update name a).lookup? name = some a := by
  simp [lookup?, update]

theorem lookup?_update_of_ne {name other : String} (h : other ≠ name) (env : Env α) (a : α) :
    (env.update name a).lookup? other = env.lookup? other := by
  have hne : (other == name) = false := beq_eq_false_iff_ne.mpr h
  simp [lookup?, update, List.lookup_cons, hne]

theorem lookup?_update (env : Env α) (name other : String) (a : α) :
    (env.update name a).lookup? other = if other = name then some a else env.lookup? other := by
  by_cases h : other = name
  · simp [h]
  · simp [h, lookup?_update_of_ne h]

theorem contains_update_iff {env : Env α} {name other : String} {a : α} :
    (env.update name a).contains other = true ↔ other = name ∨ env.contains other = true := by
  unfold contains
  rw [lookup?_update]
  by_cases h : other = name
  · simp [h]
  · simp [h]

/-- The environment in which each name has the image of its value. -/
def map {β : Type} (f : α → β) (env : Env α) : Env β :=
  ⟨env.bindings.map fun (name, a) => (name, f a)⟩

theorem map_update {β : Type} (f : α → β) (env : Env α) (name : String) (a : α) :
    (env.update name a).map f = (env.map f).update name (f a) := rfl

theorem lookup?_map {β : Type} (f : α → β) (env : Env α) (name : String) :
    (env.map f).lookup? name = (env.lookup? name).map f := by
  obtain ⟨bindings⟩ := env
  simp only [lookup?, map]
  induction bindings with
  | nil => rfl
  | cons entry bindings ih =>
      obtain ⟨other, a⟩ := entry
      rw [List.map_cons, List.lookup_cons, List.lookup_cons, ih]
      cases name == other with
      | true => rfl
      | false => rfl

/-- Each name that `pattern` binds is bound to something related to what `pattern` gives it.  More
names may be bound. -/
def Matches {β : Type} (related : α → β → Prop) (env : Env α) (pattern : Env β) : Prop :=
  ∀ name b, pattern.lookup? name = some b → ∃ a, env.lookup? name = some a ∧ related a b

theorem Matches.of_empty {β : Type} (related : α → β → Prop) (env : Env α) :
    env.Matches related ∅ := by
  intro name b hlookup
  cases hlookup

theorem Matches.update {β : Type} {related : α → β → Prop} {env : Env α} {pattern : Env β}
    (h : env.Matches related pattern) (name : String) {a : α} {b : β} (hab : related a b) :
    (env.update name a).Matches related (pattern.update name b) := by
  intro other found hlookup
  by_cases hname : other = name
  · subst hname
    obtain rfl : b = found := by simpa using hlookup
    exact ⟨a, by simp, hab⟩
  · rw [lookup?_update_of_ne hname] at hlookup ⊢
    exact h other found hlookup

theorem Matches.bound {β : Type} {related : α → β → Prop} {env : Env α} {pattern : Env β}
    (h : env.Matches related pattern) (name : String) (b : β)
    (hpattern : pattern.lookup? name = some b) : ∃ a, env.lookup? name = some a := by
  obtain ⟨a, ha, _⟩ := h name b hpattern
  exact ⟨a, ha⟩

theorem Matches.values {β : Type} {related : α → β → Prop} {env : Env α} {pattern : Env β}
    (h : env.Matches related pattern) (name : String) (b : β) (a : α)
    (hpattern : pattern.lookup? name = some b) (henv : env.lookup? name = some a) :
    related a b := by
  obtain ⟨found, hfound, hrelated⟩ := h name b hpattern
  obtain rfl : found = a := Option.some.inj (hfound.symm.trans henv)
  exact hrelated

theorem Matches.of_parts {β : Type} {related : α → β → Prop} {env : Env α} {pattern : Env β}
    (hbound : ∀ name b, pattern.lookup? name = some b → ∃ a, env.lookup? name = some a)
    (hvalues : ∀ name b a, pattern.lookup? name = some b → env.lookup? name = some a →
      related a b) : env.Matches related pattern := by
  intro name b hpattern
  obtain ⟨a, ha⟩ := hbound name b hpattern
  exact ⟨a, ha, hvalues name b a hpattern ha⟩

/-- Both environments bind the name, and to something related, or neither binds it. -/
def RelatedAt {β : Type} (related : α → β → Prop) (env : Env α) (env' : Env β) (name : String) :
    Prop :=
  Option.Rel related (env.lookup? name) (env'.lookup? name)

theorem RelatedAt.lookup {β : Type} {related : α → β → Prop} {env : Env α} {env' : Env β}
    {name : String} (h : env.RelatedAt related env' name) :
    env.lookup? name = none ∧ env'.lookup? name = none ∨
      ∃ a b, env.lookup? name = some a ∧ env'.lookup? name = some b ∧ related a b := by
  unfold RelatedAt at h
  generalize env.lookup? name = found, env'.lookup? name = found' at h
  cases h with
  | none => exact .inl ⟨rfl, rfl⟩
  | some hab => exact .inr ⟨_, _, rfl, rfl, hab⟩

theorem RelatedAt.update {β : Type} {related : α → β → Prop} {env : Env α} {env' : Env β}
    {name binder : String} (h : name = binder ∨ env.RelatedAt related env' name) {a : α} {b : β}
    (hab : related a b) : (env.update binder a).RelatedAt related (env'.update binder b) name := by
  unfold RelatedAt
  rw [lookup?_update, lookup?_update]
  by_cases hname : name = binder
  · rw [if_pos hname, if_pos hname]
    exact .some hab
  · rw [if_neg hname, if_neg hname]
    exact h.resolve_left hname

theorem relatedAt_of_lookup?_eq {related : α → α → Prop} {env env' : Env α} {name : String}
    (h : env.lookup? name = env'.lookup? name)
    (hself : ∀ a, env'.lookup? name = some a → related a a) : env.RelatedAt related env' name := by
  unfold RelatedAt
  rw [h]
  cases hlookup : env'.lookup? name with
  | none => exact .none
  | some a => exact .some (hself a hlookup)

/-- The visible bindings, newest first: each bound name once, with the value that a lookup finds. -/
def entries (env : Env α) : List (String × α) :=
  go [] env.bindings
where
  go (seen : List String) : List (String × α) → List (String × α)
    | [] => []
    | (name, a) :: rest =>
      if name ∈ seen then go seen rest else (name, a) :: go (name :: seen) rest

/-- The visible bindings of an environment of texts, between braces. -/
def render (env : Env String) : String :=
  let parts := env.entries.map fun (name, value) => Text.quoted name ++ ": " ++ Text.quoted value
  "\x7b" ++ ", ".intercalate parts ++ "\x7d"

end Env
end LambdaAny
