import Mathlib.Logic.Basic

/-!
# Horn clauses

Clauses over binary atoms, their models and their logical consequences.  Some of the symbols are
variables; the others are constants.  A ground atom is a consequence exactly when it is derivable.
-/

namespace Horn

universe u

structure Atom (Pred Sym : Type u) where
  predicate : Pred
  left : Sym
  right : Sym
  deriving DecidableEq

/-- The head holds if all atoms of the body hold. -/
structure Clause (Pred Sym : Type u) where
  head : Atom Pred Sym
  body : List (Atom Pred Sym)
  deriving DecidableEq

variable {Pred Sym : Type u}

/-! ### Models -/

structure Structure (Pred Sym : Type u) where
  Domain : Type u
  value : Sym → Domain
  Holds : Pred → Domain → Domain → Prop

section

variable (isVar : Sym → Bool)

/-- The value of a symbol under a valuation of the variables. -/
def Structure.eval (M : Structure Pred Sym) (v : Sym → M.Domain) (s : Sym) : M.Domain :=
  if isVar s then v s else M.value s

def Structure.Satisfies (M : Structure Pred Sym) (v : Sym → M.Domain) (a : Atom Pred Sym) : Prop :=
  M.Holds a.predicate (M.eval isVar v a.left) (M.eval isVar v a.right)

def Structure.Models (M : Structure Pred Sym) (clauses : List (Clause Pred Sym)) : Prop :=
  ∀ c ∈ clauses, ∀ v, (∀ b ∈ c.body, M.Satisfies isVar v b) → M.Satisfies isVar v c.head

/-- An atom holds in every model of the clauses. -/
def Consequence (clauses : List (Clause Pred Sym)) (a : Atom Pred Sym) : Prop :=
  ∀ M : Structure Pred Sym, M.Models isVar clauses → ∀ v, M.Satisfies isVar v a

/-! ### Derivations -/

/-- The variables have been replaced. -/
def subst (σ : Sym → Sym) (s : Sym) : Sym := if isVar s then σ s else s

def Atom.subst (σ : Sym → Sym) (a : Atom Pred Sym) : Atom Pred Sym :=
  ⟨a.predicate, Horn.subst isVar σ a.left, Horn.subst isVar σ a.right⟩

inductive Derives (clauses : List (Clause Pred Sym)) : Atom Pred Sym → Prop where
  | clause {c : Clause Pred Sym} (hc : c ∈ clauses) (σ : Sym → Sym)
      (hbody : ∀ b ∈ c.body, Derives clauses (b.subst isVar σ)) :
      Derives clauses (c.head.subst isVar σ)

variable {isVar}

/-- A derivable atom holds of the values of its symbols in every model. -/
theorem Derives.holds {clauses : List (Clause Pred Sym)} {a : Atom Pred Sym}
    (h : Derives isVar clauses a) {M : Structure Pred Sym} (hM : M.Models isVar clauses) :
  M.Holds a.predicate (M.value a.left) (M.value a.right)
  := by
  have heval : ∀ (σ : Sym → Sym) (s : Sym),
      M.eval isVar (fun s => M.value (σ s)) s = M.value (subst isVar σ s) := by
    intro σ s
    rw [Structure.eval, subst]
    split <;> rfl
  induction h with
  | @clause c hc σ _ ih =>
      have hhead := hM c hc (fun s => M.value (σ s))
      simp only [Structure.Satisfies, heval] at hhead
      exact hhead ih

/-- The structure of the derivable atoms. -/
def herbrand (isVar : Sym → Bool) (clauses : List (Clause Pred Sym)) : Structure Pred Sym where
  Domain := Sym
  value := id
  Holds p s t := Derives isVar clauses ⟨p, s, t⟩

theorem herbrand_models (clauses : List (Clause Pred Sym)) :
  (herbrand isVar clauses).Models isVar clauses
  := fun _ hc σ hbody => .clause hc σ hbody

/-- The consequences without variables are the derivable ones. -/
theorem consequence_iff {clauses : List (Clause Pred Sym)} {p : Pred} {s t : Sym}
    (hs : isVar s = false) (ht : isVar t = false) :
  Consequence isVar clauses ⟨p, s, t⟩ ↔ Derives isVar clauses ⟨p, s, t⟩
  := by
  constructor
  · intro h
    have hholds := h _ (herbrand_models clauses) id
    simp only [Structure.Satisfies, Structure.eval, hs, ht] at hholds
    exact hholds
  · intro h M hM v
    simp only [Structure.Satisfies, Structure.eval, hs, ht]
    exact h.holds hM

/-- A clause whose atoms become given atoms under a substitution. -/
theorem Derives.of_clause {clauses : List (Clause Pred Sym)} {c : Clause Pred Sym}
    (hc : c ∈ clauses) (σ : Sym → Sym) {a : Atom Pred Sym} (hhead : c.head.subst isVar σ = a)
    (hbody : ∀ b ∈ c.body, Derives isVar clauses (b.subst isVar σ)) :
  Derives isVar clauses a
  := hhead ▸ .clause hc σ hbody

end

end Horn
