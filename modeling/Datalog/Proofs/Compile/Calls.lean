import Datalog.Proofs.Compile.Body
import Datalog.Proofs.Totality

/-!
# Proofs/Compile/Calls — compilation invents no terms and no goals

Whatever a draft evaluates is put together from the rule's terms: a condition that variables meet,
that constructors hand down to their arguments and that substitution keeps (`Term.Stable`) passes
from the rule to the steps and to what is inlined.  So a clause calls the functions that its rule
calls, with as many arguments, and the clause of a rule without constructors has none either.  Its
goals are the atoms of the rule.  The statements are triples: each part of compilation keeps
`Draft.Made` and says something about its result.  They also say that the numbers of invented
variables rise, even where compilation stops, since what follows a refusal goes on counting from
there.
-/

namespace Datalog

/-- **All calls of the draft** are in the list. -/
structure Draft.CallsIn (calls : List (String × Nat)) (d : Draft) : Prop where
  steps : ∀ step ∈ d.steps, ∀ t ∈ step.terms, t.calls ⊆ calls
  inlined : ∀ v t, d.inlined.get? v = some t → t.calls ⊆ calls

/-- Its calls are in the list, and its goals satisfy the condition. -/
structure Draft.From (calls : List (String × Nat)) (asks : Goal → Prop) (d : Draft) : Prop
    extends d.CallsIn calls where
  goals : ∀ g, .lookup g ∈ d.steps → asks g

/-- **A condition on terms that compilation keeps.** -/
structure Term.Stable (P : Term → Prop) : Prop where
  var : ∀ v, P (.var v)
  arg : ∀ {f args}, P (.ctor f args) → ∀ a ∈ args, P a
  substitute : ∀ {σ : Bindings} {t}, (∀ v u, σ.get? v = some u → P u) → P t → P (t.substitute σ)

/-- **The step is made of such terms**: what it takes apart is to match one of them as well.  Its
goal satisfies the condition `asks`. -/
structure Step.Made (P : Term → Prop) (asks : Goal → Prop) (s : Step) : Prop where
  terms : ∀ t ∈ s.terms, P t
  taken : ∀ t f ys, s = .destruct t f ys → ∃ args, P (.ctor f args)
  goal : ∀ g, s = .lookup g → asks g

/-- **A draft that is made of such terms**: they satisfy `P` in every step and wherever one is
inlined, and every goal satisfies `asks`. -/
structure Draft.Made (P : Term → Prop) (asks : Goal → Prop) (d : Draft) : Prop where
  steps : ∀ step ∈ d.steps, step.Made P asks
  inlined : ∀ v t, d.inlined.get? v = some t → P t

theorem Draft.Made.start {P : Term → Prop} {asks : Goal → Prop} {next : Nat} :
    ({ next } : Draft).Made P asks :=
  ⟨nofun, nofun⟩

/-- The calls of a term, as a condition. -/
theorem Term.Stable.calls (C : List (String × Nat)) : Term.Stable fun t => t.calls ⊆ C where
  var _ := List.nil_subset _
  arg h a ha _ hx := h (Term.mem_callsOf.2 ⟨a, ha, hx⟩)
  substitute hσ ht := Term.calls_substitute hσ ht

/-- The terms of a literal. -/
def Literal.terms : Literal → List Term
  | .atom a => a.args
  | .unify l r _ => [l, r]

/-- The calls of an atom's arguments. -/
def Atom.calls (a : Atom) : List (String × Nat) := Term.callsOf a.args

/-- The calls of a literal. -/
def Literal.calls : Literal → List (String × Nat)
  | .atom a => a.calls
  | .unify l r _ => l.calls ++ r.calls

theorem Literal.mem_calls {x : String × Nat} {l : Literal} :
    x ∈ l.calls ↔ ∃ t ∈ l.terms, x ∈ t.calls := by
  cases l with
  | atom a => exact Term.mem_callsOf
  | unify l r negated => simp [calls, terms]

/-- **The goal asks for the atom**, among new tuples if it is marked. -/
structure Goal.Asks (delta : Bool) (a : Atom) (g : Goal) : Prop where
  relation : g.relation = a.relation
  negated : g.negated = a.negated
  delta : g.delta = delta

/-- **The calls of a rule**, of the head and then of the body. -/
def Rule.calls (r : Rule) : List (String × Nat) := r.head.calls ++ r.body.flatMap Literal.calls

namespace Compile

variable {P : Term → Prop} {K : Goal → Prop}

/-- **The terms and the goals stay as they are to be**, what is returned satisfies the condition,
and the numbers rise. -/
def Makes (P : Term → Prop) (K : Goal → Prop) (x : Compile α) (Q : α → Prop) : Prop :=
  ∀ d, Draft.Made P K d →
    (∀ a d', x d = .ok a d' → (d.next ≤ d'.next ∧ d'.Made P K) ∧ Q a) ∧
      ∀ e d', x d = .error e d' → d.next ≤ d'.next

namespace Makes

variable {α β : Type} {x : Compile α} {f : α → Compile β} {Q : α → Prop} {R : β → Prop}

theorem bind (hx : Makes P K x Q) (hf : ∀ a, Q a → Makes P K (f a) R) : Makes P K (x >>= f) R := by
  intro d hd
  refine ⟨fun b d'' ok => ?_, fun e d'' error => ?_⟩
  · obtain ⟨a, d', first, ok⟩ := Outcome.bind_ok_iff.1 ok
    obtain ⟨⟨rises, hd'⟩, ha⟩ := (hx d hd).1 a d' first
    obtain ⟨⟨rises', hd''⟩, hb⟩ := (hf a ha d' hd').1 b d'' ok
    exact ⟨⟨Nat.le_trans rises rises', hd''⟩, hb⟩
  · rcases Outcome.bind_error_iff.1 error with error | ⟨a, d', first, error⟩
    · exact (hx d hd).2 e d'' error
    · obtain ⟨⟨rises, hd'⟩, ha⟩ := (hx d hd).1 a d' first
      exact Nat.le_trans rises ((hf a ha d' hd').2 e d'' error)

/-- An action that is never refused. -/
theorem done (h : ∀ d, Draft.Made P K d →
    ∃ a d', x d = .ok a d' ∧ (d.next ≤ d'.next ∧ d'.Made P K) ∧ Q a) : Makes P K x Q := by
  intro d hd
  obtain ⟨a, d', hx, result⟩ := h d hd
  refine ⟨fun b d'' ok => ?_, fun e d'' error => ?_⟩
  · rw [hx] at ok
    cases ok
    exact result
  · rw [hx] at error
    cases error

theorem pure {a : α} (ha : Q a) : Makes P K (Pure.pure a) Q :=
  .done fun _ hd => ⟨_, _, rfl, ⟨Nat.le_refl _, hd⟩, ha⟩

theorem throw {r : Rejection} : Makes P K (throw r : Compile α) Q := by
  refine fun d hd => ⟨fun a d' ok => (Outcome.throw_ok_iff.1 ok).elim, fun e d' error => ?_⟩
  cases error
  exact Nat.le_refl _

/-- Nothing comes after a refusal. -/
theorem throw_bind {r : Rejection} {g : α → Compile β} :
    Makes P K ((MonadExcept.throw r : Compile α) >>= g) R :=
  .bind (Q := fun _ => False) .throw fun _ h => h.elim

theorem ite {p : Prop} [Decidable p] {y : Compile α} (hx : Makes P K x Q) (hy : Makes P K y Q) :
    Makes P K (if p then x else y) Q := by
  split
  · exact hx
  · exact hy

theorem get : Makes P K (MonadState.get : Compile Draft) fun _ => True :=
  .done fun _ hd => ⟨_, _, rfl, ⟨Nat.le_refl _, hd⟩, trivial⟩

theorem current {t : Term} (stable : Term.Stable P) (ht : P t) : Makes P K (current t) P :=
  .done fun _ hd => ⟨_, _, current_eq _, ⟨Nat.le_refl _, hd⟩,
    stable.substitute hd.inlined ht⟩

/-- Several terms as they read now. -/
theorem mapM_current {ts : List Term} :
    Makes P K (ts.mapM Compile.current) fun _ => True :=
  .done fun _ hd => ⟨_, _, mapM_current_eq _, ⟨Nat.le_refl _, hd⟩, trivial⟩

theorem isBound {t : Term} : Makes P K (isBound t) fun _ => True :=
  .done fun _ hd => ⟨_, _, isBound_eq _, ⟨Nat.le_refl _, hd⟩, trivial⟩

theorem invent : Makes P K invent fun _ => True :=
  .done fun _ hd => ⟨_, _, invent_ok_iff.2 ⟨rfl, rfl⟩,
    ⟨Nat.le_succ _, hd.steps, hd.inlined⟩, trivial⟩

theorem inventAll {ts : List Term} : Makes P K (inventAll ts) fun _ => True :=
  .done fun _ hd => ⟨_, _, inventAll_ok_iff.2 ⟨rfl, rfl⟩,
    ⟨Nat.le_add_right .., hd.steps, hd.inlined⟩, trivial⟩

theorem emit {step : Step} (h : step.Made P K) : Makes P K (emit step) fun _ => True := by
  refine .done fun d hd => ⟨(), _, emit_ok_iff.2 rfl, ⟨Nat.le_refl _,
    ⟨fun step' hs => ?_, hd.inlined⟩⟩, trivial⟩
  rcases List.mem_append.1 hs with hs | hs
  · exact hd.steps step' hs
  · exact List.mem_singleton.1 hs ▸ h

theorem inline {v : Var} {t : Term} (ht : P t) : Makes P K (inline v t) fun _ => True := by
  refine .done fun d hd => ⟨(), _, inline_ok_iff.2 rfl, ⟨Nat.le_refl _,
    ⟨hd.steps, fun w s hs => ?_⟩⟩, trivial⟩
  rw [Draft.inlining, Assoc.get?_put] at hs
  split at hs
  · exact Option.some.inj hs ▸ ht
  · exact hd.inlined w s hs

end Makes

variable {rule : Rule} {mode : Unification}

theorem made_check {l r : Term} {negated : Bool} (hl : P l) (hr : P r) :
    Makes P K (emit (.check l r negated)) fun _ => True := by
  refine .emit ⟨fun t ht => ?_, nofun, nofun⟩
  rcases List.mem_cons.1 ht with rfl | ht
  · exact hl
  · exact List.mem_singleton.1 ht ▸ hr

variable (stable : Term.Stable P)

include stable

theorem made_equateBinders {ts : List Term}
    (ih : ∀ t ∈ ts, ∀ {l : Literal} {value : Term}, P t → P value →
      Makes P K (bindPattern rule mode l value t) fun _ => True) :
    ∀ {ys : List Var}, (∀ t ∈ ts, P t) →
      Makes P K (equateBinders rule mode ys ts) fun _ => True := by
  induction ts with
  | nil =>
    intro ys _
    cases ys with
    | nil | cons =>
      unfold equateBinders
      exact .pure trivial
  | cons t ts ihts =>
    intro ys hts
    cases ys with
    | nil =>
      unfold equateBinders
      exact .pure trivial
    | cons y ys =>
      obtain ⟨ht, hts⟩ := List.forall_mem_cons.1 hts
      have rest : Makes P K (equateBinders rule mode ys ts) fun _ => True :=
        ihts (fun u hu => ih u (List.mem_cons_of_mem _ hu)) hts
      rw [equateBinders]
      refine .bind (.current stable ht) fun t' ht' => .bind .isBound fun _ _ => .ite ?_ ?_
      · exact .bind (made_check (stable.var _) ht') fun _ _ => rest
      · exact .bind (ih t (List.mem_cons_self ..) ht (stable.var _)) fun _ _ => rest

theorem made_bindPattern (t : Term) : ∀ {l : Literal} {value : Term}, P t →
    P value → Makes P K (bindPattern rule mode l value t) fun _ => True := by
  induction t with
  | var v =>
    intro l value _ hvalue
    rw [bindPattern]
    refine .ite (.inline hvalue) (.emit ⟨fun u hu => ?_, ?_, ?_⟩)
    · exact List.mem_singleton.1 hu ▸ hvalue
    · rintro _ _ _ ⟨⟩
    · rintro _ ⟨⟩
  | ctor f args ih =>
    intro l value ht hvalue
    rw [bindPattern]
    refine .bind .inventAll fun ys _ => .bind (.emit ⟨fun u hu => ?_, ?_, ?_⟩)
      fun _ _ => made_equateBinders stable ih (stable.arg ht)
    · exact List.mem_singleton.1 hu ▸ hvalue
    · rintro _ _ _ ⟨⟩
      exact ⟨args, ht⟩
    · rintro _ ⟨⟩
  | lit | call =>
    intro l value _ _
    rw [bindPattern]
    exact .throw

omit stable in
theorem made_equateAll {ls : List Term}
    (ih : ∀ l ∈ ls, ∀ {r : Term}, P l → P r →
      Makes P K (equate rule mode l r) fun _ => True) :
    ∀ {rs : List Term}, (∀ l ∈ ls, P l) → (∀ r ∈ rs, P r) →
      Makes P K (equateAll rule mode ls rs) fun _ => True := by
  induction ls with
  | nil =>
    intro rs _ _
    cases rs with
    | nil | cons =>
      unfold equateAll
      exact .pure trivial
  | cons l ls ihls =>
    intro rs hls hrs
    cases rs with
    | nil =>
      unfold equateAll
      exact .pure trivial
    | cons r rs =>
      obtain ⟨hl, hls⟩ := List.forall_mem_cons.1 hls
      obtain ⟨hr, hrs⟩ := List.forall_mem_cons.1 hrs
      rw [equateAll]
      exact .bind (ih l (List.mem_cons_self ..) hl hr) fun _ _ =>
        ihls (fun u hu => ih u (List.mem_cons_of_mem _ hu)) hls hrs

theorem made_equate (l : Term) : ∀ {r : Term}, P l → P r →
    Makes P K (equate rule mode l r) fun _ => True := by
  -- only constructors on both sides lead to smaller equations
  have known {l r : Term} (hl : P l) (hr : P r)
      (apart : ∀ f as g bs, l = .ctor f as → r = .ctor g bs →
        Makes P K (equateAll rule mode as bs) fun _ => True) :
      Makes P K (equate rule mode l r) fun _ => True := by
    unfold equate
    refine .bind (.current stable hl) fun l' hl' => .bind (.current stable hr) fun r' hr' =>
      .bind .isBound fun bl _ => .bind .isBound fun br _ => ?_
    cases bl <;> cases br
    · dsimp only
      split
      · exact .ite (apart _ _ _ _ rfl rfl) .throw
      · exact .throw
    · exact made_bindPattern stable l hl hr'
    · exact made_bindPattern stable r hr hl'
    · exact made_check hl' hr'
  induction l with
  | ctor f as ih =>
    intro r hl hr
    refine known hl hr ?_
    rintro _ _ g bs ⟨⟩ rfl
    exact made_equateAll ih (stable.arg hl) (stable.arg hr)
  | var | lit | call =>
    intro r hl hr
    exact known hl hr nofun

theorem made_distinguish {l r : Term} (hl : P l) (hr : P r) :
    Makes P K (distinguish rule l r) fun _ => True := by
  unfold distinguish
  exact .bind (.current stable hl) fun l' hl' => .bind (.current stable hr) fun r' hr' =>
    .bind .isBound fun _ _ => .bind .isBound fun _ _ => .ite (made_check hl' hr') .throw

/-- What becomes of an argument is made of the same. -/
theorem made_argument {met : List Var} {t : Term} (ht : P t) :
    Makes P K (argument rule met t) fun r =>
      (∀ u, r.1 = .bound u → P u) ∧ ∀ e ∈ r.2.2, P e.2 := by
  have invented : Makes P K (do let y ← invent; return (Arg.free y, met, [(y, t)])) fun r =>
      (∀ u, r.1 = .bound u → P u) ∧ ∀ e ∈ r.2.2, P e.2 :=
    .bind .invent fun y _ => .pure ⟨nofun, fun e he => List.mem_singleton.1 he ▸ ht⟩
  unfold argument
  refine .bind (.current stable ht) fun t' ht' => .bind .isBound fun _ _ =>
    .ite (.pure ⟨?_, nofun⟩) ?_
  · rintro u ⟨⟩
    exact ht'
  · dsimp only
    split
    · refine .ite (.pure ⟨fun u hu => ?_, nofun⟩) invented
      dsimp only at hu
      split at hu <;> cases hu
    · exact invented

theorem made_arguments {ts : List Term} : ∀ {met : List Var}, (∀ t ∈ ts, P t) →
    Makes P K (arguments rule met ts) fun r =>
      (∀ u, .bound u ∈ r.1 → P u) ∧ ∀ e ∈ r.2, P e.2 := by
  induction ts with
  | nil =>
    intro met _
    rw [arguments]
    exact .pure ⟨fun u hu => absurd hu List.not_mem_nil, fun e he => absurd he List.not_mem_nil⟩
  | cons t ts ih =>
    intro met hts
    obtain ⟨ht, hts⟩ := List.forall_mem_cons.1 hts
    rw [arguments]
    refine .bind (made_argument stable ht) ?_
    rintro ⟨arg, met', owed⟩ h
    refine .bind (ih hts) ?_
    rintro ⟨args, rest⟩ h'
    refine .pure ⟨fun u hu => ?_, fun e he => ?_⟩
    · rcases List.mem_cons.1 hu with hu | hu
      · exact h.1 u hu.symm
      · exact h'.1 u hu
    · rcases List.mem_append.1 he with he | he
      · exact h.2 e he
      · exact h'.2 e he

theorem made_search {delta : Bool} {a : Atom} (ha : ∀ t ∈ a.args, P t)
    (hg : ∀ g, g.Asks delta a → K g) :
    Makes P K (search rule mode delta a) fun _ => True := by
  unfold search
  refine .bind .mapM_current fun ts _ => ?_
  refine .ite (.ite .throw_bind ?_) .throw_bind
  refine .bind (made_arguments stable ha) fun ⟨args, owed⟩ ⟨bound, howed⟩ => .ite .throw_bind ?_
  refine .bind (.emit ⟨fun t ht => bound t (Step.mem_terms_lookup.1 ht), nofun, ?_⟩) fun _ _ => ?_
  · rintro _ ⟨⟩
    exact hg _ ⟨rfl, rfl, rfl⟩
  · exact made_equateBinders stable (fun t _ => made_bindPattern stable t)
      (List.forall_mem_map.2 howed)

theorem made_literal {delta : Bool} {l : Literal} (hl : ∀ t ∈ l.terms, P t)
    (hg : ∀ a, l = .atom a → ∀ g, g.Asks delta a → K g) :
    Makes P K (literal rule mode delta l) fun _ => True := by
  cases l with
  | atom a => exact made_search stable hl (hg a rfl)
  | unify l r negated =>
    obtain ⟨left, hr⟩ := List.forall_mem_cons.1 hl
    have right : P r := hr r (List.mem_singleton_self r)
    cases negated with
    | false => exact made_equate stable l left right
    | true => exact made_distinguish stable left right

theorem made_literals {ls : List (Literal × Bool)} (hls : ∀ e ∈ ls, ∀ t ∈ e.1.terms, P t)
    (hgs : ∀ a delta, (.atom a, delta) ∈ ls → ∀ g, g.Asks delta a → K g) :
    Makes P K (ls.forM fun e => literal rule mode e.2 e.1) fun _ => True := by
  induction ls with
  | nil => exact .pure trivial
  | cons e ls ih =>
    refine .bind (made_literal stable (hls e (List.mem_cons_self ..)) fun a h => ?_) fun _ _ => ?_
    · exact hgs a e.2 (h ▸ List.mem_cons_self ..)
    · exact ih (fun e he => hls e (List.mem_cons_of_mem _ he))
        fun a delta he => hgs a delta (List.mem_cons_of_mem _ he)

/-- **Compiling a rule** as a whole. -/
theorem made_clause {delta : Option Nat} (hls : ∀ l ∈ rule.body, ∀ t ∈ l.terms, P t)
    (hgs : ∀ a mark, (.atom a, mark) ∈ rule.marked delta → ∀ g, g.Asks mark a → K g) :
    Makes P K (clause rule mode delta) fun _ => True := by
  have body : Makes P K (rule.body.zipIdx.forM fun e => literal rule mode (delta = some e.2) e.1)
      fun _ => True := by
    have all : Makes P K ((rule.marked delta).forM fun e => literal rule mode e.2 e.1)
        fun _ => True :=
      made_literals stable (fun e he => hls e.1 (Rule.mem_body_of_marked he)) hgs
    rw [Rule.marked, List.forM_eq_forM, List.forM_map] at all
    exact all
  have finish : Makes P K (head rule) fun _ => True := by
    unfold head
    exact .bind .mapM_current fun ts _ => .bind .get fun d _ => .ite (.pure trivial) .throw_bind
  unfold clause
  refine .ite (.ite .throw_bind (.bind body fun _ _ => .bind finish fun h _ => ?_)) .throw_bind
  exact .bind .get fun d _ => .pure trivial

end Compile

namespace Rule

variable {mode : Unification} {delta : Option Nat} {rule : Rule} {c : Clause} {d : Draft}
  {next next' : Nat}

/-- The goals of a clause are the rule's atoms. -/
abbrev Asked (rule : Rule) (delta : Option Nat) (g : Goal) : Prop :=
  ∃ a mark, (.atom a, mark) ∈ rule.marked delta ∧ g.Asks mark a

/-- **A clause is made of what its rule is made of**, and asks for its atoms. -/
theorem made_of_clause {P : Term → Prop} (stable : Term.Stable P)
    (hls : ∀ l ∈ rule.body, ∀ t ∈ l.terms, P t)
    (ok : Compile.clause rule mode delta { next } = .ok c d) : d.Made P (rule.Asked delta) :=
  ((Compile.made_clause stable hls (fun a mark h _ asks => ⟨a, mark, h, asks⟩) _
    .start).1 c d ok).1.2

/-- **So is its head.** -/
theorem made_head_of_clause {P : Term → Prop} (stable : Term.Stable P)
    (hhead : ∀ t ∈ rule.head.args, P t) (hls : ∀ l ∈ rule.body, ∀ t ∈ l.terms, P t)
    (ok : Compile.clause rule mode delta { next } = .ok c d) : ∀ t ∈ c.head.args, P t := by
  have made : d.Made P (rule.Asked delta) := made_of_clause stable hls ok
  obtain ⟨_, _, rfl, _⟩ := Compile.clause_ok ok
  exact List.forall_mem_map.2 fun u hu => stable.substitute made.inlined (hhead u hu)

/-- **A clause calls what its rule calls**, in its steps and in its head, and asks for its atoms. -/
theorem from_of_clause (ok : Compile.clause rule mode delta { next } = .ok c d) :
    d.From rule.calls (rule.Asked delta) ∧ ∀ t ∈ c.head.args, t.calls ⊆ rule.calls := by
  have stable : Term.Stable fun t => t.calls ⊆ rule.calls := .calls _
  have head : ∀ t ∈ rule.head.args, t.calls ⊆ rule.calls := fun t ht x hx =>
    List.mem_append_left _ (Term.mem_callsOf.2 ⟨t, ht, hx⟩)
  have body : ∀ l ∈ rule.body, ∀ t ∈ l.terms, t.calls ⊆ rule.calls := fun l hl t ht x hx =>
    List.mem_append_right _ (List.mem_flatMap.2 ⟨l, hl, Literal.mem_calls.2 ⟨t, ht, hx⟩⟩)
  have made : d.Made (fun t => t.calls ⊆ rule.calls) (rule.Asked delta) :=
    made_of_clause stable body ok
  exact ⟨⟨⟨fun step hs => (made.steps step hs).terms, made.inlined⟩,
    fun g hg => (made.steps _ hg).goal g rfl⟩, made_head_of_clause stable head body ok⟩

/-- Any condition says that the numbers rise. -/
theorem makes_clause : Compile.Makes (fun _ => True) (fun _ => True)
    (Compile.clause rule mode delta) fun _ => True :=
  Compile.made_clause ⟨fun _ => trivial, fun _ _ _ => trivial, fun _ _ => trivial⟩
    (fun _ _ _ _ => trivial) fun _ _ _ _ _ => trivial

/-- **The numbers rise** when a rule is compiled, and also when it is refused. -/
theorem next_le_of_compile (ok : rule.compile mode delta next = .ok c next') : next ≤ next' := by
  rw [compile] at ok
  split at ok
  · next d h =>
    cases ok
    exact ((makes_clause _ .start).1 _ _ h).1.1
  · cases ok

theorem next_le_of_refused {e : Rejection} (refused : rule.compile mode delta next = .error e next') :
    next ≤ next' := by
  rw [compile] at refused
  split at refused
  · cases refused
  · next d h =>
    cases refused
    exact (makes_clause _ .start).2 _ _ h

end Rule

end Datalog
