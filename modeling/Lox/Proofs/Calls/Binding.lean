import Lox.Proofs.Calls.Abreast
import Lox.Proofs.Reclamation.Sessions

/-!
A method that is bound before the arguments of its call are evaluated is called as one that is
bound afterwards. Its frame waits while the arguments are evaluated, whatever they do, and is the
counterpart of the frame that the direct call opens then. So programs that differ in parentheses
around what they call print the same and end alike.
-/

set_option autoImplicit false

namespace Lox

/-! ### Two ways to bind -/

section

open Evaluation Lox.Action

variable {m : Machine}

/-- A method that is called directly is bound in the frame that the next push makes. -/
theorem Evaluation.invoke_apply (h : m.arena.Lasting) (sub : Evaluator) (f : Function) (o : Object)
    (args : List Value) :
    invoke sub f o args m = releasing m.arena.nextFrame
      (callFunction sub { f with closure := m.arena.nextFrame } args)
      { m with
        arena := (m.arena.push f.closure).bind m.arena.nextFrame ⟨.empty, some f.closure, false⟩
          "this" (.object o)
        origins := noteOrigin m.origins m.arena.nextFrame (.receiver f.routine) } := by
  rw [invoke_eq]
  simp only [bind_apply, push, define, Arena.frame_of_frame? (h.frame?_push_nextFrame f.closure)]

/-- So is a method that becomes a value, which also captures the frame. -/
theorem Target.toValue_method_apply (h : m.arena.Lasting) (f : Function) (o : Object) :
    Target.toValue (.method f o) m =
      .done (.function m.nextId { f with closure := m.arena.nextFrame })
        { m with
          arena := ((m.arena.push f.closure).bind m.arena.nextFrame ⟨.empty, some f.closure, false⟩
            "this" (.object o)).capture m.arena.nextFrame
          origins := noteOrigin m.origins m.arena.nextFrame (.receiver f.routine)
          nextId := m.nextId + 1 } := by
  rw [toValue_method]
  simp only [openCaptured, bind_apply, push, define,
    Arena.frame_of_frame? (h.frame?_push_nextFrame f.closure), capture, pure_apply, fresh]

end

namespace Comparison

variable {w : Counterparts} {m m' : Machine} {env env' : FrameId}
  {left right : Option Failure → Prop}

/-! ### Nodes and their direct forms -/

theorem names_direct (n : Name) : (direct left right).names n n := ⟨rfl, rfl⟩

theorem callees_direct (callee : Expr)
    (h : ∀ inner, callee = .grouping inner → ¬inner.IsAccess) :
    (direct left right).Callees callee.direct.asCallee callee := by
  cases callee with
  | get o name => exact .get rfl (names_direct name)
  | super id line method => exact .super rfl (names_direct method)
  | grouping inner =>
    cases inner with
    | get _ _ => exact absurd trivial (h _ rfl)
    | super _ _ _ => exact absurd trivial (h _ rfl)
    | _ => exact .other rfl nofun nofun
  | _ => exact .other rfl nofun nofun

/-- An expression that does not call a property access in parentheses. -/
theorem expressions_direct (e : Expr)
    (h : ∀ inner line args, e = .call (.grouping inner) line args → ¬inner.IsAccess) :
    (direct left right).Expressions e.direct e := by
  cases e with
  | literal value => exact .literal value
  | grouping e => exact .grouping rfl
  | unary op line e => exact .unary rfl rfl
  | binary op line l r => exact .binary rfl rfl rfl
  | logical op line l r => exact .logical rfl rfl
  | var id name => exact .var rfl (names_direct name)
  | assign id name e => exact .assign rfl (names_direct name) rfl
  | call callee line args =>
    exact .call (callees_direct callee fun inner heq ↦ h inner line args (heq ▸ rfl)) rfl
      (Expr.forall₂_directAll args)
  | get o name => exact .get rfl (names_direct name)
  | set o name e => exact .set rfl (names_direct name) rfl
  | this id line => exact .this rfl rfl
  | super id line method => exact .super rfl (names_direct method)

theorem option_direct (e : Option Expr) :
    Option.Rel (direct left right).exprs (e.map Expr.direct) e := by
  cases e with
  | none => exact .none
  | some e => exact .some rfl

theorem statements_direct (s : Stmt) : (direct left right).Statements s.direct s := by
  cases s with
  | expression e => exact .expression rfl
  | print e => exact .print rfl
  | var name initial => exact .var rfl (option_direct initial)
  | block body => exact .block (Stmt.forall₂_directAll body)
  | ifThen test s => exact .ifThen rfl rfl
  | ifElse test s t => exact .ifElse rfl rfl rfl
  | loop test s => exact .loop rfl rfl
  | function r => exact .function rfl
  | return_ line value => exact .return_ (option_direct value)
  | class_ name superclass methods =>
    refine .class_ (names_direct name) ?_ (Routine.forall₂_directAll methods)
    cases superclass with
    | none => exact .none
    | some s => exact .some ⟨rfl, names_direct s.name⟩

/-! ### Bound early -/

/-- What the callee of a call is on the first machine, and what it has become on the second one. The
frame of a method that is bound there has begun to wait since some earlier moment. -/
inductive Meets (since w : Counterparts) : Target → Value → Prop
  | value {v v' : Value} (pairs : v.Pairs w.pairing v') : Meets since w (.value v) v'
  | method {f f' : Function} {o o' : Object} {id : Nat} {k' : FrameId}
    (function : f.Pairs w.pairing f') (receiver : o.Pairs w.pairing o')
    (new : ∀ outer p, ¬since.waiting k' outer p) (waiting : w.waiting k' f'.closure o') :
    Meets since w (.method f o) (.function id { f' with closure := k' })

variable {since : Counterparts} {t t' : Target} {v' : Value}

theorem Meets.later {w₁ : Counterparts} (h : Meets since w t v') (hgrows : w.Grows w₁) :
    Meets since w₁ t v' := by
  cases h with
  | value hv => exact .value (hv.extend hgrows.extends_)
  | method hf ho hnew hwaiting =>
    exact .method (hf.extend hgrows.extends_) (ho.extend hgrows.extends_) hnew
      (hgrows.waiting hwaiting)

open Evaluation

/-- The second machine makes a value of its target, the first one does nothing. -/
theorem meets_toValue (hsince : since.Grows w) (hm : m.Abreast w m')
    (ht : t.Pairs w.pairing t') :
    (direct left right).Alike w (Meets since) ((Pure.pure t : Action Target) m)
      (Target.toValue t' m') := by
  cases ht with
  | value hv => exact .done (.refl w) hm (.value hv)
  | @method f f' o o' hf ho =>
    rw [Target.toValue_method_apply hm.arena.right]
    have hwait := hm.arena.wait (hm.arena.live' hf.closure) o'
    refine .done (w.grows_withWaiting _ _ _)
      (hm.of_arena (w.grows_withWaiting _ _ _).extends_ rfl hwait m.origins _).draw' ?_
    refine .method hf ho (fun outer p hwaiting ↦ ?_) (Or.inr ⟨rfl, rfl, rfl⟩)
    obtain ⟨-, g, hg, -⟩ := hm.arena.waiting (hsince.waiting hwaiting)
    exact hm.arena.right.ne_nextFrame hg rfl

variable {fuel fuel' : Nat} {callee : Expr}

/-- The target of a callee, and the value of the same callee. -/
theorem meets_access {sub sub' : Evaluator} (hsub : (direct left right).Evaluators sub sub')
    (hcallee : callee.IsAccess) (hm : m.Abreast w m') (henv : w.frames env env') :
    (direct left right).Alike w (Meets w) (target sub callee.direct env m)
      (evaluate sub' callee env' m') := by
  have law : (direct left right).Lawful := lawful_direct
  cases callee with
  | get o name =>
    refine alike_bind law (hsub.evaluate rfl hm henv) fun {w₁ m₁ m₁' v v'} hgrows hm₁ hv ↦ ?_
    rw [← bind_pure (property v name)]
    exact alike_bind law (alike_property law hm₁ hv (names_direct name))
      fun hgrows₂ hm₂ ht ↦ meets_toValue (law.trans hgrows hgrows₂) hm₂ ht
  | super id line method =>
    change (direct left right).Alike w (Meets w) (superMethod id method env m) _
    rw [← bind_pure (superMethod id method env)]
    exact alike_bind law (alike_superMethod law hm henv rfl (names_direct method))
      fun hgrows hm₁ ht ↦ meets_toValue hgrows hm₁ ht
  | _ => exact hcallee.elim

/-- To evaluate a callee in parentheses takes two units of fuel more. -/
theorem meets_grouping (hfuel : fuel' < 2 → right none)
    (hsub : ∀ inner, fuel' = inner + 2 → (direct left right).Evaluators (evaluator fuel)
      (evaluator inner))
    (hcallee : callee.IsAccess) (hm : m.Abreast w m') (henv : w.frames env env') :
    (direct left right).Alike w (Meets w) (target (evaluator fuel) callee.direct env m)
      ((evaluator fuel').evaluate (.grouping callee) env' m') := by
  match fuel' with
  | 0 => exact .right rfl (hfuel (by decide))
  | 1 => exact .right rfl (hfuel (by decide))
  | inner + 2 => exact meets_access (hsub inner rfl) hcallee hm henv

/-! ### Called -/

/-- Here the frame that has been waiting gets its counterpart. -/
theorem alike_callTarget_of_meets {sub sub' : Evaluator}
    (hsub : (direct left right).Evaluators sub sub') (line : Nat) {vs vs' : List Value}
    (hsince : since.Grows w) (hm : m.Abreast w m') (ht : Meets since w t v')
    (hvs : lists (direct left right).values w vs vs') :
    (direct left right).Alike since (direct left right).values (callTarget sub t line vs m)
      (callTarget sub' (.value v') line vs' m') := by
  have law : (direct left right).Lawful := lawful_direct
  cases ht with
  | value hv =>
    exact (alike_callTarget law hsub (.value hv) rfl hvs hm).after law hsince
  | @method f f' o o' id k' hf ho hnew hwaiting =>
    have hchecked := alike_checkArity law (show (direct left right).lines line line from rfl)
      f.arity vs.length hm
    nth_rewrite 2 [hf.arity, List.Forall₂.length_eq hvs] at hchecked
    refine alike_bind_since law hsince hchecked fun {w₁ m₁ m₁' _ _} hgrows hm₁ _ ↦ ?_
    change (direct left right).Alike since _ (invoke sub f o vs m₁)
      (callFunction sub' { f' with closure := k' } vs' m₁')
    rw [invoke_apply hm₁.arena.left]
    have hext := hgrows.extends_
    have hmatched := w₁.pairing_extends_matched m₁.arena.nextFrame k'
    have hopened := hm₁.arena.match_ (hgrows.waiting hwaiting) (hgrows.frames hf.closure)
      (ho.extend hext)
    have hbound : (direct left right).functions (w₁.matched m₁.arena.nextFrame k')
        { f with closure := m₁.arena.nextFrame } { f' with closure := k' } :=
      ⟨hf.routine, Or.inr ⟨rfl, rfl⟩, hf.isInitializer⟩
    have hargs : lists (direct left right).values (w₁.matched m₁.arena.nextFrame k') vs vs' :=
      hvs.imp fun _ _ hv ↦ (Value.Pairs.extend hv hext).extend hmatched
    have hcall := alike_callFunction law hsub hbound hargs
      (hm₁.of_arena hmatched rfl hopened (noteOrigin m₁.origins m₁.arena.nextFrame
        (.receiver f.routine)) m₁'.origins)
    exact (direct_releasing_left hcall).after law ((hsince.trans hgrows).matched hnew _)

/-- A call of a property access in parentheses, and the direct call. -/
theorem alike_groupedCall (hsub : (direct left right).Evaluators (evaluator fuel) (evaluator fuel'))
    (hfuel : fuel' < 2 → right none)
    (hinner : ∀ inner, fuel' = inner + 2 → (direct left right).Evaluators (evaluator fuel)
      (evaluator inner))
    (hcallee : callee.IsAccess) (line : Nat) (args : List Expr) (hm : m.Abreast w m')
    (henv : w.frames env env') :
    (direct left right).Alike w (direct left right).values
      (evaluate (evaluator fuel) (Expr.call (.grouping callee) line args).direct env m)
      (evaluate (evaluator fuel') (.call (.grouping callee) line args) env' m') := by
  have law : (direct left right).Lawful := lawful_direct
  have hleft : (Expr.call (.grouping callee) line args).direct =
      .call callee.direct line (Expr.directAll args) := by
    cases callee <;> first | rfl | exact hcallee.elim
  have hright : evaluate (evaluator fuel') (.call (.grouping callee) line args) env' =
      (evaluator fuel').evaluate (.grouping callee) env' >>= fun v ↦
        evaluateAll (evaluator fuel') env' args >>= fun vs ↦
          callTarget (evaluator fuel') (.value v) line vs := by
    change ((evaluator fuel').evaluate _ env' >>= fun v ↦ Pure.pure (Target.value v)) >>= _ = _
    simp only [bind_assoc, pure_bind]
  rw [hleft, hright]
  refine alike_bind_since law (law.refl w) (meets_grouping hfuel hinner hcallee hm henv)
    fun {w₁ m₁ m₁' t v'} hgrows hm₁ ht ↦ ?_
  refine alike_bind_since law hgrows (alike_evaluateAll law hsub (Expr.forall₂_directAll args) hm₁
    (law.frames hgrows henv)) fun {w₂ m₂ m₂' vs vs'} hgrows₂ hm₂ hvs ↦ ?_
  exact alike_callTarget_of_meets hsub line (hgrows.trans hgrows₂) hm₂ (ht.later hgrows₂) hvs

/-- The direct forms need no more fuel, and no less than a third of it. -/
theorem evaluators_direct {fuel fuel' : Nat}
    (hfuel : 3 * fuel ≤ fuel' ∧ left none ∨ fuel' ≤ fuel ∧ right none) :
    (direct left right).Evaluators (evaluator fuel) (evaluator fuel') := by
  have law : (direct left right).Lawful := lawful_direct
  induction fuel generalizing fuel' with
  | zero =>
    rcases hfuel with ⟨-, hexcused⟩ | ⟨hle, -⟩
    · exact ⟨fun _ _ _ ↦ .left rfl hexcused, fun _ _ _ ↦ .left rfl hexcused⟩
    · obtain rfl := Nat.le_zero.1 hle
      exact ⟨fun _ _ _ ↦ .outOfFuel, fun _ _ _ ↦ .outOfFuel⟩
  | succ fuel ih =>
    cases fuel' with
    | zero =>
      have hexcused := (hfuel.resolve_left (by omega)).2
      exact ⟨fun _ _ _ ↦ .right rfl hexcused, fun _ _ _ ↦ .right rfl hexcused⟩
    | succ fuel' =>
      have hsub : (direct left right).Evaluators (evaluator fuel) (evaluator fuel') :=
        ih (hfuel.imp (And.imp_left (by omega)) (And.imp_left (by omega)))
      refine ⟨fun {w m m' env env' e e'} he hm henv ↦ ?_,
        fun {w m m' env env' s s'} hs hm henv ↦ ?_⟩
      · obtain rfl : e = e'.direct := he
        by_cases hgrouped :
            ∃ inner line args, e' = .call (.grouping inner) line args ∧ inner.IsAccess
        · obtain ⟨inner, line, args, rfl, haccess⟩ := hgrouped
          refine alike_groupedCall hsub (fun hlow ↦ (hfuel.resolve_left (by omega)).2)
            (fun inner hinner ↦ ih (hfuel.imp (And.imp_left (by omega)) (And.imp_left (by omega))))
            haccess line args hm henv
        · refine alike_evaluate law hsub
            (expressions_direct e' fun inner line args heq haccess ↦ ?_) hm henv
          exact hgrouped ⟨inner, line, args, heq, haccess⟩
      · obtain rfl : s = s'.direct := hs
        refine alike_execute law hsub (statements_direct s') ⟨?_, ?_⟩ hm henv
        · exact hfuel.imp (fun h ↦ by omega) And.right
        · rcases hfuel with ⟨-, hexcused⟩ | ⟨hle, -⟩
          · exact Or.inr hexcused
          · exact Or.inl (Nat.le_of_succ_le_succ hle)

end Comparison

end Lox
