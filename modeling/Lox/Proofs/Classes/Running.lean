import Lox.Proofs.Classes.Accounting

/-!
Runs account for all that they make. What holds of expressions (`accounts_evaluate`) holds of
statements as well, a declaration of a class being what classes come from (`declareClass_done`);
so it is kept along every run of an accepted program, and at each of its moments the machine is
one that accounts for its classes, methods and objects (`Program.always_accounted`).
-/

set_option autoImplicit false

namespace Lox

open Machine

variable {moments : Guard} {D : Distances} {ss : List Stmt} {m m₁ : Machine} {v : Value}
  {env : FrameId} {d : Declaring} {Δ : Setting} {sub : Evaluator}

namespace Evaluation

open Lox.Action

/-! ### Statements -/

theorem accounts_optional (hsub : sub.Accounts moments D) (h : m.Accounted moments D)
    (env : FrameId) (e? : Option Expr) :
    (optional sub env e? m).Accounts moments D m fun v m₁ ↦ v.Accounted moments m₁ := by
  cases e? with
  | none => exact accounts_pure h trivial
  | some e => exact hsub.evaluate e env h

theorem accounts_rounds (hsub : sub.Accounts moments D) (h : m.Accounted moments D)
    (test : Expr) (body : Stmt) (env : FrameId) (fuel : Nat) :
    (rounds (sub.evaluate test env) (sub.execute body env) fuel m).Accounts moments D m
      fun flow m₁ ↦ flow.Accounted moments m₁ := by
  refine ends_rounds (fun m₁ (hm₁ : m.Proceeds moments D m₁) ↦ ?_)
    (fun v m₁ (hm₁ : m.Proceeds moments D m₁) _ ↦ ?_) (fun v m₁ hm₁ _ ↦ ⟨hm₁, trivial⟩) fuel m
    h.proceeds
  · exact (hsub.evaluate test env hm₁.accounted).weaken fun _ _ h ↦ hm₁.trans h.1
  · refine (hsub.execute body env hm₁.accounted).weaken fun flow m₂ h ↦ ?_
    cases flow with
    | normal => exact hm₁.trans h.1
    | returned v => exact ⟨hm₁.trans h.1, h.2⟩

theorem accounts_declareFunction (h : m.Accounted moments D) {r : Routine}
    (hname : r.name.text ∉ keywordNames) (hlive : m.arena.Live env)
    (horigin : ∀ r, m.origins[env.slot]? ≠ some (.receiver r)) :
    (declareFunction r env m).Accounts moments D m fun _ _ ↦ True := by
  refine accounts_bind (accounts_capture h env) fun _ m₁ hm₁ heq ↦ ?_
  refine accounts_bind (accounts_fresh hm₁.accounted) fun id m₂ hm₂ heq₂ ↦ ?_
  subst heq heq₂
  exact accounts_define hm₂.accounted (Or.inl ⟨hlive.captured_capture, horigin, rfl⟩) hname

theorem accounts_superclassValue (h : m.Accounted moments D) (env : FrameId)
    (superclass : Option Superclass) :
    (superclassValue env superclass m).Accounts moments D m fun parent m₁ ↦
      m₁ = m ∧ ∀ c, parent = some c → c.Accounted moments m := by
  cases superclass with
  | none => exact accounts_pure h ⟨rfl, by rintro _ ⟨⟩⟩
  | some s =>
    refine accounts_bind (accounts_lookUp h s.id s.name.text s.name.line env)
      fun v m₁ hm₁ hv ↦ ?_
    obtain ⟨rfl, hv⟩ := hv
    cases v with
    | class_ c =>
      refine accounts_pure h ⟨rfl, fun c' hc' ↦ ?_⟩
      cases hc'
      exact hv
    | _ => exact Failure.inward_runtime _ _

/-- The frame of the methods is captured, and holds the class that is extended. What other frames
hold is as before. -/
theorem methodScope_made (h : m.Accounted moments D) (name : Name) (methods : List Routine)
    {parent : Option Class} (hlive : m.arena.Live env)
    (horigin : ∀ name methods, m.origins[env.slot]? ≠ some (.extension name methods))
    (hparent : ∀ c, parent = some c → c.Accounted moments m) :
    ∃ home m₁, methodScope name methods env parent m = .done home m₁ ∧
      home = parent.elim env (fun _ ↦ m.arena.nextFrame) ∧
      m.Proceeds moments D m₁ ∧ m₁.nextId = m.nextId ∧ m₁.arena.Captured home ∧
      (∀ name methods, m₁.origins[home.slot]? = some (.extension name methods) →
        ∃ c, parent = some c ∧ m₁.arena.valueIn? home "super" = some (.class_ c)) ∧
      ∀ x, m₁.arena.valueIn? env x = m.arena.valueIn? env x := by
  cases parent with
  | none =>
    exact ⟨env, _, rfl, rfl, h.capture env, rfl, hlive.captured_capture,
      fun name methods hextension ↦ absurd hextension (horigin name methods),
      fun x ↦ Arena.valueIn?_capture _ _ _⟩
  | some c =>
    have hsuper : (Bindings.empty.insert "super" (Value.class_ c)).find? "super" =
        some (.class_ c) := by simp
    have henters : m.Enters moments D (.extension name methods) env (m.openedWith
        (.extension name methods) env (Bindings.empty.insert "super" (.class_ c))) := by
      refine h.openedWith ⟨fun x v hv ↦ ?_, by rintro _ ⟨⟩⟩
      rw [Bindings.find?_insert] at hv
      split at hv
      · cases hv
        exact hparent c rfl
      · simp at hv
    refine ⟨m.arena.nextFrame, _, openCaptured_apply h.filed _ _ _ _, rfl, henters.capture h, rfl,
      (h.filed.live_openedWith _ _ _).captured_capture, fun _ _ _ ↦ ⟨c, rfl, ?_⟩, fun x ↦ ?_⟩
    · refine (Arena.valueIn?_capture _ _ _).trans ?_
      exact (h.filed.valueIn?_openedWith _ _ _ _).trans hsuper
    · refine (Arena.valueIn?_capture _ _ _).trans ?_
      simp only [Arena.valueIn?, h.filed.frame?_openedWith, if_neg (h.ne_nextFrame hlive)]

/-- A declaration that can extend its superclass gives its name the class that it has made. -/
theorem declareClass_done (h : d.machine.Accounted moments D) (hoccurs : d.Occurs moments)
    {g : Frame Value} (hframe : d.machine.arena.frame? d.env = some g)
    (hname : d.name.text ∉ keywordNames)
    (horigin : ∀ name methods, d.machine.origins[d.env.slot]? ≠ some (.extension name methods))
    (hparent : ∀ c, d.parent = some c → c.Accounted moments d.machine) :
    ∃ m₁, declareClass d.name d.superclass d.methods d.env d.machine = .done () m₁ ∧
      d.machine.Proceeds moments D m₁ ∧
      m₁.arena.valueIn? d.env d.name.text = some (.class_ d.class_) := by
  have hnil := h.proceeds_bind (v := .nil) hframe trivial hname
  have hvalue : (d.machine.arena.bind d.env g d.name.text .nil).valueIn? d.env d.name.text =
      some .nil := (Arena.valueIn?_bind hframe d.env).trans (if_pos ⟨rfl, rfl⟩)
  obtain ⟨home, m₁, hscope, hhome, hproceeds, hnext, hcaptured, hextends, hsame⟩ :=
    methodScope_made hnil.accounted d.name d.methods (hnil.settles.continues.live ⟨g, hframe⟩)
      horigin fun c hc ↦ (hparent c hc).keep hnil.keeps
  obtain rfl : home = d.home := by
    rw [hhome, Declaring.home]
    cases d.parent with
    | none => rfl
    | some c => exact Arena.nextFrame_setFrame _ _ _
  have hall := hnil.trans (hproceeds.trans hproceeds.accounted.identified)
  have hclass := (hoccurs.accounted (m := { m₁ with nextId := m₁.nextId + 1 })
    ⟨hcaptured, hextends⟩ fun c hc ↦ (hparent c hc).keep hall.keeps)
  obtain ⟨f, hf, hfind⟩ := Option.bind_eq_some_iff.1 ((hsame d.name.text).trans hvalue)
  have hholder : m₁.arena.holder d.env d.name.text = .ok (some d.env) :=
    Arena.holder_of_contains hf (by simp [Bindings.contains, hfind])
  have hmade : d.class_ = ⟨⟨m₁.nextId, d.name.text, methodTable d.methods d.home⟩,
      (d.parent.map Class.layers).getD []⟩ := by
    rw [hnext]
    rfl
  refine ⟨_, ?_, hall.trans (hall.accounted.proceeds_bind (v := .class_ d.class_) hf hclass hname),
    (Arena.valueIn?_bind hf d.env).trans (if_pos ⟨rfl, rfl⟩)⟩
  rw [declareClass_eq]
  simp only [bind_apply, hoccurs.extended, define_eq hframe, hscope, Action.fresh, ← hmade,
    Action.assign, hholder]
  exact define_eq (m := { m₁ with nextId := m₁.nextId + 1 }) hf d.name.text (.class_ d.class_)

/-- What holds of the frame that a statement is executed in. -/
theorem origin_of_mirroredIn (hsited : moments.Sited ss D) (h : m.Accounted moments D) {s : Stmt}
    (hn : MirroredIn ss Δ (.stmt s) env m) :
    ∃ o, m.origins[env.slot]? = some o ∧ ¬o.IsReceiver ∧ ¬o.IsExtension := by
  have horderly := hn.site.orderly hsited.wellRead
  cases hn.mirrors with
  | globals => exact ⟨.program, h.program, not_false, not_false⟩
  | scope _ _ horigin _ _ =>
    exact ⟨_, horigin, horderly.not_receiver (by rintro _ ⟨⟩) rfl, horderly.not_extension rfl⟩

/-- What a declaration makes at one of the moments. -/
theorem declareClass_made (hsited : moments.Sited ss D) (h : d.machine.Accounted moments D)
    (hoccurs : d.Occurs moments) (hn : MirroredIn ss Δ d.node d.env d.machine) :
    ∃ m₁, declareClass d.name d.superclass d.methods d.env d.machine = .done () m₁ ∧
      d.machine.Proceeds moments D m₁ ∧
      m₁.arena.valueIn? d.env d.name.text = some (.class_ d.class_) := by
  obtain ⟨o, horigin, -, hextension⟩ := origin_of_mirroredIn hsited h hn
  obtain ⟨g, hframe⟩ := hn.mirrors.live h.root.live
  have hname : d.name.text ∉ keywordNames :=
    (hn.site.wellRead hsited.wellRead).declared_plain _ (List.mem_singleton_self _)
  refine declareClass_done h hoccurs hframe hname (fun name methods heq ↦ ?_) fun c hc ↦ ?_
  · cases horigin.symm.trans heq
    exact hextension trivial
  · exact ((accounts_superclassValue h d.env d.superclass).of_done hoccurs.extended).2.2 c hc

theorem accounts_declareClass (hsited : moments.Sited ss D) (h : m.Accounted moments D)
    {name : Name} {superclass : Option Superclass} {methods : List Routine}
    (hmoment : moments (.stmt (.class_ name superclass methods)) env m) :
    (declareClass name superclass methods env m).Accounts moments D m fun _ _ ↦ True := by
  obtain ⟨Δ, hn⟩ := hsited.mirrored _ _ _ hmoment
  have hsuper := accounts_superclassValue h env superclass
  cases hdone : superclassValue env superclass m with
  | outOfFuel =>
    rw [declareClass_eq, bind_apply, hdone]
    trivial
  | failed cause m₁ =>
    rw [declareClass_eq, bind_apply, hdone]
    rw [hdone] at hsuper
    exact hsuper
  | done parent m₁ =>
    rw [hdone] at hsuper
    obtain ⟨-, rfl, -⟩ := hsuper
    obtain ⟨m₂, hclass, hproceeds, -⟩ := declareClass_made
      (d := ⟨name, superclass, methods, env, m₁, parent⟩) hsited h ⟨hmoment, hdone⟩ hn
    rw [hclass]
    exact ⟨hproceeds, trivial⟩

theorem accounts_execute (hsited : moments.Sited ss D) (hsub : sub.Accounts moments D)
    (h : m.Accounted moments D) {s : Stmt} (hmoment : moments (.stmt s) env m) (fuel : Nat) :
    (execute fuel sub s env m).Accounts moments D m fun flow m₁ ↦ flow.Accounted moments m₁ := by
  obtain ⟨Δ, hn⟩ := hsited.mirrored _ _ _ hmoment
  have hplain := (hn.site.wellRead hsited.wellRead).declared_plain
  have hbranch {t : Stmt} {v : Value} {m₁ : Machine} {otherwise : Action Flow}
      (hm₁ : m₁.Accounted moments D)
      (hother : (otherwise m₁).Accounts moments D m₁ fun flow m₂ ↦ flow.Accounted moments m₂) :
      ((if v.truthy then sub.execute t env else otherwise) m₁).Accounts moments D m₁
        fun flow m₂ ↦ flow.Accounted moments m₂ := by
    split
    · exact hsub.execute t env hm₁
    · exact hother
  cases s with
  | expression e =>
    exact accounts_bind (hsub.evaluate e env h) fun v m₁ hm₁ _ ↦
      accounts_pure hm₁.accounted trivial
  | print e =>
    exact accounts_bind (hsub.evaluate e env h) fun v m₁ hm₁ _ ↦
      accounts_bind (accounts_write hm₁.accounted _) fun _ m₂ hm₂ _ ↦
        accounts_pure hm₂.accounted trivial
  | var name initial =>
    exact accounts_bind (accounts_optional hsub h env initial) fun v m₁ hm₁ hv ↦
      accounts_bind (accounts_define hm₁.accounted hv (hplain _ (List.mem_singleton_self _)))
        fun _ m₂ hm₂ _ ↦ accounts_pure hm₂.accounted trivial
  | block body =>
    have henters := h.pushed (.block body) not_false env
    exact accounts_releasing h henters
      (accounts_executeAll hsub henters.accounted m.arena.nextFrame body)
      fun flow m₁ hflow ↦ hflow.keep (m₁.keeps_release _)
  | ifThen test consequent =>
    exact accounts_bind (hsub.evaluate test env h) fun v m₁ hm₁ _ ↦
      hbranch hm₁.accounted (accounts_pure hm₁.accounted trivial)
  | ifElse test consequent alternative =>
    exact accounts_bind (hsub.evaluate test env h) fun v m₁ hm₁ _ ↦
      hbranch hm₁.accounted (hsub.execute alternative env hm₁.accounted)
  | loop test body => exact accounts_rounds hsub h test body env fuel
  | function r =>
    obtain ⟨o, horigin, hreceiver, -⟩ := origin_of_mirroredIn hsited h hn
    refine accounts_bind (accounts_declareFunction h (hplain _ (List.mem_singleton_self _))
      (hn.mirrors.live h.root.live) fun r hr ↦ ?_) fun _ m₁ hm₁ _ ↦
        accounts_pure hm₁.accounted trivial
    cases horigin.symm.trans hr
    exact hreceiver trivial
  | return_ line value =>
    exact accounts_bind (accounts_optional hsub h env value) fun v m₁ hm₁ hv ↦
      accounts_pure hm₁.accounted hv
  | class_ name superclass methods =>
    exact accounts_bind (accounts_declareClass hsited h hmoment) fun _ m₁ hm₁ _ ↦
      accounts_pure hm₁.accounted trivial

end Evaluation

/-! ### Along a run -/

theorem accounts_watchedAmong (hsited : moments.Sited ss D) {outside alarm : Failure}
    (houtside : outside.Inward) (fuel : Nat) :
    (watchedAmong moments (fun _ _ m ↦ m.Accounted moments D) outside alarm fuel).Accounts
      moments D := by
  induction fuel with
  | zero => exact ⟨fun _ _ _ _ ↦ trivial, fun _ _ _ _ ↦ trivial, by rintro _ _ _ _ _ ⟨⟩⟩
  | succ fuel ih =>
    refine ⟨fun e env m hm ↦ ?_, fun s env m hm ↦ ?_, fun {e env m v m₁} hdone ↦ ?_⟩
    · by_cases hmoment : moments (.expr e) env m
      · simp only [watchedAmong, if_pos hmoment, if_pos hm]
        exact Evaluation.accounts_evaluate hsited ih hm hmoment
      · simp only [watchedAmong, if_neg hmoment]
        exact houtside
    · by_cases hmoment : moments (.stmt s) env m
      · simp only [watchedAmong, if_pos hmoment, if_pos hm]
        exact Evaluation.accounts_execute hsited ih hm hmoment fuel
      · simp only [watchedAmong, if_neg hmoment]
        exact houtside
    · have hfinished {o : Outcome Value} (ho : o = .done v m₁) (way : Option Failure)
          (hway : o.stop? = some way) : False := by
        rw [ho] at hway
        cases hway
      have hamong := ((watchedAmong_compares_among (fuel + 1)).evaluate e env m).eq
        (fun way hway _ ↦ hfinished hdone way hway) fun _ _ ↦ not_false
      have hplain := ((watched_compares moments outside (fuel + 1)).evaluate e env m).eq
        (fun way hway _ ↦ hfinished (hamong.symm.trans hdone) way hway) fun _ _ ↦ not_false
      exact ⟨fuel + 1, (hamong.trans hplain).symm.trans hdone⟩

/-- What accounts with every evaluator that does, does so with the one that runs programs, and at
each of the moments on the way. -/
theorem Throughout.accounts {α : Type} {use : Evaluator → Action α} {fuel : Nat}
    {good : α → Machine → Prop} (hsited : moments.Sited ss D) (huse : Uniform use)
    (hmoments : Throughout use fuel m moments)
    (haccounts : ∀ sub : Evaluator, sub.Accounts moments D →
      (use sub m).Accounts moments D m good) :
    (use (evaluator fuel) m).Accounts moments D m good ∧
      Throughout use fuel m fun _ _ m ↦ m.Accounted moments D := by
  have hparts {outside : Failure} (houtside : outside.Inward) :
      (use (watchedAmong moments (fun _ _ m ↦ m.Accounted moments D) outside
        (.internal (.escapedReturn "")) fuel) m).Accounts moments D m good :=
    haccounts _ (accounts_watchedAmong hsited houtside fuel)
  obtain ⟨haccounted, outside, houtside, hplain⟩ := hmoments.of_among huse
    fun outside houtside ↦ (hparts houtside).quiet fun _ hinward ↦ hinward "" rfl
  exact ⟨hplain ▸ hparts houtside, haccounted⟩

theorem throughout_accounted (hsited : moments.Sited ss D) (h : m.Accounted moments D)
    {fuel : Nat} {body : List Stmt}
    (hmoments : Throughout (fun sub ↦ Program.runStatements sub body) fuel m moments) :
    Throughout (fun sub ↦ Program.runStatements sub body) fuel m fun _ _ m ↦
      m.Accounted moments D := by
  induction body generalizing m with
  | nil => exact fun alarm ↦ rfl
  | cons s body ih =>
    have huse : Uniform fun sub ↦ sub.execute s Arena.globals := fun hsubs ↦ hsubs.execute s _
    obtain ⟨haccounts, haccounted⟩ := (hmoments.first huse).accounts hsited huse
      fun sub hsub ↦ hsub.execute s Arena.globals h
    refine haccounted.bind fun flow m₁ hdone ↦ ?_
    have hrest := hmoments.rest huse hdone
    cases flow with
    | normal => exact ih (haccounts.of_done hdone).1.accounted hrest
    | returned v => exact fun alarm ↦ rfl

/-! ### Programs -/

section

variable {source : String} {p : Program} {sink : Sink} {clock : Clock}

/-- The distances of a program on a machine that has known none before. -/
def Program.table (p : Program) : Distances := Bindings.empty.merge p.distances

theorem accounted_initial (moments : Guard) (p : Program) (sink : Sink) (clock : Clock) :
    ((Machine.initial sink clock).install p.distances).Accounted moments p.table := by
  have hframe (k : FrameId) :
      ((Machine.initial sink clock).install p.distances).arena.frame? k =
        if k = Arena.globals then some ⟨Native.bindings, none, true⟩ else none :=
    Arena.frame?_ofGlobals Native.bindings k
  refine
    { filed :=
        ((Session.Between.initial : Session.Between sink clock _).installed p.distances).filed
      distances := rfl
      root := ⟨_, (hframe _).trans (if_pos rfl), rfl⟩
      program := rfl
      frames := fun k f hk ↦ ?_
      fields := fun table htable ↦ absurd htable (Array.not_mem_empty table) }
  rw [hframe] at hk
  split at hk
  next heq =>
    subst heq
    cases hk
    refine ⟨fun x v hv ↦ ?_, by rintro _ ⟨⟩⟩
    obtain ⟨native, -, heq⟩ := List.mem_map.1 (Bindings.mem_of_find?_ofList hv)
    cases heq
    trivial
  next => cases hk

/-- The moments that the runs of an accepted program come to are at its nodes. -/
theorem Program.sited (h : Program.ofSource source = .ok p) (sink : Sink) (clock : Clock) :
    (p.Moment (.initial sink clock)).Sited p.statements p.table where
  wellRead := Program.wellRead_of_ofSource h []
  settled := Program.settled_of_ofSource h
  mirrored _ _ _ hmoment := hmoment.of_always fun fuel ↦ Program.always_mirrored h fuel sink clock

/-- At every moment of the run of an accepted program all that the machine has is accounted for. -/
theorem Program.always_accounted (h : Program.ofSource source = .ok p) (fuel : Nat) (sink : Sink)
    (clock : Clock) :
    p.Always fuel (.initial sink clock)
      fun _ _ m ↦ m.Accounted (p.Moment (.initial sink clock)) p.table :=
  throughout_accounted (Program.sited h sink clock) (accounted_initial _ p sink clock)
    (Program.always_moment p (.initial sink clock) fuel)

theorem Program.Moment.accounted {n : Node}
    (hmoment : p.Moment (.initial sink clock) n env m) (h : Program.ofSource source = .ok p) :
    m.Accounted (p.Moment (.initial sink clock)) p.table :=
  hmoment.of_always fun fuel ↦ Program.always_accounted h fuel sink clock

end

end Lox
