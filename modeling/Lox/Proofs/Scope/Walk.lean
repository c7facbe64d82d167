import Lox.Proofs.Bindings
import Lox.Proofs.Scope.Setting
import Lox.Resolution.Basic
import Mathlib.Data.List.Nodup

/-!
Resolution walks through a program with a stack of scopes, and that stack always shows the setting
of the node it has come to. So the distance it records for the use of a name is the distance of
the innermost scope around that use which has the name so far, and what it does not report is
well placed. Both are said of every node at once (`settled_of_resolved`). The program has to have
one identity for each use of a name.
-/

set_option autoImplicit false

namespace Lox

/-! ### What resolution finds out -/

namespace Setting

/-- The class that the code belongs to, as far as it shows in the scopes. -/
def owner : Setting → Resolution.ClassContext
  | [] => .none
  | ⟨.receiver _, _, _⟩ :: ⟨.extension _ _, _, _⟩ :: _ => .subclass
  | ⟨.receiver _, _, _⟩ :: _ => .class_
  | _ :: outer => owner outer

/-- No variable of these scopes awaits its value. -/
def Calm (Δ : Setting) : Prop := ∀ s ∈ Δ, s.awaited = none

/-- The setting after some statements. -/
def after : List Stmt → Setting → Setting
  | [], Δ => Δ
  | s :: ss, Δ => after ss (Δ.completing s.declared)

variable {Δ : Setting}

theorem completing_nil (Δ : Setting) : Δ.completing [] = Δ := by
  cases Δ <;> rfl

theorem after_cons (ss : List Stmt) (scope : OpenScope) (Δ : Setting) :
    ∃ scope', after ss (scope :: Δ) = scope' :: Δ := by
  induction ss generalizing scope with
  | nil => exact ⟨scope, rfl⟩
  | cons s ss ih => exact ih _

theorem Calm.cons (h : Δ.Calm) {s : OpenScope} (hs : s.awaited = none) : Calm (s :: Δ) := by
  intro s' hs'
  rcases List.mem_cons.1 hs' with rfl | hs'
  · exact hs
  · exact h s' hs'

theorem Calm.completing (h : Δ.Calm) (names : List String) : (Δ.completing names).Calm := by
  cases Δ with
  | nil => exact h
  | cons s outer =>
    exact Calm.cons (fun s' hs' ↦ h s' (List.mem_cons_of_mem _ hs')) (h s (List.mem_cons_self ..))

/-- Which class code belongs to does not depend on the names in the scopes. -/
theorem owner_cons (origin : Origin) (complete complete' : List String)
    (awaited awaited' : Option String) (outer : Setting) :
    owner (⟨origin, complete, awaited⟩ :: outer) =
      owner (⟨origin, complete', awaited'⟩ :: outer) := by
  cases origin with
  | receiver r =>
    cases outer with
    | nil => rfl
    | cons s outer =>
      obtain ⟨origin', _, _⟩ := s
      cases origin' <;> rfl
  | _ => rfl

theorem owner_completing (names : List String) : (Δ.completing names).owner = Δ.owner := by
  cases Δ with
  | nil => rfl
  | cons s outer => exact owner_cons _ _ _ _ _ outer

theorem owner_awaiting (x : String) : (Δ.awaiting x).owner = Δ.owner := by
  cases Δ with
  | nil => rfl
  | cons s outer => exact owner_cons _ _ _ _ _ outer

/-- Another name makes no difference to where a name is found. -/
theorem distance?_completing {x y : String} (h : x ≠ y) :
    (Δ.completing [y]).distance? x = Δ.distance? x := by
  cases Δ with
  | nil => rfl
  | cons s outer =>
    have hsame : OpenScope.declares { s with complete := [y] ++ s.complete } x = s.declares x := by
      simp [OpenScope.declares, h]
    unfold distance? completing
    rw [List.findIdx?_cons, List.findIdx?_cons, hsame]

end Setting

/-- What resolution does not let pass in a setting. -/
def Allowed (Δ : Setting) : Code → Prop
  | .expr (.var _ name) => ∀ s outer, Δ = s :: outer → s.awaited ≠ some name.text
  | .expr (.this _ _) => Δ.owner ≠ .none
  | .expr (.super _ _ _) => Δ.owner = .subclass
  | .stmt (.return_ _ _) => Δ.InRoutine
  | .stmt (.class_ name (some s) _) => s.name.text ≠ name.text
  | _ => True

/-- Code is well placed, and the distance of a use is that of the scope which has the name. -/
structure Placed (D : Distances) (Δ : Setting) (c : Code) : Prop where
  allowed : Allowed Δ c
  distance : ∀ id x, c = .use id x → D.find? id = Δ.distance? x

def Settled (D : Distances) (Δ : Setting) (c : Code) : Prop :=
  ∀ Δ' c', Under Δ c Δ' c' → Placed D Δ' c'

theorem settled_intro {D : Distances} {Δ : Setting} {c : Code} (h : Placed D Δ c)
    (hparts : ∀ Δ₁ c₁, Part Δ c Δ₁ c₁ → Settled D Δ₁ c₁) : Settled D Δ c := by
  intro Δ' c' hunder
  cases hunder with
  | refl => exact h
  | step first rest => exact hparts _ _ first Δ' c' rest

theorem settled_use {D : Distances} {Δ : Setting} {id : NodeId} {x : String}
    (h : D.find? id = Δ.distance? x) : Settled D Δ (.use id x) := by
  refine settled_intro ⟨trivial, fun id' x' heq ↦ ?_⟩ fun Δ₁ c₁ hpart ↦ nomatch hpart
  cases heq
  exact h

/-! ### The stack of scopes and the setting -/

/-- How far the declaration of a name has come. -/
def OpenScope.readiness (s : OpenScope) (x : String) : Option Resolution.Readiness :=
  if s.awaited = some x then some .declared
  else if x ∈ s.complete then some .ready else none

theorem OpenScope.isSome_readiness (s : OpenScope) (x : String) :
    (s.readiness x).isSome = s.declares x := by
  unfold readiness declares
  by_cases hawaited : s.awaited = some x
  · simp [hawaited]
  · by_cases hcomplete : x ∈ s.complete <;> simp [hawaited, hcomplete]

namespace Resolution

namespace State

/-- The scopes of the state show the setting. -/
def Shows (s : State) (Δ : Setting) : Prop :=
  s.scopes.map (fun scope x ↦ scope.find? x) = Δ.map OpenScope.readiness

variable {s : State} {Δ : Setting}

theorem shows_initial : initial.Shows [] := rfl

theorem Shows.distance? (h : s.Shows Δ) (x : String) : s.distance? x = Δ.distance? x := by
  have hscopes : s.distance? x =
      (s.scopes.map fun scope x ↦ scope.find? x).findIdx? fun look ↦ (look x).isSome := by
    rw [List.findIdx?_map]
    rfl
  have hsetting : Δ.distance? x =
      (Δ.map OpenScope.readiness).findIdx? fun look ↦ (look x).isSome := by
    rw [List.findIdx?_map]
    unfold Setting.distance?
    congr 1
    funext scope
    exact (scope.isSome_readiness x).symm
  rw [hscopes, hsetting, h]

/-- A stack shows settings by what is declared in them, not by what they are made for. -/
theorem Shows.of_readiness {Δ' : Setting} (h : s.Shows Δ)
    (hsame : Δ.map OpenScope.readiness = Δ'.map OpenScope.readiness) : s.Shows Δ' :=
  Eq.trans h hsame

theorem Shows.leave {scope : OpenScope} (h : s.Shows (scope :: Δ)) : s.leave.Shows Δ := by
  unfold Shows at h ⊢
  change s.scopes.tail.map _ = _
  rw [List.map_tail, h]
  rfl

/-- Marking a name changes what the innermost scope says of it. -/
theorem Shows.mark {scope scope' : OpenScope} (h : s.Shows (scope :: Δ)) {x : String}
    {readiness : Readiness}
    (hmark : ∀ y, scope'.readiness y = if x = y then some readiness else scope.readiness y) :
    (s.mark x readiness).Shows (scope' :: Δ) := by
  unfold Shows at h ⊢
  unfold State.mark
  cases hscopes : s.scopes with
  | nil =>
    rw [hscopes] at h
    cases h
  | cons first rest =>
    rw [hscopes] at h
    simp only [List.map_cons, List.cons.injEq] at h ⊢
    refine ⟨?_, h.2⟩
    funext y
    rw [Bindings.find?_insert, hmark, ← h.1]

theorem Shows.mark_nil (h : s.Shows []) (x : String) (readiness : Readiness) :
    (s.mark x readiness).Shows [] := by
  unfold Shows at h ⊢
  unfold State.mark
  cases hscopes : s.scopes with
  | nil => simp
  | cons first rest =>
    rw [hscopes] at h
    cases h

theorem Shows.enter (h : s.Shows Δ) (origin : Origin) :
    s.enter.Shows (⟨origin, [], none⟩ :: Δ) := by
  unfold Shows at h ⊢
  simp only [State.enter, List.map_cons, h, List.cons.injEq, and_true]
  funext x
  simp [OpenScope.readiness]

theorem distances_mark (s : State) (x : String) (readiness : Readiness) :
    (s.mark x readiness).distances = s.distances := by
  unfold mark
  split <;> rfl

theorem diagnostics_mark (s : State) (x : String) (readiness : Readiness) :
    (s.mark x readiness).diagnostics = s.diagnostics := by
  unfold mark
  split <;> rfl

/-- To declare a variable is to await its value. -/
theorem Shows.declare (h : s.Shows Δ) (hcalm : Δ.Calm) (name : Name) :
    (s.declare name).Shows (Δ.awaiting name.text) := by
  cases Δ with
  | nil => exact h.mark_nil _ _
  | cons scope outer =>
    have hnone : scope.awaited = none := hcalm scope (List.mem_cons_self ..)
    refine h.mark fun y ↦ ?_
    unfold OpenScope.readiness
    by_cases heq : name.text = y
    · simp [heq]
    · simp [heq, hnone]

/-- To define a name, be it new or awaited, is to complete its declaration. -/
theorem Shows.define {Δ' : Setting} (h : s.Shows Δ') (hcalm : Δ.Calm) (name : Name)
    (hawait : Δ' = Δ ∨ Δ' = Δ.awaiting name.text) :
    (s.define name).Shows (Δ.completing [name.text]) := by
  cases Δ with
  | nil =>
    rcases hawait with rfl | rfl
    · exact h.mark_nil _ _
    · exact h.mark_nil _ _
  | cons scope outer =>
    have hnone : scope.awaited = none := hcalm scope (List.mem_cons_self ..)
    rcases hawait with rfl | rfl
    · refine h.mark fun y ↦ ?_
      unfold OpenScope.readiness
      by_cases heq : name.text = y
      · simp [heq, hnone]
      · simp [heq, hnone, Ne.symm heq]
    · refine h.mark fun y ↦ ?_
      unfold OpenScope.readiness
      by_cases heq : name.text = y
      · simp [heq, hnone]
      · simp [heq, hnone, Ne.symm heq]

end State

/-! ### Stretches of the walk -/

/-- A step that opens and closes scopes, or marks names in them, and does nothing else. -/
structure Moves (step : State → State) (Δ Δ' : Setting) : Prop where
  shows : ∀ s, s.Shows Δ → (step s).Shows Δ'
  distances : ∀ s, (step s).distances = s.distances
  diagnostics : ∀ s, (step s).diagnostics = s.diagnostics

/-- A stretch of the walk leads from one setting to another. It records distances for `ids` only,
and if it has not reported anything it has found out `found`, which holds of the distances and of
all that agree with them on `ids`. -/
structure Walks (walk : State → State) (Δ Δ' : Setting) (ids : List NodeId)
    (found : Distances → Prop) : Prop where
  shows : ∀ s, s.Shows Δ → (walk s).Shows Δ'
  kept : ∀ s id, id ∉ ids → (walk s).distances.find? id = s.distances.find? id
  distinct : ∀ s, s.distances.Distinct → (walk s).distances.Distinct
  clean : ∀ s, (walk s).diagnostics = [] → s.diagnostics = []
  found : ∀ s D, s.Shows Δ → (∀ id ∈ ids, s.distances.find? id = none) →
    (walk s).diagnostics = [] → (∀ id ∈ ids, D.find? id = (walk s).distances.find? id) → found D

namespace Walks

variable {walk walk' : State → State} {Δ Δ₁ Δ₂ : Setting} {ids ids' : List NodeId}
  {found found' : Distances → Prop}

theorem imp (h : Walks walk Δ Δ₁ ids found) (himp : ∀ D, found D → found' D) :
    Walks walk Δ Δ₁ ids found' :=
  ⟨h.shows, h.kept, h.distinct, h.clean,
    fun s D hs hfresh hclean hD ↦ himp D (h.found s D hs hfresh hclean hD)⟩

theorem comp (h : Walks walk Δ Δ₁ ids found) (h' : Walks walk' Δ₁ Δ₂ ids' found')
    (hids : (ids ++ ids').Nodup) :
    Walks (fun s ↦ walk' (walk s)) Δ Δ₂ (ids ++ ids') fun D ↦ found D ∧ found' D := by
  obtain ⟨-, -, hdisjoint⟩ := List.nodup_append.1 hids
  refine ⟨fun s hs ↦ h'.shows _ (h.shows s hs), fun s id hid ↦ ?_,
    fun s hs ↦ h'.distinct _ (h.distinct s hs), fun s hclean ↦ h.clean s (h'.clean _ hclean),
    fun s D hs hfresh hclean hD ↦ ?_⟩
  · rw [List.mem_append, not_or] at hid
    rw [h'.kept _ id hid.2, h.kept s id hid.1]
  · have hfirst : ∀ id ∈ ids, D.find? id = (walk s).distances.find? id := fun id hid ↦ by
      rw [hD id (List.mem_append_left _ hid),
        h'.kept _ id fun hid' ↦ hdisjoint id hid id hid' rfl]
    have hfresh' : ∀ id ∈ ids', (walk s).distances.find? id = none := fun id hid ↦ by
      rw [h.kept s id fun hid' ↦ hdisjoint id hid' id hid rfl]
      exact hfresh id (List.mem_append_right _ hid)
    exact ⟨h.found s D hs (fun id hid ↦ hfresh id (List.mem_append_left _ hid))
        (h'.clean _ hclean) hfirst,
      h'.found _ D (h.shows s hs) hfresh' hclean fun id hid ↦ hD id (List.mem_append_right _ hid)⟩

theorem nothing : Walks (fun s ↦ s) Δ Δ [] fun _ ↦ True :=
  ⟨fun _ hs ↦ hs, fun _ _ _ ↦ rfl, fun _ hs ↦ hs, fun _ hclean ↦ hclean,
    fun _ _ _ _ _ _ ↦ trivial⟩

theorem ending (h : Walks walk Δ Δ₁ ids found) (heq : Δ₂ = Δ₁) : Walks walk Δ Δ₂ ids found :=
  heq ▸ h

/-- A walk between two steps that change nothing but the scopes. -/
theorem between {first last : State → State} {Δ₃ : Setting} (h : Walks walk Δ₁ Δ₂ ids found)
    (hfirst : Moves first Δ Δ₁) (hlast : Moves last Δ₂ Δ₃) :
    Walks (fun s ↦ last (walk (first s))) Δ Δ₃ ids found := by
  refine ⟨fun s hs ↦ hlast.shows _ (h.shows _ (hfirst.shows s hs)), fun s id hid ↦ ?_,
    fun s hs ↦ ?_, fun s hclean ↦ ?_, fun s D hs hfresh hclean hD ↦ ?_⟩
  · rw [hlast.distances, h.kept _ id hid, hfirst.distances]
  · rw [hlast.distances]
    exact h.distinct _ (by rwa [hfirst.distances])
  · rw [hlast.diagnostics] at hclean
    exact (hfirst.diagnostics s).symm.trans (h.clean _ hclean)
  · rw [hlast.diagnostics] at hclean
    refine h.found (first s) D (hfirst.shows s hs) (fun id hid ↦ ?_) hclean fun id hid ↦ ?_
    · rw [hfirst.distances]
      exact hfresh id hid
    · rw [hD id hid, hlast.distances]

/-- Walks do not depend on what scopes are made for. -/
theorem of_readiness {Δ' Δ₁' : Setting} (h : Walks walk Δ Δ₁ ids found)
    (hsame : Δ.map OpenScope.readiness = Δ'.map OpenScope.readiness)
    (hsame' : Δ₁.map OpenScope.readiness = Δ₁'.map OpenScope.readiness) :
    Walks walk Δ' Δ₁' ids found :=
  ⟨fun s hs ↦ (h.shows s (hs.of_readiness hsame.symm)).of_readiness hsame', h.kept, h.distinct,
    h.clean, fun s D hs ↦ h.found s D (hs.of_readiness hsame.symm)⟩

/-- What is reported in a case does not pass. -/
theorem reportIf (fault : Bool) (line : Nat) (cause : ResolutionError) :
    Walks (fun s ↦ s.reportIf fault line cause) Δ Δ [] fun _ ↦ fault = false := by
  cases fault with
  | false =>
    exact ⟨fun s hs ↦ hs, fun s id _ ↦ rfl, fun s hs ↦ hs, fun s hclean ↦ hclean,
      fun _ _ _ _ _ _ ↦ rfl⟩
  | true =>
    have hnot (s : State) : (s.report line cause).diagnostics ≠ [] := by simp [State.report]
    exact ⟨fun s hs ↦ hs, fun s id _ ↦ rfl, fun s hs ↦ hs,
      fun s hclean ↦ absurd hclean (hnot s), fun s _ _ _ hclean ↦ absurd hclean (hnot s)⟩

theorem report (line : Nat) (cause : ResolutionError) (ids : List NodeId) :
    Walks (fun s ↦ s.report line cause) Δ Δ ids fun _ ↦ False := by
  have hnot (s : State) : (s.report line cause).diagnostics ≠ [] := by simp [State.report]
  exact ⟨fun s hs ↦ hs, fun s id _ ↦ rfl, fun s hs ↦ hs, fun s hclean ↦ absurd hclean (hnot s),
    fun s _ _ _ hclean ↦ absurd hclean (hnot s)⟩

theorem record (id : NodeId) (x : String) :
    Walks (fun s ↦ s.record id x) Δ Δ [id] fun D ↦ D.find? id = Δ.distance? x := by
  refine ⟨fun s hs ↦ ?_, fun s id' hid ↦ ?_, fun s hs ↦ ?_, fun s hclean ↦ ?_,
    fun s D hs hfresh _ hD ↦ ?_⟩
  · unfold State.record
    split <;> exact hs
  · unfold State.record
    split
    · exact (Bindings.find?_insert ..).trans (if_neg fun heq ↦ hid (List.mem_singleton.2 heq.symm))
    · rfl
  · unfold State.record
    split
    · exact hs.insert _ _
    · exact hs
  · unfold State.record at hclean
    split at hclean <;> exact hclean
  · have hmem := List.mem_singleton.2 (Eq.refl id)
    rw [hD id hmem, ← hs.distance? x]
    unfold State.record
    cases hdistance : s.distance? x with
    | none => exact hfresh id hmem
    | some distance => exact (Bindings.find?_insert ..).trans (if_pos rfl)

theorem readVariable (id : NodeId) (name : Name) :
    Walks (readVariable id name) Δ Δ [id] fun D ↦
      (∀ s outer, Δ = s :: outer → s.awaited ≠ some name.text) ∧
        D.find? id = Δ.distance? name.text := by
  have hrecord := record (Δ := Δ) id name.text
  have hscopes (s : State) : (s.reportIf (s.awaits name.text) name.line .ownInitializer).scopes =
      s.scopes ∧ (s.reportIf (s.awaits name.text) name.line .ownInitializer).distances =
      s.distances := by
    unfold State.reportIf
    split <;> exact ⟨rfl, rfl⟩
  have hshows (s : State) (hs : s.Shows Δ) :
      (s.reportIf (s.awaits name.text) name.line .ownInitializer).Shows Δ := by
    unfold State.Shows
    rw [(hscopes s).1]
    exact hs
  refine ⟨fun s hs ↦ hrecord.shows _ (hshows s hs), fun s id' hid ↦ ?_, fun s hs ↦ ?_,
    fun s hclean ↦ ?_, fun s D hs hfresh hclean hD ↦ ⟨fun scope outer hΔ hawaited ↦ ?_, ?_⟩⟩
  · exact (hrecord.kept _ id' hid).trans (by rw [(hscopes s).2])
  · exact hrecord.distinct _ (by rwa [(hscopes s).2])
  · have hreport := hrecord.clean _ hclean
    unfold State.reportIf at hreport
    split at hreport
    · simp [State.report] at hreport
    · exact hreport
  · have hreport := hrecord.clean _ hclean
    have hawaits : s.awaits name.text = true := by
      unfold State.Shows at hs
      unfold State.awaits
      rw [hΔ] at hs
      cases hscope : s.scopes with
      | nil =>
        rw [hscope] at hs
        cases hs
      | cons first rest =>
        rw [hscope] at hs
        simp only [List.map_cons, List.cons.injEq] at hs
        have hfind := congrFun hs.1 name.text
        dsimp only at hfind ⊢
        rw [hfind, OpenScope.readiness, if_pos hawaited]
        simp
    rw [hawaits] at hreport
    simp [State.reportIf, State.report] at hreport
  · refine hrecord.found _ D (hshows s hs) (fun id' hid ↦ ?_) hclean hD
    rw [(hscopes s).2]
    exact hfresh id' hid

end Walks

/-! ### Expressions -/

/-- The context that the walk carries along agrees with the setting, which is not one right
around methods. -/
structure Context.Fits (context : Context) (Δ : Setting) : Prop where
  owner : context.owner = Δ.owner
  routine : context.routine ≠ .none → Δ.InRoutine
  between : ∀ name methods complete awaited outer,
    Δ ≠ ⟨.extension name methods, complete, awaited⟩ :: outer

namespace Context.Fits

variable {context : Context} {Δ : Setting}

/-- What a context fits is told by what the scopes are made for, and whose class they belong to. -/
theorem of_origins {Δ' : Setting} (h : context.Fits Δ) (howner : Δ'.owner = Δ.owner)
    (hsame : Δ'.map OpenScope.origin = Δ.map OpenScope.origin) : context.Fits Δ' := by
  refine ⟨h.owner.trans howner.symm, fun hroutine ↦ ?_,
    fun name methods complete awaited outer heq ↦ ?_⟩
  · obtain ⟨s, hs, r, hr⟩ := h.routine hroutine
    have hmem : s.origin ∈ Δ'.map OpenScope.origin := hsame ▸ List.mem_map_of_mem hs
    obtain ⟨s', hs', heq⟩ := List.mem_map.1 hmem
    exact ⟨s', hs', r, heq.trans hr⟩
  · subst heq
    cases Δ with
    | nil => cases hsame
    | cons first outer' =>
      obtain ⟨origin, complete', awaited'⟩ := first
      obtain ⟨rfl, -⟩ := List.cons.inj hsame
      exact h.between _ _ _ _ _ rfl

theorem completing (h : context.Fits Δ) (names : List String) :
    context.Fits (Δ.completing names) :=
  h.of_origins (Setting.owner_completing names) (by cases Δ <;> rfl)

theorem awaiting (h : context.Fits Δ) (x : String) : context.Fits (Δ.awaiting x) :=
  h.of_origins (Setting.owner_awaiting x) (by cases Δ <;> rfl)

theorem block (h : context.Fits Δ) (body : List Stmt) : context.Fits (.block body :: Δ) := by
  refine ⟨h.owner, fun hroutine ↦ ?_, fun _ _ _ _ _ heq ↦ nomatch heq⟩
  obtain ⟨s, hs, hr⟩ := h.routine hroutine
  exact ⟨s, List.mem_cons_of_mem _ hs, hr⟩

theorem call {owner : ClassContext} (h : owner = Δ.owner) (kind : RoutineContext) (r : Routine) :
    Context.Fits ⟨kind, owner⟩ (.call r :: Δ) :=
  ⟨h, fun _ ↦ ⟨.call r, List.mem_cons_self .., r, rfl⟩, fun _ _ _ _ _ heq ↦ nomatch heq⟩

/-- The methods of a class that extends no other one. -/
theorem owner_receiver (h : context.Fits Δ) (name : Name) (r : Routine) :
    .class_ = Setting.owner (.receiver r :: Δ.completing [name.text]) := by
  have hbetween := (h.completing [name.text]).between
  generalize Δ.completing [name.text] = Θ at hbetween
  cases Θ with
  | nil => rfl
  | cons s outer =>
    obtain ⟨origin, complete, awaited⟩ := s
    cases origin with
    | extension name methods => exact absurd rfl (hbetween name methods complete awaited outer)
    | _ => rfl

end Context.Fits

variable {context : Context} {Δ : Setting}

theorem placed_of_allowed {D : Distances} {c : Code} (h : Allowed Δ c)
    (huse : ∀ id x, c ≠ .use id x) : Placed D Δ c :=
  ⟨h, fun id x heq ↦ absurd heq (huse id x)⟩

theorem walks_this (hcontext : context.Fits Δ) (id : NodeId) (line : Nat) :
    Walks (thisAccess context id line) Δ Δ [id] fun D ↦ Settled D Δ (.expr (.this id line)) := by
  have howner := hcontext.owner
  have hrecord : Δ.owner ≠ .none → Walks (fun s ↦ s.record id "this") Δ Δ [id]
      fun D ↦ Settled D Δ (.expr (.this id line)) := fun hallowed ↦
    (Walks.record id "this").imp fun D hD ↦
      settled_intro (placed_of_allowed hallowed (by rintro _ _ ⟨⟩)) fun Δ₁ c₁ hpart ↦ by
        cases hpart
        exact settled_use hD
  unfold thisAccess
  cases hcase : context.owner with
  | none => exact (Walks.report line _ [id]).imp fun D hfalse ↦ hfalse.elim
  | class_ => exact hrecord (by rw [← howner, hcase]; rintro ⟨⟩)
  | subclass => exact hrecord (by rw [← howner, hcase]; rintro ⟨⟩)

theorem walks_super (hcontext : context.Fits Δ) (id : NodeId) (line : Nat) (method : Name) :
    Walks (superAccess context id line) Δ Δ [id]
      fun D ↦ Settled D Δ (.expr (.super id line method)) := by
  have howner := hcontext.owner
  unfold superAccess
  cases hcase : context.owner with
  | none => exact (Walks.report line _ [id]).imp fun D hfalse ↦ hfalse.elim
  | class_ => exact (Walks.report line _ [id]).imp fun D hfalse ↦ hfalse.elim
  | subclass =>
    have hallowed : Allowed Δ (.expr (.super id line method)) := by
      rw [hcase] at howner
      exact howner.symm
    exact (Walks.record id "super").imp fun D hD ↦
      settled_intro (placed_of_allowed hallowed (by rintro _ _ ⟨⟩)) fun Δ₁ c₁ hpart ↦ by
        cases hpart
        exact settled_use hD

/-- A walk over one part of an expression that has no other parts. -/
theorem walks_part {walk : State → State} {e : Expr} {c : Code} {ids : List NodeId}
    (h : Walks walk Δ Δ ids fun D ↦ Settled D Δ c) (hallowed : Allowed Δ (.expr e))
    (hparts : ∀ Δ₁ c₁, Part Δ (.expr e) Δ₁ c₁ → Δ₁ = Δ ∧ c₁ = c) :
    Walks walk Δ Δ ids fun D ↦ Settled D Δ (.expr e) :=
  h.imp fun D hD ↦ settled_intro (placed_of_allowed hallowed fun _ _ h ↦ nomatch h)
    fun Δ₁ c₁ hpart ↦ by
      obtain ⟨rfl, rfl⟩ := hparts Δ₁ c₁ hpart
      exact hD

/-- A walk over two parts of an expression, one after the other. -/
theorem walks_parts {whole walk walk' : State → State} {e : Expr} {c c' : Code}
    {ids ids' : List NodeId}
    (h : Walks walk Δ Δ ids fun D ↦ Settled D Δ c)
    (h' : Walks walk' Δ Δ ids' fun D ↦ Settled D Δ c') (hids : (ids ++ ids').Nodup)
    (hwhole : whole = fun s ↦ walk' (walk s)) (hallowed : Allowed Δ (.expr e))
    (hparts : ∀ Δ₁ c₁, Part Δ (.expr e) Δ₁ c₁ → Δ₁ = Δ ∧ (c₁ = c ∨ c₁ = c')) :
    Walks whole Δ Δ (ids ++ ids') fun D ↦ Settled D Δ (.expr e) := by
  rw [hwhole]
  exact (h.comp h' hids).imp fun D hD ↦
    settled_intro (placed_of_allowed hallowed fun _ _ h ↦ nomatch h) fun Δ₁ c₁ hpart ↦ by
      obtain ⟨rfl, rfl | rfl⟩ := hparts Δ₁ c₁ hpart
      · exact hD.1
      · exact hD.2

mutual

theorem walks_expr (hcontext : context.Fits Δ) : ∀ e : Expr, e.ids.Nodup →
    Walks (expr context e) Δ Δ e.ids fun D ↦ Settled D Δ (.expr e)
  | .literal value, _ =>
    Walks.nothing.imp fun D _ ↦ settled_intro (placed_of_allowed trivial fun _ _ h ↦ nomatch h)
      fun Δ₁ c₁ hpart ↦ nomatch hpart
  | .grouping e, hids =>
    walks_part (walks_expr hcontext e hids) trivial fun Δ₁ c₁ hpart ↦ by
      cases hpart
      exact ⟨rfl, rfl⟩
  | .unary op line e, hids =>
    walks_part (walks_expr hcontext e hids) trivial fun Δ₁ c₁ hpart ↦ by
      cases hpart
      exact ⟨rfl, rfl⟩
  | .binary op line l r, hids =>
    walks_parts (walks_expr hcontext l (List.nodup_append.1 hids).1)
      (walks_expr hcontext r (List.nodup_append.1 hids).2.1) hids rfl trivial fun Δ₁ c₁ hpart ↦ by
        cases hpart
        · exact ⟨rfl, Or.inl rfl⟩
        · exact ⟨rfl, Or.inr rfl⟩
  | .logical op line l r, hids =>
    walks_parts (walks_expr hcontext l (List.nodup_append.1 hids).1)
      (walks_expr hcontext r (List.nodup_append.1 hids).2.1) hids rfl trivial fun Δ₁ c₁ hpart ↦ by
        cases hpart
        · exact ⟨rfl, Or.inl rfl⟩
        · exact ⟨rfl, Or.inr rfl⟩
  | .var id name, _ =>
    (Walks.readVariable id name).imp fun D hD ↦
      settled_intro (placed_of_allowed hD.1 fun _ _ h ↦ nomatch h) fun Δ₁ c₁ hpart ↦ by
        cases hpart
        exact settled_use hD.2
  | .assign id name value, hids =>
    walks_parts (walks_expr hcontext value (List.nodup_append.1 hids).1)
      ((Walks.record id name.text).imp fun D hD ↦ settled_use hD) hids rfl trivial
      fun Δ₁ c₁ hpart ↦ by
        cases hpart
        · exact ⟨rfl, Or.inl rfl⟩
        · exact ⟨rfl, Or.inr rfl⟩
  | .call callee line args, hids =>
    ((walks_expr hcontext callee (List.nodup_append.1 hids).1).comp
      (walks_exprs hcontext args (List.nodup_append.1 hids).2.1) hids).imp fun D hD ↦
        settled_intro (placed_of_allowed trivial fun _ _ h ↦ nomatch h) fun Δ₁ c₁ hpart ↦ by
          cases hpart with
          | callee => exact hD.1
          | argument mem => exact hD.2 _ mem
  | .get object name, hids =>
    walks_part (walks_expr hcontext object hids) trivial fun Δ₁ c₁ hpart ↦ by
      cases hpart
      exact ⟨rfl, rfl⟩
  | .set object name value, hids =>
    walks_parts (walks_expr hcontext value (List.nodup_append.1 hids).1)
      (walks_expr hcontext object (List.nodup_append.1 hids).2.1) hids rfl trivial
      fun Δ₁ c₁ hpart ↦ by
        cases hpart
        · exact ⟨rfl, Or.inr rfl⟩
        · exact ⟨rfl, Or.inl rfl⟩
  | .this id line, _ => walks_this hcontext id line
  | .super id line method, _ => walks_super hcontext id line method

theorem walks_exprs (hcontext : context.Fits Δ) : ∀ es : List Expr, (Expr.idsAll es).Nodup →
    Walks (exprs context es) Δ Δ (Expr.idsAll es) fun D ↦ ∀ e ∈ es, Settled D Δ (.expr e)
  | [], _ => Walks.nothing.imp fun D _ e he ↦ nomatch he
  | e :: es, hids =>
    ((walks_expr hcontext e (List.nodup_append.1 hids).1).comp
      (walks_exprs hcontext es (List.nodup_append.1 hids).2.1) hids).imp fun D hD e' he ↦ by
        rcases List.mem_cons.1 he with rfl | he
        · exact hD.1
        · exact hD.2 e' he

end

/-! ### Statements -/

namespace Moves

theorem trans {step step' : State → State} {Δ₁ Δ₂ : Setting} (h : Moves step Δ Δ₁)
    (h' : Moves step' Δ₁ Δ₂) : Moves (fun s ↦ step' (step s)) Δ Δ₂ :=
  ⟨fun s hs ↦ h'.shows _ (h.shows s hs), fun s ↦ (h'.distances _).trans (h.distances s),
    fun s ↦ (h'.diagnostics _).trans (h.diagnostics s)⟩

theorem refl (Δ : Setting) : Moves (fun s ↦ s) Δ Δ := ⟨fun _ hs ↦ hs, fun _ ↦ rfl, fun _ ↦ rfl⟩

theorem enter (Δ : Setting) (origin : Origin) : Moves State.enter Δ (⟨origin, [], none⟩ :: Δ) :=
  ⟨fun _ hs ↦ hs.enter origin, fun _ ↦ rfl, fun _ ↦ rfl⟩

theorem leave (scope : OpenScope) (Δ : Setting) : Moves State.leave (scope :: Δ) Δ :=
  ⟨fun _ hs ↦ hs.leave, fun _ ↦ rfl, fun _ ↦ rfl⟩

/-- A scope that begins with one name. -/
theorem enter_mark (Δ : Setting) (origin : Origin) (x : String) :
    Moves (fun s ↦ s.enter.mark x .ready) Δ (⟨origin, [x], none⟩ :: Δ) := by
  refine ⟨fun s hs ↦ (hs.enter origin).mark fun y ↦ ?_,
    fun _ ↦ State.distances_mark _ _ _, fun _ ↦ State.diagnostics_mark _ _ _⟩
  by_cases heq : x = y
  · simp [OpenScope.readiness, heq]
  · simp [OpenScope.readiness, heq, Ne.symm heq]

theorem declare (hcalm : Δ.Calm) (name : Name) :
    Moves (fun s ↦ s.declare name) Δ (Δ.awaiting name.text) :=
  ⟨fun _ hs ↦ hs.declare hcalm name, fun _ ↦ State.distances_mark _ _ _,
    fun _ ↦ State.diagnostics_mark _ _ _⟩

theorem define (hcalm : Δ.Calm) (name : Name) :
    Moves (fun s ↦ s.define name) (Δ.awaiting name.text) (Δ.completing [name.text]) :=
  ⟨fun _ hs ↦ hs.define hcalm name (Or.inr rfl), fun _ ↦ State.distances_mark _ _ _,
    fun _ ↦ State.diagnostics_mark _ _ _⟩

theorem declare_define (hcalm : Δ.Calm) (name : Name) :
    Moves (fun s ↦ (s.declare name).define name) Δ (Δ.completing [name.text]) :=
  (declare hcalm name).trans (define hcalm name)

theorem parameters (hcalm : Δ.Calm) (origin : Origin) (names : List Name) (complete : List String) :
    Moves (parameters names) (⟨origin, complete, none⟩ :: Δ)
      (⟨origin, (names.map Name.text).reverse ++ complete, none⟩ :: Δ) := by
  induction names generalizing complete with
  | nil => exact refl _
  | cons name names ih =>
    have hfirst := declare_define (Δ := ⟨origin, complete, none⟩ :: Δ) (hcalm.cons rfl) name
    have hrest := hfirst.trans (ih (name.text :: complete))
    rw [List.map_cons, List.reverse_cons, List.append_assoc]
    exact hrest

end Moves

theorem settled_stmt {D : Distances} {s : Stmt} (hallowed : Allowed Δ (.stmt s))
    (hparts : ∀ Δ₁ c₁, Part Δ (.stmt s) Δ₁ c₁ → Settled D Δ₁ c₁) : Settled D Δ (.stmt s) :=
  settled_intro (placed_of_allowed hallowed fun _ _ h ↦ nomatch h) hparts

/-- The scope of a call, when the parameters have been taken in, one by one. -/
theorem map_readiness_call (r : Routine) (Δ : Setting) :
    (⟨.call r, (r.parameters.map Name.text).reverse ++ [], none⟩ :: Δ).map OpenScope.readiness =
      (OpenScope.call r :: Δ).map OpenScope.readiness := by
  simp only [List.map_cons, List.cons.injEq, and_true]
  funext x
  simp [OpenScope.readiness, OpenScope.call, Routine.parameterNames]

/-- The scope of a receiver, made for no method yet. -/
def methodsScope : OpenScope := ⟨.program, ["this"], none⟩

theorem Walks.superclass (name : Name) (s : Superclass) :
    Walks (fun st ↦ Resolution.readVariable s.id s.name
        (st.reportIf (decide (s.name.text = name.text)) s.name.line .selfInheritance))
      (Δ.completing [name.text]) (Δ.completing [name.text]) [s.id] fun D ↦
        s.name.text ≠ name.text ∧ Settled D Δ (.use s.id s.name.text) :=
  ((Walks.reportIf _ _ _).comp (Walks.readVariable s.id s.name) (List.nodup_singleton _)).imp
    fun D hD ↦ by
      have hne : s.name.text ≠ name.text := of_decide_eq_false hD.1
      exact ⟨hne, settled_use (hD.2.2.trans (Setting.distance?_completing hne))⟩

/-- A statement that declares nothing leaves the scopes as they are. -/
theorem Walks.of_declared_nil {walk : State → State} {ids : List NodeId}
    {found : Distances → Prop} {s : Stmt}
    (h : Walks walk Δ (Δ.completing s.declared) ids found) (hnone : s.declared = []) :
    Walks walk Δ Δ ids found :=
  h.ending (by rw [hnone, Setting.completing_nil])

mutual

theorem walks_stmt {context : Context} {Δ : Setting} (hcontext : context.Fits Δ)
    (hcalm : Δ.Calm) : ∀ s : Stmt, WellRead Δ (.stmt s) → s.ids.Nodup →
      Walks (stmt context s) Δ (Δ.completing s.declared) s.ids fun D ↦ Settled D Δ (.stmt s)
  | .expression e, _, hids => by
    refine Walks.ending ?_ Δ.completing_nil
    refine (walks_expr hcontext e hids).imp fun D hD ↦ settled_stmt trivial fun Δ₁ c₁ hpart ↦ ?_
    cases hpart
    exact hD
  | .print e, _, hids => by
    refine Walks.ending ?_ Δ.completing_nil
    refine (walks_expr hcontext e hids).imp fun D hD ↦ settled_stmt trivial fun Δ₁ c₁ hpart ↦ ?_
    cases hpart
    exact hD
  | .var name none, _, _ =>
    (Walks.nothing.between (Moves.declare hcalm name) (Moves.define hcalm name)).imp fun D _ ↦
      settled_stmt trivial fun Δ₁ c₁ hpart ↦ nomatch hpart
  | .var name (some e), _, hids => by
    refine ((walks_expr (hcontext.awaiting name.text) e hids).between (Moves.declare hcalm name)
      (Moves.define hcalm name)).imp fun D hD ↦ settled_stmt trivial fun Δ₁ c₁ hpart ↦ ?_
    cases hpart
    exact hD
  | .block body, hread, hids => by
    obtain ⟨scope, hscope⟩ := Setting.after_cons body (.block body) Δ
    have hwalk := walks_stmts (hcontext.block body) (hcalm.cons rfl) body (hread.part .block) hids
    rw [hscope] at hwalk
    refine Walks.ending ?_ Δ.completing_nil
    refine (hwalk.between (Moves.enter Δ _) (Moves.leave scope Δ)).imp fun D hD ↦
      settled_stmt trivial fun Δ₁ c₁ hpart ↦ ?_
    cases hpart
    exact hD
  | .ifThen test s, hread, hids => by
    obtain ⟨htest, hs, -⟩ := List.nodup_append.1 hids
    have hwalk :=
      (walks_stmt hcontext hcalm s (hread.part .ifConsequent) hs).of_declared_nil hread.here
    refine Walks.ending ?_ Δ.completing_nil
    refine ((walks_expr hcontext test htest).comp hwalk hids).imp fun D hD ↦
      settled_stmt trivial fun Δ₁ c₁ hpart ↦ ?_
    cases hpart with
    | ifTest => exact hD.1
    | ifConsequent => exact hD.2
  | .ifElse test s t, hread, hids => by
    obtain ⟨htest, hbranches, -⟩ := List.nodup_append.1 hids
    obtain ⟨hs, ht, -⟩ := List.nodup_append.1 hbranches
    obtain ⟨hdeclared, hdeclared'⟩ := hread.here
    have hwalk :=
      (walks_stmt hcontext hcalm s (hread.part .elseConsequent) hs).of_declared_nil hdeclared
    have hwalk' :=
      (walks_stmt hcontext hcalm t (hread.part .elseAlternative) ht).of_declared_nil hdeclared'
    refine Walks.ending ?_ Δ.completing_nil
    refine ((walks_expr hcontext test htest).comp (hwalk.comp hwalk' hbranches) hids).imp
      fun D hD ↦ settled_stmt trivial fun Δ₁ c₁ hpart ↦ ?_
    cases hpart with
    | elseTest => exact hD.1
    | elseConsequent => exact hD.2.1
    | elseAlternative => exact hD.2.2
  | .loop test s, hread, hids => by
    obtain ⟨htest, hs, -⟩ := List.nodup_append.1 hids
    have hwalk :=
      (walks_stmt hcontext hcalm s (hread.part .loopBody) hs).of_declared_nil hread.here
    refine Walks.ending ?_ Δ.completing_nil
    refine ((walks_expr hcontext test htest).comp hwalk hids).imp fun D hD ↦
      settled_stmt trivial fun Δ₁ c₁ hpart ↦ ?_
    cases hpart with
    | loopTest => exact hD.1
    | loopBody => exact hD.2
  | .function r, hread, hids => by
    have howner : context.owner = (Δ.completing [r.name.text]).owner :=
      (hcontext.completing [r.name.text]).owner
    refine ((walks_routine howner .function (hcalm.completing _) r (hread.part .function)
      hids).between (Moves.declare_define hcalm r.name) (Moves.refl _)).imp fun D hD ↦
        settled_stmt trivial fun Δ₁ c₁ hpart ↦ ?_
    cases hpart
    exact hD
  | .return_ line none, _, _ => by
    refine Walks.ending ?_ Δ.completing_nil
    refine (Walks.reportIf _ line .returnOutsideFunction).imp fun D hD ↦ settled_stmt
      (hcontext.routine (of_decide_eq_false hD)) fun Δ₁ c₁ hpart ↦ nomatch hpart
  | .return_ line (some e), _, hids => by
    refine Walks.ending ?_ Δ.completing_nil
    refine ((Walks.reportIf _ line .returnOutsideFunction).comp
      ((Walks.reportIf _ line .valueFromInitializer).comp (walks_expr hcontext e hids) hids)
        hids).imp fun D hD ↦ settled_stmt (hcontext.routine (of_decide_eq_false hD.1))
          fun Δ₁ c₁ hpart ↦ ?_
    cases hpart
    exact hD.2.2
  | .class_ name none methods, hread, hids => by
    have hwalk := walks_routines .class_
      (fun r ↦ hcontext.owner_receiver name r) (hcalm.completing _) methods
      (fun r hr ↦ hread.part (.method hr)) hids
    refine (hwalk.between ((Moves.declare_define hcalm name).trans
      (Moves.enter_mark _ _ "this")) (Moves.leave _ _)).imp fun D hD ↦
        settled_stmt trivial fun Δ₁ c₁ hpart ↦ ?_
    cases hpart with
    | method mem => exact hD _ mem
  | .class_ name (some s) methods, hread, hids => by
    have hcalm' : Setting.Calm (OpenScope.extension name methods (some s) ++
        Δ.completing [name.text]) := (hcalm.completing _).cons rfl
    have hwalk := walks_routines .subclass (fun r ↦ rfl) hcalm' methods
      (fun r hr ↦ hread.part (.method hr)) (List.nodup_append.1 hids).2.1
    have hsuper := Walks.superclass (Δ := Δ) name s
    refine ((hsuper.between (Moves.declare_define hcalm name) (Moves.refl _)).comp
      (hwalk.between ((Moves.enter_mark _ _ "super").trans (Moves.enter_mark _ _ "this"))
        ((Moves.leave _ _).trans (Moves.leave _ _))) hids).imp fun D hD ↦
          settled_stmt hD.1.1 fun Δ₁ c₁ hpart ↦ ?_
    cases hpart with
    | superclass => exact hD.1.2
    | method mem => exact hD.2 _ mem

theorem walks_stmts {context : Context} {Δ : Setting} (hcontext : context.Fits Δ)
    (hcalm : Δ.Calm) : ∀ ss : List Stmt, WellRead Δ (.stmts ss) → (Stmt.idsAll ss).Nodup →
      Walks (stmts context ss) Δ (Setting.after ss Δ) (Stmt.idsAll ss)
        fun D ↦ Settled D Δ (.stmts ss)
  | [], _, _ => Walks.nothing.imp fun D _ ↦
    settled_intro (placed_of_allowed trivial fun _ _ h ↦ nomatch h)
      fun Δ₁ c₁ hpart ↦ nomatch hpart
  | s :: ss, hread, hids =>
    ((walks_stmt hcontext hcalm s (hread.part .head) (List.nodup_append.1 hids).1).comp
      (walks_stmts (hcontext.completing _) (hcalm.completing _) ss (hread.part .tail)
        (List.nodup_append.1 hids).2.1) hids).imp fun D hD ↦
          settled_intro (placed_of_allowed trivial fun _ _ h ↦ nomatch h) fun Δ₁ c₁ hpart ↦ by
            cases hpart with
            | head => exact hD.1
            | tail => exact hD.2

theorem walks_routine {owner : ClassContext} {Δ : Setting} (howner : owner = Δ.owner)
    (kind : RoutineContext) (hcalm : Δ.Calm) : ∀ r : Routine, WellRead Δ (.routine r) →
      r.ids.Nodup →
      Walks (routine owner kind r) Δ Δ r.ids fun D ↦ Settled D Δ (.routine r)
  | ⟨name, names, body⟩, hread, hids => by
    obtain ⟨scope, hscope⟩ := Setting.after_cons body (.call ⟨name, names, body⟩) Δ
    have hwalk := walks_stmts (Context.Fits.call howner kind ⟨name, names, body⟩)
      (hcalm.cons rfl) body (hread.part .body) hids
    rw [hscope] at hwalk
    have hwalk' := hwalk.of_readiness (map_readiness_call ⟨name, names, body⟩ Δ).symm rfl
    refine (hwalk'.between ((Moves.enter Δ _).trans (Moves.parameters hcalm _ names []))
      (Moves.leave scope Δ)).imp fun D hD ↦
        settled_intro (placed_of_allowed trivial fun _ _ h ↦ nomatch h) fun Δ₁ c₁ hpart ↦ ?_
    cases hpart
    exact hD

theorem walks_routines (owner : ClassContext) {Θ : Setting}
    (howner : ∀ r, owner = Setting.owner (.receiver r :: Θ)) (hcalm : Θ.Calm) :
    ∀ rs : List Routine, (∀ r ∈ rs, WellRead (.receiver r :: Θ) (.routine r)) →
      (Routine.idsAll rs).Nodup →
      Walks (routines owner rs) (methodsScope :: Θ) (methodsScope :: Θ) (Routine.idsAll rs)
        fun D ↦ ∀ r ∈ rs, Settled D (.receiver r :: Θ) (.routine r)
  | [], _, _ => Walks.nothing.imp fun D _ r hr ↦ nomatch hr
  | r :: rs, hread, hids =>
    have hfirst : Walks (routine owner (methodContext r.name) r) (methodsScope :: Θ)
        (methodsScope :: Θ) r.ids fun D ↦ Settled D (.receiver r :: Θ) (.routine r) :=
      (walks_routine (howner r) (methodContext r.name) (hcalm.cons rfl) r
        (hread r (List.mem_cons_self ..)) (List.nodup_append.1 hids).1).of_readiness rfl rfl
    have hothers := walks_routines owner howner hcalm rs
      (fun r' hr ↦ hread r' (List.mem_cons_of_mem _ hr)) (List.nodup_append.1 hids).2.1
    (hfirst.comp hothers hids).imp fun D hD r' hr ↦ by
      rcases List.mem_cons.1 hr with rfl | hr
      · exact hD.1
      · exact hD.2 r' hr

end

/-- What resolution finds in a program that it does not report anything about. The distances are
as good when they have been taken over into a table that was empty. -/
theorem settled_of_resolved {ss : List Stmt} (hread : WellRead [] (.stmts ss))
    (hids : (Stmt.idsAll ss).Nodup) (hclean : (Resolution.ofStatements ss).diagnostics = []) :
    Settled (Bindings.empty.merge (Resolution.ofStatements ss).distances) [] (.stmts ss) := by
  have hcontext : Context.Fits ⟨.none, .none⟩ [] :=
    ⟨rfl, fun h ↦ absurd rfl h, fun _ _ _ _ _ h ↦ nomatch h⟩
  have hwalk := walks_stmts hcontext (fun s hs ↦ nomatch hs) ss hread hids
  have hdistinct := hwalk.distinct .initial Bindings.distinct_empty
  refine hwalk.found .initial _ State.shows_initial (fun _ _ ↦ rfl) hclean fun id _ ↦ ?_
  exact (hdistinct.find?_merge Bindings.empty id).trans (Option.or_none ..)

end Resolution

end Lox
