import Lox.Proofs.Scope.Walk

/-!
What the scopes around a node are like, by where the node stands and nothing else. A scope has
only names that are declared in it; a variable awaits its value in the innermost scope only, and
only while that value is being worked out; and the scope that holds `super` lies right around one
that holds `this`. Where the distance of a name leads follows from this.
-/

set_option autoImplicit false

namespace Lox

/-! ### Scopes of an orderly setting -/

def Origin.IsReceiver : Origin → Prop
  | .receiver _ => True
  | _ => False

def Origin.IsExtension : Origin → Prop
  | .extension _ _ => True
  | _ => False

/-- What a scope may have, by what its frame is made for. -/
def OpenScope.Regular (s : OpenScope) : Prop :=
  match s.origin with
  | .program => False
  | .receiver _ => s.complete = ["this"] ∧ s.awaited = none
  | .extension _ _ => s.complete = ["super"] ∧ s.awaited = none
  | .block _ => (∀ x, s.declares x = true → x ∉ keywordNames) ∧ s.complete ⊆ s.origin.declares
  | .call _ => (∀ x, s.declares x = true → x ∉ keywordNames) ∧ s.complete ⊆ s.origin.declares

/-- Code at which the value of a variable may be awaited. -/
def Code.Awaits : Code → Prop
  | .expr _ => True
  | .use _ _ => True
  | _ => False

/-- The names that the code declares in the scope it stands in. -/
def Code.declared : Code → List String
  | .stmts ss => declaredNames ss
  | .stmt s => s.declared
  | _ => []

structure Setting.Orderly (Δ : Setting) (c : Code) : Prop where
  regular : ∀ s ∈ Δ, s.Regular
  nested : ∀ i s, Δ[i]? = some s → s.origin.IsExtension →
    ∃ j t, i = j + 1 ∧ Δ[j]? = some t ∧ t.origin.IsReceiver
  calm : ∀ i s, Δ[i]? = some s → s.awaited = none ∨ i = 0 ∧ c.Awaits
  methods : ∀ s outer, Δ = s :: outer → s.origin.IsReceiver → ∃ r, c = .routine r
  declared : ∀ s outer, Δ = s :: outer → c.declared ⊆ s.origin.declares

namespace OpenScope

variable {s : OpenScope}

theorem Regular.complete_subset (h : s.Regular) : s.complete ⊆ s.origin.declares := by
  obtain ⟨origin, complete, awaited⟩ := s
  cases origin with
  | program => exact h.elim
  | block body => exact h.2
  | call r => exact h.2
  | receiver r =>
    obtain ⟨rfl, -⟩ := h
    exact fun x hx ↦ hx
  | extension name methods =>
    obtain ⟨rfl, -⟩ := h
    exact fun x hx ↦ hx

/-- A scope that holds neither `this` nor `super` has only names of variables. -/
theorem Regular.plain (h : s.Regular) (hreceiver : ¬s.origin.IsReceiver)
    (hextension : ¬s.origin.IsExtension) {x : String} (hx : s.declares x = true) :
    x ∉ keywordNames := by
  obtain ⟨origin, complete, awaited⟩ := s
  cases origin with
  | program => exact h.elim
  | block body => exact h.1 x hx
  | call r => exact h.1 x hx
  | receiver r => exact absurd trivial hreceiver
  | extension name methods => exact absurd trivial hextension

/-- More names of variables, that the scope is to declare anyway. -/
theorem Regular.more (h : s.Regular) (hreceiver : ¬s.origin.IsReceiver)
    (hextension : ¬s.origin.IsExtension) {s' : OpenScope} (horigin : s'.origin = s.origin)
    (hmore : ∀ x, s'.declares x = true → s.declares x = true ∨ x ∉ keywordNames)
    (hcomplete : s'.complete ⊆ s.origin.declares) : s'.Regular := by
  have hplain : ∀ x, s'.declares x = true → x ∉ keywordNames := fun x hx ↦
    (hmore x hx).elim (fun hold ↦ h.plain hreceiver hextension hold) fun hnew ↦ hnew
  obtain ⟨origin, complete, awaited⟩ := s
  obtain ⟨origin', complete', awaited'⟩ := s'
  obtain rfl : origin' = origin := horigin
  cases origin' with
  | program => exact h.elim
  | block body => exact ⟨hplain, hcomplete⟩
  | call r => exact ⟨hplain, hcomplete⟩
  | receiver r => exact absurd trivial hreceiver
  | extension name methods => exact absurd trivial hextension

/-- In an open scope that awaits nothing a name is there if its declaration is complete. -/
theorem declares_iff_of_calm (h : s.awaited = none) {x : String} :
    s.declares x = true ↔ x ∈ s.complete := by
  simp [declares, h]

theorem declares_of_mem {x : String} (h : x ∈ s.complete) : s.declares x = true := by
  simp [declares, h]

/-- Receivers have the name `this`, and no other scope has it. -/
theorem Regular.isReceiver_iff (h : s.Regular) :
    s.origin.IsReceiver ↔ s.declares "this" = true := by
  obtain ⟨origin, complete, awaited⟩ := s
  cases origin with
  | program => exact h.elim
  | block body => exact iff_of_false not_false fun hthis ↦ h.1 _ hthis (by simp [keywordNames])
  | call r => exact iff_of_false not_false fun hthis ↦ h.1 _ hthis (by simp [keywordNames])
  | receiver r =>
    obtain ⟨rfl, rfl⟩ := h
    exact iff_of_true trivial (by simp [declares])
  | extension name methods =>
    obtain ⟨rfl, rfl⟩ := h
    exact iff_of_false not_false (by simp [declares])

/-- Scopes for the class that is extended have the name `super`, and no other scope has it. -/
theorem Regular.isExtension_iff (h : s.Regular) :
    s.origin.IsExtension ↔ s.declares "super" = true := by
  obtain ⟨origin, complete, awaited⟩ := s
  cases origin with
  | program => exact h.elim
  | block body => exact iff_of_false not_false fun hsuper ↦ h.1 _ hsuper (by simp [keywordNames])
  | call r => exact iff_of_false not_false fun hsuper ↦ h.1 _ hsuper (by simp [keywordNames])
  | receiver r =>
    obtain ⟨rfl, rfl⟩ := h
    exact iff_of_false not_false (by simp [declares])
  | extension name methods =>
    obtain ⟨rfl, rfl⟩ := h
    exact iff_of_true trivial (by simp [declares])

/-- The scopes of receivers and of extended classes await nothing. -/
theorem Regular.awaited_eq_none (h : s.Regular)
    (hs : s.origin.IsReceiver ∨ s.origin.IsExtension) : s.awaited = none := by
  obtain ⟨origin, complete, awaited⟩ := s
  cases origin with
  | receiver r => exact h.2
  | extension name methods => exact h.2
  | _ => exact (hs.elim id id).elim

theorem regular_block (body : List Stmt) : (OpenScope.block body).Regular :=
  ⟨fun _ hx ↦ absurd ((declares_iff_of_calm rfl).1 hx) List.not_mem_nil, fun _ hx ↦ nomatch hx⟩

theorem regular_call {r : Routine} (h : ∀ x ∈ r.parameterNames, x ∉ keywordNames) :
    (OpenScope.call r).Regular :=
  ⟨fun x hx ↦ h x ((declares_iff_of_calm rfl).1 hx), fun _ hx ↦ List.mem_append_left _ hx⟩

end OpenScope

/-- The names that well read code declares are names of variables. -/
theorem WellRead.declared_plain {Δ : Setting} {c : Code} (h : WellRead Δ c) :
    ∀ x ∈ c.declared, x ∉ keywordNames := by
  have hstmt {Δ : Setting} {s : Stmt} (hs : WellRead Δ (.stmt s)) :
      ∀ x ∈ s.declared, x ∉ keywordNames := by
    intro x hx
    cases s with
    | var name initial => exact List.mem_singleton.1 hx ▸ hs.here
    | function r => exact List.mem_singleton.1 hx ▸ (hs.part .function).here.1
    | class_ name superclass methods => exact List.mem_singleton.1 hx ▸ hs.here.1
    | _ => cases hx
  cases c with
  | stmt s => exact hstmt h
  | stmts ss =>
    induction ss generalizing Δ with
    | nil => exact fun _ hx ↦ nomatch hx
    | cons s ss ih =>
      intro x hx
      rcases List.mem_append.1 hx with hx | hx
      · exact hstmt (h.part .head) x hx
      · exact ih (h.part .tail) x hx
  | _ => exact fun _ hx ↦ nomatch hx

namespace Setting

variable {Δ Δ' : Setting} {c c' : Code}

theorem Orderly.not_extension (h : Δ.Orderly c) {s : OpenScope} {outer : Setting}
    (hΔ : Δ = s :: outer) : ¬s.origin.IsExtension := by
  intro hs
  obtain ⟨j, t, hj, -⟩ := h.nested 0 s (by rw [hΔ]; rfl) hs
  exact nomatch hj

/-- From code that awaits nothing to a part of it in the same scopes. -/
theorem Orderly.same (h : Δ.Orderly c) (hcalm : ¬c.Awaits ∨ c'.Awaits)
    (hmethods : ∀ r, c ≠ .routine r) (hdeclared : c'.declared ⊆ c.declared) : Δ.Orderly c' where
  regular := h.regular
  nested := h.nested
  calm i s hs := by
    rcases h.calm i s hs with hnone | ⟨hi, hawaits⟩
    · exact Or.inl hnone
    · exact Or.inr ⟨hi, hcalm.resolve_left (absurd hawaits)⟩
  methods s outer hΔ hs := by
    obtain ⟨r, hr⟩ := h.methods s outer hΔ hs
    exact absurd hr (hmethods r)
  declared s outer hΔ x hx := h.declared s outer hΔ (hdeclared hx)

/-- A scope around which there are those of code that awaits nothing. -/
theorem Orderly.cons (h : Δ.Orderly c) (hcalm : ¬c.Awaits) {s : OpenScope} (hs : s.Regular)
    (hawaited : s.awaited = none) (hextension : ¬s.origin.IsExtension)
    (hmethods : s.origin.IsReceiver → ∃ r, c' = .routine r)
    (hdeclared : c'.declared ⊆ s.origin.declares) : Orderly (s :: Δ) c' where
  regular t ht := by
    rcases List.mem_cons.1 ht with rfl | ht
    · exact hs
    · exact h.regular t ht
  nested i t ht ht' := by
    cases i with
    | zero =>
      obtain rfl : s = t := Option.some.inj ht
      exact absurd ht' hextension
    | succ i =>
      obtain ⟨j, u, rfl, hu, hu'⟩ := h.nested i t ht ht'
      exact ⟨j + 1, u, rfl, hu, hu'⟩
  calm i t ht := by
    cases i with
    | zero =>
      obtain rfl : s = t := Option.some.inj ht
      exact Or.inl hawaited
    | succ i => exact Or.inl ((h.calm i t ht).resolve_right fun hawaits ↦ hcalm hawaits.2)
  methods t outer hΔ ht := by
    obtain ⟨rfl, -⟩ := List.cons.inj hΔ
    exact hmethods ht
  declared t outer hΔ := by
    obtain ⟨rfl, -⟩ := List.cons.inj hΔ
    exact hdeclared

theorem orderly_nil (c : Code) : Orderly [] c where
  regular _ hs := nomatch hs
  nested _ _ hs := nomatch hs
  calm _ _ hs := nomatch hs
  methods _ _ hΔ := nomatch hΔ
  declared _ _ hΔ := nomatch hΔ

/-- The innermost scope has come to have other names. -/
theorem Orderly.reopen {s s' : OpenScope} {outer : Setting} (h : Orderly (s :: outer) c)
    (hreceiver : ¬s.origin.IsReceiver) (hcalm : ¬c.Awaits) (horigin : s'.origin = s.origin)
    (hregular : s'.Regular) (hcalm' : s'.awaited = none ∨ c'.Awaits)
    (hdeclared : c'.declared ⊆ s.origin.declares) : Orderly (s' :: outer) c' where
  regular t ht := by
    rcases List.mem_cons.1 ht with rfl | ht
    · exact hregular
    · exact h.regular t (List.mem_cons_of_mem _ ht)
  nested i t ht ht' := by
    cases i with
    | zero =>
      obtain rfl : s' = t := Option.some.inj ht
      exact absurd (horigin ▸ ht') (h.not_extension rfl)
    | succ i =>
      obtain ⟨j, u, hj, hu, hu'⟩ := h.nested (i + 1) t ht ht'
      cases j with
      | zero =>
        obtain rfl : s = u := Option.some.inj hu
        exact absurd hu' hreceiver
      | succ j => exact ⟨j + 1, u, hj, hu, hu'⟩
  calm i t ht := by
    cases i with
    | zero =>
      obtain rfl : s' = t := Option.some.inj ht
      exact hcalm'.imp_right fun hawaits ↦ ⟨rfl, hawaits⟩
    | succ i => exact Or.inl ((h.calm (i + 1) t ht).resolve_right fun hawaits ↦ hcalm hawaits.2)
  methods t outer' hΔ ht := by
    obtain ⟨rfl, -⟩ := List.cons.inj hΔ
    exact absurd (horigin ▸ ht) hreceiver
  declared t outer' hΔ := by
    obtain ⟨rfl, -⟩ := List.cons.inj hΔ
    exact horigin ▸ hdeclared

theorem Orderly.not_receiver (h : Δ.Orderly c) (hc : ∀ r, c ≠ .routine r) {s : OpenScope}
    {outer : Setting} (hΔ : Δ = s :: outer) : ¬s.origin.IsReceiver := by
  intro hs
  obtain ⟨r, hr⟩ := h.methods s outer hΔ hs
  exact hc r hr

theorem Orderly.completing (h : Δ.Orderly c) (hc : ∀ r, c ≠ .routine r) (hcalm : ¬c.Awaits)
    {names : List String} (hplain : ∀ x ∈ names, x ∉ keywordNames) (hnames : names ⊆ c.declared)
    (hdeclared : c'.declared ⊆ c.declared) : (Δ.completing names).Orderly c' := by
  cases Δ with
  | nil => exact orderly_nil c'
  | cons s outer =>
    have hreceiver := h.not_receiver hc rfl
    have hs := h.regular s (List.mem_cons_self ..)
    have hall := h.declared s outer rfl
    refine h.reopen hreceiver hcalm rfl (hs.more hreceiver (h.not_extension rfl) rfl
      (fun x hx ↦ ?_) fun x hx ↦ ?_) ?_ fun x hx ↦ hall (hdeclared hx)
    · simp only [OpenScope.declares, Bool.or_eq_true, decide_eq_true_eq, List.mem_append] at hx ⊢
      rcases hx with hx | hx | hx
      · exact Or.inl (Or.inl hx)
      · exact Or.inr (hplain x hx)
      · exact Or.inl (Or.inr hx)
    · rcases List.mem_append.1 hx with hx | hx
      · exact hall (hnames hx)
      · exact hs.complete_subset hx
    · exact Or.inl ((h.calm 0 s rfl).resolve_right fun hawaits ↦ hcalm hawaits.2)

theorem Orderly.awaiting (h : Δ.Orderly c) (hc : ∀ r, c ≠ .routine r) (hcalm : ¬c.Awaits)
    {x : String} (hplain : x ∉ keywordNames) (hawaits : c'.Awaits)
    (hdeclared : c'.declared ⊆ c.declared) : (Δ.awaiting x).Orderly c' := by
  cases Δ with
  | nil => exact orderly_nil c'
  | cons s outer =>
    have hreceiver := h.not_receiver hc rfl
    have hs := h.regular s (List.mem_cons_self ..)
    have hall := h.declared s outer rfl
    refine h.reopen hreceiver hcalm rfl (hs.more hreceiver (h.not_extension rfl) rfl
      (fun y hy ↦ ?_) hs.complete_subset) (Or.inr hawaits) fun y hy ↦ hall (hdeclared hy)
    simp only [OpenScope.declares, Bool.or_eq_true, decide_eq_true_eq, Option.some.injEq] at hy ⊢
    rcases hy with rfl | hy
    · exact Or.inr hplain
    · exact Or.inl (Or.inr hy)

/-- The scopes of a method: one for its receiver, and maybe one for the class extended. -/
theorem Orderly.method (h : Δ.Orderly c) (hcalm : ¬c.Awaits) (name : Name)
    (methods : List Routine) (superclass : Option Superclass) (r : Routine) :
    Orderly (.receiver r :: (OpenScope.extension name methods superclass ++ Δ)) (.routine r) := by
  have hreceiver : (OpenScope.receiver r).Regular := ⟨rfl, rfl⟩
  cases superclass with
  | none =>
    exact h.cons hcalm hreceiver rfl (fun hs ↦ hs) (fun _ ↦ ⟨r, rfl⟩) fun _ hx ↦ nomatch hx
  | some s =>
    have hnone (i : Nat) (t : OpenScope) (ht : Δ[i]? = some t) : t.awaited = none :=
      (h.calm i t ht).resolve_right fun hawaits ↦ hcalm hawaits.2
    refine ⟨fun t ht ↦ ?_, fun i t ht ht' ↦ ?_, fun i t ht ↦ Or.inl ?_,
      fun _ _ _ _ ↦ ⟨r, rfl⟩, fun _ _ _ _ hx ↦ nomatch hx⟩
    · rcases List.mem_cons.1 ht with rfl | ht
      · exact hreceiver
      · rcases List.mem_cons.1 ht with rfl | ht
        · exact ⟨rfl, rfl⟩
        · exact h.regular t ht
    · match i, ht with
      | 0, ht =>
        obtain rfl : OpenScope.receiver r = t := Option.some.inj ht
        exact ht'.elim
      | 1, _ => exact ⟨0, _, rfl, rfl, trivial⟩
      | i + 2, ht =>
        obtain ⟨j, u, rfl, hu, hu'⟩ := h.nested i t ht ht'
        exact ⟨j + 2, u, rfl, hu, hu'⟩
    · match i, ht with
      | 0, ht =>
        obtain rfl : OpenScope.receiver r = t := Option.some.inj ht
        rfl
      | 1, ht =>
        obtain rfl := Option.some.inj ht
        rfl
      | i + 2, ht => exact hnone i t ht

/-- From code to its parts settings stay orderly. -/
theorem Orderly.part (h : Δ.Orderly c) (hread : WellRead Δ c) (hpart : Part Δ c Δ' c') :
    Δ'.Orderly c' := by
  have hc := hread.here
  have hnone {s : Stmt} {names : List String} (hs : s.declared = []) :
      (Code.stmt s).declared ⊆ names := by
    change s.declared ⊆ names
    rw [hs]
    exact List.nil_subset names
  cases hpart with
  | head =>
    exact h.same (Or.inl id) (fun _ hr ↦ nomatch hr) fun x hx ↦ List.mem_append_left _ hx
  | tail =>
    exact h.completing (fun _ hr ↦ nomatch hr) id (hread.part .head).declared_plain
      (fun x hx ↦ List.mem_append_left _ hx) fun x hx ↦ List.mem_append_right _ hx
  | initial =>
    exact h.awaiting (fun _ hr ↦ nomatch hr) id hc trivial fun _ hx ↦ nomatch hx
  | block =>
    exact h.cons id (OpenScope.regular_block _) rfl id (fun hs ↦ hs.elim) fun _ hx ↦ hx
  | function =>
    exact h.completing (fun _ hr ↦ nomatch hr) id hread.declared_plain (fun _ hx ↦ hx)
      fun _ hx ↦ nomatch hx
  | body =>
    exact h.cons id (OpenScope.regular_call hc.2) rfl id (fun hs ↦ hs.elim)
      fun _ hx ↦ List.mem_append_right _ hx
  | @method name superclass methods r mem =>
    have hnamed : (Δ.completing [name.text]).Orderly (.stmt (.block [])) :=
      h.completing (fun _ hr ↦ nomatch hr) id hread.declared_plain (fun _ hx ↦ hx)
        fun _ hx ↦ nomatch hx
    exact hnamed.method id name methods superclass r
  | ifConsequent => exact h.same (Or.inl id) (fun _ hr ↦ nomatch hr) (hnone hc)
  | elseConsequent => exact h.same (Or.inl id) (fun _ hr ↦ nomatch hr) (hnone hc.1)
  | elseAlternative => exact h.same (Or.inl id) (fun _ hr ↦ nomatch hr) (hnone hc.2)
  | loopBody => exact h.same (Or.inl id) (fun _ hr ↦ nomatch hr) (hnone hc)
  | _ => exact h.same (Or.inr trivial) (fun _ hr ↦ nomatch hr) fun _ hx ↦ nomatch hx

end Setting

theorem Setting.inRoutine_completing {Δ : Setting} {names : List String} :
    (Δ.completing names).InRoutine ↔ Δ.InRoutine := by
  cases Δ with
  | nil => rfl
  | cons s outer => simp [Setting.completing, Setting.InRoutine]

/-! ### Nodes of a program -/

namespace Site

variable {ss : List Stmt} {Δ Δ' : Setting} {c c' : Code}

theorem part (h : Site ss Δ c) (hpart : Part Δ c Δ' c') : Site ss Δ' c' :=
  Under.trans h (.step hpart .refl)

theorem wellRead (h : Site ss Δ c) (hread : WellRead [] (.stmts ss)) : WellRead Δ c :=
  fun Δ' c' hunder ↦ hread Δ' c' (h.trans hunder)

theorem orderly (h : Site ss Δ c) (hread : WellRead [] (.stmts ss)) : Δ.Orderly c :=
  (Under.induct (P := fun Δ c ↦ WellRead Δ c ∧ Δ.Orderly c) h ⟨hread, Setting.orderly_nil _⟩
    fun _ _ _ _ hc hpart ↦ ⟨hc.1.part hpart, hc.2.part hc.1 hpart⟩).2

end Site

/-! ### Where a distance leads -/

namespace Setting

variable {Δ : Setting} {c : Code} {x : String} {d : Nat}

/-- The distance is that of the innermost scope with the name. -/
theorem distance?_eq_some_iff : Δ.distance? x = some d ↔
    (∃ s, Δ[d]? = some s ∧ s.declares x = true) ∧
      ∀ i < d, ∀ s, Δ[i]? = some s → s.declares x = false := by
  unfold distance?
  rw [List.findIdx?_eq_some_iff_getElem]
  constructor
  · rintro ⟨hd, hs, hbefore⟩
    refine ⟨⟨Δ[d], List.getElem?_eq_getElem hd, hs⟩, fun i hi s hΔ ↦ ?_⟩
    obtain ⟨hlt, rfl⟩ := List.getElem?_eq_some_iff.1 hΔ
    simpa using hbefore i hi
  · rintro ⟨⟨s, hΔ, hs⟩, hbefore⟩
    obtain ⟨hlt, rfl⟩ := List.getElem?_eq_some_iff.1 hΔ
    exact ⟨hlt, hs, fun i hi ↦ by simpa using hbefore i hi _ (List.getElem?_eq_getElem _)⟩

theorem distance?_eq_none_iff : Δ.distance? x = none ↔ ∀ s ∈ Δ, s.declares x = false := by
  unfold distance?
  rw [List.findIdx?_eq_none_iff]

/-- The name whose value is awaited where the code stands, and which is not there yet. -/
def Awaiting (Δ : Setting) (x : String) : Prop :=
  ∃ s outer, Δ = s :: outer ∧ s.awaited = some x ∧ x ∉ s.complete

/-- A name that is found is complete, unless it is awaited where the code stands. -/
theorem Orderly.complete_of_distance (h : Δ.Orderly c) (hd : Δ.distance? x = some d) :
    (∃ s, Δ[d]? = some s ∧ x ∈ s.complete) ∨ d = 0 ∧ c.Awaits ∧ Δ.Awaiting x := by
  obtain ⟨⟨s, hs, hdeclares⟩, -⟩ := distance?_eq_some_iff.1 hd
  by_cases hx : x ∈ s.complete
  · exact Or.inl ⟨s, hs, hx⟩
  · have hawaited : s.awaited = some x := by simpa [OpenScope.declares, hx] using hdeclares
    rcases h.calm d s hs with hnone | ⟨rfl, hawaits⟩
    · rw [hawaited] at hnone
      cases hnone
    · cases Δ with
      | nil => cases hs
      | cons t outer =>
        obtain rfl : t = s := Option.some.inj hs
        exact Or.inr ⟨rfl, hawaits, t, outer, rfl, hawaited, hx⟩

/-- Only in the initial value of a variable is one awaited. -/
theorem Orderly.not_awaiting (h : Δ.Orderly c) (hc : ¬c.Awaits) : ¬Δ.Awaiting x := by
  rintro ⟨s, outer, rfl, hawaited, -⟩
  rcases h.calm 0 s rfl with hnone | ⟨-, hawaits⟩
  · rw [hawaited] at hnone
    cases hnone
  · exact hc hawaits

theorem Orderly.not_awaiting_keyword (h : Δ.Orderly c) (hc : ∀ r, c ≠ .routine r)
    (hx : x ∈ keywordNames) : ¬Δ.Awaiting x := by
  rintro ⟨s, outer, hΔ, hawaited, -⟩
  have hs := h.regular s (hΔ ▸ List.mem_cons_self ..)
  refine hs.plain (h.not_receiver hc hΔ) (h.not_extension hΔ) ?_ hx
  simp [OpenScope.declares, hawaited]

/-- The innermost receiver of a subclass has the scope of the class that is extended around it. -/
theorem exists_receiver_of_subclass (h : Δ.owner = .subclass) : ∃ j s, Δ[j + 1]? = some s ∧
    s.origin.IsExtension ∧ ∀ i < j, ∀ u, Δ[i]? = some u → ¬u.origin.IsReceiver := by
  induction Δ with
  | nil => cases h
  | cons u outer ih =>
    have hrest (hu : ¬u.origin.IsReceiver) (houter : owner outer = .subclass) :
        ∃ j s, (u :: outer)[j + 1]? = some s ∧ s.origin.IsExtension ∧
          ∀ i < j, ∀ v, (u :: outer)[i]? = some v → ¬v.origin.IsReceiver := by
      obtain ⟨j, s, hs, hextension, hinner⟩ := ih houter
      refine ⟨j + 1, s, hs, hextension, fun i hi v hv ↦ ?_⟩
      cases i with
      | zero => exact Option.some.inj hv ▸ hu
      | succ i => exact hinner i (Nat.lt_of_succ_lt_succ hi) v hv
    obtain ⟨origin, complete, awaited⟩ := u
    cases origin with
    | receiver r =>
      cases outer with
      | nil => cases h
      | cons t outer =>
        obtain ⟨origin', complete', awaited'⟩ := t
        cases origin' with
        | extension name methods => exact ⟨0, _, rfl, trivial, fun i hi ↦ absurd hi i.not_lt_zero⟩
        | _ => cases h
    | _ => exact hrest id h

/-- In a method of a class that extends another one `super` is found, in the scope around the one
that has `this`. -/
theorem Orderly.distance?_super (h : Δ.Orderly c) (howner : Δ.owner = .subclass) :
    ∃ inner s t, Δ.distance? "super" = some (inner + 1) ∧ Δ[inner + 1]? = some s ∧
      "super" ∈ s.complete ∧ Δ[inner]? = some t ∧ "this" ∈ t.complete := by
  obtain ⟨j, e, he, hextension, -⟩ := exists_receiver_of_subclass howner
  have hfound : Δ.distance? "super" ≠ none := fun hnone ↦ by
    have hmem := List.mem_of_getElem? he
    have hnot := distance?_eq_none_iff.1 hnone e hmem
    rw [(h.regular e hmem).isExtension_iff.1 hextension] at hnot
    cases hnot
  obtain ⟨d, hd⟩ := Option.ne_none_iff_exists'.1 hfound
  obtain ⟨⟨s, hs, hdeclares⟩, -⟩ := distance?_eq_some_iff.1 hd
  have hregular := h.regular s (List.mem_of_getElem? hs)
  have hs' := hregular.isExtension_iff.2 hdeclares
  obtain ⟨inner, t, rfl, ht, ht'⟩ := h.nested d s hs hs'
  have hregular' := h.regular t (List.mem_of_getElem? ht)
  have hsuper := (OpenScope.declares_iff_of_calm (hregular.awaited_eq_none (.inr hs'))).1 hdeclares
  have hthis := (OpenScope.declares_iff_of_calm (hregular'.awaited_eq_none (.inl ht'))).1
    (hregular'.isReceiver_iff.1 ht')
  exact ⟨inner, s, t, hd, hs, hsuper, ht, hthis⟩

/-- Where `super` is found, and the receiver that it is used for. -/
theorem Orderly.super_nearest (h : Δ.Orderly c) (howner : Δ.owner = .subclass) :
    ∃ inner s t, Δ.distance? "super" = some (inner + 1) ∧ Δ[inner + 1]? = some s ∧
      s.origin.IsExtension ∧ "super" ∈ s.complete ∧ Δ[inner]? = some t ∧ t.origin.IsReceiver ∧
      "this" ∈ t.complete ∧
      ∀ i < inner, ∀ u, Δ[i]? = some u → ¬u.origin.IsReceiver ∧ ¬u.origin.IsExtension := by
  obtain ⟨inner, s, t, hd, hs, hsuper, ht, hthis⟩ := h.distance?_super howner
  obtain ⟨j, e, he, hextension, hnearer⟩ := exists_receiver_of_subclass howner
  have hle : inner ≤ j := by
    by_contra hlt
    have hfar := (distance?_eq_some_iff.1 hd).2 (j + 1) (by omega) e he
    rw [(h.regular e (List.mem_of_getElem? he)).isExtension_iff.1 hextension] at hfar
    cases hfar
  have hreceiver (i : Nat) (hi : i < inner) (u : OpenScope) (hu : Δ[i]? = some u) :
      ¬u.origin.IsReceiver := hnearer i (Nat.lt_of_lt_of_le hi hle) u hu
  have hs' := (h.regular s (List.mem_of_getElem? hs)).isExtension_iff.2
    (OpenScope.declares_of_mem hsuper)
  have ht' := (h.regular t (List.mem_of_getElem? ht)).isReceiver_iff.2
    (OpenScope.declares_of_mem hthis)
  refine ⟨inner, s, t, hd, hs, hs', hsuper, ht, ht', hthis,
    fun i hi u hu ↦ ⟨hreceiver i hi u hu, fun hextension' ↦ ?_⟩⟩
  obtain ⟨l, v, rfl, hv, hv'⟩ := h.nested i u hu hextension'
  exact hreceiver l (by omega) v hv hv'

end Setting

end Lox
