import Lox.Proofs.Scope.Mirroring

/-!
The method that a use of `super` belongs to. Around the use the innermost scope with a receiver is
that of the method, and right around this one lies the scope with the class that is extended;
nothing nearer has the name `this`. The frames that mirror the scopes lie in the same way.
-/

set_option autoImplicit false

namespace Lox

namespace Setting

variable {Δ : Setting} {c : Code}

/-- All names that the scopes are to have, but `this` and `super` in scopes of their own. -/
def Plain (Δ : Setting) : Prop :=
  ∀ s ∈ Δ, ¬s.origin.IsReceiver → ¬s.origin.IsExtension → ∀ x ∈ s.origin.declares, x ∉ keywordNames

theorem Plain.cons {s : OpenScope} (h : Δ.Plain)
    (hs : ¬s.origin.IsReceiver → ¬s.origin.IsExtension →
      ∀ x ∈ s.origin.declares, x ∉ keywordNames) :
    Plain (s :: Δ) := by
  intro t ht
  rcases List.mem_cons.1 ht with rfl | ht
  · exact hs
  · exact h t ht

theorem Plain.completing (h : Δ.Plain) (names : List String) : (Δ.completing names).Plain := by
  cases Δ with
  | nil => exact h
  | cons s outer =>
    exact Plain.cons (fun t ht ↦ h t (List.mem_cons_of_mem _ ht)) (h s (List.mem_cons_self ..))

theorem Plain.awaiting (h : Δ.Plain) (x : String) : (Δ.awaiting x).Plain := by
  cases Δ with
  | nil => exact h
  | cons s outer =>
    exact Plain.cons (fun t ht ↦ h t (List.mem_cons_of_mem _ ht)) (h s (List.mem_cons_self ..))

theorem Plain.part {Δ' : Setting} {c' : Code} (h : Δ.Plain) (hread : WellRead Δ c)
    (hpart : Part Δ c Δ' c') : Δ'.Plain := by
  have hread' := hread.part hpart
  cases hpart with
  | tail => exact h.completing _
  | initial => exact h.awaiting _
  | block => exact h.cons fun _ _ ↦ hread'.declared_plain
  | function => exact h.completing _
  | body =>
    refine h.cons fun _ _ x hx ↦ ?_
    rcases List.mem_append.1 hx with hx | hx
    · exact hread.here.2 x hx
    · exact hread'.declared_plain x hx
  | @method name superclass methods r mem =>
    refine Plain.cons ?_ fun hreceiver ↦ absurd trivial hreceiver
    cases superclass with
    | none => exact h.completing _
    | some s => exact (h.completing _).cons fun _ hextension ↦ absurd trivial hextension
  | _ => exact h

end Setting

theorem Site.plain {ss : List Stmt} {Δ : Setting} {c : Code} (h : Site ss Δ c)
    (hread : WellRead [] (.stmts ss)) : Δ.Plain :=
  (Under.induct (P := fun Δ c ↦ WellRead Δ c ∧ Δ.Plain) h
    ⟨hread, fun _ hs ↦ absurd hs List.not_mem_nil⟩
    fun _ _ _ _ hc hpart ↦ ⟨hc.1.part hpart, hc.2.part hc.1 hpart⟩).2

/-- The code stands somewhere in the routine. -/
def Routine.Encloses (r : Routine) (c : Code) : Prop := ∃ Δ Δ', Under Δ (.routine r) Δ' c

theorem Setting.origins_completing (Δ : Setting) (names : List String) :
    (Δ.completing names).map OpenScope.origin = Δ.map OpenScope.origin := by
  cases Δ <;> rfl

theorem Setting.origins_awaiting (Δ : Setting) (x : String) :
    (Δ.awaiting x).map OpenScope.origin = Δ.map OpenScope.origin := by
  cases Δ <;> rfl

/-- Scopes for receivers are those around methods. -/
theorem Part.receiver {Δ Δ' : Setting} {c c' : Code} (h : Part Δ c Δ' c') {r : Routine}
    (hr : Origin.receiver r ∈ Δ'.map OpenScope.origin) :
    Origin.receiver r ∈ Δ.map OpenScope.origin ∨ c' = .routine r := by
  cases h with
  | tail => exact Or.inl (Setting.origins_completing .. ▸ hr)
  | initial => exact Or.inl (Setting.origins_awaiting .. ▸ hr)
  | function => exact Or.inl (Setting.origins_completing .. ▸ hr)
  | block => exact Or.inl ((List.mem_cons.1 hr).resolve_left (by rintro ⟨⟩))
  | body => exact Or.inl ((List.mem_cons.1 hr).resolve_left (by rintro ⟨⟩))
  | @method name superclass methods r' mem =>
    rcases List.mem_cons.1 hr with heq | hr
    · cases heq
      exact Or.inr rfl
    · rw [List.map_append, Setting.origins_completing] at hr
      refine Or.inl ((List.mem_append.1 hr).resolve_left fun hr ↦ ?_)
      cases superclass with
      | none => cases hr
      | some s => cases List.mem_singleton.1 hr
  | _ => exact Or.inl hr

/-- What stands under the scope of a receiver stands in the method. -/
theorem Site.encloses {ss : List Stmt} {Δ : Setting} {c : Code} (h : Site ss Δ c) {r : Routine}
    (hr : Origin.receiver r ∈ Δ.map OpenScope.origin) : r.Encloses c := by
  have hunder := Under.induct
    (P := fun Δ c ↦ ∀ r, Origin.receiver r ∈ Δ.map OpenScope.origin →
      ∃ Δ₀, Under Δ₀ (.routine r) Δ c)
    h (fun _ hr ↦ absurd hr List.not_mem_nil) fun Δ₁ c₁ Δ₂ c₂ ih hpart r hr ↦ by
      rcases hpart.receiver hr with hr | rfl
      · obtain ⟨Δ₀, hunder⟩ := ih r hr
        exact ⟨Δ₀, hunder.trans (.step hpart .refl)⟩
      · exact ⟨Δ₂, .refl⟩
  obtain ⟨Δ₀, hunder⟩ := hunder r hr
  exact ⟨Δ₀, Δ, hunder⟩

/-! ### Frames -/

/-- Between a node and the frame of the receiver nothing has the name `this`. -/
theorem MirroredIn.nearer {ss : List Stmt} {Δ : Setting} {n : Node} {env : FrameId} {m : Machine}
    (h : MirroredIn ss Δ n env m) (hread : WellRead [] (.stmts ss)) {inner : Nat} {t : OpenScope}
    (ht : Δ[inner]? = some t)
    (hnearer : ∀ i < inner, ∀ u, Δ[i]? = some u →
      ¬u.origin.IsReceiver ∧ ¬u.origin.IsExtension) :
    ∀ i < inner, ∀ l, m.arena.ancestor env i = .ok l → m.arena.valueIn? l "this" = none := by
  intro i hi l hl
  have hlt : i < Δ.length := Nat.lt_trans hi (List.getElem?_eq_some_iff.1 ht).1
  obtain ⟨u, hu⟩ : ∃ u, Δ[i]? = some u := ⟨_, List.getElem?_eq_getElem hlt⟩
  obtain ⟨l', f, outer, hl', hf, houter, horigin, -⟩ := h.mirrors.ancestor hu
  obtain rfl : l' = l := Except.ok.inj (hl'.symm.trans hl)
  have hne : l' ≠ Arena.globals := by
    rintro rfl
    obtain ⟨g, hg, hnone⟩ := h.root
    obtain rfl : f = g := Option.some.inj (hf.symm.trans hg)
    rw [hnone] at houter
    cases houter
  obtain ⟨o, ho, hall⟩ := h.declares l' f hne hf
  obtain rfl : o = u.origin := Option.some.inj (ho.symm.trans horigin)
  obtain ⟨hreceiver, hextension⟩ := hnearer i hi u hu
  have hplain := h.site.plain hread u (List.mem_of_getElem? hu) hreceiver hextension
  cases hvalue : f.values.find? "this" with
  | none => simp [Arena.valueIn?, hf, hvalue]
  | some v =>
    have hcontains : f.values.contains "this" = true := by simp [Bindings.contains, hvalue]
    exact absurd (List.mem_cons_self ..) (hplain "this" (hall "this" hcontains))

end Lox
