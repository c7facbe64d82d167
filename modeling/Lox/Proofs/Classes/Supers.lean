import Lox.Proofs.Classes.Proceeding
import Lox.Proofs.Scope.Owners

/-!
What `super` is for. The code at hand belongs to a method if the nearest frame outwards that holds
`this` has been made for that method; on a machine that accounts for its frames, that frame lies in
the frame of the methods of the class, which holds the class that was extended when the class was
declared. So a method of `super` is one of that class, for the receiver at hand, whatever has
become of the names of classes since (`superMethod_eq`).
-/

set_option autoImplicit false

namespace Lox

/-- Moments at nodes of a program that resolution has accepted, in frames that mirror the scopes. -/
structure Guard.Sited (ss : List Stmt) (D : Distances) (moments : Guard) : Prop where
  wellRead : WellRead [] (.stmts ss)
  settled : Settled D [] (.stmts ss)
  mirrored : ∀ n env m, moments n env m → Mirrored ss n env m

/-- What runs in the frame belongs to a method, called for this object: of the frames outwards the
nearest that holds `this` has been made for the method, where that was made, and holds the
object. -/
def Machine.InMethod (m : Machine) (env : FrameId) (g : Function) (o : Object) : Prop :=
  ∃ inner k f, m.arena.ancestor env inner = .ok k ∧
    (∀ i < inner, ∀ l, m.arena.ancestor env i = .ok l → m.arena.valueIn? l "this" = none) ∧
    m.arena.frame? k = some f ∧ m.origins[k.slot]? = some (.receiver g.routine) ∧
    f.enclosing = some g.closure ∧ f.values.find? "this" = some (.object o)

/-- A use of `super` for this class and object: it stands in a method that some execution of a
declaration, which extended the class, has put into its own, and what runs in the frame belongs to
that method, called for the object. -/
def Machine.UsesSuper (moments : Guard) (m : Machine) (env : FrameId) (e : Expr) (c : Class)
    (o : Object) : Prop :=
  ∃ (d : Declaring) (g : Function), d.Occurs moments ∧ d.Provides g o ∧ d.parent = some c ∧
    g.routine.Encloses (.expr e) ∧ m.InMethod env g o

variable {ss : List Stmt} {D : Distances} {moments : Guard} {m : Machine} {env : FrameId}
  {Δ : Setting} {n : Node} {id : NodeId} {line : Nat} {method : Name}

/-- The methods of `super` are those of the class that it is used for, for the object at hand. -/
theorem superMethod_eq (hsited : moments.Sited ss D) (h : m.Accounted moments D)
    (hn : MirroredIn ss Δ n env m) (hsite : Site ss Δ (.expr (.super id line method))) :
    ∃ c o, m.UsesSuper moments env (.super id line method) c o ∧ o.Accounted moments m ∧
      Evaluation.superMethod id method env m =
        match c.method? method.text with
        | some f => .done (.method f o) m
        | none => .failed (.runtime method.line (.undefinedProperty method.text)) m := by
  have howner : Δ.owner = .subclass := (hsited.settled Δ _ hsite).allowed
  obtain ⟨inner, s, t, k, l, f, f', hd, ⟨hs, hextension, hwalk', hf', horigin', -⟩,
    ⟨ht, hreceiver, hwalk, hf, houter, horigin, -⟩, hnearer⟩ :=
    hn.mirrors.super_frames (hsite.orderly hsited.wellRead) howner
  have hentry : m.distances.find? id = some (inner + 1) := by
    rw [h.distances, (hsited.settled Δ _ (hsite.part .super)).distance id "super" rfl, hd]
  obtain ⟨r, hr⟩ : ∃ r, t.origin = .receiver r := by
    obtain ⟨origin, _, _⟩ := t
    cases origin with
    | receiver r => exact ⟨r, rfl⟩
    | _ => exact hreceiver.elim
  obtain ⟨name, methods, he⟩ : ∃ name methods, s.origin = .extension name methods := by
    obtain ⟨origin, _, _⟩ := s
    cases origin with
    | extension name methods => exact ⟨name, methods, rfl⟩
    | _ => exact hextension.elim
  rw [hr] at horigin
  rw [he] at horigin'
  obtain ⟨g, o, rfl, ⟨d, hoccurs, hstands, hprovides⟩, henclosing, hthis⟩ :=
    (h.frames l f hf).receiver r horigin
  have hhome : k = d.home := by
    rw [houter, hprovides.eq] at henclosing
    exact Option.some.inj henclosing
  subst hhome
  obtain ⟨c, hparent, hsuper⟩ := hstands.extends_ name methods horigin'
  rw [Arena.valueIn?_of_frame? hf'] at hsuper
  have hencloses : g.routine.Encloses (.expr (.super id line method)) :=
    hsite.encloses (List.mem_map.2 ⟨t, List.mem_of_getElem? ht, hr⟩)
  refine ⟨c, o, ⟨d, g, hoccurs, hprovides, hparent, hencloses, inner, l, f, hwalk,
    hn.nearer hsited.wellRead ht hnearer, hf, horigin, henclosing, hthis⟩,
    (h.frames l f hf).values _ _ hthis, ?_⟩
  exact Evaluation.superMethod_of_entry hentry (Action.getAt_of_ancestor hwalk' hf' hsuper)
    (Action.getAt_of_ancestor hwalk hf hthis)

end Lox
