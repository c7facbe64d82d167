import Lox.Proofs.Printing.Trees

/-!
Shapes read back. A word is read as it would be in a program, and a form by its head and by what its
parts are read as (`Phrase.ofNode`). Where the names and literals of a tree are legible, the tree
without its lines and identities is what its shape is read back as (`Stmt.reads_shape`). So trees
that are printed alike have the same outline (`Stmt.outline_of_text`).
-/

set_option autoImplicit false

namespace Lox

/-- What a part of a printed tree is read as. -/
inductive Phrase
  | expr (e : Expr)
  | stmt (s : Stmt)
  | method (r : Routine)
  | heading (name : Name) (names : List Name)
  | less

namespace Phrase

def expr? : Phrase → Option Expr
  | .expr e => some e
  | _ => none

def stmt? : Phrase → Option Stmt
  | .stmt s => some s
  | _ => none

def method? : Phrase → Option Routine
  | .method r => some r
  | _ => none

def name? : Phrase → Option Name
  | .expr (.var _ name) => some name
  | _ => none

/-- What a word is that is a token of this kind. -/
def ofKind (text : String) : Token.Kind → Option Phrase
  | .less => some .less
  | .this => some (.expr (.this 0 0))
  | .identifier => some (.expr (.var 0 ⟨text, 0⟩))
  | kind => (Grammar.literal? kind).map fun value ↦ .expr (.literal value)

/-- What a word is, by what it is read as in a program. -/
def ofWord (text : String) : Option Phrase :=
  match Scan.items text with
  | [.token t, .token _] => ofKind text t.kind
  | _ => none

/-- Operators with operands on both sides. -/
def operators : List (String × (Expr → Expr → Expr)) :=
  [("+", .binary .add 0), ("-", .binary .subtract 0), ("*", .binary .multiply 0),
    ("/", .binary .divide 0), (">", .binary .greater 0), (">=", .binary .greaterEqual 0),
    ("<", .binary .less 0), ("<=", .binary .lessEqual 0), ("==", .binary .equal 0),
    ("!=", .binary .notEqual 0), ("and", .logical .and 0), ("or", .logical .or 0)]

/-- What a form is with this head and these parts. -/
def ofNode (head : String) (parts : List Phrase) : Option Phrase :=
  match head, parts with
  | "group", [.expr e] => some (.expr (.grouping e))
  | "!", [.expr e] => some (.expr (.unary .not 0 e))
  | "-", [.expr e] => some (.expr (.unary .negate 0 e))
  | "=", [.expr (.var _ name), .expr e] => some (.expr (.assign 0 name e))
  | "=", [.expr (.get o name), .expr e] => some (.expr (.set o name e))
  | ".", [.expr e, .expr (.var _ name)] => some (.expr (.get e name))
  | "super", [.expr (.var _ name)] => some (.expr (.super 0 0 name))
  | "call", .expr callee :: args => some (.expr (.call callee 0 (args.filterMap expr?)))
  | ";", [.expr e] => some (.stmt (.expression e))
  | "print", [.expr e] => some (.stmt (.print e))
  | "var", [.expr (.var _ name)] => some (.stmt (.var name none))
  | "var", [.expr (.var _ name), .expr e] => some (.stmt (.var name (some e)))
  | "block", body => some (.stmt (.block (body.filterMap stmt?)))
  | "if", [.expr test, .stmt s] => some (.stmt (.ifThen test s))
  | "if-else", [.expr test, .stmt s, .stmt t] => some (.stmt (.ifElse test s t))
  | "while", [.expr test, .stmt s] => some (.stmt (.loop test s))
  | "fun", .heading name names :: body =>
    some (.stmt (.function ⟨name, names, body.filterMap stmt?⟩))
  | "method", .heading name names :: body =>
    some (.method ⟨name, names, body.filterMap stmt?⟩)
  | "return", [] => some (.stmt (.return_ 0 none))
  | "return", [.expr e] => some (.stmt (.return_ 0 (some e)))
  | "class", .expr (.var _ name) :: .less :: .expr (.var _ superclass) :: methods =>
    some (.stmt (.class_ name (some ⟨0, superclass⟩) (methods.filterMap method?)))
  | "class", .expr (.var _ name) :: methods =>
    some (.stmt (.class_ name none (methods.filterMap method?)))
  | head, [.expr l, .expr r] => (operators.lookup head).map fun join ↦ .expr (join l r)
  | _, _ => none

def ofHeading (name : String) (parts : List Phrase) : Phrase :=
  .heading ⟨name, 0⟩ (parts.filterMap name?)

end Phrase

namespace Shape

mutual

/-- Reads a shape back. -/
def phrase? : Shape → Option Phrase
  | .word text => Phrase.ofWord text
  | .bracket name parts =>
    if name = "" then node? parts else (phrases? parts).map (Phrase.ofHeading name)

def node? : List Shape → Option Phrase
  | .word head :: parts => (phrases? parts).bind (Phrase.ofNode head)
  | _ => none

def phrases? : List Shape → Option (List Phrase)
  | [] => some []
  | s :: ss =>
    match s.phrase?, phrases? ss with
    | some part, some parts => some (part :: parts)
    | _, _ => none

end

theorem phrases?_cons {s : Shape} {ss : List Shape} {part : Phrase} {parts : List Phrase}
    (h : s.phrase? = some part) (h' : phrases? ss = some parts) :
    phrases? (s :: ss) = some (part :: parts) := by
  simp [phrases?, h, h']

/-- The shape is written unambiguously, and this is what it is read back as. -/
structure Reads (s : Shape) (part : Phrase) : Prop where
  sound : s.Sound
  phrase : s.phrase? = some part

structure ReadsAll (ss : List Shape) (parts : List Phrase) : Prop where
  sound : SoundAll ss
  phrases : phrases? ss = some parts

/-- Shapes that are written alike are read back alike. -/
theorem Reads.eq_of_text {s s' : Shape} {part part' : Phrase} (h : s.Reads part)
    (h' : s'.Reads part') (htext : s.text = s'.text) : part = part' := by
  have hshape := text_injective h.sound h'.sound htext
  have hphrase := h'.phrase
  rw [← hshape, h.phrase] at hphrase
  exact Option.some.inj hphrase

theorem ReadsAll.nil : ReadsAll [] [] := ⟨trivial, rfl⟩

theorem ReadsAll.cons {s : Shape} {ss : List Shape} {part : Phrase} {parts : List Phrase}
    (h : s.Reads part) (h' : ReadsAll ss parts) : ReadsAll (s :: ss) (part :: parts) :=
  ⟨⟨h.sound, h'.sound⟩, phrases?_cons h.phrase h'.phrases⟩

theorem Reads.word {text : String} {kind : Token.Kind} {part : Phrase} (hword : IsWord text)
    (h : Scan.ReadsAs text kind) (hkind : Phrase.ofKind text kind = some part) :
    (word text).Reads part := by
  refine ⟨hword, ?_⟩
  have hitems : Scan.items text = _ := h
  simp [phrase?, Phrase.ofWord, hitems, hkind]

theorem Reads.node {head : String} {ss : List Shape} {parts : List Phrase} {part : Phrase}
    (hhead : IsWord head) (h : ReadsAll ss parts) (hnode : Phrase.ofNode head parts = some part) :
    (node head ss).Reads part := by
  refine ⟨⟨.inl rfl, hhead, h.sound⟩, ?_⟩
  simp [Shape.node, phrase?, node?, h.phrases, hnode]

theorem Reads.heading {name : String} {ss : List Shape} {parts : List Phrase}
    (hname : IsWord name) (h : ReadsAll ss parts) :
    (bracket name ss).Reads (Phrase.ofHeading name parts) := by
  have hne : name ≠ "" := by
    rintro rfl
    exact hname.nonempty rfl
  refine ⟨⟨.inr hname, h.sound⟩, ?_⟩
  simp [phrase?, hne, h.phrases]

end Shape

open Shape

/-! ### What forms are read as -/

namespace Phrase

theorem ofNode_unary (op : UnaryOp) (e : Expr) :
    ofNode op.symbol [.expr e] = some (.expr (.unary op 0 e)) := by
  cases op <;> rfl

theorem ofNode_binary (op : BinaryOp) (l r : Expr) :
    ofNode op.symbol [.expr l, .expr r] = some (.expr (.binary op 0 l r)) := by
  cases op <;> rfl

theorem ofNode_logical (op : LogicalOp) (l r : Expr) :
    ofNode op.symbol [.expr l, .expr r] = some (.expr (.logical op 0 l r)) := by
  cases op <;> rfl

/-- Parts of one sort are all taken. -/
theorem filterMap_parts {α : Type} (part : α → Phrase) (get? : Phrase → Option α)
    (h : ∀ x, get? (part x) = some x) (xs : List α) : (xs.map part).filterMap get? = xs := by
  rw [List.filterMap_map, show get? ∘ part = some from funext h, List.filterMap_some]

theorem ofNode_call (callee : Expr) (args : List Expr) :
    ofNode "call" (.expr callee :: args.map .expr) = some (.expr (.call callee 0 args)) :=
  congrArg (fun args ↦ some (Phrase.expr (.call callee 0 args)))
    (filterMap_parts .expr expr? (fun _ ↦ rfl) args)

theorem ofNode_block (ss : List Stmt) :
    ofNode "block" (ss.map .stmt) = some (.stmt (.block ss)) :=
  congrArg (fun ss ↦ some (Phrase.stmt (.block ss)))
    (filterMap_parts .stmt stmt? (fun _ ↦ rfl) ss)

theorem ofNode_fun (name : Name) (names : List Name) (body : List Stmt) :
    ofNode "fun" (.heading name names :: body.map .stmt) =
      some (.stmt (.function ⟨name, names, body⟩)) :=
  congrArg (fun body ↦ some (Phrase.stmt (.function ⟨name, names, body⟩)))
    (filterMap_parts .stmt stmt? (fun _ ↦ rfl) body)

theorem ofNode_method (name : Name) (names : List Name) (body : List Stmt) :
    ofNode "method" (.heading name names :: body.map .stmt) =
      some (.method ⟨name, names, body⟩) :=
  congrArg (fun body ↦ some (Phrase.method ⟨name, names, body⟩))
    (filterMap_parts .stmt stmt? (fun _ ↦ rfl) body)

theorem ofNode_class (id : NodeId) (name : Name) (methods : List Routine) :
    ofNode "class" (.expr (.var id name) :: methods.map .method) =
      some (.stmt (.class_ name none methods)) := by
  have hmethods := congrArg (fun methods ↦ some (Phrase.stmt (.class_ name none methods)))
    (filterMap_parts .method method? (fun _ ↦ rfl) methods)
  -- what comes first tells that there is no superclass
  cases methods with
  | nil => rfl
  | cons r rs => exact hmethods

theorem ofNode_subclass (id id' : NodeId) (name superclass : Name) (methods : List Routine) :
    ofNode "class"
        (.expr (.var id name) :: .less :: .expr (.var id' superclass) :: methods.map .method) =
      some (.stmt (.class_ name (some ⟨0, superclass⟩) methods)) :=
  congrArg (fun methods ↦ some (Phrase.stmt (.class_ name (some ⟨0, superclass⟩) methods)))
    (filterMap_parts .method method? (fun _ ↦ rfl) methods)

end Phrase

/-! ### Leaves -/

theorem Name.reads_shape {n : Name} (h : (Leaf.name n.text).Legible) :
    n.shape.Reads (.expr (.var 0 n.outline)) :=
  .word (isWord_of_identifier h) h rfl

theorem Literal.reads_text {value : Literal} (h : (Leaf.literal value).Legible) :
    (Shape.word value.text).Reads (.expr (.literal value)) := by
  cases value with
  | number n =>
    have hreads := Number.treeText_readsAs h.1 h.2
    exact .word (isWord_of_number hreads) hreads rfl
  | string => exact h.elim
  | true => exact .word (by decide) (show Scan.ReadsAs "true" .true by decide +kernel) rfl
  | false => exact .word (by decide) (show Scan.ReadsAs "false" .false by decide +kernel) rfl
  | nil => exact .word (by decide) (show Scan.ReadsAs "nil" .nil by decide +kernel) rfl

theorem Name.readsAll_shapes {names : List Name}
    (h : ∀ l ∈ names.map (fun n ↦ Leaf.name n.text), l.Legible) :
    ReadsAll (names.map Name.shape) (names.map fun n ↦ .expr (.var 0 n.outline)) := by
  induction names with
  | nil => exact .nil
  | cons n ns ih =>
    obtain ⟨hn, hns⟩ := List.forall_mem_cons.1 h
    exact .cons (Name.reads_shape hn) (ih hns)

theorem Name.reads_heading {name : Name} {names : List Name}
    (hname : (Leaf.name name.text).Legible)
    (hnames : ∀ l ∈ names.map (fun n ↦ Leaf.name n.text), l.Legible) :
    (Shape.bracket name.text (names.map Name.shape)).Reads
      (.heading name.outline (names.map Name.outline)) := by
  have hheading := Reads.heading (isWord_of_identifier hname) (Name.readsAll_shapes hnames)
  have hnames' : (names.map fun n ↦ Phrase.expr (.var 0 n.outline)).filterMap Phrase.name? =
      names.map Name.outline := by
    simp [List.filterMap_map, Function.comp_def, Phrase.name?]
  rw [Phrase.ofHeading, hnames'] at hheading
  exact hheading

/-! ### Trees -/

theorem UnaryOp.isWord_symbol (op : UnaryOp) : IsWord op.symbol := by cases op <;> decide

theorem BinaryOp.isWord_symbol (op : BinaryOp) : IsWord op.symbol := by cases op <;> decide

theorem LogicalOp.isWord_symbol (op : LogicalOp) : IsWord op.symbol := by cases op <;> decide

mutual

theorem Expr.reads_shape : (e : Expr) → (∀ l ∈ e.leaves, l.Legible) →
    e.shape.Reads (.expr (e.outline erased))
  | .literal value, h => Literal.reads_text (h _ List.mem_cons_self)
  | .grouping e, h => .node (by decide) (.cons (Expr.reads_shape e h) .nil) rfl
  | .unary op _ e, h =>
    .node op.isWord_symbol (.cons (Expr.reads_shape e h) .nil) (Phrase.ofNode_unary op _)
  | .binary op _ l r, h => by
    obtain ⟨hl, hr⟩ := List.forall_mem_append.1 h
    exact .node op.isWord_symbol
      (.cons (Expr.reads_shape l hl) (.cons (Expr.reads_shape r hr) .nil))
      (Phrase.ofNode_binary op _ _)
  | .logical op _ l r, h => by
    obtain ⟨hl, hr⟩ := List.forall_mem_append.1 h
    exact .node op.isWord_symbol
      (.cons (Expr.reads_shape l hl) (.cons (Expr.reads_shape r hr) .nil))
      (Phrase.ofNode_logical op _ _)
  | .var _ name, h => Name.reads_shape (h _ List.mem_cons_self)
  | .assign _ name e, h => by
    obtain ⟨hname, he⟩ := List.forall_mem_cons.1 h
    exact .node (by decide)
      (.cons (Name.reads_shape hname) (.cons (Expr.reads_shape e he) .nil)) rfl
  | .call callee _ args, h => by
    obtain ⟨hcallee, hargs⟩ := List.forall_mem_append.1 h
    exact .node (by decide)
      (.cons (Expr.reads_shape callee hcallee) (Expr.readsAll_shapes args hargs))
      (Phrase.ofNode_call _ _)
  | .get e name, h => by
    obtain ⟨hname, he⟩ := List.forall_mem_cons.1 h
    exact .node (by decide)
      (.cons (Expr.reads_shape e he) (.cons (Name.reads_shape hname) .nil)) rfl
  | .set o name e, h => by
    obtain ⟨hname, h⟩ := List.forall_mem_cons.1 h
    obtain ⟨ho, he⟩ := List.forall_mem_append.1 h
    -- what is set is read as a property by itself
    have htarget : (Shape.node "." [o.shape, name.shape]).Reads
        (.expr (.get (o.outline erased) name.outline)) :=
      .node (by decide) (.cons (Expr.reads_shape o ho) (.cons (Name.reads_shape hname) .nil)) rfl
    exact .node (by decide) (.cons htarget (.cons (Expr.reads_shape e he) .nil)) rfl
  | .this _ _, _ => .word (by decide) (show Scan.ReadsAs "this" .this by decide +kernel) rfl
  | .super _ _ _, h =>
    .node (by decide) (.cons (Name.reads_shape (h _ List.mem_cons_self)) .nil) rfl

theorem Expr.readsAll_shapes : (es : List Expr) → (∀ l ∈ Expr.leavesAll es, l.Legible) →
    ReadsAll (Expr.shapes es) ((Expr.outlineAll erased es).map .expr)
  | [], _ => .nil
  | e :: es, h => by
    obtain ⟨he, hes⟩ := List.forall_mem_append.1 h
    exact .cons (Expr.reads_shape e he) (Expr.readsAll_shapes es hes)

end

mutual

theorem Stmt.reads_shape : (s : Stmt) → (∀ l ∈ s.leaves, l.Legible) →
    s.shape.Reads (.stmt (s.outline erased))
  | .expression e, h => .node (by decide) (.cons (Expr.reads_shape e h) .nil) rfl
  | .print e, h => .node (by decide) (.cons (Expr.reads_shape e h) .nil) rfl
  | .var name none, h =>
    .node (by decide) (.cons (Name.reads_shape (h _ List.mem_cons_self)) .nil) rfl
  | .var name (some e), h => by
    obtain ⟨hname, he⟩ := List.forall_mem_cons.1 h
    exact .node (by decide)
      (.cons (Name.reads_shape hname) (.cons (Expr.reads_shape e he) .nil)) rfl
  | .block body, h => .node (by decide) (Stmt.readsAll_shapes body h) (Phrase.ofNode_block _)
  | .ifThen test s, h => by
    obtain ⟨htest, hs⟩ := List.forall_mem_append.1 h
    exact .node (by decide)
      (.cons (Expr.reads_shape test htest) (.cons (Stmt.reads_shape s hs) .nil)) rfl
  | .ifElse test s t, h => by
    obtain ⟨htest, h⟩ := List.forall_mem_append.1 h
    obtain ⟨hs, ht⟩ := List.forall_mem_append.1 h
    exact .node (by decide) (.cons (Expr.reads_shape test htest)
      (.cons (Stmt.reads_shape s hs) (.cons (Stmt.reads_shape t ht) .nil))) rfl
  | .loop test s, h => by
    obtain ⟨htest, hs⟩ := List.forall_mem_append.1 h
    exact .node (by decide)
      (.cons (Expr.reads_shape test htest) (.cons (Stmt.reads_shape s hs) .nil)) rfl
  | .function ⟨name, names, body⟩, h => by
    obtain ⟨hname, h⟩ := List.forall_mem_cons.1 h
    obtain ⟨hnames, hbody⟩ := List.forall_mem_append.1 h
    exact .node (by decide) (.cons (Name.reads_heading hname hnames)
      (Stmt.readsAll_shapes body hbody)) (Phrase.ofNode_fun _ _ _)
  | .return_ _ none, _ => .node (by decide) .nil rfl
  | .return_ _ (some e), h => .node (by decide) (.cons (Expr.reads_shape e h) .nil) rfl
  | .class_ name none methods, h => by
    obtain ⟨hname, hmethods⟩ := List.forall_mem_cons.1 h
    exact .node (by decide) (.cons (Name.reads_shape hname)
      (Routine.readsAll_shapes methods hmethods)) (Phrase.ofNode_class _ _ _)
  | .class_ name (some superclass) methods, h => by
    obtain ⟨hname, h⟩ := List.forall_mem_cons.1 h
    obtain ⟨hsuperclass, hmethods⟩ := List.forall_mem_cons.1 h
    have hless : (Shape.word "<").Reads .less :=
      .word (by decide) (show Scan.ReadsAs "<" .less by decide +kernel) rfl
    exact .node (by decide) (.cons (Name.reads_shape hname) (.cons hless
      (.cons (Name.reads_shape hsuperclass) (Routine.readsAll_shapes methods hmethods))))
      (Phrase.ofNode_subclass _ _ _ _ _)

theorem Stmt.readsAll_shapes : (ss : List Stmt) → (∀ l ∈ Stmt.leavesAll ss, l.Legible) →
    ReadsAll (Stmt.shapes ss) ((Stmt.outlineAll erased ss).map .stmt)
  | [], _ => .nil
  | s :: ss, h => by
    obtain ⟨hs, hss⟩ := List.forall_mem_append.1 h
    exact .cons (Stmt.reads_shape s hs) (Stmt.readsAll_shapes ss hss)

theorem Routine.readsAll_shapes : (rs : List Routine) → (∀ l ∈ Routine.leavesAll rs, l.Legible) →
    ReadsAll (Routine.shapes rs) ((Routine.outlineAll erased rs).map .method)
  | [], _ => .nil
  | ⟨name, names, body⟩ :: rs, h => by
    obtain ⟨hr, hrs⟩ := List.forall_mem_append.1 h
    obtain ⟨hname, hr⟩ := List.forall_mem_cons.1 hr
    obtain ⟨hnames, hbody⟩ := List.forall_mem_append.1 hr
    have hmethod : ((⟨name, names, body⟩ : Routine).shape "method").Reads _ :=
      .node (by decide) (.cons (Name.reads_heading hname hnames) (Stmt.readsAll_shapes body hbody))
        (Phrase.ofNode_method _ _ _)
    exact .cons hmethod (Routine.readsAll_shapes rs hrs)

end

/-- Statements that are printed alike have the same outline, if their names and literals are
legible. -/
theorem Stmt.outline_of_text {s t : Stmt} (hs : ∀ l ∈ s.leaves, l.Legible)
    (ht : ∀ l ∈ t.leaves, l.Legible) (htext : s.text = t.text) :
    s.outline erased = t.outline erased := by
  rw [← s.text_shape, ← t.text_shape] at htext
  exact Phrase.stmt.inj ((s.reads_shape hs).eq_of_text (t.reads_shape ht) htext)

end Lox
