import MiniC.Proofs.Decl.Complete
import MiniC.Proofs.Decl.Words
import MiniC.Proofs.Parser.Counted

/-!
Declared types as nodes of an arena. A node that is an array names the node of its
element, which was added before it. The nodes of a declarator are added when its sizes have
been read, what is inside all arrays first and the outermost array last. What the last one
stands for is the declared type, and nodes added later do not change that.
-/

namespace MiniC

open MiniC.Parser

/-- A type that is no array. -/
structure BaseTy where
  ty : Ty
  flat : ty.isArray = false

inductive TypeKind where
  | base (base : BaseTy)
  | array (element size : Nat)

def TypeKind.element? : TypeKind → Option Nat
  | base _ => none
  | array element _ => some element

structure TypeNode where
  kind : TypeKind
  pos : Position

/-- The type nodes of a file, each known by its place in the list. -/
structure TypeArena where
  nodes : List TypeNode
  earlier : ∀ id (isIn : id < nodes.length), ∀ element ∈ nodes[id].kind.element?, element < id

namespace TypeArena

def empty : TypeArena := ⟨[], nofun⟩

def kind (arena : TypeArena) (id : Fin arena.nodes.length) : TypeKind := arena.nodes[id].kind

/-- The type that a node stands for. -/
def resolve (arena : TypeArena) (id : Fin arena.nodes.length) : Ty :=
  match shape : arena.kind id with
  | .base base => base.ty
  | .array element size =>
    have before : element < id.val := arena.earlier id.val id.isLt element (congrArg _ shape)
    .array (arena.resolve ⟨element, Nat.lt_trans before id.isLt⟩) size
termination_by id.val

end TypeArena

/-- A node with the arena that it is in. -/
structure TypeRef where
  arena : TypeArena
  id : Fin arena.nodes.length

def TypeRef.ty (ref : TypeRef) : Ty := ref.arena.resolve ref.id

/-- The type is resolved from the node in its arena and in every one that grew out of it. -/
def TypeRef.StandsFor (ref : TypeRef) (ty : Ty) : Prop :=
  ∀ (later : TypeArena) (grows : ref.arena.nodes <+: later.nodes),
    later.resolve (ref.id.castLE grows.length_le) = ty

/-- Adds a node behind those that are there, its element among them. -/
def TypeArena.add (arena : TypeArena) (kind : TypeKind) (pos : Position)
    (known : ∀ element ∈ kind.element?, element < arena.nodes.length) : TypeRef where
  arena.nodes := arena.nodes ++ [⟨kind, pos⟩]
  arena.earlier := by
    intro id isIn
    by_cases older : id < arena.nodes.length
    · rw [List.getElem_append_left older]
      exact arena.earlier id older
    · rw [List.length_append] at isIn
      obtain rfl := Nat.le_antisymm (Nat.not_lt.mp older) (Nat.le_of_lt_succ isIn)
      rw [List.getElem_concat_length rfl]
      exact known
  id := ⟨arena.nodes.length, by rw [List.length_append]; exact Nat.lt_succ_self _⟩

/-- Puts an array around the type of a node. -/
def TypeRef.wrap (pos : Position) (ref : TypeRef) (size : Nat) : TypeRef :=
  ref.arena.add (.array ref.id size) pos fun _ same => Option.some.inj same ▸ ref.id.isLt

/-- Adds the nodes of a declared type, from the inside out. -/
def TypeArena.declare (arena : TypeArena) (base : BaseTy) (pos : Position) (sizes : List Nat) :
    TypeRef :=
  sizes.reverse.foldl (TypeRef.wrap pos) (arena.add (.base base) pos nofun)

section Resolve

variable {arena later : TypeArena} {pos : Position}

namespace TypeArena

theorem resolve_base {id : Fin arena.nodes.length} {base : BaseTy}
    (shape : arena.kind id = .base base) : arena.resolve id = base.ty := by
  rw [resolve]
  split
  · next same => rw [TypeKind.base.inj (same.symm.trans shape)]
  · next same => cases same.symm.trans shape

theorem resolve_array {id : Fin arena.nodes.length} {element size : Nat}
    (shape : arena.kind id = .array element size) (isIn : element < arena.nodes.length) :
    arena.resolve id = .array (arena.resolve ⟨element, isIn⟩) size := by
  rw [resolve]
  split
  · next same => cases same.symm.trans shape
  · next same =>
    obtain ⟨rfl, rfl⟩ := TypeKind.array.inj (same.symm.trans shape)
    rfl

/-- Nodes that are added behind the others do not change what these stand for. -/
theorem resolve_of_prefix (grows : arena.nodes <+: later.nodes) (id : Fin arena.nodes.length) :
    later.resolve (id.castLE grows.length_le) = arena.resolve id := by
  obtain ⟨id, isIn⟩ := id
  -- on the place of the node: an element stands at an earlier one
  induction id using Nat.strongRecOn with
  | ind id ih =>
    have same : later.kind (Fin.castLE grows.length_le ⟨id, isIn⟩) = arena.kind ⟨id, isIn⟩ :=
      congrArg TypeNode.kind (grows.getElem isIn).symm
    cases shape : arena.kind ⟨id, isIn⟩ with
    | base base => rw [resolve_base shape, resolve_base (same.trans shape)]
    | array element size =>
      have before : element < id := arena.earlier id isIn element (congrArg _ shape)
      have known := Nat.lt_trans before isIn
      rw [resolve_array shape known, ← ih element before known]
      exact resolve_array (same.trans shape) (Nat.lt_of_lt_of_le known grows.length_le)

variable {kind : TypeKind} {known : ∀ element ∈ kind.element?, element < arena.nodes.length}

theorem kind_add : (arena.add kind pos known).arena.kind (arena.add kind pos known).id = kind :=
  congrArg TypeNode.kind (List.getElem_concat_length rfl _)

theorem prefix_add : arena.nodes <+: (arena.add kind pos known).arena.nodes :=
  List.prefix_append _ _

end TypeArena

namespace TypeRef

variable (ref : TypeRef) (size : Nat) (sizes : List Nat)

theorem standsFor_ty : ref.StandsFor ref.ty := fun _ grows =>
  TypeArena.resolve_of_prefix grows ref.id

theorem ty_wrap : (ref.wrap pos size).ty = .array ref.ty size := by
  have older : ref.id.val < (ref.wrap pos size).arena.nodes.length :=
    Nat.lt_of_lt_of_le ref.id.isLt TypeArena.prefix_add.length_le
  -- the element is resolved in the arena with the new node, and was named in the one before
  refine (TypeArena.resolve_array TypeArena.kind_add older).trans (congrArg (Ty.array · size) ?_)
  exact TypeArena.resolve_of_prefix TypeArena.prefix_add ref.id

/-- Arrays put around one after the other, the innermost size first. -/
theorem ty_foldl_wrap : (sizes.reverse.foldl (wrap pos) ref).ty = .arrayOf ref.ty sizes := by
  rw [List.foldl_reverse]
  induction sizes with
  | nil => rfl
  | cons size sizes ih => rw [List.foldr_cons, ty_wrap, ih]; rfl

/-- Each array is a node of its own, at the given place. -/
theorem nodes_foldl_wrap : ∃ added,
    (sizes.foldl (wrap pos) ref).arena.nodes = ref.arena.nodes ++ added ∧
      added.length = sizes.length ∧ ∀ node ∈ added, node.pos = pos := by
  induction sizes generalizing ref with
  | nil => exact ⟨[], (List.append_nil _).symm, rfl, List.forall_mem_nil _⟩
  | cons size sizes ih =>
    obtain ⟨added, nodes, count, placed⟩ := ih (ref.wrap pos size)
    refine ⟨⟨.array ref.id size, pos⟩ :: added, ?_, congrArg Nat.succ count,
      List.forall_mem_cons.mpr ⟨rfl, placed⟩⟩
    exact nodes.trans (List.append_assoc ref.arena.nodes [_] added)

end TypeRef

variable (base : BaseTy) (sizes : List Nat)

theorem TypeArena.ty_declare : (arena.declare base pos sizes).ty = .arrayOf base.ty sizes := by
  rw [declare, TypeRef.ty_foldl_wrap]
  exact congrArg (Ty.arrayOf · sizes) (resolve_base kind_add)

/-- Behind the nodes of the types declared before there is one more for each size, and one
for what is inside. -/
theorem TypeArena.nodes_declare : ∃ added,
    (arena.declare base pos sizes).arena.nodes = arena.nodes ++ added ∧
      added.length = sizes.length + 1 ∧ ∀ node ∈ added, node.pos = pos := by
  obtain ⟨added, nodes, count, placed⟩ :=
    TypeRef.nodes_foldl_wrap (arena.add (.base base) pos nofun) sizes.reverse
  refine ⟨⟨.base base, pos⟩ :: added, ?_, ?_, List.forall_mem_cons.mpr ⟨rfl, placed⟩⟩
  · exact nodes.trans (List.append_assoc arena.nodes [_] added)
  · rw [List.length_cons, count, List.length_reverse]

end Resolve

/-- A declarator whose type is a node. -/
structure NodedDeclarator where
  name : Name
  type : TypeRef
  init : Option Expr

/-- The rest of a declarator behind its name, with the nodes of its type added behind
those of the arena. -/
def nodedDeclarator (expr : Parser Expr) (base : BaseTy) (basePos : Position) (arena : TypeArena)
    (name : Name) : Parser NodedDeclarator := do
  let sizes ← manyWhile (· = .lBracket) dimension
  let type := arena.declare base basePos sizes
  let init ← initializer expr
  pure ⟨name, type, init⟩

/-- It reads what a declarator is read from, and says the same. -/
theorem nodedDeclarator_eq (expr : Parser Expr) (base : BaseTy) (basePos : Position)
    (arena : TypeArena) (name : Name) :
    nodedDeclarator expr base basePos arena name =
      (fun d => ⟨d.name, arena.declare base basePos d.sizes, d.init⟩) <$> declarator expr name := by
  simp only [nodedDeclarator, declarator, lift_self, map_bind, map_pure]

theorem run_nodedDeclarator (expr : Parser Expr) (base : BaseTy) (basePos : Position)
    (arena : TypeArena) (name : Name) (s : Stream) :
    (nodedDeclarator expr base basePos arena name).run s =
      let plain := (declarator expr name).run s
      ⟨⟨plain.value.name, arena.declare base basePos plain.value.sizes, plain.value.init⟩,
        plain.rest, plain.log⟩ := by
  rw [nodedDeclarator_eq]
  exact congrArg (Outcome.mk _ _) (List.append_nil _)

/-- The sizes are those that are written in front of anything but one more bracket. -/
theorem sizes_declarator (expr : Parser Expr) (name : Name) {sizes : List Nat} {s : Stream}
    {rest : List Lexeme} (small : ∀ size ∈ sizes, size < sizeLimit)
    (spelled : Spelled (sizes.flatMap printedSize) s.upcoming rest)
    (follows : frontKind rest ≠ .lBracket) :
    ((declarator expr name).run s).value.sizes = sizes := by
  -- sizes nest in nothing, so there is no depth at which they are refused
  have reads : Reads (manyWhile (· = .lBracket) dimension) (sizes.flatMap printedSize)
      (· ≠ .lBracket) False (· = sizes) := sizes_complete small
  rcases reads s rest spelled follows with read | ⟨isDeep, _⟩
  · exact read.2.1
  · exact isDeep.elim

/-- A declarator gets a node that stands for its type as it is written. A type is put
together again from what it is taken apart into, and an array is taken apart into what it is
put together from; its text tells it from all others. So no message of the check shows two
types alike. -/
theorem array_types_kept :
    (∀ (expr : Parser Expr) (base : BaseTy) (basePos : Position) (arena : TypeArena) (name : Name)
      (stream : Stream),
      let plain := (declarator expr name).run stream
      let noded := (nodedDeclarator expr base basePos arena name).run stream
      (noded.rest = plain.rest ∧ noded.log = plain.log ∧ noded.value.name = plain.value.name ∧
        noded.value.init = plain.value.init) ∧
      (∃ added, noded.value.type.arena.nodes = arena.nodes ++ added ∧
        added.length = plain.value.sizes.length + 1 ∧ ∀ node ∈ added, node.pos = basePos) ∧
      (∀ v : VarDecl, v.base = base.ty → noded.value.type.StandsFor (v.typeOf plain.value)) ∧
      ∀ sizes rest, (∀ size ∈ sizes, size < sizeLimit) →
        Spelled (sizes.flatMap printedSize) stream.upcoming rest → frontKind rest ≠ .lBracket →
        noded.value.type.StandsFor (.arrayOf base.ty sizes)) ∧
    (∀ ty : Ty, ty.unwrap [] = (ty.sizes, ty.leaf) ∧ .arrayOf ty.leaf ty.sizes = ty ∧
      ty.display = ty.leaf.display ++ String.join (ty.sizes.map Ty.sizeSuffix)) ∧
    (∀ (leaf : Ty) (sizes : List Nat), leaf.isArray = false →
      (Ty.arrayOf leaf sizes).sizes = sizes ∧ (Ty.arrayOf leaf sizes).leaf = leaf) ∧
    (∀ ty other : Ty, ty.display = other.display ↔ ty = other) ∧
    (∀ problem : Problem, ∀ ty ∈ problem.types, ty.ShownIn problem.message) ∧
    ∀ (file : File) (state : CheckState), ∀ d ∈ (file.check.run state).log.raised,
      d.IsOn fun _ problem => (problem.types.map Ty.display).Nodup := by
  refine ⟨?reading, ?apart, ?together, fun ty other => Ty.display_inj, Problem.types_shown,
    File.check_apart⟩
  case reading =>
    intro expr base basePos arena name stream plain noded
    have same := run_nodedDeclarator expr base basePos arena name stream
    have type : noded.value.type = arena.declare base basePos plain.value.sizes :=
      congrArg (·.value.type) same
    have declared : noded.value.type.StandsFor (.arrayOf base.ty plain.value.sizes) := by
      rw [type, ← arena.ty_declare base plain.value.sizes]
      exact TypeRef.standsFor_ty _
    refine ⟨?plain, ?added, ?typed, ?written⟩
    case plain =>
      exact ⟨congrArg (·.rest) same, congrArg (·.log) same, congrArg (·.value.name) same,
        congrArg (·.value.init) same⟩
    case added =>
      rw [type]
      exact TypeArena.nodes_declare base plain.value.sizes
    case typed =>
      intro v based
      rwa [VarDecl.typeOf, based]
    case written =>
      intro sizes rest small spelled follows
      rwa [← sizes_declarator expr name small spelled follows]
  case apart =>
    intro ty
    exact ⟨ty.unwrap_eq [], ty.arrayOf_leaf_sizes, ty.display_eq⟩
  case together =>
    intro leaf sizes flat
    exact ⟨Ty.sizes_arrayOf sizes flat, (Ty.leaf_arrayOf leaf sizes).trans (Ty.leaf_eq_self flat)⟩

/-- Two sizes, one of them with a leading zero, and no initial value. -/
theorem array_types_kept_grid :
    let stream := Stream.ofScanned (.ofSource "t.c" "[2][03];")
    let noded := (nodedDeclarator (expression 1) ⟨.char, rfl⟩ .unknown .empty
      ⟨"grid", .unknown⟩).run stream
    let grid : Ty := .array (.array .char 3) 2
    (∃ rest, (∀ size ∈ [2, 3], size < sizeLimit) ∧
      Spelled ([2, 3].flatMap printedSize) stream.upcoming rest ∧ frontKind rest ≠ .lBracket) ∧
    noded.value.type.StandsFor grid ∧ grid.leaf.isArray = false ∧ grid.display = "char[2][3]" := by
  intro stream noded grid
  have whole : Spelled ([2, 3].flatMap printedSize ++ [.symbol .semicolon]) stream.upcoming [] :=
    Spelled.forall₂_iff.mpr (by decide +kernel)
  have small : ∀ size ∈ [2, 3], size < sizeLimit := by decide
  obtain ⟨rest, spelled, ending⟩ := whole.split
  have follows : frontKind rest ≠ .lBracket := by
    rw [ending.frontKind_eq]
    nofun
  have reading := (array_types_kept.1 (expression 1) ⟨.char, rfl⟩ .unknown .empty
    ⟨"grid", .unknown⟩ stream).2.2.2
  exact ⟨⟨rest, small, spelled, follows⟩, reading [2, 3] rest small spelled follows, rfl, rfl⟩

end MiniC
