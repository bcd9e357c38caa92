import MiniC.Stmt.Check
import MiniC.Proofs.Expr.Typing
import MiniC.Proofs.Scope.Visible
import MiniC.Proofs.Syntax.Declared

/-!
The scopes that the checking of a file can come to, whatever order it opens and
closes blocks in and whatever it enters of the file's declarations. In all of
them names stand for what is visible, and all types are valid.
-/

namespace MiniC

/-- Starting from nothing, blocks are opened and closed, and parameters,
variables and functions of the file are entered. -/
inductive Reached (file : File) : Scope → Prop where
  | start : Reached file .empty
  | openBlock {scope : Scope} : Reached file scope → Reached file scope.openBlock
  | closeBlock {scope : Scope} : Reached file scope → Reached file scope.closeBlock
  | param {scope next : Scope} {symbol : Symbol} {f : FuncDecl} {param : Param} :
      f ∈ file.funcs → param ∈ f.params.params → param.ty.isInvalid = false →
      scope.addVar param.name.text param.ty false = some (symbol, next) →
      Reached file scope → Reached file next
  | var {scope next : Scope} {symbol : Symbol} {v : VarDecl} {d : Declarator} :
      v ∈ file.varDecls → d ∈ v.declarators →
      scope.addVar d.name.text (v.typeOf d) v.isConst = some (symbol, next) →
      Reached file scope → Reached file next
  | func {scope next : Scope} {f : FuncDecl} {number : Nat} :
      f ∈ file.funcs → f.enter? number scope = some next →
      Reached file scope → Reached file next

/-- The variables that are visible and the functions that are known. -/
def viewOf (scope : Scope) : View where
  var name ty := ∃ symbol, scope.IsVisible name symbol ∧ symbol.ty = ty
  func name f := ∃ known, (name, known) ∈ scope.funcs ∧ known.decl = f

structure SoundScope (scope : Scope) : Prop where
  ordered : scope.IsOrdered
  vars : ∀ symbol ∈ scope.symbols, symbol.ty.leaf ≠ .invalid
  funcs : ∀ entry ∈ scope.funcs, entry.2.decl.returns ≠ .invalid

namespace SoundScope

variable {scope next : Scope}

theorem shows (sound : SoundScope scope) : Shows scope (viewOf scope) where
  var name ty := by simp only [viewOf, sound.ordered.var?_eq_some_iff]
  func name f := by simp only [viewOf, sound.ordered.func?_eq_some_iff]
  leaf name ty := by
    rintro ⟨symbol, visible, rfl⟩
    exact sound.vars symbol visible.member
  returns name f := by
    rintro ⟨known, member, rfl⟩
    exact sound.funcs (name, known) member

theorem empty : SoundScope .empty := ⟨.empty, nofun, nofun⟩

theorem openBlock (sound : SoundScope scope) : SoundScope scope.openBlock :=
  ⟨sound.ordered.openBlock, sound.vars, sound.funcs⟩

theorem closeBlock (sound : SoundScope scope) : SoundScope scope.closeBlock := by
  refine ⟨sound.ordered.closeBlock, ?_, ?_⟩
  · intro symbol member
    apply sound.vars
    unfold SymbolTable.closeBlock at member
    split at member
    · exact member
    · exact List.mem_of_mem_filter member
  · intro entry member
    apply sound.funcs
    unfold SymbolTable.closeBlock at member
    split at member <;> exact member

theorem addVar (sound : SoundScope scope) {name : String} {ty : Ty} {isConst : Bool}
    {symbol : Symbol} (valid : ty.leaf ≠ .invalid)
    (added : scope.addVar name ty isConst = some (symbol, next)) : SoundScope next := by
  have ordered := sound.ordered.addVar added
  unfold SymbolTable.addVar at added
  by_cases isDeclared : scope.isDeclaredHere name = true
  · simp [isDeclared] at added
  · rw [if_neg isDeclared, Option.some.injEq, Prod.mk.injEq] at added
    obtain ⟨_, rfl⟩ := added
    exact ⟨ordered, List.forall_mem_cons.mpr ⟨valid, sound.vars⟩, sound.funcs⟩

theorem enter (sound : SoundScope scope) {f : FuncDecl} {number : Nat}
    (valid : f.returns ≠ .invalid) (entered : f.enter? number scope = some next) :
    SoundScope next := by
  unfold FuncDecl.enter? at entered
  cases isVar : scope.var? f.name.text with
  | some symbol => simp [isVar] at entered
  | none =>
    rw [isVar] at entered
    have ordered := sound.ordered.addFunc entered
    unfold SymbolTable.addFunc at entered
    cases isFunc : scope.func? f.name.text with
    | some known => simp [isFunc] at entered
    | none =>
      rw [isFunc, Option.some.injEq] at entered
      subst entered
      exact ⟨ordered, sound.vars, List.forall_mem_cons.mpr ⟨valid, sound.funcs⟩⟩

end SoundScope

theorem FuncDecl.IsTyped.returns_ne_invalid {f : FuncDecl} (typed : f.IsTyped) :
    f.returns ≠ .invalid := by
  rcases typed.returns with same | same | same <;> rw [same] <;> nofun

theorem FuncDecl.IsTyped.param_leaf {f : FuncDecl} (typed : f.IsTyped) {param : Param}
    (member : param ∈ f.params.params) (valid : param.ty.isInvalid = false) :
    param.ty.leaf ≠ .invalid := by
  rcases typed.params param member with same | same | same
  · rw [same]
    nofun
  · rw [same]
    nofun
  · simp [same, Ty.isInvalid] at valid

theorem Reached.sound {file : File} (typed : file.IsTyped) {scope : Scope}
    (reached : Reached file scope) : SoundScope scope := by
  induction reached with
  | start => exact .empty
  | openBlock _ ih => exact ih.openBlock
  | closeBlock _ ih => exact ih.closeBlock
  | param isFunc member valid added _ ih =>
    exact ih.addVar ((typed.func isFunc).param_leaf member valid) added
  | var isVar _ added _ ih => exact ih.addVar ((typed.var isVar).leaf _) added
  | func isFunc entered _ ih =>
    exact ih.enter (typed.func isFunc).returns_ne_invalid entered

end MiniC
