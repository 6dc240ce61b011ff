import ClassText.Proofs.Frame.Alike
import ClassText.Proofs.Rewriting.Methods
import ClassText.Proofs.Rule.Drawing

/-!
# What the rewriting of a class depends on

A class is rewritten in a hierarchy and with random words, both of which it shares
with others. Of the hierarchy only the answers matter (`rewrite_of_alike`): it is
asked nowhere but where the frames of code that has moved are derived again. And if
the rules draw nothing, the random words do not matter and are left as they were
(`rewrite_of_drawNothing`).
-/

namespace ClassText

open PoolChange

/-! ## Other hierarchies -/

namespace Hierarchy.Alike

variable {h h' : Hierarchy}

theorem withTexts? (halike : h.Alike h') (code : Code) (texts : List LoadedText)
    (version : Version) (method : MethodHead) :
    code.withTexts? texts version method h = code.withTexts? texts version method h' := by
  unfold Code.withTexts? Code.settleMoved
  rw [halike.deriveFrames]

theorem rewriteMethod (halike : h.Alike h') (className : String) (version : Version)
    (rules : Rules) : ClassContext.rewriteMethod ⟨className, version, rules, h⟩ =
      ClassContext.rewriteMethod ⟨className, version, rules, h'⟩ := by
  funext method
  unfold ClassContext.rewriteMethod ClassContext.rewriteCode
  simp only [halike.withTexts?]

end Hierarchy.Alike

/-- A class is rewritten in the same way where the hierarchy gives the same answers. -/
theorem ClassFile.rewrite_of_alike {h h' : Hierarchy} (halike : h.Alike h') (c : ClassFile)
    (rules : Rules) : c.rewrite rules h = c.rewrite rules h' := by
  funext draws
  unfold ClassFile.rewrite
  simp only [halike.rewriteMethod]

/-! ## Other random words -/

namespace ClassStep

variable {α β : Type}

/-- The step is the same for all random words, and leaves them as they were. -/
def Spares (step : ClassStep α) : Prop :=
  ∀ p draws, step { p with draws } = ((step p).1, { (step p).2 with draws })

theorem spares_pure (a : α) : Spares (pure a) := fun _ _ => rfl

theorem Spares.bind {step : ClassStep α} {next : α → ClassStep β} (h : step.Spares)
    (hnext : ∀ a, (next a).Spares) : (step >>= next).Spares := by
  intro p draws
  rw [run_bind, run_bind, h p draws]
  cases (step p).1 with
  | error e => rfl
  | ok a => exact hnext a (step p).2 draws

/-- A step may look at the progress, if it does not look at the random words. -/
theorem spares_get {next : ClassProgress → ClassStep β} (h : ∀ p, (next p).Spares)
    (hsame : ∀ p draws, next { p with draws } = next p) : (get >>= next).Spares := by
  intro p draws
  rw [run_bind, run_bind, run_get, run_get]
  dsimp only
  rw [hsame p draws]
  exact h p p draws

theorem spares_drawing {draw : Drawing α} (h : Draws.Spares draw) : (drawing draw).Spares := by
  intro p draws
  rw [ClassContext.run_drawing, ClassContext.run_drawing, h p.draws draws]

theorem spares_changing (change : PoolChange α) : (changing change).Spares := fun _ _ => rfl

theorem spares_ofExcept (result : Except ClassError α) : (ofExcept result).Spares :=
  fun _ _ => rfl

theorem spares_tellChanged : tellChanged.Spares := fun _ _ => rfl

theorem spares_tellFailed (place : MethodPlace) (error : ClassError) :
    (tellFailed place error).Spares := fun _ _ => rfl

theorem spares_tellReplaced (place : MethodPlace) (replacements : List Replacement) :
    (tellReplaced place replacements).Spares := fun _ _ => rfl

theorem spares_mapM {step : α → ClassStep β} {items : List α} (h : ∀ a ∈ items, (step a).Spares) :
    (items.mapM step).Spares :=
  Success.mapM_closed (P := fun _ => Spares) spares_pure Spares.bind h

end ClassStep

open ClassStep

theorem Code.spares_loadedTexts {rules : Rules} (hrules : rules.DrawNothing) (code : Code)
    (pool : ConstantPool) : Draws.Spares (code.loadedTexts rules pool) := by
  have htexts : Draws.Spares (code.rewrittenTexts rules pool) := by
    refine Draws.spares_mapM fun insn _ => ?_
    unfold Instruction.rewrittenText
    cases insn.loadedText? pool with
    | none => exact Draws.spares_pure _
    | some text => exact (hrules.spares_rewrite text).bind fun _ => Draws.spares_pure _
  intro draws draws'
  rw [loadedTexts_eq, loadedTexts_eq, htexts draws draws']

namespace ClassContext

theorem spares_rewriteCode {ctx : ClassContext} (hrules : ctx.rules.DrawNothing) (method : Method)
    (place : MethodPlace) (code : Code) : (ctx.rewriteCode method place code).Spares := by
  refine spares_get (fun p => ?_) fun _ _ => rfl
  refine (spares_drawing (code.spares_loadedTexts hrules p.pool)).bind fun texts => ?_
  split
  · exact spares_pure _
  refine (spares_changing _).bind fun result => ?_
  cases result with
  | error e => exact (spares_tellFailed place e).bind fun _ => spares_pure _
  | ok result =>
    refine (spares_tellReplaced place _).bind fun _ => ?_
    cases result with
    | none => exact spares_pure _
    | some code => exact spares_tellChanged.bind fun _ => spares_pure _

theorem spares_rewriteMethod {ctx : ClassContext} (hrules : ctx.rules.DrawNothing)
    (method : Method) : (ctx.rewriteMethod method).Spares := by
  refine spares_get (fun p => ?_) fun _ _ => rfl
  refine (spares_ofExcept _).bind fun name => (spares_ofExcept _).bind fun descriptor => ?_
  cases method.code? with
  | none => exact spares_pure _
  | some code => exact spares_rewriteCode hrules method _ code

end ClassContext

/-- If the rules draw nothing, a class is rewritten in the same way for all random words. -/
theorem ClassFile.rewrite_of_drawNothing {rules : Rules} (hrules : rules.DrawNothing)
    (c : ClassFile) (hierarchy : Hierarchy) (draws draws' : Draws) :
    c.rewrite rules hierarchy draws' =
      { c.rewrite rules hierarchy draws with draws := draws' } := by
  unfold ClassFile.rewrite
  cases c.rewritableName with
  | error e => rfl
  | ok name =>
    let ctx : ClassContext := ⟨name, c.version, rules, hierarchy⟩
    have hsteps : (c.methods.mapM ctx.rewriteMethod).Spares :=
      spares_mapM fun method _ => ctx.spares_rewriteMethod hrules method
    have h := hsteps ⟨c.pool, draws, [], {}⟩ draws'
    dsimp only
    rw [h]
    rfl

end ClassText
