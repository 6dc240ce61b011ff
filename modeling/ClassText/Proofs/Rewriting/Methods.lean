import ClassText.Proofs.Descriptor.Reading
import ClassText.Proofs.Rewriting.Substitution
import ClassText.Rewriting.Class

/-!
# What rewriting does to a class

The methods of a class are rewritten in order, on one pool and one source of
random words. `Method.Outcome` lists what can become of a method, and
`ClassContext.MethodStep` says what the work on it does to the pool, to the
source and to what is told. The texts that a method loads are those of the pool
as the method finds it, that is, with the constants that earlier methods have
added.

A pool only grows, so what a method loads after its own step is what it loads
in the class that is left in the end.
-/

namespace ClassText

open ConstantPool PoolChange

/-! ## The code of a method -/

/-- The first code of a method stands behind attributes that are no code. -/
theorem Method.attributes_of_code? {code : Code} :
    ∀ attributes : List (Attribute MethodAttributeBody),
      (attributes.findSome? fun a => match a.body with
        | .code code => some code
        | .raw _ => none) = some code →
      ∃ front name back, attributes = front ++ ⟨name, .code code⟩ :: back ∧
        (∀ a ∈ front, ∀ other, a.body ≠ .code other) ∧
        ∀ new, Method.setCodeIn new attributes = front ++ ⟨name, .code new⟩ :: back
  | ⟨name, .code _⟩ :: rest, h => by
    obtain rfl := Option.some.inj h
    exact ⟨[], name, rest, rfl, by simp, fun _ => rfl⟩
  | ⟨name, .raw bytes⟩ :: rest, h => by
    obtain ⟨front, codeName, back, rfl, hfront, hset⟩ :=
      Method.attributes_of_code? rest h
    refine ⟨⟨name, .raw bytes⟩ :: front, codeName, back, rfl, ?_, ?_⟩
    · simpa using hfront
    · intro new
      rw [Method.setCodeIn, hset new, List.cons_append]
      intro _ _ heq
      cases heq

/-- What the rules make of the texts that a method loads. -/
def Method.rewrittenTexts (method : Method) (rules : Rules) (pool : ConstantPool) :
    Drawing (List (Option Rewrite)) :=
  match method.code? with
  | none => return []
  | some code => code.rewrittenTexts rules pool

/-- What becomes of a method of a class, given what the rules make of its texts, the pool in
which it finds them, the pool that is left in the end, and what is told meanwhile. -/
inductive Method.Outcome (className : String) (method : Method)
    (rewrites : List (Option Rewrite)) (pool final : ConstantPool) (told : List Event) :
    Method → Prop
  /-- There is nothing to rewrite. -/
  | noCode (hcode : method.code? = none) : Outcome className method rewrites pool final told method
  /-- No instruction is to load another text. -/
  | unchanged {code : Code} (hcode : method.code? = some code)
      (hsame : ∀ {i : Label} {insn : Instruction}, code.instructions[i]? = some insn →
        ∃ rewrite?, rewrites[i]? = some rewrite? ∧ insn.newText? pool rewrite? = none) :
      Outcome className method rewrites pool final told method
  /-- The new code could not be finished, and that is told. -/
  | failed {name descriptor : String} {error : ClassError}
      (hname : pool.text method.name = .ok name)
      (hdescriptor : pool.text method.descriptor = .ok descriptor)
      (htold : told = [.methodFailed ⟨className, name, descriptor⟩ error]) :
      Outcome className method rewrites pool final told method
  /-- The first code has new texts. -/
  | substituted {front back : List (Attribute MethodAttributeBody)} {name : PoolIndex}
      {code new : Code} (hcode : method.attributes = front ++ ⟨name, .code code⟩ :: back)
      (hfront : ∀ a ∈ front, ∀ other, a.body ≠ .code other)
      (hnew : code.IsSubstituted new rewrites pool final) :
      Outcome className method rewrites pool final told
        { method with attributes := front ++ ⟨name, .code new⟩ :: back }

/-- The method as it was, or with other texts in its first code, which can be assembled. -/
inductive Method.IsRecoded (method : Method) (pool : ConstantPool) : Method → Prop
  | kept : IsRecoded method pool method
  | recoded {front back : List (Attribute MethodAttributeBody)} {name : PoolIndex}
      {code new : Code} {texts : List LoadedText}
      (hcode : method.attributes = front ++ ⟨name, .code code⟩ :: back)
      (htexts : code.HasTexts texts pool new) (hassembled : ∃ written, new.assemble = .ok written) :
      IsRecoded method pool { method with attributes := front ++ ⟨name, .code new⟩ :: back }

theorem Method.Outcome.grows {className : String} {method new : Method}
    {rewrites : List (Option Rewrite)} {pool grown final : ConstantPool} {told : List Event}
    (h : method.Outcome className rewrites pool grown told new) (hgrows : grown.Grows final) :
    method.Outcome className rewrites pool final told new := by
  cases h with
  | noCode hcode => exact .noCode hcode
  | unchanged hcode hsame => exact .unchanged hcode hsame
  | failed hname hdescriptor htold => exact .failed hname hdescriptor htold
  | substituted hcode hfront hnew => exact .substituted hcode hfront (hnew.grows hgrows)

namespace ClassContext

/-- One method after the other: what the work on a method does, with the pool that is left in the
end. -/
structure MethodStep (ctx : ClassContext) (final : ConstantPool) (before after : ClassProgress)
    (method new : Method) : Prop where
  grows : before.pool.Grows after.pool
  draws : after.draws = (method.rewrittenTexts ctx.rules before.pool before.draws).2
  outcome : ∃ told, after.events = before.events ++ told ∧
    method.Outcome ctx.className (method.rewrittenTexts ctx.rules before.pool before.draws).1
      before.pool final told new

theorem MethodStep.final {ctx : ClassContext} {pool final : ConstantPool}
    {before after : ClassProgress} {method new : Method}
    (h : ctx.MethodStep pool before after method new) (hgrows : pool.Grows final) :
    ctx.MethodStep final before after method new where
  grows := h.grows
  draws := h.draws
  outcome :=
    let ⟨told, htold, houtcome⟩ := h.outcome
    ⟨told, htold, houtcome.grows hgrows⟩

/-- What is left of a method after the work on it: the method as it was, or with the code that
`withTexts?` makes of its first code. Only then is there a change to report. -/
inductive Recodes (ctx : ClassContext) (before after : ClassProgress) (method : Method) :
    Method → Prop
  | kept (hchanged : after.report.changed = before.report.changed) :
      Recodes ctx before after method method
  | replaced {code new : Code} {name descriptor : String} (hcode : method.code? = some code)
      (hname : before.pool.text method.name = .ok name)
      (hdescriptor : before.pool.text method.descriptor = .ok descriptor)
      (hrun : code.withTexts? (code.loadedTexts ctx.rules before.pool before.draws).1 ctx.version
        ⟨ctx.className, name, descriptor, method.isStatic⟩ ctx.hierarchy before.pool =
          (.ok (some new), after.pool)) :
      Recodes ctx before after method (method.setCode new)

/-- Code that was made can be assembled. -/
theorem Recodes.isRecoded {ctx : ClassContext} {before after : ClassProgress}
    {method new : Method} (h : ctx.Recodes before after method new) :
    method.IsRecoded after.pool new := by
  cases h with
  | kept _ => exact .kept
  | @replaced code new name descriptor hcode hname hdescriptor hrun =>
    obtain ⟨-, htexts, hassembled⟩ := (ensures_withTexts? code
      (nodup_label_loadedTexts code ctx.rules before.pool before.draws) ctx.version
      ⟨ctx.className, name, descriptor, method.isStatic⟩ ctx.hierarchy before.pool).of_run hrun
    obtain ⟨front, codeName, back, hattrs, -, hset⟩ :=
      Method.attributes_of_code? method.attributes hcode
    rw [Method.setCode, hset new]
    exact .recoded hattrs htexts hassembled

theorem run_drawing {α : Type} (draw : Drawing α) (p : ClassProgress) :
    ClassStep.drawing draw p = (.ok (draw p.draws).1, { p with draws := (draw p.draws).2 }) := rfl

theorem run_changing {α : Type} (change : PoolChange α) (p : ClassProgress) :
    ClassStep.changing change p = (.ok (change p.pool).1, { p with pool := (change p.pool).2 }) :=
  rfl

/-- The work on code always comes to an end, with the method as it is or with other code. -/
theorem rewriteCode_step {ctx : ClassContext} {method : Method} {code : Code}
    {name descriptor : String} {before : ClassProgress} (hcode : method.code? = some code)
    (hname : before.pool.text method.name = .ok name)
    (hdescriptor : before.pool.text method.descriptor = .ok descriptor) :
    ∃ new after, ctx.rewriteCode method ⟨ctx.className, name, descriptor⟩ code before =
        (.ok new, after) ∧
      ctx.MethodStep after.pool before after method new ∧
      ctx.Recodes before after method new := by
  have hrewritten : method.rewrittenTexts ctx.rules before.pool =
      code.rewrittenTexts ctx.rules before.pool := by
    rw [Method.rewrittenTexts, hcode]
  have hdraws : (code.loadedTexts ctx.rules before.pool before.draws).2 =
      (method.rewrittenTexts ctx.rules before.pool before.draws).2 := by
    rw [hrewritten, loadedTexts_eq]
  have hunchanged
      (h : (code.loadedTexts ctx.rules before.pool before.draws).1.filter (·.isChanged) = [])
      (final : ConstantPool) (told : List Event) : method.Outcome ctx.className
        (method.rewrittenTexts ctx.rules before.pool before.draws).1 before.pool final told
        method := by
    rw [hrewritten]
    exact .unchanged hcode (newText?_eq_none h)
  simp only [rewriteCode, run_bind, run_get, run_drawing]
  by_cases hnil : (code.loadedTexts ctx.rules before.pool before.draws).1.isEmpty
  · rw [if_pos hnil]
    refine ⟨method, _, run_pure _ _,
      ⟨.refl _, hdraws, [], (List.append_nil _).symm, ?_⟩, .kept rfl⟩
    exact hunchanged (by rw [List.isEmpty_iff.mp hnil, List.filter_nil]) _ _
  rw [if_neg hnil]
  simp only [run_bind, run_changing]
  obtain ⟨hgrows, hpost⟩ := ensures_withTexts? code
    (nodup_label_loadedTexts code ctx.rules before.pool before.draws) ctx.version
    ⟨ctx.className, name, descriptor, method.isStatic⟩ ctx.hierarchy before.pool
  rcases hrun : code.withTexts? (code.loadedTexts ctx.rules before.pool before.draws).1 ctx.version
    ⟨ctx.className, name, descriptor, method.isStatic⟩ ctx.hierarchy before.pool
    with ⟨_ | ⟨_ | new⟩, grown⟩ <;> rw [hrun] at hgrows hpost
  · exact ⟨method, _, rfl, ⟨hgrows, hdraws, _, rfl, .failed hname hdescriptor rfl⟩, .kept rfl⟩
  · exact ⟨method, _, rfl, ⟨hgrows, hdraws, _, rfl, hunchanged (hpost none rfl) _ _⟩, .kept rfl⟩
  · obtain ⟨htexts, -⟩ := hpost (some new) rfl
    obtain ⟨front, codeName, back, hattrs, hfront, hset⟩ :=
      Method.attributes_of_code? method.attributes hcode
    refine ⟨method.setCode new, _, rfl, ⟨hgrows, hdraws, _, rfl, ?_⟩,
      .replaced hcode hname hdescriptor hrun⟩
    rw [Method.setCode, hset new, hrewritten]
    exact .substituted hattrs hfront htexts.isSubstituted

/-- A method that is left behind is related to the one that was found; an error is one about
names, before anything has happened. -/
theorem rewriteMethod_step {ctx : ClassContext} {method new : Method}
    {before after : ClassProgress} (h : ctx.rewriteMethod method before = (.ok new, after)) :
    ctx.MethodStep after.pool before after method new ∧ ctx.Recodes before after method new := by
  obtain ⟨p, q, hget, h⟩ := run_bind_eq_ok h
  obtain ⟨hp, rfl⟩ := Prod.mk.inj hget
  obtain rfl := Except.ok.inj hp
  obtain ⟨name, q, hrun, h⟩ := run_bind_eq_ok h
  obtain ⟨hname, rfl⟩ := Prod.mk.inj hrun
  obtain ⟨descriptor, q, hrun, h⟩ := run_bind_eq_ok h
  obtain ⟨hdescriptor, rfl⟩ := Prod.mk.inj hrun
  cases hcode : method.code? with
  | none =>
    rw [hcode] at h
    obtain ⟨hnew, rfl⟩ := Prod.mk.inj h
    obtain rfl := Except.ok.inj hnew
    have hrewritten : method.rewrittenTexts ctx.rules before.pool = pure [] := by
      rw [Method.rewrittenTexts, hcode]
    exact ⟨⟨.refl _, by rw [hrewritten, Draws.run_pure], [], (List.append_nil _).symm,
      .noCode hcode⟩, .kept rfl⟩
  | some code =>
    rw [hcode] at h
    obtain ⟨new', after', hrun, hstep⟩ := rewriteCode_step hcode hname hdescriptor
    obtain ⟨hnew, rfl⟩ := Prod.mk.inj (hrun.symm.trans h)
    exact Except.ok.inj hnew ▸ hstep

end ClassContext

/-- Pools that grow from step to step grow from each step to each later one. -/
theorem ConstantPool.grows_of_steps (pool : Nat → ConstantPool) {k n : Nat} (hle : k ≤ n)
    (h : ∀ i < n, (pool i).Grows (pool (i + 1))) : (pool k).Grows (pool n) := by
  induction hle with
  | refl => exact .refl _
  | step _ ih => exact (ih fun i hi => h i (Nat.lt_succ_of_lt hi)).trans (h _ (Nat.lt_succ_self _))

/-- Each stage stands between the first one and the last one. -/
theorem ClassFile.grows_between {stage : Nat → ClassProgress} {first last : ClassProgress}
    {k n : Nat} (hfirst : stage 0 = first) (hlast : stage n = last)
    (hgrows : ∀ i k, i ≤ k → k ≤ n → (stage i).pool.Grows (stage k).pool) (hk : k ≤ n) :
    first.pool.Grows (stage k).pool ∧ (stage k).pool.Grows last.pool := by
  subst hfirst hlast
  exact ⟨hgrows 0 k (Nat.zero_le _) hk, hgrows k n hk (Nat.le_refl _)⟩

theorem ClassFile.name_of_rewritableName {c : ClassFile} {name : String}
    (h : c.rewritableName = .ok name) : c.name = .ok name := by
  obtain ⟨found, hfound, hchecked⟩ := Success.bind_eq_ok.mp h
  rw [← (ClassName.check_eq_ok.mp (Success.mapError_eq_ok.mp hchecked)).1]
  exact hfound

/-- Rewriting that comes to an end goes through the methods in stages: one before each method, and
one at the end. The pool only grows from stage to stage. -/
theorem ClassFile.rewrite_stages {c : ClassFile} {rules : Rules} {hierarchy : Hierarchy}
    {draws : Draws} {done : RewrittenClass}
    (h : (c.rewrite rules hierarchy draws).outcome = .ok done) :
    done.classFile =
        { c with pool := done.classFile.pool, methods := done.classFile.methods } ∧
      done.classFile.methods.length = c.methods.length ∧
      ∃ (className : String) (stage : Nat → ClassProgress),
        c.name = .ok className ∧
        stage 0 = ⟨c.pool, draws, [], {}⟩ ∧
        stage c.methods.length = ⟨done.classFile.pool, (c.rewrite rules hierarchy draws).draws,
          (c.rewrite rules hierarchy draws).events, done.report⟩ ∧
        (∀ i k, i ≤ k → k ≤ c.methods.length → (stage i).pool.Grows (stage k).pool) ∧
        ∀ k method, c.methods[k]? = some method →
          ∃ new, done.classFile.methods[k]? = some new ∧
            ClassContext.MethodStep ⟨className, c.version, rules, hierarchy⟩
              (stage (k + 1)).pool (stage k) (stage (k + 1)) method new ∧
            ClassContext.Recodes ⟨className, c.version, rules, hierarchy⟩ (stage k)
              (stage (k + 1)) method new := by
  unfold ClassFile.rewrite at h ⊢
  cases hname : c.rewritableName with
  | error e =>
    rw [hname] at h
    cases h
  | ok name =>
    rw [hname] at h
    dsimp only at h ⊢
    rcases hrun : (c.methods.mapM (ClassContext.rewriteMethod ⟨name, c.version, rules, hierarchy⟩) :
      ClassStep (List Method)) ⟨c.pool, draws, [], {}⟩ with ⟨_ | news, last⟩ <;> rw [hrun] at h
    · cases h
    · obtain rfl := Except.ok.inj h
      obtain ⟨hlen, stage, hfirst, hlast, hruns⟩ := run_mapM_stages hrun
      have hsteps (k : Nat) (method : Method) (hmethod : c.methods[k]? = some method) :=
        (hruns k method hmethod).imp fun _ h => h.imp_right ClassContext.rewriteMethod_step
      refine ⟨rfl, hlen, name, stage, ClassFile.name_of_rewritableName hname, hfirst, hlast,
        fun i k hik hk => ?_, hsteps⟩
      refine grows_of_steps (fun i => (stage i).pool) hik fun j hj => ?_
      obtain ⟨new, -, hstep, -⟩ :=
        hsteps j c.methods[j] (List.getElem?_eq_getElem (Nat.lt_of_lt_of_le hj hk))
      exact hstep.grows

/-- What rewriting does to a whole class, if it comes to an end. Everything but the pool and the
methods is as before; the pool has grown; and the methods are rewritten one after the other, each
with the texts that it finds in the pool and the random words that are left. -/
theorem ClassFile.rewrite_substitutes {c : ClassFile} {rules : Rules} {hierarchy : Hierarchy}
    {draws : Draws} {done : RewrittenClass}
    (h : (c.rewrite rules hierarchy draws).outcome = .ok done) :
    done.classFile =
        { c with pool := done.classFile.pool, methods := done.classFile.methods } ∧
      c.pool.Grows done.classFile.pool ∧
      done.classFile.methods.length = c.methods.length ∧
      ∃ (className : String) (stage : Nat → ClassProgress),
        c.name = .ok className ∧
        stage 0 = ⟨c.pool, draws, [], {}⟩ ∧
        stage c.methods.length = ⟨done.classFile.pool, (c.rewrite rules hierarchy draws).draws,
          (c.rewrite rules hierarchy draws).events, done.report⟩ ∧
        ∀ k method, c.methods[k]? = some method →
          ∃ new, done.classFile.methods[k]? = some new ∧
            ClassContext.MethodStep ⟨className, c.version, rules, hierarchy⟩
              done.classFile.pool (stage k) (stage (k + 1)) method new := by
  obtain ⟨hrest, hlen, name, stage, hname, hfirst, hlast, hgrows, hsteps⟩ :=
    ClassFile.rewrite_stages h
  have hfinal (k : Nat) (hk : k ≤ c.methods.length) :
      (stage k).pool.Grows done.classFile.pool := by
    have := hgrows k _ hk (Nat.le_refl _)
    rwa [hlast] at this
  refine ⟨hrest, ?_, hlen, name, stage, hname, hfirst, hlast, fun k method hmethod => ?_⟩
  · have := hfinal 0 (Nat.zero_le _)
    rwa [hfirst] at this
  · obtain ⟨new, hnew, hstep, -⟩ := hsteps k method hmethod
    have hk := (List.getElem?_eq_some_iff.mp hmethod).1
    exact ⟨new, hnew, hstep.final (hfinal (k + 1) hk)⟩

/-! ## An index that nothing stands at yet -/

/-- A method that loads a constant and does nothing with it. -/
def Method.loading (index : PoolIndex) : Method :=
  ⟨0, 3, 4, [⟨5, .code ⟨1, 0, #[.loadConstant index false, .simple Opcode.pop,
    .simple Opcode.returnVoid], #[0, 2, 3, 4], [], []⟩⟩]⟩

/-- The first method loads the string at 7. The second one loads what is at 9, where the pool ends
before; the string that is added for the first method comes to stand there. -/
def ClassFile.danglingLoad : ClassFile where
  version := ⟨49, 0⟩
  pool := ⟨#[none, some (.utf8 "A"), some (.classRef 1), some (.utf8 "m"), some (.utf8 "()V"),
    some (.utf8 "Code"), some (.utf8 "a"), some (.string 6)], by decide⟩
  flags := 0
  thisClass := 2
  superClass := none
  interfaces := []
  fields := []
  methods := [.loading 7, .loading 9]
  attributes := []

/-- The first rule finds its key in what the second one has made. -/
def Rules.chained : Rules :=
  ⟨[⟨"b", .literal "c"⟩, ⟨"a", .literal "b"⟩], by decide, by decide⟩

theorem ClassFile.methods_rewrite_danglingLoad :
    ((danglingLoad.rewrite .chained ⟨[], []⟩ (.ofSeed 0)).outcome.map
      (·.classFile.methods)).toOption = some [.loading 9, .loading 11] := by
  decide +kernel

theorem ClassFile.outcome_rewrite_danglingLoad :
    ∃ done, (danglingLoad.rewrite .chained ⟨[], []⟩ (.ofSeed 0)).outcome = .ok done ∧
      done.classFile.methods = [.loading 9, .loading 11] := by
  have h := methods_rewrite_danglingLoad
  cases hrun : (danglingLoad.rewrite .chained ⟨[], []⟩ (.ofSeed 0)).outcome with
  | error e =>
    rw [hrun] at h
    cases h
  | ok done =>
    rw [hrun] at h
    exact ⟨done, rfl, Option.some.inj h⟩

theorem ClassFile.rewrite_substitutes_danglingLoad :
    ∃ done, (danglingLoad.rewrite .chained ⟨[], []⟩ (.ofSeed 0)).outcome = .ok done ∧
      danglingLoad.pool.Grows done.classFile.pool ∧
      done.classFile.methods.length = danglingLoad.methods.length := by
  obtain ⟨done, hdone, -⟩ := outcome_rewrite_danglingLoad
  obtain ⟨-, hgrows, hlength, -⟩ := rewrite_substitutes hdone
  exact ⟨done, hdone, hgrows, hlength⟩

/-- An instruction that loads no string of the class as it was can still be changed: the pool in
which the methods find their texts is not the one of the class. -/
theorem ClassFile.rewrite_changes_dangling_load :
    ¬ ∀ (c : ClassFile) (rules : Rules) (hierarchy : Hierarchy) (draws : Draws)
      (done : RewrittenClass), (c.rewrite rules hierarchy draws).outcome = .ok done →
        ∀ (k : Nat) (method new : Method) (code newCode : Code),
          c.methods[k]? = some method → done.classFile.methods[k]? = some new →
            method.code? = some code → new.code? = some newCode →
              ∀ (i : Label) (insn : Instruction), code.instructions[i]? = some insn →
                insn.loadedText? c.pool = none → newCode.instructions[i]? = some insn := by
  intro h
  obtain ⟨done, hdone, hmethods⟩ := outcome_rewrite_danglingLoad
  have hkept := h _ _ _ _ _ hdone 1 (.loading 9) (.loading 11) _ _ rfl (by rw [hmethods]; rfl)
    rfl rfl 0 (.loadConstant 9 false) rfl rfl
  revert hkept
  decide

end ClassText
