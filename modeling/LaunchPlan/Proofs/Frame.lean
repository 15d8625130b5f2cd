import LaunchPlan.Proofs.ArgumentView
import LaunchPlan.Proofs.KeptOutputs

/-!
# What composing leaves alone

Composing a description keeps the chain of descriptions and the scopes around the current one, only
adds declarations to the current scope, and only adds processes at the end. What included
descriptions do to their own scopes is gone when they are left.
-/

namespace LaunchPlan

open Computing

variable {σ : Type}

/-- What is declared by an argument with a default that has been resolved. -/
def ArgumentAction.declaration (a : ArgumentAction) (default : Option String) : Declaration :=
  { name := a.name, default, description := a.description, choices := a.choices }

namespace Walk

/-- A walk in the scope of a description that is included. -/
def entered (w : Walk σ) (key : String) : Walk σ :=
  { w with arguments := w.arguments.enter key [], chain := w.chain ++ [key] }

/-- A walk back in the scope of the including description. -/
def left (w : Walk σ) : Walk σ :=
  { w with arguments := w.arguments.leave, chain := w.chain.dropLast }

/-- The walk `w` comes after `v` by resolving: it differs in the session only. -/
structure Resolved (S : Session σ → Session σ → Prop) (v w : Walk σ) : Prop where
  session : S v.session w.session
  rest : w = { v with session := w.session }

/-- The walk `w` comes after `v` in the same scope. -/
structure Frame (S : Session σ → Session σ → Prop) (v w : Walk σ) : Prop where
  session : S v.session w.session
  arguments : v.arguments.Grows w.arguments
  chain : w.chain = v.chain
  processes : v.processes <+: w.processes

/-- The walk `w` comes after `v`; the current scope may have any further overrides. -/
structure Inner (S : Session σ → Session σ → Prop) (v w : Walk σ) : Prop where
  session : S v.session w.session
  enclosing : w.arguments.enclosing = v.arguments.enclosing
  chain : w.chain = v.chain
  processes : v.processes <+: w.processes

variable {S : Session σ → Session σ → Prop}

instance [IsPreorder (Session σ) S] : IsPreorder (Walk σ) (Resolved S) where
  refl _ := ⟨refl_of S _, rfl⟩
  trans _ _ _ h k := ⟨trans_of S h.session k.session, k.rest.trans (by rw [h.rest])⟩

instance [IsPreorder (Session σ) S] : IsPreorder (Walk σ) (Frame S) where
  refl _ := ⟨refl_of S _, .refl _, rfl, List.prefix_rfl⟩
  trans _ _ _ h k := ⟨trans_of S h.session k.session, trans_of ArgumentTable.Grows h.arguments
    k.arguments, k.chain.trans h.chain, h.processes.trans k.processes⟩

instance [IsPreorder (Session σ) S] : IsPreorder (Walk σ) (Inner S) where
  refl _ := ⟨refl_of S _, rfl, rfl, List.prefix_rfl⟩
  trans _ _ _ h k := ⟨trans_of S h.session k.session, k.enclosing.trans h.enclosing,
    k.chain.trans h.chain, h.processes.trans k.processes⟩

theorem Resolved.frame {v w : Walk σ} (h : Resolved S v w) : Frame S v w where
  session := h.session
  arguments := by
    rw [h.rest]
    exact .refl _
  chain := by rw [h.rest]
  processes := by
    have hp : w.processes = v.processes := by rw [h.rest]
    exact hp ▸ List.prefix_rfl

theorem Frame.inner {v w : Walk σ} (h : Frame S v w) : Inner S v w where
  session := h.session
  enclosing := by
    obtain ⟨ds, hds⟩ := h.arguments
    rw [hds]
  chain := h.chain
  processes := h.processes

/-- Whatever is done in an entered scope, leaving it gives the walk that was there before, up to
the session and further processes. -/
theorem Inner.left {v w : Walk σ} {key : String} (h : Inner S (v.entered key) w) :
    w.left = { v with session := w.session, processes := w.processes } := by
  have ha : w.arguments.leave = v.arguments := by
    simp [ArgumentTable.leave, h.enclosing, entered, ArgumentTable.enter]
  have hc : w.chain.dropLast = v.chain := by simp [h.chain, entered]
  simp [Walk.left, ha, hc]

end Walk

namespace Compose

open Walk

section Run

variable {α : Type}

theorem run_resolving (r : ArgumentTable → Resolving σ α) (w : Walk σ) :
    (resolving r).run w =
      (((r w.arguments).run w.session).1.mapError .ofResolution,
        { w with session := ((r w.arguments).run w.session).2 }) := by
  rw [resolving, ExceptT.run_mk]
  rcases (r w.arguments).run w.session with ⟨_ | _, _⟩ <;> rfl

theorem resolving_ok {r : ArgumentTable → Resolving σ α} {w v : Walk σ} {a : α}
    (h : (resolving r).run w = (.ok a, v)) :
    ∃ session, (r w.arguments).run w.session = (.ok a, session) ∧ v = { w with session } := by
  rw [run_resolving] at h
  rcases hr : (r w.arguments).run w.session with ⟨_ | b, session⟩ <;> rw [hr] at h <;> cases h
  exact ⟨session, rfl, rfl⟩

theorem resolving_error {r : ArgumentTable → Resolving σ α} {w v : Walk σ} {e : LaunchError}
    (h : (resolving r).run w = (.error e, v)) :
    ∃ fault session, (r w.arguments).run w.session = (.error fault, session) ∧
      e = .ofResolution fault ∧ v = { w with session } := by
  rw [run_resolving] at h
  rcases hr : (r w.arguments).run w.session with ⟨fault | _, session⟩ <;> rw [hr] at h <;> cases h
  exact ⟨fault, session, rfl, rfl, rfl⟩

theorem run_ofExcept (r : Except LaunchError α) (w : Walk σ) :
    (ofExcept r : Composing σ α).run w = (r, w) := by
  cases r <;> rfl

theorem run_currentTree (host : Host σ) (w : Walk σ) :
    (currentTree host).run w = (.ok (host.files w.session.machine), w) := rfl

theorem run_within (key : String) (body : Composing σ α) (w : Walk σ) :
    (within key body).run w =
      ((body.run (w.entered key)).1, (body.run (w.entered key)).2.left) := rfl

theorem run_inAction (identity : String) (body : Composing σ α) (w : Walk σ) :
    (inAction identity body).run w =
      ((body.run w).1.mapError (·.inAction identity), (body.run w).2) := by
  rw [inAction, ExceptT.run_mk]
  rcases body.run w with ⟨_ | _, _⟩ <;> rfl

end Run

variable (host : Host σ) (env : Environment) (source : Source)

/-- What composes an included description when `nesting` more may be nested. -/
def nested : (nesting : Nat) → Loaded → Composing σ Unit
  | 0 => fun loaded => failWith (.includeTooDeep loaded.key)
  | nesting + 1 => fun loaded => run host env source nesting loaded.description

theorem run_eq (nesting : Nat) (description : Description) :
    run host env source nesting description =
      runActions host env source (nested host env source nesting) description := by
  cases nesting <;> rfl

/-- Whether the conditions of an action hold. -/
def decides (action : Action) : Composing σ Bool :=
  resolving fun arguments => Condition.allHold host env arguments action.conditions

theorem declare_eq (a : ArgumentAction) :
    declare host env a = resolveText? host env a.default >>= fun default => ExceptT.mk fun w =>
      ((w.arguments.declare (a.declaration default)).1.mapError .bare,
        { w with arguments := (w.arguments.declare (a.declaration default)).2 }) := by
  refine congrArg (resolveText? host env a.default >>= ·) (funext fun default => funext fun w => ?_)
  exact run_ofExcept _ _

/-- A description is let in below a chain unless the chain has its key already. -/
def accept (chain : List String) : Except LaunchError Loaded → Except LaunchError Loaded
  | .error e => .error e
  | .ok loaded =>
    if loaded.key ∈ chain then .error (.bare (.includeCycle (chain ++ [loaded.key])))
    else .ok loaded

theorem loadInclusion_eq (i : Inclusion) :
    loadInclusion host env source i =
      resolveText host env i.locator >>= fun locator => ExceptT.mk fun w =>
        (accept w.chain (source.load (host.files w.session.machine) locator w.chain.getLast?),
          w) := by
  refine congrArg (resolveText host env i.locator >>= ·) (funext fun locator => funext fun w => ?_)
  refine (run_bind_ok (run_get w)).trans ?_
  change _ =
    (accept w.chain (source.load (host.files w.session.machine) locator w.chain.getLast?), w)
  cases source.load (host.files w.session.machine) locator w.chain.getLast? with
  | error e => rfl
  | ok loaded =>
    refine (run_bind_ok (run_pure loaded w)).trans ?_
    by_cases h : loaded.key ∈ w.chain
    · rw [accept, if_pos h, if_pos h]
      rfl
    · rw [accept, if_neg h, if_neg h]
      rfl

theorem accept_ok {chain : List String} {result : Except LaunchError Loaded} {loaded : Loaded}
    (h : accept chain result = .ok loaded) : result = .ok loaded ∧ loaded.key ∉ chain := by
  cases result with
  | error e => cases h
  | ok other =>
    by_cases hk : other.key ∈ chain
    · simp [accept, hk] at h
    · simp only [accept, hk, if_false, Except.ok.injEq] at h
      exact ⟨by rw [h], h ▸ hk⟩

/-- What an action does when its conditions hold. -/
def act (nested : Loaded → Composing σ Unit) : Action → Composing σ Unit
  | .argument a => declare host env a
  | .process p => resolveProcess host env p >>= addProcess
  | .inclusion i => loadInclusion host env source i >>= fun loaded =>
      within loaded.key (i.overrides.forM (setOverride host env) >>= fun _ => nested loaded)

theorem runAction_eq (nested : Loaded → Composing σ Unit) (action : Action) :
    runAction host env source nested action =
      decides host env action >>= fun holds =>
        if holds then act host env source nested action else pure () := by
  cases action <;> rfl

variable {host env source}

/-- What is loaded comes from the source, and is none of the descriptions being composed. -/
theorem loadInclusion_ok {i : Inclusion} {w v : Walk σ} {loaded : Loaded}
    (h : (loadInclusion host env source i).run w = (.ok loaded, v)) :
    ∃ locator, (resolveText host env i.locator).run w = (.ok locator, v) ∧
      source.load (host.files v.session.machine) locator w.chain.getLast? = .ok loaded ∧
      loaded.key ∉ w.chain := by
  rw [loadInclusion_eq] at h
  obtain ⟨locator, u, hu, hl⟩ := ok_of_bind h
  obtain ⟨session, -, rfl⟩ := resolving_ok hu
  obtain rfl : { w with session } = v := congrArg Prod.snd hl
  obtain ⟨hload, hkey⟩ := accept_ok (congrArg Prod.fst hl)
  exact ⟨locator, hu, hload, hkey⟩

section Composes

variable {τ : Type} (host₁ : Host σ) (host₂ : Host τ) {env : Environment}
  {Q : ∀ {α : Type}, Composing σ α → Composing τ α → Prop} (hQ : Composes Q)

include hQ

theorem resolveText?_composes {expression : Option (List Substitution)}
    (h : ∀ e, expression = some e → Q (resolveText host₁ env e) (resolveText host₂ env e)) :
    Q (resolveText? host₁ env expression) (resolveText? host₂ env expression) := by
  cases expression with
  | none => exact hQ.pure none
  | some expression => exact hQ.map some (h expression rfl)

/-- A process is resolved side by side with itself when its expressions are, and the files that it
sets parameters from. -/
theorem resolveProcess_composes {p : ProcessTemplate}
    (htext : ∀ e ∈ p.expressions, Q (resolveText host₁ env e) (resolveText host₂ env e))
    (hfile : ∀ node done, ∀ file ∈ p.paramFiles,
      Q (setFromFile host₁ env node done file) (setFromFile host₂ env node done file)) :
    Q (resolveProcess host₁ env p) (resolveProcess host₂ env p) := by
  simp only [ProcessTemplate.expressions, List.mem_cons, List.mem_append, Option.mem_toList,
    List.mem_map] at htext
  have hpackage := resolveText?_composes host₁ host₂ hQ fun e (he : p.package = some e) =>
    htext e (by simp [he])
  have hname := resolveText?_composes host₁ host₂ hQ fun e (he : p.name = some e) =>
    htext e (by simp [he])
  have hspace := resolveText?_composes host₁ host₂ hQ fun e (he : p.space = some e) =>
    htext e (by simp [he])
  have harguments := hQ.mapM fun e (he : e ∈ p.arguments) => htext e (by simp [he])
  have hinline : ∀ b ∈ p.parameters, Q (resolveText host₁ env b.2) (resolveText host₂ env b.2) :=
    fun b hb => htext b.2 (.inr (.inl (.inr ⟨b, hb, rfl⟩)))
  have hvariable : ∀ b ∈ p.environment, Q (resolveText host₁ env b.2) (resolveText host₂ env b.2) :=
    fun b hb => htext b.2 (.inr (.inr ⟨b, hb, rfl⟩))
  exact hQ.bind (htext _ (.inl rfl)) fun executable => hQ.bind hpackage fun package =>
    hQ.bind hname fun name => hQ.bind hspace fun space => hQ.bind harguments fun arguments =>
    hQ.bind (hQ.foldlM (fun done b hb => hQ.bind (hinline b hb) fun _ => hQ.pure _) _) fun inline =>
    hQ.bind (hQ.foldlM (fun done file hf => hfile _ done file hf) _) fun loaded =>
    hQ.bind (hQ.mapM fun b hb => hQ.bind (hvariable b hb) fun _ => hQ.pure _) fun environment =>
    hQ.pure _

end Composes

theorem failWith_keeps {α : Type} {R : Walk σ → Walk σ → Prop} [IsPreorder (Walk σ) R]
    (cause : LaunchCause) : Keeps R (failWith cause : Composing σ α) :=
  .throw _

section

variable {S : Session σ → Session σ → Prop}

theorem resolving_keeps {α : Type} {r : ArgumentTable → Resolving σ α} (h : ∀ t, Keeps S (r t)) :
    Keeps (Resolved S) (resolving r) := by
  intro w
  rw [run_resolving]
  exact ⟨h w.arguments w.session, rfl⟩

theorem within_keeps {α : Type} {key : String} {body : Composing σ α} (h : Keeps (Inner S) body) :
    Keeps (Frame S) (within key body) := by
  intro w
  have hw := h (w.entered key)
  rw [run_within]
  simp only [hw.left]
  exact ⟨hw.session, .refl _, rfl, hw.processes⟩

end

variable {S : Session σ → Session σ → Prop} [IsPreorder (Session σ) S]
  (hS : ∀ line, Keeps S (host.output env line))

include hS

theorem resolveText_keeps (expression : List Substitution) :
    Keeps (Resolved S) (resolveText host env expression) :=
  resolving_keeps fun t => Substitution.resolveList_keeps hS t expression

theorem resolveText?_keeps (expression : Option (List Substitution)) :
    Keeps (Resolved S) (resolveText? host env expression) :=
  resolveText?_composes host host Keeps.composes fun e _ => resolveText_keeps hS e

theorem decides_keeps (action : Action) : Keeps (Resolved S) (decides host env action) :=
  resolving_keeps fun t => Condition.allHold_keeps hS t action.conditions

theorem declare_keeps (a : ArgumentAction) : Keeps (Frame S) (declare host env a) := by
  rw [declare_eq]
  exact ((resolveText?_keeps hS a.default).mono fun _ _ => Resolved.frame).bind fun default w =>
    ⟨refl_of S _, w.arguments.grows_declare _, rfl, List.prefix_rfl⟩

theorem setFromFile_keeps (node : String) (done : Bindings × List String)
    (file : List Substitution) : Keeps (Resolved S) (setFromFile host env node done file) := by
  refine (resolveText_keeps hS file).bind fun path w => ?_
  rw [run_bind_ok (run_currentTree host w)]
  cases Parameters.load (host.files w.session.machine) path (some node) with
  | ok parameters => exact refl_of (Resolved S) w
  | error e => exact refl_of (Resolved S) w

theorem resolveProcess_keeps (p : ProcessTemplate) :
    Keeps (Resolved S) (resolveProcess host env p) :=
  resolveProcess_composes host host Keeps.composes (fun e _ => resolveText_keeps hS e)
    fun node done file _ => setFromFile_keeps hS node done file

theorem setOverride_keeps (binding : String × List Substitution) :
    Keeps (Inner S) (setOverride host env binding) :=
  ((resolveText_keeps hS binding.2).mono fun _ _ h => h.frame.inner).bind fun _ _ =>
    ⟨refl_of S _, rfl, rfl, List.prefix_rfl⟩

theorem loadInclusion_keeps (i : Inclusion) :
    Keeps (Resolved S) (loadInclusion host env source i) := by
  rw [loadInclusion_eq]
  exact (resolveText_keeps hS i.locator).bind fun locator w => refl_of (Resolved S) w

theorem act_keeps {nested : Loaded → Composing σ Unit}
    (hn : ∀ loaded, Keeps (Frame S) (nested loaded)) (action : Action) :
    Keeps (Frame S) (act host env source nested action) := by
  cases action with
  | argument a => exact declare_keeps hS a
  | process p =>
    exact ((resolveProcess_keeps hS p).mono fun _ _ => Resolved.frame).bind fun planned w =>
      ⟨refl_of S _, .refl _, rfl, List.prefix_append _ _⟩
  | inclusion i =>
    refine ((loadInclusion_keeps hS i).mono fun _ _ => Resolved.frame).bind fun loaded =>
      within_keeps ?_
    exact (Keeps.forM fun b _ => setOverride_keeps hS b).bind fun _ =>
      (hn loaded).mono fun _ _ => Frame.inner

theorem runAction_keeps {nested : Loaded → Composing σ Unit}
    (hn : ∀ loaded, Keeps (Frame S) (nested loaded)) (action : Action) :
    Keeps (Frame S) (runAction host env source nested action) := by
  rw [runAction_eq]
  refine ((decides_keeps hS action).mono fun _ _ => Resolved.frame).bind fun holds => ?_
  cases holds with
  | true => exact act_keeps hS hn action
  | false => exact .pure ()

theorem runActions_keeps {nested : Loaded → Composing σ Unit}
    (hn : ∀ loaded, Keeps (Frame S) (nested loaded)) (description : Description) :
    Keeps (Frame S) (runActions host env source nested description) := by
  refine Keeps.forM fun action _ w => ?_
  rw [run_inAction]
  exact runAction_keeps hS hn action w

/-- Composing a description stays in its scope, however deep descriptions are nested in it. -/
theorem run_keeps (nesting : Nat) (description : Description) :
    Keeps (Frame S) (run host env source nesting description) := by
  induction nesting generalizing description with
  | zero => exact runActions_keeps hS (fun _ => failWith_keeps _) description
  | succ nesting ih => exact runActions_keeps hS (fun loaded => ih loaded.description) description

theorem nested_keeps (nesting : Nat) (loaded : Loaded) :
    Keeps (Frame S) (nested host env source nesting loaded) := by
  cases nesting with
  | zero => exact failWith_keeps _
  | succ nesting => exact run_keeps hS nesting loaded.description

end Compose

end LaunchPlan
