import LaunchPlan.Compose
import LaunchPlan.Proofs.Computation
import LaunchPlan.Proofs.LastValues

/-!
# Parameters of a process

The parameters of a process come from its description and then from its parameter files, in the order
in which these are given. A name stands where it first comes, and has the value that comes last,
whichever of the two that is in.
-/

namespace LaunchPlan

open Computing

/-- A process as it is before its parameters and variables are looked at. -/
def ProcessTemplate.bare (p : ProcessTemplate) : ProcessTemplate :=
  { p with parameters := [], paramFiles := [], environment := [] }

/-- Folding over what is computed for each member is computing it for all members first. -/
theorem foldlM_eq_mapM {m : Type → Type} [Monad m] [LawfulMonad m] {α β γ : Type} {f : α → m β}
    {step : γ → β → γ} {g : γ → α → m γ} (hg : ∀ c a, g c a = f a >>= fun b => pure (step c b))
    (l : List α) (c : γ) : l.foldlM g c = l.mapM f >>= fun bs => pure (bs.foldl step c) := by
  induction l generalizing c with
  | nil => simp
  | cons a l ih =>
    calc (a :: l).foldlM g c
        = g c a >>= fun c' => l.foldlM g c' := List.foldlM_cons
      _ = f a >>= fun b => l.foldlM g (step c b) := by rw [hg, bind_assoc]; simp only [pure_bind]
      _ = f a >>= fun b => l.mapM f >>= fun bs => pure (bs.foldl step (step c b)) := by
        simp only [ih]
      _ = (a :: l).mapM f >>= fun bs => pure (bs.foldl step c) := by
        rw [List.mapM_cons]
        simp only [bind_assoc, pure_bind, List.foldl_cons]

namespace Compose

variable {σ : Type} (host : Host σ) (env : Environment)

/-- A parameter given inline, with its value. -/
def inlineValue (parameter : String × List Substitution) : Composing σ (String × String) :=
  return (parameter.1, ← resolveText host env parameter.2)

/-- The path of a parameter file, and what the file holds for a node. -/
def readParameters (node : String) (file : List Substitution) : Composing σ (String × Bindings) := do
  let path ← resolveText host env file
  match Parameters.load (← currentTree host) path (some node) with
  | .ok parameters => return (path, parameters)
  | .error e => failWith (.parse path e)

theorem setInline_eq (done : Bindings) (parameter : String × List Substitution) :
    setInline host env done parameter =
      inlineValue host env parameter >>= fun pair => pure (done.set pair.1 pair.2) := by
  rw [setInline, inlineValue, bind_assoc]
  simp only [pure_bind]

theorem setFromFile_eq (node : String) (done : Bindings × List String) (file : List Substitution) :
    setFromFile host env node done file = readParameters host env node file >>= fun found =>
      pure (done.1.setAll found.2, done.2 ++ [found.1]) := by
  rw [setFromFile, readParameters, bind_assoc]
  refine congrArg (resolveText host env file >>= ·) (funext fun path => ?_)
  rw [bind_assoc]
  refine congrArg (currentTree host >>= ·) (funext fun tree => ?_)
  cases Parameters.load tree path (some node) with
  | ok parameters =>
    rw [pure_bind]
    rfl
  | error e => rfl

theorem foldl_sources (files : List (String × Bindings)) (pairs : List (String × String))
    (paths : List String) :
    files.foldl (fun (done : Bindings × List String) found =>
        (done.1.setAll found.2, done.2 ++ [found.1])) (.ofPairs pairs, paths) =
      (.ofPairs (pairs ++ files.flatMap Prod.snd), paths ++ files.map Prod.fst) := by
  induction files generalizing pairs paths with
  | nil => simp
  | cons found files ih =>
    have hset : (Bindings.ofPairs pairs).setAll found.2 = .ofPairs (pairs ++ found.2) :=
      (Bindings.setAll_append [] pairs found.2).symm
    rw [List.foldl_cons, hset, ih]
    simp

/-- A process is resolved without its parameters first. Then its inline parameters are resolved, its
parameter files read, and all that they give is collected. -/
theorem resolveProcess_eq (p : ProcessTemplate) :
    resolveProcess host env p = (do
      let bare ← resolveProcess host env p.bare
      let inline ← p.parameters.mapM (inlineValue host env)
      let files ← p.paramFiles.mapM (readParameters host env bare.displayName)
      let environment ← p.environment.mapM (setVariable host env)
      return { bare with
        parameters := .ofPairs (inline ++ files.flatMap Prod.snd)
        paramFiles := files.map Prod.fst
        environment }) := by
  have hinline : p.parameters.foldlM (setInline host env) [] =
      p.parameters.mapM (inlineValue host env) >>= fun inline => pure (.ofPairs inline) :=
    foldlM_eq_mapM (setInline_eq host env) p.parameters []
  have hfiles : ∀ node inline,
      p.paramFiles.foldlM (setFromFile host env node) (.ofPairs inline, []) =
        p.paramFiles.mapM (readParameters host env node) >>= fun files =>
          pure (.ofPairs (inline ++ files.flatMap Prod.snd), files.map Prod.fst) := by
    intro node inline
    simpa only [foldl_sources, List.nil_append] using
      foldlM_eq_mapM (setFromFile_eq host env node) p.paramFiles (.ofPairs inline, [])
  simp only [resolveProcess, ProcessTemplate.bare, PlannedProcess.displayName, List.mapM_nil,
    List.foldlM_nil, bind_assoc, pure_bind, hinline, hfiles]

/-- The parameters of a process that is resolved collect the pairs given inline and then those that
its files hold for it, file by file: each name once, where it first comes, with the value that comes
last. A file is read for the name of the process, or for its executable if it has no name, and the
paths of the files are kept in order. -/
theorem parameters_merged {p : ProcessTemplate} {w v : Walk σ} {planned : PlannedProcess}
    (h : (resolveProcess host env p).run w = (.ok planned, v)) :
    ∃ bare u inline u₁ files u₂,
      (resolveProcess host env p.bare).run w = (.ok bare, u) ∧
      (p.parameters.mapM (inlineValue host env)).run u = (.ok inline, u₁) ∧
      (p.paramFiles.mapM (readParameters host env (planned.name.getD planned.executable))).run u₁ =
        (.ok files, u₂) ∧
      Bindings.MergeOf (inline ++ files.flatMap Prod.snd) planned.parameters ∧
      planned.paramFiles = files.map Prod.fst := by
  rw [resolveProcess_eq] at h
  obtain ⟨bare, u, hbare, h⟩ := ok_of_bind h
  obtain ⟨inline, u₁, hinline, h⟩ := ok_of_bind h
  obtain ⟨files, u₂, hfiles, h⟩ := ok_of_bind h
  obtain ⟨environment, u₃, -, h⟩ := ok_of_bind h
  cases h
  exact ⟨bare, u, inline, u₁, files, u₂, hbare, hinline, hfiles, Bindings.mergeOf_ofPairs _, rfl⟩

/-- A machine with these files, on which every command prints its own line. -/
def filed (tree : Tree) : Host Unit where
  run _ line machine := (.ok line, machine)
  files _ := tree

def gripperFiles : Tree where
  nodes := [
    (["base.yaml"], .file "/**: \x7bros__parameters: \x7brate: 10, gain: 2\x7d\x7d".toUTF8 1),
    (["site.yaml"], .file "gripper: \x7bros__parameters: \x7bframe: map, rate: 30\x7d\x7d".toUTF8 1)]

/-- A gripper that is given its frame inline and in the second file, and its rate in both files. -/
def gripper : ProcessTemplate where
  executable := [.text "gripper"]
  parameters := [("frame", [.text "base"]), ("mode", [.argument "mode"])]
  paramFiles := [[.text "base.yaml"], [.text "site.yaml"]]

def gripperWalk : Walk Unit where
  arguments := .ofOverrides [("mode", "sim")]
  session := { machine := (), outputs := some [] }

theorem gripper_merged :
    ∃ planned v, (resolveProcess (filed gripperFiles) {} gripper).run gripperWalk = (.ok planned, v) ∧
      planned.parameters = [("frame", "map"), ("mode", "sim"), ("rate", "30"), ("gain", "2")] ∧
      ∃ inline u files u', (gripper.paramFiles.mapM
          (readParameters (filed gripperFiles) {} (planned.name.getD planned.executable))).run u =
            (.ok files, u') ∧
        Bindings.MergeOf (inline ++ files.flatMap Prod.snd) planned.parameters ∧
        planned.paramFiles = files.map Prod.fst := by
  have hparameters : ((resolveProcess (filed gripperFiles) {} gripper).run gripperWalk).1.toOption.map
      PlannedProcess.parameters =
        some [("frame", "map"), ("mode", "sim"), ("rate", "30"), ("gain", "2")] := by
    decide +kernel
  rcases hrun : (resolveProcess (filed gripperFiles) {} gripper).run gripperWalk with ⟨e | planned, v⟩ <;>
    rw [hrun] at hparameters
  · cases hparameters
  · obtain ⟨-, -, inline, u, files, u', -, -, hfiles, hmerge, hpaths⟩ :=
      parameters_merged (filed gripperFiles) {} hrun
    exact ⟨planned, v, rfl, Option.some.inj hparameters, inline, u, files, u', hfiles, hmerge, hpaths⟩

end Compose

end LaunchPlan
