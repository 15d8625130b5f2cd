import LaunchPlan.Proofs.Resolving

/-!
# Outputs that are kept

A session that keeps the outputs of commands only ever adds to them, and keeps only successes. An
expression that has been resolved is resolved again from the outputs kept, without any command.
-/

namespace LaunchPlan

open Computing

variable {σ τ : Type}

namespace Session

@[simp] theorem output?_machine (s : Session σ) (machine : σ) (line : String) :
    ({ s with machine } : Session σ).output? line = s.output? line := rfl

theorem output?_keep (s : Session σ) (line output other : String) :
    (s.keep line output).output? other =
      if line = other ∧ s.outputs.isSome then some output else s.output? other := by
  rcases s with ⟨machine, _ | outputs⟩
  · simp [keep, output?]
  · by_cases h : line = other <;> simp [keep, output?, Bindings.get?_set, h]

/-- The session `w` comes after `v`: it has the outputs of `v` and shows the same files. -/
structure Later (host : Host σ) (v w : Session σ) : Prop where
  kept : ∀ {line output}, v.output? line = some output → w.output? line = some output
  keeping : w.outputs.isSome = v.outputs.isSome
  files : host.files w.machine = host.files v.machine

instance (host : Host σ) : IsPreorder (Session σ) (Later host) where
  refl _ := ⟨id, rfl, rfl⟩
  trans _ _ _ h k := ⟨k.kept ∘ h.kept, k.keeping.trans h.keeping, k.files.trans h.files⟩

/-- The session `u` covers `w`, which keeps outputs: it has all of them and shows the same files. -/
structure Covers (host₁ : Host σ) (host₂ : Host τ) (w : Session σ) (u : Session τ) : Prop where
  keeping : w.outputs.isSome = true
  kept : ∀ {line output}, w.output? line = some output → u.output? line = some output
  files : host₁.files w.machine = host₂.files u.machine

theorem covers_of_later {host₁ : Host σ} {host₂ : Host τ} (v w : Session σ) (u : Session τ)
    (h : Later host₁ v w) (hw : Covers host₁ host₂ w u) : Covers host₁ host₂ v u :=
  ⟨h.keeping ▸ hw.keeping, hw.kept ∘ h.kept, h.files.symm.trans hw.files⟩

end Session

namespace Host

variable {host : Host σ} {env : Environment}

theorem output_of_kept {s : Session σ} {line output : String}
    (h : s.output? line = some output) : (host.output env line).run s = (.ok output, s) := by
  rw [Host.output, ExceptT.run_mk, h]

theorem output_of_ok {s : Session σ} {line output : String} {machine : σ}
    (h : s.output? line = none) (hr : host.run env line s.machine = (.ok output, machine)) :
    (host.output env line).run s = (.ok output, { s with machine }.keep line output) := by
  rw [Host.output, ExceptT.run_mk, h, hr]

theorem output_of_error {s : Session σ} {line : String} {e : SubstitutionError} {machine : σ}
    (h : s.output? line = none) (hr : host.run env line s.machine = (.error e, machine)) :
    (host.output env line).run s = (.error e, { s with machine }) := by
  rw [Host.output, ExceptT.run_mk, h, hr]

/-- Asking for an output loses no other one. -/
theorem output_later (hfiles : host.KeepsFiles env) (line : String) :
    Keeps (Session.Later host) (host.output env line) := by
  intro s
  cases hk : s.output? line with
  | some output =>
    rw [output_of_kept hk]
    exact refl_of (Session.Later host) s
  | none =>
    have hf := hfiles line s.machine
    rcases hr : host.run env line s.machine with ⟨e | output, machine⟩ <;> rw [hr] at hf
    · rw [output_of_error hk hr]
      exact ⟨id, rfl, hf⟩
    · rw [output_of_ok hk hr]
      refine ⟨fun {other o} ho => ?_, by simp [Session.keep], hf⟩
      have hne : line ≠ other := by
        rintro rfl
        simp [hk] at ho
      simpa [Session.output?_keep, hne] using ho

/-- An output that has been asked for is kept. -/
theorem output_kept {s t : Session σ} {line output : String}
    (h : (host.output env line).run s = (.ok output, t)) (ht : t.outputs.isSome = true) :
    t.output? line = some output := by
  cases hk : s.output? line with
  | some o =>
    rw [output_of_kept hk] at h
    cases h
    exact hk
  | none =>
    rcases hr : host.run env line s.machine with ⟨e | o, machine⟩
    · rw [output_of_error hk hr] at h
      cases h
    · rw [output_of_ok hk hr] at h
      cases h
      have hs : s.outputs.isSome = true := by simpa [Session.keep] using ht
      simp [Session.output?_keep, hs]

end Host

/-- Where asking for outputs keeps a preorder, all of a computation does. -/
theorem HostSimulation.diagonal {host : Host σ} {env : Environment}
    {R : Session σ → Session σ → Prop} [IsPreorder (Session σ) R]
    (h : ∀ line, Keeps R (host.output env line)) (s : Session σ) :
    HostSimulation host host env fun v w => v = w ∧ R s v where
  files := by
    rintro v _ ⟨rfl, -⟩
    rfl
  output line := Keeps.iff_simulates.1 (h line) s

section Keeps

variable {host : Host σ} {env : Environment} {R : Session σ → Session σ → Prop}
  [IsPreorder (Session σ) R]

theorem Substitution.resolve_keeps (h : ∀ line, Keeps R (host.output env line))
    (arguments : ArgumentTable) (e : Substitution) : Keeps R (resolve host env arguments e) :=
  Keeps.iff_simulates.2 fun s => resolve_simulates (.diagonal h s) e fun _ _ => rfl

theorem Substitution.resolveList_keeps (h : ∀ line, Keeps R (host.output env line))
    (arguments : ArgumentTable) (parts : List Substitution) :
    Keeps R (resolveList host env arguments parts) :=
  Keeps.iff_simulates.2 fun s => resolveList_simulates (.diagonal h s) parts fun _ _ => rfl

theorem Substitution.resolveEach_keeps (h : ∀ line, Keeps R (host.output env line))
    (arguments : ArgumentTable) (parts : List Substitution) :
    Keeps R (resolveEach host env arguments parts) :=
  Keeps.iff_simulates.2 fun s => resolveEach_simulates_of fun e _ =>
    resolve_simulates (.diagonal h s) e fun _ _ => rfl

theorem Substitution.resolvePackage_keeps (h : ∀ line, Keeps R (host.output env line))
    (package : String) : Keeps R (resolvePackage host env package) :=
  Keeps.iff_simulates.2 fun s => resolvePackage_simulates (.diagonal h s) package

theorem Condition.allHold_keeps (h : ∀ line, Keeps R (host.output env line))
    (arguments : ArgumentTable) (cs : List Condition) :
    Keeps R (allHold host env arguments cs) :=
  Keeps.iff_simulates.2 fun s => allHold_simulates (.diagonal h s) cs fun _ _ _ _ => rfl

end Keeps

namespace Substitution

variable {host₁ : Host σ} {host₂ : Host τ} {env : Environment} {t₁ t₂ : ArgumentTable}

theorem output_replays (line : String) :
    Replays (Session.Covers host₁ host₂) (host₁.output env line) (host₂.output env line) :=
  fun _ _ _ _ h hu => Host.output_of_kept (hu.kept (Host.output_kept h hu.keeping))

theorem resolveArgument_replays {name : String}
    (ht : ∀ {x value}, t₁.lookup x = some value → t₂.lookup x = some value) :
    Replays (Session.Covers host₁ host₂) (resolveArgument t₁ name) (resolveArgument t₂ name) := by
  unfold resolveArgument
  cases h : t₁.lookup name with
  | none => exact .of_throw _ _
  | some value =>
    rw [ht h]
    exact .pure value

theorem resolvePackage_replays (package : String) :
    Replays (Session.Covers host₁ host₂) (resolvePackage host₁ env package)
      (resolvePackage host₂ env package) := by
  intro s a w u h hu
  rw [resolvePackage, run_bind_ok (run_get s)] at h
  rw [resolvePackage, run_bind_ok (run_get u)]
  dsimp only at h ⊢
  cases hs : Package.share? (host₁.files s.machine).exists? env package with
  | none =>
    rw [hs] at h
    cases h
  | some path =>
    rw [hs] at h
    cases h
    rw [← hu.files, hs]
    rfl

variable (hfiles : host₁.KeepsFiles env)

include hfiles

theorem resolveList_replays_of {parts : List Substitution}
    (h : ∀ part ∈ parts, Replays (Session.Covers host₁ host₂) (resolve host₁ env t₁ part)
      (resolve host₂ env t₂ part)) :
    Replays (Session.Covers host₁ host₂) (resolveList host₁ env t₁ parts)
      (resolveList host₂ env t₂ parts) := by
  induction parts with
  | nil => exact .pure ""
  | cons part parts ih =>
    have hk := Host.output_later hfiles
    refine .bind Session.covers_of_later (h part (by simp))
      (fun first => (resolveList_keeps hk t₁ parts).bind fun rest => .pure _) fun first => ?_
    exact .bind Session.covers_of_later (ih fun p hp => h p (by simp [hp])) (fun rest => .pure _)
      fun rest => .pure (first ++ rest)

theorem resolveEach_replays_of {parts : List Substitution}
    (h : ∀ part ∈ parts, Replays (Session.Covers host₁ host₂) (resolve host₁ env t₁ part)
      (resolve host₂ env t₂ part)) :
    Replays (Session.Covers host₁ host₂) (resolveEach host₁ env t₁ parts)
      (resolveEach host₂ env t₂ parts) := by
  induction parts with
  | nil => exact .pure []
  | cons part parts ih =>
    have hk := Host.output_later hfiles
    refine .bind Session.covers_of_later (h part (by simp))
      (fun first => (resolveEach_keeps hk t₁ parts).bind fun rest => .pure _) fun first => ?_
    exact .bind Session.covers_of_later (ih fun p hp => h p (by simp [hp])) (fun rest => .pure _)
      fun rest => .pure (first :: rest)

/-- An expression that has been resolved has the same text again, from every session that has the
outputs kept and with every table that has the values used. -/
theorem resolve_replays (ht : ∀ {x value}, t₁.lookup x = some value → t₂.lookup x = some value)
    (e : Substitution) :
    Replays (Session.Covers host₁ host₂) (resolve host₁ env t₁ e) (resolve host₂ env t₂ e) := by
  have hk := Host.output_later hfiles
  induction e using inductionOn with
  | text s => exact .pure s
  | env name default ih =>
    rw [resolve, resolve]
    cases env.get? name with
    | some value => exact .pure value
    | none =>
      cases default with
      | none => exact .of_throw _ _
      | some parts => exact resolveList_replays_of hfiles (ih parts rfl)
  | argument name => exact resolveArgument_replays ht
  | command parts ih =>
    exact .bind Session.covers_of_later (resolveList_replays_of hfiles ih) hk output_replays
  | concat parts ih => exact resolveList_replays_of hfiles ih
  | pathJoin parts ih =>
    exact .bind Session.covers_of_later (resolveEach_replays_of hfiles ih) (fun _ => .pure _)
      fun texts => .pure (Path.joinSegments texts)
  | findPackageShare parts ih =>
    exact .bind Session.covers_of_later (resolveList_replays_of hfiles ih)
      (resolvePackage_keeps hk) resolvePackage_replays
  | select condition cases default ihc ihs ihd =>
    rw [resolve_select, resolve_select]
    refine .bind Session.covers_of_later ihc (fun value => ?_) fun value => ?_
    · split
      · exact resolve_keeps hk t₁ _
      · exact .throw _
    · split
      · next chosen hchosen =>
        rcases Selector.mem_of_choose hchosen with ⟨c, hc, rfl⟩ | hd
        · exact ihs c hc
        · exact ihd chosen hd
      · exact .of_throw _ _

theorem resolveList_replays
    (ht : ∀ {x value}, t₁.lookup x = some value → t₂.lookup x = some value)
    (parts : List Substitution) :
    Replays (Session.Covers host₁ host₂) (resolveList host₁ env t₁ parts)
      (resolveList host₂ env t₂ parts) :=
  resolveList_replays_of hfiles fun part _ => resolve_replays hfiles ht part

end Substitution

theorem Condition.truth_replays {host₁ : Host σ} {host₂ : Host τ} {env : Environment}
    {t₁ t₂ : ArgumentTable} (hfiles : host₁.KeepsFiles env)
    (ht : ∀ {x value}, t₁.lookup x = some value → t₂.lookup x = some value)
    (expression : List Substitution) :
    Replays (Session.Covers host₁ host₂) (truth host₁ env t₁ expression)
      (truth host₂ env t₂ expression) := by
  refine .bind Session.covers_of_later (Substitution.resolveList_replays hfiles ht expression)
    (fun text => ?_) fun text => ?_
  all_goals cases truth? text with
    | some b => exact .pure b
    | none => first | exact .throw _ | exact .of_throw _ _

end LaunchPlan
