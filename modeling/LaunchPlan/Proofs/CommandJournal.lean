import LaunchPlan.Proofs.Moments
import LaunchPlan.Proofs.Simulation

/-!
# The journal of commands

A host can write down every command that is asked for, whether it was run and what the answer was.
Composing with this journal is composing without it. In the journal a command that has succeeded is
never run again, and has the same output ever after.
-/

namespace LaunchPlan

open Computing

variable {σ : Type}

/-- A command that is asked for. -/
structure Question where
  line : String
  /-- The command is run, as no output of it is kept. -/
  ran : Bool
  answer : Except SubstitutionError String

/-- The host that asks another one, with the outputs kept there, and writes down every question. -/
def Host.journaling (host : Host σ) : Host (Session σ × List Question) where
  run env line machine :=
    let (answer, session) := (host.output env line).run machine.1
    (answer, session, machine.2 ++ [{ line, ran := (machine.1.output? line).isNone, answer }])
  files machine := host.files machine.1.machine

/-- A session in which every question reaches the journal. -/
def Session.journaled (s : Session σ) : Session (Session σ × List Question) :=
  { machine := (s, []) }

/-- The journal of a session: only successes are kept, and they are final. -/
structure Session.Accounts (s : Session σ) (journal : List Question) : Prop where
  keeping : s.outputs.isSome = true
  /-- The outputs kept are those of the questions that have succeeded. -/
  kept : ∀ line output,
    s.output? line = some output ↔ ∃ q ∈ journal, q.line = line ∧ q.answer = .ok output
  /-- After a success the command is not run, and the answer is the same. -/
  once : journal.Pairwise fun q r => ∀ output, q.answer = .ok output → r.line = q.line →
    r.ran = false ∧ r.answer = .ok output

namespace Session.Accounts

theorem fresh (machine : σ) : (Session.fresh machine).Accounts [] where
  keeping := rfl
  kept line output := by simp [Session.fresh, Session.output?]
  once := .nil

variable {host : Host σ} {env : Environment} {s : Session σ} {journal : List Question}

theorem append (h : s.Accounts journal) {s' : Session σ} {q : Question}
    (hkeeping : s'.outputs.isSome = true)
    (hkept : ∀ line output, s'.output? line = some output ↔
      s.output? line = some output ∨ q.line = line ∧ q.answer = .ok output)
    (honce : ∀ output, s.output? q.line = some output → q.ran = false ∧ q.answer = .ok output) :
    s'.Accounts (journal ++ [q]) where
  keeping := hkeeping
  kept line output := by
    rw [hkept, h.kept]
    simp only [List.mem_append, List.mem_singleton, or_and_right, exists_or, exists_eq_left]
  once := by
    rw [List.pairwise_append]
    refine ⟨h.once, List.pairwise_singleton _ _, fun p hp r hr output hanswer hline => ?_⟩
    obtain rfl := List.mem_singleton.1 hr
    exact honce output ((h.kept _ _).2 ⟨p, hp, hline.symm, hanswer⟩)

/-- A further question is accounted for. -/
theorem ask (h : s.Accounts journal) (line : String) :
    ((host.output env line).run s).2.Accounts (journal ++
      [{ line, ran := (s.output? line).isNone, answer := ((host.output env line).run s).1 }]) := by
  cases hk : s.output? line with
  | some output =>
    rw [Host.output_of_kept hk]
    refine h.append h.keeping (fun other o => ⟨.inl, ?_⟩) fun o ho => ?_
    · rintro (ho | ⟨rfl, ho⟩)
      · exact ho
      · cases ho
        exact hk
    · obtain rfl : output = o := Option.some.inj (hk.symm.trans ho)
      exact ⟨rfl, rfl⟩
  | none =>
    have hnone : ∀ o, s.output? line ≠ some o := fun o ho => by simp [hk] at ho
    rcases hr : host.run env line s.machine with ⟨e | output, machine⟩
    · rw [Host.output_of_error hk hr]
      refine h.append h.keeping (fun other o => ⟨.inl, ?_⟩) fun o ho => (hnone o ho).elim
      rintro (ho | ⟨-, ho⟩)
      · exact ho
      · cases ho
    · rw [Host.output_of_ok hk hr]
      refine h.append (by simp [Session.keep, h.keeping]) (fun other o => ?_)
        fun o ho => (hnone o ho).elim
      rw [Session.output?_keep]
      by_cases heq : line = other
      · subst heq
        simp [hk, h.keeping]
      · simp [heq]

end Session.Accounts

/-- What the journal is told is what the other host answers. -/
theorem Host.journaling_output (host : Host σ) (env : Environment) (line : String)
    (machine : Session σ × List Question) :
    (host.journaling.output env line).run { machine } =
      let (answer, session) := (host.output env line).run machine.1
      (answer, { machine := (session, machine.2 ++
        [{ line, ran := (machine.1.output? line).isNone, answer }]) }) := by
  rcases hr : (host.output env line).run machine.1 with ⟨e | output, session⟩
  · exact output_of_error rfl (by simp only [journaling, hr])
  · exact output_of_ok rfl (by simp only [journaling, hr])

/-- All that is asked in `w` is in the journal of `v`. -/
structure Session.Journals (v : Session (Session σ × List Question)) (w : Session σ) : Prop where
  outputs : v.outputs = none
  session : v.machine.1 = w
  accounts : w.Accounts v.machine.2

theorem Session.journals_fresh (machine : σ) : (fresh machine).journaled.Journals (fresh machine) :=
  ⟨rfl, rfl, .fresh machine⟩

theorem Host.journaling_simulates (host : Host σ) (env : Environment) :
    HostSimulation host.journaling host env Session.Journals where
  files h := congrArg (fun s : Session σ => host.files s.machine) h.session
  output line := by
    rintro ⟨machine, _⟩ w ⟨rfl, rfl, h⟩
    rw [journaling_output]
    exact agree_never.2 ⟨rfl, rfl, rfl, h.ask line⟩

/-- What has been resolved with outputs kept is resolved again without a command, on any host that
shows the same files. In a launch that is composed, a command that has succeeded is not run again,
all its occurrences have the same output, and no failure is kept. -/
theorem outputs_repeatable {host : Host σ} {env : Environment} (hfiles : host.KeepsFiles env) :
    (∀ (arguments : ArgumentTable) (parts : List Substitution) (s s' : Session σ) (text : String),
      s.outputs.isSome = true →
      (Substitution.resolveList host env arguments parts).run s = (.ok text, s') →
        (∀ line output, s.output? line = some output → s'.output? line = some output) ∧
        ∀ {τ : Type} (other : Host τ) (u : Session τ),
          (∀ line output, s'.output? line = some output → u.output? line = some output) →
          host.files s'.machine = other.files u.machine →
            (Substitution.resolveList other env arguments parts).run u = (.ok text, u)) ∧
    ∀ (source : Source) (entry : Entry) (overrides : Bindings) (machine : σ),
      let composed := Composition.ofEntry host env source entry overrides (.fresh machine)
      let journaled := Composition.ofEntry host.journaling env source entry overrides
        (.journaled (.fresh machine))
      journaled.1 = composed.1 ∧ journaled.2.machine.1 = composed.2 ∧
        composed.2.Accounts journaled.2.machine.2 := by
  constructor
  · intro arguments parts s s' text hs h
    have hlater := (Substitution.resolveList_keeps (Host.output_later hfiles) arguments parts).of_run h
    refine ⟨fun line output => hlater.kept, fun other u hkept hu => ?_⟩
    exact Substitution.resolveList_replays hfiles id parts s text s' u h
      ⟨hlater.keeping.trans hs, hkept _ _, hu⟩
  · intro source entry overrides machine
    obtain ⟨hresult, hjournals⟩ := Composition.ofEntry_simulates (host.journaling_simulates env)
      source entry overrides (Session.journals_fresh machine)
    exact ⟨hresult, hjournals.session, hjournals.accounts⟩

/-- A machine on which the first command prints something, and every other one fails. -/
def Host.once : Host Nat where
  run _ line runs := (if runs = 0 then .ok "up" else .error (.packageNotFound line), runs + 1)
  files _ := {}

theorem once_repeatable :
    (Substitution.resolveList Host.once {} (.ofOverrides [])
      [.command [.text "uptime"], .text " ", .command [.text "uptime"]]).run
        { machine := 1, outputs := some [("uptime", "up")] } =
      (.ok "up up", { machine := 1, outputs := some [("uptime", "up")] }) ∧
    ∃ journal, (Composition.ofEntry Host.once {} (.memory []) (.described [.argument
      { name := "load", default := some [.command [.text "uptime"], .command [.text "uptime"]] }]) []
        (.fresh 0)).2.Accounts journal := by
  have hfiles : Host.once.KeepsFiles {} := fun _ _ => rfl
  obtain ⟨hresolve, hcompose⟩ := outputs_repeatable hfiles
  refine ⟨?_, _, (hcompose _ _ _ _).2.2⟩
  have hfirst : (Substitution.resolveList Host.once {} (.ofOverrides [])
      [.command [.text "uptime"], .text " ", .command [.text "uptime"]]).run (.fresh 0) =
        (.ok "up up", { machine := 1, outputs := some [("uptime", "up")] }) := rfl
  exact (hresolve _ _ _ _ _ rfl hfirst).2 Host.once _ (fun _ _ => id) rfl

end LaunchPlan
