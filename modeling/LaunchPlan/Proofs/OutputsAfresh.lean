import LaunchPlan.Proofs.CommandJournal
import LaunchPlan.Proofs.InclusionAlone

/-!
# Running every command afresh

Keeping the outputs of commands makes no difference where every command has one outcome. A session
that keeps none runs a command each time that it is asked for, and gets the answers that the other
session has kept. The two resolve and compose alike, and ask the same questions in the same order.
-/

namespace LaunchPlan

open Computing

variable {σ : Type}

/-- A question with its answer, whether or not the command was run for it. -/
def Question.asked (q : Question) : String × Except SubstitutionError String :=
  (q.line, q.answer)

theorem Session.faithful_of_none {outcome : String → Except SubstitutionError String}
    {s : Session σ} (h : s.outputs = none) : s.Faithful outcome := by
  intro line output hkept
  simp [Session.output?, h] at hkept

/-- Where no outputs are kept, none is found, and none is kept afterwards. -/
theorem Host.output_afresh (host : Host σ) (env : Environment) (line : String) {s : Session σ}
    (h : s.outputs = none) :
    s.output? line = none ∧ ((host.output env line).run s).2.outputs = none := by
  have hnone : s.output? line = none := by simp [Session.output?, h]
  refine ⟨hnone, ?_⟩
  rcases hr : host.run env line s.machine with ⟨e | output, machine⟩
  · rw [output_of_error hnone hr]
    exact h
  · rw [output_of_ok hnone hr]
    simp [Session.keep, h]

/-- Writing a journal changes nothing that is journaled. -/
theorem Host.journaling_same (host : Host σ) (env : Environment) :
    HostSimulation host.journaling host env fun v w => v.outputs = none ∧ v.machine.1 = w where
  files h := congrArg (fun s : Session σ => host.files s.machine) h.2
  output line := by
    rintro ⟨machine, _⟩ _ ⟨rfl, rfl⟩
    rw [journaling_output]
    exact agree_never.2 ⟨rfl, rfl, rfl⟩

/-- Two journals side by side, the second of a session that keeps no outputs: they have the same
questions with the same answers, and in the second every command was run. -/
structure Session.Afresh (host : Host σ) (outcome : String → Except SubstitutionError String)
    (v w : Session (Session σ × List Question)) : Prop where
  outputs₁ : v.outputs = none
  outputs₂ : w.outputs = none
  alike : Alike host outcome v.machine.1 w.machine.1
  afresh : w.machine.1.outputs = none
  asked : v.machine.2.map Question.asked = w.machine.2.map Question.asked
  ran : ∀ q ∈ w.machine.2, q.ran = true

theorem Host.Steady.afresh {host : Host σ} {env : Environment}
    {outcome : String → Except SubstitutionError String} (h : host.Steady env outcome) :
    HostSimulation host.journaling host.journaling env (Session.Afresh host outcome) where
  files hvw := hvw.alike.files
  output line := by
    rintro ⟨⟨v, asked₁⟩, _⟩ ⟨⟨w, asked₂⟩, _⟩ ⟨rfl, rfl, halike, hafresh, hasked, hran⟩
    obtain ⟨hanswer, halike'⟩ := agree_never.1 (h.alike.output line v w halike)
    obtain ⟨hnone, hafresh'⟩ := host.output_afresh env line (show w.outputs = none from hafresh)
    rw [journaling_output, journaling_output]
    dsimp only at hasked hran ⊢
    generalize (host.output env line).run v = x, (host.output env line).run w = y
      at hanswer halike' hafresh' ⊢
    obtain ⟨answer, v'⟩ := x
    obtain ⟨_, w'⟩ := y
    obtain rfl : answer = _ := hanswer
    refine agree_never.2 ⟨rfl, rfl, rfl, halike', hafresh', ?_, ?_⟩
    · rw [List.map_append, List.map_append, hasked]
      rfl
    · intro q hq
      rcases List.mem_append.1 hq with hq | hq
      · exact hran q hq
      · obtain rfl := List.mem_singleton.1 hq
        simp only [hnone, Option.isNone_none]

namespace Composition

/-- Composing with a journal is composing. -/
theorem ofEntry_journaling (host : Host σ) (env : Environment) (source : Source) (entry : Entry)
    (overrides : Bindings) (s : Session σ) :
    (ofEntry host.journaling env source entry overrides s.journaled).1 =
      (ofEntry host env source entry overrides s).1 :=
  (ofEntry_simulates (host.journaling_same env) source entry overrides ⟨rfl, rfl⟩).1

/-- Where every command has one outcome, a launch that is composed with outputs kept is the one that
is composed with every command run afresh, or fails with the same failure at the same action. Both
ask for the same commands in the same order, and have the same answers; the second runs a command
each time that it is asked for. -/
theorem kept_eq_afresh {host : Host σ} {env : Environment}
    {outcome : String → Except SubstitutionError String} (hsteady : host.Steady env outcome)
    (source : Source) (entry : Entry) (overrides : Bindings) {kept afresh : Session σ}
    (hkept : kept.Faithful outcome) (hafresh : afresh.outputs = none)
    (hfiles : host.files kept.machine = host.files afresh.machine) :
    (ofEntry host env source entry overrides kept).1 =
        (ofEntry host env source entry overrides afresh).1 ∧
      let journal := fun s : Session σ =>
        (ofEntry host.journaling env source entry overrides s.journaled).2.machine.2
      (journal kept).map Question.asked = (journal afresh).map Question.asked ∧
        ∀ q ∈ journal afresh, q.ran = true := by
  have halike : Session.Alike host outcome kept afresh :=
    ⟨hkept, Session.faithful_of_none hafresh, hfiles⟩
  have hstart : Session.Afresh host outcome kept.journaled afresh.journaled :=
    ⟨rfl, rfl, halike, hafresh, rfl, fun q hq => absurd hq (by simp [Session.journaled])⟩
  obtain ⟨hresult, hend⟩ := ofEntry_simulates hsteady.afresh source entry overrides hstart
  rw [ofEntry_journaling, ofEntry_journaling] at hresult
  exact ⟨hresult, hend.asked, hend.ran⟩

/-- A command inside a command, and the inner one again as the name of a process. -/
def probeDescription : Description :=
  [.argument { name := "port", default := some [.command [.text "open ", .command [.text "find"]]] },
    .process { executable := [.command [.text "find"]], arguments := [[.argument "port"]],
               conditions := [.ifFalse [.command [.text "false"]]] }]

/-- A machine on which every command prints its own line, and which counts the commands. -/
def probeHost : Host Nat where
  run _ line runs := (.ok line, runs + 1)
  files _ := {}

theorem probe_eq_afresh :
    (ofEntry probeHost {} (.memory []) (.described probeDescription) [] (.fresh 0)).1 =
        (ofEntry probeHost {} (.memory []) (.described probeDescription) [] { machine := 7 }).1 ∧
      (ofEntry probeHost {} (.memory []) (.described probeDescription) [] (.fresh 0)).2.machine = 3 ∧
      (ofEntry probeHost {} (.memory []) (.described probeDescription) []
        { machine := 7 }).2.machine = 7 + 4 := by
  have hsteady : probeHost.Steady {} .ok := ⟨fun _ _ => rfl, fun _ _ => rfl⟩
  obtain ⟨hresult, -⟩ := kept_eq_afresh hsteady (.memory []) (.described probeDescription) []
    (Session.fresh_faithful 0) (show ({ machine := 7 } : Session Nat).outputs = none from rfl) rfl
  exact ⟨hresult, by decide +kernel, by decide +kernel⟩

end Composition

end LaunchPlan
