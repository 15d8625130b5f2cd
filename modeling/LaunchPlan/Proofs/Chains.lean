import LaunchPlan.Proofs.Keys
import LaunchPlan.Proofs.Moments
import Mathlib.Data.List.Nodup

/-!
# The chain of descriptions

The chain only changes where a description is let in, whose key it does not have yet. So no key
comes twice on it, it begins with the key of the entry, and all of its keys are keys of the source.
-/

namespace LaunchPlan

open Computing

variable {σ : Type}

/-- The failure of a description that includes itself. -/
def Source.IsCycle (cause : LaunchCause) : Prop := ∃ chain, cause = .includeCycle chain

namespace Compose

open Walk

variable (host : Host σ) (env : Environment) (source : Source)

/-- The conditions of an inclusion hold, and the source answers its locator. -/
def Answers (i : Inclusion) (w : Walk σ) (answer : Except LaunchError Loaded) : Prop :=
  ∃ w₁ w₂ locator, (decides host env (.inclusion i)).run w = (.ok true, w₁) ∧
    (resolveText host env i.locator).run w₁ = (.ok locator, w₂) ∧
    source.load (host.files w₂.session.machine) locator w.chain.getLast? = answer

/-- The conditions of an inclusion hold, and the description that it names is let in. -/
def LetsIn (i : Inclusion) (w : Walk σ) (loaded : Loaded) : Prop :=
  ∃ w₁ w₂, (decides host env (.inclusion i)).run w = (.ok true, w₁) ∧
    (loadInclusion host env source i).run w₁ = (.ok loaded, w₂)

variable {host env source}

theorem Enters.letsIn {i : Inclusion} {w v : Walk σ} {loaded : Loaded}
    (h : Enters host env source i w loaded v) : LetsIn host env source i w loaded := by
  obtain ⟨w₁, w₂, hholds, hl, -⟩ := h
  exact ⟨w₁, w₂, hholds, hl⟩

theorem Enters.chain {i : Inclusion} {w v : Walk σ} {loaded : Loaded}
    (h : Enters host env source i w loaded v) : v.chain = w.chain ++ [loaded.key] := by
  obtain ⟨given, -, hv⟩ := h.eq
  rw [hv]
  rfl

/-- What is let in is what the source answers, with a key that is not on the chain. -/
theorem LetsIn.answers {i : Inclusion} {w : Walk σ} {loaded : Loaded}
    (h : LetsIn host env source i w loaded) :
    Answers host env source i w (.ok loaded) ∧ loaded.key ∉ w.chain := by
  obtain ⟨w₁, w₂, hholds, hl⟩ := h
  obtain ⟨locator, hlocator, hload, hkey⟩ := loadInclusion_ok hl
  have hchain : w₁.chain = w.chain := by rw [decides_ok hholds]
  rw [hchain] at hload hkey
  exact ⟨⟨w₁, w₂, locator, hholds, hlocator, hload⟩, hkey⟩

theorem Answers.key_mem {i : Inclusion} {w : Walk σ} {found : Loaded} {keys : List String}
    (hkeys : ∀ machine, host.Leads env w.session.machine machine →
      source.KeysIn (host.files machine) keys)
    (h : Answers host env source i w (.ok found)) : found.key ∈ keys := by
  obtain ⟨w₁, w₂, locator, hholds, hlocator, hload⟩ := h
  have h₁ := ((decides_keeps (host.output_led env) _).of_run hholds).session
  have h₂ := ((resolveText_keeps (host.output_led env) _).of_run hlocator).session
  exact hkeys _ (.trans h₁ h₂) _ _ _ hload

theorem frame_of_runAction {nesting : Nat} {action : Action} {w v : Walk σ}
    {result : Except LaunchError Unit}
    (h : (runAction host env source (nested host env source nesting) action).run w = (result, v)) :
    Walk.Frame (Session.Led host env) w v :=
  (runAction_keeps (host.output_led env) (nested_keeps (host.output_led env) nesting) action).of_run h

/-- What holds of the chain of one moment, and goes on to hold when a description is let in, holds
of the chains of all moments that are reached. -/
theorem Reaches.chain_of {m m' : Moment σ} {P : Nat → List String → Prop}
    (h : Reaches host env source m m') (hm : P m.nesting m.walk.chain)
    (hinto : ∀ {nesting : Nat} {i : Inclusion} {rest : Description} {w : Walk σ} {loaded : Loaded},
      Reaches host env source m ⟨nesting + 1, .inclusion i :: rest, w⟩ →
      LetsIn host env source i w loaded → P (nesting + 1) w.chain →
      P nesting (w.chain ++ [loaded.key])) :
    P m'.nesting m'.walk.chain := by
  induction h with
  | refl => exact hm
  | next _ ha ih =>
    rw [(frame_of_runAction ha).chain]
    exact ih
  | into hr he ih =>
    rw [he.chain]
    exact hinto hr he.letsIn ih

theorem Reaches.chain_extends {m m' : Moment σ} (h : Reaches host env source m m') :
    m.walk.chain <+: m'.walk.chain :=
  h.chain_of (P := fun _ chain => m.walk.chain <+: chain) List.prefix_rfl
    fun _ _ ih => ih.trans (List.prefix_append _ _)

/-- A key that is let in is new on the chain. -/
theorem LetsIn.nodup {i : Inclusion} {w : Walk σ} {loaded : Loaded}
    (h : LetsIn host env source i w loaded) (hw : w.chain.Nodup) :
    (w.chain ++ [loaded.key]).Nodup := by
  rw [← List.concat_eq_append]
  exact hw.concat h.answers.2

theorem Reaches.chain_nodup {m m' : Moment σ} (h : Reaches host env source m m')
    (hm : m.walk.chain.Nodup) : m'.walk.chain.Nodup :=
  h.chain_of (P := fun _ chain => chain.Nodup) hm fun _ hlets => hlets.nodup

section

variable {keys : List String} {m m' : Moment σ}
  (hkeys : ∀ machine, host.Leads env m.walk.session.machine machine →
    source.KeysIn (host.files machine) keys)

include hkeys

theorem Reaches.key_mem (h : Reaches host env source m m') {i : Inclusion} {found : Loaded}
    (ha : Answers host env source i m'.walk (.ok found)) : found.key ∈ keys :=
  ha.key_mem fun machine hl => hkeys machine (.trans (h.session (host.output_led env)) hl)

theorem Reaches.chain_subset (h : Reaches host env source m m') (hm : m.walk.chain ⊆ keys) :
    m'.walk.chain ⊆ keys :=
  h.chain_of (P := fun _ chain => chain ⊆ keys) hm fun hr hlets ih =>
    List.append_subset.2 ⟨ih, by simpa using hr.key_mem hkeys hlets.answers.1⟩

/-- There stays room for the keys outside the chain. -/
theorem Reaches.room (h : Reaches host env source m m') (hm : Room keys m.nesting m.walk.chain) :
    Room keys m'.nesting m'.walk.chain := by
  refine h.chain_of (P := Room keys) hm fun hr hlets ih => ?_
  obtain ⟨below, hbelow, hroom⟩ := ih.enter (hr.key_mem hkeys hlets.answers.1) hlets.answers.2
  obtain rfl := Nat.succ.inj hbelow
  exact hroom

end

end Compose

namespace Composition

open Compose

variable {host : Host σ} {env : Environment} {source : Source} {entry : Entry}
  {overrides : Bindings} {machine : σ}

/-- A chain that composing an entry comes to: that of a moment, or one with the key of a description
that is let in there. -/
def Stands (host : Host σ) (env : Environment) (source : Source) (entry : Entry)
    (overrides : Bindings) (machine : σ) (chain : List String) : Prop :=
  ∃ m, Reaches host env source entry overrides machine m ∧
    (chain = m.walk.chain ∨ ∃ i rest loaded, m.actions = .inclusion i :: rest ∧
      LetsIn host env source i m.walk loaded ∧ chain = m.walk.chain ++ [loaded.key])

/-- The first keys of a chain: that of the entry, if it has one. -/
theorem Reaches.first_key {m : Moment σ}
    (h : Reaches host env source entry overrides machine m) {locator : String} {loaded : Loaded}
    (hentry : entry = .located locator)
    (hload : source.load (host.files machine) locator none = .ok loaded) :
    m.walk.chain.head? = some loaded.key := by
  obtain ⟨description, key, hfind, h⟩ := h
  subst hentry
  rw [Entry.find, hload] at hfind
  cases hfind
  obtain ⟨below, hbelow⟩ := h.chain_extends
  rw [← hbelow]
  rfl

theorem Reaches.chain_nodup {m : Moment σ}
    (h : Reaches host env source entry overrides machine m) : m.walk.chain.Nodup := by
  obtain ⟨description, key, -, h⟩ := h
  refine h.chain_nodup ?_
  cases key with
  | none => exact List.nodup_nil
  | some key => exact List.nodup_singleton key

theorem Stands.nodup {chain : List String}
    (h : Stands host env source entry overrides machine chain) : chain.Nodup := by
  obtain ⟨m, hm, rfl | ⟨i, rest, loaded, -, hlets, rfl⟩⟩ := h
  · exact hm.chain_nodup
  · exact hlets.nodup hm.chain_nodup

section

variable {keys : List String} (hkeys : ∀ m, host.Leads env machine m →
  source.KeysIn (host.files m) keys)

include hkeys

theorem chain_start_subset {description : Description} {key : Option String}
    (h : entry.find source (host.files machine) = .ok (description, key)) :
    key.toList ⊆ keys := by
  rcases Entry.find_ok h with rfl | ⟨locator, loaded, -, hload, -, rfl⟩
  · exact List.nil_subset keys
  · simpa using hkeys machine .refl locator none loaded hload

theorem Stands.subset {chain : List String}
    (h : Stands host env source entry overrides machine chain) : chain ⊆ keys := by
  obtain ⟨m, ⟨description, key, hfind, hm⟩, hchain⟩ := h
  have hsub : m.walk.chain ⊆ keys := hm.chain_subset hkeys (chain_start_subset hkeys hfind)
  rcases hchain with rfl | ⟨i, rest, loaded, -, hlets, rfl⟩
  · exact hsub
  · exact List.append_subset.2 ⟨hsub, by simpa using hm.key_mem hkeys hlets.answers.1⟩

/-- The moments of a composition have room for the keys outside their chains. -/
theorem Reaches.room (hnesting : keys.length ≤ source.nesting (host.files machine)) {m : Moment σ}
    (h : Reaches host env source entry overrides machine m) :
    Room keys m.nesting m.walk.chain := by
  obtain ⟨description, key, -, h⟩ := h
  exact h.room hkeys (.of_length hnesting _)

end

end Composition

end LaunchPlan
