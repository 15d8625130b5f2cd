import LaunchPlan.Compose
import Mathlib.Order.Defs.Unbundled

/-!
# Computations side by side

A computation has a state that survives its failures. Two of them, each over its own state, go side
by side when related states make them give the same result and leave related states; one of them
keeps a relation when its last state always stands in it to its first.
-/

namespace LaunchPlan.Computing

variable {ε s t α β γ : Type}

theorem run_pure (a : α) (w : s) : (pure a : ExceptT ε (StateM s) α).run w = (.ok a, w) := rfl

theorem run_get (w : s) : (get : ExceptT ε (StateM s) s).run w = (.ok w, w) := rfl

theorem run_bind (c : ExceptT ε (StateM s) α) (f : α → ExceptT ε (StateM s) β) (w : s) :
    (c >>= f).run w =
      match c.run w with
      | (.ok a, v) => (f a).run v
      | (.error e, v) => (.error e, v) := by
  change (ExceptT.bindCont f (c.run w).1).run (c.run w).2 = _
  rcases c.run w with ⟨_ | _, v⟩ <;> rfl

theorem run_bind_ok {c : ExceptT ε (StateM s) α} {f : α → ExceptT ε (StateM s) β} {w v : s} {a : α}
    (h : c.run w = (.ok a, v)) : (c >>= f).run w = (f a).run v := by
  rw [run_bind, h]

theorem run_bind_error {c : ExceptT ε (StateM s) α} {f : α → ExceptT ε (StateM s) β} {w v : s}
    {e : ε} (h : c.run w = (.error e, v)) : (c >>= f).run w = (.error e, v) := by
  rw [run_bind, h]

theorem run_map (f : α → β) (c : ExceptT ε (StateM s) α) (w : s) :
    (f <$> c).run w = ((c.run w).1.map f, (c.run w).2) := by
  rw [map_eq_pure_bind, run_bind]
  rcases c.run w with ⟨_ | _, v⟩ <;> rfl

/-- A sequence that succeeds has two parts that do. -/
theorem ok_of_bind {c : ExceptT ε (StateM s) α} {f : α → ExceptT ε (StateM s) β} {w v : s} {b : β}
    (h : (c >>= f).run w = (.ok b, v)) :
    ∃ a u, c.run w = (.ok a, u) ∧ (f a).run u = (.ok b, v) := by
  rw [run_bind] at h
  rcases hc : c.run w with ⟨e | a, u⟩ <;> rw [hc] at h
  · cases h
  · exact ⟨a, u, rfl, h⟩

/-- A sequence that fails does so in its first part, or in its second part after the first. -/
theorem error_of_bind {c : ExceptT ε (StateM s) α} {f : α → ExceptT ε (StateM s) β} {w v : s} {e : ε}
    (h : (c >>= f).run w = (.error e, v)) :
    c.run w = (.error e, v) ∨ ∃ a u, c.run w = (.ok a, u) ∧ (f a).run u = (.error e, v) := by
  rw [run_bind] at h
  rcases hc : c.run w with ⟨e' | a, u⟩ <;> rw [hc] at h
  · cases h
    exact .inl rfl
  · exact .inr ⟨a, u, rfl, h⟩

/-- A list of computations that fails does so in one of them, after those before it. -/
theorem error_of_forM {l : List γ} {f : γ → ExceptT ε (StateM s) PUnit} {w v : s} {e : ε}
    (h : (l.forM f).run w = (.error e, v)) :
    ∃ before x after u, l = before ++ x :: after ∧ (before.forM f).run w = (.ok ⟨⟩, u) ∧
      (f x).run u = (.error e, v) := by
  induction l generalizing w with
  | nil => cases h
  | cons x l ih =>
    rcases error_of_bind h with hx | ⟨_, u, hx, hl⟩
    · exact ⟨[], x, l, w, rfl, rfl, hx⟩
    · obtain ⟨before, y, after, u', rfl, hbefore, hy⟩ := ih hl
      exact ⟨x :: before, y, after, u', rfl, (run_bind_ok hx).trans hbefore, hy⟩

/-- What holds side by side of sequences of computations when it holds of their parts. -/
structure Composes
    (Q : ∀ {α : Type}, ExceptT ε (StateM s) α → ExceptT ε (StateM t) α → Prop) : Prop where
  pure {α : Type} (a : α) : Q (pure a) (pure a)
  bind {α β : Type} {c : ExceptT ε (StateM s) α} {d : ExceptT ε (StateM t) α}
    {f : α → ExceptT ε (StateM s) β} {g : α → ExceptT ε (StateM t) β} :
    Q c d → (∀ a, Q (f a) (g a)) → Q (c >>= f) (d >>= g)

namespace Composes

variable {Q : ∀ {α : Type}, ExceptT ε (StateM s) α → ExceptT ε (StateM t) α → Prop}
  (hQ : Composes Q)

include hQ

protected theorem map {c : ExceptT ε (StateM s) α} {d : ExceptT ε (StateM t) α} (f : α → β)
    (hc : Q c d) : Q (f <$> c) (f <$> d) := by
  rw [map_eq_pure_bind, map_eq_pure_bind]
  exact hQ.bind hc fun a => hQ.pure (f a)

theorem forM {l : List γ} {f : γ → ExceptT ε (StateM s) PUnit}
    {g : γ → ExceptT ε (StateM t) PUnit} (h : ∀ x ∈ l, Q (f x) (g x)) :
    Q (l.forM f) (l.forM g) := by
  induction l with
  | nil => exact hQ.pure _
  | cons x l ih => exact hQ.bind (h x (by simp)) fun _ => ih fun y hy => h y (by simp [hy])

theorem mapM {l : List γ} {f : γ → ExceptT ε (StateM s) α} {g : γ → ExceptT ε (StateM t) α}
    (h : ∀ x ∈ l, Q (f x) (g x)) : Q (l.mapM f) (l.mapM g) := by
  induction l with
  | nil => exact hQ.pure _
  | cons x l ih =>
    rw [List.mapM_cons, List.mapM_cons]
    exact hQ.bind (h x (by simp)) fun a =>
      hQ.bind (ih fun y hy => h y (by simp [hy])) fun as => hQ.pure (a :: as)

theorem foldlM {l : List γ} {f : α → γ → ExceptT ε (StateM s) α}
    {g : α → γ → ExceptT ε (StateM t) α} (h : ∀ a, ∀ x ∈ l, Q (f a x) (g a x)) (a : α) :
    Q (l.foldlM f a) (l.foldlM g a) := by
  induction l generalizing a with
  | nil => exact hQ.pure a
  | cons x l ih =>
    rw [List.foldlM_cons, List.foldlM_cons]
    exact hQ.bind (h a x (by simp)) fun b => ih (fun c y hy => h c y (by simp [hy])) b

end Composes

/-- Two outcomes agree: the same result and related states, unless the first failed badly. -/
def Agree (bad : ε → Prop) (R : s → t → Prop) (x : Except ε α × s) (y : Except ε α × t) : Prop :=
  (∃ e, x.1 = .error e ∧ bad e) ∨ (x.1 = y.1 ∧ R x.2 y.2)

/-- No failure is bad. -/
def never (_ : ε) : Prop := False

theorem agree_never {R : s → t → Prop} {x : Except ε α × s} {y : Except ε α × t} :
    Agree never R x y ↔ x.1 = y.1 ∧ R x.2 y.2 := by
  simp [Agree, never]

/-- Related states make the computations agree. -/
def Simulates (bad : ε → Prop) (R : s → t → Prop) (c : ExceptT ε (StateM s) α)
    (d : ExceptT ε (StateM t) α) : Prop :=
  ∀ v w, R v w → Agree bad R (c.run v) (d.run w)

namespace Simulates

variable {bad : ε → Prop} {R : s → t → Prop}

protected theorem pure (a : α) :
    Simulates bad R (pure a : ExceptT ε (StateM s) α) (pure a) :=
  fun _ _ h => .inr ⟨rfl, h⟩

protected theorem throw (e : ε) :
    Simulates bad R (throw e : ExceptT ε (StateM s) α) (throw e) :=
  fun _ _ h => .inr ⟨rfl, h⟩

/-- The second parts need to go side by side only for the results that the first part can have. -/
theorem bind_of {c : ExceptT ε (StateM s) α} {d : ExceptT ε (StateM t) α}
    {f : α → ExceptT ε (StateM s) β} {g : α → ExceptT ε (StateM t) β} {P : α → Prop}
    (hc : Simulates bad R c d) (hP : ∀ v w a u, R v w → c.run v = (.ok a, u) → P a)
    (hf : ∀ a, P a → Simulates bad R (f a) (g a)) : Simulates bad R (c >>= f) (d >>= g) := by
  intro v w hR
  have h := hc v w hR
  have hPv := fun a u => hP v w a u hR
  rw [run_bind, run_bind]
  generalize c.run v = x, d.run w = y at h hPv ⊢
  obtain ⟨r, v'⟩ := x
  obtain ⟨q, w'⟩ := y
  rcases h with ⟨e, hr, hbad⟩ | ⟨hr, hst⟩
  · obtain rfl : r = .error e := hr
    exact .inl ⟨e, rfl, hbad⟩
  · obtain rfl : r = q := hr
    cases r with
    | error e => exact .inr ⟨rfl, hst⟩
    | ok a => exact hf a (hPv a v' rfl) v' w' hst

protected theorem bind {c : ExceptT ε (StateM s) α} {d : ExceptT ε (StateM t) α}
    {f : α → ExceptT ε (StateM s) β} {g : α → ExceptT ε (StateM t) β}
    (hc : Simulates bad R c d) (hf : ∀ a, Simulates bad R (f a) (g a)) :
    Simulates bad R (c >>= f) (d >>= g) :=
  hc.bind_of (fun _ _ _ _ _ _ => trivial) fun a _ => hf a

theorem composes : Composes fun (c : ExceptT ε (StateM s) _) d => Simulates bad R c d where
  pure := .pure
  bind := .bind

protected theorem map {c : ExceptT ε (StateM s) α} {d : ExceptT ε (StateM t) α} (f : α → β)
    (hc : Simulates bad R c d) : Simulates bad R (f <$> c) (f <$> d) :=
  composes.map f hc

theorem forM {l : List γ} {f : γ → ExceptT ε (StateM s) PUnit}
    {g : γ → ExceptT ε (StateM t) PUnit} (h : ∀ x ∈ l, Simulates bad R (f x) (g x)) :
    Simulates bad R (l.forM f) (l.forM g) :=
  composes.forM h

end Simulates

/-- The last state stands in the relation to the first, whatever the result. -/
def Keeps (R : s → s → Prop) (c : ExceptT ε (StateM s) α) : Prop :=
  ∀ w, R w (c.run w).2

namespace Keeps

variable {R : s → s → Prop}

theorem mono {Q : s → s → Prop} {c : ExceptT ε (StateM s) α} (h : Keeps R c)
    (hRQ : ∀ v w, R v w → Q v w) : Keeps Q c :=
  fun w => hRQ _ _ (h w)

theorem of_run {c : ExceptT ε (StateM s) α} {v w : s} {r : Except ε α} (h : Keeps R c)
    (hc : c.run v = (r, w)) : R v w := by
  simpa only [hc] using h v

variable [IsPreorder s R]

/-- Keeping a preorder is going side by side with oneself, in it to where one has begun. -/
theorem iff_simulates {c : ExceptT ε (StateM s) α} :
    Keeps R c ↔ ∀ u, Simulates never (fun v w => v = w ∧ R u v) c c := by
  constructor
  · rintro h u v _ ⟨rfl, huv⟩
    exact .inr ⟨rfl, rfl, trans_of R huv (h v)⟩
  · intro h w
    exact (agree_never.1 (h w w w ⟨rfl, refl_of R w⟩)).2.2

protected theorem pure (a : α) : Keeps R (pure a : ExceptT ε (StateM s) α) :=
  fun w => refl_of R w

protected theorem throw (e : ε) : Keeps R (throw e : ExceptT ε (StateM s) α) :=
  fun w => refl_of R w

protected theorem bind {c : ExceptT ε (StateM s) α} {f : α → ExceptT ε (StateM s) β}
    (hc : Keeps R c) (hf : ∀ a, Keeps R (f a)) : Keeps R (c >>= f) :=
  iff_simulates.2 fun u => (iff_simulates.1 hc u).bind fun a => iff_simulates.1 (hf a) u

theorem composes : Composes fun (c _ : ExceptT ε (StateM s) _) => Keeps R c where
  pure := .pure
  bind := .bind

protected theorem map {c : ExceptT ε (StateM s) α} (f : α → β) (hc : Keeps R c) :
    Keeps R (f <$> c) :=
  composes.map (d := c) f hc

theorem forM {l : List γ} {f : γ → ExceptT ε (StateM s) PUnit} (h : ∀ x ∈ l, Keeps R (f x)) :
    Keeps R (l.forM f) :=
  composes.forM (g := f) h

end Keeps

/-- Every failure has the property. -/
def Throws (P : ε → Prop) (c : ExceptT ε (StateM s) α) : Prop :=
  ∀ w v e, c.run w = (.error e, v) → P e

namespace Throws

variable {P : ε → Prop}

protected theorem pure (a : α) : Throws P (pure a : ExceptT ε (StateM s) α) := by
  intro w v e h
  cases h

protected theorem throw {e : ε} (he : P e) : Throws P (throw e : ExceptT ε (StateM s) α) := by
  intro w v e' h
  cases h
  exact he

protected theorem bind {c : ExceptT ε (StateM s) α} {f : α → ExceptT ε (StateM s) β}
    (hc : Throws P c) (hf : ∀ a, Throws P (f a)) : Throws P (c >>= f) := by
  intro w v e h
  rw [run_bind] at h
  rcases hw : c.run w with ⟨e' | a, u⟩ <;> rw [hw] at h
  · cases h
    exact hc w _ _ hw
  · exact hf a u v e h

theorem composes : Composes fun (c _ : ExceptT ε (StateM s) _) => Throws P c where
  pure := .pure
  bind := .bind

protected theorem map {c : ExceptT ε (StateM s) α} (f : α → β) (hc : Throws P c) :
    Throws P (f <$> c) :=
  composes.map (d := c) f hc

theorem forM {l : List γ} {f : γ → ExceptT ε (StateM s) PUnit} (h : ∀ x ∈ l, Throws P (f x)) :
    Throws P (l.forM f) :=
  composes.forM (g := f) h

end Throws

/-- From the states that stand in the relation to `w` the computation comes to such states, and every
failure has the property. -/
structure ThrowsFrom (R : s → s → Prop) (w : s) (P : ε → Prop) (c : ExceptT ε (StateM s) α) :
    Prop where
  stays : ∀ u, R w u → R w (c.run u).2
  throws : ∀ u v e, R w u → c.run u = (.error e, v) → P e

namespace ThrowsFrom

variable {R : s → s → Prop} {w : s} {P : ε → Prop}

theorem of_keeps [IsPreorder s R] {c : ExceptT ε (StateM s) α} (hc : Keeps R c)
    (h : ∀ u v e, R w u → c.run u = (.error e, v) → P e) : ThrowsFrom R w P c :=
  ⟨fun u hu => trans_of R hu (hc u), h⟩

theorem composes : Composes fun (c _ : ExceptT ε (StateM s) _) => ThrowsFrom R w P c where
  pure a := ⟨fun _ hu => hu, fun _ _ _ _ h => by cases h⟩
  bind {_ _ c _ f _} hc hf := by
    refine ⟨fun u hu => ?_, fun u v e hu h => ?_⟩
    · have hstays := hc.stays u hu
      rw [run_bind]
      rcases hrun : c.run u with ⟨e | a, u'⟩ <;> rw [hrun] at hstays
      · exact hstays
      · exact (hf a).stays u' hstays
    · rcases error_of_bind h with hfirst | ⟨a, u', hfirst, hsecond⟩
      · exact hc.throws u v e hu hfirst
      · have hstays := hc.stays u hu
        rw [hfirst] at hstays
        exact (hf a).throws u' v e hstays hsecond

end ThrowsFrom

/-- A success is repeated from every state that covers its last one: the same result, and nothing
changes. -/
def Replays (covers : s → t → Prop) (c : ExceptT ε (StateM s) α) (d : ExceptT ε (StateM t) α) :
    Prop :=
  ∀ v a w u, c.run v = (.ok a, w) → covers w u → d.run u = (.ok a, u)

namespace Replays

variable {covers : s → t → Prop}

protected theorem pure (a : α) :
    Replays covers (pure a : ExceptT ε (StateM s) α) (pure a) := by
  rintro v b w u h -
  cases h
  rfl

theorem of_throw (e : ε) (d : ExceptT ε (StateM t) α) :
    Replays covers (throw e : ExceptT ε (StateM s) α) d := by
  rintro v b w u h -
  cases h

/-- What covers the end of a sequence covers the end of its first part, if the second part only
adds to what has to be covered. -/
protected theorem bind {R : s → s → Prop} {c : ExceptT ε (StateM s) α}
    {d : ExceptT ε (StateM t) α} {f : α → ExceptT ε (StateM s) β} {g : α → ExceptT ε (StateM t) β}
    (hR : ∀ v w u, R v w → covers w u → covers v u) (hc : Replays covers c d)
    (hk : ∀ a, Keeps R (f a)) (hf : ∀ a, Replays covers (f a) (g a)) :
    Replays covers (c >>= f) (d >>= g) := by
  intro v b w u h hu
  obtain ⟨a, w', hcv, hfa⟩ := ok_of_bind h
  have hw' : covers w' u := hR w' w u ((hk a).of_run hfa) hu
  rw [run_bind_ok (hc v a w' u hcv hw')]
  exact hf a w' b w u hfa hu

end Replays

end LaunchPlan.Computing
