/-!
# Handles

What a descriptor of a running program stands for.
-/

namespace LaunchPlan.Machine

inductive Handle
  /-- An open file, by its number. -/
  | file (number : Nat)
  /-- The end of a pipe to read from. -/
  | reader (pipe : Nat)
  /-- The end of a pipe to write to. -/
  | writer (pipe : Nat)
  /-- What is always empty and takes everything. -/
  | nothing
  deriving DecidableEq, Repr

/-- The handles of a program, by descriptor. -/
abbrev Handles := List (Nat × Handle)

namespace Handles

def set (handles : Handles) (descriptor : Nat) (handle : Option Handle) : Handles :=
  let others := List.filter (fun (d, _) => d ≠ descriptor) handles
  match handle with
  | some h => (descriptor, h) :: others
  | none => others

theorem lookup_filter_ne (handles : Handles) {d e : Nat} (h : d ≠ e) :
    List.lookup d (List.filter (fun (p : Nat × Handle) => p.1 ≠ e) handles) =
      List.lookup d handles := by
  induction handles with
  | nil => rfl
  | cons p rest ih =>
    obtain ⟨f, handle⟩ := p
    simp only [ne_eq, decide_not] at ih ⊢
    by_cases hf : f = e
    · have hd : (d == e) = false := by simpa using h
      simp [hf, List.lookup_cons, hd, ih]
    · simp [hf, List.lookup_cons, ih]

theorem lookup_filter_self (handles : Handles) (d : Nat) :
    List.lookup d (List.filter (fun (p : Nat × Handle) => p.1 ≠ d) handles) = none := by
  induction handles with
  | nil => rfl
  | cons p rest ih =>
    obtain ⟨f, handle⟩ := p
    by_cases hf : f = d
    · simpa [hf] using ih
    · have hd : (d == f) = false := by simpa using Ne.symm hf
      simpa [hf, List.lookup_cons, hd] using ih

@[simp] theorem lookup_set_self (handles : Handles) (d : Nat) (handle : Option Handle) :
    List.lookup d (handles.set d handle) = handle := by
  cases handle with
  | none => simpa [set] using lookup_filter_self handles d
  | some h => simp [set]

@[simp] theorem lookup_set_of_ne (handles : Handles) {d e : Nat} (h : d ≠ e)
    (handle : Option Handle) : List.lookup d (handles.set e handle) = List.lookup d handles := by
  have hd : (d == e) = false := by simpa using h
  cases handle with
  | none => simpa [set] using lookup_filter_ne handles h
  | some k => simpa [set, List.lookup_cons, hd] using lookup_filter_ne handles h

end Handles

end LaunchPlan.Machine
