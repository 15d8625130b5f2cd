import LaunchPlan.PlannedProcess
import Mathlib.Data.List.Induction

/-!
# Places below a search path

The share directory of a package and its programs are searched alike: some names, one below the
other, below the first entry that has them. A name that is an absolute path is not put below
anything. It stands for itself, and what is found with it is in general below no entry.
-/

namespace LaunchPlan.Package

section Places

variable {entry path name : String} {names before after : List String}

/-- `name` behind a path, with a separator between them unless the path ends with one. -/
def behind (path name : String) : String :=
  if path.toList.getLast? = some '/' then path ++ name else path ++ "/" ++ name

/-- The place of names, each below the one before, below an entry. -/
def below (entry : String) (names : List String) : String :=
  names.foldl behind entry

theorem prefix_behind (path name : String) : path.toList <+: (behind path name).toList := by
  rw [behind]
  split <;> simp

theorem behind_ne_empty (h : path ≠ "") : behind path name ≠ "" := by
  intro hempty
  have hprefix := prefix_behind path name
  rw [hempty] at hprefix
  exact h (by simpa using hprefix)

theorem prefix_below (entry : String) (names : List String) :
    entry.toList <+: (below entry names).toList := by
  induction names generalizing entry with
  | nil => exact List.prefix_rfl
  | cons name names ih => exact (prefix_behind entry name).trans (ih (behind entry name))

theorem join_of_relative (hpath : path ≠ "") (hname : Path.isAbsolute name = false) :
    Path.join path name = behind path name := by
  simp [Path.join, behind, hname, hpath]

theorem join_of_absolute (hname : Path.isAbsolute name = true) : Path.join path name = name := by
  simp [Path.join, hname]

theorem isAbsolute_ne_empty (h : Path.isAbsolute name = true) : name ≠ "" := by
  rintro rfl
  exact absurd h (by decide)

theorem foldl_join_of_relative (hentry : entry ≠ "")
    (hnames : ∀ name ∈ names, Path.isAbsolute name = false) :
    names.foldl Path.join entry = below entry names := by
  induction names generalizing entry with
  | nil => rfl
  | cons name names ih =>
    obtain ⟨hname, hrest⟩ := List.forall_mem_cons.1 hnames
    rw [List.foldl_cons, join_of_relative hentry hname, ih (behind_ne_empty hentry) hrest]
    rfl

/-- What stands in front of an absolute name makes no difference. -/
theorem foldl_join_of_absolute (entry : String) (before : List String)
    (hname : Path.isAbsolute name = true) (hafter : ∀ n ∈ after, Path.isAbsolute n = false) :
    (before ++ name :: after).foldl Path.join entry = below name after := by
  rw [List.foldl_append, List.foldl_cons, join_of_absolute hname,
    foldl_join_of_relative (isAbsolute_ne_empty hname) hafter]

theorem exists_last_absolute (h : ¬ ∀ name ∈ names, Path.isAbsolute name = false) :
    ∃ before name after, names = before ++ name :: after ∧ Path.isAbsolute name = true ∧
      ∀ n ∈ after, Path.isAbsolute n = false := by
  induction names using List.reverseRecOn with
  | nil => simp at h
  | append_singleton names last ih =>
    by_cases hlast : Path.isAbsolute last = true
    · exact ⟨names, last, [], rfl, hlast, by simp⟩
    · rw [Bool.not_eq_true] at hlast
      have hnames : ¬ ∀ name ∈ names, Path.isAbsolute name = false := fun hall =>
        h (List.forall_mem_append.2 ⟨hall, by simpa using hlast⟩)
      obtain ⟨before, name, after, rfl, hname, hafter⟩ := ih hnames
      exact ⟨before, name, after ++ [last], by simp, hname,
        List.forall_mem_append.2 ⟨hafter, by simpa using hlast⟩⟩

end Places

section Searching

variable {present : String → Bool} {entries names : List String} {path : String}

/-- The first place of the names below the entries that is there. -/
def search (present : String → Bool) (entries names : List String) : Option String :=
  (entries.map fun entry => names.foldl Path.join entry).find? present

/-- What a search of the names in the entries comes to. -/
inductive Found (present : String → Bool) (entries names : List String) : String → Prop
  /-- The place is there below an entry and below none in front of it. -/
  | under {before after : List String} {entry : String} :
      (∀ name ∈ names, Path.isAbsolute name = false) →
      entries = before ++ entry :: after →
      (∀ e ∈ before, present (below e names) = false) →
      present (below entry names) = true →
      Found present entries names (below entry names)
  /-- The last absolute name is there with the names behind it. -/
  | apart {before after : List String} {name : String} :
      names = before ++ name :: after → Path.isAbsolute name = true →
      (∀ n ∈ after, Path.isAbsolute n = false) →
      entries ≠ [] →
      present (below name after) = true →
      Found present entries names (below name after)

theorem search_of_relative (hentries : ∀ entry ∈ entries, entry ≠ "")
    (hnames : ∀ name ∈ names, Path.isAbsolute name = false) :
    search present entries names =
      (entries.find? fun entry => present (below entry names)).map fun entry =>
        below entry names := by
  have hplaces : entries.map (fun entry => names.foldl Path.join entry) =
      entries.map fun entry => below entry names :=
    List.map_congr_left fun entry hentry => foldl_join_of_relative (hentries entry hentry) hnames
  rw [search, hplaces, List.find?_map]
  rfl

theorem search_of_absolute {before after : List String} {name : String}
    (hname : Path.isAbsolute name = true) (hafter : ∀ n ∈ after, Path.isAbsolute n = false) :
    search present entries (before ++ name :: after) = some path ↔
      entries ≠ [] ∧ present (below name after) = true ∧ path = below name after := by
  -- Every entry leads to the same place.
  have hplaces : entries.map (fun entry => (before ++ name :: after).foldl Path.join entry) =
      List.replicate entries.length (below name after) := by
    simp only [foldl_join_of_absolute _ before hname hafter, List.map_const']
  rw [search, hplaces, List.find?_replicate]
  by_cases hempty : entries = [] <;> by_cases hthere : present (below name after) = true <;>
    simp [hempty, hthere, eq_comm]

theorem search_eq_some_iff (hentries : ∀ entry ∈ entries, entry ≠ "") :
    search present entries names = some path ↔ Found present entries names path := by
  constructor
  · intro h
    by_cases hnames : ∀ name ∈ names, Path.isAbsolute name = false
    · rw [search_of_relative hentries hnames, Option.map_eq_some_iff] at h
      obtain ⟨entry, hfind, rfl⟩ := h
      obtain ⟨hthere, before, after, hsplit, hbefore⟩ := List.find?_eq_some_iff_append.1 hfind
      exact .under hnames hsplit (fun e he => by simpa using hbefore e he) hthere
    · obtain ⟨before, name, after, rfl, hname, hafter⟩ := exists_last_absolute hnames
      obtain ⟨hne, hthere, rfl⟩ := (search_of_absolute hname hafter).1 h
      exact .apart rfl hname hafter hne hthere
  · intro h
    cases h with
    | @under before after entry hnames hsplit hbefore hthere =>
      have hfind : (entries.find? fun entry => present (below entry names)) = some entry :=
        List.find?_eq_some_iff_append.2
          ⟨hthere, before, after, hsplit, fun e he => by simpa using hbefore e he⟩
      rw [search_of_relative hentries hnames, hfind]
      rfl
    | apart hsplit hname hafter hne hthere =>
      rw [hsplit]
      exact (search_of_absolute hname hafter).2 ⟨hne, hthere, rfl⟩

theorem search_eq_none_iff (hentries : ∀ entry ∈ entries, entry ≠ "") :
    search present entries names = none ↔ ∀ place, ¬ Found present entries names place := by
  rw [Option.eq_none_iff_forall_ne_some]
  exact forall_congr' fun place => (search_eq_some_iff hentries).not

/-- With names that are not absolute, what is found begins with an entry. -/
theorem Found.begins (h : Found present entries names path)
    (hnames : ∀ name ∈ names, Path.isAbsolute name = false) :
    ∃ entry ∈ entries, path = below entry names ∧ entry.toList <+: path.toList := by
  cases h with
  | @under before after entry _ hsplit _ _ =>
    exact ⟨entry, by simp [hsplit], rfl, prefix_below entry names⟩
  | @apart before after name hsplit hname _ _ _ =>
    have hrelative := hnames name (by simp [hsplit])
    exact absurd hname (by simp [hrelative])

end Searching

section Lookups

theorem ne_empty_of_mem_searchPath {env : Environment} {name entry : String}
    (h : entry ∈ env.searchPath name) : entry ≠ "" := by
  rw [Environment.searchPath] at h
  cases hvalue : env.get? name with
  | none => simp [hvalue] at h
  | some value =>
    rw [hvalue, Option.elim_some, searchEntries, List.mem_filterMap] at h
    obtain ⟨piece, -, hpiece⟩ := h
    split at hpiece
    · cases hpiece
    · next hne =>
      obtain rfl := Option.some.inj hpiece
      simpa using hne

theorem share?_eq (present : String → Bool) (env : Environment) (package : String) :
    share? present env package =
      (search present (env.searchPath searchVariable) ["share", package]).or
        (((env.get? "ROS_DISTRO").map fun d => distributionShare d package).filter present) := by
  have hshares : ((env.searchPath searchVariable).map fun entry =>
      shareBelow entry package).find? present =
      search present (env.searchPath searchVariable) ["share", package] := rfl
  rw [share?, hshares]
  cases search present (env.searchPath searchVariable) ["share", package] <;> rfl

theorem program_eq (present : String → Bool) (env : Environment) (p : PlannedProcess) :
    p.program present env =
      (p.package.bind fun package => search present (env.searchPath searchVariable)
        ["lib", package, p.executable]).getD p.executable :=
  rfl

/-- The share directory of a package, and the program of a process, are what is found below the
search path. Without one, the share directory is the one that comes with the distribution, if it is
there, and the program is the executable as it is named. What is found with names that are not
absolute begins with an entry. -/
theorem lookups_below_entries (there isFile : String → Bool) (env : Environment) :
    (∀ package path, share? there env package = some path ↔
      Found there (env.searchPath searchVariable) ["share", package] path ∨
        (∀ place, ¬ Found there (env.searchPath searchVariable) ["share", package] place) ∧
          ∃ d, env.get? "ROS_DISTRO" = some d ∧ path = distributionShare d package ∧
            there path = true) ∧
      (∀ (p : PlannedProcess) program, (p.commandLine isFile env).head? = some program ↔
        (∃ package, p.package = some package ∧ Found isFile (env.searchPath searchVariable)
          ["lib", package, p.executable] program) ∨
        (∀ package, p.package = some package → ∀ place,
          ¬ Found isFile (env.searchPath searchVariable) ["lib", package, p.executable] place) ∧
          program = p.executable) ∧
      ∀ present names path, Found present (env.searchPath searchVariable) names path →
        (∀ name ∈ names, Path.isAbsolute name = false) →
        ∃ entry ∈ env.searchPath searchVariable,
          entry ≠ "" ∧ path = below entry names ∧ entry.toList <+: path.toList := by
  have hentries : ∀ entry ∈ env.searchPath searchVariable, entry ≠ "" :=
    fun _ => ne_empty_of_mem_searchPath
  refine ⟨fun package path => ?_, fun p program => ?_, fun present names path hfound hnames => ?_⟩
  · rw [share?_eq, Option.or_eq_some_iff, search_eq_some_iff hentries, search_eq_none_iff hentries]
    simp only [Option.filter_eq_some_iff, Option.map_eq_some_iff]
    refine or_congr_right (and_congr_right fun _ => ⟨?_, ?_⟩)
    · rintro ⟨⟨d, hd, rfl⟩, hthere⟩
      exact ⟨d, hd, rfl, hthere⟩
    · rintro ⟨d, hd, rfl, hthere⟩
      exact ⟨⟨d, hd, rfl⟩, hthere⟩
  · have hhead : (p.commandLine isFile env).head? = some (p.program isFile env) := rfl
    rw [hhead, Option.some.injEq, program_eq]
    cases hpackage : p.package with
    | none => simp [eq_comm]
    | some package =>
      rw [Option.bind_some]
      simp only [Option.some.injEq, exists_eq_left', forall_eq']
      rw [← search_eq_some_iff hentries, ← search_eq_none_iff hentries]
      cases search isFile (env.searchPath searchVariable) ["lib", package, p.executable] with
      | none => simp [eq_comm]
      | some place => simp
  · obtain ⟨entry, hentry, hpath, hbegins⟩ := hfound.begins hnames
    exact ⟨entry, hentry, hentries entry hentry, hpath, hbegins⟩

/-- Two entries, the second of which ends with a separator, and an empty piece between them. -/
def twoEntries : Environment :=
  { bindings := [("AMENT_PREFIX_PATH", "/ws::/opt/")] }

theorem found_below_second :
    share? (· = "/opt/share/arm") twoEntries "arm" = some "/opt/share/arm" ∧
      ∃ entry ∈ twoEntries.searchPath searchVariable,
        entry ≠ "" ∧ "/opt/share/arm" = below entry ["share", "arm"] ∧
          entry.toList <+: "/opt/share/arm".toList := by
  have hfound : Found (· = "/opt/share/arm") (twoEntries.searchPath searchVariable)
      ["share", "arm"] "/opt/share/arm" :=
    (search_eq_some_iff fun _ => ne_empty_of_mem_searchPath).1 (by decide +kernel)
  obtain ⟨hshare, -, hbegins⟩ := lookups_below_entries (· = "/opt/share/arm") (fun _ => false) twoEntries
  exact ⟨(hshare "arm" _).2 (.inl hfound), hbegins _ _ _ hfound (by decide +kernel)⟩

/-- A package that is named by an absolute path is found where the path leads, below no entry. -/
theorem absolute_package_below_no_entry :
    share? (· = "/tmp") twoEntries "/tmp" = some "/tmp" ∧
      ∀ entry ∈ twoEntries.searchPath searchVariable,
        "/tmp" ≠ below entry ["share", "/tmp"] ∧ ¬ entry.toList <+: "/tmp".toList := by
  decide +kernel

end Lookups

end LaunchPlan.Package
