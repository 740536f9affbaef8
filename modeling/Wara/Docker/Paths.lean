import Wara.Docker.Resources
import Wara.Posix.Path

/-!
# Where a service's directories are

`service_dir` and the build context, resolved from any working directory. A name
that passes the validator is no `.` and no `..`, so a service's directory is one
step below the root; the build context is in it unless the configured context
goes up. An empty root is read as `/`.
-/

namespace Wara.Docker

open Rust Posix

/-- What a path resolves to from a working directory. -/
def resolvePath (cwd : Dir) (path : String) : Dir := resolve cwd path.toList

/-- The directories of a service. -/
def dirs (root context name : String) : List String :=
  [serviceDir root name, pathJoin (serviceDir root name) context]

theorem toList_trimEndMatches (s : String) (c : Char) :
    (trimEndMatches s c).toList = s.toList.rdropWhile (· == c) := by
  unfold trimEndMatches
  rw [String.toList_ofList]
  rfl

theorem toList_trimMatches (s : String) (c : Char) :
    (trimMatches s c).toList = (s.toList.dropWhile (· == c)).rdropWhile (· == c) := by
  unfold trimMatches
  rw [toList_trimEndMatches, String.toList_ofList]

/-- A name that passes the validator is a plain one. -/
theorem plain_of_validateServiceName {name : String} (h : validateServiceName name = .ok ()) :
    Plain name.toList := by
  obtain ⟨hne, hslash⟩ := validateServiceName_ok h
  obtain ⟨first, rest, hname, hfirst, -, -⟩ := validateServiceName_iff.mp h
  have hdot : first ≠ '.' := by
    rintro rfl
    exact absurd hfirst (by decide)
  rw [hname] at hne hslash ⊢
  exact ⟨hne, fun he => hdot (List.cons.inj he).1, fun he => hdot (List.cons.inj he).1, hslash⟩

/-- The directory that the configured root is: `path_join` takes an empty one for `/`. -/
def rootDir (cwd : Dir) (root : String) : Dir :=
  if root.toList.isEmpty then [] else resolvePath cwd root

section resolved

variable {cwd : Dir} {root context name : String}

theorem resolvePath_serviceDir (h : validateServiceName name = .ok ()) :
    resolvePath cwd (serviceDir root name) = rootDir cwd root ++ [name.toList] := by
  have hplain := plain_of_validateServiceName h
  unfold resolvePath rootDir
  rw [toList_serviceDir hplain.ne_nil hplain.no_slash, toList_trimEndMatches]
  by_cases htrim : root.toList.rdropWhile (· == '/') = []
  · -- nothing but slashes, or nothing at all
    rw [htrim, List.nil_append, resolve_slash_cons, walk_plain hplain]
    cases hroot : root.toList with
    | nil => rfl
    | cons c cs =>
      rw [hroot] at htrim
      have : resolve cwd root.toList = [] := by
        rw [hroot]
        exact resolve_slashes (List.cons_ne_nil c cs) htrim
      show [] ++ [name.toList] = resolvePath cwd root ++ [name.toList]
      unfold resolvePath
      rw [this]
  · have hroot : root.toList.isEmpty = false := by
      rw [List.isEmpty_eq_false_iff]
      intro he
      exact htrim (by rw [he]; rfl)
    rw [resolve_append_slash htrim, walk_plain hplain, resolve_rdropWhile htrim, hroot]
    rfl

theorem resolvePath_contextDir (h : validateServiceName name = .ok ()) :
    resolvePath cwd (pathJoin (serviceDir root name) context) =
      walk (resolvePath cwd (serviceDir root name)) context.toList := by
  have hplain := plain_of_validateServiceName h
  have hdir : (serviceDir root name).toList ≠ [] := by
    rw [toList_serviceDir hplain.ne_nil hplain.no_slash]
    exact List.append_ne_nil_of_right_ne_nil _ (List.cons_ne_nil _ _)
  have hwalk : ∀ dir : Dir, walk dir (trimMatches context '/').toList = walk dir context.toList := by
    intro dir
    rw [toList_trimMatches, walk_rdropWhile, walk_dropWhile]
  unfold resolvePath
  rw [toList_contextDir hplain.ne_nil hplain.no_slash, ← hwalk]
  split
  · next hempty =>
    rw [List.isEmpty_iff.mp hempty, List.append_nil, walk_nil]
  · exact resolve_append_slash hdir

/-- Every directory of a service is in the one with its name. -/
theorem prefix_dirs (hcontext : ['.', '.'] ∉ pieces context.toList)
    (h : validateServiceName name = .ok ()) {path : String} (hpath : path ∈ dirs root context name) :
    rootDir cwd root ++ [name.toList] <+: resolvePath cwd path := by
  have hdir : rootDir cwd root ++ [name.toList] = resolvePath cwd (serviceDir root name) :=
    (resolvePath_serviceDir h).symm
  rw [hdir]
  unfold dirs at hpath
  rcases List.mem_cons.mp hpath with rfl | hpath
  · exact List.prefix_rfl
  · rw [List.mem_singleton.mp hpath, resolvePath_contextDir h]
    exact prefix_walk hcontext

end resolved

/-- The directories that the commands of a service name. -/
theorem mem_dirs_of_touched {service path : String} {config : DockerCommandConfig}
    (h : Resource.directory path ∈ (composeDeployCommands service config ++
      dockerfileDeployCommands service config).flatMap RemoteCommand.touched) :
    path ∈ dirs config.remoteServicesRoot config.dockerfileContextDir service := by
  rw [List.flatMap_append, touched_compose, touched_dockerfile] at h
  simp only [List.mem_append, List.mem_cons, Resource.directory.injEq, reduceCtorEq, or_false,
    false_or, List.not_mem_nil] at h
  rw [dirs, List.mem_cons, List.mem_singleton]
  rcases h with (hdir | hdir) | hcontext
  · exact .inl hdir
  · exact .inl hdir
  · exact .inr hcontext

/-- **Directories are apart.** From any working directory, under any root and with a context that
does not go up, a service's directory is the one with its name in the root, the build context is in
it, and no directory that the commands of one service name is equal to or contains one of
another's. -/
theorem service_dirs_apart (cwd : Dir) (config : DockerCommandConfig)
    (hcontext : ['.', '.'] ∉ pieces config.dockerfileContextDir.toList) :
    (∀ name, validateServiceName name = .ok () →
      resolvePath cwd (serviceDir config.remoteServicesRoot name) =
          rootDir cwd config.remoteServicesRoot ++ [name.toList] ∧
        resolvePath cwd (serviceDir config.remoteServicesRoot name) <+: resolvePath cwd
          (pathJoin (serviceDir config.remoteServicesRoot name) config.dockerfileContextDir)) ∧
    ∀ a b, validateServiceName a = .ok () → validateServiceName b = .ok () → a ≠ b →
      ∀ p q, Resource.directory p ∈ (composeDeployCommands a config ++
          dockerfileDeployCommands a config).flatMap RemoteCommand.touched →
        Resource.directory q ∈ (composeDeployCommands b config ++
          dockerfileDeployCommands b config).flatMap RemoteCommand.touched →
        ¬ resolvePath cwd p <+: resolvePath cwd q := by
  refine ⟨fun name h => ⟨resolvePath_serviceDir h, ?_⟩, fun a b ha hb hab p q hp hq => ?_⟩
  · rw [resolvePath_contextDir h]
    exact prefix_walk hcontext
  · have hne : a.toList ≠ b.toList := fun he => hab (String.toList_injective he)
    exact not_prefix_of_siblings hne (prefix_dirs hcontext ha (mem_dirs_of_touched hp))
      (prefix_dirs hcontext hb (mem_dirs_of_touched hq))

/-- Two services side by side, the root with slashes on both ends. -/
theorem service_dirs_apart_srv :
    let config : DockerCommandConfig := ⟨"//srv/wara///", "/build/"⟩
    resolvePath [] (serviceDir config.remoteServicesRoot "a.b") =
        rootDir [] config.remoteServicesRoot ++ ["a.b".toList] ∧
      ¬ resolvePath [] (serviceDir config.remoteServicesRoot "a") <+:
        resolvePath [] (serviceDir config.remoteServicesRoot "a.b") :=
  have h := service_dirs_apart [] ⟨"//srv/wara///", "/build/"⟩ (by decide +kernel)
  ⟨(h.1 "a.b" (by decide +kernel)).1, h.2 "a" "a.b" (by decide +kernel) (by decide +kernel)
    (by decide +kernel) _ _ (by decide +kernel) (by decide +kernel)⟩

/-- An empty root is the working directory to everybody else. -/
theorem serviceDir_empty_root : ¬ ∀ (cwd : Dir) (root name : String),
    validateServiceName name = .ok () →
    resolvePath cwd (serviceDir root name) = resolvePath cwd root ++ [name.toList] := by
  intro hclaim
  have h := hclaim ["home".toList] "" "api" (by decide +kernel)
  exact absurd h (by decide +kernel)

end Wara.Docker
