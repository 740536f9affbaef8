import Wara.Docker.Command

/-!
# What the commands of a service touch

Containers, directories and images of a host, read off the tokens of the
commands. All of them are named after the service, except the image that a
service pulls. The names of two services give different containers, different
directories and different built images: a valid name has no `/`, so it can be
read back from a path.
-/

namespace Wara.Docker

open Rust

inductive Resource where
  | container (name : String)
  | directory (path : String)
  | image (name : String)
  deriving DecidableEq, Repr

namespace RemoteCommand

/-- What the command names on the host. -/
def touched (c : RemoteCommand) : List Resource :=
  match c.tokens with
  | [.literal "docker pull", .arg image] => [.image image]
  | [.literal "docker rm -f", .arg container, .literal _] => [.container container]
  | [.literal "docker run -d --name", .arg container, .literal _, .arg image] =>
    [.container container, .image image]
  | [.literal "docker build -t", .arg image, .arg context] => [.image image, .directory context]
  | [.literal "docker restart", .arg container] => [.container container]
  | [.literal "mkdir -p", .arg dir] => [.directory dir]
  | [.literal "cd", .arg dir, .literal _] => [.directory dir]
  | _ => []

/-- The image that the command builds. -/
def built (c : RemoteCommand) : List Resource :=
  match c.tokens with
  | [.literal "docker build -t", .arg image, .arg _] => [.image image]
  | _ => []

/-- The command pulls the image. -/
def Pulls (c : RemoteCommand) (image : String) : Prop :=
  c.tokens = [.literal "docker pull", .arg image]

/-- The command runs the image in a container. -/
def RunsImage (c : RemoteCommand) (image : String) : Prop :=
  ∃ container, c.tokens = [.literal "docker run -d --name", .arg container,
    .literal "--restart unless-stopped", .arg image]

end RemoteCommand

/-- What both lists of commands name is an image that neither of them builds. -/
def Apart (cs ds : List RemoteCommand) : Prop :=
  ∀ r ∈ cs.flatMap RemoteCommand.touched, r ∈ ds.flatMap RemoteCommand.touched →
    (∃ image, r = .image image) ∧ r ∉ cs.flatMap RemoteCommand.built ∧
      r ∉ ds.flatMap RemoteCommand.built

theorem Apart.symm {cs ds : List RemoteCommand} (h : Apart cs ds) : Apart ds cs :=
  fun r hd hc => ⟨(h r hc hd).1, (h r hc hd).2.2, (h r hc hd).2.1⟩

/-! ## The builders -/

section builders

open RemoteCommand

variable (image service : String) (config : DockerCommandConfig)

theorem touched_image : (imageDeployCommands image service).flatMap touched =
    [.image image, .container (containerName service), .container (containerName service),
      .image image] := rfl

theorem touched_compose : (composeDeployCommands service config).flatMap touched =
    [.directory (serviceDir config.remoteServicesRoot service),
      .directory (serviceDir config.remoteServicesRoot service)] := rfl

theorem touched_dockerfile : (dockerfileDeployCommands service config).flatMap touched =
    [.image (builtImageName service), .directory (pathJoin
        (serviceDir config.remoteServicesRoot service) config.dockerfileContextDir),
      .container (containerName service), .container (containerName service),
      .image (builtImageName service)] := rfl

theorem touched_restart : (restartCommand service).touched = [.container (containerName service)] := rfl

theorem built_image : (imageDeployCommands image service).flatMap built = [] := rfl

theorem built_compose : (composeDeployCommands service config).flatMap built = [] := rfl

theorem built_dockerfile : (dockerfileDeployCommands service config).flatMap built =
    [.image (builtImageName service)] := rfl

theorem built_restart : (restartCommand service).built = [] := rfl

end builders

/-! ## Names -/

theorem containerName_injective {a b : String} (h : containerName a = containerName b) : a = b := by
  have hl := congrArg String.toList h
  unfold containerName at hl
  rw [String.toList_append, String.toList_append] at hl
  exact String.toList_injective (List.append_cancel_left hl)

theorem validateServiceName_iff {name : String} : validateServiceName name = .ok () ↔
    ∃ first rest, name.toList = first :: rest ∧ isServiceNameStart first = true ∧ len name ≤ 63 ∧
      ∀ c ∈ rest, isServiceNameChar c = true := by
  unfold validateServiceName
  cases hn : name.toList with
  | nil => exact ⟨nofun, fun ⟨_, _, h, _⟩ => nomatch h⟩
  | cons first rest =>
    have hvalid : (isServiceNameStart first &&
        (decide (len name ≤ 63) && rest.all isServiceNameChar)) = true ↔
        isServiceNameStart first = true ∧ len name ≤ 63 ∧
          ∀ c ∈ rest, isServiceNameChar c = true := by
      rw [Bool.and_eq_true, Bool.and_eq_true, decide_eq_true_iff, List.all_eq_true]
    dsimp only
    split
    · next hok => exact ⟨fun _ => ⟨first, rest, rfl, hvalid.mp hok⟩, fun _ => rfl⟩
    · next hno =>
      refine ⟨nofun, fun ⟨f, r, h, hall⟩ => absurd ?_ hno⟩
      cases h
      exact hvalid.mpr hall

theorem validateServiceName_ok {name : String} (h : validateServiceName name = .ok ()) :
    name.toList ≠ [] ∧ '/' ∉ name.toList := by
  obtain ⟨first, rest, hname, hfirst, -, hrest⟩ := validateServiceName_iff.mp h
  rw [hname]
  refine ⟨List.cons_ne_nil _ _, fun hmem => ?_⟩
  rcases List.mem_cons.mp hmem with rfl | hmem
  · exact absurd hfirst (by decide)
  · exact absurd (hrest '/' hmem) (by decide)

/-! ## Directories -/

/-- The path is the service's directory, or one in it. -/
def Within (root name path : String) : Prop :=
  ∃ rest, path.toList = (trimEndMatches root '/').toList ++ '/' :: (name.toList ++ rest) ∧
    (rest = [] ∨ ∃ tail, rest = '/' :: tail)

/-- **A path belongs to one name.** -/
theorem Within.eq {root a b path : String} (ha : '/' ∉ a.toList) (hb : '/' ∉ b.toList)
    (h : Within root a path) (h' : Within root b path) : a = b := by
  have hname : ∀ {cs rest : List Char}, '/' ∉ cs → (rest = [] ∨ ∃ tail, rest = '/' :: tail) →
      (cs ++ rest).takeWhile (· ≠ '/') = cs := by
    intro cs rest hcs hrest
    have hall : ∀ c ∈ cs, decide (c ≠ '/') = true := fun c hc =>
      decide_eq_true fun he => hcs (he ▸ hc)
    rw [List.takeWhile_append_of_pos hall]
    rcases hrest with rfl | ⟨tail, rfl⟩
    · rw [List.takeWhile_nil, List.append_nil]
    · rw [List.takeWhile_cons_of_neg (by simp), List.append_nil]
  obtain ⟨rest, hpath, hrest⟩ := h
  obtain ⟨rest', hpath', hrest'⟩ := h'
  rw [hpath] at hpath'
  have hsame : a.toList ++ rest = b.toList ++ rest' :=
    (List.cons.inj (List.append_cancel_left hpath')).2
  have htake := congrArg (List.takeWhile (· ≠ '/')) hsame
  rw [hname ha hrest, hname hb hrest'] at htake
  exact String.toList_injective htake

theorem trimEndMatches_of_last {s : String} {c last : Char} {init : List Char}
    (hs : s.toList = init ++ [last]) (hc : last ≠ c) : trimEndMatches s c = s := by
  unfold trimEndMatches
  rw [hs, List.reverse_append, List.reverse_singleton, List.singleton_append,
    List.dropWhile_cons_of_neg (by simpa using hc), List.reverse_cons, List.reverse_reverse, ← hs,
    String.ofList_toList]

theorem trimMatches_of_not_mem {s : String} {c : Char} (h : c ∉ s.toList) : trimMatches s c = s := by
  have hne : ∀ a ∈ s.toList, ¬ (a == c) = true := fun a ha he => h (by rwa [← eq_of_beq he])
  have hdrop : s.toList.dropWhile (· == c) = s.toList := by
    cases hs : s.toList with
    | nil => rfl
    | cons a as => exact List.dropWhile_cons_of_neg (hne a (hs ▸ List.mem_cons_self))
  unfold trimMatches
  rw [hdrop, String.ofList_toList]
  rcases List.eq_nil_or_concat s.toList with hs | ⟨init, last, hs⟩
  · unfold trimEndMatches
    rw [hs]
    exact String.toList_injective (by rw [String.toList_ofList, hs]; rfl)
  · rw [List.concat_eq_append] at hs
    refine trimEndMatches_of_last hs fun he => h ?_
    rw [hs, ← he]
    exact List.mem_append_right _ (List.mem_singleton_self _)

section paths

variable {root name : String} (hname : name.toList ≠ []) (hslash : '/' ∉ name.toList)
include hname hslash

theorem toList_serviceDir :
    (serviceDir root name).toList = (trimEndMatches root '/').toList ++ '/' :: name.toList := by
  unfold serviceDir pathJoin
  dsimp only
  rw [trimMatches_of_not_mem hslash, List.isEmpty_eq_false_iff.mpr hname]
  cases hroot : (trimEndMatches root '/').toList.isEmpty with
  | true =>
    rw [List.isEmpty_iff.mp hroot]
    exact String.toList_append
  | false =>
    show (trimEndMatches root '/' ++ "/" ++ name).toList = _
    rw [String.toList_append, String.toList_append, List.append_assoc]
    rfl

theorem within_serviceDir : Within root name (serviceDir root name) :=
  ⟨[], by rw [List.append_nil]; exact toList_serviceDir hname hslash, .inl rfl⟩

theorem toList_contextDir (context : String) :
    (pathJoin (serviceDir root name) context).toList = (serviceDir root name).toList ++
      if (trimMatches context '/').toList.isEmpty then []
      else '/' :: (trimMatches context '/').toList := by
  have hdir : (serviceDir root name).toList =
      (trimEndMatches root '/').toList ++ '/' :: name.toList := toList_serviceDir hname hslash
  have htrim : trimEndMatches (serviceDir root name) '/' = serviceDir root name := by
    obtain ⟨init, last, hlast⟩ := (List.eq_nil_or_concat name.toList).resolve_left hname
    rw [List.concat_eq_append] at hlast
    have hend : (serviceDir root name).toList =
        ((trimEndMatches root '/').toList ++ '/' :: init) ++ [last] := by
      rw [hdir, hlast, List.append_assoc, List.cons_append]
    refine trimEndMatches_of_last hend fun he => hslash ?_
    rw [hlast, ← he]
    exact List.mem_append_right _ (List.mem_singleton_self _)
  have hne : (serviceDir root name).toList.isEmpty = false := by
    rw [hdir, List.isEmpty_eq_false_iff]
    exact List.append_ne_nil_of_right_ne_nil _ (List.cons_ne_nil _ _)
  unfold pathJoin
  dsimp only
  rw [htrim, hne]
  cases (trimMatches context '/').toList.isEmpty with
  | true => exact (List.append_nil _).symm
  | false =>
    show (serviceDir root name ++ "/" ++ trimMatches context '/').toList = _
    rw [String.toList_append, String.toList_append, List.append_assoc]
    rfl

/-- The build context is in the service's directory. -/
theorem within_contextDir (context : String) :
    Within root name (pathJoin (serviceDir root name) context) := by
  unfold Within
  rw [toList_contextDir hname hslash, toList_serviceDir hname hslash]
  cases (trimMatches context '/').toList.isEmpty with
  | true =>
    refine ⟨[], ?_, .inl rfl⟩
    rw [if_pos rfl, List.append_nil, List.append_nil]
  | false =>
    refine ⟨'/' :: (trimMatches context '/').toList, ?_, .inr ⟨_, rfl⟩⟩
    rw [if_neg Bool.false_ne_true, List.append_assoc, List.cons_append]

end paths

end Wara.Docker
