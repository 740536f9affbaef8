import Mathlib.Data.List.DropRight
import Wara.Api.Deployable

/-!
# Values that read as options

A shell word that begins with `-` is an option to the program that gets it,
quoted or not. The container, the built image and, under an absolute root, the
directories begin with something else. The image that a service pulls is as the
user gave it, and a reference may begin with `-`.
-/

namespace Wara.Docker

open Rust

/-- The word is parsed as an option. -/
def readsAsOption (word : String) : Bool := startsWith word "-"

namespace RemoteCommand

/-- The values of the command. -/
def args (c : RemoteCommand) : List String :=
  c.tokens.filterMap fun
    | .literal _ => none
    | .arg value => some value

/-- The image of a `docker run`: the first operand after the options. -/
def imageRun (c : RemoteCommand) : Option String :=
  match c.tokens with
  | .literal "docker run -d --name" :: .arg _ :: .literal "--restart unless-stopped" :: rest =>
    (args ⟨rest⟩).find? fun word => !readsAsOption word
  | _ => none

end RemoteCommand

/-- Every value is an operand of the program that gets it. -/
def Operands (commands : List RemoteCommand) : Prop :=
  ∀ c ∈ commands, ∀ value ∈ c.args, readsAsOption value = false

theorem readsAsOption_eq (word : String) :
    readsAsOption word = (word.toList.head? == some '-') := by
  unfold readsAsOption startsWith
  cases word.toList with
  | nil => rfl
  | cons c cs =>
    show ('-' == c && List.isPrefixOf [] cs) = (some c == some '-')
    rw [List.isPrefixOf_nil_left, Bool.and_true, BEq.comm]
    rfl

/-! ## The builders -/

section builders

open RemoteCommand

variable {image service : String} {config : DockerCommandConfig}

theorem args_image : (imageDeployCommands image service).flatMap args =
    [image, containerName service, containerName service, image] := by
  simp [imageDeployCommands, args, lit, arg, new]

theorem args_compose : (composeDeployCommands service config).flatMap args =
    [serviceDir config.remoteServicesRoot service,
      serviceDir config.remoteServicesRoot service] := by
  simp [composeDeployCommands, args, lit, arg, new]

theorem args_dockerfile : (dockerfileDeployCommands service config).flatMap args =
    [builtImageName service, pathJoin (serviceDir config.remoteServicesRoot service)
        config.dockerfileContextDir, containerName service, containerName service,
      builtImageName service] := by
  simp [dockerfileDeployCommands, args, lit, arg, new]

theorem imageRun_image : (imageDeployCommands image service).filterMap imageRun =
    if readsAsOption image then [] else [image] := by
  cases h : readsAsOption image <;> simp [imageDeployCommands, imageRun, args, lit, arg, new, h]

theorem imageRun_compose : (composeDeployCommands service config).filterMap imageRun = [] := by
  simp [composeDeployCommands, imageRun, lit, arg, new]

theorem readsAsOption_containerName : readsAsOption (containerName service) = false := by
  rw [readsAsOption_eq, containerName, String.toList_append]
  rfl

theorem readsAsOption_builtImageName : readsAsOption (builtImageName service) = false := by
  rw [readsAsOption_eq, builtImageName, String.toList_append, String.toList_append,
    String.toList_append]
  rfl

theorem imageRun_dockerfile : (dockerfileDeployCommands service config).filterMap imageRun =
    [builtImageName service] := by
  simp [dockerfileDeployCommands, imageRun, args, lit, arg, new, readsAsOption_builtImageName]

theorem operands_iff {commands : List RemoteCommand} :
    Operands commands ↔ ∀ value ∈ commands.flatMap args, readsAsOption value = false := by
  simp only [Operands, List.forall_mem_flatMap]

end builders

/-- A path in a service's directory begins as the root does, or with the slash after it. -/
theorem readsAsOption_of_within {root name path : String} (habs : startsWith root "/" = true)
    (h : Within root name path) : readsAsOption path = false := by
  obtain ⟨rest, hpath, -⟩ := h
  have htrim : (trimEndMatches root '/').toList <+: root.toList := by
    unfold trimEndMatches
    rw [String.toList_ofList]
    exact List.rdropWhile_prefix (· == '/') root.toList
  rw [readsAsOption_eq, hpath]
  cases hroot : (trimEndMatches root '/').toList with
  | nil => rfl
  | cons c cs =>
    obtain ⟨more, hmore⟩ := htrim
    rw [hroot] at hmore
    unfold startsWith at habs
    rw [← hmore] at habs
    have hslash : ('/' == c) = true := (Bool.and_eq_true_iff.mp habs).1
    rw [← eq_of_beq hslash]
    rfl

/-! ## The commands of a service -/

section planned

variable {x : Ext} {service : AppService} {config : Config} {commands : List RemoteCommand}

/-- The values that are not the user's image are operands. -/
theorem operands_commands_iff (habs : startsWith config.remoteServicesRoot "/" = true)
    (hsound : service.Sound) : Operands (service.commands config) ↔
      ¬ (service.deployKind = .dockerImage ∧ readsAsOption service.pulledImage = true) := by
  obtain ⟨hne, hslash⟩ := validateServiceName_ok hsound.1
  have hdir := readsAsOption_of_within habs (within_serviceDir hne hslash)
  have hcontext := readsAsOption_of_within habs
    (within_contextDir hne hslash config.dockerfileContextDir)
  have hcontainer : readsAsOption (containerName service.name) = false :=
    readsAsOption_containerName
  have hbuilt : readsAsOption (builtImageName service.name) = false := readsAsOption_builtImageName
  rw [operands_iff]
  unfold AppService.commands
  cases service.deployKind with
  | dockerImage => simp [args_image, hcontainer]
  | dockerCompose => simp [args_compose, hdir]
  | dockerfile => simp [args_dockerfile, hcontainer, hbuilt, hcontext]

theorem imageRun_commands (h : ¬ (service.deployKind = .dockerImage ∧
    readsAsOption service.pulledImage = true)) :
    (service.commands config).filterMap RemoteCommand.imageRun = service.runImage.toList := by
  unfold AppService.commands AppService.runImage
  cases hkind : service.deployKind with
  | dockerImage =>
    have himage : readsAsOption service.pulledImage = false :=
      Bool.eq_false_iff.mpr fun he => h ⟨hkind, he⟩
    simp [imageRun_image, himage]
  | dockerCompose => exact imageRun_compose
  | dockerfile => exact imageRun_dockerfile

/-- **When no value is parsed as an option.** Whenever a plan is made under an absolute root, every
value in it is an operand and the container is run from exactly the image asked for, unless the
service pulls an image whose reference begins with `-`. -/
theorem plannedCommands_operands_iff (habs : startsWith config.remoteServicesRoot "/" = true)
    (h : plannedCommands x service config = .ok commands) :
    (Operands commands ∧
        commands.filterMap RemoteCommand.imageRun = service.runImage.toList) ↔
      ¬ (service.deployKind = .dockerImage ∧ readsAsOption service.pulledImage = true) := by
  obtain ⟨hsound, rfl⟩ := plannedCommands_ok.mp h
  rw [operands_commands_iff habs hsound]
  exact ⟨And.left, fun hplain => ⟨hplain, imageRun_commands hplain⟩⟩

end planned

/-! ## An option for an image -/

/-- A service that mounts the host's file system, if its image is believed. -/
def mounting : AppService :=
  ⟨1, 2, 3, "web", .dockerImage, some "-v/:/host", none, none, none⟩

def atHome : Config := { (default : Config) with
  remoteServicesRoot := defaultRemoteServicesRoot
  dockerfileContextDir := defaultDockerfileContextDir }

/-- The image reference passes the validator and is an option of `docker run`, which is left without
an image. -/
theorem plannedCommands_option : ¬ ∀ (x : Ext) (service : AppService) (config : Config)
    (commands : List RemoteCommand), startsWith config.remoteServicesRoot "/" = true →
    plannedCommands x service config = .ok commands → Operands commands ∧
      commands.filterMap RemoteCommand.imageRun = service.runImage.toList := by
  intro hclaim
  have hsound : mounting.Sound := by decide +kernel
  have hoperands := (hclaim Symbolic.ext mounting atHome (mounting.commands atHome)
    (by decide +kernel) (plannedCommands_ok.mpr ⟨hsound, rfl⟩)).1
  exact absurd hoperands (by
    rw [operands_commands_iff (by decide +kernel) hsound]
    decide +kernel)

/-- A plan whose values are operands. -/
theorem plannedCommands_operands_web :
    let service : AppService := { mounting with image := some "nginx:latest" }
    Operands (service.commands atHome) ∧
      (service.commands atHome).filterMap RemoteCommand.imageRun = service.runImage.toList :=
  (plannedCommands_operands_iff (x := Symbolic.ext) (by decide +kernel)
    (plannedCommands_ok.mpr ⟨by decide +kernel, rfl⟩)).mpr (by decide +kernel)

end Wara.Docker
