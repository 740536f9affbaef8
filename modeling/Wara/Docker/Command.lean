import Wara.Rust.Str

/-!
# Remote commands

`backend/src/libs/docker.rs`: commands are lists of tokens; literals are fixed
shell text, arguments hold user values and are single-quoted by `render`.
-/

namespace Wara.Docker

open Rust

def defaultRemoteServicesRoot : String := "/opt/wara/services"
def defaultDockerfileContextDir : String := "context"
def defaultContainerNamePrefix : String := "wara-"
def defaultBuiltImagePrefix : String := "wara"

inductive DeployKind where
  | dockerImage
  | dockerCompose
  | dockerfile
  deriving DecidableEq, Repr

def DeployKind.asStr : DeployKind → String
  | .dockerImage => "docker_image"
  | .dockerCompose => "docker_compose"
  | .dockerfile => "dockerfile"

def DeployKind.from (value : String) : DeployKind :=
  if value = "docker_compose" then .dockerCompose
  else if value = "dockerfile" then .dockerfile
  else .dockerImage

@[simp] theorem DeployKind.from_asStr (k : DeployKind) : DeployKind.from k.asStr = k := by
  cases k <;> decide

inductive ProxyKind where
  | nginx
  | traefik
  deriving DecidableEq, Repr

def ProxyKind.asStr : ProxyKind → String
  | .nginx => "nginx"
  | .traefik => "traefik"

def ProxyKind.from (value : String) : ProxyKind :=
  if value = "traefik" then .traefik else .nginx

@[simp] theorem ProxyKind.from_asStr (k : ProxyKind) : ProxyKind.from k.asStr = k := by
  cases k <;> decide

inductive Token where
  | literal (l : String)
  | arg (value : String)
  deriving DecidableEq, Repr

structure RemoteCommand where
  tokens : List Token
  deriving DecidableEq, Repr

/-- Single quotes around a value, each embedded quote closed, escaped and reopened. -/
def shellQuote (value : String) : String := "'" ++ replaceChar value '\'' "'\\''" ++ "'"

namespace RemoteCommand

def new : RemoteCommand := ⟨[]⟩

def lit (c : RemoteCommand) (literal : String) : RemoteCommand := ⟨c.tokens ++ [.literal literal]⟩

def arg (c : RemoteCommand) (value : String) : RemoteCommand := ⟨c.tokens ++ [.arg value]⟩

def renderToken : Token → String
  | .literal literal => literal
  | .arg value => shellQuote value

def render (c : RemoteCommand) : String := " ".intercalate (c.tokens.map renderToken)

end RemoteCommand

/-! ## Validation -/

def isServiceNameStart (c : Char) : Bool := isAsciiLowercase c || isAsciiDigit c

def isServiceNameChar (c : Char) : Bool :=
  isAsciiLowercase c || isAsciiDigit c || c == '.' || c == '-' || c == '_'

/-- What the validators refuse. -/
inductive Refused where
  | serviceName (name : String)
  | imageReference (image : String)
  deriving DecidableEq, Repr

/-- The text of the error, in which `{:?}` prints the value. -/
def Refused.message (prints : Char → Bool) : Refused → String
  | .serviceName name => "service name must start with a lowercase letter or digit and contain only " ++
    "[a-z0-9._-] (got " ++ debug prints name ++ ")"
  | .imageReference image => "invalid image reference " ++ debug prints image

def validateServiceName (name : String) : Except Refused Unit :=
  let valid := match name.toList with
    | first :: rest => isServiceNameStart first && (decide (len name ≤ 63) && rest.all isServiceNameChar)
    | [] => false
  if valid then .ok () else .error (.serviceName name)

def isImageReferenceChar (c : Char) : Bool :=
  isAsciiAlphanumeric c || ['.', '_', '-', ':', '/', '@'].contains c

def validateImageReference (image : String) : Except Refused Unit :=
  let valid := !image.toList.isEmpty && decide (len image ≤ 255) &&
    image.toList.all isImageReferenceChar
  if valid then .ok () else .error (.imageReference image)

/-! ## Builders -/

structure DockerCommandConfig where
  remoteServicesRoot : String
  dockerfileContextDir : String

def containerName (service : String) : String := defaultContainerNamePrefix ++ service

def builtImageName (service : String) : String :=
  defaultBuiltImagePrefix ++ "/" ++ service ++ ":latest"

def pathJoin (parent child : String) : String :=
  let parent := trimEndMatches parent '/'
  let child := trimMatches child '/'
  match parent.toList.isEmpty, child.toList.isEmpty with
  | true, true => "/"
  | true, false => "/" ++ child
  | false, true => parent
  | false, false => parent ++ "/" ++ child

def serviceDir (remoteServicesRoot service : String) : String := pathJoin remoteServicesRoot service

def imageDeployCommands (image service : String) : List RemoteCommand :=
  let container := containerName service
  [ RemoteCommand.new |>.lit "docker pull" |>.arg image,
    RemoteCommand.new |>.lit "docker rm -f" |>.arg container |>.lit "|| true",
    RemoteCommand.new |>.lit "docker run -d --name" |>.arg container
      |>.lit "--restart unless-stopped" |>.arg image ]

def composeDeployCommands (service : String) (config : DockerCommandConfig) : List RemoteCommand :=
  let serviceDir := serviceDir config.remoteServicesRoot service
  [ RemoteCommand.new |>.lit "mkdir -p" |>.arg serviceDir,
    RemoteCommand.new |>.lit "cd" |>.arg serviceDir |>.lit "&& docker compose up -d" ]

def dockerfileDeployCommands (service : String) (config : DockerCommandConfig) :
    List RemoteCommand :=
  let serviceDir := serviceDir config.remoteServicesRoot service
  let contextDir := pathJoin serviceDir config.dockerfileContextDir
  let image := builtImageName service
  let container := containerName service
  [ RemoteCommand.new |>.lit "docker build -t" |>.arg image |>.arg contextDir,
    RemoteCommand.new |>.lit "docker rm -f" |>.arg container |>.lit "|| true",
    RemoteCommand.new |>.lit "docker run -d --name" |>.arg container
      |>.lit "--restart unless-stopped" |>.arg image ]

def restartCommand (service : String) : RemoteCommand :=
  RemoteCommand.new |>.lit "docker restart" |>.arg (containerName service)

end Wara.Docker
