import Wara.Docker.Command
import Wara.Shell.Lex

/-!
# Rendered commands against the shell

What a shell reads in a rendered command: the words and operators of the
literals, and for each argument one quoted word with the argument's value.
-/

namespace Wara.Docker

open Shell

/-- Every literal the builders use. -/
def builderLiterals : List String :=
  ["docker pull", "docker rm -f", "|| true", "docker run -d --name", "--restart unless-stopped",
    "mkdir -p", "cd", "&& docker compose up -d", "docker build -t", "docker restart"]

/-- A blank-separated part of a literal: an operator, or a word of plain characters. -/
def literalTok (part : List Char) : Tok :=
  if operators.contains part then .op part else .word (part.map .plain)

/-- What a token is meant to contribute to the command line. -/
def Token.toks : Token → List Tok
  | .literal l => (l.toList.splitOn ' ').map literalTok
  | .arg value => [.word (value.toList.map .quoted)]

/-- The command uses only literals of the builders. -/
def RemoteCommand.FromBuilders (c : RemoteCommand) : Prop :=
  ∀ l, Token.literal l ∈ c.tokens → l ∈ builderLiterals

theorem lex_builderLiteral : ∀ l ∈ builderLiterals,
    lex l.toList = some (Token.literal l).toks ∧ (modeAfter .start l.toList).open = true := by
  decide

theorem toList_shellQuote (value : String) :
    (shellQuote value).toList = singleQuoted value.toList := by
  simp only [shellQuote, Rust.replaceChar, String.toList_append, String.toList_ofList, singleQuoted]
  rfl

theorem lex_renderToken {t : Token} (h : ∀ l, t = .literal l → l ∈ builderLiterals) :
    lex (RemoteCommand.renderToken t).toList = some t.toks ∧
      (modeAfter .start (RemoteCommand.renderToken t).toList).open = true := by
  cases t with
  | literal l => exact lex_builderLiteral l (h l rfl)
  | arg value =>
    simp only [RemoteCommand.renderToken, toList_shellQuote, Token.toks]
    exact lex_singleQuoted value.toList

theorem lex_render {c : RemoteCommand} (h : c.FromBuilders) :
    lex c.render.toList = some (c.tokens.flatMap Token.toks) := by
  let texts := c.tokens.map fun t => ((RemoteCommand.renderToken t).toList, t.toks)
  have hl : lex ([' '].intercalate (texts.map Prod.fst)) = some (texts.flatMap Prod.snd) := by
    refine lex_intercalate fun p hp => ?_
    obtain ⟨t, ht, rfl⟩ := List.mem_map.mp hp
    exact lex_renderToken fun l hl => h l (hl ▸ ht)
  rw [List.map_map, List.flatMap_map] at hl
  rw [RemoteCommand.render, String.toList_intercalate, List.map_map]
  exact hl

/-! ## The builders -/

theorem imageDeployCommands_fromBuilders (image service : String) :
    ∀ c ∈ imageDeployCommands image service, c.FromBuilders := by
  simp [imageDeployCommands, RemoteCommand.FromBuilders, RemoteCommand.new, RemoteCommand.lit,
    RemoteCommand.arg, builderLiterals]

theorem composeDeployCommands_fromBuilders (service : String) (config : DockerCommandConfig) :
    ∀ c ∈ composeDeployCommands service config, c.FromBuilders := by
  simp [composeDeployCommands, RemoteCommand.FromBuilders, RemoteCommand.new, RemoteCommand.lit,
    RemoteCommand.arg, builderLiterals]

theorem dockerfileDeployCommands_fromBuilders (service : String) (config : DockerCommandConfig) :
    ∀ c ∈ dockerfileDeployCommands service config, c.FromBuilders := by
  simp [dockerfileDeployCommands, RemoteCommand.FromBuilders, RemoteCommand.new,
    RemoteCommand.lit, RemoteCommand.arg, builderLiterals]

theorem restartCommand_fromBuilders (service : String) :
    (restartCommand service).FromBuilders := by
  simp [restartCommand, RemoteCommand.FromBuilders, RemoteCommand.new, RemoteCommand.lit,
    RemoteCommand.arg, builderLiterals]

/-- **No shell injection.** A shell reads a rendered command as the words and operators of its
literals and, for each argument, exactly one word: its value is the argument, every character
of it quoted. The commands of the four builders are of this kind. -/
theorem render_injection_free :
    (∀ c : RemoteCommand, c.FromBuilders →
      lex c.render.toList = some (c.tokens.flatMap Token.toks) ∧
      ∀ value, Token.arg value ∈ c.tokens → ∃ w : Word, (Token.arg value).toks = [.word w] ∧
        w.value = value.toList ∧ ∀ p ∈ w, ∃ ch, p = .quoted ch) ∧
    (∀ image service, ∀ c ∈ imageDeployCommands image service, c.FromBuilders) ∧
    (∀ service config, ∀ c ∈ composeDeployCommands service config, c.FromBuilders) ∧
    (∀ service config, ∀ c ∈ dockerfileDeployCommands service config, c.FromBuilders) ∧
    ∀ service, (restartCommand service).FromBuilders := by
  refine ⟨fun c hc => ⟨lex_render hc, fun value _ => ?_⟩, imageDeployCommands_fromBuilders,
    composeDeployCommands_fromBuilders, dockerfileDeployCommands_fromBuilders,
    restartCommand_fromBuilders⟩
  refine ⟨value.toList.map .quoted, rfl, value_quoted _, fun p hp => ?_⟩
  obtain ⟨ch, -, rfl⟩ := List.mem_map.mp hp
  exact ⟨ch, rfl⟩

example : lex (restartCommand "x'; rm -rf / #").render.toList =
    some [.word ("docker".toList.map .plain), .word ("restart".toList.map .plain),
      .word ("wara-x'; rm -rf / #".toList.map .quoted)] := by decide

end Wara.Docker
