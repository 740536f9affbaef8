import Wara.Platform.Secrets
import Wara.Service.Solo

/-!
# One server check, over any transport

`run_controlled_commands` sends nothing yet, so `check_server` is taken here
over any function in its place: what it returns and stores is a function of the
server's row, the transport's answer and the time.
-/

namespace Wara

open Interleave Store Service

/-- What `run_controlled_commands` may do in its place. -/
abbrev Transport := SshTarget → List String → Except WaraError String

/-! ## The output of the probes -/

/-- The trimmed lines that are not blank. -/
def probeLines (output : String) : List String :=
  ((Rust.lines output).map Rust.trim).filter fun line => ¬ line.toList.isEmpty

theorem ne_empty_of_probeLines {output line : String} (h : line ∈ probeLines output) :
    line.toList.isEmpty = false := by
  simpa using (List.mem_filter.mp h).2

/-- The version is read off when the first line is the marker and a second line follows. -/
theorem parseServerCheckOutput_ok_iff {output version : String} :
    parseServerCheckOutput output = .ok version ↔
      (probeLines output).head? = some "wara-ssh-ok" ∧ (probeLines output)[1]? = some version := by
  unfold parseServerCheckOutput
  show (if (probeLines output).head? ≠ some "wara-ssh-ok" then _ else _) = _ ↔ _
  split
  · next hne => exact ⟨fun h => (by cases h), fun h => (hne h.1).elim⟩
  · next heq =>
    rw [ne_eq, not_not] at heq
    cases hv : (probeLines output)[1]? with
    | some v =>
      unfold probeLines at hv
      simp only [hv]
      exact ⟨fun h => ⟨heq, by cases h; rfl⟩, fun h => by cases h.2; rfl⟩
    | none =>
      unfold probeLines at hv
      simp only [hv]
      exact ⟨fun h => (by cases h), fun h => (by cases h.2)⟩

namespace ServerService

variable (x : Ext) (secretKey : String) (transport : Transport)

/-- `checkOutcome` over a transport. -/
def checkOutcomeVia (target : SshTarget) : String × String × String :=
  match transport target serverCheckCommands with
  | .ok output =>
    match parseServerCheckOutput output with
    | .ok version => ("available", version, "")
    | .error error => ("unavailable", "", redactError error.toString target)
  | .error error => ("unavailable", "", redactError error.toString target)

/-- The response of a check. -/
def checkResponse (id : Uuid) (outcome : String × String × String) (checkedAt : String) :
    ServerCheckResponse :=
  ⟨id, if outcome.1 = "available" then "connected" else "failed", outcome.1,
    nonEmpty outcome.2.1, checkedAt, nonEmpty outcome.2.2⟩

/-- `checkServer` over a transport. -/
def checkServerVia (id : Uuid) : Service ServerCheckResponse := do
  let server ← getServer id
  let target ← orThrow (sshTarget x secretKey server)
  let checkedAt := x.toRfc3339 (← now)
  let outcome := checkOutcomeVia transport target
  updateCheckMetadata id outcome.1 outcome.2.1 checkedAt outcome.2.2
  return checkResponse id outcome checkedAt

theorem checkServer_eq (id : Uuid) : checkServer x secretKey id =
    checkServerVia x secretKey runControlledCommands id := rfl

end ServerService

open ServerService

/-! ## The row of a server -/

theorem holds_byId_servers {id : Uuid} {r : ServerRecord} :
    layout.holds (t := .servers) (byId id) r = true ↔ r.id = id := by
  rw [byId, Layout.holds_eq]
  exact ⟨fun h => by cases h; rfl, fun h => by rw [← h]; rfl⟩

/-- The row with the metadata of a check. -/
def ServerRecord.checked (row : ServerRecord) (outcome : String × String × String)
    (checkedAt : String) : ServerRecord :=
  { row with
    dockerStatus := outcome.1
    dockerVersion := outcome.2.1
    lastCheckAt := checkedAt
    lastCheckError := outcome.2.2 }

/-- The servers with the metadata of one of them replaced. -/
def recordCheck (id : Uuid) (outcome : String × String × String) (checkedAt : String)
    (rows : List ServerRecord) : List ServerRecord :=
  rows.map fun row => if row.id = id then row.checked outcome checkedAt else row

/-- Only the servers change, and as given. -/
def ServersBecome (db db' : Db) (rows : List ServerRecord) : Prop :=
  db'.rows .servers = rows ∧ ∀ t, t ≠ .servers → db'.rows t = db.rows t

/-- The positional update of `update_check_metadata`. -/
theorem apply_checkMetadata {db db' : Db} {id : Uuid} {status version checkedAt error : String}
    (h : layout.apply (.update .servers (byId id) [(10, .text status), (11, .text version),
      (12, .text checkedAt), (13, .text error)]) db = some db') :
    ServersBecome db db' (recordCheck id (status, version, error) checkedAt (db.rows .servers)) := by
  refine ⟨?_, fun t ht => Layout.apply_frame h ht⟩
  rw [Layout.apply_update h]
  refine List.map_congr_left fun row _ => ?_
  simp only [holds_byId_servers]
  rfl

theorem checkMetadata_applies (db : Db) (id : Uuid) (status version checkedAt error : String) :
    ∃ db', layout.apply (.update .servers (byId id) [(10, .text status), (11, .text version),
      (12, .text checkedAt), (13, .text error)]) db = some db' := by
  refine Layout.apply_update_isSome fun p hp => ?_
  have hcols : ∀ c ∈ [10, 11, 12, 13], c ∉ layout.unique Table.servers := by decide
  exact hcols p.1 (List.mem_map_of_mem (f := Prod.fst) hp)

/-! ## One check -/

/-- What is stored at the given identifier. -/
def serverAt (db : Db) (id : Uuid) : Option ServerRecord :=
  (layout.select db .servers (byId id)).head?

variable {x : Ext} {secretKey : String} {transport : Transport} {i : Nat} {s s' : World} {id : Uuid}
  {xs : List Ans}

/-- A check that was made: of the stored server, at the one reading of the clock. -/
inductive Checked (x : Ext) (secretKey : String) (transport : Transport) (id : Uuid) (s : World)
    (xs : List Ans) (r : ServerCheckResponse) (s' : World) : Prop
  | mk (row : ServerRecord) (target : SshTarget) (time : DateTime)
    (stored : serverAt s.db id = some row)
    (decrypts : sshTarget x secretKey (Server.from row) = .ok target)
    (reading : readings xs = [time])
    (response : r = checkResponse id (checkOutcomeVia transport target) (x.toRfc3339 time))
    (rows : ServersBecome s.db s'.db (recordCheck id (checkOutcomeVia transport target)
      (x.toRfc3339 time) (s.db.rows .servers)))

/-- A check that ends early leaves everything as it was; without a failed statement it is for a
server that is not there or whose secrets do not decrypt. -/
def CheckEnds (x : Ext) (secretKey : String) (transport : Transport) (id : Uuid) (s : World)
    (xs : List Ans) (r : Except Abort ServerCheckResponse) (s' : World) : Prop :=
  (∃ response, r = .ok response ∧ Checked x secretKey transport id s xs response s') ∨
  (∃ e, r = .error (.api e)) ∧ s'.db = s.db ∧ (NoFailure xs → readings xs = [] ∧
    ∀ row, serverAt s.db id = some row →
      ∃ e, sshTarget x secretKey (Server.from row) = .error e)

theorem yields_checkServerVia : Yields i (checkServerVia x secretKey transport id)
    (CheckEnds x secretKey transport id s) s := by
  unfold checkServerVia getServer updateCheckMetadata
  simp only [bind_assoc]
  refine yields_first (fun e => .inr ⟨⟨_, rfl⟩, rfl, fun h => ?_⟩) ?_
  · exact (h e (by simp)).elim
  refine yields_okOr (fun hnone => .inr ⟨⟨_, rfl⟩, rfl, fun _ => ⟨rfl, ?_⟩⟩) fun server hserver => ?_
  · intro row hrow
    rw [Option.map_eq_none_iff] at hnone
    rw [serverAt, hnone] at hrow
    cases hrow
  obtain ⟨row, hrow, rfl⟩ := Option.map_eq_some_iff.mp hserver
  refine yields_orThrow (fun e he => .inr ⟨⟨_, rfl⟩, rfl, fun _ => ⟨rfl, ?_⟩⟩) fun target htarget => ?_
  · intro row' hrow'
    rw [serverAt, hrow] at hrow'
    cases hrow'
    exact ⟨e, he⟩
  refine yields_now fun time => ?_
  refine yields_update (fun e => .inr ⟨⟨_, rfl⟩, rfl, fun h => ?_⟩) (fun hdup => ?_) fun db hdb => ?_
  · exact (h e (by simp)).elim
  · obtain ⟨db', hdb'⟩ := checkMetadata_applies s.db id _ _ _ _
    rw [hdb'] at hdup
    cases hdup
  · exact yields_pure (.inl ⟨_, rfl, .mk row target time hrow htarget rfl rfl
      (apply_checkMetadata hdb)⟩)

/-! ## What a check reports -/

/-- The response keeps SSH and Docker apart: SSH is connected when the first line is the marker,
Docker available when in addition a version line follows, which is then the version. -/
structure ReportsSeparately (output : String) (r : ServerCheckResponse) : Prop where
  ssh : r.sshStatus = "connected" ↔ (probeLines output).head? = some "wara-ssh-ok"
  docker : r.dockerStatus = "available" ↔
    (probeLines output).head? = some "wara-ssh-ok" ∧ ∃ version, (probeLines output)[1]? = some version
  version : r.dockerVersion =
    if r.dockerStatus = "available" then (probeLines output)[1]? else none

/-- The row of the server agrees with the response; nothing else is changed. -/
def StoresResponse (s : World) (r : ServerCheckResponse) (s' : World) : Prop :=
  ServersBecome s.db s'.db ((s.db.rows .servers : List ServerRecord).map fun row =>
    if row.id = r.serverId then
      { row with
        dockerStatus := r.dockerStatus
        dockerVersion := r.dockerVersion.getD ""
        lastCheckAt := r.checkedAt
        lastCheckError := r.error.getD "" }
    else row)

theorem getD_nonEmpty (value : String) : (nonEmpty value).getD "" = value := by
  unfold nonEmpty
  split
  · next h =>
    rw [List.isEmpty_iff] at h
    exact String.toList_inj.mp (h.symm ▸ rfl)
  · rfl

theorem Checked.stores {r : ServerCheckResponse}
    (h : Checked x secretKey transport id s xs r s') : StoresResponse s r s' := by
  obtain ⟨row, target, time, -, -, -, rfl, hrows⟩ := h
  unfold StoresResponse checkResponse
  simp only [getD_nonEmpty]
  exact hrows

/-- **Where the response keeps SSH and Docker apart.** Not when the marker comes back alone: then
SSH has answered, and is reported as failed. -/
theorem checkResponse_separate_iff {target : SshTarget} {output checkedAt : String}
    (houtput : transport target serverCheckCommands = .ok output) :
    ReportsSeparately output (checkResponse id (checkOutcomeVia transport target) checkedAt) ↔
      ¬ ((probeLines output).head? = some "wara-ssh-ok" ∧ (probeLines output)[1]? = none) := by
  unfold checkOutcomeVia
  rw [houtput]
  dsimp only
  cases hparse : parseServerCheckOutput output with
  | ok version =>
    obtain ⟨hmarker, hversion⟩ := parseServerCheckOutput_ok_iff.mp hparse
    have hne : version.toList.isEmpty = false :=
      ne_empty_of_probeLines (List.mem_of_getElem? hversion)
    rw [hversion]
    refine iff_of_true ⟨?_, ?_, ?_⟩ nofun
    · exact iff_of_true rfl hmarker
    · exact iff_of_true rfl ⟨hmarker, version, hversion⟩
    · show nonEmpty version = _
      rw [nonEmpty, hne, hversion]
      rfl
  | error error =>
    have hnone : (probeLines output).head? = some "wara-ssh-ok" →
        (probeLines output)[1]? = none := by
      intro hmarker
      cases hversion : (probeLines output)[1]? with
      | none => rfl
      | some version =>
        rw [parseServerCheckOutput_ok_iff.mpr ⟨hmarker, hversion⟩] at hparse
        cases hparse
    constructor
    · intro hreports hlines
      have hconnected := hreports.ssh.mpr hlines.1
      revert hconnected
      show "failed" = "connected" → False
      decide
    · intro hlines
      have hmarker : (probeLines output).head? ≠ some "wara-ssh-ok" :=
        fun hmarker => hlines ⟨hmarker, hnone hmarker⟩
      refine ⟨?_, ?_, rfl⟩
      · exact iff_of_false (show ¬ "failed" = "connected" by decide) hmarker
      · exact iff_of_false (show ¬ "unavailable" = "available" by decide) fun h => hmarker h.1

/-- **A check reports SSH and Docker apart unless the marker comes back alone.** What is stored
agrees with the response in any case. -/
theorem checkServer_separate_iff {r : ServerCheckResponse}
    (h : Prog.run exec i (checkServerVia x secretKey transport id) xs s = some (.ok r, s')) :
    ∃ row target time, serverAt s.db id = some row ∧
      sshTarget x secretKey (Server.from row) = .ok target ∧ readings xs = [time] ∧
      r.serverId = id ∧ r.checkedAt = x.toRfc3339 time ∧
      ∀ output, transport target serverCheckCommands = .ok output →
        (ReportsSeparately output r ∧ StoresResponse s r s' ↔
          ¬ ((probeLines output).head? = some "wara-ssh-ok" ∧ (probeLines output)[1]? = none)) := by
  rcases yields_checkServerVia xs _ s' h with ⟨response, hr, hchecked⟩ | ⟨⟨e, he⟩, -⟩
  · cases hr
    have hstores := hchecked.stores
    obtain ⟨row, target, time, hstored, hdecrypts, hreading, rfl, -⟩ := hchecked
    refine ⟨row, target, time, hstored, hdecrypts, hreading, rfl, rfl, fun output houtput => ?_⟩
    rw [and_iff_left hstores]
    exact checkResponse_separate_iff houtput
  · cases he

namespace Symbolic

/-- A server whose key and passphrase are stored under the given key of an instance. -/
def registered (key : String) (id : Uuid) : ServerRecord :=
  ⟨id, "web", "10.0.0.1", 22, "deploy", "ssh-ed25519 AAAA", "SHA256:AAAA",
    encryptSecret sealing key "PRIVATE KEY", some (encryptSecret sealing key "passphrase"), "nginx",
    "available", "24.0.0", seconds 1, ""⟩

def oneServer : World := .start {
  rows := fun
    | .servers => [registered (config "A").secretKey 5]
    | _ => []
  unique := fun t _ _ => by
    cases t <;> first | exact List.nodup_nil | exact List.nodup_singleton _ }

def check (output : String) : Service ServerCheckResponse :=
  checkServerVia sealing (config "A").secretKey (fun _ _ => .ok output) 5

def checkSteps : List Ans := [.done, .time ⟨10000000000⟩, .done]

theorem check_runs : (Prog.run exec 0 (check "wara-ssh-ok\n25.0.0") checkSteps oneServer).map
    (fun r => r.1.isOk) = some true := by decide +kernel

/-- What the transport gives today. -/
theorem checkServer_separate_today : ∃ r s',
    Prog.run exec 0 (check "wara-ssh-ok\n25.0.0") checkSteps oneServer = some (.ok r, s') ∧
      ReportsSeparately "wara-ssh-ok\n25.0.0" r ∧ StoresResponse oneServer r s' := by
  obtain ⟨⟨r, s'⟩, hrun, hr⟩ := Option.map_eq_some_iff.mp check_runs
  rcases r with e | r
  · cases hr
  · obtain ⟨row, target, time, -, -, -, -, -, hiff⟩ := checkServer_separate_iff hrun
    exact ⟨r, s', hrun, (hiff _ rfl).mpr (by decide +kernel)⟩

/-- The marker alone: Docker is not installed, or does not answer. -/
theorem check_markerAlone : (Prog.run exec 0 (check "wara-ssh-ok\n") checkSteps oneServer).map
    (fun r => r.1.map (·.sshStatus)) = some (.ok "failed") := by decide +kernel

theorem checkServer_markerAlone : ¬ ∀ (x : Ext) (secretKey : String) (transport : Transport)
    (i : Nat) (id : Uuid) (s s' : World) (xs : List Ans) (r : ServerCheckResponse)
    (output : String), (∀ target commands, transport target commands = .ok output) →
    Prog.run exec i (checkServerVia x secretKey transport id) xs s = some (.ok r, s') →
    ReportsSeparately output r ∧ StoresResponse s r s' := by
  intro hclaim
  obtain ⟨⟨r, s'⟩, hrun, hr⟩ := Option.map_eq_some_iff.mp check_markerAlone
  rcases r with e | r
  · cases hr
  · have hreports := (hclaim _ _ _ 0 5 _ s' _ r _ (fun _ _ => rfl) hrun).1
    have hmarker : (probeLines "wara-ssh-ok\n").head? = some "wara-ssh-ok" := by decide +kernel
    have hconnected := hreports.ssh.mpr hmarker
    have hfailed : r.sshStatus = "failed" := Except.ok.inj hr
    rw [hconnected] at hfailed
    revert hfailed
    decide

end Symbolic

end Wara
