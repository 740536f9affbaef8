import Mathlib.Data.List.ReduceOption
import Wara.Platform.Checks

/-!
# The sweep over all servers

`check_all_servers` over one transport for each server. The rounds do not touch
each other: every row and every entry of the result is what its own check makes
of it. But a server whose secrets do not decrypt is not checked, and nothing
says so in its row.
-/

namespace Wara

open Interleave Store Service ServerService

namespace ServerService

variable (x : Ext) (secretKey : String) (transports : Uuid → Transport)

/-- `checkAllServers` over one transport for each server. -/
def checkAllServersVia : Service (List ServerCheckResponse) := do
  let servers ← listServers
  let checks ← servers.mapM fun server => do
    return (← attempt (checkServerVia x secretKey (transports server.id) server.id)).toOption
  return checks.reduceOption

theorem checkAllServers_eq : checkAllServers x secretKey =
    checkAllServersVia x secretKey fun _ => runControlledCommands := rfl

/-- A server's row and entry after the sweep, from the row before it, the server's own transport and
the time of its check, if there was one. -/
def afterCheck (row : ServerRecord) (time : Option DateTime) :
    ServerRecord × Option ServerCheckResponse :=
  match sshTarget x secretKey (Server.from row), time with
  | .ok target, some t =>
    let outcome := checkOutcomeVia (transports row.id) target
    (row.checked outcome (x.toRfc3339 t), some (checkResponse row.id outcome (x.toRfc3339 t)))
  | _, _ => (row, none)

/-- The stored key and passphrase decrypt. -/
def Decrypts (row : ServerRecord) : Prop :=
  ∃ target, sshTarget x secretKey (Server.from row) = .ok target

/-- The probe of the server returns the marker and a version. -/
def ProbeSucceeds (row : ServerRecord) : Prop :=
  ∃ target output version, sshTarget x secretKey (Server.from row) = .ok target ∧
    transports row.id target serverCheckCommands = .ok output ∧
    parseServerCheckOutput output = .ok version

end ServerService

variable {x : Ext} {secretKey : String} {transports : Uuid → Transport} {i : Nat} {s s' : World}

/-! ## One server -/

theorem afterCheck_id (row : ServerRecord) (time : Option DateTime) :
    (afterCheck x secretKey transports row time).1.id = row.id := by
  unfold afterCheck
  split <;> rfl

theorem afterCheck_none (row : ServerRecord) :
    afterCheck x secretKey transports row none = (row, none) := by
  unfold afterCheck
  split
  · next h => cases h
  · rfl

theorem afterCheck_some {row : ServerRecord} {target : SshTarget} {t : DateTime}
    (h : sshTarget x secretKey (Server.from row) = .ok target) :
    afterCheck x secretKey transports row (some t) =
      (row.checked (checkOutcomeVia (transports row.id) target) (x.toRfc3339 t),
        some (checkResponse row.id (checkOutcomeVia (transports row.id) target)
          (x.toRfc3339 t))) := by
  unfold afterCheck
  rw [h]

theorem lastCheckAt_afterCheck {row : ServerRecord} {t : DateTime}
    (h : Decrypts x secretKey row) :
    (afterCheck x secretKey transports row (some t)).1.lastCheckAt = x.toRfc3339 t := by
  obtain ⟨target, htarget⟩ := h
  rw [afterCheck_some htarget]
  rfl

theorem unavailable_ne : ¬ "unavailable" = "available" := by decide

/-- A check does not change what the next one connects to. -/
theorem available_afterCheck {row : ServerRecord} {t : DateTime} (h : Decrypts x secretKey row)
    (havailable : (afterCheck x secretKey transports row (some t)).1.dockerStatus = "available") :
    ProbeSucceeds x secretKey transports (afterCheck x secretKey transports row (some t)).1 := by
  obtain ⟨target, htarget⟩ := h
  rw [afterCheck_some htarget] at havailable ⊢
  have hstatus : (checkOutcomeVia (transports row.id) target).1 = "available" := havailable
  unfold checkOutcomeVia at hstatus
  split at hstatus
  · next output houtput =>
    split at hstatus
    · next version hversion => exact ⟨target, output, version, htarget, houtput, hversion⟩
    · exact (unavailable_ne hstatus).elim
  · exact (unavailable_ne hstatus).elim

/-! ## The rounds -/

/-- A time for each server that decrypts, and for no other. -/
def Timed (x : Ext) (secretKey : String) (rows : List ServerRecord)
    (times : List (Option DateTime)) : Prop :=
  List.Forall₂ (fun row time => time.isSome = true ↔ Decrypts x secretKey row) rows times

/-- The rows after the sweep. -/
def sweptRows (x : Ext) (secretKey : String) (transports : Uuid → Transport)
    (rows : List ServerRecord) (times : List (Option DateTime)) : List ServerRecord :=
  List.zipWith (fun row time => (afterCheck x secretKey transports row time).1) rows times

/-- The entries of the result, one for each server. -/
def sweptEntries (x : Ext) (secretKey : String) (transports : Uuid → Transport)
    (rows : List ServerRecord) (times : List (Option DateTime)) :
    List (Option ServerCheckResponse) :=
  List.zipWith (fun row time => (afterCheck x secretKey transports row time).2) rows times

/-- No two servers have one identifier. -/
theorem servers_apart {db : Db} {done rows : List ServerRecord} {row : ServerRecord}
    (h : db.rows .servers = done ++ row :: rows) {r : ServerRecord} (hr : r ∈ done ++ rows) :
    r.id ≠ row.id := by
  have hnodup := db.unique .servers 0 (by decide)
  rw [h, List.map_append, List.map_cons] at hnodup
  intro hid
  have hcol : layout.col (t := .servers) 0 r = layout.col (t := .servers) 0 row :=
    congrArg (fun id => some (Value.uuid id)) hid
  rcases List.mem_append.mp hr with hr | hr
  · refine (List.nodup_append.mp hnodup).2.2 _ (List.mem_map_of_mem hr) _ List.mem_cons_self hcol
  · exact (List.nodup_cons.mp (List.nodup_append.mp hnodup).2.1).1 (hcol ▸ List.mem_map_of_mem hr)

/-- The metadata of the next server is replaced. -/
theorem recordCheck_next {db : Db} {done rows : List ServerRecord} {row : ServerRecord}
    {outcome : String × String × String} {checkedAt : String}
    (h : db.rows .servers = done ++ row :: rows) :
    recordCheck row.id outcome checkedAt (done ++ row :: rows) =
      done ++ row.checked outcome checkedAt :: rows := by
  have hkeep : ∀ l : List ServerRecord, (∀ r ∈ l, r ∈ done ++ rows) →
      recordCheck row.id outcome checkedAt l = l := by
    intro l hl
    unfold recordCheck
    refine (List.map_congr_left fun r hr => ?_).trans (List.map_id l)
    exact if_neg (servers_apart h (hl r hr))
  have hdone := hkeep done fun r hr => List.mem_append_left _ hr
  have hrows := hkeep rows fun r hr => List.mem_append_right _ hr
  unfold recordCheck at hdone hrows ⊢
  rw [List.map_append, List.map_cons, if_pos rfl, hdone, hrows]

theorem serverAt_next {db : Db} {done rows : List ServerRecord} {row : ServerRecord}
    (h : db.rows .servers = done ++ row :: rows) : serverAt db row.id = some row := by
  have hmem : row ∈ db.rows .servers := by
    rw [h]
    exact List.mem_append_right _ List.mem_cons_self
  exact Layout.head?_select (by decide) hmem rfl

theorem ServersBecome.trans {db₁ db₂ db₃ : Db} {rows₂ rows₃ : List ServerRecord}
    (h : ServersBecome db₁ db₂ rows₂) (h' : ServersBecome db₂ db₃ rows₃) :
    ServersBecome db₁ db₃ rows₃ :=
  ⟨h'.1, fun t ht => (h'.2 t ht).trans (h.2 t ht)⟩

/-- How the rounds over `rows` end, with the servers in `done` behind them, when no statement fails:
the rest of the rows and the entries are those of each server's own check. -/
def RoundsEnd (x : Ext) (secretKey : String) (transports : Uuid → Transport)
    (done rows : List ServerRecord) (s : World) (xs : List Ans)
    (r : Except Abort (List (Option ServerCheckResponse))) (s' : World) : Prop :=
  NoFailure xs → ∃ times, Timed x secretKey rows times ∧ readings xs = times.reduceOption ∧
    r = .ok (sweptEntries x secretKey transports rows times) ∧
    ServersBecome s.db s'.db (done ++ sweptRows x secretKey transports rows times)

/-- A round and the rounds after it. -/
theorem RoundsEnd.cons {done rows : List ServerRecord} {row : ServerRecord}
    {time : Option DateTime} {s₁ s₂ : World} {xs ys : List Ans}
    {r : Except Abort (List (Option ServerCheckResponse))}
    (htimed : time.isSome = true ↔ Decrypts x secretKey row) (hreading : readings xs = time.toList)
    (hbecome : ServersBecome s.db s₁.db
      (done ++ (afterCheck x secretKey transports row time).1 :: rows))
    (hrest : RoundsEnd x secretKey transports
      (done ++ [(afterCheck x secretKey transports row time).1]) rows s₁ ys r s₂)
    (hno : NoFailure ys) :
    ∃ times, Timed x secretKey (row :: rows) times ∧
      readings (xs ++ ys) = times.reduceOption ∧
      r.map ((afterCheck x secretKey transports row time).2 :: ·) =
        .ok (sweptEntries x secretKey transports (row :: rows) times) ∧
      ServersBecome s.db s₂.db (done ++ sweptRows x secretKey transports (row :: rows) times) := by
  obtain ⟨times, htimes, hreadings, rfl, hrows⟩ := hrest hno
  rw [List.append_assoc] at hrows
  refine ⟨time :: times, .cons htimed htimes, ?_, rfl, hbecome.trans hrows⟩
  rw [readings_append, hreading, hreadings]
  cases time <;> rfl

/-- **The loop.** -/
theorem yields_rounds {done rows : List ServerRecord} (h : s.db.rows .servers = done ++ rows) :
    Yields i ((rows.map Server.from).mapM fun server => do
        return (← attempt (checkServerVia x secretKey (transports server.id) server.id)).toOption)
      (RoundsEnd x secretKey transports done rows s) s := by
  induction rows generalizing done s with
  | nil =>
    rw [List.map_nil, List.mapM_nil]
    exact yields_pure fun _ => ⟨[], .nil, rfl, rfl, h, fun _ _ => rfl⟩
  | cons row rows ih =>
    rw [List.map_cons, List.mapM_cons, bind_assoc]
    refine yields_attempt (Yields.mono yields_checkServerVia fun xs r s₁ hr => ?_)
    rcases hr with ⟨response, rfl, hchecked⟩ | ⟨⟨e, rfl⟩, hdb, hskipped⟩
    · obtain ⟨row', target, time, hstored, hdecrypts, hreading, rfl, hbecome⟩ := hchecked
      rw [show (Server.from row).id = row.id from rfl, serverAt_next h] at hstored
      cases hstored
      have hafter : afterCheck x secretKey transports row (some time) = _ :=
        afterCheck_some hdecrypts
      have hrow : ServersBecome s.db s₁.db
          (done ++ (afterCheck x secretKey transports row (some time)).1 :: rows) := by
        rw [hafter, ← recordCheck_next h, ← h]
        exact hbecome
      have hnext : s₁.db.rows .servers =
          (done ++ [(afterCheck x secretKey transports row (some time)).1]) ++ rows := by
        rw [hrow.1, List.append_assoc]
        rfl
      dsimp only
      rw [pure_bind]
      refine yields_bind_pure (Yields.mono (ih hnext) fun ys r s₂ hrest hno => ?_)
      have hcons := RoundsEnd.cons (iff_of_true rfl ⟨target, hdecrypts⟩) hreading hrow hrest
        (noFailure_append.mp hno).2
      rw [hafter] at hcons
      exact hcons
    · have hrow : ServersBecome s.db s₁.db
          (done ++ (afterCheck x secretKey transports row none).1 :: rows) := by
        rw [afterCheck_none, hdb]
        exact ⟨h, fun _ _ => rfl⟩
      have hnext : s₁.db.rows .servers =
          (done ++ [(afterCheck x secretKey transports row none).1]) ++ rows := by
        rw [hrow.1, List.append_assoc]
        rfl
      dsimp only
      rw [pure_bind]
      refine yields_bind_pure (Yields.mono (ih hnext) fun ys r s₂ hrest hno => ?_)
      obtain ⟨hreading, herror⟩ := hskipped (noFailure_append.mp hno).1
      obtain ⟨e, he⟩ := herror row (serverAt_next h)
      have hsealed : ¬ Decrypts x secretKey row := by
        rintro ⟨target, htarget⟩
        rw [he] at htarget
        cases htarget
      have hcons := RoundsEnd.cons (iff_of_false (by decide) hsealed) hreading hrow hrest
        (noFailure_append.mp hno).2
      rw [afterCheck_none] at hcons
      exact hcons

/-! ## The sweep -/

/-- Every row and every entry is what its own check makes of the server, at its own time if it has
one: the times are the clock readings, in the order of the servers. -/
def OnItsOwn (x : Ext) (secretKey : String) (transports : Uuid → Transport) (s : World)
    (xs : List Ans) (result : List ServerCheckResponse) (s' : World)
    (times : List (Option DateTime)) : Prop :=
  readings xs = times.reduceOption ∧ times.length = (s.db.rows .servers).length ∧
  result = (sweptEntries x secretKey transports (s.db.rows .servers) times).reduceOption ∧
  ServersBecome s.db s'.db (sweptRows x secretKey transports (s.db.rows .servers) times)

/-- A sweep that leaves no stale status. -/
structure SweepFresh (x : Ext) (secretKey : String) (transports : Uuid → Transport) (s : World)
    (xs : List Ans) (result : List ServerCheckResponse) (s' : World) : Prop where
  /-- Each server, in order, has a `last_check_at` that was read from the clock for it. -/
  checked : List.Forall₂ (fun (row : ServerRecord) t => ∃ row' : ServerRecord,
    row' ∈ s'.db.rows .servers ∧ row'.id = row.id ∧ row'.lastCheckAt = x.toRfc3339 t)
    (s.db.rows .servers) (readings xs)
  /-- A server is available only if its own probe has succeeded. -/
  available : ∀ row : ServerRecord, row ∈ s'.db.rows .servers → row.dockerStatus = "available" →
    ProbeSucceeds x secretKey transports row
  independent : ∃ times, OnItsOwn x secretKey transports s xs result s' times

theorem yields_checkAllServersVia :
    Yields i (checkAllServersVia x secretKey transports) (fun xs r s' => NoFailure xs →
      ∃ times result, r = .ok result ∧ Timed x secretKey (s.db.rows .servers) times ∧
        OnItsOwn x secretKey transports s xs result s' times) s := by
  unfold checkAllServersVia listServers
  simp only [bind_assoc, pure_bind]
  refine yields_query (fun e h => (h e (List.mem_singleton_self _)).elim) ?_
  have hselect : layout.select s.db .servers .all = [] ++ s.db.rows .servers :=
    List.filter_eq_self.mpr fun _ _ => rfl
  rw [hselect, List.nil_append]
  refine yields_bind_pure (Yields.mono (yields_rounds (List.nil_append _).symm)
    fun xs r s' hr hno => ?_)
  have hdone : ∀ e, Ans.done ≠ .fail e := nofun
  obtain ⟨times, htimes, hreadings, rfl, hrows⟩ := hr ((noFailure_cons hdone).mp hno)
  exact ⟨times, _, rfl, htimes, hreadings, htimes.length_eq.symm, rfl, hrows⟩

/-- When all servers decrypt, all have a time. -/
theorem Timed.all_some {rows : List ServerRecord} {times : List (Option DateTime)}
    (h : Timed x secretKey rows times) (hall : ∀ row ∈ rows, Decrypts x secretKey row) :
    times = times.reduceOption.map some := by
  induction h with
  | nil => rfl
  | cons hrow _ ih =>
    obtain ⟨t, rfl⟩ := Option.isSome_iff_exists.mp (hrow.mpr (hall _ List.mem_cons_self))
    rw [List.reduceOption_cons_of_some, List.map_cons,
      ← ih fun r hr => hall r (List.mem_cons_of_mem _ hr)]

/-- As many readings as servers: each server had one. -/
theorem Timed.decrypts {rows : List ServerRecord} {times : List (Option DateTime)}
    (h : Timed x secretKey rows times) (hlen : times.reduceOption.length = rows.length) :
    ∀ row ∈ rows, Decrypts x secretKey row := by
  rw [List.Forall₂.length_eq h, List.reduceOption_length_eq_iff] at hlen
  induction h with
  | nil => nofun
  | cons hrow _ ih =>
    intro row hmem
    rcases List.mem_cons.mp hmem with rfl | hmem
    · exact hrow.mp (hlen _ List.mem_cons_self)
    · exact ih (fun time ht => hlen time (List.mem_cons_of_mem _ ht)) row hmem

theorem mem_sweptRows {rows : List ServerRecord} {times : List (Option DateTime)}
    {row' : ServerRecord} (h : row' ∈ sweptRows x secretKey transports rows times) :
    ∃ row ∈ rows, ∃ time ∈ times, row' = (afterCheck x secretKey transports row time).1 := by
  unfold sweptRows at h
  rw [← List.map_uncurry_zip_eq_zipWith] at h
  obtain ⟨⟨row, time⟩, hmem, rfl⟩ := List.mem_map.mp h
  obtain ⟨hrow, htime⟩ := List.of_mem_zip hmem
  exact ⟨row, hrow, time, htime, rfl⟩

theorem sweptRows_checked {rows : List ServerRecord} {ts : List DateTime}
    (hlen : rows.length = ts.length) (hall : ∀ row ∈ rows, Decrypts x secretKey row) :
    List.Forall₂ (fun (row : ServerRecord) t => ∃ row' : ServerRecord,
      row' ∈ sweptRows x secretKey transports rows (ts.map some) ∧ row'.id = row.id ∧
        row'.lastCheckAt = x.toRfc3339 t) rows ts := by
  induction rows generalizing ts with
  | nil =>
    rw [List.length_eq_zero_iff.mp hlen.symm]
    exact .nil
  | cons row rows ih =>
    cases ts with
    | nil => cases hlen
    | cons t ts =>
      have hrest := ih (Nat.succ.inj hlen) fun r hr => hall r (List.mem_cons_of_mem _ hr)
      refine .cons ⟨_, List.mem_cons_self, afterCheck_id row (some t), ?_⟩
        (hrest.imp fun _ _ ⟨row', hmem, heq⟩ => ⟨row', List.mem_cons_of_mem _ hmem, heq⟩)
      exact lastCheckAt_afterCheck (hall row List.mem_cons_self)

/-- **A completed sweep is fresh if and only if every server's stored secrets decrypt.** A server
whose key material does not decrypt is passed over, with its old status in place. -/
theorem sweep_fresh_iff {xs : List Ans} {result : List ServerCheckResponse}
    (h : Prog.run exec i (checkAllServersVia x secretKey transports) xs s = some (.ok result, s'))
    (hno : NoFailure xs) :
    SweepFresh x secretKey transports s xs result s' ↔
      ∀ row : ServerRecord, row ∈ s.db.rows .servers → Decrypts x secretKey row := by
  obtain ⟨times, result', hresult, htimed, hown⟩ := yields_checkAllServersVia xs _ s' h hno
  cases hresult
  obtain ⟨hreadings, -, -, hbecome⟩ := id hown
  constructor
  · intro hfresh
    refine htimed.decrypts ?_
    rw [← hreadings]
    exact hfresh.checked.length_eq.symm
  · intro hall
    have hsome := htimed.all_some hall
    rw [← hreadings] at hsome
    have hrows := hbecome.1
    have hlen : (s.db.rows .servers).length = (readings xs).length := by
      rw [htimed.length_eq, hsome, List.length_map]
    refine ⟨?_, fun row' hmem havailable => ?_, times, hown⟩
    · rw [hrows, hsome]
      exact sweptRows_checked hlen hall
    · rw [hrows] at hmem
      obtain ⟨row, hrow, time, htime, rfl⟩ := mem_sweptRows hmem
      rw [hsome] at htime
      obtain ⟨t, -, rfl⟩ := List.mem_map.mp htime
      exact available_afterCheck (hall row hrow) havailable

namespace Symbolic

/-- Two servers, one of them with a key that is no ciphertext. -/
def twoServers (encryptedPrivateKey : String) : World := .start {
  rows := fun
    | .servers => [{ registered (config "A").secretKey 5 with
        encryptedPrivateKey := encryptedPrivateKey }, registered (config "A").secretKey 6]
    | _ => []
  unique := fun t c hc => by
    have hkeys : [some (Value.uuid 5), some (.uuid 6)].Nodup := by decide
    cases t
    case servers =>
      obtain rfl : c = 0 := List.mem_singleton.mp hc
      exact hkeys
    all_goals exact List.nodup_nil }

/-- The first server cannot be reached, the second one answers. -/
def answers (id : Uuid) : Transport := fun _ _ =>
  if id = 5 then .error (.ssh "connection refused") else .ok "wara-ssh-ok\n25.0.0\n"

def sweepAll : Service (List ServerCheckResponse) :=
  checkAllServersVia sealing (config "A").secretKey answers

def sealedKey : String := encryptSecret sealing (config "A").secretKey "PRIVATE KEY"

def sweepSteps : List Ans :=
  [.done, .done, .time ⟨10000000000⟩, .done, .done, .time ⟨11000000000⟩, .done]

theorem sweep_runs : (Prog.run exec 0 sweepAll sweepSteps (twoServers sealedKey)).map
    (fun r => r.1.isOk) = some true := by decide +kernel

theorem twoServers_decrypt : ∀ row : ServerRecord, row ∈ (twoServers sealedKey).db.rows .servers →
    (sshTarget sealing (config "A").secretKey (Server.from row)).isOk = true := by decide +kernel

/-- One server fails, the sweep is fresh. -/
theorem sweep_fresh_two : ∃ result s', Prog.run exec 0 sweepAll sweepSteps (twoServers sealedKey) =
      some (.ok result, s') ∧
    SweepFresh sealing (config "A").secretKey answers (twoServers sealedKey) sweepSteps result s' := by
  obtain ⟨⟨r, s'⟩, hrun, hr⟩ := Option.map_eq_some_iff.mp sweep_runs
  rcases r with e | result
  · cases hr
  · refine ⟨result, s', hrun, (sweep_fresh_iff hrun ?_).mpr fun row hrow => ?_⟩
    · intro e he
      revert he
      simp [sweepSteps]
    · have hok := twoServers_decrypt row hrow
      unfold Decrypts
      generalize sshTarget sealing (config "A").secretKey (Server.from row) = r at hok ⊢
      cases r with
      | error e => cases hok
      | ok target => exact ⟨target, rfl⟩

/-- The first server's key does not decrypt: it keeps its status from before. -/
theorem sweep_stale : (Prog.run exec 0 sweepAll [.done, .done, .done, .time ⟨11000000000⟩, .done]
    (twoServers "?")).map (fun r => r.1.isOk) = some true := by decide +kernel

theorem sweep_not_fresh : ¬ ∀ (x : Ext) (secretKey : String) (transports : Uuid → Transport)
    (i : Nat) (s s' : World) (xs : List Ans) (result : List ServerCheckResponse),
    Prog.run exec i (checkAllServersVia x secretKey transports) xs s = some (.ok result, s') →
    NoFailure xs → SweepFresh x secretKey transports s xs result s' := by
  intro hclaim
  obtain ⟨⟨r, s'⟩, hrun, hr⟩ := Option.map_eq_some_iff.mp sweep_stale
  rcases r with e | result
  · cases hr
  · have hno : NoFailure [.done, .done, .done, .time ⟨11000000000⟩, .done] := by
      intro e he
      revert he
      simp
    have hfresh := hclaim _ _ _ 0 (twoServers "?") s' _ result hrun hno
    have hlen := hfresh.checked.length_eq
    revert hlen
    show ¬ (2 = 1)
    decide

end Symbolic

end Wara
